import ServerConf.Proofs.WordReading

/-!
Conditions and path lists: a reading that succeeds has found one of the grammar,
and it succeeds on each of them.
-/

namespace ServerConf

namespace Grammar

theorem Balanced.nil_iff {inner : Nat} : Balanced inner [] ↔ inner = 0 := by
  simp [Balanced, eq_comm]

theorem Balanced.cons_iff {inner : Nat} {t : Token} {ts : List Token} :
    Balanced inner (t :: ts) ↔
      ¬ (t.kind = .closeParen ∧ inner = 0) ∧
        Balanced (Reader.nesting inner t.kind) ts := by
  have shifted : Balanced inner (t :: ts) ↔
      (∀ before, before <+: ts → (t :: before).countP (·.kind = .closeParen) ≤
        inner + (t :: before).countP (·.kind = .openParen)) ∧
      (t :: ts).countP (·.kind = .closeParen) =
        inner + (t :: ts).countP (·.kind = .openParen) := by
    simp only [Balanced, List.prefix_cons_iff]
    refine and_congr_left fun _ => ⟨fun never before initial => ?_, ?_⟩
    · exact never _ (.inr ⟨before, rfl, initial⟩)
    · rintro never _ (rfl | ⟨before, rfl, initial⟩)
      · simp
      · exact never before initial
  rw [shifted]
  by_cases closes : t.kind = .closeParen
  · simp only [List.countP_cons, closes, Reader.nesting, Balanced, decide_true,
      if_true, reduceCtorEq, decide_false, Bool.false_eq_true,
      if_false, true_and]
    constructor
    · rintro ⟨never, total⟩
      have first := never [] (by simp)
      rw [List.countP_nil, List.countP_nil] at first
      refine ⟨by omega, fun before initial => ?_, by omega⟩
      have := never before initial
      omega
    · rintro ⟨positive, never, total⟩
      refine ⟨fun before initial => ?_, by omega⟩
      have := never before initial
      omega
  · by_cases opens : t.kind = .openParen
    · simp [opens, Reader.nesting, Balanced, Nat.add_assoc, Nat.add_comm 1]
    · simp [closes, opens, Reader.nesting, Balanced]

theorem Balanced.reference_iff
    {inner : Nat} (ref : Reference) {ts : List Token} :
    Balanced inner (ref.tokens ++ ts) ↔ Balanced inner ts := by
  obtain ⟨sign, opening, name, _ | ⟨comma, value⟩, closing⟩ := ref <;>
    simp [Reference.tokens, Reference.following, cons_iff, Reader.nesting]

theorem Balanced.part_iff {inner : Nat} (part : Part) {ts : List Token} :
    Balanced inner (part.tokens ++ ts) ↔
      ¬ (part.first.kind = .closeParen ∧ inner = 0) ∧
        Balanced (Reader.nesting inner part.first.kind) ts := by
  cases part with
  | plain t other => exact cons_iff
  | reference ref =>
      rw [show (Part.reference ref).tokens = ref.tokens from rfl, reference_iff]
      simp [Part.first, Reader.nesting]

def Inner (t : Token) : Prop :=
  t.kind ≠ .openBrace ∧ t.kind ≠ .semicolon

theorem Reference.inner (ref : Reference) : ∀ t ∈ ref.tokens, Inner t := by
  obtain ⟨sign, opening, name, _ | ⟨comma, value⟩, closing⟩ := ref <;>
    simp [Reference.tokens, Reference.following, Inner]

theorem Part.inner {part : Part} (first : Inner part.first) :
    ∀ t ∈ part.tokens, Inner t := by
  cases part with
  | plain t other => simpa [Part.tokens, Part.following] using first
  | reference ref => exact ref.inner

theorem inner_of_isGlue {t : Token} (glue : t.kind.isGlue = true) :
    Inner t := by
  constructor <;> intro same <;>
    simp [same, TokenKind.isGlue, TokenKind.isWord] at glue

theorem Word.inner {w : Word} (first : Inner w.first.first) :
    ∀ t ∈ w.tokens, Inner t := by
  induction w using Word.recursion with
  | single part =>
      rw [Word.tokens_single]
      exact Part.inner first
  | cons part w glued induction =>
      rw [Word.tokens_cons]
      intro t member
      rcases List.mem_append.1 member with inPart | inWord
      · exact Part.inner first t inPart
      · exact induction (inner_of_isGlue glued.1) t inWord

theorem Term.inner {term : Term}
    (argument : isArgument term.first.kind = true) :
    ∀ t ∈ term.tokens, Inner t := by
  obtain ⟨noSemicolon, noOpen, _⟩ := not_punctuation_of_isArgument argument
  cases term with
  | quoted t => simp [Term.tokens, Inner]
  | word w unquoted => exact Word.inner ⟨noOpen, noSemicolon⟩

theorem isArgument_of_isName {kind : TokenKind} (isName : kind.isName = true) :
    isArgument kind = true := by
  simp [isArgument, isName]

theorem Header.inner (header : Header) : ∀ t ∈ header.tokens, Inner t := by
  intro t member
  rcases List.mem_append.1 member with inName | inArgs
  · exact Term.inner (isArgument_of_isName header.nameKind) t inName
  · obtain ⟨arg, ofArgs, inArg⟩ := List.mem_flatMap.1 inArgs
    exact Term.inner (header.argKinds arg ofArgs) t inArg

end Grammar

namespace Reader

open Grammar

variable {r : Reader}

theorem conditionPart_sound
    {t : Token} {ts rest : List Token} {kept : ConditionPart}
    (read : r.conditionPart t ts = .ok (kept, rest)) :
    ∃ part : Part, part.first = t ∧ part.following ++ rest = ts ∧
      part.kept? r.env = some kept := by
  unfold conditionPart at read
  split at read
  · rename_i isSign
    obtain ⟨⟨⟨value, close⟩, after⟩, found, same⟩ := map_ok read
    obtain ⟨ref, rfl, whole, settled, rfl⟩ := reference_sound isSign found
    cases same
    refine ⟨.reference ref, rfl, whole, ?_⟩
    simp [Part.kept?, Part.written?, Part.first, Part.last, settled]
  · rename_i other
    cases read
    exact ⟨.plain t other, rfl, rfl, rfl⟩

theorem conditionPart_complete (part : Part) {kept : ConditionPart}
    (settled : part.kept? r.env = some kept) (rest : List Token) :
    r.conditionPart part.first (part.following ++ rest) = .ok (kept, rest) := by
  obtain ⟨text, written, rfl⟩ := Option.map_eq_some_iff.1 settled
  cases part with
  | plain t other =>
      cases written
      simp [conditionPart, Part.first, Part.following, Part.last, other]
  | reference ref =>
      simp [conditionPart, Part.first, Part.following, Part.last,
        reference_complete ref written]

theorem bareCondition_sound {ts rest : List Token} {kept : List ConditionPart}
    (read : r.bareCondition ts = .ok (kept, rest)) :
    ∃ parts : List Part, Part.tokensOf parts ++ rest = ts ∧
      parts.mapM (Part.kept? r.env) = some kept ∧
      ∀ part ∈ parts, part.first.kind ≠ .openBrace := by
  fun_induction bareCondition r ts generalizing kept rest with
  | case1 | case2 =>
      cases read
      exact ⟨[], rfl, rfl, by simp⟩
  | case3 => cases read
  | case4 t tail noBrace first next found shorter induction =>
      obtain ⟨⟨more, after⟩, deeper, same⟩ := map_ok read
      cases same
      obtain ⟨part, rfl, rfl, settled⟩ := conditionPart_sound found
      obtain ⟨parts, rfl, values, noBraces⟩ := induction deeper
      refine ⟨part :: parts, ?_, ?_, List.forall_mem_cons.2 ⟨noBrace, noBraces⟩⟩
      · simp [Part.tokens]
      · simp [settled, values]

theorem bareCondition_eq_of_part
    {t : Token} {ts next : List Token} {kept : ConditionPart}
    (found : r.conditionPart t ts = .ok (kept, next))
    (noBrace : t.kind ≠ .openBrace) :
    r.bareCondition (t :: ts) =
      (r.bareCondition next).map fun (more, after) =>
        (kept :: more, after) := by
  rw [bareCondition, if_neg noBrace]
  split
  · rename_i failed
    rw [found] at failed
    cases failed
  · rename_i same
    rw [found] at same
    cases same
    rfl

theorem bareCondition_complete {parts : List Part} {kept : List ConditionPart}
    (settled : parts.mapM (Part.kept? r.env) = some kept)
    (noBraces : ∀ part ∈ parts, part.first.kind ≠ .openBrace)
    (brace : Token.Of .openBrace) (rest : List Token) :
    r.bareCondition (Part.tokensOf parts ++ brace.1 :: rest) =
      .ok (kept, brace.1 :: rest) := by
  induction parts generalizing kept with
  | nil =>
      cases settled
      simp [bareCondition]
  | cons part parts induction =>
      obtain ⟨first, ofPart, more, ofParts, rfl⟩ :
          ∃ first, part.kept? r.env = some first ∧ ∃ more,
          parts.mapM (Part.kept? r.env) = some more ∧ first :: more = kept := by
        simpa [Option.bind_eq_some_iff] using settled
      obtain ⟨noBrace, others⟩ := List.forall_mem_cons.1 noBraces
      have found := conditionPart_complete part ofPart
        (Part.tokensOf parts ++ brace.1 :: rest)
      rw [Part.tokensOf_cons, Part.tokens, List.append_assoc, List.cons_append,
        bareCondition_eq_of_part found noBrace, induction ofParts others]
      rfl

theorem parenCondition_sound
    {inner : Nat} {ts rest : List Token} {kept : List ConditionPart}
    (read : r.parenCondition inner ts = .ok (kept, rest)) :
    ∃ (parts : List Part) (closing : Token.Of .closeParen),
      Part.tokensOf parts ++ closing.1 :: rest = ts ∧
      parts.mapM (Part.kept? r.env) = some kept ∧
      (∀ part ∈ parts, part.first.kind ≠ .openBrace) ∧
      Balanced inner (Part.tokensOf parts) := by
  fun_induction parenCondition r inner ts generalizing kept rest with
  | case1 | case2 | case4 => cases read
  | case3 inner t tail noBrace closes =>
      cases read
      obtain ⟨closing, rfl⟩ : t.kind = .closeParen ∧ inner = 0 := by
        simpa using closes
      exact ⟨[], ⟨t, closing⟩, rfl, rfl, by simp, Balanced.nil_iff.2 rfl⟩
  | case5 inner t tail noBrace stays first next found shorter induction =>
      obtain ⟨⟨more, after⟩, deeper, same⟩ := map_ok read
      cases same
      obtain ⟨part, rfl, rfl, settled⟩ := conditionPart_sound found
      obtain ⟨parts, closing, rfl, values, noBraces, balanced⟩ :=
        induction deeper
      refine ⟨part :: parts, closing, ?_, ?_,
        List.forall_mem_cons.2 ⟨noBrace, noBraces⟩, ?_⟩
      · simp [Part.tokens]
      · simp [settled, values]
      · exact (Balanced.part_iff part).2 ⟨by simpa using stays, balanced⟩

theorem parenCondition_eq_of_part
    {inner : Nat} {t : Token} {ts next : List Token} {kept : ConditionPart}
    (found : r.conditionPart t ts = .ok (kept, next))
    (noBrace : t.kind ≠ .openBrace)
    (stays : ¬ (t.kind = .closeParen ∧ inner = 0)) :
    r.parenCondition inner (t :: ts) =
      (r.parenCondition (nesting inner t.kind) next).map
        fun (more, after) => (kept :: more, after) := by
  rw [parenCondition, if_neg noBrace, if_neg (by simpa using stays)]
  split
  · rename_i failed
    rw [found] at failed
    cases failed
  · rename_i same
    rw [found] at same
    cases same
    rfl

theorem parenCondition_complete
    {inner : Nat} {parts : List Part} {kept : List ConditionPart}
    (settled : parts.mapM (Part.kept? r.env) = some kept)
    (noBraces : ∀ part ∈ parts, part.first.kind ≠ .openBrace)
    (balanced : Balanced inner (Part.tokensOf parts))
    (closing : Token.Of .closeParen) (rest : List Token) :
    r.parenCondition inner (Part.tokensOf parts ++ closing.1 :: rest) =
      .ok (kept, rest) := by
  induction parts generalizing inner kept with
  | nil =>
      cases settled
      obtain rfl := Balanced.nil_iff.1 balanced
      simp [parenCondition]
  | cons part parts induction =>
      obtain ⟨first, ofPart, more, ofParts, rfl⟩ :
          ∃ first, part.kept? r.env = some first ∧ ∃ more,
          parts.mapM (Part.kept? r.env) = some more ∧ first :: more = kept := by
        simpa [Option.bind_eq_some_iff] using settled
      obtain ⟨noBrace, others⟩ := List.forall_mem_cons.1 noBraces
      obtain ⟨stays, inside⟩ := (Balanced.part_iff part).1 balanced
      have found := conditionPart_complete part ofPart
        (Part.tokensOf parts ++ closing.1 :: rest)
      rw [Part.tokensOf_cons, Part.tokens, List.append_assoc, List.cons_append,
        parenCondition_eq_of_part found noBrace stays,
        induction ofParts others inside]
      rfl

theorem noBrace_of_first {parts : List Part}
    (noBraces : ∀ part ∈ parts, part.first.kind ≠ .openBrace) :
    ∀ t ∈ Part.tokensOf parts, t.kind ≠ .openBrace := by
  intro t member
  obtain ⟨part, ofParts, inPart⟩ := List.mem_flatMap.1 member
  cases part with
  | plain u other =>
      obtain rfl : t = u := by
        simpa [Part.tokens, Part.first, Part.following] using inPart
      exact noBraces _ ofParts
  | reference ref => exact (ref.inner t inPart).1

theorem first_noBrace {parts : List Part}
    (noBrace : ∀ t ∈ Part.tokensOf parts, t.kind ≠ .openBrace) :
    ∀ part ∈ parts, part.first.kind ≠ .openBrace :=
  fun part member =>
    noBrace _ (List.mem_flatMap.2 ⟨part, member, by simp [Part.tokens]⟩)

theorem condition_sound {ts rest : List Token} {args : List String}
    (read : r.condition ts = .ok (args, rest)) :
    ∃ c : Condition, c.tokens ++ rest = ts ∧ c.args? r.env = some args := by
  cases ts with
  | nil =>
      cases read
      exact ⟨.bare [] (by simp) (by simp), rfl, rfl⟩
  | cons t ts =>
      obtain ⟨⟨kept, after⟩, found, same⟩ := map_ok read
      cases same
      split at found
      · rename_i opens
        obtain ⟨parts, closing, rfl, values, noBraces, balanced⟩ :=
          parenCondition_sound found
        refine
          ⟨.enclosed ⟨t, opens⟩ parts closing (noBrace_of_first noBraces)
            balanced, ?_, ?_⟩
        · simp [Condition.tokens]
        · simp [Condition.args?, Condition.parts, values]
      · rename_i other
        obtain ⟨parts, whole, values, noBraces⟩ := bareCondition_sound found
        refine ⟨.bare parts ?_ (noBrace_of_first noBraces), whole, ?_⟩
        · intro part begins
          cases parts with
          | nil => cases begins
          | cons first parts =>
              cases begins
              cases whole
              exact other
        · simp [Condition.args?, Condition.parts, values]

theorem condition_complete (c : Condition) {args : List String}
    (settled : c.args? r.env = some args)
    (brace : Token.Of .openBrace) (rest : List Token) :
    r.condition (c.tokens ++ brace.1 :: rest) =
      .ok (args, brace.1 :: rest) := by
  obtain ⟨kept, values, rfl⟩ := Option.map_eq_some_iff.1 settled
  cases c with
  | bare parts begins noBrace =>
      have found :=
        bareCondition_complete values (first_noBrace noBrace) brace rest
      dsimp only [Condition.tokens, Condition.parts] at found ⊢
      cases parts with
      | nil =>
          rw [Part.tokensOf_nil, List.nil_append] at found ⊢
          rw [condition, if_neg (by simp), found]
          rfl
      | cons part parts =>
          have notParen : part.first.kind ≠ .openParen := begins part rfl
          rw [Part.tokensOf_cons, Part.tokens, List.append_assoc,
            List.cons_append] at found ⊢
          rw [condition, if_neg notParen, found]
          rfl
  | enclosed opening parts closing noBrace balanced =>
      have found := parenCondition_complete values (first_noBrace noBrace)
        balanced closing (brace.1 :: rest)
      dsimp only [Condition.parts] at found
      simp [Condition.tokens, condition, found]

theorem listedPath_sound {t : Token} {ts rest : List Token} {text : String}
    (read : r.listedPath t ts = .ok (text, rest)) :
    ∃ path : ListedPath, path.tokens ++ rest = t :: ts ∧
      path.text? r.env = some text := by
  unfold listedPath at read
  split at read
  · rename_i isSign
    obtain ⟨⟨⟨value, close⟩, after⟩, found, same⟩ := map_ok read
    obtain ⟨ref, rfl, rfl, settled, rfl⟩ := reference_sound isSign found
    cases same
    exact ⟨.reference ref, rfl, settled⟩
  · split at read
    · rename_i string
      cases read
      exact ⟨.quoted ⟨t, string⟩, rfl, rfl⟩
    · cases read

theorem listedPath_complete (path : ListedPath) {text : String}
    (settled : path.text? r.env = some text) (rest : List Token) :
    r.listedPath path.first (path.tokens.tail ++ rest) = .ok (text, rest) := by
  cases path with
  | quoted t =>
      cases settled
      simp [listedPath, ListedPath.first, ListedPath.tokens]
  | reference ref =>
      simp [listedPath, ListedPath.first, ListedPath.tokens, Reference.tokens,
        reference_complete ref settled]

theorem pathList_sound
    {ts rest : List Token} {texts : List String} {close : Token}
    (read : r.pathList ts = .ok ((texts, close), rest)) :
    ∃ closing : Token.Of .closeBracket,
      (texts = [] ∧ ts = closing.1 :: rest) ∨
      ∃ l : PathList, l.tokens ++ closing.1 :: rest = ts ∧
        l.texts? r.env = some texts := by
  fun_induction pathList r ts generalizing texts close rest with
  | case1 | case3 | case4 | case7 => cases read
  | case2 t tail closes =>
      cases read
      exact ⟨⟨t, closes⟩, .inl ⟨rfl, rfl⟩⟩
  | case5 t ts opens text next tail found comma shorter induction =>
      obtain ⟨⟨⟨more, last⟩, after⟩, deeper, same⟩ := map_ok read
      cases same
      obtain ⟨path, whole, settled⟩ := listedPath_sound found
      rw [← whole]
      obtain ⟨closing, ⟨rfl, rfl⟩ | ⟨l, rfl, values⟩⟩ := induction deeper
      · refine ⟨closing, .inr ⟨⟨path, [], some ⟨next, comma⟩⟩, ?_, ?_⟩⟩
        · simp [PathList.tokens]
        · simp [PathList.texts?, settled]
      · refine ⟨closing, .inr ⟨.cons path ⟨next, comma⟩ l, ?_, ?_⟩⟩
        · simp [PathList.tokens_cons]
        · simp [PathList.texts?_cons, settled, values]
  | case6 t ts opens text next tail found comma closes =>
      cases read
      obtain ⟨path, whole, settled⟩ := listedPath_sound found
      rw [← whole]
      refine ⟨⟨next, closes⟩, .inr ⟨⟨path, [], none⟩, ?_, ?_⟩⟩
      · simp [PathList.tokens]
      · simp [PathList.texts?, settled]

theorem pathList_eq_of_path
    {t next : Token} {ts tail : List Token} {text : String}
    (found : r.listedPath t ts = .ok (text, next :: tail))
    (opens : t.kind ≠ .closeBracket) :
    r.pathList (t :: ts) =
      if next.kind = .comma then
        (r.pathList tail).map fun ((texts, close), after) =>
          ((text :: texts, close), after)
      else if next.kind = .closeBracket then .ok (([text], next), tail)
      else r.stop .noPathSeparator (next :: tail) := by
  rw [pathList, if_neg opens]
  split
  · rename_i failed
    rw [found] at failed
    cases failed
  · rename_i ended
    rw [found] at ended
    cases ended
  · rename_i same
    rw [found] at same
    cases same
    rfl

theorem pathList_complete (l : PathList) {texts : List String}
    (settled : l.texts? r.env = some texts)
    (closing : Token.Of .closeBracket) (rest : List Token) :
    r.pathList (l.tokens ++ closing.1 :: rest) =
      .ok ((texts, closing.1), rest) := by
  have opens : ∀ path : ListedPath, path.first.kind ≠ .closeBracket := by
    intro path
    cases path <;> simp [ListedPath.first]
  induction l using PathList.recursion generalizing texts with
  | single path trailing =>
      obtain ⟨text, value, rfl⟩ : ∃ text, path.text? r.env = some text ∧
          [text] = texts := by
        simpa [PathList.texts?, Option.bind_eq_some_iff] using settled
      cases trailing with
      | none =>
          have found := listedPath_complete path value (closing.1 :: rest)
          simp only [PathList.tokens, List.flatMap_nil, List.append_nil,
            Option.elim_none]
          rw [ListedPath.tokens_eq_cons, List.cons_append,
            pathList_eq_of_path found (opens path)]
          simp
      | some comma =>
          have found :=
            listedPath_complete path value (comma.1 :: closing.1 :: rest)
          simp only [PathList.tokens, List.flatMap_nil, List.append_nil,
            Option.elim_some, List.append_assoc, List.cons_append,
            List.nil_append]
          rw [ListedPath.tokens_eq_cons, List.cons_append,
            pathList_eq_of_path found (opens path)]
          simp [pathList]
  | cons path comma l induction =>
      rw [PathList.texts?_cons] at settled
      obtain ⟨text, value, others, values, rfl⟩ :
          ∃ text, path.text? r.env = some text ∧
          ∃ others, l.texts? r.env = some others ∧ text :: others = texts := by
        simpa [Option.bind_eq_some_iff] using settled
      have found := listedPath_complete path value
        (comma.1 :: (l.tokens ++ closing.1 :: rest))
      rw [PathList.tokens_cons, List.append_assoc, ListedPath.tokens_eq_cons,
        List.cons_append, List.cons_append, pathList_eq_of_path found
        (opens path), if_pos comma.2, induction values]
      rfl

end Reader

end ServerConf
