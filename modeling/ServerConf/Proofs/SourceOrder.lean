import ServerConf.Proofs.ParsedTrees

/-!
Trees as they are parsed. Each statement has what its sort asks for, so none is
refused when it is built, and the statements are met in the order in which they
stand in the source.
-/

namespace ServerConf

namespace Position

/-- On an earlier line, or further left on the same one. -/
def Before (p q : Position) : Prop :=
  p.line < q.line ∨ p.line = q.line ∧ p.column < q.column

theorem Before.trans {p q r : Position}
    (first : p.Before q)
    (second : q.Before r) :
    p.Before r := by
  unfold Before at *
  omega

theorem before_advance (p : Position) (c : Char) : p.Before (p.advance c) := by
  unfold advance
  split
  · exact .inl (Int.lt_add_one_of_le (Int.le_refl _))
  · exact .inr ⟨rfl, Int.lt_add_one_of_le (Int.le_refl _)⟩

theorem before_advanceBy {text : List Char} (some : text ≠ []) (p : Position) :
    p.Before (p.advanceBy text) := by
  induction text generalizing p with
  | nil => exact absurd rfl some
  | cons c text induction =>
      rw [advanceBy_cons]
      cases text with
      | nil => exact p.before_advance c
      | cons d text =>
          exact (p.before_advance c).trans (induction (List.cons_ne_nil _ _) _)

end Position

/-- A `%` with a name behind it that is none of the keywords. -/
def IsTemplateName (name : String) : Prop :=
  (∃ signs, name.toList = '%' :: signs ∧ signs ≠ [] ∧
    ∀ c ∈ signs, Text.isAlphanumeric c = true ∨ c = '_') ∧
  name ≠ "%inline" ∧ name ≠ "%env" ∧ name ≠ "%import"

theorem Lexeme.isTemplateName_of_name {signs : List Char}
    (some : signs ≠ [])
    (named : ∀ c ∈ signs, isNameSign c = true)
    (kind : nameKind signs = .variable) :
    IsTemplateName (String.ofList ('%' :: signs)) := by
  have keyword : ∀ word : List Char, nameKind word ≠ .variable →
      String.ofList ('%' :: signs) ≠ String.ofList ('%' :: word) := by
    intro word other same
    have equal : signs = word := by simpa using congrArg String.toList same
    exact other (equal ▸ kind)
  refine ⟨⟨signs, by simp, some, ?_⟩, ?_, ?_, ?_⟩
  · intro c member
    simpa [isNameSign] using named c member
  · exact keyword ['i', 'n', 'l', 'i', 'n', 'e'] (by decide)
  · exact keyword ['e', 'n', 'v'] (by decide)
  · exact keyword ['i', 'm', 'p', 'o', 'r', 't'] (by decide)

theorem Lexeme.word_ne_variable (c : Char) (rest : List Char) :
    (word c rest).kind ≠ .variable := by
  rcases wordKind_cases (c :: (splitWord rest).1) with
    ⟨_, kind⟩ | ⟨_, kind⟩ | kind <;> simp [word, plain, kind]

theorem Lexeme.isTemplateName_of_read?
    {c : Char} {rest : List Char} {lexeme : Lexeme}
    (read : read? c rest = some lexeme)
    (kind : lexeme.kind = .variable) :
    IsTemplateName (String.ofList lexeme.value) := by
  cases reading_of_read? read with
  | sign found =>
      unfold punctuation? at found
      split at found <;> simp_all [plain]
  | string => cases kind
  | name sigil =>
      subst sigil
      refine isTemplateName_of_name ?_
        (fun c member => List.mem_takeWhile_imp member) kind
      intro alone
      have asWord : read? '%' rest = some (word '%' rest) := by
        simp [read?, punctuation?, isQuote, sigil, alone]
      have same := Option.some.inj (asWord.symm.trans read)
      exact word_ne_variable _ _ ((congrArg Lexeme.kind same).trans kind)
  | modifier found =>
      rcases modifier?_cases found with
        ⟨_, _, _, rfl⟩ | ⟨_, _, rfl⟩ | ⟨_, _, _, rfl⟩ <;> cases kind
  | number => cases kind
  | word => exact absurd kind (word_ne_variable _ _)

namespace Token.Scanned

variable {p : Position} {text : List Char} {ts : List Token} {t : Token}

theorem exists_advanceBy
    (scanned : Scanned p text ts)
    (member : t ∈ ts) :
    ∃ passed, t.position = p.advanceBy passed := by
  induction scanned with
  | last => exact ⟨_, congrArg Token.position (List.mem_singleton.1 member)⟩
  | @token p gap taken rest value c kind ts _ _ _ _ induction =>
      rcases List.mem_cons.1 member with rfl | later
      · exact ⟨gap, rfl⟩
      · obtain ⟨passed, same⟩ := induction later
        refine ⟨gap ++ (c :: taken ++ passed), ?_⟩
        rw [same, Position.advanceBy_append, Position.advanceBy_append]

theorem pairwise_before (scanned : Scanned p text ts) :
    (ts.map Token.position).Pairwise Position.Before := by
  rw [List.pairwise_map]
  induction scanned with
  | last => exact List.pairwise_singleton _ _
  | token _ _ _ scanned induction =>
      refine .cons ?_ induction
      intro u member
      obtain ⟨passed, same⟩ := scanned.exists_advanceBy member
      rw [same, ← Position.advanceBy_append]
      exact Position.before_advanceBy (List.cons_ne_nil _ _) _

theorem isTemplateName
    (scanned : Scanned p text ts)
    (member : t ∈ ts)
    (kind : t.kind = .variable) :
    IsTemplateName t.value := by
  induction scanned with
  | last =>
      rw [List.mem_singleton.1 member] at kind
      cases kind
  | token _ _ read _ induction =>
      rcases List.mem_cons.1 member with rfl | later
      · exact Lexeme.isTemplateName_of_read? read kind
      · exact induction later

end Token.Scanned

/-- The statement has what its sort asks for. -/
def Statement.IsWellFormed : Statement → Prop
  | .directive name _ _ => name ≠ ""
  | .block name _ _ _ => name ≠ ""
  | .location modifier paths _ _ =>
      paths ≠ [] ∧ (1 < paths.length → modifier = .none)
  | .definition name _ _ _ => IsTemplateName name
  | .reference name _ => IsTemplateName name
  | .importFile path _ => path ≠ ""
  | .stray _ _ => False

namespace Grammar

variable {env : Environment}

theorem Header.name_ne_empty {h : Header} {name : String}
    (meaning : h.name? env = some name) :
    name ≠ "" := by
  have kept := (Option.filter_eq_some_iff.1 meaning).2
  rintro rfl
  cases kept

theorem Leaf.statement_wellFormed {l : Leaf} {s : Statement}
    (meaning : l.statement? env = some s)
    (names : ∀ t ∈ l.tokens, t.kind = .variable → IsTemplateName t.value) :
    s.IsWellFormed ∧ ∃ t ts, l.tokens = t :: ts ∧ s.position = t.position := by
  cases l with
  | inline sign opening name closing semicolon =>
      cases meaning
      exact ⟨names name.1 (by simp [tokens]) name.2, _, _, rfl, rfl⟩
  | importFile sign opening path closing semicolon named =>
      cases meaning
      exact ⟨named, _, _, rfl, rfl⟩
  | directive header semicolon oneLine =>
      simp only [statement?, Option.bind_eq_bind, Option.bind_eq_some_iff,
        Option.pure_def] at meaning
      obtain ⟨name, named, args, _, ⟨⟩⟩ := meaning
      refine ⟨Header.name_ne_empty named, header.name.first,
        header.tokens.tail ++ [semicolon.1], ?_, rfl⟩
      rw [tokens, header.tokens_eq_cons]
      rfl

theorem Opening.heading_wellFormed {o : Opening} {h : Heading}
    (meaning : o.heading? env = some h)
    (names : ∀ t ∈ o.tokens, t.kind = .variable → IsTemplateName t.value)
    (children : List Statement) :
    (h.around children).IsWellFormed ∧
      ∃ t ts, o.tokens = t :: ts ∧
        (h.around children).position = t.position := by
  cases o with
  | definition name equals brace =>
      cases meaning
      exact ⟨names name.1 (by simp [tokens]) name.2, _, _, rfl, rfl⟩
  | locations sign inWord bracket paths closing brace =>
      simp only [heading?, Option.bind_eq_bind, Option.bind_eq_some_iff,
        Option.pure_def] at meaning
      obtain ⟨texts, read, ⟨⟩⟩ := meaning
      exact ⟨⟨PathList.texts_ne_nil read, fun _ => rfl⟩, _, _, rfl, rfl⟩
  | location sign modifier path brace pathKind unsigned =>
      simp only [heading?, Option.bind_eq_bind, Option.bind_eq_some_iff,
        Option.pure_def] at meaning
      obtain ⟨text, _, ⟨⟩⟩ := meaning
      refine ⟨⟨List.cons_ne_nil _ _, fun several => ?_⟩, _, _, rfl, rfl⟩
      exact absurd several (Nat.lt_irrefl 1)
  | condition sign isIf c brace =>
      simp only [heading?, Option.bind_eq_bind, Option.bind_eq_some_iff,
        Option.pure_def] at meaning
      obtain ⟨args, _, ⟨⟩⟩ := meaning
      exact ⟨(by decide : "if" ≠ ""), _, _, rfl, rfl⟩
  | block header brace noLocation =>
      simp only [heading?, Option.bind_eq_bind, Option.bind_eq_some_iff,
        Option.pure_def] at meaning
      obtain ⟨name, named, args, _, ⟨⟩⟩ := meaning
      refine ⟨Header.name_ne_empty named, header.name.first,
        header.tokens.tail ++ [brace.1], ?_, rfl⟩
      rw [tokens, header.tokens_eq_cons]
      rfl

theorem walkIn_wellFormed {ps : List Phrase} {ss : List Statement}
    (meaning : statementsOf? env ps = some ss)
    (names : ∀ t ∈ tokensOf ps, t.kind = .variable → IsTemplateName t.value) :
    (∀ s ∈ walkIn ss, s.IsWellFormed) ∧
      ((walkIn ss).map Statement.position).Sublist
        ((tokensOf ps).map Token.position) := by
  induction ps using phraseRecursion generalizing ss with
  | nil =>
      cases meaning
      exact ⟨by simp, List.Sublist.refl _⟩
  | leaf l ps induction =>
      simp only [statementsOf?, Phrase.statement?, Option.bind_eq_bind,
        Option.bind_eq_some_iff] at meaning
      obtain ⟨s, first, others, behind, ⟨⟩⟩ := meaning
      rw [tokensOf, Phrase.tokens] at names ⊢
      obtain ⟨formed, inOrder⟩ := induction behind fun t member =>
        names t (List.mem_append_right _ member)
      obtain ⟨here, t, ts, begins, place⟩ :=
        Leaf.statement_wellFormed first fun t member =>
        names t (List.mem_append_left _ member)
      have alone := (Leaf.statement_leaf first).1
      rw [walkIn_cons, alone, walkIn_nil, List.nil_append]
      refine ⟨List.forall_mem_cons.2 ⟨here, formed⟩, ?_⟩
      rw [begins, List.cons_append, List.map_cons, List.map_cons, place,
        List.map_append]
      exact (inOrder.trans (List.sublist_append_right _ _)).cons_cons _
  | group o body closing closes ps inside induction =>
      simp only [statementsOf?, Phrase.statement?, Option.bind_eq_bind,
        Option.pure_def, Option.bind_eq_some_iff] at meaning
      obtain ⟨s, ⟨h, heading, children, within, ⟨⟩⟩, others, behind, ⟨⟩⟩ :=
        meaning
      rw [tokensOf, Phrase.tokens] at names ⊢
      simp only [List.mem_append, or_imp, forall_and] at names
      obtain ⟨⟨⟨opening, inner⟩, _⟩, later⟩ := names
      obtain ⟨innerFormed, innerOrder⟩ := inside within inner
      obtain ⟨formed, inOrder⟩ := induction behind later
      obtain ⟨here, t, ts, begins, place⟩ :=
        Opening.heading_wellFormed heading opening children
      have below := (Opening.heading_around heading children).1
      rw [walkIn_cons, below]
      refine ⟨List.forall_mem_cons.2 ⟨here,
        List.forall_mem_append.2 ⟨innerFormed, formed⟩⟩, ?_⟩
      rw [begins]
      simp only [List.map_cons, List.map_append, List.cons_append,
        List.append_assoc, place]
      refine List.Sublist.cons_cons _
        (.trans ?_ (List.sublist_append_right _ _))
      exact innerOrder.append (inOrder.trans (List.sublist_append_right _ _))

end Grammar

theorem flawIn?_eq_none_iff {ss : List Statement} :
    flawIn? ss = none ↔ ∀ s ∈ ss, s.flaw? = none := by
  induction ss with
  | nil => simp [flawIn?]
  | cons s rest induction =>
      rw [flawIn?, List.forall_mem_cons, ← induction]
      cases s.flaw? <;> simp

namespace Grammar

variable {env : Environment}

theorem Leaf.statement_flawless {l : Leaf} {s : Statement}
    (meaning : l.statement? env = some s) :
    s.flaw? = none := by
  cases l with
  | inline | importFile =>
      cases meaning
      rfl
  | directive =>
      simp only [statement?, Option.bind_eq_bind, Option.bind_eq_some_iff,
        Option.pure_def] at meaning
      obtain ⟨name, named, args, _, ⟨⟩⟩ := meaning
      simpa [Statement.flaw?] using Header.name_ne_empty named

theorem Opening.heading_flawless {o : Opening} {h : Heading}
    (meaning : o.heading? env = some h)
    {children : List Statement}
    (inside : flawIn? children = none) :
    (h.around children).flaw? = none := by
  have proper := (heading_around meaning children).2
  cases h with
  | block | condition | template => exact inside
  | location modifier paths position =>
      have some : paths ≠ [] := proper
      simp [Heading.around, Statement.flaw?, inside, some]

end Grammar

namespace Reader

/-- Reads as `statements` does, and refuses a statement with a flaw as soon as
it is built. -/
def statementsChecking
    (r : Reader) (frames : List Frame) (done : List Statement)
    (ts : List Token) :
    Except Failure (List Statement) :=
  match ts, frames with
  | [], [] => .ok done.reverse
  | [], frame :: _ =>
      .error (.parse ⟨.noClosingBrace frame.heading.enclosure, r.last⟩)
  | t :: rest, frames =>
    match frames, t.kind with
    | frame :: outer, .closeBrace =>
      match found : r.closed frame.heading rest with
      | .error stop => .error (.parse stop.error)
      | .ok next =>
        have : next.length < (t :: rest).length :=
          Nat.lt_succ_of_le (closed_length found)
        match (frame.heading.around done.reverse).flaw? with
        | some flaw => .error (.flawed flaw)
        | none =>
          r.statementsChecking outer
            (frame.heading.around done.reverse :: frame.before) next
    | frames, _ =>
      match found : r.item t rest with
      | .error stop => .error (.parse stop.error)
      | .ok (.leaf s, next) =>
        have : next.length < (t :: rest).length :=
          Nat.lt_succ_of_le (item_length found)
        match s.flaw? with
        | some flaw => .error (.flawed flaw)
        | none => r.statementsChecking frames (s :: done) next
      | .ok (.heading h, next) =>
        have : next.length < (t :: rest).length :=
          Nat.lt_succ_of_le (item_length found)
        r.statementsChecking (⟨h, done⟩ :: frames) [] next
termination_by ts.length
decreasing_by all_goals assumption

def Flawless (frames : List Frame) (done : List Statement) : Prop :=
  (∀ s ∈ done, s.flaw? = none) ∧
    ∀ frame ∈ frames, (∀ s ∈ frame.before, s.flaw? = none) ∧
    ∀ children, flawIn? children = none →
      (frame.heading.around children).flaw? = none

variable {r : Reader} {frames : List Frame} {done : List Statement}

theorem Flawless.close {frame : Frame} {outer : List Frame}
    (flawless : Flawless (frame :: outer) done) :
    (frame.heading.around done.reverse).flaw? = none ∧
      Flawless outer (frame.heading.around done.reverse :: frame.before) := by
  obtain ⟨before, builds⟩ := flawless.2 frame (by simp)
  have whole : (frame.heading.around done.reverse).flaw? = none :=
    builds _ (flawIn?_eq_none_iff.2 fun s member =>
      flawless.1 s (List.mem_reverse.1 member))
  exact ⟨whole, List.forall_mem_cons.2 ⟨whole, before⟩,
    fun other member => flawless.2 other (List.mem_cons_of_mem _ member)⟩

theorem Flawless.leaf
    (flawless : Flawless frames done)
    {t : Token} {ts next : List Token} {s : Statement}
    (found : r.item t ts = .ok (.leaf s, next)) :
    s.flaw? = none ∧ Flawless frames (s :: done) := by
  obtain ⟨l, _, meaning⟩ := item_sound found
  have here := Grammar.Leaf.statement_flawless meaning
  exact ⟨here, List.forall_mem_cons.2 ⟨here, flawless.1⟩, flawless.2⟩

theorem Flawless.heading
    (flawless : Flawless frames done)
    {t : Token} {ts next : List Token} {h : Heading}
    (found : r.item t ts = .ok (.heading h, next)) :
    Flawless (⟨h, done⟩ :: frames) [] := by
  obtain ⟨o, _, meaning⟩ := item_sound found
  refine ⟨by simp, List.forall_mem_cons.2 ⟨⟨flawless.1, ?_⟩, flawless.2⟩⟩
  intro children inside
  exact Grammar.Opening.heading_flawless meaning inside

theorem statementsChecking_eq {ts : List Token}
    (flawless : Flawless frames done) :
    r.statementsChecking frames done ts =
      (r.statements frames done ts).mapError fun stop => .parse stop.error := by
  fun_induction statements r frames done ts with
  | case1 done => simp [statementsChecking, Except.mapError]
  | case2 done frame outer => simp [statementsChecking, Except.mapError]
  | case3 done t ts frame outer closes stop found =>
      rw [statementsChecking]
      · split <;> rename_i same <;> cases same.symm.trans found
        rfl
      · exact closes
  | case4 done t ts frame outer closes next found shorter induction =>
      simp only [wfParam, List.unattach_reverse,
        List.unattach_attach] at found induction
      obtain ⟨whole, outside⟩ := flawless.close
      rw [statementsChecking, ← induction outside]
      · split <;> rename_i same <;> cases same.symm.trans found
        rw [whole]
      · exact closes
  | case5 done t ts frames stop found other =>
      rw [statementsChecking]
      · split <;> rename_i same <;> cases same.symm.trans found
        rfl
      · exact other
  | case6 done t ts frames s next found shorter other induction =>
      simp only [wfParam] at induction
      obtain ⟨here, behind⟩ := flawless.leaf found
      rw [statementsChecking, ← induction behind]
      · split <;> rename_i same <;> cases same.symm.trans found
        rw [here]
      · exact other
  | case7 done t ts frames h next found shorter other induction =>
      simp only [wfParam] at induction
      rw [statementsChecking, ← induction (flawless.heading found)]
      · split <;> rename_i same <;> cases same.symm.trans found
        rfl
      · exact other

end Reader

namespace Document

/-- Parses as `parse` does, with every statement checked when it is built. -/
def parseChecking (env : Environment) (filename source : String) :
    Except Failure Document :=
  match Token.ofSource source with
  | .error e => .error (.scan e)
  | .ok tokens =>
    match Token.complete? tokens with
    | none => .error .unendedTokens
    | some (body, last) =>
      (Reader.statementsChecking ⟨env, last⟩ [] [] body).map fun children =>
        ⟨children, filename⟩

theorem parseChecking_eq (env : Environment) (filename source : String) :
    parseChecking env filename source = parse env filename source := by
  rw [parseChecking, parse]
  cases Token.ofSource source with
  | error e => rfl
  | ok tokens =>
      dsimp only
      rw [ofTokens]
      cases Token.complete? tokens with
      | none => rfl
      | some complete =>
          dsimp only
          rw [Reader.statementsChecking_eq ⟨by simp, by simp⟩]
          cases Reader.statements _ [] [] complete.1 <;> rfl

/-- Parsing ends with a string that is never closed, with a complaint of the
reader, or with a tree; it ends in the same way if every statement is checked
when it is built. In a tree each statement has what its sort asks for, and the
places of the statements follow each other. -/
theorem parse_wellFormed (env : Environment) (filename source : String) :
    parseChecking env filename source = parse env filename source ∧
    ((∃ e, parse env filename source = .error (.scan e)) ∨
      (∃ e, parse env filename source = .error (.parse e)) ∨
      ∃ document, parse env filename source = .ok document ∧
        (∀ s ∈ document.walk, s.IsWellFormed) ∧
        (document.walk.map Statement.position).Pairwise Position.Before) := by
  refine ⟨parseChecking_eq env filename source, ?_⟩
  cases parsed : parse env filename source with
  | error failure =>
      rcases parse_error parsed with ⟨e, rfl⟩ | ⟨e, rfl⟩
      · exact .inl ⟨e, rfl⟩
      · exact .inr (.inl ⟨e, rfl⟩)
  | ok document =>
      obtain ⟨ps, last, scanned, meaning⟩ := exists_phrases parsed
      have tokens := Token.scanned_of_scan scanned
      obtain ⟨formed, inOrder⟩ :=
        Grammar.walkIn_wellFormed meaning fun t member =>
        tokens.isTemplateName (List.mem_append_left _ member)
      refine .inr (.inr ⟨document, rfl, formed, ?_⟩)
      have before := tokens.pairwise_before
      rw [List.map_append, List.pairwise_append] at before
      exact before.1.sublist inOrder

/-- A template, a location with two paths, and what stands in them. -/
theorem parse_wellFormed_nested :
    let source := "%t = \x7b d 'a'; \x7d;\n" ++
      "location in ['/a', '/b'] \x7b %inline(%t); %import('x'); \x7d"
    ∃ document, parse .empty "f" source = .ok document ∧
      document.walk.map Statement.position =
        [⟨1, 1⟩, ⟨1, 8⟩, ⟨2, 1⟩, ⟨2, 28⟩, ⟨2, 41⟩] ∧
      (∀ s ∈ document.walk, s.IsWellFormed) ∧
      (document.walk.map Statement.position).Pairwise Position.Before := by
  intro source
  have places : (parse .empty "f" source).toOption.map
      (fun document => document.walk.map Statement.position) =
        some [⟨1, 1⟩, ⟨1, 8⟩, ⟨2, 1⟩, ⟨2, 28⟩, ⟨2, 41⟩] := by
    decide +kernel
  rcases (parse_wellFormed .empty "f" source).2 with
    ⟨e, failed⟩ | ⟨e, failed⟩ | ⟨document, parsed, formed, inOrder⟩
  · rw [failed] at places
    cases places
  · rw [failed] at places
    cases places
  · rw [parsed] at places
    exact ⟨document, parsed, Option.some.inj places, formed, inOrder⟩

end Document

end ServerConf
