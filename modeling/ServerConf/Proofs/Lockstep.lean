import ServerConf.Proofs.Placement

/-!
Two readings in step. Tokens that differ in nothing but their places are read
alike, under environments that agree on what they are asked: no reading looks at
a place except to see whether tokens touch and which of two lines comes first.
-/

namespace ServerConf

def Token.asked? : List Token → Option String
  | sign :: paren :: name :: _ =>
    if sign.kind = .environment && paren.kind = .openParen && name.kind =
      .string then
      some name.value
    else
      none
  | _ => none

theorem Token.environmentNames_cons (t : Token) (ts : List Token) :
    environmentNames (t :: ts) = (asked? (t :: ts)).toList ++
      environmentNames ts := by
  match ts with
  | [] | [_] => rfl
  | paren :: name :: rest =>
      rw [environmentNames, asked?]
      split <;> rfl

namespace Reader

variable {δ : Displacement} {r s : Reader}

/-- The same tokens at corresponding places, with the same neighbours touching,
and a value agreed on for each variable that is asked for. -/
inductive InStep (δ : Displacement) (r s : Reader) :
    List Token → List Token → Prop where
  | nil : Token.Corresponds δ r.last s.last → InStep δ r s [] []
  | cons {t u : Token} {ts us : List Token} :
      Token.Corresponds δ t u →
      (∀ a ∈ ts.head?, ∀ b ∈ us.head?, t.touches a = u.touches b) →
      (∀ name ∈ Token.asked? (t :: ts), r.env name = s.env name) →
      InStep δ r s ts us → InStep δ r s (t :: ts) (u :: us)

namespace InStep

variable {t u : Token} {ts us : List Token}

theorem head (inStep : InStep δ r s (t :: ts) (u :: us)) :
    Token.Corresponds δ t u := by
  cases inStep with
  | cons same => exact same

theorem tail (inStep : InStep δ r s (t :: ts) (u :: us)) :
    InStep δ r s ts us := by
  cases inStep with
  | cons _ _ _ inStep => exact inStep

theorem length (inStep : InStep δ r s ts us) : ts.length = us.length := by
  induction inStep with
  | nil => rfl
  | cons _ _ _ _ induction => rw [List.length_cons, List.length_cons, induction]

theorem next (inStep : InStep δ r s ts us) :
    Token.Corresponds δ (ts.headD r.last) (us.headD s.last) := by
  cases inStep with
  | nil last => exact last
  | cons same => exact same

theorem last (inStep : InStep δ r s ts us) :
    Token.Corresponds δ r.last s.last := by
  induction inStep with
  | nil last => exact last
  | cons _ _ _ _ induction => exact induction

theorem map_place (inStep : InStep δ r s ts us) :
    ts.map (Token.place δ.before) = us.map (Token.place δ.after) := by
  induction inStep with
  | nil => rfl
  | cons same _ _ _ induction =>
      rw [List.map_cons, List.map_cons, same, induction]

theorem prepend
    (still : ∀ p, δ.before p = δ.after p)
    {common : List Token}
    (agree :
      ∀ name ∈ Token.environmentNames (common ++ ts), r.env name = s.env name)
    (junction : ∀ t ∈ common.getLast?, ∀ a ∈ ts.head?, ∀ b ∈ us.head?,
      t.touches a = t.touches b)
    (inStep : InStep δ r s ts us) :
    InStep δ r s (common ++ ts) (common ++ us) := by
  induction common with
  | nil => exact inStep
  | cons t common induction =>
      rw [List.cons_append, Token.environmentNames_cons] at agree
      apply InStep.cons
      · rw [Token.Corresponds, Token.place, Token.place, still]
      · cases common with
        | nil => exact junction t rfl
        | cons next common =>
            intro a first b second
            cases first
            cases second
            rfl
      · intro name asked
        exact agree name (List.mem_append_left _ (Option.mem_toList.2 asked))
      · apply induction
        · intro name member
          exact agree name (List.mem_append_right _ member)
        · cases common with
          | nil =>
              intro u last
              cases last
          | cons next common =>
              intro u last
              exact junction u (by simpa using last)

end InStep

/-- Both readings succeed with related results, or both stop with the same error
at corresponding tokens. -/
inductive Alongside (δ : Displacement) {α : Type} (R : α → α → Prop) :
    Except Stop α → Except Stop α → Prop where
  | ok {a b : α} : R a b → Alongside δ R (.ok a) (.ok b)
  | error {e f : Stop} :
      e.error.place δ.before = f.error.place δ.after →
      e.rest.length = f.rest.length → Alongside δ R (.error e) (.error f)

namespace Alongside

variable {α β : Type} {R : α → α → Prop} {S : β → β → Prop}
  {x y : Except Stop α}

theorem bind {f g : α → Except Stop β} (first : Alongside δ R x y)
    (next : ∀ a b, x = .ok a → R a b → Alongside δ S (f a) (g b)) :
    Alongside δ S (x >>= f) (y >>= g) := by
  cases first with
  | ok related => exact next _ _ rfl related
  | error same rest => exact .error same rest

theorem map {f g : α → β}
    (first : Alongside δ R x y)
    (next : ∀ a b, R a b → S (f a) (g b)) :
    Alongside δ S (x.map f) (y.map g) := by
  cases first with
  | ok related => exact .ok (next _ _ related)
  | error same rest => exact .error same rest

theorem mono {S : α → α → Prop}
    (first : Alongside δ R x y)
    (next : ∀ a b, R a b → S a b) :
    Alongside δ S x y := by
  cases first with
  | ok related => exact .ok (next _ _ related)
  | error same rest => exact .error same rest

end Alongside

def Found (δ : Displacement) (r s : Reader) (x y : Token × List Token) : Prop :=
  InStep δ r s (x.1 :: x.2) (y.1 :: y.2)

def Before (δ : Displacement) (r s : Reader) {α : Type} (R : α → α → Prop)
    (x y : α × List Token) : Prop :=
  R x.1 y.1 ∧ InStep δ r s x.2 y.2

def Ending (δ : Displacement) (r s : Reader) {α : Type} (R : α → α → Prop)
    (x y : (α × Token) × List Token) : Prop :=
  R x.1.1 y.1.1 ∧ Found δ r s (x.1.2, x.2) (y.1.2, y.2)

section Results

variable {t u : Token} {ts us : List Token}

theorem Found.same (found : Found δ r s (t, ts) (u, us)) :
    Token.Corresponds δ t u :=
  InStep.head found

theorem Found.inStep (found : Found δ r s (t, ts) (u, us)) :
    InStep δ r s ts us :=
  InStep.tail found

theorem Ending.before {α : Type} {R : α → α → Prop} {a b : α}
    (ending : Ending δ r s R ((a, t), ts) ((b, u), us)) :
    Before δ r s R (a, ts) (b, us) :=
  ⟨ending.1, ending.2.inStep⟩

end Results

section Words

variable {t u : Token} {ts us : List Token}

theorem stop_alongside {α : Type} {R : α × List Token → α × List Token → Prop}
    (inStep : InStep δ r s ts us) (complaint : Complaint) :
    Alongside δ R (r.stop complaint ts) (s.stop complaint us) := by
  refine .error ?_ inStep.length
  rw [ParseError.place, ParseError.place, inStep.next]

theorem expect_alongside (kind : TokenKind) (complaint : Complaint)
    (inStep : InStep δ r s ts us) :
    Alongside δ (Found δ r s) (r.expect kind complaint ts)
      (s.expect kind complaint us) := by
  cases inStep with
  | nil last => exact stop_alongside (.nil last) complaint
  | cons same touching agree tail =>
      have whole := InStep.cons same touching agree tail
      rw [expect, expect, same.kind]
      split
      · exact .ok whole
      · exact stop_alongside whole complaint

theorem fallback_alongside (inStep : InStep δ r s ts us) :
    Alongside δ (Before δ r s Eq) (r.fallback ts) (s.fallback us) := by
  cases inStep with
  | nil last => exact .ok ⟨rfl, .nil last⟩
  | cons same touching agree tail =>
      rw [fallback, fallback, same.kind]
      split
      · refine (expect_alongside .string .environmentDefault tail).bind ?_
        rintro ⟨value, rest⟩ ⟨value', rest'⟩ _ found
        exact .ok ⟨congrArg some found.same.value.symm, found.inStep⟩
      · exact .ok ⟨rfl, .cons same touching agree tail⟩

theorem reference_alongside (isSign : t.kind = .environment)
    (inStep : InStep δ r s (t :: ts) (u :: us)) :
    Alongside δ (Ending δ r s Eq) (r.reference t ts) (s.reference u us) := by
  obtain _ | ⟨sign, _, agree, behind⟩ := inStep
  refine (expect_alongside .openParen .environmentParen behind).bind ?_
  rintro ⟨paren, afterParen⟩ ⟨paren', afterParen'⟩ opens opening
  obtain ⟨isParen, rfl⟩ := expect_ok opens
  refine (expect_alongside .string .environmentName opening.inStep).bind ?_
  rintro ⟨name, afterName⟩ ⟨name', afterName'⟩ names naming
  obtain ⟨isName, rfl⟩ := expect_ok names
  refine (fallback_alongside naming.inStep).bind ?_
  rintro ⟨default, afterDefault⟩ ⟨default', afterDefault'⟩ _ ⟨same, falling⟩
  cases same
  refine (expect_alongside .closeParen .environmentClose falling).bind ?_
  rintro ⟨close, rest⟩ ⟨close', rest'⟩ _ closing
  have agreed : r.env name.value = s.env name.value :=
    agree name.value (by simp [Token.asked?, isSign, isParen, isName])
  dsimp only
  rw [naming.same.value, ← agreed]
  cases (r.env name.value).or default with
  | some value => exact .ok ⟨rfl, closing⟩
  | none =>
      refine .error ?_ closing.inStep.length
      rw [ParseError.place, ParseError.place, sign]

theorem wordPart_alongside (inStep : InStep δ r s (t :: ts) (u :: us)) :
    Alongside δ (Ending δ r s Eq) (r.wordPart t ts) (s.wordPart u us) := by
  rw [wordPart, wordPart, inStep.head.kind]
  split
  · rename_i isSign
    exact reference_alongside isSign inStep
  · exact .ok ⟨inStep.head.value.symm, inStep⟩

theorem word_eq_bind (r : Reader) (t : Token) (ts : List Token) :
    r.word t ts = r.wordPart t ts >>= fun ((text, previous), rest) =>
      match rest with
      | [] => .ok (text, [])
      | next :: rest =>
        if next.kind.isGlue && previous.touches next then
          (r.word next rest).map fun (more, after) => (text ++ more, after)
        else
          .ok (text, next :: rest) := by
  rw [word]
  split
  all_goals
    rename_i part
    simp only [part]
    rfl

theorem word_alongside {t u : Token} {ts us : List Token}
    (inStep : InStep δ r s (t :: ts) (u :: us)) :
    Alongside δ (Before δ r s Eq) (r.word t ts) (s.word u us) := by
  rw [word_eq_bind, word_eq_bind]
  refine (wordPart_alongside inStep).bind ?_
  rintro ⟨⟨text, last⟩, rest⟩ ⟨⟨text', last'⟩, rest'⟩ part ⟨same, found⟩
  cases same
  have behind := found.inStep
  obtain _ | ⟨_, touching, _, following⟩ := found
  cases following with
  | nil => exact .ok ⟨rfl, behind⟩
  | @cons next next' tail tail' same =>
      dsimp only
      rw [same.kind, ← touching next rfl next' rfl]
      split
      · have shorter : tail.length < ts.length := wordPart_length part
        refine (word_alongside behind).map ?_
        rintro ⟨more, after⟩ ⟨more', after'⟩ ⟨rfl, inStep⟩
        exact ⟨rfl, inStep⟩
      · exact .ok ⟨rfl, behind⟩
termination_by ts.length

theorem name_alongside (inStep : InStep δ r s (t :: ts) (u :: us)) :
    Alongside δ (Before δ r s Eq) (r.name t ts) (s.name u us) := by
  have text :
      Alongside δ (Before δ r s Eq) (r.nameText t ts) (s.nameText u us) := by
    rw [nameText, nameText, inStep.head.kind, inStep.head.raw]
    split
    · exact .ok ⟨rfl, inStep.tail⟩
    · exact word_alongside inStep
  refine text.bind ?_
  rintro ⟨text, rest⟩ ⟨text', rest'⟩ _ ⟨same, behind⟩
  cases same
  dsimp only
  split
  · refine .error ?_ behind.length
    rw [ParseError.place, ParseError.place, inStep.head]
  · exact .ok ⟨rfl, behind⟩

theorem braceAhead_eq (inStep : InStep δ r s ts us) :
    braceAhead ts = braceAhead us := by
  induction inStep with
  | nil => rfl
  | cons same _ _ _ induction =>
      rw [braceAhead, braceAhead, same.kind, induction]

theorem arguments_cons
    (r : Reader) (name : String) (line : Int) (header : Bool) (t : Token)
    (rest : List Token) :
    r.arguments name line header (t :: rest) =
      if t.kind = .semicolon || (t.kind = .openBrace && header) then
        .ok ([], t :: rest)
      else if t.kind = .openBrace || t.kind = .closeBrace ||
        (t.kind = .location && header) then
        r.stop (.openHeader name) (t :: rest)
      else if !header && line < t.position.line && t.kind = .identifier then
        .ok ([], t :: rest)
      else if t.kind = .string then
        (r.arguments name line header rest).map fun (args, after) =>
          (t.value :: args, after)
      else if t.kind = .equals || t.kind.isWord then
        r.word t rest >>= fun (text, next) =>
          (r.arguments name line header next).map fun (args, after) =>
            (text :: args, after)
      else .ok ([], t :: rest) := by
  rw [arguments]
  refine ite_congr rfl (fun _ => rfl) fun _ => ?_
  refine ite_congr rfl (fun _ => rfl) fun _ => ?_
  refine ite_congr rfl (fun _ => rfl) fun _ => ?_
  refine ite_congr rfl (fun _ => rfl) fun _ => ?_
  refine ite_congr rfl (fun _ => ?_) fun _ => rfl
  split
  all_goals
    rename_i found
    simp only [found]
    rfl

theorem arguments_alongside (name : String) {line line' : Int}
    (distance : line' = line + δ.lines) (header : Bool) {ts us : List Token}
    (inStep : InStep δ r s ts us) :
    Alongside δ (Before δ r s Eq) (r.arguments name line header ts)
      (s.arguments name line' header us) := by
  have whole := inStep
  cases inStep with
  | nil =>
      rw [arguments, arguments]
      exact .ok ⟨rfl, whole⟩
  | @cons t u rest rest' same _ _ behind =>
      have later : (line' < u.position.line) = (line < t.position.line) := by
        rw [distance, same.line, Int.add_lt_add_iff_right]
      rw [arguments_cons, arguments_cons, same.kind, same.value]
      simp only [later]
      split
      · exact .ok ⟨rfl, whole⟩
      split
      · exact stop_alongside whole _
      split
      · exact .ok ⟨rfl, whole⟩
      split
      · refine (arguments_alongside name distance header behind).map ?_
        rintro ⟨args, after⟩ ⟨args', after'⟩ ⟨rfl, inStep⟩
        exact ⟨rfl, inStep⟩
      split
      · refine (word_alongside whole).bind ?_
        rintro ⟨text, next⟩ ⟨text', next'⟩ found ⟨rfl, inStep⟩
        have shorter : next.length ≤ rest.length := word_length found
        refine (arguments_alongside name distance header inStep).map ?_
        rintro ⟨args, after⟩ ⟨args', after'⟩ ⟨rfl, inStep⟩
        exact ⟨rfl, inStep⟩
      · exact .ok ⟨rfl, whole⟩
termination_by ts.length

theorem listedPath_alongside (inStep : InStep δ r s (t :: ts) (u :: us)) :
    Alongside δ (Before δ r s Eq) (r.listedPath t ts) (s.listedPath u us) := by
  rw [listedPath, listedPath, inStep.head.kind, inStep.head.value]
  split
  · rename_i isSign
    refine (reference_alongside isSign inStep).map ?_
    rintro ⟨⟨value, close⟩, after⟩ ⟨⟨value', close'⟩, after'⟩ ending
    exact ending.before
  · split
    · exact .ok ⟨rfl, inStep.tail⟩
    · exact stop_alongside inStep _

theorem pathList_cons (r : Reader) (t : Token) (rest : List Token) :
    r.pathList (t :: rest) =
      if t.kind = .closeBracket then .ok (([], t), rest)
      else
        r.listedPath t rest >>= fun (path, after) =>
          match after with
          | [] => r.stop .noPathSeparator []
          | next :: tail =>
            if next.kind = .comma then
              (r.pathList tail).map fun ((paths, close), after) =>
                ((path :: paths, close), after)
            else if next.kind = .closeBracket then .ok (([path], next), tail)
            else r.stop .noPathSeparator (next :: tail) := by
  rw [pathList]
  refine ite_congr rfl (fun _ => rfl) fun _ => ?_
  split
  all_goals
    rename_i found
    simp only [found]
    rfl

theorem pathList_alongside {ts us : List Token} (inStep : InStep δ r s ts us) :
    Alongside δ (Ending δ r s Eq) (r.pathList ts) (s.pathList us) := by
  have whole := inStep
  cases inStep with
  | nil =>
      rw [pathList, pathList]
      exact stop_alongside whole _
  | @cons t u rest rest' same _ _ behind =>
      rw [pathList_cons, pathList_cons, same.kind]
      split
      · exact .ok ⟨rfl, whole⟩
      refine (listedPath_alongside whole).bind ?_
      rintro ⟨path, after⟩ ⟨path', after'⟩ found ⟨rfl, inStep⟩
      have following := inStep
      cases inStep with
      | nil => exact stop_alongside following _
      | @cons next next' tail tail' same =>
          dsimp only
          rw [same.kind]
          split
          · have shorter : tail.length ≤ rest.length :=
              Nat.le_of_succ_le (listedPath_length found)
            refine (pathList_alongside following.tail).map ?_
            rintro ⟨⟨paths, close⟩, after⟩ ⟨⟨paths', close'⟩,
              after'⟩ ⟨same, found⟩
            exact ⟨congrArg (path :: ·) same, found⟩
          split
          · exact .ok ⟨rfl, following⟩
          · exact stop_alongside following _
termination_by ts.length

end Words

inductive SameParts : List ConditionPart → List ConditionPart → Prop where
  | nil : SameParts [] []
  | cons {p q : ConditionPart} {ps qs : List ConditionPart} :
      p.text = q.text →
      (∀ a ∈ ps.head?, ∀ b ∈ qs.head?,
        p.last.touches a.first = q.last.touches b.first) →
      SameParts ps qs → SameParts (p :: ps) (q :: qs)

theorem SameParts.join_eq {ps qs : List ConditionPart}
    (same : SameParts ps qs) :
    ConditionPart.join ps = ConditionPart.join qs := by
  induction same with
  | nil => rfl
  | cons text touching behind induction =>
      cases behind with
      | nil => rw [ConditionPart.join, ConditionPart.join, text]
      | cons =>
          rw [ConditionPart.join, ConditionPart.join, induction, text,
            touching _ rfl _ rfl]

structure PartsFrom (ts us : List Token) (ps qs : List ConditionPart) :
    Prop where
  same : SameParts ps qs
  left : ∀ p ∈ ps.head?, p.first ∈ ts.head?
  right : ∀ q ∈ qs.head?, q.first ∈ us.head?

theorem PartsFrom.nil (ts us : List Token) : PartsFrom ts us [] [] :=
  ⟨.nil, by simp, by simp⟩

structure PartRead (δ : Displacement) (r s : Reader) (t u : Token)
    (x y : ConditionPart × List Token) : Prop where
  text : x.1.text = y.1.text
  left : x.1.first = t
  right : y.1.first = u
  found : Found δ r s (x.1.last, x.2) (y.1.last, y.2)

theorem PartRead.cons
    {t u : Token} {ts us next next' : List Token} {p q : ConditionPart}
    {ps qs : List ConditionPart}
    (read : PartRead δ r s t u (p, next) (q, next'))
    (behind : PartsFrom next next' ps qs) :
    PartsFrom (t :: ts) (u :: us) (p :: ps) (q :: qs) := by
  refine ⟨.cons read.text ?_ behind.same, ?_, ?_⟩
  · intro a first b first'
    obtain _ | ⟨_, touching, _, _⟩ := read.found
    exact touching a.first (behind.left a first) b.first (behind.right b first')
  · rintro _ ⟨⟩
    exact congrArg some read.left.symm
  · rintro _ ⟨⟩
    exact congrArg some read.right.symm

section Conditions

variable {t u : Token} {ts us : List Token}

theorem conditionPart_alongside (inStep : InStep δ r s (t :: ts) (u :: us)) :
    Alongside δ (PartRead δ r s t u) (r.conditionPart t ts)
      (s.conditionPart u us) := by
  rw [conditionPart, conditionPart, inStep.head.kind, inStep.head.value,
    inStep.head.raw]
  split
  · rename_i isSign
    refine (reference_alongside isSign inStep).map ?_
    rintro ⟨⟨value, close⟩, after⟩ ⟨⟨value', close'⟩, after'⟩ ⟨same, found⟩
    exact ⟨same, rfl, rfl, found⟩
  · exact .ok ⟨rfl, rfl, rfl, inStep⟩

theorem bareCondition_cons (r : Reader) (t : Token) (rest : List Token) :
    r.bareCondition (t :: rest) =
      if t.kind = .openBrace then .ok ([], t :: rest)
      else
        r.conditionPart t rest >>= fun (part, next) =>
          (r.bareCondition next).map fun (parts, after) =>
            (part :: parts, after) := by
  rw [bareCondition]
  refine ite_congr rfl (fun _ => rfl) fun _ => ?_
  split
  all_goals
    rename_i found
    simp only [found]
    rfl

theorem bareCondition_alongside {ts us : List Token}
    (inStep : InStep δ r s ts us) :
    Alongside δ (Before δ r s (PartsFrom ts us)) (r.bareCondition ts)
      (s.bareCondition us) := by
  have whole := inStep
  cases inStep with
  | nil =>
      rw [bareCondition, bareCondition]
      exact .ok ⟨.nil [] [], whole⟩
  | @cons t u rest rest' same =>
      rw [bareCondition_cons, bareCondition_cons, same.kind]
      split
      · exact .ok ⟨.nil _ _, whole⟩
      refine (conditionPart_alongside whole).bind ?_
      rintro ⟨part, next⟩ ⟨part', next'⟩ found read
      have shorter : next.length ≤ rest.length := conditionPart_length found
      refine (bareCondition_alongside read.found.inStep).map ?_
      rintro ⟨parts, after⟩ ⟨parts', after'⟩ ⟨behind, inStep⟩
      exact ⟨read.cons behind, inStep⟩
termination_by ts.length

theorem parenCondition_cons
    (r : Reader) (inner : Nat) (t : Token) (rest : List Token) :
    r.parenCondition inner (t :: rest) =
      if t.kind = .openBrace then r.stop .openCondition (t :: rest)
      else if t.kind = .closeParen && inner = 0 then .ok ([], rest)
      else
        r.conditionPart t rest >>= fun (part, next) =>
          (r.parenCondition (nesting inner t.kind) next).map
            fun (parts, after) => (part :: parts, after) := by
  rw [parenCondition]
  refine ite_congr rfl (fun _ => rfl) fun _ => ?_
  refine ite_congr rfl (fun _ => rfl) fun _ => ?_
  split
  all_goals
    rename_i found
    simp only [found]
    rfl

theorem parenCondition_alongside (inner : Nat) {ts us : List Token}
    (inStep : InStep δ r s ts us) :
    Alongside δ (Before δ r s (PartsFrom ts us)) (r.parenCondition inner ts)
      (s.parenCondition inner us) := by
  have whole := inStep
  cases inStep with
  | nil =>
      rw [parenCondition, parenCondition]
      exact stop_alongside whole _
  | @cons t u rest rest' same =>
      rw [parenCondition_cons, parenCondition_cons, same.kind]
      split
      · exact stop_alongside whole _
      split
      · exact .ok ⟨.nil _ _, whole.tail⟩
      refine (conditionPart_alongside whole).bind ?_
      rintro ⟨part, next⟩ ⟨part', next'⟩ found read
      have shorter : next.length ≤ rest.length := conditionPart_length found
      refine (parenCondition_alongside (nesting inner t.kind)
        read.found.inStep).map ?_
      rintro ⟨parts, after⟩ ⟨parts', after'⟩ ⟨behind, inStep⟩
      exact ⟨read.cons behind, inStep⟩
termination_by ts.length

theorem condition_alongside (inStep : InStep δ r s ts us) :
    Alongside δ (Before δ r s Eq) (r.condition ts) (s.condition us) := by
  have whole := inStep
  cases inStep with
  | nil => exact .ok ⟨rfl, whole⟩
  | cons same =>
      rw [condition, condition, same.kind]
      split
      · refine (parenCondition_alongside 0 whole.tail).map ?_
        rintro ⟨parts, after⟩ ⟨parts', after'⟩ ⟨parts, inStep⟩
        exact ⟨parts.same.join_eq, inStep⟩
      · refine (bareCondition_alongside whole).map ?_
        rintro ⟨parts, after⟩ ⟨parts', after'⟩ ⟨parts, inStep⟩
        exact ⟨parts.same.join_eq, inStep⟩

end Conditions

end Reader

end ServerConf
