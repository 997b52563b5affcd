import ServerConf.Proofs.StatementLockstep
import ServerConf.Proofs.TapeReader

/-!
The head follows the reader. A reading of the tokens that are left is a passage
of the head from where they begin to where the reading leaves off; every token
that the head looks at on the way stands before the first end of input, or is
that end.
-/

namespace ServerConf

theorem Reader.map_bind
    {α β γ : Type} (read : Except Stop α) (next : α → Except Stop β)
    (f : β → γ) :
    (read >>= next).map f = read >>= fun a => (next a).map f := by
  cases read <;> rfl

namespace Tape

structure Holds (tape : Tape) (r : Reader) (body : List Token) : Prop where
  env : tape.env = r.env
  tokens : ∃ after, tape.tokens = body ++ r.last :: after
  inside : ∀ t ∈ body, t.kind ≠ .endOfInput
  ends : r.last.kind = .endOfInput

structure From (body : List Token) (index : Nat) (ts : List Token) : Prop where
  within : index ≤ body.length
  rest : body.drop index = ts

/-- The passage ends where the reading leaves off, with a value related to the
one that was read, or it is broken off by the same error, at a token of the
tape. -/
inductive Follows
    (tape : Tape) (body : List Token) {α β : Type} (R : α → β → Nat → Prop) :
    ExceptT Halt Option (α × Nat) → Except Stop (β × List Token) → Prop where
  | ok {a : α} {b : β} {index : Nat} {ts : List Token} :
      R a b index → From body index ts →
        Follows tape body R (some (.ok (a, index))) (.ok (b, ts))
  | stopped {e : Stop} :
      e.error.token ∈ tape.tokens →
      Follows tape body R (some (.error (.stopped e.error))) (.error e)

def Same {α : Type} (a b : α) (_ : Nat) : Prop :=
  a = b

def Passed (body : List Token) (t : Token) (index : Nat) : Prop :=
  ∃ before, index = before + 1 ∧ body[before]? = some t

def Taken (body : List Token) (t u : Token) (index : Nat) : Prop :=
  t = u ∧ Passed body t index

def Ending
    {α : Type} (body : List Token) (a : α) (b : α × Token) (index : Nat) :
    Prop :=
  a = b.1 ∧ Passed body b.2 index

variable {tape : Tape} {r : Reader} {body ts : List Token} {index : Nat}
  {t : Token}

theorem Passed.mem (passed : Passed body t index) : t ∈ body := by
  obtain ⟨before, rfl, there⟩ := passed
  exact List.mem_of_getElem? there

namespace From

theorem index_add_length (here : From body index ts) :
    index + ts.length = body.length := by
  have within := here.within
  rw [← here.rest, List.length_drop]
  omega

theorem getElem? (here : From body index (t :: ts)) :
    body[index]? = some t := by
  rw [← Nat.add_zero index, ← List.getElem?_drop, here.rest]
  rfl

theorem mem (here : From body index (t :: ts)) : t ∈ body :=
  List.mem_of_getElem? here.getElem?

theorem next (here : From body index (t :: ts)) : From body (index + 1) ts := by
  have length := here.index_add_length
  rw [List.length_cons] at length
  refine ⟨by omega, ?_⟩
  rw [← List.drop_drop, here.rest]
  rfl

theorem passed (here : From body index (t :: ts)) : Passed body t (index + 1) :=
  ⟨index, rfl, here.getElem?⟩

theorem start (body : List Token) : From body 0 body :=
  ⟨Nat.zero_le _, List.drop_zero⟩

end From

namespace Holds

theorem mem_tokens
    (holds : tape.Holds r body)
    {t : Token}
    (member : t ∈ body) :
    t ∈ tape.tokens := by
  obtain ⟨after, whole⟩ := holds.tokens
  rw [whole]
  exact List.mem_append_left _ member

theorem getElem?
    (holds : tape.Holds r body)
    (here : From body index ts) :
    tape.tokens[index]? = some (ts.headD r.last) := by
  obtain ⟨after, whole⟩ := holds.tokens
  rw [whole]
  cases ts with
  | nil =>
      have length := here.index_add_length
      rw [List.length_nil, Nat.add_zero] at length
      rw [length, List.getElem?_append_right (Nat.le_refl _), Nat.sub_self]
      rfl
  | cons t ts =>
      have length := here.index_add_length
      rw [List.length_cons] at length
      rw [List.getElem?_append_left (by omega), here.getElem?]
      rfl

theorem headD_mem
    (holds : tape.Holds r body)
    (here : From body index ts) :
    ts.headD r.last ∈ tape.tokens :=
  List.mem_of_getElem? (holds.getElem? here)

end Holds

section Passages

variable {α β γ δ : Type} {R : α → β → Nat → Prop} {S : γ → δ → Nat → Prop}

theorem Follows.bind
    {x : Passage α} {f : α → Passage γ} {y : Except Stop (β × List Token)}
    {g : β × List Token → Except Stop (δ × List Token)}
    (first : Follows tape body R (x.run index) y)
    (next : ∀ a b index ts, y = .ok (b, ts) → R a b index → From body index ts →
      Follows tape body S ((f a).run index) (g (b, ts))) :
    Follows tape body S ((x >>= f).run index) (y >>= g) := by
  rw [StateT.run_bind]
  generalize x.run index = passage at first
  cases first with
  | ok related behind => exact next _ _ _ _ rfl related behind
  | stopped member => exact .stopped member

theorem Follows.mono
    {x : ExceptT Halt Option (α × Nat)} {y : Except Stop (β × List Token)}
    {S : α → δ → Nat → Prop} {g : β × List Token → δ × List Token}
    (first : Follows tape body R x y)
    (next : ∀ a b index ts, R a b index → From body index ts →
      S a (g (b, ts)).1 index ∧ (g (b, ts)).2 = ts) :
    Follows tape body S x (y.map g) := by
  cases first with
  | @ok a b index ts related behind =>
      obtain ⟨value, rest⟩ := next a b index ts related behind
      exact .ok value (rest.symm ▸ behind)
  | stopped member => exact .stopped member

theorem Follows.map
    {x : Passage α} {f : α → γ} {y : Except Stop (β × List Token)}
    {g : β × List Token → δ × List Token}
    (first : Follows tape body R (x.run index) y)
    (next : ∀ a b index ts, R a b index → From body index ts →
      S (f a) (g (b, ts)).1 index ∧ (g (b, ts)).2 = ts) :
    Follows tape body S ((do return f (← x) : Passage γ).run index)
      (y.map g) := by
  rw [StateT.run_bind]
  generalize x.run index = passage at first
  cases first with
  | @ok a b index ts related behind =>
      obtain ⟨value, rest⟩ := next a b index ts related behind
      exact .ok value (rest.symm ▸ behind)
  | stopped member => exact .stopped member

theorem run_bind_of_run {x : Passage α} {a : α} {next : Nat}
    (passes : x.run index = some (.ok (a, next))) (f : α → Passage γ) :
    (x >>= f).run index = (f a).run next := by
  rw [StateT.run_bind, passes]
  rfl

theorem run_bind_of_halt {x : Passage α} {halt : Halt}
    (halts : x.run index = some (.error halt))
    (f : α → Passage γ) :
    (x >>= f).run index = some (.error halt) := by
  rw [StateT.run_bind, halts]
  rfl

theorem Follows.exists_run {x : ExceptT Halt Option (α × Nat)} {b : β}
    (follows : Follows tape body R x (.ok (b, ts))) :
    ∃ a next, x = some (.ok (a, next)) ∧ R a b next ∧ From body next ts := by
  cases follows with
  | ok related behind => exact ⟨_, _, rfl, related, behind⟩

theorem Follows.halts {x : ExceptT Halt Option (α × Nat)} {e : Stop}
    (follows : Follows tape body R x (.error e)) :
    x = some (.error (.stopped e.error)) ∧ e.error.token ∈ tape.tokens := by
  cases follows with
  | stopped member => exact ⟨rfl, member⟩

theorem run_current_bind
    (holds : tape.Holds r body)
    (here : From body index ts)
    (f : Token → Passage γ) :
    (tape.current >>= f).run index = (f (ts.headD r.last)).run index := by
  rw [StateT.run_bind]
  change (tape.token index).run index >>= _ = _
  rw [token, holds.getElem? here]
  rfl

theorem run_current_nil
    (holds : tape.Holds r body)
    (here : From body index [])
    (f : Token → Passage γ) :
    (tape.current >>= f).run index = (f r.last).run index :=
  run_current_bind holds here f

theorem run_current_cons
    (holds : tape.Holds r body)
    (here : From body index (t :: ts))
    (f : Token → Passage γ) :
    (tape.current >>= f).run index = (f t).run index :=
  run_current_bind holds here f

theorem run_advance
    (holds : tape.Holds r body)
    (here : From body index (t :: ts)) :
    tape.advance.run index = some (.ok (t, index + 1)) := by
  rw [advance, run_current_cons holds here, if_pos (holds.inside t here.mem)]
  rfl

theorem run_advance_bind
    (holds : tape.Holds r body)
    (here : From body index (t :: ts))
    (f : Token → Passage γ) :
    (tape.advance >>= f).run index = (f t).run (index + 1) :=
  run_bind_of_run (run_advance holds here) f

theorem run_previous_bind
    (holds : tape.Holds r body)
    (passed : Passed body t index)
    (f : Token → Passage γ) :
    (tape.previous >>= f).run index = (f t).run index := by
  obtain ⟨before, rfl, there⟩ := passed
  obtain ⟨after, whole⟩ := holds.tokens
  have found : tape.tokens[before]? = some t := by
    rw [whole]
    exact (List.getElem?_append_left
      (List.getElem?_eq_some_iff.1 there).1).trans there
  rw [StateT.run_bind]
  change (tape.token before).run (before + 1) >>= _ = _
  rw [token, found]
  rfl

theorem Follows.refused
    (member : t ∈ tape.tokens)
    (complaint : Complaint) (rest : List Token) :
    Follows tape body R ((refuse complaint t : Passage α).run index)
      (.error ⟨⟨complaint, t⟩, rest⟩) :=
  @Follows.stopped tape body α β R ⟨⟨complaint, t⟩, rest⟩ member

theorem refuse_follows
    (holds : tape.Holds r body)
    (here : From body index ts)
    (complaint : Complaint) :
    Follows tape body R
      ((refuse complaint (ts.headD r.last) : Passage α).run index)
      (r.stop complaint ts) :=
  .refused (holds.headD_mem here) complaint ts

end Passages

section Words

theorem expect_follows
    (holds : tape.Holds r body)
    (here : From body index ts)
    {kind : TokenKind}
    (inside : kind ≠ .endOfInput)
    (complaint : Complaint) :
    Follows tape body (Taken body) ((tape.expect kind complaint).run index)
      (r.expect kind complaint ts) := by
  cases ts with
  | nil =>
      have other : r.last.kind ≠ kind := holds.ends.trans_ne inside.symm
      rw [expect, run_current_nil holds here, if_neg other]
      exact refuse_follows holds here complaint
  | cons t ts =>
      rw [expect, run_current_cons holds here, Reader.expect]
      by_cases same : t.kind = kind
      · rw [if_pos same, if_pos same, run_advance holds here]
        exact .ok ⟨rfl, here.passed⟩ here.next
      · rw [if_neg same, if_neg same]
        exact refuse_follows holds here complaint

theorem fallback_follows
    (holds : tape.Holds r body)
    (here : From body index ts) :
    Follows tape body Same (tape.fallback.run index) (r.fallback ts) := by
  cases ts with
  | nil =>
      have other : r.last.kind ≠ .comma := holds.ends.trans_ne (by decide)
      rw [fallback, run_current_nil holds here, if_neg other]
      exact .ok rfl here
  | cons t ts =>
      rw [fallback, run_current_cons holds here, Reader.fallback]
      by_cases comma : t.kind = .comma
      · rw [if_pos comma, if_pos comma, run_advance_bind holds here]
        apply (expect_follows holds here.next (by decide) _).bind
        intro value other index ts _ taken behind
        cases taken.1
        exact .ok rfl behind
      · rw [if_neg comma, if_neg comma]
        exact .ok rfl here

theorem reference_follows
    (holds : tape.Holds r body)
    (here : From body index (t :: ts)) :
    Follows tape body (Ending body) (tape.reference.run index)
      (r.reference t ts) := by
  rw [reference, run_advance_bind holds here]
  apply (expect_follows holds here.next (by decide) .environmentParen).bind
  intro paren _ _ _ _ _ opened
  apply (expect_follows holds opened (by decide) .environmentName).bind
  intro name other _ _ _ taken named
  cases taken.1
  apply (fallback_follows holds named).bind
  intro default other _ _ _ same defaulted
  cases same
  apply (expect_follows holds defaulted (by decide) .environmentClose).bind
  intro close other _ _ _ taken closed
  cases taken.1
  dsimp only
  rw [holds.env]
  cases (r.env name.value).or default with
  | some value => exact .ok ⟨rfl, taken.2⟩ closed
  | none => exact .refused (holds.mem_tokens here.mem) _ _

theorem wordPart_follows
    (holds : tape.Holds r body)
    (here : From body index (t :: ts)) :
    Follows tape body (Ending body) (tape.wordPart.run index)
      (r.wordPart t ts) := by
  rw [wordPart, run_current_cons holds here, Reader.wordPart]
  by_cases sign : t.kind = .environment
  · rw [if_pos sign, if_pos sign]
    exact reference_follows holds here
  · rw [if_neg sign, if_neg sign, run_advance_bind holds here]
    exact .ok ⟨rfl, here.passed⟩ here.next

theorem word_follows
    (holds : tape.Holds r body)
    {t : Token} {ts : List Token} {index : Nat}
    (here : From body index (t :: ts)) :
    Follows tape body Same (tape.word.run index) (r.word t ts) := by
  rw [word, Reader.word_eq_bind]
  apply (wordPart_follows holds here).bind
  intro text part index rest read ending behind
  obtain ⟨other, last⟩ := part
  obtain ⟨same, passed⟩ := ending
  cases same
  dsimp only
  cases rest with
  | nil =>
      have apart : ¬ (r.last.kind.isGlue && last.touches r.last) = true := by
        simp [Token.touches, holds.ends]
      rw [run_current_nil holds behind, run_previous_bind holds passed,
        if_neg apart]
      exact .ok rfl behind
  | cons next rest =>
      rw [run_current_cons holds behind, run_previous_bind holds passed]
      dsimp only
      by_cases glued : (next.kind.isGlue && last.touches next) = true
      · have shorter : rest.length < ts.length := Reader.wordPart_length read
        rw [if_pos glued, if_pos glued]
        apply (word_follows holds behind).map
        intro more other _ _ same _
        cases same
        exact ⟨rfl, rfl⟩
      · rw [if_neg glued, if_neg glued]
        exact .ok rfl behind
termination_by ts.length

theorem name_follows
    (holds : tape.Holds r body)
    (here : From body index (t :: ts)) :
    Follows tape body Same (tape.name.run index) (r.name t ts) := by
  have text :
      Follows tape body Same (tape.nameText.run index) (r.nameText t ts) := by
    rw [nameText, run_current_cons holds here, Reader.nameText]
    by_cases quoted : t.kind = .string
    · rw [if_pos quoted, if_pos quoted, run_advance_bind holds here]
      exact .ok rfl here.next
    · rw [if_neg quoted, if_neg quoted]
      exact word_follows holds here
  rw [name, run_current_cons holds here]
  apply text.bind
  intro text other index ts _ same behind
  cases same
  dsimp only
  split
  · exact .refused (holds.mem_tokens here.mem) _ _
  · exact .ok rfl behind

theorem braceIn_append (holds : tape.Holds r body) {ts after : List Token}
    (inside : ∀ t ∈ ts, t.kind ≠ .endOfInput) :
    braceIn (ts ++ r.last :: after) = Reader.braceAhead ts := by
  induction ts with
  | nil => simp [braceIn, Reader.braceAhead, holds.ends]
  | cons t ts induction =>
      have others := List.forall_mem_cons.1 inside
      simp [braceIn, Reader.braceAhead, others.1, induction others.2]

theorem run_braceAhead_bind {γ : Type}
    (holds : tape.Holds r body)
    (here : From body index (t :: ts))
    (isName : t.kind.isName = true)
    (f : Bool → Passage γ) :
    (tape.braceAhead >>= f).run index =
      (f (Reader.braceAhead ts)).run index := by
  obtain ⟨after, whole⟩ := holds.tokens
  have rest : tape.tokens.drop index = t :: ts ++ r.last :: after := by
    rw [whole, List.drop_append_of_le_length here.within, here.rest]
  have inside : ∀ u ∈ t :: ts, u.kind ≠ .endOfInput := by
    intro u member
    rw [← here.rest] at member
    exact holds.inside u (List.mem_of_mem_drop member)
  have same : Reader.braceAhead (t :: ts) = Reader.braceAhead ts := by
    cases kind : t.kind <;>
      simp_all [Reader.braceAhead, TokenKind.isName, TokenKind.isWord]
  rw [StateT.run_bind, ← same, ← braceIn_append holds inside, ← rest]
  rfl

theorem arguments_follows
    (holds : tape.Holds r body)
    (name : String) (line : Int) (header : Bool) {ts : List Token} {index : Nat}
    (here : From body index ts) :
    Follows tape body Same ((tape.arguments name line header).run index)
      (r.arguments name line header ts) := by
  match ts with
  | [] =>
      rw [arguments, run_current_nil holds here, if_pos (by simp [holds.ends]),
        Reader.arguments]
      exact .ok rfl here
  | t :: rest =>
      have inside := holds.inside t here.mem
      have first :
          (t.kind = .semicolon || t.kind = .endOfInput ||
            (t.kind = .openBrace && header)) =
            (t.kind = .semicolon || (t.kind = .openBrace && header)) := by
        simp [inside]
      rw [arguments, run_current_cons holds here, first, Reader.arguments_cons]
      split
      · exact .ok rfl here
      split
      · exact refuse_follows holds here _
      split
      · exact .ok rfl here
      split
      · rw [run_advance_bind holds here]
        apply (arguments_follows holds name line header here.next).map
        intro args other _ _ same _
        cases same
        exact ⟨rfl, rfl⟩
      split
      · apply (word_follows holds here).bind
        intro text other index next read same behind
        cases same
        have shorter : next.length ≤ rest.length := Reader.word_length read
        apply (arguments_follows holds name line header behind).map
        intro args other _ _ same _
        cases same
        exact ⟨rfl, rfl⟩
      · exact .ok rfl here
termination_by ts.length

theorem listedPath_follows
    (holds : tape.Holds r body)
    (here : From body index (t :: ts)) :
    Follows tape body Same (tape.listedPath.run index) (r.listedPath t ts) := by
  rw [listedPath, run_current_cons holds here, Reader.listedPath]
  split
  · apply (reference_follows holds here).mono
    intro value other _ _ ending _
    exact ⟨ending.1, rfl⟩
  split
  · rw [run_advance_bind holds here]
    exact .ok rfl here.next
  · exact refuse_follows holds here _

theorem listedPaths_follows
    (holds : tape.Holds r body)
    {ts : List Token} {index : Nat}
    (here : From body index ts) :
    Follows tape body Same (tape.listedPaths.run index)
      ((r.pathList ts).map fun read => (read.1.1, read.1.2 :: read.2)) := by
  match ts with
  | [] =>
      have bracket : r.last.kind ≠ .closeBracket :=
        holds.ends.trans_ne (by decide)
      have sign : r.last.kind ≠ .environment := holds.ends.trans_ne (by decide)
      have string : r.last.kind ≠ .string := holds.ends.trans_ne (by decide)
      rw [listedPaths, run_current_nil holds here, if_neg bracket,
        StateT.run_bind, listedPath, run_current_nil holds here, if_neg sign,
        if_neg string, Reader.pathList]
      exact refuse_follows holds here _
  | t :: rest =>
      rw [listedPaths, run_current_cons holds here, Reader.pathList_cons]
      split
      · exact .ok rfl here
      rw [Reader.map_bind]
      apply (listedPath_follows holds here).bind
      intro path other index after read same behind
      cases same
      cases after with
      | nil =>
          have comma : r.last.kind ≠ .comma := holds.ends.trans_ne (by decide)
          have bracket : r.last.kind ≠ .closeBracket :=
            holds.ends.trans_ne (by decide)
          rw [run_current_nil holds behind, if_neg comma, if_neg bracket]
          exact refuse_follows holds behind _
      | cons next tail =>
          rw [run_current_cons holds behind]
          dsimp only
          split
          · have shorter : tail.length ≤ rest.length :=
              Nat.le_of_succ_le (Reader.listedPath_length read)
            rw [run_advance_bind holds behind]
            have further : Follows tape body Same
                ((do return path :: (← tape.listedPaths) : Passage
                  (List String)).run (index + 1))
                (((r.pathList tail).map fun read =>
                  (read.1.1, read.1.2 :: read.2)).map
                  fun read => (path :: read.1, read.2)) := by
              apply (listedPaths_follows holds behind.next).map
              intro paths other _ _ same _
              cases same
              exact ⟨rfl, rfl⟩
            cases found : r.pathList tail with
            | error | ok =>
                rw [found] at further
                exact further
          split
          · rename_i bracket
            rw [StateT.run_bind, listedPaths, run_current_cons holds behind,
              if_pos bracket]
            exact .ok rfl behind
          · exact refuse_follows holds behind _
termination_by ts.length

theorem pathList_follows
    (holds : tape.Holds r body)
    (here : From body index ts) :
    Follows tape body (Ending body) (tape.pathList.run index)
      (r.pathList ts) := by
  have listed := listedPaths_follows holds here
  rw [pathList, StateT.run_bind]
  generalize tape.listedPaths.run index = passage at listed
  cases found : r.pathList ts with
  | error e =>
      rw [found] at listed
      cases listed with
      | stopped member => exact .stopped member
  | ok read =>
      obtain ⟨⟨paths, close⟩, rest⟩ := read
      rw [found] at listed
      cases listed with
      | ok same behind =>
          cases same
          change Follows tape body (Ending body)
            ((tape.advance >>= fun _ =>
              pure paths : Passage (List String)).run _) _
          rw [run_advance_bind holds behind]
          exact .ok ⟨rfl, behind.passed⟩ behind.next

end Words

section Conditions

structure PartRead
    (body : List Token) (t : Token) (text : String) (part : ConditionPart)
    (index : Nat) :
    Prop where
  text : text = part.text
  first : part.first = t
  passed : Passed body part.last index

theorem conditionText_follows
    (holds : tape.Holds r body)
    (here : From body index (t :: ts)) :
    Follows tape body (PartRead body t) (tape.conditionText.run index)
      (r.conditionPart t ts) := by
  rw [conditionText, run_current_cons holds here, Reader.conditionPart]
  split
  · apply (reference_follows holds here).mono
    intro value other _ _ ending _
    exact ⟨⟨ending.1, rfl, ending.2⟩, rfl⟩
  · rw [run_advance_bind holds here]
    exact .ok ⟨rfl, rfl, here.passed⟩ here.next

theorem conditionPart_follows
    (holds : tape.Holds r body)
    (here : From body index (t :: ts)) :
    Follows tape body Same (tape.conditionPart.run index)
      (r.conditionPart t ts) := by
  rw [conditionPart, run_current_cons holds here,
    ← bind_pure (r.conditionPart t ts)]
  apply (conditionText_follows holds here).bind
  intro text part index ts _ read behind
  cases read.text
  cases read.first
  rw [run_previous_bind holds read.passed]
  exact .ok rfl behind

theorem bareCondition_follows
    (holds : tape.Holds r body)
    {ts : List Token} {index : Nat}
    (here : From body index ts) :
    Follows tape body Same (tape.bareCondition.run index)
      (r.bareCondition ts) := by
  match ts with
  | [] =>
      rw [bareCondition, run_current_nil holds here,
        if_pos (by simp [holds.ends]), Reader.bareCondition]
      exact .ok rfl here
  | t :: rest =>
      have inside := holds.inside t here.mem
      rw [bareCondition, run_current_cons holds here, Reader.bareCondition_cons]
      by_cases brace : t.kind = .openBrace
      · rw [if_pos (by simp [brace]), if_pos brace]
        exact .ok rfl here
      · rw [if_neg (by simp [brace, inside]), if_neg brace]
        apply (conditionPart_follows holds here).bind
        intro part other index next read same behind
        cases same
        have shorter : next.length ≤ rest.length :=
          Reader.conditionPart_length read
        apply (bareCondition_follows holds behind).map
        intro parts other _ _ same _
        cases same
        exact ⟨rfl, rfl⟩
termination_by ts.length

theorem parenCondition_follows
    (holds : tape.Holds r body)
    (inner : Nat) {ts : List Token} {index : Nat}
    (here : From body index ts) :
    Follows tape body Same ((tape.parenCondition inner).run index)
      (r.parenCondition inner ts) := by
  match ts with
  | [] =>
      rw [parenCondition, run_current_nil holds here,
        if_pos (by simp [holds.ends]), Reader.parenCondition]
      exact refuse_follows holds here _
  | t :: rest =>
      have inside := holds.inside t here.mem
      rw [parenCondition, run_current_cons holds here,
        Reader.parenCondition_cons]
      by_cases brace : t.kind = .openBrace
      · rw [if_pos (by simp [brace]), if_pos brace]
        exact refuse_follows holds here _
      rw [if_neg (by simp [brace, inside]), if_neg brace]
      split
      · rw [run_advance_bind holds here]
        exact .ok rfl here.next
      · apply (conditionPart_follows holds here).bind
        intro part other index next read same behind
        cases same
        have shorter : next.length ≤ rest.length :=
          Reader.conditionPart_length read
        apply (parenCondition_follows holds (Reader.nesting inner t.kind)
          behind).map
        intro parts other _ _ same _
        cases same
        exact ⟨rfl, rfl⟩
termination_by ts.length

theorem condition_follows
    (holds : tape.Holds r body)
    (here : From body index ts) :
    Follows tape body Same (tape.condition.run index) (r.condition ts) := by
  cases ts with
  | nil =>
      have paren : r.last.kind ≠ .openParen := holds.ends.trans_ne (by decide)
      rw [condition, run_current_nil holds here, if_neg paren, StateT.run_bind,
        bareCondition, run_current_nil holds here,
        if_pos (by simp [holds.ends])]
      exact .ok rfl here
  | cons t rest =>
      rw [condition, run_current_cons holds here, Reader.condition]
      split
      · rw [run_advance_bind holds here]
        apply (parenCondition_follows holds 0 here.next).map
        intro parts other _ _ same _
        cases same
        exact ⟨rfl, rfl⟩
      · apply (bareCondition_follows holds here).map
        intro parts other _ _ same _
        cases same
        exact ⟨rfl, rfl⟩

end Conditions

end Tape

end ServerConf
