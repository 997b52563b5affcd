import ServerConf.Proofs.Spelling

/-!
Reading a source token by token. Each call moves the cursor on as long as there
is something left, and only a string that is never closed makes a call fail. A
call that fails has used the source up, and so has one that comes to the end of
input; no call after it changes anything.
-/

namespace ServerConf

namespace Lexeme

inductive Escaped : List Char → Prop where
  | nil : Escaped []
  | plain {c : Char} {text : List Char} :
      c ≠ '\\' → Escaped text →
      Escaped (c :: text)
  | escape {c : Char} {text : List Char} :
      Escaped text →
      Escaped ('\\' :: c :: text)

/-- Somewhere in the text stands a quote that no backslash escapes. -/
def HasClosing (quote : Char) (text : List Char) : Prop :=
  ∃ body rest, text = body ++ quote :: rest ∧ Escaped body

section Closing

variable {quote c : Char} {text : List Char}

theorem HasClosing.here (quote : Char) (text : List Char) :
    HasClosing quote (quote :: text) :=
  ⟨[], text, rfl, .nil⟩

theorem hasClosing_cons
    (plain : c ≠ '\\')
    (other : c ≠ quote) :
    HasClosing quote (c :: text) ↔ HasClosing quote text := by
  constructor
  · rintro ⟨body, rest, same, escaped⟩
    cases escaped with
    | nil => exact absurd (List.cons.inj same).1 other
    | plain _ escaped => exact ⟨_, rest, (List.cons.inj same).2, escaped⟩
    | escape => exact absurd (List.cons.inj same).1 plain
  · rintro ⟨body, rest, rfl, escaped⟩
    exact ⟨c :: body, rest, rfl, .plain plain escaped⟩

theorem hasClosing_escape (real : quote ≠ '\\') :
    HasClosing quote ('\\' :: c :: text) ↔ HasClosing quote text := by
  constructor
  · rintro ⟨body, rest, same, escaped⟩
    cases escaped with
    | nil => exact absurd (List.cons.inj same).1.symm real
    | plain plain => exact absurd (List.cons.inj same).1.symm plain
    | escape escaped =>
        exact ⟨_, rest, (List.cons.inj (List.cons.inj same).2).2, escaped⟩
  · rintro ⟨body, rest, rfl, escaped⟩
    exact ⟨'\\' :: c :: body, rest, rfl, .escape escaped⟩

theorem not_hasClosing_backslash (real : quote ≠ '\\') :
    ¬ HasClosing quote ['\\'] := by
  rintro ⟨body, rest, same, escaped⟩
  cases escaped with
  | nil => exact real (List.cons.inj same).1.symm
  | plain plain => exact plain (List.cons.inj same).1.symm
  | escape => cases (List.cons.inj same).2

theorem closeQuote_eq_none_iff (real : quote ≠ '\\') :
    closeQuote quote text = none ↔ ¬ HasClosing quote text := by
  fun_induction closeQuote quote text with
  | case1 =>
      refine iff_of_true rfl ?_
      rintro ⟨body, rest, same, _⟩
      cases body <;> cases same
  | case2 c rest induction =>
      rw [Option.map_eq_none_iff, induction, hasClosing_escape real]
  | case3 rest => exact iff_of_false (by simp) (not_not.2 (.here _ rest))
  | case4 c rest escapes other induction =>
      rw [Option.map_eq_none_iff, induction]
      by_cases plain : c = '\\'
      · subst plain
        cases rest with
        | nil =>
            refine iff_of_true ?_ (not_hasClosing_backslash real)
            rintro ⟨body, rest, same, _⟩
            cases body <;> cases same
        | cons d rest => exact absurd rfl (escapes d rest rfl)
      · rw [hasClosing_cons plain other]

end Closing

theorem isQuote_ne_backslash {c : Char} (quote : isQuote c = true) :
    c ≠ '\\' := by
  rintro rfl
  cases quote

theorem read?_eq_none_iff {c : Char} {rest : List Char} :
    read? c rest = none ↔ isQuote c = true ∧ ¬ HasClosing c rest := by
  by_cases quote : isQuote c = true
  · have sign : punctuation? c = none := by
      simp only [isQuote, Bool.or_eq_true, beq_iff_eq] at quote
      rcases quote with rfl | rfl <;> rfl
    have read : read? c rest = quoted? c rest := by
      simp only [read?, sign]
      exact if_pos quote
    rw [read, quoted?, Option.map_eq_none_iff,
      closeQuote_eq_none_iff (isQuote_ne_backslash quote)]
    exact (and_iff_right quote).symm
  · refine iff_of_false ?_ fun unclosed => quote unclosed.1
    unfold read?
    split
    · simp
    · rw [if_neg quote]
      split
      · simp
      · split <;> simp

end Lexeme

/-- Behind the gap the text goes on with a quote, and nothing closes what it
opens. -/
def Unclosed (gap text : List Char) : Prop :=
  Gap.Form false gap ∧ ∃ quote rest, text = gap ++ quote :: rest ∧
    Lexeme.isQuote quote = true ∧ ¬ Lexeme.HasClosing quote rest

namespace Cursor

/-- All that a call can do: come to the end of the source, read a token, or use
up the source with a string that is never closed. -/
inductive Call (cursor : Cursor) : Except ScanError Token × Cursor → Prop where
  | ended {gap : List Char} :
      cursor.rest = gap → Gap.Form true gap →
      Call cursor (.ok (.atEnd (cursor.position.advanceBy gap)),
        cursor.advance gap [])
  | token {gap rest : List Char} {c : Char} {lexeme : Lexeme} :
      cursor.rest = gap ++ c :: rest →
      Gap.Form false gap → Lexeme.read? c rest = some lexeme →
      Call cursor (.ok (lexeme.toToken (cursor.position.advanceBy gap)),
        (cursor.advance gap (c :: rest)).advance lexeme.raw lexeme.rest)
  | unclosed {gap : List Char} :
      Unclosed gap cursor.rest →
      Call cursor (.error ⟨cursor.position.advanceBy gap⟩,
        cursor.advance cursor.rest [])

@[simp] theorem advance_rest (cursor : Cursor) (taken rest : List Char) :
    (cursor.advance taken rest).rest = rest := rfl

@[simp] theorem advance_position (cursor : Cursor) (taken rest : List Char) :
    (cursor.advance taken rest).position = cursor.position.advanceBy taken :=
  rfl

@[simp] theorem advance_offset (cursor : Cursor) (taken rest : List Char) :
    (cursor.advance taken rest).offset = cursor.offset + taken.length := rfl

theorem advance_advance
    (cursor : Cursor) (first second middle rest : List Char) :
    (cursor.advance first middle).advance second rest =
      cursor.advance (first ++ second) rest := by
  simp [advance, Position.advanceBy_append, Nat.add_assoc]

theorem next_of_unclosed {cursor : Cursor} {gap : List Char}
    (unclosed : Unclosed gap cursor.rest) :
    cursor.next = (.error ⟨cursor.position.advanceBy gap⟩,
      cursor.advance cursor.rest []) := by
  obtain ⟨form, quote, rest, same, isQuote, open'⟩ := unclosed
  have shown : Gap.split (quote :: rest) = ([], quote :: rest) := by
    simp only [Lexeme.isQuote, Bool.or_eq_true, beq_iff_eq] at isQuote
    rcases isQuote with rfl | rfl <;> rfl
  have split : Gap.split cursor.rest = (gap, quote :: rest) := by
    rw [same, Gap.split_append_of_form form, shown, List.append_nil]
  have unread := Lexeme.read?_eq_none_iff.2 ⟨isQuote, open'⟩
  simp only [next, read, skipGap, split, advance_rest, advance_position, unread,
    advance_advance]
  rw [same]

theorem next_call (cursor : Cursor) : cursor.Call cursor.next := by
  have whole := Gap.split_append cursor.rest
  have form := Gap.split_form cursor.rest
  cases behind : (Gap.split cursor.rest).2 with
  | nil =>
      rw [behind] at whole form
      rw [List.append_nil] at whole
      simp only [next, read, skipGap, behind, advance_rest]
      exact .ended whole.symm form
  | cons c rest =>
      rw [behind] at whole form
      cases read : Lexeme.read? c rest with
      | some lexeme =>
          simp only [next, Cursor.read, skipGap, behind, advance_rest, read]
          exact .token whole.symm form read
      | none =>
          have unclosed : Unclosed _ cursor.rest :=
            ⟨form, c, rest, whole.symm, Lexeme.read?_eq_none_iff.1 read⟩
          rw [next_of_unclosed unclosed]
          exact .unclosed unclosed

theorem next_eq_error_iff {cursor : Cursor} {e : ScanError} :
    cursor.next.1 = .error e ↔
      ∃ gap, Unclosed gap cursor.rest ∧
        e = ⟨cursor.position.advanceBy gap⟩ := by
  constructor
  · intro failed
    cases call : cursor.next with
    | mk result later =>
    have possible := cursor.next_call
    rw [call] at possible failed
    cases possible with
    | ended | token => cases failed
    | @unclosed gap unclosed =>
        cases failed
        exact ⟨gap, unclosed, rfl⟩
  · rintro ⟨gap, unclosed, rfl⟩
    rw [next_of_unclosed unclosed]

/-- What the cursor has passed and what is left make up the source, and its
place is the one behind what it has passed. -/
structure Within (source : List Char) (cursor : Cursor) (passed : List Char) :
    Prop where
  whole : passed ++ cursor.rest = source
  offset : cursor.offset = passed.length
  position : cursor.position = .after passed

theorem Within.advance {source passed taken rest : List Char} {cursor : Cursor}
    (within : cursor.Within source passed)
    (same : cursor.rest = taken ++ rest) :
    (cursor.advance taken rest).Within source (passed ++ taken) where
  whole := by rw [advance_rest, List.append_assoc, ← same, within.whole]
  offset := by rw [advance_offset, within.offset, List.length_append]
  position := by rw [advance_position, within.position,
    Position.after_advanceBy]

theorem Within.next {source passed : List Char} {cursor : Cursor}
    (within : cursor.Within source passed) :
    ∃ taken, cursor.next.2.Within source (passed ++ taken) ∧
      (cursor.rest ≠ [] → taken ≠ []) := by
  have call := cursor.next_call
  generalize cursor.next = outcome at call
  cases call with
  | @ended gap same _ =>
      refine ⟨gap, within.advance (by rw [same, List.append_nil]),
        fun left => ?_⟩
      rwa [← same]
  | @token gap rest c lexeme same _ read =>
      have taking := Lexeme.read?_append read
      refine ⟨gap ++ lexeme.raw, ?_, fun _ none => ?_⟩
      · rw [advance_advance]
        exact within.advance (by rw [List.append_assoc, taking, same])
      · exact Lexeme.read?_raw_ne_nil read (List.append_eq_nil_iff.1 none).2
  | unclosed => exact ⟨cursor.rest, within.advance (List.append_nil _).symm, id⟩

theorem rest_eq_nil_of_ended {cursor : Cursor}
    (ended : ∀ t, cursor.next.1 = .ok t → t.kind = .endOfInput) :
    cursor.next.2.rest = [] := by
  have call := cursor.next_call
  generalize cursor.next = outcome at call ended
  cases call with
  | ended | unclosed => rfl
  | token _ _ read =>
      exact absurd (ended _ rfl) (Lexeme.toToken_kind_ne_endOfInput read)

theorem next_of_rest_nil {cursor : Cursor} (none : cursor.rest = []) :
    cursor.next = (.ok (.atEnd cursor.position), cursor) := by
  obtain ⟨offset, position, rest⟩ := cursor
  obtain rfl : rest = [] := none
  rfl

/-- The cursor after a number of calls on a source. -/
def after (source : String) : Nat → Cursor
  | 0 => ofSource source
  | calls + 1 => (after source calls).next.2

/-- The cursor at the end of a source. -/
def atEnd (source : String) : Cursor :=
  ⟨source.length, .after source.toList, []⟩

variable {source : String}

theorem within_after (source : String) (calls : Nat) :
    ∃ passed, (after source calls).Within source.toList passed := by
  induction calls with
  | zero => exact ⟨[], rfl, rfl, rfl⟩
  | succ calls induction =>
      obtain ⟨passed, within⟩ := induction
      obtain ⟨taken, further, _⟩ := within.next
      exact ⟨passed ++ taken, further⟩

theorem Within.eq_atEnd {cursor : Cursor} {passed : List Char}
    (within : cursor.Within source.toList passed)
    (none : cursor.rest = []) :
    cursor = atEnd source := by
  obtain ⟨offset, position, rest⟩ := cursor
  obtain rfl : rest = [] := none
  obtain ⟨whole, rfl, rfl⟩ := within
  rw [List.append_nil] at whole
  rw [atEnd, whole, String.length_toList]

theorem next_atEnd (source : String) :
    (atEnd source).next = (.ok (.atEnd (.after source.toList)), atEnd source) :=
  next_of_rest_nil rfl

theorem after_eq_atEnd {calls later : Nat}
    (ended : after source calls = atEnd source)
    (more : calls ≤ later) :
    after source later = atEnd source := by
  induction more with
  | refl => exact ended
  | step _ induction => rw [after, induction, next_atEnd]

/-- Calls on a source go on as long as anything is left of it, and never beyond
its end. One fails exactly if a string opens behind the next gap that is never
closed, and tells where it opens. From the first call on that fails or comes to
the end of input, all others come to the end of input and change nothing. -/
theorem run_of_source (source : String) (calls : Nat) :
    ((after source calls).offset < source.length →
      (after source calls).offset < (after source (calls + 1)).offset) ∧
    (after source (calls + 1)).offset ≤ source.length ∧
    (∀ e, (after source calls).next.1 = .error e ↔
      ∃ gap, Unclosed gap (source.toList.drop (after source calls).offset) ∧
        e.position =
          .after (source.toList.take (after source calls).offset ++ gap)) ∧
    ((∀ t, (after source calls).next.1 = .ok t → t.kind = .endOfInput) →
      ∀ later, calls < later → after source later = atEnd source ∧
        (after source later).next =
          (.ok (.atEnd (.after source.toList)), atEnd source)) := by
  obtain ⟨passed, within⟩ := within_after source calls
  obtain ⟨taken, further, progress⟩ := within.next
  have size := congrArg List.length within.whole
  have laterSize := congrArg List.length further.whole
  rw [List.length_append, String.length_toList] at size laterSize
  have place := within.offset
  have laterPlace : (after source (calls + 1)).offset = _ := further.offset
  refine ⟨fun left => ?_, by omega, fun e => ?_, fun ended later more => ?_⟩
  · have some : (after source calls).rest ≠ [] := by
      rw [ne_eq, ← List.length_eq_zero_iff]
      omega
    have taking := List.length_pos_iff.2 (progress some)
    rw [List.length_append] at laterPlace
    omega
  · obtain ⟨position⟩ := e
    rw [place, ← within.whole, List.drop_left, List.take_left,
      next_eq_error_iff]
    simp only [ScanError.mk.injEq, within.position, Position.after_advanceBy]
  · have stopped : after source (calls + 1) = atEnd source :=
      further.eq_atEnd (rest_eq_nil_of_ended ended)
    have still := after_eq_atEnd stopped more
    exact ⟨still, by rw [still, next_atEnd]⟩

/-- The last quote is escaped, so the second call fails at the one that opens
the string, and all later ones come to the end. The quote in the comment opens
nothing. -/
theorem run_of_source_unclosed :
    (after "a # '\n \"b\\\"" 1).next.1 = .error ⟨⟨2, 2⟩⟩ ∧
      ∀ later, 1 < later →
        (after "a # '\n \"b\\\"" later).next.1 = .ok (.atEnd ⟨2, 6⟩) := by
  have failed : (after "a # '\n \"b\\\"" 1).next.1 = .error ⟨⟨2, 2⟩⟩ := by
    decide +kernel
  refine ⟨failed, fun later more => ?_⟩
  obtain ⟨_, _, _, ended⟩ := run_of_source "a # '\n \"b\\\"" 1
  obtain ⟨_, behind⟩ :=
    ended (fun t read => by rw [failed] at read; cases read) later more
  rw [behind]
  decide +kernel

end Cursor

end ServerConf
