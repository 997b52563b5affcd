import ServerConf.Proofs.LineAlignment

/-!
What the text of lines says about the lines: where each of them begins and ends.
-/

namespace ServerConf

open Lexeme Grammar

theorem Grammar.SpellsName.exists_read
    {name : List Char} {lexemes : List Lexeme}
    (spells : SpellsName name lexemes)
    {after : List Char}
    (stops : Stops after) :
    ∃ c rest lexeme, name ++ after = c :: rest ∧ Text.isBlank c = false ∧
      read? c rest = some lexeme ∧ lexeme.kind.isName = true ∧
        lexeme.kind ≠ .location := by
  have kinds := spells.kinds
  cases spells.spelling with
  | nil => exact absurd rfl spells.isTerm.ne_nil
  | @cons c taken rest value kind others shown _ read _ =>
      obtain ⟨isName, other, _⟩ := kinds _ rfl
      exact ⟨c, taken ++ (rest ++ after), _, by simp, shown,
        read?_in_context read (.append stops rest), isName, other⟩

def BeginsLine (text : List Char) : Prop :=
  ∃ c tail, text = c :: tail ∧ Text.isBlank c = false ∧ c ≠ '\x7d'

theorem Grammar.SpellsName.beginsLine {name : List Char} {lexemes : List Lexeme}
    (spells : SpellsName name lexemes)
    {after : List Char}
    (stops : Stops after) :
    BeginsLine (name ++ after) := by
  obtain ⟨c, rest, lexeme, same, shown, read, isName, _⟩ :=
    spells.exists_read stops
  refine ⟨c, rest, same, shown, ?_⟩
  rintro rfl
  cases read
  cases isName

theorem Grammar.SpellsName.not_listWord
    {name : List Char} {lexemes : List Lexeme}
    (spells : SpellsName name lexemes)
    {after : List Char}
    (stops : Stops after) :
    ¬ listWord <+: name ++ after := by
  rintro ⟨tail, begins⟩
  obtain ⟨c, rest, lexeme, same, _, read, _, other⟩ := spells.exists_read stops
  rw [same] at begins
  obtain ⟨rfl, rfl⟩ := List.cons.inj begins
  have found := @read?_in_context 'l' ['o', 'c', 'a', 't', 'i', 'o', 'n'] []
    (' ' :: 'i' :: 'n' :: '[' :: '#' :: tail) locationWord .location (by decide)
    (.stop (by decide) _ _)
  obtain rfl := Option.some.inj (read.symm.trans found)
  exact other rfl

theorem Line.Spelled.beginsLine {expands : Bool} {line : Line}
    (spelled : line.Spelled expands) :
    BeginsLine line.text.toList := by
  cases spelled with
  | directive named =>
      obtain ⟨lexemes, spells⟩ := named
      rw [toList_directive_text]
      exact spells.beginsLine ((stops_spaced _).append sealed_semicolon.2)
  | block named =>
      obtain ⟨lexemes, spells⟩ := named
      rw [toList_block_text spells.ne_if]
      exact spells.beginsLine ((stops_spaced _).append sealed_openBrace.2)
  | condition =>
      rw [toList_condition_text]
      exact ⟨'i', _, rfl, by decide, by decide⟩
  | location =>
      rw [toList_location_text]
      exact ⟨'l', _, rfl, by decide, by decide⟩
  | reference =>
      rw [toList_reference_text]
      exact ⟨'%', _, rfl, by decide, by decide⟩

theorem Line.Tame.not_listWord {expands : Bool} {line : Line} (tame : line.Tame)
    (spelled : line.Spelled expands) : ¬ listWord <+: line.text.toList := by
  cases spelled with
  | directive named =>
      obtain ⟨lexemes, spells⟩ := named
      rw [toList_directive_text]
      exact spells.not_listWord ((stops_spaced _).append sealed_semicolon.2)
  | block named =>
      obtain ⟨lexemes, spells⟩ := named
      rw [toList_block_text spells.ne_if]
      exact spells.not_listWord ((stops_spaced _).append sealed_openBrace.2)
  | condition =>
      rw [toList_condition_text]
      simp [listWord, locationWord]
  | location =>
      cases tame with | location _ unlisted =>
      exact unlisted
  | reference =>
      rw [toList_reference_text]
      simp [listWord, locationWord, inlineWord]

theorem Line.Settled.spelled {expands : Bool} {line : Line}
    (settled : line.Settled expands) :
    line.Spelled expands := by
  have kept := settled.kept
  cases settled.legible with
  | directive header _ => exact .directive ⟨_, header.spells.named⟩
  | block header _ => exact .block ⟨_, header.spells.named⟩
  | condition runs _ => exact .condition ⟨_, runs⟩
  | location => exact .location
  | reference spelling kind => exact .reference ⟨_, spelling, kind⟩ kept

theorem BeginsLine.shown {text : List Char} (begins : BeginsLine text) :
    Shown text := by
  obtain ⟨c, tail, rfl, shown, _⟩ := begins
  exact ⟨c, rfl, shown⟩

theorem Shown.trimStart_eq {text : List Char} (shown : Shown text) :
    Text.trimStart text = text := by
  obtain ⟨c, first, shown⟩ := shown
  obtain ⟨tail, rfl⟩ := List.head?_eq_some_iff.1 first
  simp [Text.trimStart, shown]

theorem eq_of_endsLine {first second after behind : List Char}
    (firstLine : '\n' ∉ first)
    (secondLine : '\n' ∉ second)
    (ends : EndsLine after)
    (endsToo : EndsLine behind)
    (same : first ++ after = second ++ behind) :
    first = second ∧ after = behind := by
  rcases List.append_eq_append_iff.1 same with
    ⟨middle, rfl, rfl⟩ | ⟨middle, rfl, rfl⟩
  · cases middle with
    | nil => simp
    | cons c middle =>
        obtain rfl : c = '\n' := ends c rfl
        simp at secondLine
  · cases middle with
    | nil => simp
    | cons c middle =>
        obtain rfl : c = '\n' := endsToo c rfl
        simp at firstLine

theorem not_listWord_append {text after : List Char}
    (apart : ¬ listWord <+: text)
    (ends : EndsLine after) :
    ¬ listWord <+: text ++ after := by
  rintro ⟨tail, same⟩
  rcases List.append_eq_append_iff.1 same with
    ⟨middle, rfl, _⟩ | ⟨middle, whole, rfl⟩
  · exact apart ⟨middle, rfl⟩
  · cases middle with
    | nil => exact apart ⟨[], by simpa using whole⟩
    | cons c middle =>
        obtain rfl : c = '\n' := ends c rfl
        have feed : '\n' ∈ listWord := by simp [whole]
        exact absurd feed (by decide)

theorem suffix_of_oneLine {text after rest : List Char} (oneLine : '\n' ∉ text)
    (inside : '\n' :: rest <:+ text ++ after) : '\n' :: rest <:+ after := by
  induction text with
  | nil => exact inside
  | cons c text induction =>
      rw [List.mem_cons, not_or] at oneLine
      rw [List.cons_append, List.suffix_cons_iff] at inside
      rcases inside with same | inside
      · exact absurd (List.cons.inj same).1 oneLine.1
      · exact induction oneLine.2 inside

theorem Unlisted.cons_line {gap text after : List Char}
    (blank : ∀ c ∈ gap, Text.isBlank c = true)
    (shown : Shown text)
    (oneLine : '\n' ∉ text)
    (apart : ¬ listWord <+: text)
    (ends : EndsLine after)
    (unlisted : Unlisted after) :
    Unlisted (gap ++ (text ++ after)) := by
  intro rest inside
  induction gap with
  | nil => exact unlisted rest (suffix_of_oneLine oneLine inside)
  | cons c gap induction =>
      rw [List.forall_mem_cons] at blank
      rw [List.cons_append, List.suffix_cons_iff] at inside
      rcases inside with same | inside
      · obtain ⟨_, rfl⟩ := List.cons.inj same
        rw [trimStart_append blank.2, (shown.append after).trimStart_eq]
        exact not_listWord_append apart ends
      · exact induction blank.2 inside

section Written

variable {expands : Bool} {options : RenderOptions}

theorem RenderOptions.Blank.isBlank_line (blank : options.Blank) (depth : Nat) :
    ∀ c ∈ '\n' :: (options.indentation depth).toList,
      Text.isBlank c = true := by
  rw [List.forall_mem_cons]
  exact ⟨by decide, blank.isBlank depth⟩

theorem Throughout.unlisted
    (blank : options.Blank)
    {statements : List Statement}
    (tame :
      Throughout (fun line => line.Spelled expands ∧ line.Tame) statements) :
    ∀ depth after, EndsLine after → Unlisted after →
      Unlisted (written (ownLinesOf options depth statements) ++ after) := by
  refine Throughout.recursion (motive :=
    fun statements => ∀ depth after, EndsLine after → Unlisted after →
    Unlisted (written (ownLinesOf options depth statements) ++ after))
    (fun _ _ _ unlisted => unlisted) ?_ tame
  intro line s children rest heads here _ _ inside behind depth after
    ends unlisted
  obtain ⟨spelled, tame⟩ := here
  rw [heads.ownLinesOf_cons, written_line]
  refine .cons_line (blank.isBlank_line depth) spelled.beginsLine.shown
    tame.oneLine (tame.not_listWord spelled)
    ((endsLine_written _).append ends) ?_
  rw [Line.inner]
  split
  · exact behind depth after ends unlisted
  · rw [List.append_assoc, written_append, List.append_assoc]
    refine inside (depth + 1) _ ((endsLine_written _).append ends) ?_
    rw [List.singleton_append, written_line]
    exact .cons_line (blank.isBlank_line depth) ⟨'\x7d',
      rfl, by decide⟩ (by decide) (by decide) ((endsLine_written _).append ends)
      (behind depth after ends unlisted)

def EndsBlock (after : List Char) : Prop :=
  ∀ c rest, after = c :: rest → c = '\n' ∧
    ∃ tail, Text.trimStart rest = '\x7d' :: tail

theorem EndsBlock.nil : EndsBlock [] := by
  intro c rest same
  cases same

theorem EndsBlock.endsLine {after : List Char} (ends : EndsBlock after) :
    EndsLine after := by
  intro c first
  obtain ⟨tail, rfl⟩ := List.head?_eq_some_iff.1 first
  exact (ends c tail rfl).1

theorem endsBlock_closing
    (blank : options.Blank)
    (depth : Nat) (lines : List String) (after : List Char) :
    EndsBlock
      (written ((options.indentation depth ++ "\x7d") :: lines) ++ after) := by
  intro c rest same
  rw [written_line] at same
  obtain ⟨rfl, rfl⟩ := List.cons.inj same
  refine ⟨rfl, written lines ++ after, ?_⟩
  exact (trimStart_append (blank.isBlank depth)).trans rfl

theorem not_endsBlock
    (blank : options.Blank)
    (depth : Nat) {text : String}
    (begins : BeginsLine text.toList)
    (lines : List String) (after : List Char) :
    ¬ EndsBlock
      (written ((options.indentation depth ++ text) :: lines) ++ after) := by
  intro ends
  rw [written_line] at ends
  obtain ⟨_, tail, closing⟩ := ends _ _ rfl
  have shown := begins.shown.append (written lines ++ after)
  have whole := (trimStart_append (blank.isBlank depth)).symm.trans closing
  rw [shown.trimStart_eq] at whole
  obtain ⟨c, rest, same, _, other⟩ := begins
  rw [same] at whole
  exact other (List.cons.inj whole).1

theorem Throughout.eq_nil_or_cons
    {P : Line → Prop} {statements : List Statement}
    (throughout : Throughout P statements) :
    statements = [] ∨ ∃ line s children rest, statements = s :: rest ∧
      Line.Heads line s children ∧ P line ∧ Throughout P children ∧
        Throughout P rest :=
  Throughout.recursion (motive :=
    fun statements => statements = [] ∨ ∃ line s children rest,
      statements = s :: rest ∧ Line.Heads line s children ∧ P line ∧
        Throughout P children ∧
        Throughout P rest)
    (.inl rfl)
    (fun heads here inside behind _ _ =>
      .inr ⟨_, _, _, _, rfl, heads, here, inside, behind⟩)
    throughout

theorem Throughout.eq_nil_or_written {statements : List Statement}
    (spelled : Throughout (Line.Spelled expands) statements)
    (options : RenderOptions) :
    statements = [] ∨
      (Text.joinWith "\n" (ownLinesOf options 0 statements) ≠ "" ∧
      written (ownLinesOf options 0 statements) =
        '\n' ::
          (Text.joinWith "\n" (ownLinesOf options 0 statements)).toList) := by
  rcases spelled.eq_nil_or_cons with
    rfl | ⟨line, s, children, rest, rfl, heads, here, _, _⟩
  · exact .inl rfl
  · rw [heads.ownLinesOf_cons]
    have whole := @written_eq ((options.indentation 0 ++ line.text) ::
      (line.inner options 0 children ++ ownLinesOf options 0 rest)) (by simp)
    refine .inr ⟨?_, whole⟩
    intro empty
    obtain ⟨c, tail, begins, _⟩ := here.beginsLine
    rw [empty] at whole
    simp [begins] at whole

theorem Throughout.stable_of_written
    (blank : options.Blank)
    {statements : List Statement}
    (tame :
      Throughout (fun line => line.Spelled expands ∧ line.Tame) statements) :
    ∀ depth out after behind, Throughout (Line.Settled expands) out →
      EndsBlock after →
      EndsBlock behind →
      written (ownLinesOf options depth statements) ++ after =
        written (ownLinesOf options depth out) ++ behind →
      Throughout (Line.Stable expands) statements ∧ after = behind := by
  refine Throughout.recursion (motive :=
    fun statements => ∀ depth out after behind,
    Throughout (Line.Settled expands) out → EndsBlock after → EndsBlock behind →
    written (ownLinesOf options depth statements) ++ after =
    written (ownLinesOf options depth out) ++ behind →
    Throughout (Line.Stable expands) statements ∧ after = behind) ?_ ?_ tame
  · intro depth out after behind settled ends _ same
    rcases settled.eq_nil_or_cons with
      rfl | ⟨line, s, children, rest, rfl, heads, here, _, _⟩
    · exact ⟨.nil, same⟩
    · rw [heads.ownLinesOf_cons] at same
      obtain rfl : after = _ := same
      exact absurd ends (not_endsBlock blank depth here.spelled.beginsLine _ _)
  · intro line s children rest heads here _ _ inside behindInduction depth out
      after behind settled ends endsToo same
    rw [heads.ownLinesOf_cons] at same
    rcases settled.eq_nil_or_cons with
      rfl | ⟨other, t, inner, others, rfl, otherHeads, otherHere, otherInside,
        otherBehind⟩
    · obtain rfl : _ = behind := same
      exact absurd endsToo (not_endsBlock blank depth here.1.beginsLine _ _)
    · rw [otherHeads.ownLinesOf_cons, written_line, written_line] at same
      obtain ⟨text, same⟩ := eq_of_endsLine here.2.oneLine otherHere.oneLine
        ((endsLine_written _).append ends.endsLine)
          ((endsLine_written _).append endsToo.endsLine)
        (List.append_cancel_left same)
      have text := String.toList_inj.1 text
      have stable : line.Stable expands :=
        ⟨other, ⟨otherHere.legible, otherHere.kept⟩, text.symm⟩
      have alike := Line.isLeaf_congr text
      rw [Line.inner, Line.inner, ← alike] at same
      cases isLeaf : line.isLeaf with
      | true =>
          simp only [isLeaf, if_true, List.nil_append] at same
          obtain ⟨throughout, rfl⟩ :=
            behindInduction depth others after behind otherBehind ends
              endsToo same
          rw [heads.eq_nil isLeaf] at heads
          exact ⟨.cons heads stable .nil throughout, rfl⟩
      | false =>
          simp only [isLeaf, Bool.false_eq_true, if_false, List.append_assoc,
            written_append, List.singleton_append] at same
          obtain ⟨throughoutInside, same⟩ := inside (depth + 1) inner _ _
            otherInside (endsBlock_closing blank depth _ _)
            (endsBlock_closing blank depth _ _) same
          rw [written_line, written_line] at same
          obtain ⟨throughout, rfl⟩ :=
            behindInduction depth others after behind otherBehind ends endsToo
              (List.append_cancel_left (List.append_cancel_left same))
          exact ⟨.cons heads stable throughoutInside throughout, rfl⟩

end Written

end ServerConf
