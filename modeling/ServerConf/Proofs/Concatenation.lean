import ServerConf.Proofs.Relayout

/-!
One source below another. A line feed ends whatever gap the first source ends
in, and a sequence of whole statements leaves nothing for the second one to go
on with, so each is read as it is alone.
-/

namespace ServerConf

open Lexeme

def Position.down (lines : Nat) (p : Position) : Position :=
  ⟨p.line + lines, p.column⟩

def Displacement.down (lines : Nat) : Displacement where
  before := Position.down lines
  after := id
  lines := lines
  line_eq := by
    intro p q same
    exact (congrArg Position.line same).symm
  advance := by
    intro p q c same
    cases same
    simp only [Position.advance, Position.down, id_eq]
    split
    · simp only [Int.add_right_comm]
    · rfl

theorem Position.advanceBy_line (text : List Char) :
    start.advanceBy (text ++ ['\n']) = down (1 + text.count '\n') start := by
  rw [advanceBy_append, start_advanceBy, advanceBy_cons, advanceBy_nil, advance,
    if_pos rfl]
  simp only [after, down, start, Position.mk.injEq, and_true]
  omega

theorem Document.placed_id (outcome : Except Failure Document) :
    placed id outcome = outcome := by
  cases outcome with
  | ok d =>
      exact congrArg (fun ss => Except.ok (Document.mk ss d.filename))
        (placeAll_id d.children)
  | error failure => cases failure <;> rfl

namespace Cursor

theorem tokens_ne_nil {cursor : Cursor} {ts : List Token}
    (scanned : cursor.tokens = .ok ts) :
    ts ≠ [] := by
  cases scanned using tokens_recursion with
  | last | token => exact List.cons_ne_nil _ _

theorem form_of_tokens {cursor : Cursor} {ts : List Token}
    (scanned : cursor.tokens = .ok ts)
    (alone : ts.tail = []) :
    Gap.Form true cursor.rest := by
  cases scanned using tokens_recursion with
  | last ended => exact (Gap.split_of_rest_nil ended).2
  | token begins read following => exact absurd alone (tokens_ne_nil following)

theorem tokens_displaced_error
    {δ : Displacement} {first second : Cursor} {e : ScanError}
    (text : first.rest = second.rest)
    (same : δ.before first.position = δ.after second.position)
    (failed : first.tokens = .error e) :
    ∃ f, second.tokens = .error f ∧
      δ.before e.position = δ.after f.position := by
  fun_induction Cursor.tokens first generalizing second with
  | case1 => cases failed
  | case2 first c rest begins unread =>
      cases failed
      have behind := skipGap_displaced text same
      exact ⟨_, tokens_of_unread (behind.1.symm.trans begins) unread, behind.2⟩
  | case3 first c rest begins lexeme read shorter induction =>
      have behind := skipGap_displaced text same
      cases following :
        (first.skipGap.advance lexeme.raw lexeme.rest).tokens with
      | ok ts =>
          rw [following] at failed
          cases failed
      | error e =>
          rw [following] at failed
          cases failed
          obtain ⟨f, failedToo, place⟩ :=
            @induction (second.skipGap.advance lexeme.raw lexeme.rest) rfl
              (Displacement.advanceBy lexeme.raw behind.2) following
          refine ⟨f, ?_, place⟩
          rw [tokens_of_read (behind.1.symm.trans begins) read, failedToo]
          rfl

end Cursor

namespace Token

theorem form_append_line {gap : List Char} {atEnd : Bool}
    (form : Gap.Form atEnd gap) :
    Gap.Form false (gap ++ ['\n']) := by
  induction form with
  | nil => exact .blank (by decide) .nil
  | blank blank _ induction => exact .blank blank induction
  | comment inside _ induction =>
      rw [List.append_assoc, List.cons_append]
      exact .comment inside induction
  | openComment _ inside => exact .comment inside .nil

theorem reads_line
    {ts : List Token} {last : Token} {p : Position} {text : List Char}
    (scanned : scan p text = .ok (ts ++ [last])) :
    Reads p (text ++ ['\n']) ts := by
  induction ts generalizing p text with
  | nil => exact .gap (form_append_line (Cursor.form_of_tokens scanned rfl))
  | cons t ts induction =>
      have more : ts ++ [last] ≠ [] := by simp
      obtain ⟨gap, c, taken, rest, kind, value, rfl, form, shown, sign, read,
          rfl, following⟩ := exists_of_scan_cons more scanned
      intro context
      have stops : Stops ('\n' :: context) := .blank (by decide) context
      have inContext := read?_in_context read (.append stops rest)
      have behind := induction following context
      rw [List.append_assoc, List.singleton_append] at behind
      rw [show gap ++ (c :: taken ++ rest) ++ ['\n'] ++ context =
          gap ++ (c :: (taken ++ (rest ++ '\n' :: context))) by simp,
        scan_gap form, scan_lexeme _ shown sign inContext, behind,
        prepend_prepend]
      simp [Position.advanceBy_append, toToken]

theorem scan_down_error (lines : Nat) {source : String} {e : ScanError}
    (failed : ofSource source = .error e) :
    scan (.down lines .start) source.toList =
      .error ⟨e.position.down lines⟩ := by
  obtain ⟨f, moved, place⟩ := @Cursor.tokens_displaced_error (.down lines)
    (.ofSource source) ⟨0, .down lines .start, source.toList⟩ e rfl rfl failed
  rw [scan, moved]
  exact congrArg (fun p => Except.error (ScanError.mk p)) place.symm

theorem ofSource_append_line {first : String} {ts : List Token} {last : Token}
    (scanned : ofSource first = .ok (ts ++ [last]))
    (second : String) :
    ofSource (first ++ "\n" ++ second) =
      prepend ts
        (scan (.down (1 + first.toList.count '\n') .start) second.toList) := by
  have text : (first ++ "\n" ++ second).toList = first.toList ++ ['\n'] ++
      second.toList := by
    simp
  rw [ofSource_eq_scan, text, reads_line scanned, Position.advanceBy_line]

end Token

namespace Reader

theorem InStep.kinds
    {δ : Displacement} {r s : Reader} {ts us : List Token} {kind : TokenKind}
    (inStep : InStep δ r s ts us)
    (other : ∀ t ∈ ts, t.kind ≠ kind) :
    ∀ u ∈ us, u.kind ≠ kind := by
  induction inStep with
  | nil => simp
  | cons same _ _ _ induction =>
      have others := List.forall_mem_cons.1 other
      refine List.forall_mem_cons.2 ⟨?_, induction others.2⟩
      rw [same.kind]
      exact others.1

inductive OnTop (base : List Statement) :
    List Frame → List Statement → List Frame → List Statement → Prop where
  | flat (done : List Statement) : OnTop base [] done [] (done ++ base)
  | nested {frame : Frame} {outer others : List Frame} {before : List Statement}
      (done : List Statement) :
      OnTop base outer frame.before others before →
      OnTop base (frame :: outer) done (⟨frame.heading, before⟩ :: others) done

theorem OnTop.push
    {base done made : List Statement} {frames others : List Frame}
    (onTop : OnTop base frames done others made)
    (s : Statement) :
    OnTop base frames (s :: done) others (s :: made) := by
  cases onTop with
  | flat => exact .flat (s :: done)
  | nested _ outside => exact .nested (s :: done) outside

theorem OnTop.eq_nil
    {base done made : List Statement} {frames others : List Frame}
    (onTop : OnTop base frames done others made)
    (empty : frames = []) :
    others = [] := by
  cases onTop with
  | flat => rfl
  | nested => cases empty

theorem statements_onTop
    (r : Reader) {base done made : List Statement} {frames others : List Frame}
    {ts : List Token}
    (onTop : OnTop base frames done others made) :
    r.statements others made ts =
      (r.statements frames done ts).map (base.reverse ++ ·) := by
  match ts with
  | [] =>
      cases onTop with
      | flat =>
          rw [statements, statements, List.reverse_append]
          rfl
      | nested =>
          rw [statements, statements]
          rfl
  | t :: rest =>
      have reading (goesOn : t.kind = .closeBrace → frames = []) :
          r.statements others made (t :: rest) =
            (r.statements frames done (t :: rest)).map (base.reverse ++ ·) := by
        rw [statements_reading r goesOn,
          statements_reading r fun closes => onTop.eq_nil (goesOn closes)]
        cases found : r.item t rest with
        | error => rfl
        | ok read =>
            obtain ⟨i, next⟩ := read
            have shorter : next.length ≤ rest.length := item_length found
            cases i with
            | leaf s => exact statements_onTop r (onTop.push s)
            | heading h => exact statements_onTop r (.nested [] onTop)
      by_cases closes : t.kind = .closeBrace
      · cases onTop with
        | flat => exact reading fun _ => rfl
        | @nested frame outer others before _ outside =>
            rw [statements_closing r closes, statements_closing r closes]
            cases found : r.closed frame.heading rest with
            | error => rfl
            | ok next =>
                have shorter : next.length ≤ rest.length := closed_length found
                exact statements_onTop r (outside.push _)
      · exact reading fun closing => absurd closing closes
termination_by ts.length

end Reader

namespace Document

theorem ofTokens_down (lines : Nat) {source : String} {tokens : List Token}
    (scanned : Token.ofSource source = .ok tokens) :
    ∃ body last,
      Token.scan (.down lines .start) source.toList = .ok (body ++ [last]) ∧
      (∀ t ∈ body, t.kind ≠ .endOfInput) ∧ last.kind = .endOfInput ∧
      ∀ env filename, ofTokens env filename (body ++ [last]) =
        placed (.down lines) (ofTokens env filename tokens) := by
  have layout : Token.Layout [] source.toList tokens :=
    Cursor.tokens_layout rfl scanned
  obtain ⟨before, ending, rfl, ends, outside⟩ := layout.exists_end
  have step (env : Environment) : ∃ body last,
      Token.scan (.down lines .start) source.toList = .ok (body ++ [last]) ∧
        Reader.InStep (.down lines) ⟨env, ending⟩ ⟨env, last⟩ before body := by
    obtain ⟨first, final, body, last, same, moved, inStep, _⟩ :=
      @Token.scan_displaced (.down lines) env .start (.down lines .start) _ _
        rfl scanned
    obtain ⟨rfl, single⟩ := List.append_inj' same rfl
    cases single
    exact ⟨body, last, moved, inStep⟩
  obtain ⟨body, last, moved, inStep⟩ := step .empty
  have inside := inStep.kinds outside
  have final := inStep.last.kind.trans ends
  refine ⟨body, last, moved, inside, final, ?_⟩
  intro env filename
  obtain ⟨others, other, again, inStep⟩ := step env
  obtain ⟨rfl, single⟩ :=
    List.append_inj' (Except.ok.inj (moved.symm.trans again)) rfl
  cases single
  have parsed := ofTokens_inStep (Token.complete?_concat outside ends)
    (Token.complete?_concat inside final) inStep filename
  exact (parsed.trans (placed_id _)).symm

theorem ofTokens_append_phrases
    {env : Environment} {filename : String} {ps : List Grammar.Phrase}
    {ss : List Statement} {ts us body : List Token} {last : Token}
    (settled : Grammar.statementsOf? env ps = some ss)
    (whole : Token.complete? us = some (Grammar.tokensOf ps ++ body, last))
    (complete : Token.complete? ts = some (body, last)) :
    ofTokens env filename us =
      (ofTokens env filename ts).map fun d => ⟨ss ++ d.children, filename⟩ := by
  have onTop : Reader.OnTop ss.reverse [] [] [] (ss.reverse ++ []) := by
    rw [List.append_nil]
    exact .flat []
  have read := Reader.statements_phrases (r := ⟨env, last⟩) settled [] [] body
  rw [Reader.statements_onTop _ onTop, List.reverse_reverse] at read
  rw [ofTokens, ofTokens, whole, complete]
  dsimp only
  rw [read]
  cases Reader.statements ⟨env, last⟩ [] [] body <;> rfl

/-- A source that parses can be parsed apart from the one below it, which is
only moved down. -/
theorem parse_append_line
    {env : Environment} {filename first second : String} {d : Document}
    (parsed : parse env filename first = .ok d) :
    parse env filename (first ++ "\n" ++ second) =
      (placed (.down (1 + first.toList.count '\n'))
        (parse env filename second)).map
        fun e => ⟨d.children ++ e.children, filename⟩ := by
  cases scanned : Token.ofSource first with
  | error =>
      rw [parse, scanned] at parsed
      cases parsed
  | ok tokens =>
      have layout : Token.Layout [] first.toList tokens :=
        Cursor.tokens_layout rfl scanned
      obtain ⟨before, ending, rfl, _, outside⟩ := layout.exists_end
      obtain ⟨_, ps, spelled, settled⟩ := (parse_eq_ok_iff scanned).1 parsed
      rw [List.dropLast_concat] at spelled
      have appended := Token.ofSource_append_line scanned second
      cases below : Token.ofSource second with
      | error e =>
          rw [Token.scan_down_error _ below] at appended
          rw [parse, parse, below, appended]
          rfl
      | ok tokens =>
          obtain ⟨body, last, moved, inside, ends, same⟩ :=
            ofTokens_down (1 + first.toList.count '\n') below
          rw [moved, Token.prepend_ok, ← List.append_assoc] at appended
          have whole : Token.complete? (before ++ body ++ [last]) =
              some (Grammar.tokensOf ps ++ body, last) := by
            rw [spelled]
            apply Token.complete?_concat _ ends
            intro t member
            exact (List.mem_append.1 member).elim (outside t) (inside t)
          rw [parse, parse, below, appended]
          dsimp only
          rw [ofTokens_append_phrases settled whole
            (Token.complete?_concat inside ends), same]

/-- The first source ends inside a comment, and the second one lacks a
semicolon. -/
theorem parse_append_line_comment :
    ∃ d, parse .empty "f" "a 1;\n#b" = .ok d ∧
      (parse .empty "f" " c").isOk = false ∧
      parse .empty "f" "a 1;\n#b\n c" =
        (placed (.down 2) (parse .empty "f" " c")).map fun e =>
          ⟨d.children ++ e.children, "f"⟩ := by
  have accepted : (parse .empty "f" "a 1;\n#b").isOk = true := by decide +kernel
  cases parsed : parse .empty "f" "a 1;\n#b" with
  | error =>
      rw [parsed] at accepted
      cases accepted
  | ok d =>
      have text : "a 1;\n#b\n c" = "a 1;\n#b" ++ "\n" ++ " c" := by decide
      have lines : 1 + "a 1;\n#b".toList.count '\n' = 2 := by decide
      refine ⟨d, rfl, by decide +kernel, ?_⟩
      rw [text, ← lines]
      exact parse_append_line parsed

end Document

end ServerConf
