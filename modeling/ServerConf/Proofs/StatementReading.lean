import ServerConf.Proofs.ItemReading

/-!
Sequences of statements: what the reader makes of a run of tokens is what the
phrases it was written as mean, and no other run is read.
-/

namespace ServerConf

def Heading.Closes : Heading → List Token → Prop
  | .template _ _ _, ts =>
    ∃ (brace : Token.Of .closeBrace) (semicolon : Token.Of .semicolon),
      ts = [brace.1, semicolon.1]
  | _, ts => ∃ brace : Token.Of .closeBrace, ts = [brace.1]

theorem Grammar.Opening.closes_iff
    {env : Environment} {o : Opening} {h : Heading}
    (settled : o.heading? env = some h)
    (ts : List Token) :
    o.Closes ts ↔ h.Closes ts := by
  cases o <;> simp only [heading?, Option.bind_eq_bind,
    Option.bind_eq_some_iff] at settled
  case definition => cases settled; rfl
  case locations => obtain ⟨_, _, ⟨⟩⟩ := settled; rfl
  case location => obtain ⟨_, _, ⟨⟩⟩ := settled; rfl
  case condition => obtain ⟨_, _, ⟨⟩⟩ := settled; rfl
  case block => obtain ⟨_, _, _, _, ⟨⟩⟩ := settled; rfl

namespace Reader

open Grammar

variable {r : Reader}

theorem statements_of_item
    {frames : List Frame} {done : List Statement} {t : Token}
    {ts next : List Token} {i : Item}
    (found : r.item t ts = .ok (i, next)) :
    r.statements frames done (t :: ts) =
      match i with
      | .leaf s => r.statements frames (s :: done) next
      | .heading h => r.statements (⟨h, done⟩ :: frames) [] next := by
  have goesOn : t.kind = .closeBrace → frames = [] :=
    fun closes => absurd found (item_closeBrace closes)
  have step := statements_reading r goesOn done ts
  rw [found] at step
  cases i with
  | leaf | heading => exact step

theorem statements_of_closed
    {frame : Frame} {outer : List Frame} {done : List Statement} {t : Token}
    {ts next : List Token}
    (closes : t.kind = .closeBrace)
    (found : r.closed frame.heading ts = .ok next) :
    r.statements (frame :: outer) done (t :: ts) =
      r.statements outer (frame.heading.around done.reverse :: frame.before)
        next := by
  rw [statements_closing r closes, found]
  rfl

theorem closed_sound {h : Heading} {t : Token} {ts rest : List Token}
    (closes : t.kind = .closeBrace)
    (read : r.closed h ts = .ok rest) :
    ∃ closing, h.Closes closing ∧ closing ++ rest = t :: ts := by
  cases h with
  | template name opening position =>
      obtain ⟨⟨u, after⟩, found, same⟩ := map_ok read
      obtain ⟨semicolon, rfl, rfl⟩ := expect_sound found
      cases same
      exact ⟨_, ⟨⟨t, closes⟩, semicolon, rfl⟩, rfl⟩
  | block | condition | location =>
      cases read
      exact ⟨_, ⟨⟨t, closes⟩, rfl⟩, rfl⟩

theorem closed_complete {h : Heading} {closing : List Token}
    (closes : h.Closes closing)
    (rest : List Token) :
    ∃ t following, closing ++ rest = t :: following ∧ t.kind = .closeBrace ∧
      r.closed h following = .ok rest := by
  cases h with
  | template name opening position =>
      obtain ⟨brace, semicolon, rfl⟩ := closes
      exact ⟨_, _, rfl, brace.2, by simp [closed]⟩
  | block | condition | location =>
      obtain ⟨brace, rfl⟩ := closes
      exact ⟨_, _, rfl, brace.2, rfl⟩

mutual

theorem statements_phrase {p : Phrase} {s : Statement}
    (settled : p.statement? r.env = some s)
    (frames : List Frame) (done : List Statement) (rest : List Token) :
    r.statements frames done (p.tokens ++ rest) =
      r.statements frames (s :: done) rest := by
  cases p with
  | leaf l =>
      obtain ⟨t, ts, whole⟩ : ∃ t ts, l.tokens ++ rest = t :: ts :=
        List.exists_cons_of_ne_nil (by simp [l.tokens_ne_nil])
      rw [Phrase.tokens, whole, statements_of_item (item_leaf l settled whole)]
  | group o body closing closes =>
      obtain ⟨h, heading, ss, inside, rfl⟩ : ∃ h, o.heading? r.env = some h ∧
          ∃ ss, statementsOf? r.env body = some ss ∧ h.around ss = s := by
        simpa [Phrase.statement?, Option.bind_eq_some_iff] using settled
      obtain ⟨t, ts, whole⟩ :
          ∃ t ts, o.tokens ++ (tokensOf body ++ (closing ++ rest)) = t :: ts :=
        List.exists_cons_of_ne_nil (by simp [o.tokens_ne_nil])
      obtain ⟨u, following, ends, isBrace, after⟩ :=
        closed_complete ((Opening.closes_iff heading closing).1 closes) rest
      rw [Phrase.tokens, List.append_assoc, List.append_assoc, whole,
        statements_of_item (item_opening o heading whole)]
      dsimp only
      rw [statements_phrases inside, ends, statements_of_closed isBrace after]
      simp

theorem statements_phrases {ps : List Phrase} {ss : List Statement}
    (settled : statementsOf? r.env ps = some ss)
    (frames : List Frame) (done : List Statement) (rest : List Token) :
    r.statements frames done (tokensOf ps ++ rest) =
      r.statements frames (ss.reverse ++ done) rest := by
  cases ps with
  | nil =>
      cases settled
      rfl
  | cons p ps =>
      obtain ⟨s, first, more, others, rfl⟩ : ∃ s, p.statement? r.env = some s ∧
          ∃ more, statementsOf? r.env ps = some more ∧ s :: more = ss := by
        simpa [statementsOf?, Option.bind_eq_some_iff] using settled
      rw [tokensOf, List.append_assoc, statements_phrase first,
        statements_phrases others]
      simp

end

/-- The tokens that are left finish what was begun: further phrases of the
innermost sequence, what closes it, and so on outwards; all of it together makes
`result`. -/
def Finishes (env : Environment) :
    List Frame → List Statement → List Token → List Statement → Prop
  | [], done, ts, result =>
    ∃ ps more, tokensOf ps = ts ∧ statementsOf? env ps = some more ∧
      done.reverse ++ more = result
  | frame :: outer, done, ts, result =>
    ∃ ps more closing rest, tokensOf ps ++ closing ++ rest = ts ∧
      statementsOf? env ps = some more ∧ frame.heading.Closes closing ∧
      Finishes env outer (frame.heading.around
        (done.reverse ++ more) :: frame.before) rest result

theorem Finishes.cons {env : Environment} {p : Phrase} {s : Statement}
    (settled : p.statement? env = some s)
    {frames : List Frame} {done : List Statement} {rest : List Token}
    {result : List Statement}
    (finishes : Finishes env frames (s :: done) rest result) :
    Finishes env frames done (p.tokens ++ rest) result := by
  cases frames with
  | nil =>
      obtain ⟨ps, more, rfl, values, rfl⟩ := finishes
      exact ⟨p :: ps, s :: more,
        rfl, by simp [statementsOf?, settled, values], by simp⟩
  | cons frame outer =>
      obtain ⟨ps, more, closing, rest, rfl, values, closes, outside⟩ := finishes
      refine ⟨p :: ps, s :: more, closing, rest, by simp [tokensOf],
        by simp [statementsOf?, settled, values], closes, ?_⟩
      simpa using outside

theorem statements_sound
    {frames : List Frame} {done : List Statement} {ts : List Token}
    {result : List Statement}
    (read : r.statements frames done ts = .ok result) :
    Finishes r.env frames done ts result := by
  fun_induction statements r frames done ts with
  | case1 done =>
      cases read
      exact ⟨[], [], rfl, rfl, by simp⟩
  | case2 | case3 | case5 => cases read
  | case4 done t ts frame outer closes next found shorter induction =>
      simp only [wfParam, List.unattach_reverse,
        List.unattach_attach] at induction
      obtain ⟨closing, isClosing, whole⟩ := closed_sound closes found
      exact ⟨[], [], closing, next, whole, rfl,
        isClosing, by simpa using induction read⟩
  | case6 done t ts frames s next found shorter _ induction =>
      obtain ⟨l, whole, settled⟩ := item_sound found
      rw [← whole]
      exact Finishes.cons (p := .leaf l) settled (induction read)
  | case7 done t ts frames h next found shorter _ induction =>
      obtain ⟨o, whole, heading⟩ := item_sound found
      obtain ⟨ps, more, closing, rest, rfl, inside, closes, finishes⟩ :=
        induction read
      have settled : (Phrase.group o ps closing
          ((Opening.closes_iff heading closing).2 closes)).statement? r.env =
            some (h.around more) := by
        simp [Phrase.statement?, heading, inside]
      rw [← whole, ← List.append_assoc, ← List.append_assoc]
      exact Finishes.cons settled finishes

theorem statements_eq_ok_iff {ts : List Token} {ss : List Statement} :
    r.statements [] [] ts = .ok ss ↔
      ∃ ps, tokensOf ps = ts ∧ statementsOf? r.env ps = some ss := by
  constructor
  · intro read
    obtain ⟨ps, more, whole, settled, rfl⟩ := statements_sound read
    exact ⟨ps, whole, settled⟩
  · rintro ⟨ps, rfl, settled⟩
    have read := statements_phrases settled [] [] []
    rw [List.append_nil, List.append_nil] at read
    rw [read, statements, List.reverse_reverse]

end Reader

end ServerConf
