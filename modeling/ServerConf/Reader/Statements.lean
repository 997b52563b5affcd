import ServerConf.Reader.Heading

/-!
Reading a whole sequence of statements. The headings whose braces are still open
wait on a stack of frames; a closing brace takes the innermost one off and makes
a statement of it.
-/

namespace ServerConf

/-- An open heading, with the statements before it in its own sequence, the
latest first. -/
structure Frame where
  heading : Heading
  before : List Statement

namespace Reader

def closed (r : Reader) (h : Heading) (ts : List Token) :
    Except Stop (List Token) :=
  match h with
  | .template name _ _ =>
    (r.expect .semicolon (.openTemplate name) ts).map Prod.snd
  | _ => .ok ts

theorem closed_length {r : Reader} {h : Heading} {ts rest : List Token}
    (read : r.closed h ts = .ok rest) :
    rest.length ≤ ts.length := by
  unfold closed at read
  split at read
  · obtain ⟨⟨t, after⟩, found, same⟩ := map_ok read
    cases same
    exact Nat.le_of_lt (expect_length found)
  · cases read
    exact Nat.le_refl _

/-- Reads the statements after `done`, the latest first, inside the headings of
`frames`. -/
def statements
    (r : Reader) (frames : List Frame) (done : List Statement)
    (ts : List Token) :
    Except Stop (List Statement) :=
  match ts, frames with
  | [], [] => .ok done.reverse
  | [], frame :: _ =>
    .error ⟨⟨.noClosingBrace frame.heading.enclosure, r.last⟩, []⟩
  | t :: rest, frames =>
    match frames, t.kind with
    | frame :: outer, .closeBrace =>
      match found : r.closed frame.heading rest with
      | .error e => .error e
      | .ok next =>
        have : next.length < (t :: rest).length :=
          Nat.lt_succ_of_le (closed_length found)
        r.statements outer
          (frame.heading.around done.reverse :: frame.before) next
    | frames, _ =>
      match found : r.item t rest with
      | .error e => .error e
      | .ok (.leaf s, next) =>
        have : next.length < (t :: rest).length :=
          Nat.lt_succ_of_le (item_length found)
        r.statements frames (s :: done) next
      | .ok (.heading h, next) =>
        have : next.length < (t :: rest).length :=
          Nat.lt_succ_of_le (item_length found)
        r.statements (⟨h, done⟩ :: frames) [] next
termination_by ts.length
decreasing_by all_goals assumption

theorem statements_closing (r : Reader) {t : Token}
    (closes : t.kind = .closeBrace)
    (frame : Frame) (outer : List Frame) (done : List Statement)
    (rest : List Token) :
    r.statements (frame :: outer) done (t :: rest) =
      r.closed frame.heading rest >>= fun next =>
        r.statements outer (frame.heading.around done.reverse :: frame.before)
          next := by
  rw [statements.eq_def]
  dsimp only
  split
  · rename_i same _
    cases same
    split
    all_goals
      rename_i found
      simp only [found]
      rfl
  · rename_i other
    exact absurd closes (other frame outer rfl)

theorem statements_reading (r : Reader) {t : Token} {frames : List Frame}
    (goesOn : t.kind = .closeBrace → frames = [])
    (done : List Statement) (rest : List Token) :
    r.statements frames done (t :: rest) =
      r.item t rest >>= fun (i, next) =>
        match i with
        | .leaf s => r.statements frames (s :: done) next
        | .heading h => r.statements (⟨h, done⟩ :: frames) [] next := by
  rw [statements.eq_def]
  dsimp only
  split
  · rename_i closes
    cases goesOn closes
  · split
    all_goals
      rename_i found
      simp only [found]
      rfl

end Reader

end ServerConf
