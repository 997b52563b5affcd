import ServerConf.Environment
import ServerConf.ParseError

/-!
Reading tokens from the left. A reading takes the tokens that are left, without
the end of input, and gives a value with the tokens after it; when it stops, it
says where it stood.
-/

namespace ServerConf

/-- What a reading may use: the environment, and the token that ends the
input. -/
structure Reader where
  env : Environment
  last : Token

/-- The tokens in `rest` were not taken yet when the error was found. -/
structure Stop where
  error : ParseError
  rest : List Token
  deriving DecidableEq, Repr

namespace Reader

def stop {α : Type} (r : Reader) (complaint : Complaint) (ts : List Token) :
    Except Stop (α × List Token) :=
  .error ⟨⟨complaint, ts.headD r.last⟩, ts⟩

def expect (r : Reader) (kind : TokenKind) (complaint : Complaint) :
    List Token → Except Stop (Token × List Token)
  | [] => r.stop complaint []
  | t :: ts => if t.kind = kind then .ok (t, ts) else r.stop complaint (t :: ts)

theorem bind_ok
    {α β : Type} {read : Except Stop α} {next : α → Except Stop β} {b : β}
    (h : (read >>= next) = .ok b) :
    ∃ a, read = .ok a ∧ next a = .ok b := by
  cases read with
  | error => cases h
  | ok a => exact ⟨a, rfl, h⟩

theorem map_ok {α β : Type} {read : Except Stop α} {f : α → β} {b : β}
    (h : read.map f = .ok b) :
    ∃ a, read = .ok a ∧ f a = b := by
  cases read with
  | error => cases h
  | ok a => exact ⟨a, rfl, Except.ok.inj h⟩

theorem expect_ok
    {r : Reader} {kind : TokenKind} {complaint : Complaint}
    {ts rest : List Token} {t : Token}
    (h : r.expect kind complaint ts = .ok (t, rest)) :
    t.kind = kind ∧ ts = t :: rest := by
  cases ts with
  | nil => cases h
  | cons u us =>
    simp only [expect] at h
    split at h
    · rename_i same
      cases h
      exact ⟨same, rfl⟩
    · cases h

theorem expect_length {r : Reader} {kind : TokenKind} {complaint : Complaint}
    {ts rest : List Token} {t : Token}
    (h : r.expect kind complaint ts = .ok (t, rest)) :
    rest.length < ts.length := by
  obtain ⟨_, rfl⟩ := expect_ok h
  simp

end Reader

end ServerConf
