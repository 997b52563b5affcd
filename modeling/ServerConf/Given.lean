/-!
The values of settings. A setting may be given without a value: then there is
nothing in the place of its text.
-/

namespace ServerConf

inductive Given where
  | text (s : String)
  | nothing
  deriving DecidableEq, Repr

namespace Given

def shown : Given → String
  | .text s => s
  | .nothing => "[]"

/-- The text, if there is one and it is not empty. -/
def nonempty? : Given → Option String
  | .text s => if s.isEmpty then none else some s
  | .nothing => none

/-- The texts of a list, or else the first place that has none. -/
def texts : List Given → Except Nat (List String)
  | [] => .ok []
  | .nothing :: _ => .error 0
  | .text s :: rest =>
    match texts rest with
    | .ok others => .ok (s :: others)
    | .error place => .error (place + 1)

end Given

end ServerConf
