namespace ServerConf

inductive Modifier where
  | none
  | exact
  | regex
  | regexIgnoreCase
  | priority
  deriving DecidableEq, Repr

namespace Modifier

def text : Modifier → String
  | .none => ""
  | .exact => "="
  | .regex => "~"
  | .regexIgnoreCase => "~*"
  | .priority => "^~"

def ofText (s : String) : Modifier :=
  if s = "=" then .exact
  else if s = "~" then .regex
  else if s = "~*" then .regexIgnoreCase
  else if s = "^~" then .priority
  else .none

@[simp] theorem ofText_text (m : Modifier) : ofText m.text = m := by
  cases m <;> simp [text, ofText]

end Modifier

end ServerConf
