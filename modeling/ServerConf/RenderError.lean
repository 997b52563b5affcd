import ServerConf.Statement
import ServerConf.Text.Join

namespace ServerConf

inductive RenderError where
  | undefinedTemplate (name : String) (position : Position)
  | recursiveTemplate (chain : List String)
  | importNotFound (path : String)
  | importCycle (chain : List String)
  | unknownStatement (kind : Stray)
  deriving DecidableEq, Repr

def Stray.label : Stray → String
  | .environmentReference => "EnvironmentReference"
  | .document => "ConfigDocument"

namespace RenderError

def chainText (chain : List String) : String :=
  Text.joinWith " -> " chain

/-- A template reference on line zero has no place to report. -/
def message : RenderError → String
  | .undefinedTemplate name position =>
    "Undefined template: " ++ name ++
      if position.line = 0 then ""
      else
        " (line " ++ toString position.line ++ ", column " ++
          toString position.column ++ ")"
  | .recursiveTemplate chain =>
    "Recursive template expansion: " ++ chainText chain
  | .importNotFound path => "Import file not found: " ++ path
  | .importCycle chain => "Circular import detected: " ++ chainText chain
  | .unknownStatement kind => "Unknown node type: " ++ kind.label

end RenderError

end ServerConf
