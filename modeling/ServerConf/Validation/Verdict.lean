import ServerConf.Text.Blank
import ServerConf.Text.Lines

namespace ServerConf

structure Verdict where
  isValid : Bool
  output : String
  errors : List String := []
  warnings : List String := []
  deriving DecidableEq, Repr

namespace Verdict

def mentions (word : List Char) : List Char → Bool
  | [] => word.isEmpty
  | c :: rest => word.isPrefixOf (c :: rest) || mentions word rest

def isError (line : List Char) : Bool :=
  mentions "[emerg]".toList line || mentions "[error]".toList line

def isWarning (line : List Char) : Bool :=
  !isError line && mentions "[warn]".toList line

def outputLines (output : String) : List (List Char) :=
  (Text.lines output.toList).map Text.trim

/-- A run without errors in its output is valid if it succeeded; a failure is
never without an error. -/
def ofOutput (output : String) (succeeded : Bool) : Verdict :=
  let errors := ((outputLines output).filter isError).map String.ofList
  let warnings := ((outputLines output).filter isWarning).map String.ofList
  let isValid := succeeded && errors.isEmpty
  { isValid, output, warnings
    errors :=
      if !isValid && errors.isEmpty then ["nginx configuration test failed"]
        else errors }

end Verdict

end ServerConf
