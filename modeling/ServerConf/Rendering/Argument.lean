import ServerConf.Modifier
import ServerConf.Text.Blank
import ServerConf.Token.Lexeme

/-!
How an argument is written so that it is read back as one, and the modifier a
location's path may carry in front.
-/

namespace ServerConf

namespace Argument

/-- Characters that end or misread an unquoted argument. -/
def isSpecial (c : Char) : Bool :=
  Text.isBlank c || c == '\x7b' || c == '\x7d' || c == '(' || c == ')' ||
    c == ';' || c == ',' ||
    c == '"' || c == '\''

/-- At least two characters, the first and the last of them the same quote. -/
def isQuoted : List Char → Bool
  | [] => false
  | c :: rest => Lexeme.isQuote c && rest.getLast? == some c

def needsQuotes (cs : List Char) : Bool :=
  cs.isEmpty || cs.any isSpecial || cs.head? == some '#'

def escape (cs : List Char) : List Char :=
  cs.flatMap fun c => if c = '\\' || c = '"' then ['\\', c] else [c]

/-- A value in quotes of its own is left alone; another one is quoted if it
needs to be. -/
def quoteChars (cs : List Char) : List Char :=
  if isQuoted cs then cs
  else if needsQuotes cs then '"' :: escape cs ++ ['"']
  else cs

def quote (value : String) : String :=
  String.ofList (quoteChars value.toList)

def line (args : List String) : String :=
  String.join (args.map fun arg => " " ++ quote arg)

end Argument

namespace Modifier

/-- The modifier that a path begins with, and the path after it. -/
def ofPath? : List Char → Option (Modifier × List Char)
  | '=' :: rest => some (.exact, rest)
  | '~' :: '*' :: rest => some (.regexIgnoreCase, rest)
  | '~' :: rest => some (.regex, rest)
  | '^' :: '~' :: rest => some (.priority, rest)
  | _ => .none

/-- A modifier in front of the path wins over the one given. -/
def splitPath (modifier : Modifier) (path : String) : Modifier × String :=
  match ofPath? path.toList with
  | .some (found, rest) => (found, String.ofList (Text.trimStart rest))
  | .none => (modifier, path)

end Modifier

end ServerConf
