import ServerConf.Text.Blank

/-!
Breaking a text into lines. A carriage return followed by a line feed is one
break, and a break at the very end opens no further line.
-/

namespace ServerConf.Text

def lineBreaks : Ranges :=
  [(0x0A, 0x0D), (0x1C, 0x1E), (0x85, 0x85), (0x2028, 0x2029)]

def isLineBreak (c : Char) : Bool :=
  lineBreaks.contains c.toNat

/-- The lines of a text whose current line has been read, backwards, up to
`line`. -/
def linesFrom (line : List Char) : List Char → List (List Char)
  | [] => if line.isEmpty then [] else [line.reverse]
  | '\r' :: '\n' :: rest => line.reverse :: linesFrom [] rest
  | c :: rest =>
    if isLineBreak c then line.reverse :: linesFrom [] rest
    else linesFrom (c :: line) rest

def lines (cs : List Char) : List (List Char) :=
  linesFrom [] cs

/-- Every way to end a line becomes a line feed. -/
def foldNewlines : List Char → List Char
  | [] => []
  | '\r' :: '\n' :: rest => '\n' :: foldNewlines rest
  | c :: rest => (if c = '\r' then '\n' else c) :: foldNewlines rest

end ServerConf.Text
