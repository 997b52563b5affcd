import ServerConf.Text.Alphanumeric
import ServerConf.Text.Digit
import ServerConf.Text.Quoted

/-!
Formats of log lines. A field is a percent sign, the name of what it shows in
parentheses, flags, a width, a precision and the letter of a conversion. Lines
have texts for four names. A format that shows anything else, or that asks for a
number or for a single character, makes no layout.
-/

namespace ServerConf.Log

inductive Label where
  | time
  | levelName
  | logger
  | message
  deriving DecidableEq, Repr

def Label.ofKey? (key : List Char) : Option Label :=
  if key = "asctime".toList then some .time
  else if key = "levelname".toList then some .levelName
  else if key = "name".toList then some .logger
  else if key = "message".toList then some .message
  else none

inductive Conversion where
  | text
  | quoted
  | ascii
  deriving DecidableEq, Repr

namespace Conversion

def ofLetter? : Char → Option Conversion
  | 's' => some .text
  | 'r' => some .quoted
  | 'a' => some .ascii
  | _ => none

def apply : Conversion → List Char → List Char
  | .text, cs => cs
  | .quoted, cs => Text.quotedChars cs
  | .ascii, cs => Text.asciiChars cs

end Conversion

/-- How a text is fitted into its field: converted, cut down to the precision,
and filled up to the width. -/
structure Fit where
  conversion : Conversion := .text
  left : Bool := false
  width : Nat := 0
  precision : Option Nat := none
  deriving DecidableEq, Repr

namespace Fit

def cut (fit : Fit) (cs : List Char) : List Char :=
  match fit.precision with
  | none => cs
  | some count => cs.take count

def pad (fit : Fit) (cs : List Char) : List Char :=
  let blanks := List.replicate (fit.width - cs.length) ' '
  if fit.left then cs ++ blanks else blanks ++ cs

def apply (fit : Fit) (s : String) : String :=
  String.ofList (fit.pad (fit.cut (fit.conversion.apply s.toList)))

end Fit

inductive Piece where
  | literal (c : Char)
  | field (label : Label) (fit : Fit)
  deriving DecidableEq, Repr

namespace Piece

abbrev time : Piece := .field .time {}

abbrev levelName : Piece := .field .levelName {}

abbrev logger : Piece := .field .logger {}

abbrev message : Piece := .field .message {}

def isFlag (c : Char) : Bool :=
  c = '-' || c = '+' || c = ' ' || c = '#' || c = '0'

/-- Splits behind the parenthesis that closes one more than `depth` others. -/
def splitKey (depth : Nat) : List Char → Option (List Char × List Char)
  | [] => none
  | c :: rest =>
    if c = ')' then
      match depth with
      | 0 => some ([], rest)
      | depth + 1 =>
        (splitKey depth rest).map fun (key, after) => (c :: key, after)
    else
      let deeper := if c = '(' then depth + 1 else depth
      (splitKey deeper rest).map fun (key, after) => (c :: key, after)

def splitNumber (cs : List Char) : Nat × List Char :=
  let value := (cs.takeWhile Char.isDigit).foldl
    (fun n c => n * 10 + (c.toNat - '0'.toNat)) 0
  (value, cs.dropWhile Char.isDigit)

def splitPrecision : List Char → Option Nat × List Char
  | '.' :: rest => (splitNumber rest).map some id
  | cs => (none, cs)

/-- A letter for the size of a number says nothing about a text. -/
def dropSize : List Char → List Char
  | 'h' :: rest | 'l' :: rest | 'L' :: rest => rest
  | cs => cs

def widthLimit : Nat := 0x8000000000000000

def precisionLimit : Nat := 0x80000000

def readFit? (cs : List Char) : Option (Fit × List Char) :=
  let (width, rest) := splitNumber (cs.dropWhile isFlag)
  let (precision, rest) := splitPrecision rest
  if widthLimit ≤ width || precisionLimit ≤ precision.getD 0 then none
  else
    match dropSize rest with
    | [] => none
    | letter :: after =>
      (Conversion.ofLetter? letter).map fun conversion =>
        let left := (cs.takeWhile isFlag).contains '-'
        (⟨conversion, left, width, precision⟩, after)

def read? : List Char → Option (Piece × List Char)
  | '%' :: rest => some (.literal '%', rest)
  | '(' :: rest => do
    let (key, rest) ← splitKey 0 rest
    let label ← Label.ofKey? key
    let (fit, rest) ← readFit? rest
    return (.field label fit, rest)
  | _ => none

/-- The pieces of a format, after as many characters as belong to the last
field. -/
def ofCharsFrom? (skip : Nat) : List Char → Option (List Piece)
  | [] => some []
  | c :: rest =>
    match skip with
    | skip + 1 => ofCharsFrom? skip rest
    | 0 =>
      if c = '%' then
        (read? rest).bind fun (piece, after) =>
          (ofCharsFrom? (rest.length - after.length) rest).map (piece :: ·)
      else
        (ofCharsFrom? 0 rest).map (.literal c :: ·)

def ofChars? (cs : List Char) : Option (List Piece) :=
  ofCharsFrom? 0 cs

end Piece

/-- What a line is made of, and how its time is written. -/
structure Layout where
  pieces : List Piece
  dateFormat : String := ""
  deriving DecidableEq, Repr

namespace Layout

def isKeySign (c : Char) : Bool :=
  Text.isAlphanumeric c || c = '_'

def dropCount : List Char → List Char
  | '*' :: rest => rest
  | cs => cs.dropWhile Text.isDecimalDigit

def dropPrecision : List Char → List Char
  | '.' :: c :: rest =>
    if c = '*' || Text.isDecimalDigit c then dropCount (c :: rest)
    else '.' :: c :: rest
  | cs => cs

/-- The letters that a format is checked for, in either case. -/
def isLetter (c : Char) : Bool :=
  "diouxefgcrsaDIOUXEFGCRSA%ıİſ".toList.contains c

def beginsField : List Char → Bool
  | '%' :: '(' :: rest =>
    match rest.takeWhile isKeySign, rest.dropWhile isKeySign with
    | _ :: _, ')' :: after =>
      let letter :=
        (dropPrecision (dropCount (after.dropWhile Piece.isFlag))).head?
      letter.any isLetter
    | _, _ => false
  | _ => false

/-- A field is spelled out somewhere in a format, be it behind another percent
sign. -/
def hasField : List Char → Bool
  | [] => false
  | c :: rest => beginsField (c :: rest) || hasField rest

/-- An empty format means the message alone; one without a field is refused. -/
def accepts (format : String) : Bool :=
  format.isEmpty || hasField format.toList

/-- The layout that a format describes, if every line can be filled into it. -/
def ofFormat? (format dateFormat : String) : Option Layout :=
  if format.isEmpty then some ⟨[.message], dateFormat⟩
  else if hasField format.toList then
    (Piece.ofChars? format.toList).map (⟨·, dateFormat⟩)
  else none

end Layout

end ServerConf.Log
