import ServerConf.Log.Moment

/-!
Writing moments by a format. A field of a format is a percent sign, flags, a
width, a modifier and the letter that says what is written. What is no field is
written as it stands.
-/

namespace ServerConf.Log

namespace DateFormat

/-- What a field is filled up with; a bare number is not filled up with
zeros. -/
inductive Padding where
  | spaces
  | zeros
  | bare
  deriving DecidableEq, Repr

/-- A field before its letter is met; `read` holds its characters, the last one
first. -/
structure Field where
  read : List Char := ['%']
  padding : Option Padding := none
  upper : Bool := false
  swapped : Bool := false
  width : Option Nat := none
  modifier : Option Char := none
  deriving DecidableEq, Repr

namespace Field

def flag? (f : Field) : Char → Option Field
  | '_' => some { f with padding := some .spaces }
  | '-' => some { f with padding := some .bare }
  | '0' => some { f with padding := some .zeros }
  | '^' => some { f with upper := true }
  | '#' => some { f with swapped := true }
  | _ => none

/-- The field with one more character, unless the character is its letter. -/
def extend? (f : Field) (c : Char) : Option Field :=
  let f := { f with read := c :: f.read }
  match f.modifier, f.width with
  | some _, _ => none
  | none, some width =>
    if c.isDigit then
      some { f with width := some (width * 10 + (c.toNat - '0'.toNat)) }
    else if c = 'E' || c = 'O' then some { f with modifier := some c }
    else none
  | none, none =>
    if c.isDigit && c ≠ '0' then
      some { f with width := some (c.toNat - '0'.toNat) }
    else if c = 'E' || c = 'O' then some { f with modifier := some c }
    else f.flag? c

def fit (f : Field) (room : Nat) (cs : List Char) : List Char :=
  let fill := if f.padding = some .zeros then '0' else ' '
  List.replicate (min (f.width.getD 0) room - cs.length) fill ++ cs

/-- A number of at least `digits` digits, with blanks for leading zeros if it is
to be `blank`. -/
def number (f : Field) (room value digits : Nat) (blank : Bool) : List Char :=
  let written := (toString value).toList
  let missing := max digits (min (f.width.getD 0) room) - written.length
  match f.padding with
  | some .bare => f.fit room written
  | some .spaces => List.replicate missing ' ' ++ written
  | some .zeros => List.replicate missing '0' ++ written
  | none => List.replicate missing (if blank then ' ' else '0') ++ written

def isAllowed (f : Field) (letter : Char) : Bool :=
  match f.modifier with
  | some 'E' => !"aAbBdDeFgGhHIjklmMSUVwW".toList.contains letter
  | some _ => !"aAcDFxXY".toList.contains letter
  | none => true

end Field

def upper (cs : List Char) : List Char :=
  cs.map Char.toUpper

def lower (cs : List Char) : List Char :=
  cs.map Char.toLower

def single? (m : Moment) (f : Field) (room : Nat) (letter : Char) :
    Option (List Char) :=
  let number (value digits : Nat) := some (f.number room value digits false)
  let blankNumber (value : Nat) := some (f.number room value 2 true)
  let name (s : String) :=
    some (f.fit room (if f.upper || f.swapped then upper s.toList
      else s.toList))
  let half := if m.hour < 12 then "AM" else "PM"
  match letter with
  | '%' => some (f.fit room ['%'])
  | 'n' => some (f.fit room ['\n'])
  | 't' => some (f.fit room ['\t'])
  | 'a' => name (String.ofList (m.weekdayName.toList.take 3))
  | 'A' => name m.weekdayName
  | 'b' | 'h' => name (String.ofList (m.monthName.toList.take 3))
  | 'B' => name m.monthName
  | 'C' => number (m.year / 100) 1
  | 'd' => number m.day 2
  | 'e' => blankNumber m.day
  | 'g' => number (m.week.1 % 100) 2
  | 'G' => number m.week.1 1
  | 'H' => number m.hour 2
  | 'I' => number m.clockHour 2
  | 'j' => number (m.yearDay + 1) 3
  | 'k' => blankNumber m.hour
  | 'l' => blankNumber m.clockHour
  | 'm' => number m.month 2
  | 'M' => number m.minute 2
  | 'p' =>
    some (f.fit room (if f.swapped then lower half.toList else half.toList))
  | 'P' => some (f.fit room (lower half.toList))
  | 's' => some (f.fit room (toString m.seconds).toList)
  | 'S' => number m.second 2
  | 'u' => number (m.weekdayFromMonday + 1) 1
  | 'U' => number ((m.yearDay + 7 - m.weekday) / 7) 2
  | 'V' => number m.week.2 2
  | 'w' => number m.weekday 1
  | 'W' => number ((m.yearDay + 7 - m.weekdayFromMonday) / 7) 2
  | 'y' => number (m.year % 100) 2
  | 'Y' => number m.year 1
  | 'z' =>
    let minutes := m.offset.natAbs
    some (f.fit room [if m.offset < 0 then '-' else '+'] ++
      f.number room (minutes / 60 * 100 + minutes % 60) 4 false)
  | 'Z' =>
    some (if f.padding = some .bare then m.zone.toList
      else f.fit room m.zone.toList)
  | _ => none

/-- The formats that some letters are short for, made of letters and what stands
between them. -/
def longForm? : Char → Option String
  | 'c' => some "%a %b %e %H:%M:%S %Y"
  | 'x' | 'D' => some "%m/%d/%y"
  | 'F' => some "%Y-%m-%d"
  | 'r' => some "%I:%M:%S %p"
  | 'R' => some "%H:%M"
  | 'T' | 'X' => some "%H:%M:%S"
  | _ => none

def fillSingle (m : Moment) : List Char → List Char
  | '%' :: letter :: rest =>
    (single? m {} 0 letter).getD [] ++ fillSingle m rest
  | c :: rest => c :: fillSingle m rest
  | [] => []

/-- A field that stands for nothing is written as it was read. -/
def unknown (f : Field) (room : Nat) : List Char :=
  f.fit room (if f.upper then upper f.read.reverse else f.read.reverse)

/-- A letter behind a modifier that it does not take. A short month is in
capitals all the same. -/
def refused (f : Field) (room : Nat) (letter : Char) : List Char :=
  let capitals := f.upper || (f.swapped && (letter = 'b' || letter = 'h'))
  unknown { f with read := letter :: f.read, upper := capitals } room

def fill (m : Moment) (f : Field) (room : Nat) (letter : Char) : List Char :=
  if f.isAllowed letter then
    match longForm? letter, single? m f room letter with
    | some form, _ =>
      let written := f.fit room (fillSingle m form.toList)
      if f.upper then upper written else written
    | none, some written => written
    | none, none => unknown { f with read := letter :: f.read } room
  else
    refused f room letter

/-- Fills in a format, of which the field `f` has been begun. -/
def fillFrom (m : Moment) (room : Nat) : Option Field → List Char → List Char
  | none, [] => []
  | some f, [] => unknown f room
  | none, c :: rest =>
    if c = '%' then fillFrom m room (some {}) rest
      else c :: fillFrom m room none rest
  | some f, c :: rest =>
    match f.extend? c with
    | some longer => fillFrom m room (some longer) rest
    | none => fill m f room c ++ fillFrom m room none rest

/-- How long the text of a format may become: a power of two from 1024 on that
has room for 256 characters for each one of the format. -/
def room (format : String) : Nat :=
  1024 * Nat.nextPowerOfTwo ((format.length + 3) / 4)

end DateFormat

/-- The text of a moment. A text that has no room is left out. Without a format,
the moment is written down to the millisecond. -/
def Moment.text (m : Moment) (format : String) : String :=
  let write (format : String) : List Char :=
    let written :=
      DateFormat.fillFrom m (DateFormat.room format) none format.toList
    if written.length < DateFormat.room format then written else []
  String.ofList <|
    if format.isEmpty then
      write "%Y-%m-%d %H:%M:%S" ++
        ',' :: DateFormat.Field.number {} 0 m.millisecond 3 false
    else
      write format

end ServerConf.Log
