import ServerConf.CommandLine.Usage
import ServerConf.Text.Digit

/-!
Words of a command line: arguments, options with a value attached or without,
and the separator after which every word is an argument.
-/

namespace ServerConf.CommandLine

/-- What stands in the same word as an option: a value after an equals sign, or
characters right behind a short option. -/
inductive Attached where
  | nothing
  | assigned (value : String)
  | joined (characters : List Char)
  deriving DecidableEq, Repr

inductive Word where
  | separator
  | argument (text : String)
  | option (switch : Switch) (attached : Attached)
  | unknown (text : String)
  deriving DecidableEq, Repr

namespace Word

def splitEquals (cs : List Char) : List Char × Option (List Char) :=
  match cs.dropWhile (· ≠ '=') with
  | [] => (cs, none)
  | _ :: value => (cs.takeWhile (· ≠ '='), some value)

def attachedOf : Option (List Char) → Attached
  | none => .nothing
  | some value => .assigned (String.ofList value)

/-- An equals sign behind a short option may be left out, unless nothing follows
it. -/
def attachedToShort : Option (List Char) → Attached
  | some (c :: rest) => .joined (c :: rest)
  | value => attachedOf value

def candidates (start : List Char) : List (String × Switch) :=
  Switch.spellings.filter fun (spelling, _) => start.isPrefixOf spelling.toList

/-- Digits, with at most one point among them and a digit at the end. -/
def isNumber (cs : List Char) : Bool :=
  match cs.dropWhile Text.isDecimalDigit with
  | [] => !cs.isEmpty
  | '.' :: fraction => !fraction.isEmpty && fraction.all Text.isDecimalDigit
  | _ => false

def isNegativeNumber : List Char → Bool
  | '-' :: cs => isNumber (if cs.getLast? = some '\n' then cs.dropLast else cs)
  | _ => false

/-- A word that begins with a minus sign but spells no option. -/
def unmatched (word : String) : Word :=
  if isNegativeNumber word.toList || word.toList.contains ' ' then
    .argument word
  else .unknown word

/-- A word with two minus signs: an option may be shortened as long as only one
is meant. -/
def ofLong (word : String) : Except UsageError Word :=
  let (start, value) := splitEquals word.toList
  match candidates start with
  | [] => .ok (unmatched word)
  | [(_, switch)] => .ok (.option switch (attachedOf value))
  | several => .error (.ambiguous word (several.map Prod.fst))

/-- A word with one minus sign: a short option and what is joined to it. -/
def ofShort (word : String) (sign : Char) (joined : List Char) : Word :=
  match Switch.ofSpelling? (String.ofList ['-', sign]) with
  | some switch => .option switch (.joined joined)
  | none => unmatched word

def ofString (word : String) : Except UsageError Word :=
  match word.toList with
  | '-' :: sign :: rest =>
    let (start, value) := splitEquals word.toList
    match Switch.ofSpelling? word, Switch.ofSpelling? (String.ofList start) with
    | some switch, _ => .ok (.option switch .nothing)
    | none, some switch =>
      .ok (.option switch (if sign = '-' then attachedOf value
        else attachedToShort value))
    | none, none =>
      if sign = '-' then ofLong word else .ok (ofShort word sign rest)
  | _ => .ok (.argument word)

def ofStrings : List String → Except UsageError (List Word)
  | [] => .ok []
  | word :: rest =>
    if word = "--" then .ok (.separator :: rest.map .argument)
    else do
      let first ← ofString word
      let others ← ofStrings rest
      return first :: others

end Word

end ServerConf.CommandLine
