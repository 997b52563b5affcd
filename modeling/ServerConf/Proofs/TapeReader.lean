import ServerConf.Document.Parse

/-!
Reading by index. The tokens stay where they are and a head moves along them.
Nothing in the moves keeps the head on the tape or makes a loop end, so a
passage may look outside, and may have no result at all.
-/

namespace ServerConf

/-- What breaks a passage off: the head looks for a token where there is none,
or finds an error. -/
inductive Halt where
  | outside
  | stopped (e : ParseError)

/-- All tokens, also those behind the first end of input. -/
structure Tape where
  env : Environment
  tokens : List Token

namespace Tape

abbrev Passage := StateT Nat (ExceptT Halt Option)

variable (tape : Tape)

def token (index : Nat) : Passage Token :=
  match tape.tokens[index]? with
  | some t => pure t
  | none => throw .outside

def current : Passage Token := do
  tape.token (← get)

def previous : Passage Token := do
  match ← get with
  | 0 => throw .outside
  | index + 1 => tape.token index

def peek : Passage Token := do
  tape.token (min ((← get) + 1) (tape.tokens.length - 1))

def advance : Passage Token := do
  let t ← tape.current
  if t.kind ≠ .endOfInput then modify (· + 1)
  return t

def refuse {α : Type} (complaint : Complaint) (t : Token) : Passage α :=
  throw (.stopped ⟨complaint, t⟩)

def expect (kind : TokenKind) (complaint : Complaint) : Passage Token := do
  let t ← tape.current
  if t.kind = kind then tape.advance else refuse complaint t

def fallback : Passage (Option String) := do
  if (← tape.current).kind = .comma then
    let _ ← tape.advance
    let value ← tape.expect .string .environmentDefault
    return some value.value
  else
    return none

def reference : Passage String := do
  let sign ← tape.advance
  let _ ← tape.expect .openParen .environmentParen
  let name ← tape.expect .string .environmentName
  let default ← tape.fallback
  let _ ← tape.expect .closeParen .environmentClose
  match (tape.env name.value).or default with
  | some value => return value
  | none => refuse (.environmentUnset name.value) sign

def wordPart : Passage String := do
  if (← tape.current).kind = .environment then tape.reference
  else return (← tape.advance).value

def word (tape : Tape) : Passage String := do
  let text ← tape.wordPart
  let next ← tape.current
  let last ← tape.previous
  if next.kind.isGlue && last.touches next then
    let more ← tape |>.word
    return text ++ more
  else
    return text
partial_fixpoint

def nameText : Passage String := do
  if (← tape.current).kind = .string then return (← tape.advance).raw
  else tape.word

def name : Passage String := do
  let t ← tape.current
  let text ← tape.nameText
  if text.isEmpty then refuse .noName t else return text

def braceIn : List Token → Bool
  | [] => false
  | t :: ts =>
    if t.kind = .openBrace then true
    else if t.kind = .semicolon || t.kind = .endOfInput then false
    else braceIn ts

def braceAhead : Passage Bool := do
  return braceIn (tape.tokens.drop (← get))

def arguments (tape : Tape) (name : String) (line : Int) (header : Bool) :
    Passage (List String) := do
  let t ← tape.current
  if t.kind = .semicolon || t.kind = .endOfInput ||
    (t.kind = .openBrace && header) then
    return []
  else if t.kind = .openBrace || t.kind = .closeBrace ||
    (t.kind = .location && header) then
    refuse (.openHeader name) t
  else if !header && line < t.position.line && t.kind = .identifier then
    return []
  else if t.kind = .string then
    let value ← tape.advance
    let args ← tape |>.arguments name line header
    return value.value :: args
  else if t.kind = .equals || t.kind.isWord then
    let text ← tape.word
    let args ← tape |>.arguments name line header
    return text :: args
  else
    return []
partial_fixpoint

def listedPath : Passage String := do
  let t ← tape.current
  if t.kind = .environment then tape.reference
  else if t.kind = .string then return (← tape.advance).value
  else refuse .noListedPath t

def listedPaths (tape : Tape) : Passage (List String) := do
  if (← tape.current).kind = .closeBracket then
    return []
  else
    let path ← tape.listedPath
    let next ← tape.current
    if next.kind = .comma then
      let _ ← tape.advance
      let paths ← tape |>.listedPaths
      return path :: paths
    else if next.kind = .closeBracket then
      let paths ← tape |>.listedPaths
      return path :: paths
    else
      refuse .noPathSeparator next
partial_fixpoint

def pathList : Passage (List String) := do
  let paths ← tape.listedPaths
  let _ ← tape.advance
  return paths

def conditionText : Passage String := do
  let t ← tape.current
  if t.kind = .environment then tape.reference
  else
    let _ ← tape.advance
    return if t.raw.isEmpty then t.value else t.raw

def conditionPart : Passage ConditionPart := do
  let first ← tape.current
  let text ← tape.conditionText
  let last ← tape.previous
  return ⟨text, first, last⟩

def bareCondition (tape : Tape) : Passage (List ConditionPart) := do
  let t ← tape.current
  if t.kind = .openBrace || t.kind = .endOfInput then
    return []
  else
    let part ← tape.conditionPart
    let parts ← tape |>.bareCondition
    return part :: parts
partial_fixpoint

def parenCondition (tape : Tape) (inner : Nat) :
    Passage (List ConditionPart) := do
  let t ← tape.current
  if t.kind = .openBrace || t.kind = .endOfInput then
    refuse .openCondition t
  else if t.kind = .closeParen && inner = 0 then
    let _ ← tape.advance
    return []
  else
    let part ← tape.conditionPart
    let parts ← tape |>.parenCondition (Reader.nesting inner t.kind)
    return part :: parts
partial_fixpoint

def condition : Passage (List String) := do
  if (← tape.current).kind = .openParen then
    let _ ← tape.advance
    let parts ← tape.parenCondition 0
    return ConditionPart.join parts
  else
    let parts ← tape.bareCondition
    return ConditionPart.join parts

def opened (h : Heading) : Passage Item := do
  let _ ← tape.expect .openBrace (.noOpeningBrace h.enclosure)
  return .heading h

def template : Passage Item := do
  let sign ← tape.advance
  let _ ← tape.advance
  let t ← tape.current
  if t.kind = .openBrace then
    let _ ← tape.advance
    return .heading (.template sign.value t.position sign.position)
  else
    refuse (.noTemplateBody sign.value) t

def inline : Passage Item := do
  let sign ← tape.advance
  let _ ← tape.expect .openParen .inlineParen
  let name ← tape.expect .variable .inlineVariable
  let _ ← tape.expect .closeParen .inlineClose
  let _ ← tape.expect .semicolon .inlineSemicolon
  return .leaf (.reference name.value sign.position)

def importFile : Passage Item := do
  let sign ← tape.advance
  let _ ← tape.expect .openParen .importParen
  let path ← tape.expect .string .importString
  let _ ← tape.expect .closeParen .importClose
  let _ ← tape.expect .semicolon .importSemicolon
  if path.value.isEmpty then refuse .importEmpty path
  else return .leaf (.importFile path.value sign.position)

def locationList (sign : Token) : Passage Item := do
  let _ ← tape.expect .openBracket .noPathList
  let paths ← tape.pathList
  let close ← tape.previous
  if paths.isEmpty then refuse .emptyPathList close
  else tape.opened (.location .none paths sign.position)

def modifier : Passage Modifier := do
  let t ← tape.current
  if t.kind = .modifier then
    let sign ← tape.advance
    return Modifier.ofText sign.value
  else if t.kind = .equals then
    let _ ← tape.advance
    return .exact
  else
    return .none

def path : Passage String := do
  let t ← tape.current
  if t.kind = .string then return (← tape.advance).value
  else if t.kind.isWord then tape.word
  else refuse .noPath t

def locationSingle (sign : Token) : Passage Item := do
  let modifier ← tape.modifier
  let path ← tape.path
  tape.opened (.location modifier [path] sign.position)

def location : Passage Item := do
  let sign ← tape.advance
  if (← tape.current).kind = .inWord then
    let _ ← tape.advance
    tape.locationList sign
  else
    tape.locationSingle sign

def ifBlock : Passage Item := do
  let sign ← tape.advance
  let args ← tape.condition
  tape.opened (.condition args sign.position)

def named : Passage Item := do
  let t ← tape.current
  let header ← tape.braceAhead
  let name ← tape.name
  let args ← tape.arguments name t.position.line header
  if header then
    tape.opened (.block name args t.position)
  else
    let _ ← tape.expect .semicolon (.openDirective name)
    return .leaf (.directive name args t.position)

def variableItem : Passage Item := do
  if (← tape.peek).kind = .equals then tape.template else tape.named

def item : Passage Item := do
  let t ← tape.current
  match t.kind with
  | .variable => tape.variableItem
  | .inline => tape.inline
  | .location => tape.location
  | .importSign => tape.importFile
  | kind =>
    if kind = .identifier && t.value = "if" then tape.ifBlock
    else if kind.isName then tape.named
    else
      refuse
        (.unexpectedToken (if t.value.isEmpty then kind.label else t.value)) t

def closed (h : Heading) : Passage Unit := do
  match h with
  | .template name _ _ =>
    let _ ← tape.expect .semicolon (.openTemplate name)
    return ()
  | _ => return ()

mutual

def statement (tape : Tape) : Passage Statement := do
  match ← tape.item with
  | .leaf s => return s
  | .heading h =>
    let children ← tape |>.children h.enclosure
    tape.closed h
    return h.around children
partial_fixpoint

def children (tape : Tape) (of : Enclosure) : Passage (List Statement) := do
  let t ← tape.current
  if t.kind = .closeBrace || t.kind = .endOfInput then
    let _ ← tape.expect .closeBrace (.noClosingBrace of)
    return []
  else
    let s ← tape |>.statement
    let ss ← tape |>.children of
    return s :: ss
partial_fixpoint

end

def statements (tape : Tape) : Passage (List Statement) := do
  let t ← tape.current
  if t.kind = .endOfInput then
    return []
  else
    let s ← tape.statement
    let ss ← tape |>.statements
    return s :: ss
partial_fixpoint

end Tape

end ServerConf
