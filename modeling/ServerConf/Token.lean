import ServerConf.Position
import ServerConf.Text.Quoted

/-!
Tokens of the configuration language. A token knows its kind, the text it stands
for, the text it was written as, and where it starts.
-/

namespace ServerConf

inductive TokenKind where
  | identifier
  | number
  | string
  | location
  | inWord
  | variable
  | inline
  | environment
  | importSign
  | modifier
  | openBrace
  | closeBrace
  | openBracket
  | closeBracket
  | openParen
  | closeParen
  | semicolon
  | comma
  | equals
  | endOfInput
  deriving DecidableEq, Repr

namespace TokenKind

def all : List TokenKind :=
  [.identifier, .number, .string, .location, .inWord, .variable, .inline,
    .environment,
    .importSign, .modifier, .openBrace, .closeBrace, .openBracket,
    .closeBracket, .openParen,
    .closeParen, .semicolon, .comma, .equals, .endOfInput]

def label : TokenKind → String
  | .identifier => "IDENTIFIER"
  | .number => "NUMBER"
  | .string => "STRING"
  | .location => "LOCATION"
  | .inWord => "IN"
  | .variable => "VARIABLE"
  | .inline => "INLINE"
  | .environment => "ENV"
  | .importSign => "IMPORT"
  | .modifier => "LOCATION_MODIFIER"
  | .openBrace => "LBRACE"
  | .closeBrace => "RBRACE"
  | .openBracket => "LBRACKET"
  | .closeBracket => "RBRACKET"
  | .openParen => "LPAREN"
  | .closeParen => "RPAREN"
  | .semicolon => "SEMICOLON"
  | .comma => "COMMA"
  | .equals => "EQUALS"
  | .endOfInput => "EOF"

def ofLabel? (label : String) : Option TokenKind :=
  all.find? (·.label == label)

def isWord : TokenKind → Bool
  | .identifier | .number | .variable | .location | .inWord | .modifier
      | .openBracket
  | .environment => true
  | _ => false

/-- Kinds that go on with a word when nothing separates them from it. -/
def isGlue : TokenKind → Bool
  | .equals | .openParen | .closeParen | .closeBracket | .comma => true
  | kind => kind.isWord

/-- Kinds that may begin the name of a directive or a block. -/
def isName : TokenKind → Bool
  | .string => true
  | kind => kind.isWord

end TokenKind

structure Token where
  kind : TokenKind
  value : String
  position : Position
  raw : String := ""
  deriving DecidableEq, Repr

namespace Token

def endColumn (t : Token) : Int :=
  t.position.column + t.raw.length

/-- No character separates the second token from the first. -/
def touches (previous t : Token) : Bool :=
  t.kind != .endOfInput &&
    previous.position.line == t.position.line &&
    previous.endColumn == t.position.column

def shown (t : Token) : String :=
  "Token(" ++ t.kind.label ++ ", " ++ Text.quoted t.value ++ ", " ++
    toString t.position.line ++ ":" ++ toString t.position.column ++ ")"

end Token

end ServerConf
