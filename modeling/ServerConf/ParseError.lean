import ServerConf.Token

namespace ServerConf

inductive Enclosure where
  | block (name : String)
  | condition
  | location
  | template (name : String)
  deriving DecidableEq, Repr

def Enclosure.describe : Enclosure → String
  | .block name => "'" ++ name ++ "'"
  | .condition => "'if' condition"
  | .location => "location path"
  | .template name => "template '" ++ name ++ "'"

inductive Complaint where
  | unexpectedToken (text : String)
  | noOpeningBrace (of : Enclosure)
  | noClosingBrace (of : Enclosure)
  | noTemplateBody (name : String)
  | openTemplate (name : String)
  | inlineParen
  | inlineVariable
  | inlineClose
  | inlineSemicolon
  | importParen
  | importString
  | importClose
  | importSemicolon
  | importEmpty
  | environmentParen
  | environmentName
  | environmentDefault
  | environmentClose
  | environmentUnset (name : String)
  | noName
  | openHeader (name : String)
  | openDirective (name : String)
  | openCondition
  | noPathList
  | noListedPath
  | noPathSeparator
  | emptyPathList
  | noPath
  deriving DecidableEq, Repr

def Complaint.message : Complaint → String
  | .unexpectedToken text => "Unexpected token " ++ Text.quoted text
  | .noOpeningBrace of => "Expected '\x7b' after " ++ of.describe
  | .noClosingBrace of => "Expected '\x7d' to close " ++ of.describe
  | .noTemplateBody name => "Expected '\x7b' after '" ++ name ++ " ='"
  | .openTemplate name => "Expected ';' after template '" ++ name ++ "'"
  | .inlineParen => "Expected '(' after %inline"
  | .inlineVariable => "Expected template variable inside %inline()"
  | .inlineClose => "Expected ')' after template variable"
  | .inlineSemicolon => "Expected ';' after %inline()"
  | .importParen => "Expected '(' after %import"
  | .importString => "Expected string path inside %import()"
  | .importClose => "Expected ')' after import path"
  | .importSemicolon => "Expected ';' after %import()"
  | .importEmpty => "Import path must not be empty"
  | .environmentParen => "Expected '(' after %env"
  | .environmentName => "Expected string literal for environment variable name"
  | .environmentDefault => "Expected string literal for default value"
  | .environmentClose => "Expected ')' after environment variable"
  | .environmentUnset name =>
    "Environment variable " ++ name ++
      " is not set and no default value provided"
  | .noName => "Expected directive name"
  | .openHeader name => "Expected ';' after '" ++ name ++ "'"
  | .openDirective name => "Expected ';' after directive '" ++ name ++ "'"
  | .openCondition => "Expected ')' to close 'if' condition"
  | .noPathList => "Expected '[' after 'location in'"
  | .noListedPath =>
    "Expected string or environment variable in location path list"
  | .noPathSeparator => "Expected ',' or ']' in location path list"
  | .emptyPathList => "Expected at least one path in location path list"
  | .noPath => "Expected path after 'location'"

structure ParseError where
  complaint : Complaint
  token : Token
  deriving DecidableEq, Repr

def ParseError.message (e : ParseError) : String :=
  e.token.position.locate e.complaint.message

end ServerConf
