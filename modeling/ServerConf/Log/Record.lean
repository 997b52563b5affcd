import ServerConf.Text.Join

namespace ServerConf.Log

/-- Levels are numbers; the named ones are those below. -/
abbrev Level := Int

namespace Level

def debug : Level := 10

def info : Level := 20

def warning : Level := 30

def error : Level := 40

def critical : Level := 50

def label (level : Level) : String :=
  if level = debug then "DEBUG"
  else if level = info then "INFO"
  else if level = warning then "WARNING"
  else if level = error then "ERROR"
  else if level = critical then "CRITICAL"
  else if level = 0 then "NOTSET"
  else "Level " ++ toString level

/-- The level a word stands for, whatever its case; other words mean `info`. -/
def ofWord (word : String) : Level :=
  match word.toLower with
  | "debug" => debug
  | "info" => info
  | "warning" => warning
  | "warn" => warning
  | "error" => error
  | "critical" => critical
  | _ => info

end Level

structure Record where
  logger : String
  level : Level
  message : String
  deriving DecidableEq, Repr

def rootLogger : String := "ncl_gen"

/-- The logger of a component: below the root, unless the name begins with the
root's. -/
def loggerName (component : String) : String :=
  if rootLogger.toList.isPrefixOf component.toList then component
  else rootLogger ++ "." ++ component

/-- What the library reports. -/
inductive Event where
  | tokenized (filename : String) (count : Nat)
  | parsed (filename : String) (count : Nat)
  | resolvedFromEnvironment (name : String)
  | resolvedToDefault (name : String)
  | collected (count : Nat) (filename : String)
  | loading (path : String)
  | reusing (path : String)
  | compiled (filename : String) (lines : Nat)
  | dockerUnusable (reason : String)
  | running (command : List String)
  | validating (method : String)
  | warned (text : String)
  deriving DecidableEq, Repr

namespace Event

def component : Event → String
  | .tokenized _ _ => "language.lexer"
  | .parsed _ _ | .resolvedFromEnvironment _ | .resolvedToDefault _ =>
    "language.parser"
  | .collected _ _ | .loading _ | .reusing _ => "language.renderer"
  | .compiled _ _ => "language.loader"
  | .dockerUnusable _ | .running _ => "validator"
  | .validating _ | .warned _ => "main"

def level : Event → Level
  | .validating _ => .info
  | .warned _ => .warning
  | _ => .debug

def message : Event → String
  | .tokenized filename count =>
    "Tokenized " ++ filename ++ ": " ++ toString count ++ " tokens"
  | .parsed filename count =>
    "Parsed " ++ filename ++ ": " ++ toString count ++ " top-level statements"
  | .resolvedFromEnvironment name =>
    "Resolved %env(" ++ name ++ ") from environment"
  | .resolvedToDefault name => "Resolved %env(" ++ name ++ ") to its default"
  | .collected count filename =>
    "Collected " ++ toString count ++ " template(s) from " ++ filename
  | .loading path => "Parsing imported file " ++ path
  | .reusing path => "Reusing parsed import " ++ path
  | .compiled filename lines =>
    "Compiled " ++ filename ++ ": " ++ toString lines ++ " line(s)"
  | .dockerUnusable reason => "Docker is not usable: " ++ reason
  | .running command => "Running: " ++ Text.joinWith " " command
  | .validating method => "Validating with " ++ method
  | .warned text => text

def record (e : Event) : Record :=
  ⟨loggerName e.component, e.level, e.message⟩

end Event

end ServerConf.Log
