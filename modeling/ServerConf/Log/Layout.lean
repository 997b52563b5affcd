import ServerConf.Log.DateFormat
import ServerConf.Log.Format
import ServerConf.Log.Record

/-!
Layouts of log lines, and the two ways to fill them in: plain, with level names
of one width, and coloured. A formatter works on a line's labels and gives them
back; only a coloured one that fails leaves them changed.
-/

namespace ServerConf.Log

/-- A record together with the texts that stand for its level, logger and
message. -/
structure Line where
  level : Level
  levelName : String
  logger : String
  message : String
  deriving DecidableEq, Repr

def Record.line (r : Record) : Line :=
  ⟨r.level, r.level.label, r.logger, r.message⟩

def Line.text (line : Line) (time : String) : Label → String
  | .time => time
  | .levelName => line.levelName
  | .logger => line.logger
  | .message => line.message

def Piece.fill (line : Line) (time : String) : Piece → String
  | .literal c => String.singleton c
  | .field label fit => fit.apply (line.text time label)

def Layout.fill (layout : Layout) (line : Line) (now : Moment) : String :=
  String.join
    (layout.pieces.map (Piece.fill line (now.text layout.dateFormat)))

/-- Level names are as wide as the longest of the named ones. -/
def padLevelName (s : String) : String :=
  s ++ String.ofList (List.replicate (8 - s.length) ' ')

namespace Color

def reset : String := "\x1b[0m"

def bold : String := "\x1b[1m"

def dim : String := "\x1b[2m"

def red : String := "\x1b[31m"

def green : String := "\x1b[32m"

def yellow : String := "\x1b[33m"

def blue : String := "\x1b[34m"

def magenta : String := "\x1b[35m"

def cyan : String := "\x1b[36m"

def all : List String :=
  [reset, bold, dim, red, green, yellow, blue, magenta, cyan]

end Color

def Level.color? (level : Level) : Option String :=
  if level = debug then some Color.dim
  else if level = info then some Color.green
  else if level = warning then some Color.yellow
  else if level = error then some Color.red
  else if level = critical then some (Color.bold ++ Color.red)
  else none

/-- The last part of a logger's name, after the last dot. -/
def stage (logger : String) : String :=
  String.ofList (logger.toList.reverse.takeWhile (· ≠ '.')).reverse

def stageColor? (stage : String) : Option String :=
  match stage with
  | "lexer" | "parser" => some Color.magenta
  | "renderer" => some Color.cyan
  | "loader" | "validator" => some Color.blue
  | "main" => some Color.green
  | _ => none

inductive Formatter where
  | plain (layout : Layout)
  | colored (layout : Layout) (useColors : Bool)
  deriving DecidableEq, Repr

/-- There is no colour for the messages of this level. -/
structure ColorError where
  level : Level
  deriving DecidableEq, Repr

def ColorError.message (e : ColorError) : String :=
  toString e.level

/-- Level name and logger in their colours. -/
def Line.colorLabels (line : Line) : Line :=
  { line with
    levelName :=
      line.level.color?.getD "" ++ padLevelName line.levelName ++ Color.reset
    logger := match stageColor? (stage line.logger) with
      | some color => color ++ line.logger ++ Color.reset
      | none => line.logger }

/-- Messages from warnings up are coloured, those above errors like errors. -/
def Line.colorMessage (line : Line) : Except ColorError Line :=
  if line.level < Level.warning then .ok line
  else
    match (min line.level Level.error).color? with
    | some color =>
      .ok { line with message := color ++ line.message ++ Color.reset }
    | none => .error ⟨min line.level Level.error⟩

namespace Formatter

def layout : Formatter → Layout
  | .plain layout => layout
  | .colored layout _ => layout

/-- The text of a line, and the line as the formatter leaves it. -/
def format (f : Formatter) (now : Moment) (line : Line) :
    Except ColorError String × Line :=
  match f with
  | .plain layout =>
    (.ok (layout.fill { line with levelName := padLevelName line.levelName }
      now), line)
  | .colored layout false => (.ok (layout.fill line now), line)
  | .colored layout true =>
    match line.colorLabels.colorMessage with
    | .ok painted => (.ok (layout.fill painted now), line)
    | .error e => (.error e, line.colorLabels)

end Formatter

end ServerConf.Log
