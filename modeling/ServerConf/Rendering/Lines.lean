import ServerConf.Document.Parse
import ServerConf.Given
import ServerConf.Rendering.Argument
import ServerConf.Rendering.Template

/-!
The lines of a statement. How template references and imports are rendered is
left to handlers, so that a statement's lines are found by going through the
statement alone.
-/

namespace ServerConf

structure RenderOptions where
  indent : Given := .text "  "
  expandTemplates : Bool := true
  deriving DecidableEq, Repr

/-- What stands before a line: the indent once for each level, or always the
same if there is nothing to repeat. -/
def RenderOptions.indentation (options : RenderOptions) (depth : Nat) :
    String :=
  match options.indent with
  | .text s => String.join (List.replicate depth s)
  | .nothing => Given.nothing.shown

/-- What a rendering gathers, and keeps when it fails: the templates met so far,
the imported files by address in the order they were first read, and the events
reported, the last one first. -/
structure Progress where
  templates : Templates := {}
  cache : List (Address × Document) := []
  reported : List Log.Event := []

def Progress.log (p : Progress) : List Log.Event :=
  p.reported.reverse

abbrev Rendering := ExceptT Failure (StateM Progress)

namespace Rendering

def fail {α : Type} (f : Failure) : Rendering α :=
  throw f

def ofExcept {α : Type} : Except Failure α → Rendering α
  | .ok a => pure a
  | .error f => fail f

def report (events : List Log.Event) : Rendering Unit :=
  modify fun p => { p with reported := events.reverse ++ p.reported }

def collect (statements : List Statement) : Rendering Unit :=
  modify fun p => { p with templates := p.templates.collect statements }

end Rendering

/-- How to render, at a depth, the reference to a template and the import of a
file. -/
structure Handlers where
  reference : Nat → String → Position → Rendering (List String)
  importFile : Nat → String → Rendering (List String)

def enclosed (indentation header : String) (inner : List String) :
    List String :=
  (indentation ++ header ++ " \x7b") :: inner ++ [indentation ++ "\x7d"]

def blockHeader (name : String) (args : List String) : String :=
  if name = "if" then "if (" ++ Text.joinWith " " args ++ ")"
  else name ++ Argument.line args

def locationHeader (modifier : Modifier) (path : String) : String :=
  let (modifier, path) := modifier.splitPath path
  match modifier with
  | .none => "location " ++ Argument.quote path
  | modifier => "location " ++ modifier.text ++ " " ++ Argument.quote path

mutual

def Statement.lines
    (options : RenderOptions) (handlers : Handlers) (depth : Nat) :
    Statement → Rendering (List String)
  | .directive name args _ =>
    return [options.indentation depth ++ name ++ Argument.line args ++ ";"]
  | .block name args children _ => do
    let inner ← linesOf options handlers (depth + 1) children
    return enclosed (options.indentation depth) (blockHeader name args) inner
  | .location modifier paths children _ => do
    let locations ← paths.mapM fun path => do
      let inner ← linesOf options handlers (depth + 1) children
      return enclosed (options.indentation depth)
        (locationHeader modifier path) inner
    return locations.flatten
  | .definition _ _ _ _ => return []
  | .reference name position =>
    if options.expandTemplates then handlers.reference depth name position
    else return [options.indentation depth ++ "%inline(" ++ name ++ ");"]
  | .importFile path _ => handlers.importFile depth path
  | .stray kind _ => Rendering.fail (.render (.unknownStatement kind))

def linesOf (options : RenderOptions) (handlers : Handlers) (depth : Nat) :
    List Statement → Rendering (List String)
  | [] => return []
  | s :: rest => do
    let first ← s.lines options handlers depth
    let others ← linesOf options handlers depth rest
    return first ++ others

end

end ServerConf
