import ServerConf.Modifier
import ServerConf.Position

namespace ServerConf

/-- Nodes that have no place among statements: a reference to the environment,
which reading always settles, and a whole document. -/
inductive Stray where
  | environmentReference
  | document
  deriving DecidableEq, Repr

/-- A location with several paths is short for one location per path. -/
inductive Statement where
  | directive (name : String) (args : List String) (position : Position)
  | block (name : String) (args : List String) (children : List Statement)
      (position : Position)
  | location (modifier : Modifier) (paths : List String)
      (children : List Statement)
      (position : Position)
  | definition (name : String) (body : List Statement) (opening : Position)
      (position : Position)
  | reference (name : String) (position : Position)
  | importFile (path : String) (position : Position)
  | stray (kind : Stray) (children : List Statement)
  deriving Repr

structure Document where
  children : List Statement
  filename : String := "<string>"
  deriving Repr

namespace Statement

def position : Statement → Position
  | .directive _ _ position => position
  | .block _ _ _ position => position
  | .location _ _ _ position => position
  | .definition _ _ _ position => position
  | .reference _ position => position
  | .importFile _ position => position
  | .stray _ _ => ⟨0, 0⟩

/-- The statements directly below one, a template's body included. -/
def children : Statement → List Statement
  | .block _ _ children _ => children
  | .location _ _ children _ => children
  | .definition _ body _ _ => body
  | _ => []

inductive Flaw where
  | namelessDirective
  | pathlessLocation
  deriving DecidableEq, Repr

def Flaw.message : Flaw → String
  | .namelessDirective => "Directive name must not be empty"
  | .pathlessLocation => "Location needs at least one path"

end Statement

mutual

def Statement.outline (depth : Nat) : Statement → List (Nat × Statement)
  | .block name args children position =>
    (depth,
      .block name args children position) :: outlineAll (depth + 1) children
  | .location modifier paths children position =>
    (depth, .location modifier paths children position) :: outlineAll
      (depth + 1) children
  | .definition name body opening position =>
    (depth,
      .definition name body opening position) :: outlineAll (depth + 1) body
  | s => [(depth, s)]

/-- Every statement of a list with its depth, template bodies included. -/
def outlineAll (depth : Nat) : List Statement → List (Nat × Statement)
  | [] => []
  | s :: rest => s.outline depth ++ outlineAll depth rest

end

mutual

/-- The first flaw in a statement; those of its children come first. -/
def Statement.flaw? : Statement → Option Statement.Flaw
  | .directive name _ _ =>
    if name.isEmpty then some .namelessDirective else none
  | .block _ _ children _ => flawIn? children
  | .location _ paths children _ =>
    match flawIn? children with
    | some flaw => some flaw
    | none => if paths.isEmpty then some .pathlessLocation else none
  | .definition _ body _ _ => flawIn? body
  | .stray _ children => flawIn? children
  | _ => none

def flawIn? : List Statement → Option Statement.Flaw
  | [] => none
  | s :: rest =>
    match s.flaw? with
    | some flaw => some flaw
    | none => flawIn? rest

end

namespace Document

def outline (d : Document) : List (Nat × Statement) :=
  outlineAll 0 d.children

/-- Every statement, parents before their children. -/
def walk (d : Document) : List Statement :=
  d.outline.map Prod.snd

/-- Name and position of each template definition, in source order. -/
def definitions (d : Document) : List (String × Position) :=
  d.walk.filterMap fun
    | .definition name _ _ position => some (name, position)
    | _ => none

def references (d : Document) : List (String × Position) :=
  d.walk.filterMap fun
    | .reference name position => some (name, position)
    | _ => none

def imports (d : Document) : List (String × Position) :=
  d.walk.filterMap fun
    | .importFile path position => some (path, position)
    | _ => none

end Document

end ServerConf
