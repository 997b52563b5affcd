import ServerConf.Rendering.Site

/-!
A renderer that is called again and again. It keeps what a call gathers, the
files and templates the call is inside of, and the depth it writes at. What is
entered is left again whether the part inside succeeds or not, and each call
first forgets the one before.
-/

namespace ServerConf

structure Renderer where
  options : RenderOptions := {}
  env : Environment := Environment.empty
  progress : Progress := {}
  scope : Scope := {}
  base : Option Path := none
  depth : Nat := 0

namespace Renderer

abbrev Act := ExceptT Failure (StateM Renderer)

def reset (r : Renderer) : Renderer :=
  { options := r.options, env := r.env }

def site (r : Renderer) (store : FileStore) (links : Links) : Site :=
  { options := r.options, env := r.env, store, base := r.base, links }

def indentation (r : Renderer) : String :=
  r.options.indentation r.depth

def enterBlock (r : Renderer) : Renderer :=
  { r with depth := r.depth + 1 }

def leaveBlock (r : Renderer) : Renderer :=
  { r with depth := r.depth - 1 }

def enterTemplate (r : Renderer) (name : String) : Renderer :=
  { r with scope := r.scope.enterTemplate name }

def leaveTemplate (r : Renderer) : Renderer :=
  { r with scope := { r.scope with expanding := r.scope.expanding.dropLast } }

def enterFile (r : Renderer) (a : Address) : Renderer :=
  { r with scope := r.scope.enterFile a }

def leaveFile (r : Renderer) (previous : Option Address) : Renderer :=
  { r with
    scope :=
      { r.scope with stack := r.scope.stack.dropLast, current := previous } }

namespace Act

variable {α : Type}

def ofRendering (x : Rendering α) : Act α := do
  let (result, progress) := x.run.run (← get).progress
  modify ({ · with progress })
  MonadExcept.ofExcept result

def inside (enter leave : Renderer → Renderer) (x : Act α) : Act α := do
  modify enter
  try x finally modify leave

end Act

/-- How the reference to a template and the import of a file are written. -/
structure Visits where
  reference : String → Position → Act (List String)
  importFile : String → Act (List String)

end Renderer

open Renderer in
mutual

def Statement.write (visits : Visits) : Statement → Act (List String)
  | .directive name args _ => do
    return [(← get).indentation ++ name ++ Argument.line args ++ ";"]
  | .block name args children _ => do
    let indentation := (← get).indentation
    let inner ← Act.inside enterBlock leaveBlock (writeAll visits children)
    return enclosed indentation (blockHeader name args) inner
  | .location modifier paths children _ => do
    let locations ← paths.mapM fun path => do
      let indentation := (← get).indentation
      let inner ← Act.inside enterBlock leaveBlock (writeAll visits children)
      return enclosed indentation (locationHeader modifier path) inner
    return locations.flatten
  | .definition _ _ _ _ => return []
  | .reference name position => do
    if (← get).options.expandTemplates then visits.reference name position
    else return [(← get).indentation ++ "%inline(" ++ name ++ ");"]
  | .importFile path _ => visits.importFile path
  | .stray kind _ => throw (.render (.unknownStatement kind))

def writeAll (visits : Visits) : List Statement → Act (List String)
  | [] => return []
  | s :: rest => do
    let first ← s.write visits
    let others ← writeAll visits rest
    return first ++ others

end

namespace Renderer

/-- Writes statements with at most `levels` templates and files inside each
other. -/
def writeWithin (store : FileStore) (links : Links) (levels : Nat)
    (statements : List Statement) : Act (List String) :=
  match levels with
  | 0 => throw .nestedTooDeep
  | levels + 1 =>
    writeAll
      { reference := fun name position => do
          let body ← Act.ofRendering
            (Site.templateBody (← get).scope name position)
          Act.inside (·.enterTemplate name) leaveTemplate
            (writeWithin store links levels body)
        importFile := fun path => do
          let r ← get
          let a ←
            Act.ofRendering ((r.site store links).importTarget r.scope path)
          let document ← Act.ofRendering ((r.site store links).load a)
          Act.inside (·.enterFile a) (·.leaveFile r.scope.current) do
            Act.ofRendering (Rendering.collect document.children)
            writeWithin store links levels document.children }
      statements

def renderHere (store : FileStore) (links : Links) (document : Document) :
    Act String := do
  Act.ofRendering (Rendering.collect document.children)
  let collected := (← get).progress.templates.entries.length
  Act.ofRendering (Rendering.report [.collected collected document.filename])
  let levels := ((← get).site store links).levels document
  let lines ← writeWithin store links levels document.children
  return String.ofList (Text.trim (Text.joinWith "\n" lines).toList)

/-- Renders a document that came from the file `origin`, or else has its imports
start at `base`. -/
def render (store : FileStore) (links : Links) (document : Document)
    (origin base : Option Path) : Act String := do
  modify reset
  modify ({ · with base })
  if let some path := origin then
    let a ← MonadExcept.ofExcept (path.resolve? store.cwd links)
    modify (·.enterFile a)
  renderHere store links document

/-- A document to render, where it came from, and the files as they are then. -/
structure Call where
  store : FileStore
  document : Document
  origin : Option Path := none
  base : Option Path := none
  links : Links := .none

/-- The result of a call, and the renderer after it. -/
def answer (r : Renderer) (c : Call) : Except Failure String × Renderer :=
  (render c.store c.links c.document c.origin c.base).run.run r

/-- What comes of calls one after another. -/
def answers (r : Renderer) : List Call → List (Except Failure String × Renderer)
  | [] => []
  | c :: calls => r.answer c :: answers (r.answer c).2 calls

end Renderer

end ServerConf
