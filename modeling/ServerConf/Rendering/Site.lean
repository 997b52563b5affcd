import ServerConf.Files.Store
import ServerConf.Rendering.Lines

/-!
Rendering a document with its templates and imports. The files being rendered
and the templates being expanded are part of the scope, so they are what they
were once a part is done, whether it succeeded or not.
-/

namespace ServerConf

/-- A log that is kept among the files: which addresses it touches, and what
becomes of the files when events are reported. -/
structure Journal where
  touches : Address → Bool
  record : List Log.Event → FileStore → FileStore

/-- What a rendering may use. Imports of a document without a file start from
`base`, or else from the working directory. -/
structure Site where
  options : RenderOptions := {}
  env : Environment := Environment.empty
  store : FileStore
  base : Option Path := none
  journal : Option Journal := none
  links : Links := .none

/-- The files being rendered, the outermost first, the current one, and the
templates being expanded. -/
structure Scope where
  stack : List Address := []
  current : Option Address := none
  expanding : List String := []
  deriving DecidableEq, Repr

namespace Scope

def enterFile (scope : Scope) (a : Address) : Scope :=
  { scope with stack := scope.stack ++ [a], current := some a }

def enterTemplate (scope : Scope) (name : String) : Scope :=
  { scope with expanding := scope.expanding ++ [name] }

end Scope

/-- Resolves a path against a directory; a path with a null character leads
nowhere. -/
def Path.resolve? (p : Path) (start : Address) (links : Links := .none) :
    Except Failure Address :=
  if p.hasNull then .error .nullInPath else .ok (links.resolve p start)

/-- The file that a document comes from, as it is given by a text. An empty text
gives none, although it is a path to the working directory. -/
def Path.origin? (text : String) : Option Path :=
  if text.isEmpty then none else some (Path.ofString text)

namespace Site

/-- The directory that relative imports start from. -/
def importBase (site : Site) (scope : Scope) : Path :=
  match scope.current with
  | some file => file.parent.toPath
  | none => site.base.getD site.store.cwd.toPath

def resolveImport (site : Site) (scope : Scope) (path : String) :
    Except Failure Address :=
  ((site.importBase scope).join (Path.ofString path)).resolve? site.store.cwd
    site.links

/-- The files as they are by now, as far as the given address is concerned. -/
def filesAt (site : Site) (a : Address) : Rendering FileStore := do
  match site.journal with
  | none => return site.store
  | some journal =>
    if journal.touches a then return journal.record (← get).log site.store
      else return site.store

def readDocument (site : Site) (a : Address) : Rendering Document := do
  match (← site.filesAt a).find? a.toPath with
  | .error fault => Rendering.fail (.file fault)
  | .ok (some (.file _)) =>
    Rendering.report [.loading a.text]
    let source ← Rendering.ofExcept ((← site.filesAt a).readText a.toPath)
    Rendering.report (Document.parseEvents site.env a.text source)
    Rendering.ofExcept (Document.parse site.env a.text source)
  | .ok _ => Rendering.fail (.render (.importNotFound a.text))

/-- The document in a file, read only the first time. -/
def load (site : Site) (a : Address) : Rendering Document := do
  match (← get).cache.lookup a with
  | some document =>
    Rendering.report [.reusing a.text]
    return document
  | none =>
    let document ← site.readDocument a
    modify fun p => { p with cache := p.cache ++ [(a, document)] }
    return document

/-- The body of a template that may be expanded here. -/
def templateBody (scope : Scope) (name : String) (position : Position) :
    Rendering (List Statement) := do
  match (← get).templates.get? name with
  | none => Rendering.fail (.render (.undefinedTemplate name position))
  | some body =>
    if name ∈ scope.expanding then
      Rendering.fail (.render (.recursiveTemplate (scope.expanding ++ [name])))
    else
      return body

/-- The file that an import names, if it may be imported here. -/
def importTarget (site : Site) (scope : Scope) (path : String) :
    Rendering Address := do
  let a ← Rendering.ofExcept (site.resolveImport scope path)
  if a ∈ scope.stack then
    Rendering.fail
      (.render (.importCycle ((scope.stack ++ [a]).map Address.text)))
  else
    return a

/-- The lines of statements with at most `levels` templates and files inside
each other. -/
def linesWithin (site : Site) (levels : Nat) (scope : Scope) (depth : Nat)
    (statements : List Statement) : Rendering (List String) :=
  match levels with
  | 0 => Rendering.fail .nestedTooDeep
  | levels + 1 =>
    linesOf site.options
      { reference := fun depth name position => do
          let body ← templateBody scope name position
          site.linesWithin levels (scope.enterTemplate name) depth body
        importFile := fun depth path => do
          let a ← site.importTarget scope path
          let document ← site.load a
          Rendering.collect document.children
          site.linesWithin levels (scope.enterFile a) depth document.children }
      depth statements

/-- More levels than there can be: each one is for another template or another
file, and there are no more templates than definitions in the document and bytes
in the files. A log among the files may hold each name and text once more. -/
def levels (site : Site) (document : Document) : Nat :=
  document.definitions.length + 2 * site.store.byteCount +
    site.store.files.length + 1

/-- The scope that a document from a file, or from none, begins in. -/
def startScope (site : Site) (origin : Option Path) : Except Failure Scope :=
  match origin with
  | none => .ok {}
  | some path => do
    return Scope.enterFile {} (← path.resolve? site.store.cwd site.links)

/-- The text of a document: its lines, without blanks at either end. -/
def renderIn (site : Site) (scope : Scope) (document : Document) :
    Rendering String := do
  Rendering.collect document.children
  Rendering.report
    [.collected (← get).templates.entries.length document.filename]
  let lines ← site.linesWithin (site.levels document) scope 0 document.children
  return String.ofList (Text.trim (Text.joinWith "\n" lines).toList)

end Site

/-- A rendering that is over: what came of it, and what it leaves behind. -/
structure Rendered where
  result : Except Failure String
  progress : Progress := {}
  scope : Scope := {}

/-- Renders a document that came from the file `origin`, or from none. -/
def Site.render (site : Site) (document : Document) (origin : Option Path) :
    Rendered :=
  match site.startScope origin with
  | .error f => { result := .error f }
  | .ok scope =>
    let (result, progress) := (site.renderIn scope document).run.run {}
    { result, progress, scope }

end ServerConf
