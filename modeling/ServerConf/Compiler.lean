import ServerConf.Application
import ServerConf.Document.Lint
import ServerConf.Files.Change
import ServerConf.Rendering.Site

/-!
Compiling files and texts. A compilation reads, parses and renders; what fails
there is reported under the name of the file.
-/

namespace ServerConf

inductive CompileError where
  | inputNotFound (path : String)
  | notAFile (path : String)
  | unreadable (path : String) (cause : Failure)
  | unparsed (filename : String) (cause : Failure)
  | unrendered (filename : String) (cause : Failure)
  | importUnreadable (filename : String) (cause : Failure)
  deriving DecidableEq, Repr

namespace CompileError

def message : CompileError → String
  | .inputNotFound path => "Input file not found: " ++ path
  | .notAFile path => "Not a file: " ++ path
  | .unreadable path cause => "Failed to read " ++ path ++ ": " ++ cause.message
  | .unparsed filename cause =>
    "Failed to parse " ++ filename ++ ": " ++ cause.message
  | .unrendered filename cause =>
    "Failed to render " ++ filename ++ ": " ++ cause.message
  | .importUnreadable filename cause =>
    "Failed to read import of " ++ filename ++ ": " ++ cause.message

def cause? : CompileError → Option Failure
  | .inputNotFound _ | .notAFile _ => none
  | .unreadable _ cause
  | .unparsed _ cause
  | .unrendered _ cause
  | .importUnreadable _ cause => some cause

end CompileError

/-- A compilation fails with an error of its own, or with a failure it does not
report as one. -/
inductive CompileFailure where
  | reported (e : CompileError)
  | unreported (f : Failure)
  deriving DecidableEq, Repr

def CompileFailure.message : CompileFailure → String
  | .reported e => e.message
  | .unreported f => f.message

/-- How a failure while compiling `filename` comes out. Bytes that are no text
in an imported file and null characters in paths are not reported under the
file's name. -/
def CompileFailure.ofFailure (filename : String) (f : Failure) :
    CompileFailure :=
  match f with
  | .scan _ | .parse _ => .reported (.unparsed filename f)
  | .render _ => .reported (.unrendered filename f)
  | .file _ => .reported (.importUnreadable filename f)
  | _ => .unreported f

/-- How to compile, the log that is kept among the files, and the last document
that was read. -/
structure Compiler where
  options : RenderOptions := {}
  env : Environment := Environment.empty
  journal : Option Journal := none
  last : Option Document := none

/-- A compilation that is over: what came of it, the compiler after it, and what
it reports. -/
structure Compiled where
  result : Except CompileFailure String
  compiler : Compiler
  log : List Log.Event

namespace Compiler

/-- The site for a document whose reading reported the given events. -/
def site (c : Compiler) (store : FileStore) (base : Option Path)
    (events : List Log.Event) (links : Links := .none) : Site :=
  { options := c.options, env := c.env, store, base, links
    journal := c.journal.map fun j =>
      { j with record := fun more => j.record (events ++ more) } }

def compile (c : Compiler) (store : FileStore) (source filename : String)
    (origin base : Option Path) (links : Links := .none) : Compiled :=
  let events := Document.parseEvents c.env filename source
  match Document.parse c.env filename source with
  | .error f => ⟨.error (.ofFailure filename f), c, events⟩
  | .ok document =>
    let after := { c with last := some document }
    let rendered := (c.site store base events links).render document origin
    match rendered.result with
    | .error f =>
      ⟨.error (.ofFailure filename f), after, events ++ rendered.progress.log⟩
    | .ok text =>
      let count := (Text.lines text.toList).length
      ⟨.ok text, after,
        events ++ rendered.progress.log ++ [.compiled filename count]⟩

def compileText (c : Compiler) (store : FileStore) (source filename : String)
    (base : Option Path) (links : Links := .none) : Compiled :=
  c.compile store source filename none base links

def failed (c : Compiler) (failure : CompileFailure) : Compiled :=
  ⟨.error failure, c, []⟩

def compileFile (c : Compiler) (store : FileStore) (path : Path)
    (links : Links := .none) : Compiled :=
  match store.find? path links with
  | .error fault => c.failed (.unreported (.file fault))
  | .ok none => c.failed (.reported (.inputNotFound path.text))
  | .ok (some .directory) => c.failed (.reported (.notAFile path.text))
  | .ok (some (.file bytes)) =>
    match FileStore.decodeText bytes with
    | .error f => c.failed (.reported (.unreadable path.text f))
    | .ok source => c.compile store source path.text (some path) none links

def lint (c : Compiler) : List Warning :=
  match c.last with
  | some document => document.lint
  | none => []

end Compiler

/-- A warning about an input whose name does not end as it should. -/
def extensionWarning? (input : Path) : Option String :=
  if input.suffix = Application.sourceExtension then none
  else
    some ("Input file does not have " ++ Application.sourceExtension ++
      " extension: " ++
      input.text)

/-- Where the output for an input goes: next to it, under a name with another
extension. -/
def defaultOutput (input : Path) : Except Failure Path :=
  let name :=
    if input.suffix = Application.sourceExtension then
      input.stemAndSuffix.1 ++ Application.outputExtension
    else
      input.name ++ Application.outputExtension
  match input.withName? name with
  | some output => .ok output
  | none => .error (.namelessPath input.text)

def writeOutput (text : String) (output : Path) : Change Unit :=
  Change.put output (Text.Utf8.encode (text ++ "\n"))

end ServerConf
