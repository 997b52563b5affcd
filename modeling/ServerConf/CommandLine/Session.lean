import ServerConf.CommandLine.Options
import ServerConf.Compiler
import ServerConf.Log.Handler
import ServerConf.Validation.Run

/-!
A run of the command line: compile a file, write the configuration, and validate
it if asked to.
-/

namespace ServerConf.CommandLine

/-- What a run finds. Log lines show the time `now`, and `config` names the file
that a configuration is validated from. -/
structure World where
  argv : List String
  env : Environment
  store : FileStore
  terminal : Bool := false
  now : Log.Moment := { year := 2000 }
  config : String := ""
  programs : Programs := {}

structure Session where
  store : FileStore
  programs : Programs
  handlers : Log.Handlers := {}
  stdout : String := ""
  stderr : String := ""

/-- A run ends with an exit code, or with a failure it does not report. -/
abbrev Run := ExceptT Failure (StateM Session)

namespace Options

def logConfig (o : Options) : Log.Config :=
  { consoleLevel :=
      if o.debug then "debug"
      else if o.verbose then "info"
      else if o.quiet then "error"
      else "warning"
    consoleColors := !o.noColor
    fileEnabled := (o.logFile.bind Given.nonempty?).isSome
    filePath :=
      (o.logFile.bind Given.nonempty?).getD ({} : Log.Config).filePath }

def renderOptions (o : Options) : RenderOptions :=
  { indent := o.indent, expandTemplates := !o.noInline }

def validator (o : Options) : Validator :=
  { useDocker := !o.noDocker
    nginxCommand := o.nginxCommand
    dockerImage := o.dockerImage }

end Options

namespace Run

def fail {α : Type} (f : Failure) : Run α :=
  throw f

def ofExcept {α : Type} : Except Failure α → Run α
  | .ok a => pure a
  | .error f => fail f

def print (line : String) : Run Unit :=
  modify fun s => { s with stdout := s.stdout ++ line ++ "\n" }

def printError (line : String) : Run Unit :=
  modify fun s => { s with stderr := s.stderr ++ line ++ "\n" }

def log (w : World) (e : Log.Event) : Run Unit :=
  modify fun s =>
    let (printed, store) := s.handlers.emit w.now e.record s.store
    { s with stderr := s.stderr ++ printed, store }

def logAll (w : World) (events : List Log.Event) : Run Unit :=
  events.forM (log w)

def setupLog (w : World) (config : Log.Config) : Run Unit := do
  let (handlers, opened, store) := Log.setup config w.terminal (← get).store
  modify fun s => { s with handlers, store }
  ofExcept opened

def validate (w : World) (o : Options) (text : String) : Run Nat := do
  log w (.validating o.validator.describe)
  let (result, programs) :=
    o.validator.validate w.config text { (← get).programs with log := [] }
  modify fun s => { s with programs }
  logAll w programs.log
  let verdict ← ofExcept result
  verdict.warnings.forM fun warning => printError ("Warning: " ++ warning)
  if verdict.isValid then
    print "Validation passed: nginx configuration is valid"
    return 0
  else
    printError "Validation failed:"
    verdict.errors.forM fun error => printError ("  - " ++ error)
    return 1

/-- Where the configuration is written. -/
def outputPath (w : World) (o : Options) (input : Path) : Except Failure Path :=
  match o.output.bind Given.nonempty? with
  | none => defaultOutput input
  | some output =>
    do return (← (Path.ofString output).resolve? w.store.cwd).toPath

/-- Writes the configuration and says where; says so too if it cannot be
written. -/
def write (text : String) (output : Path) : Run Bool := do
  let (result, store) := (writeOutput text output).on (← get).store
  modify fun s => { s with store }
  match result with
  | .ok () =>
    print ("Generated: " ++ output.text)
    return true
  | .error (.file fault) =>
    printError
      ("Error: Failed to write " ++ output.text ++ ": " ++ fault.message)
    return false
  | .error f => fail f

/-- What is done with a configuration: it is validated only, or printed or
written first. -/
def finish (w : World) (o : Options) (input : Path) (text : String) :
    Run Nat := do
  if o.validateOnly then
    validate w o text
  else
    let delivered ←
      if o.stdout then do
        print text
        pure true
      else do
        write text (← ofExcept (outputPath w o input))
    if !delivered then return 1
    else if o.validate then validate w o text
    else return 0

def journal? (w : World) (handlers : Log.Handlers) : Option Journal :=
  handlers.file.map fun file =>
    { touches := file.touches
      record := fun events store =>
        events.foldl
          (fun store e => (handlers.emit w.now e.record store).2) store }

def compile (w : World) (o : Options) (input : Path) : Run Nat := do
  if let some warning := extensionWarning? input then
    log w (.warned warning)
  let compiler : Compiler :=
    { options := o.renderOptions
      env := w.env
      journal := journal? w (← get).handlers }
  let compiled := compiler.compileFile (← get).store input
  logAll w compiled.log
  match compiled.result with
  | .error (.reported e) =>
    printError ("Error: " ++ e.message)
    return 1
  | .error (.unreported f) => fail f
  | .ok text =>
    logAll w (compiled.compiler.lint.map fun warning => .warned warning.message)
    finish w o input text

def perform (w : World) (o : Options) : Run Nat := do
  setupLog w o.logConfig
  let input :=
    (← ofExcept ((Path.ofString o.input).resolve? w.store.cwd)).toPath
  match (← get).store.find? input with
  | .error fault => fail (.file fault)
  | .ok none =>
    printError ("Error: Input file not found: " ++ input.text)
    return 1
  | .ok (some _) => compile w o input

end Run

structure Finished where
  result : Except Failure Nat
  session : Session

/-- Runs the command line that a world holds. -/
def World.run (w : World) : Finished :=
  let start : Session := { store := w.store, programs := w.programs }
  match Options.parse w.argv with
  | .error e =>
    { result := .ok e.code
      session := { start with stdout := e.stdout, stderr := e.stderr } }
  | .ok o =>
    let (result, session) := (Run.perform w o).run.run start
    { result, session }

end ServerConf.CommandLine
