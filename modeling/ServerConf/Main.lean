import ServerConf.CommandLine.Session
import Std.Time.Format

/-!
The command line. It takes a picture of the files that a run may ask for, lets
the run work on the picture, and carries out what the run has done.
-/

namespace ServerConf.CommandLine

def probe (a : Address) : IO (Option Entry) := do
  try
    let bytes ← IO.FS.readBinFile a.text
    return some (.file bytes)
  catch
    | .inappropriateType .. => return some .directory
    | _ => return none

/-- Adds to a picture what stands at an address and above it. -/
def addFrom (store : FileStore) (above : Address) : List String → IO FileStore
  | [] => return store
  | part :: rest => do
    let a := above.child part
    match ← probe a with
    | some .directory => addFrom (store.insert a .directory) a rest
    | some entry => return store.insert a entry
    | none => return store

def addPath (store : FileStore) (path : String) : IO FileStore :=
  addFrom store ⟨[]⟩ ((Path.ofString path).resolve store.cwd).parts

/-- The variables that the files of a picture refer to, as they are set. -/
def environment (store : FileStore) : IO Environment := do
  let names := store.files.flatMap fun (_, bytes) =>
    match FileStore.decodeText bytes with
    | .error _ => []
    | .ok source =>
      ((Token.ofSource source).toOption.map Token.environmentNames).getD []
  let bindings ← names.eraseDups.filterMapM fun name => do
    return (← IO.getEnv name).map fun value => (name, value)
  return Environment.ofList bindings

/-- Adds every file that compiling the input asks for. -/
partial def addImports (o : Options) (input : Path) (store : FileStore) :
  IO FileStore := do
  let compiler : Compiler :=
    { options := o.renderOptions, env := ← environment store }
  match (compiler.compileFile store input).result with
  | .error (.reported (.unrendered _ (.render (.importNotFound path)))) =>
    let more ← addPath store path
    if more.entries.length = store.entries.length then return store
    else addImports o input more
  | _ => return store

def picture (o : Options) (cwd : Address) : IO FileStore := do
  let store := FileStore.ofDirectory cwd
  let store ← addPath store o.input
  let input := ((Path.ofString o.input).resolve cwd).toPath
  let store ← addPath store ((defaultOutput input).toOption.getD input).text
  let store ← addPath store ((o.output.bind Given.nonempty?).getD "")
  let store ← addPath store ((o.logFile.bind Given.nonempty?).getD "")
  addImports o input store

def carryOut (before after : FileStore) : IO Unit :=
  after.files.forM fun (a, bytes) => do
    if before.get? a ≠ some (.file bytes) then
      IO.FS.createDirAll a.parent.text
      IO.FS.writeBinFile a.text bytes

def now : IO Log.Moment := do
  let time ← Std.Time.PlainDateTime.now
  let field (format : String) : Nat := (time.format format).toNat?.getD 0
  return { year := field "uuuu", month := field "MM", day := field "dd"
           hour := field "HH", minute := field "mm", second := field "ss"
           millisecond := field "SSS" }

def runOnDisk (argv : List String) : IO UInt32 := do
  let cwd := (Path.ofString (← IO.currentDir).toString).resolve ⟨[]⟩
  let store ← match Options.parse argv with
    | .ok o => picture o cwd
    | .error _ => pure (FileStore.ofDirectory cwd)
  let stderr ← IO.getStderr
  let world : World :=
    { argv, store
      env := ← environment store
      terminal := ← stderr.isTty
      now := ← now }
  let finished := world.run
  carryOut store finished.session.store
  IO.print finished.session.stdout
  stderr.putStr finished.session.stderr
  match finished.result with
  | .ok code => return UInt32.ofNat code
  | .error f =>
    stderr.putStrLn f.message
    return 1

end ServerConf.CommandLine

def main (argv : List String) : IO UInt32 :=
  ServerConf.CommandLine.runOnDisk argv
