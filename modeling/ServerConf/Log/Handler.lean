import ServerConf.Files.Change
import ServerConf.Log.Layout

/-!
Where log records go: to the console, and to a file that is put aside when it
grows too large.
-/

namespace ServerConf.Log

structure Config where
  consoleLevel : String := "warning"
  consoleColors : Bool := true
  fileEnabled : Bool := false
  filePath : String := "ncl-gen.log"
  fileLevel : String := "debug"
  fileMaxBytes : Int := 1024 * 1024
  fileBackupCount : Int := 3
  format : String := "%(asctime)s [%(levelname)s] %(name)s: %(message)s"
  dateFormat : String := "%Y-%m-%d %H:%M:%S"
  deriving DecidableEq, Repr

/-- Without a formatter, no record can be written in the format asked for. -/
structure ConsoleHandler where
  level : Level
  formatter : Option Formatter
  deriving DecidableEq, Repr

/-- A file of at most `maxBytes` bytes, zero meaning any number, with `backups`
earlier ones. -/
structure FileHandler where
  level : Level
  formatter : Option Formatter
  file : Address
  maxBytes : Int
  backups : Nat
  deriving DecidableEq, Repr

structure Handlers where
  console : Option ConsoleHandler := none
  file : Option FileHandler := none
  deriving DecidableEq, Repr

/-- Where an absolute path leads lexically, written with the slashes it began
with. -/
def absoluteText (p : Path) (cwd : Address) : String :=
  let root := if p.root = .double then Root.double else Root.single
  Path.text ⟨root, (p.resolve cwd).parts⟩

/-- Opens a log file for appending, so that it is there from now on. -/
def openFile (p : Path) : Change Unit := do
  Change.ensureDirectories p.parent
  if p.hasNull then throw .nullInPath
  let store ← get
  let a := p.resolve store.cwd
  match store.get? a with
  | some (.file _) => pure ()
  | some .directory => throw (.file ⟨.isDirectory, absoluteText p store.cwd⟩)
  | none =>
    try Change.write a.toPath ByteArray.empty
    catch
      | .file fault =>
        throw (.file { fault with path := absoluteText p store.cwd })
      | other => throw other

/-- The handlers for a layout, and what comes of opening the file. The console
is there even if the file fails. -/
def install (config : Config) (layout : Option Layout) (terminal : Bool)
    (store : FileStore) : Handlers × Except Failure Unit × FileStore :=
  let colors := config.consoleColors && terminal
  let console : ConsoleHandler :=
    ⟨Level.ofWord config.consoleLevel, layout.map (.colored · colors)⟩
  let path := Path.ofString config.filePath
  let file : FileHandler :=
    ⟨Level.ofWord config.fileLevel, layout.map .plain, path.resolve store.cwd,
      config.fileMaxBytes, config.fileBackupCount.toNat⟩
  if config.fileEnabled then
    match (openFile path).on store with
    | (.error f, store) => ({ console := some console }, .error f, store)
    | (.ok (), store) =>
      ({ console := some console, file := some file }, .ok (), store)
  else
    ({ console := some console }, .ok (), store)

/-- Installs the handlers of a configuration in place of earlier ones. -/
def setup (config : Config) (terminal : Bool) (store : FileStore) :
    Handlers × Except Failure Unit × FileStore :=
  if Layout.accepts config.format then
    install config (Layout.ofFormat? config.format config.dateFormat) terminal
      store
  else
    ({}, .error (.invalidFormat config.format), store)

def contents (store : FileStore) (a : Address) : ByteArray :=
  match store.get? a with
  | some (.file bytes) => bytes
  | _ => ByteArray.empty

def backup (file : Address) (n : Nat) : Address :=
  file.parent.child (file.parts.getLastD "" ++ "." ++ toString n)

def move (store : FileStore) (source target : Address) : FileStore :=
  if (store.get? source).isSome then store.relocate source target else store

/-- Each backup takes the next number, the last one goes, and a new file is
begun. -/
def rotate (store : FileStore) (file : Address) : Nat → FileStore
  | 0 => (move store file (backup file 1)).insert file (.file ByteArray.empty)
  | n + 1 =>
    rotate (move store (backup file (n + 1)) (backup file (n + 2))) file n

def FileHandler.append (h : FileHandler) (store : FileStore) (text : String) :
    FileStore :=
  let size := (contents store h.file).size
  let full := 0 < h.maxBytes && h.maxBytes ≤ size + text.length
  let store := match full, h.backups with
    | true, n + 1 => rotate store h.file n
    | _, _ => store
  store.insert h.file (.file (contents store h.file ++ Text.Utf8.encode text))

/-- The addresses that the handler may write to or move away. -/
def FileHandler.touches (h : FileHandler) (a : Address) : Bool :=
  let kept := (List.range h.backups).map fun n => backup h.file (n + 1)
  (h.file :: kept).any fun file => file.parts.isPrefixOf a.parts

/-- The logger stands below the root logger, where the handlers are. -/
def isHandled (logger : String) : Bool :=
  logger = rootLogger || (rootLogger ++ ".").toList.isPrefixOf logger.toList

/-- What a line is written as, if it can be, and the line after that. -/
def writeLine (formatter : Option Formatter) (now : Moment) (line : Line) :
    Option String × Line :=
  match formatter with
  | none => (none, line)
  | some formatter =>
    let (outcome, after) := formatter.format now line
    (outcome.toOption.map (· ++ "\n"), after)

/-- What a record prints on the console, and the files after it. A record that
no handler is there for is printed bare if it is a warning at least. -/
def Handlers.emit (handlers : Handlers) (now : Moment) (record : Record)
    (store : FileStore) : String × FileStore :=
  match isHandled record.logger, handlers.console with
  | true, some console =>
    if record.level < Level.debug then ("", store)
    else
      let (printed, line) :=
        if console.level ≤ record.level then
          writeLine console.formatter now record.line
        else
          (none, record.line)
      let written := handlers.file.bind fun file =>
        if file.level ≤ record.level then
          (writeLine file.formatter now line).1.map (file.append store)
        else
          none
      (printed.getD "", written.getD store)
  | _, _ =>
    if Level.warning ≤ record.level then (record.message ++ "\n", store)
    else ("", store)

end ServerConf.Log
