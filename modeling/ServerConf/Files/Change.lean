import ServerConf.Files.Store

/-!
Changes of the files. A change that fails keeps what it has done until then, so
directories made on the way stay.
-/

namespace ServerConf

abbrev Change := ExceptT Failure (StateM FileStore)

namespace Change

def on {α : Type} (change : Change α) (s : FileStore) :
    Except Failure α × FileStore :=
  change.run.run s

def refuse {α : Type} (kind : FaultKind) (p : Path) : Change α :=
  throw (.file ⟨kind, p.text⟩)

/-- Makes one directory, content with one that is there already. -/
def ensureDirectory (p : Path) : Change Unit := do
  let s ← get
  match s.makeDirectory p with
  | .ok made => set made
  | .error kind => if kind = .notFound || !s.isDirectory p then refuse kind p

/-- Makes a directory and those above it; the components are listed
backwards. -/
def ensureDirectoriesFrom (root : Root) : List String → Change Unit
  | [] => pure ()
  | part :: above => do
    let p : Path := ⟨root, (part :: above).reverse⟩
    match (← get).makeDirectory p with
    | .error .notFound => ensureDirectoriesFrom root above
    | _ => pure ()
    ensureDirectory p

def ensureDirectories (p : Path) : Change Unit := do
  if p.hasNull then throw .nullInPath
  ensureDirectoriesFrom p.root p.parts.reverse

def write (p : Path) (bytes : ByteArray) : Change Unit := do
  if p.hasNull then throw .nullInPath
  if p.parts.isEmpty then refuse .isDirectory p
  let s ← get
  match s.target p with
  | .error kind => refuse kind p
  | .ok (directory, name) =>
    if name = ".." || s.get? (directory.child name) = some .directory then
      refuse .isDirectory p
    set (s.insert (directory.child name) (.file bytes))

def put (p : Path) (bytes : ByteArray) : Change Unit := do
  ensureDirectories p.parent
  write p bytes

def remove (p : Path) : Change Unit := do
  if p.hasNull then throw .nullInPath
  let s ← get
  match s.lookup p with
  | .ok (a, .file _) => set (s.erase a)
  | .ok (_, .directory) => refuse .isDirectory p
  | .error kind => refuse kind p

end Change

end ServerConf
