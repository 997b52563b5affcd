import ServerConf.Failure
import ServerConf.Files.Links
import ServerConf.Text.Lines

/-!
The file system as a value: directories and files by address, and the working
directory. Looking a path up walks it component by component, so a `..` needs
the directory before it to exist. Symbolic links are kept apart: paths can be
looked up through them, but nothing is written through them. There are no
permissions, and no other kinds of files.
-/

namespace ServerConf

inductive Entry where
  | directory
  | file (bytes : ByteArray)

instance : DecidableEq Entry
  | .directory, .directory => isTrue rfl
  | .directory, .file _ => isFalse nofun
  | .file _, .directory => isFalse nofun
  | .file left, .file right =>
    decidable_of_iff (left.data = right.data)
      ⟨fun equal => congrArg Entry.file (ByteArray.ext equal),
        fun equal => by cases equal; rfl⟩

/-- The root is a directory and is not listed. -/
structure FileStore where
  cwd : Address
  entries : List (Address × Entry)
  deriving DecidableEq

namespace FileStore

def get? (s : FileStore) (a : Address) : Option Entry :=
  if a.parts.isEmpty then some .directory else s.entries.lookup a

theorem mem_entries_of_get?
    {s : FileStore}
    {a : Address}
    {bytes : ByteArray}
    (here : s.get? a = some (.file bytes)) :
    (a, .file bytes) ∈ s.entries := by
  rw [get?] at here
  split at here
  · cases here
  · obtain ⟨before, after, same, _⟩ := List.lookup_eq_some_iff.1 here
    rw [same]
    simp

def insertInto (a : Address) (e : Entry) :
    List (Address × Entry) → List (Address × Entry)
  | [] => [(a, e)]
  | (b, f) :: rest =>
    if b = a then (a, e) :: rest else (b, f) :: insertInto a e rest

def insert (s : FileStore) (a : Address) (e : Entry) : FileStore :=
  { s with entries := insertInto a e s.entries }

def erase (s : FileStore) (a : Address) : FileStore :=
  { s with entries := s.entries.filter (·.1 ≠ a) }

/-- Moves what stands at an address, and everything below it, to another
address, in place of what stands there. -/
def relocate (s : FileStore) (source target : Address) : FileStore :=
  { s with
    entries := (s.erase target).entries.map fun (a, e) =>
      (a.rebase source target, e) }

def files (s : FileStore) : List (Address × ByteArray) :=
  s.entries.filterMap fun
    | (a, .file bytes) => some (a, bytes)
    | _ => none

/-- How many bytes the files hold together, with their addresses. -/
def byteCount (s : FileStore) : Nat :=
  s.files.foldr
    (fun file count => file.1.text.utf8ByteSize + file.2.size + count) 0

def nameLimit : Nat := 255

def pathLimit : Nat := 4096

def entryAt (s : FileStore) (a : Address) :
    Except FaultKind (Address × Entry) :=
  match s.get? a with
  | none => .error .notFound
  | some entry => .ok (a, entry)

/-- Walks from a directory to what the components name. Where there is a link,
`reach` says what comes of following it. -/
def walk (s : FileStore)
    (reach : Address → Option (Except FaultKind (Address × Entry)))
    (directory : List String) :
    List String → Except FaultKind (Address × Entry)
  | [] => .ok (⟨directory⟩, .directory)
  | part :: rest =>
    if part = ".." then s.walk reach directory.dropLast rest
    else if nameLimit < part.utf8ByteSize then .error .nameTooLong
    else
      let next : Address := ⟨directory ++ [part]⟩
      match (reach next).getD (s.entryAt next) with
      | .error kind => .error kind
      | .ok (a, .directory) => s.walk reach a.parts rest
      | .ok (a, .file bytes) =>
        if rest.isEmpty then .ok (a, .file bytes) else .error .notDirectory

/-- What comes of following the link at an address, if there is one. -/
def reachIn (s : FileStore) :
    List (Address × Path) → Address →
      Option (Except FaultKind (Address × Entry))
  | [], _ => none
  | (link, target) :: rest, a =>
    if link = a then
      some (s.walk (s.reachIn rest) (target.linkStart a).parts target.parts)
    else
      s.reachIn rest a

theorem eq_of_entryAt
    {s : FileStore}
    {a found : Address}
    {e : Entry}
    (stands : s.entryAt a = .ok (found, e)) :
    found = a ∧ s.get? a = some e := by
  rw [entryAt] at stands
  split at stands
  · cases stands
  · rename_i here
    cases stands
    exact ⟨rfl, here⟩

theorem walk_settled
    {s : FileStore}
    {parts : List String}
    (settled : ".." ∉ parts)
    {a : Address}
    {e : Entry} :
    ∀ {directory}, s.walk (s.reachIn []) directory parts = .ok (a, e) →
      a = ⟨directory ++ parts⟩ ∧
        (parts = [] ∧ e = .directory ∨ s.get? a = some e) := by
  induction parts with
  | nil =>
      intro directory walked
      cases walked
      exact ⟨by simp, .inl ⟨rfl, rfl⟩⟩
  | cons part rest induction =>
      intro directory walked
      have own : part ≠ ".." := fun same => settled (by simp [same])
      have later : ".." ∉ rest := fun member => settled (by simp [member])
      rw [walk, if_neg own] at walked
      split at walked
      · cases walked
      dsimp only [reachIn, Option.getD_none] at walked
      split at walked
      · cases walked
      · rename_i stands
        obtain ⟨rfl, here⟩ := eq_of_entryAt stands
        obtain ⟨rfl, ends⟩ := induction later walked
        refine ⟨by simp, .inr ?_⟩
        rcases ends with ⟨rfl, rfl⟩ | stored
        · simpa using here
        · exact stored
      · rename_i stands
        obtain ⟨rfl, here⟩ := eq_of_entryAt stands
        split at walked
        · rename_i last
          cases walked
          exact ⟨by rw [List.isEmpty_iff.1 last], .inr here⟩
        · cases walked

def lookup (s : FileStore) (p : Path) (links : Links := .none) :
    Except FaultKind (Address × Entry) :=
  if pathLimit ≤ p.text.utf8ByteSize then .error .nameTooLong
  else
    s.walk (s.reachIn links.table) (if p.isAbsolute then [] else s.cwd.parts)
      p.parts

/-- What stands at the path, if anything; only a name that is too long is a
fault. -/
def find? (s : FileStore) (p : Path) (links : Links := .none) :
    Except FileFault (Option Entry) :=
  if p.hasNull then .ok none
  else
    match s.lookup p links with
    | .ok (_, entry) => .ok (some entry)
    | .error .nameTooLong => .error ⟨.nameTooLong, p.text⟩
    | .error _ => .ok none

def read (s : FileStore) (p : Path) : Except Failure ByteArray :=
  if p.hasNull then .error .nullInPath
  else
    match s.lookup p with
    | .ok (_, .file bytes) => .ok bytes
    | .ok (_, .directory) => .error (.file ⟨.isDirectory, p.text⟩)
    | .error kind => .error (.file ⟨kind, p.text⟩)

/-- The text that bytes encode, with every line ended by a line feed. -/
def decodeText (bytes : ByteArray) : Except Failure String :=
  match Text.Utf8.decode bytes with
  | .ok cs => .ok (String.ofList (Text.foldNewlines cs))
  | .error fault => .error (.decode fault)

def readText (s : FileStore) (p : Path) : Except Failure String := do
  decodeText (← s.read p)

/-- The directory that is to hold the last component of a path, and that
component. -/
def target (s : FileStore) (p : Path) : Except FaultKind (Address × String) :=
  if pathLimit ≤ p.text.utf8ByteSize then .error .nameTooLong
  else
    match s.lookup p.parent with
    | .error kind => .error kind
    | .ok (_, .file _) => .error .notDirectory
    | .ok (directory, .directory) =>
      if nameLimit < p.name.utf8ByteSize then .error .nameTooLong
        else .ok (directory, p.name)

def makeDirectory (s : FileStore) (p : Path) : Except FaultKind FileStore :=
  if p.parts.isEmpty then .error .alreadyExists
  else
    match s.target p with
    | .error kind => .error kind
    | .ok (directory, name) =>
      if name = ".." then .error .alreadyExists
      else
        match s.get? (directory.child name) with
        | some _ => .error .alreadyExists
        | none => .ok (s.insert (directory.child name) .directory)

def isDirectory (s : FileStore) (p : Path) : Bool :=
  match s.lookup p with
  | .ok (_, .directory) => true
  | _ => false

/-- The files below the working directory, by their paths from there. -/
def ownFiles (s : FileStore) : List (String × ByteArray) :=
  s.files.filterMap fun (a, bytes) =>
    if s.cwd.parts.isPrefixOf a.parts then
      some (Text.joinWith "/" (a.parts.drop s.cwd.parts.length), bytes)
    else
      none

def ofDirectory (cwd : Address) : FileStore :=
  ⟨cwd, (List.range cwd.parts.length).map fun n =>
    (⟨cwd.parts.take (n + 1)⟩, .directory)⟩

end FileStore

end ServerConf
