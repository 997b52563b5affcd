import ServerConf.Text.Join
import ServerConf.Text.Quoted

/-!
POSIX paths. A path is read once into its components; empty components and `.`
vanish, `..` stays. An address is where a path leads when every `..` is taken
back lexically, from the root.
-/

namespace ServerConf

/-- How a path begins: nowhere in particular, at `/`, or at `//`, which is kept
apart. -/
inductive Root where
  | relative
  | single
  | double
  deriving DecidableEq, Repr

structure Path where
  root : Root
  parts : List String
  deriving DecidableEq, Repr

/-- The components from the root to a place in the file system. -/
structure Address where
  parts : List String
  deriving DecidableEq, Repr

def Root.text : Root → String
  | .relative => ""
  | .single => "/"
  | .double => "//"

namespace Path

def splitSlash : List Char → List (List Char)
  | [] => [[]]
  | c :: rest =>
    if c = '/' then [] :: splitSlash rest
    else
      match splitSlash rest with
      | [] => [[c]]
      | part :: parts => (c :: part) :: parts

def rootOf : List Char → Root
  | '/' :: '/' :: '/' :: _ => .single
  | '/' :: '/' :: _ => .double
  | '/' :: _ => .single
  | _ => .relative

def isComponent (part : List Char) : Bool :=
  part != [] && part != ['.']

def ofString (s : String) : Path :=
  ⟨rootOf s.toList,
    ((splitSlash s.toList).filter isComponent).map String.ofList⟩

def text (p : Path) : String :=
  match p.root, p.parts with
  | .relative, [] => "."
  | root, parts => root.text ++ Text.joinWith "/" parts

def isAbsolute (p : Path) : Bool :=
  p.root != .relative

/-- The last component, or nothing for a path without components. -/
def name (p : Path) : String :=
  p.parts.getLastD ""

def parent (p : Path) : Path :=
  { p with parts := p.parts.dropLast }

def join (base p : Path) : Path :=
  if p.isAbsolute then p else { base with parts := base.parts ++ p.parts }

def splitName (name : List Char) : List Char × List Char :=
  let tail := name.reverse.takeWhile (· ≠ '.')
  match name.reverse.dropWhile (· ≠ '.') with
  | [] => (name, [])
  | dot :: stem => (stem.reverse, dot :: tail.reverse)

/-- The name up to its suffix, and the suffix with its dot. A dot at either end
of the name begins no suffix. -/
def stemAndSuffix (p : Path) : String × String :=
  match splitName p.name.toList with
  | (_ :: _, _ :: _ :: _) =>
    let parts := splitName p.name.toList
    (String.ofList parts.1, String.ofList parts.2)
  | _ => (p.name, "")

def suffix (p : Path) : String :=
  p.stemAndSuffix.2

/-- Gives the last component another name; a path without components has none to
change. -/
def withName? (p : Path) (name : String) : Option Path :=
  if p.parts.isEmpty then none
    else some { p with parts := p.parts.dropLast ++ [name] }

def hasNull (p : Path) : Bool :=
  p.text.toList.contains '\x00'

/-- Takes back one component for each `..`; above the root there is only the
root. -/
def climb (above : List String) : List String → List String
  | [] => above.reverse
  | part :: parts =>
    if part = ".." then climb above.tail parts else climb (part :: above) parts

def resolve (p : Path) (start : Address) : Address :=
  ⟨climb [] ((if p.isAbsolute then [] else start.parts) ++ p.parts)⟩

end Path

namespace Address

def toPath (a : Address) : Path :=
  ⟨.single, a.parts⟩

def text (a : Address) : String :=
  a.toPath.text

def parent (a : Address) : Address :=
  ⟨a.parts.dropLast⟩

def child (a : Address) (name : String) : Address :=
  ⟨a.parts ++ [name]⟩

/-- The address that takes the same way from `target` as this one takes from
`source`; one that is not below `source` stays. -/
def rebase (a source target : Address) : Address :=
  if source.parts.isPrefixOf a.parts then
    ⟨target.parts ++ a.parts.drop source.parts.length⟩
  else a

end Address

end ServerConf
