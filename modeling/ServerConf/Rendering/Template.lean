import ServerConf.Statement

/-!
The table of templates. A template that is defined again keeps its place and
takes the new body.
-/

namespace ServerConf

structure Templates where
  entries : List (String × List Statement) := []

namespace Templates

def empty : Templates := {}

def get? (table : Templates) (name : String) : Option (List Statement) :=
  table.entries.lookup name

def names (table : Templates) : List String :=
  table.entries.map Prod.fst

def setEntry (name : String) (body : List Statement) :
    List (String × List Statement) → List (String × List Statement)
  | [] => [(name, body)]
  | (other, old) :: rest =>
    if other = name then (name, body) :: rest
      else (other, old) :: setEntry name body rest

def insert (table : Templates) (name : String) (body : List Statement) :
    Templates :=
  ⟨setEntry name body table.entries⟩

def insertAll
    (table : Templates) (definitions : List (String × List Statement)) :
    Templates :=
  definitions.foldl (fun table (name, body) => table.insert name body) table

end Templates

mutual

/-- The templates that a statement defines, inside blocks and locations too, but
not inside the bodies of templates. -/
def Statement.collected : Statement → List (String × List Statement)
  | .definition name body _ _ => [(name, body)]
  | .block _ _ children _ => collectedIn children
  | .location _ _ children _ => collectedIn children
  | _ => []

def collectedIn : List Statement → List (String × List Statement)
  | [] => []
  | s :: rest => s.collected ++ collectedIn rest

end

def Templates.collect (table : Templates) (statements : List Statement) :
    Templates :=
  table.insertAll (collectedIn statements)

end ServerConf
