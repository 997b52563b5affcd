import ServerConf.Files.Path

/-!
Symbolic links. A link stands at an address and holds a path, which starts in
the directory of the link. The links of a file system are listed such that each
one leads only through links further down the list, so they make no loops.
-/

namespace ServerConf

/-- Follows components from a directory. Where there is a link, `leads` says
what place it leads to. -/
def Address.follow (leads : Address → Option Address) (a : Address) :
    List String → Address
  | [] => a
  | part :: rest =>
    if part = ".." then a.parent.follow leads rest
    else ((leads (a.child part)).getD (a.child part)).follow leads rest

def Path.linkStart (target : Path) (a : Address) : Address :=
  if target.isAbsolute then ⟨[]⟩ else a.parent

namespace Links

/-- The place that the link at an address leads to, if there is one. -/
def leadsIn : List (Address × Path) → Address → Option Address
  | [], _ => none
  | (link, target) :: rest, a =>
    if link = a then
      some ((target.linkStart a).follow (leadsIn rest) target.parts)
    else
      leadsIn rest a

def isClear (table : List (Address × Path)) (a : Address) : Bool :=
  (List.range a.parts.length).all fun n =>
    (leadsIn table ⟨a.parts.take (n + 1)⟩).isNone

/-- No link is on the way to where a link leads. -/
def isSettled (table : List (Address × Path)) : Bool :=
  table.all fun (link, _) => (leadsIn table link).all (isClear table)

end Links

/-- The links of a file system. No link is on the way to where one of them
leads, and none holds a null character. -/
structure Links where
  table : List (Address × Path) := []
  settled : Links.isSettled table = true := by decide
  named : table.all (fun (_, target) => !target.hasNull) = true := by decide

namespace Links

protected def none : Links := {}

def leads (links : Links) (a : Address) : Option Address :=
  leadsIn links.table a

/-- Where a path leads from the directory `start`, past every link on the way
and whether there is anything or not. -/
def resolve (links : Links) (p : Path) (start : Address) : Address :=
  Address.follow links.leads ⟨[]⟩
    ((if p.isAbsolute then [] else start.parts) ++ p.parts)

/-- The last component of the path names a link. -/
def names (links : Links) (p : Path) (start : Address) : Bool :=
  (links.leads ((links.resolve p.parent start).child p.name)).isSome

end Links

end ServerConf
