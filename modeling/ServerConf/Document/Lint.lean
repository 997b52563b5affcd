import ServerConf.Statement
import ServerConf.Text.Join

namespace ServerConf

inductive Warning where
  | redefined (name : String) (lines : List Int)
  | unused (name : String)
  deriving DecidableEq, Repr

def Warning.message : Warning → String
  | .redefined name lines =>
    "Template '" ++ name ++ "' is defined " ++ toString lines.length ++
      " times (lines " ++
      Text.joinWith ", " (lines.map toString) ++ "); the last one is used"
  | .unused name => "Template '" ++ name ++ "' is defined but never used"

namespace Document

/-- The names of all templates, each where it is first defined. -/
def templateNames (d : Document) : List String :=
  (d.definitions.map Prod.fst).eraseDups

def linesOf (definitions : List (String × Position)) (name : String) :
    List Int :=
  definitions.filterMap fun (other, position) =>
    if other = name then some position.line else none

def redefinitions (d : Document) : List Warning :=
  let definitions := d.definitions
  d.templateNames.filterMap fun name =>
    let lines := linesOf definitions name
    if 1 < lines.length then some (.redefined name lines) else none

/-- An imported file may use the templates of a document, so none counts as
unused when there are imports. -/
def unusedTemplates (d : Document) : List Warning :=
  let references := d.references
  if d.imports.isEmpty then
    d.templateNames.filterMap fun name =>
      if references.any (·.1 = name) then none else some (.unused name)
  else
    []

def lint (d : Document) : List Warning :=
  d.redefinitions ++ d.unusedTemplates

end Document

end ServerConf
