namespace ServerConf

structure Position where
  line : Int
  column : Int
  deriving DecidableEq, Repr

namespace Position

def start : Position := ⟨1, 1⟩

def advance (p : Position) (c : Char) : Position :=
  if c = '\n' then ⟨p.line + 1, 1⟩ else ⟨p.line, p.column + 1⟩

def advanceBy (p : Position) (cs : List Char) : Position :=
  cs.foldl advance p

@[simp] theorem advanceBy_nil (p : Position) : p.advanceBy [] = p := rfl

@[simp] theorem advanceBy_cons (p : Position) (c : Char) (cs : List Char) :
    p.advanceBy (c :: cs) = (p.advance c).advanceBy cs := rfl

theorem advanceBy_append (p : Position) (cs ds : List Char) :
    p.advanceBy (cs ++ ds) = (p.advanceBy cs).advanceBy ds := by
  simp [advanceBy]

def locate (p : Position) (text : String) : String :=
  "Line " ++ toString p.line ++ ", column " ++ toString p.column ++ ": " ++ text

end Position

end ServerConf
