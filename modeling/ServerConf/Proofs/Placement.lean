import ServerConf.Document.Parse

/-!
The same things at other places. Two texts may lie differently to each other;
what is found in them corresponds when it is the same up to where it stands.
-/

namespace ServerConf

def Token.place (f : Position → Position) (t : Token) : Token :=
  { t with position := f t.position }

def ParseError.place (f : Position → Position) (e : ParseError) : ParseError :=
  ⟨e.complaint, e.token.place f⟩

def Failure.place (f : Position → Position) : Failure → Failure
  | .scan e => .scan ⟨f e.position⟩
  | .parse e => .parse (e.place f)
  | failure => failure

mutual

def Statement.place (f : Position → Position) : Statement → Statement
  | .directive name args position => .directive name args (f position)
  | .block name args children position =>
      .block name args (placeAll f children) (f position)
  | .location modifier paths children position =>
    .location modifier paths (placeAll f children) (f position)
  | .definition name body opening position =>
    .definition name (placeAll f body) (f opening) (f position)
  | .reference name position => .reference name (f position)
  | .importFile path position => .importFile path (f position)
  | .stray kind children => .stray kind (placeAll f children)

def placeAll (f : Position → Position) : List Statement → List Statement
  | [] => []
  | s :: rest => s.place f :: placeAll f rest

end

def Document.place (f : Position → Position) (d : Document) : Document :=
  ⟨placeAll f d.children, d.filename⟩

/-- What parsing comes to, at other places. -/
def Document.placed (f : Position → Position) :
    Except Failure Document → Except Failure Document
  | .ok d => .ok (d.place f)
  | .error failure => .error (failure.place f)

def Heading.place (f : Position → Position) : Heading → Heading
  | .block name args position => .block name args (f position)
  | .condition args position => .condition args (f position)
  | .location modifier paths position => .location modifier paths (f position)
  | .template name opening position => .template name (f opening) (f position)

def Item.place (f : Position → Position) : Item → Item
  | .leaf s => .leaf (s.place f)
  | .heading h => .heading (h.place f)

variable {f : Position → Position}

theorem placeAll_eq_map (ss : List Statement) :
    placeAll f ss = ss.map (Statement.place f) := by
  induction ss with
  | nil => rfl
  | cons s ss induction => rw [placeAll, induction, List.map_cons]

mutual

theorem Statement.place_id (s : Statement) : s.place id = s :=
  match s with
  | .directive _ _ _ | .reference _ _ | .importFile _ _ => rfl
  | .block _ _ children _ | .location _ _ children _ | .definition _
      children _ _
  | .stray _ children => by simp [Statement.place, placeAll_id children]

theorem placeAll_id (ss : List Statement) : placeAll id ss = ss :=
  match ss with
  | [] => rfl
  | s :: rest => by rw [placeAll, Statement.place_id s, placeAll_id rest]

end

theorem Heading.enclosure_place (h : Heading) :
    (h.place f).enclosure = h.enclosure := by
  cases h <;> rfl

theorem Heading.place_around (h : Heading) (children : List Statement) :
    (h.around children).place f = (h.place f).around (placeAll f children) := by
  cases h <;> rfl

/-- Where the line of a place begins. -/
def Position.lineStart (p : Position) : Position :=
  ⟨p.line, 1⟩

theorem Position.lineStart_eq_iff {p q : Position} :
    p.lineStart = q.lineStart ↔ p.line = q.line := by
  simp [lineStart]

/-- How the places of two texts correspond: they do when the two maps take them
to the same place. Lines keep their distance, and what corresponds goes on to do
so behind a further character. -/
structure Displacement where
  before : Position → Position
  after : Position → Position
  lines : Int
  line_eq : ∀ {p q}, before p = after q → q.line = p.line + lines
  advance : ∀ {p q} (c : Char), before p = after q →
    before (p.advance c) = after (q.advance c)

namespace Displacement

def none : Displacement where
  before := id
  after := id
  lines := 0
  line_eq := by
    rintro p q rfl
    simp
  advance := by
    rintro p q c rfl
    rfl

def sideways : Displacement where
  before := Position.lineStart
  after := Position.lineStart
  lines := 0
  line_eq := by
    intro p q same
    simp [Position.lineStart_eq_iff.1 same]
  advance := by
    intro p q c same
    rw [Position.lineStart_eq_iff] at same ⊢
    simp only [Position.advance]
    split <;> simp [same]

variable {δ : Displacement}

theorem advanceBy (cs : List Char) {p q : Position}
    (same : δ.before p = δ.after q) :
    δ.before (p.advanceBy cs) = δ.after (q.advanceBy cs) := by
  induction cs generalizing p q with
  | nil => exact same
  | cons c cs induction => exact induction (δ.advance c same)

end Displacement

namespace Token

variable {δ : Displacement} {t u : Token}

def Corresponds (δ : Displacement) (t u : Token) : Prop :=
  t.place δ.before = u.place δ.after

namespace Corresponds

theorem kind (same : Corresponds δ t u) : u.kind = t.kind :=
  (congrArg Token.kind same).symm

theorem value (same : Corresponds δ t u) : u.value = t.value :=
  (congrArg Token.value same).symm

theorem raw (same : Corresponds δ t u) : u.raw = t.raw :=
  (congrArg Token.raw same).symm

theorem position (same : Corresponds δ t u) :
    δ.before t.position = δ.after u.position :=
  congrArg Token.position same

theorem line (same : Corresponds δ t u) :
    u.position.line = t.position.line + δ.lines :=
  δ.line_eq same.position

end Corresponds

end Token

end ServerConf
