import ServerConf.Rendering.Template

/-!
Going through a tree of statements. The leaves of statements are those found
through blocks and locations only, so a template's definition is one leaf,
whatever stands in its body.
-/

namespace ServerConf

theorem statementRecursion {motive : List Statement → Prop} (nil : motive [])
    (cons : ∀ s rest, motive s.children → motive rest → motive (s :: rest))
    (ss : List Statement) : motive ss :=
  match ss with
  | [] => nil
  | .block name args children position :: rest =>
    cons (.block name args children position) rest
      (statementRecursion nil cons children)
      (statementRecursion nil cons rest)
  | .location modifier paths children position :: rest =>
    cons (.location modifier paths children position) rest
      (statementRecursion nil cons children)
      (statementRecursion nil cons rest)
  | .definition name body opening position :: rest =>
    cons (.definition name body opening position) rest
      (statementRecursion nil cons body)
      (statementRecursion nil cons rest)
  | .directive name args position :: rest =>
    cons (.directive name args position) rest nil
      (statementRecursion nil cons rest)
  | .reference name position :: rest =>
    cons (.reference name position) rest nil (statementRecursion nil cons rest)
  | .importFile path position :: rest =>
    cons (.importFile path position) rest nil (statementRecursion nil cons rest)
  | .stray kind children :: rest =>
    cons (.stray kind children) rest nil (statementRecursion nil cons rest)

/-- The statements and all those below them, template bodies included. -/
def walkIn (ss : List Statement) : List Statement :=
  (outlineAll 0 ss).map Prod.snd

theorem Statement.outline_eq (s : Statement) (depth : Nat) :
    s.outline depth = (depth, s) :: outlineAll (depth + 1) s.children := by
  cases s <;> simp [outline, children, outlineAll]

theorem map_snd_outlineAll (ss : List Statement) :
    ∀ depth, (outlineAll depth ss).map Prod.snd = walkIn ss := by
  induction ss using statementRecursion with
  | nil => simp [walkIn, outlineAll]
  | cons s rest inside behind =>
      intro depth
      rw [walkIn, outlineAll, outlineAll, Statement.outline_eq,
        Statement.outline_eq]
      simp only [List.map_append, List.map_cons]
      rw [inside (depth + 1), inside (0 + 1), behind depth, behind 0]

@[simp] theorem walkIn_nil : walkIn [] = [] := rfl

theorem walkIn_cons (s : Statement) (rest : List Statement) :
    walkIn (s :: rest) = s :: (walkIn s.children ++ walkIn rest) := by
  rw [walkIn, outlineAll, Statement.outline_eq, List.map_append, List.map_cons,
    map_snd_outlineAll, map_snd_outlineAll]
  rfl

@[simp] theorem mem_walkIn_cons {t s : Statement} {rest : List Statement} :
    t ∈ walkIn (s :: rest) ↔ t = s ∨ t ∈ walkIn s.children ∨
      t ∈ walkIn rest := by
  simp [walkIn_cons]

theorem walkIn_append (first second : List Statement) :
    walkIn (first ++ second) = walkIn first ++ walkIn second := by
  induction first with
  | nil => rfl
  | cons s first induction => simp [walkIn_cons, induction]

theorem Document.walk_eq (d : Document) : d.walk = walkIn d.children := rfl

theorem walkIn_children_subset {s : Statement} {ss : List Statement}
    (member : s ∈ walkIn ss) :
    ∀ t ∈ walkIn s.children, t ∈ walkIn ss := by
  induction ss using statementRecursion with
  | nil => simp at member
  | cons first rest inside behind =>
      intro t below
      rw [mem_walkIn_cons] at member ⊢
      rcases member with rfl | member | member
      · exact .inr (.inl below)
      · exact .inr (.inl (inside member t below))
      · exact .inr (.inr (behind member t below))

mutual

def Statement.leaves : Statement → List Statement
  | .block _ _ children _ => leavesIn children
  | .location _ _ children _ => leavesIn children
  | s => [s]

def leavesIn : List Statement → List Statement
  | [] => []
  | s :: rest => s.leaves ++ leavesIn rest

end

@[simp] theorem leavesIn_nil : leavesIn [] = [] := by
  rw [leavesIn]

@[simp] theorem mem_leavesIn_cons {leaf s : Statement} {rest : List Statement} :
    leaf ∈ leavesIn (s :: rest) ↔ leaf ∈ s.leaves ∨ leaf ∈ leavesIn rest := by
  rw [leavesIn, List.mem_append]

theorem mem_walkIn_of_mem_leavesIn {leaf : Statement} {ss : List Statement}
    (member : leaf ∈ leavesIn ss) : leaf ∈ walkIn ss := by
  induction ss using statementRecursion with
  | nil => simp at member
  | cons s rest inside behind =>
      rw [mem_walkIn_cons]
      rw [mem_leavesIn_cons] at member
      rcases member with here | later
      · cases s with
        | block | location => exact .inr (.inl (inside here))
        | directive | definition | reference | importFile | stray =>
            exact .inl (List.mem_singleton.1 here)
      · exact .inr (.inr (behind later))

theorem collectedIn_append (first second : List Statement) :
    collectedIn (first ++ second) = collectedIn first ++
      collectedIn second := by
  induction first with
  | nil => rw [collectedIn, List.nil_append, List.nil_append]
  | cons s first induction =>
      rw [List.cons_append, collectedIn, collectedIn, induction,
        List.append_assoc]

theorem mem_collectedIn {name : String} {body ss : List Statement} :
    (name, body) ∈ collectedIn ss ↔
      ∃ opening position,
        .definition name body opening position ∈ leavesIn ss := by
  induction ss using statementRecursion with
  | nil => simp [collectedIn]
  | cons s rest inside behind =>
      rw [collectedIn, List.mem_append, behind]
      simp only [mem_leavesIn_cons, exists_or]
      apply or_congr_left
      cases s with
      | block | location => exact inside
      | definition => simp [Statement.collected, Statement.leaves]
      | directive | reference | importFile | stray =>
          simp [Statement.collected, Statement.leaves]

def Statement.isDefinition : Statement → Bool
  | .definition _ _ _ _ => true
  | _ => false

theorem length_collectedIn_le (ss : List Statement) :
    (collectedIn ss).length ≤ (walkIn ss).countP Statement.isDefinition := by
  induction ss using statementRecursion with
  | nil => simp [collectedIn]
  | cons s rest inside behind =>
      rw [collectedIn, walkIn_cons, List.length_append, List.countP_cons,
        List.countP_append]
      cases s with
      | block | location =>
          simp only [Statement.collected, Statement.children] at inside ⊢
          omega
      | definition => simp [Statement.collected, Statement.isDefinition]; omega
      | directive | reference | importFile | stray =>
          simp [Statement.collected]; omega

theorem Document.length_definitions (d : Document) :
    d.definitions.length =
      (walkIn d.children).countP Statement.isDefinition := by
  rw [definitions, List.length_filterMap_eq_countP, walk_eq]
  congr 1
  funext s
  cases s <;> rfl

theorem mem_leavesIn {leaf : Statement} {ss : List Statement} :
    leaf ∈ leavesIn ss ↔ ∃ s ∈ ss, leaf ∈ s.leaves := by
  induction ss with
  | nil => simp
  | cons s rest induction => simp [induction]

def Statement.inner : Statement → List Statement
  | .block _ _ children _ => children
  | .location _ _ children _ => children
  | _ => []

theorem Statement.leaves_subset_of_mem_inner {s t : Statement}
    (member : t ∈ s.inner) :
    ∀ leaf ∈ t.leaves, leaf ∈ s.leaves := by
  intro leaf below
  cases s with
  | block | location => exact mem_leavesIn.2 ⟨t, member, below⟩
  | directive | definition | reference | importFile | stray => cases member

/-- A location has a path, and nothing stands among statements that has no place
there. -/
def Statement.IsProper : Statement → Prop
  | .location _ paths _ _ => paths ≠ []
  | .stray _ _ => False
  | _ => True

/-- Every statement is built as it has to be, also in the bodies of
templates. -/
def Proper (ss : List Statement) : Prop :=
  ∀ s ∈ walkIn ss, s.IsProper

instance : DecidablePred Statement.IsProper
  | .location _ paths _ _ => inferInstanceAs (Decidable (paths ≠ []))
  | .stray _ _ => isFalse id
  | .directive ..
  | .block ..
  | .definition ..
  | .reference ..
  | .importFile .. => isTrue trivial

instance (ss : List Statement) : Decidable (Proper ss) :=
  inferInstanceAs (Decidable (∀ s ∈ walkIn ss, s.IsProper))

def ImportFree (ss : List Statement) : Prop :=
  ∀ path position, .importFile path position ∉ walkIn ss

theorem ImportFree.of_imports {d : Document} (none : d.imports = []) :
    ImportFree d.children := by
  intro path position member
  have found : (path, position) ∈ d.imports :=
    List.mem_filterMap.2 ⟨_, member, rfl⟩
  rw [none] at found
  cases found

theorem proper_cons {s : Statement} {rest : List Statement} :
    Proper (s :: rest) ↔ s.IsProper ∧ Proper s.children ∧ Proper rest := by
  simp only [Proper, mem_walkIn_cons, or_imp, forall_and, forall_eq]

theorem Proper.here {s : Statement} (proper : Proper [s]) : s.IsProper :=
  proper s (by simp)

theorem Proper.mono {first second : List Statement} (proper : Proper second)
    (subset : ∀ s ∈ walkIn first, s ∈ walkIn second) : Proper first :=
  fun s member => proper s (subset s member)

theorem ImportFree.mono {first second : List Statement}
    (free : ImportFree second)
    (subset : ∀ s ∈ walkIn first, s ∈ walkIn second) :
    ImportFree first :=
  fun path position member => free path position (subset _ member)

theorem walkIn_singleton_subset {s : Statement} {ss : List Statement}
    (member : s ∈ ss) :
    ∀ t ∈ walkIn [s], t ∈ walkIn ss := by
  induction ss with
  | nil => cases member
  | cons first rest induction =>
      intro t below
      rw [mem_walkIn_cons]
      rcases List.mem_cons.1 member with rfl | later
      · have here : t = s ∨ t ∈ walkIn s.children := by simpa using below
        exact here.imp_right .inl
      · exact .inr (.inr (induction later t below))

theorem walkIn_inner_subset {s t : Statement} (member : t ∈ s.inner) :
    ∀ u ∈ walkIn [t], u ∈ walkIn [s] := by
  intro u below
  have inside : u ∈ walkIn s.children := by
    cases s with
    | block | location => exact walkIn_singleton_subset member u below
    | directive | definition | reference | importFile | stray => cases member
  simp [inside]

theorem walkIn_body_subset {name : String} {body ss : List Statement}
    (member : (name, body) ∈ collectedIn ss) :
    ∀ s ∈ walkIn body, s ∈ walkIn ss := by
  obtain ⟨opening, position, member⟩ := mem_collectedIn.1 member
  exact walkIn_children_subset (mem_walkIn_of_mem_leavesIn member)

end ServerConf
