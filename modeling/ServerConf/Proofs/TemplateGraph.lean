import Mathlib.Data.Set.Finite.List
import ServerConf.Proofs.RunInvariants
import ServerConf.Proofs.TemplateTable
import ServerConf.Proofs.Trails

/-!
Which templates lead to which, and what it takes to expand those that statements
lead to.
-/

namespace ServerConf

section References

variable {find : String → Option (List Statement)} {ss : List Statement}
  {name other : String}

def RefersTo (ss : List Statement) (name : String) : Prop :=
  ∃ position, .reference name position ∈ leavesIn ss

theorem RefersTo.of_mem {s : Statement}
    (member : s ∈ ss)
    (refers : RefersTo [s] name) :
    RefersTo ss name := by
  obtain ⟨position, inside⟩ := refers
  exact ⟨position, mem_leavesIn.2 ⟨s, member, by simpa using inside⟩⟩

theorem RefersTo.of_rest {s : Statement} (refers : RefersTo ss name) :
    RefersTo (s :: ss) name := by
  obtain ⟨position, inside⟩ := refers
  exact ⟨position, mem_leavesIn_cons.2 (.inr inside)⟩

theorem RefersTo.of_inside {s : Statement} (refers : RefersTo s.inner name) :
    RefersTo (s :: ss) name := by
  obtain ⟨position, inside⟩ := refers
  obtain ⟨t, member, below⟩ := mem_leavesIn.1 inside
  exact ⟨position, mem_leavesIn_cons.2
    (.inl (Statement.leaves_subset_of_mem_inner member _ below))⟩

theorem RefersTo.of_inner {s t : Statement}
    (member : t ∈ s.inner)
    (refers : RefersTo [t] name) :
    RefersTo [s] name :=
  (refers.of_mem member).of_inside

/-- The template has a body that refers to the other one. -/
def Refers (find : String → Option (List Statement)) (name other : String) :
    Prop :=
  ∃ body, find name = some body ∧ RefersTo body other

/-- The statements refer to the template, or to one that leads to it. -/
def Reaches (find : String → Option (List Statement)) (ss : List Statement) :
    String → Prop :=
  Reached (RefersTo ss) (Refers find)

/-- Every template that is reached is defined, and none of them leads to
itself. -/
structure Expandable
    (find : String → Option (List Statement)) (ss : List Statement) :
    Prop where
  defined : ∀ name, Reaches find ss name → (find name).isSome
  acyclic : ∀ name, Reaches find ss name →
    ¬ Relation.TransGen (Refers find) name name

theorem Expandable.congr {others : List Statement}
    (expandable : Expandable find ss)
    (same : ∀ name, RefersTo others name ↔ RefersTo ss name) :
    Expandable find others := by
  have reached : ∀ name, Reaches find others name → Reaches find ss name :=
    fun _ ⟨first, refers, path⟩ => ⟨first, (same first).1 refers, path⟩
  exact ⟨fun name found => expandable.defined name (reached name found),
    fun name found => expandable.acyclic name (reached name found)⟩

def Sound (find : String → Option (List Statement)) : String → Prop :=
  Grounded (Refers find) fun name => (find name).isSome

theorem Expandable.of_sound
    (sound : ∀ name, RefersTo ss name → Sound find name) :
    Expandable find ss := by
  constructor
  · rintro name ⟨first, refers, path⟩
    exact (sound first refers).present name path
  · rintro name ⟨first, refers, path⟩
    exact ((sound first refers).trans path).acyclic

theorem Expandable.sound {names : List String}
    (listed : ∀ name, (find name).isSome → name ∈ names)
    (expandable : Expandable find ss)
    (refers : RefersTo ss name) :
    Sound find name := by
  refine .of_acyclic ?_
    (fun other path => expandable.acyclic other ⟨name, refers, path⟩)
    fun other path => expandable.defined other ⟨name, refers, path⟩
  refine (List.finite_toSet names).subset ?_
  intro other path
  exact listed other (expandable.defined other ⟨name, refers, path⟩)

theorem isSome_lastDefinition (ss : List Statement) (name : String)
    (defined : (lastDefinition ss name).isSome) :
    name ∈ (collectedIn ss).map Prod.fst := by
  obtain ⟨body, found⟩ := Option.isSome_iff_exists.1 defined
  exact List.mem_map.2 ⟨_, mem_collectedIn_of_lastDefinition found, rfl⟩

end References

end ServerConf
