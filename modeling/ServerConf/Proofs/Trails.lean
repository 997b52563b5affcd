import Mathlib.Data.List.Chain
import Mathlib.Data.Set.Finite.Basic
import Mathlib.Logic.Relation
import Mathlib.Order.WellFounded

/-!
Ways through a graph, for templates that refer to each other and for files
that import each other. A vertex is grounded if everything it leads to is there
and no way from it goes on forever; where only finitely many vertices are
reached, that is to say that none of them leads back to itself.
-/

namespace ServerConf

section Graph

variable {α : Type} {edge : α → α → Prop} {present : α → Prop} {a b : α}

structure Grounded (edge : α → α → Prop) (present : α → Prop) (a : α) :
    Prop where
  acc : Acc (fun b a => edge a b) a
  present : ∀ b, Relation.ReflTransGen edge a b → present b

theorem Grounded.intro
    (here : present a)
    (next : ∀ b, edge a b → Grounded edge present b) :
    Grounded edge present a := by
  refine ⟨.intro a fun b step => (next b step).acc, ?_⟩
  intro b path
  rcases Relation.ReflTransGen.cases_head path with rfl | ⟨c, step, path⟩
  · exact here
  · exact (next c step).present b path

theorem Grounded.trans (grounded : Grounded edge present a)
    (path : Relation.ReflTransGen edge a b) : Grounded edge present b := by
  induction path with
  | refl => exact grounded
  | tail _ step induction =>
      exact ⟨induction.acc.inv step,
        fun c path => induction.present c (path.head step)⟩

theorem Grounded.acyclic (grounded : Grounded edge present a) :
    ¬ Relation.TransGen edge a a := by
  have acc := grounded.acc
  clear grounded
  induction acc with
  | intro a _ induction =>
      intro cycle
      obtain ⟨b, step, path⟩ := (Relation.TransGen.head'_iff).1 cycle
      exact induction b step (Relation.TransGen.tail' path step)

theorem Grounded.of_acyclic
    (finite : {b | Relation.ReflTransGen edge a b}.Finite)
    (acyclic : ∀ b, Relation.ReflTransGen edge a b →
      ¬ Relation.TransGen edge b b)
    (all : ∀ b, Relation.ReflTransGen edge a b → present b) :
    Grounded edge present a := by
  let Vertex := {b // Relation.ReflTransGen edge a b}
  have : Finite Vertex := finite
  have : IsTrans Vertex fun c b => Relation.TransGen edge b.1 c.1 :=
    ⟨fun _ _ _ first second => second.trans first⟩
  have : Std.Irrefl fun (c b : Vertex) => Relation.TransGen edge b.1 c.1 :=
    ⟨fun b => acyclic b.1 b.2⟩
  have wellFounded :
      WellFounded fun (c b : Vertex) => Relation.TransGen edge b.1 c.1 :=
    Finite.wellFounded_of_trans_of_irrefl _
  refine ⟨?_, all⟩
  suffices ∀ b : Vertex, Acc (fun c b => edge b c) b.1 from this ⟨a, .refl⟩
  intro b
  induction b using wellFounded.induction with
  | _ b induction =>
      exact .intro b.1 fun c step => induction ⟨c, b.2.tail step⟩ (.single step)

theorem transGen_of_isChain {vertices : List α} :
    ∀ {a}, List.IsChain edge (a :: (vertices ++ [b])) →
      Relation.TransGen edge a b := by
  induction vertices with
  | nil =>
      intro a chain
      exact .single (List.isChain_cons_cons.1 chain).1
  | cons c vertices induction =>
      intro a chain
      obtain ⟨step, chain⟩ := List.isChain_cons_cons.1 chain
      exact .head step (induction chain)

variable {starts : α → Prop} {vertices : List α}

def Reached (starts : α → Prop) (edge : α → α → Prop) (b : α) : Prop :=
  ∃ a, starts a ∧ Relation.ReflTransGen edge a b

structure Trail (starts : α → Prop) (edge : α → α → Prop) (vertices : List α) :
    Prop where
  begins : ∀ first ∈ vertices.head?, starts first
  chain : List.IsChain edge vertices

theorem Trail.nil : Trail starts edge [] :=
  ⟨by simp, .nil⟩

theorem Trail.start (here : starts a) : Trail starts edge [a] :=
  ⟨by simp [here], .singleton a⟩

theorem Trail.append
    (trail : Trail starts edge (vertices ++ [a]))
    (step : edge a b) :
    Trail starts edge (vertices ++ [a] ++ [b]) := by
  constructor
  · intro first member
    apply trail.begins
    rw [List.head?_append_of_ne_nil _ (by simp)] at member
    exact member
  · refine trail.chain.append (.singleton _) ?_
    intro last isLast next isNext
    simp only [List.getLast?_append, List.getLast?_singleton, Option.some_or,
      Option.mem_def, Option.some.injEq, List.head?_cons] at isLast isNext
    subst isLast isNext
    exact step

theorem Trail.reached (trail : Trail starts edge (vertices ++ [a])) :
    Reached starts edge a := by
  cases vertices with
  | nil => exact ⟨a, trail.begins a rfl, .refl⟩
  | cons first vertices =>
      exact ⟨first, trail.begins first rfl,
        (transGen_of_isChain trail.chain).to_reflTransGen⟩

theorem Trail.cycle
    (trail : Trail starts edge (vertices ++ [a]))
    (again : a ∈ vertices) :
    Relation.TransGen edge a a := by
  obtain ⟨before, after, rfl⟩ := List.append_of_mem again
  have chain := trail.chain
  rw [List.append_assoc] at chain
  exact transGen_of_isChain chain.right_of_append

end Graph

end ServerConf
