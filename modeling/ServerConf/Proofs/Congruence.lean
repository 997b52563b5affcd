import ServerConf.Proofs.Runs
import ServerConf.Proofs.StatementTrees

/-!
Comparing renderings part by part. Two renderings that are put together alike
are related if their parts are, for every relation that putting together keeps.
-/

namespace ServerConf.Rendering

structure Congruence (R : ∀ {α : Type}, Rendering α → Rendering α → Prop) :
    Prop where
  pure : ∀ {α : Type} (a : α), R (pure a : Rendering α) (pure a)
  fail : ∀ {α : Type} (failure : Failure),
    R (fail failure : Rendering α) (fail failure)
  bind : ∀ {α β : Type} {x y : Rendering α} {f g : α → Rendering β},
    R x y → (∀ a, R (f a) (g a)) → R (x >>= f) (y >>= g)

namespace Congruence

variable {R : ∀ {α : Type}, Rendering α → Rendering α → Prop}

theorem mapM
    (congruence : Congruence R)
    {α β : Type} {f g : α → Rendering β}
    (each : ∀ a, R (f a) (g a))
    (items : List α) :
    R (items.mapM f) (items.mapM g) := by
  induction items with
  | nil => exact congruence.pure []
  | cons item items induction =>
      rw [List.mapM_cons, List.mapM_cons]
      refine congruence.bind (each item) fun first => ?_
      exact congruence.bind induction fun others =>
        congruence.pure (first :: others)

section Parts

variable {options : RenderOptions} {handlers others : Handlers} {depth : Nat}

theorem linesOf_cons
    (congruence : Congruence R)
    {s t : Statement} {rest out : List Statement}
    (first : R (s.lines options handlers depth) (t.lines options others depth))
    (behind : R (linesOf options handlers depth rest)
      (linesOf options others depth out)) :
    R (linesOf options handlers depth (s :: rest))
      (linesOf options others depth (t :: out)) := by
  rw [linesOf, linesOf]
  exact congruence.bind first fun _ => congruence.bind behind fun _ =>
    congruence.pure _

theorem lines_block
    (congruence : Congruence R)
    {name : String} {args : List String} {children inner : List Statement}
    {position : Position}
    (inside : R (linesOf options handlers (depth + 1) children)
      (linesOf options others (depth + 1) inner)) :
    R ((Statement.block name args children position).lines options
      handlers depth)
      ((Statement.block name args inner position).lines options others
        depth) := by
  rw [Statement.lines, Statement.lines]
  exact congruence.bind inside fun _ => congruence.pure _

theorem lines_location
    (congruence : Congruence R)
    {modifier : Modifier} {paths : List String}
    {children inner : List Statement} {position : Position}
    (inside : R (linesOf options handlers (depth + 1) children)
      (linesOf options others (depth + 1) inner)) :
    R ((Statement.location modifier paths children position).lines options
      handlers depth)
      ((Statement.location modifier paths inner position).lines options others
        depth) := by
  rw [Statement.lines, Statement.lines]
  refine congruence.bind (congruence.mapM (fun path => ?_) paths) fun _ =>
    congruence.pure _
  exact congruence.bind inside fun _ => congruence.pure _

end Parts

theorem linesOf_of_leaves
    (congruence : Congruence R)
    {options : RenderOptions} {handlers others : Handlers} (ss : List Statement)
    (reference : ∀ depth name position, .reference name position ∈ leavesIn ss →
      R (handlers.reference depth name position)
      (others.reference depth name position))
    (importFile : ∀ depth path position, .importFile path position ∈ leavesIn
      ss → R (handlers.importFile depth path) (others.importFile depth path)) :
    ∀ depth, R (linesOf options handlers depth ss)
      (linesOf options others depth ss) := by
  induction ss using statementRecursion with
  | nil =>
      intro depth
      exact congruence.pure []
  | cons s rest inside behind =>
      intro depth
      simp only [mem_leavesIn_cons, or_imp, forall_and] at reference importFile
      apply congruence.linesOf_cons
      · cases s with
        | directive | definition => exact congruence.pure _
        | block =>
            exact congruence.lines_block (inside reference.1 importFile.1 _)
        | location =>
            exact congruence.lines_location (inside reference.1 importFile.1 _)
        | reference name position =>
            rw [Statement.lines, Statement.lines]
            split
            · exact reference.1 depth name position (by simp [Statement.leaves])
            · exact congruence.pure _
        | importFile path position =>
            exact importFile.1 depth path position (by simp [Statement.leaves])
        | stray => exact congruence.fail _
      · exact behind reference.2 importFile.2 depth

theorem linesOf
    (congruence : Congruence R)
    {options : RenderOptions} {handlers others : Handlers}
    (reference : ∀ depth name position, R (handlers.reference depth name
      position) (others.reference depth name position))
    (importFile : ∀ depth path,
      R (handlers.importFile depth path) (others.importFile depth path))
    (ss : List Statement) :
    ∀ depth,
      R (linesOf options handlers depth ss) (linesOf options others depth ss) :=
  congruence.linesOf_of_leaves ss
    (fun depth name position _ => reference depth name position)
    fun depth path _ _ => importFile depth path

end Congruence

end ServerConf.Rendering
