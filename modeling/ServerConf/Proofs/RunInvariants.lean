import ServerConf.Proofs.Moments

/-!
What every moment of a run has in common. A property of the scope and one of
each statement left to be written are kept if looking a template or a file up
keeps them. If a run fails, it is the looking up that fails; if it succeeds,
everything that had to be looked up was found.
-/

namespace ServerConf

/-- The properties hold of every scope that is still to be gone back to, and of
the statements that are to be written in it. -/
def Task.Hold (S : Scope → Prop) (Q : Scope → Statement → Prop) :
    Scope → List Task → Prop
  | scope, [] => S scope
  | scope, .statements _ ss :: tasks =>
      (∀ s ∈ ss, Q scope s) ∧ Hold S Q scope tasks
  | scope, .statement _ s :: tasks => Q scope s ∧ Hold S Q scope tasks
  | scope, .line _ :: tasks => Hold S Q scope tasks
  | scope, .leave outer :: tasks => S scope ∧ Hold S Q outer tasks

namespace Task

variable {S : Scope → Prop} {Q : Scope → Statement → Prop} {scope : Scope}
  {tasks : List Task}

theorem Hold.here (hold : Hold S Q scope tasks) : S scope := by
  induction tasks with
  | nil => exact hold
  | cons task tasks induction =>
      cases task with
      | statements | statement => exact induction hold.2
      | line => exact induction hold
      | leave => exact hold.1

theorem hold_enclosed (options : RenderOptions) (depth : Nat) (header : String)
    (children : List Statement) :
    Hold S Q scope (enclosed options depth header children ++ tasks) ↔
      (∀ s ∈ children, Q scope s) ∧ Hold S Q scope tasks :=
  Iff.rfl

theorem hold_tasks {options : RenderOptions} {depth : Nat} {s : Statement}
    (inside : ∀ t ∈ s.inner, Q scope t)
    (hold : Hold S Q scope tasks) :
    Hold S Q scope (s.tasks options depth ++ tasks) := by
  cases s with
  | directive | definition | reference | importFile | stray => exact hold
  | block => exact ⟨inside, hold⟩
  | location modifier paths children position =>
      rw [Statement.tasks]
      induction paths with
      | nil => exact hold
      | cons path paths induction =>
          rw [List.flatMap_cons, List.append_assoc, hold_enclosed]
          exact ⟨inside, induction inside⟩

theorem hold_inside {options : RenderOptions} {depth : Nat} {s : Statement}
    (proper : s.IsProper)
    (hold : Hold S Q scope (s.tasks options depth ++ tasks)) :
    (∀ t ∈ s.inner, Q scope t) ∧ Hold S Q scope tasks := by
  cases s with
  | directive | definition | reference | importFile | stray =>
      exact ⟨by simp [Statement.inner], hold⟩
  | block => exact hold
  | location modifier paths children position =>
      obtain ⟨path, paths, rfl⟩ := List.exists_cons_of_ne_nil proper
      rw [Statement.tasks, List.flatMap_cons, List.append_assoc,
        hold_enclosed] at hold
      refine ⟨hold.1, ?_⟩
      replace hold := hold.2
      induction paths with
      | nil => exact hold
      | cons other paths induction =>
          rw [List.flatMap_cons, List.append_assoc, hold_enclosed] at hold
          exact induction (by simp [Statement.IsProper]) hold.2

end Task

structure Moment.Holds
    (I : Progress → Prop) (S : Scope → Prop) (Q : Scope → Statement → Prop)
    (m : Moment) :
    Prop where
  progress : I m.progress
  tasks : Task.Hold S Q m.scope m.tasks

namespace Site

/-- What a step has to keep: the property of a statement passes to those inside,
and looking up keeps all three. -/
structure Keeps (site : Site) (I : Progress → Prop) (S : Scope → Prop)
    (Q : Scope → Statement → Prop) : Prop where
  inside : ∀ {scope s}, Q scope s → ∀ t ∈ s.inner, Q scope t
  enter : ∀ {scope s progress later ss final}, s.opens site.options = true →
    I progress → S scope → Q scope s →
    (site.enter scope s).run.run progress = (.ok (later, ss), final) →
    I final ∧ S later ∧ ∀ t ∈ ss, Q later t

inductive Advances (site : Site) : Moment → Moment → Prop where
  | line {scope : Scope} {text : String} {tasks : List Task}
      {lines : List String} {progress : Progress} :
      Advances site ⟨scope, .line text :: tasks, lines, progress⟩
        ⟨scope, tasks, lines ++ [text], progress⟩
  | leave {scope outer : Scope} {tasks : List Task} {lines : List String}
      {progress : Progress} :
      Advances site ⟨scope, .leave outer :: tasks, lines, progress⟩ ⟨outer,
        tasks, lines, progress⟩
  | done {scope : Scope} {depth : Nat} {tasks : List Task} {lines : List String}
      {progress : Progress} :
      Advances site ⟨scope, .statements depth [] :: tasks, lines, progress⟩
        ⟨scope, tasks, lines, progress⟩
  | split {scope : Scope} {depth : Nat} {s : Statement} {rest : List Statement}
      {tasks : List Task} {lines : List String} {progress : Progress} :
      Advances site ⟨scope, .statements depth (s :: rest) :: tasks,
        lines, progress⟩
        ⟨scope, .statement depth s :: .statements depth rest :: tasks,
          lines, progress⟩
  | opened {scope inner : Scope} {depth : Nat} {s : Statement}
      {ss : List Statement} {tasks : List Task} {lines : List String}
      {progress final : Progress}
      (opens : s.opens site.options = true)
      (found :
        (site.enter scope s).run.run progress = (.ok (inner, ss), final)) :
      Advances site ⟨scope, .statement depth s :: tasks, lines, progress⟩
        ⟨inner, .statements depth ss :: .leave scope :: tasks, lines, final⟩
  | written {scope : Scope} {depth : Nat} {s : Statement} {tasks : List Task}
      {lines : List String} {progress : Progress}
      (closed : ¬ s.opens site.options = true) :
      Advances site ⟨scope, .statement depth s :: tasks, lines, progress⟩
        ⟨scope, s.tasks site.options depth ++ tasks, lines, progress⟩

section Run

variable {site : Site} {I : Progress → Prop} {S : Scope → Prop}
  {Q : Scope → Statement → Prop} {m later : Moment}

theorem Next.advances (next : site.Next m later) : site.Advances m later := by
  obtain ⟨scope, tasks, lines, progress⟩ := m
  cases tasks with
  | nil => cases next
  | cons task tasks =>
      cases task with
      | line =>
          cases next
          exact .line
      | leave =>
          cases next
          exact .leave
      | statements depth ss =>
          cases ss with
          | nil =>
              cases next
              exact .done
          | cons s rest =>
              cases next
              exact .split
      | statement depth s =>
          rw [Next, turn] at next
          split at next
          · rename_i opens
            split at next
            · rename_i found
              cases next
              exact .opened opens found
            · cases next
          · rename_i closed
            cases next
            exact .written closed

theorem turn_eq_finished
    {result : Except Failure (List String)} {final : Progress}
    (stopped : site.turn m = .finished result final) :
    (m.tasks = [] ∧ result = .ok m.lines) ∨
      ∃ depth s tasks failure, m.tasks = .statement depth s :: tasks ∧
        s.opens site.options = true ∧ result = .error failure ∧
        (site.enter m.scope s).run.run m.progress =
          (.error failure, final) := by
  obtain ⟨scope, tasks, lines, progress⟩ := m
  cases tasks with
  | nil =>
      cases stopped
      exact .inl ⟨rfl, rfl⟩
  | cons task tasks =>
      cases task with
      | line | leave => cases stopped
      | statements depth ss => cases ss <;> cases stopped
      | statement depth s =>
          rw [turn] at stopped
          split at stopped
          · rename_i opens
            split at stopped
            · cases stopped
            · rename_i found
              cases stopped
              exact .inr ⟨depth, s, tasks, _, rfl, opens, rfl, found⟩
          · cases stopped

theorem Keeps.next
    (keeps : site.Keeps I S Q)
    (holds : m.Holds I S Q)
    (next : site.Next m later) :
    later.Holds I S Q := by
  obtain ⟨kept, hold⟩ := holds
  cases next.advances with
  | line => exact ⟨kept, hold⟩
  | leave | done => exact ⟨kept, hold.2⟩
  | split =>
      obtain ⟨here, behind⟩ := List.forall_mem_cons.1 hold.1
      exact ⟨kept, here, behind, hold.2⟩
  | opened opens found =>
      obtain ⟨kept, inner, statements⟩ :=
        keeps.enter opens kept hold.2.here hold.1 found
      exact ⟨kept, statements, inner, hold.2⟩
  | written => exact ⟨kept, Task.hold_tasks (keeps.inside hold.1) hold.2⟩

theorem Keeps.steps
    (keeps : site.Keeps I S Q)
    (holds : m.Holds I S Q)
    (steps : site.Steps m later) :
    later.Holds I S Q := by
  induction steps with
  | refl => exact holds
  | tail _ next induction => exact keeps.next induction next

theorem Keeps.exists_failure
    (keeps : site.Keeps I S Q)
    (holds : m.Holds I S Q)
    {failure : Failure} {final : Progress}
    (ends : site.Ends m (.error failure) final) :
    ∃ scope s progress, s.opens site.options = true ∧ I progress ∧ S scope ∧
      Q scope s ∧
      (site.enter scope s).run.run progress = (.error failure, final) := by
  obtain ⟨last, steps, stopped⟩ := ends
  obtain ⟨kept, hold⟩ := keeps.steps holds steps
  rcases turn_eq_finished stopped with
    ⟨_, same⟩ | ⟨depth, s, tasks, _, left, opens, same, failed⟩
  · cases same
  · cases same
    rw [left] at hold
    exact ⟨last.scope, s, last.progress, opens, kept, hold.2.here,
      hold.1, failed⟩

/-- In a run that succeeds everything was looked up that had to be. A property
of what leads to other statements, which is shown from what these lead to, holds
of all of them. -/
theorem Keeps.of_success
    (keeps : site.Keeps I S Q)
    (holds : m.Holds I S Q)
    (proper : ∀ {scope s}, Q scope s → s.IsProper)
    {G : Scope → Statement → Prop}
    (shows : ∀ {scope s progress later ss final}, s.opens site.options = true →
      I progress → S scope → Q scope s → (site.enter scope s).run.run progress =
      (.ok (later, ss), final) → (∀ leaf ∈ leavesIn ss,
      leaf.opens site.options = true → G later leaf) → G scope s)
    {lines : List String} {final : Progress}
    (ends : site.Ends m (.ok lines) final) :
    Task.Hold (fun _ => True)
      (fun scope s => ∀ leaf ∈ s.leaves, leaf.opens site.options = true →
        G scope leaf)
      m.scope m.tasks := by
  obtain ⟨last, steps, stopped⟩ := ends
  -- From the last moment backwards: what a task of a moment demands is shown
  -- by the next one.
  induction steps using Relation.ReflTransGen.head_induction_on with
  | refl =>
      rcases turn_eq_finished stopped with
        ⟨none, _⟩ | ⟨_, _, _, _, _, _, same, _⟩
      · rw [none]
        trivial
      · cases same
  | @head m later next _ induction =>
      have shown := induction (keeps.next holds next)
      obtain ⟨kept, hold⟩ := holds
      cases next.advances with
      | line => exact shown
      | leave => exact ⟨trivial, shown⟩
      | done => exact ⟨by simp, shown⟩
      | split => exact ⟨List.forall_mem_cons.2 ⟨shown.1, shown.2.1⟩, shown.2.2⟩
      | @opened scope inner depth s ss tasks lines progress final opens found =>
          refine ⟨?_, shown.2.2⟩
          intro leaf member _
          obtain rfl : leaf = s := by
            cases s with
            | block | location => cases opens
            | directive | definition | reference | importFile | stray =>
                exact List.mem_singleton.1 member
          refine shows opens kept hold.2.here hold.1 found ?_
          intro leaf member
          obtain ⟨t, among, below⟩ := mem_leavesIn.1 member
          exact shown.1 t among leaf below
      | @written scope depth s tasks lines progress closed =>
          obtain ⟨inside, behind⟩ := Task.hold_inside (proper hold.1) shown
          refine ⟨?_, behind⟩
          intro leaf member opens
          cases s with
          | block | location =>
              obtain ⟨t, among, below⟩ := mem_leavesIn.1 member
              exact inside t among leaf below opens
          | directive | definition | reference | importFile | stray =>
              obtain rfl := List.mem_singleton.1 member
              exact absurd opens closed

end Run

end Site

end ServerConf
