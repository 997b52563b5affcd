import Mathlib.Logic.Relation
import ServerConf.Proofs.Runs
import ServerConf.Proofs.StatementTrees
import ServerConf.Rendering.Site

/-!
A rendering as a run of small steps, each of which looks at most one template or
file up. Nothing in it bounds how many templates and files stand inside each
other. As long as the scope does not outgrow the levels of a rendering, the run
comes to the same result.
-/

namespace ServerConf

namespace Scope

def size (scope : Scope) : Nat :=
  scope.stack.length + scope.expanding.length

@[simp] theorem size_enterFile (scope : Scope) (a : Address) :
    (scope.enterFile a).size = scope.size + 1 := by
  simp [size, enterFile]
  omega

@[simp] theorem size_enterTemplate (scope : Scope) (name : String) :
    (scope.enterTemplate name).size = scope.size + 1 := by
  simp [size, enterTemplate]
  omega

end Scope

/-- Whether something has to be looked up before the statement is written. -/
def Statement.opens (options : RenderOptions) : Statement → Bool
  | .reference _ _ => options.expandTemplates
  | .importFile _ _ => true
  | .stray _ _ => true
  | _ => false

/-- What is left to do at a moment: to write statements, one or more, or a line,
or to go back to a scope. -/
inductive Task where
  | statements (depth : Nat) (ss : List Statement)
  | statement (depth : Nat) (s : Statement)
  | line (text : String)
  | leave (scope : Scope)

def Task.enclosed (options : RenderOptions) (depth : Nat) (header : String)
    (children : List Statement) : List Task :=
  [.line (options.indentation depth ++ header ++ " \x7b"),
    .statements (depth + 1) children,
    .line (options.indentation depth ++ "\x7d")]

/-- The tasks of a statement for which nothing is looked up. -/
def Statement.tasks (options : RenderOptions) (depth : Nat) :
    Statement → List Task
  | .directive name args _ =>
    [.line (options.indentation depth ++ name ++ Argument.line args ++ ";")]
  | .block name args children _ =>
      Task.enclosed options depth (blockHeader name args) children
  | .location modifier paths children _ =>
    paths.flatMap fun path =>
      Task.enclosed options depth (locationHeader modifier path) children
  | .reference name _ =>
      [.line (options.indentation depth ++ "%inline(" ++ name ++ ");")]
  | _ => []

structure Moment where
  scope : Scope
  tasks : List Task
  lines : List String
  progress : Progress

/-- What follows a moment: another one, or the end of the rendering. -/
inductive Turn where
  | next (m : Moment)
  | finished (result : Except Failure (List String)) (progress : Progress)

namespace Site

/-- The scope and the statements that a statement leads to. -/
def enter (site : Site) (scope : Scope) :
    Statement → Rendering (Scope × List Statement)
  | .reference name position => do
    let body ← templateBody scope name position
    return (scope.enterTemplate name, body)
  | .importFile path _ => do
    let a ← site.importTarget scope path
    let document ← site.load a
    Rendering.collect document.children
    return (scope.enterFile a, document.children)
  | .stray kind _ => Rendering.fail (.render (.unknownStatement kind))
  | _ => return (scope, [])

def turn (site : Site) : Moment → Turn
  | ⟨_, [], lines, progress⟩ => .finished (.ok lines) progress
  | ⟨scope, .line text :: tasks, lines, progress⟩ =>
      .next ⟨scope, tasks, lines ++ [text], progress⟩
  | ⟨_, .leave scope :: tasks, lines, progress⟩ =>
      .next ⟨scope, tasks, lines, progress⟩
  | ⟨scope, .statements _ [] :: tasks, lines, progress⟩ =>
      .next ⟨scope, tasks, lines, progress⟩
  | ⟨scope, .statements depth (s :: rest) :: tasks, lines, progress⟩ =>
    .next ⟨scope, .statement depth s :: .statements depth rest :: tasks,
      lines, progress⟩
  | ⟨scope, .statement depth s :: tasks, lines, progress⟩ =>
    if s.opens site.options then
      match (site.enter scope s).run.run progress with
      | (.ok (inner, ss), progress) =>
        .next ⟨inner, .statements depth ss :: .leave scope :: tasks,
          lines, progress⟩
      | (.error f, progress) => .finished (.error f) progress
    else
      .next ⟨scope, s.tasks site.options depth ++ tasks, lines, progress⟩

def Next (site : Site) (m later : Moment) : Prop :=
  site.turn m = .next later

def Steps (site : Site) : Moment → Moment → Prop :=
  Relation.ReflTransGen site.Next

/-- The run from the moment ends after finitely many steps. -/
def Ends (site : Site) (m : Moment) (result : Except Failure (List String))
    (progress : Progress) : Prop :=
  ∃ last, site.Steps m last ∧ site.turn last = .finished result progress

theorem Steps.ends
    {site : Site} {m later : Moment} {result : Except Failure (List String)}
    {progress : Progress}
    (steps : site.Steps m later)
    (ends : site.Ends later result progress) :
    site.Ends m result progress := by
  obtain ⟨last, more, stopped⟩ := ends
  exact ⟨last, Relation.ReflTransGen.trans steps more, stopped⟩

/-- Wherever the work stands before other tasks, it is done by steps as the
rendering does it, unless the scope grows up to the limit on the way. -/
structure Performs
    (site : Site) (limit : Nat) (scope : Scope) (work : List Task)
    (x : Rendering (List String)) :
    Prop where
  ok : ∀ progress final more, x.run.run progress = (.ok more, final) →
    ∀ tasks lines,
    site.Steps ⟨scope, work ++ tasks, lines, progress⟩ ⟨scope, tasks,
      lines ++ more, final⟩
  error : ∀ progress final failure,
    x.run.run progress = (.error failure, final) → ∀ tasks lines,
    site.Ends ⟨scope, work ++ tasks, lines, progress⟩ (.error failure) final ∨
      ∃ m, site.Steps ⟨scope, work ++ tasks, lines, progress⟩ m ∧
        limit ≤ m.scope.size

namespace Performs

variable {site : Site} {limit : Nat} {scope : Scope} {work others : List Task}
  {x y : Rendering (List String)}

theorem nil : site.Performs limit scope [] (pure []) where
  ok progress final more ran tasks lines := by
    obtain ⟨rfl, rfl⟩ := Rendering.of_pure_ok ran
    rw [List.append_nil]
    exact .refl
  error _ _ _ ran := by cases ran

theorem line (text : String) :
    site.Performs limit scope [.line text] (pure [text]) where
  ok progress final more ran tasks lines := by
    obtain ⟨rfl, rfl⟩ := Rendering.of_pure_ok ran
    exact .single rfl
  error _ _ _ ran := by cases ran

theorem append (first : site.Performs limit scope work x)
    (second : site.Performs limit scope others y) :
    site.Performs limit scope (work ++ others) (do return (← x) ++ (← y)) where
  ok progress final more ran tasks lines := by
    obtain ⟨here, between, ranFirst, ran⟩ := Rendering.of_bind_ok ran
    obtain ⟨there, final, ranSecond, ran⟩ := Rendering.of_bind_ok ran
    obtain ⟨rfl, rfl⟩ := Rendering.of_pure_ok ran
    rw [List.append_assoc, ← List.append_assoc lines]
    exact (first.ok _ _ _ ranFirst _ lines).trans
      (second.ok _ _ _ ranSecond tasks _)
  error progress final failure ran tasks lines := by
    rw [List.append_assoc]
    rcases Rendering.of_bind_error ran with ran | ⟨here, between, ranFirst, ran⟩
    · exact first.error _ _ _ ran _ lines
    · have steps := first.ok _ _ _ ranFirst (others ++ tasks) lines
      rcases Rendering.of_bind_error ran with ran | ⟨there, final, _, ran⟩
      · rcases second.error _ _ _ ran tasks (lines ++ here) with
          ends | ⟨m, more, large⟩
        · exact .inl (steps.ends ends)
        · exact .inr ⟨m, steps.trans more, large⟩
      · cases ran

theorem of_next
    (performs : site.Performs limit scope others x)
    (next : ∀ tasks lines progress, site.Next ⟨scope, work ++ tasks, lines,
      progress⟩ ⟨scope, others ++ tasks, lines, progress⟩) :
    site.Performs limit scope work x where
  ok progress final more ran tasks lines :=
    (performs.ok _ _ _ ran tasks lines).head (next tasks lines progress)
  error progress final failure ran tasks lines := by
    have step := next tasks lines progress
    rcases performs.error _ _ _ ran tasks lines with ends | ⟨m, more, large⟩
    · exact .inl (Steps.ends (.single step) ends)
    · exact .inr ⟨m, more.head step, large⟩

theorem enclosed {depth : Nat} {children : List Statement} (header : String)
    (inner : site.Performs limit scope [.statements (depth + 1) children] x) :
    site.Performs limit scope (Task.enclosed site.options depth header children)
      (do
        return ServerConf.enclosed (site.options.indentation depth) header
          (← x)) := by
  have whole :=
    (line (site.options.indentation depth ++ header ++ " \x7b")).append
      (inner.append (line (site.options.indentation depth ++ "\x7d")))
  simpa [ServerConf.enclosed, Task.enclosed] using whole

theorem locations
    {depth : Nat} {children : List Statement} (modifier : Modifier)
    (inner : site.Performs limit scope [.statements (depth + 1) children] x)
    (paths : List String) :
    site.Performs limit scope
      (paths.flatMap fun path =>
        Task.enclosed site.options depth
          (locationHeader modifier path) children)
      (do
        let locations ← paths.mapM fun path => do
          return ServerConf.enclosed (site.options.indentation depth)
            (locationHeader modifier path) (← x)
        return locations.flatten) := by
  induction paths with
  | nil => exact nil
  | cons path paths induction =>
      have whole :=
        (inner.enclosed (locationHeader modifier path)).append induction
      simpa [List.mapM_cons] using whole

theorem opening {levels depth : Nat} {s : Statement}
    (opens : s.opens site.options = true)
    (inner : ∀ later ss progress final, (site.enter scope s).run.run progress =
      (.ok (later, ss), final) → site.Performs limit later
      [.statements depth ss] (site.linesWithin levels later depth ss)) :
    site.Performs limit scope [.statement depth s] (do
      let (later, ss) ← site.enter scope s
      site.linesWithin levels later depth ss) where
  ok progress final more ran tasks lines := by
    obtain ⟨⟨later, ss⟩, entered, found, ran⟩ := Rendering.of_bind_ok ran
    have step : site.Next ⟨scope, [.statement depth s] ++ tasks, lines,
        progress⟩ ⟨later, .statements depth ss :: .leave scope :: tasks, lines,
        entered⟩ := by
      simp [Next, turn, opens, found]
    have inside :=
      (inner _ _ _ _ found).ok _ _ _ ran (.leave scope :: tasks) lines
    exact (inside.head step).tail rfl
  error progress final failure ran tasks lines := by
    rcases Rendering.of_bind_error ran with
      ran | ⟨⟨later, ss⟩, entered, found, ran⟩
    · refine .inl ⟨_, .refl, ?_⟩
      simp [turn, opens, ran]
    · have step : site.Next ⟨scope, [.statement depth s] ++ tasks, lines,
          progress⟩ ⟨later, .statements depth ss :: .leave scope :: tasks,
          lines, entered⟩ := by
        simp [Next, turn, opens, found]
      rcases (inner _ _ _ _ found).error _ _ _ ran (.leave scope :: tasks)
        lines with ends | ⟨m, more, large⟩
      · exact .inl (Steps.ends (.single step) ends)
      · exact .inr ⟨m, more.head step, large⟩

end Performs

section Within

variable {site : Site}

def handlers (site : Site) (levels : Nat) (scope : Scope) : Handlers where
  reference depth name position := do
    let (later, ss) ← site.enter scope (.reference name position)
    site.linesWithin levels later depth ss
  importFile depth path := do
    let (later, ss) ← site.enter scope (.importFile path ⟨0, 0⟩)
    site.linesWithin levels later depth ss

theorem linesWithin_succ
    (levels : Nat) (scope : Scope) (depth : Nat) (ss : List Statement) :
    site.linesWithin (levels + 1) scope depth ss =
      linesOf site.options (site.handlers levels scope) depth ss := by
  simp [linesWithin, handlers, enter]

theorem lines_of_opens
    {levels : Nat} {scope : Scope} {depth : Nat} {s : Statement}
    (opens : s.opens site.options = true) :
    s.lines site.options (site.handlers levels scope) depth = (do
      let (later, ss) ← site.enter scope s
      site.linesWithin levels later depth ss) := by
  cases s with
  | directive | block | location | definition => cases opens
  | reference name position =>
      rw [Statement.lines,
        if_pos (show site.options.expandTemplates = true from opens)]
      rfl
  | importFile | stray => rfl

theorem enter_size
    {scope later : Scope} {s : Statement} {ss : List Statement}
    {progress final : Progress}
    (opens : s.opens site.options = true)
    (entered :
      (site.enter scope s).run.run progress = (.ok (later, ss), final)) :
    later.size = scope.size + 1 := by
  cases s with
  | directive | block | location | definition => cases opens
  | reference name position =>
      obtain ⟨body, between, _, entered⟩ := Rendering.of_bind_ok entered
      obtain ⟨⟨rfl, rfl⟩, _⟩ := Rendering.of_pure_ok entered
      simp
  | importFile path position =>
      obtain ⟨a, between, _, entered⟩ := Rendering.of_bind_ok entered
      obtain ⟨document, between, _, entered⟩ := Rendering.of_bind_ok entered
      obtain ⟨_, between, _, entered⟩ := Rendering.of_bind_ok entered
      obtain ⟨⟨rfl, rfl⟩, _⟩ := Rendering.of_pure_ok entered
      simp
  | stray => exact (Rendering.not_fail_ok entered).elim

theorem performs_linesOf {limit levels : Nat} {scope : Scope}
    (inner : ∀ later depth ss, later.size = scope.size + 1 → site.Performs limit
      later [.statements depth ss] (site.linesWithin levels later depth ss))
    (ss : List Statement) :
    ∀ depth, site.Performs limit scope [.statements depth ss]
      (linesOf site.options (site.handlers levels scope) depth ss) := by
  induction ss using statementRecursion with
  | nil =>
      intro depth
      exact Performs.nil.of_next fun _ _ _ => rfl
  | cons s rest inside behind =>
      intro depth
      have first : site.Performs limit scope [.statement depth s]
          (s.lines site.options (site.handlers levels scope) depth) := by
        by_cases opens : s.opens site.options = true
        · rw [lines_of_opens opens]
          exact .opening opens fun later ss _ _ entered =>
            inner later depth ss (enter_size opens entered)
        · have next : ∀ tasks lines progress,
              site.Next ⟨scope, [.statement depth s] ++ tasks, lines, progress⟩
                ⟨scope, s.tasks site.options depth ++ tasks, lines,
                  progress⟩ := by
            intro tasks lines progress
            simp [Next, turn, opens]
          refine Performs.of_next ?_ next
          cases s with
          | directive => exact .line _
          | block => exact (inside (depth + 1)).enclosed _
          | location => exact (inside (depth + 1)).locations _ _
          | definition => exact .nil
          | reference =>
              rw [Statement.lines,
                if_neg (show ¬ site.options.expandTemplates = true from opens)]
              exact .line _
          | importFile | stray => exact absurd rfl opens
      rw [linesOf]
      exact (first.append (behind depth)).of_next fun _ _ _ => rfl

theorem performs_linesWithin (site : Site) (levels : Nat) :
    ∀ scope depth ss,
      site.Performs (scope.size + levels) scope [.statements depth ss]
      (site.linesWithin levels scope depth ss) := by
  induction levels with
  | zero =>
      intro scope depth ss
      exact ⟨fun _ _ _ ran => (Rendering.not_fail_ok ran).elim,
        fun _ _ _ _ _ _ => .inr ⟨_, .refl, Nat.le_refl _⟩⟩
  | succ levels induction =>
      intro scope depth ss
      rw [linesWithin_succ]
      refine performs_linesOf ?_ ss depth
      intro later depth ss size
      have performs := induction later depth ss
      rw [size, Nat.add_right_comm] at performs
      exact performs

end Within

/-- What is known when the first statement of a document is written. -/
def firstProgress (document : Document) : Progress :=
  let templates := Templates.collect {} document.children
  { templates
    reported := [.collected templates.entries.length document.filename] }

def firstMoment (scope : Scope) (document : Document) : Moment :=
  ⟨scope, [.statements 0 document.children], [], firstProgress document⟩

/-- The text of lines, without blanks at either end. -/
def textOf (lines : List String) : String :=
  String.ofList (Text.trim (Text.joinWith "\n" lines).toList)

variable {site : Site} {document : Document} {origin : Option Path}
  {scope : Scope}

theorem startScope_cases (started : site.startScope origin = .ok scope) :
    (origin = none ∧ scope = ⟨[], none, []⟩) ∨
      ∃ path a, origin = some path ∧
        path.resolve? site.store.cwd site.links = .ok a ∧
        scope = ⟨[a], some a, []⟩ := by
  cases origin with
  | none =>
      cases started
      exact .inl ⟨rfl, rfl⟩
  | some path =>
      rw [startScope] at started
      cases resolved : path.resolve? site.store.cwd site.links with
      | error failure =>
          rw [resolved] at started
          cases started
      | ok a =>
          rw [resolved] at started
          cases started
          exact .inr ⟨path, a, rfl, resolved, rfl⟩

theorem startScope_expanding (started : site.startScope origin = .ok scope) :
    scope.expanding = [] := by
  rcases startScope_cases started with ⟨_, rfl⟩ | ⟨_, _, _, _, rfl⟩ <;> rfl

theorem startScope_size (started : site.startScope origin = .ok scope) :
    scope.size = scope.stack.length := by
  rw [Scope.size, startScope_expanding started, List.length_nil, Nat.add_zero]

theorem startScope_length (started : site.startScope origin = .ok scope) :
    scope.stack.length ≤ 1 := by
  rcases startScope_cases started with ⟨_, rfl⟩ | ⟨_, _, _, _, rfl⟩ <;> simp

theorem render_eq_linesWithin
    (started : site.startScope origin = .ok scope)
    {result : Except Failure (List String)} {progress : Progress}
    (ran : (site.linesWithin (site.levels document) scope 0
      document.children).run.run (firstProgress document) =
      (result, progress)) :
    site.render document origin = ⟨result.map textOf, progress, scope⟩ := by
  have whole : (site.renderIn scope document).run.run {} =
      ((do
        return textOf
          (← site.linesWithin (site.levels document) scope 0
            document.children)) :
        Rendering String).run.run (firstProgress document) := rfl
  rw [render, started]
  dsimp only
  rw [whole]
  cases result with
  | ok lines =>
      rw [Rendering.run_bind_of_ok ran]
      rfl
  | error failure =>
      rw [Rendering.run_bind_of_error ran]
      rfl

theorem ends_of_linesWithin
    {levels : Nat} {result : Except Failure (List String)} {progress : Progress}
    (bounded : ∀ m, site.Steps (firstMoment scope document) m →
      m.scope.size < scope.size + levels)
    (ran : (site.linesWithin levels scope 0 document.children).run.run
      (firstProgress document) = (result, progress)) :
    site.Ends (firstMoment scope document) result progress := by
  have performs := site.performs_linesWithin levels scope 0 document.children
  cases result with
  | error failure =>
      rcases performs.error _ _ _ ran [] [] with ends | ⟨m, steps, large⟩
      · exact ends
      · exact absurd (bounded m steps) (Nat.not_lt.2 large)
  | ok lines => exact ⟨_, performs.ok _ _ _ ran [] [], rfl⟩

theorem exists_ends (started : site.startScope origin = .ok scope)
    (bounded : ∀ m, site.Steps (firstMoment scope document) m →
      m.scope.size < scope.size + site.levels document) :
    ∃ result progress, site.Ends (firstMoment scope document) result progress ∧
      site.render document origin = ⟨result.map textOf, progress, scope⟩ :=
  ⟨_, _, ends_of_linesWithin bounded rfl, render_eq_linesWithin started rfl⟩

end Site

end ServerConf
