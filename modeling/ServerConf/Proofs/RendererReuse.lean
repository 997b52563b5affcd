import Mathlib.Data.List.Forall2
import ServerConf.Proofs.Moments
import ServerConf.Rendering.Renderer

/-!
Using a renderer again. Whatever fails in a call and wherever it does, the
renderer is left with the file of the call alone, and no call depends on those
before it.
-/

namespace ServerConf

namespace Renderer

variable {α β : Type} {r : Renderer}

namespace Act

theorem ofRendering_run (x : Rendering α) (r : Renderer) :
    (ofRendering x).run.run r =
      ((x.run.run r.progress).1,
        { r with progress := (x.run.run r.progress).2 }) := by
  have opened : (ofRendering x).run.run r =
      (ofExcept (x.run.run r.progress).1 : Act α).run.run
        { r with progress := (x.run.run r.progress).2 } := rfl
  rw [opened]
  cases (x.run.run r.progress).1 <;> rfl

theorem inside_run
    (enter leave : Renderer → Renderer) (x : Act α) (r : Renderer) :
    (inside enter leave x).run.run r =
      ((x.run.run (enter r)).1, leave (x.run.run (enter r)).2) := by
  have opened : (inside enter leave x).run.run r =
      (tryFinally x (modify leave) : Act α).run.run (enter r) := rfl
  rw [opened]
  rcases ends : x.run.run (enter r) with ⟨_ | _, later⟩
  all_goals
    have ends : x (enter r) = _ := ends
    simp only [tryFinally, tryFinally', Functor.map, bind, ExceptT.run,
      ExceptT.map, ExceptT.mk, StateT.run, StateT.bind, ends]
    rfl

/-- An act does what a rendering does to the progress of a renderer, and leaves
all else in it as it was, whether it succeeds or not. -/
def CarriesOut (r : Renderer) (x : Act α) (y : Rendering α) : Prop :=
  ∀ progress, x.run.run { r with progress } =
    ((y.run.run progress).1, { r with progress := (y.run.run progress).2 })

namespace CarriesOut

theorem pure (a : α) : CarriesOut r (pure a) (pure a) :=
  fun _ => rfl

theorem fail (failure : Failure) :
    CarriesOut r (throw failure : Act α) (Rendering.fail failure) :=
  fun _ => rfl

theorem ofRendering (x : Rendering α) : CarriesOut r (ofRendering x) x :=
  fun progress => ofRendering_run x { r with progress }

theorem bind {x : Act α} {y : Rendering α} {f : α → Act β} {g : α → Rendering β}
    (first : CarriesOut r x y)
    (next : ∀ a, CarriesOut r (f a) (g a)) :
    CarriesOut r (x >>= f) (y >>= g) := by
  intro progress
  rw [ExceptT.run_bind, StateT.run_bind, first progress, ExceptT.run_bind,
    StateT.run_bind]
  rcases y.run.run progress with ⟨failure | a, later⟩
  · rfl
  · exact next a later

theorem get {f : Renderer → Act α} {y : Rendering α}
    (next : ∀ progress, CarriesOut r (f { r with progress }) y) :
    CarriesOut r (get >>= f) y :=
  fun progress => next progress progress

theorem getProgress {f : Renderer → Act α} {g : Progress → Rendering α}
    (next : ∀ progress, CarriesOut r (f { r with progress }) (g progress)) :
    CarriesOut r (MonadState.get >>= f) (MonadState.get >>= g) :=
  fun progress => next progress progress

theorem inside
    {enter leave : Renderer → Renderer} {x : Act α} {y : Rendering α}
    {inner : Renderer}
    (entered : ∀ progress, enter { r with progress } = { inner with progress })
    (left : ∀ progress, leave { inner with progress } = { r with progress })
    (within : CarriesOut inner x y) :
    CarriesOut r (inside enter leave x) y := by
  intro progress
  rw [inside_run, entered, within progress, left]

theorem mapM {f : α → Act β} {g : α → Rendering β}
    (each : ∀ a, CarriesOut r (f a) (g a))
    (items : List α) :
    CarriesOut r (items.mapM f) (items.mapM g) := by
  induction items with
  | nil => exact .pure []
  | cons item items induction =>
      rw [List.mapM_cons, List.mapM_cons]
      exact (each item).bind fun _ => induction.bind fun _ => .pure _

theorem inBlock {x : Act α} {y : Rendering α} {depth : Nat}
    (within : CarriesOut { r with depth := depth + 1 } x y) :
    CarriesOut { r with depth } (Act.inside enterBlock leaveBlock x) y :=
  inside (fun _ => rfl) (fun _ => rfl) within

theorem inTemplate {x : Act α} {y : Rendering α} (name : String)
    (within : CarriesOut (r.enterTemplate name) x y) :
    CarriesOut r (Act.inside (·.enterTemplate name) leaveTemplate x) y := by
  refine inside (fun _ => rfl) (fun progress => ?_) within
  simp [leaveTemplate, enterTemplate, Scope.enterTemplate]

theorem inFile {x : Act α} {y : Rendering α} (a : Address)
    (within : CarriesOut (r.enterFile a) x y) :
    CarriesOut r
      (Act.inside (·.enterFile a) (·.leaveFile r.scope.current) x) y := by
  refine inside (fun _ => rfl) (fun progress => ?_) within
  simp [leaveFile, enterFile, Scope.enterFile]

end CarriesOut

theorem carriesOut_writeAll {visits : Visits} {handlers : Handlers}
    (reference : ∀ depth name position, CarriesOut { r with depth }
      (visits.reference name position) (handlers.reference depth name position))
    (importFile : ∀ depth path, CarriesOut { r with depth }
      (visits.importFile path) (handlers.importFile depth path))
    (ss : List Statement) :
    ∀ depth, CarriesOut { r with depth } (writeAll visits ss)
      (linesOf r.options handlers depth ss) := by
  induction ss using statementRecursion with
  | nil =>
      intro depth
      exact .pure []
  | cons s rest inside behind =>
      intro depth
      have enclosing : ∀ header, CarriesOut { r with depth }
          (do
            let indentation := (← get).indentation
            let inner ← Act.inside enterBlock leaveBlock
              (writeAll visits s.children)
            return enclosed indentation header inner)
          (do
            let inner ← linesOf r.options handlers (depth + 1) s.children
            return enclosed (r.options.indentation depth) header inner) :=
        fun header => .get fun _ =>
          (CarriesOut.inBlock (inside (depth + 1))).bind fun _ => .pure _
      have first : CarriesOut { r with depth } (s.write visits)
          (s.lines r.options handlers depth) := by
        cases s with
        | directive => exact .get fun _ => .pure _
        | block name args => exact enclosing (blockHeader name args)
        | location modifier paths =>
            refine (CarriesOut.mapM (fun path => ?_) paths).bind
              fun _ => .pure _
            exact enclosing (locationHeader modifier path)
        | definition => exact .pure _
        | reference name position =>
            rw [Statement.lines]
            refine .get fun progress => ?_
            dsimp only
            split
            · exact reference depth name position
            · exact .get fun _ => .pure _
        | importFile path => exact importFile depth path
        | stray => exact .fail _
      exact first.bind fun _ => (behind depth).bind fun _ => .pure _

theorem carriesOut_writeWithin
    (store : FileStore) (links : Links) (levels : Nat) :
    ∀ (r : Renderer) (ss : List Statement),
      CarriesOut r (writeWithin store links levels ss)
        ((r.site store links).linesWithin levels r.scope r.depth ss) := by
  induction levels with
  | zero =>
      intro r ss
      exact .fail _
  | succ levels induction =>
      intro r ss
      refine carriesOut_writeAll ?_ ?_ ss r.depth
      · intro depth name position
        refine .get fun _ => (CarriesOut.ofRendering _).bind fun body => ?_
        exact .inTemplate name
          (induction (enterTemplate { r with depth } name) body)
      · intro depth path
        refine .get fun _ => (CarriesOut.ofRendering _).bind fun a => ?_
        refine (CarriesOut.ofRendering _).bind fun document => ?_
        exact .inFile a ((CarriesOut.ofRendering _).bind
          fun _ => induction (enterFile { r with depth } a) document.children)

theorem carriesOut_renderHere
    (store : FileStore)
    (links : Links)
    (document : Document)
    (shallow : r.depth = 0) :
    CarriesOut r (renderHere store links document)
      ((r.site store links).renderIn r.scope document) := by
  refine (CarriesOut.ofRendering _).bind fun _ => ?_
  refine .getProgress fun progress =>
    (CarriesOut.ofRendering _).bind fun _ => ?_
  refine .get fun _ => CarriesOut.bind ?_ fun _ => .pure _
  have written := carriesOut_writeWithin store links
    ((r.site store links).levels document) r document.children
  rwa [shallow] at written

end Act

def after
    (r : Renderer) (base : Option Path) (scope : Scope) (progress : Progress) :
    Renderer :=
  { options := r.options, env := r.env, progress, scope, base }

theorem answer_eq (r : Renderer) (c : Call) :
    let site : Site :=
      { options := r.options, env := r.env, store := c.store, base := c.base
        links := c.links }
    let rendered := site.render c.document c.origin
    r.answer c =
      (rendered.result, r.after c.base rendered.scope rendered.progress) := by
  intro site rendered
  have whole : ∀ scope,
      (renderHere c.store c.links c.document).run.run
        (r.after c.base scope {}) =
      (((site.renderIn scope c.document).run.run {}).1,
        r.after c.base scope ((site.renderIn scope c.document).run.run {}).2) :=
    fun scope => Act.carriesOut_renderHere (r :=
      r.after c.base scope {}) c.store
      c.links c.document rfl {}
  dsimp only [rendered]
  rw [Site.render, answer, render]
  cases origin : c.origin with
  | none => exact whole {}
  | some path =>
      have started : site.startScope (some path) =
          (path.resolve? c.store.cwd c.links).map (Scope.enterFile {}) := rfl
      rw [started]
      dsimp only
      cases path.resolve? c.store.cwd c.links with
      | error failure => rfl
      | ok a => exact whole (Scope.enterFile {} a)

/-- Where the path of the document leads. -/
def Call.file (c : Call) : Option Address :=
  c.origin.map (c.links.resolve · c.store.cwd)

theorem scope_answer (r : Renderer) {c : Call}
    (named : ∀ path ∈ c.origin, path.hasNull = false) :
    (r.answer c).2.scope = ⟨c.file.toList, c.file, []⟩ := by
  rw [answer_eq]
  dsimp only [after]
  rw [Site.render, Call.file]
  cases origin : c.origin with
  | none => rfl
  | some path =>
      have started : ∀ site : Site, site.store = c.store →
          site.links = c.links → site.startScope (some path) =
          .ok (Scope.enterFile {} (c.links.resolve path c.store.cwd)) := by
        intro site stored linked
        rw [Site.startScope, Path.resolve?,
          if_neg (by simp [named path origin]), stored, linked]
        rfl
      rw [started _ rfl rfl]
      rfl

/-- Of calls one after another, each gives what a new renderer gives on the
files as they are then, which is the rendering of its document, and leaves the
renderer outside of all blocks, templates and imports. -/
theorem answers_eq_fresh (r : Renderer) (calls : List Call)
    (named : ∀ c ∈ calls, ∀ path ∈ c.origin, path.hasNull = false) :
    List.Forall₂ (fun (c : Call) (outcome : Except Failure String × Renderer) =>
      let fresh : Renderer := { options := r.options, env := r.env }
      let site : Site :=
        { options := r.options, env := r.env, store := c.store, base := c.base
          links := c.links }
      outcome.1 = (fresh.answer c).1 ∧
        outcome.1 = (site.render c.document c.origin).result ∧
        outcome.2.depth = 0 ∧ outcome.2.scope.expanding = [] ∧
        outcome.2.scope.stack = c.file.toList ∧
          outcome.2.scope.current = c.file ∧
        outcome.2.base = c.base) calls (r.answers calls) := by
  induction calls generalizing r with
  | nil => exact .nil
  | cons c calls induction =>
      refine .cons ?_ ?_
      · intro fresh site
        have scope := scope_answer r (named c List.mem_cons_self)
        refine ⟨?_, ?_, ?_, ?_, ?_, ?_, ?_⟩
        · rw [answer_eq, answer_eq]
        · rw [answer_eq]
        · rw [answer_eq]
          rfl
        · rw [scope]
        · rw [scope]
        · rw [scope]
        · rw [answer_eq]
          rfl
      · have later :=
          induction (r.answer c).2 fun d member => named d (.tail c member)
        rw [answer_eq] at later
        rw [answer_eq]
        exact later

/-- A call that fails in a block of a template of an imported file, and one
after the file is changed. -/
theorem answers_eq_fresh_failed :
    let store (source : String) : FileStore :=
      ⟨⟨["w"]⟩, [(⟨["w"]⟩, .directory), (⟨["w", "a"]⟩, .file source.toUTF8)]⟩
    let call (source : String) : Call :=
      { store := store source
        document :=
          ⟨[.location .none ["/"] [.importFile "a" ⟨2, 3⟩] ⟨1, 1⟩], "m"⟩
        origin := some ⟨.relative, ["m"]⟩ }
    let first := call "%t = \x7b s \x7b %inline(%u); \x7d \x7d; %inline(%t);"
    let second := call "d;"
    (Renderer.answer {} first).1 =
      .error (.render (.undefinedTemplate "%u" ⟨1, 12⟩)) ∧
      (Renderer.answer {} first).2.depth = 0 ∧
        (Renderer.answer {} first).2.scope.expanding = [] ∧
      (Renderer.answer {} first).2.scope.stack = [⟨["w", "m"]⟩] ∧
      (Renderer.answer {} first).2.scope.current = some ⟨["w", "m"]⟩ ∧
      ((Renderer.answer {} first).2.answer second).1 =
        .ok "location / \x7b\n  d;\n\x7d" := by
  intro store call first second
  have named :
      ∀ c ∈ [first, second], ∀ path ∈ c.origin, path.hasNull = false := by
    decide
  have reused := answers_eq_fresh {} [first, second] named
  rw [answers, answers, List.forall₂_cons, List.forall₂_cons] at reused
  obtain ⟨⟨_, _, depth, expanding, stack, current, _⟩, ⟨again, _⟩, _⟩ := reused
  have fails : (Renderer.answer {} first).1 =
      .error (.render (.undefinedTemplate "%u" ⟨1, 12⟩)) := by
    decide +kernel
  have alone :
      (Renderer.answer {} second).1 = .ok "location / \x7b\n  d;\n\x7d" := by
    decide +kernel
  have file : first.file = some ⟨["w", "m"]⟩ := by decide +kernel
  rw [file, Option.toList_some] at stack
  rw [file] at current
  rw [alone] at again
  exact ⟨fails, depth, expanding, stack, current, again⟩

end Renderer

end ServerConf
