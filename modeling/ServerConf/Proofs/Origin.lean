import ServerConf.Compiler
import ServerConf.Proofs.Addresses
import ServerConf.Proofs.Congruence
import ServerConf.Proofs.Reporting

/-!
Compiling a file and compiling its text. The imports of a document lead to the
same files whether they start at the file that it came from or at the directory
of that file. All that the file adds is that to import it once more is a cycle.
-/

namespace ServerConf

namespace Rendering

variable {α β : Type}

/-- The second rendering goes as the first one does, unless that one comes to
an import of a file that it is inside of. -/
def UnlessCycle (x y : Rendering α) : Prop :=
  ∀ p, (∃ chain, (x.run.run p).1 = .error (.render (.importCycle chain))) ∨
    y.run.run p = x.run.run p

theorem UnlessCycle.refl (x : Rendering α) : UnlessCycle x x :=
  fun _ => .inr rfl

theorem UnlessCycle.bind {x y : Rendering α} {f g : α → Rendering β}
    (first : UnlessCycle x y)
    (next : ∀ a, UnlessCycle (f a) (g a)) :
    UnlessCycle (x >>= f) (y >>= g) := by
  intro p
  rcases left : x.run.run p with ⟨failure | a, between⟩
  · rw [run_bind_of_error left]
    rcases first p with ⟨chain, cycle⟩ | same
    · rw [left] at cycle
      cases cycle
      exact .inl ⟨chain, rfl⟩
    · exact .inr (run_bind_of_error (same.trans left))
  · rcases first p with ⟨chain, cycle⟩ | same
    · rw [left] at cycle
      cases cycle
    · rw [run_bind_of_ok left, run_bind_of_ok (same.trans left)]
      exact next a between

theorem UnlessCycle.congruence : Congruence UnlessCycle where
  pure a := .refl (Pure.pure a)
  fail failure := .refl (Rendering.fail failure)
  bind := .bind

end Rendering

/-- Both scopes are inside the same files and templates, but for the outermost
file `origin`, which only the first one is inside of. -/
structure Scope.Beside (origin : Address) (scope inner : Scope) : Prop where
  stack : scope.stack = origin :: inner.stack
  expanding : scope.expanding = inner.expanding
  current : (scope.current = some origin ∧ inner.current = none) ∨
    ∃ a, scope.current = some a ∧ inner.current = some a

namespace Scope.Beside

variable {origin : Address} {scope inner : Scope}

theorem enterFile (beside : Beside origin scope inner) (a : Address) :
    Beside origin (scope.enterFile a) (inner.enterFile a) where
  stack := by
    rw [Scope.enterFile, beside.stack]
    rfl
  expanding := beside.expanding
  current := .inr ⟨a, rfl, rfl⟩

theorem enterTemplate (beside : Beside origin scope inner) (name : String) :
    Beside origin (scope.enterTemplate name) (inner.enterTemplate name) where
  stack := beside.stack
  expanding := congrArg (· ++ [name]) beside.expanding
  current := beside.current

end Scope.Beside

namespace Site

def startingAt (site : Site) (base : Path) : Site :=
  { site with base := some base }

variable {site : Site} {origin : Path} {scope inner : Scope}

theorem templateBody_congr
    (same : scope.expanding = inner.expanding)
    (name : String) (position : Position) :
    templateBody scope name position = templateBody inner name position := by
  rw [templateBody, templateBody, same]

section Origin

variable (ends : origin.EndsInName)
  (named : origin.hasNull = false)
  (own : site.links.names origin site.store.cwd = false)
  (cwdNamed : site.store.cwd.toPath.hasNull = false)

include ends named own cwdNamed

theorem resolveImport_startingAt
    (beside :
      Scope.Beside (site.links.resolve origin site.store.cwd) scope inner)
    (path : String) :
    (site.startingAt origin.parent).resolveImport inner path =
      site.resolveImport scope path := by
  rw [resolveImport, resolveImport, importBase, importBase]
  rcases beside.current with ⟨outer, none⟩ | ⟨a, outer, same⟩
  · rw [outer, none]
    dsimp only
    rw [ends.parent_resolve own,
      Path.resolve?_toPath_join (Path.hasNull_parent named) cwdNamed]
    rfl
  · rw [outer, same]
    rfl

theorem unlessCycle_importTarget
    (beside :
      Scope.Beside (site.links.resolve origin site.store.cwd) scope inner)
    (path : String) :
    Rendering.UnlessCycle (site.importTarget scope path)
      ((site.startingAt origin.parent).importTarget inner path) := by
  intro p
  rw [importTarget_run, importTarget_run,
    resolveImport_startingAt ends named own cwdNamed beside]
  cases site.resolveImport scope path with
  | error failure => exact .inr rfl
  | ok a =>
      dsimp only
      by_cases again : a ∈ scope.stack
      -- Only here do the two differ: the origin is a cycle for one, and a file
      -- for the other.
      · rw [if_pos again]
        exact .inl ⟨_, rfl⟩
      · have fresh : a ∉ inner.stack := by
          rw [beside.stack, List.mem_cons, not_or] at again
          exact again.2
        rw [if_neg again, if_neg fresh]
        exact .inr rfl

theorem unlessCycle_linesWithin (levels : Nat) :
    ∀ {scope inner},
      Scope.Beside (site.links.resolve origin site.store.cwd) scope inner →
      ∀ depth ss,
      Rendering.UnlessCycle (site.linesWithin levels scope depth ss)
        ((site.startingAt origin.parent).linesWithin levels inner
          depth ss) := by
  induction levels with
  | zero =>
      intro scope inner beside depth ss
      exact .refl _
  | succ levels induction =>
      intro scope inner beside depth ss
      refine Rendering.UnlessCycle.congruence.linesOf ?_ ?_ ss depth
      · intro depth name position
        dsimp only
        rw [templateBody_congr beside.expanding]
        refine .bind (.refl _) fun body => ?_
        exact induction (beside.enterTemplate name) depth body
      · intro depth path
        refine .bind (unlessCycle_importTarget ends named own cwdNamed beside
          path) fun a => ?_
        refine .bind (.refl (site.load a)) fun document => ?_
        refine .bind (.refl _) fun _ => ?_
        exact induction (beside.enterFile a) depth document.children

/-- Without a cycle, a document from a file is rendered as one from nowhere
whose imports start in the directory of the file. -/
theorem render_startingAt (document : Document) :
    (∃ chain, (site.render document (some origin)).result =
      .error (.render (.importCycle chain))) ∨
      let beside := (site.startingAt origin.parent).render document none
      beside.result = (site.render document (some origin)).result ∧
        beside.progress = (site.render document (some origin)).progress := by
  have started : site.startScope (some origin) =
      .ok (Scope.enterFile {} (site.links.resolve origin site.store.cwd)) := by
    rw [startScope, Path.resolve?, named]
    rfl
  have first : Scope.Beside (site.links.resolve origin site.store.cwd)
      (Scope.enterFile {} (site.links.resolve origin site.store.cwd)) {} :=
    ⟨rfl, rfl, .inl ⟨rfl, rfl⟩⟩
  have lines := unlessCycle_linesWithin ends named own cwdNamed
    (site.levels document) first 0 document.children (firstProgress document)
  rcases ran : (site.linesWithin (site.levels document)
    (Scope.enterFile {} (site.links.resolve origin site.store.cwd)) 0
      document.children).run.run
      (firstProgress document) with ⟨result, progress⟩
  rw [ran] at lines
  rw [render_eq_linesWithin started ran]
  rcases lines with ⟨chain, cycle⟩ | same
  · refine .inl ⟨chain, ?_⟩
    dsimp only at cycle ⊢
    rw [cycle]
    rfl
  · refine .inr ?_
    have alone : (site.startingAt origin.parent).startScope none = .ok {} := rfl
    rw [render_eq_linesWithin alone same]
    exact ⟨rfl, rfl⟩

end Origin

end Site

/-- The compilation failed because it was to import a file that it was inside
of. -/
def Compiled.FoundCycle (compiled : Compiled) : Prop :=
  ∃ e chain, compiled.result = .error (.reported e) ∧
    e.cause? = some (.render (.importCycle chain))

namespace Compiler

/-- Behind a link the imports of a file start elsewhere than those of its text
do, namely in the directory that the link leads to. -/
example :
    let c : Compiler := {}
    let store : FileStore :=
      ⟨⟨["w"]⟩,
        [(⟨["w"]⟩, .directory), (⟨["w", "c"]⟩, .directory),
          (⟨["w", "c", "m"]⟩, .file "%import('b');".toUTF8),
          (⟨["w", "c", "b"]⟩, .file "d;".toUTF8)]⟩
    let links : Links :=
      { table := [(⟨["w", "l"]⟩, ⟨.relative, ["c", "m"]⟩)] }
    let path : Path := ⟨.relative, ["l"]⟩
    (c.compileFile store path links).result = .ok "d;" ∧
      (c.compileText store "%import('b');" path.text (some path.parent)
        links).result =
        .error (.reported (.unrendered "l"
          (.render (.importNotFound "/w/b")))) := by
  decide +kernel

end Compiler

end ServerConf
