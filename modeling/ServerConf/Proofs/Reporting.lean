import ServerConf.Compiler
import ServerConf.Proofs.Termination

/-!
Which failures a compilation reports as its own. All of them, except that it
does not look for three faults: a name of the input that is too long to be
looked up, a null character in the path of an import, and an imported file that
is no text.
-/

namespace ServerConf

def Failure.isReported : Failure → Bool
  | .scan _ | .parse _ | .render _ | .file _ => true
  | _ => false

theorem CompileFailure.ofFailure_eq_unreported
    {filename : String} {cause failure : Failure} :
    ofFailure filename cause = .unreported failure ↔
      cause = failure ∧ failure.isReported = false := by
  cases cause <;> cases failure <;> simp [ofFailure, Failure.isReported]

theorem Document.isReported_of_parse
    {env : Environment} {filename source : String} {failure : Failure}
    (failed : parse env filename source = .error failure) :
    failure.isReported = true := by
  rcases parse_error failed with ⟨_, rfl⟩ | ⟨_, rfl⟩ <;> rfl

theorem FileStore.isReported_of_decodeText
    {bytes : ByteArray} {failure : Failure}
    (failed : decodeText bytes = .error failure) :
    failure.isReported = false := by
  rw [decodeText] at failed
  split at failed
  · cases failed
  · cases failed
    rfl

namespace Site

variable {site : Site} {document : Document}

/-- The import cannot be followed, and nothing on the way looks for the reason:
its path has a null character in it, or it leads to a file that is no text. -/
inductive Stumbles (site : Site) (scope : Scope) (path : String) :
    Failure → Prop where
  | null : ((site.importBase scope).join (Path.ofString path)).hasNull = true →
      Stumbles site scope path .nullInPath
  | notText {a : Address} {bytes : ByteArray} {failure : Failure} :
      site.resolveImport scope path = .ok a → a ∉ scope.stack →
        site.store.HasFile a bytes →
      FileStore.decodeText bytes = .error failure →
        Stumbles site scope path failure

/-- At some moment of the rendering such an import is the next to be written. -/
def ComesToStumble (site : Site) (document : Document) (origin : Option Path)
    (failure : Failure) : Prop :=
  ∃ scope m depth path position tasks, site.startScope origin = .ok scope ∧
    site.Steps (firstMoment scope document) m ∧
    m.tasks = .statement depth (.importFile path position) :: tasks ∧
    site.Stumbles m.scope path failure

theorem resolveImport_eq_error
    {scope : Scope} {path : String} {failure : Failure} :
    site.resolveImport scope path = .error failure ↔
      ((site.importBase scope).join (Path.ofString path)).hasNull = true ∧
        failure = .nullInPath := by
  rw [resolveImport, Path.resolve?]
  split
  · rename_i null
    simp [null, eq_comm]
  · rename_i clear
    simp [clear]

theorem documentAt_notText {a : Address} {failure : Failure}
    (failed : site.documentAt a = .error failure)
    (unreported : failure.isReported = false) :
    ∃ bytes, site.store.HasFile a bytes ∧
      FileStore.decodeText bytes = .error failure := by
  rw [documentAt] at failed
  split at failed
  · cases failed
    cases unreported
  · rename_i bytes file
    refine ⟨bytes, file, ?_⟩
    rw [documentIn] at failed
    cases decoded : FileStore.decodeText bytes with
    | error fault =>
        rw [decoded] at failed
        cases failed
        rfl
    | ok source =>
        rw [decoded] at failed
        have reported := Document.isReported_of_parse failed
        rw [unreported] at reported
        cases reported
  · cases failed
    cases unreported

theorem documentAt_of_notText
    {a : Address} {bytes : ByteArray} {failure : Failure}
    (file : site.store.HasFile a bytes)
    (unread : FileStore.decodeText bytes = .error failure) :
    site.documentAt a = .error failure := by
  rw [FileStore.HasFile] at file
  rw [documentAt, file]
  dsimp only
  rw [documentIn, unread]
  rfl

theorem keeps_cached (still : site.journal = none) :
    site.Keeps site.Cached (fun _ => True) (fun _ _ => True) where
  inside _ _ _ := trivial
  enter {scope s progress later ss final} opens cached _ _ entered := by
    cases s with
    | directive | block | location | definition => cases opens
    | stray => exact (Rendering.not_fail_ok entered).elim
    | reference name position =>
        obtain ⟨rfl, _⟩ := enter_reference_ok entered
        exact ⟨cached, trivial, fun _ _ => trivial⟩
    | importFile path position =>
        obtain ⟨_, _, _, _, _, _, _, _, kept⟩ :=
          enter_import_ok still cached entered
        exact ⟨kept, trivial, fun _ _ => trivial⟩

theorem cached_of_steps
    (still : site.journal = none)
    {scope : Scope} {m : Moment}
    (steps : site.Steps (firstMoment scope document) m) :
    site.Cached m.progress := by
  have first : (firstMoment scope document).Holds site.Cached (fun _ => True)
      fun _ _ => True := ⟨nofun, fun _ _ => trivial, trivial⟩
  exact ((keeps_cached still).steps first steps).progress

theorem Stumbles.enter_error
    (still : site.journal = none)
    {scope : Scope} {path : String} {failure : Failure}
    (stumbles : site.Stumbles scope path failure)
    {progress : Progress}
    (cached : site.Cached progress)
    (position : Position) :
    ∃ final, (site.enter scope (.importFile path position)).run.run progress =
      (.error failure, final) := by
  have target : (site.importTarget scope path).run.run progress = _ :=
    importTarget_run scope path progress
  cases stumbles with
  | null null =>
      rw [resolveImport_eq_error.2 ⟨null, rfl⟩] at target
      exact ⟨progress, Rendering.run_bind_of_error target⟩
  | notText resolved fresh file unread =>
      rw [resolved] at target
      dsimp only at target
      rw [if_neg fresh] at target
      obtain ⟨final, ran, _⟩ := load_run still cached _
      rw [documentAt_of_notText file unread] at ran
      refine ⟨final, ?_⟩
      rw [enter, Rendering.run_bind_of_ok target]
      exact Rendering.run_bind_of_error ran

theorem exists_stumbles
    (still : site.journal = none)
    {scope : Scope} {s : Statement}
    (opens : s.opens site.options = true)
    {progress final : Progress}
    (cached : site.Cached progress)
    {failure : Failure}
    (unreported : failure.isReported = false)
    (failed : (site.enter scope s).run.run progress = (.error failure, final)) :
    ∃ path position, s = .importFile path position ∧
      site.Stumbles scope path failure := by
  cases s with
  | directive | block | location | definition => cases opens
  | stray =>
      cases failed
      cases unreported
  | reference name position =>
      rcases enter_reference_error failed with ⟨rfl, _⟩ | ⟨rfl, _⟩ <;>
        cases unreported
  | importFile path position =>
      refine ⟨path, position, rfl, ?_⟩
      rcases enter_import_error still cached failed with
        unresolved | ⟨a, resolved, ⟨_, rfl⟩ | ⟨fresh, unread⟩⟩
      · obtain ⟨null, rfl⟩ := resolveImport_eq_error.1 unresolved
        exact .null null
      · cases unreported
      · obtain ⟨bytes, file, notText⟩ := documentAt_notText unread unreported
        exact .notText resolved fresh file notText

theorem Stumbles.isReported {scope : Scope} {path : String} {failure : Failure}
    (stumbles : site.Stumbles scope path failure) :
    failure.isReported = false := by
  cases stumbles with
  | null => rfl
  | notText _ _ _ unread => exact FileStore.isReported_of_decodeText unread

theorem Ends.unique
    {m : Moment} {first second : Except Failure (List String)}
    {final other : Progress}
    (ends : site.Ends m first final)
    (again : site.Ends m second other) :
    first = second ∧ final = other := by
  obtain ⟨last, steps, stopped⟩ := ends
  obtain ⟨end_, more, stoppedAgain⟩ := again
  have functional : Relator.RightUnique site.Next := by
    intro m later another next same
    obtain ⟨⟩ := next.symm.trans same
    rfl
  have halted :
      ∀ {m later result progress}, site.turn m = .finished result progress →
      Relation.ReflTransGen site.Next m later → m = later := by
    intro m later result progress stopped on
    rcases on.cases_head with rfl | ⟨_, next, _⟩
    · rfl
    · rw [Next, stopped] at next
      cases next
  have same : last = end_ := by
    rcases Relation.ReflTransGen.total_of_right_unique functional steps
      more with on | on
    · exact halted stopped on
    · exact (halted stoppedAgain on).symm
  subst same
  cases stopped.symm.trans stoppedAgain
  exact ⟨rfl, rfl⟩

theorem render_eq_unreported
    (still : site.journal = none)
    {origin : Option Path} {scope : Scope}
    (started : site.startScope origin = .ok scope)
    {failure : Failure} :
    (site.render document origin).result = .error failure ∧
      failure.isReported = false ↔
      site.ComesToStumble document origin failure := by
  obtain ⟨result, final, ends, rendered⟩ :
      ∃ result final, site.Ends (firstMoment scope document) result final ∧
        site.render document origin = ⟨result.map textOf, final, scope⟩ :=
    exists_end still started
  rw [rendered]
  constructor
  · rintro ⟨failed, unreported⟩
    cases result with
    | ok lines => cases failed
    | error cause =>
        cases failed
        obtain ⟨last, steps, stopped⟩ := ends
        rcases turn_eq_finished stopped with
          ⟨_, same⟩ | ⟨depth, s, tasks, _, left, opens, same, failed⟩
        · cases same
        · cases same
          obtain ⟨path, position, rfl, stumbles⟩ :=
            exists_stumbles still opens (cached_of_steps still steps)
              unreported failed
          exact ⟨scope, last, depth, path, position, tasks, started, steps,
            left, stumbles⟩
  · rintro ⟨scope', m, depth, path, position, tasks, startedAgain, steps,
      left, stumbles⟩
    obtain rfl := Except.ok.inj (started.symm.trans startedAgain)
    obtain ⟨stopped, failed⟩ :=
      stumbles.enter_error still (cached_of_steps still steps) position
    have turned : site.turn m = .finished (.error failure) stopped := by
      obtain ⟨place, _, lines, progress⟩ := m
      subst left
      simp [turn, Statement.opens, failed]
    obtain ⟨rfl, _⟩ := ends.unique ⟨m, steps, turned⟩
    exact ⟨rfl, stumbles.isReported⟩

end Site

/-- The compilation comes to a text or to an error of its own. -/
def Compiled.Reported (compiled : Compiled) : Prop :=
  (∃ text, compiled.result = .ok text) ∨
    ∃ e, compiled.result = .error (.reported e)

theorem Compiled.reported_iff {compiled : Compiled} :
    compiled.Reported ↔
      ∀ failure, compiled.result ≠ .error (.unreported failure) := by
  obtain ⟨result, _, _⟩ := compiled
  cases result with
  | ok text => simp [Reported]
  | error failure => cases failure <;> simp [Reported]

theorem FileStore.hasNull_of_find?
    {store : FileStore}
    {path : Path}
    {links : Links}
    {entry : Entry}
    (found : store.find? path links = .ok (some entry)) :
    path.hasNull = false := by
  rw [find?] at found
  split at found
  · cases found
  · rename_i clear
    simpa using clear

namespace Compiler

variable {c : Compiler} {store : FileStore} {base : Option Path} {links : Links}

theorem site_of_still (still : c.journal = none) (events : List Log.Event) :
    c.site store base events links = c.site store base [] links := by
  simp [site, still]

theorem compile_eq_unreported
    (still : c.journal = none)
    {source filename : String} {origin : Option Path} {scope : Scope}
    (started : (c.site store base [] links).startScope origin = .ok scope)
    {failure : Failure} :
    (c.compile store source filename origin base links).result =
        .error (.unreported failure) ↔
      ∃ document, Document.parse c.env filename source = .ok document ∧
        (c.site store base [] links).ComesToStumble document origin
          failure := by
  have quiet : (c.site store base [] links).journal = none := by
    simp [site, still]
  rw [compile, site_of_still still]
  cases parsed : Document.parse c.env filename source with
  | error cause =>
      have reported := Document.isReported_of_parse parsed
      simp only [Except.error.injEq, CompileFailure.ofFailure_eq_unreported,
        reduceCtorEq, false_and, exists_false, iff_false, not_and]
      rintro rfl
      simp [reported]
  | ok document =>
      have unreported :=
        @Site.render_eq_unreported _ document quiet origin scope started failure
      simp only [Except.ok.injEq, exists_eq_left', ← unreported]
      cases (Site.render _ document origin).result with
      | ok text => simp
      | error cause => simp [CompileFailure.ofFailure_eq_unreported]

theorem startScope_of_find? (c : Compiler) {path : Path} {entry : Entry}
    (found : store.find? path links = .ok (some entry)) :
    (c.site store none [] links).startScope (some path) =
      .ok (Scope.enterFile {} (links.resolve path store.cwd)) := by
  rw [Site.startScope, Path.resolve?, FileStore.hasNull_of_find? found]
  rfl

/-- A compilation comes to a text or to an error of its own, whatever cannot be
found, read, decoded, parsed or rendered, unless the name of the input is too
long to be looked up, or the rendering comes to an import whose path has a null
character in it or that leads to a file which is no text. -/
theorem compile_reported_iff
    (still : c.journal = none)
    (store : FileStore)
    (links : Links) :
    (∀ path, (c.compileFile store path links).Reported ↔
      (∀ fault, store.find? path links ≠ .error fault) ∧
      ∀ bytes source document,
        store.find? path links = .ok (some (.file bytes)) →
        FileStore.decodeText bytes = .ok source →
        Document.parse c.env path.text source = .ok document →
        ∀ failure, ¬ (c.site store none [] links).ComesToStumble document
          (some path) failure) ∧
    ∀ source filename base,
      (c.compileText store source filename base links).Reported ↔
        ∀ document, Document.parse c.env filename source = .ok document →
          ∀ failure, ¬ (c.site store base [] links).ComesToStumble document
            none failure := by
  constructor
  · intro path
    rw [Compiled.reported_iff, compileFile]
    cases found : store.find? path links with
    | error fault => simp [failed]
    | ok entry =>
        rcases entry with _ | _ | bytes
        · simp [failed]
        · simp [failed]
        · cases decoded : FileStore.decodeText bytes with
          | error fault =>
              refine iff_of_true (by simp [failed, decoded]) ⟨nofun, ?_⟩
              rintro _ source document ⟨⟩ again
              cases decoded.symm.trans again
          | ok source =>
              have started := startScope_of_find? c found
              simp only [decoded, ne_eq, compile_eq_unreported still started,
                not_exists, not_and]
              constructor
              · refine fun never => ⟨nofun, ?_⟩
                rintro _ other document ⟨⟩ again parsed failure
                obtain ⟨⟩ := decoded.symm.trans again
                exact never failure document parsed
              · rintro ⟨_, never⟩ failure document parsed
                exact never bytes source document rfl decoded parsed failure
  · intro source filename base
    have started : (c.site store base [] links).startScope none = .ok {} := rfl
    rw [Compiled.reported_iff, compileText]
    simp only [ne_eq, compile_eq_unreported still started, not_exists, not_and]
    exact ⟨fun never document parsed failure => never failure document parsed,
      fun never failure document parsed => never document parsed failure⟩

/-- A file that is no text does not matter as long as nothing imports it. -/
theorem compile_reported_iff_unread :
    let c : Compiler := {}
    let store : FileStore :=
      ⟨⟨["w"]⟩, [(⟨["w"]⟩, .directory), (⟨["w", "a"]⟩, .file "d;".toUTF8),
      (⟨["w", "b"]⟩, .file ⟨#[0xff]⟩)]⟩
    (c.compileText store "s \x7b %import('a'); \x7d" "<string>" none).result =
        .ok "s \x7b\n  d;\n\x7d" ∧
      ∀ document, Document.parse c.env "<string>" "s \x7b %import('a'); \x7d" =
        .ok document →
        ∀ failure,
          ¬ (c.site store none []).ComesToStumble document none failure := by
  intro c store
  have compiled :
      (c.compileText store "s \x7b %import('a'); \x7d" "<string>" none).result =
      .ok "s \x7b\n  d;\n\x7d" := by
    decide +kernel
  have still : c.journal = none := rfl
  exact ⟨compiled, ((compile_reported_iff still store .none).2 _ _ none).1
    (.inl ⟨_, compiled⟩)⟩

/-- A file that is no text keeps its own failure if it is imported. -/
theorem compileText_bytes_unreported :
    let store : FileStore :=
      ⟨⟨["w"]⟩, [(⟨["w"]⟩, .directory), (⟨["w", "b"]⟩, .file ⟨#[0xff]⟩)]⟩
    ¬ (({} : Compiler).compileText store "%import('b');" "<string>"
      none).Reported := by
  intro store
  have failed : (({} : Compiler).compileText store "%import('b');" "<string>"
      none).result =
      .error (.unreported (.decode ⟨0xff, 0, 0, .invalidStart⟩)) := by
    decide +kernel
  rw [Compiled.reported_iff]
  exact fun never => never _ failed

end Compiler

end ServerConf
