import ServerConf.Proofs.Addresses
import ServerConf.Proofs.ParsedTrees
import ServerConf.Proofs.TemplateFailures

/-!
Imported files. As long as nothing writes to the files, loading one gives the
document that stands in it, whether it is read or was read before.
-/

namespace ServerConf

namespace FileStore

variable {s : FileStore} {a : Address} {bytes : ByteArray}

/-- A regular file stands at the address. -/
def HasFile (s : FileStore) (a : Address) (bytes : ByteArray) : Prop :=
  s.find? a.toPath = .ok (some (.file bytes))

theorem lookup_of_hasFile (file : s.HasFile a bytes) :
    a.toPath.hasNull = false ∧
      ∃ found, s.lookup a.toPath = .ok (found, .file bytes) := by
  rw [HasFile, find?] at file
  split at file
  · cases file
  · rename_i null
    refine ⟨by simpa using null, ?_⟩
    split at file
    · rename_i found _ walked
      cases file
      exact ⟨found, walked⟩
    · cases file
    · cases file

theorem read_of_hasFile (file : s.HasFile a bytes) :
    s.read a.toPath = .ok bytes := by
  obtain ⟨null, found, walked⟩ := lookup_of_hasFile file
  rw [read, null, walked]
  rfl

theorem mem_files_of_hasFile
    (settled : ".." ∉ a.parts)
    (file : s.HasFile a bytes) :
    (a, bytes) ∈ s.files := by
  obtain ⟨_, found, walked⟩ := lookup_of_hasFile file
  rw [lookup] at walked
  split at walked
  · cases walked
  · obtain ⟨rfl, ⟨_, ⟨⟩⟩ | here⟩ := walk_settled settled walked
    exact List.mem_filterMap.2 ⟨_, mem_entries_of_get? here, rfl⟩

end FileStore

def Log.Event.loaded? : Log.Event → Option String
  | .loading path => some path
  | _ => none

def Log.Event.parsed? : Log.Event → Option String
  | .parsed filename _ => some filename
  | _ => none

theorem Environment.silent_settledIn
    {report : Log.Event → Option String}
    (found : ∀ name, report (.resolvedFromEnvironment name) = none)
    (unset : ∀ name, report (.resolvedToDefault name) = none)
    (env : Environment)
    (ts : List Token) :
    (env.settledIn ts).filterMap report = [] := by
  have silent : ∀ ts event, env.settled? ts = some event →
      report event = none := by
    intro ts event settled
    unfold settled? at settled
    split at settled
    · split at settled
      all_goals
        obtain ⟨_, same⟩ := Option.ite_none_right_eq_some.1 settled
        cases same
      · exact found _
      · exact unset _
    · cases settled
  induction ts with
  | nil => rfl
  | cons t ts induction =>
      rw [settledIn, List.filterMap_append, induction, List.append_nil,
        List.filterMap_eq_nil_iff]
      intro event member
      split at member
      · exact silent ts event (Option.mem_toList.1 member)
      · cases member

theorem Document.loaded?_parseEvents
    (env : Environment) (filename source : String) :
    (parseEvents env filename source).filterMap Log.Event.loaded? = [] := by
  have silent : ∀ ts, (env.settledIn ts).filterMap Log.Event.loaded? = [] :=
    env.silent_settledIn (fun _ => rfl) fun _ => rfl
  rw [parseEvents]
  split
  · rw [List.filterMap_cons_none rfl, tokenEvents]
    split
    · rfl
    · split
      · rw [List.filterMap_append, silent]
        rfl
      · exact silent _
  · rfl

theorem Document.parsed?_parseEvents
    (env : Environment) (filename source : String) :
    (parseEvents env filename source).filterMap Log.Event.parsed? =
      ((parse env filename source).toOption.map fun _ => filename).toList := by
  have silent : ∀ ts, (env.settledIn ts).filterMap Log.Event.parsed? = [] :=
    env.silent_settledIn (fun _ => rfl) fun _ => rfl
  rw [parseEvents, parse]
  cases Token.ofSource source with
  | error e => rfl
  | ok tokens =>
      dsimp only
      rw [List.filterMap_cons_none rfl, tokenEvents, ofTokens]
      cases Token.complete? tokens with
      | none => rfl
      | some pair =>
          obtain ⟨body, last⟩ := pair
          dsimp only
          cases Reader.statements ⟨env, last⟩ [] [] body with
          | ok children =>
              dsimp only
              rw [List.filterMap_append, silent]
              rfl
          | error stop => exact silent _

namespace Site

variable {site : Site} {progress final : Progress} {a : Address}

def documentIn (site : Site) (a : Address) (bytes : ByteArray) :
    Except Failure Document := do
  Document.parse site.env a.text (← FileStore.decodeText bytes)

/-- The document that stands at an address. -/
def documentAt (site : Site) (a : Address) : Except Failure Document :=
  match site.store.find? a.toPath with
  | .error fault => .error (.file fault)
  | .ok (some (.file bytes)) => site.documentIn a bytes
  | .ok _ => .error (.render (.importNotFound a.text))

theorem exists_of_documentIn {bytes : ByteArray} {document : Document}
    (stands : site.documentIn a bytes = .ok document) :
    ∃ source, FileStore.decodeText bytes = .ok source ∧
      Document.parse site.env a.text source = .ok document := by
  rw [documentIn] at stands
  cases decoded : FileStore.decodeText bytes with
  | error failure =>
      rw [decoded] at stands
      cases stands
  | ok source =>
      rw [decoded] at stands
      exact ⟨source, rfl, stands⟩

theorem exists_of_documentAt {document : Document}
    (stands : site.documentAt a = .ok document) :
    ∃ bytes, site.store.HasFile a bytes ∧
      site.documentIn a bytes = .ok document := by
  rw [documentAt] at stands
  split at stands
  · cases stands
  · rename_i bytes file
    exact ⟨bytes, file, stands⟩
  · cases stands

def Cached (site : Site) (progress : Progress) : Prop :=
  ∀ a document, progress.cache.lookup a = some document →
    site.documentAt a = .ok document

/-- Of a file, the events tell that it is being read, unless there is none, and
that it was parsed if a document stands in it. -/
structure Tells (site : Site) (a : Address) (events : List Log.Event) :
    Prop where
  loaded : events.filterMap Log.Event.loaded? = [a.text] ∨
    events.filterMap Log.Event.loaded? = [] ∧
      ∀ document, site.documentAt a ≠ .ok document
  parsed : events.filterMap Log.Event.parsed? =
    ((site.documentAt a).toOption.map fun _ => a.text).toList

theorem readDocument_run
    (still : site.journal = none)
    (a : Address) :
    ∃ events : List Log.Event,
      (∀ progress, (site.readDocument a).run.run progress = (site.documentAt a,
        { progress with reported := events.reverse ++ progress.reported })) ∧
      site.Tells a events := by
  have files : site.filesAt a = pure site.store := by rw [filesAt, still]
  have absent : ∀ failure, site.documentAt a = .error failure →
      site.Tells a [] := by
    intro failure fails
    refine ⟨.inr ⟨rfl, fun document stands => ?_⟩, by rw [fails]; rfl⟩
    cases fails.symm.trans stands
  rw [readDocument, files, pure_bind]
  cases found : site.store.find? a.toPath with
  | error fault =>
      have fails : site.documentAt a = .error (.file fault) := by
        rw [documentAt, found]
      exact ⟨[], fun _ => by rw [fails]; rfl, absent _ fails⟩
  | ok entry =>
      rcases entry with _ | _ | bytes
      · have fails :
            site.documentAt a = .error (.render (.importNotFound a.text)) := by
          rw [documentAt, found]
        exact ⟨[], fun _ => by rw [fails]; rfl, absent _ fails⟩
      · have fails :
            site.documentAt a = .error (.render (.importNotFound a.text)) := by
          rw [documentAt, found]
        exact ⟨[], fun _ => by rw [fails]; rfl, absent _ fails⟩
      · have read :
            site.store.readText a.toPath = FileStore.decodeText bytes := by
          rw [FileStore.readText, FileStore.read_of_hasFile found]
          rfl
        have stands : site.documentAt a = site.documentIn a bytes := by
          rw [documentAt, found]
        dsimp only
        rw [pure_bind, read]
        cases decoded : FileStore.decodeText bytes with
        | error failure =>
            have fails : site.documentAt a = .error failure := by
              rw [stands, documentIn, decoded]
              rfl
            refine ⟨[.loading a.text], fun _ => by rw [fails]; rfl,
              .inl rfl, ?_⟩
            rw [fails]
            rfl
        | ok source =>
            have parses : site.documentAt a =
                Document.parse site.env a.text source := by
              rw [stands, documentIn, decoded]
              rfl
            refine ⟨.loading a.text :: Document.parseEvents site.env a.text
              source, ?_, .inl ?_, ?_⟩
            · intro progress
              rw [Rendering.run_bind_of_ok (Rendering.report_run _ _),
                Rendering.run_bind_of_ok
                  (Rendering.ofExcept_run (.ok source) _),
                Rendering.run_bind_of_ok (Rendering.report_run _ _), parses]
              simp only [List.reverse_cons, List.append_assoc]
              exact Rendering.ofExcept_run _ _
            · rw [List.filterMap_cons, Document.loaded?_parseEvents]
              rfl
            · rw [List.filterMap_cons_none rfl, parses,
                Document.parsed?_parseEvents]

theorem eq_of_filesAt {files : FileStore}
    (ran : (site.filesAt a).run.run progress = (.ok files, final)) :
    final = progress := by
  rw [filesAt] at ran
  cases kept : site.journal with
  | none =>
      rw [kept] at ran
      cases ran
      rfl
  | some journal =>
      rw [kept] at ran
      dsimp only at ran
      split at ran <;> cases ran <;> rfl

theorem readDocument_ok {document : Document}
    (reading : (site.readDocument a).run.run progress = (.ok document, final)) :
    final.templates = progress.templates ∧ final.cache = progress.cache ∧
      ∃ source, Document.parse site.env a.text source = .ok document := by
  obtain ⟨files, between, found, ran⟩ := Rendering.of_bind_ok reading
  obtain rfl := eq_of_filesAt found
  split at ran
  · cases ran
  · obtain ⟨_, _, reported, ran⟩ := Rendering.of_bind_ok ran
    cases reported
    obtain ⟨files, _, found, ran⟩ := Rendering.of_bind_ok ran
    obtain rfl := eq_of_filesAt found
    obtain ⟨source, _, read, ran⟩ := Rendering.of_bind_ok ran
    rw [Rendering.ofExcept_run] at read
    obtain ⟨_, rfl⟩ := Prod.mk.inj read
    obtain ⟨_, _, reported, ran⟩ := Rendering.of_bind_ok ran
    cases reported
    rw [Rendering.ofExcept_run] at ran
    obtain ⟨parsed, rfl⟩ := Prod.mk.inj ran
    exact ⟨rfl, rfl, source, parsed⟩
  · cases ran

theorem load_cases {document : Document}
    (ran : (site.load a).run.run progress = (.ok document, final)) :
    (progress.cache.lookup a = some document ∧
        final =
          { progress with reported := .reusing a.text :: progress.reported }) ∨
      (progress.cache.lookup a = none ∧
        ∃ between,
          (site.readDocument a).run.run progress = (.ok document, between) ∧
          final =
            { between with cache := between.cache ++ [(a, document)] }) := by
  rw [load, Rendering.run_bind_of_ok (Rendering.get_run progress)] at ran
  cases known : progress.cache.lookup a with
  | some kept =>
      rw [known] at ran
      cases ran
      exact .inl ⟨rfl, rfl⟩
  | none =>
      rw [known] at ran
      obtain ⟨read, between, reading, noting⟩ := Rendering.of_bind_ok ran
      cases noting
      exact .inr ⟨rfl, between, reading, rfl⟩

theorem load_of_lookup {document : Document}
    (known : progress.cache.lookup a = some document) :
    (site.load a).run.run progress =
      (.ok document, { progress with
        reported := .reusing a.text :: progress.reported }) := by
  rw [load, Rendering.run_bind_of_ok (Rendering.get_run progress), known]
  rfl

theorem load_run
    (still : site.journal = none)
    (cached : site.Cached progress)
    (a : Address) :
    ∃ final, (site.load a).run.run progress = (site.documentAt a, final) ∧
      final.templates = progress.templates ∧ site.Cached final := by
  cases known : progress.cache.lookup a with
  | some document =>
      refine ⟨{ progress with
        reported := .reusing a.text :: progress.reported }, ?_, rfl, cached⟩
      rw [cached a document known, load_of_lookup known]
  | none =>
      rw [load, Rendering.run_bind_of_ok (Rendering.get_run progress), known]
      obtain ⟨events, reads, _⟩ := readDocument_run still a
      have read := reads progress
      cases stands : site.documentAt a with
      | error failure =>
          rw [stands] at read
          exact ⟨_, Rendering.run_bind_of_error read, rfl, cached⟩
      | ok document =>
          rw [stands] at read
          refine ⟨_, (Rendering.run_bind_of_ok read).trans rfl, rfl, ?_⟩
          intro b other found
          rw [List.lookup_append, Option.or_eq_some_iff] at found
          rcases found with before | ⟨_, last⟩
          · exact cached b other before
          · rw [List.lookup_cons] at last
            split at last
            · rename_i same
              cases last
              rw [eq_of_beq same, stands]
            · cases last

theorem importTarget_run (scope : Scope) (path : String) (progress : Progress) :
    (site.importTarget scope path).run.run progress =
      (match site.resolveImport scope path with
        | .error failure => .error failure
        | .ok a =>
          if a ∈ scope.stack then
            .error
              (.render (.importCycle ((scope.stack ++ [a]).map Address.text)))
          else .ok a, progress) := by
  rw [importTarget]
  cases site.resolveImport scope path with
  | error failure => rfl
  | ok a =>
      rw [Rendering.run_bind_of_ok (Rendering.ofExcept_run (.ok a) _)]
      dsimp only
      split <;> rfl

theorem importTarget_ok {scope : Scope} {path : String}
    (ran : (site.importTarget scope path).run.run progress = (.ok a, final)) :
    final = progress ∧ site.resolveImport scope path = .ok a ∧
      a ∉ scope.stack := by
  rw [importTarget_run] at ran
  obtain ⟨target, rfl⟩ := Prod.mk.inj ran
  split at target
  · cases target
  · rename_i b resolved
    split at target
    · cases target
    · rename_i fresh
      cases target
      exact ⟨rfl, resolved, fresh⟩

theorem not_mem_resolveImport {scope : Scope} {path : String}
    (resolved : site.resolveImport scope path = .ok a) : ".." ∉ a.parts :=
  Path.not_mem_of_resolve? resolved

section Enter

variable {scope later : Scope} {path : String} {position : Position}
  {ss : List Statement}

theorem enter_import_ok
    (still : site.journal = none)
    (cached : site.Cached progress)
    (entered : (site.enter scope (.importFile path position)).run.run progress =
      (.ok (later, ss), final)) :
    ∃ a document, site.resolveImport scope path = .ok a ∧ a ∉ scope.stack ∧
      site.documentAt a = .ok document ∧ later = scope.enterFile a ∧
        ss = document.children ∧
      final.templates = progress.templates.collect document.children ∧
        site.Cached final := by
  obtain ⟨a, between, target, loading⟩ := Rendering.of_bind_ok entered
  obtain ⟨rfl, resolved, fresh⟩ := importTarget_ok target
  obtain ⟨document, loaded, ran, collecting⟩ := Rendering.of_bind_ok loading
  obtain ⟨found, ranAgain, templates, kept⟩ := load_run still cached a
  obtain ⟨stands, rfl⟩ := Prod.mk.inj (ran.symm.trans ranAgain)
  cases collecting
  exact ⟨a, document, resolved, fresh, stands.symm, rfl, rfl,
    congrArg (·.collect document.children) templates, kept⟩

theorem enter_import_error
    (still : site.journal = none)
    (cached : site.Cached progress)
    {failure : Failure}
    (failed : (site.enter scope (.importFile path position)).run.run progress =
      (.error failure, final)) :
    site.resolveImport scope path = .error failure ∨
      ∃ a, site.resolveImport scope path = .ok a ∧
        (a ∈ scope.stack ∧
            failure =
              .render (.importCycle ((scope.stack ++ [a]).map Address.text)) ∨
          a ∉ scope.stack ∧ site.documentAt a = .error failure) := by
  rcases Rendering.of_bind_error failed with
    failed | ⟨a, between, target, loading⟩
  · rw [importTarget_run] at failed
    obtain ⟨failed, _⟩ := Prod.mk.inj failed
    split at failed
    · rename_i resolved
      cases failed
      exact .inl resolved
    · rename_i a resolved
      split at failed
      · rename_i again
        cases failed
        exact .inr ⟨a, resolved, .inl ⟨again, rfl⟩⟩
      · cases failed
  · obtain ⟨rfl, resolved, fresh⟩ := importTarget_ok target
    rcases Rendering.of_bind_error loading with
      unread | ⟨document, loaded, _, collecting⟩
    · obtain ⟨_, ran, _, _⟩ := load_run still cached a
      obtain ⟨stands, _⟩ := Prod.mk.inj (unread.symm.trans ran)
      exact .inr ⟨a, resolved, .inr ⟨fresh, stands.symm⟩⟩
    · cases collecting

end Enter

end Site

end ServerConf
