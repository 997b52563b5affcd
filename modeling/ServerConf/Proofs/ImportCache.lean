import ServerConf.Proofs.Congruence
import ServerConf.Proofs.Loading

/-!
Keeping imported files. A rendering that reads each file once gives what one
gives that reads it at every import, and what it keeps are the files that the
other one reads, in the order in which they are first read.
-/

namespace ServerConf

namespace Progress

/-- The files kept, in the order in which they were first read. -/
def files (p : Progress) : List Address :=
  p.cache.map Prod.fst

/-- The files that were to be read, as they were reported. -/
def loaded (p : Progress) : List String :=
  p.log.filterMap Log.Event.loaded?

/-- The files that the parser told of. -/
def parsed (p : Progress) : List String :=
  p.log.filterMap Log.Event.parsed?

def tell (p : Progress) (events : List Log.Event) : Progress :=
  { p with reported := events.reverse ++ p.reported }

def note (p : Progress) (a : Address) (document : Document) : Progress :=
  { p with cache := p.cache ++ [(a, document)] }

@[simp] theorem files_tell (p : Progress) (events : List Log.Event) :
    (p.tell events).files = p.files := rfl

@[simp] theorem loaded_tell (p : Progress) (events : List Log.Event) :
    (p.tell events).loaded = p.loaded ++
      events.filterMap Log.Event.loaded? := by
  simp [loaded, log, tell]

@[simp] theorem parsed_tell (p : Progress) (events : List Log.Event) :
    (p.tell events).parsed = p.parsed ++
      events.filterMap Log.Event.parsed? := by
  simp [parsed, log, tell]

@[simp] theorem files_note (p : Progress) (a : Address) (document : Document) :
    (p.note a document).files = p.files ++ [a] := by
  simp [files, note]

@[simp] theorem loaded_note (p : Progress) (a : Address) (document : Document) :
    (p.note a document).loaded = p.loaded := rfl

@[simp] theorem parsed_note (p : Progress) (a : Address) (document : Document) :
    (p.note a document).parsed = p.parsed := rfl

theorem mem_files_iff {p : Progress} {a : Address} :
    a ∈ p.files ↔ ∃ document, p.cache.lookup a = some document := by
  rw [← Option.isSome_iff_exists, List.lookup_isSome_iff]
  simp [files]

theorem mem_cache_of_lookup {p : Progress} {a : Address} {document : Document}
    (known : p.cache.lookup a = some document) : (a, document) ∈ p.cache := by
  obtain ⟨before, after, same, _⟩ := List.lookup_eq_some_iff.1 known
  simp [same]

end Progress

namespace Rendering

variable {α β : Type} {keep : Progress → Progress → Prop}
  {leave : Failure → Progress → Progress → Prop}

inductive Agree
    (keep : Progress → Progress → Prop)
    (leave : Failure → Progress → Progress → Prop) :
    Except Failure α × Progress → Except Failure α × Progress → Prop where
  | ok (a : α) {p q : Progress}
      (kept : keep p q) :
      Agree keep leave (.ok a, p) (.ok a, q)
  | error (failure : Failure) {p q : Progress}
      (left : leave failure p q) :
      Agree keep leave (.error failure, p) (.error failure, q)

def Abreast
    (keep : Progress → Progress → Prop)
    (leave : Failure → Progress → Progress → Prop) (x y : Rendering α) :
    Prop :=
  ∀ p q, keep p q → Agree keep leave (x.run.run p) (y.run.run q)

namespace Abreast

theorem pure (a : α) : Abreast keep leave (pure a) (pure a) :=
  fun _ _ kept => .ok a kept

theorem fail
    (leaves : ∀ failure p q, keep p q → leave failure p q)
    (failure : Failure) :
    Abreast keep leave (fail failure : Rendering α) (fail failure) :=
  fun p q kept => .error failure (leaves failure p q kept)

theorem bind {x y : Rendering α} {f g : α → Rendering β}
    (first : Abreast keep leave x y)
    (next : ∀ a, Abreast keep leave (f a) (g a)) :
    Abreast keep leave (x >>= f) (y >>= g) := by
  intro p q kept
  have agree := first p q kept
  rcases left : x.run.run p with ⟨result, between⟩
  rcases right : y.run.run q with ⟨other, later⟩
  rw [left, right] at agree
  cases agree with
  | ok a kept =>
      rw [run_bind_of_ok left, run_bind_of_ok right]
      exact next a between later kept
  | error failure leaves =>
      rw [run_bind_of_error left, run_bind_of_error right]
      exact .error failure leaves

theorem congruence (leaves : ∀ failure p q, keep p q → leave failure p q) :
    Congruence (Abreast keep leave) where
  pure := pure
  fail := fail leaves
  bind := bind

end Abreast

end Rendering

namespace Site

variable {site : Site}

def linesTaking
    (site : Site) (take : Address → Rendering Document) (levels : Nat)
    (scope : Scope) (depth : Nat) (statements : List Statement) :
    Rendering (List String) :=
  match levels with
  | 0 => Rendering.fail .nestedTooDeep
  | levels + 1 =>
    linesOf site.options
      { reference := fun depth name position => do
          let body ← templateBody scope name position
          site.linesTaking take levels (scope.enterTemplate name) depth body
        importFile := fun depth path => do
          let a ← site.importTarget scope path
          let document ← take a
          Rendering.collect document.children
          site.linesTaking take levels (scope.enterFile a) depth
            document.children }
      depth statements

def renderTaking
    (site : Site) (take : Address → Rendering Document) (document : Document)
    (origin : Option Path) :
    Rendered :=
  match site.startScope origin with
  | .error failure => { result := .error failure }
  | .ok scope =>
    let (result, progress) := (site.linesTaking take (site.levels document)
      scope 0 document.children).run.run (firstProgress document)
    { result := result.map textOf, progress, scope }

/-- The document in a file, read each time. It is noted and never looked up. -/
def reload (site : Site) (a : Address) : Rendering Document := do
  let document ← site.readDocument a
  modify fun p => { p with cache := p.cache ++ [(a, document)] }
  return document

/-- Renders a document so that each import reads its file. -/
def renderAfresh (site : Site) (document : Document) (origin : Option Path) :
    Rendered :=
  site.renderTaking site.reload document origin

theorem linesTaking_load
    (levels : Nat) (scope : Scope) (depth : Nat) (ss : List Statement) :
    site.linesTaking site.load levels scope depth ss =
      site.linesWithin levels scope depth ss := by
  induction levels generalizing scope depth ss with
  | zero => rfl
  | succ levels induction => simp only [linesTaking, linesWithin, induction]

theorem renderTaking_load (document : Document) (origin : Option Path) :
    site.renderTaking site.load document origin =
      site.render document origin := by
  rw [renderTaking]
  cases started : site.startScope origin with
  | error failure => rw [render, started]
  | ok scope =>
      dsimp only
      rw [linesTaking_load]
      exact (render_eq_linesWithin started rfl).symm

/-- What is noted about files stands there, and files were read and parsed in
the order in which they are noted, those last that could not be loaded. -/
structure Notes (site : Site) (unread : List Address) (p : Progress) :
    Prop where
  stands : ∀ a document, (a, document) ∈ p.cache →
    site.documentAt a = .ok document
  loaded : p.loaded = (p.files ++ unread).map Address.text
  parsed : p.parsed = p.files.map Address.text

structure Shadows (site : Site) (unread : List Address) (p q : Progress) :
    Prop where
  templates : p.templates = q.templates
  nodup : p.files.Nodup
  files : p.files = q.files.eraseDups
  kept : site.Notes unread p
  afresh : site.Notes unread q

/-- What a failure leaves: it is that of the file that could not be loaded, if
there is one. -/
def Stops (site : Site) (failure : Failure) (p q : Progress) : Prop :=
  ∃ unread, unread.length ≤ 1 ∧
    (∀ a ∈ unread, site.documentAt a = .error failure) ∧
    site.Shadows unread p q

variable {p q : Progress} {a : Address} {document : Document}
  {unread : List Address}

theorem Shadows.stops (shadows : site.Shadows [] p q) (failure : Failure) :
    site.Stops failure p q :=
  ⟨[], by simp, by simp, shadows⟩

theorem Notes.documentAt_of_lookup
    (notes : site.Notes unread p)
    (known : p.cache.lookup a = some document) :
    site.documentAt a = .ok document :=
  notes.stands a document (Progress.mem_cache_of_lookup known)

theorem Notes.tell
    (notes : site.Notes [] p)
    (events : List Log.Event) (unread : List Address)
    (loaded : events.filterMap Log.Event.loaded? = unread.map Address.text)
    (unparsed : events.filterMap Log.Event.parsed? = []) :
    site.Notes unread (p.tell events) where
  stands := notes.stands
  loaded := by simp [notes.loaded, loaded]
  parsed := by simp [notes.parsed, unparsed]

theorem Notes.read
    (notes : site.Notes [] p)
    (stands : site.documentAt a = .ok document)
    {events : List Log.Event}
    (tells : site.Tells a events) :
    site.Notes [] ((p.tell events).note a document) where
  stands := by
    intro b other member
    rcases List.mem_append.1 member with before | last
    · exact notes.stands b other before
    · cases List.mem_singleton.1 last
      exact stands
  loaded := by
    have tried :=
      tells.loaded.resolve_right fun absent => absent.2 document stands
    simp [notes.loaded, tried]
  parsed := by
    have parsed := tells.parsed
    rw [stands] at parsed
    simp [notes.parsed, parsed, Except.toOption]

theorem eraseDups_concat (l : List Address) (a : Address) :
    (l ++ [a]).eraseDups = if a ∈ l then l.eraseDups
      else l.eraseDups ++ [a] := by
  rw [List.eraseDups_append]
  split <;> rename_i known <;> simp [List.removeAll, known, List.eraseDups_cons]

section Load

variable {events : List Log.Event}

theorem Shadows.reuse
    (shadows : site.Shadows [] p q)
    (known : a ∈ p.files)
    (stands : site.documentAt a = .ok document)
    (tells : site.Tells a events) :
    site.Shadows [] (p.tell [.reusing a.text])
      ((q.tell events).note a document) where
  templates := shadows.templates
  nodup := shadows.nodup
  files := by
    have read : a ∈ q.files := List.mem_eraseDups.1 (shadows.files ▸ known)
    simp [eraseDups_concat, read, shadows.files]
  kept := shadows.kept.tell [.reusing a.text] [] rfl rfl
  afresh := shadows.afresh.read stands tells

theorem Shadows.keep
    (shadows : site.Shadows [] p q)
    (unknown : a ∉ p.files)
    (stands : site.documentAt a = .ok document)
    (tells : site.Tells a events) :
    site.Shadows [] ((p.tell events).note a document)
      ((q.tell events).note a document) where
  templates := shadows.templates
  nodup := by
    rw [Progress.files_note, ← List.concat_eq_append]
    exact shadows.nodup.concat unknown
  files := by
    have unread : a ∉ q.files :=
      fun read => unknown (shadows.files ▸ List.mem_eraseDups.2 read)
    simp [eraseDups_concat, unread, shadows.files]
  kept := shadows.kept.read stands tells
  afresh := shadows.afresh.read stands tells

theorem Shadows.stop
    (shadows : site.Shadows [] p q)
    {failure : Failure}
    (unloadable : site.documentAt a = .error failure)
    (tells : site.Tells a events) :
    site.Stops failure (p.tell events) (q.tell events) := by
  have noted : ∃ unread : List Address, unread.length ≤ 1 ∧
      (∀ b ∈ unread, b = a) ∧
      events.filterMap Log.Event.loaded? = unread.map Address.text := by
    rcases tells.loaded with tried | ⟨absent, _⟩
    · exact ⟨[a], by simp, by simp, tried⟩
    · exact ⟨[], by simp, by simp, absent⟩
  have unparsed : events.filterMap Log.Event.parsed? = [] := by
    rw [tells.parsed, unloadable]
    rfl
  obtain ⟨unread, few, only, loaded⟩ := noted
  refine ⟨unread, few, fun b member => only b member ▸ unloadable, ?_⟩
  exact ⟨shadows.templates, shadows.nodup, shadows.files,
    shadows.kept.tell _ _ loaded unparsed,
    shadows.afresh.tell _ _ loaded unparsed⟩

theorem abreast_load (still : site.journal = none) (a : Address) :
    Rendering.Abreast (site.Shadows []) site.Stops (site.load a)
      (site.reload a) := by
  intro p q shadows
  obtain ⟨events, reads, tells⟩ := readDocument_run still a
  rw [load, Rendering.run_bind_of_ok (Rendering.get_run p)]
  cases stands : site.documentAt a with
  | error failure =>
      -- A file that is kept could be loaded, so this one is read by both.
      have unknown : p.cache.lookup a = none := by
        rw [Option.eq_none_iff_forall_ne_some]
        intro document known
        cases stands.symm.trans (shadows.kept.documentAt_of_lookup known)
      rw [stands] at reads
      rw [unknown, reload, Rendering.run_bind_of_error (reads q)]
      dsimp only
      rw [Rendering.run_bind_of_error (reads p)]
      exact .error failure (shadows.stop stands tells)
  | ok document =>
      rw [stands] at reads
      rw [reload, Rendering.run_bind_of_ok (reads q)]
      cases known : p.cache.lookup a with
      | some other =>
          cases stands.symm.trans (shadows.kept.documentAt_of_lookup known)
          exact .ok document
            (shadows.reuse (Progress.mem_files_iff.2 ⟨_, known⟩) stands tells)
      | none =>
          have unknown : a ∉ p.files := by
            intro member
            obtain ⟨other, found⟩ := Progress.mem_files_iff.1 member
            cases known.symm.trans found
          dsimp only
          rw [Rendering.run_bind_of_ok (reads p)]
          exact .ok document (shadows.keep unknown stands tells)

end Load

theorem abreast_templateBody
    (scope : Scope) (name : String) (position : Position) :
    Rendering.Abreast (site.Shadows []) site.Stops
      (templateBody scope name position)
      (templateBody scope name position) := by
  intro p q shadows
  rw [templateBody_run, templateBody_run, shadows.templates]
  split
  · exact .error _ (shadows.stops _)
  · split
    · exact .error _ (shadows.stops _)
    · exact .ok _ shadows

theorem abreast_importTarget
    {keep : Progress → Progress → Prop}
    {leave : Failure → Progress → Progress → Prop}
    (leaves : ∀ failure p q, keep p q → leave failure p q)
    (scope : Scope) (path : String) :
    Rendering.Abreast keep leave (site.importTarget scope path)
      (site.importTarget scope path) := by
  intro p q kept
  rw [importTarget_run, importTarget_run]
  split
  · exact .error _ (leaves _ p q kept)
  · split
    · exact .error _ (leaves _ p q kept)
    · exact .ok _ kept

theorem abreast_collect (ss : List Statement) :
    Rendering.Abreast (site.Shadows []) site.Stops (Rendering.collect ss)
      (Rendering.collect ss) := by
  intro p q shadows
  refine .ok () ⟨congrArg (·.collect ss) shadows.templates, shadows.nodup,
    shadows.files, ?_, ?_⟩
  · exact ⟨shadows.kept.stands, shadows.kept.loaded, shadows.kept.parsed⟩
  · exact ⟨shadows.afresh.stands, shadows.afresh.loaded, shadows.afresh.parsed⟩

theorem abreast_linesTaking (still : site.journal = none) (levels : Nat) :
    ∀ scope depth ss, Rendering.Abreast (site.Shadows []) site.Stops
      (site.linesTaking site.load levels scope depth ss)
      (site.linesTaking site.reload levels scope depth ss) := by
  have leaves : ∀ failure p q, site.Shadows [] p q → site.Stops failure p q :=
    fun failure _ _ shadows => shadows.stops failure
  induction levels with
  | zero =>
      intro scope depth ss
      exact .fail leaves _
  | succ levels induction =>
      intro scope depth ss
      refine (Rendering.Abreast.congruence leaves).linesOf ?_ ?_ ss depth
      · intro depth name position
        exact (abreast_templateBody scope name position).bind fun body =>
          induction _ depth body
      · intro depth path
        refine (abreast_importTarget leaves scope path).bind fun a => ?_
        refine (abreast_load still a).bind fun document => ?_
        exact (abreast_collect document.children).bind fun _ =>
          induction _ depth _

theorem Shadows.of_nothing
    (empty : p.cache = [])
    (untried : p.loaded = [])
    (unparsed : p.parsed = []) :
    site.Shadows [] p p := by
  have files : p.files = [] := by rw [Progress.files, empty, List.map_nil]
  have notes : site.Notes [] p :=
    ⟨by simp [empty], by simp [untried, files], by simp [unparsed, files]⟩
  exact ⟨rfl, by simp [files], by simp [files], notes, notes⟩

theorem Shadows.nodup_append
    (shadows : site.Shadows unread p q)
    (few : unread.length ≤ 1)
    (unloadable : ∀ a ∈ unread, ∃ failure, site.documentAt a = .error failure) :
    (p.files ++ unread).Nodup := by
  refine List.nodup_append.2 ⟨shadows.nodup, ?_, ?_⟩
  · rcases unread with _ | ⟨a, _ | ⟨b, rest⟩⟩
    · exact List.nodup_nil
    · exact List.nodup_singleton a
    · simp at few
  · rintro a member b failed rfl
    obtain ⟨document, known⟩ := Progress.mem_files_iff.1 member
    obtain ⟨failure, fails⟩ := unloadable a failed
    cases (shadows.kept.documentAt_of_lookup known).symm.trans fails

theorem exists_shadows (still : site.journal = none) (document : Document)
    (origin : Option Path) :
    let kept := site.renderTaking site.load document origin
    let afresh := site.renderTaking site.reload document origin
    kept.result = afresh.result ∧ ∃ unread : List Address, unread.length ≤ 1 ∧
      (∀ a ∈ unread, ∃ failure, site.documentAt a = .error failure ∧
        kept.result = .error failure) ∧
      site.Shadows unread kept.progress afresh.progress := by
  intro kept afresh
  dsimp only [kept, afresh, renderTaking]
  cases site.startScope origin with
  | error failure => exact ⟨rfl, [], by simp, by simp, .of_nothing rfl rfl rfl⟩
  | ok scope =>
      have first : site.Shadows [] (firstProgress document)
          (firstProgress document) := .of_nothing rfl rfl rfl
      have agree := abreast_linesTaking still (site.levels document) scope 0
        document.children _ _ first
      rcases left : (site.linesTaking site.load (site.levels document) scope 0
        document.children).run.run (firstProgress document) with ⟨result, p⟩
      rcases right : (site.linesTaking site.reload (site.levels document) scope
        0 document.children).run.run (firstProgress document) with ⟨other, q⟩
      rw [left, right] at agree
      dsimp only
      rw [left, right]
      cases agree with
      | ok lines shadows => exact ⟨rfl, [], by simp, by simp, shadows⟩
      | error failure stops =>
          obtain ⟨unread, few, unloadable, shadows⟩ := stops
          exact ⟨rfl, unread, few,
            fun a member => ⟨failure, unloadable a member, rfl⟩, shadows⟩

/-- A rendering that keeps the files it reads gives what one gives that reads
them each time. It keeps the files that the other one can load, in the order in
which they are first loaded, each as it is parsed, and reads them once, apart
from one last file that it may fail with. The parser tells of each of them
once. -/
theorem render_eq_renderAfresh
    (still : site.journal = none)
    (document : Document) (origin : Option Path) :
    let kept := site.render document origin
    let afresh := site.renderAfresh document origin
    kept.result = afresh.result ∧
      kept.progress.files = afresh.progress.files.eraseDups ∧
      (∀ a parsed, (a, parsed) ∈ kept.progress.cache → ∃ bytes source,
        site.store.HasFile a bytes ∧ FileStore.decodeText bytes = .ok source ∧
          Document.parse site.env a.text source = .ok parsed) ∧
      ∃ unread : List Address, unread.length ≤ 1 ∧
        (∀ a ∈ unread, ∃ failure, site.documentAt a = .error failure ∧
          kept.result = .error failure) ∧
        (kept.progress.files ++ unread).Nodup ∧
        kept.progress.loaded =
          (kept.progress.files ++ unread).map Address.text ∧
        afresh.progress.loaded =
          (afresh.progress.files ++ unread).map Address.text ∧
        kept.progress.parsed = kept.progress.files.map Address.text ∧
        afresh.progress.parsed = afresh.progress.files.map Address.text := by
  intro kept afresh
  have shadowed := exists_shadows still document origin
  rw [renderTaking_load] at shadowed
  obtain ⟨same, unread, few, unloadable, shadows⟩ := shadowed
  refine ⟨same, shadows.files, ?_, unread, few, unloadable, ?_,
    shadows.kept.loaded, shadows.afresh.loaded, shadows.kept.parsed,
    shadows.afresh.parsed⟩
  · intro a parsed member
    obtain ⟨bytes, file, stands⟩ :=
      exists_of_documentAt (shadows.kept.stands a parsed member)
    obtain ⟨source, decoded, read⟩ := exists_of_documentIn stands
    exact ⟨bytes, source, file, decoded, read⟩
  · refine shadows.nodup_append few fun a member => ?_
    obtain ⟨failure, fails, _⟩ := unloadable a member
    exact ⟨failure, fails⟩

/-- Importing a file again defines its template again; the file `c` is no
text. -/
theorem render_eq_renderAfresh_redefined :
    let a : Address := ⟨["w", "a"]⟩
    let b : Address := ⟨["w", "b"]⟩
    let site : Site := { store := ⟨⟨["w"]⟩, [(⟨["w"]⟩, .directory),
      (a, .file "%t = \x7b x; \x7d; %inline(%t);".toUTF8),
      (b, .file "%t = \x7b y; \x7d;".toUTF8),
      (⟨["w", "c"]⟩, .file ⟨#[0xff]⟩)]⟩ }
    let document (last : String) : Document :=
      ⟨[.importFile "a" ⟨1, 1⟩, .importFile "b" ⟨2, 1⟩,
      .reference "%t" ⟨3, 1⟩, .importFile "../w/a" ⟨4, 1⟩,
      .importFile last ⟨5, 1⟩], "<string>"⟩
    (site.renderAfresh (document "b") none).result = .ok "x;\ny;\nx;" ∧
      (site.render (document "b") none).result = .ok "x;\ny;\nx;" ∧
      (site.renderAfresh (document "c") none).progress.files = [a, b, a] ∧
      (site.render (document "c") none).progress.files = [a, b] ∧
      (site.render (document "c") none).result =
        .error (.decode ⟨0xff, 0, 0, .invalidStart⟩) ∧
      (site.render (document "c") none).progress.loaded =
        ["/w/a", "/w/b", "/w/c"] := by
  intro a b site document
  have still : site.journal = none := rfl
  have text :
      (site.renderAfresh (document "b") none).result = .ok "x;\ny;\nx;" := by
    decide +kernel
  have files :
      (site.renderAfresh (document "c") none).progress.files = [a, b, a] := by
    decide +kernel
  obtain ⟨same, _⟩ := render_eq_renderAfresh still (document "b") none
  obtain ⟨_, first, _⟩ := render_eq_renderAfresh still (document "c") none
  rw [files] at first
  exact ⟨text, same.trans text, files,
    first, by decide +kernel, by decide +kernel⟩

end Site

end ServerConf
