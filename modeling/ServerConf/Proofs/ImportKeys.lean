import ServerConf.Proofs.LexicalPaths
import ServerConf.Proofs.Loading

/-!
Imports under several spellings. Wherever a rendering comes to an import, its
path leads to an address that is made of names, and two imports lead to the same
one exactly if their ways from the root come to the same. So a file that is
being rendered is not entered once more under another spelling, and one that was
imported before is not read again.
-/

namespace ServerConf

namespace Site

variable {site : Site} {a : Address} {document : Document}
  {progress final : Progress}

theorem lookup_of_load
    (ran : (site.load a).run.run progress = (.ok document, final)) :
    final.cache.lookup a = some document ∧
      ∀ b other, progress.cache.lookup b = some other →
        final.cache.lookup b = some other := by
  rcases load_cases ran with ⟨known, rfl⟩ | ⟨unknown, between, read, rfl⟩
  · exact ⟨known, fun _ _ found => found⟩
  · obtain ⟨_, same, _⟩ := readDocument_ok read
    refine ⟨?_, fun b other found => ?_⟩
    · simp [same, List.lookup_append, unknown]
    · simp [same, List.lookup_append, found]

section Enter

variable {scope later : Scope} {path : String} {position : Position}
  {ss : List Statement}

theorem enter_import_kept
    (entered : (site.enter scope (.importFile path position)).run.run progress =
      (.ok (later, ss), final)) :
    ∃ a document, site.resolveImport scope path = .ok a ∧
      later = scope.enterFile a ∧
      ss = document.children ∧ final.cache.lookup a = some document ∧
      ∀ b other, progress.cache.lookup b = some other →
        final.cache.lookup b = some other := by
  obtain ⟨a, between, target, loading⟩ := Rendering.of_bind_ok entered
  obtain ⟨rfl, resolved, _⟩ := importTarget_ok target
  obtain ⟨document, loaded, ran, collecting⟩ := Rendering.of_bind_ok loading
  obtain ⟨known, kept⟩ := lookup_of_load ran
  cases collecting
  exact ⟨a, document, resolved, rfl, rfl, known, kept⟩

theorem enter_of_mem_stack
    (resolved : site.resolveImport scope path = .ok a)
    (again : a ∈ scope.stack)
    (position : Position) (progress : Progress) :
    (site.enter scope (.importFile path position)).run.run progress =
      (.error (.render (.importCycle ((scope.stack ++ [a]).map Address.text))),
        progress) := by
  have target := site.importTarget_run scope path progress
  simp only [resolved, if_pos again] at target
  exact Rendering.run_bind_of_error target

theorem enter_of_lookup
    (resolved : site.resolveImport scope path = .ok a)
    (fresh : a ∉ scope.stack)
    (known : progress.cache.lookup a = some document)
    (position : Position) :
    (site.enter scope (.importFile path position)).run.run progress =
      (.ok (scope.enterFile a, document.children), { progress with
        templates := progress.templates.collect document.children
        reported := .reusing a.text :: progress.reported }) := by
  have target := site.importTarget_run scope path progress
  simp only [resolved, if_neg fresh] at target
  rw [enter, Rendering.run_bind_of_ok target,
    Rendering.run_bind_of_ok (load_of_lookup known)]
  rfl

end Enter

theorem lookup_of_next {m later : Moment} (next : site.Next m later)
    (known : m.progress.cache.lookup a = some document) :
    later.progress.cache.lookup a = some document := by
  cases next.advances with
  | line | leave | done | split | written => exact known
  | @opened scope inner depth s ss tasks lines progress final opens found =>
      cases s with
      | directive | block | location | definition => cases opens
      | stray => exact (Rendering.not_fail_ok found).elim
      | reference name position =>
          obtain ⟨rfl, _⟩ := enter_reference_ok found
          exact known
      | importFile path position =>
          obtain ⟨_, _, _, _, _, _, persists⟩ := enter_import_kept found
          exact persists a document known

theorem lookup_of_steps {m later : Moment} (steps : site.Steps m later)
    (known : m.progress.cache.lookup a = some document) :
    later.progress.cache.lookup a = some document := by
  induction steps with
  | refl => exact known
  | tail _ next induction => exact lookup_of_next next induction

end Site

structure Scope.IsSettled (scope : Scope) : Prop where
  current : ∀ a ∈ scope.current, a.IsSettled
  stack : ∀ a ∈ scope.stack, a.IsSettled

theorem Scope.IsSettled.enterFile {scope : Scope} {a : Address}
    (settled : scope.IsSettled)
    (named : a.IsSettled) :
    (scope.enterFile a).IsSettled where
  current b member := by
    cases member
    exact named
  stack b member := by
    rcases List.mem_append.1 member with before | last
    · exact settled.stack b before
    · rwa [List.mem_singleton.1 last]

theorem Path.isAbsolute_ofString {text : String} :
    (ofString text).isAbsolute = true ↔ text.toList.head? = some '/' := by
  have root : rootOf text.toList ≠ .relative ↔
      text.toList.head? = some '/' := by
    unfold rootOf
    split <;> simp_all [List.head?_eq_some_iff]
  rw [← root, isAbsolute, bne_iff_ne]
  rfl

theorem Path.hasNull_join {base p : Path} (relative : ¬ p.isAbsolute = true) :
    (base.join p).hasNull = (base.hasNull || p.hasNull) := by
  rw [Bool.eq_iff_iff, Bool.or_eq_true, hasNull_iff, hasNull_iff, hasNull_iff,
    join, if_neg relative]
  simp [or_and_right, exists_or]

theorem Path.isRead_join {base p : Path}
    (read : base.IsRead)
    (other : p.IsRead) :
    (base.join p).IsRead := by
  rw [join]
  split
  · exact other
  · intro part member
    rcases List.mem_append.1 member with before | behind
    · exact read part before
    · exact other part behind

theorem Address.IsSettled.isRead_toPath {a : Address} (settled : a.IsSettled) :
    a.toPath.IsRead :=
  fun part member =>
    ⟨(settled part member).component, (settled part member).whole⟩

theorem Address.IsSettled.parent {a : Address} (settled : a.IsSettled) :
    a.parent.IsSettled :=
  fun part member => settled part (List.mem_of_mem_dropLast member)

namespace Site

variable {site : Site} {scope : Scope} {path : String} {m : Moment}

/-- The working directory is an address of names, as the system tells it, the
base is a path as it is read, and there are no symbolic links. -/
structure IsPlaced (site : Site) : Prop where
  cwd : site.store.cwd.IsSettled
  base : ∀ base ∈ site.base, ∃ text, base = Path.ofString text
  unlinked : site.links = .none

theorem IsPlaced.resolveImport_unlinked
    (placed : site.IsPlaced)
    (scope : Scope)
    (path : String) :
    site.resolveImport scope path =
      ((site.importBase scope).join (Path.ofString path)).resolve?
        site.store.cwd := by
  rw [resolveImport, placed.unlinked]

/-- A moment in the rendering of a document from some file, or from none. -/
def ComesTo (site : Site) (m : Moment) : Prop :=
  ∃ (document : Document) (origin : Option String) (scope : Scope),
    site.startScope (origin.map Path.ofString) = .ok scope ∧
      site.Steps (firstMoment scope document) m

theorem IsPlaced.isRead_importBase
    (placed : site.IsPlaced)
    (settled : scope.IsSettled) :
    (site.importBase scope).IsRead := by
  rw [importBase]
  cases current : scope.current with
  | some file => exact (settled.current file current).parent.isRead_toPath
  | none =>
      cases given : site.base with
      | none => exact placed.cwd.isRead_toPath
      | some base =>
          obtain ⟨text, rfl⟩ := placed.base base given
          exact Path.ofString_isRead text

theorem IsPlaced.isSettled_resolveImport
    (placed : site.IsPlaced)
    (settled : scope.IsSettled)
    {a : Address}
    (resolved : site.resolveImport scope path = .ok a) :
    a.IsSettled := by
  have read := Path.isRead_join (placed.isRead_importBase settled)
    (Path.ofString_isRead path)
  rw [placed.resolveImport_unlinked] at resolved
  exact read.isSettled_resolve placed.cwd resolved

theorem IsPlaced.keeps_isSettled (placed : site.IsPlaced) :
    site.Keeps (fun _ => True) Scope.IsSettled (fun _ _ => True) where
  inside _ _ _ := trivial
  enter {scope s progress later ss final} opens _ settled _ entered := by
    refine ⟨trivial, ?_, fun _ _ => trivial⟩
    cases s with
    | directive | block | location | definition => cases opens
    | stray => exact (Rendering.not_fail_ok entered).elim
    | reference name position =>
        obtain ⟨_, rfl, _⟩ := enter_reference_ok entered
        exact ⟨settled.current, settled.stack⟩
    | importFile path position =>
        obtain ⟨a, _, resolved, rfl, _⟩ := enter_import_kept entered
        exact settled.enterFile
          (placed.isSettled_resolveImport settled resolved)

theorem ComesTo.isSettled
    (placed : site.IsPlaced)
    (comes : site.ComesTo m) :
    m.scope.IsSettled := by
  obtain ⟨document, origin, scope, started, steps⟩ := comes
  have first : scope.IsSettled := by
    rcases startScope_cases started with
      ⟨_, rfl⟩ | ⟨path, a, given, resolved, rfl⟩
    · exact ⟨by simp, by simp⟩
    · obtain ⟨text, _, rfl⟩ := Option.map_eq_some_iff.1 given
      rw [placed.unlinked] at resolved
      have named :=
        (Path.ofString_isRead text).isSettled_resolve placed.cwd resolved
      exact ⟨by simpa using named, by simpa using named⟩
  have begins : (firstMoment scope document).Holds (fun _ => True)
      Scope.IsSettled (fun _ _ => True) := ⟨trivial, fun _ _ => trivial, first⟩
  exact (placed.keeps_isSettled.steps begins steps).tasks.here

/-- The way from the root to the directory that relative imports start from. -/
def directory (site : Site) (scope : Scope) : List String :=
  match scope.current, site.base with
  | some file, _ => file.parent.parts
  | none, some base =>
      (if base.isAbsolute then [] else site.store.cwd.parts) ++ base.parts
  | none, none => site.store.cwd.parts

/-- The way from the root to what an import names, as it is spelled. -/
def wayTo (site : Site) (scope : Scope) (path : String) : List String :=
  (if path.toList.head? = some '/' then [] else site.directory scope) ++
    Path.spelled path

/-- There is no null character in the path, nor in the base where the path
starts from that. -/
structure NullFree (site : Site) (scope : Scope) (path : String) : Prop where
  named : '\x00' ∉ path.toList
  based : path.toList.head? ≠ some '/' → scope.current = none →
    ∀ base ∈ site.base, base.hasNull = false

theorem directory_eq (site : Site) (scope : Scope) :
    site.directory scope =
      (if (site.importBase scope).isAbsolute then []
        else site.store.cwd.parts) ++
        (site.importBase scope).parts := by
  rw [directory, importBase]
  cases scope.current with
  | some file => rfl
  | none => cases site.base <;> rfl

theorem IsPlaced.filter_directory
    (placed : site.IsPlaced)
    (settled : scope.IsSettled) :
    (site.directory scope).filter Path.leads = site.directory scope := by
  rw [List.filter_eq_self, directory_eq]
  intro part member
  rcases List.mem_append.1 member with before | own
  · split at before
    · cases before
    · exact (placed.cwd part before).component
  · exact (placed.isRead_importBase settled part own).1

theorem IsPlaced.resolve_eq
    (placed : site.IsPlaced)
    (settled : scope.IsSettled)
    (path : String) :
    ((site.importBase scope).join (Path.ofString path)).resolve site.store.cwd =
      .ofWay (site.wayTo scope path) := by
  rw [Address.ofWay, wayTo, List.filter_append, ← Path.parts_ofString,
    Path.join]
  by_cases absolute : path.toList.head? = some '/'
  · have rooted := Path.isAbsolute_ofString.2 absolute
    rw [if_pos rooted, if_pos absolute, Path.resolve, if_pos rooted]
    rfl
  · have relative := mt Path.isAbsolute_ofString.1 absolute
    rw [if_neg relative, if_neg absolute, placed.filter_directory settled,
      directory_eq, List.append_assoc]
    rfl

theorem IsPlaced.hasNull_importBase
    (placed : site.IsPlaced)
    (settled : scope.IsSettled) :
    (site.importBase scope).hasNull = false ↔
      (scope.current = none → ∀ base ∈ site.base, base.hasNull = false) := by
  rw [importBase]
  cases current : scope.current with
  | some file =>
      exact iff_of_true (settled.current file current).parent.hasNull_toPath
        fun none => by cases none
  | none =>
      cases site.base with
      | none =>
          exact iff_of_true placed.cwd.hasNull_toPath
            fun _ base given => by cases given
      | some base => simp

theorem IsPlaced.hasNull_eq_false_iff
    (placed : site.IsPlaced)
    (settled : scope.IsSettled) :
    ((site.importBase scope).join (Path.ofString path)).hasNull = false ↔
      site.NullFree scope path := by
  by_cases absolute : path.toList.head? = some '/'
  · rw [Path.join, if_pos (Path.isAbsolute_ofString.2 absolute),
      ← Bool.not_eq_true, Path.hasNull_ofString]
    exact ⟨fun named => ⟨named, fun relative => absurd absolute relative⟩,
      NullFree.named⟩
  · rw [Path.hasNull_join (mt Path.isAbsolute_ofString.1 absolute),
      Bool.or_eq_false_iff, placed.hasNull_importBase settled,
      ← Bool.not_eq_true (Path.hasNull _), Path.hasNull_ofString]
    exact ⟨fun both => ⟨both.2, fun _ => both.1⟩,
      fun free => ⟨free.based absolute, free.named⟩⟩

theorem IsPlaced.resolveImport_eq
    (placed : site.IsPlaced)
    (settled : scope.IsSettled)
    (free : site.NullFree scope path) :
    site.resolveImport scope path = .ok (.ofWay (site.wayTo scope path)) := by
  rw [placed.resolveImport_unlinked, Path.resolve?,
    (placed.hasNull_eq_false_iff settled).2 free, Links.resolve_none,
    placed.resolve_eq settled]
  rfl

/-- At the moment an import is the next to be written, and at the later one the
statements of the file. -/
def Follows
    (site : Site) (m : Moment) (path : String) (ss : List Statement)
    (later : Moment) :
    Prop :=
  ∃ depth position tasks,
    m.tasks = .statement depth (.importFile path position) :: tasks ∧
    later.tasks = .statements depth ss :: .leave m.scope :: tasks ∧
      site.Next m later

theorem Follows.exists_kept {ss : List Statement} {later : Moment} {a : Address}
    (follows : site.Follows m path ss later)
    (resolved : site.resolveImport m.scope path = .ok a) :
    ∃ document, ss = document.children ∧
      later.progress.cache.lookup a = some document := by
  obtain ⟨scope, tasks, lines, progress⟩ := m
  obtain ⟨depth, position, rest, rfl, behind, next⟩ := follows
  cases next.advances with
  | opened opens found =>
      obtain ⟨b, document, again, _, rfl, known, _⟩ := enter_import_kept found
      cases resolved.symm.trans again
      cases behind
      exact ⟨document, rfl, known⟩
  | written closed => exact absurd rfl closed

theorem ComesTo.mem_stack_iff
    (placed : site.IsPlaced)
    (comes : site.ComesTo m)
    {a : Address}
    (settled : a.IsSettled) :
    a.text ∈ m.scope.stack.map Address.text ↔ a ∈ m.scope.stack := by
  constructor
  · intro member
    obtain ⟨b, among, same⟩ := List.mem_map.1 member
    rwa [← ((comes.isSettled placed).stack b among).text_inj settled |>.1 same]
  · exact List.mem_map_of_mem

/-- Wherever a rendering comes to an import and no null character is in the way,
the path leads to an address whose text begins with one slash and has no
component that is empty, `.` or `..`. That text leads there from everywhere.
Another import leads to an address with the same text exactly if its way comes
to the same, in whatever file it stands. Then it is a cycle if the address is
among those being rendered; and otherwise, once the first import was followed,
it gives the statements that were kept from that, and nothing is read. -/
theorem resolveImport_canonical
    (placed : site.IsPlaced)
    (comes : site.ComesTo m)
    (free : site.NullFree m.scope path) :
    ∃ a, site.resolveImport m.scope path = .ok a ∧ Path.IsCanonical a.text ∧
      (∀ (other : Site) (scope : Scope), other.links = .none →
        other.resolveImport scope a.text = .ok a) ∧
      ∀ (n : Moment) (spelling : String), site.ComesTo n →
        site.NullFree n.scope spelling →
        ((site.resolveImport n.scope spelling).map Address.text = .ok a.text ↔
          Path.SamePlace (site.wayTo m.scope path)
            (site.wayTo n.scope spelling)) ∧
        (Path.SamePlace (site.wayTo m.scope path)
          (site.wayTo n.scope spelling) →
          ∀ position : Position,
            (a.text ∈ n.scope.stack.map Address.text →
              (site.enter n.scope (.importFile spelling position)).run.run
                n.progress =
                (.error (.render
                  (.importCycle (n.scope.stack.map Address.text ++ [a.text]))),
                  n.progress)) ∧
            (a.text ∉ n.scope.stack.map Address.text →
              ∀ ss later, site.Follows m path ss later → site.Steps later n →
                (site.enter n.scope (.importFile spelling position)).run.run
                  n.progress =
                  (.ok (n.scope.enterFile a, ss), { n.progress with
                    templates := n.progress.templates.collect ss
                    reported :=
                      .reusing a.text :: n.progress.reported }))) := by
  have here := comes.isSettled placed
  have resolved := placed.resolveImport_eq here free
  have settled := placed.isSettled_resolveImport here resolved
  refine ⟨_, resolved, settled.isCanonical_text, ?_, ?_⟩
  · intro other scope unlinked
    rw [resolveImport, unlinked]
    exact settled.resolve?_text _ _
  intro n spelling comesToo freeToo
  have there := comesToo.isSettled placed
  have resolvedToo := placed.resolveImport_eq there freeToo
  have settledToo := placed.isSettled_resolveImport there resolvedToo
  refine ⟨?_, fun same position => ?_⟩
  · rw [resolvedToo, Path.samePlace_iff]
    exact ⟨fun texts =>
      ((settledToo.text_inj settled).1 (Except.ok.inj texts)).symm,
      fun same => congrArg (fun b => Except.ok (Address.text b)) same.symm⟩
  · rw [← Path.samePlace_iff.1 same] at resolvedToo
    rw [comesToo.mem_stack_iff placed settled]
    refine ⟨fun again => ?_, fun fresh ss later follows steps => ?_⟩
    · rw [enter_of_mem_stack resolvedToo again, List.map_append]
      rfl
    · obtain ⟨document, rfl, known⟩ := follows.exists_kept resolved
      exact enter_of_lookup resolvedToo fresh
        (lookup_of_steps steps known) position

/-- A document starts from a base and imports one file twice, the second time
over a detour. -/
theorem resolveImport_canonical_detour :
    let f : Address := ⟨["w", "f"]⟩
    let site : Site :=
      { store := ⟨⟨["w"]⟩, [(⟨["w"]⟩, .directory), (f, .file "".toUTF8)]⟩
        base := some (Path.ofString "/w//b/.") }
    ∃ m ss later n, site.ComesTo m ∧ site.NullFree m.scope "../f" ∧
      site.Follows m "../f" ss later ∧ site.Steps later n ∧
        Path.IsCanonical f.text ∧
      site.resolveImport n.scope f.text = .ok f ∧
      (site.enter n.scope (.importFile "x/.././..//f/" ⟨2, 1⟩)).run.run
        n.progress =
        (.ok (n.scope.enterFile f, ss), { n.progress with
          templates := n.progress.templates.collect ss
          reported := .reusing f.text :: n.progress.reported }) := by
  intro f site
  let first : Statement := .importFile "../f" ⟨1, 1⟩
  let second : Statement := .importFile "x/.././..//f/" ⟨2, 1⟩
  let document : Document := ⟨[first, second], "m"⟩
  let m : Moment := ⟨{}, [.statement 0 first, .statements 0 [second]], [],
    firstProgress document⟩
  have placed : site.IsPlaced :=
    ⟨by decide +kernel,
      fun base given => ⟨"/w//b/.", (Option.some.inj given).symm⟩, rfl⟩
  have begins : site.Next (firstMoment {} document) m := rfl
  have comes : site.ComesTo m := ⟨document, none, {}, rfl, .single begins⟩
  have free : ∀ path : String, '\x00' ∉ path.toList →
      site.NullFree {} path := by
    refine fun path named => ⟨named, fun _ _ base given => ?_⟩
    rw [← Option.some.inj given]
    decide +kernel
  have leads :
      ((site.enter {} first).run.run (firstProgress document)).1.toOption.map
      (fun found => (found.1, found.2.isEmpty)) =
      some (Scope.enterFile {} f, true) := by
    decide +kernel
  rcases entered : (site.enter {} first).run.run (firstProgress document) with
    ⟨_ | ⟨inner, ss⟩, final⟩
  · rw [entered] at leads
    cases leads
  rw [entered] at leads
  obtain ⟨rfl, empty⟩ := Prod.mk.inj (Option.some.inj leads)
  obtain rfl : ss = [] := List.isEmpty_iff.1 empty
  let later : Moment :=
    ⟨Scope.enterFile {} f,
      [.statements 0 [], .leave {}, .statements 0 [second]], [], final⟩
  let n : Moment := ⟨{}, [.statement 0 second, .statements 0 []], [], final⟩
  have next : site.Next m later := by
    simp only [Next, m, turn, entered]
    rfl
  have steps : site.Steps later n := .tail (.tail (.single rfl) rfl) rfl
  have comesToo : site.ComesTo n :=
    ⟨document, none, {}, rfl,
      ((Relation.ReflTransGen.single begins).tail next).trans steps⟩
  have same :
      Path.SamePlace (site.wayTo {} "../f") (site.wayTo {} "x/.././..//f/") :=
    Path.samePlace_iff.2 (by decide +kernel)
  obtain ⟨a, resolved, canonical, fixed, spellings⟩ :=
    resolveImport_canonical placed comes (free "../f" (by decide))
  have here : site.resolveImport {} "../f" = .ok f := by decide +kernel
  obtain rfl : f = a := Except.ok.inj (here.symm.trans resolved)
  have follows : site.Follows m "../f" [] later :=
    ⟨0, ⟨1, 1⟩, [.statements 0 [second]], rfl, rfl, next⟩
  obtain ⟨_, again⟩ := spellings n "x/.././..//f/" comesToo (free _ (by decide))
  exact ⟨m, [], later, n, comes, free _ (by decide), follows, steps, canonical,
    fixed site _ rfl,
    (again same ⟨2, 1⟩).2 List.not_mem_nil [] later follows steps⟩

/-- A null character in the base keeps a path without one from leading
anywhere. -/
theorem resolveImport_null_base :
    let site : Site :=
      { store := ⟨⟨["w"]⟩, []⟩, base := some (Path.ofString "\x00") }
    let m := firstMoment {} ⟨[.importFile "a" ⟨1, 1⟩], "m"⟩
    site.IsPlaced ∧ site.ComesTo m ∧ '\x00' ∉ "a".toList ∧
      ∀ a, site.resolveImport m.scope "a" ≠ .ok a := by
  intro site m
  have failed : site.resolveImport m.scope "a" = .error .nullInPath := by
    decide +kernel
  refine ⟨⟨by decide +kernel,
    fun base given => ⟨"\x00", (Option.some.inj given).symm⟩, rfl⟩,
    ⟨_, none, {}, rfl, .refl⟩, by decide, fun a resolved => ?_⟩
  rw [failed] at resolved
  cases resolved

end Site

end ServerConf
