import ServerConf.Proofs.ImportGraph
import ServerConf.Proofs.LocationShorthand

/-!
Imports written out. A file without templates and imports of its own is rendered
as if its statements stood where it is imported. The scope differs there, and so
do the files that were read, but what has no imports does not depend on either.
-/

namespace ServerConf

theorem collectedIn_eq_nil {d : Document} (bare : d.definitions = []) :
    collectedIn d.children = [] := by
  have count := length_collectedIn_le d.children
  rw [← Document.length_definitions, bare] at count
  exact List.length_eq_zero_iff.1 (Nat.le_zero.1 count)

theorem PlainTemplates.of_definitions {d : Document}
    (bare : d.definitions = []) :
    PlainTemplates d.children := by
  intro name body opening position member
  have found : (name, position) ∈ d.definitions :=
    List.mem_filterMap.2 ⟨_, member, rfl⟩
  rw [bare] at found
  cases found

theorem PlainTemplates.of_importFree {ss : List Statement}
    (importFree : ImportFree ss) :
    PlainTemplates ss := by
  intro name body opening position member
  exact importFree.mono (walkIn_children_subset member)

namespace Rendering

variable {α β : Type} {keep : Progress → Progress → Prop}

/-- From related progress two renderings come to the same result, unless the
first one has too few levels for it. -/
def UnlessTooDeep (keep : Progress → Progress → Prop) (x y : Rendering α) :
    Prop :=
  ∀ p q, keep p q → (x.run.run p).1 = .error .nestedTooDeep ∨
    Agree keep (fun _ _ _ => True) (x.run.run p) (y.run.run q)

namespace UnlessTooDeep

theorem of_abreast {x y : Rendering α}
    (abreast : Abreast keep (fun _ _ _ => True) x y) :
    UnlessTooDeep keep x y :=
  fun p q kept => .inr (abreast p q kept)

theorem bind {x y : Rendering α} {f g : α → Rendering β}
    (first : UnlessTooDeep keep x y)
    (next : ∀ a, UnlessTooDeep keep (f a) (g a)) :
    UnlessTooDeep keep (x >>= f) (y >>= g) := by
  intro p q kept
  have agree := first p q kept
  rcases left : x.run.run p with ⟨result, between⟩
  rcases right : y.run.run q with ⟨other, later⟩
  rw [left, right] at agree
  rcases agree with deep | agree
  · dsimp only at deep
    subst deep
    rw [run_bind_of_error left]
    exact .inl rfl
  · cases agree with
    | ok a kept =>
        rw [run_bind_of_ok left, run_bind_of_ok right]
        exact next a between later kept
    | error failure =>
        rw [run_bind_of_error left, run_bind_of_error right]
        exact .inr (.error failure trivial)

theorem bind_of_reads {x y : Rendering α} {f g : α → Rendering β}
    (reads : ∀ p q, keep p q → ∃ result, x.run.run p = (result, p) ∧ y.run.run
      q = (result, q) ∧ ∀ a, result = .ok a → UnlessTooDeep keep (f a) (g a)) :
    UnlessTooDeep keep (x >>= f) (y >>= g) := by
  intro p q kept
  obtain ⟨result, left, right, next⟩ := reads p q kept
  cases result with
  | ok a =>
      rw [run_bind_of_ok left, run_bind_of_ok right]
      exact next a rfl p q kept
  | error failure =>
      rw [run_bind_of_error left, run_bind_of_error right]
      exact .inr (.error failure trivial)

theorem congruence : Congruence (UnlessTooDeep keep) where
  pure a := of_abreast (.pure a)
  fail failure := of_abreast (.fail (fun _ _ _ _ => trivial) failure)
  bind := bind

end UnlessTooDeep

end Rendering

namespace Site

open Rendering

variable {site : Site}

theorem render_ne_nestedTooDeep
    (still : site.journal = none)
    (document : Document) {origin : Option Path} {scope : Scope}
    (started : site.startScope origin = .ok scope) :
    (site.render document origin).result ≠ .error .nestedTooDeep := by
  intro deep
  obtain ⟨_, _, _, _, _, _, _, _, _, stumbles⟩ :=
    (render_eq_unreported still started).1 ⟨deep, rfl⟩
  cases stumbles with
  | notText _ _ _ unread =>
      rw [FileStore.decodeText] at unread
      split at unread <;> cases unread

/-- The same templates are known, none of them with an import, and what was read
stands in the files. -/
structure SameTemplates (site : Site) (p q : Progress) : Prop where
  templates : p.templates = q.templates
  importFree : ∀ name body, p.templates.get? name = some body → ImportFree body
  cached : site.Cached p
  cachedToo : site.Cached q

abbrev SameUnlessDeep (site : Site) {α : Type} :
    Rendering α → Rendering α → Prop :=
  UnlessTooDeep site.SameTemplates

theorem unlessDeep_templateBody {scope inner : Scope}
    (same : scope.expanding = inner.expanding)
    (name : String) (position : Position) {α : Type}
    {f g : List Statement → Rendering α}
    (next : ∀ body, ImportFree body → site.SameUnlessDeep (f body) (g body)) :
    site.SameUnlessDeep (templateBody scope name position >>= f)
      (templateBody inner name position >>= g) := by
  apply UnlessTooDeep.bind_of_reads
  intro p q kept
  refine ⟨_, templateBody_run scope name position p, ?_, ?_⟩
  · rw [kept.templates, same]
    exact templateBody_run inner name position q
  · intro body found
    split at found
    · cases found
    · rename_i defined
      split at found
      · cases found
      · cases found
        exact next body (kept.importFree name body defined)

theorem unlessDeep_importTarget
    (scope : Scope) (path : String) {α : Type} {f g : Address → Rendering α}
    (next : ∀ a, site.resolveImport scope path = .ok a →
      site.SameUnlessDeep (f a) (g a)) :
    site.SameUnlessDeep (site.importTarget scope path >>= f)
      (site.importTarget scope path >>= g) := by
  apply UnlessTooDeep.bind_of_reads
  intro p q _
  refine ⟨_, importTarget_run scope path p, importTarget_run scope path q, ?_⟩
  intro a found
  split at found
  · cases found
  · rename_i resolved
    split at found
    · cases found
    · cases found
      exact next a resolved

theorem unlessDeep_of_importFree (levels : Nat) :
    ∀ {more scope inner ss}, levels ≤ more → scope.expanding = inner.expanding →
      ImportFree ss →
      ∀ depth, site.SameUnlessDeep (site.linesWithin levels scope depth ss)
        (site.linesWithin more inner depth ss) := by
  induction levels with
  | zero =>
      intro more scope inner ss _ _ _ depth p q _
      exact .inl rfl
  | succ levels induction =>
      intro more scope inner ss enough same importFree
      obtain ⟨more, rfl⟩ :=
        Nat.exists_eq_add_of_le' (Nat.le_trans (Nat.le_add_left 1 _) enough)
      apply UnlessTooDeep.congruence.linesOf_of_leaves
      · intro depth name position _
        apply unlessDeep_templateBody same
        intro body bare
        exact induction (Nat.le_of_succ_le_succ enough)
          (congrArg (· ++ [name]) same) bare depth
      · intro depth path position member
        exact absurd (mem_walkIn_of_mem_leavesIn member)
          (importFree path position)

def AllPlain (site : Site) : Prop :=
  ∀ a document, ".." ∉ a.parts → site.documentAt a = .ok document →
    PlainTemplates document.children

section Files

variable (still : site.journal = none)
  (plain : site.AllPlain)

include still plain

theorem unlessDeep_load {a : Address} (settled : ".." ∉ a.parts) {α : Type}
    {f g : List Statement → Rendering α}
    (next : ∀ document, site.documentAt a = .ok document →
      site.SameUnlessDeep (f document.children) (g document.children)) :
    site.SameUnlessDeep
      (do
        let document ← site.load a
        collect document.children
        f document.children)
      (do
        let document ← site.load a
        collect document.children
        g document.children) := by
  intro p q kept
  obtain ⟨between, left, known, cached⟩ := load_run still kept.cached a
  obtain ⟨later, right, knownToo, cachedToo⟩ := load_run still kept.cachedToo a
  cases stands : site.documentAt a with
  | error failure =>
      rw [stands] at left right
      rw [run_bind_of_error left, run_bind_of_error right]
      exact .inr (.error failure trivial)
  | ok document =>
      rw [stands] at left right
      rw [run_bind_of_ok left, run_bind_of_ok right]
      apply next document stands
      refine ⟨?_, ?_, cached, cachedToo⟩
      · have same := known.trans (kept.templates.trans knownToo.symm)
        exact congrArg (·.collect document.children) same
      · intro name body found
        rcases Templates.mem_of_get?_collect found with new | old
        · exact (plain a document settled stands).of_collected new
        · exact kept.importFree name body (known ▸ old)

theorem unlessDeep_linesWithin (levels : Nat) :
    ∀ scope depth ss,
      site.SameUnlessDeep (site.linesWithin levels scope depth ss)
      (site.linesWithin levels scope depth ss) := by
  induction levels with
  | zero =>
      intro scope depth ss p q _
      exact .inl rfl
  | succ levels induction =>
      intro scope depth ss
      apply UnlessTooDeep.congruence.linesOf
      · intro depth name position
        apply unlessDeep_templateBody rfl
        intro body _
        exact induction _ depth body
      · intro depth path
        apply unlessDeep_importTarget scope path
        intro a resolved
        apply unlessDeep_load still plain (not_mem_resolveImport resolved)
        intro document _
        exact induction _ depth document.children

end Files

/-- Some imports that lead to the file, in blocks and locations but not in
templates, are replaced by the statements of the file. -/
inductive InPlace
    (site : Site) (scope : Scope) (a : Address) (file : List Statement) :
    List Statement → List Statement → Prop where
  | nil : InPlace site scope a file [] []
  | keep (s : Statement) {rest out : List Statement}
      (behind : InPlace site scope a file rest out) :
      InPlace site scope a file (s :: rest) (s :: out)
  | block {name : String} {args : List String}
      {children inner rest out : List Statement} {position : Position}
      (inside : InPlace site scope a file children inner)
      (behind : InPlace site scope a file rest out) :
      InPlace site scope a file (.block name args children position :: rest)
        (.block name args inner position :: out)
  | location {modifier : Modifier} {paths : List String}
      {children inner rest out : List Statement} {position : Position}
      (inside : InPlace site scope a file children inner)
      (behind : InPlace site scope a file rest out) :
      InPlace site scope a file
        (.location modifier paths children position :: rest)
        (.location modifier paths inner position :: out)
  | replace {path : String} {position : Position} {rest out : List Statement}
      (leads : site.resolveImport scope path = .ok a)
      (behind : InPlace site scope a file rest out) :
      InPlace site scope a file (.importFile path position :: rest)
        (file ++ out)

theorem InPlace.collectedIn_eq
    {scope : Scope} {a : Address} {file ss out : List Statement}
    (bare : collectedIn file = [])
    (inPlace : site.InPlace scope a file ss out) :
    collectedIn out = collectedIn ss := by
  induction inPlace with
  | nil => rfl
  | keep s _ behind => rw [collectedIn, collectedIn, behind]
  | block _ _ inside behind | location _ _ inside behind =>
      rw [collectedIn, collectedIn, Statement.collected, Statement.collected,
        inside, behind]
  | replace _ _ behind =>
      simp [collectedIn_append, bare, behind, collectedIn, Statement.collected]

section Replace

variable {scope : Scope}
  {a : Address}
  {file : Document}
  (still : site.journal = none)
  (stands : site.documentAt a = .ok file)
  (bare : file.definitions = [])
  (importless : file.imports = [])
  (elsewhere : a ∉ scope.stack)

include still stands bare importless elsewhere

theorem unlessDeep_replace {path : String}
    (leads : site.resolveImport scope path = .ok a)
    (levels depth : Nat) :
    site.SameUnlessDeep ((site.handlers levels scope).importFile depth path)
      (linesOf site.options (site.handlers levels scope) depth
        file.children) := by
  rw [← linesWithin_succ]
  intro p q kept
  have target : (site.importTarget scope path).run.run p = (.ok a, p) := by
    rw [importTarget_run, leads]
    dsimp only
    rw [if_neg elsewhere]
  obtain ⟨between, loaded, known, cached⟩ := load_run still kept.cached a
  rw [stands] at loaded
  have entered : (site.enter scope (.importFile path ⟨0, 0⟩)).run.run p =
      (.ok (scope.enterFile a, file.children),
        { between with
          templates := between.templates.collect file.children }) := by
    rw [enter, run_bind_of_ok target, run_bind_of_ok loaded]
    rfl
  have same : between.templates.collect file.children = p.templates := by
    rw [Templates.collect, collectedIn_eq_nil bare]
    exact known
  rw [handlers, run_bind_of_ok entered]
  have chain : (scope.enterFile a).expanding = scope.expanding := rfl
  apply unlessDeep_of_importFree levels (Nat.le_succ levels) chain
    (.of_imports importless)
  refine ⟨same.trans kept.templates, ?_, cached, kept.cachedToo⟩
  rw [same]
  exact kept.importFree

theorem unlessDeep_inPlace
    (plain : site.AllPlain)
    {ss out : List Statement}
    (inPlace : site.InPlace scope a file.children ss out)
    (levels : Nat) :
    ∀ depth, site.SameUnlessDeep
      (linesOf site.options (site.handlers levels scope) depth ss)
      (linesOf site.options (site.handlers levels scope) depth out) := by
  have unchanged : ∀ depth (s : Statement), site.SameUnlessDeep
      (s.lines site.options (site.handlers levels scope) depth)
      (s.lines site.options (site.handlers levels scope) depth) := by
    intro depth s
    have alone :=
      unlessDeep_linesWithin still plain (levels + 1) scope depth [s]
    rw [linesWithin_succ] at alone
    simpa [linesOf] using alone
  induction inPlace with
  | nil =>
      intro depth
      exact UnlessTooDeep.congruence.pure []
  | keep s _ behind =>
      intro depth
      exact UnlessTooDeep.congruence.linesOf_cons (unchanged depth s)
        (behind depth)
  | block _ _ inside behind =>
      intro depth
      exact UnlessTooDeep.congruence.linesOf_cons
        (UnlessTooDeep.congruence.lines_block (inside (depth + 1)))
          (behind depth)
  | location _ _ inside behind =>
      intro depth
      exact UnlessTooDeep.congruence.linesOf_cons
        (UnlessTooDeep.congruence.lines_location (inside (depth + 1)))
          (behind depth)
  | replace leads _ behind =>
      intro depth
      rw [linesOf, linesOf_append, Statement.lines]
      apply UnlessTooDeep.bind
        (unlessDeep_replace still stands bare importless elsewhere leads
          levels depth)
      intro here
      exact .bind (behind depth) fun there => UnlessTooDeep.congruence.pure _

end Replace

theorem InPlace.sameTemplates
    {document other : Document} {scope : Scope} {a : Address}
    {file : List Statement}
    (bare : collectedIn file = [])
    (own : PlainTemplates document.children)
    (inPlace : site.InPlace scope a file document.children other.children) :
    site.SameTemplates (firstProgress document) (firstProgress other) := by
  refine ⟨?_, ?_, ?_, ?_⟩
  · have same := inPlace.collectedIn_eq bare
    rw [firstProgress, firstProgress, Templates.collect,
      Templates.collect, same]
  · intro name body found
    rw [get?_firstProgress] at found
    exact own.of_collected (mem_collectedIn_of_lastDefinition found)
  · intro b stored found
    cases found
  · intro b stored found
    cases found

/-- The statements of a file that defines no templates and imports nothing may
stand in the place of any imports that lead to it: the text or the failure is
the same. -/
theorem render_inPlace
    (still : site.journal = none)
    {document other : Document} {origin : Option Path} {scope : Scope}
    (started : site.startScope origin = .ok scope)
    {a : Address} {file : Document}
    (stands : site.documentAt a = .ok file)
    (bare : file.definitions = [])
    (importless : file.imports = [])
    (elsewhere : a ∉ scope.stack)
    (own : PlainTemplates document.children)
    (others : ∀ b bytes, (b, bytes) ∈ site.store.files → b ≠ a →
      ∀ stored, site.documentAt b = .ok stored → PlainTemplates stored.children)
    (inPlace :
      site.InPlace scope a file.children document.children other.children) :
    (site.render other origin).result =
      (site.render document origin).result := by
  have plain : site.AllPlain := by
    intro b stored settled found
    by_cases same : b = a
    · subst same
      cases stands.symm.trans found
      exact .of_definitions bare
    · obtain ⟨bytes, standing, _⟩ := exists_of_documentAt found
      exact others b bytes (FileStore.mem_files_of_hasFile settled standing)
        same stored found
  let levels := max (site.levels document) (site.levels other)
  obtain ⟨result, final, ran, rendered⟩ :=
    exists_run_of_levels_le still started
      (Nat.le_succ_of_le (Nat.le_max_left _ _) : site.levels document ≤
        levels + 1)
  obtain ⟨written, later, ranToo, renderedToo⟩ :=
    exists_run_of_levels_le still started
      (Nat.le_succ_of_le (Nat.le_max_right _ _) : site.levels other ≤
        levels + 1)
  have first := inPlace.sameTemplates (collectedIn_eq_nil bare) own
  have agree := unlessDeep_inPlace still stands bare importless elsewhere plain
    inPlace levels 0 _ _ first
  rw [← linesWithin_succ, ← linesWithin_succ, ran, ranToo] at agree
  rcases agree with deep | agree
  · have enough := render_ne_nestedTooDeep still document started
    rw [rendered] at enough
    dsimp only at deep
    rw [deep] at enough
    exact absurd rfl enough
  · rw [rendered, renderedToo]
    cases agree <;> rfl

/-- The file `f` uses the template of the document and, where it is imported
again, that of the file `g`. -/
theorem render_inPlace_twice :
    let f : Address := ⟨["w", "f"]⟩
    let g : Address := ⟨["w", "g"]⟩
    let site : Site := { store := ⟨⟨["w"]⟩, [(⟨["w"]⟩, .directory),
      (f, .file "%inline(%t); location /a \x7b y; \x7d".toUTF8),
      (g, .file "%t = \x7b z; \x7d;".toUTF8)]⟩ }
    let template : Statement :=
      .definition "%t" [.directive "x" [] ⟨1, 8⟩] ⟨1, 6⟩ ⟨1, 1⟩
    let v : Statement := .directive "v" [] ⟨5, 1⟩
    let document : Document :=
      ⟨[template, .block "http" [] [.importFile "f" ⟨2, 8⟩, v] ⟨2, 1⟩,
      .importFile "g" ⟨3, 1⟩, .importFile "../w/f" ⟨4, 1⟩, v], "m"⟩
    let other (file : Document) : Document :=
      ⟨template :: .block "http" [] (file.children ++ [v]) ⟨2, 1⟩ ::
        .importFile "g" ⟨3, 1⟩ :: (file.children ++ [v]), "m"⟩
    let text :=
      "http \x7b\n  x;\n  location /a \x7b\n    y;\n  \x7d\n  v;\n\x7d\n" ++
      "z;\nlocation /a \x7b\n  y;\n\x7d\nv;"
    ∃ file, site.documentAt f = .ok file ∧
      (site.render document (some ⟨.relative, ["m"]⟩)).result = .ok text ∧
      (site.render (other file) (some ⟨.relative, ["m"]⟩)).result =
        .ok text := by
  intro f g site template v document other text
  have started : site.startScope (some ⟨.relative, ["m"]⟩) =
      .ok ⟨[⟨["w", "m"]⟩], some ⟨["w", "m"]⟩, []⟩ := by
    decide +kernel
  have plain : (site.documentAt f).toOption.map
      (fun d => (d.definitions, d.imports)) = some ([], []) := by
    decide +kernel
  have importless :
      (site.documentAt g).toOption.map Document.imports = some [] := by
    decide +kernel
  have rendered :
      (site.render document (some ⟨.relative, ["m"]⟩)).result = .ok text := by
    decide +kernel
  have own : PlainTemplates document.children := by
    intro name body opening place member
    simp only [document, template, v, mem_walkIn_cons, Statement.children,
      walkIn_nil, List.not_mem_nil, reduceCtorEq, Statement.definition.injEq,
      or_false] at member
    rw [member.2.1]
    intro path position inside
    simp [Statement.children] at inside
  have others : ∀ b bytes, (b, bytes) ∈ site.store.files → b ≠ f →
      ∀ stored, site.documentAt b = .ok stored →
        PlainTemplates stored.children := by
    intro b bytes member apart stored found
    have last : b = g := by
      simp only [site, FileStore.files, List.filterMap_cons, List.filterMap_nil,
        List.mem_cons, Prod.mk.injEq, List.not_mem_nil, or_false] at member
      exact (member.resolve_left fun same => apart same.1).1
    rw [last] at found
    rw [found] at importless
    exact .of_importFree (.of_imports (Option.some.inj importless))
  cases stands : site.documentAt f with
  | error failure =>
      rw [stands] at plain
      cases plain
  | ok file =>
      rw [stands] at plain
      have empty := Prod.ext_iff.1 (Option.some.inj plain)
      have inPlace : site.InPlace ⟨[⟨["w", "m"]⟩], some ⟨["w", "m"]⟩,
          []⟩ f file.children document.children (other file).children := .keep
        template (.block (.replace (by decide +kernel) (.keep v .nil)) (.keep
        (.importFile "g" ⟨3, 1⟩) (.replace (by decide +kernel) (.keep v .nil))))
      have same := render_inPlace rfl started stands empty.1 empty.2 (by decide)
        own others inPlace
      exact ⟨file, rfl, rendered, same.trans rendered⟩

end Site

end ServerConf
