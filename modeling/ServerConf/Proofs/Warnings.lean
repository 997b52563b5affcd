import ServerConf.Document.Lint
import ServerConf.Proofs.LocationShorthand

/-!
What the warnings about templates say of a rendering. Where a name is defined
again, the definition that is used is the last one outside the bodies of
templates, and not always the last one that is counted. A template that is never
used can be deleted, wherever it is defined.
-/

namespace ServerConf

/-- A definition with the place where it stands, which may be the body of a
template. -/
structure Placed where
  name : String
  body : List Statement
  position : Position
  inTemplate : Bool

mutual

def Statement.placed (inTemplate : Bool) : Statement → List Placed
  | .definition name body _ position =>
    ⟨name, body, position, inTemplate⟩ :: placedIn true body
  | .block _ _ children _ => placedIn inTemplate children
  | .location _ _ children _ => placedIn inTemplate children
  | _ => []

/-- All definitions, in the order in which they are counted. -/
def placedIn (inTemplate : Bool) : List Statement → List Placed
  | [] => []
  | s :: rest => s.placed inTemplate ++ placedIn inTemplate rest

end

theorem definitions_placedIn (ss : List Statement) (filename : String) :
    ∀ inTemplate, (⟨ss, filename⟩ : Document).definitions =
      (placedIn inTemplate ss).map fun p => (p.name, p.position) := by
  induction ss using statementRecursion with
  | nil =>
      intro inTemplate
      rw [placedIn]
      rfl
  | cons s rest inside behind =>
      intro inTemplate
      simp only [Document.definitions, Document.walk_eq] at inside behind ⊢
      rw [walkIn_cons, List.filterMap_cons, List.filterMap_append, placedIn,
        List.map_append, behind inTemplate]
      cases s with
      | block | location =>
          rw [inside inTemplate]
          rfl
      | definition =>
          rw [inside true]
          rfl
      | directive | reference | importFile | stray => rfl

theorem inTemplate_of_mem_placedIn (ss : List Statement) :
    ∀ p ∈ placedIn true ss, p.inTemplate = true := by
  induction ss using statementRecursion with
  | nil => simp [placedIn]
  | cons s rest inside behind =>
      intro p member
      rw [placedIn, List.mem_append] at member
      rcases member with here | later
      · cases s with
        | block | location => exact inside p here
        | definition =>
            rcases List.mem_cons.1 here with rfl | below
            · rfl
            · exact inside p below
        | directive | reference | importFile | stray => cases here
      · exact behind p later

theorem collectedIn_eq_placed (ss : List Statement) :
    collectedIn ss =
      ((placedIn false ss).filter (!·.inTemplate)).map fun p =>
        (p.name, p.body) := by
  induction ss using statementRecursion with
  | nil => simp [collectedIn, placedIn]
  | cons s rest inside behind =>
      rw [collectedIn, placedIn, List.filter_append, List.map_append, ← behind]
      congr 1
      cases s with
      | block | location => exact inside
      | definition name body opening position =>
          have none : (placedIn true body).filter (!·.inTemplate) = [] := by
            rw [List.filter_eq_nil_iff]
            intro p member
            simp [inTemplate_of_mem_placedIn body p member]
          simp [Statement.collected, Statement.placed, none]
      | directive | reference | importFile | stray =>
          simp [Statement.collected, Statement.placed]

/-- All definitions of one name. -/
def Document.placedAs (d : Document) (name : String) : List Placed :=
  (placedIn false d.children).filter (·.name = name)

theorem lookup_reverse_placed (ps : List Placed) (name : String) :
    (ps.map fun p => (p.name, p.body)).reverse.lookup name =
      (ps.filter (·.name = name)).getLast?.map Placed.body := by
  induction ps with
  | nil => rfl
  | cons p ps induction =>
      rw [List.map_cons, List.reverse_cons, List.lookup_append, induction,
        lookup_cons_eq_ite, List.filter_cons]
      by_cases same : p.name = name
      · rw [if_pos same.symm, if_pos (by simp [same]), List.getLast?_cons,
          Option.map_some]
        cases (ps.filter (·.name = name)).getLast? <;> rfl
      · rw [if_neg (Ne.symm same), if_neg (by simp [same])]
        exact Option.or_none

/-- The last definition of a name that does not stand in the body of a
template. -/
def Document.usedAs (d : Document) (name : String) : Option Placed :=
  ((d.placedAs name).filter (!·.inTemplate)).getLast?

theorem Document.lastDefinition_eq_used (d : Document) (name : String) :
    lastDefinition d.children name = (d.usedAs name).map Placed.body := by
  rw [lastDefinition, collectedIn_eq_placed, lookup_reverse_placed, usedAs,
    placedAs, List.filter_filter, List.filter_filter]
  simp only [Bool.and_comm]

namespace Document

theorem definitions_eq_placed (d : Document) :
    d.definitions =
      (placedIn false d.children).map fun p => (p.name, p.position) :=
  definitions_placedIn d.children d.filename false

theorem linesOf_eq_placed (d : Document) (name : String) :
    linesOf d.definitions name =
      (d.placedAs name).map fun p => p.position.line := by
  rw [definitions_eq_placed, placedAs, linesOf]
  induction placedIn false d.children with
  | nil => rfl
  | cons p ps induction =>
      rw [List.map_cons, List.filterMap_cons, induction, List.filter_cons]
      by_cases same : p.name = name <;> simp [same]

theorem filter_definitions (d : Document) (name : String) :
    d.definitions.filter (·.1 = name) =
      (d.placedAs name).map fun p => (name, p.position) := by
  rw [definitions_eq_placed, List.filter_map, placedAs]
  apply List.map_congr_left
  intro p member
  have same : p.name = name := of_decide_eq_true (List.mem_filter.1 member).2
  rw [same]

theorem mem_templateNames {d : Document} {name : String} :
    name ∈ d.templateNames ↔ d.placedAs name ≠ [] := by
  rw [templateNames, List.mem_eraseDups, definitions_eq_placed, placedAs]
  simp [List.filter_eq_nil_iff]

theorem redefined_mem_lint {d : Document} {name : String} {lines : List Int} :
    .redefined name lines ∈ d.lint ↔
      lines = (d.placedAs name).map (fun p => p.position.line) ∧
        1 < (d.placedAs name).length := by
  rw [lint, List.mem_append, redefinitions, unusedTemplates]
  simp only [linesOf_eq_placed, List.length_map]
  constructor
  · intro reported
    rcases reported with redefined | unused
    · obtain ⟨other, _, made⟩ := List.mem_filterMap.1 redefined
      split at made
      · cases made
        exact ⟨rfl, ‹_›⟩
      · cases made
    · split at unused
      · obtain ⟨other, _, made⟩ := List.mem_filterMap.1 unused
        split at made <;> cases made
      · cases unused
  · rintro ⟨rfl, several⟩
    refine .inl (List.mem_filterMap.2 ⟨name, ?_, if_pos several⟩)
    rw [mem_templateNames, ← List.length_pos_iff]
    omega

end Document

/-- What comes after a moment at which a reference is to be expanded, if this is
the body of its template. -/
def Moment.referred
    (m : Moment) (depth : Nat) (name : String) (position : Position)
    (tasks : List Task) :
    Option (List Statement) → Turn
  | none =>
      .finished (.error (.render (.undefinedTemplate name position))) m.progress
  | some body =>
    if name ∈ m.scope.expanding then
      .finished (.error
        (.render (.recursiveTemplate (m.scope.expanding ++ [name])))) m.progress
    else
      .next ⟨m.scope.enterTemplate name,
        .statements depth body :: .leave m.scope :: tasks, m.lines,
        m.progress⟩

theorem Site.turn_reference {site : Site}
    (expands : site.options.expandTemplates = true)
    {m : Moment} {depth : Nat} {name : String} {position : Position}
    {tasks : List Task}
    (left : m.tasks = .statement depth (.reference name position) :: tasks) :
    site.turn m = m.referred depth name position tasks
      (m.progress.templates.get? name) := by
  obtain ⟨scope, _, lines, progress⟩ := m
  dsimp only at left
  subst left
  have taken := templateBody_run scope name position progress
  rw [turn, if_pos (by simpa [Statement.opens] using expands), enter]
  dsimp only
  cases found : progress.templates.get? name with
  | none =>
      rw [found] at taken
      rw [Rendering.run_bind_of_error taken]
      rfl
  | some body =>
      rw [found] at taken
      dsimp only at taken
      rw [Moment.referred]
      by_cases again : name ∈ scope.expanding
      · rw [if_pos again] at taken
        rw [Rendering.run_bind_of_error taken, if_pos again]
      · rw [if_neg again] at taken
        rw [Rendering.run_bind_of_ok taken, if_neg again]
        rfl

namespace Document

theorem usedAs_eq_last {d : Document} {name : String} {last : Placed}
    (isLast : (d.placedAs name).getLast? = some last) :
    d.usedAs name = some last ↔ last.inTemplate = false := by
  rw [usedAs]
  constructor
  · intro used
    have kept := (List.mem_filter.1 (List.mem_of_getLast? used)).2
    simpa using kept
  · intro outside
    obtain ⟨before, ends⟩ := List.getLast?_eq_some_iff.1 isLast
    rw [ends, List.filter_append, List.filter_cons_of_pos (by simp [outside])]
    simp

/-- Where several definitions are reported, every reference to the name is
replaced by the last one outside the bodies of templates. This is the last one
of all unless that stands in the body of a template. -/
theorem turn_of_redefined {d : Document} {name : String} {lines : List Int}
    (warned : .redefined name lines ∈ d.lint)
    (importless : d.imports = []) :
    ∃ last, (d.placedAs name).getLast? = some last ∧
      (d.definitions.filter (·.1 = name)).getLast? =
        some (name, last.position) ∧
      lines.getLast? = some last.position.line ∧
      (d.usedAs name = some last ↔ last.inTemplate = false) ∧
      ∀ (site : Site) (origin : Option Path) (scope : Scope) (m : Moment)
        (depth : Nat) (position : Position) (tasks : List Task),
        site.startScope origin = .ok scope →
        site.Steps (Site.firstMoment scope d) m →
        m.tasks = .statement depth (.reference name position) :: tasks →
        site.options.expandTemplates = true →
        site.turn m = m.referred depth name position tasks
          ((d.usedAs name).map Placed.body) := by
  obtain ⟨rfl, several⟩ := redefined_mem_lint.1 warned
  have defined : d.placedAs name ≠ [] := by
    rw [← List.length_pos_iff]
    omega
  have last := List.getLast?_eq_some_getLast defined
  generalize (d.placedAs name).getLast defined = final at last
  refine ⟨final, last, ?_, ?_, usedAs_eq_last last, ?_⟩
  · rw [filter_definitions, List.getLast?_map, last]
    rfl
  · rw [List.getLast?_map, last]
    rfl
  · intro site origin scope m depth position tasks started steps left expands
    have known :=
      (Site.nested_of_steps (.of_imports importless) started steps).1
    rw [Site.turn_reference expands left, known, Site.get?_firstProgress,
      lastDefinition_eq_used]

theorem turn_of_redefined_inBlock :
    let site : Site := { store := ⟨⟨[]⟩, []⟩ }
    let y : Statement := .directive "y" [] ⟨2, 15⟩
    let d : Document :=
      ⟨[.definition "%a" [.directive "x" [] ⟨1, 8⟩] ⟨1, 6⟩ ⟨1, 1⟩,
      .block "http" [] [.definition "%a" [y] ⟨2, 13⟩ ⟨2, 8⟩] ⟨2, 1⟩,
      .reference "%a" ⟨3, 1⟩], "<string>"⟩
    let m : Moment :=
      ⟨{}, [.statement 0 (.reference "%a" ⟨3, 1⟩), .statements 0 []],
      ["http \x7b", "\x7d"], Site.firstProgress d⟩
    .redefined "%a" [1, 2] ∈ d.lint ∧ site.Steps (Site.firstMoment {} d) m ∧
      site.turn m = .next ⟨{ expanding := ["%a"] },
        [.statements 0 [y], .leave {}, .statements 0 []], m.lines, m.progress⟩ ∧
      (site.render d none).result = .ok "http \x7b\n\x7d\ny;" := by
  intro site y d m
  have warned : .redefined "%a" [1, 2] ∈ d.lint := by decide +kernel
  have steps : site.Steps (Site.firstMoment {} d) m :=
    .head rfl (.head
      rfl (.head rfl (.head rfl (.head rfl (.head rfl (.head rfl (.head rfl
      (.head rfl (.single rfl)))))))))
  have last :
      (d.placedAs "%a").getLast? = some ⟨"%a", [y], ⟨2, 8⟩, false⟩ := rfl
  obtain ⟨_, isLast, _, _, used, turns⟩ := turn_of_redefined warned rfl
  cases last.symm.trans isLast
  have written :=
    turns site none {} m 0 ⟨3, 1⟩ [.statements 0 []] rfl steps rfl rfl
  rw [used.2 rfl] at written
  exact ⟨warned, steps, written, by decide +kernel⟩

/-- The body of `%b` defines `%a` again, and the definition before it is
used. -/
theorem turn_redefined_inTemplate :
    let site : Site := { store := ⟨⟨[]⟩, []⟩ }
    let x : Statement := .directive "x" [] ⟨1, 8⟩
    let y : Statement := .directive "y" [] ⟨2, 15⟩
    let d : Document := ⟨[.definition "%a" [x] ⟨1, 6⟩ ⟨1, 1⟩,
      .definition "%b" [.definition "%a" [y] ⟨2, 13⟩ ⟨2, 8⟩] ⟨2, 6⟩ ⟨2, 1⟩,
      .reference "%a" ⟨3, 1⟩], "<string>"⟩
    let m : Moment :=
      ⟨{}, [.statement 0 (.reference "%a" ⟨3, 1⟩), .statements 0 []], [],
      Site.firstProgress d⟩
    .redefined "%a" [1, 2] ∈ d.lint ∧ d.imports = [] ∧
      (d.placedAs "%a").getLast? = some ⟨"%a", [y], ⟨2, 8⟩, true⟩ ∧
      site.Steps (Site.firstMoment {} d) m ∧
      site.turn m = .next ⟨{ expanding := ["%a"] },
        [.statements 0 [x], .leave {}, .statements 0 []], [], m.progress⟩ ∧
      (site.render d none).result = .ok "x;" := by
  intro site x y d m
  have steps : site.Steps (Site.firstMoment {} d) m :=
    .head rfl (.head rfl (.head rfl (.head rfl (.single rfl))))
  exact ⟨by decide +kernel, rfl, rfl, steps, rfl, by decide +kernel⟩

end Document

mutual

def Statement.without (name : String) : Statement → List Statement
  | .definition other body opening position =>
    if other = name then []
      else [.definition other (withoutIn name body) opening position]
  | .block header args children position =>
      [.block header args (withoutIn name children) position]
  | .location modifier paths children position =>
    [.location modifier paths (withoutIn name children) position]
  | s => [s]

/-- The statements without any definition of the template, whatever it stands
in. -/
def withoutIn (name : String) : List Statement → List Statement
  | [] => []
  | s :: rest => s.without name ++ withoutIn name rest

end

def Document.without (d : Document) (name : String) : Document :=
  { d with children := withoutIn name d.children }

theorem Document.children_without (d : Document) (name : String) :
    (d.without name).children = withoutIn name d.children := rfl

structure Unused (name : String) (ss : List Statement) : Prop where
  importFree : ImportFree ss
  unreferenced : ∀ position, .reference name position ∉ walkIn ss

theorem Unused.mono {name : String} {first second : List Statement}
    (unused : Unused name second)
    (subset : ∀ s ∈ walkIn first, s ∈ walkIn second) :
    Unused name first :=
  ⟨unused.importFree.mono subset,
    fun position member => unused.unreferenced position (subset _ member)⟩

theorem Document.mem_references
    {d : Document} {name : String} {position : Position} :
    (name, position) ∈ d.references ↔
      .reference name position ∈ walkIn d.children := by
  rw [references, walk_eq, List.mem_filterMap]
  constructor
  · intro found
    obtain ⟨s, member, same⟩ := found
    cases s with
    | reference =>
        cases same
        exact member
    | directive | block | location | definition | importFile | stray =>
        cases same
  · intro member
    exact ⟨_, member, rfl⟩

theorem Document.any_references {d : Document} {name : String} :
    d.references.any (·.1 = name) = true ↔
      ∃ position, .reference name position ∈ walkIn d.children := by
  simp [← mem_references]

theorem Document.isEmpty_imports {d : Document} :
    d.imports.isEmpty = true ↔ ImportFree d.children := by
  rw [List.isEmpty_iff]
  refine ⟨.of_imports, ?_⟩
  intro importFree
  rw [imports, List.filterMap_eq_nil_iff]
  intro s member
  cases s with
  | importFile path position => exact absurd member (importFree path position)
  | directive | block | location | definition | reference | stray => rfl

theorem Document.unused_mem_lint {d : Document} {name : String} :
    .unused name ∈ d.lint ↔ d.placedAs name ≠ [] ∧ Unused name d.children := by
  rw [lint, List.mem_append, redefinitions, unusedTemplates]
  constructor
  · intro reported
    rcases reported with redefined | reported
    · obtain ⟨other, _, made⟩ := List.mem_filterMap.1 redefined
      dsimp only at made
      split at made <;> cases made
    · split at reported
      · rename_i importless
        obtain ⟨other, defined, made⟩ := List.mem_filterMap.1 reported
        split at made
        · cases made
        · rename_i unreferenced
          cases made
          refine ⟨mem_templateNames.1 defined, isEmpty_imports.1 importless, ?_⟩
          intro position member
          exact unreferenced (any_references.2 ⟨position, member⟩)
      · cases reported
  · intro found
    obtain ⟨defined, unused⟩ := found
    right
    rw [if_pos (isEmpty_imports.2 unused.importFree)]
    refine List.mem_filterMap.2 ⟨name, mem_templateNames.2 defined, if_neg ?_⟩
    intro referenced
    obtain ⟨position, member⟩ := any_references.1 referenced
    exact unused.unreferenced position member

section Deleting

variable {name : String}

theorem exists_of_mem_withoutIn {t : Statement} {ss : List Statement}
    (member : t ∈ walkIn (withoutIn name ss)) :
    ∃ s ∈ walkIn ss, t ∈ s.without name := by
  induction ss using statementRecursion with
  | nil =>
      rw [withoutIn] at member
      cases member
  | cons s rest inside behind =>
      rw [withoutIn, walkIn_append, List.mem_append] at member
      simp only [mem_walkIn_cons, or_and_right, exists_or, exists_eq_left]
      rcases member with here | later
      · cases s with
        | directive | reference | importFile | stray =>
            left
            simpa [Statement.without, Statement.children] using here
        | block | location =>
            rw [Statement.without, mem_walkIn_cons] at here
            rcases here with rfl | below | none
            · exact .inl (by simp [Statement.without])
            · exact .inr (.inl (inside below))
            · cases none
        | definition other body opening position =>
            rw [Statement.without] at here
            split at here
            · cases here
            · rename_i kept
              rw [mem_walkIn_cons] at here
              rcases here with rfl | below | none
              · exact .inl (by simp [Statement.without, kept])
              · exact .inr (.inl (inside below))
              · cases none
      · exact .inr (.inr (behind later))

theorem not_mem_definitions_without (d : Document) (position : Position) :
    (name, position) ∉ (d.without name).definitions := by
  intro member
  obtain ⟨t, below, named⟩ := List.mem_filterMap.1 member
  obtain ⟨s, _, kept⟩ := exists_of_mem_withoutIn below
  cases s with
  | definition other =>
      rw [Statement.without] at kept
      split at kept
      · cases kept
      · rename_i apart
        rw [List.mem_singleton.1 kept] at named
        cases named
        exact apart rfl
  | directive | reference | importFile | stray | block | location =>
      rw [List.mem_singleton.1 kept] at named
      cases named

theorem ImportFree.withoutIn {ss : List Statement}
    (importFree : ImportFree ss) :
    ImportFree (withoutIn name ss) := by
  intro path position member
  obtain ⟨s, among, kept⟩ := exists_of_mem_withoutIn member
  cases s with
  | definition =>
      rw [Statement.without] at kept
      split at kept <;> simp at kept
  | importFile =>
      cases List.mem_singleton.1 kept
      exact importFree path position among
  | directive | reference | stray | block | location =>
      cases List.mem_singleton.1 kept

theorem linesOf_withoutIn
    (options : RenderOptions) (handlers : Handlers) (ss : List Statement) :
    ∀ depth, linesOf options handlers depth (withoutIn name ss) =
      linesOf options handlers depth ss := by
  induction ss using statementRecursion with
  | nil =>
      intro depth
      rw [withoutIn]
  | cons s rest inside behind =>
      intro depth
      rw [withoutIn, linesOf_append, behind depth, linesOf]
      congr 1
      cases s with
      | directive | reference | importFile | stray =>
          simp [Statement.without, linesOf]
      | block | location =>
          simp only [Statement.children] at inside
          simp [Statement.without, linesOf, Statement.lines, inside]
      | definition other =>
          rw [Statement.without]
          split <;> simp [linesOf, Statement.lines]

theorem lastDefinition_withoutIn {other : String}
    (kept : other ≠ name)
    (ss : List Statement) :
    lastDefinition (withoutIn name ss) other =
      (lastDefinition ss other).map (withoutIn name) := by
  induction ss using statementRecursion with
  | nil =>
      rw [withoutIn]
      rfl
  | cons s rest inside behind =>
      rw [withoutIn, lastDefinition_append, behind, lastDefinition_cons,
        Option.map_or]
      congr 1
      cases s with
      | directive | reference | importFile | stray => rfl
      | block | location =>
          rw [Statement.without, lastDefinition_cons]
          exact inside
      | definition defined body opening position =>
          rw [Statement.without]
          split
          · rename_i deleted
            simp [lastDefinition, collectedIn, Statement.collected,
              lookup_cons_eq_ite, deleted, kept]
          · by_cases same : other = defined <;>
              simp [lastDefinition, collectedIn, Statement.collected,
                lookup_cons_eq_ite, same]

end Deleting

namespace Site

variable {site : Site} {name : String}

def WithoutTemplate (name : String) (p q : Progress) : Prop :=
  ∀ other, other ≠ name →
    Option.Rel (fun body out => Unused name body ∧ out = withoutIn name body)
    (p.templates.get? other) (q.templates.get? other)

theorem linesWithin_withoutIn
    (levels : Nat) (scope : Scope) (depth : Nat) (ss : List Statement) :
    site.linesWithin levels scope depth (withoutIn name ss) =
      site.linesWithin levels scope depth ss := by
  cases levels with
  | zero => rfl
  | succ levels => exact linesOf_withoutIn _ _ ss depth

theorem abreast_unused (site : Site) (levels : Nat) :
    ∀ {ss}, Unused name ss → ∀ scope depth,
      Rendering.Abreast (WithoutTemplate name) (fun _ _ _ => True)
        (site.linesWithin levels scope depth ss)
          (site.linesWithin levels scope depth ss) := by
  have leaves : ∀ (_ : Failure) p q, WithoutTemplate name p q → True :=
    fun _ _ _ _ => trivial
  induction levels with
  | zero =>
      intro ss _ scope depth
      exact .fail leaves _
  | succ levels induction =>
      intro ss unused scope
      apply (Rendering.Abreast.congruence leaves).linesOf_of_leaves
      · intro depth other position member
        have kept : other ≠ name := by
          intro same
          subst same
          exact unused.unreferenced position (mem_walkIn_of_mem_leavesIn member)
        refine abreast_reference leaves
          (fun p q without => without other kept) ?_ scope position
        intro body out related
        rw [related.2, linesWithin_withoutIn]
        exact induction related.1 _ depth
      · intro depth path position member
        exact absurd (mem_walkIn_of_mem_leavesIn member)
          (unused.importFree path position)

theorem exists_run_of_importFree
    {document : Document} {origin : Option Path} {scope : Scope} {levels : Nat}
    (importFree : ImportFree document.children)
    (started : site.startScope origin = .ok scope)
    (enough : site.levels document ≤ levels) :
    ∃ result final, (site.linesWithin levels scope 0 document.children).run.run
        (firstProgress document) = (result, final) ∧
      site.render document origin = ⟨result.map textOf, final, scope⟩ := by
  apply exists_run_of_bounded started _ enough
  intro m steps
  rw [startScope_size started]
  exact (nested_of_steps importFree started steps).2.size_lt site

theorem withoutTemplate_firstProgress {d : Document}
    (unused : Unused name d.children) :
    WithoutTemplate name (firstProgress d)
      (firstProgress (d.without name)) := by
  intro other kept
  rw [get?_firstProgress, get?_firstProgress, Document.children_without,
    lastDefinition_withoutIn kept]
  cases found : lastDefinition d.children other with
  | none => exact .none
  | some body =>
      have collected := mem_collectedIn_of_lastDefinition found
      exact .some ⟨unused.mono (walkIn_body_subset collected), rfl⟩

/-- A template that is reported as unused may be deleted wherever it is defined:
the text or the failure is the same. -/
theorem render_without_unused {d : Document} (warned : .unused name ∈ d.lint) :
    (∀ position, (name, position) ∉ (d.without name).definitions) ∧
      ∀ (site : Site) (origin : Option Path),
        (site.render (d.without name) origin).result =
          (site.render d origin).result := by
  refine ⟨not_mem_definitions_without d, ?_⟩
  intro site origin
  have unused := (Document.unused_mem_lint.1 warned).2
  cases started : site.startScope origin with
  | error failure => rw [render, render, started]
  | ok scope =>
      let levels := max (site.levels d) (site.levels (d.without name))
      obtain ⟨result, final, ran, rendered⟩ :=
        exists_run_of_importFree unused.importFree started
          (Nat.le_max_left _ _ : _ ≤ levels)
      have importFree : ImportFree (d.without name).children :=
        unused.importFree.withoutIn
      obtain ⟨written, later, ranToo, renderedToo⟩ :=
        exists_run_of_importFree importFree started
          (Nat.le_max_right _ _ : _ ≤ levels)
      have tables := withoutTemplate_firstProgress unused
      have agree := abreast_unused site levels unused scope 0 _ _ tables
      rw [Document.children_without, linesWithin_withoutIn] at ranToo
      rw [ran, ranToo] at agree
      rw [rendered, renderedToo]
      cases agree <;> rfl

/-- The template `%u` is defined in a block, in the body of another template and
by itself. -/
theorem render_without_unused_everywhere :
    let site : Site := { store := ⟨⟨[]⟩, []⟩ }
    let u (body : List Statement) : Statement :=
      .definition "%u" body ⟨1, 6⟩ ⟨1, 1⟩
    let x : Statement := .directive "x" [] ⟨2, 1⟩
    let d : Document :=
      ⟨[u [.reference "%t" ⟨1, 8⟩], .definition "%t" [u [], x] ⟨2, 6⟩ ⟨2, 1⟩,
      .block "http" [] [u [x], .reference "%t" ⟨3, 8⟩] ⟨3, 1⟩], "<string>"⟩
    .unused "%u" ∈ d.lint ∧
      (d.without "%u").children = [.definition "%t" [x] ⟨2, 6⟩ ⟨2, 1⟩,
        .block "http" [] [.reference "%t" ⟨3, 8⟩] ⟨3, 1⟩] ∧
      (site.render (d.without "%u") none).result =
        .ok "http \x7b\n  x;\n\x7d" := by
  intro site u x d
  have warned : .unused "%u" ∈ d.lint := by decide +kernel
  have rendered :
      (site.render d none).result = .ok "http \x7b\n  x;\n\x7d" := by
    decide +kernel
  exact ⟨warned, rfl,
    ((render_without_unused warned).2 site none).trans rendered⟩

end Site

end ServerConf
