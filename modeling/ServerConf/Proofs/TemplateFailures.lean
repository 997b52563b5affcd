import ServerConf.Proofs.TemplateGraph

/-!
When a document without imports can be rendered: every template that is reached
is defined, and none of them leads to itself. A rendering that fails tells the
way to the template that is at fault.
-/

namespace ServerConf

namespace Site

theorem templateBody_run (scope : Scope) (name : String) (position : Position)
    (progress : Progress) :
    (templateBody scope name position).run.run progress =
      (match progress.templates.get? name with
        | none => .error (.render (.undefinedTemplate name position))
        | some body =>
          if name ∈ scope.expanding then
            .error (.render (.recursiveTemplate (scope.expanding ++ [name])))
          else .ok body, progress) := by
  rw [templateBody, Rendering.run_bind_of_ok (Rendering.get_run progress)]
  cases progress.templates.get? name with
  | none => rfl
  | some body =>
      dsimp only
      split <;> rfl

end Site

namespace Document

structure Nested (document : Document) (stack : List Address) (scope : Scope) :
    Prop where
  stack : scope.stack = stack
  nodup : scope.expanding.Nodup
  defined :
    ∀ name ∈ scope.expanding, (lastDefinition document.children name).isSome

theorem Nested.start (document : Document) {scope : Scope}
    (none : scope.expanding = []) :
    document.Nested scope.stack scope :=
  ⟨rfl, by simp [none], by simp [none]⟩

theorem Nested.enterTemplate
    {document : Document} {stack : List Address} {scope : Scope} {name : String}
    {body : List Statement}
    (nested : document.Nested stack scope)
    (fresh : name ∉ scope.expanding)
    (found : lastDefinition document.children name = some body) :
    document.Nested stack (scope.enterTemplate name) := by
  refine ⟨nested.stack, ?_, ?_⟩
  · rw [Scope.enterTemplate, ← List.concat_eq_append]
    exact nested.nodup.concat fresh
  · intro other member
    rcases List.mem_append.1 member with earlier | last
    · exact nested.defined other earlier
    · rw [List.mem_singleton.1 last, found]
      rfl

theorem Nested.size_lt
    {document : Document} {stack : List Address} {scope : Scope}
    (nested : document.Nested stack scope)
    (site : Site) :
    scope.size < stack.length + site.levels document := by
  have names : scope.expanding.length ≤
      ((collectedIn document.children).map Prod.fst).length :=
    (List.subperm_of_subset nested.nodup fun name member =>
      isSome_lastDefinition _ name (nested.defined name member)).length_le
  have count := length_collectedIn_le document.children
  rw [List.length_map] at names
  rw [Scope.size, nested.stack, Site.levels, Document.length_definitions]
  omega

structure Expanding
    (document : Document) (stack : List Address) (scope : Scope) :
    Prop where
  stack : scope.stack = stack
  nodup : scope.expanding.Nodup
  trail : Trail (RefersTo document.children)
    (Refers (lastDefinition document.children))
    scope.expanding
  defined :
    ∀ name ∈ scope.expanding, (lastDefinition document.children name).isSome

theorem Expanding.nested
    {document : Document} {stack : List Address} {scope : Scope}
    (expanding : document.Expanding stack scope) :
    document.Nested stack scope :=
  ⟨expanding.stack, expanding.nodup, expanding.defined⟩

theorem Expanding.start (document : Document) {scope : Scope}
    (none : scope.expanding = []) :
    document.Expanding scope.stack scope :=
  ⟨rfl, by simp [none], by simp [none, Trail.nil], by simp [none]⟩

theorem Expanding.enterTemplate
    {document : Document} {stack : List Address} {scope : Scope} {name : String}
    {body : List Statement}
    (expanding : document.Expanding stack scope)
    (trail : Trail (RefersTo document.children)
      (Refers (lastDefinition document.children)) (scope.expanding ++ [name]))
    (fresh : name ∉ scope.expanding)
    (found : lastDefinition document.children name = some body) :
    document.Expanding stack (scope.enterTemplate name) := by
  have nested := expanding.nested.enterTemplate fresh found
  exact ⟨nested.stack, nested.nodup, trail, nested.defined⟩

theorem Expanding.size_lt
    {document : Document} {stack : List Address} {scope : Scope}
    (expanding : document.Expanding stack scope)
    (site : Site) :
    scope.size < stack.length + site.levels document :=
  expanding.nested.size_lt site

structure Follows (document : Document) (scope : Scope) (s : Statement) :
    Prop where
  importFree : ImportFree [s]
  proper : Proper [s]
  trail : ∀ name, RefersTo [s] name →
    Trail (RefersTo document.children)
      (Refers (lastDefinition document.children))
      (scope.expanding ++ [name])

end Document

namespace Site

variable {site : Site} {document : Document} {stack : List Address}

theorem enter_reference_ok
    {scope later : Scope} {name : String} {position : Position}
    {ss : List Statement} {progress final : Progress}
    (entered : (site.enter scope (.reference name position)).run.run progress =
      (.ok (later, ss), final)) :
    final = progress ∧ later = scope.enterTemplate name ∧
      name ∉ scope.expanding ∧
      progress.templates.get? name = some ss := by
  obtain ⟨body, between, taken, entered⟩ := Rendering.of_bind_ok entered
  obtain ⟨⟨rfl, rfl⟩, rfl⟩ := Rendering.of_pure_ok entered
  rw [templateBody_run] at taken
  obtain ⟨taken, rfl⟩ := Prod.mk.inj taken
  cases found : progress.templates.get? name with
  | none =>
      rw [found] at taken
      cases taken
  | some other =>
      rw [found] at taken
      dsimp only at taken
      split at taken
      · cases taken
      · rename_i fresh
        cases taken
        exact ⟨rfl, rfl, fresh, rfl⟩

theorem enter_reference_error
    {scope : Scope} {name : String} {position : Position} {failure : Failure}
    {progress final : Progress}
    (failed : (site.enter scope (.reference name position)).run.run progress =
      (.error failure, final)) :
    (failure = .render (.undefinedTemplate name position) ∧
      progress.templates.get? name = none) ∨
      (failure = .render (.recursiveTemplate (scope.expanding ++ [name])) ∧
        name ∈ scope.expanding) := by
  rcases Rendering.of_bind_error failed with failed | ⟨_, _, _, failed⟩
  · rw [templateBody_run] at failed
    obtain ⟨failed, _⟩ := Prod.mk.inj failed
    cases found : progress.templates.get? name with
    | none =>
        rw [found] at failed
        cases failed
        exact .inl ⟨rfl, rfl⟩
    | some body =>
        rw [found] at failed
        dsimp only at failed
        split at failed
        · rename_i again
          cases failed
          exact .inr ⟨rfl, again⟩
        · cases failed
  · cases failed

theorem get?_firstProgress (document : Document) (name : String) :
    (firstProgress document).templates.get? name =
      lastDefinition document.children name :=
  Templates.get?_collect document.children name

theorem keeps_nested (importFree : ImportFree document.children) :
    site.Keeps (· = firstProgress document)
      (document.Nested stack) fun _ s => ImportFree [s] where
  inside free t member := free.mono (walkIn_inner_subset member)
  enter {scope s progress later ss final} opens same nested free entered := by
    cases s with
    | directive | block | location | definition => cases opens
    | stray => exact (Rendering.not_fail_ok entered).elim
    | importFile path position => exact absurd (by simp) (free path position)
    | reference name position =>
        obtain ⟨rfl, rfl, fresh, found⟩ := enter_reference_ok entered
        subst same
        rw [get?_firstProgress] at found
        have collected := mem_collectedIn_of_lastDefinition found
        refine ⟨rfl, nested.enterTemplate fresh found, ?_⟩
        intro t member
        exact importFree.mono fun u below =>
          walkIn_body_subset collected u
            (walkIn_singleton_subset member u below)

theorem nested_of_steps
    (importFree : ImportFree document.children)
    {origin : Option Path} {scope : Scope}
    (started : site.startScope origin = .ok scope)
    {m : Moment}
    (steps : site.Steps (firstMoment scope document) m) :
    m.progress = firstProgress document ∧
      document.Nested scope.stack m.scope := by
  have first : (firstMoment scope document).Holds (· = firstProgress document)
      (document.Nested scope.stack) fun _ s => ImportFree [s] := by
    refine ⟨rfl, ?_, .start document (startScope_expanding started)⟩
    intro s member
    exact importFree.mono (walkIn_singleton_subset member)
  have holds := (keeps_nested importFree).steps first steps
  exact ⟨holds.progress, holds.tasks.here⟩

theorem keeps_trail
    (importFree : ImportFree document.children)
    (proper : Proper document.children) :
    site.Keeps (· = firstProgress document)
      (document.Expanding stack) document.Follows where
  inside follows t member :=
    ⟨follows.importFree.mono (walkIn_inner_subset member),
      follows.proper.mono (walkIn_inner_subset member),
      fun name refers => follows.trail name (refers.of_inner member)⟩
  enter {scope s progress later ss final} opens same expanding follows
    entered := by
    cases s with
    | directive | block | location | definition => cases opens
    | stray => exact follows.proper.here.elim
    | importFile path position =>
        exact absurd (by simp) (follows.importFree path position)
    | reference name position =>
        obtain ⟨rfl, rfl, fresh, found⟩ := enter_reference_ok entered
        have trail := follows.trail name ⟨position, by simp [Statement.leaves]⟩
        subst same
        rw [get?_firstProgress] at found
        have collected := mem_collectedIn_of_lastDefinition found
        refine ⟨rfl, expanding.enterTemplate trail fresh found, ?_⟩
        intro t member
        refine ⟨importFree.mono fun u below => ?_,
          proper.mono fun u below => ?_, ?_⟩
        · exact walkIn_body_subset collected u
            (walkIn_singleton_subset member u below)
        · exact walkIn_body_subset collected u
            (walkIn_singleton_subset member u below)
        · intro other refers
          exact trail.append ⟨ss, found, refers.of_mem member⟩

theorem holds_firstMoment
    (importFree : ImportFree document.children)
    (proper : Proper document.children)
    {scope : Scope}
    (none : scope.expanding = []) :
    (firstMoment scope document).Holds (· = firstProgress document)
      (document.Expanding scope.stack) document.Follows := by
  refine ⟨rfl, ?_, .start document none⟩
  intro s member
  refine ⟨importFree.mono (walkIn_singleton_subset member),
    proper.mono (walkIn_singleton_subset member), ?_⟩
  intro name refers
  rw [show (firstMoment scope document).scope.expanding = [] from none]
  exact .start (refers.of_mem member)

/-- A rendering that fails shows a template that is reached and not defined, or
a trail of templates that comes back to one of them. -/
theorem failure_of_ends
    (importFree : ImportFree document.children)
    (proper : Proper document.children)
    {scope : Scope}
    (none : scope.expanding = [])
    {failure : Failure} {final : Progress}
    (ends : site.Ends (firstMoment scope document) (.error failure) final) :
    (∃ name position, failure = .render (.undefinedTemplate name position) ∧
      Reaches (lastDefinition document.children) document.children name ∧
      lastDefinition document.children name = .none) ∨
    ∃ names name, failure = .render (.recursiveTemplate (names ++ [name])) ∧
      Trail (RefersTo document.children)
        (Refers (lastDefinition document.children))
        (names ++ [name]) ∧ names.Nodup ∧ name ∈ names := by
  obtain ⟨later, s, progress, opens, same, expanding, follows, failed⟩ :=
    (keeps_trail importFree proper).exists_failure
      (holds_firstMoment importFree proper none) ends
  cases s with
  | directive | block | location | definition => cases opens
  | stray => exact follows.proper.here.elim
  | importFile path position =>
      exact absurd (by simp) (follows.importFree path position)
  | reference name position =>
      have trail := follows.trail name ⟨position, by simp [Statement.leaves]⟩
      subst same
      rcases enter_reference_error failed with ⟨rfl, missing⟩ | ⟨rfl, again⟩
      · rw [get?_firstProgress] at missing
        exact .inl ⟨name, position, rfl, trail.reached, missing⟩
      · exact .inr ⟨later.expanding, name, rfl, trail, expanding.nodup, again⟩

def RefersSoundly (document : Document) (s : Statement) : Prop :=
  ∀ name position, s = .reference name position →
    Sound (lastDefinition document.children) name

theorem refersSoundly_of_enter
    (expanded : site.options.expandTemplates = true)
    {scope later : Scope} {s : Statement} {ss : List Statement}
    {final : Progress}
    (entered : (site.enter scope s).run.run (firstProgress document) =
      (.ok (later, ss), final))
    (inner : ∀ leaf ∈ leavesIn ss, leaf.opens site.options = true →
      RefersSoundly document leaf) :
    RefersSoundly document s := by
  rintro name position rfl
  obtain ⟨_, _, _, found⟩ := enter_reference_ok entered
  rw [get?_firstProgress] at found
  refine .intro (by rw [found]; rfl) ?_
  rintro other ⟨body, again, place, member⟩
  obtain rfl := Option.some.inj (found.symm.trans again)
  exact inner _ member expanded other place rfl

theorem sound_of_ends
    (expanded : site.options.expandTemplates = true)
    (importFree : ImportFree document.children)
    (proper : Proper document.children)
    {scope : Scope}
    (none : scope.expanding = [])
    {lines : List String} {final : Progress}
    (ends : site.Ends (firstMoment scope document) (.ok lines) final) :
    Expandable (lastDefinition document.children) document.children := by
  have shown := (keeps_trail importFree proper).of_success
    (holds_firstMoment importFree proper none)
      (fun follows => follows.proper.here)
    (fun _ same _ _ entered inner =>
      refersSoundly_of_enter expanded (same ▸ entered) inner) ends
  refine .of_sound ?_
  rintro name ⟨position, member⟩
  obtain ⟨s, among, below⟩ := mem_leavesIn.1 member
  exact shown.1 s among _ below expanded name position rfl

/-- Rendering a document without imports succeeds exactly if every template that
its statements lead to is defined and none of these leads to itself. If it
fails, the failure names a template that is reached and not defined, or tells a
way from the statements that comes back to where it has been. -/
theorem render_succeeds_iff_expandable
    (expanded : site.options.expandTemplates = true)
    (none : document.imports = [])
    (proper : Proper document.children)
    {origin : Option Path} {scope : Scope}
    (started : site.startScope origin = .ok scope) :
    ((∃ text, (site.render document origin).result = .ok text) ↔
      Expandable (lastDefinition document.children) document.children) ∧
    ∀ failure, (site.render document origin).result = .error failure →
      (∃ name position, failure = .render (.undefinedTemplate name position) ∧
        Reaches (lastDefinition document.children) document.children name ∧
        lastDefinition document.children name = .none) ∨
      ∃ names name, failure = .render (.recursiveTemplate (names ++ [name])) ∧
        (∀ first ∈ (names ++ [name]).head?, RefersTo document.children first) ∧
        List.IsChain (Refers (lastDefinition document.children))
          (names ++ [name]) ∧
        names.Nodup ∧ name ∈ names := by
  have importFree := ImportFree.of_imports none
  have empty := startScope_expanding started
  have bounded : ∀ m, site.Steps (firstMoment scope document) m →
      m.scope.size < scope.size + site.levels document := by
    intro m steps
    have holds :=
      (keeps_trail importFree proper).steps
        (holds_firstMoment importFree proper empty) steps
    rw [startScope_size started]
    exact holds.tasks.here.size_lt site
  obtain ⟨result, progress, ends, same⟩ := exists_ends started bounded
  rw [same]
  refine ⟨⟨?_, ?_⟩, ?_⟩
  · rintro ⟨text, rendered⟩
    cases result with
    | error failure => cases rendered
    | ok lines => exact sound_of_ends expanded importFree proper empty ends
  · intro expandable
    cases result with
    | ok lines => exact ⟨_, rfl⟩
    | error failure =>
        exfalso
        rcases failure_of_ends importFree proper empty ends with
          ⟨name, _, _, reached, missing⟩ | ⟨names, name, _, trail, _, again⟩
        · have defined := expandable.defined name reached
          rw [missing] at defined
          cases defined
        · exact expandable.acyclic name trail.reached (trail.cycle again)
  · intro failure failed
    cases result with
    | ok lines => cases failed
    | error cause =>
        cases failed
        rcases failure_of_ends importFree proper empty ends with
          undefined | ⟨names, name, same, trail, nodup, again⟩
        · exact .inl undefined
        · exact .inr ⟨names, name, same, trail.begins, trail.chain,
            nodup, again⟩

/-- Two templates that refer to each other. -/
theorem render_succeeds_iff_expandable_mutual :
    let site : Site := { store := ⟨⟨[]⟩, []⟩ }
    let document : Document := ⟨[
      .definition "%a" [.block "x" [] [.reference "%b" ⟨1, 1⟩] ⟨1, 1⟩]
        ⟨1, 1⟩ ⟨1, 1⟩,
      .definition "%b" [.reference "%a" ⟨2, 2⟩] ⟨2, 1⟩ ⟨2, 1⟩,
      .reference "%a" ⟨3, 1⟩], "<string>"⟩
    (site.render document none).result =
        .error (.render (.recursiveTemplate ["%a", "%b", "%a"])) ∧
      ¬ Expandable (lastDefinition document.children) document.children := by
  intro site document
  have failed : (site.render document none).result =
      .error (.render (.recursiveTemplate ["%a", "%b", "%a"])) := by
    decide +kernel
  have proper : Proper document.children := by decide +kernel
  refine ⟨failed, fun expandable => ?_⟩
  have started : site.startScope none = .ok ⟨[], none, []⟩ := rfl
  obtain ⟨text, rendered⟩ :=
    (render_succeeds_iff_expandable rfl rfl proper started).1.2 expandable
  cases failed.symm.trans rendered

end Site

end ServerConf
