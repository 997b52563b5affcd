import ServerConf.Proofs.Termination

/-!
Which files import which. Where templates import nothing, a rendering succeeds
only if every file that the document leads to can be read and none of them leads
back to itself, and it complains about a cycle only if it has come back to a
file along a way of imports.
-/

namespace ServerConf

/-- No template has a body with an import in it. -/
def PlainTemplates (ss : List Statement) : Prop :=
  ∀ name body opening position,
    .definition name body opening position ∈ walkIn ss →
    ImportFree body

theorem PlainTemplates.of_collected {ss body : List Statement} {name : String}
    (plain : PlainTemplates ss)
    (member : (name, body) ∈ collectedIn ss) :
    ImportFree body := by
  obtain ⟨opening, position, leaf⟩ := mem_collectedIn.1 member
  exact plain name body opening position (mem_walkIn_of_mem_leavesIn leaf)

theorem PlainTemplates.mem_leavesIn {ss : List Statement}
    (plain : PlainTemplates ss)
    {path : String} {position : Position}
    (member : .importFile path position ∈ walkIn ss) :
    .importFile path position ∈ leavesIn ss := by
  induction ss using statementRecursion with
  | nil => cases member
  | cons s rest inside behind =>
      have below : PlainTemplates s.children :=
        fun name body opening place found =>
        plain name body opening place (mem_walkIn_cons.2 (.inr (.inl found)))
      have later : PlainTemplates rest := fun name body opening place found =>
        plain name body opening place (mem_walkIn_cons.2 (.inr (.inr found)))
      rw [mem_leavesIn_cons]
      rcases mem_walkIn_cons.1 member with rfl | within | after
      · exact .inl (by simp [Statement.leaves])
      · cases s with
        | block | location => exact .inl (inside below within)
        | definition name body opening place =>
            exact absurd within
              (plain name body opening place (by simp) path position)
        | directive | reference | importFile | stray => cases within
      · exact .inr (behind later after)

namespace Site

variable {site : Site} {document : Document} {first : Option Address}

/-- The statements of a file, or of the document that came from no file. In the
place of the file that the document came from stands the document. -/
def statementsAt (site : Site) (document : Document) (first : Option Address) :
    Option Address → Except Failure (List Statement)
  | none => .ok document.children
  | some a =>
    if first = some a then .ok document.children
      else (site.documentAt a).map Document.children

/-- A file, or the document that came from no file, has an import that names the
other file. -/
def Imports
    (site : Site) (document : Document) (first : Option Address)
    (place : Option Address) (b : Address) :
    Prop :=
  ∃ ss path position, site.statementsAt document first place = .ok ss ∧
    .importFile path position ∈ walkIn ss ∧
      site.resolveImport { current := place } path = .ok b

def ImportEdge
    (site : Site) (document : Document) (first : Option Address)
    (a b : Address) :
    Prop :=
  site.Imports document first (some a) b

/-- The document imports the file, or one that leads to it. -/
def Imported (site : Site) (document : Document) (first : Option Address) :
    Address → Prop :=
  Reached (site.Imports document first first) (site.ImportEdge document first)

/-- Where a trail of imports begins: in the file that the document came from, or
else in one that the document imports. -/
def Begins
    (site : Site) (document : Document) (first : Option Address) (b : Address) :
    Prop :=
  match first with
  | some a => b = a
  | none => site.Imports document none none b

theorem statementsAt_first (document : Document) (first : Option Address) :
    site.statementsAt document first first = .ok document.children := by
  cases first with
  | none => rfl
  | some a => rw [statementsAt, if_pos rfl]

theorem imported_of_trail {stack : List Address} {a : Address}
    (outer : first.toList <+: stack)
    (trail : Trail (site.Begins document first) (site.ImportEdge document first)
      (stack ++ [a])) :
    site.Imported document first a := by
  cases first with
  | none => exact trail.reached
  | some origin =>
      obtain ⟨others, rfl⟩ := outer
      have path :
          Relation.TransGen (site.ImportEdge document (some origin)) origin a :=
        transGen_of_isChain trail.chain
      obtain ⟨next, step, rest⟩ := Relation.TransGen.head'_iff.1 path
      exact ⟨next, step, rest⟩

structure Clear (site : Site) (progress : Progress) : Prop where
  cached : site.Cached progress
  bodies : ∀ name body, progress.templates.get? name = some body →
    ImportFree body ∧ Proper body

structure Importing
    (site : Site) (document : Document) (first : Option Address)
    (scope : Scope) :
    Prop where
  outer : first.toList <+: scope.stack
  nodup : scope.stack.Nodup
  current : scope.current = scope.stack.getLast?
  trail : Trail (site.Begins document first)
    (site.ImportEdge document first) scope.stack

structure Belongs
    (site : Site) (document : Document) (first : Option Address) (scope : Scope)
    (s : Statement) :
    Prop where
  proper : Proper [s]
  imports : ∀ path position, .importFile path position ∈ walkIn [s] →
    ∃ ss, site.statementsAt document first scope.current = .ok ss ∧
      .importFile path position ∈ walkIn ss

theorem Importing.append {scope : Scope}
    (importing : site.Importing document first scope)
    {a : Address}
    (imports : site.Imports document first scope.current a) :
    Trail (site.Begins document first) (site.ImportEdge document first)
      (scope.stack ++ [a]) := by
  have trail := importing.trail
  rw [importing.current] at imports
  rcases List.eq_nil_or_concat' scope.stack with empty | ⟨files, last, same⟩
  · have none : first = none := by
      have outer := importing.outer
      rw [empty] at outer
      simpa using outer
    subst none
    rw [empty] at imports ⊢
    exact .start imports
  · rw [same] at imports trail ⊢
    rw [List.getLast?_concat] at imports
    exact trail.append imports

theorem Belongs.imports_of_resolve
    {scope : Scope} {path : String} {position : Position} {a : Address}
    (belongs : site.Belongs document first scope (.importFile path position))
    (resolved : site.resolveImport scope path = .ok a) :
    site.Imports document first scope.current a := by
  obtain ⟨ss, same, member⟩ := belongs.imports path position (by simp)
  exact ⟨ss, path, position, same, member, resolved⟩

theorem Importing.statementsAt_eq {scope : Scope}
    (importing : site.Importing document first scope)
    {a : Address} {other : Document}
    (fresh : a ∉ scope.stack)
    (stands : site.documentAt a = .ok other) :
    site.statementsAt document first (some a) = .ok other.children := by
  have elsewhere : first ≠ some a := by
    rintro rfl
    exact fresh (importing.outer.subset (by simp))
  rw [statementsAt, if_neg elsewhere, stands]
  rfl

theorem keeps_importing
    (still : site.journal = none)
    (others : ∀ a other, site.Imported document first a →
      site.documentAt a = .ok other → PlainTemplates other.children) :
    site.Keeps site.Clear (site.Importing document first)
      (site.Belongs document first) where
  inside belongs t member :=
    ⟨belongs.proper.mono (walkIn_inner_subset member),
      fun path position found =>
        belongs.imports path position (walkIn_inner_subset member _ found)⟩
  enter {scope s progress later ss final} opens clear importing belongs
    entered := by
    cases s with
    | directive | block | location | definition => cases opens
    | stray => exact belongs.proper.here.elim
    | reference name position =>
        obtain ⟨rfl, rfl, _, found⟩ := enter_reference_ok entered
        obtain ⟨importFree, proper⟩ := clear.bodies name ss found
        refine ⟨clear, ⟨importing.outer, importing.nodup, importing.current,
          importing.trail⟩, ?_⟩
        intro t member
        refine ⟨proper.mono (walkIn_singleton_subset member), ?_⟩
        intro path place inside
        exact absurd (walkIn_singleton_subset member _ inside)
          (importFree path place)
    | importFile path position =>
        obtain ⟨a, other, resolved, fresh, stands, rfl, rfl, templates,
            cached⟩ := enter_import_ok still clear.cached entered
        have trail := importing.append (belongs.imports_of_resolve resolved)
        have plain :=
          others a other (imported_of_trail importing.outer trail) stands
        have proper : Proper other.children := by
          obtain ⟨bytes, _, within⟩ := exists_of_documentAt stands
          obtain ⟨source, _, parsed⟩ := exists_of_documentIn within
          exact Document.proper_of_parse parsed
        refine ⟨⟨cached, ?_⟩, ⟨?_, ?_, ?_, trail⟩, ?_⟩
        · intro name body found
          rw [templates] at found
          rcases Templates.mem_of_get?_collect found with new | old
          · exact ⟨plain.of_collected new, proper.mono (walkIn_body_subset new)⟩
          · exact clear.bodies name body old
        · exact importing.outer.trans (List.prefix_append _ _)
        · rw [Scope.enterFile, ← List.concat_eq_append]
          exact importing.nodup.concat fresh
        · rw [Scope.enterFile, List.getLast?_concat]
        · intro t member
          refine ⟨proper.mono (walkIn_singleton_subset member), ?_⟩
          intro path place inside
          exact ⟨other.children, importing.statementsAt_eq fresh stands,
            walkIn_singleton_subset member _ inside⟩

theorem holds_importing
    (own : PlainTemplates document.children)
    (proper : Proper document.children)
    {origin : Option Path} {scope : Scope}
    (started : site.startScope origin = .ok scope) :
    (firstMoment scope document).Holds site.Clear
      (site.Importing document scope.current)
      (site.Belongs document scope.current) := by
  refine ⟨⟨nofun, ?_⟩, ?_, ?_⟩
  · intro name body found
    rw [firstMoment, get?_firstProgress] at found
    have collected := mem_collectedIn_of_lastDefinition found
    exact ⟨own.of_collected collected,
      proper.mono (walkIn_body_subset collected)⟩
  · intro s member
    refine ⟨proper.mono (walkIn_singleton_subset member), ?_⟩
    intro path position inside
    exact ⟨_, statementsAt_first document scope.current,
      walkIn_singleton_subset member _ inside⟩
  · rcases startScope_cases started with ⟨_, rfl⟩ | ⟨_, a, _, _, rfl⟩
    · exact ⟨List.nil_prefix, .nil, rfl, .nil⟩
    · exact ⟨List.prefix_refl _, List.nodup_singleton a, rfl, .start rfl⟩

theorem documentAt_ne_importCycle (a : Address) (chain : List String) :
    site.documentAt a ≠ .error (.render (.importCycle chain)) := by
  intro failed
  rw [documentAt] at failed
  split at failed
  · cases failed
  · rename_i bytes _
    rw [documentIn] at failed
    cases decoded : FileStore.decodeText bytes with
    | error failure =>
        rw [decoded] at failed
        cases failed
        rw [FileStore.decodeText] at decoded
        split at decoded <;> cases decoded
    | ok source =>
        rw [decoded] at failed
        exact Document.parse_ne_render _ _ _ _ failed
  · cases failed

theorem resolveImport_ne_importCycle
    (scope : Scope) (path : String) (chain : List String) :
    site.resolveImport scope path ≠ .error (.render (.importCycle chain)) := by
  intro failed
  rw [resolveImport, Path.resolve?] at failed
  split at failed <;> cases failed

def Readable (site : Site) (document : Document) (first : Option Address) :
    Address → Prop :=
  Grounded (site.ImportEdge document first) fun a => ∃ other,
    site.documentAt a = .ok other

def ImportsReadably
    (site : Site) (document : Document) (first : Option Address) (scope : Scope)
    (s : Statement) :
    Prop :=
  ∀ path position a, s = .importFile path position →
    site.resolveImport scope path = .ok a →
    site.Readable document first a

theorem importsReadably_of_enter
    (still : site.journal = none)
    (others : ∀ a other, site.Imported document first a →
      site.documentAt a = .ok other → PlainTemplates other.children)
    {scope later : Scope} {s : Statement} {ss : List Statement}
    {progress final : Progress}
    (clear : site.Clear progress)
    (importing : site.Importing document first scope)
    (belongs : site.Belongs document first scope s)
    (entered : (site.enter scope s).run.run progress = (.ok (later, ss), final))
    (inner : ∀ leaf ∈ leavesIn ss, leaf.opens site.options = true →
      site.ImportsReadably document first later leaf) :
    site.ImportsReadably document first scope s := by
  rintro path position a rfl resolved
  obtain ⟨b, other, again, fresh, stands, rfl, rfl, _, _⟩ :=
    enter_import_ok still clear.cached entered
  obtain rfl := Except.ok.inj (resolved.symm.trans again)
  have trail := importing.append (belongs.imports_of_resolve resolved)
  have plain := others a other (imported_of_trail importing.outer trail) stands
  refine .intro ⟨other, stands⟩ ?_
  rintro c ⟨ss, next, place, same, member, nextResolved⟩
  obtain rfl : other.children = ss :=
    Except.ok.inj ((importing.statementsAt_eq fresh stands).symm.trans same)
  exact inner _ (plain.mem_leavesIn member) rfl next place c rfl nextResolved

section Outcome

variable {origin : Option Path} {scope : Scope}
  (still : site.journal = none)
  (started : site.startScope origin = .ok scope)
  (proper : Proper document.children)
  (own : PlainTemplates document.children)
  (others : ∀ a other, site.Imported document scope.current a →
    site.documentAt a = .ok other → PlainTemplates other.children)

include still started proper own others

theorem readable_of_ends {lines : List String} {final : Progress}
    (ends : site.Ends (firstMoment scope document) (.ok lines) final)
    {a : Address}
    (imported : site.Imported document scope.current a) :
    site.Readable document scope.current a := by
  have shown := (keeps_importing still others).of_success
    (holds_importing own proper started) (fun belongs => belongs.proper.here)
    (fun _ clear importing belongs entered inner =>
      importsReadably_of_enter still others clear importing belongs entered
        inner) ends
  obtain ⟨b, ⟨ss, path, position, same, member, resolved⟩, way⟩ := imported
  obtain rfl : document.children = ss :=
    Except.ok.inj ((statementsAt_first document scope.current).symm.trans same)
  obtain ⟨s, among, below⟩ :=
    ServerConf.mem_leavesIn.1 (own.mem_leavesIn member)
  have start := shown.1 s among _ below rfl path position b rfl resolved
  exact start.trans way

theorem trail_of_ends {chain : List String} {final : Progress}
    (ends : site.Ends (firstMoment scope document)
      (.error (.render (.importCycle chain))) final) :
    ∃ files last, chain = (files ++ [last]).map Address.text ∧
      scope.current.toList <+: files ∧
      Trail (site.Begins document scope.current)
        (site.ImportEdge document scope.current)
        (files ++ [last]) ∧
      files.Nodup ∧ last ∈ files := by
  obtain ⟨place, s, progress, opens, clear, importing, belongs, failed⟩ :=
    (keeps_importing still others).exists_failure
      (holds_importing own proper started) ends
  cases s with
  | directive | block | location | definition => cases opens
  | stray => exact belongs.proper.here.elim
  | reference name position =>
      rcases enter_reference_error failed with ⟨same, _⟩ | ⟨same, _⟩ <;>
        cases same
  | importFile path position =>
      rcases enter_import_error still clear.cached failed with
        unresolved | ⟨a, resolved, ⟨again, same⟩ | ⟨_, unread⟩⟩
      · exact absurd unresolved (resolveImport_ne_importCycle place path chain)
      · cases same
        exact ⟨place.stack, a, rfl, importing.outer,
          importing.append (belongs.imports_of_resolve resolved),
          importing.nodup, again⟩
      · exact absurd unread (documentAt_ne_importCycle a chain)

end Outcome

/-- Where no template imports a file: if the rendering succeeds, every imported
file is a regular one that can be decoded and parsed, and none of them leads
back to itself. If it complains about a cycle, the chain goes from the file that
the document came from, or else from one that it imports, along imports until it
comes back to where it has been. So it does not complain if there is no cycle,
however many ways lead to a file. -/
theorem render_importCycle_exact {origin : Option Path} {scope : Scope}
    (still : site.journal = none)
    (started : site.startScope origin = .ok scope)
    (proper : Proper document.children)
    (own : PlainTemplates document.children)
    (others : ∀ a other, site.Imported document scope.current a →
      site.documentAt a = .ok other → PlainTemplates other.children) :
    (∀ text, (site.render document origin).result = .ok text →
      ∀ a, site.Imported document scope.current a →
        (∃ bytes source other, site.store.HasFile a bytes ∧
          FileStore.decodeText bytes = .ok source ∧
          Document.parse site.env a.text source = .ok other) ∧
        ¬ Relation.TransGen (site.ImportEdge document scope.current) a a) ∧
    (∀ chain, (site.render document origin).result =
      .error (.render (.importCycle chain)) →
      ∃ files last, chain = (files ++ [last]).map Address.text ∧
        (∀ a, scope.current = some a → files.head? = some a) ∧
        (scope.current = none →
          ∀ a ∈ files.head?, site.Imports document none none a) ∧
        List.IsChain (site.ImportEdge document scope.current)
          (files ++ [last]) ∧
        files.Nodup ∧ last ∈ files) ∧
    ((∀ a, site.Imported document scope.current a →
        ¬ Relation.TransGen (site.ImportEdge document scope.current) a a) →
      ∀ chain, (site.render document origin).result ≠
        .error (.render (.importCycle chain))) := by
  obtain ⟨result, final, ends, same⟩ :
      ∃ result final, site.Ends (firstMoment scope document) result final ∧
        site.render document origin = ⟨result.map textOf, final, scope⟩ :=
    exists_end still started
  have trails : ∀ chain,
      (site.render document origin).result =
        .error (.render (.importCycle chain)) →
      ∃ files last, chain = (files ++ [last]).map Address.text ∧
        scope.current.toList <+: files ∧
        Trail (site.Begins document scope.current)
          (site.ImportEdge document scope.current)
          (files ++ [last]) ∧
        files.Nodup ∧ last ∈ files := by
    intro chain failed
    rw [same] at failed
    cases result with
    | ok lines => cases failed
    | error failure =>
        cases failed
        exact trail_of_ends still started proper own others ends
  refine ⟨?_, ?_, ?_⟩
  · intro text rendered a imported
    rw [same] at rendered
    cases result with
    | error failure => cases rendered
    | ok lines =>
        have readable :=
          readable_of_ends still started proper own others ends imported
        obtain ⟨other, stands⟩ := readable.present a .refl
        obtain ⟨bytes, file, within⟩ := exists_of_documentAt stands
        obtain ⟨source, decoded, parsed⟩ := exists_of_documentIn within
        exact ⟨⟨bytes, source, other, file, decoded, parsed⟩, readable.acyclic⟩
  · intro chain failed
    obtain ⟨files, last, rfl, outer, trail, nodup, again⟩ := trails chain failed
    refine ⟨files, last, rfl, ?_, ?_, trail.chain, nodup, again⟩
    · intro a current
      rw [current] at outer
      obtain ⟨rest, rfl⟩ := outer
      rfl
    · intro none a isFirst
      have begins := trail.begins a
        (by
          rw [List.head?_append_of_ne_nil _ (List.ne_nil_of_mem again)]
          exact isFirst)
      rw [none] at begins
      exact begins
  · intro acyclic chain failed
    obtain ⟨files, last, _, outer, trail, _, again⟩ := trails chain failed
    exact acyclic last (imported_of_trail outer trail) (trail.cycle again)

theorem plainTemplates_of_files
    {site : Site}
    {document other : Document}
    {first : Option Address}
    {a : Address}
    (bare : ∀ file ∈ site.store.files,
      (site.documentAt file.1).toOption.all (·.definitions.isEmpty) = true)
    (imported : site.Imported document first a)
    (stands : site.documentAt a = .ok other) :
    PlainTemplates other.children := by
  obtain ⟨b, ⟨_, _, _, _, _, resolved⟩, way⟩ := imported
  have settled : ".." ∉ a.parts := by
    rcases Relation.ReflTransGen.cases_tail way with rfl | ⟨_, _, edge⟩
    · exact not_mem_resolveImport resolved
    · obtain ⟨_, _, _, _, _, again⟩ := edge
      exact not_mem_resolveImport again
  obtain ⟨bytes, file, _⟩ := exists_of_documentAt stands
  have empty := bare _ (FileStore.mem_files_of_hasFile settled file)
  rw [stands] at empty
  have none : other.definitions = [] := List.isEmpty_iff.1 empty
  intro name body opening position member
  have listed : (name, position) ∈ other.definitions :=
    List.mem_filterMap.2 ⟨_, member, rfl⟩
  rw [none] at listed
  cases listed

/-- Two files that import each other, and two that import the same third one. -/
theorem render_importCycle_exact_two_files :
    let file (name source : String) : Address × Entry :=
      (⟨["w", name]⟩, .file source.toUTF8)
    let ring : Site :=
      { store := ⟨⟨["w"]⟩,
          [(⟨["w"]⟩, .directory), file "a" "%import('b');",
            file "b" "%import('../w/a');"]⟩ }
    let diamond : Site :=
      { store := ⟨⟨["w"]⟩,
          [(⟨["w"]⟩, .directory), file "a" "%import('c');",
            file "b" "%import('c');", file "c" "x;"]⟩ }
    let document : Document :=
      ⟨[.definition "%t" [.directive "d" [] ⟨1, 8⟩] ⟨1, 6⟩ ⟨1, 1⟩,
        .location .none ["/"] [.importFile "a" ⟨2, 14⟩] ⟨2, 1⟩,
        .importFile "b" ⟨3, 1⟩], "m"⟩
    let origin : Option Path := some ⟨.relative, ["m"]⟩
    let m : Address := ⟨["w", "m"]⟩
    let chain := ["/w/m", "/w/a", "/w/b", "/w/a"]
    (ring.render document origin).result =
        .error (.render (.importCycle chain)) ∧
      (∃ files last, chain = (files ++ [last]).map Address.text ∧
        List.IsChain (ring.ImportEdge document (some m)) (files ++ [last]) ∧
        last ∈ files) ∧
      (diamond.render document origin).result =
        .ok "location / \x7b\n  x;\n\x7d\nx;" ∧
      ∀ a, diamond.Imported document (some m) a →
        ¬ Relation.TransGen (diamond.ImportEdge document (some m)) a a := by
  intro file ring diamond document origin m chain
  have proper : Proper document.children := by decide +kernel
  have own : PlainTemplates document.children := by
    intro name body opening place member
    simp only [document, mem_walkIn_cons, Statement.children, walkIn_nil,
      List.not_mem_nil, reduceCtorEq, Statement.definition.injEq,
      or_false] at member
    rw [member.2.1]
    intro path position inside
    simp [Statement.children] at inside
  have fails : (ring.render document origin).result =
      .error (.render (.importCycle chain)) := by
    decide +kernel
  have renders : (diamond.render document origin).result =
      .ok "location / \x7b\n  x;\n\x7d\nx;" := by
    decide +kernel
  have ringStarted : ring.startScope origin = .ok ⟨[m], some m, []⟩ := by
    decide +kernel
  have diamondStarted :
      diamond.startScope origin = .ok ⟨[m], some m, []⟩ := by
    decide +kernel
  have ringBare : ∀ file ∈ ring.store.files,
      (ring.documentAt file.1).toOption.all (·.definitions.isEmpty) = true :=
    List.all_eq_true.1 (by decide +kernel)
  have diamondBare : ∀ file ∈ diamond.store.files,
      (diamond.documentAt file.1).toOption.all (·.definitions.isEmpty) = true :=
    List.all_eq_true.1 (by decide +kernel)
  obtain ⟨_, cycles, _⟩ := render_importCycle_exact rfl ringStarted proper own
    fun _ _ => plainTemplates_of_files ringBare
  obtain ⟨files, last, same, _, _, edges, _, again⟩ := cycles chain fails
  obtain ⟨readable, _, _⟩ := render_importCycle_exact rfl diamondStarted proper
    own fun _ _ => plainTemplates_of_files diamondBare
  exact ⟨fails, ⟨files, last, same, edges, again⟩, renders,
    fun a imported => (readable _ renders a imported).2⟩

end Site

end ServerConf
