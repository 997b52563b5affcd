import ServerConf.Proofs.Loading

/-!
Every rendering comes to an end. The files being rendered are different ones,
and so are the templates being expanded; there are only so many of either.
Nothing else keeps a rendering from going on.
-/

namespace ServerConf

namespace Site

variable {site : Site} {document : Document}

def namesIn (site : Site) (a : Address) (bytes : ByteArray) : List String :=
  match site.documentIn a bytes with
  | .ok document => (collectedIn document.children).map Prod.fst
  | .error _ => []

/-- The names of the templates that the document or a file defines. -/
def definedNames (site : Site) (document : Document) : List String :=
  (collectedIn document.children).map Prod.fst ++
    site.store.files.flatMap fun file => site.namesIn file.1 file.2

theorem length_namesIn_le (a : Address) (bytes : ByteArray) :
    (site.namesIn a bytes).length ≤ bytes.size := by
  rw [namesIn]
  split
  · rename_i document stands
    obtain ⟨source, decoded, parsed⟩ := exists_of_documentIn stands
    calc ((collectedIn document.children).map Prod.fst).length
        = (collectedIn document.children).length := List.length_map _
      _ ≤ (walkIn document.children).countP Statement.isDefinition :=
        length_collectedIn_le _
      _ ≤ (walkIn document.children).length := List.countP_le_length
      _ ≤ source.length := Document.length_walk_le parsed
      _ ≤ bytes.size := FileStore.length_decodeText_le decoded
  · exact Nat.zero_le _

theorem length_definedNames_le (site : Site) (document : Document) :
    (site.definedNames document).length ≤
      document.definitions.length + site.store.byteCount := by
  have own := length_collectedIn_le document.children
  rw [← Document.length_definitions] at own
  have others : ∀ files : List (Address × ByteArray),
      (files.flatMap fun file => site.namesIn file.1 file.2).length ≤
        files.foldr (fun file count =>
          file.1.text.utf8ByteSize + file.2.size + count) 0 := by
    intro files
    induction files with
    | nil => exact Nat.le_refl _
    | cons file files induction =>
        have here := site.length_namesIn_le file.1 file.2
        rw [List.flatMap_cons, List.length_append, List.foldr_cons]
        omega
  rw [definedNames, List.length_append, List.length_map]
  exact Nat.add_le_add own (others site.store.files)

theorem mem_definedNames
    {a : Address} {bytes : ByteArray} {other : Document} {name : String}
    {body : List Statement}
    (file : (a, bytes) ∈ site.store.files)
    (stands : site.documentIn a bytes = .ok other)
    (member : (name, body) ∈ collectedIn other.children) :
    name ∈ site.definedNames document := by
  refine List.mem_append_right _ (List.mem_flatMap.2 ⟨_, file, ?_⟩)
  simp only [namesIn, stands]
  exact List.mem_map_of_mem member

structure Informed (site : Site) (document : Document) (progress : Progress) :
    Prop where
  cached : site.Cached progress
  defined : ∀ name body, progress.templates.get? name = some body →
    name ∈ site.definedNames document

/-- Different files are being rendered, all regular but those that were there at
the start, and different templates are being expanded, all defined somewhere. -/
structure Distinct
    (site : Site) (document : Document) (outer : List Address) (scope : Scope) :
    Prop where
  files : scope.stack.Nodup
  regular : ∀ a ∈ scope.stack, a ∈ outer ∨
    ∃ bytes, site.store.HasFile a bytes ∧ (a, bytes) ∈ site.store.files
  templates : scope.expanding.Nodup
  defined : ∀ name ∈ scope.expanding, name ∈ site.definedNames document

theorem Distinct.length_stack_le {outer : List Address} {scope : Scope}
    (distinct : site.Distinct document outer scope) :
    scope.stack.length ≤ outer.length + site.store.files.length := by
  have among : scope.stack ⊆ outer ++ site.store.files.map Prod.fst := by
    intro a member
    rcases distinct.regular a member with before | ⟨bytes, _, file⟩
    · exact List.mem_append_left _ before
    · exact List.mem_append_right _ (List.mem_map_of_mem file)
  have count := (List.subperm_of_subset distinct.files among).length_le
  rwa [List.length_append, List.length_map] at count

theorem Distinct.size_lt {outer : List Address} {scope : Scope}
    (distinct : site.Distinct document outer scope) :
    scope.size < outer.length + site.levels document := by
  have files := distinct.length_stack_le
  have names :=
    (List.subperm_of_subset distinct.templates distinct.defined).length_le
  have count := site.length_definedNames_le document
  rw [Scope.size, levels]
  omega

theorem keeps_distinct (still : site.journal = none) (outer : List Address) :
    site.Keeps (site.Informed document) (site.Distinct document outer)
      (fun _ _ => True) where
  inside _ _ _ := trivial
  enter {scope s progress later ss final} opens informed distinct _
    entered := by
    cases s with
    | directive | block | location | definition => cases opens
    | stray => exact (Rendering.not_fail_ok entered).elim
    | reference name position =>
        obtain ⟨rfl, rfl, fresh, found⟩ := enter_reference_ok entered
        refine ⟨informed, ⟨distinct.files, distinct.regular, ?_, ?_⟩,
          fun _ _ => trivial⟩
        · rw [Scope.enterTemplate, ← List.concat_eq_append]
          exact distinct.templates.concat fresh
        · exact List.forall_mem_append.2
            ⟨distinct.defined,
              List.forall_mem_singleton.2 (informed.defined name ss found)⟩
    | importFile path position =>
        obtain ⟨a, other, resolved, fresh, stands, rfl, rfl, templates,
            cached⟩ := enter_import_ok still informed.cached entered
        obtain ⟨bytes, file, within⟩ := exists_of_documentAt stands
        have listed :=
          FileStore.mem_files_of_hasFile (not_mem_resolveImport resolved) file
        refine ⟨⟨cached, ?_⟩, ⟨?_, ?_, distinct.templates, distinct.defined⟩,
          fun _ _ => trivial⟩
        · intro name body found
          rw [templates] at found
          rcases Templates.mem_of_get?_collect found with new | old
          · exact mem_definedNames listed within new
          · exact informed.defined name body old
        · rw [Scope.enterFile, ← List.concat_eq_append]
          exact distinct.files.concat fresh
        · exact List.forall_mem_append.2
            ⟨distinct.regular,
              List.forall_mem_singleton.2 (.inr ⟨bytes, file, listed⟩)⟩

theorem distinct_of_steps
    (still : site.journal = none)
    {origin : Option Path} {scope : Scope}
    (started : site.startScope origin = .ok scope)
    {m : Moment}
    (steps : site.Steps (firstMoment scope document) m) :
    site.Distinct document scope.stack m.scope := by
  have none := startScope_expanding started
  have first : (firstMoment scope document).Holds (site.Informed document)
      (site.Distinct document scope.stack) (fun _ _ => True) := by
    refine ⟨⟨nofun, ?_⟩, fun _ _ => trivial,
      ⟨?_, fun a member => .inl member, ?_, ?_⟩⟩
    · intro name body found
      rw [firstMoment, get?_firstProgress] at found
      exact List.mem_append_left _
        (List.mem_map_of_mem (mem_collectedIn_of_lastDefinition found))
    · rcases startScope_cases started with ⟨_, rfl⟩ | ⟨_, _, _, _, rfl⟩ <;>
        simp [firstMoment]
    · rw [firstMoment, none]
      exact .nil
    · rw [firstMoment, none]
      simp
  exact ((keeps_distinct still scope.stack).steps first steps).tasks.here

theorem exists_end
    (still : site.journal = none)
    {origin : Option Path} {scope : Scope}
    (started : site.startScope origin = .ok scope) :
    ∃ result final, site.Ends (firstMoment scope document) result final ∧
      site.render document origin = ⟨result.map textOf, final, scope⟩ := by
  refine exists_ends started fun m steps => ?_
  rw [startScope_size started]
  exact (distinct_of_steps still started steps).size_lt

theorem Ends.acc
    {m : Moment} {result : Except Failure (List String)} {final : Progress}
    (ends : site.Ends m result final) :
    Acc (fun later m => site.Next m later) m := by
  obtain ⟨last, steps, stopped⟩ := ends
  induction steps using Relation.ReflTransGen.head_induction_on with
  | refl =>
      refine .intro _ fun later next => ?_
      rw [Next, stopped] at next
      cases next
  | head next _ induction =>
      refine .intro _ fun other same => ?_
      obtain ⟨⟩ := next.symm.trans same
      exact induction

/-- Whatever the files, the document, its origin, the options and the
environment are: the run of a rendering ends, and what it ends with is rendered.
Until then the files being rendered are pairwise different, no more than there
are regular files and one, and the templates being expanded are pairwise
different and defined in the document or in a file. -/
theorem render_terminates
    (still : site.journal = none)
    (document : Document) (origin : Option Path) :
    (∀ failure, site.startScope origin = .error failure →
      (site.render document origin).result = .error failure) ∧
    ∀ scope, site.startScope origin = .ok scope →
      (∃ result final, site.Ends (firstMoment scope document) result final ∧
        site.render document origin = ⟨result.map textOf, final, scope⟩) ∧
      Acc (fun later m => site.Next m later) (firstMoment scope document) ∧
      ∀ m, site.Steps (firstMoment scope document) m →
        m.scope.stack.Nodup ∧
          m.scope.stack.length ≤ site.store.files.length + 1 ∧
        (∀ a ∈ m.scope.stack, a ∈ scope.stack ∨
          ∃ bytes, site.store.HasFile a bytes) ∧
        m.scope.expanding.Nodup ∧
        ∀ name ∈ m.scope.expanding, name ∈ site.definedNames document := by
  constructor
  · intro failure failed
    rw [render, failed]
  · intro scope started
    obtain ⟨result, final, ends, same⟩ := exists_end still started
    refine ⟨⟨result, final, ends, same⟩, ends.acc, ?_⟩
    intro m steps
    have distinct := distinct_of_steps still started steps
    have count := distinct.length_stack_le
    have short := startScope_length started
    refine ⟨distinct.files, by omega, ?_, distinct.templates, distinct.defined⟩
    intro a member
    rcases distinct.regular a member with before | ⟨bytes, file, _⟩
    · exact .inl before
    · exact .inr ⟨bytes, file⟩

/-- A template imports a file that imports another one, which defines the
template once more so that it would import the first file again. -/
theorem render_terminates_mutual :
    let site : Site :=
      { store := ⟨⟨["w"]⟩,
          [(⟨["w"]⟩, .directory),
            (⟨["w", "a"]⟩, .file "%import('b'); %inline(%t);".toUTF8),
            (⟨["w", "b"]⟩,
              .file "%t = \x7b %import('a'); \x7d;".toUTF8)]⟩ }
    let document : Document :=
      ⟨[.definition "%t" [.importFile "a" ⟨1, 8⟩] ⟨1, 6⟩ ⟨1, 1⟩,
        .reference "%t" ⟨2, 1⟩], "<string>"⟩
    (site.render document none).result =
        .error (.render (.recursiveTemplate ["%t", "%t"])) ∧
      (∃ result final, site.Ends (firstMoment {} document) result final ∧
        site.render document none = ⟨result.map textOf, final, {}⟩) ∧
      ∀ m, site.Steps (firstMoment {} document) m →
        m.scope.stack.Nodup ∧ m.scope.stack.length ≤ 3 ∧
          m.scope.expanding.Nodup := by
  intro site document
  have still : site.journal = none := rfl
  obtain ⟨ends, _, moments⟩ := (render_terminates still document none).2 {} rfl
  refine ⟨by decide +kernel, ends, fun m steps => ?_⟩
  obtain ⟨files, count, _, templates, _⟩ := moments m steps
  exact ⟨files, count, templates⟩

end Site

end ServerConf
