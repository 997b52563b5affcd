import ServerConf.Proofs.ReadBack
import ServerConf.Proofs.RenderedText
import ServerConf.Proofs.Runs
import ServerConf.Proofs.SourceSpelling
import ServerConf.Proofs.TemplateTable

/-!
What a document is rendered as: its own statements, each reference replaced by
the template and each location by one location per path.
-/

namespace ServerConf

open Lexeme Grammar

/-- The statements that are written for others. Where templates are expanded,
the body of a template stands in the place of a reference to it. -/
inductive Expands (expands : Bool) (table : Templates) :
    List Statement → List Statement → Prop where
  | nil : Expands expands table [] []
  | directive {name : String} {args : List String} {position : Position}
      {rest out : List Statement}
      (behind : Expands expands table rest out) :
      Expands expands table (.directive name args position :: rest)
        (.directive name args position :: out)
  | block {name : String} {args : List String}
      {children inner rest out : List Statement} {position : Position}
      (inside : Expands expands table children inner)
      (behind : Expands expands table rest out) :
      Expands expands table (.block name args children position :: rest)
        (.block name args inner position :: out)
  | location {modifier : Modifier} {paths : List String}
      {children inner rest out : List Statement} {position : Position}
      (inside : Expands expands table children inner)
      (behind : Expands expands table rest out) :
      Expands expands table (.location modifier paths children position :: rest)
        (paths.map
          (fun path => .location modifier [path] inner position) ++ out)
  | definition {name : String} {body rest out : List Statement}
      {opening position : Position}
      (behind : Expands expands table rest out) :
      Expands expands table (.definition name body opening position :: rest) out
  | kept {name : String} {position : Position} {rest out : List Statement}
      (unexpanded : expands = false)
      (behind : Expands expands table rest out) :
      Expands expands table (.reference name position :: rest)
        (.reference name position :: out)
  | replaced {name : String} {body inner rest out : List Statement}
      {position : Position}
      (expanded : expands = true)
      (found : table.get? name = some body)
      (inside : Expands expands table body inner)
      (behind : Expands expands table rest out) :
      Expands expands table (.reference name position :: rest) (inner ++ out)

theorem ownLinesOf_append (options : RenderOptions) (depth : Nat)
    (first second : List Statement) :
    ownLinesOf options depth (first ++ second) =
      ownLinesOf options depth first ++ ownLinesOf options depth second := by
  induction first with
  | nil => rfl
  | cons s first induction => simp [ownLinesOf, induction]

theorem ownLinesOf_locations
    (options : RenderOptions) (depth : Nat) (modifier : Modifier)
    (paths : List String) (children : List Statement) (position : Position) :
    ownLinesOf options depth
        (paths.map fun path => .location modifier [path] children position) =
      (paths.map fun path =>
        enclosed (options.indentation depth) (locationHeader modifier path)
        (ownLinesOf options (depth + 1) children)).flatten := by
  induction paths with
  | nil => rfl
  | cons path paths induction =>
      simp [ownLinesOf, Statement.ownLines, induction]

section Lines

variable {options : RenderOptions} {handlers : Handlers}
  {progress final : Progress}

theorem linesOf_cons_ok
    {s : Statement} {rest : List Statement} {depth : Nat} {lines : List String}
    (ran : (linesOf options handlers depth (s :: rest)).run.run progress =
      (.ok lines, final)) :
    ∃ first between others,
      (s.lines options handlers depth).run.run progress = (.ok first, between) ∧
      (linesOf options handlers depth rest).run.run between =
        (.ok others, final) ∧
      lines = first ++ others := by
  rw [linesOf] at ran
  obtain ⟨first, between, here, ran⟩ := Rendering.of_bind_ok ran
  obtain ⟨others, last, behind, ran⟩ := Rendering.of_bind_ok ran
  obtain ⟨rfl, rfl⟩ := Rendering.of_pure_ok ran
  exact ⟨first, between, others, here, behind, rfl⟩

theorem mapM_paths_ok
    {paths : List String} {inner : List String} {x : Rendering (List String)}
    (ran : x.run.run progress = (.ok inner, progress))
    (f : String → List String → List String) :
    (paths.mapM fun path => do return f path (← x)).run.run progress =
      (.ok (paths.map (f · inner)), progress) := by
  induction paths with
  | nil => rfl
  | cons path paths induction =>
      have first : (do return f path (← x) : Rendering (List String)).run.run
          progress = (.ok (f path inner), progress) := by
        rw [Rendering.run_bind_of_ok ran]
        rfl
      rw [List.mapM_cons, Rendering.run_bind_of_ok first,
        Rendering.run_bind_of_ok induction]
      rfl

theorem inside_of_mapM_paths {paths : List String} (some : paths ≠ [])
    {x : Rendering (List String)} {f : String → List String → List String}
    {lines : List (List String)}
    (mapped : (paths.mapM fun path => do return f path (← x)).run.run progress =
      (.ok lines, final)) :
    ∃ inner between, x.run.run progress = (.ok inner, between) := by
  obtain ⟨path, paths, rfl⟩ := List.exists_cons_of_ne_nil some
  rw [List.mapM_cons] at mapped
  obtain ⟨_, _, one, _⟩ := Rendering.of_bind_ok mapped
  obtain ⟨inner, between, within, _⟩ := Rendering.of_bind_ok one
  exact ⟨inner, between, within⟩

def Handlers.Expand
    (handlers : Handlers) (options : RenderOptions) (progress : Progress) :
    Prop :=
  ∀ depth name position lines final,
    (handlers.reference depth name position).run.run progress =
      (.ok lines, final) →
    final = progress ∧ ∃ body inner, progress.templates.get? name = some body ∧
      Expands true progress.templates body inner ∧
        lines = ownLinesOf options depth inner

theorem linesOf_expands
    (expand : options.expandTemplates = true → handlers.Expand options progress)
    {statements : List Statement}
    (sourced : Sourced statements)
    {depth : Nat} {lines : List String}
    (ran : (linesOf options handlers depth statements).run.run progress =
      (.ok lines, final)) :
    final = progress ∧ ∃ out,
      Expands options.expandTemplates progress.templates statements out ∧
      lines = ownLinesOf options depth out := by
  induction sourced generalizing depth lines final with
  | nil =>
      obtain ⟨rfl, rfl⟩ := Rendering.of_pure_ok ran
      exact ⟨rfl, [], .nil, rfl⟩
  | @directive name args position rest named behind induction =>
      obtain ⟨first, between, others, here, later, rfl⟩ := linesOf_cons_ok ran
      obtain ⟨rfl, rfl⟩ := Rendering.of_pure_ok here
      obtain ⟨rfl, out, expands, rfl⟩ := induction later
      exact ⟨rfl, _, .directive expands, rfl⟩
  | @block name args children rest position named inside behind insideInduction
      induction =>
      obtain ⟨first, between, others, here, later, rfl⟩ := linesOf_cons_ok ran
      rw [Statement.lines] at here
      obtain ⟨inner, final, within, here⟩ := Rendering.of_bind_ok here
      obtain ⟨rfl, rfl⟩ := Rendering.of_pure_ok here
      obtain ⟨rfl, innerOut, innerExpands, rfl⟩ := insideInduction within
      obtain ⟨rfl, out, expands, rfl⟩ := induction later
      exact ⟨rfl, _, .block innerExpands expands, rfl⟩
  | @condition args children rest position runs inside behind insideInduction
      induction =>
      obtain ⟨first, between, others, here, later, rfl⟩ := linesOf_cons_ok ran
      rw [Statement.lines] at here
      obtain ⟨inner, final, within, here⟩ := Rendering.of_bind_ok here
      obtain ⟨rfl, rfl⟩ := Rendering.of_pure_ok here
      obtain ⟨rfl, innerOut, innerExpands, rfl⟩ := insideInduction within
      obtain ⟨rfl, out, expands, rfl⟩ := induction later
      exact ⟨rfl, _, .block innerExpands expands, rfl⟩
  | @location modifier paths children rest position some inside behind
      insideInduction induction =>
      obtain ⟨first, between, others, here, later, rfl⟩ := linesOf_cons_ok ran
      rw [Statement.lines] at here
      obtain ⟨locations, last, mapped, here⟩ := Rendering.of_bind_ok here
      obtain ⟨rfl, rfl⟩ := Rendering.of_pure_ok here
      obtain ⟨inner, between, within⟩ := inside_of_mapM_paths some mapped
      obtain ⟨rfl, innerOut, innerExpands, rfl⟩ := insideInduction within
      have whole := mapped.symm.trans (mapM_paths_ok within fun path inner =>
        enclosed (options.indentation depth)
          (locationHeader modifier path) inner)
      obtain ⟨⟨rfl⟩, rfl⟩ := Prod.mk.inj whole
      obtain ⟨rfl, out, expands, rfl⟩ := induction later
      refine ⟨rfl, _, .location innerExpands expands, ?_⟩
      rw [ownLinesOf_append, ownLinesOf_locations]
  | @definition name body rest opening position inside behind _ induction =>
      obtain ⟨first, between, others, here, later, rfl⟩ := linesOf_cons_ok ran
      obtain ⟨rfl, rfl⟩ := Rendering.of_pure_ok here
      obtain ⟨rfl, out, expands, rfl⟩ := induction later
      exact ⟨rfl, out, .definition expands, rfl⟩
  | @reference name position rest spelled behind induction =>
      obtain ⟨first, between, others, here, later, rfl⟩ := linesOf_cons_ok ran
      rw [Statement.lines] at here
      split at here
      · rename_i expanded
        obtain ⟨rfl, body, inner, found, innerExpands, rfl⟩ :=
          expand expanded _ _ _ _ _ here
        obtain ⟨rfl, out, expands, rfl⟩ := induction later
        refine ⟨rfl, inner ++ out, .replaced expanded found ?_ expands, ?_⟩
        · rw [expanded]
          exact innerExpands
        · rw [ownLinesOf_append]
      · rename_i unexpanded
        obtain ⟨rfl, rfl⟩ := Rendering.of_pure_ok here
        obtain ⟨rfl, out, expands, rfl⟩ := induction later
        exact ⟨rfl, _, .kept (by simpa using unexpanded) expands, rfl⟩

end Lines

namespace Site

variable {site : Site} {scope : Scope} {progress final : Progress}

theorem templateBody_ok
    {name : String} {position : Position} {body : List Statement}
    (ran :
      (templateBody scope name position).run.run progress = (.ok body, final)) :
    final = progress ∧ progress.templates.get? name = some body := by
  rw [templateBody] at ran
  obtain ⟨p, between, got, ran⟩ := Rendering.of_bind_ok ran
  cases got
  split at ran
  · exact (Rendering.not_fail_ok ran).elim
  · rename_i found
    split at ran
    · exact (Rendering.not_fail_ok ran).elim
    · obtain ⟨rfl, rfl⟩ := Rendering.of_pure_ok ran
      exact ⟨rfl, found⟩

theorem linesWithin_expands
    (bodies : ∀ name body, progress.templates.get? name = some body →
      Sourced body)
    {levels : Nat} {depth : Nat} {statements : List Statement}
    (sourced : Sourced statements)
    {lines : List String}
    (ran : (site.linesWithin levels scope depth statements).run.run progress =
      (.ok lines, final)) :
    final = progress ∧ ∃ out,
      Expands site.options.expandTemplates progress.templates statements out ∧
      lines = ownLinesOf site.options depth out := by
  induction levels generalizing scope depth statements lines final with
  | zero => exact (Rendering.not_fail_ok ran).elim
  | succ levels induction =>
      refine linesOf_expands ?_ sourced ran
      intro expanded depth name position lines final referred
      obtain ⟨body, between, taken, within⟩ := Rendering.of_bind_ok referred
      obtain ⟨rfl, found⟩ := templateBody_ok taken
      obtain ⟨rfl, inner, expands, rfl⟩ :=
        induction (bodies name body found) within
      rw [expanded] at expands
      exact ⟨rfl, body, inner, found, expands, rfl⟩

end Site

theorem Grammar.Sourced.of_mem_collectedIn {statements : List Statement}
    (sourced : Sourced statements) {name : String} {body : List Statement}
    (member : (name, body) ∈ collectedIn statements) : Sourced body := by
  induction sourced with
  | nil => simp [collectedIn] at member
  | directive _ _ induction | reference _ _ induction =>
      exact induction (by simpa [collectedIn, Statement.collected] using member)
  | block _ _ _ inside induction | condition _ _ _ inside induction
  | location _ _ _ inside induction =>
      rw [collectedIn, Statement.collected, List.mem_append] at member
      exact member.elim inside induction
  | definition inside _ _ induction =>
      rw [collectedIn, Statement.collected, List.singleton_append,
        List.mem_cons] at member
      rcases member with same | later
      · cases same
        exact inside
      · exact induction later

theorem Templates.sourced_of_get? {statements : List Statement}
    (sourced : Sourced statements)
    (name : String) (body : List Statement)
    (found : (Templates.collect {} statements).get? name = some body) :
    Sourced body := by
  rw [Templates.get?_collect] at found
  exact sourced.of_mem_collectedIn (mem_collectedIn_of_lastDefinition found)

theorem Site.exists_scope
    {site : Site} {document : Document} {origin : Option Path} {text : String}
    (rendered : (site.render document origin).result = .ok text) :
    ∃ scope, site.startScope origin = .ok scope := by
  rw [render] at rendered
  split at rendered
  · cases rendered
  · rename_i scope started
    exact ⟨scope, started⟩

theorem Site.render_expands
    {site : Site} {document : Document} {origin : Option Path} {text : String}
    (sourced : Sourced document.children)
    (rendered : (site.render document origin).result = .ok text) :
    ∃ out, Expands site.options.expandTemplates
      (Templates.collect {} document.children)
        document.children out ∧
      text =
        String.ofList (Text.trim
          (Text.joinWith "\n" (ownLinesOf site.options 0 out)).toList) := by
  obtain ⟨scope, started⟩ := exists_scope rendered
  simp only [render, started] at rendered
  obtain ⟨final, ran⟩ : ∃ final, (site.renderIn scope document).run.run {} =
      (.ok text, final) := ⟨_, Prod.ext rendered rfl⟩
  rw [renderIn] at ran
  obtain ⟨_, _, collected, ran⟩ := Rendering.of_bind_ok ran
  cases collected
  obtain ⟨_, _, got, ran⟩ := Rendering.of_bind_ok ran
  cases got
  obtain ⟨_, _, reported, ran⟩ := Rendering.of_bind_ok ran
  cases reported
  obtain ⟨lines, _, within, ran⟩ := Rendering.of_bind_ok ran
  obtain ⟨rfl, _⟩ := Rendering.of_pure_ok ran
  obtain ⟨_, out, expands, rfl⟩ :=
    linesWithin_expands (Templates.sourced_of_get? sourced) sourced within
  exact ⟨out, expands, rfl⟩

end ServerConf
