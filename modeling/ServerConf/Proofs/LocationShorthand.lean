import ServerConf.Proofs.ImportCache
import ServerConf.Proofs.Reporting
import ServerConf.Proofs.Substitution

/-!
A location with several paths is short for one location per path. Wherever such
a location stands, in a block, in another location or in the body of a template,
writing it out changes nothing of what is rendered.
-/

namespace ServerConf

/-- Some locations, at any depth, are written out as locations with one path
each, in the order of the paths. -/
inductive Spread : List Statement → List Statement → Prop where
  | nil : Spread [] []
  | keep (s : Statement) {rest out : List Statement}
      (behind : Spread rest out) :
      Spread (s :: rest) (s :: out)
  | block {name : String} {args : List String}
      {children inner rest out : List Statement} {position : Position}
      (inside : Spread children inner)
      (behind : Spread rest out) :
      Spread (.block name args children position :: rest)
        (.block name args inner position :: out)
  | location {modifier : Modifier} {paths : List String}
      {children inner rest out : List Statement} {position : Position}
      (inside : Spread children inner)
      (behind : Spread rest out) :
      Spread (.location modifier paths children position :: rest)
        (.location modifier paths inner position :: out)
  | definition {name : String} {body inner rest out : List Statement}
      {opening position : Position}
      (inside : Spread body inner)
      (behind : Spread rest out) :
      Spread (.definition name body opening position :: rest)
        (.definition name inner opening position :: out)
  | split {modifier : Modifier} {children inner rest out : List Statement}
      {position : Position} {places : List (String × Position)}
      (some : places ≠ [])
      (inside : Spread children inner)
      (behind : Spread rest out) :
      Spread
        (.location modifier (places.map Prod.fst) children position :: rest)
        (places.map
          (fun place => .location modifier [place.1] inner place.2) ++ out)

theorem Spread.refl (ss : List Statement) : Spread ss ss := by
  induction ss with
  | nil => exact .nil
  | cons s rest induction => exact .keep s induction

section Lines

variable {options : RenderOptions} {handlers : Handlers}

theorem linesOf_siblings
    (depth : Nat) (modifier : Modifier) (children : List Statement)
    (position : Position) (places : List (String × Position)) :
    linesOf options handlers depth
        (places.map fun place =>
          .location modifier [place.1] children place.2) =
      (Statement.location modifier (places.map Prod.fst) children
        position).lines options handlers
        depth := by
  induction places with
  | nil => simp [linesOf, Statement.lines]
  | cons place places induction =>
      rw [List.map_cons, linesOf, induction]
      simp [Statement.lines, List.mapM_cons]

theorem Spread.linesOf_eq {ss out : List Statement} (spread : Spread ss out) :
    ∀ depth, linesOf options handlers depth out =
      linesOf options handlers depth ss := by
  induction spread with
  | nil => exact fun _ => rfl
  | keep s _ behind =>
      intro depth
      rw [linesOf, linesOf, behind depth]
  | block _ _ inside behind
  | location _ _ inside behind
  | definition _ _ inside behind =>
      intro depth
      simp only [linesOf, Statement.lines, inside, behind]
  | @split modifier _ inner _ _ position _ _ _ _ inside behind =>
      intro depth
      rw [linesOf_append, linesOf_siblings depth modifier inner position,
        linesOf, behind]
      simp only [Statement.lines, inside]

end Lines

theorem lastDefinition_cons
    (s : Statement) (rest : List Statement) (name : String) :
    lastDefinition (s :: rest) name =
      (lastDefinition rest name).or (s.collected.reverse.lookup name) := by
  simp [lastDefinition, collectedIn, List.lookup_append]

theorem lastDefinition_append (first second : List Statement) (name : String) :
    lastDefinition (first ++ second) name =
      (lastDefinition second name).or (lastDefinition first name) := by
  rw [lastDefinition, collectedIn_append, List.reverse_append,
    List.lookup_append]
  rfl

theorem lastDefinition_siblings
    (modifier : Modifier) (children : List Statement)
    {places : List (String × Position)}
    (some : places ≠ [])
    (name : String) :
    lastDefinition (places.map fun place =>
      .location modifier [place.1] children place.2) name =
      lastDefinition children name := by
  induction places with
  | nil => exact absurd rfl some
  | cons place places induction =>
      rw [List.map_cons, lastDefinition_cons]
      change Option.or _ (lastDefinition children name) = _
      cases places with
      | nil => rfl
      | cons next places =>
          rw [induction (List.cons_ne_nil _ _)]
          exact Option.or_self

theorem rel_or {α : Type} {R : α → α → Prop} {a b c d : Option α}
    (first : Option.Rel R a b)
    (second : Option.Rel R c d) :
    Option.Rel R (a.or c) (b.or d) := by
  cases first with
  | some related => exact .some related
  | none => exact second

theorem rel_self {α : Type} {R : α → α → Prop}
    (refl : ∀ a, R a a)
    (a : Option α) :
    Option.Rel R a a := by
  cases a with
  | some a => exact .some (refl a)
  | none => exact .none

theorem Spread.lastDefinition {ss out : List Statement}
    (spread : Spread ss out)
    (name : String) :
    Option.Rel Spread (lastDefinition ss name) (lastDefinition out name) := by
  induction spread with
  | nil => exact .none
  | keep s _ behind =>
      rw [lastDefinition_cons, lastDefinition_cons]
      exact rel_or behind (rel_self .refl _)
  | block _ _ inside behind | location _ _ inside behind =>
      rw [lastDefinition_cons, lastDefinition_cons]
      exact rel_or behind inside
  | @definition other body inner _ _ _ _ inside _ _ behind =>
      rw [lastDefinition_cons, lastDefinition_cons]
      apply rel_or behind
      by_cases same : name = other
      · simp [Statement.collected, same, inside]
      · simp [Statement.collected, lookup_cons_eq_ite, same]
  | split some _ _ inside behind =>
      rw [lastDefinition_cons, lastDefinition_append,
        lastDefinition_siblings _ _ some]
      exact rel_or behind inside

def Templates.SpreadTo (table other : Templates) : Prop :=
  ∀ name, Option.Rel Spread (table.get? name) (other.get? name)

theorem Templates.SpreadTo.collect
    {table other : Templates} {ss out : List Statement}
    (tables : table.SpreadTo other)
    (spread : Spread ss out) :
    (table.collect ss).SpreadTo (other.collect out) := by
  intro name
  rw [Templates.collect, Templates.collect, get?_insertAll, get?_insertAll]
  exact rel_or (spread.lastDefinition name) (tables name)

structure Progress.SpreadTo (p q : Progress) : Prop where
  cache : p.cache = q.cache
  templates : p.templates.SpreadTo q.templates

namespace Site

variable {site : Site}

abbrev SameSpread {α : Type} : Rendering α → Rendering α → Prop :=
  Rendering.Abreast Progress.SpreadTo fun _ _ _ => True

theorem linesWithin_spread {ss out : List Statement}
    (spread : Spread ss out)
    (levels : Nat) (scope : Scope) (depth : Nat) :
    site.linesWithin levels scope depth out =
      site.linesWithin levels scope depth ss := by
  cases levels with
  | zero => rfl
  | succ levels => exact spread.linesOf_eq depth

theorem sameSpread_load (still : site.journal = none) (a : Address) :
    SameSpread (site.load a) (site.load a) := by
  intro p q spread
  rw [load, Rendering.run_bind_of_ok (Rendering.get_run p),
    Rendering.run_bind_of_ok (Rendering.get_run q), ← spread.cache]
  cases p.cache.lookup a with
  | some document => exact .ok document ⟨spread.cache, spread.templates⟩
  | none =>
      obtain ⟨events, reads, _⟩ := readDocument_run still a
      dsimp only
      cases stands : site.documentAt a with
      | error failure =>
          rw [stands] at reads
          rw [Rendering.run_bind_of_error (reads p),
            Rendering.run_bind_of_error (reads q)]
          exact .error failure trivial
      | ok document =>
          rw [stands] at reads
          rw [Rendering.run_bind_of_ok (reads p),
            Rendering.run_bind_of_ok (reads q)]
          exact .ok document ⟨congrArg (· ++ [(a, document)]) spread.cache,
            spread.templates⟩

theorem sameSpread_collect (ss : List Statement) :
    SameSpread (Rendering.collect ss) (Rendering.collect ss) :=
  fun _ _ spread => .ok () ⟨spread.cache, spread.templates.collect (.refl ss)⟩

theorem abreast_reference
    {keep : Progress → Progress → Prop}
    {leave : Failure → Progress → Progress → Prop}
    (leaves : ∀ failure p q, keep p q → leave failure p q)
    {R : List Statement → List Statement → Prop} {name : String}
    (known : ∀ p q, keep p q →
      Option.Rel R (p.templates.get? name) (q.templates.get? name))
    {α : Type} {f g : List Statement → Rendering α}
    (inner : ∀ body out, R body out →
      Rendering.Abreast keep leave (f body) (g out))
    (scope : Scope) (position : Position) :
    Rendering.Abreast keep leave (templateBody scope name position >>= f)
      (templateBody scope name position >>= g) := by
  intro p q kept
  have left := templateBody_run scope name position p
  have right := templateBody_run scope name position q
  have related := known p q kept
  generalize p.templates.get? name = here at left related
  generalize q.templates.get? name = there at right related
  cases related with
  | none =>
      rw [Rendering.run_bind_of_error left, Rendering.run_bind_of_error right]
      exact .error _ (leaves _ p q kept)
  | @some body out related =>
      dsimp only at left right
      by_cases again : name ∈ scope.expanding
      · rw [if_pos again] at left right
        rw [Rendering.run_bind_of_error left, Rendering.run_bind_of_error right]
        exact .error _ (leaves _ p q kept)
      · rw [if_neg again] at left right
        rw [Rendering.run_bind_of_ok left, Rendering.run_bind_of_ok right]
        exact inner body out related p q kept

theorem sameSpread_linesWithin (still : site.journal = none) (levels : Nat) :
    ∀ scope depth ss, SameSpread (site.linesWithin levels scope depth ss)
      (site.linesWithin levels scope depth ss) := by
  have leaves : ∀ (_ : Failure) p q, Progress.SpreadTo p q → True :=
    fun _ _ _ _ => trivial
  induction levels with
  | zero =>
      intro scope depth ss
      exact .fail leaves _
  | succ levels induction =>
      intro scope depth ss
      apply (Rendering.Abreast.congruence leaves).linesOf
      · intro depth name position
        refine abreast_reference leaves
          (fun p q spread => spread.templates name) ?_ scope position
        intro body out written
        rw [linesWithin_spread written]
        exact induction _ depth body
      · intro depth path
        apply (abreast_importTarget leaves scope path).bind
        intro a
        apply (sameSpread_load still a).bind
        intro document
        apply (sameSpread_collect document.children).bind
        intro _
        exact induction _ depth _

theorem exists_run_of_bounded
    {document : Document} {origin : Option Path} {scope : Scope} {levels : Nat}
    (started : site.startScope origin = .ok scope)
    (bounded : ∀ m, site.Steps (firstMoment scope document) m →
      m.scope.size < scope.size + site.levels document)
    (enough : site.levels document ≤ levels) :
    ∃ result final, (site.linesWithin levels scope 0 document.children).run.run
        (firstProgress document) = (result, final) ∧
      site.render document origin = ⟨result.map textOf, final, scope⟩ := by
  obtain ⟨result, final, ends, rendered⟩ := exists_ends started bounded
  have more : ∀ m, site.Steps (firstMoment scope document) m →
      m.scope.size < scope.size + levels := by
    intro m steps
    exact Nat.lt_of_lt_of_le (bounded m steps) (Nat.add_le_add_left enough _)
  obtain ⟨same, left⟩ := ends.unique (ends_of_linesWithin more rfl)
  rw [same, left] at rendered
  exact ⟨_, _, rfl, rendered⟩

theorem exists_run_of_levels_le
    {document : Document} {origin : Option Path} {scope : Scope} {levels : Nat}
    (still : site.journal = none)
    (started : site.startScope origin = .ok scope)
    (enough : site.levels document ≤ levels) :
    ∃ result final, (site.linesWithin levels scope 0 document.children).run.run
        (firstProgress document) = (result, final) ∧
      site.render document origin = ⟨result.map textOf, final, scope⟩ := by
  apply exists_run_of_bounded started _ enough
  intro m steps
  rw [startScope_size started]
  exact (distinct_of_steps still started steps).size_lt

/-- Writing locations out, wherever they stand, leaves the text or the failure
as it is. -/
theorem render_spread
    (still : site.journal = none)
    {document other : Document}
    (spread : Spread document.children other.children)
    (origin : Option Path) :
    (site.render other origin).result =
      (site.render document origin).result := by
  cases started : site.startScope origin with
  | error failure => rw [render, render, started]
  | ok scope =>
      -- The levels count definitions, and there may be more of them once they
      -- are written out.
      let levels := max (site.levels document) (site.levels other)
      obtain ⟨result, final, ran, rendered⟩ :=
        exists_run_of_levels_le still started (Nat.le_max_left _ _ : _ ≤ levels)
      obtain ⟨written, later, ranToo, renderedToo⟩ :=
        exists_run_of_levels_le still started
          (Nat.le_max_right _ _ : _ ≤ levels)
      have tables : (firstProgress document).SpreadTo (firstProgress other) :=
        ⟨rfl, Templates.SpreadTo.collect (fun _ => .none) spread⟩
      have agree :=
        sameSpread_linesWithin still levels scope 0 document.children _ _ tables
      rw [linesWithin_spread spread] at ranToo
      rw [ran, ranToo] at agree
      rw [rendered, renderedToo]
      cases agree <;> rfl

/-- A location in the body of a template, which is rendered from there. -/
theorem render_spread_template :
    let site : Site := { store := ⟨⟨["w"]⟩, [(⟨["w"]⟩, .directory)]⟩ }
    let inner : List Statement := [.directive "x" [] ⟨2, 3⟩]
    let holding (locations : List Statement) : Document :=
      ⟨[.definition "%t" locations ⟨1, 6⟩ ⟨1, 1⟩, .reference "%t" ⟨5, 1⟩],
        "<string>"⟩
    let short := holding [.location .none ["/a", "/b"] inner ⟨1, 8⟩]
    let long := holding [.location .none ["/a"] inner ⟨1, 8⟩,
      .location .none ["/b"] inner ⟨4, 8⟩]
    let text := "location /a \x7b\n  x;\n\x7d\nlocation /b \x7b\n  x;\n\x7d"
    Spread short.children long.children ∧
      (site.render short none).result = .ok text ∧
      (site.render long none).result = .ok text := by
  intro site inner holding short long text
  have spread : Spread short.children long.children :=
    .definition (@Spread.split .none inner inner [] [] ⟨1, 8⟩ [("/a", ⟨1, 8⟩),
      ("/b", ⟨4, 8⟩)]
      (List.cons_ne_nil _ _) (.refl inner) .nil) (.refl _)
  have rendered : (site.render short none).result = .ok text := by
    decide +kernel
  exact ⟨spread, rendered, (render_spread rfl spread none).trans rendered⟩

end Site

end ServerConf
