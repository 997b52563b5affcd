import ServerConf.Proofs.Congruence
import ServerConf.Proofs.TemplateFailures

/-!
Expanding templates is substitution. A document whose templates can be expanded
is rendered as the statements in which each template stands in the place of the
references to it and no definition is left. So it does not matter where the
definitions stand.
-/

namespace ServerConf

/-- Statements without definitions, and with the body of a template, treated
alike, in the place of each reference to it. -/
inductive WrittenOut (find : String → Option (List Statement)) :
    List Statement → List Statement → Prop where
  | nil : WrittenOut find [] []
  | directive {name : String} {args : List String} {position : Position}
      {rest out : List Statement}
      (behind : WrittenOut find rest out) :
      WrittenOut find (.directive name args position :: rest)
        (.directive name args position :: out)
  | block {name : String} {args : List String}
      {children inner rest out : List Statement} {position : Position}
      (inside : WrittenOut find children inner)
      (behind : WrittenOut find rest out) :
      WrittenOut find (.block name args children position :: rest)
        (.block name args inner position :: out)
  | location {modifier : Modifier} {paths : List String}
      {children inner rest out : List Statement} {position : Position}
      (inside : WrittenOut find children inner)
      (behind : WrittenOut find rest out) :
      WrittenOut find (.location modifier paths children position :: rest)
        (.location modifier paths inner position :: out)
  | definition {name : String} {body rest out : List Statement}
      {opening position : Position}
      (behind : WrittenOut find rest out) :
      WrittenOut find (.definition name body opening position :: rest) out
  | reference {name : String} {body inner rest out : List Statement}
      {position : Position}
      (found : find name = some body)
      (inside : WrittenOut find body inner)
      (behind : WrittenOut find rest out) :
      WrittenOut find (.reference name position :: rest) (inner ++ out)
  | stray {kind : Stray} {children rest out : List Statement}
      (behind : WrittenOut find rest out) :
      WrittenOut find (.stray kind children :: rest)
        (.stray kind children :: out)

namespace WrittenOut

variable {find : String → Option (List Statement)} {ss out : List Statement}

theorem unique (first : WrittenOut find ss out) :
    ∀ {other}, WrittenOut find ss other → other = out := by
  induction first with
  | nil =>
      intro other second
      cases second
      rfl
  | directive _ behind =>
      intro other second
      cases second with
      | directive later => rw [behind later]
  | stray _ behind =>
      intro other second
      cases second with
      | stray later => rw [behind later]
  | block _ _ inside behind =>
      intro other second
      cases second with
      | block within later => rw [inside within, behind later]
  | location _ _ inside behind =>
      intro other second
      cases second with
      | location within later => rw [inside within, behind later]
  | definition _ behind =>
      intro other second
      cases second with
      | definition later => exact behind later
  | reference found _ _ inside behind =>
      intro other second
      cases second with
      | reference again within later =>
          obtain rfl := Option.some.inj (found.symm.trans again)
          rw [inside within, behind later]

theorem append {first second firstOut secondOut : List Statement}
    (here : WrittenOut find first firstOut)
    (there : WrittenOut find second secondOut) :
    WrittenOut find (first ++ second) (firstOut ++ secondOut) := by
  induction here with
  | nil => exact there
  | directive _ behind => exact .directive behind
  | block inside _ _ behind => exact .block inside behind
  | location inside _ _ behind => exact .location inside behind
  | definition _ behind => exact .definition behind
  | reference found inside _ _ behind =>
      rw [List.append_assoc]
      exact .reference found inside behind
  | stray _ behind => exact .stray behind

theorem again
    (writtenOut : WrittenOut find ss out)
    (other : String → Option (List Statement)) :
    WrittenOut other out out := by
  induction writtenOut with
  | nil => exact .nil
  | directive _ behind => exact .directive behind
  | block _ _ inside behind => exact .block inside behind
  | location _ _ inside behind => exact .location inside behind
  | definition _ behind => exact behind
  | reference _ _ _ inside behind => exact inside.append behind
  | stray _ behind => exact .stray behind

theorem plain (writtenOut : WrittenOut find ss out) :
    ∀ s ∈ walkIn out, s.isDefinition = false ∧
      ∀ name position, s ≠ .reference name position := by
  induction writtenOut with
  | nil => simp
  | definition _ behind => exact behind
  | reference _ _ _ inside behind =>
      intro s member
      rw [walkIn_append, List.mem_append] at member
      exact member.elim (inside s) (behind s)
  | directive _ behind | stray _ behind =>
      intro s member
      rcases mem_walkIn_cons.1 member with rfl | below | later
      · exact ⟨rfl, nofun⟩
      · cases below
      · exact behind s later
  | block _ _ inside behind | location _ _ inside behind =>
      intro s member
      rcases mem_walkIn_cons.1 member with rfl | below | later
      · exact ⟨rfl, nofun⟩
      · exact inside s below
      · exact behind s later

theorem not_refersTo (writtenOut : WrittenOut find ss out) (name : String) :
    ¬ RefersTo out name := by
  rintro ⟨position, member⟩
  exact (writtenOut.plain _ (mem_walkIn_of_mem_leavesIn member)).2 name
    position rfl

theorem definitions_eq_nil
    (writtenOut : WrittenOut find ss out)
    (filename : String) :
    Document.definitions ⟨out, filename⟩ = [] := by
  rw [Document.definitions, List.filterMap_eq_nil_iff]
  intro s member
  have none := (writtenOut.plain s member).1
  cases s <;> first | rfl | cases none

theorem references_eq_nil
    (writtenOut : WrittenOut find ss out)
    (filename : String) :
    Document.references ⟨out, filename⟩ = [] := by
  rw [Document.references, List.filterMap_eq_nil_iff]
  intro s member
  have none := (writtenOut.plain s member).2
  cases s <;> first | rfl | exact absurd rfl (none _ _)

end WrittenOut

section Existence

variable {find : String → Option (List Statement)}

theorem exists_writtenOut {ss : List Statement} (importFree : ImportFree ss)
    (bodies : ∀ name, RefersTo ss name → ∃ body inner, find name = some body ∧
      WrittenOut find body inner) : ∃ out, WrittenOut find ss out := by
  induction ss using statementRecursion with
  | nil => exact ⟨[], .nil⟩
  | cons s rest inside behind =>
      obtain ⟨out, later⟩ := behind
        (importFree.mono fun t member => mem_walkIn_cons.2 (.inr (.inr member)))
        fun name refers => bodies name refers.of_rest
      have below :=
        importFree.mono fun t member => mem_walkIn_cons.2 (.inr (.inl member))
      cases s with
      | directive => exact ⟨_, .directive later⟩
      | stray => exact ⟨_, .stray later⟩
      | definition => exact ⟨_, .definition later⟩
      | block =>
          obtain ⟨inner, within⟩ :=
            inside below fun name refers => bodies name (.of_inside refers)
          exact ⟨_, .block within later⟩
      | location =>
          obtain ⟨inner, within⟩ :=
            inside below fun name refers => bodies name (.of_inside refers)
          exact ⟨_, .location within later⟩
      | reference name position =>
          obtain ⟨body, inner, found, within⟩ :=
            bodies name ⟨position, by simp [Statement.leaves]⟩
          exact ⟨_, .reference found within later⟩
      | importFile path position =>
          exact absurd (by simp) (importFree path position)

theorem Sound.exists_writtenOut
    (importFree : ∀ name body, find name = some body → ImportFree body)
    {name : String}
    (sound : Sound find name) :
    ∃ body inner, find name = some body ∧ WrittenOut find body inner := by
  obtain ⟨acc, present⟩ := sound
  -- The induction is on the ways from the name, none of which goes on forever.
  induction acc with
  | intro name _ induction =>
      obtain ⟨body, found⟩ := Option.isSome_iff_exists.1 (present name .refl)
      obtain ⟨inner, within⟩ :=
        ServerConf.exists_writtenOut (importFree name body found)
          fun other refers => induction other ⟨body, found, refers⟩
          fun last path => present last (path.head ⟨body, found, refers⟩)
      exact ⟨body, inner, found, within⟩

end Existence

theorem Document.exists_writtenOut {document : Document}
    (none : document.imports = [])
    (expandable :
      Expandable (lastDefinition document.children) document.children) :
    ∃ out,
      WrittenOut (lastDefinition document.children) document.children out := by
  have importFree := ImportFree.of_imports none
  refine ServerConf.exists_writtenOut importFree fun name refers => ?_
  refine Sound.exists_writtenOut ?_
    (expandable.sound (isSome_lastDefinition document.children) refers)
  intro name body found
  exact importFree.mono
    (walkIn_body_subset (mem_collectedIn_of_lastDefinition found))

mutual

def Statement.bare : Statement → List Statement
  | .block name args children position =>
      [.block name args (bareIn children) position]
  | .location modifier paths children position =>
    [.location modifier paths (bareIn children) position]
  | .definition _ _ _ _ => []
  | s => [s]

def bareIn : List Statement → List Statement
  | [] => []
  | s :: rest => s.bare ++ bareIn rest

end

theorem refersTo_bareIn {ss : List Statement} {name : String} :
    RefersTo (bareIn ss) name ↔ RefersTo ss name := by
  refine exists_congr fun position => ?_
  induction ss using statementRecursion with
  | nil => rfl
  | cons s rest inside behind =>
      rw [bareIn, mem_leavesIn_cons]
      cases s with
      | definition => simp [Statement.bare, Statement.leaves, behind]
      | block | location =>
          exact mem_leavesIn_cons.trans (or_congr inside behind)
      | directive | reference | importFile | stray =>
          exact mem_leavesIn_cons.trans (or_congr_right behind)

theorem WrittenOut.bareIn
    {find : String → Option (List Statement)} {ss out : List Statement}
    (writtenOut : WrittenOut find ss out) :
    WrittenOut find (bareIn ss) out := by
  induction writtenOut with
  | nil => exact .nil
  | directive _ behind => exact .directive behind
  | block _ _ inside behind => exact .block inside behind
  | location _ _ inside behind => exact .location inside behind
  | definition _ behind => exact behind
  | reference found inside _ _ behind => exact .reference found inside behind
  | stray _ behind => exact .stray behind

def Rendering.Alike {α : Type} (p q : Progress) (x y : Rendering α) : Prop :=
  ∃ result, x.run.run p = (result, p) ∧ y.run.run q = (result, q)

namespace Rendering

variable {α β : Type} {p q : Progress}

theorem Alike.pure (a : α) : Alike p q (pure a) (pure a) :=
  ⟨.ok a, rfl, rfl⟩

theorem Alike.fail (failure : Failure) :
    Alike p q (fail failure : Rendering α) (fail failure) :=
  ⟨.error failure, rfl, rfl⟩

theorem Alike.bind {x y : Rendering α} {f g : α → Rendering β}
    (first : Alike p q x y)
    (next : ∀ a, Alike p q (f a) (g a)) :
    Alike p q (x >>= f) (y >>= g) := by
  obtain ⟨result, left, right⟩ := first
  cases result with
  | error failure =>
      exact ⟨.error failure, run_bind_of_error left, run_bind_of_error right⟩
  | ok a =>
      obtain ⟨result, leftNext, rightNext⟩ := next a
      exact ⟨result, (run_bind_of_ok left).trans leftNext,
        (run_bind_of_ok right).trans rightNext⟩

theorem Alike.congruence : Congruence (Alike p q) where
  pure := .pure
  fail := .fail
  bind := .bind

end Rendering

theorem linesOf_append
    (options : RenderOptions) (handlers : Handlers) (depth : Nat)
    (first second : List Statement) :
    linesOf options handlers depth (first ++ second) = (do
      return (← linesOf options handlers depth first) ++
        (← linesOf options handlers depth second)) := by
  induction first with
  | nil => simp [linesOf]
  | cons s first induction =>
      simp only [List.cons_append, linesOf, induction, bind_assoc, pure_bind,
        List.append_assoc]

namespace Site

variable {site : Site} {document : Document}

theorem enter_reference_run
    {scope : Scope} {name : String} {position : Position}
    {body : List Statement} {progress : Progress}
    (found : progress.templates.get? name = some body)
    (fresh : name ∉ scope.expanding) :
    (site.enter scope (.reference name position)).run.run progress =
      (.ok (scope.enterTemplate name, body), progress) := by
  have taken := templateBody_run scope name position progress
  rw [found] at taken
  dsimp only at taken
  rw [if_neg fresh] at taken
  rw [enter, Rendering.run_bind_of_ok taken]
  rfl

theorem alike_reference
    {others : Handlers} {q : Progress} {levels depth : Nat} {scope : Scope}
    {name : String} {position : Position} {body inner : List Statement}
    (found : lastDefinition document.children name = some body)
    (fresh : name ∉ scope.expanding)
    (within : Rendering.Alike (firstProgress document) q (linesOf site.options
      (site.handlers levels (scope.enterTemplate name)) depth body)
      (linesOf site.options others depth inner)) :
    Rendering.Alike (firstProgress document) q
      ((site.handlers (levels + 1) scope).reference depth name position)
      (linesOf site.options others depth inner) := by
  obtain ⟨result, left, right⟩ := within
  refine ⟨result, ?_, right⟩
  have known := (get?_firstProgress document name).trans found
  rw [handlers, Rendering.run_bind_of_ok (enter_reference_run known fresh)]
  dsimp only
  rw [linesWithin_succ]
  exact left

theorem alike_linesOf
    (expanded : site.options.expandTemplates = true)
    (expandable :
      Expandable (lastDefinition document.children) document.children)
    (others : Handlers) (q : Progress) {stack : List Address}
    {ss out : List Statement}
    (writtenOut : WrittenOut (lastDefinition document.children) ss out) :
    ∀ {levels scope} depth, document.Expanding stack scope →
      site.levels document = levels + scope.expanding.length + 1 →
      (∀ name, RefersTo ss name →
        Trail (RefersTo document.children)
          (Refers (lastDefinition document.children))
          (scope.expanding ++ [name])) →
      Rendering.Alike (firstProgress document) q
        (linesOf site.options (site.handlers levels scope) depth ss)
        (linesOf site.options others depth out) := by
  induction writtenOut with
  | nil =>
      intro levels scope depth _ _ _
      exact .pure []
  | directive _ behind =>
      intro levels scope depth expanding size trail
      exact Rendering.Alike.congruence.linesOf_cons (.pure _)
        (behind depth expanding size fun name refers =>
          trail name refers.of_rest)
  | stray _ behind =>
      intro levels scope depth expanding size trail
      exact Rendering.Alike.congruence.linesOf_cons (.fail _)
        (behind depth expanding size fun name refers =>
          trail name refers.of_rest)
  | block _ _ inside behind =>
      intro levels scope depth expanding size trail
      have inner := inside (depth + 1) expanding size
        fun name refers => trail name (.of_inside refers)
      exact Rendering.Alike.congruence.linesOf_cons
        (Rendering.Alike.congruence.lines_block inner)
        (behind depth expanding size fun name refers =>
          trail name refers.of_rest)
  | location _ _ inside behind =>
      intro levels scope depth expanding size trail
      have inner := inside (depth + 1) expanding size
        fun name refers => trail name (.of_inside refers)
      exact Rendering.Alike.congruence.linesOf_cons
        (Rendering.Alike.congruence.lines_location inner)
        (behind depth expanding size fun name refers =>
          trail name refers.of_rest)
  | definition _ behind =>
      intro levels scope depth expanding size trail
      have later :=
        behind depth expanding size fun name refers => trail name refers.of_rest
      simpa [linesOf, Statement.lines] using later
  | @reference name body inner rest out position found _ _ inside behind =>
      intro levels scope depth expanding size trail
      have here := trail name ⟨position, by simp [Statement.leaves]⟩
      -- The trail never comes back, so there is one more level than templates
      -- on it.
      have fresh : name ∉ scope.expanding := fun again =>
        expandable.acyclic name here.reached (here.cycle again)
      have entered := expanding.enterTemplate here fresh found
      obtain ⟨levels, rfl⟩ : ∃ fewer, levels = fewer + 1 := by
        have small := entered.size_lt site
        rw [Scope.size_enterTemplate, Scope.size, expanding.stack] at small
        exact Nat.exists_eq_succ_of_ne_zero (by omega)
      have within : Rendering.Alike (firstProgress document) q
          (linesOf site.options
            (site.handlers levels (scope.enterTemplate name)) depth body)
          (linesOf site.options others depth inner) := by
        refine inside depth entered ?_ fun other refers =>
          here.append ⟨body, found, refers⟩
        simp only [Scope.enterTemplate, List.length_append,
          List.length_singleton]
        omega
      rw [linesOf, linesOf_append, Statement.lines, if_pos expanded]
      exact (alike_reference found fresh within).bind fun _ =>
        (behind depth expanding size fun name refers =>
          trail name refers.of_rest).bind
          fun _ => .pure _

theorem exists_result
    (expanded : site.options.expandTemplates = true)
    (expandable :
      Expandable (lastDefinition document.children) document.children)
    {out : List Statement}
    (writtenOut :
      WrittenOut (lastDefinition document.children) document.children out)
    {origin : Option Path} {scope : Scope}
    (started : site.startScope origin = .ok scope)
    (others : Handlers) (q : Progress) :
    ∃ result, (linesOf site.options others 0 out).run.run q = (result, q) ∧
      (site.render document origin).result = result.map textOf := by
  have none := startScope_expanding started
  obtain ⟨result, ran, same⟩ := alike_linesOf expanded expandable others q
    writtenOut 0 (.start document none)
    (by rw [none, levels, List.length_nil, Nat.add_zero]) fun name refers => by
      rw [none]
      exact .start refers
  refine ⟨result, same, ?_⟩
  rw [← linesWithin_succ] at ran
  rw [render_eq_linesWithin started ran]

theorem render_result_eq
    (expanded : site.options.expandTemplates = true)
    (expandable :
      Expandable (lastDefinition document.children) document.children)
    {out : List Statement}
    (writtenOut :
      WrittenOut (lastDefinition document.children) document.children out)
    {other : Document}
    (otherExpandable :
      Expandable (lastDefinition other.children) other.children)
    (otherWrittenOut :
      WrittenOut (lastDefinition other.children) other.children out)
    (origin : Option Path) :
    (site.render document origin).result =
      (site.render other origin).result := by
  cases started : site.startScope origin with
  | error failure => rw [render, render, started]
  | ok scope =>
      let handlers : Handlers := ⟨fun _ _ _ => pure [], fun _ _ => pure []⟩
      obtain ⟨result, ran, same⟩ :=
        exists_result expanded expandable writtenOut started handlers {}
      obtain ⟨again, ranAgain, sameAgain⟩ :=
        exists_result expanded otherExpandable otherWrittenOut started
          handlers {}
      obtain ⟨rfl, _⟩ := Prod.mk.inj (ran.symm.trans ranAgain)
      rw [same, sameAgain]

end Site

/-- A document without imports whose templates can be expanded can be written
out in exactly one way, which leaves neither definitions nor references.
Whatever the indent, it is rendered as the document that it is then, and so is
every document that has the same statements and the same templates but the
definitions elsewhere. -/
theorem Document.render_eq_writtenOut {document : Document}
    (none : document.imports = [])
    (expandable :
      Expandable (lastDefinition document.children) document.children) :
    ∃ out, WrittenOut (lastDefinition document.children) document.children out ∧
      (∀ other,
        WrittenOut (lastDefinition document.children) document.children other →
        other = out) ∧
      Document.definitions ⟨out, document.filename⟩ = [] ∧
      Document.references ⟨out, document.filename⟩ = [] ∧
      ∀ site : Site, site.options.expandTemplates = true → ∀ origin,
        (site.render document origin).result =
          (site.render ⟨out, document.filename⟩ origin).result ∧
        ∀ moved : Document, moved.imports = [] →
          bareIn moved.children = bareIn document.children →
          lastDefinition moved.children = lastDefinition document.children →
          (site.render moved origin).result =
            (site.render document origin).result := by
  obtain ⟨out, writtenOut⟩ := exists_writtenOut none expandable
  refine ⟨out, writtenOut, fun other => writtenOut.unique,
    writtenOut.definitions_eq_nil _, writtenOut.references_eq_nil _, ?_⟩
  intro site expanded origin
  have settled : Expandable (lastDefinition out) out :=
    .of_sound fun name refers => absurd refers (writtenOut.not_refersTo name)
  refine ⟨Site.render_result_eq expanded expandable writtenOut settled
    (writtenOut.again _) origin, ?_⟩
  intro moved movedNone bare known
  have movedExpandable :
      Expandable (lastDefinition moved.children) moved.children := by
    have refers : ∀ name, RefersTo moved.children name ↔
        RefersTo document.children name := by
      intro name
      rw [← refersTo_bareIn, bare, refersTo_bareIn]
    rw [known]
    exact expandable.congr refers
  obtain ⟨movedOut, movedWrittenOut⟩ :=
    exists_writtenOut movedNone movedExpandable
  obtain rfl : movedOut = out := by
    have elsewhere := movedWrittenOut.bareIn
    rw [bare, known] at elsewhere
    exact writtenOut.bareIn.unique elsewhere
  exact Site.render_result_eq expanded movedExpandable movedWrittenOut
    expandable writtenOut origin

/-- The outer template is written out in both locations, and the inner one in
it. -/
theorem Document.render_eq_writtenOut_nested :
    let document : Document := ⟨[
      .location .none ["/", "/a"] [.reference "%outer" ⟨1, 20⟩] ⟨1, 1⟩,
      .definition "%outer" [.block "b" [] [.reference "%inner" ⟨2, 30⟩] ⟨2, 20⟩]
        ⟨2, 10⟩ ⟨2, 1⟩,
      .definition "%inner" [.directive "d" ["x"] ⟨3, 20⟩] ⟨3, 10⟩ ⟨3, 1⟩],
      "<string>"⟩
    let out : List Statement := [
      .location .none ["/", "/a"]
        [.block "b" [] [.directive "d" ["x"] ⟨3, 20⟩] ⟨2, 20⟩] ⟨1, 1⟩]
    let text := "location / \x7b\n  b \x7b\n    d x;\n  \x7d\n\x7d\n" ++
      "location /a \x7b\n  b \x7b\n    d x;\n  \x7d\n\x7d"
    let site (indent : Given) : Site :=
      { options := { indent }, store := ⟨⟨[]⟩, []⟩ }
    document.imports = [] ∧
      Expandable (lastDefinition document.children) document.children ∧
      (∀ indent origin, ((site indent).render document origin).result =
        ((site indent).render ⟨out, "<string>"⟩ origin).result) ∧
      ((site (.text "  ")).render document none).result = .ok text := by
  intro document out text site
  have inner : Sound (lastDefinition document.children) "%inner" := by
    refine .intro rfl ?_
    rintro name ⟨body, ⟨⟩, position, member⟩
    simp [leavesIn, Statement.leaves] at member
  have outer : Sound (lastDefinition document.children) "%outer" := by
    refine .intro rfl ?_
    rintro name ⟨body, ⟨⟩, position, member⟩
    simp only [leavesIn, Statement.leaves, List.append_nil, List.mem_singleton,
      Statement.reference.injEq] at member
    rw [member.1]
    exact inner
  have expandable :
      Expandable (lastDefinition document.children) document.children := by
    refine .of_sound ?_
    rintro name ⟨position, member⟩
    simp only [document, leavesIn, Statement.leaves, List.append_nil,
      List.singleton_append, List.mem_cons, Statement.reference.injEq,
      reduceCtorEq, List.not_mem_nil, or_false] at member
    rw [member.1]
    exact outer
  obtain ⟨found, _, unique, _, _, same⟩ := render_eq_writtenOut rfl expandable
  have writtenOut :
      WrittenOut (lastDefinition document.children) document.children out :=
    .location (.reference rfl (.block (.reference rfl (.directive .nil) .nil)
      .nil) .nil) (.definition (.definition .nil))
  obtain rfl := unique out writtenOut
  have written : ((site (.text "  ")).render ⟨out, "<string>"⟩ none).result =
      .ok text := by
    decide +kernel
  exact ⟨rfl, expandable, fun indent origin => (same _ rfl origin).1,
    (same (site (.text "  ")) rfl none).1.trans written⟩

end ServerConf
