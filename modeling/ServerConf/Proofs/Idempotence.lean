import ServerConf.Proofs.LineTexts
import ServerConf.Proofs.Rerendering

/-!
Exactly when a rendered text is rendered to itself again.
-/

namespace ServerConf

open Lexeme Grammar

theorem Tidy.closed {ts : List Token} (tidy : Tidy ts) : Closed ts := by
  intro sign opening inside
  have follows := (tidy.mono inside).follows
  rw [List.isChain_cons_cons] at follows
  exact follows.1.noCall ⟨.inl sign.2, opening.2⟩

theorem Tidy.collectedIn_eq_nil
    {env : Environment} {ps : List Phrase} {ss : List Statement}
    (tidy : Tidy (tokensOf ps))
    (meaning : statementsOf? env ps = some ss) :
    collectedIn ss = [] := by
  induction ps using phraseRecursion generalizing ss with
  | nil =>
      cases meaning
      rfl
  | leaf l ps induction =>
      simp only [statementsOf?, Phrase.statement?, Option.bind_eq_bind,
        Option.bind_eq_some_iff] at meaning
      obtain ⟨s, first, others, behind, ⟨⟩⟩ := meaning
      rw [tokensOf] at tidy
      rw [collectedIn, induction (tidy.mono (List.suffix_append _ _).isInfix)
        behind, List.append_nil]
      cases l with
      | inline | importFile =>
          cases first
          rfl
      | directive header semicolon oneLine =>
          simp only [Leaf.statement?, Option.bind_eq_bind,
            Option.bind_eq_some_iff] at first
          obtain ⟨name, _, args, _, ⟨⟩⟩ := first
          rfl
  | group o body closing closes ps inside induction =>
      simp only [statementsOf?, Phrase.statement?, Option.bind_eq_bind,
        Option.bind_eq_some_iff] at meaning
      obtain ⟨s, ⟨h, opens, children, within, ⟨⟩⟩, others, behind, ⟨⟩⟩ :=
        meaning
      rw [tokensOf, Phrase.tokens] at tidy
      simp only [List.append_assoc] at tidy
      have tidyBody := tidy.mono (List.suffix_append _ _).isInfix
      have tidyRest := tidyBody.mono (List.suffix_append _ _).isInfix
      obtain ⟨brace, rfl⟩ :=
        Opening.exists_closeBrace closes
          (tidyRest.mono (List.prefix_append _ _).isInfix)
      have none :=
        inside (tidyBody.mono (List.prefix_append _ _).isInfix) within
      rw [collectedIn, induction (tidyRest.mono
        (List.suffix_append _ _).isInfix) behind, List.append_nil]
      cases o with
      | definition name equals brace =>
          obtain ⟨_, _, same⟩ := closes
          simp at same
      | locations | location | condition =>
          simp only [Opening.heading?, Option.bind_eq_bind,
            Option.bind_eq_some_iff] at opens
          obtain ⟨_, _, ⟨⟩⟩ := opens
          exact none
      | block =>
          simp only [Opening.heading?, Option.bind_eq_bind,
            Option.bind_eq_some_iff] at opens
          obtain ⟨_, _, _, _, ⟨⟩⟩ := opens
          exact none

section Again

variable {site : Site} {out : List Statement}

theorem Throughout.tidy {expands : Bool} {options : RenderOptions}
    (blank : options.Blank)
    (tame : Throughout (fun line => line.Spelled expands ∧ line.Tame) out)
    {p : Position} {ts : List Token} {last : Token}
    (scanned :
      Token.scan p (written (ownLinesOf options 0 out)) = .ok (ts ++ [last])) :
    Tidy ts := by
  rw [← List.append_nil (written _)] at scanned
  obtain ⟨first, others, q, split, orderly, ended⟩ :=
    tame.orders blank 0 [] (by simp [EndsLine]) p _ scanned
  rw [Token.scan_nil] at ended
  obtain rfl := Except.ok.inj ended
  obtain ⟨rfl, _⟩ := List.append_inj' split rfl
  exact orderly.toTidy

theorem Site.stable_of_render
    (blank : site.options.Blank)
    (tame : Throughout (fun line => line.Spelled site.options.expandTemplates ∧
      line.Tame) out)
    {text : String}
    (whole : text = Text.joinWith "\n" (ownLinesOf site.options 0 out))
    {env : Environment} {filename : String} {document : Document}
    {origin : Option Path}
    (parsed : Document.parse env filename text = .ok document)
    (rendered : (site.render document origin).result = .ok text) :
    Throughout (Line.Stable site.options.expandTemplates) out := by
  rcases (tame.mono fun _ => And.left).eq_nil_or_written site.options with
    rfl | ⟨some, shown⟩
  · exact .nil
  rw [← whole] at some shown
  obtain ⟨ps, last, scanned, meaning⟩ := Document.exists_phrases parsed
  have scanned : Token.scan ⟨0, 1⟩ (written (ownLinesOf site.options 0 out)) =
      .ok (tokensOf ps ++ [last]) := by
    rw [shown, Token.scan_blank (by decide)]
    exact scanned
  have tidy := tame.tidy blank scanned
  have sourced := sourced_of_phrases meaning tidy.plain tidy.closed
    ⟨_, _, Token.scanned_of_scan scanned⟩ (by simp)
  obtain ⟨read, expands, again⟩ := Site.render_expands sourced rendered
  have spelled := expands.spelled sourced (Templates.sourced_of_get? sourced)
  rw [(spelled.mono fun _ => Line.Spelled.begins).trim_eq blank,
    String.ofList_toList] at again
  rcases spelled.eq_nil_or_written site.options with rfl | ⟨_, same⟩
  · exact absurd again some
  rw [← again, ← shown] at same
  have empty :
      ∀ name, (Templates.collect {} document.children).get? name = none := by
    intro name
    rw [Templates.collect, tidy.collectedIn_eq_nil meaning]
    rfl
  have unlisted := tame.unlisted blank 0 [] (by simp [EndsLine]) .nil
  rw [← same] at unlisted
  rw [← same, ← List.append_nil (written _)] at scanned
  obtain ⟨settled, _⟩ :=
    settled_of_scan blank empty meaning tidy expands unlisted scanned
  exact (tame.stable_of_written blank 0 read [] [] settled .nil .nil
    (congrArg (· ++ []) same.symm)).1

theorem Throughout.and {P Q : Line → Prop}
    (left : Throughout P out)
    (right : Throughout Q out) :
    Throughout (fun line => P line ∧ Q line) out := by
  induction left with
  | nil => exact .nil
  | directive here _ induction =>
      cases right with | directive there behind =>
      exact .directive ⟨here, there⟩ (induction behind)
  | block here _ _ insideInduction induction =>
      cases right with | block there inside behind =>
      exact .block ⟨here, there⟩ (insideInduction inside) (induction behind)
  | location here _ _ insideInduction induction =>
      cases right with | location there inside behind =>
      exact .location ⟨here, there⟩ (insideInduction inside) (induction behind)
  | reference here _ induction =>
      cases right with | reference there behind =>
      exact .reference ⟨here, there⟩ (induction behind)

end Again

/-- What a source is rendered to is rendered to itself again if every line of it
is stable. Where each line is closed in itself, it is so in no other case. -/
theorem Document.render_again_iff_stable {site : Site} {indent : String}
    (given : site.options.indent = .text indent)
    (blank : ∀ c ∈ indent.toList, Text.isBlank c = true)
    {env : Environment} {filename source text : String} {document : Document}
    {origin : Option Path}
    (contained : SelfContained source)
    (parsed : Document.parse env filename source = .ok document)
    (rendered : (site.render document origin).result = .ok text) :
    ∃ out,
      Expands site.options.expandTemplates
        (Templates.collect {} document.children)
        document.children out ∧
      text = Text.joinWith "\n" (ownLinesOf site.options 0 out) ∧
      (Throughout (Line.Stable site.options.expandTemplates) out →
        ∀ env filename,
        ∃ again, Document.parse env filename text = .ok again ∧
          (site.render again origin).result = .ok text) ∧
      (Throughout Line.Tame out → ∀ env filename again,
        Document.parse env filename text = .ok again →
        (site.render again origin).result = .ok text →
        Throughout (Line.Stable site.options.expandTemplates) out) := by
  have blank : site.options.Blank := ⟨indent, given, blank⟩
  obtain ⟨out, expands, whole, again⟩ :=
    render_parse_render blank contained parsed rendered
  have sourced := contained.sourced parsed
  have spelled := expands.spelled sourced (Templates.sourced_of_get? sourced)
  refine ⟨out, expands, whole, again, ?_⟩
  intro tame env filename again parsed rendered
  exact Site.stable_of_render blank (spelled.and tame) whole parsed rendered

/-- A value in quotes is closed in itself, and is written again as it was. -/
theorem Document.render_again_iff_stable_quoted :
    let site : Site := { store := ⟨⟨[]⟩, []⟩ }
    let document : Document :=
      ⟨[.directive "a" ["b c"] ⟨1, 1⟩], "<string>"⟩
    Document.parse .empty "<string>" "a 'b c';" = .ok document ∧
      (site.render document none).result = .ok "a \"b c\";" ∧
      Throughout (Line.Stable true) document.children ∧
      Throughout Line.Tame document.children ∧
      ∀ env filename, ∃ again,
        Document.parse env filename "a \"b c\";" = .ok again ∧
          (site.render again none).result = .ok "a \"b c\";" := by
  intro site document
  have scanned : Token.ofSource "a 'b c';" = .ok
      [⟨.identifier, "a", ⟨1, 1⟩, "a"⟩, ⟨.string, "b c", ⟨1, 3⟩, "'b c'"⟩,
        ⟨.semicolon, ";", ⟨1, 8⟩, ";"⟩, .atEnd ⟨1, 9⟩] := by
    decide +kernel
  have contained : SelfContained "a 'b c';" := by
    intro tokens same
    obtain rfl := Except.ok.inj (scanned.symm.trans same)
    decide
  have parsed : Document.parse .empty "<string>" "a 'b c';" = .ok document := by
    with_unfolding_all rfl
  have parsedAgain :
      Document.parse .empty "<string>" "a \"b c\";" = .ok document := by
    with_unfolding_all rfl
  have given : site.options.indent = .text "  " := rfl
  have rendered : (site.render document none).result = .ok "a \"b c\";" := by
    decide +kernel
  obtain ⟨out, expands, _, again, only⟩ := render_again_iff_stable given
    (List.all_eq_true.1 (by decide)) contained parsed rendered
  obtain rfl : document.children = out := by
    cases expands with
    | directive behind =>
        cases behind
        rfl
  have tame : Throughout Line.Tame document.children := by
    refine .directive (.directive (by decide) ?_) .nil
    rintro arg member
    obtain rfl := List.mem_singleton.1 member
    exact ⟨by decide, fun quoted => absurd quoted (by decide)⟩
  have stable := only tame .empty "<string>" document parsedAgain rendered
  exact ⟨parsed, rendered, stable, tame, again stable⟩

/-- A sign that begins a comment is written bare behind digits, and then hides
the rest of the line. -/
theorem Document.render_again_hidden :
    ∃ document, Document.parse .empty "<string>" "d \"80#x\";" = .ok document ∧
      (Site.render { store := ⟨⟨[]⟩, []⟩ } document none).result =
        .ok "d 80#x;" ∧
      ¬ ∃ again, Document.parse .empty "<string>" "d 80#x;" = .ok again := by
  refine ⟨⟨[.directive "d" ["80#x"] ⟨1, 1⟩],
    "<string>"⟩, by with_unfolding_all rfl, by decide +kernel, ?_⟩
  have refused : (Document.parse .empty "<string>" "d 80#x;").isOk = false := by
    decide +kernel
  rintro ⟨again, parsed⟩
  rw [parsed] at refused
  cases refused

end ServerConf
