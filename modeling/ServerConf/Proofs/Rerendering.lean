import ServerConf.Proofs.Stability

namespace ServerConf

open Lexeme Grammar

theorem Document.exists_phrases
    {env : Environment} {filename source : String} {document : Document}
    (parsed : Document.parse env filename source = .ok document) :
    ∃ ps last, Token.ofSource source = .ok (tokensOf ps ++ [last]) ∧
      statementsOf? env ps = some document.children := by
  cases scanned : Token.ofSource source with
  | error fault => simp [parse, scanned] at parsed
  | ok tokens =>
      obtain ⟨_, ps, tokensEq, settled⟩ := (parse_eq_ok_iff scanned).1 parsed
      have layout : Token.Layout [] source.toList tokens :=
        Cursor.tokens_layout rfl scanned
      obtain ⟨body, last, rfl, _, _⟩ := layout.exists_end
      refine ⟨ps, last, ?_, settled⟩
      rw [tokensEq, List.dropLast_concat]

/-- Nothing in the source refers to the environment or imports a file. -/
def SelfContained (source : String) : Prop :=
  ∀ tokens, Token.ofSource source = .ok tokens →
    ∀ t ∈ tokens, t.kind ≠ .environment ∧ t.kind ≠ .importSign

theorem SelfContained.sourced {env : Environment} {filename source : String}
    {document : Document} (contained : SelfContained source)
    (parsed : Document.parse env filename source = .ok document) :
    Sourced document.children := by
  obtain ⟨ps, last, scanned, settled⟩ := Document.exists_phrases parsed
  have kinds := contained _ scanned
  have plain : Plain (tokensOf ps) := by
    intro ref inside
    have member : ref.sign.1 ∈ tokensOf ps :=
      inside.subset (by simp [Reference.tokens])
    exact (kinds _ (List.mem_append_left _ member)).1 ref.sign.2
  have closed : Closed (tokensOf ps) := by
    intro sign opening inside
    have member : sign.1 ∈ tokensOf ps := inside.subset (by simp)
    exact (kinds _ (List.mem_append_left _ member)).2 sign.2
  exact sourced_of_phrases settled plain closed ⟨_, _,
    Token.scanned_of_scan scanned⟩ (by simp)

theorem Document.render_parse_render {site : Site}
    (blank : site.options.Blank)
    {env : Environment} {filename source text : String} {document : Document}
    {origin : Option Path}
    (contained : SelfContained source)
    (parsed : Document.parse env filename source = .ok document)
    (rendered : (site.render document origin).result = .ok text) :
    ∃ out,
      Expands site.options.expandTemplates
        (Templates.collect {} document.children)
        document.children out ∧
      text = Text.joinWith "\n" (ownLinesOf site.options 0 out) ∧
      (Throughout (Line.Stable site.options.expandTemplates) out →
        ∀ env filename,
        ∃ again, Document.parse env filename text = .ok again ∧
          (site.render again origin).result = .ok text) := by
  have sourced := contained.sourced parsed
  obtain ⟨out, expands, written⟩ := Site.render_expands sourced rendered
  have spelled := expands.spelled sourced (Templates.sourced_of_get? sourced)
  rw [(spelled.mono fun _ => Line.Spelled.begins).trim_eq blank,
    String.ofList_toList] at written
  subst written
  obtain ⟨scope, started⟩ := Site.exists_scope rendered
  exact ⟨out, expands, rfl,
    fun stable => Site.render_again blank started stable⟩

end ServerConf
