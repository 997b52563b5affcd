import ServerConf.Files.Store
import ServerConf.Proofs.Rerendering
import ServerConf.Proofs.StatementTrees

/-!
The statements of a source. Each one takes a token of its own, and each token a
character, so there are no more of them than bytes in the file; and every
statement is built as it has to be.
-/

namespace ServerConf

theorem Text.length_foldNewlines_le (cs : List Char) :
    (foldNewlines cs).length ≤ cs.length := by
  fun_induction foldNewlines cs with
  | case1 => exact Nat.le_refl _
  | case2 rest induction =>
      simp only [List.length_cons]
      omega
  | case3 c rest _ induction =>
      simp only [List.length_cons]
      omega

theorem Text.Utf8.exists_of_map_cons
    {rest : Except Fault (List Char)} {c : Char} {cs : List Char}
    (mapped : rest.map (c :: ·) = .ok cs) :
    ∃ others, rest = .ok others ∧ cs = c :: others := by
  cases rest with
  | error => cases mapped
  | ok others =>
      cases mapped
      exact ⟨others, rfl, rfl⟩

theorem Text.Utf8.length_decodeFrom_le
    {offset : Nat} {pending : Option Pending} {bytes : List UInt8}
    {cs : List Char}
    (decoded : decodeFrom offset pending bytes = .ok cs) :
    cs.length ≤ bytes.length := by
  fun_induction decodeFrom offset pending bytes generalizing cs with
  | case1 =>
      cases decoded
      exact Nat.le_refl _
  | case2 => cases decoded
  | case3 offset byte rest _ induction =>
      obtain ⟨others, behind, rfl⟩ := exists_of_map_cons decoded
      have shorter := induction behind
      simp only [List.length_cons]
      omega
  | case4 offset byte rest _ p _ induction =>
      have shorter := induction decoded
      simp only [List.length_cons]
      omega
  | case5 => cases decoded
  | case6 offset p byte rest =>
      rename_i induction
      obtain ⟨others, behind, rfl⟩ := exists_of_map_cons decoded
      have shorter := induction behind
      simp only [List.length_cons]
      omega
  | case7 offset p byte rest =>
      rename_i induction
      have shorter := induction decoded
      simp only [List.length_cons]
      omega
  | case8 => cases decoded

theorem FileStore.length_decodeText_le {bytes : ByteArray} {source : String}
    (decoded : decodeText bytes = .ok source) : source.length ≤ bytes.size := by
  rw [decodeText] at decoded
  split at decoded
  · rename_i cs characters
    cases decoded
    have folded := Text.length_foldNewlines_le cs
    have taken := Text.Utf8.length_decodeFrom_le characters
    rw [String.length_ofList]
    exact folded.trans taken
  · cases decoded

theorem Token.Layout.length_le {before text : List Char} {tokens : List Token}
    (layout : Layout before text tokens) : tokens.length ≤ text.length + 1 := by
  induction layout with
  | last => simp
  | @token before gap rest t ts _ _ some _ _ _ induction =>
      have raw : 0 < t.raw.toList.length := by
        rw [List.length_pos_iff, ne_eq, String.toList_eq_nil_iff]
        exact some
      simp only [List.length_append, List.length_cons]
      omega

namespace Grammar

theorem Leaf.statement_leaf {env : Environment} {l : Leaf} {s : Statement}
    (meaning : l.statement? env = some s) : s.children = [] ∧ s.IsProper := by
  cases l with
  | inline | importFile =>
      cases meaning
      exact ⟨rfl, trivial⟩
  | directive =>
      simp only [statement?, Option.bind_eq_bind, Option.bind_eq_some_iff,
        Option.pure_def] at meaning
      obtain ⟨name, _, args, _, ⟨⟩⟩ := meaning
      exact ⟨rfl, trivial⟩

theorem PathList.texts_ne_nil
    {env : Environment} {l : PathList} {paths : List String}
    (meaning : l.texts? env = some paths) :
    paths ≠ [] := by
  simp only [texts?, List.mapM_cons, Option.bind_eq_bind,
    Option.bind_eq_some_iff, Option.pure_def] at meaning
  obtain ⟨path, _, others, _, ⟨⟩⟩ := meaning
  exact List.cons_ne_nil _ _

theorem Opening.heading_around {env : Environment} {o : Opening} {h : Heading}
    (meaning : o.heading? env = some h) (children : List Statement) :
    (h.around children).children = children ∧ (h.around children).IsProper := by
  cases o with
  | definition =>
      cases meaning
      exact ⟨rfl, trivial⟩
  | locations =>
      simp only [heading?, Option.bind_eq_bind, Option.bind_eq_some_iff,
        Option.pure_def] at meaning
      obtain ⟨paths, read, ⟨⟩⟩ := meaning
      exact ⟨rfl, PathList.texts_ne_nil read⟩
  | location =>
      simp only [heading?, Option.bind_eq_bind, Option.bind_eq_some_iff,
        Option.pure_def] at meaning
      obtain ⟨path, _, ⟨⟩⟩ := meaning
      exact ⟨rfl, List.cons_ne_nil _ _⟩
  | condition =>
      simp only [heading?, Option.bind_eq_bind, Option.bind_eq_some_iff,
        Option.pure_def] at meaning
      obtain ⟨args, _, ⟨⟩⟩ := meaning
      exact ⟨rfl, trivial⟩
  | block =>
      simp only [heading?, Option.bind_eq_bind, Option.bind_eq_some_iff,
        Option.pure_def] at meaning
      obtain ⟨name, _, args, _, ⟨⟩⟩ := meaning
      exact ⟨rfl, trivial⟩

theorem walkIn_statementsOf
    {env : Environment} {ps : List Phrase} {ss : List Statement}
    (meaning : statementsOf? env ps = some ss) :
    (walkIn ss).length ≤ (tokensOf ps).length ∧ Proper ss := by
  induction ps using phraseRecursion generalizing ss with
  | nil =>
      cases meaning
      exact ⟨Nat.le_refl _, by simp [Proper]⟩
  | leaf l ps induction =>
      simp only [statementsOf?, Phrase.statement?, Option.bind_eq_bind,
        Option.bind_eq_some_iff] at meaning
      obtain ⟨s, first, others, behind, ⟨⟩⟩ := meaning
      obtain ⟨count, proper⟩ := induction behind
      obtain ⟨alone, here⟩ := Leaf.statement_leaf first
      have some := List.length_pos_iff.2 l.tokens_ne_nil
      refine ⟨?_, proper_cons.2 ⟨here, by simp [alone, Proper], proper⟩⟩
      rw [walkIn_cons, alone, tokensOf, Phrase.tokens]
      simp only [walkIn_nil, List.nil_append, List.length_cons,
        List.length_append]
      omega
  | group o body closing closes ps inside induction =>
      simp only [statementsOf?, Phrase.statement?, Option.bind_eq_bind,
        Option.pure_def, Option.bind_eq_some_iff] at meaning
      obtain ⟨s, ⟨h, heading, children, within, ⟨⟩⟩, others, behind, ⟨⟩⟩ :=
        meaning
      obtain ⟨innerCount, innerProper⟩ := inside within
      obtain ⟨count, proper⟩ := induction behind
      obtain ⟨below, here⟩ := Opening.heading_around heading children
      have some := List.length_pos_iff.2 o.tokens_ne_nil
      refine ⟨?_, proper_cons.2 ⟨here, by rwa [below], proper⟩⟩
      rw [walkIn_cons, below, tokensOf, Phrase.tokens]
      simp only [List.length_cons, List.length_append]
      omega

end Grammar

namespace Document

variable {env : Environment} {filename source : String} {document : Document}

theorem parse_error {failure : Failure}
    (failed : parse env filename source = .error failure) :
    (∃ e, failure = .scan e) ∨ ∃ e, failure = .parse e := by
  rw [parse] at failed
  cases scanned : Token.ofSource source with
  | error e =>
      rw [scanned] at failed
      cases failed
      exact .inl ⟨e, rfl⟩
  | ok tokens =>
      obtain ⟨last, complete⟩ := Token.complete?_of_ofSource scanned
      rw [scanned] at failed
      dsimp only at failed
      rw [ofTokens, complete] at failed
      dsimp only at failed
      split at failed
      · cases failed
      · cases failed
        exact .inr ⟨_, rfl⟩

theorem parse_ne_render
    (env : Environment) (filename source : String) (fault : RenderError) :
    parse env filename source ≠ .error (.render fault) := by
  intro failed
  rcases parse_error failed with ⟨_, same⟩ | ⟨_, same⟩ <;> cases same

theorem proper_of_parse (parsed : parse env filename source = .ok document) :
    Proper document.children := by
  obtain ⟨ps, _, _, meaning⟩ := exists_phrases parsed
  exact (Grammar.walkIn_statementsOf meaning).2

theorem length_walk_le (parsed : parse env filename source = .ok document) :
    document.walk.length ≤ source.length := by
  obtain ⟨ps, last, scanned, meaning⟩ := exists_phrases parsed
  have layout : Token.Layout [] source.toList _ :=
    Cursor.tokens_layout rfl scanned
  have count := layout.length_le
  rw [List.length_append, List.length_singleton, String.length_toList] at count
  have statements := (Grammar.walkIn_statementsOf meaning).1
  rw [walk_eq]
  omega

end Document

end ServerConf
