import ServerConf.Proofs.TokenOrder

/-!
A text that is rendered to itself. What was read from each part of it is written
in the same place again, so the part is legible.
-/

namespace ServerConf

open Lexeme Grammar

namespace Lexeme

/-- A string that stands for a text which begins with what is written before the
rest of the string never gets beyond the characters of that beginning. -/
theorem closeQuote_lag {quote : Char} {text value raw after pending : List Char}
    (closed : closeQuote quote text = some (value, raw, after))
    (begins : value <+: pending ++ text)
    (some : pending ≠ []) :
    ∀ c ∈ text.take value.length, c ∈ pending ∨ c = '\\' := by
  fun_induction closeQuote quote text generalizing value raw after pending with
  | case1 => simp at closed
  | case2 d rest induction =>
      obtain ⟨⟨tail, behind, left⟩, inner, same⟩ :=
        Option.map_eq_some_iff.1 closed
      obtain ⟨rfl, rfl, rfl⟩ := by simpa using same
      obtain ⟨e, pending, rfl⟩ := List.exists_cons_of_ne_nil some
      obtain ⟨rfl, begins⟩ := List.cons_prefix_cons.1 begins
      have later := @induction _ _ _ (pending ++ ['\\', d]) inner
        (by simpa using begins) (by simp)
      intro c member
      rw [List.length_cons, List.take_succ_cons, List.mem_cons] at member
      rcases member with rfl | member
      · exact .inr rfl
      · have inside : c = d ∨ c ∈ rest.take tail.length := by
          cases size : tail.length with
          | zero => simp [size] at member
          | succ n =>
              rw [size, List.take_succ_cons, List.mem_cons] at member
              exact member.imp_right fun among =>
                List.take_subset_take_left _ (Nat.le_succ n) among
        rcases inside with rfl | among
        · exact .inl (List.mem_cons_self ..)
        · have place := later c among
          simp only [List.mem_append, List.mem_cons, List.not_mem_nil,
            or_false] at place ⊢
          tauto
  | case3 rest =>
      obtain ⟨rfl, rfl, rfl⟩ := by simpa using closed
      simp
  | case4 d rest _ other induction =>
      obtain ⟨⟨tail, behind, left⟩, inner, same⟩ :=
        Option.map_eq_some_iff.1 closed
      obtain ⟨rfl, rfl, rfl⟩ := by simpa using same
      obtain ⟨e, pending, rfl⟩ := List.exists_cons_of_ne_nil some
      obtain ⟨rfl, begins⟩ := List.cons_prefix_cons.1 begins
      have later := @induction _ _ _ (pending ++ [d]) inner
        (by simpa using begins) (by simp)
      intro c member
      rw [List.length_cons, List.take_succ_cons, List.mem_cons] at member
      rcases member with rfl | among
      · exact .inl (List.mem_cons_self ..)
      · have place := later c among
        simp only [List.mem_append, List.mem_cons, List.not_mem_nil,
          or_false] at place ⊢
        tauto

theorem Spelling.scan_ok {text after : List Char} {lexemes : List Lexeme}
    (spelling : Spelling text lexemes)
    (stops : Stops after)
    {p : Position} {ts rest : List Token}
    (scanned : Token.scan p (text ++ after) = .ok (ts ++ rest))
    (size : ts.length = lexemes.length) :
    ts = placed p lexemes ∧ Token.scan (p.advanceBy text) after = .ok rest := by
  rw [spelling.reads p after stops] at scanned
  obtain ⟨us, whole, later⟩ := Token.prepend_eq_ok scanned
  have length : (placed p lexemes).length = lexemes.length := by
    simpa using congrArg List.length (map_kind_placed p lexemes)
  obtain ⟨rfl, rfl⟩ := List.append_inj whole (size.trans length.symm)
  exact ⟨rfl, later⟩

theorem exists_of_scan
    {c : Char} {rest : List Char} {p : Position} {t : Token} {ts : List Token}
    (shown : Text.isBlank c = false)
    (sign : c ≠ '#')
    (scanned : Token.scan p (c :: rest) = .ok (t :: ts)) :
    ∃ lexeme, read? c rest = some lexeme ∧ t = lexeme.toToken p ∧
      Token.scan (p.advanceBy lexeme.raw) lexeme.rest = .ok ts := by
  cases read : read? c rest with
  | none =>
      have none : Gap.split (c :: rest) = ([], c :: rest) := by
        simp [Gap.split, Gap.splitFrom, shown, sign]
      rw [Token.scan, Cursor.tokens_of_unread
        (by simp [Cursor.skipGap, Cursor.advance, none]) read] at scanned
      cases scanned
  | some lexeme =>
      rw [Token.scan_lexeme p shown sign read] at scanned
      obtain ⟨us, whole, later⟩ := Token.prepend_eq_ok scanned
      obtain ⟨rfl, rfl⟩ := List.cons.inj whole
      exact ⟨lexeme, rfl, rfl, later⟩

theorem unquoted_of_scan
    {c : Char} {rest : List Char} {p : Position} {t : Token} {ts : List Token}
    (shown : Text.isBlank c = false)
    (sign : c ≠ '#')
    (unquoted : isQuote c = false)
    (scanned : Token.scan p (c :: rest) = .ok (t :: ts)) :
    t.kind ≠ .string := by
  obtain ⟨lexeme, read, rfl, _⟩ := exists_of_scan shown sign scanned
  obtain ⟨other, found, kind⟩ := exists_read? unquoted rest
  obtain rfl := Option.some.inj (read.symm.trans found)
  exact kind

end Lexeme

namespace Argument

theorem quoteChars_cases (value : List Char) :
    (isQuoted value = true ∧ quoteChars value = value) ∨
      (isQuoted value = false ∧
        quoteChars value = '"' :: escape value ++ ['"']) ∨
      (isQuoted value = false ∧ quoteChars value = value ∧ value ≠ [] ∧
        (∀ c ∈ value, isSpecial c = false) ∧ value.head? ≠ some '#') := by
  unfold quoteChars
  split
  · rename_i quoted
    exact .inl ⟨quoted, rfl⟩
  · rename_i unquoted
    rw [Bool.not_eq_true] at unquoted
    split
    · exact .inr (.inl ⟨unquoted, rfl⟩)
    · rename_i plain
      simp only [needsQuotes, Bool.or_eq_true, not_or] at plain
      refine .inr (.inr ⟨unquoted, rfl, ?_, ?_, ?_⟩)
      · simpa using plain.1.1
      · simpa using plain.1.2
      · simpa using plain.2

theorem not_special {c : Char} (plain : isSpecial c = false) :
    Text.isBlank c = false ∧ isQuote c = false := by
  simp only [isSpecial, Bool.or_eq_false_iff] at plain
  simp [isQuote, plain]

theorem exists_quote {value : List Char} (quoted : isQuoted value = true) :
    ∃ c body, value = c :: body ∧ isQuote c = true := by
  cases value with
  | nil => cases quoted
  | cons c body =>
      simp only [isQuoted, Bool.and_eq_true] at quoted
      exact ⟨c, body, rfl, quoted.1⟩

theorem shown_of_quote {c : Char} (quote : isQuote c = true) :
    Text.isBlank c = false ∧ c ≠ '#' := by
  have signs : c = '"' ∨ c = '\'' := by simpa [isQuote] using quote
  rcases signs with rfl | rfl <;> decide

theorem string_of_quoteChars
    {value before after : List Char} {p : Position} {t : Token}
    {rest : List Token}
    (scanned : Token.scan p (quoteChars value ++ after) = .ok (t :: rest))
    (string : t.kind = .string)
    (whole : t.value.toList = before ++ value)
    (stops : Stops after)
    {c : Char}
    (early : c ∈ after.take (before.length + 1))
    (other : c ∉ before)
    (sign : isQuote c = false ∧ c ≠ '\\') :
    before = [] ∧ quoteChars value = '"' :: escape value ++ ['"'] := by
  rcases quoteChars_cases value with
    ⟨quoted, same⟩ | ⟨_, same⟩ | ⟨_, same, some, plain, comment⟩
  · exfalso
    obtain ⟨d, body, rfl, quote⟩ := exists_quote quoted
    rw [same, List.cons_append] at scanned
    obtain ⟨lexeme, read, rfl, _⟩ :=
      exists_of_scan (shown_of_quote quote).1 (shown_of_quote quote).2 scanned
    obtain ⟨raw, closed, _⟩ := closeQuote_of_read? quote read
    have meaning : lexeme.value = before ++ d :: body := by
      simpa [toToken] using whole
    have lag := @closeQuote_lag _ _ _ _ _ (before ++ [d]) closed
      (by simp [meaning]) (by simp) c
    have size : lexeme.value.length = body.length + (before.length + 1) := by
      simp [meaning]
      omega
    rw [size, List.take_length_add_append, List.mem_append] at lag
    rcases lag (.inr early) with among | backslash
    · rw [List.mem_append, List.mem_singleton] at among
      rcases among with among | rfl
      · exact other among
      · rw [quote] at sign
        cases sign.1
    · exact sign.2 backslash
  · rw [same] at scanned
    have here := @Spelling.scan_ok _ _ _ (spelling_escape value) stops p [t]
      rest scanned rfl
    obtain rfl := (List.cons.inj here.1).1
    refine ⟨?_, same⟩
    have length := congrArg List.length whole
    simpa [toToken] using length
  · exfalso
    obtain ⟨d, value, rfl⟩ := List.exists_cons_of_ne_nil some
    obtain ⟨shown, unquoted⟩ := not_special (plain d (by simp))
    rw [same] at scanned
    exact unquoted_of_scan shown (by simpa using comment) unquoted
      scanned string

theorem bare_of_unquoted
    {value after : List Char} {p : Position} {t : Token} {rest : List Token}
    (scanned : Token.scan p (quoteChars value ++ after) = .ok (t :: rest))
    (unquoted : t.kind ≠ .string)
    (stops : Stops after) :
    quoteChars value = value ∧ value ≠ [] ∧ (∀ c ∈ value, isSpecial c = false) ∧
      value.head? ≠ some '#' := by
  rcases quoteChars_cases value with ⟨quoted, same⟩ | ⟨_, same⟩ | ⟨_, bare⟩
  · exfalso
    rw [same] at scanned
    obtain ⟨d, body, rfl, quote⟩ := exists_quote quoted
    obtain ⟨lexeme, read, rfl, _⟩ :=
      exists_of_scan (shown_of_quote quote).1 (shown_of_quote quote).2 scanned
    obtain ⟨_, _, _, string⟩ := closeQuote_of_read? quote read
    exact unquoted string
  · exfalso
    rw [same] at scanned
    obtain ⟨first, _⟩ :=
      @Spelling.scan_ok _ _ _ (spelling_escape value) stops p [t] _ scanned rfl
    exact unquoted (by rw [(List.cons.inj first).1]; rfl)
  · exact bare

end Argument

namespace Grammar

def EndsTerm (after : List Char) : Prop :=
  ∃ c tail, after = c :: tail ∧ (c = ' ' ∨ c = ';')

theorem EndsTerm.stops {after : List Char} (ends : EndsTerm after) :
    Stops after := by
  obtain ⟨c, tail, rfl, rfl | rfl⟩ := ends
  · exact .blank (by decide) tail
  · exact .punctuation rfl tail

theorem endsTerm_spaced {after : List Char}
    (ends : EndsTerm after)
    (texts : List (List Char)) :
    EndsTerm (spaced texts ++ after) := by
  cases texts with
  | nil => exact ends
  | cons text texts =>
      exact ⟨' ', text ++ (spaced texts ++ after), by simp [spaced], .inl rfl⟩

theorem flatMap_value_of_word {text : List Char} {lexemes : List Lexeme}
    (spelling : Spelling text lexemes)
    (unquoted : ∀ lexeme ∈ lexemes, lexeme.kind ≠ .string) :
    lexemes.flatMap Lexeme.value = text := by
  induction spelling with
  | nil => rfl
  | cons _ _ read _ induction =>
      rw [List.forall_mem_cons] at unquoted
      rw [List.flatMap_cons, induction unquoted.2, value_eq_raw read unquoted.1]

theorem Term.aligned
    {term : Term} {rest : List Token} {after : List Char} {value : String}
    {env : Environment} {p : Position}
    (plain : Plain term.tokens)
    (argument : isArgument term.first.kind = true)
    (settled : term.text? env = some value)
    (ends : EndsTerm after)
    (scanned : Token.scan p (Argument.quoteChars value.toList ++ after) =
      .ok (term.tokens ++ rest))
    (some : rest ≠ []) :
    ∃ lexemes, Spelling (Argument.quoteChars value.toList) lexemes ∧
      IsTerm lexemes ∧
      String.ofList (lexemes.flatMap Lexeme.value) = value ∧
        term.tokens = placed p lexemes ∧
      ∃ q, Token.scan q after = .ok rest := by
  cases term with
  | quoted t =>
      cases settled
      obtain ⟨c, tail, rfl, signs⟩ := ends
      have stops : Stops (c :: tail) := EndsTerm.stops ⟨c, tail, rfl, signs⟩
      have sign : isQuote c = false ∧ c ≠ '\\' := by
        rcases signs with rfl | rfl <;> decide
      obtain ⟨_, written⟩ := @Argument.string_of_quoteChars _ [] _ _ _ _ scanned
        t.2 rfl stops c (by simp) (by simp) sign
      rw [written] at scanned ⊢
      have spelling := Argument.spelling_escape t.1.value.toList
      obtain ⟨tokens, later⟩ := spelling.scan_ok stops scanned rfl
      exact ⟨_, spelling, .string rfl, by simp, tokens, _, later⟩
  | word w unquoted =>
      obtain ⟨raws, lexemes, spelled, isTerm, _, text⟩ :=
        Term.exists_spelling plain ⟨_, _,
          Token.scanned_of_scan scanned⟩ some argument
      obtain rfl : value = String.ofList raws := by
        simpa using settled.symm.trans (text unquoted env)
      rw [String.toList_ofList] at scanned ⊢
      have size : (Term.word w unquoted).tokens.length = lexemes.length := by
        simpa using (congrArg List.length spelled.kinds).symm
      have unquotedToo : ∀ lexeme ∈ lexemes, lexeme.kind ≠ .string := by
        intro lexeme member string
        have among : TokenKind.string ∈ w.tokens.map Token.kind := by
          rw [← string, ← show _ = w.tokens.map Token.kind from spelled.kinds]
          exact List.mem_map_of_mem member
        obtain ⟨t, inside, kind⟩ := List.mem_map.1 among
        have glue :=
          (Word.kinds plain (isGlue_of_isArgument argument unquoted) t inside).1
        simp [kind, TokenKind.isGlue, TokenKind.isWord] at glue
      have whole : Argument.quoteChars raws = raws :=
        (Argument.bare_of_unquoted scanned unquoted ends.stops).1
      rw [whole] at scanned ⊢
      obtain ⟨tokens, later⟩ := spelled.spelling.scan_ok ends.stops scanned size
      refine ⟨lexemes, spelled.spelling, isTerm, ?_, tokens, _, later⟩
      rw [flatMap_value_of_word spelled.spelling unquotedToo]

def Placed (terms : List Term) (lexemes : List (List Lexeme)) : Prop :=
  List.Forall₂ (fun term lexemes => ∃ q,
    term.tokens = placed q lexemes) terms lexemes

theorem Term.allAligned
    {terms : List Term} {rest : List Token} {after : List Char}
    {values : List String} {env : Environment} {p : Position}
    (plain : Plain (tokensOf terms))
    (arguments : ∀ term ∈ terms, isArgument term.first.kind = true)
    (settled : textsOf? env terms = some values)
    (ends : EndsTerm after)
    (scanned : Token.scan p (spaced (values.map fun value => Argument.quoteChars
      value.toList) ++ after) = .ok (tokensOf terms ++ rest))
    (some : rest ≠ []) :
    ∃ lexemes, SpellTerms
      (values.map fun value => Argument.quoteChars value.toList) lexemes ∧
      (lexemes.map fun lexemes =>
        String.ofList (lexemes.flatMap Lexeme.value)) = values ∧
      Placed terms lexemes ∧ ∃ q, Token.scan q after = .ok rest := by
  induction terms generalizing values p with
  | nil =>
      cases settled
      exact ⟨[], .nil, rfl, .nil, p, scanned⟩
  | cons term terms induction =>
      rw [textsOf?_cons] at settled
      simp only [Option.bind_eq_bind, Option.bind_eq_some_iff] at settled
      obtain ⟨value, here, values, behind, ⟨⟩⟩ := settled
      rw [tokensOf_cons] at plain scanned
      rw [List.forall_mem_cons] at arguments
      rw [List.map_cons, spaced_cons, List.append_assoc, List.append_assoc,
        List.singleton_append, Token.scan_blank (by decide),
        List.append_assoc] at scanned
      obtain ⟨lexemes, spelling, isTerm, same, tokens, q, later⟩ :=
        Term.aligned (plain.mono (List.prefix_append _ _).isInfix)
          arguments.1 here
          (endsTerm_spaced ends _) scanned (by simp [some])
      obtain ⟨others, spelled, sameToo, placed, final⟩ :=
        induction (plain.mono (List.suffix_append _ _).isInfix) arguments.2
          behind later
      exact ⟨lexemes :: others, .cons ⟨spelling, isTerm⟩
        spelled, by simp [same, sameToo], .cons ⟨_, tokens⟩ placed, final⟩

theorem Placed.kinds {terms : List Term} {lexemes : List (List Lexeme)}
    (placed : Placed terms lexemes) :
    lexemes.flatten.map Lexeme.kind = (Term.tokensOf terms).map Token.kind := by
  induction placed with
  | nil => rfl
  | cons here _ induction =>
      obtain ⟨q, tokens⟩ := here
      simp [induction, tokens, map_kind_placed]

theorem Placed.first {terms : List Term} {lexemes : List (List Lexeme)}
    (placed : Placed terms lexemes) (Q : TokenKind → Prop)
    (kinds : ∀ term ∈ terms, Q term.first.kind) :
    ∀ arg ∈ lexemes, ∀ lexeme ∈ arg.head?, Q lexeme.kind := by
  intro arg member lexeme head
  obtain ⟨term, among, q, tokens⟩ := exists_of_forall₂ placed member
  obtain ⟨tail, rfl⟩ := List.head?_eq_some_iff.1 head
  rw [Term.tokens_eq_cons] at tokens
  have same := kinds term among
  rw [(List.cons.inj tokens).1] at same
  exact same

theorem oneLine_of_placed
    {text : List Char} {lexemes : List Lexeme} {tokens : List Token}
    {q : Position}
    (spelling : Spelling text lexemes)
    (placed : tokens = placed q lexemes)
    (oneLine : ∀ t ∈ tokens, '\n' ∉ t.raw.toList) :
    '\n' ∉ text := by
  rw [← spelling.flatMap_raw, ← flatMap_raw_placed q, ← placed,
    List.mem_flatMap]
  rintro ⟨t, member, feed⟩
  exact oneLine t member feed

theorem Placed.oneLine
    {terms : List Term} {lexemes : List (List Lexeme)}
    {texts : List (List Char)}
    (placed : Placed terms lexemes)
    (spelled : SpellTerms texts lexemes)
    (oneLine : ∀ t ∈ Term.tokensOf terms, '\n' ∉ t.raw.toList) :
    '\n' ∉ spaced texts := by
  induction placed generalizing texts with
  | nil =>
      cases spelled
      simp [spaced]
  | cons here _ induction =>
      cases spelled with | cons first others =>
      obtain ⟨q, tokens⟩ := here
      rw [Term.tokensOf_cons, List.forall_mem_append] at oneLine
      have later := induction others oneLine.2
      have now := oneLine_of_placed first.1 tokens oneLine.1
      rw [spaced_cons]
      simp [now, later]

theorem oneLine_of_spacedTokens
    {texts : List (List Char)} {lexemes : List (List Lexeme)}
    (spelled : List.Forall₂ Spelling texts lexemes)
    {p : Position}
    (oneLine : ∀ t ∈ spacedTokens p lexemes, '\n' ∉ t.raw.toList) :
    '\n' ∉ spaced texts := by
  induction spelled generalizing p with
  | nil => simp [spaced]
  | cons first _ induction =>
      rw [spacedTokens, List.forall_mem_append] at oneLine
      have later := induction oneLine.2
      have now := oneLine_of_placed first rfl oneLine.1
      rw [spaced_cons]
      simp [now, later]

theorem SpellTerms.keepsLine {name : List Char} {texts : List (List Char)}
    {lexemes : List (List Lexeme)} (spelled : SpellTerms texts lexemes)
    (oneLine : '\n' ∉ name ++ spaced texts) : KeepsLine name lexemes := by
  have whole : lexemes.map (List.flatMap raw) = texts := by
    clear oneLine
    induction spelled with
    | nil => rfl
    | cons first _ induction => simp [induction, first.1.flatMap_raw]
  intro before lexeme tail after split _ member
  apply oneLine
  rw [← whole, split, List.map_append]
  simp only [spaced, List.flatMap_append, List.mem_append] at member ⊢
  tauto

theorem Header.aligned
    {header : Header} {rest : List Token} {after : List Char} {name : String}
    {args : List String} {env : Environment} {p : Position}
    (tidy : Tidy header.tokens)
    (named : header.name? env = some name)
    (settled : header.args? env = some args)
    (ends : EndsTerm after)
    (scanned : Token.scan p (name.toList ++
      spaced (args.map fun arg => Argument.quoteChars arg.toList) ++ after) =
      .ok (header.tokens ++ rest))
    (some : rest ≠ []) :
    ∃ nameLexemes argLexemes, LegibleHeader name args nameLexemes argLexemes ∧
      Placed header.args argLexemes ∧
      '\n' ∉ name.toList ++
        spaced (args.map fun arg => Argument.quoteChars arg.toList) ∧
      ∃ q, Token.scan q after = .ok rest := by
  have plain := tidy.plain
  have oneLine := tidy.oneLine
  obtain ⟨text, lexemes, spells, spelled, meaning⟩ :=
    Header.exists_spelling plain ⟨_, _, Token.scanned_of_scan scanned⟩ some
  obtain rfl : name = String.ofList text := by
    simpa using named.symm.trans (meaning env)
  have size : header.name.tokens.length = lexemes.length := by
    simpa using (congrArg List.length spelled.kinds).symm
  rw [String.toList_ofList, List.append_assoc, tokens,
    List.append_assoc] at scanned
  obtain ⟨nameTokens, later⟩ :=
    spells.spelling.scan_ok (endsTerm_spaced ends _).stops scanned size
  obtain ⟨argLexemes, spelledArgs, values, placed, final⟩ :=
    Term.allAligned (plain.mono (List.suffix_append _ _).isInfix)
      header.argKinds settled ends later some
  have argKinds :=
    placed.first (fun kind => isArgument kind = true) header.argKinds
  rw [tokens, List.forall_mem_append] at oneLine
  refine ⟨lexemes, argLexemes, ⟨⟨?_, spelledArgs, argKinds, ?_⟩, values⟩,
    placed, ?_, final⟩
  · rw [String.toList_ofList]
    exact spells
  · intro lexeme head isVariable second member
    have kinds : (header.name.tokens ++ Term.tokensOf header.args).map
        Token.kind = (lexemes ++ argLexemes.flatten).map Lexeme.kind := by
      rw [List.map_append, List.map_append, nameTokens, map_kind_placed,
        placed.kinds]
    have next := congrArg (·[1]?) kinds
    simp only [List.getElem?_map] at next
    rw [show (lexemes ++ argLexemes.flatten)[1]? =
      Option.some second from member] at next
    obtain ⟨t, found, same⟩ := Option.map_eq_some_iff.1 next
    rw [← same]
    apply header.notTemplate _ t found
    obtain ⟨tail, rfl⟩ := List.head?_eq_some_iff.1 head
    rw [Term.tokens_eq_cons] at nameTokens
    rw [(List.cons.inj nameTokens).1]
    exact isVariable
  · rw [String.toList_ofList, List.mem_append, not_or]
    exact ⟨oneLine_of_placed spells.spelling nameTokens oneLine.1,
      placed.oneLine spelledArgs oneLine.2⟩

end Grammar

end ServerConf
