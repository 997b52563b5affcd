import ServerConf.Proofs.Alignment

namespace ServerConf

open Lexeme Grammar

structure Line.Settled (expands : Bool) (line : Line) : Prop where
  legible : line.Legible
  kept : line.Kept expands
  oneLine : '\n' ∉ line.text.toList

section Lines

variable {expands : Bool} {env : Environment} {p : Position} {rest : List Token}
  {after : List Char}

theorem scan_sign {c : Char} {kind : TokenKind}
    (sign : punctuation? c = some kind)
    {t : Token}
    (scanned : Token.scan p (c :: after) = .ok (t :: rest)) :
    ∃ q, Token.scan q after = .ok rest := by
  rw [← List.singleton_append, Reads.punctuation sign p] at scanned
  obtain ⟨us, whole, later⟩ := Token.prepend_eq_ok scanned
  obtain ⟨_, rfl⟩ := List.cons.inj whole
  exact ⟨_, later⟩

theorem scan_openBrace {t : Token}
    (scanned : Token.scan p (' ' :: '\x7b' :: after) = .ok (t :: rest)) :
    t.kind = .openBrace ∧ ∃ q, Token.scan q after = .ok rest := by
  rw [Token.scan_blank (by decide)] at scanned
  refine ⟨?_, scan_sign (c := '\x7b') rfl scanned⟩
  rw [← List.singleton_append, Reads.punctuation (c := '\x7b') rfl] at scanned
  obtain ⟨us, whole, _⟩ := Token.prepend_eq_ok scanned
  rw [(List.cons.inj whole).1]

theorem Grammar.Header.directive_aligned
    {header : Header} {name : String} {args : List String} {semicolon : Token}
    (tidy : Tidy header.tokens)
    (named : header.name? env = some name)
    (settled : header.args? env = some args)
    (scanned : Token.scan p ((Line.directive name args).text.toList ++ after) =
      .ok (header.tokens ++ semicolon :: rest)) :
    (Line.directive name args).Settled expands ∧
      ∃ q, Token.scan q after = .ok rest := by
  have whole := Line.toList_directive_text name args
  rw [← List.append_assoc] at whole
  rw [whole, List.append_assoc] at scanned
  obtain ⟨nameLexemes, argLexemes, legible, placed, oneLine, q, later⟩ :=
    Header.aligned tidy named settled ⟨';', after, rfl,
      .inr rfl⟩ scanned (by simp)
  refine ⟨⟨.directive legible (legible.spells.spelled.keepsLine oneLine),
    trivial, ?_⟩, scan_sign (c := ';') rfl later⟩
  rw [whole, List.mem_append, not_or]
  exact ⟨oneLine, by decide⟩

theorem Grammar.Header.block_aligned
    {header : Header} {name : String} {args : List String} {brace : Token}
    (tidy : Tidy header.tokens)
    (named : header.name? env = some name)
    (settled : header.args? env = some args)
    (noLocation : ∀ arg ∈ header.args, arg.first.kind ≠ .location)
    (scanned : Token.scan p ((Line.block name args).text.toList ++ after) =
      .ok (header.tokens ++ brace :: rest)) :
    (Line.block name args).Settled expands ∧
      ∃ q, Token.scan q after = .ok rest := by
  have other : name ≠ "if" := by
    obtain ⟨text, lexemes, spells, _, meaning⟩ := Header.exists_spelling
      tidy.plain ⟨_, _, Token.scanned_of_scan scanned⟩ (by simp)
    obtain rfl : name = String.ofList text := by
      simpa using named.symm.trans (meaning env)
    apply SpellsName.ne_if
    rw [String.toList_ofList]
    exact spells
  have whole := Line.toList_block_text other args
  rw [← List.append_assoc] at whole
  rw [whole, List.append_assoc] at scanned
  obtain ⟨nameLexemes, argLexemes, legible, placed, oneLine, q, later⟩ :=
    Header.aligned tidy named settled ⟨' ', _, rfl, .inl rfl⟩ scanned (by simp)
  refine ⟨⟨.block legible (placed.first (· ≠ .location) noLocation), trivial,
    ?_⟩, (scan_openBrace later).2⟩
  rw [whole, List.mem_append, not_or]
  exact ⟨oneLine, by decide⟩

theorem Grammar.Leaf.reference_aligned
    {sign : Token.Of .inline} {opening : Token.Of .openParen}
    {name : Token.Of .variable} {closing : Token.Of .closeParen}
    {semicolon : Token.Of .semicolon}
    (oneLine : '\n' ∉ name.1.raw.toList)
    (unexpanded : expands = false)
    (scanned :
      Token.scan p ((Line.reference name.1.value).text.toList ++ after) =
      .ok ([sign.1, opening.1, name.1, closing.1, semicolon.1] ++ rest)) :
    (Line.reference name.1.value).Settled expands ∧
      ∃ q, Token.scan q after = .ok rest := by
  have source : Token.InSource (name.1 :: ([closing.1, semicolon.1] ++ rest)) :=
    @Token.InSource.of_append [sign.1, opening.1] _ ⟨_, _,
      Token.scanned_of_scan scanned⟩ (by simp)
  obtain ⟨text, lexeme, spelled, raw, value⟩ := exists_lexeme source (by simp)
  have same : name.1.value = String.ofList text := value (by simp)
  rw [raw, String.toList_ofList] at oneLine
  have kind : lexeme.kind = .variable :=
    ((List.cons.inj spelled.kinds).1).trans name.2
  have whole := Line.toList_reference_text name.1.value
  rw [same, String.toList_ofList, ← same] at whole
  obtain ⟨_, _, _, _, _, reads, _⟩ := reads_inline spelled.spelling p
  refine ⟨⟨?_, unexpanded, ?_⟩, ?_⟩
  · rw [same]
    exact .reference (by rw [String.toList_ofList]; exact spelled.spelling) kind
  · rw [whole]
    simp [inlineWord, oneLine]
  · rw [whole, reads after] at scanned
    obtain ⟨us, tokens, later⟩ := Token.prepend_eq_ok scanned
    obtain ⟨_, rfl⟩ := List.append_inj tokens rfl
    exact ⟨_, later⟩

theorem Grammar.Condition.aligned
    {sign : Token.Of .identifier} {c : Condition} {brace : Token.Of .openBrace}
    {args : List String}
    (tidy : Tidy (sign.1 :: (c.tokens ++ [brace.1])))
    (settled : c.args? env = some args)
    (scanned : Token.scan p ((Line.block "if" args).text.toList ++ after) =
      .ok (sign.1 :: (c.tokens ++ [brace.1]) ++ rest)) :
    (Line.block "if" args).Settled expands ∧
      ∃ q, Token.scan q after = .ok rest := by
  obtain ⟨following, some, source, within⟩ :=
    c.inSource ⟨_, _, Token.scanned_of_scan scanned⟩
  obtain ⟨texts, lexemes, meaning, runs, kinds⟩ :=
    Condition.exists_spelling (tidy.mono within).plain source some
  obtain rfl : args = texts.map String.ofList := by
    simpa using settled.symm.trans (meaning env)
  have whole := Line.toList_condition_text (texts.map String.ofList)
  simp only [List.map_map, Function.comp_def, String.toList_ofList,
    List.map_id'] at whole
  obtain ⟨first, paren, q, closingParen, lastBrace, reads, _⟩ :=
    reads_condition runs p
  rw [whole, reads after] at scanned
  obtain ⟨us, tokens, later⟩ := Token.prepend_eq_ok scanned
  cases c with
  | bare parts begins noBrace =>
      exfalso
      obtain ⟨_, tokens⟩ := List.cons.inj tokens
      cases parts with
      | nil =>
          obtain ⟨same, _⟩ := List.cons.inj tokens
          have kind := brace.2
          rw [same, paren.2] at kind
          cases kind
      | cons part parts =>
          obtain ⟨same, _⟩ := List.cons.inj tokens
          apply begins part rfl
          rw [show part.first = paren.1 from same]
          exact paren.2
  | enclosed opening parts closing noBrace balanced =>
      have kinds : lexemes.flatten.map Lexeme.kind =
          (Part.tokensOf parts).map Token.kind := kinds
      have size :
          (Part.tokensOf parts).length = (spacedTokens q lexemes).length := by
        have first := congrArg List.length kinds
        have second := congrArg List.length (map_kind_spacedTokens q lexemes)
        simp only [List.length_map] at first second
        omega
      have split : Part.tokensOf parts ++ (closing.1 :: brace.1 :: rest) =
          spacedTokens q lexemes ++ (closingParen.1 :: lastBrace.1 :: us) := by
        have inner := (List.cons.inj (List.cons.inj tokens).2).2
        simpa [Condition.tokens] using inner
      obtain ⟨same, behind⟩ := List.append_inj split size
      obtain ⟨_, behind⟩ := List.cons.inj behind
      obtain ⟨_, rfl⟩ := List.cons.inj behind
      refine ⟨⟨.condition (by simpa [Function.comp_def] using runs) ?_, trivial,
        ?_⟩, _, later⟩
      · apply balanced.of_map_kind
        rw [List.map_map, ← kinds]
        rfl
      · have inside : ∀ t ∈ spacedTokens q lexemes, '\n' ∉ t.raw.toList := by
          rw [← same]
          exact (tidy.mono within).oneLine
        have oneLine := oneLine_of_spacedTokens
          (runs.imp fun _ _ => SpellsRun.spelling) inside
        rw [whole]
        have tail : '\n' ∉ (spaced texts).tail :=
          fun member => oneLine (List.mem_of_mem_tail member)
        simp [tail]

theorem Modifier.ofPath?_cases {path tail : List Char} {found : Modifier}
    (signed : Modifier.ofPath? path = some (found, tail)) :
    found ≠ .none ∧ (path = '=' :: tail ∨ path = '~' :: '*' :: tail ∨
      (path = '~' :: tail ∧ ∀ rest, tail ≠ '*' :: rest) ∨
        path = '^' :: '~' :: tail) := by
  unfold ofPath? at signed
  split at signed
  · cases signed
    simp
  · cases signed
    simp
  · rename_i rest short
    cases signed
    refine ⟨by simp, .inr (.inr (.inl ⟨rfl, ?_⟩))⟩
    rintro rest rfl
    exact short rest rfl
  · cases signed
    simp
  · cases signed

theorem scan_modifierText {m : Modifier}
    (signed : m ≠ .none)
    {text : List Char} {t : Token}
    (scanned : Token.scan p (modifierText m ++ text) = .ok (t :: rest)) :
    (t.kind = .equals ∨ t.kind = .modifier) ∧
      ∃ q, Token.scan q text = .ok rest := by
  obtain ⟨sign, reads, _, unsigned⟩ := exists_sign m p
  cases sign with
  | none => exact absurd (unsigned rfl) signed
  | some sign =>
      rw [reads text] at scanned
      obtain ⟨us, tokens, later⟩ := Token.prepend_eq_ok scanned
      obtain ⟨rfl, rfl⟩ := List.cons.inj tokens
      refine ⟨?_, _, later⟩
      cases sign with
      | modifier t => exact .inr t.2
      | equals t => exact .inl t.2

theorem Grammar.MatchSign.meaning_ne_none {sign : MatchSign} {ts : List Token}
    (source : Token.InSource (sign.token :: ts))
    (some : ts ≠ []) :
    sign.meaning ≠ .none := by
  cases sign with
  | equals t => simp [meaning]
  | modifier t =>
      obtain ⟨text, lexeme, spelled, _, value⟩ := exists_lexeme source some
      have kind : lexeme.kind = .modifier :=
        ((List.cons.inj spelled.kinds).1).trans t.2
      have same : t.1.value = String.ofList text := value (by simp [token])
      have spelling := spelled.spelling
      rw [meaning, same]
      cases spelling with | @cons c taken rest _ _ _ _ _ read behind =>
      cases behind
      rcases modifier?_cases (modifier?_of_read? read kind) with
        ⟨rfl, tail, _, whole⟩ | ⟨rfl, _, whole⟩ | ⟨rfl, tail, _, whole⟩ <;>
      · obtain rfl : taken = _ := (List.cons.inj (congrArg raw whole)).2
        decide

theorem Lexeme.read?_of_signed
    {c : Char} {rest tail : List Char} {found : Modifier}
    (signed : Modifier.ofPath? (c :: rest) = some (found, tail)) :
    ∃ kind raw, read? c rest = some (plain kind raw tail) ∧
      (kind = .equals ∨ kind = .modifier) := by
  obtain ⟨_, same | same | ⟨same, short⟩ | same⟩ :=
    Modifier.ofPath?_cases signed <;> obtain ⟨rfl, rfl⟩ := List.cons.inj same
  · exact ⟨.equals, _, rfl, .inl rfl⟩
  · exact ⟨.modifier, _, rfl, .inr rfl⟩
  · refine ⟨.modifier, ['~'], ?_, .inr rfl⟩
    simp [read?, punctuation?, isQuote, modifier?_tilde short]
  · exact ⟨.modifier, _, rfl, .inr rfl⟩

theorem Lexeme.Spelling.of_signed
    {path tail : List Char} {lexemes : List Lexeme} {found : Modifier}
    (spelling : Spelling path lexemes)
    (signed : Modifier.ofPath? path = some (found, tail)) :
    ∃ lexeme others, lexemes = lexeme :: others ∧ Spelling tail others := by
  cases spelling with
  | nil => cases signed
  | cons _ _ read behind =>
      obtain ⟨kind, raw, readToo, _⟩ := read?_of_signed signed
      obtain rfl :=
        congrArg Lexeme.rest (Option.some.inj (read.symm.trans readToo))
      exact ⟨_, _, rfl, behind⟩

theorem Modifier.exists_before {path tail : List Char} {found : Modifier}
    (signed : Modifier.ofPath? path = some (found, tail)) :
    ∃ before, path = before ++ Text.trimStart tail ∧ before ≠ [] ∧
      '\x7b' ∉ before := by
  have blank : '\x7b' ∉ tail.takeWhile Text.isBlank := by
    intro member
    exact absurd (List.mem_takeWhile_imp member) (by decide)
  have split : tail = tail.takeWhile Text.isBlank ++ Text.trimStart tail :=
    List.takeWhile_append_dropWhile.symm
  obtain ⟨_, rfl | rfl | ⟨rfl, _⟩ | rfl⟩ := ofPath?_cases signed
  · exact ⟨'=' :: tail.takeWhile
      Text.isBlank, by rw [List.cons_append, ← split], by simp, by simp [blank]⟩
  · exact ⟨'~' :: '*' :: tail.takeWhile
      Text.isBlank, by simp [← split], by simp, by simp [blank]⟩
  · exact ⟨'~' :: tail.takeWhile
      Text.isBlank, by rw [List.cons_append, ← split], by simp, by simp [blank]⟩
  · exact ⟨'^' :: '~' :: tail.takeWhile
      Text.isBlank, by simp [← split], by simp, by simp [blank]⟩

theorem Grammar.Term.not_signed
    {path : Term} {value : String} {found : Modifier} {tail : List Char}
    (plain : Plain path.tokens)
    (named : path.first.kind.isName = true)
    (settled : path.text? env = some value)
    (signed : Modifier.ofPath? value.toList = some (found, tail))
    (some : rest ≠ []) :
    Token.scan p
      (Argument.quoteChars (Text.trimStart tail) ++ ' ' :: '\x7b' :: after) ≠
      .ok (path.tokens ++ rest) := by
  intro scanned
  have stops : Stops (' ' :: '\x7b' :: after) := .blank (by decide) _
  cases path with
  | quoted t =>
      cases settled
      obtain ⟨before, whole, begins, noBrace⟩ := Modifier.exists_before signed
      obtain ⟨c, before, rfl⟩ := List.exists_cons_of_ne_nil begins
      have lost := Argument.string_of_quoteChars (c := '\x7b') scanned t.2 whole
        stops (by simp) noBrace (by decide)
      cases lost.1
  | word w unquoted =>
      have argument := isArgument_of_isName named
      obtain ⟨raws, lexemes, spelled, _, _, text⟩ :=
        Term.exists_spelling plain ⟨_, _,
          Token.scanned_of_scan scanned⟩ some argument
      obtain rfl : value = String.ofList raws := by
        simpa using settled.symm.trans (text unquoted env)
      rw [String.toList_ofList] at signed
      obtain ⟨lexeme, others, rfl, spelling⟩ :=
        spelled.spelling.of_signed signed
      have trimmed : Text.trimStart tail = tail := by
        cases spelling with
        | nil => rfl
        | cons shown => simp [Text.trimStart, shown]
      rw [trimmed] at scanned
      rw [(Argument.bare_of_unquoted scanned unquoted stops).1] at scanned
      obtain none | ⟨initial, last, split⟩ := List.eq_nil_or_concat w.tokens
      · rw [Word.tokens_eq_cons] at none
        cases none
      · have size : initial.length = others.length := by
          have length := congrArg List.length spelled.kinds
          simp [tokens, split] at length
          omega
        rw [tokens, split, List.concat_eq_append, List.append_assoc] at scanned
        obtain ⟨_, later⟩ := spelling.scan_ok stops scanned size
        have brace := (scan_openBrace later).1
        have glue := (Word.kinds plain (isGlue_of_isArgument argument unquoted)
          last (by simp [split])).1
        simp [brace, TokenKind.isGlue, TokenKind.isWord] at glue

theorem Line.location_text_append
    (m : Modifier) (path : String) (after : List Char) :
    (Line.location m path).text.toList ++ after =
      locationWord ++ [' '] ++ (modifierText (m.splitPath path).1 ++
        (Argument.quoteChars (m.splitPath path).2.toList ++
          ' ' :: '\x7b' :: after)) := by
  simp [Line.toList_location_text]

theorem scan_location {t : Token} {text : List Char}
    (scanned : Token.scan p (locationWord ++ [' '] ++ text) = .ok (t :: rest)) :
    ∃ q, Token.scan q text = .ok rest := by
  rw [reads_space spelling_location p text] at scanned
  obtain ⟨us, tokens, later⟩ := Token.prepend_eq_ok scanned
  obtain ⟨_, rfl⟩ := List.cons.inj tokens
  exact ⟨_, later⟩

theorem scan_matchSign {sign : Option MatchSign} {text : List Char}
    (signed : ∀ m ∈ sign, m.meaning ≠ .none)
    (scanned : Token.scan p (modifierText (sign.elim .none MatchSign.meaning) ++
      text) = .ok ((sign.elim [] fun m => [m.token]) ++ rest)) :
    ∃ q, Token.scan q text = .ok rest := by
  cases sign with
  | none => exact ⟨p, scanned⟩
  | some m => exact (scan_modifierText (signed m rfl) scanned).2

theorem Grammar.Term.location_aligned
    {sign : Token.Of .location} {modifier : Option MatchSign} {path : Term}
    {brace : Token.Of .openBrace} {value : String}
    (pathKind : path.first.kind.isName = true)
    (unsigned : modifier = none → path.first.kind ≠ .inWord ∧
      path.first.kind ≠ .modifier)
    (tidy : Tidy path.tokens)
    (settled : path.text? env = some value)
    (scanned : Token.scan p ((Line.location
      (modifier.elim .none MatchSign.meaning) value).text.toList ++ after) =
      .ok (sign.1 :: ((modifier.elim [] fun m => [m.token]) ++
      (path.tokens ++ brace.1 :: rest)))) :
    (Line.location (modifier.elim .none MatchSign.meaning) value).Settled
      expands ∧
      ∃ q, Token.scan q after = .ok rest := by
  have signed : ∀ m ∈ modifier, m.meaning ≠ .none := by
    rintro m rfl
    have source : Token.InSource
        (sign.1 :: m.token :: (path.tokens ++ brace.1 :: rest)) :=
      ⟨_, _, Token.scanned_of_scan scanned⟩
    exact MatchSign.meaning_ne_none (source.tail (by simp)) (by simp)
  have plain := tidy.plain
  rw [Line.location_text_append] at scanned
  obtain ⟨q, scanned⟩ := scan_location scanned
  cases found : Modifier.ofPath? value.toList with
  | some split =>
      exfalso
      obtain ⟨other, tail⟩ := split
      simp only [Modifier.splitPath, found, String.toList_ofList] at scanned
      have otherSign := (Modifier.ofPath?_cases found).1
      cases modifier with
      | some m =>
          obtain ⟨_, q, scanned⟩ := scan_modifierText otherSign scanned
          exact Term.not_signed plain pathKind settled found (by simp) scanned
      | none =>
          rw [Option.elim_none, List.nil_append, Term.tokens_eq_cons,
            List.cons_append] at scanned
          obtain ⟨equals | sign, _⟩ := scan_modifierText otherSign scanned
          · simp [equals, TokenKind.isName, TokenKind.isWord] at pathKind
          · exact (unsigned rfl).2 sign
  | none =>
      simp only [Modifier.splitPath, found] at scanned
      obtain ⟨q, scanned⟩ := scan_matchSign signed scanned
      obtain ⟨lexemes, spelling, isTerm, same, tokens, q, later⟩ :=
        Term.aligned plain (isArgument_of_isName pathKind) settled ⟨' ', _, rfl,
          .inl rfl⟩ scanned
          (by simp)
      refine ⟨⟨.location found ⟨spelling, isTerm, ?_⟩ same, trivial, ?_⟩,
        (scan_openBrace later).2⟩
      · intro lexeme head
        obtain ⟨others, rfl⟩ := List.head?_eq_some_iff.1 head
        rw [Term.tokens_eq_cons] at tokens
        have first : path.first.kind = lexeme.kind := by
          rw [(List.cons.inj tokens).1]
          rfl
        rw [← first]
        refine ⟨pathKind, fun none => unsigned ?_⟩
        cases modifier with
        | none => rfl
        | some m => exact absurd none (signed m rfl)
      · have oneLine := oneLine_of_placed spelling tokens tidy.oneLine
        rw [Line.toList_location_text]
        simp only [Modifier.splitPath, found]
        simp [locationWord, (sealed_modifierText _).oneLine, oneLine]

theorem scan_inWord {value : List Char} {t : Token}
    (plain : ∀ c ∈ value, Argument.isSpecial c = false)
    (begins : value ≠ [])
    (comment : value.head? ≠ some '#')
    (kind : t.kind = .inWord)
    (scanned :
      Token.scan p (value ++ ' ' :: '\x7b' :: after) = .ok (t :: rest)) :
    ∃ tail, value = 'i' :: 'n' :: tail ∧ tail.head? ≠ some '#' ∧
      ∃ q, Token.scan q (tail ++ ' ' :: '\x7b' :: after) = .ok rest := by
  obtain ⟨c, value, rfl⟩ := List.exists_cons_of_ne_nil begins
  have shown := (Argument.not_special (plain c (by simp))).1
  obtain ⟨lexeme, read, rfl, later⟩ :=
    exists_of_scan shown (by simpa using comment) scanned
  obtain ⟨raw, noComment⟩ := read?_inWord read kind
  have whole :
      'i' :: 'n' :: lexeme.rest = c :: (value ++ ' ' :: '\x7b' :: after) := by
    simpa [raw] using read?_append read
  cases value with
  | nil => simp at whole
  | cons d tail =>
      obtain ⟨rfl, rfl, same⟩ :
          'i' = c ∧ 'n' = d ∧ lexeme.rest = tail ++ ' ' :: '\x7b' :: after := by
        simpa using whole
      rw [same] at later noComment
      refine ⟨tail, rfl, ?_, _, later⟩
      cases tail with
      | nil => simp
      | cons => exact noComment

theorem not_listed {value : String} {sign inWord bracket string : Token}
    (isIn : inWord.kind = .inWord)
    (isBracket : bracket.kind = .openBracket)
    (isString : string.kind = .string)
    (apart : ¬ listWord <+: (Line.location .none value).text.toList ++ after) :
    Token.scan p ((Line.location .none value).text.toList ++ after) ≠
      .ok (sign :: inWord :: bracket :: string :: rest) := by
  intro scanned
  rw [Line.location_text_append] at scanned apart
  obtain ⟨q, scanned⟩ := scan_location scanned
  cases found : Modifier.ofPath? value.toList with
  | some split =>
      obtain ⟨other, tail⟩ := split
      simp only [Modifier.splitPath, found] at scanned
      obtain ⟨equals | sign, _⟩ :=
        scan_modifierText (Modifier.ofPath?_cases found).1 scanned
      · exact absurd (isIn.symm.trans equals) (by decide)
      · exact absurd (isIn.symm.trans sign) (by decide)
  | none =>
      simp only [Modifier.splitPath, found] at scanned apart
      rw [show modifierText .none = [] from rfl,
        List.nil_append] at scanned apart
      obtain ⟨same, some, plain, comment⟩ :=
        Argument.bare_of_unquoted scanned (by simp [isIn])
          (.blank (by decide) _)
      rw [same] at scanned apart
      obtain ⟨tail, whole, noComment, q, scanned⟩ :=
        scan_inWord plain some comment isIn scanned
      rw [whole] at apart plain
      simp only [List.mem_cons, forall_eq_or_imp] at plain
      cases tail with
      | nil =>
          exact absurd (isBracket.symm.trans (scan_openBrace scanned).1)
            (by decide)
      | cons d tail =>
          simp only [List.mem_cons, forall_eq_or_imp] at plain
          obtain ⟨_, _, shown, others⟩ := plain
          obtain ⟨lexeme, read, rfl, later⟩ :=
            exists_of_scan (Argument.not_special shown).1
              (by simpa using noComment) scanned
          have kind : lexeme.kind = .openBracket := isBracket
          obtain rfl : d = '[' := by
            have bracket := punctuation?_of_read? read (by rw [kind]; decide)
            rw [kind] at bracket
            unfold punctuation? at bracket
            split at bracket <;> simp_all
          cases read
          cases tail with
          | nil =>
              exact absurd (isString.symm.trans (scan_openBrace later).1)
                (by decide)
          | cons e tail =>
              obtain ⟨shown, unquoted⟩ :=
                Argument.not_special (others e (by simp))
              refine unquoted_of_scan shown ?_ unquoted later isString
              rintro rfl
              exact apart ⟨tail ++ ' ' :: '\x7b' :: after, by simp [listWord]⟩

variable {table : Templates} {children ss out : List Statement}

theorem Grammar.Leaf.aligned {l : Leaf} {s : Statement}
    (settled : l.statement? env = some s)
    (tidy : Tidy l.tokens)
    (expanded : Expands expands table (s :: ss) out)
    (empty : ∀ name, table.get? name = none) :
    ∃ (line : Line) (t : Statement) (others : List Statement),
      out = t :: others ∧ line.Heads t [] ∧ line.isLeaf = true ∧
      Expands expands table ss others ∧
      ∀ p rest after,
        Token.scan p (line.text.toList ++ after) = .ok (l.tokens ++ rest) →
        line.Settled expands ∧ ∃ q, Token.scan q after = .ok rest := by
  cases l with
  | inline sign opening name closing semicolon =>
      cases settled
      cases expanded with
      | kept unexpanded behind =>
          refine ⟨.reference name.1.value, _, _, rfl, .reference, rfl,
            behind, ?_⟩
          intro p rest after scanned
          exact Leaf.reference_aligned (tidy.oneLine _ (by simp [tokens]))
            unexpanded scanned
      | replaced _ found =>
          rw [empty] at found
          cases found
  | importFile sign opening path closing semicolon named =>
      exfalso
      have follows := tidy.follows
      rw [tokens, List.isChain_cons_cons] at follows
      exact follows.1.noCall ⟨.inl sign.2, opening.2⟩
  | directive header semicolon oneLine =>
      simp only [statement?, Option.bind_eq_bind,
        Option.bind_eq_some_iff] at settled
      obtain ⟨name, named, args, valued, ⟨⟩⟩ := settled
      cases expanded with | directive behind =>
      refine ⟨.directive name args, _, _, rfl, .directive, rfl, behind, ?_⟩
      intro p rest after scanned
      rw [tokens, List.append_assoc] at scanned
      have tidyTerms := tidy.mono (List.prefix_append _ _).isInfix
      exact Header.directive_aligned tidyTerms named valued scanned

theorem Grammar.Opening.exists_closeBrace {o : Opening} {closing : List Token}
    (closes : o.Closes closing)
    (tidy : Tidy closing) :
    ∃ brace : Token.Of .closeBrace, closing = [brace.1] := by
  cases o with
  | definition name equals brace =>
      obtain ⟨brace, semicolon, rfl⟩ := closes
      have follows := tidy.follows
      rw [List.isChain_cons_cons] at follows
      exact absurd ⟨brace.2, semicolon.2⟩ follows.1.noTemplate
  | locations | location | condition | block => exact closes

theorem Grammar.PathList.exists_first {l : PathList} {values : List String}
    (plain : Plain l.tokens)
    (settled : l.texts? env = some values) :
    ∃ (string : Token.Of .string) (behind : List Token),
      l.tokens = string.1 :: behind ∧
      ∃ value others, values = value :: others := by
  simp only [texts?, List.mapM_cons, Option.bind_eq_bind,
    Option.bind_eq_some_iff] at settled
  obtain ⟨value, first, others, _, ⟨⟩⟩ := settled
  cases path : l.first with
  | quoted t =>
      exact ⟨t, _, by simp [tokens, path, ListedPath.tokens]; rfl, value,
        others, rfl⟩
  | reference r =>
      exact absurd ⟨[],
        _, by simp [tokens, path, ListedPath.tokens]; rfl⟩ (plain r)

theorem Grammar.Opening.aligned
    {o : Opening} {h : Heading} {brace : Token.Of .closeBrace}
    (closes : o.Closes [brace.1])
    (settled : o.heading? env = some h)
    (tidy : Tidy o.tokens)
    (expanded : Expands expands table (h.around children :: ss) out) :
    ∃ (line : Line) (t : Statement) (inner others : List Statement),
      out = t :: others ∧ line.Heads t inner ∧ line.isLeaf = false ∧
      ∀ p rest after, ¬ listWord <+: line.text.toList ++ after →
        Token.scan p (line.text.toList ++ after) = .ok (o.tokens ++ rest) →
        line.Settled expands ∧ Expands expands table children inner ∧
          Expands expands table ss others ∧
            ∃ q, Token.scan q after = .ok rest := by
  cases o with
  | definition name equals brace =>
      obtain ⟨_, _, same⟩ := closes
      simp at same
  | locations sign inWord bracket paths closing brace =>
      simp only [heading?, Option.bind_eq_bind,
        Option.bind_eq_some_iff] at settled
      obtain ⟨values, found, ⟨⟩⟩ := settled
      have part : paths.tokens <:+:
          tokens (.locations sign inWord bracket paths closing brace) :=
        ⟨[sign.1, inWord.1, bracket.1], [closing.1, brace.1], by simp [tokens]⟩
      obtain ⟨string, others, tokensEq, value, values, rfl⟩ :=
        PathList.exists_first (tidy.mono part).plain found
      cases expanded with | location inside behind =>
      refine ⟨.location .none value, _, _, _, rfl, .location, rfl, ?_⟩
      intro p rest after apart scanned
      rw [tokens, tokensEq] at scanned
      exact absurd scanned (not_listed inWord.2 bracket.2 string.2 apart)
  | location sign modifier path brace pathKind unsigned =>
      simp only [heading?, Option.bind_eq_bind,
        Option.bind_eq_some_iff] at settled
      obtain ⟨value, found, ⟨⟩⟩ := settled
      cases expanded with | location inside behind =>
      refine ⟨.location _ value, _, _, _, rfl, .location, rfl, ?_⟩
      intro p rest after _ scanned
      have part : path.tokens <:+:
          tokens (.location sign modifier path brace pathKind unsigned) :=
        ⟨sign.1 :: (modifier.elim [] fun m => [m.token]),
          [brace.1], by simp [tokens]⟩
      rw [tokens] at scanned
      obtain ⟨line, later⟩ := Term.location_aligned pathKind unsigned
        (tidy.mono part) found (by simpa using scanned)
      exact ⟨line, inside, behind, later⟩
  | condition sign isIf c brace =>
      simp only [heading?, Option.bind_eq_bind,
        Option.bind_eq_some_iff] at settled
      obtain ⟨args, found, ⟨⟩⟩ := settled
      cases expanded with | block inside behind =>
      refine ⟨.block "if" args, _, _, _, rfl, .block, rfl, ?_⟩
      intro p rest after _ scanned
      obtain ⟨line, later⟩ := Condition.aligned tidy found scanned
      exact ⟨line, inside, behind, later⟩
  | block header brace noLocation =>
      simp only [heading?, Option.bind_eq_bind,
        Option.bind_eq_some_iff] at settled
      obtain ⟨name, named, args, valued, ⟨⟩⟩ := settled
      cases expanded with | block inside behind =>
      refine ⟨.block name args, _, _, _, rfl, .block, rfl, ?_⟩
      intro p rest after _ scanned
      rw [tokens, List.append_assoc] at scanned
      have tidyTerms := tidy.mono (List.prefix_append _ _).isInfix
      obtain ⟨line, later⟩ :=
        Header.block_aligned tidyTerms named valued noLocation scanned
      exact ⟨line, inside, behind, later⟩

def Unlisted (text : List Char) : Prop :=
  ∀ rest, '\n' :: rest <:+ text → ¬ listWord <+: Text.trimStart rest

theorem Unlisted.nil : Unlisted [] := by
  intro rest inside
  simp at inside

theorem Unlisted.of_append {first second : List Char}
    (unlisted : Unlisted (first ++ second)) :
    Unlisted second :=
  fun rest inside => unlisted rest (inside.trans (List.suffix_append _ _))

theorem trimStart_append {gap text : List Char}
    (blank : ∀ c ∈ gap, Text.isBlank c = true) :
    Text.trimStart (gap ++ text) = Text.trimStart text :=
  List.dropWhile_append_of_pos blank

section Written

variable {options : RenderOptions} {depth : Nat} {text : String}
  {lines : List String}

theorem written_line
    (options : RenderOptions) (depth : Nat) (text : String)
    (lines : List String) (after : List Char) :
    written ((options.indentation depth ++ text) :: lines) ++ after =
      ('\n' :: (options.indentation depth).toList) ++
        (text.toList ++ (written lines ++ after)) := by
  simp

theorem scan_line
    (blank : options.Blank)
    (scanned : Token.scan p (written
      ((options.indentation depth ++ text) :: lines) ++ after) = .ok rest) :
    ∃ q, Token.scan q (text.toList ++ (written lines ++ after)) = .ok rest := by
  rw [written_line,
    Token.scan_gap (.blank (by decide) (blank.form depth))] at scanned
  exact ⟨_, scanned⟩

theorem Unlisted.line
    (blank : options.Blank)
    (unlisted : Unlisted
      (written ((options.indentation depth ++ text) :: lines) ++ after)) :
    ¬ listWord <+: text.toList ++ (written lines ++ after) := by
  intro begins
  rw [written_line, List.cons_append] at unlisted
  apply unlisted _ List.suffix_rfl
  rw [trimStart_append (blank.isBlank depth)]
  obtain ⟨tail, same⟩ := begins
  rw [← same]
  exact ⟨tail, rfl⟩

theorem Unlisted.behind
    (unlisted : Unlisted
      (written ((options.indentation depth ++ text) :: lines) ++ after)) :
    Unlisted (written lines ++ after) := by
  rw [written_line, ← List.append_assoc] at unlisted
  exact unlisted.of_append

theorem settled_of_scan
    (blank : options.Blank)
    (empty : ∀ name, table.get? name = none)
    {ps : List Phrase}
    (meaning : statementsOf? env ps = some ss)
    (tidy : Tidy (tokensOf ps))
    (expanded : Expands expands table ss out)
    (unlisted : Unlisted (written (ownLinesOf options depth out) ++ after))
    (scanned : Token.scan p (written (ownLinesOf options depth out) ++ after) =
      .ok (tokensOf ps ++ rest)) :
    Throughout (Line.Settled expands) out ∧
      ∃ q, Token.scan q after = .ok rest := by
  induction ps using phraseRecursion generalizing ss out p rest after depth with
  | nil =>
      cases meaning
      cases expanded
      exact ⟨.nil, p, scanned⟩
  | leaf l ps induction =>
      simp only [statementsOf?, Phrase.statement?, Option.bind_eq_bind,
        Option.bind_eq_some_iff] at meaning
      obtain ⟨s, first, others, behind, ⟨⟩⟩ := meaning
      rw [tokensOf, Phrase.tokens] at tidy scanned
      obtain ⟨line, t, out, rfl, heads, isLeaf, expanded, step⟩ :=
        l.aligned first (tidy.mono (List.prefix_append _ _).isInfix)
          expanded empty
      rw [heads.ownLinesOf_cons, Line.inner, if_pos isLeaf] at unlisted scanned
      obtain ⟨q, scanned⟩ := scan_line blank scanned
      rw [List.append_assoc] at scanned
      obtain ⟨settled, q, scanned⟩ := step _ _ _ scanned
      obtain ⟨throughout, later⟩ := induction behind
        (tidy.mono (List.suffix_append _ _).isInfix) expanded
          unlisted.behind scanned
      exact ⟨.cons heads settled .nil throughout, later⟩
  | group o body closing closes ps inside induction =>
      simp only [statementsOf?, Phrase.statement?, Option.bind_eq_bind,
        Option.bind_eq_some_iff] at meaning
      obtain ⟨s, ⟨h, opens, children, within, ⟨⟩⟩, others, behind, ⟨⟩⟩ :=
        meaning
      rw [tokensOf, Phrase.tokens] at tidy scanned
      simp only [List.append_assoc] at tidy scanned
      have tidyBody := tidy.mono (List.suffix_append _ _).isInfix
      have tidyRest := tidyBody.mono (List.suffix_append _ _).isInfix
      obtain ⟨brace, rfl⟩ :=
        Opening.exists_closeBrace closes
          (tidyRest.mono (List.prefix_append _ _).isInfix)
      obtain ⟨line, t, inner, out, rfl, heads, isLeaf, step⟩ :=
        o.aligned closes opens
          (tidy.mono (List.prefix_append _ _).isInfix) expanded
      rw [heads.ownLinesOf_cons, Line.inner, if_neg (by simp [isLeaf]),
        List.append_assoc] at unlisted scanned
      obtain ⟨q, scanned⟩ := scan_line blank scanned
      obtain ⟨settled, insideExpanded, expanded, q, scanned⟩ :=
        step _ _ _ (unlisted.line blank) scanned
      have unlisted := unlisted.behind
      rw [written_append, List.append_assoc] at unlisted scanned
      obtain ⟨throughoutInside, q, scanned⟩ := inside within
        (tidyBody.mono (List.prefix_append _ _).isInfix) insideExpanded
          unlisted scanned
      obtain ⟨q, scanned⟩ := scan_line blank scanned
      obtain ⟨q, scanned⟩ := scan_sign (c := '\x7d') rfl scanned
      obtain ⟨throughout, later⟩ := induction behind
        (tidyRest.mono (List.suffix_append _ _).isInfix) expanded
          unlisted.of_append.behind scanned
      exact ⟨.cons heads settled throughoutInside throughout, later⟩

end Written

end Lines

end ServerConf
