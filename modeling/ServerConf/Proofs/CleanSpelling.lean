import ServerConf.Proofs.ReadBack

/-!
How values are spelled: clean ones as they are, and the others in quotes.
-/

namespace ServerConf

open Lexeme Grammar

namespace Text

/-- A character that neither separates words nor begins anything but a word. -/
def isCleanSign (c : Char) : Bool :=
  !isBlank c &&
    !(['\x7b', '\x7d', '(', ')', ';', ',', '"', '\'', '#', '%'].contains c)

structure Clean (text : List Char) : Prop where
  some : text ≠ []
  signs : ∀ c ∈ text, isCleanSign c = true
  begins : text.head? ≠ .some ']'

instance (text : List Char) : Decidable (Clean text) :=
  decidable_of_iff (text ≠ [] ∧ text.all isCleanSign = true ∧
    text.head? ≠ .some ']')
    ⟨fun ⟨filled, signs, begins⟩ => ⟨filled, List.all_eq_true.1 signs, begins⟩,
      fun ⟨filled, signs, begins⟩ => ⟨filled, List.all_eq_true.2 signs, begins⟩⟩

def headWord (text : List Char) : List Char :=
  text.takeWhile fun c => c != '[' && c != ']' && c != '='

end Text

namespace Lexeme

theorem not_blank_of_clean {c : Char} (clean : Text.isCleanSign c = true) :
    Text.isBlank c = false := by
  simp only [Text.isCleanSign, Bool.and_eq_true, Bool.not_eq_true'] at clean
  exact clean.1

theorem ne_of_clean {c d : Char} (clean : Text.isCleanSign c = true)
    (other : Text.isCleanSign d = false) : c ≠ d := by
  rintro rfl
  rw [clean] at other
  cases other

theorem punctuation?_of_clean {c : Char} (clean : Text.isCleanSign c = true) :
    (c = '[' ∧ punctuation? c = some .openBracket) ∨
      (c = ']' ∧ punctuation? c = some .closeBracket) ∨
      (c = '=' ∧ punctuation? c = some .equals) ∨
      (c ≠ '[' ∧ c ≠ ']' ∧ c ≠ '=' ∧ punctuation? c = none) := by
  unfold punctuation?
  split
  all_goals first
    | exact absurd clean (by decide)
    | simp_all

theorem continuesWord_of_clean {c : Char} (clean : Text.isCleanSign c = true)
    (rest : List Char) :
    continuesWord c rest = (c != '[' && c != ']' && c != '=') := by
  have sigil : isSigil c rest = false :=
    isSigil_eq_false_of_ne (ne_of_clean clean (by decide)) rest
  have quote : isQuote c = false := by
    simp [isQuote,
      ne_of_clean clean (show Text.isCleanSign '"' = false by decide),
      ne_of_clean clean (show Text.isCleanSign '\'' = false by decide)]
  rcases punctuation?_of_clean clean with
    ⟨rfl, _⟩ | ⟨rfl, _⟩ | ⟨rfl, _⟩ | ⟨a, b, d, none⟩
  · simp [continuesWord, punctuation?]
  · simp [continuesWord, punctuation?]
  · simp [continuesWord, punctuation?]
  · simp [continuesWord, sigil, quote, none, not_blank_of_clean clean, a, b, d]

theorem splitWord_of_clean {text : List Char}
    (clean : ∀ c ∈ text, Text.isCleanSign c = true) :
    (splitWord text).1 = Text.headWord text := by
  induction text with
  | nil => rfl
  | cons c text induction =>
      rw [List.forall_mem_cons] at clean
      rw [splitWord, continuesWord_of_clean clean.1, Text.headWord,
        List.takeWhile_cons, ← Text.headWord, ← induction clean.2]
      split <;> rfl

inductive CleanLexeme (text : List Char) : Lexeme → Prop where
  | bracket {rest : List Char} :
      text = '[' :: rest →
      CleanLexeme text (plain .openBracket ['['] rest)
  | closing {rest : List Char} :
      text = ']' :: rest →
      CleanLexeme text (plain .closeBracket [']'] rest)
  | equals {rest : List Char} :
      text = '=' :: rest →
      CleanLexeme text (plain .equals ['='] rest)
  | modifier {raw rest : List Char} :
      (Modifier.ofPath? text).isSome →
      CleanLexeme text (plain .modifier raw rest)
  | number {raw rest : List Char} : CleanLexeme text (plain .number raw rest)
  | word {rest : List Char} :
      CleanLexeme text
        (plain (wordKind (Text.headWord text)) (Text.headWord text) rest)

theorem read?_of_clean {c : Char} {rest : List Char}
    (clean : ∀ d ∈ c :: rest, Text.isCleanSign d = true) :
    ∃ lexeme, read? c rest = some lexeme ∧ CleanLexeme (c :: rest) lexeme := by
  obtain ⟨first, others⟩ := List.forall_mem_cons.1 clean
  have quote : isQuote c = false := by
    simp [isQuote,
      ne_of_clean first (show Text.isCleanSign '"' = false by decide),
      ne_of_clean first (show Text.isCleanSign '\'' = false by decide)]
  have sigil : c ≠ '%' := ne_of_clean first (by decide)
  rcases punctuation?_of_clean first with
    ⟨rfl, sign⟩ | ⟨rfl, sign⟩ | ⟨rfl, sign⟩ | ⟨a, b, d, sign⟩
  · exact ⟨_, by rw [read?, sign], .bracket rfl⟩
  · exact ⟨_, by rw [read?, sign], .closing rfl⟩
  · exact ⟨_, by rw [read?, sign], .equals rfl⟩
  · simp only [read?, sign, quote, sigil]
    cases found : modifier? c rest with
    | some lexeme =>
        refine ⟨lexeme, by simp, ?_⟩
        rcases modifier?_cases found with
          ⟨rfl, _, rfl, rfl⟩ | ⟨rfl, _, rfl⟩ | ⟨rfl, _, rfl, rfl⟩ <;>
          exact .modifier (by simp [Modifier.ofPath?])
    | none =>
        by_cases digit : Text.isDigit c = true
        · exact ⟨number c rest, by simp [digit], .number⟩
        · refine ⟨word c rest, by simp [digit], ?_⟩
          have whole : c :: (splitWord rest).1 = Text.headWord (c :: rest) := by
            rw [splitWord_of_clean others, Text.headWord, Text.headWord,
              List.takeWhile_cons]
            simp [a, b, d]
          rw [word]
          simp only [whole]
          exact .word

theorem CleanLexeme.kind {text : List Char} {lexeme : Lexeme}
    (clean : CleanLexeme text lexeme) :
    lexeme.kind.isGlue = true ∧ lexeme.kind ≠ .environment ∧
      lexeme.kind ≠ .variable ∧
      lexeme.kind ≠ .openBrace ∧ lexeme.kind ≠ .openParen ∧
        lexeme.kind ≠ .closeParen := by
  cases clean with
  | word =>
      rcases wordKind_cases (Text.headWord text) with
        ⟨_, kind⟩ | ⟨_, kind⟩ | kind <;>
        simp [plain, kind, TokenKind.isGlue, TokenKind.isWord]
  | _ => simp [plain, TokenKind.isGlue, TokenKind.isWord]

theorem CleanLexeme.isArgument {text : List Char} {lexeme : Lexeme}
    (clean : CleanLexeme text lexeme)
    (begins : text.head? ≠ some ']') :
    isArgument lexeme.kind = true := by
  cases clean with
  | closing first => simp [first] at begins
  | word =>
      rcases wordKind_cases (Text.headWord text) with
        ⟨_, kind⟩ | ⟨_, kind⟩ | kind <;> simp [plain, kind, Grammar.isArgument,
        TokenKind.isName, TokenKind.isWord]
  | _ => simp [plain, Grammar.isArgument, TokenKind.isName, TokenKind.isWord]

theorem CleanLexeme.isName {text : List Char} {lexeme : Lexeme}
    (clean : CleanLexeme text lexeme)
    (begins : text.head? ≠ some ']')
    (unequal : text.head? ≠ some '=') :
    lexeme.kind.isName = true := by
  have other : lexeme.kind ≠ .equals := by
    intro isEquals
    cases clean with
    | equals first => simp [first] at unequal
    | word =>
        rcases wordKind_cases (Text.headWord text) with
          ⟨_, kind⟩ | ⟨_, kind⟩ | kind <;> simp [plain, kind] at isEquals
    | _ => simp [plain] at isEquals
  simpa [Grammar.isArgument, other] using clean.isArgument begins

theorem CleanLexeme.headWord {text : List Char} {lexeme : Lexeme}
    (clean : CleanLexeme text lexeme) :
    (lexeme.kind = .location → Text.headWord text = locationWord) ∧
      (lexeme.kind = .inWord → Text.headWord text = ['i', 'n']) ∧
      (lexeme.kind = .identifier → lexeme.value = Text.headWord text) ∧
      (lexeme.kind = .modifier → (Modifier.ofPath? text).isSome) := by
  cases clean with
  | modifier signed => simp [plain, signed]
  | word =>
      rcases wordKind_cases (Text.headWord text) with
        ⟨word, kind⟩ | ⟨word, kind⟩ | kind <;> simp_all [plain, locationWord]
  | _ => simp [plain]

theorem exists_spelling_of_clean {text : List Char}
    (clean : ∀ c ∈ text, Text.isCleanSign c = true) :
    ∃ lexemes, Spelling text lexemes ∧
      (∀ lexeme ∈ lexemes, ∃ part, CleanLexeme part lexeme) ∧
      ∀ lexeme ∈ lexemes.head?, CleanLexeme text lexeme := by
  induction size :
    text.length using Nat.strong_induction_on generalizing text with
  | _ size induction =>
      cases text with
      | nil => exact ⟨[], .nil, by simp, by simp⟩
      | cons c rest =>
          obtain ⟨lexeme, read, cleanLexeme⟩ := read?_of_clean clean
          have whole := read?_append read
          have shorter := read?_rest_length_lt read
          have remaining : ∀ d ∈ lexeme.rest, Text.isCleanSign d = true := by
            intro d member
            apply clean
            rw [← whole]
            exact List.mem_append_right _ member
          obtain ⟨lexemes, spelling, parts, _⟩ :=
            induction _ (by omega) remaining rfl
          obtain ⟨kind, value, raw, after⟩ := lexeme
          obtain ⟨d, taken, rfl⟩ :=
            List.exists_cons_of_ne_nil (read?_raw_ne_nil read)
          obtain ⟨rfl, rfl⟩ := List.cons.inj whole
          have first := List.forall_mem_cons.1 clean |>.1
          refine ⟨_ :: lexemes, .cons (not_blank_of_clean first)
            (ne_of_clean first (by decide)) read spelling, ?_, ?_⟩
          · exact List.forall_mem_cons.2 ⟨⟨_, cleanLexeme⟩, parts⟩
          · intro lexeme member
            cases member
            exact cleanLexeme

end Lexeme

namespace Argument

theorem closeQuote_escape (value rest : List Char) :
    closeQuote '"' (escape value ++ '"' :: rest) =
      some (value, escape value ++ ['"'], rest) := by
  induction value with
  | nil => rfl
  | cons c value induction =>
      by_cases sign : c = '\\' ∨ c = '"'
      · have escaped : escape (c :: value) = '\\' :: c :: escape value := by
          simp [escape, sign]
        rw [escaped, List.cons_append, List.cons_append, closeQuote, induction]
        rfl
      · have plain : escape (c :: value) = c :: escape value := by
          simp [escape, sign]
        rw [not_or] at sign
        rw [plain, List.cons_append, closeQuote_cons sign.1, if_neg sign.2,
          induction]
        rfl

theorem spelling_escape (value : List Char) :
    Spelling ('"' :: escape value ++ ['"'])
      [⟨.string, value, '"' :: escape value ++ ['"'], []⟩] := by
  refine .single (by decide) (by decide) ?_
  have closed := closeQuote_escape value []
  simp [read?, punctuation?, isQuote, quoted?, closed]

theorem newline_not_mem_escape {value : List Char} (oneLine : '\n' ∉ value) :
    '\n' ∉ escape value := by
  simp only [escape, List.mem_flatMap, not_exists, not_and]
  intro c member feed
  split at feed
  · rename_i sign
    simp only [Bool.or_eq_true, decide_eq_true_eq] at sign
    rcases sign with rfl | rfl <;> exact absurd feed (by decide)
  · rw [List.mem_singleton] at feed
    subst feed
    exact oneLine member

end Argument

end ServerConf
