import Mathlib.Data.List.Infix
import ServerConf.Proofs.Containment
import ServerConf.Proofs.CursorRuns

/-!
Words without quotes. A word may be cut into many lexemes, at brackets, signs,
digits and variables. They follow each other without a gap, so the reader puts
the word together again.
-/

namespace ServerConf

open Lexeme Grammar

namespace Text

def isBareSign (c : Char) : Bool :=
  !isBlank c && !(['\x7b', '\x7d', ';', '"', '\'', '#'].contains c)

def joiners : List Char :=
  ['(', ')', ']', ',']

def keywords : List (List Char) :=
  [['e', 'n', 'v'], ['i', 'n', 'l', 'i', 'n', 'e'],
    ['i', 'm', 'p', 'o', 'r', 't']]

/-- A text of word characters, in which no keyword follows a `%`. -/
structure Bare (text : List Char) : Prop where
  signs : ∀ c ∈ text, isBareSign c = true
  names : ∀ before rest, text = before ++ '%' :: rest →
    rest.takeWhile isNameSign ∉ keywords

/-- A text that is read as one word. -/
structure Unquoted (text : List Char) : Prop extends Bare text where
  some : text ≠ []
  begins : ∀ c ∈ text.head?, c ∉ joiners

theorem bare_iff {text : List Char} :
    Bare text ↔ text.all isBareSign = true ∧
      ∀ part ∈ text.tails, part.head? = some '%' →
        part.tail.takeWhile isNameSign ∉ keywords := by
  constructor
  · intro bare
    refine ⟨List.all_eq_true.2 bare.signs, fun part among begins => ?_⟩
    obtain ⟨before, same⟩ := (List.mem_tails part text).1 among
    cases part with
    | nil => cases begins
    | cons c rest =>
        cases begins
        exact bare.names before rest same.symm
  · rintro ⟨signs, names⟩
    refine ⟨List.all_eq_true.1 signs, fun before rest same => ?_⟩
    exact names ('%' :: rest) ((List.mem_tails _ _).2 ⟨before, same.symm⟩) rfl

instance (text : List Char) : Decidable (Bare text) :=
  decidable_of_iff _ bare_iff.symm

theorem unquoted_iff {text : List Char} :
    Unquoted text ↔
      Bare text ∧ text ≠ [] ∧
        text.head?.all (fun c => !joiners.contains c) = true := by
  have begins : text.head?.all (fun c => !joiners.contains c) = true ↔
      ∀ c ∈ text.head?, c ∉ joiners := by
    simp [Option.all_eq_true]
  rw [begins]
  constructor
  · intro word
    exact ⟨word.toBare, word.some, word.begins⟩
  · rintro ⟨bare, some, begins⟩
    exact ⟨bare, some, begins⟩

instance (text : List Char) : Decidable (Unquoted text) :=
  decidable_of_iff _ unquoted_iff.symm

theorem Bare.suffix (before : List Char) {text : List Char}
    (bare : Bare (before ++ text)) :
    Bare text where
  signs c member := bare.signs c (List.mem_append_right _ member)
  names first rest same :=
    bare.names (before ++ first) rest (by rw [same, List.append_assoc])

end Text

namespace Lexeme

theorem not_blank_of_bare {c : Char} (bare : Text.isBareSign c = true) :
    Text.isBlank c = false := by
  simp only [Text.isBareSign, Bool.and_eq_true, Bool.not_eq_true'] at bare
  exact bare.1

theorem ne_of_bare {c d : Char} (bare : Text.isBareSign c = true)
    (other : Text.isBareSign d = false) : c ≠ d := by
  rintro rfl
  rw [bare] at other
  cases other

theorem not_quote_of_bare {c : Char} (bare : Text.isBareSign c = true) :
    isQuote c = false := by
  have double : c ≠ '"' := ne_of_bare bare (by decide)
  have single : c ≠ '\'' := ne_of_bare bare (by decide)
  simp [isQuote, double, single]

theorem nameKind_of_not_keyword {name : List Char}
    (other : name ∉ Text.keywords) :
    nameKind name = .variable := by
  simp only [Text.keywords, List.mem_cons, List.not_mem_nil, or_false,
    not_or] at other
  obtain ⟨env, inline, importSign⟩ := other
  rw [nameKind, if_neg inline, if_neg env, if_neg importSign]

/-- A lexeme of the kind goes on with a word, and can begin one if its first
character `c` may. -/
def IsPart (c : Char) (kind : TokenKind) : Prop :=
  kind.isGlue = true ∧ kind ≠ .environment ∧
    (c ∉ Text.joiners → isArgument kind = true)

theorem isPart_of_isWord (c : Char) (kind : TokenKind)
    (isWord : kind.isWord = true)
    (other : kind ≠ .environment) :
    IsPart c kind := by
  cases kind <;> simp_all [IsPart, isArgument, TokenKind.isGlue,
    TokenKind.isName, TokenKind.isWord]

theorem isPart_of_punctuation {c : Char} {kind : TokenKind}
    (bare : Text.isBareSign c = true)
    (sign : punctuation? c = some kind) :
    IsPart c kind := by
  unfold punctuation? at sign
  split at sign
  all_goals first
    | exact absurd bare (by decide)
    | cases sign
  all_goals
    simp [IsPart, Text.joiners, isArgument, TokenKind.isGlue, TokenKind.isName,
      TokenKind.isWord]

theorem isPart_wordKind (c : Char) (raw : List Char) :
    IsPart c (wordKind raw) := by
  rcases wordKind_cases raw with ⟨_, kind⟩ | ⟨_, kind⟩ | kind <;> rw [kind]
  all_goals exact isPart_of_isWord c _ rfl (by decide)

theorem read?_of_bare {c : Char} {rest : List Char}
    (bare : Text.Bare (c :: rest)) :
    ∃ lexeme, read? c rest = some lexeme ∧ IsPart c lexeme.kind := by
  have first := bare.signs c (List.mem_cons_self ..)
  have unquoted := not_quote_of_bare first
  cases read : read? c rest with
  | none =>
      rw [(read?_eq_none_iff.1 read).1] at unquoted
      cases unquoted
  | some lexeme =>
      refine ⟨lexeme, rfl, ?_⟩
      cases reading_of_read? read with
      | sign found => exact isPart_of_punctuation first found
      | string quote =>
          rw [quote] at unquoted
          cases unquoted
      | name sigil =>
          subst sigil
          have kind := nameKind_of_not_keyword (bare.names [] rest rfl)
          rw [plain, kind]
          exact isPart_of_isWord _ .variable rfl (by decide)
      | modifier found =>
          rcases modifier?_cases found with
            ⟨_, _, _, rfl⟩ | ⟨_, _, rfl⟩ | ⟨_, _, _, rfl⟩
          all_goals exact isPart_of_isWord c .modifier rfl (by decide)
      | number => exact isPart_of_isWord c .number rfl (by decide)
      | word => exact isPart_wordKind c _

theorem exists_spelling_of_bare {text : List Char} (bare : Text.Bare text) :
    ∃ lexemes, Spelling text lexemes ∧
      (∀ lexeme ∈ lexemes, ∃ c, IsPart c lexeme.kind) ∧
      ∀ lexeme ∈ lexemes.head?, ∃ c ∈ text.head?, IsPart c lexeme.kind := by
  induction size :
    text.length using Nat.strong_induction_on generalizing text with
  | _ size induction =>
      cases text with
      | nil => exact ⟨[], .nil, by simp, by simp⟩
      | cons c rest =>
          obtain ⟨lexeme, read, part⟩ := read?_of_bare bare
          have whole := read?_append read
          have shorter := read?_rest_length_lt read
          have first := bare.signs c (List.mem_cons_self ..)
          obtain ⟨kind, value, raw, after⟩ := lexeme
          obtain ⟨d, taken, rfl⟩ :=
            List.exists_cons_of_ne_nil (read?_raw_ne_nil read)
          obtain ⟨rfl, rfl⟩ := List.cons.inj whole
          obtain ⟨lexemes, spelling, parts, _⟩ :=
            induction _ (by omega) (Text.Bare.suffix (d :: taken) bare) rfl
          refine ⟨_ :: lexemes, .cons (not_blank_of_bare first)
            (ne_of_bare first (by decide)) read spelling, ?_, ?_⟩
          · exact List.forall_mem_cons.2 ⟨⟨d, part⟩, parts⟩
          · intro lexeme member
            cases member
            exact ⟨d, rfl, part⟩

end Lexeme

theorem Text.Unquoted.exists_term {text : List Char}
    (unquoted : Text.Unquoted text) :
    ∃ lexemes, Spelling text lexemes ∧ IsTerm lexemes ∧
      (∀ lexeme ∈ lexemes.head?, isArgument lexeme.kind = true) ∧
      lexemes.flatMap value = text := by
  obtain ⟨lexemes, spelling, parts, first⟩ :=
    exists_spelling_of_bare unquoted.toBare
  have filled : lexemes ≠ [] := by
    rintro rfl
    cases spelling
    exact unquoted.some rfl
  refine ⟨lexemes, spelling, .word filled fun lexeme member => ?_,
    fun lexeme head => ?_,
    flatMap_value_of_word spelling fun lexeme member string => ?_⟩
  · obtain ⟨_, glue, other, _⟩ := parts lexeme member
    exact ⟨glue, other⟩
  · obtain ⟨c, begins, _, _, argument⟩ := first lexeme head
    exact argument (unquoted.begins c begins)
  · obtain ⟨_, glue, _⟩ := parts lexeme member
    rw [string] at glue
    cases glue

theorem Text.Unquoted.oneLine {text : List Char}
    (unquoted : Text.Unquoted text) :
    '\n' ∉ text := by
  intro feed
  exact absurd (unquoted.signs _ feed) (by decide)

namespace Document

/-- A directive with one unquoted word is read as that, whatever lexemes the
word is cut into. -/
theorem parse_unquoted {name word : String}
    (plain : PlainName name)
    (unquoted : Text.Unquoted word.toList)
    (env : Environment) (filename : String) :
    parse env filename (name ++ " " ++ word ++ ";") =
      .ok ⟨[.directive name [word] .start], filename⟩ := by
  obtain ⟨nameLexemes, named, clean⟩ := plain.cleanName.spellsName
  obtain ⟨lexemes, spelling, isTerm, argument, value⟩ := unquoted.exists_term
  have spells :
      SpellsHeader name.toList [word.toList] nameLexemes [lexemes] := by
    refine ⟨named, .cons ⟨spelling, isTerm⟩ .nil,
      List.forall_mem_singleton.2 argument, ?_⟩
    intro lexeme first isVariable
    obtain ⟨part, clean⟩ := clean lexeme (List.mem_of_mem_head? first)
    exact absurd isVariable clean.kind.2.2.1
  have keeps : KeepsLine name.toList [lexemes] := by
    refine spells.spelled.keepsLine fun feed => ?_
    rcases List.mem_append.1 feed with inName | inWord
    · exact absurd (plain.isAlpha inName) (by decide)
    · simp [spaced, unquoted.oneLine] at inWord
  obtain ⟨l, reads, meaning⟩ := exists_directive spells keeps .start
  rw [List.map_singleton, value, String.ofList_toList,
    String.ofList_toList] at meaning
  refine parse_of_leaf ?_ (meaning env)
  simpa [spaced] using reads

/-- A word of thirteen lexemes, one of them a variable whose name only begins
like a keyword. -/
theorem parse_unquoted_pieces :
    Text.Unquoted "~*^/v2(a,b)[=%environment%\\]in".toList ∧
      parse .empty "f" "d ~*^/v2(a,b)[=%environment%\\]in;" =
        .ok ⟨[.directive "d" ["~*^/v2(a,b)[=%environment%\\]in"] ⟨1, 1⟩],
          "f"⟩ := by
  have unquoted : Text.Unquoted "~*^/v2(a,b)[=%environment%\\]in".toList := by
    decide +kernel
  have same : "d" ++ " " ++ "~*^/v2(a,b)[=%environment%\\]in" ++ ";" =
      "d ~*^/v2(a,b)[=%environment%\\]in;" := by
    decide +kernel
  refine ⟨unquoted, ?_⟩
  rw [← same]
  exact parse_unquoted plainName_d unquoted .empty "f"

end Document

end ServerConf
