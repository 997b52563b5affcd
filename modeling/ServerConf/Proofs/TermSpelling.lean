import ServerConf.Proofs.Spelling
import ServerConf.Proofs.Grammar
import Mathlib.Data.List.Forall2

/-!
Terms from their spelling. Lexemes that follow each other without a gap make one
word, a space between two spellings keeps their terms apart.
-/

namespace ServerConf

theorem Position.advanceBy_of_oneLine {text : List Char}
    (oneLine : '\n' ∉ text)
    (p : Position) :
    p.advanceBy text = ⟨p.line, p.column + text.length⟩ := by
  induction text generalizing p with
  | nil => simp
  | cons c text induction =>
      simp only [List.mem_cons, not_or] at oneLine
      rw [advanceBy_cons, induction oneLine.2]
      simp [advance, Ne.symm oneLine.1]
      omega

theorem Position.line_le_advanceBy (p : Position) (text : List Char) :
    p.line ≤ (p.advanceBy text).line := by
  induction text generalizing p with
  | nil => simp
  | cons c text induction =>
      refine Int.le_trans ?_ (induction (p.advance c))
      simp only [advance]
      split <;> simp

theorem Position.line_lt_advanceBy {text : List Char}
    (feed : '\n' ∈ text)
    (p : Position) :
    p.line < (p.advanceBy text).line := by
  induction text generalizing p with
  | nil => simp at feed
  | cons c text induction =>
      rw [advanceBy_cons]
      by_cases here : c = '\n'
      · have later := (p.advance c).line_le_advanceBy text
        simp only [advance, here, if_true] at later ⊢
        omega
      · have inside : '\n' ∈ text := by simpa [Ne.symm here] using feed
        simpa [advance, here] using induction inside (p.advance c)

namespace Lexeme

theorem splitWord_not_stop {cs : List Char} :
    ∀ d ∈ (splitWord cs).1, isStop d = false := by
  induction cs with
  | nil => simp [splitWord]
  | cons c rest induction =>
      simp only [splitWord]
      split
      · rename_i continues
        simp only [List.mem_cons, forall_eq_or_imp]
        refine ⟨?_, induction⟩
        by_contra stop
        rw [continuesWord_of_isStop (by simpa using stop)] at continues
        cases continues
      · simp

theorem not_stop_of_extends {c : Char} (further : Extends c) :
    isStop c = false := by
  by_contra stop
  exact not_extends_of_isStop (by simpa using stop) further

theorem read?_not_stop {c : Char} {rest : List Char} {lexeme : Lexeme}
    (read : read? c rest = some lexeme)
    (unquoted : lexeme.kind ≠ .string) :
    ∃ taken, lexeme.raw = c :: taken ∧ ∀ d ∈ taken, isStop d = false := by
  cases reading_of_read? read with
  | string => exact absurd rfl unquoted
  | sign => exact ⟨[], rfl, by simp⟩
  | name =>
      refine ⟨_, rfl, fun d member => ?_⟩
      exact not_stop_of_extends (.inl (List.mem_takeWhile_imp member))
  | modifier found =>
      rcases modifier?_cases found with
        ⟨rfl, _, _, rfl⟩ | ⟨rfl, _, rfl⟩ | ⟨rfl, _, _, rfl⟩
      · exact ⟨['*'], rfl, List.forall_mem_singleton.2 (by decide)⟩
      · exact ⟨[], rfl, by simp⟩
      · exact ⟨['~'], rfl, List.forall_mem_singleton.2 (by decide)⟩
  | number =>
      refine ⟨_, rfl, fun d member => ?_⟩
      exact not_stop_of_extends (.inr (.inl (List.mem_takeWhile_imp member)))
  | word => exact ⟨_, rfl, splitWord_not_stop⟩

theorem not_blank_of_not_stop {c : Char} (further : isStop c = false) :
    Text.isBlank c = false := by
  simp only [isStop, Bool.or_eq_false_iff] at further
  exact further.1.1

theorem not_quote_of_not_stop {c : Char} (further : isStop c = false) :
    isQuote c = false := by
  simp only [isStop, Bool.or_eq_false_iff] at further
  exact further.2

theorem read?_not_blank {c : Char} {rest : List Char} {lexeme : Lexeme}
    (read : read? c rest = some lexeme)
    (shown : Text.isBlank c = false)
    (unquoted : lexeme.kind ≠ .string) :
    ∀ d ∈ lexeme.raw, Text.isBlank d = false := by
  obtain ⟨taken, raw, further⟩ := read?_not_stop read unquoted
  rw [raw, List.forall_mem_cons]
  exact ⟨shown, fun d member => not_blank_of_not_stop (further d member)⟩

theorem Spelling.of_mem {text : List Char} {lexemes : List Lexeme}
    (spelling : Spelling text lexemes)
    {lexeme : Lexeme}
    (member : lexeme ∈ lexemes) :
    ∃ c rest, Text.isBlank c = false ∧ read? c rest = some lexeme := by
  induction spelling with
  | nil => simp at member
  | cons shown sign read _ induction =>
      rcases List.mem_cons.1 member with rfl | later
      · exact ⟨_, _, shown, read⟩
      · exact induction later

theorem Spelling.flatMap_raw {text : List Char} {lexemes : List Lexeme}
    (spelling : Spelling text lexemes) :
    lexemes.flatMap raw = text := by
  induction spelling with
  | nil => rfl
  | cons _ _ _ _ induction => simp [induction]

theorem Spelling.single {c : Char} {taken value : List Char} {kind : TokenKind}
    (shown : Text.isBlank c = false)
    (sign : c ≠ '#')
    (read : read? c taken = some ⟨kind, value, c :: taken, []⟩) :
    Spelling (c :: taken) [⟨kind, value, c :: taken, []⟩] := by
  have whole := Spelling.cons shown sign (by rwa [List.append_nil]) .nil
  rwa [List.append_nil] at whole

theorem Spelling.text_ne_nil {text : List Char} {lexemes : List Lexeme}
    (spelling : Spelling text lexemes)
    (some : lexemes ≠ []) :
    text ≠ [] := by
  cases spelling with
  | nil => exact absurd rfl some
  | cons => simp

inductive IsTerm : List Lexeme → Prop where
  | string {lexeme : Lexeme} : lexeme.kind = .string → IsTerm [lexeme]
  | word {lexemes : List Lexeme} :
      lexemes ≠ [] → (∀ lexeme ∈ lexemes, lexeme.kind.isGlue = true ∧
        lexeme.kind ≠ .environment) →
      IsTerm lexemes

theorem IsTerm.ne_nil {lexemes : List Lexeme} (isTerm : IsTerm lexemes) :
    lexemes ≠ [] := by
  cases isTerm with
  | string => simp
  | word some _ => exact some

end Lexeme

namespace Grammar

open Lexeme

structure Term.PlacedAt (term : Term) (p : Position) (lexemes : List Lexeme) :
    Prop where
  tokens : term.tokens = placed p lexemes
  text :
    ∀ env, term.text? env = some (String.ofList (lexemes.flatMap Lexeme.value))
  name :
    ∀ env, term.name? env = some (String.ofList (lexemes.flatMap Lexeme.raw))
  apart : ∀ next : Token,
    next.position = (p.advanceBy (lexemes.flatMap Lexeme.raw)).advance ' ' →
      term.Apart next

def EndsAt (t : Token) (p : Position) : Prop :=
  t.position.line = p.line ∧ t.endColumn = p.column

theorem endsAt_toToken {lexeme : Lexeme}
    (oneLine : '\n' ∉ lexeme.raw)
    (p : Position) :
    EndsAt (lexeme.toToken p) (p.advanceBy lexeme.raw) := by
  rw [p.advanceBy_of_oneLine oneLine]
  simp [EndsAt, toToken, Token.endColumn]

theorem EndsAt.touches_iff {t next : Token} {p : Position} (ends : EndsAt t p)
    (inside : next.kind ≠ .endOfInput) :
    t.touches next = true ↔ next.position = p := by
  have inside : (next.kind != .endOfInput) = true := by simpa using inside
  simp only [Token.touches, inside, Bool.true_and, Bool.and_eq_true, beq_iff_eq,
    ends.1, ends.2]
  constructor
  · rintro ⟨line, column⟩
    generalize next.position = q at line column
    cases q
    cases p
    cases line
    cases column
    rfl
  · rintro rfl
    exact ⟨rfl, rfl⟩

theorem exists_word {text : List Char} {lexemes : List Lexeme}
    (spelling : Spelling text lexemes)
    (some : lexemes ≠ [])
    (glue : ∀ lexeme ∈ lexemes, lexeme.kind.isGlue = true ∧
      lexeme.kind ≠ .environment)
    (p : Position) :
    ∃ w : Word, w.tokens = placed p lexemes ∧
      (∀ env,
        w.text? env = .some (String.ofList (lexemes.flatMap Lexeme.value))) ∧
      EndsAt w.last (p.advanceBy text) := by
  induction spelling generalizing p with
  | nil => exact absurd rfl some
  | @cons c taken rest value kind lexemes shown sign read spelling induction =>
      obtain ⟨⟨isGlue, other⟩, others⟩ := List.forall_mem_cons.1 glue
      have unquoted : kind ≠ .string := by
        rintro rfl
        simp [TokenKind.isGlue, TokenKind.isWord] at isGlue
      have oneLine : '\n' ∉ c :: taken := by
        intro feed
        exact absurd (read?_not_blank read shown unquoted _ feed) (by decide)
      obtain ⟨part, first, single, value, last⟩ : ∃ part : Part,
          part.first = toToken ⟨kind, value, c :: taken, rest⟩ p ∧
          part.tokens = [toToken ⟨kind, value, c :: taken, rest⟩ p] ∧
          (∀ env, part.text? env = .some (String.ofList value)) ∧
          EndsAt part.last (p.advanceBy (c :: taken)) :=
        ⟨.plain (toToken ⟨kind, value, c :: taken, rest⟩ p) other, rfl, rfl,
          fun _ => rfl,
          endsAt_toToken oneLine p⟩
      cases lexemes with
      | nil =>
          cases spelling
          refine ⟨.single part, by simp [single], ?_, by simpa using last⟩
          intro env
          simp [value]
      | cons second lexemes =>
          obtain ⟨w, tokens, text, ends⟩ :=
            induction (by simp) others (p.advanceBy (c :: taken))
          have begins :
              w.first.first = second.toToken (p.advanceBy (c :: taken)) := by
            rw [Word.tokens_eq_cons] at tokens
            exact (List.cons.inj tokens).1
          obtain ⟨secondGlue, _⟩ := others second (by simp)
          have glued : part.Glued w.first := by
            refine ⟨by simpa [begins, toToken] using secondGlue, ?_⟩
            rw [last.touches_iff, begins]
            · rfl
            · intro ended
              simp only [begins, toToken] at ended
              simp [ended, TokenKind.isGlue, TokenKind.isWord] at secondGlue
          refine ⟨.cons part w glued, ?_, ?_, ?_⟩
          · simp [single, tokens]
          · intro env
            simp [Word.text?_cons, value, text]
          · rw [Word.last_cons, Position.advanceBy_append]
            exact ends

theorem exists_term {text : List Char} {lexemes : List Lexeme}
    (spelling : Spelling text lexemes)
    (isTerm : IsTerm lexemes)
    (p : Position) :
    ∃ term : Term, term.PlacedAt p lexemes := by
  cases isTerm with
  | @string lexeme string =>
      refine ⟨.quoted ⟨lexeme.toToken p, string⟩, ?_, ?_, ?_, ?_⟩
      · simp [Term.tokens]
      · simp [Term.text?, toToken]
      · simp [Term.name?, toToken]
      · simp [Term.Apart]
  | word some glue =>
      obtain ⟨w, tokens, value, ends⟩ := exists_word spelling some glue p
      have unquoted : ∀ lexeme ∈ lexemes, lexeme.kind ≠ .string := by
        intro lexeme member string
        simpa [string, TokenKind.isGlue,
          TokenKind.isWord] using (glue lexeme member).1
      have same :
          lexemes.flatMap Lexeme.value = lexemes.flatMap Lexeme.raw := by
        refine List.flatMap_congr fun lexeme member => ?_
        obtain ⟨c, rest, _, read⟩ := spelling.of_mem member
        rcases read?_cases read with ⟨_, _, plain⟩ | ⟨_, string, _⟩
        · exact plain
        · exact absurd string (unquoted lexeme member)
      have first : w.first.first.kind ≠ .string := by
        obtain ⟨lexeme, others, rfl⟩ := List.exists_cons_of_ne_nil some
        rw [Word.tokens_eq_cons] at tokens
        rw [(List.cons.inj tokens).1]
        exact unquoted lexeme (by simp)
      refine ⟨.word w first, tokens, value, ?_, ?_⟩
      · intro env
        rw [← same]
        exact value env
      · rintro next place ⟨isGlue, touching⟩
        have inside : next.kind ≠ .endOfInput := by
          intro ended
          simp [ended, TokenKind.isGlue, TokenKind.isWord] at isGlue
        rw [ends.touches_iff inside, place, spelling.flatMap_raw] at touching
        have column := congrArg Position.column touching
        simp [Position.advance] at column

def spaced (texts : List (List Char)) : List Char :=
  texts.flatMap (' ' :: ·)

theorem spaced_cons (text : List Char) (texts : List (List Char)) :
    spaced (text :: texts) = [' '] ++ text ++ spaced texts := rfl

theorem stops_spaced (texts : List (List Char)) : Stops (spaced texts) := by
  cases texts with
  | nil => intro c member; cases member
  | cons text texts => exact .blank (by decide) _

def spacedTokens : Position → List (List Lexeme) → List Token
  | _, [] => []
  | p, lexemes :: others =>
    placed (p.advance ' ') lexemes ++
      spacedTokens
        ((p.advance ' ').advanceBy (lexemes.flatMap Lexeme.raw)) others

theorem reads_spaced {texts : List (List Char)} {lexemes : List (List Lexeme)}
    (spelled : List.Forall₂ Spelling texts lexemes) (p : Position) :
    ReadsBefore p (spaced texts) (spacedTokens p lexemes) := by
  induction spelled generalizing p with
  | nil => exact fun context _ => Reads.nil context
  | @cons text lexemes texts others spelling _ induction =>
      have behind := induction ((p.advance ' ').advanceBy text)
      rw [spaced_cons, List.append_assoc, spacedTokens, spelling.flatMap_raw]
      have space : Reads p [' '] [] := .gap (.blank (by decide) .nil)
      exact space.append_before
        ((spelling.reads _).append_before (stops_spaced texts) behind)

theorem map_kind_placed (p : Position) (lexemes : List Lexeme) :
    (placed p lexemes).map Token.kind = lexemes.map Lexeme.kind := by
  induction lexemes generalizing p with
  | nil => rfl
  | cons lexeme lexemes induction => simp [toToken, induction]

theorem map_kind_spacedTokens (p : Position) (lexemes : List (List Lexeme)) :
    (spacedTokens p lexemes).map Token.kind =
      lexemes.flatten.map Lexeme.kind := by
  induction lexemes generalizing p with
  | nil => rfl
  | cons first others induction =>
      simp [spacedTokens, map_kind_placed, induction]

inductive Term.AllAt : Position → List Term → List (List Lexeme) → Prop where
  | nil {p : Position} : AllAt p [] []
  | cons {p : Position} {term : Term} {terms : List Term}
      {lexemes : List Lexeme} {others : List (List Lexeme)} :
      term.PlacedAt (p.advance ' ') lexemes →
      AllAt ((p.advance ' ').advanceBy (lexemes.flatMap Lexeme.raw))
        terms others →
      AllAt p (term :: terms) (lexemes :: others)

namespace Term

variable {p : Position} {term : Term} {terms : List Term}
  {lexemes : List Lexeme} {others : List (List Lexeme)}

theorem PlacedAt.first (placed : term.PlacedAt p lexemes) :
    ∃ lexeme tail, lexemes = lexeme :: tail ∧
      term.first = lexeme.toToken p := by
  have tokens := placed.tokens
  rw [tokens_eq_cons] at tokens
  cases lexemes with
  | nil => cases tokens
  | cons lexeme tail => exact ⟨lexeme, tail, rfl, (List.cons.inj tokens).1⟩

theorem PlacedAt.first_position (placed : term.PlacedAt p lexemes) :
    term.first.position = p := by
  obtain ⟨lexeme, tail, _, first⟩ := placed.first
  rw [first]
  rfl

theorem AllAt.tokens (placed : AllAt p terms others) :
    tokensOf terms = spacedTokens p others := by
  induction placed with
  | nil => rfl
  | cons first _ induction => simp [spacedTokens, first.tokens, induction]

theorem AllAt.texts (placed : AllAt p terms others) (env : Environment) :
    textsOf? env terms =
      some (others.map fun lexemes =>
        String.ofList (lexemes.flatMap value)) := by
  induction placed with
  | nil => rfl
  | cons first _ induction => simp [first.text env, induction]

theorem AllAt.isChain (placed : AllAt p terms others) :
    List.IsChain (fun term next => term.Apart next.first) terms := by
  induction placed with
  | nil => exact .nil
  | cons first others induction =>
      cases others with
      | nil => exact .singleton _
      | cons second _ =>
          exact .cons_cons (first.apart _ second.first_position) induction

theorem AllAt.apart (first : term.PlacedAt p lexemes)
    (placed : AllAt (p.advanceBy (lexemes.flatMap raw)) terms others) :
    List.IsChain (fun term next => term.Apart next.first) (term :: terms) := by
  cases placed with
  | nil => exact .singleton _
  | cons second others =>
      exact .cons_cons (first.apart _ second.first_position)
        (AllAt.isChain (.cons second others))

theorem AllAt.of_mem
    (placed : AllAt p terms others)
    (member : term ∈ terms) :
    ∃ before lexeme tail after, others = before ++ (lexeme :: tail) :: after ∧
      term.first = lexeme.toToken
        ((p.advanceBy (spaced (before.map (List.flatMap raw)))).advance
          ' ') := by
  induction placed with
  | nil => simp at member
  | @cons p first terms lexemes others begins _ induction =>
      rcases List.mem_cons.1 member with rfl | later
      · obtain ⟨lexeme, tail, rfl, first⟩ := begins.first
        exact ⟨[], lexeme, tail, others, rfl, first⟩
      · obtain ⟨before, lexeme, tail, after, rfl, first⟩ := induction later
        refine ⟨lexemes :: before, lexeme, tail, after, rfl, ?_⟩
        rw [first, List.map_cons, spaced_cons, List.append_assoc,
          Position.advanceBy_append, Position.advanceBy_append]
        rfl

end Term

theorem exists_of_forall₂
    {α β : Type} {R : α → β → Prop} {as : List α} {bs : List β}
    (related : List.Forall₂ R as bs)
    {b : β}
    (member : b ∈ bs) :
    ∃ a ∈ as, R a b := by
  induction related with
  | nil => simp at member
  | cons first _ induction =>
      rcases List.mem_cons.1 member with rfl | later
      · exact ⟨_, by simp, first⟩
      · obtain ⟨a, among, behind⟩ := induction later
        exact ⟨a, List.mem_cons_of_mem _ among, behind⟩

def SpellTerms (texts : List (List Char)) (lexemes : List (List Lexeme)) :
    Prop :=
  List.Forall₂ (fun text lexemes => Spelling text lexemes ∧
    IsTerm lexemes) texts lexemes

theorem exists_terms {texts : List (List Char)} {lexemes : List (List Lexeme)}
    (spelled : SpellTerms texts lexemes) (p : Position) :
    ∃ terms : List Term, Term.AllAt p terms lexemes := by
  induction spelled generalizing p with
  | nil => exact ⟨[], .nil⟩
  | @cons text lexemes texts others first _ induction =>
      obtain ⟨spelling, isTerm⟩ := first
      obtain ⟨term, placed⟩ := exists_term spelling isTerm (p.advance ' ')
      obtain ⟨terms, allAt⟩ :=
        induction ((p.advance ' ').advanceBy (lexemes.flatMap Lexeme.raw))
      exact ⟨term :: terms, .cons placed allAt⟩

structure SpellsName (name : List Char) (lexemes : List Lexeme) : Prop where
  spelling : Spelling name lexemes
  isTerm : IsTerm lexemes
  kinds : ∀ lexeme ∈ lexemes.head?, lexeme.kind.isName = true ∧
    lexeme.kind ≠ .location ∧
    ¬ (lexeme.kind = .identifier ∧ lexeme.value = ['i', 'f'])

theorem SpellsName.ne_if {name : String} {lexemes : List Lexeme}
    (spells : SpellsName name.toList lexemes) : name ≠ "if" := by
  rintro rfl
  obtain ⟨spelling, isTerm, kinds⟩ := spells
  generalize whole : "if".toList = text at spelling
  cases spelling with
  | nil => cases whole
  | @cons c taken rest value kind lexemes shown sign read spelling =>
      obtain ⟨rfl, behind⟩ : c = 'i' ∧ taken ++ rest = ['f'] := by
        simpa using whole.symm
      rw [behind] at read
      obtain ⟨rfl, rfl, _⟩ : TokenKind.identifier = kind ∧
          ['i', 'f'] = value ∧ _ := by
        simpa using (show read? 'i' ['f'] =
          some ⟨.identifier, ['i', 'f'], ['i', 'f'], []⟩ by
          decide).symm.trans read
      exact (kinds _ rfl).2.2 ⟨rfl, rfl⟩

structure SpellsHeader
    (name : List Char) (args : List (List Char)) (nameLexemes : List Lexeme)
    (argLexemes : List (List Lexeme)) :
    Prop where
  named : SpellsName name nameLexemes
  spelled : SpellTerms args argLexemes
  argKinds :
    ∀ arg ∈ argLexemes, ∀ lexeme ∈ arg.head?, isArgument lexeme.kind = true
  notTemplate : ∀ lexeme ∈ nameLexemes.head?, lexeme.kind = .variable →
    ∀ second ∈ (nameLexemes ++ argLexemes.flatten)[1]?, second.kind ≠ .equals

theorem exists_header
    {name : List Char} {args : List (List Char)} {nameLexemes : List Lexeme}
    {argLexemes : List (List Lexeme)}
    (spells : SpellsHeader name args nameLexemes argLexemes)
    (p : Position) :
    ∃ header : Header, header.name.PlacedAt p nameLexemes ∧
      Term.AllAt (p.advanceBy name) header.args argLexemes ∧
      ReadsBefore p (name ++ spaced args) header.tokens := by
  obtain ⟨term, placed⟩ :=
    exists_term spells.named.spelling spells.named.isTerm p
  obtain ⟨terms, allAt⟩ := exists_terms spells.spelled (p.advanceBy name)
  obtain ⟨lexeme, tail, begins, first⟩ := placed.first
  have head : lexeme ∈ nameLexemes.head? := by simp [begins]
  obtain ⟨isName, notLocation, notIf⟩ := spells.named.kinds lexeme head
  have kinds : (term.tokens ++ Term.tokensOf terms).map Token.kind =
      (nameLexemes ++ argLexemes.flatten).map Lexeme.kind := by
    rw [List.map_append, List.map_append, placed.tokens, map_kind_placed,
      allAt.tokens, map_kind_spacedTokens]
  have header : ∃ header : Header, header.name = term ∧
      header.args = terms := by
    refine ⟨⟨term, terms, ?_, ?_, ?_, ?_, ?_, ?_⟩, rfl, rfl⟩
    · simpa [first, toToken] using isName
    · intro arg member
      obtain ⟨before, argLexeme, argTail, after, whole, begins⟩ :=
        allAt.of_mem member
      rw [begins]
      exact spells.argKinds (argLexeme :: argTail)
        (by simp [whole]) argLexeme rfl
    · have behind := allAt
      rw [← spells.named.spelling.flatMap_raw] at behind
      exact Term.AllAt.apart placed behind
    · simpa [first, toToken] using notLocation
    · intro isIf
      apply notIf
      rw [first] at isIf
      refine ⟨isIf.1, ?_⟩
      simpa [toToken] using congrArg String.toList isIf.2
    · intro isVariable next member
      rw [first] at isVariable
      have second := congrArg (·[1]?) kinds
      simp only [List.getElem?_map] at second
      rw [show (term.tokens ++ Term.tokensOf terms)[1]? =
        some next from member] at second
      obtain ⟨other, found, same⟩ := Option.map_eq_some_iff.1 second.symm
      rw [← same]
      exact spells.notTemplate lexeme head isVariable other found
  obtain ⟨header, rfl, rfl⟩ := header
  refine ⟨header, placed, allAt, ?_⟩
  rw [Header.tokens, placed.tokens, allAt.tokens]
  have behind :=
    reads_spaced (spells.spelled.imp fun _ _ => And.left) (p.advanceBy name)
  exact (spells.named.spelling.reads p).append_before (stops_spaced args) behind

end Grammar

end ServerConf
