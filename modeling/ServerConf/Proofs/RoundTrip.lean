import ServerConf.Proofs.CleanSpelling
import ServerConf.Proofs.RenderedText

/-!
Parsing undoes rendering, for documents whose names are clean and whose values
are clean or put in quotes.
-/

namespace ServerConf

open Lexeme Grammar

namespace Argument

/-- The value is clean, or it is put in quotes and fits on one line. -/
def Expressible (value : List Char) : Prop :=
  Text.Clean value ∨
    (isQuoted value = false ∧ needsQuotes value = true ∧ '\n' ∉ value)

instance (value : List Char) : Decidable (Expressible value) :=
  inferInstanceAs (Decidable (_ ∨ _))

theorem not_special_of_clean {c : Char} (clean : Text.isCleanSign c = true) :
    isSpecial c = false := by
  have blank := not_blank_of_clean clean
  by_contra special
  simp only [isSpecial, blank, Bool.false_or, Bool.not_eq_false,
    Bool.or_eq_true, beq_iff_eq] at special
  rcases special with
    ((((((rfl | rfl) | rfl) | rfl) | rfl) | rfl) | rfl) | rfl <;>
    exact absurd clean (by decide)

theorem quoteChars_of_clean {value : List Char} (clean : Text.Clean value) :
    quoteChars value = value := by
  obtain ⟨c, rest, rfl⟩ := List.exists_cons_of_ne_nil clean.some
  have first := clean.signs c (by simp)
  have unquoted : isQuoted (c :: rest) = false := by
    simp [isQuoted, isQuote,
      ne_of_clean first (show Text.isCleanSign '"' = false by decide),
      ne_of_clean first (show Text.isCleanSign '\'' = false by decide)]
  have plain : needsQuotes (c :: rest) = false := by
    have sign : c ≠ '#' := ne_of_clean first (by decide)
    have none : (c :: rest).any isSpecial = false := by
      rw [List.any_eq_false]
      intro d member
      simp [not_special_of_clean (clean.signs d member)]
    simp [needsQuotes, none, sign]
  simp [quoteChars, unquoted, plain]

structure ReadsBack (value : List Char) (lexemes : List Lexeme) : Prop where
  spelling : Spelling (quoteChars value) lexemes
  isTerm : IsTerm lexemes
  same : lexemes.flatMap Lexeme.value = value
  oneLine : '\n' ∉ quoteChars value
  begins : ∀ lexeme ∈ lexemes.head?,
    lexeme.kind = .string ∨ (Text.Clean value ∧ CleanLexeme value lexeme)

theorem readsBack_of_clean {value : List Char} (clean : Text.Clean value) :
    ∃ lexemes, ReadsBack value lexemes ∧
      ∀ lexeme ∈ lexemes, ∃ part, CleanLexeme part lexeme := by
  obtain ⟨lexemes, spelling, parts, begins⟩ :=
    exists_spelling_of_clean clean.signs
  have some : lexemes ≠ [] := by
    rintro rfl
    cases spelling
    exact clean.some rfl
  have same : lexemes.flatMap Lexeme.value = lexemes.flatMap Lexeme.raw := by
    refine List.flatMap_congr fun lexeme member => ?_
    obtain ⟨part, cleanLexeme⟩ := parts lexeme member
    cases cleanLexeme <;> rfl
  refine ⟨lexemes, ⟨?_, .word some ?_, ?_, ?_, ?_⟩, parts⟩
  · rw [quoteChars_of_clean clean]
    exact spelling
  · intro lexeme member
    obtain ⟨part, cleanLexeme⟩ := parts lexeme member
    exact ⟨cleanLexeme.kind.1, cleanLexeme.kind.2.1⟩
  · rw [same, spelling.flatMap_raw]
  · rw [quoteChars_of_clean clean]
    intro feed
    exact absurd (not_blank_of_clean (clean.signs _ feed)) (by decide)
  · exact fun lexeme member => .inr ⟨clean, begins lexeme member⟩

theorem Expressible.readsBack {value : List Char}
    (expressible : Expressible value) :
    ∃ lexemes, ReadsBack value lexemes := by
  rcases expressible with clean | ⟨unquoted, needs, oneLine⟩
  · obtain ⟨lexemes, readsBack, _⟩ := readsBack_of_clean clean
    exact ⟨lexemes, readsBack⟩
  · have quoted : quoteChars value = '"' :: escape value ++ ['"'] := by
      simp [quoteChars, unquoted, needs]
    refine ⟨[⟨.string, value, '"' :: escape value ++ ['"'], []⟩], ?_,
      .string rfl, by simp, ?_, ?_⟩
    · rw [quoted]
      exact spelling_escape value
    · simp [quoted, newline_not_mem_escape oneLine]
    · intro lexeme member
      cases member
      exact .inl rfl

end Argument

/-- A clean name that begins nothing but a directive or a block. -/
structure CleanName (name : List Char) : Prop where
  clean : Text.Clean name
  begins : name.head? ≠ some '='
  word : Text.headWord name ≠ ['i', 'f'] ∧ Text.headWord name ≠ locationWord

/-- A path that does not begin with a modifier, nor with the word that begins a
list of paths. -/
structure CleanPath (modifier : Modifier) (path : List Char) : Prop where
  expressible : Argument.Expressible path
  unsigned : ¬ ['='] <+: path ∧ ¬ ['~'] <+: path ∧ ¬ ['^', '~'] <+: path
  word : modifier = .none → Text.Clean path → Text.headWord path ≠ ['i', 'n']

instance (name : List Char) : Decidable (CleanName name) :=
  decidable_of_iff (Text.Clean name ∧ name.head? ≠ some '=' ∧
      Text.headWord name ≠ ['i', 'f'] ∧ Text.headWord name ≠ locationWord)
    ⟨fun ⟨clean, begins, word⟩ => ⟨clean, begins, word⟩,
      fun ⟨clean, begins, word⟩ => ⟨clean, begins, word⟩⟩

instance (modifier : Modifier) (path : List Char) :
    Decidable (CleanPath modifier path) :=
  decidable_of_iff (Argument.Expressible path ∧
      (¬ ['='] <+: path ∧ ¬ ['~'] <+: path ∧ ¬ ['^', '~'] <+: path) ∧
      (modifier = .none → Text.Clean path → Text.headWord path ≠ ['i', 'n']))
    ⟨fun ⟨expressible, unsigned, word⟩ => ⟨expressible, unsigned, word⟩,
      fun ⟨expressible, unsigned, word⟩ => ⟨expressible, unsigned, word⟩⟩

/-- Names are clean, values are clean or put in quotes, and conditions are
clean. -/
def Line.Clean : Line → Prop
  | .directive name args =>
    CleanName name.toList ∧ ∀ arg ∈ args, Argument.Expressible arg.toList
  | .block name args =>
    (name = "if" ∧ ∀ arg ∈ args, Text.Clean arg.toList) ∨
      (CleanName name.toList ∧ ∀ arg ∈ args, Argument.Expressible arg.toList ∧
        (Text.Clean arg.toList → ¬ locationWord <+: arg.toList))
  | .location modifier path => CleanPath modifier path.toList
  | .reference _ => False

instance : DecidablePred Line.Clean
  | .directive _ _ => inferInstanceAs (Decidable (_ ∧ _))
  | .block _ _ => inferInstanceAs (Decidable (_ ∨ _))
  | .location modifier path =>
      inferInstanceAs (Decidable (CleanPath modifier path.toList))
  | .reference _ => inferInstanceAs (Decidable False)

theorem CleanName.spellsName {name : List Char} (cleanName : CleanName name) :
    ∃ lexemes, SpellsName name lexemes ∧
      ∀ lexeme ∈ lexemes, ∃ part, CleanLexeme part lexeme := by
  obtain ⟨lexemes, readsBack, parts⟩ :=
    Argument.readsBack_of_clean cleanName.clean
  have spelling := readsBack.spelling
  rw [Argument.quoteChars_of_clean cleanName.clean] at spelling
  refine ⟨lexemes, ⟨spelling, readsBack.isTerm, ?_⟩, parts⟩
  intro lexeme member
  rcases readsBack.begins lexeme member with string | ⟨_, first⟩
  · obtain ⟨part, clean⟩ := parts lexeme (List.mem_of_mem_head? member)
    have glue := clean.kind.1
    simp [string, TokenKind.isGlue, TokenKind.isWord] at glue
  · obtain ⟨location, _, identifier, _⟩ := first.headWord
    refine ⟨first.isName cleanName.clean.begins cleanName.begins, ?_, ?_⟩
    · exact fun kind => cleanName.word.2 (location kind)
    · intro isIf
      exact cleanName.word.1 ((identifier isIf.1).symm.trans isIf.2)

theorem exists_readsBack {args : List String}
    (expressible : ∀ arg ∈ args, Argument.Expressible arg.toList) :
    ∃ lexemes,
      List.Forall₂ (fun arg lexemes => Argument.ReadsBack arg.toList lexemes)
      args lexemes := by
  induction args with
  | nil => exact ⟨[], .nil⟩
  | cons arg args induction =>
      rw [List.forall_mem_cons] at expressible
      obtain ⟨lexemes, first⟩ := expressible.1.readsBack
      obtain ⟨others, behind⟩ := induction expressible.2
      exact ⟨lexemes :: others, .cons first behind⟩

section Header

variable {name : String} {args : List String} {argLexemes : List (List Lexeme)}

theorem exists_legibleHeader
    (cleanName : CleanName name.toList)
    (readBack : List.Forall₂ (fun arg lexemes =>
      Argument.ReadsBack arg.toList lexemes) args argLexemes) :
    ∃ nameLexemes, LegibleHeader name args nameLexemes argLexemes := by
  obtain ⟨nameLexemes, named, parts⟩ := cleanName.spellsName
  refine ⟨nameLexemes, ⟨named, ?_, ?_, ?_⟩, ?_⟩
  · induction readBack with
    | nil => exact .nil
    | cons first _ induction =>
        exact .cons ⟨first.spelling, first.isTerm⟩ induction
  · intro arg member lexeme first
    obtain ⟨value, _, readsBack⟩ := exists_of_forall₂ readBack member
    rcases readsBack.begins lexeme first with string | ⟨clean, cleanLexeme⟩
    · simp [string, isArgument, TokenKind.isName]
    · exact cleanLexeme.isArgument clean.begins
  · intro lexeme member isVariable
    obtain ⟨part, clean⟩ := parts lexeme (List.mem_of_mem_head? member)
    exact absurd isVariable clean.kind.2.2.1
  · induction readBack with
    | nil => rfl
    | cons first _ induction => simp [first.same, induction]

theorem keepsLine
    (cleanName : CleanName name.toList)
    (readBack : List.Forall₂ (fun arg lexemes =>
      Argument.ReadsBack arg.toList lexemes) args argLexemes) :
    KeepsLine name.toList argLexemes := by
  intro before lexeme tail after whole _ feed
  rcases List.mem_append.1 feed with inName | inArgs
  · exact absurd (not_blank_of_clean (cleanName.clean.signs _ inName))
      (by decide)
  · simp only [spaced, List.mem_flatMap, List.mem_map, List.mem_cons] at inArgs
    obtain ⟨text, ⟨lexemes, member, rfl⟩, space | inside⟩ := inArgs
    · exact absurd space (by decide)
    · obtain ⟨value, _, readsBack⟩ := exists_of_forall₂ readBack
        (show lexemes ∈ argLexemes by simp [whole, member])
      apply readsBack.oneLine
      rwa [← readsBack.spelling.flatMap_raw]

end Header

theorem CleanPath.unsigned? {modifier : Modifier} {path : List Char}
    (cleanPath : CleanPath modifier path) : Modifier.ofPath? path = none := by
  obtain ⟨exact, regex, priority⟩ := cleanPath.unsigned
  unfold Modifier.ofPath?
  split <;> simp_all

theorem spellsRun_of_clean {value : List Char} (clean : Text.Clean value) :
    ∃ lexemes, SpellsRun value lexemes ∧
      ∀ lexeme ∈ lexemes, ∃ part, CleanLexeme part lexeme := by
  obtain ⟨lexemes, readsBack, parts⟩ := Argument.readsBack_of_clean clean
  have spelling := readsBack.spelling
  rw [Argument.quoteChars_of_clean clean] at spelling
  refine ⟨lexemes, ⟨spelling, readsBack.isTerm.ne_nil, ?_, ?_⟩, parts⟩
  · intro lexeme member
    obtain ⟨part, cleanLexeme⟩ := parts lexeme member
    exact ⟨cleanLexeme.kind.2.1, cleanLexeme.kind.2.2.2.1⟩
  · intro lexeme member feed
    have inside : '\n' ∈ value := by
      rw [← spelling.flatMap_raw, List.mem_flatMap]
      exact ⟨lexeme, List.dropLast_subset _ member, feed⟩
    exact absurd (not_blank_of_clean (clean.signs _ inside)) (by decide)

theorem exists_runs_of_clean {args : List String}
    (clean : ∀ arg ∈ args, Text.Clean arg.toList) :
    ∃ lexemes, List.Forall₂ SpellsRun (args.map String.toList) lexemes ∧
      ∀ lexeme ∈ lexemes.flatten, ∃ part, CleanLexeme part lexeme := by
  induction args with
  | nil => exact ⟨[], .nil, by simp⟩
  | cons arg args induction =>
      rw [List.forall_mem_cons] at clean
      obtain ⟨lexemes, run, parts⟩ := spellsRun_of_clean clean.1
      obtain ⟨others, runs, otherParts⟩ := induction clean.2
      refine ⟨lexemes :: others, .cons run runs, ?_⟩
      intro lexeme member
      rcases List.mem_append.1 member with here | later
      · exact parts lexeme here
      · exact otherParts lexeme later

theorem balanced_of_noParen {ts : List Token}
    (noParen : ∀ t ∈ ts, t.kind ≠ .openParen ∧ t.kind ≠ .closeParen) :
    Balanced 0 ts := by
  have none : ∀ us, us <+: ts → us.countP (·.kind = .closeParen) = 0 ∧
      us.countP (·.kind = .openParen) = 0 := by
    intro us part
    simp only [List.countP_eq_zero, decide_eq_true_eq]
    exact ⟨fun t member => (noParen t (part.subset member)).2,
      fun t member => (noParen t (part.subset member)).1⟩
  constructor
  · intro before part
    simp [none before part]
  · simp [none ts (List.prefix_refl ts)]

theorem Line.Clean.legible {line : Line} (clean : line.Clean) :
    line.Legible := by
  cases line with
  | directive name args =>
      obtain ⟨cleanName, expressible⟩ := clean
      obtain ⟨argLexemes, readBack⟩ := exists_readsBack expressible
      obtain ⟨nameLexemes, header⟩ := exists_legibleHeader cleanName readBack
      exact .directive header (keepsLine cleanName readBack)
  | block name args =>
      rcases clean with ⟨rfl, cleanArgs⟩ | ⟨cleanName, expressible⟩
      · obtain ⟨lexemes, runs, parts⟩ := exists_runs_of_clean cleanArgs
        refine .condition runs (balanced_of_noParen ?_)
        intro t member
        obtain ⟨lexeme, among, rfl⟩ := List.mem_map.1 member
        obtain ⟨part, cleanLexeme⟩ := parts lexeme among
        exact ⟨cleanLexeme.kind.2.2.2.2.1, cleanLexeme.kind.2.2.2.2.2⟩
      · obtain ⟨argLexemes, readBack⟩ :=
          exists_readsBack fun arg member => (expressible arg member).1
        obtain ⟨nameLexemes, header⟩ := exists_legibleHeader cleanName readBack
        refine .block header ?_
        intro arg member lexeme first isLocation
        obtain ⟨value, among, readsBack⟩ := exists_of_forall₂ readBack member
        rcases readsBack.begins lexeme first with
          string | ⟨cleanValue, cleanLexeme⟩
        · rw [string] at isLocation
          cases isLocation
        · apply (expressible value among).2 cleanValue
          rw [← cleanLexeme.headWord.1 isLocation]
          exact List.takeWhile_prefix _
  | location modifier path =>
      obtain ⟨lexemes, readsBack⟩ := clean.expressible.readsBack
      have unsigned := clean.unsigned?
      refine .location unsigned ⟨readsBack.spelling, readsBack.isTerm, ?_⟩
        (by simp [readsBack.same])
      intro lexeme first
      rcases readsBack.begins lexeme first with
        string | ⟨cleanPath, cleanLexeme⟩
      · simp [string, TokenKind.isName]
      · obtain ⟨_, inWord, _, signed⟩ := cleanLexeme.headWord
        refine ⟨cleanLexeme.isName cleanPath.begins ?_, ?_⟩
        · intro first
          obtain ⟨rest, whole⟩ := List.head?_eq_some_iff.1 first
          exact clean.unsigned.1 ⟨rest, whole.symm⟩
        · intro none
          refine ⟨fun kind => clean.word none cleanPath (inWord kind),
            fun kind => ?_⟩
          simpa [unsigned] using signed kind
  | reference name => exact clean.elim

theorem Line.Clean.kept {line : Line} (clean : line.Clean) (expands : Bool) :
    line.Kept expands := by
  cases line with
  | reference name => exact clean.elim
  | directive | block | location => trivial

/-- Parsing undoes rendering. -/
theorem Document.parse_render_clean {site : Site} {indent : String}
    (given : site.options.indent = .text indent)
    (blank : ∀ c ∈ indent.toList, Text.isBlank c = true)
    {origin : Option Path} {scope : Scope}
    (started : site.startScope origin = .ok scope)
    {document : Document}
    (clean : Throughout Line.Clean document.children) :
    ∃ text, (site.render document origin).result = .ok text ∧
      ∀ env filename, ∃ d, Document.parse env filename text = .ok d ∧
        d.filename = filename ∧
        unplacedAll d.children = unplacedAll document.children :=
  Site.render_legible ⟨indent, given,
    blank⟩ started (clean.mono fun _ => Line.Clean.legible)
    (clean.mono fun _ clean => clean.kept _)

theorem Document.parse_render_clean_server :
    ∃ text,
      (Site.render { options := { indent := .text "\t " }, store := ⟨⟨[]⟩, []⟩ }
        ⟨[.block "server" ["80s", "a b"]
          [.directive "try_files" ["$uri", "=404", "say \"hi\"", ""] ⟨0, 0⟩,
            .block "if" ["$host", "=", "a[0]~*b"]
              [.directive "return" ["location"] ⟨0, 0⟩] ⟨0, 0⟩,
            .location .regex ["\\.(png|gif)$"] [] ⟨0, 0⟩] ⟨0, 0⟩],
          "site.conf"⟩ none).result = .ok text ∧
      ∀ env filename, ∃ d, Document.parse env filename text = .ok d ∧
        d.filename = filename ∧
        unplacedAll d.children =
          [.block "server" ["80s", "a b"]
            [.directive "try_files" ["$uri", "=404", "say \"hi\"", ""] ⟨0, 0⟩,
              .block "if" ["$host", "=", "a[0]~*b"]
                [.directive "return" ["location"] ⟨0, 0⟩] ⟨0, 0⟩,
              .location .regex ["\\.(png|gif)$"] [] ⟨0, 0⟩] ⟨0, 0⟩] :=
  parse_render_clean rfl (List.all_eq_true.1 (by decide)) rfl
    (.block (by decide)
      (.directive (by decide)
        (.block (by decide) (.directive (by decide) .nil)
          (.location (by decide) .nil .nil)))
      .nil)

end ServerConf
