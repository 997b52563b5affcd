import ServerConf.Proofs.LineSpelling

/-!
Sources and their spelling. Tokens that nothing separates in a source spell one
text, and they spell it wherever it stands.
-/

namespace ServerConf

open Lexeme

namespace Token

inductive Scanned : Position → List Char → List Token → Prop where
  | last {p : Position} {gap : List Char} :
      Scanned p gap [.atEnd (p.advanceBy gap)]
  | token {p : Position} {gap taken rest value : List Char} {c : Char}
      {kind : TokenKind} {ts : List Token} :
      Text.isBlank c = false → c ≠ '#' →
      read? c (taken ++ rest) = some ⟨kind, value, c :: taken, rest⟩ →
      Scanned ((p.advanceBy gap).advanceBy (c :: taken)) rest ts →
      Scanned p (gap ++ (c :: taken ++ rest))
        (toToken ⟨kind, value, c :: taken, rest⟩ (p.advanceBy gap) :: ts)

end Token

theorem Cursor.tokens_scanned {cursor : Cursor} {ts : List Token}
    (scanned : cursor.tokens = .ok ts) :
    Token.Scanned cursor.position cursor.rest ts := by
  induction scanned using tokens_recursion with
  | @last cursor ended =>
      have finish :
          cursor.skipGap.position = cursor.position.advanceBy cursor.rest := by
        simp only [skipGap, advance, (Gap.split_of_rest_nil ended).1]
      rw [finish]
      exact .last
  | @token cursor c rest lexeme ts begins read following tail =>
      have whole := Gap.split_append cursor.rest
      rw [show (Gap.split cursor.rest).2 = c :: rest from begins] at whole
      obtain ⟨shown, sign⟩ := Gap.split_rest_cons begins
      have taking := read?_append read
      obtain ⟨kind, value, raw, after⟩ := lexeme
      obtain ⟨d, taken, rfl⟩ :=
        List.exists_cons_of_ne_nil (read?_raw_ne_nil read)
      obtain ⟨rfl, rfl⟩ := List.cons.inj taking
      rw [← whole]
      exact .token shown sign read tail

namespace Token

theorem scanned_of_scan {p : Position} {text : List Char} {ts : List Token}
    (scanned : scan p text = .ok ts) : Scanned p text ts :=
  Cursor.tokens_scanned scanned

def InSource (ts : List Token) : Prop :=
  ∃ p text, Scanned p text ts

theorem InSource.tail {t : Token} {ts : List Token}
    (source : InSource (t :: ts))
    (some : ts ≠ []) :
    InSource ts := by
  obtain ⟨p, text, scanned⟩ := source
  cases scanned with
  | last => exact absurd rfl some
  | token _ _ _ scanned => exact ⟨_, _, scanned⟩

theorem InSource.of_append {first second : List Token}
    (source : InSource (first ++ second))
    (some : second ≠ []) :
    InSource second := by
  induction first with
  | nil => exact source
  | cons t first induction => exact induction (source.tail (by simp [some]))

theorem InSource.raw_ne_empty {ts rest : List Token}
    (source : InSource (ts ++ rest))
    (some : rest ≠ []) :
    ∀ t ∈ ts, t.raw ≠ "" := by
  induction ts with
  | nil => simp
  | cons t ts induction =>
      have behind := induction (source.tail (by simp [some]))
      obtain ⟨p, text, scanned⟩ := source
      rw [List.cons_append] at scanned
      generalize following : ts ++ rest = us at scanned
      cases scanned with
      | last => simp_all
      | token _ _ read _ =>
          exact List.forall_mem_cons.2 ⟨toToken_raw_ne_empty read, behind⟩

end Token

theorem Token.gap_eq_nil
    {lexeme : Lexeme} {next : Token} {p : Position} {gap : List Char}
    (place : next.position = (p.advanceBy lexeme.raw).advanceBy gap)
    (touching : (lexeme.toToken p).touches next = true) :
    '\n' ∉ lexeme.raw ∧ gap = [] := by
  have line :
      p.line = next.position.line ∧
        p.column + lexeme.raw.length = next.position.column := by
    simp only [touches, toToken, Token.endColumn, String.length_ofList,
      Bool.and_eq_true, beq_iff_eq] at touching
    exact ⟨touching.1.2, touching.2⟩
  have before : '\n' ∉ lexeme.raw := by
    intro feed
    have first := Position.line_lt_advanceBy feed p
    have second := (p.advanceBy lexeme.raw).line_le_advanceBy gap
    rw [← place] at second
    omega
  have oneLine := p.advanceBy_of_oneLine before
  have between : '\n' ∉ gap := by
    intro feed
    have later := Position.line_lt_advanceBy feed (p.advanceBy lexeme.raw)
    rw [← place, oneLine] at later
    simp only at later
    omega
  refine ⟨before, ?_⟩
  rw [Position.advanceBy_of_oneLine between, oneLine] at place
  have column := congrArg Position.column place
  simp only at column
  exact List.length_eq_zero_iff.1 (by omega)

namespace Lexeme

theorem isSigil_of_read? {c : Char} {rest value : List Char} {kind : TokenKind}
    (read : read? c rest = some ⟨kind, value, [c], rest⟩) :
    isSigil c rest = false := by
  by_contra sigil
  rw [Bool.not_eq_false] at sigil
  simp only [isSigil, Bool.and_eq_true, beq_iff_eq] at sigil
  obtain ⟨rfl, named⟩ := sigil
  cases rest with
  | nil => simp at named
  | cons d rest =>
      simp only [List.head?_cons, Option.map_some, Option.getD_some] at named
      simp [read?, punctuation?, isQuote, Lexeme.sigil, named, plain] at read

theorem bounds_of_read?
    {c : Char} {taken rest value : List Char} {kind : TokenKind}
    (read : read? c (taken ++ rest) = some ⟨kind, value, c :: taken, rest⟩) :
    Bounds (c :: taken ++ rest) (c :: taken) := by
  intro d tail begins
  obtain ⟨rfl, rfl⟩ := List.cons.inj begins
  refine .inr ⟨taken ++ rest, rfl, ?_⟩
  cases taken with
  | nil =>
      have alone : isSigil c rest = false := isSigil_of_read? read
      exact alone.trans (by simp [isSigil])
  | cons e taken => rfl

theorem value_eq_raw {c : Char} {rest : List Char} {lexeme : Lexeme}
    (read : read? c rest = some lexeme)
    (unquoted : lexeme.kind ≠ .string) :
    lexeme.value = lexeme.raw := by
  rcases read?_cases read with ⟨_, _, same⟩ | ⟨_, string, _⟩
  · exact same
  · exact absurd string unquoted

theorem bounds_append {first second : List Char}
    (some : first ≠ [])
    (more : second ≠ [])
    (rest : List Char) :
    Bounds (first ++ second ++ rest) (first ++ second) := by
  obtain ⟨c, first, rfl⟩ := List.exists_cons_of_ne_nil some
  obtain ⟨d, second, rfl⟩ := List.exists_cons_of_ne_nil more
  intro e tail begins
  obtain ⟨rfl, rfl⟩ := List.cons.inj begins
  refine .inr ⟨first ++ (d :: second) ++ rest, by simp, ?_⟩
  cases first <;> rfl

end Lexeme

namespace Grammar

def Plain (ts : List Token) : Prop :=
  ∀ ref : Reference, ¬ ref.tokens <:+: ts

theorem Plain.mono {first second : List Token}
    (plain : Plain second)
    (part : first <:+: second) :
    Plain first :=
  fun ref inside => plain ref (inside.trans part)

theorem Plain.part {part : Part} (plain : Plain part.tokens) :
    ∃ t, t.kind ≠ .environment ∧ part.tokens = [t] ∧ part.first = t ∧
      part.last = t ∧
      ∀ env, part.text? env = some t.value := by
  cases part with
  | plain t other => exact ⟨t, other, rfl, rfl, rfl, fun _ => rfl⟩
  | reference ref => exact absurd (List.infix_refl _) (plain ref)

structure SpelledBy
    (ts : List Token) (text : List Char) (lexemes : List Lexeme) :
    Prop where
  spelling : Spelling text lexemes
  kinds : lexemes.map Lexeme.kind = ts.map Token.kind
  values :
    (lexemes.map fun lexeme => String.ofList lexeme.value) = ts.map Token.value

theorem SpelledBy.single
    {p : Position} {c : Char} {taken rest value : List Char} {kind : TokenKind}
    (shown : Text.isBlank c = false)
    (sign : c ≠ '#')
    (read : read? c (taken ++ rest) = some ⟨kind, value, c :: taken, rest⟩) :
    SpelledBy [toToken ⟨kind, value, c :: taken, rest⟩ p] (c :: taken)
      [⟨kind, value, c :: taken, []⟩] := by
  have alone := read?_in_context read (.nil rest)
  rw [List.append_nil] at alone
  exact ⟨.single shown sign alone, rfl, rfl⟩

theorem SpelledBy.cons
    {p : Position} {c : Char} {taken rest value text : List Char}
    {kind : TokenKind} {ts : List Token} {lexemes : List Lexeme}
    (shown : Text.isBlank c = false)
    (sign : c ≠ '#')
    (read : read? c (taken ++ (text ++ rest)) =
      some ⟨kind, value, c :: taken, text ++ rest⟩)
    (spelled : SpelledBy ts text lexemes)
    (bounds : Bounds (text ++ rest) text) :
    SpelledBy (toToken ⟨kind, value, c :: taken, text ++ rest⟩ p :: ts)
      (c :: taken ++ text)
      (⟨kind, value, c :: taken, text⟩ :: lexemes) := by
  refine
    ⟨.cons shown sign (read?_in_context read bounds) spelled.spelling, ?_, ?_⟩
  · simp [spelled.kinds, toToken]
  · simp [spelled.values, toToken]

theorem SpelledBy.text_ne_nil
    {t : Token} {ts : List Token} {text : List Char} {lexemes : List Lexeme}
    (spelled : SpelledBy (t :: ts) text lexemes) :
    text ≠ [] := by
  apply spelled.spelling.text_ne_nil
  rintro rfl
  cases spelled.kinds

theorem exists_lexeme {t : Token} {ts : List Token}
    (source : Token.InSource (t :: ts))
    (some : ts ≠ []) :
    ∃ text lexeme, SpelledBy [t] text [lexeme] ∧ t.raw = String.ofList text ∧
      (t.kind ≠ .string → t.value = String.ofList text) := by
  obtain ⟨p, text, scanned⟩ := source
  cases scanned with
  | last => exact absurd rfl some
  | @token _ gap taken after value c kind _ shown sign read _ =>
      refine ⟨c :: taken, _, .single shown sign read, rfl, fun unquoted => ?_⟩
      exact congrArg String.ofList (value_eq_raw read unquoted)

theorem Word.exists_spelling {w : Word}
    (plain : Plain w.tokens)
    (unquoted : w.first.first.kind ≠ .string)
    {p : Position} {text : List Char} {rest : List Token}
    (scanned : Token.Scanned p text (w.tokens ++ rest))
    (some : rest ≠ []) :
    ∃ gap raws after lexemes, text = gap ++ (raws ++ after) ∧
      SpelledBy w.tokens raws lexemes ∧
      Bounds (raws ++ after) raws ∧
      (∀ env, w.text? env = .some (String.ofList raws)) ∧
      w.first.first.position = p.advanceBy gap := by
  induction w using Word.recursion generalizing p text with
  | single part =>
      rw [tokens_single] at plain scanned ⊢
      obtain ⟨t, _, tokens, first, _, meaning⟩ := plain.part
      rw [tokens] at scanned ⊢
      cases scanned with
      | last => exact absurd rfl some
      | @token _ gap taken after value c kind _ shown sign read _ =>
          have kindly : kind ≠ .string := by
            simpa [single, first, toToken] using unquoted
          obtain rfl : value = c :: taken := value_eq_raw read kindly
          refine ⟨gap, c :: taken, after, _, rfl, .single shown sign read,
            bounds_of_read? read, ?_, ?_⟩
          · intro env
            rw [text?_single, meaning]
            rfl
          · rw [show (single part).first = part from rfl, first]
            rfl
  | cons part w glued induction =>
      rw [tokens_cons] at plain scanned ⊢
      obtain ⟨t, _, tokens, first, last, meaning⟩ :=
        (plain.mono (List.prefix_append _ _).isInfix).part
      have inner : Plain w.tokens := plain.mono (List.suffix_append _ _).isInfix
      have glue : w.first.first.kind ≠ .string := by
        intro string
        have isGlue := glued.1
        simp [string, TokenKind.isGlue, TokenKind.isWord] at isGlue
      rw [tokens, List.append_assoc] at scanned
      rw [tokens]
      cases scanned with
      | @token _ gap taken behind value c kind _ shown sign read scanned =>
          obtain ⟨between, raws, after, lexemes, rfl, spelled, bounds, text,
              place⟩ := induction inner glue scanned
          have touching := glued.2
          rw [last] at touching
          obtain ⟨_, rfl⟩ := Token.gap_eq_nil place touching
          have filled : raws ≠ [] := by
            rw [tokens_eq_cons] at spelled
            exact spelled.text_ne_nil
          have kindly : kind ≠ .string := by
            simpa [Word.cons, first, toToken] using unquoted
          obtain rfl : value = c :: taken := value_eq_raw read kindly
          simp only [List.nil_append] at read first meaning ⊢
          refine ⟨gap, c :: taken ++ raws, after, _, by simp, .cons shown sign
            read spelled bounds, bounds_append (by simp) filled after, ?_, ?_⟩
          · intro env
            simp [text?_cons, meaning, text, toToken, String.append_assoc]
          · rw [show (Word.cons part w glued).first = part from rfl, first]
            rfl

theorem Word.kinds {w : Word} (plain : Plain w.tokens)
    (first : w.first.first.kind.isGlue = true) :
    ∀ t ∈ w.tokens, t.kind.isGlue = true ∧ t.kind ≠ .environment := by
  induction w using Word.recursion with
  | single part =>
      rw [tokens_single] at plain ⊢
      obtain ⟨t, other, tokens, same, _⟩ := plain.part
      rw [show (single part).first = part from rfl, same] at first
      simp [tokens, first, other]
  | cons part w glued induction =>
      rw [tokens_cons] at plain ⊢
      obtain ⟨t, other, tokens, same, _⟩ :=
        (plain.mono (List.prefix_append _ _).isInfix).part
      rw [show (Word.cons part w glued).first = part from rfl, same] at first
      rw [tokens, List.singleton_append, List.forall_mem_cons]
      exact ⟨⟨first, other⟩,
        induction (plain.mono (List.suffix_append _ _).isInfix) glued.1⟩

theorem isGlue_of_isArgument {kind : TokenKind}
    (argument : isArgument kind = true)
    (unquoted : kind ≠ .string) :
    kind.isGlue = true := by
  cases kind <;>
    simp_all [isArgument, TokenKind.isName, TokenKind.isGlue, TokenKind.isWord]

theorem Term.exists_spelling {term : Term} {rest : List Token}
    (plain : Plain term.tokens)
    (source : Token.InSource (term.tokens ++ rest))
    (some : rest ≠ [])
    (argument : isArgument term.first.kind = true) :
    ∃ raws lexemes, SpelledBy term.tokens raws lexemes ∧ IsTerm lexemes ∧
      (∀ env, term.name? env = .some (String.ofList raws)) ∧
      (term.first.kind ≠ .string →
        ∀ env, term.text? env = .some (String.ofList raws)) := by
  cases term with
  | quoted t =>
      obtain ⟨text, lexeme, spelled, raw, _⟩ := exists_lexeme source some
      refine ⟨text, [lexeme], spelled, .string ?_, ?_, ?_⟩
      · rw [← t.2]
        exact (List.cons.inj spelled.kinds).1
      · exact fun _ => congrArg Option.some raw
      · exact fun unquoted => absurd t.2 unquoted
  | word w unquoted =>
      obtain ⟨p, text, scanned⟩ := source
      obtain ⟨_, raws, _, lexemes, _, spelled, _, meaning, _⟩ :=
        Word.exists_spelling plain unquoted scanned some
      have kinds := Word.kinds plain (isGlue_of_isArgument argument unquoted)
      refine ⟨raws, lexemes, spelled, .word ?_ ?_, meaning, fun _ => meaning⟩
      · rintro rfl
        have none : [] = w.tokens.map Token.kind := spelled.kinds
        rw [Word.tokens_eq_cons] at none
        cases none
      · intro lexeme member
        have among : lexeme.kind ∈ w.tokens.map Token.kind := by
          rw [← show _ = w.tokens.map Token.kind from spelled.kinds]
          exact List.mem_map_of_mem member
        obtain ⟨t, inside, same⟩ := List.mem_map.1 among
        rw [← same]
        exact kinds t inside

theorem Header.exists_spelling {header : Header} {rest : List Token}
    (plain : Plain header.tokens)
    (source : Token.InSource (header.tokens ++ rest))
    (some : rest ≠ []) :
    ∃ name lexemes, SpellsName name lexemes ∧
      SpelledBy header.name.tokens name lexemes ∧
      ∀ env, header.name? env = .some (String.ofList name) := by
  have argument : isArgument header.name.first.kind = true := by
    simp [isArgument, header.nameKind]
  rw [tokens, List.append_assoc] at source
  obtain ⟨name, lexemes, spelled, isTerm, meaning, _⟩ :=
    Term.exists_spelling (plain.mono (List.prefix_append _ _).isInfix) source
      (by simp [some])
      argument
  refine ⟨name, lexemes, ⟨spelled.spelling, isTerm, ?_⟩, spelled, ?_⟩
  · intro lexeme member
    obtain ⟨tail, rfl⟩ := List.head?_eq_some_iff.1 member
    have kinds := spelled.kinds
    have values := spelled.values
    rw [Term.tokens_eq_cons, List.map_cons, List.map_cons] at kinds values
    rw [(List.cons.inj kinds).1]
    refine ⟨header.nameKind, header.notLocation, ?_⟩
    rintro ⟨identifier, isIf⟩
    apply header.notIf
    rw [← (List.cons.inj values).1, isIf]
    exact ⟨identifier, rfl⟩
  · intro env
    rw [name?, meaning]
    simpa [Option.filter] using spelled.spelling.text_ne_nil isTerm.ne_nil

theorem exists_runs {t : Token} {ts rest : List Token}
    (plain : ∀ u ∈ t :: ts, u.kind ≠ .environment ∧ u.kind ≠ .openBrace)
    {p : Position} {text : List Char}
    (scanned : Token.Scanned p text (t :: ts ++ rest))
    (some : rest ≠ []) :
    ∃ gap first after others run runs, text = gap ++ (first ++ after) ∧
      Bounds (first ++ after) first ∧ t.position = p.advanceBy gap ∧
      ConditionPart.join (partsOf (t :: ts)) =
        String.ofList first :: others.map String.ofList ∧
      SpellsRun first run ∧ List.Forall₂ SpellsRun others runs ∧
      (run ++ runs.flatten).map Lexeme.kind = (t :: ts).map Token.kind := by
  induction ts generalizing t p text with
  | nil =>
      cases scanned with
      | last => exact absurd rfl some
      | @token _ gap taken after value c kind _ shown sign read _ =>
          have spelled :=
            SpelledBy.single (p := p.advanceBy gap) shown sign read
          refine ⟨gap, c :: taken, after, [], _, [], rfl, bounds_of_read? read,
            rfl, rfl, ⟨spelled.spelling, by simp, ?_, by simp⟩, .nil, rfl⟩
          simpa [toToken] using plain
  | cons u ts induction =>
      cases scanned with
      | @token _ gap taken behind value c kind _ shown sign read scanned =>
          obtain ⟨here, others⟩ := List.forall_mem_cons.1 plain
          obtain ⟨between, first, after, texts, run, runs, rfl, bounds, place,
              joined, spells, allRuns, kinds⟩ := induction others scanned
          by_cases touching : (toToken ⟨kind, value, c :: taken,
            between ++ (first ++ after)⟩ (p.advanceBy gap)).touches u = true
          · obtain ⟨oneLine, rfl⟩ := Token.gap_eq_nil place touching
            simp only [List.nil_append] at read touching here ⊢
            have filled := spells.spelling.text_ne_nil spells.some
            refine ⟨gap, c :: taken ++ first, after, texts,
              ⟨kind, value, c :: taken, first⟩ :: run, runs, by simp,
              bounds_append (by simp) filled after, rfl, ?_, ?_, allRuns, ?_⟩
            · rw [join_partsOf_touching touching joined]
              simp [toToken, String.append_assoc]
            · refine ⟨.cons shown sign (read?_in_context read bounds)
                spells.spelling, by simp,
                List.forall_mem_cons.2 ⟨here, spells.plain⟩, ?_⟩
              rw [List.dropLast_cons_of_ne_nil spells.some]
              exact List.forall_mem_cons.2 ⟨oneLine, spells.oneLine⟩
            · simpa [toToken] using kinds
          · have spelled :=
              SpelledBy.single (p := p.advanceBy gap) shown sign read
            refine ⟨gap, c :: taken, _, first :: texts,
              [⟨kind, value, c :: taken, []⟩], run :: runs, rfl,
              bounds_of_read? read, rfl, ?_, ⟨spelled.spelling, by simp,
              ?_, by simp⟩, .cons spells allRuns, ?_⟩
            · rw [join_partsOf_apart (Bool.not_eq_true _ ▸ touching), joined]
              rfl
            · simpa [toToken] using here
            · simpa [toToken] using kinds

theorem Part.mapM_kept? {parts : List Part} (plain : Plain (tokensOf parts))
    (written : ∀ t ∈ tokensOf parts, t.raw ≠ "") (env : Environment) :
    parts.mapM (kept? env) = some (partsOf (tokensOf parts)) := by
  induction parts with
  | nil => rfl
  | cons part parts induction =>
      rw [tokensOf_cons] at plain written ⊢
      have others := induction (plain.mono (List.suffix_append _ _).isInfix)
        fun t member => written t (List.mem_append_right _ member)
      cases part with
      | reference ref =>
          exact absurd (List.prefix_append _ _).isInfix (plain ref)
      | plain t other =>
          have filled : t.raw ≠ "" := written t (by simp [tokens, first])
          simp [others, kept?, written?, filled, partsOf, first, last, tokens,
            following]

theorem Part.kind_ne_environment {parts : List Part}
    (plain : Plain (tokensOf parts)) :
    ∀ t ∈ tokensOf parts, t.kind ≠ .environment := by
  induction parts with
  | nil => simp
  | cons part parts induction =>
      rw [tokensOf_cons] at plain ⊢
      obtain ⟨t, other, tokens, _⟩ :=
        (plain.mono (List.prefix_append _ _).isInfix).part
      rw [tokens, List.singleton_append, List.forall_mem_cons]
      exact ⟨other, induction (plain.mono (List.suffix_append _ _).isInfix)⟩

theorem Condition.exists_spelling {c : Condition} {rest : List Token}
    (plain : Plain (Part.tokensOf c.parts))
    (source : Token.InSource (Part.tokensOf c.parts ++ rest))
    (some : rest ≠ []) :
    ∃ args lexemes, (∀ env, c.args? env = .some (args.map String.ofList)) ∧
      List.Forall₂ SpellsRun args lexemes ∧
      lexemes.flatten.map Lexeme.kind =
        (Part.tokensOf c.parts).map Token.kind := by
  have noBrace : ∀ t ∈ Part.tokensOf c.parts, t.kind ≠ .openBrace := by
    cases c with
    | bare parts begins noBrace => exact noBrace
    | enclosed opening parts closing noBrace balanced => exact noBrace
  have kinds := Part.kind_ne_environment plain
  have kept := Part.mapM_kept? plain (source.raw_ne_empty some)
  cases tokens : Part.tokensOf c.parts with
  | nil =>
      refine ⟨[], [], fun env => ?_, .nil, rfl⟩
      rw [args?, kept, tokens]
      rfl
  | cons t ts =>
      rw [tokens] at source kinds noBrace
      obtain ⟨p, text, scanned⟩ := source
      obtain ⟨_, first, _, others, run, runs, _, _, _, joined, spells, allRuns,
          same⟩ := exists_runs
        (fun u member => ⟨kinds u member, noBrace u member⟩) scanned some
      refine ⟨first :: others, run :: runs, fun env => ?_,
        .cons spells allRuns, same⟩
      rw [args?, kept, tokens, Option.map_some, joined]
      rfl

def Closed (ts : List Token) : Prop :=
  ∀ (sign : Token.Of .importSign) (opening : Token.Of .openParen),
    ¬ [sign.1, opening.1] <:+: ts

theorem Closed.mono {first second : List Token} (closed : Closed second)
    (part : first <:+: second) : Closed first :=
  fun sign opening inside => closed sign opening (inside.trans part)

theorem phraseRecursion {motive : List Phrase → Prop} (nil : motive [])
    (leaf : ∀ l ps, motive ps → motive (.leaf l :: ps))
    (group : ∀ o body closing closes ps, motive body → motive ps →
      motive (.group o body closing closes :: ps))
    (ps : List Phrase) : motive ps :=
  match ps with
  | [] => nil
  | .leaf l :: ps => leaf l ps (phraseRecursion nil leaf group ps)
  | .group o body closing closes :: ps =>
    group o body closing closes ps (phraseRecursion nil leaf group body)
      (phraseRecursion nil leaf group ps)

/-- Statements as they come from a source without references to the environment
and imports: their names and conditions are spelled as they were there. -/
inductive Sourced : List Statement → Prop where
  | nil : Sourced []
  | directive {name : String} {args : List String} {position : Position}
      {rest : List Statement}
      (named : ∃ lexemes, SpellsName name.toList lexemes)
      (behind : Sourced rest) :
      Sourced (.directive name args position :: rest)
  | block {name : String} {args : List String} {children rest : List Statement}
      {position : Position}
      (named : ∃ lexemes, SpellsName name.toList lexemes)
      (inside : Sourced children)
      (behind : Sourced rest) :
      Sourced (.block name args children position :: rest)
  | condition {args : List String} {children rest : List Statement}
      {position : Position}
      (runs :
        ∃ lexemes, List.Forall₂ SpellsRun (args.map String.toList) lexemes)
      (inside : Sourced children)
      (behind : Sourced rest) :
      Sourced (.block "if" args children position :: rest)
  | location {modifier : Modifier} {paths : List String}
      {children rest : List Statement} {position : Position}
      (some : paths ≠ [])
      (inside : Sourced children)
      (behind : Sourced rest) :
      Sourced (.location modifier paths children position :: rest)
  | definition {name : String} {body rest : List Statement}
      {opening position : Position}
      (inside : Sourced body)
      (behind : Sourced rest) :
      Sourced (.definition name body opening position :: rest)
  | reference {name : String} {position : Position} {rest : List Statement}
      (spelled : ∃ lexeme, Spelling name.toList [lexeme] ∧
        lexeme.kind = .variable)
      (behind : Sourced rest) :
      Sourced (.reference name position :: rest)

section Sourced

variable {env : Environment} {rest : List Token}

theorem Leaf.sourced {l : Leaf} {s : Statement} {ss : List Statement}
    (settled : l.statement? env = some s)
    (plain : Plain l.tokens)
    (closed : Closed l.tokens)
    (source : Token.InSource (l.tokens ++ rest))
    (behind : Sourced ss) :
    Sourced (s :: ss) := by
  cases l with
  | inline sign opening name closing semicolon =>
      cases settled
      have named :
          Token.InSource (name.1 :: ([closing.1, semicolon.1] ++ rest)) :=
        @Token.InSource.of_append [sign.1, opening.1] _ source (by simp)
      obtain ⟨text, lexeme, spelled, _, value⟩ := exists_lexeme named (by simp)
      refine .reference ⟨lexeme, ?_, ?_⟩ behind
      · rw [value (by simp), String.toList_ofList]
        exact spelled.spelling
      · rw [← name.2]
        exact (List.cons.inj spelled.kinds).1
  | importFile sign opening path closing semicolon named =>
      exact absurd ⟨[], _, rfl⟩ (closed sign opening)
  | directive header semicolon oneLine =>
      rw [tokens] at plain source
      rw [List.append_assoc] at source
      obtain ⟨name, lexemes, spells, _, meaning⟩ :=
        Header.exists_spelling (plain.mono (List.prefix_append _ _).isInfix)
          source (by simp)
      simp only [statement?, meaning, Option.bind_eq_bind, Option.bind_some,
        Option.bind_eq_some_iff] at settled
      obtain ⟨args, _, ⟨⟩⟩ := settled
      refine .directive ⟨lexemes, ?_⟩ behind
      rw [String.toList_ofList]
      exact spells

theorem Condition.inSource {sign brace : Token} (c : Condition)
    (source : Token.InSource (sign :: (c.tokens ++ [brace]) ++ rest)) :
    ∃ following, following ≠ [] ∧
      Token.InSource (Part.tokensOf c.parts ++ following) ∧
      Part.tokensOf c.parts <:+: sign :: (c.tokens ++ [brace]) := by
  cases c with
  | bare parts begins noBrace =>
      refine ⟨brace :: rest, by simp, ?_, [sign], [brace],
        by simp [tokens, Condition.parts]⟩
      apply @Token.InSource.of_append [sign] _ _ (by simp)
      simpa [tokens, Condition.parts] using source
  | enclosed opening parts closing noBrace balanced =>
      refine ⟨closing.1 :: brace :: rest, by simp, ?_, [sign, opening.1],
        [closing.1, brace], by simp [tokens, Condition.parts]⟩
      apply @Token.InSource.of_append [sign, opening.1] _ _ (by simp)
      simpa [tokens, Condition.parts] using source

theorem Opening.sourced
    {o : Opening} {h : Heading} {children ss : List Statement}
    (settled : o.heading? env = some h)
    (plain : Plain o.tokens)
    (source : Token.InSource (o.tokens ++ rest))
    (inside : Sourced children)
    (behind : Sourced ss) :
    Sourced (h.around children :: ss) := by
  cases o with
  | definition name equals brace =>
      cases settled
      exact .definition inside behind
  | locations sign inWord bracket paths closing brace =>
      simp only [heading?, Option.bind_eq_bind,
        Option.bind_eq_some_iff] at settled
      obtain ⟨texts, found, ⟨⟩⟩ := settled
      refine .location ?_ inside behind
      rintro rfl
      simp [PathList.texts?, Option.bind_eq_some_iff] at found
  | location sign modifier path brace pathKind unsigned =>
      simp only [heading?, Option.bind_eq_bind,
        Option.bind_eq_some_iff] at settled
      obtain ⟨text, _, ⟨⟩⟩ := settled
      exact .location (by simp) inside behind
  | condition sign isIf c brace =>
      obtain ⟨following, filled, inSource, part⟩ := c.inSource source
      obtain ⟨args, lexemes, meaning, runs, _⟩ :=
        Condition.exists_spelling (plain.mono part) inSource filled
      simp only [heading?, meaning, Option.bind_eq_bind,
        Option.bind_some] at settled
      cases settled
      refine .condition ⟨lexemes, ?_⟩ inside behind
      simpa [Function.comp_def] using runs
  | block header brace noLocation =>
      rw [tokens] at plain source
      rw [List.append_assoc] at source
      obtain ⟨name, lexemes, spells, _, meaning⟩ :=
        Header.exists_spelling (plain.mono (List.prefix_append _ _).isInfix)
          source (by simp)
      simp only [heading?, meaning, Option.bind_eq_bind, Option.bind_some,
        Option.bind_eq_some_iff] at settled
      obtain ⟨args, _, ⟨⟩⟩ := settled
      refine .block ⟨lexemes, ?_⟩ inside behind
      rw [String.toList_ofList]
      exact spells

theorem sourced_of_phrases {ps : List Phrase} {ss : List Statement}
    (settled : statementsOf? env ps = some ss)
    (plain : Plain (tokensOf ps))
    (closed : Closed (tokensOf ps))
    (source : Token.InSource (tokensOf ps ++ rest))
    (some : rest ≠ []) :
    Sourced ss := by
  induction ps using phraseRecursion generalizing ss rest with
  | nil =>
      cases settled
      exact .nil
  | leaf l ps induction =>
      simp only [statementsOf?, Phrase.statement?, Option.bind_eq_bind,
        Option.bind_eq_some_iff] at settled
      obtain ⟨s, first, others, behind, ⟨⟩⟩ := settled
      rw [tokensOf, Phrase.tokens] at plain closed source
      have later : Token.InSource (tokensOf ps ++ rest) := by
        rw [List.append_assoc] at source
        exact source.of_append (by simp [some])
      rw [List.append_assoc] at source
      exact l.sourced first (plain.mono (List.prefix_append _ _).isInfix)
        (closed.mono (List.prefix_append _ _).isInfix) source
        (induction behind (plain.mono (List.suffix_append _ _).isInfix)
          (closed.mono (List.suffix_append _ _).isInfix) later some)
  | group o body closing closes ps inside induction =>
      simp only [statementsOf?, Phrase.statement?, Option.bind_eq_bind,
        Option.bind_eq_some_iff] at settled
      obtain ⟨s, ⟨h, opens, children, within, ⟨⟩⟩, others, behind, ⟨⟩⟩ :=
        settled
      rw [tokensOf, Phrase.tokens] at plain closed source
      simp only [List.append_assoc] at plain closed source
      have bodySource := source.of_append (by simp [some])
      have restSource :=
        (bodySource.of_append (by simp [some])).of_append (by simp [some])
      have bodyPart : tokensOf body <:+: o.tokens ++
          (tokensOf body ++ (closing ++ tokensOf ps)) :=
        ⟨o.tokens, closing ++ tokensOf ps, by simp⟩
      have restPart : tokensOf ps <:+: o.tokens ++
          (tokensOf body ++ (closing ++ tokensOf ps)) :=
        ⟨o.tokens ++ (tokensOf body ++ closing), [], by simp⟩
      exact o.sourced opens (plain.mono (List.prefix_append _ _).isInfix) source
        (inside within (plain.mono bodyPart) (closed.mono bodyPart) bodySource
          (by simp [some]))
        (induction behind (plain.mono restPart) (closed.mono restPart)
          restSource some)

end Sourced

end Grammar

end ServerConf
