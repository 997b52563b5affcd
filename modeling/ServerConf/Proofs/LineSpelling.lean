import ServerConf.Proofs.TermSpelling

/-!
Lines from their spelling: directives, and what opens a block, a location or a
condition.
-/

namespace ServerConf

namespace Grammar

open Lexeme

theorem SpellsHeader.name?
    {name : List Char} {args : List (List Char)} {nameLexemes : List Lexeme}
    {argLexemes : List (List Lexeme)}
    (spells : SpellsHeader name args nameLexemes argLexemes)
    {header : Header} {p : Position}
    (placed : header.name.PlacedAt p nameLexemes)
    (env : Environment) :
    header.name? env = some (String.ofList name) := by
  rw [Header.name?, placed.name env, spells.named.spelling.flatMap_raw]
  simpa [Option.filter] using spells.named.spelling.text_ne_nil
    spells.named.isTerm.ne_nil

/-- A directive ends with its line: up to each unquoted word among its
arguments, nothing that is written feeds a line. -/
def KeepsLine (name : List Char) (argLexemes : List (List Lexeme)) : Prop :=
  ∀ before lexeme tail after, argLexemes = before ++ (lexeme :: tail) :: after →
    lexeme.kind = .identifier →
      '\n' ∉ name ++ spaced (before.map (List.flatMap raw))

theorem exists_directive
    {name : List Char} {args : List (List Char)} {nameLexemes : List Lexeme}
    {argLexemes : List (List Lexeme)}
    (spells : SpellsHeader name args nameLexemes argLexemes)
    (oneLine : KeepsLine name argLexemes)
    (p : Position) :
    ∃ l : Leaf, Reads p (name ++ spaced args ++ [';']) l.tokens ∧
      ∀ env, l.statement? env = some (.directive (String.ofList name)
        (argLexemes.map fun lexemes =>
          String.ofList (lexemes.flatMap value)) p) := by
  obtain ⟨header, placed, allAt, reads⟩ := exists_header spells p
  have semicolon :=
    Reads.punctuation (c := ';') rfl (p.advanceBy (name ++ spaced args))
  refine ⟨.directive header ⟨_, rfl⟩ ?_,
    reads.append (.punctuation rfl []) (by simp) semicolon, ?_⟩
  · intro arg member identifier
    obtain ⟨before, lexeme, tail, after, whole, first⟩ := allAt.of_mem member
    have early :=
      oneLine before lexeme tail after whole
        (by simpa [first, toToken] using identifier)
    rw [first, placed.first_position]
    simp only [toToken]
    rw [← Position.advanceBy_append, Position.advanceBy_of_oneLine early]
    simp [Position.advance]
  · intro env
    rw [Leaf.statement?, spells.name? placed, Header.args?, allAt.texts env,
      placed.first_position]
    rfl

theorem reads_punctuation {c : Char} {kind : TokenKind}
    (sign : punctuation? c = some kind)
    (p : Position) :
    ∃ t : Token.Of kind, Reads p [c] [t.1] :=
  ⟨⟨_, rfl⟩, .punctuation sign p⟩

theorem reads_brace {p : Position} {text : List Char} {tokens : List Token}
    (reads : ReadsBefore p text tokens) :
    ∃ brace : Token.Of .openBrace,
      Reads p (text ++ [' ', '\x7b']) (tokens ++ [brace.1]) := by
  have space : Reads (p.advanceBy text) [' '] [] :=
    .gap (.blank (by decide) .nil)
  have brace :=
    Reads.punctuation (c := '\x7b') rfl ((p.advanceBy text).advanceBy [' '])
  exact ⟨⟨_, rfl⟩,
    reads.append (.blank (by decide) _) (by simp) (space.append brace)⟩

theorem exists_block
    {name : List Char} {args : List (List Char)} {nameLexemes : List Lexeme}
    {argLexemes : List (List Lexeme)}
    (spells : SpellsHeader name args nameLexemes argLexemes)
    (noLocation :
      ∀ arg ∈ argLexemes, ∀ lexeme ∈ arg.head?, lexeme.kind ≠ .location)
    (p : Position) :
    ∃ o : Opening, Reads p (name ++ spaced args ++ [' ', '\x7b']) o.tokens ∧
      ∀ env, o.heading? env = some (.block (String.ofList name)
        (argLexemes.map fun lexemes =>
          String.ofList (lexemes.flatMap value)) p) := by
  obtain ⟨header, placed, allAt, reads⟩ := exists_header spells p
  obtain ⟨brace, whole⟩ := reads_brace reads
  refine ⟨.block header brace ?_, whole, ?_⟩
  · intro arg member
    obtain ⟨before, lexeme, tail, after, whole, first⟩ := allAt.of_mem member
    rw [first]
    exact noLocation (lexeme :: tail) (by simp [whole]) lexeme rfl
  · intro env
    rw [Opening.heading?, spells.name? placed, Header.args?, allAt.texts env,
      placed.first_position]
    rfl

def locationWord : List Char :=
  ['l', 'o', 'c', 'a', 't', 'i', 'o', 'n']

def modifierText (m : Modifier) : List Char :=
  if m = .none then [] else m.text.toList ++ [' ']

theorem reads_space {text : List Char} {lexemes : List Lexeme}
    (spelling : Spelling text lexemes) (p : Position) :
    Reads p (text ++ [' ']) (placed p lexemes) := by
  have space : Reads (p.advanceBy text) [' '] [] :=
    .gap (.blank (by decide) .nil)
  have whole := (spelling.reads p).append (.blank (by decide) _) (by simp) space
  rwa [List.append_nil] at whole

theorem spelling_location :
    Spelling locationWord [⟨.location, locationWord, locationWord, []⟩] :=
  .single (by decide) (by decide) (by decide)

theorem exists_sign (m : Modifier) (p : Position) :
    ∃ sign : Option MatchSign,
      Reads p (modifierText m) (sign.elim [] fun sign => [sign.token]) ∧
      sign.elim .none MatchSign.meaning = m ∧ (sign = none → m = .none) := by
  cases m with
  | none => exact ⟨none, .nil, rfl, fun _ => rfl⟩
  | exact =>
      have spelling : Spelling ['='] [⟨.equals, ['='], ['='], []⟩] :=
        .single (by decide) (by decide) (by decide)
      exact ⟨some (.equals ⟨_, rfl⟩), reads_space spelling p, rfl, nofun⟩
  | regex =>
      have spelling : Spelling ['~'] [⟨.modifier, ['~'], ['~'], []⟩] :=
        .single (by decide) (by decide) (by decide)
      exact ⟨some (.modifier ⟨_, rfl⟩), reads_space spelling p, rfl, nofun⟩
  | regexIgnoreCase =>
      have spelling :
          Spelling ['~', '*'] [⟨.modifier, ['~', '*'], ['~', '*'], []⟩] :=
        .single (by decide) (by decide) (by decide)
      exact ⟨some (.modifier ⟨_, rfl⟩), reads_space spelling p, rfl, nofun⟩
  | priority =>
      have spelling :
          Spelling ['^', '~'] [⟨.modifier, ['^', '~'], ['^', '~'], []⟩] :=
        .single (by decide) (by decide) (by decide)
      exact ⟨some (.modifier ⟨_, rfl⟩), reads_space spelling p, rfl, nofun⟩

/-- The path of one location, spelled as one term that is not taken for a list
of paths or for the modifier. -/
structure SpellsPath (m : Modifier) (path : List Char) (lexemes : List Lexeme) :
    Prop where
  spelling : Spelling path lexemes
  isTerm : IsTerm lexemes
  kinds : ∀ lexeme ∈ lexemes.head?, lexeme.kind.isName = true ∧
    (m = .none → lexeme.kind ≠ .inWord ∧ lexeme.kind ≠ .modifier)

theorem exists_location
    {m : Modifier} {path : List Char} {lexemes : List Lexeme}
    (spells : SpellsPath m path lexemes)
    (p : Position) :
    ∃ o : Opening,
      Reads p (locationWord ++ [' '] ++ modifierText m ++ path ++ [' ', '\x7b'])
        o.tokens ∧
      ∀ env, o.heading? env =
        some (.location m [String.ofList (lexemes.flatMap value)] p) := by
  obtain ⟨sign, readsSign, rfl, unsigned⟩ :=
    exists_sign m (p.advanceBy (locationWord ++ [' ']))
  have before := (reads_space spelling_location p).append readsSign
  generalize place : locationWord ++ [' '] ++ modifierText _ = start at before ⊢
  obtain ⟨term, placed⟩ :=
    exists_term spells.spelling spells.isTerm (p.advanceBy start)
  obtain ⟨brace, whole⟩ :=
    reads_brace (before.append_before (spells.spelling.reads _))
  obtain ⟨lexeme, tail, begins, first⟩ := placed.first
  obtain ⟨isName, bare⟩ := spells.kinds lexeme (by simp [begins])
  refine ⟨.location ⟨toToken ⟨.location, locationWord, locationWord, []⟩ p,
    rfl⟩ sign term brace ?_ ?_, ?_, ?_⟩
  · rw [first]
    exact isName
  · intro none
    rw [first]
    exact bare (unsigned none)
  · rw [Opening.tokens, placed.tokens]
    simpa using whole
  · intro env
    rw [Opening.heading?, placed.text env]
    rfl

/-- The text is part of a condition that nothing separates: only its last lexeme
may end on a later line, for nothing touches a lexeme across lines. -/
structure SpellsRun (text : List Char) (lexemes : List Lexeme) : Prop where
  spelling : Spelling text lexemes
  some : lexemes ≠ []
  plain : ∀ lexeme ∈ lexemes, lexeme.kind ≠ .environment ∧
    lexeme.kind ≠ .openBrace
  oneLine : ∀ lexeme ∈ lexemes.dropLast, '\n' ∉ lexeme.raw

def partsOf (tokens : List Token) : List ConditionPart :=
  tokens.map fun t => ⟨t.raw, t, t⟩

theorem join_ne_nil (part : ConditionPart) (rest : List ConditionPart) :
    ConditionPart.join (part :: rest) ≠ [] := by
  cases rest with
  | nil => simp [ConditionPart.join]
  | cons next rest =>
      rw [ConditionPart.join]
      split
      · simp
      · split <;> simp

theorem join_apart {part : ConditionPart} {rest : List ConditionPart}
    (apart : ∀ next ∈ rest.head?, part.last.touches next.first = false) :
    ConditionPart.join (part :: rest) =
      part.text :: ConditionPart.join rest := by
  cases rest with
  | nil => rfl
  | cons next rest =>
      have separate := apart next rfl
      rw [ConditionPart.join]
      split
      · rename_i none
        exact absurd none (join_ne_nil next rest)
      · rename_i text texts found
        rw [separate, found]
        rfl

theorem join_touching
    {part next : ConditionPart} {rest : List ConditionPart} {text : String}
    {texts : List String}
    (touching : part.last.touches next.first = true)
    (joined : ConditionPart.join (next :: rest) = text :: texts) :
    ConditionPart.join (part :: next :: rest) =
      (part.text ++ text) :: texts := by
  rw [ConditionPart.join, joined]
  dsimp only
  rw [if_pos touching]

theorem join_partsOf_touching {t u : Token} {ts : List Token} {text : String}
    {texts : List String} (touching : t.touches u = true)
    (joined : ConditionPart.join (partsOf (u :: ts)) = text :: texts) :
    ConditionPart.join (partsOf (t :: u :: ts)) = (t.raw ++ text) :: texts :=
  @join_touching ⟨t.raw, t, t⟩ ⟨u.raw, u,
    u⟩ (partsOf ts) text texts touching joined

theorem join_partsOf_apart {t u : Token} {ts : List Token}
    (apart : t.touches u = false) :
    ConditionPart.join (partsOf (t :: u :: ts)) =
      t.raw :: ConditionPart.join (partsOf (u :: ts)) :=
  @join_apart ⟨t.raw, t, t⟩ (partsOf (u :: ts)) fun next member => by
    cases member
    exact apart

theorem join_run {tokens : List Token} {rest : List ConditionPart}
    (some : tokens ≠ [])
    (touching : List.IsChain (fun t next => t.touches next = true) tokens)
    (apart : ∀ last ∈ tokens.getLast?, ∀ next ∈ rest.head?,
      last.touches next.first = false) :
    ConditionPart.join (partsOf tokens ++ rest) =
      String.ofList (tokens.flatMap fun t => t.raw.toList) :: ConditionPart.join
        rest := by
  induction tokens with
  | nil => exact absurd rfl some
  | cons t tokens induction =>
      cases tokens with
      | nil =>
          have separate : ConditionPart.join (⟨t.raw, t, t⟩ :: rest) = _ :=
            join_apart (apart t rfl)
          simpa [partsOf] using separate
      | cons u tokens =>
          rw [List.isChain_cons_cons] at touching
          have inner := induction (by simp) touching.2 apart
          have joined : ConditionPart.join (⟨t.raw, t, t⟩ :: _) = _ :=
            join_touching touching.1 inner
          simpa [partsOf] using joined

theorem touches_eq_false {lexeme : Lexeme} {p : Position} {next : Token}
    (place : next.position = (p.advanceBy lexeme.raw).advance ' ') :
    (lexeme.toToken p).touches next = false := by
  by_cases feed : '\n' ∈ lexeme.raw
  · have later := Position.line_lt_advanceBy feed p
    have line : next.position.line = (p.advanceBy lexeme.raw).line := by
      rw [place]
      simp [Position.advance]
    have other : p.line ≠ next.position.line := by omega
    simp [Token.touches, toToken, other]
  · have ends := endsAt_toToken feed p
    by_contra touching
    rw [Bool.not_eq_false] at touching
    have inside : next.kind ≠ .endOfInput := by
      intro ended
      simp [Token.touches, ended] at touching
    rw [ends.touches_iff inside, place] at touching
    have column := congrArg Position.column touching
    simp [Position.advance] at column

theorem placed_run {text : List Char} {lexemes : List Lexeme}
    (spelling : Spelling text lexemes)
    (oneLine : ∀ lexeme ∈ lexemes.dropLast, '\n' ∉ lexeme.raw)
    (p : Position) :
    List.IsChain (fun t next => t.touches next = true) (placed p lexemes) ∧
      ∀ last ∈ (placed p lexemes).getLast?, ∀ next : Token,
        next.position = (p.advanceBy text).advance ' ' →
          last.touches next = false := by
  induction spelling generalizing p with
  | nil => exact ⟨.nil, by simp⟩
  | @cons c taken rest value kind lexemes shown sign read spelling induction =>
      cases lexemes with
      | nil =>
          cases spelling
          refine ⟨.singleton _, ?_⟩
          intro last member next place
          cases member
          rw [List.append_nil] at place
          exact touches_eq_false place
      | cons second lexemes =>
          rw [List.dropLast_cons_cons, List.forall_mem_cons] at oneLine
          obtain ⟨chain, apart⟩ :=
            induction oneLine.2 (p.advanceBy (c :: taken))
          obtain ⟨d, after, _, found⟩ := spelling.of_mem (List.mem_cons_self ..)
          have inside : (second.toToken (p.advanceBy (c :: taken))).kind ≠
              .endOfInput := toToken_kind_ne_endOfInput found
          refine ⟨.cons_cons ?_ chain, ?_⟩
          · exact ((endsAt_toToken oneLine.1 p).touches_iff inside).2 rfl
          · rw [Position.advanceBy_append]
            exact apart

theorem flatMap_raw_placed (p : Position) (lexemes : List Lexeme) :
    (placed p lexemes).flatMap (fun t => t.raw.toList) =
      lexemes.flatMap raw := by
  induction lexemes generalizing p with
  | nil => rfl
  | cons lexeme lexemes induction => simp [toToken, induction]

theorem join_spaced {texts : List (List Char)} {lexemes : List (List Lexeme)}
    (runs : List.Forall₂ SpellsRun texts lexemes)
    (p : Position) :
    ConditionPart.join (partsOf (spacedTokens p lexemes)) =
      texts.map String.ofList := by
  induction runs generalizing p with
  | nil => rfl
  | @cons text lexemes texts others run runs induction =>
      obtain ⟨chain, apart⟩ :=
        placed_run run.spelling run.oneLine (p.advance ' ')
      have some : placed (p.advance ' ') lexemes ≠ [] := by
        obtain ⟨lexeme, tail, rfl⟩ := List.exists_cons_of_ne_nil run.some
        simp
      rw [spacedTokens, partsOf, List.map_append, ← partsOf, ← partsOf,
        join_run some chain, flatMap_raw_placed, run.spelling.flatMap_raw,
        induction, List.map_cons]
      intro last final next member
      apply apart last final
      cases runs with
      | nil => simp [spacedTokens, partsOf] at member
      | @cons _ following _ _ second _ =>
          obtain ⟨lexeme, tail, rfl⟩ := List.exists_cons_of_ne_nil second.some
          cases member
          rw [run.spelling.flatMap_raw]
          rfl

theorem exists_parts {tokens : List Token}
    (plain : ∀ t ∈ tokens, t.kind ≠ .environment ∧ t.raw ≠ "") :
    ∃ parts : List Part, Part.tokensOf parts = tokens ∧
      ∀ env, parts.mapM (Part.kept? env) = some (partsOf tokens) := by
  induction tokens with
  | nil => exact ⟨[], rfl, fun _ => rfl⟩
  | cons t tokens induction =>
      obtain ⟨⟨other, written⟩, others⟩ := List.forall_mem_cons.1 plain
      obtain ⟨parts, rfl, kept⟩ := induction others
      refine ⟨.plain t other :: parts, rfl, fun env => ?_⟩
      simp [kept, Part.kept?, Part.written?, written, partsOf, Part.first,
        Part.last]

theorem Balanced.of_map_kind {inner : Nat} {ts us : List Token}
    (balanced : Balanced inner ts)
    (same : ts.map Token.kind = us.map Token.kind) :
    Balanced inner us := by
  have count : ∀ n kind,
      (us.take n).countP (·.kind = kind) =
        (ts.take n).countP (·.kind = kind) := by
    intro n kind
    have whole :=
      congrArg (fun kinds => (kinds.take n).countP (decide <| · = kind)) same
    simpa [← List.map_take, List.countP_map, Function.comp_def] using whole.symm
  have length : ts.length = us.length := by
    simpa using congrArg List.length same
  constructor
  · intro before begins
    rw [List.prefix_iff_eq_take] at begins
    rw [begins, count, count]
    exact balanced.1 _ (List.take_prefix _ _)
  · have closed := balanced.2
    rw [← List.take_length (l := ts), length, ← count, ← count,
      List.take_length] at closed
    exact closed

theorem reads_runs {texts : List (List Char)} {lexemes : List (List Lexeme)}
    (runs : List.Forall₂ SpellsRun texts lexemes)
    (p : Position) :
    ReadsBefore (p.advance ' ')
      (spaced texts).tail (spacedTokens p lexemes) := by
  cases runs with
  | nil => exact fun context _ => Reads.nil context
  | @cons text lexemes texts others run runs =>
      have behind := reads_spaced (runs.imp fun _ _ => SpellsRun.spelling)
        ((p.advance ' ').advanceBy text)
      rw [spaced_cons, spacedTokens, run.spelling.flatMap_raw]
      exact (run.spelling.reads _).append_before (stops_spaced texts) behind

theorem mem_placed {p : Position} {lexemes : List Lexeme} {t : Token}
    (member : t ∈ placed p lexemes) :
    ∃ lexeme ∈ lexemes, ∃ q, t = lexeme.toToken q := by
  induction lexemes generalizing p with
  | nil => simp at member
  | cons lexeme lexemes induction =>
      rcases List.mem_cons.1 member with rfl | later
      · exact ⟨lexeme, by simp, p, rfl⟩
      · obtain ⟨other, among, place⟩ := induction later
        exact ⟨other, List.mem_cons_of_mem _ among, place⟩

theorem plain_of_runs {texts : List (List Char)} {lexemes : List (List Lexeme)}
    (runs : List.Forall₂ SpellsRun texts lexemes) (p : Position) :
    ∀ t ∈ spacedTokens p lexemes,
      t.kind ≠ .environment ∧ t.kind ≠ .openBrace ∧ t.raw ≠ "" := by
  induction runs generalizing p with
  | nil => simp [spacedTokens]
  | @cons text lexemes texts others run runs induction =>
      intro t member
      rcases List.mem_append.1 member with here | later
      · obtain ⟨lexeme, among, q, rfl⟩ := mem_placed here
        obtain ⟨c, rest, _, read⟩ := run.spelling.of_mem among
        exact ⟨(run.plain lexeme among).1, (run.plain lexeme among).2,
          toToken_raw_ne_empty read⟩
      · exact induction _ t later

theorem spelling_if :
    Spelling ['i', 'f'] [⟨.identifier, ['i', 'f'], ['i', 'f'], []⟩] :=
  .single (by decide) (by decide) (by decide)

theorem reads_condition {args : List (List Char)} {lexemes : List (List Lexeme)}
    (runs : List.Forall₂ SpellsRun args lexemes)
    (p : Position) :
    ∃ (sign : Token.Of .identifier) (opening : Token.Of .openParen)
      (q : Position)
      (closing : Token.Of .closeParen) (brace : Token.Of .openBrace),
      Reads p (['i', 'f', ' '] ++ ['('] ++ (spaced args).tail ++ [')'] ++
        [' ', '\x7b'])
        (sign.1 :: opening.1 :: (spacedTokens q lexemes ++
          [closing.1, brace.1])) ∧
      sign.1.value = "if" ∧ sign.1.position = p := by
  obtain ⟨q, place⟩ : ∃ q : Position,
      q.advance ' ' = p.advanceBy ['i', 'f', ' ', '('] := ⟨⟨p.line,
    p.column + 3⟩, by simp [Position.advance, Position.advanceBy]; omega⟩
  obtain ⟨opening, readsOpening⟩ :=
    reads_punctuation (c := '(') rfl (p.advanceBy ['i', 'f', ' '])
  have inside := reads_runs runs q
  rw [place] at inside
  have before :=
    ((reads_space spelling_if p).append readsOpening).append_before inside
  obtain ⟨closing, readsClosing⟩ := reads_punctuation (c := ')') rfl
    (p.advanceBy (['i', 'f', ' '] ++ ['('] ++ (spaced args).tail))
  obtain ⟨brace, whole⟩ := reads_brace fun context _ =>
    before.append (.punctuation rfl []) (by simp) readsClosing context
  refine ⟨⟨toToken ⟨.identifier, ['i', 'f'], ['i', 'f'], []⟩ p, rfl⟩, opening,
    q, closing, brace, ?_, rfl, rfl⟩
  simpa using whole

theorem exists_condition
    {args : List (List Char)} {lexemes : List (List Lexeme)}
    (runs : List.Forall₂ SpellsRun args lexemes)
    (balanced :
      Balanced 0 (lexemes.flatten.map fun lexeme => lexeme.toToken .start))
    (p : Position) :
    ∃ o : Opening,
      Reads p (['i', 'f', ' '] ++ ['('] ++ (spaced args).tail ++ [')'] ++
        [' ', '\x7b']) o.tokens ∧
      ∀ env, o.heading? env = some (.condition (args.map String.ofList) p) := by
  obtain ⟨sign, opening, q, closing, brace, whole, isIf, place⟩ :=
    reads_condition runs p
  have plain := plain_of_runs runs q
  obtain ⟨parts, tokens, kept⟩ := exists_parts fun t member =>
    ⟨(plain t member).1, (plain t member).2.2⟩
  refine ⟨.condition sign isIf (.enclosed opening parts closing ?_ ?_) brace,
    ?_, ?_⟩
  · rw [tokens]
    exact fun t member => (plain t member).2.1
  · rw [tokens]
    apply balanced.of_map_kind
    rw [map_kind_spacedTokens, List.map_map]
    rfl
  · simpa [Opening.tokens, Condition.tokens, tokens] using whole
  · intro env
    simp only [Opening.heading?, Condition.args?, Condition.parts, kept,
      join_spaced runs q, Option.map_some, place]
    rfl

def inlineWord : List Char :=
  ['%', 'i', 'n', 'l', 'i', 'n', 'e']

theorem spelling_inline :
    Spelling inlineWord [⟨.inline, inlineWord, inlineWord, []⟩] :=
  .single (by decide) (by decide) (by decide)

theorem reads_inline {name : List Char} {lexeme : Lexeme}
    (spelling : Spelling name [lexeme])
    (p : Position) :
    ∃ (sign : Token.Of .inline) (opening : Token.Of .openParen) (q : Position)
      (closing : Token.Of .closeParen) (semicolon : Token.Of .semicolon),
      Reads p (inlineWord ++ ['('] ++ name ++ [')'] ++ [';'])
        [sign.1, opening.1, lexeme.toToken q, closing.1, semicolon.1] ∧
          sign.1.position = p := by
  obtain ⟨opening, readsOpening⟩ :=
    reads_punctuation (c := '(') rfl (p.advanceBy inlineWord)
  have sign := (spelling_inline.reads p).append (.punctuation rfl [])
    (by simp) readsOpening
  have named := sign.append_before (spelling.reads _)
  obtain ⟨closing, readsClosing⟩ :=
    reads_punctuation (c := ')') rfl (p.advanceBy (inlineWord ++ ['('] ++ name))
  have closed := named.append (.punctuation rfl []) (by simp) readsClosing
  obtain ⟨semicolon, readsSemicolon⟩ :=
    reads_punctuation (c :=
      ';') rfl (p.advanceBy (inlineWord ++ ['('] ++ name ++ [')']))
  have whole := closed.append readsSemicolon
  refine ⟨⟨toToken ⟨.inline, inlineWord, inlineWord, []⟩ p, rfl⟩, opening,
    p.advanceBy (inlineWord ++ ['(']), closing, semicolon, ?_, rfl⟩
  simpa using whole

theorem exists_inline {name : List Char} {lexeme : Lexeme}
    (spelling : Spelling name [lexeme])
    (kind : lexeme.kind = .variable)
    (p : Position) :
    ∃ l : Leaf,
      Reads p (inlineWord ++ ['('] ++ name ++ [')'] ++ [';']) l.tokens ∧
      ∀ env, l.statement? env = some (.reference (String.ofList name) p) := by
  obtain ⟨sign, opening, q, closing, semicolon, whole, place⟩ :=
    reads_inline spelling p
  refine ⟨.inline sign opening ⟨lexeme.toToken q, kind⟩ closing semicolon,
    whole, ?_⟩
  intro env
  obtain ⟨c, rest, _, read⟩ := spelling.of_mem (List.mem_singleton_self lexeme)
  have same : lexeme.value = name := by
    rcases read?_cases read with ⟨_, _, same⟩ | ⟨_, string, _⟩
    · simpa [same] using spelling.flatMap_raw
    · rw [kind] at string
      cases string
  simp [Leaf.statement?, toToken, same, place]

end Grammar

end ServerConf
