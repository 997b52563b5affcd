import ServerConf.Proofs.LineSpelling
import ServerConf.Proofs.StatementReading
import ServerConf.Rendering.Lines

/-!
Statements that are read back as they were written, except for their places.
-/

namespace ServerConf

mutual

def Statement.unplaced : Statement → Statement
  | .directive name args _ => .directive name args ⟨0, 0⟩
  | .block name args children _ =>
      .block name args (unplacedAll children) ⟨0, 0⟩
  | .location modifier paths children _ =>
      .location modifier paths (unplacedAll children) ⟨0, 0⟩
  | .definition name body _ _ =>
      .definition name (unplacedAll body) ⟨0, 0⟩ ⟨0, 0⟩
  | .reference name _ => .reference name ⟨0, 0⟩
  | .importFile path _ => .importFile path ⟨0, 0⟩
  | .stray kind children => .stray kind (unplacedAll children)

def unplacedAll : List Statement → List Statement
  | [] => []
  | s :: rest => s.unplaced :: unplacedAll rest

end

open Lexeme Grammar

structure LegibleHeader
    (name : String) (args : List String) (nameLexemes : List Lexeme)
    (argLexemes : List (List Lexeme)) :
    Prop where
  spells : SpellsHeader name.toList
    (args.map fun arg => Argument.quoteChars arg.toList)
    nameLexemes argLexemes
  values :
    (argLexemes.map fun lexemes => String.ofList (lexemes.flatMap value)) = args

inductive Line where
  | directive (name : String) (args : List String)
  | block (name : String) (args : List String)
  | location (modifier : Modifier) (path : String)
  | reference (name : String)

/-- The property holds of every line, and the statements can be written without
looking anything up. -/
inductive Throughout (P : Line → Prop) : List Statement → Prop where
  | nil : Throughout P []
  | directive {name : String} {args : List String} {position : Position}
      {rest : List Statement}
      (here : P (.directive name args))
      (behind : Throughout P rest) :
      Throughout P (.directive name args position :: rest)
  | block {name : String} {args : List String} {children rest : List Statement}
      {position : Position}
      (here : P (.block name args))
      (inside : Throughout P children)
      (behind : Throughout P rest) :
      Throughout P (.block name args children position :: rest)
  | location {modifier : Modifier} {path : String}
      {children rest : List Statement} {position : Position}
      (here : P (.location modifier path))
      (inside : Throughout P children)
      (behind : Throughout P rest) :
      Throughout P (.location modifier [path] children position :: rest)
  | reference {name : String} {position : Position} {rest : List Statement}
      (here : P (.reference name))
      (behind : Throughout P rest) :
      Throughout P (.reference name position :: rest)

theorem Throughout.mono {P Q : Line → Prop} {statements : List Statement}
    (throughout : Throughout P statements)
    (implies : ∀ line, P line → Q line) :
    Throughout Q statements := by
  induction throughout with
  | nil => exact .nil
  | directive here _ induction => exact .directive (implies _ here) induction
  | block here _ _ inside induction =>
      exact .block (implies _ here) inside induction
  | location here _ _ inside induction =>
      exact .location (implies _ here) inside induction
  | reference here _ induction => exact .reference (implies _ here) induction

inductive Line.Legible : Line → Prop where
  | directive {name : String} {args : List String} {nameLexemes : List Lexeme}
      {argLexemes : List (List Lexeme)}
      (header : LegibleHeader name args nameLexemes argLexemes)
      (oneLine : KeepsLine name.toList argLexemes) :
      Legible (.directive name args)
  | block {name : String} {args : List String} {nameLexemes : List Lexeme}
      {argLexemes : List (List Lexeme)}
      (header : LegibleHeader name args nameLexemes argLexemes)
      (noLocation :
        ∀ arg ∈ argLexemes, ∀ lexeme ∈ arg.head?, lexeme.kind ≠ .location) :
      Legible (.block name args)
  | condition {args : List String} {lexemes : List (List Lexeme)}
      (runs : List.Forall₂ SpellsRun (args.map String.toList) lexemes)
      (balanced :
        Balanced 0 (lexemes.flatten.map fun lexeme => lexeme.toToken .start)) :
      Legible (.block "if" args)
  | location {modifier : Modifier} {path : String} {lexemes : List Lexeme}
      (unsigned : Modifier.ofPath? path.toList = none)
      (spells : SpellsPath modifier (Argument.quoteChars path.toList) lexemes)
      (value : String.ofList (lexemes.flatMap value) = path) :
      Legible (.location modifier path)
  | reference {name : String} {lexeme : Lexeme}
      (spelling : Spelling name.toList [lexeme])
      (kind : lexeme.kind = .variable) :
      Legible (.reference name)

mutual

def Statement.ownLines (options : RenderOptions) (depth : Nat) :
    Statement → List String
  | .directive name args _ =>
    [options.indentation depth ++ name ++ Argument.line args ++ ";"]
  | .block name args children _ =>
    enclosed (options.indentation depth) (blockHeader name args)
      (ownLinesOf options (depth + 1) children)
  | .location modifier paths children _ =>
    paths.flatMap fun path =>
      enclosed (options.indentation depth) (locationHeader modifier path)
        (ownLinesOf options (depth + 1) children)
  | .reference name _ =>
      [options.indentation depth ++ "%inline(" ++ name ++ ");"]
  | _ => []

def ownLinesOf (options : RenderOptions) (depth : Nat) :
    List Statement → List String
  | [] => []
  | s :: rest => s.ownLines options depth ++ ownLinesOf options depth rest

end

/-- A reference is written only where templates are not expanded. -/
def Line.Kept (expands : Bool) : Line → Prop
  | .reference _ => expands = false
  | _ => True

theorem Throughout.linesOf_eq
    {options : RenderOptions} {statements : List Statement}
    (kept : Throughout (Line.Kept options.expandTemplates) statements)
    (handlers : Handlers) (depth : Nat) :
    linesOf options handlers depth statements =
      pure (ownLinesOf options depth statements) := by
  induction kept generalizing depth with
  | nil => rfl
  | directive _ _ induction =>
      simp [linesOf, Statement.lines, ownLinesOf, Statement.ownLines, induction]
  | block _ _ _ inside induction =>
      simp [linesOf, Statement.lines, ownLinesOf, Statement.ownLines, inside,
        induction]
  | location _ _ _ inside induction =>
      simp [linesOf, Statement.lines, ownLinesOf, Statement.ownLines, inside,
        induction]
  | reference here _ induction =>
      simp only [Line.Kept] at here
      simp [linesOf, Statement.lines, ownLinesOf, Statement.ownLines, here,
        induction]

theorem Argument.toList_line (args : List String) :
    (line args).toList =
      spaced (args.map fun arg => quoteChars arg.toList) := by
  induction args with
  | nil => rfl
  | cons arg args induction =>
      simp only [line, spaced, List.map_cons, String.join_cons,
        String.toList_append] at induction ⊢
      rw [induction]
      simp [quote]

theorem Text.toList_joinWith_space (texts : List String) :
    (joinWith " " texts).toList = (spaced (texts.map String.toList)).tail := by
  cases texts with
  | nil => rfl
  | cons text texts =>
      induction texts generalizing text with
      | nil => simp [spaced]
      | cons next texts induction =>
          rw [joinWith_cons_cons, String.toList_append, String.toList_append,
            induction]
          simp [spaced]

def written (lines : List String) : List Char :=
  lines.flatMap fun line => '\n' :: line.toList

@[simp] theorem written_nil : written [] = [] := rfl

@[simp] theorem written_cons (line : String) (lines : List String) :
    written (line :: lines) = '\n' :: line.toList ++ written lines := rfl

@[simp] theorem written_append (first second : List String) :
    written (first ++ second) = written first ++ written second := by
  simp [written]

theorem Gap.form_of_blank {gap : List Char}
    (blank : ∀ c ∈ gap, Text.isBlank c = true) :
    Form false gap := by
  induction gap with
  | nil => exact .nil
  | cons c gap induction =>
      rw [List.forall_mem_cons] at blank
      exact .blank blank.1 (induction blank.2)

def RenderOptions.Blank (options : RenderOptions) : Prop :=
  ∃ indent, options.indent = .text indent ∧
    ∀ c ∈ indent.toList, Text.isBlank c = true

theorem RenderOptions.Blank.indentation_zero {options : RenderOptions}
    (blank : options.Blank) :
    options.indentation 0 = "" := by
  obtain ⟨indent, given, _⟩ := blank
  simp [indentation, given]

theorem RenderOptions.Blank.isBlank {options : RenderOptions}
    (blank : options.Blank)
    (depth : Nat) :
    ∀ c ∈ (options.indentation depth).toList, Text.isBlank c = true := by
  obtain ⟨indent, given, blanks⟩ := blank
  intro c member
  simp only [indentation, given, String.toList_join, List.mem_flatMap,
    List.mem_replicate] at member
  obtain ⟨_, ⟨_, rfl⟩, inside⟩ := member
  exact blanks c inside

theorem RenderOptions.Blank.form {options : RenderOptions}
    (blank : options.Blank)
    (depth : Nat) :
    Gap.Form false (options.indentation depth).toList :=
  Gap.form_of_blank (blank.isBlank depth)

theorem RenderOptions.Blank.reads {options : RenderOptions}
    (blank : options.Blank)
    (depth : Nat) {p : Position} {content : List Char} {tokens : List Token}
    (reads : Reads (p.advanceBy ('\n' :: (options.indentation depth).toList))
      content tokens) :
    Reads p ('\n' :: (options.indentation depth).toList ++ content) tokens := by
  have gap : Gap.Form false ('\n' :: (options.indentation depth).toList) :=
    .blank (by decide) (blank.form depth)
  exact (Reads.gap gap).append reads

theorem toList_locationHeader (modifier : Modifier) (path : String) :
    (locationHeader modifier path).toList =
      locationWord ++ [' '] ++ modifierText (modifier.splitPath path).1 ++
        Argument.quoteChars (modifier.splitPath path).2.toList := by
  simp only [locationHeader]
  generalize modifier.splitPath path = split
  obtain ⟨found, rest⟩ := split
  cases found <;>
    simp [modifierText, locationWord, Modifier.text, Argument.quote]

def ReadAs (p : Position) (lines : List String) (statements : List Statement) :
    Prop :=
  ∃ ps, Reads p (written lines) (tokensOf ps) ∧
    ∀ env, ∃ read, statementsOf? env ps = some read ∧
      unplacedAll read = unplacedAll statements

theorem ReadAs.nil (p : Position) : ReadAs p [] [] :=
  ⟨[], .nil, fun _ => ⟨[], rfl, rfl⟩⟩

theorem ReadAs.leaf
    {p : Position} {l : Leaf} {s : Statement} {line : String}
    {lines : List String} {rest : List Statement}
    (reads : Reads p (written [line]) l.tokens)
    (meaning : ∀ env, ∃ read, l.statement? env = some read ∧
      read.unplaced = s.unplaced)
    (behind : ∀ q, ReadAs q lines rest) :
    ReadAs p (line :: lines) (s :: rest) := by
  obtain ⟨ps, readsBehind, others⟩ := behind (p.advanceBy (written [line]))
  refine ⟨.leaf l :: ps, ?_, ?_⟩
  · rw [show line :: lines = [line] ++ lines from rfl, written_append]
    exact reads.append readsBehind
  · intro env
    obtain ⟨first, settled, same⟩ := meaning env
    obtain ⟨read, settledBehind, sameBehind⟩ := others env
    refine ⟨first :: read, ?_, ?_⟩
    · simp [statementsOf?, Phrase.statement?, settled, settledBehind]
    · simp [unplacedAll, same, sameBehind]

theorem ReadAs.group {options : RenderOptions}
    (blank : options.Blank)
    {depth : Nat} {p : Position} {header : String} {inner lines : List String}
    {o : Opening} {s : Statement} {children rest : List Statement}
    (opens : Reads (p.advanceBy ('\n' :: (options.indentation depth).toList))
      (header.toList ++ [' ', '\x7b']) o.tokens)
    (meaning : ∀ env, ∃ h, o.heading? env = some h ∧
      (∀ brace : Token.Of .closeBrace, h.Closes [brace.1]) ∧ ∀ read, unplacedAll
      read = unplacedAll children → (h.around read).unplaced = s.unplaced)
    (inside : ∀ q, ReadAs q inner children)
    (behind : ∀ q, ReadAs q lines rest) :
    ReadAs p (enclosed (options.indentation depth) header inner ++ lines)
      (s :: rest) := by
  have opening := blank.reads depth opens
  generalize firstLine :
    '\n' :: (options.indentation depth).toList ++
      (header.toList ++ [' ', '\x7b']) = first
      at opening
  obtain ⟨body, readsBody, bodyMeaning⟩ := inside (p.advanceBy first)
  obtain ⟨brace, readsBrace⟩ := reads_punctuation (c := '\x7d') rfl
    ((p.advanceBy (first ++ written inner)).advanceBy
      ('\n' :: (options.indentation depth).toList))
  have group := (opening.append readsBody).append (blank.reads depth readsBrace)
  obtain ⟨ps, readsBehind, others⟩ := behind (p.advanceBy (first ++
    written inner ++ ('\n' :: (options.indentation depth).toList ++ ['\x7d'])))
  have closes : o.Closes [brace.1] := by
    obtain ⟨h, settled, closes, _⟩ := meaning .empty
    exact (o.closes_iff settled _).2 (closes brace)
  refine ⟨.group o body [brace.1] closes :: ps, ?_, ?_⟩
  · have whole := group.append readsBehind
    subst first
    simpa [enclosed, tokensOf, Phrase.tokens] using whole
  · intro env
    obtain ⟨h, settled, _, around⟩ := meaning env
    obtain ⟨readBody, settledBody, sameBody⟩ := bodyMeaning env
    obtain ⟨read, settledBehind, sameBehind⟩ := others env
    refine ⟨h.around readBody :: read, ?_, ?_⟩
    · simp [statementsOf?, Phrase.statement?, settled, settledBody,
        settledBehind]
    · simp [unplacedAll, around readBody sameBody, sameBehind]

theorem Throughout.readAs {options : RenderOptions} (blank : options.Blank)
    {statements : List Statement} (legible : Throughout Line.Legible statements)
    (depth : Nat) (p : Position) :
    ReadAs p (ownLinesOf options depth statements) statements := by
  induction legible generalizing depth p with
  | nil => exact .nil p
  | @directive name args position rest here behind induction =>
      cases here with | directive header oneLine =>
      obtain ⟨l, reads, meaning⟩ := exists_directive header.spells oneLine
        (p.advanceBy ('\n' :: (options.indentation depth).toList))
      refine .leaf (l := l) ?_ ?_ (induction depth)
      · simpa [written, Argument.toList_line] using blank.reads depth reads
      · intro env
        refine ⟨_, meaning env, ?_⟩
        rw [header.values, String.ofList_toList]
        rfl
  | @block name args children rest position here inside behind insideInduction
      induction =>
      cases here with
      | block header noLocation =>
          obtain ⟨o, reads, meaning⟩ := exists_block header.spells noLocation
            (p.advanceBy ('\n' :: (options.indentation depth).toList))
          refine .group blank (o := o) ?_ ?_ (insideInduction (depth + 1))
            (induction depth)
          · simpa [blockHeader, header.spells.named.ne_if,
              Argument.toList_line] using reads
          · intro env
            refine ⟨_, meaning env, fun brace => ⟨brace, rfl⟩, ?_⟩
            intro read same
            rw [header.values, String.ofList_toList]
            simp [Heading.around, Statement.unplaced, same]
      | condition runs balanced =>
          obtain ⟨o, reads, meaning⟩ := exists_condition runs balanced
            (p.advanceBy ('\n' :: (options.indentation depth).toList))
          refine .group blank (o := o) ?_ ?_ (insideInduction (depth + 1))
            (induction depth)
          · simpa [blockHeader, Text.toList_joinWith_space] using reads
          · intro env
            refine ⟨_, meaning env, fun brace => ⟨brace, rfl⟩, ?_⟩
            intro read same
            simp [Heading.around, Statement.unplaced, same, Function.comp_def]
  | @location modifier path children rest position here inside behind
      insideInduction induction =>
      cases here with | location unsigned spells value =>
      obtain ⟨o, reads, meaning⟩ := exists_location spells
        (p.advanceBy ('\n' :: (options.indentation depth).toList))
      have opened := toList_locationHeader modifier path
      simp only [Modifier.splitPath, unsigned] at opened
      rw [ownLinesOf, Statement.ownLines, List.flatMap_singleton]
      refine .group blank (o := o) ?_ ?_ (insideInduction (depth + 1))
        (induction depth)
      · simpa [opened] using reads
      · intro env
        refine ⟨_, meaning env, fun brace => ⟨brace, rfl⟩, ?_⟩
        intro read same
        rw [value]
        simp [Heading.around, Statement.unplaced, same]
  | @reference name position rest here behind induction =>
      cases here with | reference spelling kind =>
      obtain ⟨l, reads, meaning⟩ := exists_inline spelling kind
        (p.advanceBy ('\n' :: (options.indentation depth).toList))
      refine .leaf (l := l) ?_ ?_ (induction depth)
      · simpa [written, inlineWord] using blank.reads depth reads
      · intro env
        refine ⟨_, meaning env, ?_⟩
        rw [String.ofList_toList]
        rfl

end ServerConf
