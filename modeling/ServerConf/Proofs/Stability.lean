import ServerConf.Proofs.Expansion

namespace ServerConf

open Lexeme Grammar

mutual

theorem Statement.ownLines_unplaced (options : RenderOptions) (depth : Nat) :
    (s : Statement) →
      s.unplaced.ownLines options depth = s.ownLines options depth
  | .directive ..
  | .reference ..
  | .definition ..
  | .importFile ..
  | .stray .. => rfl
  | .block _ _ children _ => by
    rw [Statement.unplaced, Statement.ownLines, Statement.ownLines,
      ownLinesOf_unplacedAll options (depth + 1) children]
  | .location _ _ children _ => by
    rw [Statement.unplaced, Statement.ownLines, Statement.ownLines,
      ownLinesOf_unplacedAll options (depth + 1) children]

theorem ownLinesOf_unplacedAll (options : RenderOptions) (depth : Nat) :
    (ss : List Statement) →
      ownLinesOf options depth (unplacedAll ss) = ownLinesOf options depth ss
  | [] => rfl
  | s :: rest => by
    rw [unplacedAll, ownLinesOf, ownLinesOf, s.ownLines_unplaced options depth,
      ownLinesOf_unplacedAll options depth rest]

end

theorem Throughout.congr {P : Line → Prop} {first second : List Statement}
    (throughout : Throughout P first)
    (same : unplacedAll second = unplacedAll first) :
    Throughout P second := by
  induction throughout generalizing second with
  | nil =>
      cases second with
      | nil => exact .nil
      | cons => simp [unplacedAll] at same
  | directive here _ induction =>
      cases second with
      | nil => simp [unplacedAll] at same
      | cons s rest =>
          obtain ⟨head, tail⟩ := List.cons.inj same
          cases s <;>
            simp only [Statement.unplaced, Statement.directive.injEq,
              reduceCtorEq] at head
          obtain ⟨rfl, rfl, _⟩ := head
          exact .directive here (induction tail)
  | block here _ _ insideInduction induction =>
      cases second with
      | nil => simp [unplacedAll] at same
      | cons s rest =>
          obtain ⟨head, tail⟩ := List.cons.inj same
          cases s <;> simp only [Statement.unplaced, Statement.block.injEq,
            reduceCtorEq] at head
          obtain ⟨rfl, rfl, inside, _⟩ := head
          exact .block here (insideInduction inside) (induction tail)
  | location here _ _ insideInduction induction =>
      cases second with
      | nil => simp [unplacedAll] at same
      | cons s rest =>
          obtain ⟨head, tail⟩ := List.cons.inj same
          cases s <;> simp only [Statement.unplaced, Statement.location.injEq,
            reduceCtorEq] at head
          obtain ⟨rfl, rfl, inside, _⟩ := head
          exact .location here (insideInduction inside) (induction tail)
  | reference here _ induction =>
      cases second with
      | nil => simp [unplacedAll] at same
      | cons s rest =>
          obtain ⟨head, tail⟩ := List.cons.inj same
          cases s <;>
            simp only [Statement.unplaced, Statement.reference.injEq,
              reduceCtorEq] at head
          obtain ⟨rfl, _⟩ := head
          exact .reference here (induction tail)

def Line.isLeaf : Line → Bool
  | .directive _ _ => true
  | .block _ _ => false
  | .location _ _ => false
  | .reference _ => true

def Line.header : Line → String
  | .directive name args => name ++ Argument.line args
  | .block name args => blockHeader name args
  | .location modifier path => locationHeader modifier path
  | .reference name => "%inline(" ++ name ++ ")"

def Line.text (line : Line) : String :=
  line.header ++ if line.isLeaf then ";" else " \x7b"

theorem Line.toList_directive_text (name : String) (args : List String) :
    (Line.directive name args).text.toList =
      name.toList ++ (spaced
        (args.map fun arg => Argument.quoteChars arg.toList) ++ [';']) := by
  simp [text, header, isLeaf, Argument.toList_line]

theorem Line.toList_block_text {name : String}
    (other : name ≠ "if")
    (args : List String) :
    (Line.block name args).text.toList =
      name.toList ++
        (spaced (args.map fun arg => Argument.quoteChars arg.toList) ++
          [' ', '\x7b']) := by
  simp [text, header, isLeaf, blockHeader, other, Argument.toList_line]

theorem Line.toList_condition_text (args : List String) :
    (Line.block "if" args).text.toList =
      ['i', 'f', ' '] ++ ['('] ++
        (spaced (args.map String.toList)).tail ++ [')'] ++
        [' ', '\x7b'] := by
  simp [text, header, isLeaf, blockHeader, Text.toList_joinWith_space]

theorem Line.toList_location_text (modifier : Modifier) (path : String) :
    (Line.location modifier path).text.toList =
      locationWord ++ ([' '] ++ modifierText (modifier.splitPath path).1 ++
        Argument.quoteChars (modifier.splitPath path).2.toList ++
          [' ', '\x7b']) := by
  simp [text, header, isLeaf, toList_locationHeader]

theorem Line.toList_reference_text (name : String) :
    (Line.reference name).text.toList = inlineWord ++ ['('] ++ name.toList ++
      [')'] ++ [';'] := by
  simp [text, header, isLeaf, inlineWord]

inductive Line.Heads : Line → Statement → List Statement → Prop where
  | directive {name : String} {args : List String} {position : Position} :
      Heads (.directive name args) (.directive name args position) []
  | block {name : String} {args : List String} {children : List Statement}
      {position : Position} :
        Heads (.block name args) (.block name args children position) children
  | location {modifier : Modifier} {path : String} {children : List Statement}
      {position : Position} :
      Heads (.location modifier path)
        (.location modifier [path] children position) children
  | reference {name : String} {position : Position} :
      Heads (.reference name) (.reference name position) []

def Line.inner (line : Line) (options : RenderOptions) (depth : Nat)
    (children : List Statement) : List String :=
  if line.isLeaf then []
  else ownLinesOf options (depth + 1) children ++
    [options.indentation depth ++ "\x7d"]

theorem Line.Heads.ownLinesOf_cons
    {line : Line} {s : Statement} {children : List Statement}
    (heads : line.Heads s children)
    (options : RenderOptions) (depth : Nat) (rest : List Statement) :
    ownLinesOf options depth (s :: rest) =
      (options.indentation depth ++ line.text) ::
      (line.inner options depth children ++ ownLinesOf options depth rest) := by
  cases heads <;>
    simp [ownLinesOf, Statement.ownLines, Line.text, Line.header, Line.isLeaf,
      Line.inner, enclosed, String.append_assoc]

theorem Line.Heads.eq_nil
    {line : Line} {s : Statement} {children : List Statement}
    (heads : line.Heads s children)
    (isLeaf : line.isLeaf = true) :
    children = [] := by
  cases heads with
  | directive | reference => rfl
  | block | location => cases isLeaf

theorem Line.exists_heads (line : Line) (children : List Statement) :
    ∃ s inside, line.Heads s inside ∧
      (line.isLeaf = false → inside = children) ∧
      (line.isLeaf = true → inside = []) := by
  cases line with
  | directive name args =>
      exact ⟨.directive name args ⟨0, 0⟩, [], .directive, nofun, fun _ => rfl⟩
  | block name args =>
      exact ⟨.block name args children ⟨0, 0⟩, children, .block,
        fun _ => rfl, nofun⟩
  | location modifier path =>
      exact ⟨.location modifier [path] children ⟨0, 0⟩, children, .location,
        fun _ => rfl, nofun⟩
  | reference name =>
      exact ⟨.reference name ⟨0, 0⟩, [], .reference, nofun, fun _ => rfl⟩

theorem Throughout.cons
    {P : Line → Prop} {line : Line} {s : Statement}
    {children rest : List Statement}
    (heads : line.Heads s children)
    (here : P line)
    (inside : Throughout P children)
    (behind : Throughout P rest) :
    Throughout P (s :: rest) := by
  cases heads with
  | directive => exact .directive here behind
  | block => exact .block here inside behind
  | location => exact .location here inside behind
  | reference => exact .reference here behind

theorem Throughout.recursion {P : Line → Prop} {motive : List Statement → Prop}
    (nil : motive [])
    (cons : ∀ {line s children rest}, line.Heads s children → P line →
      Throughout P children → Throughout P rest → motive children →
      motive rest → motive (s :: rest))
    {statements : List Statement}
    (throughout : Throughout P statements) :
    motive statements := by
  induction throughout with
  | nil => exact nil
  | directive here behind induction =>
      exact cons .directive here .nil behind nil induction
  | block here inside behind insideInduction induction =>
      exact cons .block here inside behind insideInduction induction
  | location here inside behind insideInduction induction =>
      exact cons .location here inside behind insideInduction induction
  | reference here behind induction =>
      exact cons .reference here .nil behind nil induction

theorem Line.isLeaf_congr {first second : Line}
    (same : first.text = second.text) :
    first.isLeaf = second.isLeaf := by
  have last := congrArg (fun text => text.toList.getLast?) same
  cases left : first.isLeaf <;> cases right : second.isLeaf <;>
    simp [text, left, right] at last ⊢

def WrittenAs (P : Line → Prop) (statements : List Statement) : Prop :=
  ∃ others, Throughout P others ∧
    ∀ options depth,
      ownLinesOf options depth others = ownLinesOf options depth statements

theorem WrittenAs.cons
    {P : Line → Prop} {line other : Line} {s : Statement}
    {children rest : List Statement}
    (heads : line.Heads s children)
    (here : P other)
    (same : other.text = line.text)
    (inside : WrittenAs P children)
    (behind : WrittenAs P rest) :
    WrittenAs P (s :: rest) := by
  obtain ⟨inner, innerThroughout, innerAgree⟩ := inside
  obtain ⟨others, throughout, agree⟩ := behind
  obtain ⟨t, within, otherHeads, opens, leaf⟩ := other.exists_heads inner
  have alike := Line.isLeaf_congr same
  refine ⟨t :: others, .cons otherHeads here ?_ throughout, ?_⟩
  · cases isLeaf : other.isLeaf with
    | true =>
        rw [leaf isLeaf]
        exact .nil
    | false =>
        rw [opens isLeaf]
        exact innerThroughout
  · intro options depth
    rw [heads.ownLinesOf_cons, otherHeads.ownLinesOf_cons, same, agree,
      Line.inner, Line.inner, alike]
    cases isLeaf : line.isLeaf with
    | true => rfl
    | false => rw [opens (alike.trans isLeaf), innerAgree]

/-- A line that can be written again: its text is also that of a line that is
read back as what it was written for. -/
def Line.Stable (expands : Bool) (line : Line) : Prop :=
  ∃ other : Line, (other.Legible ∧ other.Kept expands) ∧ other.text = line.text

theorem Throughout.writtenAs {expands : Bool} {statements : List Statement}
    (stable : Throughout (Line.Stable expands) statements) :
    WrittenAs (fun line => line.Legible ∧ line.Kept expands) statements := by
  refine stable.recursion ⟨[], .nil, fun _ _ => rfl⟩ ?_
  intro line s children rest heads here _ _ inside behind
  obtain ⟨other, readable, same⟩ := here
  exact .cons heads readable same inside behind

/-- A line as it is written for a statement from a source: its name or its
condition is spelled as it was there. -/
inductive Line.Spelled (expands : Bool) : Line → Prop where
  | directive {name : String} {args : List String}
      (named : ∃ lexemes, SpellsName name.toList lexemes) :
        Spelled expands (.directive name args)
  | block {name : String} {args : List String}
      (named : ∃ lexemes, SpellsName name.toList lexemes) :
        Spelled expands (.block name args)
  | condition {args : List String}
      (runs :
        ∃ lexemes, List.Forall₂ SpellsRun (args.map String.toList) lexemes) :
      Spelled expands (.block "if" args)
  | location {modifier : Modifier} {path : String} :
      Spelled expands (.location modifier path)
  | reference {name : String}
      (spelled : ∃ lexeme, Spelling name.toList [lexeme] ∧
        lexeme.kind = .variable)
      (unexpanded : expands = false) :
      Spelled expands (.reference name)

theorem Line.Spelled.begins {expands : Bool} {line : Line}
    (spelled : line.Spelled expands) :
    line.Begins := by
  cases spelled with
  | directive named | block named =>
      obtain ⟨lexemes, spells⟩ := named
      exact spells.spelling.shown spells.isTerm.ne_nil
  | condition => exact ⟨'i', rfl, by decide⟩
  | location | reference => trivial

theorem Throughout.append {P : Line → Prop} {first second : List Statement}
    (left : Throughout P first)
    (right : Throughout P second) :
    Throughout P (first ++ second) := by
  induction left with
  | nil => exact right
  | directive here _ induction => exact .directive here induction
  | block here inside _ _ induction => exact .block here inside induction
  | location here inside _ _ induction => exact .location here inside induction
  | reference here _ induction => exact .reference here induction

theorem Expands.spelled
    {expands : Bool} {table : Templates} {statements out : List Statement}
    (expanded : Expands expands table statements out)
    (sourced : Sourced statements)
    (bodies : ∀ name body, table.get? name = some body → Sourced body) :
    Throughout (Line.Spelled expands) out := by
  induction expanded with
  | nil => exact .nil
  | directive _ induction =>
      cases sourced with | directive named behind =>
      exact .directive (.directive named) (induction behind)
  | block _ _ insideInduction induction =>
      cases sourced with
      | block named inside behind =>
          exact .block (.block named) (insideInduction inside)
            (induction behind)
      | condition runs inside behind =>
          exact .block (.condition runs) (insideInduction inside)
            (induction behind)
  | @location modifier paths children inner rest out position _ _
      insideInduction induction =>
      cases sourced with | location some inside behind =>
      apply Throughout.append _ (induction behind)
      clear some
      induction paths with
      | nil => exact .nil
      | cons path paths pathInduction =>
          exact .location .location (insideInduction inside) pathInduction
  | definition _ induction =>
      cases sourced with | definition _ behind =>
      exact induction behind
  | kept unexpanded _ induction =>
      cases sourced with | reference spelled behind =>
      exact .reference (.reference spelled unexpanded) (induction behind)
  | replaced _ found _ _ insideInduction induction =>
      cases sourced with | reference _ behind =>
      exact (insideInduction (bodies _ _ found)).append (induction behind)

theorem Site.render_again {site : Site}
    (blank : site.options.Blank)
    {origin : Option Path} {scope : Scope}
    (started : site.startScope origin = .ok scope)
    {statements : List Statement}
    (stable : Throughout (Line.Stable site.options.expandTemplates) statements)
    (env : Environment) (filename : String) :
    ∃ again, Document.parse env filename
        (Text.joinWith "\n" (ownLinesOf site.options 0 statements)) =
          .ok again ∧
      (site.render again origin).result =
        .ok (Text.joinWith "\n" (ownLinesOf site.options 0 statements)) := by
  obtain ⟨others, readable, agree⟩ := stable.writtenAs
  rw [← agree]
  have legible : Throughout Line.Legible others :=
    readable.mono fun _ => And.left
  obtain ⟨again, parsed, _, same⟩ :=
    (legible.readAs blank 0 ⟨0, 1⟩).parse env filename
  have kept :
      Throughout (Line.Kept site.options.expandTemplates) again.children :=
    (readable.mono fun _ => And.right).congr same
  have lines : ownLinesOf site.options 0 again.children =
      ownLinesOf site.options 0 others := by
    rw [← ownLinesOf_unplacedAll, same, ownLinesOf_unplacedAll]
  refine ⟨again, parsed, ?_⟩
  rw [Site.render_result started fun handlers => kept.linesOf_eq handlers 0,
    lines, (legible.mono fun _ => Line.Legible.begins).trim_eq blank,
    String.ofList_toList]

end ServerConf
