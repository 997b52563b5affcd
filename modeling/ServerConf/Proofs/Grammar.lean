import ServerConf.Reader.Statements
import Mathlib.Data.List.Chain

/-!
The grammar. A phrase is a statement as it was written, token by token; what it
means depends on the environment, but which phrases there are does not.
-/

namespace ServerConf

abbrev Token.Of (kind : TokenKind) := { t : Token // t.kind = kind }

@[simp] theorem Token.Of.kind_eq {kind : TokenKind} (t : Token.Of kind) :
    t.1.kind = kind := t.2

namespace Grammar

/-- The sign, a name in parentheses, and perhaps a value to fall back on. -/
structure Reference where
  sign : Token.Of .environment
  opening : Token.Of .openParen
  name : Token.Of .string
  fallback : Option (Token.Of .comma × Token.Of .string)
  closing : Token.Of .closeParen

namespace Reference

def following (r : Reference) : List Token :=
  r.opening.1 :: r.name.1 ::
    ((r.fallback.elim [] fun (comma, value) => [comma.1, value.1]) ++
      [r.closing.1])

def tokens (r : Reference) : List Token :=
  r.sign.1 :: r.following

def value? (env : Environment) (r : Reference) : Option String :=
  (env r.name.1.value).or (r.fallback.map fun (_, value) => value.1.value)

end Reference

inductive Part where
  | plain (t : Token) (other : t.kind ≠ .environment)
  | reference (r : Reference)

namespace Part

def first : Part → Token
  | .plain t _ => t
  | .reference r => r.sign.1

def following : Part → List Token
  | .plain _ _ => []
  | .reference r => r.following

def last : Part → Token
  | .plain t _ => t
  | .reference r => r.closing.1

def tokens (p : Part) : List Token :=
  p.first :: p.following

def text? (env : Environment) : Part → Option String
  | .plain t _ => some t.value
  | .reference r => r.value? env

def written? (env : Environment) : Part → Option String
  | .plain t _ => some (if t.raw.isEmpty then t.value else t.raw)
  | .reference r => r.value? env

def kept? (env : Environment) (p : Part) : Option ConditionPart :=
  (p.written? env).map (⟨·, p.first, p.last⟩)

def Glued (previous next : Part) : Prop :=
  next.first.kind.isGlue = true ∧ previous.last.touches next.first = true

def tokensOf (parts : List Part) : List Token :=
  parts.flatMap tokens

@[simp] theorem tokensOf_nil : tokensOf [] = [] := rfl

@[simp] theorem tokensOf_cons (p : Part) (parts : List Part) :
    tokensOf (p :: parts) = p.tokens ++ tokensOf parts := rfl

def textOf? (env : Environment) : List Part → Option String
  | [] => some ""
  | p :: parts => do return (← p.text? env) ++ (← textOf? env parts)

end Part

structure Word where
  first : Part
  more : List Part
  glued : List.IsChain Part.Glued (first :: more)

namespace Word

def parts (w : Word) : List Part :=
  w.first :: w.more

def tokens (w : Word) : List Token :=
  Part.tokensOf w.parts

def last (w : Word) : Token :=
  (w.more.getLast?.getD w.first).last

def text? (env : Environment) (w : Word) : Option String :=
  Part.textOf? env w.parts

def single (part : Part) : Word :=
  ⟨part, [], .singleton part⟩

def cons (part : Part) (w : Word) (glued : part.Glued w.first) : Word :=
  ⟨part, w.parts, .cons_cons glued w.glued⟩

@[simp] theorem tokens_single (part : Part) :
    (single part).tokens = part.tokens := by
  simp [tokens, parts, single]

@[simp] theorem last_single (part : Part) :
    (single part).last = part.last := rfl

@[simp] theorem text?_single (env : Environment) (part : Part) :
    (single part).text? env = part.text? env := by
  simp [text?, parts, single, Part.textOf?]

@[simp] theorem tokens_cons (part : Part) (w : Word)
    (glued : part.Glued w.first) :
    (cons part w glued).tokens = part.tokens ++ w.tokens := by
  simp [tokens, parts, cons]

@[simp] theorem last_cons (part : Part) (w : Word)
    (glued : part.Glued w.first) :
    (cons part w glued).last = w.last := by
  simp [last, parts, cons, List.getLast?_cons]

theorem text?_cons (env : Environment) (part : Part) (w : Word)
    (glued : part.Glued w.first) :
    (cons part w glued).text? env = do return (← part.text? env) ++
      (← w.text? env) :=
  rfl

theorem recursion {motive : Word → Prop}
    (single : ∀ part, motive (single part))
    (cons : ∀ part w glued, motive w → motive (cons part w glued))
    (w : Word) : motive w := by
  obtain ⟨first, more, glued⟩ := w
  induction more generalizing first with
  | nil => exact single first
  | cons second more induction =>
      rw [List.isChain_cons_cons] at glued
      exact cons first ⟨second, more,
        glued.2⟩ glued.1 (induction second glued.2)

theorem tokens_eq_cons (w : Word) :
    w.tokens = w.first.first :: w.tokens.tail := rfl

end Word

/-- A name, an argument or a path. -/
inductive Term where
  | quoted (t : Token.Of .string)
  | word (w : Word) (unquoted : w.first.first.kind ≠ .string)

namespace Term

def first : Term → Token
  | .quoted t => t.1
  | .word w _ => w.first.first

def tokens : Term → List Token
  | .quoted t => [t.1]
  | .word w _ => w.tokens

def text? (env : Environment) : Term → Option String
  | .quoted t => some t.1.value
  | .word w _ => w.text? env

def name? (env : Environment) : Term → Option String
  | .quoted t => some t.1.raw
  | .word w _ => w.text? env

def Apart (t : Term) (next : Token) : Prop :=
  match t with
  | .quoted _ => True
  | .word w _ => ¬ (next.kind.isGlue = true ∧ w.last.touches next = true)

def tokensOf (terms : List Term) : List Token :=
  terms.flatMap tokens

def textsOf? (env : Environment) (terms : List Term) : Option (List String) :=
  terms.mapM (text? env)

theorem tokens_eq_cons (t : Term) : t.tokens = t.first :: t.tokens.tail := by
  cases t <;> rfl

@[simp] theorem tokensOf_nil : tokensOf [] = [] := rfl

@[simp] theorem tokensOf_cons (t : Term) (terms : List Term) :
    tokensOf (t :: terms) = t.tokens ++ tokensOf terms := rfl

@[simp] theorem textsOf?_nil (env : Environment) :
    textsOf? env [] = some [] := rfl

@[simp] theorem textsOf?_cons
    (env : Environment) (t : Term) (terms : List Term) :
    textsOf? env (t :: terms) =
      do return (← t.text? env) :: (← textsOf? env terms) := by
  simp [textsOf?]

end Term

def isArgument (kind : TokenKind) : Bool :=
  kind.isName || kind = .equals

theorem isArgument_iff {kind : TokenKind} (unquoted : kind ≠ .string) :
    isArgument kind = (kind = .equals || kind.isWord) := by
  cases kind <;> simp_all [isArgument, TokenKind.isName, TokenKind.isWord]

theorem not_punctuation_of_isArgument {kind : TokenKind}
    (argument : isArgument kind = true) :
    kind ≠ .semicolon ∧ kind ≠ .openBrace ∧ kind ≠ .closeBrace := by
  cases kind <;> simp_all [isArgument, TokenKind.isName, TokenKind.isWord]

theorem isName_iff {kind : TokenKind} (unquoted : kind ≠ .string) :
    kind.isName = kind.isWord := by
  cases kind <;> simp_all [TokenKind.isName]

/-- What a block and a directive begin with. A variable before an equals sign
would begin a template, `location` a location, and `if` a condition. -/
structure Header where
  name : Term
  args : List Term
  nameKind : name.first.kind.isName = true
  argKinds : ∀ arg ∈ args, isArgument arg.first.kind = true
  apart : List.IsChain (fun term next => term.Apart next.first) (name :: args)
  notLocation : name.first.kind ≠ .location
  notIf : ¬ (name.first.kind = .identifier ∧ name.first.value = "if")
  notTemplate : name.first.kind = .variable →
    ∀ next ∈ (name.tokens ++ Term.tokensOf args)[1]?, next.kind ≠ .equals

namespace Header

def tokens (h : Header) : List Token :=
  h.name.tokens ++ Term.tokensOf h.args

def name? (env : Environment) (h : Header) : Option String :=
  (h.name.name? env).filter (!·.isEmpty)

def args? (env : Environment) (h : Header) : Option (List String) :=
  Term.textsOf? env h.args

theorem tokens_eq_cons (h : Header) :
    h.tokens = h.name.first :: h.tokens.tail := by
  rw [tokens, Term.tokens_eq_cons]
  rfl

end Header

inductive Leaf where
  | inline (sign : Token.Of .inline) (opening : Token.Of .openParen)
      (name : Token.Of .variable)
      (closing : Token.Of .closeParen) (semicolon : Token.Of .semicolon)
  | importFile (sign : Token.Of .importSign) (opening : Token.Of .openParen)
      (path : Token.Of .string) (closing : Token.Of .closeParen)
        (semicolon : Token.Of .semicolon)
      (named : path.1.value ≠ "")
  | directive (header : Header) (semicolon : Token.Of .semicolon)
      (oneLine : ∀ arg ∈ header.args, arg.first.kind = .identifier →
        arg.first.position.line ≤ header.name.first.position.line)

namespace Leaf

def tokens : Leaf → List Token
  | .inline sign opening name closing semicolon =>
    [sign.1, opening.1, name.1, closing.1, semicolon.1]
  | .importFile sign opening path closing semicolon _ =>
    [sign.1, opening.1, path.1, closing.1, semicolon.1]
  | .directive header semicolon _ => header.tokens ++ [semicolon.1]

def statement? (env : Environment) : Leaf → Option Statement
  | .inline sign _ name _ _ => some (.reference name.1.value sign.1.position)
  | .importFile sign _ path _ _ _ =>
      some (.importFile path.1.value sign.1.position)
  | .directive header _ _ => do
    return .directive (← header.name? env)
      (← header.args? env) header.name.first.position

def names : Leaf → List Term
  | .directive header _ _ => [header.name]
  | _ => []

theorem tokens_ne_nil (l : Leaf) : l.tokens ≠ [] := by
  cases l <;> simp [tokens]

end Leaf

inductive ListedPath where
  | quoted (t : Token.Of .string)
  | reference (r : Reference)

namespace ListedPath

def first : ListedPath → Token
  | .quoted t => t.1
  | .reference r => r.sign.1

def tokens : ListedPath → List Token
  | .quoted t => [t.1]
  | .reference r => r.tokens

def text? (env : Environment) : ListedPath → Option String
  | .quoted t => some t.1.value
  | .reference r => r.value? env

theorem tokens_eq_cons (path : ListedPath) :
    path.tokens = path.first :: path.tokens.tail := by
  cases path <;> rfl

end ListedPath

structure PathList where
  first : ListedPath
  more : List (Token.Of .comma × ListedPath)
  trailing : Option (Token.Of .comma)

namespace PathList

def tokens (l : PathList) : List Token :=
  l.first.tokens ++
    (l.more.flatMap fun (comma, path) => comma.1 :: path.tokens) ++
    (l.trailing.elim [] fun comma => [comma.1])

def texts? (env : Environment) (l : PathList) : Option (List String) :=
  (l.first :: l.more.map Prod.snd).mapM (ListedPath.text? env)

def cons (path : ListedPath) (comma : Token.Of .comma) (l : PathList) :
    PathList :=
  ⟨path, (comma, l.first) :: l.more, l.trailing⟩

theorem recursion {motive : PathList → Prop}
    (single : ∀ path trailing, motive ⟨path, [], trailing⟩)
    (cons : ∀ path comma l, motive l → motive (cons path comma l))
    (l : PathList) : motive l := by
  obtain ⟨first, more, trailing⟩ := l
  induction more generalizing first with
  | nil => exact single first trailing
  | cons pair more induction =>
      exact cons first pair.1 ⟨pair.2, more, trailing⟩ (induction pair.2)

theorem tokens_cons
    (path : ListedPath) (comma : Token.Of .comma) (l : PathList) :
    (cons path comma l).tokens = path.tokens ++ comma.1 :: l.tokens := by
  simp [tokens, cons]

theorem texts?_cons
    (env : Environment) (path : ListedPath) (comma : Token.Of .comma)
    (l : PathList) :
    (cons path comma l).texts? env =
      do return (← path.text? env) :: (← l.texts? env) := by
  simp [texts?, cons]

end PathList

/-- With `inner` parentheses open before them, the tokens close every one, and
none that was not opened. -/
def Balanced (inner : Nat) (ts : List Token) : Prop :=
  (∀ before, before <+: ts →
    before.countP (·.kind = .closeParen) ≤
      inner + before.countP (·.kind = .openParen)) ∧
  ts.countP (·.kind = .closeParen) = inner + ts.countP (·.kind = .openParen)

inductive Condition where
  | bare (parts : List Part)
      (begins : ∀ part ∈ parts.head?, part.first.kind ≠ .openParen)
      (noBrace : ∀ t ∈ Part.tokensOf parts, t.kind ≠ .openBrace)
  | enclosed (opening : Token.Of .openParen) (parts : List Part)
      (closing : Token.Of .closeParen)
      (noBrace : ∀ t ∈ Part.tokensOf parts, t.kind ≠ .openBrace)
      (balanced : Balanced 0 (Part.tokensOf parts))

namespace Condition

def tokens : Condition → List Token
  | .bare parts _ _ => Part.tokensOf parts
  | .enclosed opening parts closing _ _ =>
      opening.1 :: (Part.tokensOf parts ++ [closing.1])

def parts : Condition → List Part
  | .bare parts _ _ => parts
  | .enclosed _ parts _ _ _ => parts

def args? (env : Environment) (c : Condition) : Option (List String) :=
  (c.parts.mapM (Part.kept? env)).map ConditionPart.join

end Condition

inductive MatchSign where
  | modifier (t : Token.Of .modifier)
  | equals (t : Token.Of .equals)

namespace MatchSign

def token : MatchSign → Token
  | .modifier t => t.1
  | .equals t => t.1

def meaning : MatchSign → Modifier
  | .modifier t => Modifier.ofText t.1.value
  | .equals _ => .exact

end MatchSign

/-- What stands before the statements inside another, the brace included. -/
inductive Opening where
  | definition (name : Token.Of .variable) (equals : Token.Of .equals)
      (brace : Token.Of .openBrace)
  | locations (sign : Token.Of .location) (inWord : Token.Of .inWord)
      (bracket : Token.Of .openBracket) (paths : PathList)
        (closing : Token.Of .closeBracket)
      (brace : Token.Of .openBrace)
  | location (sign : Token.Of .location) (modifier : Option MatchSign)
      (path : Term)
      (brace : Token.Of .openBrace)
      (pathKind : path.first.kind.isName = true)
      (unsigned : modifier = none →
        path.first.kind ≠ .inWord ∧ path.first.kind ≠ .modifier)
  | condition (sign : Token.Of .identifier) (isIf : sign.1.value = "if")
      (c : Condition)
      (brace : Token.Of .openBrace)
  | block (header : Header) (brace : Token.Of .openBrace)
      (noLocation : ∀ arg ∈ header.args, arg.first.kind ≠ .location)

namespace Opening

def tokens : Opening → List Token
  | .definition name equals brace => [name.1, equals.1, brace.1]
  | .locations sign inWord bracket paths closing brace =>
    sign.1 :: inWord.1 :: bracket.1 :: (paths.tokens ++ [closing.1, brace.1])
  | .location sign modifier path brace _ _ =>
    sign.1 :: ((modifier.elim [] fun m => [m.token]) ++ path.tokens ++
      [brace.1])
  | .condition sign _ c brace => sign.1 :: (c.tokens ++ [brace.1])
  | .block header brace _ => header.tokens ++ [brace.1]

def heading? (env : Environment) : Opening → Option Heading
  | .definition name _ brace =>
      some (.template name.1.value brace.1.position name.1.position)
  | .locations sign _ _ paths _ _ => do
    return .location .none (← paths.texts? env) sign.1.position
  | .location sign modifier path _ _ _ => do
    return .location (modifier.elim .none MatchSign.meaning)
      [← path.text? env] sign.1.position
  | .condition sign _ c _ =>
      do return .condition (← c.args? env) sign.1.position
  | .block header _ _ => do
    return .block (← header.name? env)
      (← header.args? env) header.name.first.position

/-- A template is closed by a brace and a semicolon, all else by a brace. -/
def Closes : Opening → List Token → Prop
  | .definition _ _ _, ts =>
    ∃ (brace : Token.Of .closeBrace) (semicolon : Token.Of .semicolon),
      ts = [brace.1, semicolon.1]
  | _, ts => ∃ brace : Token.Of .closeBrace, ts = [brace.1]

def names : Opening → List Term
  | .block header _ _ => [header.name]
  | _ => []

theorem exists_brace (o : Opening) :
    ∃ brace : Token.Of .openBrace, brace.1 ∈ o.tokens := by
  cases o with
  | definition _ _ brace | locations _ _ _ _ _ brace | location _ _ _ brace
  | condition _ _ _ brace | block _ brace => exact ⟨brace, by simp [tokens]⟩

theorem tokens_ne_nil (o : Opening) : o.tokens ≠ [] := by
  obtain ⟨brace, member⟩ := o.exists_brace
  exact List.ne_nil_of_mem member

end Opening

inductive Phrase where
  | leaf (l : Leaf)
  | group (o : Opening) (body : List Phrase) (closing : List Token)
      (closes : o.Closes closing)

mutual

def Phrase.tokens : Phrase → List Token
  | .leaf l => l.tokens
  | .group o body closing _ => o.tokens ++ tokensOf body ++ closing

def tokensOf : List Phrase → List Token
  | [] => []
  | p :: rest => p.tokens ++ tokensOf rest

end

theorem tokensOf_eq_nil {ps : List Phrase} (none : tokensOf ps = []) :
    ps = [] := by
  cases ps with
  | nil => rfl
  | cons p ps =>
      rw [tokensOf, List.append_eq_nil_iff] at none
      cases p with
      | leaf l => exact absurd none.1 l.tokens_ne_nil
      | group o body closing closes =>
          rw [Phrase.tokens, List.append_assoc, List.append_eq_nil_iff] at none
          exact absurd none.1.1 o.tokens_ne_nil

mutual

def Phrase.statement? (env : Environment) : Phrase → Option Statement
  | .leaf l => l.statement? env
  | .group o body _ _ => do
    return (← o.heading? env).around (← statementsOf? env body)

def statementsOf? (env : Environment) : List Phrase → Option (List Statement)
  | [] => some []
  | p :: rest => do return (← p.statement? env) :: (← statementsOf? env rest)

end

mutual

def Phrase.names : Phrase → List Term
  | .leaf l => l.names
  | .group o body _ _ => o.names ++ namesOf body

/-- The names of the blocks and directives, at every depth. -/
def namesOf : List Phrase → List Term
  | [] => []
  | p :: rest => p.names ++ namesOf rest

end

end Grammar

end ServerConf
