import ServerConf.Proofs.ParsedTrees
import ServerConf.Proofs.Unambiguous

/-!
The environment and the shape of a tree. A source has one sequence of phrases,
whatever the environment, and each phrase becomes one node; a value from the
environment stays inside the text of the word it stands in.
-/

namespace ServerConf

namespace Statement

/-- What was read from the words of a statement. -/
def texts : Statement → List String
  | .directive name args _ => name :: args
  | .block name args _ _ => name :: args
  | .location _ paths _ _ => paths
  | _ => []

def blank : Statement → Statement
  | .directive _ args position => .directive "" (args.map fun _ => "") position
  | .block _ args _ position => .block "" (args.map fun _ => "") [] position
  | .location modifier paths _ position =>
      .location modifier (paths.map fun _ => "") [] position
  | .definition name _ opening position => .definition name [] opening position
  | .stray kind _ => .stray kind []
  | s => s

end Statement

namespace Grammar

def Unreferenced (ts : List Token) : Prop :=
  ∀ t ∈ ts, t.kind ≠ .environment

theorem unreferenced_append {ts us : List Token} :
    Unreferenced (ts ++ us) ↔ Unreferenced ts ∧ Unreferenced us := by
  simp only [Unreferenced, List.mem_append, or_imp, forall_and]

def Part.runs : List Part → List (List Part)
  | [] => []
  | [p] => [[p]]
  | p :: q :: rest =>
    match runs (q :: rest) with
    | [] => [[p]]
    | run :: more =>
        if p.last.touches q.first then (p :: run) :: more
          else [p] :: run :: more

def Header.words (h : Header) : List (List Token) :=
  h.name.tokens :: h.args.map Term.tokens

def Leaf.words : Leaf → List (List Token)
  | .directive header _ _ => header.words
  | _ => []

def Opening.words : Opening → List (List Token)
  | .definition _ _ _ => []
  | .locations _ _ _ paths _ _ =>
      (paths.first :: paths.more.map Prod.snd).map ListedPath.tokens
  | .location _ _ path _ _ _ => [path.tokens]
  | .condition sign _ c _ => [sign.1] :: (Part.runs c.parts).map Part.tokensOf
  | .block header _ _ => header.words

namespace Phrase

/-- The words that the texts of the node are read from, in order. -/
def words : Phrase → List (List Token)
  | .leaf l => l.words
  | .group o _ _ _ => o.words

def body : Phrase → List Phrase
  | .leaf _ => []
  | .group _ body _ _ => body

end Phrase

/-- Two readings of the words: as many texts as words, and a word without
references has the same text in both. -/
inductive SameTexts : List (List Token) → List String → List String → Prop where
  | nil : SameTexts [] [] []
  | cons {word : List Token} {words : List (List Token)} {x y : String}
      {xs ys : List String}
      (same : Unreferenced word → x = y)
      (more : SameTexts words xs ys) :
      SameTexts (word :: words) (x :: xs) (y :: ys)

/-- Two readings of the phrases: node by node they differ in the texts of words
with references at most. -/
inductive SameShapes :
    List Phrase → List Statement → List Statement → Prop where
  | nil : SameShapes [] [] []
  | cons {p : Phrase} {ps : List Phrase} {s t : Statement}
      {ss ts : List Statement}
      (node : s.blank = t.blank)
      (texts : SameTexts p.words s.texts t.texts)
      (inside : SameShapes p.body s.children t.children)
      (behind : SameShapes ps ss ts) :
      SameShapes (p :: ps) (s :: ss) (t :: ts)

variable {left right : Environment}

theorem Reference.not_unreferenced (r : Reference) : ¬ Unreferenced r.tokens :=
  fun none => none r.sign.1 (.head _) r.sign.2

theorem Part.text?_eq {p : Part} (none : Unreferenced p.tokens) :
    p.text? left = p.text? right := by
  cases p with
  | plain => rfl
  | reference r => exact absurd none r.not_unreferenced

theorem Part.kept?_eq {p : Part} (none : Unreferenced p.tokens) :
    p.kept? left = p.kept? right := by
  cases p with
  | plain => rfl
  | reference r => exact absurd none r.not_unreferenced

theorem Part.ends_of_kept {p : Part} {k : ConditionPart}
    (kept : p.kept? left = some k) :
    k.first = p.first ∧ k.last = p.last := by
  obtain ⟨text, _, rfl⟩ := Option.map_eq_some_iff.1 kept
  exact ⟨rfl, rfl⟩

theorem Word.text?_eq {w : Word} (none : Unreferenced w.tokens) :
    w.text? left = w.text? right := by
  induction w using Word.recursion with
  | single p =>
      rw [tokens_single] at none
      rw [text?_single, text?_single, Part.text?_eq none]
  | cons p w glued induction =>
      rw [tokens_cons, unreferenced_append] at none
      rw [text?_cons, text?_cons, Part.text?_eq none.1, induction none.2]

theorem Term.text?_eq {t : Term} (none : Unreferenced t.tokens) :
    t.text? left = t.text? right := by
  cases t with
  | quoted => rfl
  | word w unquoted => exact Word.text?_eq none

theorem Term.name?_eq {t : Term} (none : Unreferenced t.tokens) :
    t.name? left = t.name? right := by
  cases t with
  | quoted => rfl
  | word w unquoted => exact Word.text?_eq none

theorem ListedPath.text?_eq {path : ListedPath}
    (none : Unreferenced path.tokens) :
    path.text? left = path.text? right := by
  cases path with
  | quoted => rfl
  | reference r => exact absurd none r.not_unreferenced

theorem Header.name?_eq {h : Header} (none : Unreferenced h.name.tokens) :
    h.name? left = h.name? right := by
  rw [name?, name?, Term.name?_eq none]

namespace SameTexts

theorem map_const {words : List (List Token)} {xs ys : List String}
    (same : SameTexts words xs ys) :
    (xs.map fun _ => "") = ys.map fun _ => "" := by
  induction same with
  | nil => rfl
  | cons _ _ induction => rw [List.map_cons, List.map_cons, induction]

theorem of_mapM
    {α : Type} {tokens : α → List Token}
    {text? : Environment → α → Option String}
    (settled : ∀ a, Unreferenced (tokens a) → text? left a = text? right a)
    {as : List α} {xs ys : List String}
    (first : as.mapM (text? left) = some xs)
    (second : as.mapM (text? right) = some ys) :
    SameTexts (as.map tokens) xs ys := by
  induction as generalizing xs ys with
  | nil =>
      cases first
      cases second
      exact .nil
  | cons a as induction =>
      simp only [List.mapM_cons, Option.bind_eq_bind, Option.bind_eq_some_iff,
        Option.pure_def] at first second
      obtain ⟨x, one, xs, others, ⟨⟩⟩ := first
      obtain ⟨y, one', ys, others', ⟨⟩⟩ := second
      refine .cons (fun none => ?_) (induction others others')
      rw [settled a none, one'] at one
      exact (Option.some.inj one).symm

theorem join_cons
    {p q : Part} {rest : List Part} {k l k' l' : ConditionPart}
    {ks ls : List ConditionPart}
    (same : Unreferenced p.tokens → k.text = l.text)
    (last : k.last = p.last ∧ l.last = p.last)
    (first : k'.first = q.first ∧ l'.first = q.first)
    (behind : SameTexts ((Part.runs (q :: rest)).map Part.tokensOf)
      (ConditionPart.join (k' :: ks)) (ConditionPart.join (l' :: ls))) :
    SameTexts ((Part.runs (p :: q :: rest)).map Part.tokensOf)
      (ConditionPart.join (k :: k' :: ks))
        (ConditionPart.join (l :: l' :: ls)) := by
  have alone : Unreferenced (Part.tokensOf [p]) → k.text = l.text := by
    intro none
    rw [Part.tokensOf_cons, Part.tokensOf_nil, List.append_nil] at none
    exact same none
  rw [Part.runs, ConditionPart.join, ConditionPart.join, last.1, last.2,
    first.1, first.2]
  generalize Part.runs (q :: rest) = runs at behind
  generalize ConditionPart.join (k' :: ks) = xs at behind
  generalize ConditionPart.join (l' :: ls) = ys at behind
  cases runs with
  | nil =>
      cases behind
      exact .cons alone .nil
  | cons run more =>
      cases behind with
      | cons text others =>
          dsimp only
          split
          · refine .cons (fun none => ?_) others
            rw [Part.tokensOf_cons, unreferenced_append] at none
            rw [same none.1, text none.2]
          · exact .cons alone (.cons text others)

theorem of_join {parts : List Part} {ks ls : List ConditionPart}
    (first : parts.mapM (Part.kept? left) = some ks)
    (second : parts.mapM (Part.kept? right) = some ls) :
    SameTexts ((Part.runs parts).map Part.tokensOf) (ConditionPart.join ks)
      (ConditionPart.join ls) := by
  induction parts generalizing ks ls with
  | nil =>
      cases first
      cases second
      exact .nil
  | cons p parts induction =>
      simp only [List.mapM_cons, Option.bind_eq_bind, Option.bind_eq_some_iff,
        Option.pure_def] at first second
      obtain ⟨k, kept, ks, others, ⟨⟩⟩ := first
      obtain ⟨l, kept', ls, others', ⟨⟩⟩ := second
      have behind := induction others others'
      have same : Unreferenced p.tokens → k.text = l.text := by
        intro none
        rw [Part.kept?_eq none, kept'] at kept
        rw [Option.some.inj kept]
      cases parts with
      | nil =>
          cases others
          cases others'
          refine .cons (fun none => ?_) .nil
          rw [Part.tokensOf_cons, Part.tokensOf_nil, List.append_nil] at none
          exact same none
      | cons q rest =>
          simp only [List.mapM_cons, Option.bind_eq_bind,
            Option.bind_eq_some_iff, Option.pure_def] at others others'
          obtain ⟨k', next, ks, _, ⟨⟩⟩ := others
          obtain ⟨l', next', ls, _, ⟨⟩⟩ := others'
          exact join_cons same ⟨(Part.ends_of_kept kept).2,
            (Part.ends_of_kept kept').2⟩ ⟨(Part.ends_of_kept next).1,
            (Part.ends_of_kept next').1⟩ behind

theorem header {h : Header} {name name' : String} {args args' : List String}
    (named : h.name? left = some name)
    (named' : h.name? right = some name')
    (given : h.args? left = some args)
    (given' : h.args? right = some args') :
    SameTexts h.words (name :: args) (name' :: args') := by
  refine .cons (fun none => ?_) (of_mapM (fun _ => Term.text?_eq) given given')
  rw [Header.name?_eq none, named'] at named
  exact (Option.some.inj named).symm

end SameTexts

theorem Leaf.sameShape {l : Leaf} {s t : Statement}
    (first : l.statement? left = some s)
    (second : l.statement? right = some t) :
    s.blank = t.blank ∧ SameTexts l.words s.texts t.texts := by
  cases l with
  | inline | importFile =>
      cases first
      cases second
      exact ⟨rfl, .nil⟩
  | directive header semicolon oneLine =>
      simp only [statement?, Option.bind_eq_bind, Option.bind_eq_some_iff,
        Option.pure_def] at first second
      obtain ⟨name, named, args, given, ⟨⟩⟩ := first
      obtain ⟨name', named', args', given', ⟨⟩⟩ := second
      have same := SameTexts.header named named' given given'
      refine ⟨?_, same⟩
      rw [Statement.blank, Statement.blank, (List.cons.inj same.map_const).2]

theorem Opening.sameShape {o : Opening} {h k : Heading}
    (first : o.heading? left = some h)
    (second : o.heading? right = some k)
    (ss ts : List Statement) :
    (h.around ss).blank = (k.around ts).blank ∧
      SameTexts o.words (h.around ss).texts (k.around ts).texts := by
  cases o with
  | definition =>
      cases first
      cases second
      exact ⟨rfl, .nil⟩
  | locations sign inWord bracket paths closing brace =>
      simp only [heading?, Option.bind_eq_bind, Option.bind_eq_some_iff,
        Option.pure_def] at first second
      obtain ⟨xs, listed, ⟨⟩⟩ := first
      obtain ⟨ys, listed', ⟨⟩⟩ := second
      have same :=
        SameTexts.of_mapM (fun _ => ListedPath.text?_eq) listed listed'
      exact ⟨congrArg (Statement.location _ · [] _) same.map_const, same⟩
  | location sign modifier path brace pathKind unsigned =>
      simp only [heading?, Option.bind_eq_bind, Option.bind_eq_some_iff,
        Option.pure_def] at first second
      obtain ⟨x, written, ⟨⟩⟩ := first
      obtain ⟨y, written', ⟨⟩⟩ := second
      refine ⟨rfl, .cons (fun none => ?_) .nil⟩
      rw [Term.text?_eq none, written'] at written
      exact (Option.some.inj written).symm
  | condition sign isIf c brace =>
      simp only [heading?, Condition.args?, Option.bind_eq_bind,
        Option.bind_eq_some_iff, Option.pure_def,
        Option.map_eq_some_iff] at first second
      obtain ⟨_, ⟨ks, kept, rfl⟩, ⟨⟩⟩ := first
      obtain ⟨_, ⟨ls, kept', rfl⟩, ⟨⟩⟩ := second
      have same := SameTexts.of_join kept kept'
      exact ⟨congrArg (Statement.block "" · [] _) same.map_const,
        .cons (fun _ => rfl) same⟩
  | block header brace noLocation =>
      simp only [heading?, Option.bind_eq_bind, Option.bind_eq_some_iff,
        Option.pure_def] at first second
      obtain ⟨name, named, args, given, ⟨⟩⟩ := first
      obtain ⟨name', named', args', given', ⟨⟩⟩ := second
      have same := SameTexts.header named named' given given'
      exact ⟨congrArg (Statement.block "" · [] _)
        (List.cons.inj same.map_const).2, same⟩

theorem sameShapes_of_statementsOf {ps : List Phrase} {ss ts : List Statement}
    (first : statementsOf? left ps = some ss)
    (second : statementsOf? right ps = some ts) :
    SameShapes ps ss ts := by
  induction ps using phraseRecursion generalizing ss ts with
  | nil =>
      cases first
      cases second
      exact .nil
  | leaf l ps induction =>
      simp only [statementsOf?, Phrase.statement?, Option.bind_eq_bind,
        Option.pure_def, Option.bind_eq_some_iff] at first second
      obtain ⟨s, one, ss, others, ⟨⟩⟩ := first
      obtain ⟨t, one', ts, others', ⟨⟩⟩ := second
      obtain ⟨node, texts⟩ := Leaf.sameShape one one'
      refine .cons node texts ?_ (induction others others')
      rw [(Leaf.statement_leaf one).1, (Leaf.statement_leaf one').1]
      exact .nil
  | group o body closing closes ps inside induction =>
      simp only [statementsOf?, Phrase.statement?, Option.bind_eq_bind,
        Option.pure_def, Option.bind_eq_some_iff] at first second
      obtain ⟨_, ⟨h, heading, children, within, ⟨⟩⟩, ss, others, ⟨⟩⟩ := first
      obtain ⟨_, ⟨k, heading', children', within', ⟨⟩⟩, ts, others', ⟨⟩⟩ :=
        second
      obtain ⟨node, texts⟩ :=
        Opening.sameShape heading heading' children children'
      refine .cons node texts ?_ (induction others others')
      rw [(Opening.heading_around heading children).1,
        (Opening.heading_around heading' children').1]
      exact inside within within'

end Grammar

open Grammar in
/-- Whatever the environment holds, the tree has the shape of the one sequence
of phrases that the source is written as. -/
theorem Document.parse_sameShapes
    {left right : Environment} {filename source : String} {d e : Document}
    (first : parse left filename source = .ok d)
    (second : parse right filename source = .ok e) :
    ∃ tokens ps, Token.ofSource source = .ok tokens ∧
      (∀ qs, tokensOf qs = tokens.dropLast ↔ qs = ps) ∧
      d.filename = e.filename ∧ SameShapes ps d.children e.children := by
  cases scanned : Token.ofSource source with
  | error =>
      rw [parse, scanned] at first
      cases first
  | ok tokens =>
      obtain ⟨named, ps, whole, meaning⟩ := (parse_eq_ok_iff scanned).1 first
      obtain ⟨named', qs, whole', meaning'⟩ :=
        (parse_eq_ok_iff scanned).1 second
      obtain rfl : qs = ps := tokensOf_injective (whole'.trans whole.symm)
      refine ⟨tokens, qs, rfl, fun rs => ?_, named.trans named'.symm,
        sameShapes_of_statementsOf meaning meaning'⟩
      exact ⟨fun same => tokensOf_injective (same.trans whole.symm),
        fun same => same ▸ whole⟩

open Grammar in
/-- A value that spells a semicolon and a brace ends no statement and no
block. -/
theorem Document.parse_sameShapes_punctuation :
    ∃ d e, parse (fun _ => some "1") "f"
      "if (a=%env('V') b) \x7bd%env('N') 8;\x7d" = .ok d ∧
      parse (fun _ => some "; \x7d") "f"
        "if (a=%env('V') b) \x7bd%env('N') 8;\x7d" = .ok e ∧
      d.walk.map Statement.texts = [["if", "a=1", "b"], ["d1", "8"]] ∧
      e.walk.map Statement.texts = [["if", "a=; \x7d", "b"], ["d; \x7d", "8"]] ∧
      ∃ tokens ps,
        Token.ofSource "if (a=%env('V') b) \x7bd%env('N') 8;\x7d" = .ok tokens ∧
        (∀ qs, tokensOf qs = tokens.dropLast ↔ qs = ps) ∧
        d.filename = e.filename ∧ SameShapes ps d.children e.children := by
  have read :
      ∀ (env : Environment) (source : String) (texts : List (List String)),
      ((parse env "f" source).map (·.walk.map Statement.texts)).toOption =
      some texts → ∃ d, parse env "f" source = .ok d ∧
      d.walk.map Statement.texts = texts := by
    intro env source texts shown
    cases parsed : parse env "f" source with
    | error =>
        rw [parsed] at shown
        cases shown
    | ok d =>
        rw [parsed] at shown
        exact ⟨d, rfl, Option.some.inj shown⟩
  obtain ⟨d, first, texts⟩ := read (fun _ => some "1")
    "if (a=%env('V') b) \x7bd%env('N') 8;\x7d" [["if", "a=1", "b"], ["d1", "8"]]
    (by decide +kernel)
  obtain ⟨e, second, texts'⟩ := read (fun _ => some "; \x7d")
    "if (a=%env('V') b) \x7bd%env('N') 8;\x7d" [["if", "a=; \x7d", "b"],
      ["d; \x7d", "8"]]
    (by decide +kernel)
  exact ⟨d, e, first, second, texts, texts', parse_sameShapes first second⟩

end ServerConf
