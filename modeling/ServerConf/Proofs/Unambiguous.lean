import ServerConf.Proofs.Acceptance
import ServerConf.Proofs.SourceSpelling

/-!
The grammar is unambiguous: tokens are those of one sequence of phrases at most.
Each sort of phrase is known by the tokens it begins with, and it ends where the
next token cannot go on with it.
-/

namespace ServerConf.Grammar

variable {a b : List Token}

theorem kind_of_eq {kind : TokenKind} (t : Token.Of kind) {u : Token}
    (same : t.1 = u) :
    u.kind = kind := by
  rw [← same]
  exact t.2

theorem Part.eq_of_append_eq {p q : Part}
    (same : p.tokens ++ a = q.tokens ++ b) :
    p = q ∧ a = b := by
  have first : p.first = q.first := (List.cons.inj same).1
  cases p with
  | plain t other =>
      cases q with
      | plain u _ =>
          obtain ⟨rfl, rfl⟩ := List.cons.inj same
          exact ⟨rfl, rfl⟩
      | reference r => exact absurd (kind_of_eq r.sign first.symm) other
  | reference r =>
      cases q with
      | plain u other => exact absurd (kind_of_eq r.sign first) other
      | reference s =>
          have whole : r.tokens ++ a = s.tokens ++ b := same
          obtain rfl := Reference.eq_of_append_eq whole
          exact ⟨rfl, List.append_cancel_left whole⟩

namespace Word

def Ends (w : Word) (rest : List Token) : Prop :=
  ∀ next ∈ rest.head?, ¬ (next.kind.isGlue = true ∧ w.last.touches next = true)

theorem Ends.not_cons {p q : Part} {v : Word} {glued : q.Glued v.first}
    (ends : (single p).Ends a) :
    (single p).tokens ++ a ≠ (cons q v glued).tokens ++ b := by
  intro same
  rw [tokens_single, tokens_cons, List.append_assoc] at same
  obtain ⟨rfl, rfl⟩ := Part.eq_of_append_eq same
  exact ends v.first.first rfl glued

theorem eq_of_append_eq {w v : Word}
    (same : w.tokens ++ a = v.tokens ++ b)
    (ends : w.Ends a)
    (ends' : v.Ends b) :
    w = v ∧ a = b := by
  induction w using Word.recursion generalizing v with
  | single p =>
      cases v using Word.recursion with
      | single q =>
          rw [tokens_single, tokens_single] at same
          obtain ⟨rfl, rfl⟩ := Part.eq_of_append_eq same
          exact ⟨rfl, rfl⟩
      | cons q v glued => exact absurd same ends.not_cons
  | cons p w glued induction =>
      cases v using Word.recursion with
      | single q => exact absurd same.symm ends'.not_cons
      | cons q v glued' =>
          rw [tokens_cons, tokens_cons, List.append_assoc,
            List.append_assoc] at same
          obtain ⟨rfl, behind⟩ := Part.eq_of_append_eq same
          rw [Ends, last_cons] at ends ends'
          obtain ⟨rfl, rfl⟩ := induction behind ends ends'
          exact ⟨rfl, rfl⟩

end Word

namespace Term

theorem eq_of_append_eq {s t : Term}
    (same : s.tokens ++ a = t.tokens ++ b)
    (apart : ∀ next ∈ a.head?, s.Apart next)
    (apart' : ∀ next ∈ b.head?, t.Apart next) :
    s = t ∧ a = b := by
  cases s with
  | quoted x =>
      cases t with
      | quoted y =>
          obtain ⟨first, rfl⟩ := List.cons.inj same
          rw [Subtype.ext first]
          exact ⟨rfl, rfl⟩
      | word w unquoted =>
          exact absurd (kind_of_eq x (List.cons.inj same).1) unquoted
  | word w unquoted =>
      cases t with
      | quoted y =>
          exact absurd (kind_of_eq y (List.cons.inj same).1.symm) unquoted
      | word v _ =>
          obtain ⟨rfl, rfl⟩ := Word.eq_of_append_eq same apart apart'
          exact ⟨rfl, rfl⟩

def Closes (stop : Token) : Prop :=
  stop.kind = .semicolon ∨ stop.kind = .openBrace

theorem Closes.not_glue {stop : Token} (closes : Closes stop) :
    stop.kind.isGlue = false := by
  rcases closes with kind | kind <;> rw [kind] <;> rfl

theorem Closes.not_argument {stop : Token} (closes : Closes stop) {arg : Term}
    (argument : isArgument arg.first.kind = true) : stop ≠ arg.first := by
  rintro rfl
  obtain ⟨noSemicolon, noBrace, _⟩ := not_punctuation_of_isArgument argument
  exact closes.elim noSemicolon noBrace

theorem tokensOf_inj {ss ts : List Term} {stop stop' : Token}
    (same : tokensOf ss ++ stop :: a = tokensOf ts ++ stop' :: b)
    (closes : Closes stop)
    (closes' : Closes stop')
    (kinds : ∀ s ∈ ss, isArgument s.first.kind = true)
    (kinds' : ∀ t ∈ ts, isArgument t.first.kind = true)
    (chain : List.IsChain (fun term next => term.Apart next.first) ss)
    (chain' : List.IsChain (fun term next => term.Apart next.first) ts) :
    ss = ts ∧ stop = stop' ∧ a = b := by
  induction ss generalizing ts with
  | nil =>
      cases ts with
      | nil => exact ⟨rfl, List.cons.inj same⟩
      | cons t ts =>
          rw [tokensOf_cons, tokens_eq_cons] at same
          exact absurd (List.cons.inj same).1
            (closes.not_argument (kinds' t (by simp)))
  | cons s ss induction =>
      cases ts with
      | nil =>
          rw [tokensOf_cons, tokens_eq_cons] at same
          exact absurd (List.cons.inj same).1.symm
            (closes'.not_argument (kinds s (by simp)))
      | cons t ts =>
          rw [tokensOf_cons, tokensOf_cons, List.append_assoc,
            List.append_assoc] at same
          obtain ⟨rfl, behind⟩ := eq_of_append_eq same
            (Reader.apart_of_isChain_cons chain closes.not_glue a)
            (Reader.apart_of_isChain_cons chain' closes'.not_glue b)
          obtain ⟨rfl, rest⟩ :=
            induction behind (fun s member => kinds s (.tail _ member))
              (fun t member => kinds' t (.tail _ member)) chain.tail chain'.tail
          exact ⟨rfl, rest⟩

end Term

theorem Header.eq_of_append_eq {h k : Header} {stop stop' : Token}
    (same : h.tokens ++ stop :: a = k.tokens ++ stop' :: b)
    (closes : Term.Closes stop)
    (closes' : Term.Closes stop') :
    h = k ∧ stop = stop' ∧ a = b := by
  rw [Header.tokens, Header.tokens, List.append_assoc,
    List.append_assoc] at same
  obtain ⟨name, behind⟩ := Term.eq_of_append_eq same
    (Reader.apart_of_isChain_cons h.apart closes.not_glue a)
    (Reader.apart_of_isChain_cons k.apart closes'.not_glue b)
  obtain ⟨args, rest⟩ := Term.tokensOf_inj behind closes closes' h.argKinds
    k.argKinds h.apart.tail k.apart.tail
  obtain ⟨_, _⟩ := h
  obtain ⟨_, _⟩ := k
  cases name
  cases args
  exact ⟨rfl, rest⟩

theorem ListedPath.eq_of_append_eq {p q : ListedPath}
    (same : p.tokens ++ a = q.tokens ++ b) :
    p = q ∧ a = b := by
  have first : p.first = q.first := by
    rw [tokens_eq_cons p, tokens_eq_cons q] at same
    exact (List.cons.inj same).1
  cases p with
  | quoted t =>
      cases q with
      | quoted u =>
          obtain ⟨_, rfl⟩ := List.cons.inj same
          rw [Subtype.ext first]
          exact ⟨rfl, rfl⟩
      | reference r => cases r.sign.2.symm.trans (kind_of_eq t first)
  | reference r =>
      cases q with
      | quoted u => cases u.2.symm.trans (kind_of_eq r.sign first)
      | reference s =>
          have whole : r.tokens ++ a = s.tokens ++ b := same
          obtain rfl := Reference.eq_of_append_eq whole
          exact ⟨rfl, List.append_cancel_left whole⟩

namespace PathList

theorem tokens_single
    (path : ListedPath) (trailing : Option (Token.Of .comma)) :
    tokens ⟨path, [], trailing⟩ = path.tokens ++
      (trailing.elim [] fun comma => [comma.1]) := by
  simp [tokens]

theorem kind_head (l : PathList) :
    ∃ t rest, l.tokens = t :: rest ∧
      (t.kind = .string ∨ t.kind = .environment) := by
  obtain ⟨first, more, trailing⟩ := l
  cases first with
  | quoted t => exact ⟨t.1, _, rfl, .inl t.2⟩
  | reference r => exact ⟨r.sign.1, _, rfl, .inr r.sign.2⟩

theorem not_cons
    {path path' : ListedPath} {trailing : Option (Token.Of .comma)}
    {comma : Token.Of .comma} {l : PathList} {close : Token}
    (closes : close.kind = .closeBracket) :
    tokens ⟨path, [], trailing⟩ ++ close :: a ≠
      (cons path' comma l).tokens ++ b := by
  intro same
  rw [tokens_single, tokens_cons, List.append_assoc, List.append_assoc] at same
  obtain ⟨_, behind⟩ := ListedPath.eq_of_append_eq same
  cases trailing with
  | none =>
      cases closes.symm.trans (kind_of_eq comma (List.cons.inj behind).1.symm)
  | some other =>
      obtain ⟨t, rest, begins, kind⟩ := l.kind_head
      have last := (List.cons.inj behind).2
      rw [begins] at last
      obtain ⟨rfl, _⟩ := List.cons.inj last
      rw [closes] at kind
      simp at kind

theorem eq_of_append_eq {l m : PathList} {close close' : Token}
    (closes : close.kind = .closeBracket)
    (closes' : close'.kind = .closeBracket)
    (same : l.tokens ++ close :: a = m.tokens ++ close' :: b) :
    l = m ∧ close = close' ∧ a = b := by
  induction l using PathList.recursion generalizing m with
  | single path trailing =>
      cases m using PathList.recursion with
      | single path' trailing' =>
          rw [tokens_single, tokens_single, List.append_assoc,
            List.append_assoc] at same
          obtain ⟨rfl, behind⟩ := ListedPath.eq_of_append_eq same
          cases trailing with
          | none =>
              cases trailing' with
              | none => exact ⟨rfl, List.cons.inj behind⟩
              | some comma =>
                  cases closes.symm.trans
                    (kind_of_eq comma (List.cons.inj behind).1.symm)
          | some comma =>
              cases trailing' with
              | none =>
                  cases closes'.symm.trans
                    (kind_of_eq comma (List.cons.inj behind).1)
              | some comma' =>
                  obtain ⟨first, rest⟩ := List.cons.inj behind
                  rw [Subtype.ext first]
                  exact ⟨rfl, List.cons.inj rest⟩
      | cons path' comma m => exact absurd same (not_cons closes)
  | cons path comma l induction =>
      cases m using PathList.recursion with
      | single path' trailing => exact absurd same.symm (not_cons closes')
      | cons path' comma' m =>
          rw [tokens_cons, tokens_cons, List.append_assoc,
            List.append_assoc] at same
          obtain ⟨rfl, behind⟩ := ListedPath.eq_of_append_eq same
          obtain ⟨first, rest⟩ := List.cons.inj behind
          obtain ⟨rfl, ends⟩ := induction rest
          rw [Subtype.ext first]
          exact ⟨rfl, ends⟩

end PathList

theorem Part.tokensOf_inj
    {ps qs : List Part} {brace brace' : Token.Of .openBrace}
    (same : tokensOf ps ++ brace.1 :: a = tokensOf qs ++ brace'.1 :: b)
    (noBrace : ∀ t ∈ tokensOf ps, t.kind ≠ .openBrace)
    (noBrace' : ∀ t ∈ tokensOf qs, t.kind ≠ .openBrace) :
    ps = qs ∧ brace = brace' ∧ a = b := by
  induction ps generalizing qs with
  | nil =>
      cases qs with
      | nil =>
          obtain ⟨first, rest⟩ := List.cons.inj same
          exact ⟨rfl, Subtype.ext first, rest⟩
      | cons q qs =>
          have first : brace.1 = q.first := (List.cons.inj same).1
          exact absurd (kind_of_eq brace first) (noBrace' q.first (.head _))
  | cons p ps induction =>
      cases qs with
      | nil =>
          have first : brace'.1 = p.first := (List.cons.inj same).1.symm
          exact absurd (kind_of_eq brace' first) (noBrace p.first (.head _))
      | cons q qs =>
          rw [tokensOf_cons, tokensOf_cons, List.append_assoc,
            List.append_assoc] at same
          obtain ⟨rfl, behind⟩ := Part.eq_of_append_eq same
          obtain ⟨rfl, rest⟩ := induction behind
            (fun t member => noBrace t (List.mem_append_right _ member))
            (fun t member => noBrace' t (List.mem_append_right _ member))
          exact ⟨rfl, rest⟩

namespace Condition

def allParts : Condition → List Part
  | .bare parts _ _ => parts
  | .enclosed opening parts closing _ _ =>
    .plain opening.1 (by simp) :: (parts ++ [.plain closing.1 (by simp)])

theorem tokensOf_allParts (c : Condition) :
    Part.tokensOf c.allParts = c.tokens := by
  cases c with
  | bare => rfl
  | enclosed =>
      simp [allParts, tokens, Part.tokensOf, Part.tokens, Part.first,
        Part.following]

theorem not_openBrace (c : Condition) :
    ∀ t ∈ c.tokens, t.kind ≠ .openBrace := by
  cases c with
  | bare _ _ noBrace => exact noBrace
  | enclosed opening parts closing noBrace balanced =>
      simpa [tokens, or_imp, forall_and] using noBrace

theorem allParts_inj {c d : Condition} (same : c.allParts = d.allParts) :
    c = d := by
  cases c with
  | bare parts begins noBrace =>
      cases d with
      | bare =>
          cases same
          rfl
      | enclosed opening =>
          cases same
          exact absurd opening.2 (begins _ rfl)
  | enclosed opening parts closing noBrace balanced =>
      cases d with
      | bare parts' begins' =>
          cases same
          exact absurd opening.2 (begins' _ rfl)
      | enclosed opening' parts' closing' =>
          obtain ⟨first, rest⟩ := List.cons.inj same
          obtain ⟨rfl, last⟩ := List.append_inj' rest rfl
          obtain rfl : opening = opening' := Subtype.ext (Part.plain.inj first)
          obtain rfl : closing = closing' :=
            Subtype.ext (Part.plain.inj (List.cons.inj last).1)
          rfl

theorem eq_of_append_eq {c d : Condition} {brace brace' : Token.Of .openBrace}
    (same : c.tokens ++ brace.1 :: a = d.tokens ++ brace'.1 :: b) :
    c = d ∧ brace = brace' ∧ a = b := by
  have noBrace := c.not_openBrace
  have noBrace' := d.not_openBrace
  rw [← tokensOf_allParts c] at same noBrace
  rw [← tokensOf_allParts d] at same noBrace'
  obtain ⟨parts, rest⟩ := Part.tokensOf_inj same noBrace noBrace'
  exact ⟨allParts_inj parts, rest⟩

end Condition

/-- What a statement is, as far as its first two tokens tell: a block and a
directive begin alike. -/
inductive Form where
  | inline | importFile | definition | locations | location | condition | named
  deriving DecidableEq

namespace Form

def ofTokens : List Token → Form
  | [] => .named
  | t :: ts =>
    match t.kind with
    | .inline => .inline
    | .importSign => .importFile
    | .variable =>
        if ts.head?.any (·.kind = .equals) then .definition else .named
    | .location =>
        if ts.head?.any (·.kind = .inWord) then .locations else .location
    | .identifier => if t.value = "if" then .condition else .named
    | _ => .named

theorem ofTokens_of_names {t : Token} {ts : List Token}
    (names : Reader.Names t ts) :
    ofTokens (t :: ts) = .named := by
  obtain ⟨isName, notLocation, notIf, notTemplate⟩ := names
  simp only [ofTokens]
  split
  · rename_i kind
    simp [kind, TokenKind.isName, TokenKind.isWord] at isName
  · rename_i kind
    simp [kind, TokenKind.isName, TokenKind.isWord] at isName
  · rename_i kind
    cases ts with
    | nil => rfl
    | cons next ts => rw [if_neg (by simpa using notTemplate kind next rfl)]
  · contradiction
  · rename_i kind
    rw [if_neg fun isIf => notIf ⟨kind, isIf⟩]
  · rfl

theorem ofTokens_header (header : Header) {stop : Token}
    (closes : Term.Closes stop)
    (rest : List Token) :
    ofTokens (header.tokens ++ stop :: rest) = .named := by
  have notEquals : stop.kind ≠ .equals := by
    rcases closes with kind | kind <;> simp [kind]
  rw [Header.tokens_eq_cons]
  exact ofTokens_of_names (Reader.Header.names header notEquals rest)

end Form

namespace Leaf

def form : Leaf → Form
  | .inline .. => .inline
  | .importFile .. => .importFile
  | .directive .. => .named

theorem ofTokens_append (l : Leaf) (rest : List Token) :
    Form.ofTokens (l.tokens ++ rest) = l.form := by
  cases l with
  | inline | importFile => simp [Form.ofTokens, tokens, form]
  | directive header semicolon oneLine =>
      rw [tokens, List.append_assoc]
      exact Form.ofTokens_header header (.inl semicolon.2) rest

theorem eq_of_append_eq {l m : Leaf} (same : l.tokens ++ a = m.tokens ++ b) :
    l = m ∧ a = b := by
  have form : l.form = m.form := by
    rw [← ofTokens_append l a, same, ofTokens_append]
  cases l with
  | inline sign opening name closing semicolon =>
      cases m with
      | inline =>
          simp only [tokens, List.cons_append, List.nil_append, List.cons.injEq,
            ← Subtype.ext_iff] at same
          simp [same]
      | importFile | directive => cases form
  | importFile sign opening path closing semicolon named =>
      cases m with
      | importFile =>
          simp only [tokens, List.cons_append, List.nil_append, List.cons.injEq,
            ← Subtype.ext_iff] at same
          simp [same]
      | inline | directive => cases form
  | directive header semicolon oneLine =>
      cases m with
      | inline | importFile => cases form
      | directive header' semicolon' oneLine' =>
          rw [tokens, tokens, List.append_assoc, List.append_assoc] at same
          obtain ⟨rfl, stop, rfl⟩ :=
            Header.eq_of_append_eq same (.inl semicolon.2) (.inl semicolon'.2)
          obtain rfl : semicolon = semicolon' := Subtype.ext stop
          exact ⟨rfl, rfl⟩

end Leaf

namespace MatchSign

theorem token_ne_first (m : MatchSign) {path : Term}
    (pathKind : path.first.kind.isName = true)
    (unsigned : path.first.kind ≠ .modifier) : m.token ≠ path.first := by
  intro same
  cases m with
  | modifier t => exact unsigned (kind_of_eq t same)
  | equals t =>
      simp [kind_of_eq t same, TokenKind.isName, TokenKind.isWord] at pathKind

theorem token_inj {m n : MatchSign} (same : m.token = n.token) : m = n := by
  cases m with
  | modifier t =>
      cases n with
      | modifier u => rw [Subtype.ext same]
      | equals u => cases u.2.symm.trans (kind_of_eq t same)
  | equals t =>
      cases n with
      | modifier u => cases u.2.symm.trans (kind_of_eq t same)
      | equals u => rw [Subtype.ext same]

theorem eq_of_append_eq {m n : Option MatchSign} {path path' : Term}
    (same : (m.elim [] fun m => [m.token]) ++ (path.tokens ++ a) =
      (n.elim [] fun m => [m.token]) ++ (path'.tokens ++ b))
    (first : m = none → ∀ n : MatchSign, n.token ≠ path.first)
    (first' : n = none → ∀ n : MatchSign, n.token ≠ path'.first) :
    m = n ∧ path.tokens ++ a = path'.tokens ++ b := by
  rw [path.tokens_eq_cons, path'.tokens_eq_cons] at same ⊢
  cases m with
  | none =>
      cases n with
      | none => exact ⟨rfl, same⟩
      | some n => exact absurd (List.cons.inj same).1.symm (first rfl n)
  | some m =>
      cases n with
      | none => exact absurd (List.cons.inj same).1 (first' rfl m)
      | some n =>
          obtain ⟨sign, rest⟩ := List.cons.inj same
          rw [token_inj sign]
          exact ⟨rfl, rest⟩

end MatchSign

namespace Opening

def form : Opening → Form
  | .definition .. => .definition
  | .locations .. => .locations
  | .location .. => .location
  | .condition .. => .condition
  | .block .. => .named

theorem ofTokens_append (o : Opening) (rest : List Token) :
    Form.ofTokens (o.tokens ++ rest) = o.form := by
  cases o with
  | definition | locations => simp [Form.ofTokens, tokens, form]
  | condition sign isIf => simp [Form.ofTokens, tokens, form, isIf]
  | location sign modifier path brace pathKind unsigned =>
      rw [tokens, Term.tokens_eq_cons]
      rcases modifier with _ | m | m <;>
        simp [Form.ofTokens, form, MatchSign.token, unsigned]
  | block header brace noLocation =>
      rw [tokens, List.append_assoc]
      exact Form.ofTokens_header header (.inr brace.2) rest

theorem path_eq_of_append_eq
    {path path' : Term} {brace brace' : Token.Of .openBrace}
    (same : path.tokens ++ brace.1 :: a = path'.tokens ++ brace'.1 :: b) :
    path = path' ∧ brace = brace' ∧ a = b := by
  have closes : Term.Closes brace.1 := .inr brace.2
  have closes' : Term.Closes brace'.1 := .inr brace'.2
  obtain ⟨rfl, behind⟩ := Term.eq_of_append_eq same
    (Reader.apart_of_isChain_cons (.singleton path) closes.not_glue a)
    (Reader.apart_of_isChain_cons (.singleton path') closes'.not_glue b)
  obtain ⟨first, rest⟩ := List.cons.inj behind
  exact ⟨rfl, Subtype.ext first, rest⟩

theorem eq_of_append_eq {o p : Opening} (same : o.tokens ++ a = p.tokens ++ b) :
    o = p ∧ a = b := by
  have form : o.form = p.form := by
    rw [← ofTokens_append o a, same, ofTokens_append]
  cases o with
  | definition name equals brace =>
      cases p with
      | definition =>
          simp only [tokens, List.cons_append, List.nil_append, List.cons.injEq,
            ← Subtype.ext_iff] at same
          simp [same]
      | locations | location | condition | block => cases form
  | locations sign inWord bracket paths closing brace =>
      cases p with
      | locations sign' inWord' bracket' paths' closing' brace' =>
          simp only [tokens, List.cons_append, List.append_assoc,
            List.nil_append, List.cons.injEq, ← Subtype.ext_iff] at same
          obtain ⟨rfl, rfl, rfl, behind⟩ := same
          obtain ⟨rfl, close, rest⟩ :=
            PathList.eq_of_append_eq closing.2 closing'.2 behind
          obtain ⟨first, rfl⟩ := List.cons.inj rest
          obtain rfl : closing = closing' := Subtype.ext close
          obtain rfl : brace = brace' := Subtype.ext first
          exact ⟨rfl, rfl⟩
      | definition | location | condition | block => cases form
  | location sign modifier path brace pathKind unsigned =>
      cases p with
      | location sign' modifier' path' brace' pathKind' unsigned' =>
          simp only [tokens, List.cons_append, List.append_assoc,
            List.nil_append, List.cons.injEq, ← Subtype.ext_iff] at same
          obtain ⟨rfl, signed⟩ := same
          obtain ⟨rfl, behind⟩ := MatchSign.eq_of_append_eq signed
            (fun none m => m.token_ne_first pathKind (unsigned none).2)
            (fun none m => m.token_ne_first pathKind' (unsigned' none).2)
          obtain ⟨rfl, rfl, rfl⟩ := path_eq_of_append_eq behind
          exact ⟨rfl, rfl⟩
      | definition | locations | condition | block => cases form
  | condition sign isIf c brace =>
      cases p with
      | condition sign' isIf' c' brace' =>
          simp only [tokens, List.cons_append, List.append_assoc,
            List.nil_append, List.cons.injEq, ← Subtype.ext_iff] at same
          obtain ⟨rfl, behind⟩ := same
          obtain ⟨rfl, rfl, rfl⟩ := Condition.eq_of_append_eq behind
          exact ⟨rfl, rfl⟩
      | definition | locations | location | block => cases form
  | block header brace noLocation =>
      cases p with
      | block header' brace' noLocation' =>
          rw [tokens, tokens, List.append_assoc, List.append_assoc] at same
          obtain ⟨rfl, stop, rfl⟩ :=
            Header.eq_of_append_eq same (.inr brace.2) (.inr brace'.2)
          obtain rfl : brace = brace' := Subtype.ext stop
          exact ⟨rfl, rfl⟩
      | definition | locations | location | condition => cases form

theorem tokens_append_ne_leaf {o : Opening} {l : Leaf} :
    o.tokens ++ a ≠ l.tokens ++ b := by
  intro same
  have form : o.form = l.form := by
    rw [← ofTokens_append o a, same, Leaf.ofTokens_append]
  cases o with
  | block header brace noLocation =>
      cases l with
      | inline | importFile => cases form
      | directive header' semicolon oneLine =>
          rw [tokens, Leaf.tokens, List.append_assoc, List.append_assoc] at same
          obtain ⟨_, stop, _⟩ :=
            Header.eq_of_append_eq same (.inr brace.2) (.inl semicolon.2)
          cases semicolon.2.symm.trans (kind_of_eq brace stop)
  | definition | locations | location | condition =>
      cases l <;> cases form

theorem Closes.eq_of_append_eq {o : Opening} {closing closing' : List Token}
    (closes : o.Closes closing)
    (closes' : o.Closes closing')
    (same : closing ++ a = closing' ++ b) :
    closing = closing' ∧ a = b := by
  refine List.append_inj same ?_
  cases o with
  | definition =>
      obtain ⟨_, _, rfl⟩ := closes
      obtain ⟨_, _, rfl⟩ := closes'
      rfl
  | locations | location | condition | block =>
      obtain ⟨_, rfl⟩ := closes
      obtain ⟨_, rfl⟩ := closes'
      rfl

theorem Closes.kind_head {o : Opening} {closing : List Token}
    (closes : o.Closes closing)
    (rest : List Token) :
    ∀ t ∈ (closing ++ rest).head?, t.kind = .closeBrace := by
  cases o with
  | definition =>
      obtain ⟨brace, _, rfl⟩ := closes
      simp
  | locations | location | condition | block =>
      obtain ⟨brace, rfl⟩ := closes
      simp

end Opening

theorem Header.kind_head (h : Header) : h.name.first.kind ≠ .closeBrace := by
  intro kind
  simpa [kind, TokenKind.isName, TokenKind.isWord] using h.nameKind

theorem Leaf.kind_head (l : Leaf) :
    ∃ t ts, l.tokens = t :: ts ∧ t.kind ≠ .closeBrace := by
  cases l with
  | inline sign | importFile sign => exact ⟨sign.1, _, rfl, by simp⟩
  | directive header semicolon oneLine =>
      exact ⟨header.name.first, _, by rw [tokens, Header.tokens_eq_cons]; rfl,
        header.kind_head⟩

theorem Opening.kind_head (o : Opening) :
    ∃ t ts, o.tokens = t :: ts ∧ t.kind ≠ .closeBrace := by
  cases o with
  | definition sign | locations sign | location sign | condition sign =>
      exact ⟨sign.1, _, rfl, by simp⟩
  | block header brace noLocation =>
      exact ⟨header.name.first, _, by rw [tokens, Header.tokens_eq_cons]; rfl,
        header.kind_head⟩

theorem tokensOf_cons_ne {p : Phrase} {ps : List Phrase}
    (ends : ∀ t ∈ a.head?, t.kind = .closeBrace) :
    tokensOf (p :: ps) ++ b ≠ a := by
  rintro rfl
  obtain ⟨t, ts, begins, kind⟩ : ∃ t ts, p.tokens = t :: ts ∧
      t.kind ≠ .closeBrace := by
    cases p with
    | leaf l => exact l.kind_head
    | group o body closing closes =>
        obtain ⟨t, ts, begins, kind⟩ := o.kind_head
        exact ⟨t,
          ts ++ tokensOf body ++ closing, by simp [Phrase.tokens, begins], kind⟩
  exact kind (ends t (by simp [tokensOf, begins]))

theorem eq_of_append_eq {ps qs : List Phrase}
    (same : tokensOf ps ++ a = tokensOf qs ++ b)
    (ends : ∀ t ∈ a.head?, t.kind = .closeBrace)
    (ends' : ∀ t ∈ b.head?, t.kind = .closeBrace) :
    ps = qs ∧ a = b := by
  induction ps using phraseRecursion generalizing qs a b with
  | nil =>
      cases qs with
      | nil => exact ⟨rfl, same⟩
      | cons q qs => exact absurd same.symm (tokensOf_cons_ne ends)
  | leaf l ps induction =>
      cases qs with
      | nil => exact absurd same (tokensOf_cons_ne ends')
      | cons q qs =>
          rw [tokensOf, tokensOf, List.append_assoc, List.append_assoc] at same
          cases q with
          | leaf m =>
              obtain ⟨rfl, behind⟩ := Leaf.eq_of_append_eq same
              obtain ⟨rfl, rest⟩ := induction behind ends ends'
              exact ⟨rfl, rest⟩
          | group o body closing closes =>
              rw [Phrase.tokens, Phrase.tokens, List.append_assoc,
                List.append_assoc] at same
              exact absurd same.symm Opening.tokens_append_ne_leaf
  | group o body closing closes ps inside induction =>
      cases qs with
      | nil => exact absurd same (tokensOf_cons_ne ends')
      | cons q qs =>
          rw [tokensOf, tokensOf, List.append_assoc, List.append_assoc,
            Phrase.tokens, List.append_assoc, List.append_assoc] at same
          cases q with
          | leaf m => exact absurd same Opening.tokens_append_ne_leaf
          | group p body' closing' closes' =>
              rw [Phrase.tokens, List.append_assoc, List.append_assoc] at same
              obtain ⟨rfl, behind⟩ := Opening.eq_of_append_eq same
              obtain ⟨rfl, closed⟩ :=
                inside behind (closes.kind_head _) (closes'.kind_head _)
              obtain ⟨rfl, after⟩ := closes.eq_of_append_eq closes' closed
              obtain ⟨rfl, rest⟩ := induction after ends ends'
              exact ⟨rfl, rest⟩

theorem tokensOf_injective : Function.Injective tokensOf := by
  intro ps qs same
  rw [← List.append_nil (tokensOf ps), ← List.append_nil (tokensOf qs)] at same
  exact (eq_of_append_eq same (by simp) (by simp)).1

end ServerConf.Grammar
