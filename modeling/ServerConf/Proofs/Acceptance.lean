import ServerConf.Document.Parse
import ServerConf.Proofs.SourceLayout
import ServerConf.Proofs.StatementReading

/-!
Which sources are accepted: those whose tokens are phrases of the grammar, where
every reference to the environment can be settled and no name comes out empty.
-/

namespace ServerConf

theorem Token.Layout.exists_end {before text : List Char} {tokens : List Token}
    (layout : Token.Layout before text tokens) :
    ∃ body last, tokens = body ++ [last] ∧ last.kind = .endOfInput ∧
      ∀ t ∈ body, t.kind ≠ .endOfInput := by
  induction layout with
  | last => exact ⟨[], _, rfl, rfl, by simp⟩
  | token _ inside _ _ _ _ induction =>
      obtain ⟨body, last, rfl, ends, others⟩ := induction
      exact ⟨_ :: body, last, rfl, ends,
        List.forall_mem_cons.2 ⟨inside, others⟩⟩

theorem Token.splitEnd?_append {body after : List Token} {last : Token}
    (inside : ∀ t ∈ body, t.kind ≠ .endOfInput)
    (ends : last.kind = .endOfInput) :
    splitEnd? (body ++ last :: after) = some (body, last) := by
  induction body with
  | nil => simp [splitEnd?, ends]
  | cons t body induction =>
      obtain ⟨first, others⟩ := List.forall_mem_cons.1 inside
      simp [splitEnd?, first, induction others]

theorem Token.complete?_append_cons {body after : List Token} {last : Token}
    (inside : ∀ t ∈ body, t.kind ≠ .endOfInput)
    (ends : last.kind = .endOfInput)
    (final :
      (body ++ last :: after).getLast?.map Token.kind = some .endOfInput) :
    complete? (body ++ last :: after) = some (body, last) := by
  obtain ⟨t, found, kind⟩ := Option.map_eq_some_iff.1 final
  simp [complete?, found, kind, splitEnd?_append inside ends]

theorem Token.complete?_concat {body : List Token} {last : Token}
    (inside : ∀ t ∈ body, t.kind ≠ .endOfInput)
    (ends : last.kind = .endOfInput) :
    complete? (body ++ [last]) = some (body, last) :=
  complete?_append_cons inside ends (by simp [ends])

theorem Token.complete?_of_ofSource {source : String} {tokens : List Token}
    (scanned : Token.ofSource source = .ok tokens) :
    ∃ last, complete? tokens = some (tokens.dropLast, last) := by
  have layout : Layout [] source.toList tokens :=
    Cursor.tokens_layout rfl scanned
  obtain ⟨body, last, rfl, ends, inside⟩ := layout.exists_end
  refine ⟨last, ?_⟩
  rw [complete?_concat inside ends, List.dropLast_concat]

theorem Document.parse_eq_ok_iff {env : Environment} {filename source : String}
    {tokens : List Token} {d : Document}
    (scanned : Token.ofSource source = .ok tokens) :
    parse env filename source = .ok d ↔
      d.filename = filename ∧
        ∃ ps, Grammar.tokensOf ps = tokens.dropLast ∧
          Grammar.statementsOf? env ps = some d.children := by
  obtain ⟨last, complete⟩ := Token.complete?_of_ofSource scanned
  have reader :=
    @Reader.statements_eq_ok_iff ⟨env, last⟩ tokens.dropLast d.children
  rw [← reader]
  simp only [parse, scanned, ofTokens, complete]
  cases Reader.statements ⟨env, last⟩ [] [] tokens.dropLast with
  | error stop => simp
  | ok children =>
      obtain ⟨dChildren, dFilename⟩ := d
      simp only [Except.ok.injEq, Document.mk.injEq, eq_comm, and_comm]

namespace Grammar

/-- Every reference among the tokens has a value or a default. -/
def Settled (env : Environment) (ts : List Token) : Prop :=
  ∀ ref : Reference, ref.tokens <:+: ts → (ref.value? env).isSome

variable {env : Environment}

theorem settled_nil : Settled env [] := by
  intro ref inside
  simp [Reference.tokens] at inside

theorem settled_cons_iff {t : Token} {ts : List Token} :
    Settled env (t :: ts) ↔
      (∀ ref : Reference, ref.tokens <+: t :: ts → (ref.value? env).isSome) ∧
        Settled env ts := by
  simp only [Settled, List.infix_cons_iff, or_imp, forall_and]

theorem settled_cons_plain {t : Token} {ts : List Token}
    (other : t.kind ≠ .environment) :
    Settled env (t :: ts) ↔ Settled env ts := by
  rw [settled_cons_iff]
  refine and_iff_right fun ref begins => absurd ?_ other
  rw [Reference.tokens, List.cons_prefix_cons] at begins
  rw [← begins.1]
  exact ref.sign.2

theorem Reference.eq_of_append_eq
    {left right : Reference} {afterLeft afterRight : List Token}
    (same : left.tokens ++ afterLeft = right.tokens ++ afterRight) :
    left = right := by
  have comma_ne : ∀ (comma : Token.Of .comma) (closing : Token.Of .closeParen),
      comma.1 ≠ closing.1 := by
    intro comma closing same
    simpa using congrArg Token.kind same
  obtain ⟨sign, opening, name, _ | ⟨comma, value⟩, closing⟩ := left <;>
    obtain ⟨sign', opening', name', _ | ⟨comma', value'⟩, closing'⟩ := right <;>
    simp only [tokens, following, Option.elim_none, Option.elim_some,
      List.nil_append, List.cons_append, List.cons.injEq] at same
  · simp_all [Subtype.ext_iff]
  · exact absurd same.2.2.2.1.symm (comma_ne comma' closing)
  · exact absurd same.2.2.2.1 (comma_ne comma closing')
  · simp_all [Subtype.ext_iff]

theorem settled_reference {ref : Reference} {ts : List Token} :
    Settled env (ref.tokens ++ ts) ↔ (ref.value? env).isSome ∧
      Settled env ts := by
  have behind : Settled env (ref.following ++ ts) ↔ Settled env ts := by
    obtain ⟨sign, opening, name, _ | ⟨comma, value⟩, closing⟩ := ref <;>
      simp [Reference.following, settled_cons_plain]
  rw [Reference.tokens, List.cons_append, settled_cons_iff, behind]
  refine and_congr_left fun _ => ⟨fun all => all ref ⟨ts, rfl⟩, ?_⟩
  rintro settled other ⟨after, same⟩
  have same : other.tokens ++ after = ref.tokens ++ ts := same
  rwa [Reference.eq_of_append_eq same]

theorem Part.settled_iff {part : Part} {ts : List Token} :
    Settled env (part.tokens ++ ts) ↔ (part.text? env).isSome ∧
      Settled env ts := by
  cases part with
  | plain t other =>
      simp [Part.text?, Part.tokens, Part.first, Part.following,
        settled_cons_plain other]
  | reference ref => exact settled_reference

theorem Part.isSome_written? {part : Part} :
    (part.written? env).isSome = (part.text? env).isSome := by
  cases part <;> rfl

theorem Word.settled_iff {w : Word} {ts : List Token} :
    Settled env (w.tokens ++ ts) ↔ (w.text? env).isSome ∧ Settled env ts := by
  induction w using Word.recursion with
  | single part => simpa using Part.settled_iff
  | cons part w glued induction =>
      rw [Word.tokens_cons, List.append_assoc, Part.settled_iff, induction,
        Word.text?_cons, ← and_assoc]
      refine and_congr_left fun _ => ?_
      cases part.text? env <;> cases w.text? env <;> simp

theorem Term.settled_iff {term : Term} {ts : List Token} :
    Settled env (term.tokens ++ ts) ↔ (term.text? env).isSome ∧
      Settled env ts := by
  cases term with
  | quoted t => simp [Term.text?, Term.tokens, settled_cons_plain]
  | word w unquoted => exact Word.settled_iff

theorem Term.isSome_name? {term : Term} :
    (term.name? env).isSome = (term.text? env).isSome := by
  cases term <;> rfl

theorem Term.settled_tokensOf_iff {terms : List Term} {ts : List Token} :
    Settled env (Term.tokensOf terms ++ ts) ↔
      (Term.textsOf? env terms).isSome ∧ Settled env ts := by
  induction terms with
  | nil => simp
  | cons term terms induction =>
      rw [Term.tokensOf_cons, List.append_assoc, Term.settled_iff, induction,
        Term.textsOf?_cons, ← and_assoc]
      refine and_congr_left fun _ => ?_
      cases term.text? env <;> cases Term.textsOf? env terms <;> simp

theorem ListedPath.settled_iff {path : ListedPath} {ts : List Token} :
    Settled env (path.tokens ++ ts) ↔ (path.text? env).isSome ∧
      Settled env ts := by
  cases path with
  | quoted t => simp [ListedPath.text?, ListedPath.tokens, settled_cons_plain]
  | reference ref => exact settled_reference

theorem PathList.settled_iff {l : PathList} {ts : List Token} :
    Settled env (l.tokens ++ ts) ↔ (l.texts? env).isSome ∧ Settled env ts := by
  induction l using PathList.recursion with
  | single path trailing =>
      cases trailing <;> cases value : path.text? env <;>
        simp [PathList.tokens, PathList.texts?, ListedPath.settled_iff,
          settled_cons_plain, value]
  | cons path comma l induction =>
      rw [PathList.tokens_cons, List.append_assoc, List.cons_append,
        ListedPath.settled_iff, settled_cons_plain (by simp), induction,
        PathList.texts?_cons, ← and_assoc]
      refine and_congr_left fun _ => ?_
      cases path.text? env <;> cases l.texts? env <;> simp

theorem Condition.settled_parts_iff {parts : List Part} {ts : List Token} :
    Settled env (Part.tokensOf parts ++ ts) ↔
      (parts.mapM (Part.kept? env)).isSome ∧ Settled env ts := by
  induction parts with
  | nil => simp
  | cons part parts induction =>
      rw [Part.tokensOf_cons, List.append_assoc, Part.settled_iff, induction,
        ← and_assoc, ← Part.isSome_written?]
      refine and_congr_left fun _ => ?_
      cases value : part.written? env <;> cases more :
        parts.mapM (Part.kept? env) <;> simp [Part.kept?, value, more]

theorem Condition.settled_iff {c : Condition} {ts : List Token} :
    Settled env (c.tokens ++ ts) ↔ (c.args? env).isSome ∧ Settled env ts := by
  rw [Condition.args?, Option.isSome_map]
  cases c with
  | bare parts begins noBrace => exact settled_parts_iff
  | enclosed opening parts closing noBrace balanced =>
      simp [Condition.tokens, Condition.parts, settled_cons_plain,
        settled_parts_iff]

theorem Header.settled_iff {header : Header} {ts : List Token} :
    Settled env (header.tokens ++ ts) ∧ header.name.name? env ≠ some "" ↔
      ((header.name? env).isSome ∧ (header.args? env).isSome) ∧
        Settled env ts := by
  rw [Header.tokens, List.append_assoc, Term.settled_iff,
    Term.settled_tokensOf_iff, ← Term.isSome_name?, Header.name?, Header.args?]
  cases header.name.name? env with
  | none => simp
  | some name => cases empty : name.isEmpty <;> simp_all [Option.filter]

/-- None of the names is empty once its references are replaced. -/
def Named (env : Environment) (names : List Term) : Prop :=
  ∀ name ∈ names, name.name? env ≠ some ""

theorem named_append_iff {left right : List Term} :
    Named env (left ++ right) ↔ Named env left ∧ Named env right := by
  simp only [Named, List.mem_append, or_imp, forall_and]

theorem Leaf.settled_iff {l : Leaf} {ts : List Token} :
    Settled env (l.tokens ++ ts) ∧ Named env l.names ↔
      (l.statement? env).isSome ∧ Settled env ts := by
  cases l with
  | inline | importFile =>
      simp [Leaf.tokens, Leaf.names, Leaf.statement?, settled_cons_plain, Named]
  | directive header semicolon oneLine =>
      have inside := @Header.settled_iff env header (semicolon.1 :: ts)
      rw [settled_cons_plain (by simp)] at inside
      rw [Leaf.tokens, List.append_assoc, List.singleton_append, Leaf.names,
        Named, List.forall_mem_singleton, inside, Leaf.statement?]
      refine and_congr_left fun _ => ?_
      cases header.name? env <;> cases header.args? env <;> simp

theorem Opening.settled_iff {o : Opening} {ts : List Token} :
    Settled env (o.tokens ++ ts) ∧ Named env o.names ↔
      (o.heading? env).isSome ∧ Settled env ts := by
  cases o with
  | definition =>
      simp [Opening.tokens, Opening.names, Opening.heading?,
        settled_cons_plain, Named]
  | locations sign inWord bracket paths closing brace =>
      cases value : paths.texts? env <;>
        simp [Opening.tokens, Opening.names, Opening.heading?,
          settled_cons_plain, Named, PathList.settled_iff, value]
  | location sign modifier path brace kind unsigned =>
      rcases modifier with _ | _ | _ <;> cases value : path.text? env <;>
        simp [Opening.tokens, Opening.names, Opening.heading?,
          settled_cons_plain, Named, Term.settled_iff, MatchSign.token, value]
  | condition sign isIf c brace =>
      cases value : c.args? env <;>
        simp [Opening.tokens, Opening.names, Opening.heading?,
          settled_cons_plain, Named, Condition.settled_iff, value]
  | block header brace noLocation =>
      have inside := @Header.settled_iff env header (brace.1 :: ts)
      rw [settled_cons_plain (by simp)] at inside
      rw [Opening.tokens, List.append_assoc, List.singleton_append,
        Opening.names, Named, List.forall_mem_singleton, inside,
        Opening.heading?]
      refine and_congr_left fun _ => ?_
      cases header.name? env <;> cases header.args? env <;> simp

theorem Opening.settled_closing {o : Opening} {closing ts : List Token}
    (closes : o.Closes closing) :
    Settled env (closing ++ ts) ↔ Settled env ts := by
  cases o with
  | definition =>
      obtain ⟨brace, semicolon, rfl⟩ := closes
      simp [settled_cons_plain]
  | locations | location | condition | block =>
      obtain ⟨brace, rfl⟩ := closes
      simp [settled_cons_plain]

mutual

theorem Phrase.settled_iff (p : Phrase) (ts : List Token) :
    Settled env (p.tokens ++ ts) ∧ Named env p.names ↔
      (p.statement? env).isSome ∧ Settled env ts := by
  cases p with
  | leaf l => exact Leaf.settled_iff
  | group o body closing closes =>
      rw [Phrase.tokens, Phrase.names, List.append_assoc, List.append_assoc,
        named_append_iff, ← and_assoc, Opening.settled_iff, and_assoc,
        settled_tokensOf_iff body, Opening.settled_closing closes, ← and_assoc,
        Phrase.statement?]
      refine and_congr_left fun _ => ?_
      cases o.heading? env <;> cases statementsOf? env body <;> simp

theorem settled_tokensOf_iff (ps : List Phrase) (ts : List Token) :
    Settled env (tokensOf ps ++ ts) ∧ Named env (namesOf ps) ↔
      (statementsOf? env ps).isSome ∧ Settled env ts := by
  cases ps with
  | nil => simp [tokensOf, namesOf, statementsOf?, Named]
  | cons p ps =>
      rw [tokensOf, namesOf, List.append_assoc, named_append_iff, ← and_assoc,
        Phrase.settled_iff p, and_assoc, settled_tokensOf_iff ps, ← and_assoc,
        statementsOf?]
      refine and_congr_left fun _ => ?_
      cases p.statement? env <;> cases statementsOf? env ps <;> simp

end

end Grammar

namespace Document

open Grammar

/-- The sources that are accepted. -/
theorem parse_succeeds_iff
    {env : Environment} {filename source : String} {tokens : List Token}
    (scanned : Token.ofSource source = .ok tokens) :
    (∃ d, parse env filename source = .ok d) ↔
      ∃ ps, tokensOf ps = tokens.dropLast ∧ Settled env tokens.dropLast ∧
        Named env (namesOf ps) := by
  simp only [parse_eq_ok_iff scanned]
  constructor
  · rintro ⟨d, _, ps, whole, values⟩
    have both :=
      (settled_tokensOf_iff ps []).2 ⟨Option.isSome_of_mem values, settled_nil⟩
    rw [List.append_nil, whole] at both
    exact ⟨ps, whole, both⟩
  · rintro ⟨ps, whole, both⟩
    rw [← whole, ← List.append_nil (tokensOf ps),
      settled_tokensOf_iff ps] at both
    obtain ⟨children, values⟩ := Option.isSome_iff_exists.1 both.1
    exact ⟨⟨children, filename⟩, rfl, ps, whole, values⟩

theorem parse_succeeds_iff_default :
    ∃ tokens, Token.ofSource "a %env('N', '1');" = .ok tokens ∧
      ((∃ d, parse .empty "<string>" "a %env('N', '1');" = .ok d) ↔
        ∃ ps, tokensOf ps = tokens.dropLast ∧ Settled .empty tokens.dropLast ∧
          Named .empty (namesOf ps)) := by
  have scanned : Token.ofSource "a %env('N', '1');" = .ok
      [⟨.identifier, "a", ⟨1, 1⟩, "a"⟩, ⟨.environment, "%env", ⟨1, 3⟩, "%env"⟩,
        ⟨.openParen, "(", ⟨1, 7⟩, "("⟩, ⟨.string, "N", ⟨1, 8⟩, "'N'"⟩,
        ⟨.comma, ",", ⟨1, 11⟩, ","⟩, ⟨.string, "1", ⟨1, 13⟩, "'1'"⟩,
        ⟨.closeParen, ")", ⟨1, 16⟩, ")"⟩, ⟨.semicolon, ";", ⟨1, 17⟩, ";"⟩,
        .atEnd ⟨1, 18⟩] := by
    decide +kernel
  exact ⟨_, scanned, parse_succeeds_iff scanned⟩

/-- Only a directive accounts for this source. -/
theorem parse_directive :
    ∃ tokens, Token.ofSource "a;" = .ok tokens ∧
      (∃ d, parse .empty "<string>" "a;" = .ok d) ∧
      ∀ ps, tokensOf ps = tokens.dropLast →
        ∃ header semicolon oneLine,
          ps = [.leaf (.directive header semicolon oneLine)] := by
  have accepted : (parse .empty "<string>" "a;").isOk = true := by
    decide +kernel
  refine ⟨[⟨.identifier, "a", ⟨1, 1⟩, "a"⟩, ⟨.semicolon, ";", ⟨1, 2⟩, ";"⟩,
    .atEnd ⟨1, 3⟩], by decide +kernel, ?_, fun ps whole => ?_⟩
  · cases read : parse .empty "<string>" "a;" with
    | error e => simp [read, Except.isOk, Except.toBool] at accepted
    | ok d => exact ⟨d, rfl⟩
  · have kinds : (tokensOf ps).map Token.kind = [.identifier, .semicolon] := by
      rw [whole]
      rfl
    cases ps with
    | nil => simp [tokensOf] at kinds
    | cons p ps =>
        rw [tokensOf, List.map_append] at kinds
        cases p with
        | leaf l =>
            cases l with
            | inline | importFile => simp [Phrase.tokens, Leaf.tokens] at kinds
            | directive header semicolon oneLine =>
                have length := congrArg List.length kinds
                rw [Phrase.tokens, Leaf.tokens, Header.tokens_eq_cons] at length
                simp only [List.length_append, List.length_map,
                  List.length_cons, List.length_nil] at length
                have none : ps = [] :=
                  tokensOf_eq_nil (List.length_eq_zero_iff.1 (by omega))
                exact ⟨header, semicolon, oneLine, by rw [none]⟩
        | group o body closing closes =>
            obtain ⟨brace, member⟩ := o.exists_brace
            have kind :
                TokenKind.openBrace ∈ [TokenKind.identifier, .semicolon] := by
              rw [← kinds, ← brace.2, Phrase.tokens]
              exact List.mem_append_left _
                (List.mem_map_of_mem (by simp [member]))
            simp at kind

end Document

end ServerConf
