import ServerConf.Proofs.Grammar

/-!
Words, names and arguments: a reading that succeeds has found a term of the
grammar, and it succeeds on each of them.
-/

namespace ServerConf.Reader

open Grammar

variable {r : Reader}

@[simp] theorem ok_bind {α β : Type} (a : α) (next : α → Except Stop β) :
    (Except.ok a >>= next) = next a := rfl

@[simp] theorem ok_map {α β : Type} (a : α) (f : α → β) :
    (Except.ok a : Except Stop α).map f = .ok (f a) := rfl

@[simp] theorem expect_of_kind
    {kind : TokenKind} (complaint : Complaint) (t : Token.Of kind)
    (ts : List Token) :
    r.expect kind complaint (t.1 :: ts) = .ok (t.1, ts) := by
  simp [expect]

theorem expect_sound
    {kind : TokenKind} {complaint : Complaint} {ts rest : List Token}
    {t : Token}
    (read : r.expect kind complaint ts = .ok (t, rest)) :
    ∃ found : Token.Of kind, found.1 = t ∧ ts = found.1 :: rest := by
  obtain ⟨same, whole⟩ := expect_ok read
  exact ⟨⟨t, same⟩, rfl, whole⟩

theorem fallback_sound {ts rest : List Token} {default : Option String}
    (read : r.fallback ts = .ok (default, rest)) :
    ∃ found : Option (Token.Of .comma × Token.Of .string),
      (found.elim [] fun (comma, value) => [comma.1, value.1]) ++ rest = ts ∧
        default = found.map fun (_, value) => value.1.value := by
  cases ts with
  | nil =>
      cases read
      exact ⟨none, rfl, rfl⟩
  | cons t ts =>
      simp only [fallback] at read
      split at read
      · rename_i comma
        obtain ⟨⟨value, after⟩, named, same⟩ := bind_ok read
        obtain ⟨found, rfl, rfl⟩ := expect_sound named
        cases same
        exact ⟨some (⟨t, comma⟩, found), rfl, rfl⟩
      · cases read
        exact ⟨none, rfl, rfl⟩

theorem fallback_complete
    (found : Option (Token.Of .comma × Token.Of .string))
    (closing : Token.Of .closeParen) (rest : List Token) :
    r.fallback ((found.elim [] fun (comma, value) => [comma.1, value.1]) ++
      closing.1 :: rest) =
      .ok (found.map fun (_, value) => value.1.value, closing.1 :: rest) := by
  cases found with
  | none => simp [fallback]
  | some pair =>
      obtain ⟨comma, value⟩ := pair
      simp [fallback]

theorem reference_sound
    {sign close : Token} {ts rest : List Token} {value : String}
    (isSign : sign.kind = .environment)
    (read : r.reference sign ts = .ok ((value, close), rest)) :
    ∃ ref : Reference, ref.sign.1 = sign ∧ ref.following ++ rest = ts ∧
      ref.value? r.env = some value ∧ ref.closing.1 = close := by
  obtain ⟨⟨paren, afterParen⟩, opens, afterOpening⟩ := bind_ok read
  obtain ⟨⟨name, afterName⟩, names, afterNaming⟩ := bind_ok afterOpening
  obtain ⟨⟨default, afterDefault⟩, falls, afterFalling⟩ := bind_ok afterNaming
  obtain ⟨⟨closing, afterClose⟩, closes, settles⟩ := bind_ok afterFalling
  clear read afterOpening afterNaming afterFalling
  obtain ⟨opening, rfl, rfl⟩ := expect_sound opens
  obtain ⟨named, rfl, rfl⟩ := expect_sound names
  obtain ⟨found, rfl, rfl⟩ := fallback_sound falls
  obtain ⟨closed, rfl, rfl⟩ := expect_sound closes
  dsimp only at settles
  split at settles
  · rename_i settled
    cases settles
    exact ⟨⟨⟨sign, isSign⟩, opening, named, found, closed⟩, rfl,
      by simp [Reference.following], settled, rfl⟩
  · cases settles

theorem reference_complete (ref : Reference) {value : String}
    (settled : ref.value? r.env = some value)
    (rest : List Token) :
    r.reference ref.sign.1 (ref.following ++ rest) =
      .ok ((value, ref.closing.1), rest) := by
  simp only [Reference.value?] at settled
  simp only [Reference.following, List.cons_append, List.append_assoc,
    List.nil_append, reference, expect_of_kind, fallback_complete,
    settled, ok_bind]
  rfl

theorem wordPart_sound
    {t previous : Token} {ts rest : List Token} {text : String}
    (read : r.wordPart t ts = .ok ((text, previous), rest)) :
    ∃ part : Part, part.first = t ∧ part.following ++ rest = ts ∧
      part.text? r.env = some text ∧ part.last = previous := by
  unfold wordPart at read
  split at read
  · rename_i isSign
    obtain ⟨ref, rfl, whole, settled, close⟩ := reference_sound isSign read
    exact ⟨.reference ref, rfl, whole, settled, close⟩
  · rename_i other
    cases read
    exact ⟨.plain t other, rfl, rfl, rfl, rfl⟩

theorem wordPart_complete (part : Part) {text : String}
    (settled : part.text? r.env = some text)
    (rest : List Token) :
    r.wordPart part.first (part.following ++ rest) =
      .ok ((text, part.last), rest) := by
  cases part with
  | plain t other =>
      cases settled
      simp [wordPart, Part.first, Part.following, Part.last, other]
  | reference ref =>
      simp [wordPart, Part.first, Part.following, Part.last,
        reference_complete ref settled]

theorem word_eq_of_glued
    {t previous next : Token} {ts tail : List Token} {text : String}
    (part : r.wordPart t ts = .ok ((text, previous), next :: tail))
    (glued : next.kind.isGlue = true ∧ previous.touches next = true) :
    r.word t ts =
      (r.word next tail).map fun (more, after) => (text ++ more, after) := by
  rw [word]
  split
  · rename_i failed
    rw [part] at failed
    cases failed
  · rename_i ended
    rw [part] at ended
    cases ended
  · rename_i same
    rw [part] at same
    cases same
    rw [if_pos (by simpa using glued)]

theorem word_eq_of_apart
    {t previous : Token} {ts rest : List Token} {text : String}
    (part : r.wordPart t ts = .ok ((text, previous), rest))
    (apart : ∀ next ∈ rest.head?,
      ¬ (next.kind.isGlue = true ∧ previous.touches next = true)) :
    r.word t ts = .ok (text, rest) := by
  rw [word]
  split
  · rename_i failed
    rw [part] at failed
    cases failed
  · rename_i ended
    rw [part] at ended
    cases ended
    rfl
  · rename_i same
    rw [part] at same
    cases same
    rw [if_neg (by simpa using apart _ rfl)]

theorem word_sound {t : Token} {ts rest : List Token} {text : String}
    (read : r.word t ts = .ok (text, rest)) :
    ∃ w : Word, w.first.first = t ∧ w.tokens ++ rest = t :: ts ∧
      w.text? r.env = some text ∧
      ∀ next ∈ rest.head?,
        ¬ (next.kind.isGlue = true ∧ w.last.touches next = true) := by
  fun_induction word r t ts generalizing text rest with
  | case1 => cases read
  | case2 t ts first previous part =>
      cases read
      obtain ⟨found, rfl, rfl, settled, _⟩ := wordPart_sound part
      exact ⟨.single found,
        rfl, by simp [Part.tokens], by simp [settled], by simp⟩
  | case3 t ts first previous next tail part glued shorter induction =>
      obtain ⟨⟨more, after⟩, deeper, same⟩ := map_ok read
      cases same
      obtain ⟨found, rfl, rfl, settled, rfl⟩ := wordPart_sound part
      obtain ⟨w, rfl, inner, value, apart⟩ := induction deeper
      have touching : found.Glued w.first := by simpa [Part.Glued] using glued
      refine ⟨.cons found w touching, rfl, ?_, ?_, ?_⟩
      · simp [Part.tokens, inner]
      · simp [Word.text?_cons, settled, value]
      · simpa using apart
  | case4 t ts first previous next tail part apart =>
      cases read
      obtain ⟨found, rfl, rfl, settled, rfl⟩ := wordPart_sound part
      refine ⟨.single found, rfl, by simp [Part.tokens], by simp [settled], ?_⟩
      rintro next ⟨⟩
      simpa using apart

theorem word_complete (w : Word) {text : String} {rest : List Token}
    (settled : w.text? r.env = some text)
    (apart : ∀ next ∈ rest.head?,
      ¬ (next.kind.isGlue = true ∧ w.last.touches next = true)) :
    r.word w.first.first (w.tokens.tail ++ rest) = .ok (text, rest) := by
  induction w using Word.recursion generalizing text with
  | single part =>
      rw [Word.text?_single] at settled
      rw [Word.tokens_single]
      exact word_eq_of_apart (wordPart_complete part settled rest) apart
  | cons part w glued induction =>
      rw [Word.text?_cons] at settled
      obtain ⟨first, ofPart, more, ofWord, rfl⟩ :
          ∃ first, part.text? r.env = some first ∧
          ∃ more, w.text? r.env = some more ∧ first ++ more = text := by
        simpa [Option.bind_eq_some_iff] using settled
      have begins := wordPart_complete part ofPart (w.tokens ++ rest)
      rw [Word.last_cons] at apart
      rw [Word.tokens_cons, Part.tokens, List.cons_append, List.tail_cons,
        List.append_assoc]
      rw [Word.tokens_eq_cons, List.cons_append] at begins ⊢
      rw [show (Word.cons part w glued).first.first = part.first from rfl,
        word_eq_of_glued begins glued, induction ofWord apart]
      rfl

theorem name_sound {t : Token} {ts rest : List Token} {text : String}
    (read : r.name t ts = .ok (text, rest)) :
    ∃ term : Term, term.first = t ∧ term.tokens ++ rest = t :: ts ∧
      (term.name? r.env).filter (!·.isEmpty) = some text ∧
        ∀ next ∈ rest.head?, term.Apart next := by
  obtain ⟨⟨found, after⟩, reads, checks⟩ := bind_ok read
  dsimp only at checks
  split at checks
  · cases checks
  · rename_i shown
    cases checks
    unfold nameText at reads
    split at reads
    · rename_i string
      cases reads
      exact ⟨.quoted ⟨t, string⟩, rfl,
        rfl, by simpa [Term.name?] using shown, by simp [Term.Apart]⟩
    · rename_i unquoted
      obtain ⟨w, rfl, whole, value, apart⟩ := word_sound reads
      exact ⟨.word w unquoted, rfl,
        whole, by simpa [Term.name?, value] using shown, apart⟩

theorem name_complete (term : Term) {text : String} {rest : List Token}
    (settled : (term.name? r.env).filter (!·.isEmpty) = some text)
    (apart : ∀ next ∈ rest.head?, term.Apart next) :
    r.name term.first (term.tokens.tail ++ rest) = .ok (text, rest) := by
  rw [Option.filter_eq_some_iff] at settled
  obtain ⟨value, shown⟩ := settled
  have reads :
      r.nameText term.first (term.tokens.tail ++ rest) = .ok (text, rest) := by
    cases term with
    | quoted t =>
        cases value
        simp [nameText, Term.first, Term.tokens]
    | word w unquoted =>
        simpa [nameText, Term.first, Term.tokens,
          unquoted] using word_complete w value apart
  simp only [name, reads, ok_bind]
  rw [if_neg (by simpa using shown)]
  rfl

theorem isChain_cons_of_apart
    {term : Term} {terms : List Term} {rest : List Token}
    (apart : ∀ next ∈ (Term.tokensOf terms ++ rest).head?, term.Apart next)
    (chain : List.IsChain (fun term next => term.Apart next.first) terms) :
    List.IsChain (fun term next => term.Apart next.first) (term :: terms) := by
  cases terms with
  | nil => exact .singleton term
  | cons second terms =>
      refine .cons_cons (apart second.first ?_) chain
      rw [Term.tokensOf_cons, Term.tokens_eq_cons]
      rfl

theorem apart_of_isChain_cons {term : Term} {terms : List Term} {stop : Token}
    (chain :
      List.IsChain (fun term next => term.Apart next.first) (term :: terms))
    (stops : stop.kind.isGlue = false)
    (rest : List Token) :
    ∀ next ∈ (Term.tokensOf terms ++ stop :: rest).head?, term.Apart next := by
  cases terms with
  | nil =>
      rintro next ⟨⟩
      cases term with
      | quoted t => trivial
      | word w unquoted => simp [Term.Apart, stops]
  | cons second terms =>
      rw [Term.tokensOf_cons, Term.tokens_eq_cons]
      rintro next ⟨⟩
      exact (List.isChain_cons_cons.1 chain).1

structure Fits (header : Bool) (line : Int) (arg : Term) : Prop where
  kind : isArgument arg.first.kind = true
  noLocation : header = true → arg.first.kind ≠ .location
  oneLine : header = false → arg.first.kind = .identifier →
    arg.first.position.line ≤ line

theorem arguments_sound
    {name : String} {line : Int} {header : Bool} {ts rest : List Token}
    {args : List String}
    (read : r.arguments name line header ts = .ok (args, rest)) :
    ∃ terms : List Term, Term.tokensOf terms ++ rest = ts ∧
      Term.textsOf? r.env terms = some args ∧
        (∀ term ∈ terms, Fits header line term) ∧
      List.IsChain (fun term next => term.Apart next.first) terms := by
  fun_induction arguments r name line header ts generalizing args rest with
  | case1 | case2 | case4 | case8 =>
      cases read
      exact ⟨[], rfl, rfl, by simp, .nil⟩
  | case3 | case6 => cases read
  | case5 t tail stops opens later string induction =>
      obtain ⟨⟨more, after⟩, deeper, same⟩ := map_ok read
      cases same
      obtain ⟨terms, rfl, values, fits, chain⟩ := induction deeper
      refine ⟨.quoted ⟨t, string⟩ :: terms, by simp [Term.tokens], ?_, ?_, ?_⟩
      · simp [Term.text?, values]
      · refine List.forall_mem_cons.2 ⟨⟨?_, ?_, ?_⟩, fits⟩
        · simp [Term.first, string, isArgument, TokenKind.isName]
        · simp [Term.first, string]
        · simp [Term.first, string]
      · exact chain.cons fun next _ => trivial
  | case7 t tail stops opens later unquoted kind text next found shorter
      induction =>
      obtain ⟨⟨more, after⟩, deeper, same⟩ := map_ok read
      cases same
      obtain ⟨terms, rfl, values, fits, chain⟩ := induction deeper
      obtain ⟨w, rfl, whole, value, apart⟩ := word_sound found
      refine ⟨.word w unquoted :: terms, ?_, ?_, ?_, ?_⟩
      · simpa [Term.tokens] using whole
      · simp [Term.text?, value, values]
      · refine List.forall_mem_cons.2 ⟨⟨?_, ?_, ?_⟩, fits⟩
        · rw [Term.first, isArgument_iff unquoted]
          exact kind
        · rintro rfl
          simp only [Bool.and_true, Bool.or_eq_true, decide_eq_true_eq,
            not_or] at opens
          exact opens.2
        · rintro rfl identifier
          simp only [Term.first] at identifier
          simp only [Bool.not_false, Bool.true_and, identifier, decide_true,
            Bool.and_true, decide_eq_true_eq] at later
          exact Int.not_lt.1 later
      · exact isChain_cons_of_apart apart chain

theorem arguments_eq_of_word
    {name : String} {line : Int} {header : Bool} {w : Word}
    {unquoted : w.first.first.kind ≠ .string}
    {tail next : List Token} {text : String}
    (found : r.word w.first.first tail = .ok (text, next))
    (fits : Fits header line (.word w unquoted)) :
    r.arguments name line header (w.first.first :: tail) =
      (r.arguments name line header next).map fun (args, after) =>
        (text :: args, after) := by
  obtain ⟨kind, noLocation, oneLine⟩ := fits
  simp only [Term.first] at kind noLocation oneLine
  obtain ⟨noSemicolon, noOpen, noClose⟩ := not_punctuation_of_isArgument kind
  rw [isArgument_iff unquoted] at kind
  rw [arguments, if_neg, if_neg, if_neg, if_neg unquoted, if_pos kind]
  · split
    · rename_i failed
      rw [found] at failed
      cases failed
    · rename_i same
      rw [found] at same
      cases same
      rfl
  · cases header with
    | true => simp
    | false =>
        have early := oneLine rfl
        grind
  · cases header <;> simp_all
  · simp [noSemicolon, noOpen]

theorem arguments_complete {line : Int} {header : Bool} {terms : List Term}
    {args : List String} {stop : Token}
    (fits : ∀ term ∈ terms, Fits header line term)
    (chain : List.IsChain (fun term next => term.Apart next.first) terms)
    (settled : Term.textsOf? r.env terms = some args)
    (stops : stop.kind = .semicolon ∨ (stop.kind = .openBrace ∧ header = true))
    (name : String) (rest : List Token) :
    r.arguments name line header (Term.tokensOf terms ++ stop :: rest) =
      .ok (args, stop :: rest) := by
  induction terms generalizing args with
  | nil =>
      cases settled
      rw [Term.tokensOf_nil, List.nil_append, arguments,
        if_pos (by simpa using stops)]
      rfl
  | cons term terms induction =>
      rw [Term.textsOf?_cons] at settled
      obtain ⟨text, ofTerm, more, ofTerms, rfl⟩ :
          ∃ text, term.text? r.env = some text ∧ ∃ more,
          Term.textsOf? r.env terms = some more ∧ text :: more = args := by
        simpa [Option.bind_eq_some_iff] using settled
      have tail := induction (fun term member => fits term (by simp [member]))
        chain.tail ofTerms
      have first := fits term (by simp)
      have notGlue : stop.kind.isGlue = false := by
        rcases stops with semicolon | ⟨brace, _⟩
        · rw [semicolon]
          rfl
        · rw [brace]
          rfl
      cases term with
      | quoted t =>
          cases ofTerm
          simp only [Term.tokensOf_cons, Term.tokens, List.cons_append,
            List.nil_append]
          rw [arguments, if_neg, if_neg, if_neg, if_pos t.2, tail]
          · rfl
          all_goals simp
      | word w unquoted =>
          have apart := apart_of_isChain_cons chain notGlue rest
          have found := word_complete w ofTerm apart
          rw [Term.tokensOf_cons, Term.tokens, Word.tokens_eq_cons,
            List.append_assoc, List.cons_append,
            arguments_eq_of_word found first, tail]
          rfl

end ServerConf.Reader
