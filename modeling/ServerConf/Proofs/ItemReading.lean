import ServerConf.Proofs.ConditionReading

/-!
Items: each is read from a leaf or an opening of the grammar, and every leaf and
every opening is read as one item.
-/

namespace ServerConf.Reader

open Grammar

variable {r : Reader}

def Spells (env : Environment) (ts rest : List Token) : Item → Prop
  | .leaf s => ∃ l : Leaf, l.tokens ++ rest = ts ∧ l.statement? env = some s
  | .heading h => ∃ o : Opening, o.tokens ++ rest = ts ∧ o.heading? env = some h

theorem opened_sound {h : Heading} {ts rest : List Token} {i : Item}
    (read : r.opened h ts = .ok (i, rest)) :
    ∃ brace : Token.Of .openBrace, ts = brace.1 :: rest ∧ i = .heading h := by
  obtain ⟨⟨t, after⟩, found, same⟩ := map_ok read
  obtain ⟨brace, rfl, rfl⟩ := expect_sound found
  cases same
  exact ⟨brace, rfl, rfl⟩

@[simp] theorem opened_complete
    (h : Heading) (brace : Token.Of .openBrace) (rest : List Token) :
    r.opened h (brace.1 :: rest) = .ok (.heading h, rest) := by
  simp [opened]

theorem template_sound {sign equals : Token} {ts rest : List Token} {i : Item}
    (isVariable : sign.kind = .variable)
    (isEquals : equals.kind = .equals)
    (read : r.template sign ts = .ok (i, rest)) :
    Spells r.env (sign :: equals :: ts) rest i := by
  cases ts with
  | nil => cases read
  | cons t ts =>
      simp only [template] at read
      split at read
      · rename_i opens
        cases read
        exact ⟨.definition ⟨sign, isVariable⟩ ⟨equals, isEquals⟩ ⟨t, opens⟩,
          rfl, rfl⟩
      · cases read

theorem inline_sound {sign : Token} {ts rest : List Token} {i : Item}
    (isSign : sign.kind = .inline)
    (read : r.inline sign ts = .ok (i, rest)) :
    Spells r.env (sign :: ts) rest i := by
  obtain ⟨⟨paren, afterParen⟩, opens, afterOpening⟩ := bind_ok read
  obtain ⟨⟨name, afterName⟩, names, afterNaming⟩ := bind_ok afterOpening
  obtain ⟨⟨close, afterClose⟩, closes, afterClosing⟩ := bind_ok afterNaming
  obtain ⟨⟨semicolon, after⟩, ends, same⟩ := bind_ok afterClosing
  clear read afterOpening afterNaming afterClosing
  obtain ⟨opening, rfl, rfl⟩ := expect_sound opens
  obtain ⟨named, rfl, rfl⟩ := expect_sound names
  obtain ⟨closing, rfl, rfl⟩ := expect_sound closes
  obtain ⟨ending, rfl, rfl⟩ := expect_sound ends
  cases same
  exact ⟨.inline ⟨sign, isSign⟩ opening named closing ending, rfl, rfl⟩

theorem importFile_sound {sign : Token} {ts rest : List Token} {i : Item}
    (isSign : sign.kind = .importSign)
    (read : r.importFile sign ts = .ok (i, rest)) :
    Spells r.env (sign :: ts) rest i := by
  obtain ⟨⟨paren, afterParen⟩, opens, afterOpening⟩ := bind_ok read
  obtain ⟨⟨path, afterPath⟩, names, afterNaming⟩ := bind_ok afterOpening
  obtain ⟨⟨close, afterClose⟩, closes, afterClosing⟩ := bind_ok afterNaming
  obtain ⟨⟨semicolon, after⟩, ends, checks⟩ := bind_ok afterClosing
  clear read afterOpening afterNaming afterClosing
  obtain ⟨opening, rfl, rfl⟩ := expect_sound opens
  obtain ⟨named, rfl, rfl⟩ := expect_sound names
  obtain ⟨closing, rfl, rfl⟩ := expect_sound closes
  obtain ⟨ending, rfl, rfl⟩ := expect_sound ends
  dsimp only at checks
  split at checks
  · cases checks
  · rename_i shown
    cases checks
    exact
      ⟨.importFile ⟨sign, isSign⟩ opening named closing ending
        (by simpa using shown), rfl, rfl⟩

theorem modifier_sound (ts : List Token) :
    ∃ sign : Option MatchSign,
      (sign.elim [] fun m => [m.token]) ++ (modifier ts).2 = ts ∧
      (modifier ts).1 = sign.elim .none MatchSign.meaning ∧
      (sign = none → ∀ t ∈ ts.head?, t.kind ≠ .modifier) := by
  cases ts with
  | nil => exact ⟨none, rfl, rfl, by simp⟩
  | cons t ts =>
      simp only [modifier]
      split
      · rename_i sign
        exact ⟨some (.modifier ⟨t, sign⟩), rfl, rfl, by simp⟩
      · rename_i other
        split
        · rename_i sign
          exact ⟨some (.equals ⟨t, sign⟩), rfl, rfl, by simp⟩
        · exact ⟨none, rfl, rfl, by simpa using other⟩

theorem path_sound {ts rest : List Token} {text : String}
    (read : r.path ts = .ok (text, rest)) :
    ∃ term : Term, term.tokens ++ rest = ts ∧ term.text? r.env = some text ∧
      term.first.kind.isName = true ∧ ∀ next ∈ rest.head?, term.Apart next := by
  cases ts with
  | nil => cases read
  | cons t ts =>
      simp only [path] at read
      split at read
      · rename_i string
        cases read
        refine ⟨.quoted ⟨t, string⟩, rfl, rfl, ?_, by simp [Term.Apart]⟩
        simp [Term.first, string, TokenKind.isName]
      · rename_i unquoted
        split at read
        · rename_i isWord
          obtain ⟨w, rfl, whole, value, apart⟩ := word_sound read
          refine ⟨.word w unquoted, whole, value, ?_, apart⟩
          rw [Term.first, isName_iff unquoted]
          exact isWord
        · cases read

theorem locationSingle_sound {sign : Token} {ts rest : List Token} {i : Item}
    (isLocation : sign.kind = .location)
    (single : ∀ t ∈ ts.head?, t.kind ≠ .inWord)
    (read : r.locationSingle sign ts = .ok (i, rest)) :
    Spells r.env (sign :: ts) rest i := by
  obtain ⟨⟨text, afterPath⟩, found, opens⟩ := bind_ok read
  obtain ⟨modifier, begins, meaning, unsigned⟩ := modifier_sound ts
  obtain ⟨path, whole, value, kind, _⟩ := path_sound found
  obtain ⟨brace, rfl, rfl⟩ := opened_sound opens
  have first : modifier = none → path.first ∈ ts.head? := by
    rintro rfl
    rw [← begins, ← whole, Term.tokens_eq_cons]
    rfl
  refine ⟨.location ⟨sign, isLocation⟩ modifier path brace kind fun none =>
    ⟨single _ (first none), unsigned none _ (first none)⟩, ?_, ?_⟩
  · simp [Opening.tokens, whole, begins]
  · simp [Opening.heading?, value, meaning]

theorem locationList_sound
    {sign inWord : Token} {ts rest : List Token} {i : Item}
    (isLocation : sign.kind = .location)
    (isIn : inWord.kind = .inWord)
    (read : r.locationList sign ts = .ok (i, rest)) :
    Spells r.env (sign :: inWord :: ts) rest i := by
  obtain ⟨⟨bracket, afterBracket⟩, opens, afterOpening⟩ := bind_ok read
  obtain ⟨⟨⟨texts, close⟩, afterPaths⟩, listed, checks⟩ := bind_ok afterOpening
  clear read afterOpening
  dsimp only at checks
  split at checks
  · cases checks
  · rename_i some
    obtain ⟨opening, rfl, rfl⟩ := expect_sound opens
    obtain ⟨closing, ⟨rfl, _⟩ | ⟨paths, rfl, values⟩⟩ := pathList_sound listed
    · simp at some
    · obtain ⟨brace, rfl, rfl⟩ := opened_sound checks
      refine
        ⟨.locations ⟨sign, isLocation⟩ ⟨inWord, isIn⟩ opening paths closing
          brace, ?_, ?_⟩
      · simp [Opening.tokens]
      · simp [Opening.heading?, values]

theorem location_sound {sign : Token} {ts rest : List Token} {i : Item}
    (isLocation : sign.kind = .location)
    (read : r.location sign ts = .ok (i, rest)) :
    Spells r.env (sign :: ts) rest i := by
  cases ts with
  | nil => exact locationSingle_sound isLocation (by simp) read
  | cons t ts =>
      simp only [location] at read
      split at read
      · rename_i isIn
        exact locationList_sound isLocation isIn read
      · rename_i single
        exact locationSingle_sound isLocation (by simpa using single) read

theorem ifBlock_sound {sign : Token} {ts rest : List Token} {i : Item}
    (isIf : sign.kind = .identifier ∧ sign.value = "if")
    (read : r.ifBlock sign ts = .ok (i, rest)) :
    Spells r.env (sign :: ts) rest i := by
  obtain ⟨⟨args, afterCondition⟩, found, opens⟩ := bind_ok read
  obtain ⟨c, rfl, values⟩ := condition_sound found
  obtain ⟨brace, rfl, rfl⟩ := opened_sound opens
  refine ⟨.condition ⟨sign, isIf.1⟩ isIf.2 c brace, ?_, ?_⟩
  · simp [Opening.tokens]
  · simp [Opening.heading?, values]

structure Names (t : Token) (following : List Token) : Prop where
  isName : t.kind.isName = true
  notLocation : t.kind ≠ .location
  notIf : ¬ (t.kind = .identifier ∧ t.value = "if")
  notTemplate : t.kind = .variable →
    ∀ next ∈ following.head?, next.kind ≠ .equals

theorem named_sound {t : Token} {ts rest : List Token} {i : Item}
    (names : Names t ts)
    (read : r.named t ts = .ok (i, rest)) :
    Spells r.env (t :: ts) rest i := by
  obtain ⟨⟨name, afterName⟩, namesRead, afterNaming⟩ := bind_ok read
  obtain ⟨⟨args, afterArgs⟩, argsRead, ends⟩ := bind_ok afterNaming
  clear read afterNaming
  obtain ⟨term, rfl, whole, value, apart⟩ := name_sound namesRead
  obtain ⟨terms, rfl, values, fits, chain⟩ := arguments_sound argsRead
  have second :
      ∀ next ∈ (term.tokens ++ Term.tokensOf terms)[1]?, next ∈ ts.head? := by
    intro next member
    have inside :
        (term.tokens ++ Term.tokensOf terms ++ afterArgs)[1]? = some next :=
      (List.getElem?_append_left (List.getElem?_eq_some_iff.1 member).1).trans
        member
    rwa [List.append_assoc, whole, List.getElem?_cons_succ,
      ← List.head?_eq_getElem?] at inside
  obtain ⟨header, rfl, rfl⟩ : ∃ header : Header, header.name = term ∧
      header.args = terms :=
    ⟨⟨term, terms, names.isName, fun arg member => (fits arg member).kind,
      isChain_cons_of_apart apart chain, names.notLocation, names.notIf,
      fun kind next member => names.notTemplate kind next (second next member)⟩,
      rfl, rfl⟩
  have named : header.name? r.env = some name := value
  have given : header.args? r.env = some args := values
  rw [← List.append_assoc] at whole
  dsimp only at ends
  split at ends
  · rename_i ahead
    rw [ahead] at fits
    obtain ⟨brace, rfl, rfl⟩ := opened_sound ends
    refine ⟨.block header brace fun arg member =>
      (fits arg member).noLocation rfl, ?_, ?_⟩
    · simpa [Opening.tokens, Header.tokens] using whole
    · simp [Opening.heading?, named, given]
  · rename_i none
    rw [Bool.not_eq_true] at none
    rw [none] at fits
    obtain ⟨⟨semicolon, after⟩, found, same⟩ := bind_ok ends
    obtain ⟨ending, rfl, rfl⟩ := expect_sound found
    cases same
    refine ⟨.directive header ending fun arg member =>
      (fits arg member).oneLine rfl, ?_, ?_⟩
    · simpa [Leaf.tokens, Header.tokens] using whole
    · simp [Leaf.statement?, named, given]

theorem item_sound {t : Token} {ts rest : List Token} {i : Item}
    (read : r.item t ts = .ok (i, rest)) :
    Spells r.env (t :: ts) rest i := by
  unfold item at read
  split at read
  · rename_i isVariable
    have names : ∀ following : List Token,
        (∀ next ∈ following.head?, next.kind ≠ .equals) →
          Names t following := by
      intro following notEquals
      refine ⟨?_, ?_, ?_, fun _ => notEquals⟩ <;>
        simp [isVariable, TokenKind.isName, TokenKind.isWord]
    cases ts with
    | nil => exact named_sound (names [] (by simp)) read
    | cons next ts =>
        simp only [variableItem] at read
        split at read
        · rename_i isEquals
          exact template_sound isVariable isEquals read
        · rename_i other
          exact named_sound (names (next :: ts) (by simpa using other)) read
  · rename_i isInline
    exact inline_sound isInline read
  · rename_i isLocation
    exact location_sound isLocation read
  · rename_i isImport
    exact importFile_sound isImport read
  · rename_i notVariable _ notLocation _
    split at read
    · rename_i isIf
      exact ifBlock_sound (by simpa using isIf) read
    · rename_i notIf
      split at read
      · rename_i isName
        exact named_sound ⟨isName, notLocation, by simpa using notIf,
          fun isVariable => absurd isVariable notVariable⟩ read
      · cases read

theorem braceAhead_append {before : List Token} (inner : ∀ t ∈ before, Inner t)
    (ts : List Token) :
    braceAhead (before ++ ts) = braceAhead ts := by
  induction before with
  | nil => rfl
  | cons t before induction =>
      obtain ⟨⟨noBrace, noSemicolon⟩, others⟩ := List.forall_mem_cons.1 inner
      simp [braceAhead, noBrace, noSemicolon, induction others]

theorem item_eq_named {t : Token} {ts : List Token} (names : Names t ts) :
    r.item t ts = r.named t ts := by
  obtain ⟨isName, notLocation, notIf, notTemplate⟩ := names
  unfold item
  split
  · rename_i isVariable
    cases ts with
    | nil => rfl
    | cons next ts =>
        rw [variableItem, if_neg (notTemplate isVariable next rfl)]
  · rename_i isInline
    simp [isInline, TokenKind.isName, TokenKind.isWord] at isName
  · rename_i isLocation
    exact absurd isLocation notLocation
  · rename_i isImport
    simp [isImport, TokenKind.isName, TokenKind.isWord] at isName
  · rw [if_neg (by simpa using notIf), if_pos isName]

theorem Header.names (header : Header) {stop : Token}
    (notEquals : stop.kind ≠ .equals)
    (rest : List Token) :
    Names header.name.first (header.tokens.tail ++ stop :: rest) := by
  refine ⟨header.nameKind, header.notLocation, header.notIf,
    fun isVariable next member => ?_⟩
  have tokens := header.tokens_eq_cons
  cases following : header.tokens.tail with
  | nil =>
      rw [following] at member
      cases member
      exact notEquals
  | cons second others =>
      rw [following] at member tokens
      cases member
      refine header.notTemplate isVariable next ?_
      rw [show header.name.tokens ++ Term.tokensOf header.args = _ from tokens]
      rfl

theorem item_header (header : Header) {name : String} {args : List String}
  {stop : Token}
    {rest : List Token}
    (named : header.name? r.env = some name)
    (given : header.args? r.env = some args)
    (stops : stop.kind = .semicolon ∨ stop.kind = .openBrace)
    (fits : ∀ arg ∈ header.args,
      Fits (braceAhead (stop :: rest)) header.name.first.position.line arg) :
    r.item header.name.first (header.tokens.tail ++ stop :: rest) =
      if braceAhead (stop :: rest) then
        r.opened (.block name args header.name.first.position) (stop :: rest)
      else do
        let (_, after) ← r.expect .semicolon (.openDirective name)
          (stop :: rest)
        return (.leaf (.directive name args header.name.first.position),
          after) := by
  have notGlue : stop.kind.isGlue = false ∧ stop.kind ≠ .equals := by
    rcases stops with semicolon | brace
    · simp [semicolon, TokenKind.isGlue, TokenKind.isWord]
    · simp [brace, TokenKind.isGlue, TokenKind.isWord]
  have header_stops : stop.kind = .semicolon ∨
      (stop.kind = .openBrace ∧ braceAhead (stop :: rest) = true) :=
    stops.imp_right fun brace => ⟨brace, by simp [braceAhead, brace]⟩
  have ahead : braceAhead (header.tokens.tail ++ stop :: rest) =
      braceAhead (stop :: rest) := braceAhead_append
    (fun t member => header.inner t (List.mem_of_mem_tail member)) _
  have tokens : header.tokens.tail ++ stop :: rest =
      header.name.tokens.tail ++
        (Term.tokensOf header.args ++ stop :: rest) := by
    rw [Header.tokens, Term.tokens_eq_cons]
    simp
  have nameRead := name_complete header.name named
    (apart_of_isChain_cons header.apart notGlue.1 rest)
  have argsRead :=
    arguments_complete fits header.apart.tail given header_stops name rest
  rw [item_eq_named (Header.names header notGlue.2 rest), Reader.named, ahead,
    tokens, nameRead, ok_bind]
  dsimp only
  rw [argsRead, ok_bind]

theorem item_leaf (l : Leaf) {s : Statement} {t : Token} {ts rest : List Token}
    (settled : l.statement? r.env = some s)
    (whole : l.tokens ++ rest = t :: ts) :
    r.item t ts = .ok (.leaf s, rest) := by
  cases l with
  | inline sign opening name closing semicolon =>
      cases settled
      cases whole
      simp [item, inline, pure, Except.pure]
  | importFile sign opening path closing semicolon shown =>
      cases settled
      cases whole
      simp [item, importFile, shown, pure, Except.pure]
  | directive header semicolon oneLine =>
      obtain ⟨name, named, args, given, rfl⟩ : ∃ name, header.name? r.env =
          some name ∧ ∃ args, header.args? r.env = some args ∧
          .directive name args header.name.first.position = s := by
        simpa [Leaf.statement?, Option.bind_eq_some_iff] using settled
      have ahead : braceAhead (semicolon.1 :: rest) = false := by
        simp [braceAhead]
      have fits : ∀ arg ∈ header.args,
          Fits false header.name.first.position.line arg := fun arg member =>
        ⟨header.argKinds arg member, by simp, fun _ => oneLine arg member⟩
      rw [← ahead] at fits
      have read := item_header header named given (.inl semicolon.2) fits
      rw [Leaf.tokens, List.append_assoc, Header.tokens_eq_cons,
        List.cons_append] at whole
      cases whole
      rw [List.singleton_append, read, ahead, if_neg Bool.false_ne_true,
        expect_of_kind]
      rfl

theorem modifier_complete (sign : Option MatchSign) {t : Token}
    (unsigned : sign = none → t.kind ≠ .modifier ∧ t.kind ≠ .equals)
    (ts : List Token) :
    modifier ((sign.elim [] fun m => [m.token]) ++ t :: ts) =
      (sign.elim .none MatchSign.meaning, t :: ts) := by
  cases sign with
  | none => simp [modifier, unsigned rfl]
  | some m => cases m <;> simp [modifier, MatchSign.token, MatchSign.meaning]

theorem path_complete {term : Term} {text : String} {stop : Token}
    (kind : term.first.kind.isName = true)
    (settled : term.text? r.env = some text)
    (stops : stop.kind.isGlue = false)
    (rest : List Token) :
    r.path (term.first :: (term.tokens.tail ++ stop :: rest)) =
      .ok (text, stop :: rest) := by
  cases term with
  | quoted t =>
      cases settled
      simp [path, Term.first, Term.tokens]
  | word w unquoted =>
      have isWord : w.first.first.kind.isWord = true :=
        (isName_iff unquoted).symm.trans kind
      have apart : ∀ next ∈ (stop :: rest).head?,
          ¬ (next.kind.isGlue = true ∧ w.last.touches next = true) := by
        simp [stops]
      have found := word_complete w settled apart
      simp only [Term.first, Term.tokens, path, if_neg unquoted,
        if_pos isWord, found]

theorem location_eq_single {sign t : Token} {ts : List Token}
    (single : t.kind ≠ .inWord) :
    r.location sign (t :: ts) = r.locationSingle sign (t :: ts) := by
  rw [location, if_neg single]

theorem locationSingle_complete
    {sign : Token} (modifier : Option MatchSign) {path : Term} {text : String}
    (kind : path.first.kind.isName = true)
    (unsigned : modifier = none → path.first.kind ≠ .inWord ∧
      path.first.kind ≠ .modifier)
    (settled : path.text? r.env = some text)
    (brace : Token.Of .openBrace) (rest : List Token) :
    r.location sign ((modifier.elim [] fun m => [m.token]) ++ path.tokens ++
      brace.1 :: rest) =
      .ok (.heading (.location (modifier.elim .none MatchSign.meaning) [text]
        sign.position),
        rest) := by
  have notEquals : path.first.kind ≠ .equals := by
    intro same
    simp [same, TokenKind.isName, TokenKind.isWord] at kind
  have stops : brace.1.kind.isGlue = false := by
    rw [brace.2]
    rfl
  have split :=
    modifier_complete modifier (fun none => ⟨(unsigned none).2, notEquals⟩)
      (path.tokens.tail ++ brace.1 :: rest)
  have single : r.location sign
      ((modifier.elim [] fun m => [m.token]) ++ path.tokens ++
        brace.1 :: rest) =
      r.locationSingle sign
        ((modifier.elim [] fun m => [m.token]) ++ path.tokens ++
          brace.1 :: rest) := by
    rw [Term.tokens_eq_cons]
    cases modifier with
    | none => exact location_eq_single (unsigned rfl).1
    | some m => cases m <;> exact location_eq_single (by simp [MatchSign.token])
  rw [single, Term.tokens_eq_cons, List.append_assoc, List.cons_append,
    locationSingle, split, path_complete kind settled stops rest, ok_bind]
  exact opened_complete _ brace rest

theorem locationList_complete {sign inWord : Token}
    (isIn : inWord.kind = .inWord)
    (bracket : Token.Of .openBracket) (paths : PathList) {texts : List String}
    (settled : paths.texts? r.env = some texts)
    (closing : Token.Of .closeBracket) (brace : Token.Of .openBrace)
    (rest : List Token) :
    r.location sign
      (inWord :: bracket.1 :: (paths.tokens ++ closing.1 :: brace.1 :: rest)) =
      .ok (.heading (.location .none texts sign.position), rest) := by
  have some : texts.isEmpty = false := by
    cases texts with
    | nil => simp [PathList.texts?, Option.bind_eq_some_iff] at settled
    | cons text texts => rfl
  rw [location, if_pos isIn, locationList, expect_of_kind, ok_bind]
  dsimp only
  rw [pathList_complete paths settled, ok_bind]
  simp [some]

theorem item_opening
    (o : Opening) {h : Heading} {t : Token} {ts rest : List Token}
    (settled : o.heading? r.env = some h)
    (whole : o.tokens ++ rest = t :: ts) :
    r.item t ts = .ok (.heading h, rest) := by
  cases o with
  | definition name equals brace =>
      cases settled
      cases whole
      simp [item, variableItem, template]
  | locations sign inWord bracket paths closing brace =>
      obtain ⟨texts, values, rfl⟩ : ∃ texts, paths.texts? r.env = some texts ∧
          .location .none texts sign.1.position = h := by
        simpa [Opening.heading?, Option.bind_eq_some_iff] using settled
      cases whole
      simpa [item] using locationList_complete inWord.2 bracket paths values
        closing brace rest
  | location sign modifier path brace kind unsigned =>
      obtain ⟨text, value, rfl⟩ : ∃ text, path.text? r.env = some text ∧
          .location (modifier.elim .none MatchSign.meaning)
            [text] sign.1.position = h := by
        simpa [Opening.heading?, Option.bind_eq_some_iff] using settled
      cases whole
      simpa [item] using locationSingle_complete modifier kind unsigned value
        brace rest
  | condition sign isIf c brace =>
      obtain ⟨args, given, rfl⟩ : ∃ args, c.args? r.env = some args ∧
          .condition args sign.1.position = h := by
        simpa [Opening.heading?, Option.bind_eq_some_iff] using settled
      cases whole
      simp [item, isIf, ifBlock, condition_complete c given]
  | block header brace noLocation =>
      obtain ⟨name, named, args, given, rfl⟩ : ∃ name, header.name? r.env =
          some name ∧ ∃ args, header.args? r.env = some args ∧
          .block name args header.name.first.position = h := by
        simpa [Opening.heading?, Option.bind_eq_some_iff] using settled
      have ahead : braceAhead (brace.1 :: rest) = true := by simp [braceAhead]
      have fits : ∀ arg ∈ header.args,
          Fits true header.name.first.position.line arg := fun arg member =>
        ⟨header.argKinds arg member, fun _ => noLocation arg member, by simp⟩
      rw [← ahead] at fits
      have read := item_header header named given (.inr brace.2) fits
      rw [Opening.tokens, List.append_assoc, Header.tokens_eq_cons,
        List.cons_append] at whole
      cases whole
      rw [List.singleton_append, read, ahead, if_pos rfl, opened_complete]

theorem item_closeBrace {t : Token} {ts rest : List Token} {i : Item}
    (closes : t.kind = .closeBrace) :
    r.item t ts ≠ .ok (i, rest) := by
  simp [item, closes, TokenKind.isName, TokenKind.isWord, stop]

end ServerConf.Reader
