import ServerConf.Proofs.TermSpelling

/-!
The tokens of one line. Where every string is closed on the line it was opened
on, no token goes on to the next line, even if a comment cuts the line short.
-/

namespace ServerConf

namespace Gap

theorem splitFrom_true_of_oneLine {text : List Char} (oneLine : '\n' ∉ text) :
    splitFrom true text = (text, []) := by
  induction text with
  | nil => rfl
  | cons c text induction =>
      simp only [List.mem_cons, not_or] at oneLine
      have sign : (c != '\n') = true := by simpa using Ne.symm oneLine.1
      simp [splitFrom, sign, induction oneLine.2]

end Gap

theorem Token.scan_comment {text after : List Char} (oneLine : '\n' ∉ text)
    (ends : ∀ c ∈ after.head?, c = '\n') (p : Position) :
    scan p ('#' :: text ++ after) = scan (p.advanceBy ('#' :: text)) after := by
  cases after with
  | nil =>
      have gap : Gap.split ('#' :: text) = ('#' :: text, []) := by
        simp [Gap.split, Gap.splitFrom, Gap.splitFrom_true_of_oneLine oneLine]
      rw [List.append_nil, scan_nil]
      have ended : (Cursor.mk 0 p ('#' :: text)).skipGap.rest = [] := by
        simp [Cursor.skipGap, Cursor.advance, gap]
      rw [scan, Cursor.tokens_of_rest_nil ended]
      simp [Cursor.skipGap, Cursor.advance, gap]
  | cons c after =>
      obtain rfl := ends c rfl
      have whole := scan_gap (.comment oneLine .nil) p after
      rw [Position.advanceBy_append] at whole
      rw [scan_blank (by decide)]
      simpa using whole

theorem Token.prepend_eq_ok
    {first ts : List Token} {following : Except ScanError (List Token)}
    (scanned : prepend first following = .ok ts) :
    ∃ us, ts = first ++ us ∧ following = .ok us := by
  cases following with
  | error => cases scanned
  | ok us =>
      cases scanned
      exact ⟨us, rfl, rfl⟩

namespace Lexeme

theorem scan_cons_ok
    {c : Char} {taken rest value after : List Char} {kind : TokenKind}
    {p : Position} {ts : List Token}
    (shown : Text.isBlank c = false)
    (sign : c ≠ '#')
    (read : read? c (taken ++ rest) = some ⟨kind, value, c :: taken, rest⟩)
    (stops : Stops after)
    (scanned : Token.scan p (c :: taken ++ rest ++ after) = .ok ts) :
    ∃ us, ts = toToken ⟨kind, value, c :: taken, rest⟩ p :: us ∧
      Token.scan (p.advanceBy (c :: taken)) (rest ++ after) = .ok us := by
  have inContext := read?_in_context read (.append stops rest)
  rw [show c :: taken ++ rest ++ after = c :: (taken ++ (rest ++
    after)) by simp, Token.scan_lexeme p shown sign inContext] at scanned
  exact Token.prepend_eq_ok scanned

theorem exists_read? {c : Char}
    (unquoted : isQuote c = false)
    (rest : List Char) :
    ∃ lexeme, read? c rest = some lexeme ∧ lexeme.kind ≠ .string := by
  have found : (read? c rest).isSome := by
    unfold read?
    split
    · rfl
    · rw [unquoted]
      split
      · contradiction
      · split
        · rfl
        · split <;> rfl
  obtain ⟨lexeme, read⟩ := Option.isSome_iff_exists.1 found
  refine ⟨lexeme, read, ?_⟩
  rcases read?_cases read with ⟨other, _⟩ | ⟨quote, _⟩
  · exact other
  · rw [unquoted] at quote
    cases quote

def signKinds : List TokenKind :=
  [.openBrace, .closeBrace, .openBracket, .closeBracket, .openParen,
    .closeParen, .semicolon,
    .comma, .equals]

theorem wordKind_not_sign (raw : List Char) : wordKind raw ∉ signKinds := by
  rcases wordKind_cases raw with ⟨_, kind⟩ | ⟨_, kind⟩ | kind <;>
    rw [kind] <;> decide

theorem nameKind_not_sign (name : List Char) : nameKind name ∉ signKinds := by
  rcases nameKind_cases name with kind | kind | kind | kind <;>
    rw [kind] <;> decide

theorem punctuation?_of_read? {c : Char} {rest : List Char} {lexeme : Lexeme}
    (read : read? c rest = some lexeme)
    (sign : lexeme.kind ∈ signKinds) :
    punctuation? c = some lexeme.kind := by
  cases reading_of_read? read with
  | sign found => exact found
  | string => simp [signKinds] at sign
  | name => exact absurd sign (nameKind_not_sign _)
  | modifier found =>
      rcases modifier?_cases found with ⟨rfl, _, _, rfl⟩ | ⟨rfl, _, rfl⟩ | ⟨rfl,
        _, _, rfl⟩ <;> simp [plain, signKinds] at sign
  | number => simp [number, plain, signKinds] at sign
  | word => exact absurd sign (wordKind_not_sign _)

theorem mem_signKinds {c : Char} {kind : TokenKind}
    (found : punctuation? c = some kind) :
    kind ∈ signKinds := by
  unfold punctuation? at found
  split at found <;> simp_all [signKinds]

theorem splitWord_comment (cs : List Char) :
    (splitWord cs).2.head? ≠ some '#' := by
  induction cs with
  | nil => simp [splitWord]
  | cons c cs induction =>
      simp only [splitWord]
      split
      · exact induction
      · rename_i ended
        intro comment
        obtain rfl : c = '#' := by simpa using comment
        exact ended rfl

theorem read?_inWord {c : Char} {rest : List Char} {lexeme : Lexeme}
    (read : read? c rest = some lexeme)
    (kind : lexeme.kind = .inWord) :
    lexeme.raw = ['i', 'n'] ∧ lexeme.rest.head? ≠ some '#' := by
  cases reading_of_read? read with
  | sign found =>
      cases kind
      exact absurd (mem_signKinds found) (by decide)
  | string => cases kind
  | name =>
      rcases nameKind_cases (rest.takeWhile isNameSign) with
        other | other | other | other <;> simp [plain, other] at kind
  | modifier found =>
      rcases modifier?_cases found with
        ⟨rfl, _, _, rfl⟩ | ⟨rfl, _, rfl⟩ | ⟨rfl, _, _, rfl⟩ <;> cases kind
  | number => cases kind
  | word =>
      refine ⟨?_, splitWord_comment rest⟩
      rcases wordKind_cases (c :: (splitWord rest).1) with
        ⟨_, other⟩ | ⟨same, _⟩ | other
      · simp [word, plain, other] at kind
      · exact same
      · simp [word, plain, other] at kind

theorem modifier?_of_read? {c : Char} {rest : List Char} {lexeme : Lexeme}
    (read : read? c rest = some lexeme)
    (kind : lexeme.kind = .modifier) :
    modifier? c rest = some lexeme := by
  cases reading_of_read? read with
  | sign found =>
      cases kind
      exact absurd (mem_signKinds found) (by decide)
  | string => cases kind
  | name =>
      rcases nameKind_cases (rest.takeWhile isNameSign) with
        other | other | other | other <;> simp [plain, other] at kind
  | modifier found => exact found
  | number => cases kind
  | word =>
      rcases wordKind_cases (c :: (splitWord rest).1) with
        ⟨_, other⟩ | ⟨_, other⟩ | other <;> simp [word, plain, other] at kind

/-- The text of a line without line feeds, parentheses that open and braces that
close, other than inside of whole strings. -/
inductive Sealed : List Char → Prop where
  | nil : Sealed []
  | sign {c : Char} {rest : List Char} :
      isQuote c = false → c ≠ '\n' →
      c ≠ '(' → c ≠ '\x7d' →
      Sealed rest → Sealed (c :: rest)
  | string {quote : Char} {value raw rest : List Char} :
      isQuote quote = true →
      closeQuote quote raw = some (value, raw, []) → '\n' ∉ raw →
      Sealed rest → Sealed (quote :: raw ++ rest)

theorem Sealed.of_signs {text : List Char}
    (signs : ∀ c ∈ text, isQuote c = false ∧ c ≠ '\n' ∧ c ≠ '(' ∧ c ≠ '\x7d') :
    Sealed text := by
  induction text with
  | nil => exact .nil
  | cons c text induction =>
      obtain ⟨⟨unquoted, feed, paren, brace⟩, others⟩ :=
        List.forall_mem_cons.1 signs
      exact .sign unquoted feed paren brace (induction others)

theorem Sealed.append {first second : List Char}
    (left : Sealed first)
    (right : Sealed second) :
    Sealed (first ++ second) := by
  induction left with
  | nil => exact right
  | sign unquoted feed paren brace _ induction =>
      exact .sign unquoted feed paren brace induction
  | string quote closed oneLine _ induction =>
      rw [List.append_assoc]
      exact .string quote closed oneLine induction

theorem Sealed.oneLine {text : List Char} (closed : Sealed text) :
    '\n' ∉ text := by
  induction closed with
  | nil => simp
  | sign unquoted feed paren brace _ induction => simp [Ne.symm feed, induction]
  | @string quote value raw rest isQuote closed oneLine _ induction =>
      have other : quote ≠ '\n' := by
        rintro rfl
        cases isQuote
      simp [Ne.symm other, oneLine, induction]

theorem Sealed.of_append {first second : List Char}
    (closed : Sealed (first ++ second))
    (unquoted : ∀ c ∈ first, isQuote c = false) :
    Sealed second := by
  induction first with
  | nil => exact closed
  | cons c first induction =>
      rw [List.forall_mem_cons] at unquoted
      generalize whole : c :: first ++ second = text at closed
      cases closed with
      | nil => cases whole
      | sign _ _ _ _ behind =>
          obtain ⟨rfl, rfl⟩ := List.cons.inj whole
          exact induction behind unquoted.2
      | string quote =>
          obtain ⟨rfl, _⟩ := List.cons.inj whole
          rw [unquoted.1] at quote
          cases quote

theorem read?_string {quote : Char} {value raw : List Char}
    (isQuote : isQuote quote = true)
    (closed : closeQuote quote raw = some (value, raw, []))
    (rest : List Char) :
    Text.isBlank quote = false ∧ quote ≠ '#' ∧
      read? quote (raw ++ rest) =
        some ⟨.string, value, quote :: raw, rest⟩ := by
  have signs : quote = '"' ∨ quote = '\'' := by
    simpa [Lexeme.isQuote] using isQuote
  have real : quote ≠ '\\' := by rcases signs with rfl | rfl <;> decide
  have whole := closeQuote_in_context real closed rest
  rcases signs with rfl | rfl
  all_goals
    refine ⟨by decide, by decide, ?_⟩
    simp [read?, punctuation?, Lexeme.isQuote, quoted?, whole]

theorem closeQuote_of_read? {c : Char} {rest : List Char} {lexeme : Lexeme}
    (isQuote : isQuote c = true)
    (read : read? c rest = some lexeme) :
    ∃ raw, closeQuote c rest = some (lexeme.value, raw, lexeme.rest) ∧
      lexeme.raw = c :: raw ∧
      lexeme.kind = .string := by
  have signs : c = '"' ∨ c = '\'' := by simpa [Lexeme.isQuote] using isQuote
  cases reading_of_read? read with
  | string _ closed => exact ⟨_, closed, rfl, rfl⟩
  | sign found => rcases signs with rfl | rfl <;> cases found
  | name percent => rcases signs with rfl | rfl <;> cases percent
  | modifier found => rcases signs with rfl | rfl <;> cases found
  | number unquoted | word unquoted =>
      rw [isQuote] at unquoted
      cases unquoted

structure Calm (t : Token) : Prop where
  oneLine : '\n' ∉ t.raw.toList
  noParen : t.kind ≠ .openParen
  noBrace : t.kind ≠ .closeBrace

def EndsLine (after : List Char) : Prop :=
  ∀ c ∈ after.head?, c = '\n'

theorem EndsLine.append {first second : List Char} (left : EndsLine first)
    (right : EndsLine second) : EndsLine (first ++ second) := by
  cases first with
  | nil => exact right
  | cons => exact left

theorem EndsLine.stops {after : List Char} (ends : EndsLine after) :
    Stops after := by
  intro c member
  rw [ends c member]
  decide

theorem calm_of_sign
    {c : Char} {taken rest value : List Char} {kind : TokenKind} {p : Position}
    (read : read? c (taken ++ rest) = some ⟨kind, value, c :: taken, rest⟩)
    (feed : '\n' ∉ c :: taken)
    (paren : c ≠ '(')
    (brace : c ≠ '\x7d') :
    Calm (toToken ⟨kind, value, c :: taken, rest⟩ p) := by
  refine ⟨by simpa [toToken] using feed, ?_, ?_⟩
  · rintro rfl
    have sign := punctuation?_of_read? read (by simp [signKinds])
    unfold punctuation? at sign
    split at sign <;> simp_all
  · rintro rfl
    have sign := punctuation?_of_read? read (by simp [signKinds])
    unfold punctuation? at sign
    split at sign <;> simp_all

theorem Sealed.scan {line after : List Char}
    (closed : Sealed line)
    (ends : EndsLine after)
    {p : Position} {ts : List Token}
    (scanned : Token.scan p (line ++ after) = .ok ts) :
    ∃ first others q, ts = first ++ others ∧ (∀ t ∈ first, Calm t) ∧
      Token.scan q after = .ok others := by
  induction size :
    line.length using Nat.strong_induction_on generalizing line p ts with
  | _ size induction =>
      subst size
      have oneLine := closed.oneLine
      cases closed with
      | nil => exact ⟨[], ts, p, rfl, by simp, scanned⟩
      | @sign c rest unquoted feed paren brace behind =>
          by_cases blank : Text.isBlank c = true
          · rw [List.cons_append, Token.scan_blank blank] at scanned
            exact induction rest.length (by simp) behind scanned rfl
          by_cases comment : c = '#'
          · subst comment
            rw [Token.scan_comment behind.oneLine ends] at scanned
            exact ⟨[], ts, _, rfl, by simp, scanned⟩
          obtain ⟨⟨kind, value, raw, left⟩, read, other⟩ :=
            exists_read? unquoted rest
          obtain ⟨taken, rfl, further⟩ := read?_not_stop read other
          obtain rfl : taken ++ left = rest :=
            (List.cons.inj (read?_append read)).2
          obtain ⟨us, rfl, later⟩ :=
            scan_cons_ok (by simpa using blank) comment read ends.stops scanned
          have unquotedToo : ∀ d ∈ taken, isQuote d = false :=
            fun d member => not_quote_of_not_stop (further d member)
          obtain ⟨first, others, q, rfl, calm, final⟩ :=
            induction left.length
              (by simp only [List.length_cons, List.length_append]; omega)
              (behind.of_append unquotedToo) later rfl
          refine ⟨_ :: first, others, q, rfl,
            List.forall_mem_cons.2 ⟨?_, calm⟩, final⟩
          apply calm_of_sign read _ paren brace
          rw [List.mem_cons, not_or] at oneLine ⊢
          exact ⟨oneLine.1,
            fun member => oneLine.2 (List.mem_append_left _ member)⟩
      | @string quote value raw rest isQuote closed within behind =>
          obtain ⟨shown, sign, read⟩ := read?_string isQuote closed rest
          obtain ⟨us, rfl, later⟩ :=
            scan_cons_ok shown sign read ends.stops scanned
          obtain ⟨first, others, q, rfl, calm, final⟩ :=
            induction rest.length
              (by simp only [List.length_cons, List.length_append]; omega)
              behind later rfl
          refine ⟨_ :: first, others, q, rfl,
            List.forall_mem_cons.2 ⟨?_, calm⟩, final⟩
          refine ⟨?_, by simp [toToken], by simp [toToken]⟩
          have other : quote ≠ '\n' := by
            rintro rfl
            cases isQuote
          simpa [toToken, Ne.symm other] using within

end Lexeme

end ServerConf
