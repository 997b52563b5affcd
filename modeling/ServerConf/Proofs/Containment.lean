import ServerConf.Proofs.Alignment
import ServerConf.Proofs.Rerendering
import ServerConf.Proofs.RoundTrip

/-!
Arguments stay inside their directive. A value is contained if what is written
for it is read as one argument. Whatever contained values a directive has, it is
read back as one directive with as many arguments, and values for which this can
be said are contained.
-/

namespace ServerConf

open Lexeme Grammar

namespace Argument

/-- The value stays inside its argument. Quotes of its own are closed by its
last character only; a value that needs quotes is put in them; and a bare one is
a single word without references. -/
inductive Contained (value : List Char) : Prop where
  | closed {quote : Char} {body inner : List Char} :
      value = quote :: body → isQuoted value = true →
      closeQuote quote body = some (inner, body, []) → Contained value
  | escaped : isQuoted value = false → needsQuotes value = true →
      Contained value
  | bare {lexemes : List Lexeme} :
      isQuoted value = false → needsQuotes value = false →
        Spelling value lexemes →
      (∀ lexeme ∈ lexemes, lexeme.kind.isGlue = true ∧
        lexeme.kind ≠ .environment) →
      (∀ lexeme ∈ lexemes.head?, isArgument lexeme.kind = true) →
        Contained value

theorem Contained.spelled {value : List Char} (contained : Contained value) :
    ∃ lexemes, Spelling (quoteChars value) lexemes ∧ IsTerm lexemes ∧
      ∀ lexeme ∈ lexemes.head?, isArgument lexeme.kind = true := by
  cases contained with
  | @closed quote body inner same quoted closes =>
      have opening : isQuote quote = true := by
        rw [same, isQuoted, Bool.and_eq_true] at quoted
        exact quoted.1
      obtain ⟨shown, sign, read⟩ := read?_string opening closes []
      rw [List.append_nil] at read
      rw [quoteChars, if_pos quoted, same]
      exact ⟨_, .single shown sign read,
        .string rfl, by simp [isArgument, TokenKind.isName]⟩
  | escaped unquoted needed =>
      rw [quoteChars, unquoted, needed]
      exact ⟨_, spelling_escape value,
        .string rfl, by simp [isArgument, TokenKind.isName]⟩
  | bare unquoted plain spelling glue first =>
      rw [quoteChars, unquoted, plain]
      refine ⟨_, spelling, .word ?_ glue, first⟩
      rintro rfl
      cases spelling
      cases plain

theorem newline_not_mem_quoteChars {value : List Char}
    (oneLine : '\n' ∉ value) :
    '\n' ∉ quoteChars value := by
  rcases quoteChars_cases value with
    ⟨_, same⟩ | ⟨_, same⟩ | ⟨_, same, _⟩ <;> rw [same]
  · exact oneLine
  · simp [newline_not_mem_escape oneLine]
  · exact oneLine

end Argument

/-- A word of letters that begins neither a condition nor a location. -/
structure PlainName (name : String) : Prop where
  filled : name ≠ ""
  letters : name.toList.all Char.isAlpha = true
  notIf : name ≠ "if"
  notLocation : name ≠ "location"

/-- What is written for a directive is read as one directive with its name and
as many arguments. -/
def Site.StaysWhole (site : Site) (name : String) (args : List String) : Prop :=
  ∀ position filename, ∃ text,
    (site.render ⟨[.directive name args position], filename⟩ none).result =
      .ok text ∧
      ∃ values place, Document.parse Environment.empty filename text =
        .ok ⟨[.directive name values place], filename⟩ ∧
          values.length = args.length

theorem Text.isCleanSign_of_isAlpha {c : Char} (letter : c.isAlpha = true) :
    isCleanSign c = true := by
  have bounds : 65 ≤ c.toNat ∧ c.toNat ≤ 90 ∨ 97 ≤ c.toNat ∧ c.toNat ≤ 122 := by
    change (decide (65 ≤ c.val ∧ c.val ≤ 90) ||
      decide (97 ≤ c.val) && decide (c.val ≤ 122)) = true at letter
    simpa [UInt32.le_iff_toNat_le] using letter
  have shown : isBlank c = false := by
    by_contra blank
    obtain ⟨range, member, low, high⟩ :=
      Ranges.exists_of_contains
        (show blanks.contains c.toNat = true by simpa [isBlank] using blank)
    simp only [blanks, List.mem_cons, List.not_mem_nil, or_false] at member
    rcases member with
      rfl | rfl | rfl | rfl | rfl | rfl | rfl | rfl | rfl | rfl <;>
      simp only at low high <;> omega
  have other : ['\x7b', '\x7d', '(', ')', ';', ',', '"', '\'', '#',
      '%'].contains c = false := by
    rw [Bool.eq_false_iff, ne_eq, List.contains_iff_mem]
    intro sign
    simp only [List.mem_cons, List.not_mem_nil, or_false] at sign
    rcases sign with
      rfl | rfl | rfl | rfl | rfl | rfl | rfl | rfl | rfl | rfl <;>
      exact absurd letter (by decide)
  rw [isCleanSign, shown, other]
  rfl

theorem PlainName.isAlpha {name : String} (plain : PlainName name) {c : Char}
    (member : c ∈ name.toList) : c.isAlpha = true :=
  List.all_eq_true.1 plain.letters c member

theorem PlainName.cleanName {name : String} (plain : PlainName name) :
    CleanName name.toList := by
  have whole : Text.headWord name.toList = name.toList := by
    rw [Text.headWord, List.takeWhile_eq_self_iff]
    intro c member
    have other : c ≠ '[' ∧ c ≠ ']' ∧ c ≠ '=' := by
      refine ⟨?_, ?_, ?_⟩ <;> rintro rfl <;> exact absurd (plain.isAlpha member)
        (by decide)
    simp [other]
  have first : ∀ sign : Char, sign.isAlpha = false →
      name.toList.head? ≠ some sign := by
    intro sign other begins
    rw [plain.isAlpha (List.mem_of_mem_head? begins)] at other
    cases other
  refine ⟨⟨by simpa using plain.filled, ?_, first ']' (by decide)⟩,
    first '=' (by decide), ?_⟩
  · exact fun c member => Text.isCleanSign_of_isAlpha (plain.isAlpha member)
  · rw [whole]
    refine ⟨fun same => plain.notIf ?_, fun same => plain.notLocation ?_⟩
    · exact String.toList_inj.1 same
    · exact String.toList_inj.1 same

theorem plainName_d :
    PlainName "d" := ⟨by decide, by decide, by decide, by decide⟩

section Whole

variable {site : Site} {indent name filename : String} {args : List String}
  {position : Position}

theorem Site.render_directive (given : site.options.indent = .text indent)
    (plain : PlainName name) :
    (site.render ⟨[.directive name args position], filename⟩ none).result =
      .ok (Line.directive name args).text := by
  have lines : ∀ handlers,
      linesOf site.options handlers 0 [.directive name args position] =
      pure [(Line.directive name args).text] := by
    intro handlers
    simp [linesOf, Statement.lines, RenderOptions.indentation, given, Line.text,
      Line.header, Line.isLeaf]
  have shown : Shown name.toList := by
    obtain ⟨lexemes, named, _⟩ := plain.cleanName.spellsName
    exact named.spelling.shown named.isTerm.ne_nil
  have framed : Framed "" [(Line.directive name args).text] := by
    have leaf : Framed "" ["" ++ (name ++ Argument.line args) ++ ";"] :=
      framed_leaf "" (by simpa using shown.append _)
    simpa [Line.text, Line.header, Line.isLeaf] using leaf
  have started : site.startScope none = .ok {} := rfl
  rw [Site.render_result started lines, framed.trim_eq]
  simp

theorem Argument.exists_spellTerms
    (contained : ∀ arg ∈ args, Argument.Contained arg.toList) :
    ∃ lexemes,
      SpellTerms (args.map fun arg => Argument.quoteChars arg.toList) lexemes ∧
      ∀ arg ∈ lexemes, ∀ lexeme ∈ arg.head?, isArgument lexeme.kind = true := by
  induction args with
  | nil => exact ⟨[], .nil, by simp⟩
  | cons arg args induction =>
      rw [List.forall_mem_cons] at contained
      obtain ⟨lexemes, spelling, isTerm, first⟩ := contained.1.spelled
      obtain ⟨others, spelled, kinds⟩ := induction contained.2
      exact ⟨lexemes :: others, .cons ⟨spelling, isTerm⟩ spelled,
        List.forall_mem_cons.2 ⟨first, kinds⟩⟩

theorem Document.parse_of_leaf
    {env : Environment} {source filename : String} {l : Leaf} {s : Statement}
    (reads : Reads .start source.toList l.tokens)
    (meaning : l.statement? env = some s) :
    parse env filename source = .ok ⟨[s], filename⟩ := by
  have whole := reads []
  rw [List.append_nil, Token.scan_nil, Token.prepend_ok] at whole
  have scanned : Token.ofSource source =
      .ok (tokensOf [.leaf l] ++
        [.atEnd (Position.start.advanceBy source.toList)]) := by
    simpa [Token.ofSource_eq_scan, tokensOf, Phrase.tokens] using whole
  rw [parse_eq_ok_iff scanned]
  refine ⟨rfl, [.leaf l], by simp, ?_⟩
  simp [statementsOf?, Phrase.statement?, meaning]

theorem Document.parse_of_contained
    (plain : PlainName name)
    (contained : ∀ arg ∈ args, Argument.Contained arg.toList)
    (oneLine : ∀ arg ∈ args, '\n' ∉ arg.toList)
    (env : Environment) :
    ∃ values place,
      Document.parse env filename (Line.directive name args).text =
      .ok ⟨[.directive name values place], filename⟩ ∧
        values.length = args.length := by
  obtain ⟨nameLexemes, named, parts⟩ := plain.cleanName.spellsName
  obtain ⟨argLexemes, spelled, argKinds⟩ := Argument.exists_spellTerms contained
  have spells : SpellsHeader name.toList (args.map fun arg =>
      Argument.quoteChars arg.toList) nameLexemes argLexemes := by
    refine ⟨named, spelled, argKinds, fun lexeme first isVariable => ?_⟩
    obtain ⟨part, clean⟩ := parts lexeme (List.mem_of_mem_head? first)
    exact absurd isVariable clean.kind.2.2.1
  have keeps : KeepsLine name.toList argLexemes := by
    refine spelled.keepsLine fun feed => ?_
    rcases List.mem_append.1 feed with inName | inArgs
    · exact absurd (plain.isAlpha inName) (by decide)
    · simp only [spaced, List.mem_flatMap, List.mem_map,
        List.mem_cons] at inArgs
      obtain ⟨_, ⟨arg, member, rfl⟩, space | inside⟩ := inArgs
      · exact absurd space (by decide)
      · exact Argument.newline_not_mem_quoteChars (oneLine arg member) inside
  obtain ⟨l, reads, meaning⟩ := exists_directive spells keeps .start
  rw [List.append_assoc, ← Line.toList_directive_text] at reads
  simp only [String.ofList_toList] at meaning
  exact ⟨_, .start,
    parse_of_leaf reads (meaning env), by simpa using spelled.length_eq.symm⟩

end Whole

theorem Grammar.Term.length_of_textsOf? {env : Environment} {terms : List Term}
    {values : List String} (settled : textsOf? env terms = some values) :
    values.length = terms.length := by
  induction terms generalizing values with
  | nil =>
      cases settled
      rfl
  | cons term terms induction =>
      simp only [textsOf?_cons, Option.bind_eq_bind,
        Option.bind_eq_some_iff] at settled
      obtain ⟨value, _, others, behind, ⟨⟩⟩ := settled
      simp [induction behind]

theorem Grammar.Phrase.exists_header
    {env : Environment} {p : Phrase} {name : String} {values : List String}
    {place : Position}
    (settled : p.statement? env = some (.directive name values place)) :
    ∃ (header : Header) (semicolon : Token.Of .semicolon),
      p.tokens = header.tokens ++ [semicolon.1] ∧
        header.args.length = values.length := by
  cases p with
  | leaf l =>
      cases l with
      | inline | importFile => cases settled
      | directive header semicolon oneLine =>
          simp only [statement?, Leaf.statement?, Option.bind_eq_bind,
            Option.bind_eq_some_iff] at settled
          obtain ⟨_, _, args, valued, ⟨⟩⟩ := settled
          exact ⟨header, semicolon, rfl, (Term.length_of_textsOf? valued).symm⟩
  | group o body closing closes =>
      simp only [statement?, Option.bind_eq_bind,
        Option.bind_eq_some_iff] at settled
      obtain ⟨heading, _, children, _, same⟩ := settled
      cases heading <;> cases same

theorem Document.exists_header
    {env : Environment} {filename source name : String} {values : List String}
    {place : Position}
    (parsed : Document.parse env filename source =
      .ok ⟨[.directive name values place], filename⟩) :
    ∃ (header : Header) (semicolon : Token.Of .semicolon) (last : Token),
      Token.scan .start source.toList =
        .ok (header.tokens ++ [semicolon.1, last]) ∧
        header.args.length = values.length := by
  obtain ⟨ps, last, scanned, settled⟩ := Document.exists_phrases parsed
  cases ps with
  | nil => cases settled
  | cons p ps =>
      simp only [statementsOf?, Option.bind_eq_bind,
        Option.bind_eq_some_iff] at settled
      obtain ⟨_, first, others, behind, ⟨⟩⟩ := settled
      obtain ⟨header, semicolon, tokens, length⟩ := Phrase.exists_header first
      have none : ps = [] := by
        cases ps with
        | nil => rfl
        | cons =>
            simp only [statementsOf?, Option.bind_eq_bind,
              Option.bind_eq_some_iff] at behind
            obtain ⟨_, _, _, _, ⟨⟩⟩ := behind
      refine ⟨header, semicolon, last, ?_, length⟩
      rw [Token.ofSource_eq_scan] at scanned
      simpa [none, tokensOf, tokens] using scanned

theorem Grammar.Header.name_tokens
    {header : Header} {t next : Token} {rest more : List Token}
    (tokens : header.tokens ++ more = t :: next :: rest)
    (unquoted : t.kind ≠ .string)
    (other : t.kind ≠ .environment)
    (apart : t.touches next = false) :
    header.name.tokens = [t] := by
  rw [Header.tokens] at tokens
  cases named : header.name with
  | quoted string =>
      rw [named] at tokens
      exact absurd ((List.cons.inj tokens).1 ▸ string.2) unquoted
  | word w _ =>
      obtain ⟨first, parts, glued⟩ := w
      rw [named] at tokens
      cases first with
      | reference r => exact absurd ((List.cons.inj tokens).1 ▸ r.sign.2) other
      | plain u _ =>
          cases parts with
          | nil =>
              exact congrArg (fun first => [first]) (List.cons.inj tokens).1
          | cons part parts =>
              obtain ⟨rfl, behind⟩ := List.cons.inj tokens
              obtain ⟨rfl, _⟩ := List.cons.inj behind
              rw [List.isChain_cons_cons] at glued
              exact absurd (glued.1.2.symm.trans apart) (by decide)

theorem Argument.exists_cons_of_quoteChars (value : List Char) :
    ∃ c rest, quoteChars value = c :: rest ∧ Text.isBlank c = false ∧
      c ≠ '#' := by
  rcases quoteChars_cases value with
    ⟨quoted, same⟩ | ⟨_, same⟩ | ⟨_, same, some, plain, comment⟩
  · obtain ⟨c, body, rfl, quote⟩ := exists_quote quoted
    exact ⟨c, body, same, shown_of_quote quote⟩
  · exact ⟨'"', _, same, by decide, by decide⟩
  · obtain ⟨c, value, rfl⟩ := List.exists_cons_of_ne_nil some
    exact ⟨c, value, same,
      (not_special (plain c (by simp))).1, by simpa using comment⟩

theorem Site.StaysWhole.exists_args
    {site : Site} {indent value : String} {args : List String}
    (given : site.options.indent = .text indent)
    (whole : site.StaysWhole "d" (value :: args)) :
    ∃ p terms last, ∃ semicolon : Token.Of .semicolon,
      terms.length = args.length + 1 ∧
      (∀ term ∈ terms, isArgument term.first.kind = true) ∧
      Token.scan p (Argument.quoteChars value.toList ++
        (spaced
          (args.map fun arg => Argument.quoteChars arg.toList) ++ [';'])) =
          .ok (Term.tokensOf terms ++ [semicolon.1, last]) := by
  obtain ⟨text, rendered, values, place, parsed, size⟩ := whole .start ""
  rw [Site.render_directive given plainName_d] at rendered
  obtain rfl := Except.ok.inj rendered
  obtain ⟨header, semicolon, last, scanned, length⟩ :=
    Document.exists_header parsed
  have name : Spelling ['d'] [⟨.identifier, ['d'], ['d'], []⟩] :=
    .single (by decide) (by decide) (by decide)
  rw [Line.toList_directive_text, List.map_cons, spaced_cons, List.append_assoc,
    List.append_assoc, List.singleton_append, show "d".toList = ['d'] from rfl,
    name.reads _ _ (.blank (by decide) _)] at scanned
  obtain ⟨us, tokens, behind⟩ := Token.prepend_eq_ok scanned
  rw [Token.scan_blank (by decide)] at behind
  have alone :
      header.name.tokens = placed .start [⟨.identifier, ['d'], ['d'], []⟩] := by
    obtain ⟨c, tail, begins, shown, sign⟩ :=
      Argument.exists_cons_of_quoteChars value.toList
    cases us with
    | nil =>
        have few := congrArg List.length tokens
        simp at few
    | cons next us =>
        rw [begins] at behind
        obtain ⟨lexeme, _, rfl, _⟩ := exists_of_scan shown sign behind
        exact header.name_tokens tokens (by decide) (by decide)
          (touches_eq_false rfl)
  rw [Header.tokens, alone, List.append_assoc] at tokens
  obtain rfl := List.append_cancel_left tokens
  exact ⟨_, header.args, last, semicolon, length.trans size,
    header.argKinds, behind⟩

namespace Lexeme

theorem not_sign_of_not_special {c : Char} {rest : List Char} {lexeme : Lexeme}
    (bare : Argument.isSpecial c = false)
    (read : read? c rest = some lexeme) :
    lexeme.kind ≠ .semicolon ∧ lexeme.kind ≠ .openParen := by
  constructor <;> intro kind
  all_goals
    have found := punctuation?_of_read? read (by rw [kind]; decide)
    rw [kind] at found
    unfold punctuation? at found
    split at found <;> first | exact absurd bare (by decide) | cases found

theorem semicolon_of_scan
    {text after context : List Char} {p q : Position} {t u : Token}
    {ts us : List Token}
    (oneLine : '\n' ∉ text)
    (last : ∃ c ∈ text, Text.isBlank c = false)
    (ends : '\n' ∉ after)
    (scanned : Token.scan p (text ++ after) = .ok (t :: ts))
    (semicolon : t.kind = .semicolon)
    (other : Token.scan q (text ++ context) = .ok (u :: us)) :
    u.kind = .semicolon := by
  induction text generalizing p q with
  | nil => simp at last
  | cons c text induction =>
      rw [List.cons_append] at scanned other
      by_cases blank : Text.isBlank c = true
      · rw [Token.scan_blank blank] at scanned other
        refine induction (fun feed => oneLine (by simp [feed])) ?_ scanned other
        simpa [blank] using last
      rw [Bool.not_eq_true] at blank
      by_cases comment : c = '#'
      · have inside : '\n' ∉ text ++ after := by
          simp only [List.mem_cons, not_or] at oneLine
          simp [oneLine.2, ends]
        rw [comment, ← List.append_nil (text ++ after), ← List.cons_append,
          Token.scan_comment inside (by simp), Token.scan_nil] at scanned
        obtain ⟨rfl, _⟩ := List.cons.inj (Except.ok.inj scanned)
        cases semicolon
      obtain ⟨lexeme, read, rfl, _⟩ := exists_of_scan blank comment scanned
      obtain ⟨found, again, rfl, _⟩ := exists_of_scan blank comment other
      have sign : punctuation? c = some .semicolon := by
        have kind : lexeme.kind = .semicolon := semicolon
        rw [← kind]
        exact punctuation?_of_read? read (by rw [kind]; decide)
      rw [read?, sign] at again
      cases again
      rfl

/-- Before a semicolon that is read as one, text without special characters is
spelled with lexemes alone: a comment in it would have taken the semicolon. -/
theorem exists_spelling_of_scan
    {text : List Char} {p : Position} {ts : List Token}
    (plain : ∀ c ∈ text, Argument.isSpecial c = false)
    (scanned : Token.scan p (text ++ [';']) = .ok ts)
    (ended : ∃ t ∈ ts, t.kind = .semicolon) :
    ∃ lexemes, Spelling text lexemes ∧
      ∀ lexeme ∈ lexemes, lexeme.kind ≠ .string ∧ lexeme.kind ≠ .openParen := by
  -- A lexeme takes any number of characters, so the induction is on how many
  -- there are.
  induction size :
    text.length using Nat.strong_induction_on generalizing text p ts with
  | _ size induction =>
      subst size
      cases text with
      | nil => exact ⟨[], .nil, by simp⟩
      | cons c rest =>
          obtain ⟨bare, others⟩ := List.forall_mem_cons.1 plain
          obtain ⟨shown, unquoted⟩ := Argument.not_special bare
          by_cases comment : c = '#'
          · have inside : '\n' ∉ rest ++ [';'] := by
              simp only [List.mem_append, not_or]
              exact ⟨fun feed => absurd (others _ feed) (by decide), by decide⟩
            rw [comment, ← List.append_nil ('#' :: rest ++ [';']),
              List.cons_append, Token.scan_comment inside (by simp),
              Token.scan_nil] at scanned
            obtain rfl := Except.ok.inj scanned
            simp [Token.atEnd] at ended
          obtain ⟨⟨kind, value, raw, left⟩, read, other⟩ :=
            exists_read? unquoted rest
          obtain ⟨taken, rfl, _⟩ := read?_not_stop read other
          obtain rfl : taken ++ left = rest :=
            (List.cons.inj (read?_append read)).2
          obtain ⟨us, rfl, later⟩ :=
            scan_cons_ok shown comment read (.punctuation rfl []) scanned
          have sign := not_sign_of_not_special bare read
          have endedToo : ∃ t ∈ us, t.kind = .semicolon := by
            simpa [toToken, sign.1] using ended
          have shorter : left.length < (c :: (taken ++ left)).length := by
            rw [List.length_cons, List.length_append]
            omega
          obtain ⟨lexemes, spelling, kinds⟩ := induction left.length shorter
            (fun d member => others d (by simp [member])) later endedToo rfl
          exact ⟨_, .cons shown comment read spelling,
            List.forall_mem_cons.2 ⟨⟨other, sign.2⟩, kinds⟩⟩

end Lexeme

namespace Argument

theorem forall_kind_placed
    {p : Position} {lexemes : List Lexeme} {Q : TokenKind → Prop} :
    (∀ t ∈ placed p lexemes, Q t.kind) ↔ ∀ lexeme ∈ lexemes, Q lexeme.kind := by
  rw [← List.forall_mem_map, map_kind_placed, List.forall_mem_map]

theorem Contained.of_bare
    {value : List Char} {p : Position} {term : Term} {last : Token}
    {semicolon : Token.Of .semicolon}
    (unquoted : isQuoted value = false)
    (unneeded : needsQuotes value = false)
    (argument : isArgument term.first.kind = true)
    (scanned : Token.scan p (value ++ [';']) =
      .ok (term.tokens ++ [semicolon.1, last])) :
    Contained value := by
  have plain : ∀ c ∈ value, isSpecial c = false := by
    simp only [needsQuotes, Bool.or_eq_false_iff] at unneeded
    simpa using unneeded.1.2
  obtain ⟨lexemes, spelling, kinds⟩ :=
    exists_spelling_of_scan plain scanned ⟨semicolon.1, by simp, semicolon.2⟩
  have tokens : placed p lexemes = term.tokens := by
    have read := Reads.punctuation (c := ';') rfl (p.advanceBy value) []
    rw [List.append_nil, Token.scan_nil, Token.prepend_ok] at read
    rw [spelling.reads p _ (.punctuation rfl []), read,
      Token.prepend_ok] at scanned
    exact List.append_inj_left' (Except.ok.inj scanned) rfl
  have others := (@forall_kind_placed p _ fun kind => kind ≠ .string ∧
    kind ≠ .openParen).2 kinds
  have glue : ∀ t ∈ term.tokens, t.kind.isGlue = true ∧
      t.kind ≠ .environment := by
    rw [tokens] at others
    cases term with
    | quoted t => exact absurd t.2 (others t.1 (by simp [Term.tokens])).1
    | word w unquoted =>
        refine Word.kinds (fun ref inside => ?_)
          (isGlue_of_isArgument argument unquoted)
        have among : ref.opening.1 ∈ w.tokens :=
          inside.subset (by simp [Reference.tokens, Reference.following])
        exact (others _ among).2 ref.opening.2
  rw [← tokens] at glue
  refine .bare unquoted unneeded spelling
    ((@forall_kind_placed p _ fun kind => kind.isGlue = true ∧
      kind ≠ .environment).1 glue) ?_
  intro lexeme head
  obtain ⟨others, rfl⟩ := List.head?_eq_some_iff.1 head
  rw [Term.tokens_eq_cons] at tokens
  rwa [← (List.cons.inj tokens).1] at argument

theorem exists_closed_of_scan
    {quote : Char} {body after : List Char} {p : Position} {term : Term}
    {rest : List Token}
    (opening : isQuote quote = true)
    (scanned :
      Token.scan p (quote :: body ++ after) = .ok (term.tokens ++ rest)) :
    ∃ inner raw left q,
      closeQuote quote (body ++ after) = some (inner, raw, left) ∧
      Token.scan q left = .ok rest := by
  obtain ⟨shown, sign⟩ := shown_of_quote opening
  rw [Term.tokens_eq_cons, List.cons_append, List.cons_append] at scanned
  obtain ⟨lexeme, read, first, behind⟩ := exists_of_scan shown sign scanned
  obtain ⟨raw, closed, _, string⟩ := closeQuote_of_read? opening read
  cases term with
  | quoted t => exact ⟨_, raw, _, _, closed, behind⟩
  | word w unquoted =>
      exact absurd ((congrArg Token.kind first).trans string) unquoted

theorem Contained.of_quoted
    {value context : List Char} {p q : Position} {first second next : Term}
    {last : Token} {rest : List Token} {semicolon : Token.Of .semicolon}
    (quoted : isQuoted value = true)
    (oneLine : '\n' ∉ value)
    (alone :
      Token.scan p (value ++ [';']) = .ok (first.tokens ++ [semicolon.1, last]))
    (twice : Token.scan q (value ++ context) =
      .ok (second.tokens ++ (next.tokens ++ rest)))
    (argument : isArgument next.first.kind = true) :
    Contained value := by
  obtain ⟨quote, body, rfl, opening⟩ := exists_quote quoted
  obtain ⟨inner, raw, left, _, closed, behind⟩ :=
    exists_closed_of_scan opening alone
  obtain ⟨start, ends, _⟩ := closeQuote_value closed
  have real : quote ≠ '\\' ∧ quote ≠ ';' := by
    have signs : quote = '"' ∨ quote = '\'' := by simpa [isQuote] using opening
    rcases signs with rfl | rfl <;> decide
  have whole := closeQuote_append closed
  rcases List.eq_nil_or_concat' left with rfl | ⟨more, c, rfl⟩
  · rw [List.append_nil, ends] at whole
    exact absurd (List.append_inj_right' whole rfl) (by simpa using real.2)
  rw [← List.append_assoc] at whole
  obtain ⟨rfl, semicolons⟩ := List.append_inj' whole rfl
  obtain rfl : c = ';' := by simpa using semicolons
  cases more with
  | nil =>
      have closes := closeQuote_in_context real.1 closed []
      exact .closed rfl quoted (by simpa using closes)
  | cons d more =>
      -- Behind the closing quote stands the semicolon that ended the directive,
      -- so the next term would have to begin with it.
      have closes := closeQuote_in_context real.1 closed (d :: more ++ context)
      obtain ⟨_, _, left, _, again, later⟩ :=
        exists_closed_of_scan opening twice
      rw [List.append_assoc, closes] at again
      cases again
      have lastQuote : quote ∈ d :: more := by
        simp only [isQuoted, Bool.and_eq_true, beq_iff_eq,
          List.getLast?_append] at quoted
        refine List.mem_of_getLast? (a := quote) ?_
        simpa using quoted.2
      have feed : '\n' ∉ d :: more := fun inside => oneLine (by simp [inside])
      rw [Term.tokens_eq_cons, List.cons_append] at later
      have sign := semicolon_of_scan feed ⟨quote, lastQuote,
        (shown_of_quote opening).1⟩ (by decide) behind semicolon.2 later
      exact absurd sign (not_punctuation_of_isArgument argument).1

end Argument

theorem Site.StaysWhole.contained {site : Site} {indent value : String}
    (given : site.options.indent = .text indent)
    (oneLine : '\n' ∉ value.toList)
    (alone : site.StaysWhole "d" [value])
    (twice : site.StaysWhole "d" [value, value]) :
    Argument.Contained value.toList := by
  obtain ⟨p, terms, last, semicolon, single, arguments, scanned⟩ :=
    alone.exists_args given
  obtain ⟨term, rfl⟩ := List.length_eq_one_iff.1 single
  have argument := arguments term (by simp)
  rw [Term.tokensOf_cons, Term.tokensOf_nil, List.append_nil] at scanned
  cases quoted : Argument.isQuoted value.toList with
  | true =>
      obtain ⟨_, _, _, _, double, kinds, scannedToo⟩ := twice.exists_args given
      obtain ⟨second, next, rfl⟩ := List.length_eq_two.1 double
      have same : Argument.quoteChars value.toList = value.toList := by
        rw [Argument.quoteChars, if_pos quoted]
      rw [same] at scanned scannedToo
      rw [Term.tokensOf_cons, Term.tokensOf_cons, List.append_assoc,
        List.append_assoc] at scannedToo
      exact .of_quoted quoted oneLine scanned scannedToo (kinds next (by simp))
  | false =>
      cases needed : Argument.needsQuotes value.toList with
      | true => exact .escaped quoted needed
      | false =>
          rw [Argument.quoteChars, quoted, needed] at scanned
          exact .of_bare quoted needed argument scanned

/-- Directives stay whole whatever values of a kind they have exactly if all
those values are contained. -/
theorem Site.staysWhole_iff_contained
    {site : Site} {indent : String} {values : Set String}
    (given : site.options.indent = .text indent)
    (oneLine : ∀ value ∈ values, '\n' ∉ value.toList) :
    (∀ name args, PlainName name → (∀ arg ∈ args, arg ∈ values) →
      site.StaysWhole name args) ↔
      ∀ value ∈ values, Argument.Contained value.toList := by
  constructor
  · intro whole value member
    refine Site.StaysWhole.contained given (oneLine value member)
      (whole "d" [value] plainName_d ?_)
        (whole "d" [value, value] plainName_d ?_)
    all_goals simp [member]
  · intro contained name args plain among position filename
    refine ⟨_, Site.render_directive given plain, ?_⟩
    exact Document.parse_of_contained plain
      (fun arg member => contained arg (among arg member))
      (fun arg member => oneLine arg (among arg member)) .empty

theorem Site.staysWhole_iff_contained_quoted :
    (∀ value ∈ ({"a b; c", "\"x y\"", "on"} : Set String),
      '\n' ∉ value.toList) ∧
      Site.StaysWhole { store := ⟨⟨[]⟩, []⟩ } "add" ["a b; c", "\"x y\"",
        "on"] := by
  have oneLine : ∀ value ∈ ({"a b; c", "\"x y\"", "on"} : Set String),
      '\n' ∉ value.toList := by
    rintro value (rfl | rfl | rfl) <;> decide
  refine ⟨oneLine,
    (staysWhole_iff_contained rfl oneLine).2 ?_ "add" _ ?_ (by simp)⟩
  · rintro value (rfl | rfl | rfl)
    · exact .escaped (by decide) (by decide)
    · exact @Argument.Contained.closed _ '"' ['x', ' ', 'y', '"']
        ['x', ' ', 'y'] (by decide) (by decide) (by decide)
    · have spelling :
          Spelling ['o', 'n'] [⟨.identifier, ['o', 'n'], ['o', 'n'], []⟩] :=
        .single (by decide) (by decide) (by decide)
      exact .bare (by decide)
        (by decide) spelling (List.forall_mem_singleton.2 (by decide))
        (by simp [isArgument, TokenKind.isName, TokenKind.isWord])
  · exact ⟨by decide, by decide, by decide, by decide⟩

/-- A value may begin and end with a quote and yet end its directive in
between. -/
theorem Site.not_staysWhole_closing :
    ¬ ∀ name args, PlainName name → (∀ arg ∈ args, '\n' ∉ arg.toList) →
      Site.StaysWhole { store := ⟨⟨[]⟩, []⟩ } name args := by
  intro whole
  obtain ⟨text, rendered, values, place, parsed, _⟩ :=
    whole "d" ["\"a\"; evil \"b\""] plainName_d
      (List.forall_mem_singleton.2 (by decide)) .start ""
  have written : (Site.render { store := ⟨⟨[]⟩, []⟩ }
      ⟨[.directive "d" ["\"a\"; evil \"b\""] .start], ""⟩ none).result =
        .ok "d \"a\"; evil \"b\";" := by
    decide +kernel
  obtain rfl := Except.ok.inj (written.symm.trans rendered)
  have two : Document.parse .empty "" "d \"a\"; evil \"b\";" =
      .ok ⟨[.directive "d" ["a"] ⟨1, 1⟩, .directive "evil" ["b"] ⟨1, 8⟩],
        ""⟩ := by
    with_unfolding_all rfl
  rw [two] at parsed
  cases parsed

end ServerConf
