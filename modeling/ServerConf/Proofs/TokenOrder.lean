import ServerConf.Proofs.CleanSpelling
import ServerConf.Proofs.LineTokens
import ServerConf.Proofs.Stability

/-!
What cannot stand next to each other in a rendered text: nothing there closes a
template, imports a file or refers to the environment.
-/

namespace ServerConf

open Lexeme Grammar

/-- No template ends with the two tokens, and no import and no reference to the
environment begins with them. -/
structure Follows (t next : Token) : Prop where
  noTemplate : ¬ (t.kind = .closeBrace ∧ next.kind = .semicolon)
  noCall :
    ¬ ((t.kind = .importSign ∨ t.kind = .environment) ∧ next.kind = .openParen)

structure Tidy (ts : List Token) : Prop where
  follows : List.IsChain Follows ts
  oneLine : ∀ t ∈ ts, '\n' ∉ t.raw.toList

theorem Tidy.mono {first second : List Token}
    (tidy : Tidy second)
    (part : first <:+: second) :
    Tidy first := by
  refine ⟨?_, fun t member => tidy.oneLine t (part.subset member)⟩
  obtain ⟨before, after, rfl⟩ := part
  exact tidy.follows.left_of_append.right_of_append

theorem Tidy.plain {ts : List Token} (tidy : Tidy ts) : Plain ts := by
  intro ref inside
  have pair : [ref.sign.1, ref.opening.1] <:+: ref.tokens :=
    ⟨[], ref.tokens.drop 2, by simp [Reference.tokens, Reference.following]⟩
  have follows := (tidy.mono (pair.trans inside)).follows
  rw [List.isChain_cons_cons] at follows
  exact follows.1.noCall ⟨.inr ref.sign.2, ref.opening.2⟩

structure Orderly (ts : List Token) : Prop extends Tidy ts where
  begins : ∀ t ∈ ts.head?, t.kind ≠ .semicolon ∧ t.kind ≠ .openParen

theorem Orderly.nil : Orderly [] :=
  ⟨⟨.nil, by simp⟩, by simp⟩

theorem Orderly.append {first second : List Token}
    (left : Orderly first)
    (right : Orderly second) :
    Orderly (first ++ second) := by
  refine ⟨⟨?_, ?_⟩, ?_⟩
  · refine left.follows.append right.follows ?_
    intro t _ next member
    obtain ⟨semicolon, paren⟩ := right.begins next member
    exact ⟨fun both => semicolon both.2, fun both => paren both.2⟩
  · intro t member
    exact (List.mem_append.1 member).elim (left.oneLine t) (right.oneLine t)
  · intro t member
    cases first with
    | nil => exact right.begins t member
    | cons => exact left.begins t member

theorem Orderly.append_calm {first second : List Token}
    (left : Orderly first)
    (some : first ≠ [])
    (noBrace : ∀ t ∈ first, t.kind ≠ .closeBrace)
    (calm : ∀ t ∈ second, Calm t) :
    Orderly (first ++ second) := by
  have chain : List.IsChain Follows second := by
    apply List.Pairwise.isChain
    apply List.pairwise_of_forall_mem_list
    intro t here next later
    exact ⟨fun both => (calm t here).noBrace both.1,
      fun both => (calm next later).noParen both.2⟩
  refine ⟨⟨?_, ?_⟩, ?_⟩
  · refine left.follows.append chain ?_
    intro t last next member
    have paren := (calm next (List.mem_of_mem_head? member)).noParen
    exact ⟨fun both => noBrace t (List.mem_of_getLast? last) both.1,
      fun both => paren both.2⟩
  · intro t member
    exact (List.mem_append.1 member).elim (left.oneLine t) fun later =>
      (calm t later).oneLine
  · obtain ⟨t, first, rfl⟩ := List.exists_cons_of_ne_nil some
    exact left.begins

def Orders (text : List Char) : Prop :=
  ∀ after, EndsLine after → ∀ p ts, Token.scan p (text ++ after) = .ok ts →
    ∃ first others q, ts = first ++ others ∧ Orderly first ∧
      Token.scan q after = .ok others

theorem Orders.nil : Orders [] :=
  fun _ _ p ts scanned => ⟨[], ts, p, rfl, .nil, scanned⟩

theorem Orders.append {first second : List Char}
    (left : Orders first)
    (right : Orders second)
    (ends : EndsLine second) :
    Orders (first ++ second) := by
  intro after behind p ts scanned
  rw [List.append_assoc] at scanned
  obtain ⟨here, rest, q, rfl, orderly, scanned⟩ :=
    left _ (ends.append behind) p ts scanned
  obtain ⟨there, others, r, rfl, orderlyToo, scanned⟩ :=
    right after behind q rest scanned
  exact ⟨here ++ there, others, r, by simp, orderly.append orderlyToo, scanned⟩

theorem Orders.gap {gap text : List Char}
    (form : Gap.Form false gap)
    (orders : Orders text) :
    Orders (gap ++ text) := by
  intro after ends p ts scanned
  rw [List.append_assoc, Token.scan_gap form] at scanned
  exact orders after ends _ ts scanned

theorem Token.Scanned.raw_subset
    {p : Position} {text : List Char} {ts : List Token}
    (scanned : Token.Scanned p text ts) :
    ∀ t ∈ ts, ∀ c ∈ t.raw.toList, c ∈ text := by
  induction scanned with
  | last => simp [Token.atEnd]
  | @token p gap taken rest value c kind ts _ _ _ _ induction =>
      rw [List.forall_mem_cons]
      refine ⟨?_, ?_⟩
      · intro d member
        have member : d ∈ c :: taken := by simpa [toToken] using member
        exact List.mem_append_right _ (List.mem_append_left _ member)
      · intro t later d member
        exact List.mem_append_right _
          (List.mem_append_right _ (induction t later d member))

theorem oneLine_of_reads {p : Position} {text : List Char} {tokens : List Token}
    (reads : ReadsBefore p text tokens)
    (oneLine : '\n' ∉ text) :
    ∀ t ∈ tokens, '\n' ∉ t.raw.toList := by
  have whole := reads [] (by simp [Stops])
  rw [List.append_nil, Token.scan_nil, Token.prepend_ok] at whole
  intro t member feed
  exact oneLine ((Token.scanned_of_scan whole).raw_subset t
    (List.mem_append_left _ member) _ feed)

theorem Orders.of_reads {text : List Char}
    (oneLine : '\n' ∉ text)
    (reads : ∀ p, ∃ tokens, ReadsBefore p text tokens ∧ List.IsChain Follows
      tokens ∧ ∀ t ∈ tokens.head?, t.kind ≠ .semicolon ∧ t.kind ≠ .openParen) :
    Orders text := by
  intro after ends p ts scanned
  obtain ⟨tokens, readsHere, follows, begins⟩ := reads p
  rw [readsHere after ends.stops] at scanned
  obtain ⟨others, rfl, later⟩ := Token.prepend_eq_ok scanned
  exact ⟨tokens, others, _, rfl,
    ⟨⟨follows, oneLine_of_reads readsHere oneLine⟩, begins⟩, later⟩

def Quiet (kind : TokenKind) : Prop :=
  kind ≠ .closeBrace ∧ kind ≠ .importSign ∧ kind ≠ .environment

theorem isChain_of_quiet {ts : List Token} (quiet : ∀ t ∈ ts, Quiet t.kind) :
    List.IsChain Follows ts := by
  apply List.Pairwise.isChain
  apply List.pairwise_of_forall_mem_list
  intro t here next _
  obtain ⟨brace, sign, environment⟩ := quiet t here
  exact ⟨fun both => brace both.1, fun both => both.1.elim sign environment⟩

theorem Orders.of_reads_sealed {text rest : List Char}
    (oneLine : '\n' ∉ text)
    (reads : ∀ p, ∃ t tokens, ReadsBefore p text (t :: tokens) ∧
      (∀ u ∈ t :: tokens, Quiet u.kind) ∧ t.kind ≠ .semicolon ∧
      t.kind ≠ .openParen)
    (closed : Sealed rest)
    (stops : Stops rest) :
    Orders (text ++ rest) := by
  intro after ends p ts scanned
  obtain ⟨t, tokens, readsHere, quiet, begins⟩ := reads p
  have orderly : Orderly (t :: tokens) := by
    refine ⟨⟨isChain_of_quiet quiet, oneLine_of_reads readsHere oneLine⟩, ?_⟩
    intro u member
    cases member
    exact begins
  rw [List.append_assoc, readsHere _ (stops.append ends.stops)] at scanned
  obtain ⟨us, rfl, later⟩ := Token.prepend_eq_ok scanned
  obtain ⟨first, others, q, rfl, calm, final⟩ := closed.scan ends later
  exact ⟨t :: tokens ++ first, others, q, by simp,
    orderly.append_calm (by simp)
      (fun u member => (quiet u member).1) calm, final⟩

namespace Argument

/-- A value of one line. If it comes in quotes of its own, it is one string. -/
structure Tame (value : List Char) : Prop where
  oneLine : '\n' ∉ value
  whole : isQuoted value = true → ∃ lexeme, Spelling value [lexeme]

theorem sealed_of_not_special {value : List Char}
    (plain : ∀ c ∈ value, isSpecial c = false) :
    Sealed value := by
  apply Sealed.of_signs
  intro c member
  have special := plain c member
  refine ⟨?_, ?_, ?_, ?_⟩
  · simp only [isSpecial, Bool.or_eq_false_iff] at special
    simp [isQuote, special]
  all_goals
    rintro rfl
    exact absurd special (by decide)

theorem Tame.sealed {value : List Char} (tame : Tame value) :
    Sealed (quoteChars value) := by
  unfold quoteChars
  split
  · rename_i quoted
    obtain ⟨lexeme, spelling⟩ := tame.whole quoted
    have oneLine := tame.oneLine
    cases spelling with
    | @cons c taken rest text kind _ shown sign read behind =>
        cases behind
        have quote : isQuote c = true := by
          simp only [isQuoted, List.cons_append, Bool.and_eq_true] at quoted
          exact quoted.1
        obtain ⟨raw, closed, same, _⟩ := closeQuote_of_read? quote read
        obtain rfl : taken = raw := (List.cons.inj same).2
        rw [List.append_nil] at closed
        refine .string quote closed ?_ .nil
        simp only [List.append_nil, List.mem_cons, not_or] at oneLine
        exact oneLine.2
  · split
    · rw [List.cons_append, ← List.append_nil ('"' :: _)]
      refine .string (by decide) (closeQuote_escape value []) ?_ .nil
      simp [newline_not_mem_escape tame.oneLine]
    · rename_i plain
      simp only [needsQuotes, Bool.or_eq_true, not_or] at plain
      exact sealed_of_not_special (by simpa using plain.1.2)

end Argument

theorem sealed_spaced {args : List String}
    (tame : ∀ arg ∈ args, Argument.Tame arg.toList) :
    Sealed (spaced (args.map fun arg => Argument.quoteChars arg.toList)) := by
  induction args with
  | nil => exact .nil
  | cons arg args induction =>
      rw [List.forall_mem_cons] at tame
      rw [List.map_cons, spaced_cons, List.append_assoc]
      exact .sign (by decide) (by decide) (by decide) (by decide)
        (tame.1.sealed.append (induction tame.2))

/-- What begins a location with a list of paths and a comment behind it. -/
def listWord : List Char :=
  locationWord ++ [' ', 'i', 'n', '[', '#']

/-- A line that is closed in itself, as far as its name, its values or its
condition go. -/
inductive Line.Tame : Line → Prop where
  | directive {name : String} {args : List String}
      (oneLine : '\n' ∉ name.toList)
      (values : ∀ arg ∈ args, Argument.Tame arg.toList) :
        Tame (.directive name args)
  | block {name : String} {args : List String}
      (other : name ≠ "if")
      (oneLine : '\n' ∉ name.toList)
      (values : ∀ arg ∈ args, Argument.Tame arg.toList) :
      Tame (.block name args)
  | condition {args : List String} {lexemes : List (List Lexeme)}
      (runs : List.Forall₂ SpellsRun (args.map String.toList) lexemes)
      (oneLine : ∀ arg ∈ args, '\n' ∉ arg.toList)
      (kinds : ∀ lexeme ∈ lexemes.flatten, lexeme.kind ≠ .closeBrace ∧
        lexeme.kind ≠ .importSign) :
      Tame (.block "if" args)
  | location {modifier : Modifier} {path : String}
      (value : Argument.Tame (modifier.splitPath path).2.toList)
      (unlisted : ¬ listWord <+: (Line.location modifier path).text.toList) :
      Tame (.location modifier path)
  | reference {name : String}
      (oneLine : '\n' ∉ name.toList) :
      Tame (.reference name)

theorem Grammar.SpellsName.quiet {name : List Char} {lexemes : List Lexeme}
    (spells : SpellsName name lexemes) :
    ∀ lexeme ∈ lexemes, Quiet lexeme.kind := by
  intro lexeme member
  cases spells.isTerm with
  | string string =>
      rw [List.mem_singleton] at member
      subst member
      simp [Quiet, string]
  | word _ glue =>
      obtain ⟨isGlue, other⟩ := glue lexeme member
      refine ⟨?_, ?_, other⟩ <;>
        intro kind <;> simp [kind, TokenKind.isGlue, TokenKind.isWord] at isGlue

theorem orders_named {name : String} {lexemes : List Lexeme} {rest : List Char}
    (spells : SpellsName name.toList lexemes)
    (oneLine : '\n' ∉ name.toList)
    (closed : Sealed rest)
    (stops : Stops rest) :
    Orders (name.toList ++ rest) := by
  refine .of_reads_sealed oneLine ?_ closed stops
  intro p
  obtain ⟨lexeme, tail, rfl⟩ := List.exists_cons_of_ne_nil spells.isTerm.ne_nil
  refine ⟨_, _, spells.spelling.reads p, ?_, ?_⟩
  · intro u member
    obtain ⟨other, among, q, rfl⟩ := @mem_placed p (lexeme :: tail) u member
    exact spells.quiet other among
  · obtain ⟨isName, _⟩ := spells.kinds lexeme rfl
    constructor <;> intro kind <;>
      simp [show lexeme.kind = _ from kind, TokenKind.isName,
        TokenKind.isWord] at isName

theorem sealed_modifierText (m : Modifier) : Sealed (modifierText m) := by
  apply Sealed.of_signs
  cases m <;> simp [modifierText, Modifier.text, isQuote]

theorem sealed_values {args : List String}
    (values : ∀ arg ∈ args, Argument.Tame arg.toList)
    {sign : List Char}
    (closed : Sealed sign)
    (stops : Stops sign) :
    Sealed
      (spaced (args.map fun arg => Argument.quoteChars arg.toList) ++ sign) ∧
      Stops
        (spaced (args.map fun arg => Argument.quoteChars arg.toList) ++ sign) :=
  ⟨(sealed_spaced values).append closed, (stops_spaced _).append stops⟩

theorem sealed_openBrace : Sealed [' ', '\x7b'] ∧ Stops [' ', '\x7b'] :=
  ⟨.of_signs (by simp [isQuote]), .blank (by decide) _⟩

theorem sealed_semicolon : Sealed [';'] ∧ Stops [';'] :=
  ⟨.of_signs (by simp [isQuote]), .punctuation rfl []⟩

theorem Line.Tame.oneLine {line : Line} (tame : line.Tame) :
    '\n' ∉ line.text.toList := by
  cases tame with
  | directive oneLine values =>
      rw [toList_directive_text]
      simp [oneLine, (sealed_spaced values).oneLine]
  | block other oneLine values =>
      rw [toList_block_text other]
      simp [oneLine, (sealed_spaced values).oneLine]
  | @condition args _ _ oneLine _ =>
      have feed : '\n' ∉ (spaced (args.map String.toList)).tail := by
        intro member
        have inside := List.mem_of_mem_tail member
        simp only [spaced, List.mem_flatMap, List.mem_map,
          List.mem_cons] at inside
        obtain ⟨_, ⟨arg, among, rfl⟩, here | here⟩ := inside
        · cases here
        · exact oneLine arg among here
      rw [toList_condition_text]
      simp [feed]
  | location value _ =>
      rw [toList_location_text]
      simp [locationWord, (sealed_modifierText _).oneLine, value.sealed.oneLine]
  | reference oneLine =>
      rw [toList_reference_text]
      simp [inlineWord, oneLine]

theorem Line.orders {expands : Bool} {line : Line}
    (spelled : line.Spelled expands)
    (tame : line.Tame) :
    Orders line.text.toList := by
  have oneLine := tame.oneLine
  cases tame with
  | directive nameOneLine values =>
      cases spelled with | directive named =>
      obtain ⟨lexemes, spells⟩ := named
      obtain ⟨closed, stops⟩ :=
        sealed_values values sealed_semicolon.1 sealed_semicolon.2
      rw [toList_directive_text]
      exact orders_named spells nameOneLine closed stops
  | block other nameOneLine values =>
      cases spelled with
      | condition => exact absurd rfl other
      | block named =>
          obtain ⟨lexemes, spells⟩ := named
          obtain ⟨closed, stops⟩ :=
            sealed_values values sealed_openBrace.1 sealed_openBrace.2
          rw [toList_block_text other]
          exact orders_named spells nameOneLine closed stops
  | @condition args lexemes runs _ kinds =>
      rw [toList_condition_text] at oneLine ⊢
      refine .of_reads oneLine fun p => ?_
      obtain ⟨sign, opening, q, closing, brace, reads, _⟩ :=
        reads_condition runs p
      refine ⟨_, fun context _ => reads context, isChain_of_quiet ?_, by simp⟩
      intro t member
      simp only [List.mem_cons, List.mem_append, List.not_mem_nil,
        or_false] at member
      rcases member with rfl | rfl | inside | rfl | rfl
      · simp [Quiet]
      · simp [Quiet]
      · have kind : t.kind ∈ lexemes.flatten.map Lexeme.kind := by
          rw [← map_kind_spacedTokens q]
          exact List.mem_map_of_mem inside
        obtain ⟨lexeme, among, same⟩ := List.mem_map.1 kind
        rw [← same]
        exact ⟨(kinds lexeme among).1, (kinds lexeme among).2,
          same ▸ (plain_of_runs runs q t inside).1⟩
      · simp [Quiet]
      · simp [Quiet]
  | @location modifier path value _ =>
      have closed : Sealed ([' '] ++ modifierText (modifier.splitPath path).1 ++
          Argument.quoteChars (modifier.splitPath path).2.toList ++
            [' ', '\x7b']) :=
        (((Sealed.of_signs (by simp [isQuote])).append
          (sealed_modifierText _)).append
          value.sealed).append sealed_openBrace.1
      rw [toList_location_text]
      exact .of_reads_sealed (by decide)
        (fun p => ⟨_, [], spelling_location.reads
          p, by simp [Quiet, toToken], by simp [toToken]⟩)
        closed (.blank (by decide) _)
  | @reference name _ =>
      cases spelled with | reference spelled _ =>
      obtain ⟨lexeme, spelling, kind⟩ := spelled
      rw [toList_reference_text] at oneLine ⊢
      refine .of_reads oneLine fun p => ?_
      obtain ⟨sign, opening, q, closing, semicolon, reads, _⟩ :=
        reads_inline spelling p
      refine ⟨_, fun context _ => reads context, isChain_of_quiet ?_, by simp⟩
      simp [Quiet, toToken, kind]

theorem endsLine_written (lines : List String) : EndsLine (written lines) := by
  intro c member
  cases lines with
  | nil => cases member
  | cons line lines =>
      cases member
      rfl

theorem Orders.line {options : RenderOptions}
    (blank : options.Blank)
    (depth : Nat) {text : String}
    (orders : Orders text.toList)
    {lines : List String}
    (behind : Orders (written lines)) :
    Orders (written ((options.indentation depth ++ text) :: lines)) := by
  have gap : Gap.Form false ('\n' :: (options.indentation depth).toList) :=
    .blank (by decide) (blank.form depth)
  have whole := (Orders.gap gap orders).append behind (endsLine_written lines)
  simpa using whole

theorem orders_closeBrace : Orders "\x7d".toList := by
  refine .of_reads (by decide) fun p => ?_
  obtain ⟨brace, reads⟩ := reads_punctuation (c := '\x7d') rfl p
  exact ⟨[brace.1], fun context _ => reads context, .singleton _, by simp⟩

theorem Throughout.orders {expands : Bool} {options : RenderOptions}
    (blank : options.Blank)
    {statements : List Statement}
    (tame :
      Throughout (fun line => line.Spelled expands ∧ line.Tame) statements) :
    ∀ depth, Orders (written (ownLinesOf options depth statements)) := by
  refine Throughout.recursion
    (motive := fun statements => ∀ depth,
      Orders (written (ownLinesOf options depth statements)))
    (fun _ => .nil) ?_ tame
  intro line s children rest heads here _ _ inside behind depth
  rw [heads.ownLinesOf_cons, Line.inner]
  apply (Line.orders here.1 here.2).line blank depth
  split
  · exact behind depth
  · rw [List.append_assoc, written_append]
    exact (inside (depth + 1)).append
      (orders_closeBrace.line blank depth (behind depth)) (endsLine_written _)

end ServerConf
