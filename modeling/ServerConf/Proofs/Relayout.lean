import ServerConf.Proofs.Acceptance
import ServerConf.Proofs.LineTokens
import ServerConf.Proofs.SourceSpelling
import ServerConf.Proofs.StatementLockstep

/-!
Changing the layout of a source. Another gap between two tokens moves what comes
after it on the line, and makes no other difference.
-/

namespace ServerConf

open Lexeme

theorem Position.eq_nil_of_advanceBy {p : Position} {text : List Char}
    (stays : p.advanceBy text = p) : text = [] := by
  by_cases feed : '\n' ∈ text
  · have later := line_lt_advanceBy feed p
    rw [stays] at later
    omega
  · rw [advanceBy_of_oneLine feed] at stays
    have column := congrArg Position.column stays
    apply List.length_eq_zero_iff.1
    simp only at column
    omega

theorem Position.eq_of_advanceBy_eq
    {p : Position} {first second before behind : List Char}
    (text : first ++ before = second ++ behind)
    (place : p.advanceBy first = p.advanceBy second) :
    first = second := by
  rcases List.append_eq_append_iff.1 text with ⟨more, rfl, _⟩ | ⟨more, rfl, _⟩
  · rw [advanceBy_append] at place
    rw [eq_nil_of_advanceBy place.symm, List.append_nil]
  · rw [advanceBy_append] at place
    rw [eq_nil_of_advanceBy place, List.append_nil]

theorem Position.line_advanceBy (p : Position) (text : List Char) :
    (p.advanceBy text).line = p.line + text.count '\n' := by
  induction text generalizing p with
  | nil => simp
  | cons c text induction =>
      rw [advanceBy_cons, induction, List.count_cons, advance]
      split
      · simp_all
        omega
      · simp_all

namespace Token

theorem touches_iff
    {lexeme : Lexeme} {next : Token} {p : Position} {gap : List Char}
    (inside : next.kind ≠ .endOfInput)
    (place : next.position = (p.advanceBy lexeme.raw).advanceBy gap) :
    (lexeme.toToken p).touches next = true ↔ '\n' ∉ lexeme.raw ∧ gap = [] := by
  constructor
  · exact gap_eq_nil place
  · rintro ⟨oneLine, rfl⟩
    rw [Position.advanceBy_nil, Position.advanceBy_of_oneLine oneLine] at place
    simp [touches, toToken, endColumn, inside, place]

def BeginAlike (p q : Position) (ts us : List Token) : Prop :=
  ∃ gap, (∀ t ∈ ts.head?, t.kind ≠ .endOfInput ∧ t.position = p.advanceBy gap) ∧
    ∀ u ∈ us.head?, u.kind ≠ .endOfInput ∧ u.position = q.advanceBy gap

theorem BeginAlike.touches_eq
    {lexeme : Lexeme} {p q : Position} {ts us : List Token}
    (alike :
      BeginAlike (p.advanceBy lexeme.raw) (q.advanceBy lexeme.raw) ts us) :
    ∀ a ∈ ts.head?, ∀ b ∈ us.head?,
      (lexeme.toToken p).touches a = (lexeme.toToken q).touches b := by
  obtain ⟨gap, left, right⟩ := alike
  intro a first b second
  obtain ⟨insideA, placeA⟩ := left a first
  obtain ⟨insideB, placeB⟩ := right b second
  rw [Bool.eq_iff_iff, touches_iff insideA placeA, touches_iff insideB placeB]

end Token

namespace Cursor

variable {δ : Displacement} {first second : Cursor}

theorem skipGap_displaced (text : first.rest = second.rest)
    (same : δ.before first.position = δ.after second.position) :
    first.skipGap.rest = second.skipGap.rest ∧
      δ.before first.skipGap.position = δ.after second.skipGap.position := by
  rw [skipGap, skipGap, text]
  exact ⟨rfl, Displacement.advanceBy _ same⟩

theorem tokens_displaced (env : Environment) {tokens : List Token}
    (text : first.rest = second.rest)
    (same : δ.before first.position = δ.after second.position)
    (scanned : first.tokens = .ok tokens) :
    ∃ body last others final, tokens = body ++ [last] ∧
      second.tokens = .ok (others ++ [final]) ∧
      Reader.InStep δ ⟨env, last⟩ ⟨env, final⟩ body others ∧
      Token.BeginAlike first.position second.position body others := by
  induction scanned using tokens_recursion generalizing second with
  | last ended =>
      obtain ⟨behind, place⟩ := skipGap_displaced text same
      refine ⟨[], _, [], _, rfl, tokens_of_rest_nil (behind.symm.trans ended),
        ?_, [], ?_, ?_⟩
      · apply Reader.InStep.nil
        simp only [Token.Corresponds, Token.place, Token.atEnd, place]
      · simp
      · simp
  | @token first c rest lexeme ts begins read following induction =>
      obtain ⟨behind, place⟩ := skipGap_displaced text same
      obtain ⟨body, last, others, final, rfl, scannedToo, inStep, alike⟩ :=
        @induction (second.skipGap.advance lexeme.raw lexeme.rest) rfl
          (Displacement.advanceBy lexeme.raw place)
      refine ⟨lexeme.toToken first.skipGap.position :: body, last,
        lexeme.toToken second.skipGap.position :: others, final, rfl,
        ?_, ?_, ?_⟩
      · rw [tokens_of_read (behind.symm.trans begins) read, scannedToo]
        rfl
      · refine .cons ?_ alike.touches_eq (fun _ _ => rfl) inStep
        simp only [Token.Corresponds, Token.place, toToken, place]
      · refine ⟨(Gap.split first.rest).1, ?_, ?_⟩
        · rintro _ ⟨⟩
          exact ⟨toToken_kind_ne_endOfInput read, rfl⟩
        · rintro _ ⟨⟩
          refine ⟨toToken_kind_ne_endOfInput read, ?_⟩
          rw [text]
          rfl

end Cursor

theorem Token.scan_displaced
    {δ : Displacement} (env : Environment) {p q : Position} {text : List Char}
    {tokens : List Token}
    (same : δ.before p = δ.after q)
    (scanned : scan p text = .ok tokens) :
    ∃ body last others final, tokens = body ++ [last] ∧
      scan q text = .ok (others ++ [final]) ∧
      Reader.InStep δ ⟨env, last⟩ ⟨env, final⟩ body others ∧
        BeginAlike p q body others :=
  @Cursor.tokens_displaced δ ⟨0, p, text⟩ ⟨0, q,
    text⟩ env tokens rfl same scanned

namespace Lexeme

theorem bounds_common {first : List Char}
    (long : 2 ≤ first.length)
    (rest context : List Char) :
    Bounds (first ++ rest) (first ++ context) := by
  match first, long with
  | c :: d :: first, _ =>
      intro e tail begins
      obtain ⟨rfl, rfl⟩ := List.cons.inj begins
      exact .inr ⟨d :: first ++ rest, rfl, rfl⟩

theorem bounds_lexeme
    {c : Char} {taken more rest context value : List Char} {kind : TokenKind}
    (read : read? c (taken ++ (more ++ rest)) =
      some ⟨kind, value, c :: taken, more ++ rest⟩)
    (stops : Stops context) :
    Bounds (c :: taken ++ (more ++ rest))
      (c :: taken ++ (more ++ context)) := by
  by_cases alone : taken ++ more = []
  · obtain ⟨rfl, rfl⟩ := List.append_eq_nil_iff.1 alone
    intro d tail begins
    obtain ⟨rfl, rfl⟩ := List.cons.inj begins
    have single : isSigil c rest = false := isSigil_of_read? read
    exact .inr ⟨rest, rfl,
      single.trans (isSigil_in_context (.of_stops stops rest) single).symm⟩
  · have long : 2 ≤ (c :: taken ++ more).length := by
      have some := List.length_pos_iff.2 alone
      rw [List.cons_append, List.length_cons]
      omega
    simpa using bounds_common long rest context

end Lexeme

namespace Token

theorem exists_of_scan_cons
    {p : Position} {text : List Char} {t : Token} {ts : List Token}
    (more : ts ≠ [])
    (scanned : scan p text = .ok (t :: ts)) :
    ∃ gap c taken rest kind value, text = gap ++ (c :: taken ++ rest) ∧
      Gap.Form false gap ∧
      Text.isBlank c = false ∧ c ≠ '#' ∧
      read? c (taken ++ rest) = some ⟨kind, value, c :: taken, rest⟩ ∧
      t = toToken ⟨kind, value, c :: taken, rest⟩ (p.advanceBy gap) ∧
      scan ((p.advanceBy gap).advanceBy (c :: taken)) rest = .ok ts := by
  have whole := Gap.split_append text
  have form := Gap.split_form text
  cases behind : (Gap.split text).2 with
  | nil =>
      have ended : (Cursor.mk 0 p text).skipGap.rest = [] := behind
      rw [scan, Cursor.tokens_of_rest_nil ended] at scanned
      cases scanned
      exact absurd rfl more
  | cons c rest =>
      have begins : (Cursor.mk 0 p text).skipGap.rest = c :: rest := behind
      obtain ⟨shown, sign⟩ := Gap.split_rest_cons behind
      rw [behind] at whole form
      cases found : read? c rest with
      | none =>
          rw [scan, Cursor.tokens_of_unread begins found] at scanned
          cases scanned
      | some lexeme =>
          rw [← whole, scan_gap form, scan_lexeme _ shown sign found] at scanned
          obtain ⟨following, same, scanned⟩ := prepend_eq_ok scanned
          obtain ⟨rfl, rfl⟩ := List.cons.inj same
          have taking := read?_append found
          obtain ⟨kind, value, raw, after⟩ := lexeme
          obtain ⟨d, taken, rfl⟩ :=
            List.exists_cons_of_ne_nil (read?_raw_ne_nil found)
          obtain ⟨rfl, rfl⟩ := List.cons.inj taking
          exact ⟨_, _, taken, after, kind, value, whole.symm, form, shown, sign,
            found, rfl, scanned⟩

/-- Between the two texts, the tokens of the first end and those of the second
begin. What comes before them is read alike before every stop. -/
structure Cut (p : Position) (head rest : List Char) (ts us : List Token) :
    Prop where
  reads : ReadsBefore p head ts
  follows : scan (p.advanceBy head) rest = .ok us
  begins : ts = [] → head = []
  ends : ∀ t ∈ ts.getLast?, t.position.advanceBy t.raw.toList = p.advanceBy head
  bounds : ∀ context, Stops context → Bounds (head ++ rest) (head ++ context)

theorem Cut.nil {p : Position} {text : List Char} {us : List Token}
    (scanned : scan p text = .ok us) : Cut p [] text [] us where
  reads := by
    intro context _
    simp
  follows := scanned
  begins := fun _ => rfl
  ends := by
    intro t last
    cases last
  bounds context stops := .of_stops stops text

theorem Cut.cons
    {p : Position} {gap taken head rest value : List Char} {c : Char}
    {kind : TokenKind} {ts us : List Token}
    (form : Gap.Form false gap)
    (shown : Text.isBlank c = false)
    (sign : c ≠ '#')
    (read : read? c (taken ++ (head ++ rest)) =
      some ⟨kind, value, c :: taken, head ++ rest⟩)
    (cut : Cut ((p.advanceBy gap).advanceBy (c :: taken)) head rest ts us) :
    Cut p (gap ++ (c :: taken ++ head)) rest
      (toToken ⟨kind, value, c :: taken, head ++ rest⟩ (p.advanceBy gap) :: ts)
        us where
  reads := by
    intro context stops
    have inContext := read?_in_context read (cut.bounds context stops)
    rw [List.append_assoc, scan_gap form, List.append_assoc, List.cons_append,
      scan_lexeme _ shown sign inContext, cut.reads context stops,
      prepend_prepend,
      Position.advanceBy_append, Position.advanceBy_append]
    rfl
  follows := by
    rw [Position.advanceBy_append, Position.advanceBy_append]
    exact cut.follows
  begins none := by cases none
  ends := by
    rw [Position.advanceBy_append, Position.advanceBy_append]
    cases ts with
    | nil =>
        intro t last
        cases last
        rw [cut.begins rfl, Position.advanceBy_nil]
        simp [toToken]
    | cons u ts =>
        intro t last
        exact cut.ends t (by simpa using last)
  bounds context stops := by
    cases gap with
    | nil => simpa using bounds_lexeme read stops
    | cons d gap =>
        have long : 2 ≤ (d :: gap ++ [c]).length := by simp
        simpa using bounds_common long (taken ++ (head ++ rest))
          (taken ++ (head ++ context))

theorem exists_cut {ts us : List Token}
    (some : us ≠ [])
    {p : Position} {text : List Char}
    (scanned : scan p text = .ok (ts ++ us)) :
    ∃ head rest, text = head ++ rest ∧ Cut p head rest ts us := by
  induction ts generalizing p text with
  | nil => exact ⟨[], text, rfl, .nil scanned⟩
  | cons t ts induction =>
      have more : ts ++ us ≠ [] := by simp [some]
      obtain ⟨gap, c, taken, rest, kind, value, rfl, form, shown, sign, read,
          rfl, following⟩ := exists_of_scan_cons more scanned
      obtain ⟨head, rest, rfl, cut⟩ := induction following
      exact ⟨gap ++ (c :: taken ++ head), rest, by simp,
        cut.cons form shown sign read⟩

theorem touches_eq_false {t next : Token} {p : Position} {gap : List Char}
    (behind : t.position.advanceBy t.raw.toList = p)
    (place : next.position = p.advanceBy gap)
    (apart : gap ≠ []) :
    t.touches next = false := by
  rw [← Bool.not_eq_true]
  intro touching
  have itself : Lexeme.toToken ⟨t.kind, t.value.toList, t.raw.toList,
      []⟩ t.position = t := by
    simp [toToken]
  rw [← itself] at touching
  rw [← behind] at place
  exact apart (gap_eq_nil place touching).2

theorem complete?_append {source : String} {body : List Token} {last : Token}
    (scanned : ofSource source = .ok (body ++ [last])) :
    complete? (body ++ [last]) = some (body, last) := by
  have layout : Layout [] source.toList (body ++ [last]) :=
    Cursor.tokens_layout rfl scanned
  obtain ⟨inner, final, same, ends, inside⟩ := layout.exists_end
  obtain ⟨rfl, single⟩ := List.append_inj' same rfl
  cases single
  exact complete?_concat inside ends

/-- The text of the source before the end of one token, between it and the next
one, and from there on. -/
structure GapBetween
    (source : String) (t u : Token) (before gap behind : List Char) :
    Prop where
  text : source.toList = before ++ (gap ++ behind)
  ends : t.position.advanceBy t.raw.toList = .after before
  begins : u.position = .after (before ++ gap)

section Relayout

variable {source : String} {ts us : List Token} {t u : Token}
  {before gap behind other : List Char}

theorem GapBetween.cut (between : GapBetween source t u before gap behind)
    (scanned : ofSource source = .ok (ts ++ t :: u :: us)) :
    Cut .start before (gap ++ behind) (ts ++ [t]) (u :: us) := by
  rw [ofSource_eq_scan, List.append_cons] at scanned
  obtain ⟨head, rest, text, cut⟩ := exists_cut (List.cons_ne_nil u us) scanned
  have whole : head ++ rest = before ++ (gap ++ behind) :=
    text.symm.trans between.text
  have place :
      Position.start.advanceBy head = Position.start.advanceBy before := by
    rw [← cut.ends t (by simp), between.ends, Position.start_advanceBy]
  obtain rfl := Position.eq_of_advanceBy_eq whole place
  obtain rfl := List.append_cancel_left whole
  exact cut

theorem GapBetween.scan_behind
    (between : GapBetween source t u before gap behind)
    (scanned : ofSource source = .ok (ts ++ t :: u :: us))
    (inside : u.kind ≠ .endOfInput) :
    scan ((Position.start.advanceBy before).advanceBy gap) behind =
      .ok (u :: us) := by
  have follows := (between.cut scanned).follows
  have more : us ≠ [] := by
    rintro rfl
    have layout :=
      Cursor.tokens_layout (Position.start_advanceBy before) follows
    obtain ⟨body, last, single, ends, _⟩ := layout.exists_end
    cases body with
    | nil =>
        cases single
        exact inside ends
    | cons => simp at single
  obtain ⟨found, c, taken, rest, kind, value, text, form, _, _, _, rfl, _⟩ :=
    exists_of_scan_cons more follows
  have place : (Position.start.advanceBy before).advanceBy gap =
      (Position.start.advanceBy before).advanceBy found := by
    rw [← Position.advanceBy_append, Position.start_advanceBy, ← between.begins]
    rfl
  obtain rfl := Position.eq_of_advanceBy_eq text place
  rwa [scan_gap form] at follows

theorem GapBetween.exists_inStep
    (between : GapBetween source t u before gap behind)
    (scanned : ofSource source = .ok (ts ++ t :: u :: us))
    (inside : u.kind ≠ .endOfInput)
    (apart : gap ≠ [])
    {c : Char}
    (blank : Text.isBlank c = true)
    (form : Gap.Form false other)
    (lines : (c :: other).count '\n' = gap.count '\n')
    (env : Environment) :
    ∃ body last others final, ts ++ t :: u :: us = body ++ [last] ∧
      ofSource (String.ofList (before ++ (c :: other ++ behind))) =
        .ok (others ++ [final]) ∧
      Reader.InStep .sideways ⟨env, last⟩ ⟨env, final⟩ body others := by
  have cut := between.cut scanned
  have same : Displacement.sideways.before
      ((Position.start.advanceBy before).advanceBy gap) =
      Displacement.sideways.after
      ((Position.start.advanceBy before).advanceBy (c :: other)) := by
    apply Position.lineStart_eq_iff.2
    simp only [Position.line_advanceBy, lines]
  obtain ⟨body, last, others, final, rest, rescanned, inStep, found, left,
      right⟩ := scan_displaced env same (between.scan_behind scanned inside)
  refine ⟨ts ++ [t] ++ body, last, ts ++ [t] ++ others, final, ?_, ?_, ?_⟩
  · rw [List.append_assoc _ body, ← rest, List.append_cons]
  · have stops : Stops (c :: other ++ behind) := .blank blank (other ++ behind)
    rw [ofSource_eq_scan, String.toList_ofList, cut.reads _ stops, scan_gap
      (.blank blank form), rescanned, prepend_ok, List.append_assoc _ others]
  · refine .prepend (fun _ => rfl) (fun _ _ => rfl) ?_ inStep
    intro v final a first b second
    obtain rfl : t = v := by simpa using final
    have ends : t.position.advanceBy t.raw.toList =
        Position.start.advanceBy before := by
      rw [between.ends, Position.start_advanceBy]
    have placeA := (left a first).2
    have placeB := (right b second).2
    rw [← Position.advanceBy_append] at placeA placeB
    rw [touches_eq_false ends placeA (by simp [apart]),
      touches_eq_false ends placeB (by simp)]

end Relayout

end Token

/-- Another gap that begins with a blank, in place of one that is not empty, and
with as many line feeds, changes columns only. -/
theorem Document.parse_relayout
    {source : String} {ts us : List Token} {t u : Token}
    {before gap behind other : List Char} {c : Char}
    (scanned : Token.ofSource source = .ok (ts ++ t :: u :: us))
    (inside : u.kind ≠ .endOfInput)
    (between : Token.GapBetween source t u before gap behind)
    (apart : gap ≠ [])
    (blank : Text.isBlank c = true)
    (form : Gap.Form false other)
    (lines : (c :: other).count '\n' = gap.count '\n') :
    let changed := String.ofList (before ++ (c :: other ++ behind))
    (∃ tokens, Token.ofSource changed = .ok tokens ∧
      tokens.map (Token.place .lineStart) =
        (ts ++ t :: u :: us).map (Token.place .lineStart)) ∧
    ∀ env filename, placed .lineStart (parse env filename changed) =
      placed .lineStart (parse env filename source) := by
  intro changed
  constructor
  · obtain ⟨body, last, others, final, whole, rescanned, inStep⟩ :=
      between.exists_inStep scanned inside apart blank form lines .empty
    refine ⟨others ++ [final], rescanned, ?_⟩
    rw [whole, List.map_append, List.map_append]
    exact (congrArg₂ (· ++ [·]) inStep.map_place inStep.last).symm
  · intro env filename
    obtain ⟨body, last, others, final, whole, rescanned, inStep⟩ :=
      between.exists_inStep scanned inside apart blank form lines env
    rw [whole] at scanned
    rw [parse, parse, rescanned, scanned]
    exact (ofTokens_inStep (Token.complete?_append scanned)
      (Token.complete?_append rescanned) inStep filename).symm

/-- A comment and the blanks around it give way to a tab and a line feed. -/
theorem Document.parse_relayout_comment :
    (∃ tokens, Token.ofSource "s\t\n\x7bd 1;\x7d" = .ok tokens ∧
      tokens.map (fun t => (t.raw, t.position.line)) =
        [("s", 1), ("\x7b", 2), ("d", 2), ("1", 2), (";", 2), ("\x7d", 2),
          ("", 2)]) ∧
    ∀ env,
      placed .lineStart (parse env "f" "s\t\n\x7bd 1;\x7d") =
        .ok ⟨[.block "s" [] [.directive "d" ["1"] ⟨2, 1⟩] ⟨1, 1⟩], "f"⟩ ∧
      placed .lineStart (parse env "f" "s # x\n  \x7bd 1;\x7d") =
        .ok ⟨[.block "s" [] [.directive "d" ["1"] ⟨2, 1⟩] ⟨1, 1⟩], "f"⟩ := by
  have scanned : Token.ofSource "s # x\n  \x7bd 1;\x7d" = .ok
      ([] ++ ⟨.identifier, "s", ⟨1, 1⟩, "s"⟩ ::
        ⟨.openBrace, "\x7b", ⟨2, 3⟩, "\x7b"⟩ ::
        [⟨.identifier, "d", ⟨2, 4⟩, "d"⟩, ⟨.number, "1", ⟨2, 6⟩, "1"⟩,
          ⟨.semicolon, ";", ⟨2, 7⟩, ";"⟩, ⟨.closeBrace, "\x7d", ⟨2, 8⟩, "\x7d"⟩,
          .atEnd ⟨2, 9⟩]) := by
    decide +kernel
  have between : Token.GapBetween "s # x\n  \x7bd 1;\x7d" ⟨.identifier, "s",
      ⟨1, 1⟩, "s"⟩ ⟨.openBrace, "\x7b", ⟨2, 3⟩,
      "\x7b"⟩ ['s'] " # x\n  ".toList "\x7bd 1;\x7d".toList :=
    ⟨by decide +kernel, by decide +kernel, by decide +kernel⟩
  have feed : Gap.Form false ['\n'] := .blank (by decide) .nil
  obtain ⟨⟨tokens, rescanned, same⟩, parsed⟩ :=
    parse_relayout (c := '\t') scanned (by decide) between (by decide)
      (by decide) feed (by decide)
  have shown := congrArg (List.map fun t => (t.raw, t.position.line)) same
  rw [List.map_map] at shown
  refine ⟨⟨tokens, rescanned, shown⟩, fun env => ?_⟩
  have tree : placed .lineStart (parse env "f" "s # x\n  \x7bd 1;\x7d") =
      .ok ⟨[.block "s" [] [.directive "d" ["1"] ⟨2, 1⟩] ⟨1, 1⟩], "f"⟩ := by
    rw [parse, scanned]
    with_unfolding_all rfl
  exact ⟨(parsed env "f").trans tree, tree⟩

end ServerConf
