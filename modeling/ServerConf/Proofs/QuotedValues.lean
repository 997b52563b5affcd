import ServerConf.Proofs.CleanSpelling
import ServerConf.Proofs.CursorRuns

/-!
Values in quotes, as they stand in a source. Where a text before them lets a
token begin depends on that text alone, because no token goes on over a quote.
What begins there is one string, and it stands for the value that was put in
quotes.
-/

namespace ServerConf

/-- The text with the replacement in the place of each such character. -/
def Text.replaceAll (c : Char) (replacement text : List Char) : List Char :=
  text.flatMap fun d => if d = c then replacement else [d]

namespace Argument

theorem escape_eq_replaceAll (value : List Char) :
    escape value =
      Text.replaceAll '"' ['\\', '"']
        (Text.replaceAll '\\' ['\\', '\\'] value) := by
  induction value with
  | nil => rfl
  | cons c value induction =>
      simp only [escape, Text.replaceAll, List.flatMap_cons,
        List.flatMap_append] at induction ⊢
      rw [induction]
      congr 1
      by_cases backslash : c = '\\'
      · subst backslash
        rfl
      · by_cases quote : c = '"'
        · subst quote
          rfl
        · simp [backslash, quote]

/-- The value is empty, or has a special character, or begins with the sign of a
comment; and it does not stand in quotes of its own. -/
structure PutInQuotes (value : List Char) : Prop where
  needed : value = [] ∨ (∃ c ∈ value, isSpecial c = true) ∨
    ∃ rest, value = '#' :: rest
  unquoted : ∀ quote body, Lexeme.isQuote quote = true →
    value ≠ quote :: body ++ [quote]

theorem needsQuotes_iff {value : List Char} :
    needsQuotes value = true ↔
      value = [] ∨ (∃ c ∈ value, isSpecial c = true) ∨
        ∃ rest, value = '#' :: rest := by
  cases value with
  | nil => simp [needsQuotes]
  | cons c rest => simp [needsQuotes]

theorem isQuoted_iff {value : List Char} :
    isQuoted value = true ↔
      ∃ quote body, Lexeme.isQuote quote = true ∧
        value = quote :: body ++ [quote] := by
  cases value with
  | nil => simp [isQuoted]
  | cons c rest =>
      simp only [isQuoted, Bool.and_eq_true, beq_iff_eq,
        List.getLast?_eq_some_iff, List.cons_append, List.cons.injEq]
      constructor
      · rintro ⟨sign, body, same⟩
        exact ⟨c, body, sign, rfl, same⟩
      · rintro ⟨quote, body, sign, rfl, same⟩
        exact ⟨sign, body, same⟩

theorem putInQuotes_iff {value : List Char} :
    PutInQuotes value ↔ isQuoted value = false ∧ needsQuotes value = true := by
  rw [← Bool.not_eq_true, isQuoted_iff, needsQuotes_iff]
  constructor
  · intro put
    refine ⟨?_, put.needed⟩
    rintro ⟨quote, body, sign, same⟩
    exact put.unquoted quote body sign same
  · intro both
    exact ⟨both.2, fun quote body sign same => both.1 ⟨quote, body, sign, same⟩⟩

theorem PutInQuotes.quoteChars_eq {value : List Char}
    (put : PutInQuotes value) :
    quoteChars value = '"' :: escape value ++ ['"'] := by
  obtain ⟨unquoted, needed⟩ := putInQuotes_iff.1 put
  rw [quoteChars, unquoted, needed]
  rfl

theorem length_le_escape (value : List Char) :
    value.length ≤ (escape value).length := by
  induction value with
  | nil => exact Nat.zero_le _
  | cons c value induction =>
      have behind : escape (c :: value) =
          (if c = '\\' || c = '"' then ['\\', c] else [c]) ++ escape value :=
            rfl
      rw [behind, List.length_append, List.length_cons]
      split <;> simp only [List.length_cons, List.length_nil] <;> omega

theorem quote_ne_iff {value : String} :
    quote value ≠ value ↔ PutInQuotes value.toList := by
  have chars : quote value = value ↔
      quoteChars value.toList = value.toList := by
    rw [quote, ← String.toList_inj, String.toList_ofList]
  rw [ne_eq, chars]
  constructor
  · intro changed
    refine putInQuotes_iff.2 ⟨Bool.eq_false_iff.2 fun quoted => changed ?_, ?_⟩
    · rw [quoteChars, if_pos quoted]
    · by_contra plain
      refine changed ?_
      rw [quoteChars, if_neg plain]
      split <;> rfl
  · intro put same
    have size := congrArg List.length (put.quoteChars_eq.symm.trans same)
    have longer := length_le_escape value.toList
    simp only [List.length_append, List.length_cons, List.length_nil] at size
    omega

end Argument

theorem Lexeme.Bounds.before_stops {context : List Char} (stops : Stops context)
    (rest : List Char) : Bounds (rest ++ context) rest := by
  intro c tail begins
  subst begins
  refine .inr ⟨tail ++ context, rfl, ?_⟩
  cases tail with
  | cons d tail => rfl
  | nil =>
      have alone : isSigil c [] = false := by simp [isSigil]
      exact (isSigil_in_context (.of_stops stops []) alone).trans alone.symm

namespace Cursor

def followedBy (cursor : Cursor) (context : List Char) : Cursor :=
  { cursor with rest := cursor.rest ++ context }

section Token

variable {cursor later : Cursor} {t : Token} {context : List Char}

theorem next_of_lexeme {gap rest : List Char} {c : Char} {lexeme : Lexeme}
    (same : cursor.rest = gap ++ c :: rest)
    (form : Gap.Form false gap)
    (shown : Text.isBlank c = false)
    (sign : c ≠ '#')
    (read : Lexeme.read? c rest = some lexeme) :
    cursor.next = (.ok (lexeme.toToken (cursor.position.advanceBy gap)),
      cursor.advance (gap ++ lexeme.raw) lexeme.rest) := by
  have none : Gap.split (c :: rest) = ([], c :: rest) := by
    simp [Gap.split, Gap.splitFrom, shown, sign]
  have split : Gap.split cursor.rest = (gap, c :: rest) := by
    rw [same, Gap.split_append_of_form form, none, List.append_nil]
  simp only [next, Cursor.read, skipGap, split, advance_rest, advance_position,
    read, advance_advance]

theorem exists_of_next
    (called : cursor.next = (.ok t, later))
    (inside : t.kind ≠ .endOfInput) :
    ∃ gap c rest lexeme, cursor.rest = gap ++ c :: rest ∧ Gap.Form false gap ∧
      Text.isBlank c = false ∧ c ≠ '#' ∧ Lexeme.read? c rest = some lexeme ∧
      t = lexeme.toToken (cursor.position.advanceBy gap) ∧
      later = cursor.advance (gap ++ lexeme.raw) lexeme.rest := by
  have whole := Gap.split_append cursor.rest
  have form := Gap.split_form cursor.rest
  cases behind : (Gap.split cursor.rest).2 with
  | nil =>
      simp only [next, read, skipGap, behind, advance_rest] at called
      cases called
      exact absurd rfl inside
  | cons c rest =>
      obtain ⟨shown, sign⟩ := Gap.split_rest_cons behind
      rw [behind] at whole form
      cases read : Lexeme.read? c rest with
      | none =>
          simp only [next, Cursor.read, skipGap, behind, advance_rest,
            read] at called
          cases called
      | some lexeme =>
          rw [next_of_lexeme whole.symm form shown sign read] at called
          cases called
          exact ⟨_, c, rest, lexeme, whole.symm, form, shown, sign,
            read, rfl, rfl⟩

theorem next_followedBy
    (stops : Lexeme.Stops context)
    (called : cursor.next = (.ok t, later))
    (inside : t.kind ≠ .endOfInput) :
    (cursor.followedBy context).next = (.ok t, later.followedBy context) := by
  obtain ⟨gap, c, rest, ⟨kind, value, raw, after⟩, same, form, shown, sign,
      read, rfl, rfl⟩ := exists_of_next called inside
  obtain ⟨d, taken, rfl⟩ :=
    List.exists_cons_of_ne_nil (Lexeme.read?_raw_ne_nil read)
  obtain ⟨rfl, rfl⟩ := List.cons.inj (Lexeme.read?_append read)
  have inContext := Lexeme.read?_in_context read (.append stops after)
  have behind : (cursor.followedBy context).rest = gap ++
      d :: (taken ++ (after ++ context)) := by
    simp [followedBy, same]
  rw [next_of_lexeme behind form shown sign inContext]
  rfl

theorem next_of_followedBy
    (stops : Lexeme.Stops context)
    (called : (cursor.followedBy context).next = (.ok t, later))
    (inside : t.kind ≠ .endOfInput)
    (within : later.offset ≤ cursor.offset + cursor.rest.length) :
    ∃ here, later = here.followedBy context ∧ cursor.next = (.ok t, here) := by
  obtain ⟨gap, c, rest, ⟨kind, value, raw, after⟩, same, form, shown, sign,
      read, rfl, rfl⟩ := exists_of_next called inside
  obtain ⟨d, taken, rfl⟩ :=
    List.exists_cons_of_ne_nil (Lexeme.read?_raw_ne_nil read)
  obtain ⟨rfl, rfl⟩ := List.cons.inj (Lexeme.read?_append read)
  have whole : cursor.rest ++ context = (gap ++ d :: taken) ++ after := by
    rw [List.append_assoc]
    exact same
  obtain ⟨left, split, rfl⟩ : ∃ left,
      cursor.rest = (gap ++ d :: taken) ++ left ∧ after = left ++ context := by
    rcases List.append_eq_append_iff.1 whole with
      ⟨left, split, behind⟩ | ⟨left, split, behind⟩
    · have size := congrArg List.length split
      have none : left = [] := by
        rw [← List.length_eq_zero_iff]
        simp only [advance_offset, followedBy, List.length_append,
          List.length_cons] at within size
        omega
      subst none
      exact ⟨[], by rw [split]; simp, by simpa using behind.symm⟩
    · exact ⟨left, split, behind⟩
  have alone := Lexeme.read?_in_context read (.before_stops stops left)
  have behind : cursor.rest = gap ++ d :: (taken ++ left) := by
    rw [split, List.append_assoc]
    rfl
  exact ⟨cursor.advance (gap ++ d :: taken) left, rfl,
    next_of_lexeme behind form shown sign alone⟩

end Token

/-- The calls read tokens of the text, and leave nothing of it but a gap with no
comment open. -/
structure Exhausts (text : String) (calls : Nat) : Prop where
  tokens : ∀ earlier < calls,
    ∃ t, (after text earlier).next.1 = .ok t ∧ t.kind ≠ .endOfInput
  gap : Gap.Form false (after text calls).rest

/-- In a source that begins with the text, the calls come to the end of the
text, or to the gap that it ends with. -/
structure Arrives (source text : String) (calls : Nat) : Prop where
  within : (after source calls).offset ≤ text.length
  gap : Gap.Form false (text.toList.drop (after source calls).offset)

section Source

variable {source text : String} {context : List Char} {calls : Nat}

theorem drop_offset_of_eq
    (same : after source calls = (after text calls).followedBy context) :
    (after source calls).offset ≤ text.length ∧
      text.toList.drop (after source calls).offset =
        (after text calls).rest := by
  obtain ⟨passed, place⟩ := within_after text calls
  have size := congrArg List.length place.whole
  rw [List.length_append, String.length_toList] at size
  have offset : (after source calls).offset = passed.length := by
    rw [same]
    exact place.offset
  refine ⟨by omega, ?_⟩
  rw [offset, ← place.whole, List.drop_left]

variable (longer : source.toList = text.toList ++ context)

include longer

theorem after_eq_followedBy (stops : Lexeme.Stops context)
    (tokens : ∀ earlier < calls,
      ∃ t, (after text earlier).next.1 = .ok t ∧ t.kind ≠ .endOfInput) :
    after source calls = (after text calls).followedBy context := by
  induction calls with
  | zero => simp [after, ofSource, followedBy, longer]
  | succ calls induction =>
      obtain ⟨t, called, inside⟩ := tokens calls (Nat.lt_succ_self calls)
      have before :=
        induction fun earlier less => tokens earlier (Nat.lt_succ_of_lt less)
      rw [after, before,
        next_followedBy stops (Prod.ext called rfl) inside, after]

theorem tokens_of_within
    (stops : Lexeme.Stops context)
    (more : context ≠ [])
    (within : (after source calls).offset ≤ text.length) :
    ∀ earlier < calls, ∃ t, (after text earlier).next.1 = .ok t ∧
      t.kind ≠ .endOfInput := by
  induction calls with
  | zero =>
      intro earlier less
      cases less
  | succ calls induction =>
      obtain ⟨passed, place⟩ := within_after source calls
      obtain ⟨taken, further, _⟩ := place.next
      have behind : (after source (calls + 1)).offset =
          (passed ++ taken).length := further.offset
      rw [List.length_append] at behind
      have start := place.offset
      have before := induction (by omega)
      have same := after_eq_followedBy longer stops before
      obtain ⟨begun, own⟩ := within_after text calls
      have size := congrArg List.length own.whole
      rw [List.length_append, String.length_toList] at size
      have read : ∃ t, (after source calls).next.1 = .ok t ∧
          t.kind ≠ .endOfInput := by
        by_contra none
        have ended :=
          @rest_eq_nil_of_ended (after source calls) fun t called => by
          by_contra inside
          exact none ⟨t, called, inside⟩
        have whole := congrArg List.length further.whole
        have total := congrArg List.length longer
        have some := List.length_pos_iff.2 more
        rw [List.length_append, ended, List.length_nil,
          List.length_append] at whole
        rw [List.length_append, String.length_toList (s := text)] at total
        omega
      obtain ⟨t, called, inside⟩ := read
      have own : (after source calls).next.2.offset ≤
          (after text calls).offset + (after text calls).rest.length := by
        have reached : (after source calls).next.2.offset =
            (after source (calls + 1)).offset := rfl
        rw [reached, own.offset]
        omega
      rw [same] at called own
      obtain ⟨_, _, here⟩ :=
        next_of_followedBy stops (Prod.ext called rfl) inside own
      intro earlier less
      rcases Nat.lt_succ_iff_lt_or_eq.1 less with less | rfl
      · exact before earlier less
      · exact ⟨t, congrArg Prod.fst here, inside⟩

theorem arrives_iff_exhausts
    (stops : Lexeme.Stops context)
    (more : context ≠ []) :
    Arrives source text calls ↔ Exhausts text calls := by
  constructor
  · intro arrives
    have tokens := tokens_of_within longer stops more arrives.within
    have rest := (drop_offset_of_eq (after_eq_followedBy longer stops tokens)).2
    exact ⟨tokens, rest ▸ arrives.gap⟩
  · intro exhausts
    have same := after_eq_followedBy longer stops exhausts.tokens
    obtain ⟨within, rest⟩ := drop_offset_of_eq same
    exact ⟨within, rest ▸ exhausts.gap⟩

end Source

theorem Arrives.within_text
    {source text : String} {context : List Char} {calls : Nat}
    (longer : source.toList = text.toList ++ context)
    (arrives : Arrives source text calls) :
    ∃ passed gap, text.toList = passed ++ gap ∧ Gap.Form false gap ∧
      (after source calls).rest = gap ++ context ∧
      (after source calls).offset = passed.length ∧
      (after source calls).position = .after passed := by
  obtain ⟨passed, place⟩ := within_after source calls
  have short : passed.length ≤ text.toList.length := by
    rw [← place.offset, String.length_toList]
    exact arrives.within
  have whole := place.whole
  rw [longer] at whole
  have begins : passed <+: text.toList ++ context := ⟨_, whole⟩
  obtain ⟨gap, split⟩ :=
    List.prefix_of_prefix_length_le begins (List.prefix_append _ _) short
  have form := arrives.gap
  rw [place.offset, ← split, List.drop_left] at form
  refine ⟨passed, gap, split.symm, form, ?_, place.offset, place.position⟩
  rw [← split, List.append_assoc] at whole
  exact List.append_cancel_left whole

/-- The values put in quotes are the empty one and those with a special
character or the sign of a comment in front, unless they stand in quotes of
their own. Backslashes are doubled in them, and then quotes get one. Whether the
calls on a source come to where such a value stands is up to the text before it.
If they do, the next call reads one string: it stands for the value, it was
written as what is in quotes, and the cursor is right behind it. -/
theorem next_quote (value : String) :
    (Argument.quote value ≠ value ↔ Argument.PutInQuotes value.toList) ∧
    (Argument.PutInQuotes value.toList →
      (Argument.quote value).toList = '"' ::
        Text.replaceAll '"' ['\\', '"']
          (Text.replaceAll '\\' ['\\', '\\'] value.toList) ++ ['"'] ∧
      ∀ (before behind : String) (calls : Nat),
        (Arrives (before ++ Argument.quote value ++ behind) before calls ↔
          Exhausts before calls) ∧
        (Arrives (before ++ Argument.quote value ++ behind) before calls →
          (after (before ++ Argument.quote value ++ behind) calls).next =
            (.ok ⟨.string, value, .after before.toList, Argument.quote value⟩,
              ⟨(before ++ Argument.quote value).length,
                .after (before ++ Argument.quote value).toList,
                behind.toList⟩))) := by
  refine ⟨Argument.quote_ne_iff, fun put => ?_⟩
  have quoted : (Argument.quote value).toList =
      '"' :: (Argument.escape value.toList ++ ['"']) := by
    rw [Argument.quote, String.toList_ofList, put.quoteChars_eq]
    rfl
  refine ⟨by rw [quoted, Argument.escape_eq_replaceAll]; rfl,
    fun before behind calls => ?_⟩
  let rest := Argument.escape value.toList ++ '"' :: behind.toList
  have longer : (before ++ Argument.quote value ++ behind).toList =
      before.toList ++ '"' :: rest := by
    simp [quoted, rest]
  have stops : Lexeme.Stops ('"' :: rest) := by
    intro c member
    cases member
    rfl
  refine ⟨arrives_iff_exhausts longer stops (List.cons_ne_nil _ _),
    fun arrives => ?_⟩
  obtain ⟨passed, gap, split, form, left, offset, position⟩ :=
    arrives.within_text longer
  have closed := Argument.closeQuote_escape value.toList behind.toList
  have read : Lexeme.read? '"' rest = some ⟨.string, value.toList,
      '"' :: (Argument.escape value.toList ++ ['"']), behind.toList⟩ := by
    simp [Lexeme.read?, Lexeme.punctuation?, Lexeme.isQuote, Lexeme.quoted?,
      rest, closed]
  rw [next_of_lexeme left form (by decide) (by decide) read, ← quoted]
  have size : passed.length + gap.length = before.length := by
    rw [← String.length_toList (s := before), split, List.length_append]
  simp only [Lexeme.toToken, advance, position, offset, String.ofList_toList,
    Position.after_advanceBy, String.length_append, String.toList_append, split,
    List.append_assoc, List.length_append, String.length_toList]
  rw [← Nat.add_assoc, size]

/-- Before the value stand a string with a quote in it and a comment with
another; behind it stands one more. -/
theorem next_quote_backslashes :
    Argument.PutInQuotes "\\\"\n\\".toList ∧ Exhausts "a'\"' # \"\n " 2 ∧
      (after ("a'\"' # \"\n " ++ Argument.quote "\\\"\n\\" ++ "\"b") 2).next =
        (.ok ⟨.string, "\\\"\n\\", ⟨2, 2⟩, "\"\\\\\\\"\n\\\\\""⟩,
          ⟨19, ⟨3, 4⟩, ['"', 'b']⟩) := by
  have put : Argument.PutInQuotes "\\\"\n\\".toList :=
    Argument.putInQuotes_iff.2 ⟨by decide, by decide⟩
  have exhausts : Exhausts "a'\"' # \"\n " 2 := by
    refine ⟨fun earlier less => ?_, ?_⟩
    · rcases Nat.lt_succ_iff_lt_or_eq.1 less with less | rfl
      · obtain rfl := Nat.lt_one_iff.1 less
        exact ⟨⟨.identifier, "a", ⟨1, 1⟩, "a"⟩, by decide +kernel, by decide⟩
      · exact ⟨⟨.string, "\"", ⟨1, 2⟩, "'\"'"⟩, by decide +kernel, by decide⟩
    · have rest : (after "a'\"' # \"\n " 2).rest =
          ' ' :: ('#' :: [' ', '"'] ++ '\n' :: [' ']) := by
        decide +kernel
      rw [rest]
      exact .blank (by decide) (.comment (by decide) (.blank (by decide) .nil))
  obtain ⟨_, reads⟩ := next_quote "\\\"\n\\"
  obtain ⟨arrives, read⟩ := (reads put).2 "a'\"' # \"\n " "\"b" 2
  refine ⟨put, exhausts, (read (arrives.2 exhausts)).trans ?_⟩
  decide +kernel

end Cursor

end ServerConf
