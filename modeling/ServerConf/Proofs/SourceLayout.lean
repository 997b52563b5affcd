import ServerConf.Token.Scan
import Mathlib.Data.List.Induction

/-!
Where the characters of a source go. Each of them belongs to a gap or to a
token, and the place of a token follows from the text before it.
-/

namespace ServerConf

namespace Position

/-- The place after a text: one more than its line feeds, and one more than the
characters behind the last of them. -/
def after (text : List Char) : Position :=
  ⟨1 + text.count '\n', 1 + (text.reverse.takeWhile (· ≠ '\n')).length⟩

theorem start_advanceBy (text : List Char) :
    start.advanceBy text = after text := by
  induction text using List.reverseRecOn with
  | nil => rfl
  | append_singleton text c induction =>
      rw [advanceBy_append, induction]
      by_cases feed : c = '\n'
      · subst feed
        simp [after, advance, Int.add_assoc]
      · simp [after, advance, feed, Int.add_assoc]

theorem after_advanceBy (before text : List Char) :
    (after before).advanceBy text = after (before ++ text) := by
  rw [← start_advanceBy, ← start_advanceBy, advanceBy_append]

end Position

namespace Gap

/-- Blanks, and comments up to a line feed. A comment may lack its line feed
`atEnd` of the source. -/
inductive Form (atEnd : Bool) : List Char → Prop where
  | nil : Form atEnd []
  | blank {c : Char} {cs : List Char} :
      Text.isBlank c = true → Form atEnd cs → Form atEnd (c :: cs)
  | comment {text cs : List Char} :
      '\n' ∉ text → Form atEnd cs → Form atEnd ('#' :: text ++ '\n' :: cs)
  | openComment {text : List Char} :
      atEnd = true → '\n' ∉ text → Form atEnd ('#' :: text)

private theorem splitFrom_comment {cs : List Char}
    (behind : ∀ rest, rest.length < cs.length →
      Form (splitFrom false rest).2.isEmpty (splitFrom false rest).1) :
    Form (splitFrom true cs).2.isEmpty ('#' :: (splitFrom true cs).1) := by
  suffices inside : ∀ text, '\n' ∉ text →
      Form (splitFrom true cs).2.isEmpty
        ('#' :: text ++ (splitFrom true cs).1) by
    exact inside [] (by simp)
  induction cs with
  | nil =>
      intro text plain
      simpa [splitFrom] using Form.openComment rfl plain
  | cons c rest induction =>
      intro text plain
      by_cases feed : c = '\n'
      · subst feed
        simpa [splitFrom] using Form.comment plain (behind rest (by simp))
      · have longer :=
          induction (fun rest shorter => behind rest (by simp; omega))
            (text ++ [c]) (by simp [plain, Ne.symm feed])
        have inside : (c != '\n') = true := by simpa using feed
        simpa [splitFrom, inside] using longer

theorem split_form (cs : List Char) :
    Form (split cs).2.isEmpty (split cs).1 := by
  suffices bounded : ∀ n, ∀ cs : List Char, cs.length < n →
      Form (splitFrom false cs).2.isEmpty (splitFrom false cs).1 by
    exact bounded _ cs (Nat.lt_succ_self _)
  intro n
  induction n with
  | zero => intro cs shorter; omega
  | succ n induction =>
      intro cs shorter
      cases cs with
      | nil => exact .nil
      | cons c rest =>
          have below : rest.length < n := by simpa using shorter
          by_cases sign : c = '#'
          · subst sign
            simpa [splitFrom] using
              splitFrom_comment fun tail smaller => induction tail (by omega)
          · by_cases blank : Text.isBlank c = true
            · have outside : (c == '#') = false := by simpa using sign
              simpa [splitFrom, outside,
                blank] using Form.blank blank (induction rest below)
            · simpa [splitFrom, sign, blank] using Form.nil

theorem split_of_rest_nil {cs : List Char} (ended : (split cs).2 = []) :
    (split cs).1 = cs ∧ Form true cs := by
  have whole := split_append cs
  have form := split_form cs
  rw [ended, List.append_nil] at whole
  rw [ended, whole] at form
  exact ⟨whole, form⟩

theorem split_rest_cons {cs rest : List Char} {c : Char}
    (behind : (split cs).2 = c :: rest) :
    Text.isBlank c = false ∧ c ≠ '#' := by
  have stopped : ∀ (comment : Bool) (cs : List Char), (splitFrom comment cs).2 =
      c :: rest → Text.isBlank c = false ∧ c ≠ '#' := by
    intro comment cs
    induction cs generalizing comment with
    | nil => simp [splitFrom]
    | cons d tail induction =>
        intro behind
        simp only [splitFrom] at behind
        split at behind
        · exact induction _ behind
        · obtain ⟨rfl, rfl⟩ := by simpa using behind
          simp_all
  exact stopped false cs behind

end Gap

namespace Lexeme

def unescape : List Char → List Char
  | [] => []
  | '\\' :: c :: rest => c :: unescape rest
  | c :: rest => c :: unescape rest

@[simp] theorem unescape_nil : unescape [] = [] := rfl

@[simp] theorem unescape_escaped (c : Char) (rest : List Char) :
    unescape ('\\' :: c :: rest) = c :: unescape rest := rfl

theorem unescape_cons {c : Char} (plain : c ≠ '\\') (rest : List Char) :
    unescape (c :: rest) = c :: unescape rest := by
  rw [unescape]
  intro _ _ sign _
  exact plain sign

theorem closeQuote_value {quote : Char} {cs value raw rest : List Char}
    (closed : closeQuote quote cs = some (value, raw, rest)) :
    ∃ body, raw = body ++ [quote] ∧ value = unescape body := by
  fun_induction closeQuote quote cs generalizing value raw rest with
  | case1 => simp at closed
  | case2 c tail induction =>
      obtain ⟨⟨v, r, a⟩, inner, same⟩ := Option.map_eq_some_iff.1 closed
      obtain ⟨rfl, rfl, rfl⟩ := by simpa using same
      obtain ⟨body, rfl, rfl⟩ := induction inner
      exact ⟨'\\' :: c :: body, rfl, rfl⟩
  | case3 tail escaped =>
      obtain ⟨rfl, rfl, rfl⟩ := by simpa using closed
      exact ⟨[], rfl, rfl⟩
  | case4 c tail escaped open' induction =>
      obtain ⟨⟨v, r, a⟩, inner, same⟩ := Option.map_eq_some_iff.1 closed
      obtain ⟨rfl, rfl, rfl⟩ := by simpa using same
      obtain ⟨body, rfl, rfl⟩ := induction inner
      refine ⟨c :: body, rfl, (unescape_cons ?_ body).symm⟩
      rintro rfl
      cases tail with
      | nil => simp [closeQuote] at inner
      | cons d tail => exact escaped d tail rfl rfl

theorem wordKind_cases (raw : List Char) :
    (raw = ['l', 'o', 'c', 'a', 't', 'i', 'o', 'n'] ∧
      wordKind raw = .location) ∨
      (raw = ['i', 'n'] ∧ wordKind raw = .inWord) ∨
        wordKind raw = .identifier := by
  unfold wordKind
  split
  · exact .inl ⟨‹_›, rfl⟩
  · split
    · exact .inr (.inl ⟨‹_›, rfl⟩)
    · exact .inr (.inr rfl)

theorem nameKind_cases (name : List Char) :
    nameKind name = .inline ∨ nameKind name = .environment ∨
      nameKind name = .importSign ∨
      nameKind name = .variable := by
  unfold nameKind
  split
  · exact .inl rfl
  · split
    · exact .inr (.inl rfl)
    · split
      · exact .inr (.inr (.inl rfl))
      · exact .inr (.inr (.inr rfl))

inductive Reading (c : Char) (rest : List Char) : Lexeme → Prop where
  | sign {kind : TokenKind} :
      punctuation? c = some kind →
      Reading c rest (plain kind [c] rest)
  | string {value raw after : List Char} :
      isQuote c = true →
      closeQuote c rest = some (value, raw, after) →
      Reading c rest ⟨.string, value, c :: raw, after⟩
  | name : c = '%' →
      Reading c rest (plain (nameKind (rest.takeWhile isNameSign))
        (c :: rest.takeWhile isNameSign) (rest.dropWhile isNameSign))
  | modifier {lexeme : Lexeme} :
      modifier? c rest = some lexeme →
      Reading c rest lexeme
  | number : isQuote c = false → Reading c rest (number c rest)
  | word : isQuote c = false → Reading c rest (word c rest)

theorem reading_of_read? {c : Char} {rest : List Char} {lexeme : Lexeme}
    (read : read? c rest = some lexeme) : Reading c rest lexeme := by
  unfold read? at read
  split at read
  · rename_i found
    obtain rfl := by simpa using read
    exact .sign found
  · split at read
    · rename_i quote
      obtain ⟨⟨value, raw, after⟩, closed, rfl⟩ := Option.map_eq_some_iff.1 read
      exact .string quote closed
    · rename_i unquoted
      rw [Bool.not_eq_true] at unquoted
      split at read
      · rename_i sign
        obtain rfl := by simpa using read
        unfold sigil
        split
        · rw [← sign]
          exact .word unquoted
        · rw [← sign]
          exact .name sign
      · split at read
        · rename_i found
          obtain rfl := by simpa using read
          exact .modifier found
        · obtain rfl := by simpa using read
          split
          · exact .number unquoted
          · exact .word unquoted

theorem read?_cases {c : Char} {rest : List Char} {lexeme : Lexeme}
    (read : read? c rest = some lexeme) :
    (lexeme.kind ≠ .string ∧ lexeme.kind ≠ .endOfInput ∧
      lexeme.value = lexeme.raw) ∨
      (isQuote c = true ∧ lexeme.kind = .string ∧
        ∃ body, lexeme.raw = c :: body ++ [c] ∧
          lexeme.value = unescape body) := by
  cases reading_of_read? read with
  | string quote closed =>
      obtain ⟨body, rfl, rfl⟩ := closeQuote_value closed
      exact .inr ⟨quote, rfl, body, rfl, rfl⟩
  | sign found =>
      unfold punctuation? at found
      split at found <;> simp_all [plain]
      all_goals
        subst found
        simp
  | name =>
      rcases nameKind_cases (rest.takeWhile isNameSign) with
        kind | kind | kind | kind <;> simp [plain, kind]
  | modifier found =>
      unfold modifier? at found
      split at found <;> simp_all [plain] <;> subst found <;> simp
  | number => simp [number, plain]
  | word =>
      rcases wordKind_cases (c :: (splitWord rest).1) with
        ⟨_, kind⟩ | ⟨_, kind⟩ | kind <;> simp [word, plain, kind]

end Lexeme

namespace Token

/-- The value of a string is what stands between its quotes, unescaped; any
other token stands for itself. -/
def Faithful (t : Token) : Prop :=
  if t.kind = .string then
    ∃ quote body, Lexeme.isQuote quote = true ∧
      t.raw.toList = quote :: body ++ [quote] ∧
      t.value.toList = Lexeme.unescape body
  else
    t.value = t.raw

/-- The tokens that a text is made of, when it follows the text `before`. -/
inductive Layout : List Char → List Char → List Token → Prop where
  | last {before gap : List Char} :
      Gap.Form true gap → Layout before gap [.atEnd (.after (before ++ gap))]
  | token {before gap rest : List Char} {t : Token} {ts : List Token} :
      Gap.Form false gap → t.kind ≠ .endOfInput → t.raw ≠ "" → t.Faithful →
      t.position = .after (before ++ gap) →
      Layout (before ++ gap ++ t.raw.toList) rest ts →
      Layout before (gap ++ t.raw.toList ++ rest) (t :: ts)

end Token

namespace Lexeme

theorem toToken_faithful
    {c : Char} {rest : List Char} {lexeme : Lexeme} {position : Position}
    (read : read? c rest = some lexeme) :
    (lexeme.toToken position).Faithful := by
  unfold Token.Faithful
  rcases read?_cases read with
    ⟨plain, _, same⟩ | ⟨quote, string, body, raw, value⟩
  · rw [if_neg (by simpa [toToken] using plain)]
    simp [toToken, same]
  · rw [if_pos (by simpa [toToken] using string)]
    exact ⟨c, body, quote, by simp [toToken, raw], by simp [toToken, value]⟩

theorem toToken_raw_ne_empty {c : Char} {rest : List Char} {lexeme : Lexeme}
    {position : Position} (read : read? c rest = some lexeme) :
    (lexeme.toToken position).raw ≠ "" := by
  intro empty
  apply read?_raw_ne_nil read
  simpa [toToken] using congrArg String.toList empty

theorem toToken_kind_ne_endOfInput
    {c : Char} {rest : List Char} {lexeme : Lexeme} {position : Position}
    (read : read? c rest = some lexeme) :
    (lexeme.toToken position).kind ≠ .endOfInput := by
  rcases read?_cases read with ⟨_, inside, _⟩ | ⟨_, string, _⟩
  · exact inside
  · simp [toToken, string]

end Lexeme

namespace Cursor

theorem tokens_layout
    {cursor : Cursor} {before : List Char} {tokens : List Token}
    (place : cursor.position = .after before)
    (scanned : cursor.tokens = .ok tokens) :
    Token.Layout before cursor.rest tokens := by
  induction scanned using tokens_recursion generalizing before with
  | @last cursor ended =>
      obtain ⟨whole, form⟩ := Gap.split_of_rest_nil ended
      have finish :
          cursor.skipGap.position = .after (before ++ cursor.rest) := by
        simp only [skipGap, advance, place, whole, Position.after_advanceBy]
      rw [finish]
      exact .last form
  | @token cursor c rest lexeme ts begins read following induction =>
      have whole := Gap.split_append cursor.rest
      have form := Gap.split_form cursor.rest
      rw [show (Gap.split cursor.rest).2 = c :: rest from begins] at whole form
      have later : (cursor.skipGap.advance lexeme.raw lexeme.rest).position =
          .after (before ++ (Gap.split cursor.rest).1 ++ lexeme.raw) := by
        simp only [skipGap, advance, place, Position.after_advanceBy]
      rw [← whole, ← Lexeme.read?_append read, ← List.append_assoc]
      have tail := induction later
      have raw :
          lexeme.raw = (lexeme.toToken cursor.skipGap.position).raw.toList := by
        simp [Lexeme.toToken]
      rw [raw] at tail ⊢
      refine .token form (Lexeme.toToken_kind_ne_endOfInput read)
        (Lexeme.toToken_raw_ne_empty read)
          (Lexeme.toToken_faithful read) ?_ tail
      simp only [Lexeme.toToken, skipGap, advance, place,
        Position.after_advanceBy]

end Cursor

/-- Scanning loses nothing, and every token knows its place. -/
theorem Token.layout_of_ofSource {source : String} {tokens : List Token}
    (scanned : Token.ofSource source = .ok tokens) :
    Layout [] source.toList tokens :=
  Cursor.tokens_layout rfl scanned

theorem Token.layout_of_escaped_string :
    Token.ofSource "a='\\'\n' # b\n" = .ok
        [⟨.identifier, "a", ⟨1, 1⟩, "a"⟩, ⟨.equals, "=", ⟨1, 2⟩, "="⟩,
          ⟨.string, "'\n", ⟨1, 3⟩, "'\\'\n'"⟩, .atEnd ⟨3, 1⟩] ∧
      Layout [] "a='\\'\n' # b\n".toList
        [⟨.identifier, "a", ⟨1, 1⟩, "a"⟩, ⟨.equals, "=", ⟨1, 2⟩, "="⟩,
          ⟨.string, "'\n", ⟨1, 3⟩, "'\\'\n'"⟩, .atEnd ⟨3, 1⟩] :=
  ⟨by decide +kernel, layout_of_ofSource (by decide +kernel)⟩

end ServerConf
