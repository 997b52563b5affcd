import ServerConf.Text.Alphanumeric
import ServerConf.Text.Blank
import ServerConf.Text.Digit
import ServerConf.Token

/-!
Lexemes: the stretch of text that one token covers. A lexeme is read from a text
that begins neither with a blank nor with a comment; only a quoted string
without its closing quote is none.
-/

namespace ServerConf

/-- A token's kind and text, split off from what follows it. -/
structure Lexeme where
  kind : TokenKind
  value : List Char
  raw : List Char
  rest : List Char
  deriving DecidableEq, Repr

namespace Lexeme

def punctuation? : Char → Option TokenKind
  | '\x7b' => some .openBrace
  | '\x7d' => some .closeBrace
  | '[' => some .openBracket
  | ']' => some .closeBracket
  | '(' => some .openParen
  | ')' => some .closeParen
  | ';' => some .semicolon
  | ',' => some .comma
  | '=' => some .equals
  | _ => none

def isQuote (c : Char) : Bool :=
  c == '"' || c == '\''

def isNameSign (c : Char) : Bool :=
  Text.isAlphanumeric c || c == '_'

/-- The `%` before a name, rather than one that is part of a word. -/
def isSigil (c : Char) (rest : List Char) : Bool :=
  c == '%' && (rest.head?.map isNameSign).getD false

/-- The character goes on with a word, given what follows it. -/
def continuesWord (c : Char) (rest : List Char) : Bool :=
  !isSigil c rest && !Text.isBlank c && (punctuation? c).isNone && !isQuote c

def splitWord : List Char → List Char × List Char
  | [] => ([], [])
  | c :: rest =>
    if continuesWord c rest then
      let after := splitWord rest
      (c :: after.1, after.2)
    else
      ([], c :: rest)

def wordKind (raw : List Char) : TokenKind :=
  if raw = ['l', 'o', 'c', 'a', 't', 'i', 'o', 'n'] then .location
  else if raw = ['i', 'n'] then .inWord
  else .identifier

def nameKind (name : List Char) : TokenKind :=
  if name = ['i', 'n', 'l', 'i', 'n', 'e'] then .inline
  else if name = ['e', 'n', 'v'] then .environment
  else if name = ['i', 'm', 'p', 'o', 'r', 't'] then .importSign
  else .variable

def plain (kind : TokenKind) (raw rest : List Char) : Lexeme :=
  ⟨kind, raw, raw, rest⟩

/-- An unquoted word takes its first character whatever it is. -/
def word (c : Char) (rest : List Char) : Lexeme :=
  let parts := splitWord rest
  plain (wordKind (c :: parts.1)) (c :: parts.1) parts.2

/-- What a string stands for, how it was written up to and with its closing
quote, and the rest. A backslash takes the next character as it is. -/
def closeQuote (quote : Char) :
    List Char → Option (List Char × List Char × List Char)
  | [] => none
  | '\\' :: c :: rest =>
    (closeQuote quote rest).map fun (value, raw, after) =>
      (c :: value, '\\' :: c :: raw, after)
  | c :: rest =>
    if c = quote then some ([], [c], rest)
    else (closeQuote quote rest).map fun (value, raw, after) =>
      (c :: value, c :: raw, after)

def quoted? (quote : Char) (rest : List Char) : Option Lexeme :=
  (closeQuote quote rest).map fun (value, raw, after) =>
    ⟨.string, value, quote :: raw, after⟩

/-- A `%` with a name is a variable or a keyword; alone it begins a word. -/
def sigil (rest : List Char) : Lexeme :=
  if (rest.takeWhile isNameSign).isEmpty then word '%' rest
  else
    plain (nameKind (rest.takeWhile isNameSign))
      ('%' :: rest.takeWhile isNameSign)
      (rest.dropWhile isNameSign)

def modifier? : Char → List Char → Option Lexeme
  | '~', '*' :: rest => some (plain .modifier ['~', '*'] rest)
  | '~', rest => some (plain .modifier ['~'] rest)
  | '^', '~' :: rest => some (plain .modifier ['^', '~'] rest)
  | _, _ => none

def number (c : Char) (rest : List Char) : Lexeme :=
  plain .number (c :: rest.takeWhile Text.isDigit) (rest.dropWhile Text.isDigit)

def read? (c : Char) (rest : List Char) : Option Lexeme :=
  match punctuation? c with
  | some kind => some (plain kind [c] rest)
  | none =>
    if isQuote c then quoted? c rest
    else if c = '%' then some (sigil rest)
    else
      match modifier? c rest with
      | some lexeme => some lexeme
      | none => some (if Text.isDigit c then number c rest else word c rest)

theorem splitWord_append (cs : List Char) :
    (splitWord cs).1 ++ (splitWord cs).2 = cs := by
  induction cs with
  | nil => rfl
  | cons c rest ih =>
    simp only [splitWord]
    split
    · simp [ih]
    · rfl

theorem closeQuote_append {quote : Char} {cs value raw after : List Char}
    (h : closeQuote quote cs = some (value, raw, after)) :
    raw ++ after = cs := by
  fun_induction closeQuote quote cs generalizing value raw after with
  | case1 => simp at h
  | case2 c rest ih =>
    obtain ⟨⟨v, r, a⟩, inner, same⟩ := Option.map_eq_some_iff.1 h
    obtain ⟨rfl, rfl, rfl⟩ := by simpa using same
    simp [ih inner]
  | case3 rest quoted =>
    obtain ⟨rfl, rfl, rfl⟩ := by simpa using h
    rfl
  | case4 c rest _ _ ih =>
    obtain ⟨⟨v, r, a⟩, inner, same⟩ := Option.map_eq_some_iff.1 h
    obtain ⟨rfl, rfl, rfl⟩ := by simpa using same
    simp [ih inner]

theorem word_append (c : Char) (rest : List Char) :
    (word c rest).raw ++ (word c rest).rest = c :: rest := by
  simp [word, plain, splitWord_append]

theorem read?_append {c : Char} {rest : List Char} {lexeme : Lexeme}
    (h : read? c rest = some lexeme) :
    lexeme.raw ++ lexeme.rest = c :: rest := by
  unfold read? at h
  split at h
  · obtain rfl := by simpa using h
    rfl
  · split at h
    · obtain ⟨⟨value, raw, after⟩, inner, rfl⟩ := Option.map_eq_some_iff.1 h
      simp [closeQuote_append inner]
    · split at h
      · rename_i sign
        obtain rfl := by simpa using h
        subst sign
        unfold sigil
        split
        · exact word_append '%' rest
        · simp [plain, List.takeWhile_append_dropWhile]
      · split at h
        · rename_i found
          obtain rfl := by simpa using h
          unfold modifier? at found
          split at found <;> simp_all [plain] <;> subst found <;> rfl
        · obtain rfl := by simpa using h
          split
          · simp [number, plain, List.takeWhile_append_dropWhile]
          · exact word_append c rest

theorem read?_raw_ne_nil {c : Char} {rest : List Char} {lexeme : Lexeme}
    (h : read? c rest = some lexeme) :
    lexeme.raw ≠ [] := by
  unfold read? at h
  split at h
  · obtain rfl := by simpa using h
    simp [plain]
  · split at h
    · obtain ⟨_, _, rfl⟩ := Option.map_eq_some_iff.1 h
      simp
    · split at h
      · obtain rfl := by simpa using h
        unfold sigil
        split <;> simp [word, plain]
      · split at h
        · rename_i found
          obtain rfl := by simpa using h
          unfold modifier? at found
          split at found <;> simp_all [plain] <;> subst found <;> simp
        · obtain rfl := by simpa using h
          split <;> simp [number, word, plain]

theorem read?_rest_length_lt {c : Char} {rest : List Char} {lexeme : Lexeme}
    (h : read? c rest = some lexeme) :
    lexeme.rest.length < (c :: rest).length := by
  have whole := congrArg List.length (read?_append h)
  have some := List.length_pos_iff.2 (read?_raw_ne_nil h)
  simp only [List.length_append] at whole
  omega

end Lexeme

end ServerConf
