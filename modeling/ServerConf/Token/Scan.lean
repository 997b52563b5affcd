import ServerConf.Token.Gap
import ServerConf.Token.Lexeme

/-!
Scanning a source text. A cursor stands before the part of the source not yet
read; each step skips a gap and reads one lexeme. The only fault is a string
that is never closed, and it uses up the source.
-/

namespace ServerConf

/-- A string opens at the position and is never closed. -/
structure ScanError where
  position : Position
  deriving DecidableEq, Repr

def ScanError.message (e : ScanError) : String :=
  e.position.locate "Unterminated string"

structure Cursor where
  offset : Nat
  position : Position
  rest : List Char
  deriving DecidableEq, Repr

namespace Cursor

def ofSource (source : String) : Cursor :=
  ⟨0, .start, source.toList⟩

def advance (cursor : Cursor) (taken rest : List Char) : Cursor :=
  ⟨cursor.offset + taken.length, cursor.position.advanceBy taken, rest⟩

def skipGap (cursor : Cursor) : Cursor :=
  cursor.advance (Gap.split cursor.rest).1 (Gap.split cursor.rest).2

end Cursor

def Lexeme.toToken (lexeme : Lexeme) (position : Position) : Token :=
  ⟨lexeme.kind, String.ofList lexeme.value, position, String.ofList lexeme.raw⟩

def Token.atEnd (position : Position) : Token :=
  ⟨.endOfInput, "", position, ""⟩

namespace Cursor

/-- Reads the token at a cursor that stands before no gap. -/
def read (cursor : Cursor) : Except ScanError Token × Cursor :=
  match cursor.rest with
  | [] => (.ok (.atEnd cursor.position), cursor)
  | c :: rest =>
    match Lexeme.read? c rest with
    | some lexeme =>
      (.ok (lexeme.toToken cursor.position),
        cursor.advance lexeme.raw lexeme.rest)
    | none => (.error ⟨cursor.position⟩, cursor.advance (c :: rest) [])

/-- The next token, and the cursor after it. At the end of the source it stays
there. -/
def next (cursor : Cursor) : Except ScanError Token × Cursor :=
  cursor.skipGap.read

theorem skipGap_rest_length_le (cursor : Cursor) :
    cursor.skipGap.rest.length ≤ cursor.rest.length :=
  Gap.split_rest_length_le cursor.rest

/-- All tokens from the cursor on; the last one is the end of input. -/
def tokens (cursor : Cursor) : Except ScanError (List Token) :=
  match atRest : cursor.skipGap.rest with
  | [] => .ok [.atEnd cursor.skipGap.position]
  | c :: rest =>
    match found : Lexeme.read? c rest with
    | none => .error ⟨cursor.skipGap.position⟩
    | some lexeme =>
      have : lexeme.rest.length < cursor.rest.length := by
        have gap := skipGap_rest_length_le cursor
        rw [atRest] at gap
        exact Nat.lt_of_lt_of_le (Lexeme.read?_rest_length_lt found) gap
      (tokens (cursor.skipGap.advance lexeme.raw lexeme.rest)).map
        (lexeme.toToken cursor.skipGap.position :: ·)
termination_by cursor.rest.length
decreasing_by assumption

theorem tokens_of_rest_nil {cursor : Cursor}
    (ended : cursor.skipGap.rest = []) :
    cursor.tokens = .ok [.atEnd cursor.skipGap.position] := by
  unfold tokens
  split
  · rfl
  · rename_i behind
    rw [ended] at behind
    cases behind

theorem tokens_of_read
    {cursor : Cursor} {c : Char} {rest : List Char} {lexeme : Lexeme}
    (behind : cursor.skipGap.rest = c :: rest)
    (read : Lexeme.read? c rest = some lexeme) :
    cursor.tokens =
      (cursor.skipGap.advance lexeme.raw lexeme.rest).tokens.map
        (lexeme.toToken cursor.skipGap.position :: ·) := by
  rw [tokens]
  split
  · rename_i ended
    rw [behind] at ended
    cases ended
  · rename_i d tail begins
    obtain ⟨rfl, rfl⟩ := List.cons.inj (behind.symm.trans begins)
    split
    · rename_i missing
      rw [read] at missing
      cases missing
    · rename_i found
      obtain rfl := Option.some.inj (read.symm.trans found)
      rfl

theorem tokens_of_unread {cursor : Cursor} {c : Char} {rest : List Char}
    (behind : cursor.skipGap.rest = c :: rest)
    (unread : Lexeme.read? c rest = none) :
    cursor.tokens = .error ⟨cursor.skipGap.position⟩ := by
  rw [tokens]
  split
  · rename_i ended
    rw [behind] at ended
    cases ended
  · rename_i d tail begins
    obtain ⟨rfl, rfl⟩ := List.cons.inj (behind.symm.trans begins)
    split
    · rfl
    · rename_i found
      rw [unread] at found
      cases found

theorem tokens_recursion
    {motive :
      ∀ (cursor : Cursor) (ts : List Token), cursor.tokens = .ok ts → Prop}
    (last : ∀ {cursor : Cursor} (ended : cursor.skipGap.rest = []),
      motive cursor [.atEnd cursor.skipGap.position] (tokens_of_rest_nil ended))
    (token : ∀ {cursor : Cursor} {c : Char} {rest : List Char} {lexeme : Lexeme}
      {ts : List Token}
      (begins : cursor.skipGap.rest = c :: rest)
      (read : Lexeme.read? c rest = some lexeme)
      (following :
        (cursor.skipGap.advance lexeme.raw lexeme.rest).tokens = .ok ts),
      motive (cursor.skipGap.advance lexeme.raw lexeme.rest) ts following →
        motive cursor (lexeme.toToken cursor.skipGap.position :: ts)
          (by rw [tokens_of_read begins read, following]; rfl))
    {cursor : Cursor} {ts : List Token}
    (scanned : cursor.tokens = .ok ts) :
    motive cursor ts scanned := by
  induction cursor using tokens.induct generalizing ts with
  | case1 cursor ended =>
      cases (tokens_of_rest_nil ended).symm.trans scanned
      exact last ended
  | case2 cursor c rest begins unread =>
      cases (tokens_of_unread begins unread).symm.trans scanned
  | case3 cursor c rest begins lexeme read shorter induction =>
      have whole := (tokens_of_read begins read).symm.trans scanned
      cases following :
        (cursor.skipGap.advance lexeme.raw lexeme.rest).tokens with
      | error =>
          rw [following] at whole
          cases whole
      | ok ts =>
          rw [following] at whole
          cases whole
          exact token begins read following (induction following)

end Cursor

/-- The tokens of a source, ended by the end of input. -/
def Token.ofSource (source : String) : Except ScanError (List Token) :=
  (Cursor.ofSource source).tokens

end ServerConf
