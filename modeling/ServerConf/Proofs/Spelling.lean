import ServerConf.Proofs.LexemeContext

/-!
Scanning part by part. A text spelled with lexemes alone, no gap among them,
gives the same tokens wherever it stands before a stop, and a gap gives none.
-/

namespace ServerConf

namespace Gap

theorem splitFrom_comment_append {text : List Char}
    (inside : '\n' ∉ text)
    (rest : List Char) :
    splitFrom true (text ++ '\n' :: rest) =
      (text ++ '\n' :: (split rest).1, (split rest).2) := by
  induction text with
  | nil => simp [splitFrom, split]
  | cons c text induction =>
      simp only [List.mem_cons, not_or] at inside
      have sign : (c != '\n') = true := by simpa using Ne.symm inside.1
      simp [splitFrom, sign, induction inside.2]

theorem split_append_of_form {gap : List Char}
    (form : Form false gap)
    (rest : List Char) :
    split (gap ++ rest) = (gap ++ (split rest).1, (split rest).2) := by
  induction form with
  | nil => rfl
  | @blank c cs blank _ induction =>
      have sign : (c == '#') = false := by
        rw [beq_eq_false_iff_ne]
        rintro rfl
        exact absurd blank (by decide)
      simp only [split] at induction ⊢
      simp [splitFrom, blank, sign, induction]
  | @comment text cs inside _ induction =>
      have body := splitFrom_comment_append inside (cs ++ rest)
      rw [induction] at body
      simp [split, splitFrom, body]
  | openComment last => cases last

end Gap

namespace Cursor

theorem tokens_congr {first second : Cursor}
    (position : first.skipGap.position = second.skipGap.position)
    (rest : first.skipGap.rest = second.skipGap.rest) :
    first.tokens = second.tokens := by
  fun_induction tokens first generalizing second with
  | case1 first ended =>
      rw [tokens_of_rest_nil (rest.symm.trans ended), position]
  | case2 first c tail behind unread =>
      rw [tokens_of_unread (rest.symm.trans behind) unread, position]
  | case3 first c tail behind lexeme read shorter induction =>
      rw [tokens_of_read (rest.symm.trans behind) read, position]
      congr 1
      apply induction
      · simp only [skipGap, advance] at position ⊢
        rw [position]
      · rfl

end Cursor

def Token.scan (position : Position) (text : List Char) :
    Except ScanError (List Token) :=
  (Cursor.mk 0 position text).tokens

def Token.prepend
    (tokens : List Token) (following : Except ScanError (List Token)) :
    Except ScanError (List Token) :=
  following.map (tokens ++ ·)

namespace Token

@[simp] theorem prepend_nil (following : Except ScanError (List Token)) :
    prepend [] following = following := by
  cases following <;> rfl

@[simp] theorem prepend_ok (tokens following : List Token) :
    prepend tokens (.ok following) = .ok (tokens ++ following) := rfl

@[simp] theorem prepend_prepend
    (first second : List Token) (following : Except ScanError (List Token)) :
    prepend first (prepend second following) =
      prepend (first ++ second) following := by
  cases following <;> simp [prepend, Except.map]

theorem ofSource_eq_scan (source : String) :
    ofSource source = scan .start source.toList := rfl

@[simp] theorem scan_nil (position : Position) :
    scan position [] = .ok [.atEnd position] :=
  Cursor.tokens_of_rest_nil rfl

theorem scan_gap {gap : List Char}
    (form : Gap.Form false gap)
    (position : Position) (rest : List Char) :
    scan position (gap ++ rest) = scan (position.advanceBy gap) rest := by
  apply Cursor.tokens_congr
  · simp [Cursor.skipGap, Cursor.advance, Gap.split_append_of_form form,
      Position.advanceBy_append]
  · simp [Cursor.skipGap, Cursor.advance, Gap.split_append_of_form form]

theorem scan_blank {c : Char}
    (blank : Text.isBlank c = true)
    (position : Position) (rest : List Char) :
    scan position (c :: rest) = scan (position.advance c) rest :=
  scan_gap (.blank blank .nil) position rest

theorem scan_lexeme
    {c : Char} {rest : List Char} {lexeme : Lexeme} (position : Position)
    (shown : Text.isBlank c = false)
    (sign : c ≠ '#')
    (read : Lexeme.read? c rest = some lexeme) :
    scan position (c :: rest) =
      prepend [lexeme.toToken position]
        (scan (position.advanceBy lexeme.raw) lexeme.rest) := by
  have none : Gap.split (c :: rest) = ([], c :: rest) := by
    simp [Gap.split, Gap.splitFrom, shown, sign]
  have behind :
      (Cursor.mk 0 position (c :: rest)).skipGap.rest = c :: rest := by
    simp [Cursor.skipGap, Cursor.advance, none]
  have same :
      (Cursor.mk 0 position (c :: rest)).skipGap.position = position := by
    simp [Cursor.skipGap, Cursor.advance, none]
  rw [scan, Cursor.tokens_of_read behind read, same]
  change Except.map _ _ = Except.map _ _
  congr 1
  apply Cursor.tokens_congr
  · simp only [Cursor.skipGap, Cursor.advance] at same ⊢
    rw [same]
  · rfl

end Token

namespace Lexeme

inductive Spelling : List Char → List Lexeme → Prop where
  | nil : Spelling [] []
  | cons {c : Char} {taken rest value : List Char} {kind : TokenKind}
      {lexemes : List Lexeme} :
      Text.isBlank c = false → c ≠ '#' →
      read? c (taken ++ rest) = some ⟨kind, value, c :: taken, rest⟩ →
      Spelling rest lexemes →
      Spelling (c :: taken ++ rest) (⟨kind, value, c :: taken, rest⟩ :: lexemes)

def placed : Position → List Lexeme → List Token
  | _, [] => []
  | position, lexeme :: rest =>
    lexeme.toToken position :: placed (position.advanceBy lexeme.raw) rest

@[simp] theorem placed_nil (position : Position) :
    placed position [] = [] := rfl

@[simp] theorem placed_cons
    (position : Position) (lexeme : Lexeme) (rest : List Lexeme) :
    placed position (lexeme :: rest) =
      lexeme.toToken position :: placed (position.advanceBy lexeme.raw) rest :=
  rfl

def Stops (context : List Char) : Prop :=
  ∀ c ∈ context.head?, isStop c = true

theorem Stops.blank {c : Char}
    (blank : Text.isBlank c = true)
    (rest : List Char) :
    Stops (c :: rest) := by
  rintro d ⟨⟩
  simp [isStop, blank]

theorem Stops.append {first second : List Char}
    (left : Stops first)
    (right : Stops second) :
    Stops (first ++ second) := by
  cases first with
  | nil => exact right
  | cons => exact left

theorem Bounds.of_stops {context : List Char}
    (stops : Stops context)
    (rest : List Char) :
    Bounds rest context := by
  intro c tail begins
  exact .inl (stops c (by simp [begins]))

theorem Bounds.append {context : List Char}
    (stops : Stops context)
    (rest : List Char) :
    Bounds rest (rest ++ context) := by
  cases rest with
  | nil => exact .of_stops stops []
  | cons c rest =>
      intro d tail begins
      obtain ⟨rfl, rfl⟩ := List.cons.inj begins
      refine .inr ⟨rest, rfl, ?_⟩
      cases rest with
      | cons e rest => rfl
      | nil =>
          have alone : isSigil c [] = false := by simp [isSigil]
          exact alone.trans (isSigil_in_context (.of_stops stops []) alone).symm

def Reads (p : Position) (text : List Char) (tokens : List Token) : Prop :=
  ∀ context, Token.scan p (text ++ context) =
    Token.prepend tokens (Token.scan (p.advanceBy text) context)

def ReadsBefore (p : Position) (text : List Char) (tokens : List Token) :
    Prop :=
  ∀ context, Stops context → Token.scan p (text ++ context) =
    Token.prepend tokens (Token.scan (p.advanceBy text) context)

section Reads

variable {p : Position} {first second : List Char} {tokens others : List Token}

theorem Reads.nil : Reads p [] [] := by
  intro context
  simp

theorem Reads.gap {gap : List Char} (form : Gap.Form false gap) :
    Reads p gap [] := by
  intro context
  rw [Token.prepend_nil]
  exact Token.scan_gap form p context

theorem Reads.append (left : Reads p first tokens)
    (right : Reads (p.advanceBy first) second others) :
    Reads p (first ++ second) (tokens ++ others) := by
  intro context
  rw [List.append_assoc, left, right, Token.prepend_prepend,
    Position.advanceBy_append]

theorem Reads.append_before (left : Reads p first tokens)
    (right : ReadsBefore (p.advanceBy first) second others) :
    ReadsBefore p (first ++ second) (tokens ++ others) := by
  intro context stops
  rw [List.append_assoc, left, right context stops, Token.prepend_prepend,
    Position.advanceBy_append]

theorem ReadsBefore.append
    (left : ReadsBefore p first tokens)
    (stops : Stops second)
    (some : second ≠ [])
    (right : Reads (p.advanceBy first) second others) :
    Reads p (first ++ second) (tokens ++ others) := by
  intro context
  have stopsHere : Stops (second ++ context) := by
    intro c member
    cases second with
    | nil => exact absurd rfl some
    | cons d second => exact stops c member
  rw [List.append_assoc, left _ stopsHere, right, Token.prepend_prepend,
    Position.advanceBy_append]

theorem ReadsBefore.append_before
    (left : ReadsBefore p first tokens)
    (stops : Stops second)
    (right : ReadsBefore (p.advanceBy first) second others) :
    ReadsBefore p (first ++ second) (tokens ++ others) := by
  intro context ends
  rw [List.append_assoc, left _ (stops.append ends), right context ends,
    Token.prepend_prepend, Position.advanceBy_append]

end Reads

theorem Spelling.reads {text : List Char} {lexemes : List Lexeme}
    (spelling : Spelling text lexemes) (p : Position) :
    ReadsBefore p text (placed p lexemes) := by
  intro context stops
  induction spelling generalizing p with
  | nil => simp
  | @cons c taken rest value kind lexemes shown sign read _ induction =>
      have inContext := read?_in_context read (.append stops rest)
      rw [show c :: taken ++ rest ++ context = c :: (taken ++
        (rest ++ context)) by simp, Token.scan_lexeme p shown sign inContext,
        induction, Position.advanceBy_append]
      simp [toToken]

theorem not_gap_of_punctuation {c : Char} {kind : TokenKind}
    (sign : punctuation? c = some kind) :
    Text.isBlank c = false ∧ c ≠ '#' := by
  unfold punctuation? at sign
  split at sign <;> first | decide | cases sign

theorem Stops.punctuation {c : Char} {kind : TokenKind}
    (sign : punctuation? c = some kind)
    (rest : List Char) :
    Stops (c :: rest) := by
  intro d member
  cases member
  simp [isStop, sign]

theorem Reads.punctuation {c : Char} {kind : TokenKind}
    (sign : punctuation? c = some kind)
    (p : Position) :
    Reads p [c] [⟨kind, String.singleton c, p, String.singleton c⟩] := by
  intro context
  obtain ⟨shown, outside⟩ := not_gap_of_punctuation sign
  have read : read? c context = some (.plain kind [c] context) := by
    simp [read?, sign]
  rw [List.singleton_append, Token.scan_lexeme p shown outside read]
  rfl

end Lexeme

end ServerConf
