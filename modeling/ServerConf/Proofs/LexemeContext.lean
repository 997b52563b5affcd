import ServerConf.Proofs.SourceLayout
import Mathlib.Data.List.TakeWhile
import Mathlib.Tactic.IntervalCases

/-!
A lexeme in another context. What follows a lexeme matters only as far as it
could have gone on with it, so the same lexeme is read wherever nothing that
follows goes on with it.
-/

namespace ServerConf

theorem Text.Ranges.exists_of_contains {ranges : Text.Ranges} {n : Nat}
    (found : ranges.contains n = true) :
    ∃ range ∈ ranges, range.1 ≤ n ∧ n ≤ range.2 := by
  induction ranges with
  | nil => simp at found
  | cons range rest induction =>
      rw [contains_cons] at found
      split at found
      · simp at found
      · split at found
        · exact ⟨range, by simp, by omega, by omega⟩
        · obtain ⟨other, member, bounds⟩ := induction found
          exact ⟨other, by simp [member], bounds⟩

namespace Lexeme

def isStop (c : Char) : Bool :=
  Text.isBlank c || (punctuation? c).isSome || isQuote c

def Extends (c : Char) : Prop :=
  isNameSign c = true ∨ Text.isDigit c = true ∨ c = '*' ∨ c = '~'

instance : DecidablePred Extends := fun _ => inferInstanceAs (Decidable (_ ∨ _))

theorem not_extends_of_isBlank {c : Char} (blank : Text.isBlank c = true) :
    ¬ Extends c := by
  obtain ⟨range, member, low, high⟩ := Text.Ranges.exists_of_contains blank
  rw [← Char.ofNat_toNat c]
  generalize c.toNat = n at low high
  simp only [Text.blanks, List.mem_cons, List.not_mem_nil, or_false] at member
  rcases member with rfl | rfl | rfl | rfl | rfl | rfl | rfl | rfl | rfl | rfl
  all_goals
    dsimp only at low high
    interval_cases n <;> decide +kernel

theorem not_extends_of_isStop {c : Char} (stop : isStop c = true) :
    ¬ Extends c := by
  simp only [isStop, Bool.or_eq_true] at stop
  rcases stop with (blank | sign) | quote
  · exact not_extends_of_isBlank blank
  · unfold punctuation? at sign
    split at sign <;> first | decide | simp at sign
  · simp only [isQuote, Bool.or_eq_true, beq_iff_eq] at quote
    rcases quote with rfl | rfl <;> decide

theorem isSigil_eq_false_of_ne {c : Char} (other : c ≠ '%') (rest : List Char) :
    isSigil c rest = false := by
  simp [isSigil, other]

theorem continuesWord_congr {c : Char} {rest other : List Char}
    (alike : isSigil c rest = isSigil c other) :
    continuesWord c rest = continuesWord c other := by
  simp only [continuesWord, alike]

theorem continuesWord_of_isStop {c : Char}
    (stop : isStop c = true)
    (rest : List Char) :
    continuesWord c rest = false := by
  simp only [isStop, Bool.or_eq_true] at stop
  rcases stop with (blank | sign) | quote
  · simp [continuesWord, blank]
  · simp [continuesWord, Option.isSome_iff_ne_none.1 sign]
  · simp [continuesWord, quote]

/-- Whatever begins `context` is a stop, or begins `rest` too and is a sigil
there or not alike. -/
def Bounds (rest context : List Char) : Prop :=
  ∀ c tail, context = c :: tail →
    isStop c = true ∨ ∃ other, rest = c :: other ∧
      isSigil c other = isSigil c tail

theorem Bounds.nil (rest : List Char) : Bounds rest [] := by
  intro c tail same
  cases same

theorem Bounds.stop {c : Char}
    (stop : isStop c = true)
    (rest tail : List Char) :
    Bounds rest (c :: tail) := by
  intro d other same
  cases same
  exact .inl stop

theorem Bounds.head_false
    {rest context tail : List Char} {c : Char} {p : Char → Bool}
    (bounds : Bounds rest context)
    (begins : context = c :: tail)
    (ends : ∀ d other, rest = d :: other → p d = false)
    (covered : ∀ d, p d = true → Extends d) :
    p c = false := by
  rcases bounds c tail begins with stop | ⟨other, same, _⟩
  · exact Bool.eq_false_iff.2 fun further =>
      not_extends_of_isStop stop (covered c further)
  · exact ends c other same

theorem takeWhile_in_context {taken rest context : List Char} {p : Char → Bool}
    (exactly : (taken ++ rest).takeWhile p = taken)
    (bounds : Bounds rest context)
    (covered : ∀ d, p d = true → Extends d) :
    (taken ++ context).takeWhile p = taken ∧
      (taken ++ context).dropWhile p = context := by
  have inside : ∀ c ∈ taken, p c = true := by
    intro c member
    rw [← exactly] at member
    exact List.mem_takeWhile_imp member
  rw [List.takeWhile_append_of_pos inside, List.append_right_eq_self] at exactly
  have ends : ∀ d other, rest = d :: other → p d = false := by
    rintro d other rfl
    by_contra further
    simp [further] at exactly
  rw [List.takeWhile_append_of_pos inside, List.dropWhile_append_of_pos inside]
  cases context with
  | nil => simp
  | cons c tail =>
      have ended := bounds.head_false rfl ends covered
      simp [ended]

theorem isSigil_in_context {rest context : List Char} {c : Char}
    (bounds : Bounds rest context)
    (single : isSigil c rest = false) :
    isSigil c context = false := by
  by_cases sign : c = '%'
  · subst sign
    cases context with
    | nil => rfl
    | cons d tail =>
        have ended : isNameSign d = false := by
          refine bounds.head_false rfl ?_ fun d further => .inl further
          rintro d other rfl
          simpa [isSigil] using single
        simp [isSigil, ended]
  · exact isSigil_eq_false_of_ne sign context

theorem splitWord_in_context {taken rest context : List Char}
    (exactly : splitWord (taken ++ rest) = (taken, rest))
    (bounds : Bounds rest context) :
    splitWord (taken ++ context) = (taken, context) := by
  induction taken with
  | nil =>
      cases context with
      | nil => rfl
      | cons c tail =>
          have ended : continuesWord c tail = false := by
            rcases bounds c tail rfl with stop | ⟨other, rfl, alike⟩
            · exact continuesWord_of_isStop stop tail
            · rw [← continuesWord_congr alike]
              by_contra further
              simp [splitWord, further] at exactly
          simp [splitWord, ended]
  | cons c taken induction =>
      simp only [List.cons_append, splitWord] at exactly ⊢
      split at exactly
      · rename_i continues
        obtain ⟨inner, outer⟩ : (splitWord (taken ++ rest)).1 = taken ∧
            (splitWord (taken ++ rest)).2 = rest := by simpa using exactly
        have alike :
            isSigil c (taken ++ context) = isSigil c (taken ++ rest) := by
          cases taken with
          | cons d taken => rfl
          | nil =>
              have single : isSigil c rest = false := by
                simp only [continuesWord, List.nil_append,
                  Bool.and_eq_true] at continues
                simpa using continues.1.1.1
              rw [List.nil_append, List.nil_append, single,
                isSigil_in_context bounds single]
        rw [if_pos (by rwa [continuesWord_congr alike]),
          induction (Prod.ext inner outer)]
      · simp at exactly

theorem closeQuote_cons {quote c : Char} (plain : c ≠ '\\') (rest : List Char) :
    closeQuote quote (c :: rest) =
      if c = quote then some ([], [c], rest)
      else
        (closeQuote quote rest).map fun (value, raw, after) =>
          (c :: value, c :: raw, after) := by
  rw [closeQuote]
  intro _ _ sign _
  exact plain sign

theorem closeQuote_in_context {quote : Char} {cs value raw rest : List Char}
    (real : quote ≠ '\\')
    (closed : closeQuote quote cs = some (value, raw, rest))
    (context : List Char) :
    closeQuote quote (raw ++ context) = some (value, raw, context) := by
  fun_induction closeQuote quote cs generalizing value raw rest with
  | case1 => simp at closed
  | case2 c tail induction =>
      obtain ⟨⟨v, r, a⟩, inner, same⟩ := Option.map_eq_some_iff.1 closed
      obtain ⟨rfl, rfl, rfl⟩ := by simpa using same
      simp [closeQuote, induction inner]
  | case3 tail escaped =>
      obtain ⟨rfl, rfl, rfl⟩ := by simpa using closed
      simp [closeQuote_cons real]
  | case4 c tail escaped further induction =>
      obtain ⟨⟨v, r, a⟩, inner, same⟩ := Option.map_eq_some_iff.1 closed
      obtain ⟨rfl, rfl, rfl⟩ := by simpa using same
      have plain : c ≠ '\\' := by
        rintro rfl
        cases tail with
        | nil => simp [closeQuote] at inner
        | cons d tail => exact escaped d tail rfl rfl
      simp [closeQuote_cons plain, further, induction inner]

theorem modifier?_cases {c : Char} {rest : List Char} {lexeme : Lexeme}
    (found : modifier? c rest = some lexeme) :
    (c = '~' ∧ ∃ tail, rest = '*' :: tail ∧
      lexeme = plain .modifier ['~', '*'] tail) ∨
      (c = '~' ∧ (∀ tail, rest ≠ '*' :: tail) ∧
        lexeme = plain .modifier ['~'] rest) ∨
      (c = '^' ∧ ∃ tail, rest = '~' :: tail ∧
        lexeme = plain .modifier ['^', '~'] tail) := by
  unfold modifier? at found
  split at found
  · rename_i tail
    exact .inl ⟨rfl, tail, rfl, (Option.some.inj found).symm⟩
  · rename_i tail other
    exact .inr (.inl ⟨rfl, other, (Option.some.inj found).symm⟩)
  · rename_i tail
    exact .inr (.inr ⟨rfl, tail, rfl, (Option.some.inj found).symm⟩)
  · cases found

theorem modifier?_tilde {rest : List Char}
    (short : ∀ tail, rest ≠ '*' :: tail) :
    modifier? '~' rest = some (plain .modifier ['~'] rest) := by
  unfold modifier?
  split <;> simp_all

theorem modifier?_eq_none_iff {c : Char} {rest : List Char} :
    modifier? c rest = none ↔ c ≠ '~' ∧ ∀ tail, c = '^' →
      rest ≠ '~' :: tail := by
  unfold modifier?
  split <;> simp_all

theorem modifier?_in_context
    {c : Char} {taken rest context : List Char} {lexeme : Lexeme}
    (found : modifier? c (taken ++ rest) = some lexeme)
    (exactly : lexeme.raw = c :: taken)
    (bounds : Bounds rest context) :
    modifier? c (taken ++ context) = some { lexeme with rest := context } := by
  rcases modifier?_cases found with
    ⟨rfl, tail, same, rfl⟩ | ⟨rfl, short, rfl⟩ | ⟨rfl, tail, same, rfl⟩
  · obtain rfl : taken = ['*'] := by simpa [plain] using exactly.symm
    rfl
  · obtain rfl : taken = [] := by simpa [plain] using exactly.symm
    refine modifier?_tilde ?_
    rintro tail begins
    have ended : ('*' == '*') = false :=
      bounds.head_false (p := (· == '*')) begins
        (by
          rintro d other rfl
          simpa using fun same => short other (by simp [same]))
        (by rintro d same; exact .inr (.inr (.inl (by simpa using same))))
    simp at ended
  · obtain rfl : taken = ['~'] := by simpa [plain] using exactly.symm
    rfl

theorem modifier?_none_in_context {c : Char} {taken rest context : List Char}
    (absent : modifier? c (taken ++ rest) = none)
    (bounds : Bounds rest context) :
    modifier? c (taken ++ context) = none := by
  rw [modifier?_eq_none_iff] at absent ⊢
  refine ⟨absent.1, ?_⟩
  intro tail sign begins
  cases taken with
  | cons d taken =>
      obtain ⟨rfl, _⟩ := by simpa using begins
      exact absent.2 _ sign rfl
  | nil =>
      have ended : ('~' == '~') = false :=
        bounds.head_false (p := (· == '~')) begins
          (by
            rintro d other rfl
            simpa using fun same => absent.2 other sign (by simp [same]))
          (by rintro d same; exact .inr (.inr (.inr (by simpa using same))))
      simp at ended

theorem word_in_context
    {c : Char} {taken rest context value : List Char} {kind : TokenKind}
    (read : word c (taken ++ rest) = ⟨kind, value, c :: taken, rest⟩)
    (bounds : Bounds rest context) :
    word c (taken ++ context) = ⟨kind, value, c :: taken, context⟩ := by
  simp only [word, plain, mk.injEq, List.cons.injEq, true_and] at read ⊢
  obtain ⟨rfl, rfl, inner, outer⟩ := read
  rw [splitWord_in_context (Prod.ext inner outer) bounds, inner]
  simp

theorem number_in_context
    {c : Char} {taken rest context value : List Char} {kind : TokenKind}
    (read : number c (taken ++ rest) = ⟨kind, value, c :: taken, rest⟩)
    (bounds : Bounds rest context) :
    number c (taken ++ context) = ⟨kind, value, c :: taken, context⟩ := by
  simp only [number, plain, mk.injEq, List.cons.injEq, true_and] at read ⊢
  obtain ⟨rfl, rfl, inner, _⟩ := read
  obtain ⟨took, left⟩ :=
    takeWhile_in_context inner bounds fun d further => .inr (.inl further)
  simp [took, left, inner]

theorem sigil_in_context
    {taken rest context value : List Char} {kind : TokenKind}
    (read : sigil (taken ++ rest) = ⟨kind, value, '%' :: taken, rest⟩)
    (bounds : Bounds rest context) :
    sigil (taken ++ context) = ⟨kind, value, '%' :: taken, context⟩ := by
  unfold sigil at read
  split at read
  · rename_i single
    have alone : ((taken ++ context).takeWhile isNameSign).isEmpty = true := by
      cases taken with
      | cons d taken => simpa using single
      | nil =>
          have none : ([] ++ rest).takeWhile isNameSign = [] := by
            simpa using single
          rw [(takeWhile_in_context none bounds fun d further =>
            .inl further).1]
          rfl
    rw [sigil, if_pos alone]
    exact word_in_context read bounds
  · rename_i named
    simp only [plain, mk.injEq, List.cons.injEq, true_and] at read
    obtain ⟨rfl, rfl, inner, _⟩ := read
    obtain ⟨took, left⟩ :=
      takeWhile_in_context inner bounds fun d further => .inl further
    rw [sigil, took, if_neg (by simpa [inner] using named), left, plain]
    simp [inner]

theorem read?_in_context
    {c : Char} {taken rest context value : List Char} {kind : TokenKind}
    (read : read? c (taken ++ rest) = some ⟨kind, value, c :: taken, rest⟩)
    (bounds : Bounds rest context) :
    read? c (taken ++ context) = some ⟨kind, value, c :: taken, context⟩ := by
  unfold read? at read ⊢
  cases sign : punctuation? c with
  | some other =>
      simp only [sign, Option.some.injEq, plain, mk.injEq, List.cons.injEq,
        true_and] at read ⊢
      obtain ⟨rfl, rfl, rfl, _⟩ := read
      simp
  | none =>
      simp only [sign] at read ⊢
      by_cases quote : isQuote c = true
      · simp only [quote, ↓reduceIte, quoted?, Option.map_eq_some_iff] at read ⊢
        obtain ⟨⟨inner, raw, after⟩, closed, same⟩ := read
        simp only [mk.injEq, List.cons.injEq, true_and] at same
        obtain ⟨rfl, rfl, rfl, rfl⟩ := same
        have real : c ≠ '\\' := by
          rintro rfl
          simp [isQuote] at quote
        exact ⟨_, closeQuote_in_context real closed context, rfl⟩
      · simp only [quote, Bool.false_eq_true, ↓reduceIte] at read ⊢
        by_cases percent : c = '%'
        · subst percent
          simp only [↓reduceIte, Option.some.injEq] at read ⊢
          exact sigil_in_context read bounds
        · simp only [percent, ↓reduceIte] at read ⊢
          cases found : modifier? c (taken ++ rest) with
          | some lexeme =>
              simp only [found, Option.some.injEq] at read
              subst read
              rw [modifier?_in_context found rfl bounds]
          | none =>
              simp only [found, Option.some.injEq] at read
              rw [modifier?_none_in_context found bounds]
              split at read
              · rename_i digit
                simpa [digit] using number_in_context read bounds
              · rename_i letter
                simpa [letter] using word_in_context read bounds

end Lexeme

end ServerConf
