import ServerConf.Reader.Basic

/-!
Words: runs of tokens with nothing between them, in which every reference to the
environment is replaced by its value.
-/

namespace ServerConf.Reader

/-- The default in a reference to the environment, if there is one. -/
def fallback (r : Reader) :
    List Token → Except Stop (Option String × List Token)
  | [] => .ok (none, [])
  | t :: ts =>
    if t.kind = .comma then do
      let (value, ts) ← r.expect .string .environmentDefault ts
      return (some value.value, ts)
    else
      .ok (none, t :: ts)

/-- What follows the `%env` sign. Gives the value and the closing
parenthesis. -/
def reference (r : Reader) (sign : Token) (ts : List Token) :
    Except Stop ((String × Token) × List Token) := do
  let (_, ts) ← r.expect .openParen .environmentParen ts
  let (name, ts) ← r.expect .string .environmentName ts
  let (default, ts) ← r.fallback ts
  let (close, ts) ← r.expect .closeParen .environmentClose ts
  match (r.env name.value).or default with
  | some value => return ((value, close), ts)
  | none => .error ⟨⟨.environmentUnset name.value, sign⟩, ts⟩

def wordPart (r : Reader) (t : Token) (ts : List Token) :
    Except Stop ((String × Token) × List Token) :=
  if t.kind = .environment then r.reference t ts else .ok ((t.value, t), ts)

theorem fallback_length
    {r : Reader} {ts rest : List Token} {value : Option String}
    (h : r.fallback ts = .ok (value, rest)) :
    rest.length ≤ ts.length := by
  cases ts with
  | nil =>
    cases h
    exact Nat.le_refl _
  | cons t ts =>
    simp only [fallback] at h
    split at h
    · obtain ⟨⟨default, after⟩, read, h⟩ := bind_ok h
      cases h
      exact Nat.le_succ_of_le (Nat.le_of_lt (expect_length read))
    · cases h
      exact Nat.le_refl _

theorem reference_length {r : Reader} {sign : Token} {ts rest : List Token}
    {value : String × Token}
    (h : r.reference sign ts = .ok (value, rest)) :
    rest.length < ts.length := by
  obtain ⟨⟨paren, afterParen⟩, opened, h⟩ := bind_ok h
  obtain ⟨⟨name, afterName⟩, named, h⟩ := bind_ok h
  obtain ⟨⟨default, afterDefault⟩, defaulted, h⟩ := bind_ok h
  obtain ⟨⟨close, afterClose⟩, closed, h⟩ := bind_ok h
  have := expect_length opened
  have := expect_length named
  have := fallback_length defaulted
  have := expect_length closed
  dsimp only at h
  split at h
  · cases h
    omega
  · cases h

theorem wordPart_length
    {r : Reader} {t : Token} {ts rest : List Token} {value : String × Token}
    (h : r.wordPart t ts = .ok (value, rest)) :
    rest.length ≤ ts.length := by
  unfold wordPart at h
  split at h
  · exact Nat.le_of_lt (reference_length h)
  · cases h
    exact Nat.le_refl _

def word (r : Reader) (t : Token) (ts : List Token) :
    Except Stop (String × List Token) :=
  match part : r.wordPart t ts with
  | .error e => .error e
  | .ok ((text, _), []) => .ok (text, [])
  | .ok ((text, previous), next :: rest) =>
    if next.kind.isGlue && previous.touches next then
      have : rest.length < ts.length := by
        have := wordPart_length part
        simp only [List.length_cons] at this
        omega
      (r.word next rest).map fun (more, after) => (text ++ more, after)
    else
      .ok (text, next :: rest)
termination_by ts.length
decreasing_by assumption

theorem word_length
    {r : Reader} {t : Token} {ts rest : List Token} {text : String}
    (h : r.word t ts = .ok (text, rest)) :
    rest.length ≤ ts.length := by
  fun_induction word r t ts generalizing text rest with
  | case1 => cases h
  | case2 =>
    cases h
    exact Nat.zero_le _
  | case3 t ts first previous next tail part glued shorter ih =>
    obtain ⟨⟨more, after⟩, deeper, same⟩ := map_ok h
    cases same
    have := ih deeper
    omega
  | case4 t ts first previous next tail part apart =>
    cases h
    exact wordPart_length part

def nameText (r : Reader) (t : Token) (ts : List Token) :
    Except Stop (String × List Token) :=
  if t.kind = .string then .ok (t.raw, ts) else r.word t ts

/-- The name of a block or a directive, which must not be empty. -/
def name (r : Reader) (t : Token) (ts : List Token) :
    Except Stop (String × List Token) := do
  let (text, ts) ← r.nameText t ts
  if text.isEmpty then .error ⟨⟨.noName, t⟩, ts⟩ else return (text, ts)

theorem nameText_length
    {r : Reader} {t : Token} {ts rest : List Token} {text : String}
    (h : r.nameText t ts = .ok (text, rest)) :
    rest.length ≤ ts.length := by
  unfold nameText at h
  split at h
  · cases h
    exact Nat.le_refl _
  · exact word_length h

theorem name_length
    {r : Reader} {t : Token} {ts rest : List Token} {text : String}
    (h : r.name t ts = .ok (text, rest)) :
    rest.length ≤ ts.length := by
  obtain ⟨⟨found, after⟩, read, h⟩ := bind_ok h
  dsimp only at h
  split at h
  · cases h
  · cases h
    exact nameText_length read

end ServerConf.Reader
