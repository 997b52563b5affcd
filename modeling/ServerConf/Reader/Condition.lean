import ServerConf.Reader.Word

/-!
Conditions of `if` blocks. A condition is kept as it was written, token by
token; parts that touch in the source stay together.
-/

namespace ServerConf

/-- Some text of a condition, and the first and last token it was written
with. -/
structure ConditionPart where
  text : String
  first : Token
  last : Token
  deriving DecidableEq, Repr

/-- Joins each part to the one before it when the two touch. -/
def ConditionPart.join : List ConditionPart → List String
  | [] => []
  | [part] => [part.text]
  | part :: next :: rest =>
    match join (next :: rest) with
    | [] => [part.text]
    | text :: texts =>
      if part.last.touches next.first then (part.text ++ text) :: texts
      else part.text :: text :: texts

namespace Reader

def conditionPart (r : Reader) (t : Token) (ts : List Token) :
    Except Stop (ConditionPart × List Token) :=
  if t.kind = .environment then
    (r.reference t ts).map fun ((value, close), after) =>
      (⟨value, t, close⟩, after)
  else
    .ok (⟨if t.raw.isEmpty then t.value else t.raw, t, t⟩, ts)

theorem conditionPart_length {r : Reader} {t : Token} {ts rest : List Token}
    {part : ConditionPart}
    (h : r.conditionPart t ts = .ok (part, rest)) :
    rest.length ≤ ts.length := by
  unfold conditionPart at h
  split at h
  · obtain ⟨⟨value, after⟩, found, same⟩ := map_ok h
    cases same
    exact Nat.le_of_lt (reference_length found)
  · cases h
    exact Nat.le_refl _

/-- A condition without parentheses around it goes up to the brace. -/
def bareCondition (r : Reader) (ts : List Token) :
    Except Stop (List ConditionPart × List Token) :=
  match ts with
  | [] => .ok ([], [])
  | t :: rest =>
    if t.kind = .openBrace then .ok ([], t :: rest)
    else
      match found : r.conditionPart t rest with
      | .error e => .error e
      | .ok (part, next) =>
        have : next.length < (t :: rest).length :=
          Nat.lt_succ_of_le (conditionPart_length found)
        (r.bareCondition next).map fun (parts, after) => (part :: parts, after)
termination_by ts.length
decreasing_by assumption

/-- The inner parentheses that are open after one more token. -/
def nesting (inner : Nat) (kind : TokenKind) : Nat :=
  if kind = .closeParen then inner - 1
  else if kind = .openParen then inner + 1
  else inner

/-- A condition after its opening parenthesis, with `inner` more of them open.
The parenthesis that closes it is taken but is no part of it. -/
def parenCondition (r : Reader) (inner : Nat) (ts : List Token) :
    Except Stop (List ConditionPart × List Token) :=
  match ts with
  | [] => r.stop .openCondition []
  | t :: rest =>
    if t.kind = .openBrace then r.stop .openCondition (t :: rest)
    else if t.kind = .closeParen && inner = 0 then .ok ([], rest)
    else
      match found : r.conditionPart t rest with
      | .error e => .error e
      | .ok (part, next) =>
        have : next.length < (t :: rest).length :=
          Nat.lt_succ_of_le (conditionPart_length found)
        (r.parenCondition (nesting inner t.kind) next).map
          fun (parts, after) => (part :: parts, after)
termination_by ts.length
decreasing_by assumption

/-- The arguments that the condition after an `if` amounts to. -/
def condition (r : Reader) : List Token → Except Stop (List String × List Token)
  | [] => .ok ([], [])
  | t :: rest =>
    (if t.kind = .openParen then r.parenCondition 0 rest
      else r.bareCondition (t :: rest)).map
      fun (parts, after) => (ConditionPart.join parts, after)

theorem bareCondition_length
    {r : Reader} {ts rest : List Token} {parts : List ConditionPart}
    (h : r.bareCondition ts = .ok (parts, rest)) :
    rest.length ≤ ts.length := by
  fun_induction bareCondition r ts generalizing parts rest with
  | case1 | case2 =>
    cases h
    exact Nat.le_refl _
  | case3 => cases h
  | case4 t tail _ part next found shorter ih =>
    obtain ⟨⟨more, after⟩, deeper, same⟩ := map_ok h
    cases same
    exact Nat.le_trans (ih deeper) (Nat.le_of_lt shorter)

theorem parenCondition_length {r : Reader} {inner : Nat} {ts rest : List Token}
    {parts : List ConditionPart}
    (h : r.parenCondition inner ts = .ok (parts, rest)) :
    rest.length < ts.length := by
  fun_induction parenCondition r inner ts generalizing parts rest with
  | case1 | case2 | case4 => cases h
  | case3 inner t tail _ closes =>
    cases h
    exact Nat.lt_succ_self _
  | case5 inner t tail _ _ part next found shorter ih =>
    obtain ⟨⟨more, after⟩, deeper, same⟩ := map_ok h
    cases same
    exact Nat.lt_trans (ih deeper) shorter

theorem condition_length
    {r : Reader} {ts rest : List Token} {args : List String}
    (h : r.condition ts = .ok (args, rest)) :
    rest.length ≤ ts.length := by
  cases ts with
  | nil =>
    cases h
    exact Nat.le_refl _
  | cons t tail =>
    obtain ⟨⟨parts, after⟩, found, same⟩ := map_ok h
    cases same
    split at found
    · exact Nat.le_succ_of_le (Nat.le_of_lt (parenCondition_length found))
    · exact bareCondition_length found

end Reader

end ServerConf
