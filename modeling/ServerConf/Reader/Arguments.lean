import ServerConf.Reader.Word

namespace ServerConf.Reader

def braceAhead : List Token → Bool
  | [] => false
  | t :: ts =>
    if t.kind = .openBrace then true
    else if t.kind = .semicolon then false
    else braceAhead ts

/-- The arguments after `name`, up to a semicolon, or in a block header up to
the brace. In a directive an identifier on a later line than `line` begins the
next statement. -/
def arguments
    (r : Reader) (name : String) (line : Int) (header : Bool)
    (ts : List Token) :
    Except Stop (List String × List Token) :=
  match ts with
  | [] => .ok ([], [])
  | t :: rest =>
    if t.kind = .semicolon || (t.kind = .openBrace && header) then
      .ok ([], t :: rest)
    else if t.kind = .openBrace || t.kind = .closeBrace ||
      (t.kind = .location && header) then
      r.stop (.openHeader name) (t :: rest)
    else if !header && line < t.position.line && t.kind = .identifier then
      .ok ([], t :: rest)
    else if t.kind = .string then
      (r.arguments name line header rest).map fun (args, after) =>
        (t.value :: args, after)
    else if t.kind = .equals || t.kind.isWord then
      match found : r.word t rest with
      | .error e => .error e
      | .ok (text, next) =>
        have : next.length < (t :: rest).length :=
          Nat.lt_succ_of_le (word_length found)
        (r.arguments name line header next).map fun (args, after) =>
          (text :: args, after)
    else
      .ok ([], t :: rest)
termination_by ts.length
decreasing_by
  · exact Nat.lt_succ_self _
  · assumption

/-- One path of a path list: a string, or a reference to the environment. -/
def listedPath (r : Reader) (t : Token) (ts : List Token) :
    Except Stop (String × List Token) :=
  if t.kind = .environment then
    (r.reference t ts).map fun ((value, _), after) => (value, after)
  else if t.kind = .string then
    .ok (t.value, ts)
  else
    r.stop .noListedPath (t :: ts)

theorem listedPath_length
    {r : Reader} {t : Token} {ts rest : List Token} {path : String}
    (h : r.listedPath t ts = .ok (path, rest)) :
    rest.length ≤ ts.length := by
  unfold listedPath at h
  split at h
  · obtain ⟨⟨value, after⟩, found, same⟩ := map_ok h
    cases same
    exact Nat.le_of_lt (reference_length found)
  · split at h
    · cases h
      exact Nat.le_refl _
    · cases h

/-- The paths up to the closing bracket, which is given as well. A comma may
follow the last. -/
def pathList (r : Reader) (ts : List Token) :
    Except Stop ((List String × Token) × List Token) :=
  match ts with
  | [] => r.stop .noListedPath []
  | t :: rest =>
    if t.kind = .closeBracket then .ok (([], t), rest)
    else
      match found : r.listedPath t rest with
      | .error e => .error e
      | .ok (_, []) => r.stop .noPathSeparator []
      | .ok (path, next :: tail) =>
        if next.kind = .comma then
          have : tail.length < (t :: rest).length := by
            have := listedPath_length found
            simp only [List.length_cons] at this ⊢
            omega
          (r.pathList tail).map fun ((paths, close), after) =>
            ((path :: paths, close), after)
        else if next.kind = .closeBracket then
          .ok (([path], next), tail)
        else
          r.stop .noPathSeparator (next :: tail)
termination_by ts.length
decreasing_by assumption

theorem arguments_length
    {r : Reader} {name : String} {line : Int} {header : Bool}
    {ts rest : List Token} {args : List String}
    (h : r.arguments name line header ts = .ok (args, rest)) :
    rest.length ≤ ts.length := by
  fun_induction arguments r name line header ts generalizing args rest with
  | case1 | case2 | case4 | case8 =>
    cases h
    exact Nat.le_refl _
  | case3 | case6 => cases h
  | case5 t tail _ _ _ _ ih =>
    obtain ⟨⟨more, after⟩, deeper, same⟩ := map_ok h
    cases same
    exact Nat.le_succ_of_le (ih deeper)
  | case7 t tail _ _ _ _ _ text next found shorter ih =>
    obtain ⟨⟨more, after⟩, deeper, same⟩ := map_ok h
    cases same
    exact Nat.le_trans (ih deeper) (Nat.le_of_lt shorter)

theorem pathList_length
    {r : Reader} {ts rest : List Token} {paths : List String × Token}
    (h : r.pathList ts = .ok (paths, rest)) :
    rest.length < ts.length := by
  fun_induction pathList r ts generalizing paths rest with
  | case1 | case3 | case4 | case7 => cases h
  | case2 t tail closes =>
    cases h
    exact Nat.lt_succ_self _
  | case5 t first _ path next tail found comma shorter ih =>
    obtain ⟨⟨more, after⟩, deeper, same⟩ := map_ok h
    cases same
    exact Nat.lt_trans (ih deeper) shorter
  | case6 t first _ path next tail found _ closes =>
    cases h
    have := listedPath_length found
    simp only [List.length_cons] at this ⊢
    omega

end ServerConf.Reader
