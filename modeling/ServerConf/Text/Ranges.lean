namespace ServerConf.Text

abbrev Ranges := List (Nat × Nat)

/-- Looks no further than the first range that starts above the code point. -/
def Ranges.contains : Ranges → Nat → Bool
  | [], _ => false
  | (low, high) :: rest, n =>
    if n < low then false
    else if n ≤ high then true
    else Ranges.contains rest n

@[simp] theorem Ranges.contains_nil (n : Nat) :
    Ranges.contains [] n = false := rfl

theorem Ranges.contains_cons (low high n : Nat) (rest : Ranges) :
    Ranges.contains ((low, high) :: rest) n =
      if n < low then false
      else if n ≤ high then true
      else Ranges.contains rest n := rfl

end ServerConf.Text
