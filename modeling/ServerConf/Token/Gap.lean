import ServerConf.Text.Blank

namespace ServerConf.Gap

/-- Splits off the gap a text begins with; `comment` says whether the text
begins inside one. -/
def splitFrom (comment : Bool) : List Char → List Char × List Char
  | [] => ([], [])
  | c :: rest =>
    if comment || Text.isBlank c || c == '#' then
      let after := splitFrom (if comment then c != '\n' else c == '#') rest
      (c :: after.1, after.2)
    else
      ([], c :: rest)

def split (cs : List Char) : List Char × List Char :=
  splitFrom false cs

theorem splitFrom_append (comment : Bool) (cs : List Char) :
    (splitFrom comment cs).1 ++ (splitFrom comment cs).2 = cs := by
  induction cs generalizing comment with
  | nil => rfl
  | cons c rest ih =>
    simp only [splitFrom]
    split
    · simp [ih]
    · rfl

theorem split_append (cs : List Char) : (split cs).1 ++ (split cs).2 = cs :=
  splitFrom_append false cs

theorem split_rest_length_le (cs : List Char) :
    (split cs).2.length ≤ cs.length := by
  have whole := congrArg List.length (split_append cs)
  simp only [List.length_append] at whole
  omega

end ServerConf.Gap
