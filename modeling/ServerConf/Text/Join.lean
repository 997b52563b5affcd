namespace ServerConf.Text

def joinWith (separator : String) : List String → String
  | [] => ""
  | s :: rest => rest.foldl (fun joined t => joined ++ separator ++ t) s

@[simp] theorem joinWith_nil (separator : String) :
    joinWith separator [] = "" := rfl

@[simp] theorem joinWith_singleton (separator s : String) :
    joinWith separator [s] = s := rfl

theorem append_joinWith_cons
    (separator before s : String) (rest : List String) :
    before ++ joinWith separator (s :: rest) =
      joinWith separator ((before ++ s) :: rest) := by
  simp only [joinWith]
  induction rest generalizing s with
  | nil => rfl
  | cons t rest induction =>
      rw [List.foldl_cons, induction, ← String.append_assoc,
        ← String.append_assoc]
      rfl

theorem joinWith_cons_cons (separator s t : String) (rest : List String) :
    joinWith separator (s :: t :: rest) =
      s ++ separator ++ joinWith separator (t :: rest) := by
  rw [append_joinWith_cons]
  rfl

theorem toList_joinWith (separator : String) (texts : List String) :
    (joinWith separator texts).toList =
      separator.toList.intercalate (texts.map String.toList) := by
  cases texts with
  | nil => simp
  | cons text texts =>
      induction texts generalizing text with
      | nil => simp
      | cons next texts induction =>
          rw [joinWith_cons_cons, String.toList_append, String.toList_append,
            induction next]
          simp [List.intercalate_cons_cons]

end ServerConf.Text
