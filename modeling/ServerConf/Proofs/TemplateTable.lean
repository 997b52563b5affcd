import ServerConf.Proofs.StatementTrees

/-!
What a table of templates holds: of each name the definition that was collected
last.
-/

namespace ServerConf

theorem lookup_cons_eq_ite
    {α : Type} (name key : String) (value : α) (rest : List (String × α)) :
    ((key, value) :: rest).lookup name = if name = key then some value
      else rest.lookup name := by
  by_cases same : name = key
  · simp [same]
  · simp [List.lookup_cons, beq_false_of_ne same, same]

namespace Templates

theorem get?_insert
    (table : Templates) (name other : String) (body : List Statement) :
    (table.insert name body).get? other = if other = name then some body
      else table.get? other := by
  obtain ⟨entries⟩ := table
  simp only [insert, get?]
  induction entries with
  | nil => simp [setEntry, lookup_cons_eq_ite]
  | cons entry entries induction =>
      obtain ⟨key, old⟩ := entry
      by_cases same : key = name
      · subst same
        by_cases here :
          other = key <;> simp [setEntry, lookup_cons_eq_ite, here]
      · by_cases here : other = key
        · simp [setEntry, same, here]
        · simp [setEntry, lookup_cons_eq_ite, same, here, induction]

theorem get?_insertAll
    (table : Templates) (definitions : List (String × List Statement))
    (name : String) :
    (table.insertAll definitions).get? name =
      (definitions.reverse.lookup name).or (table.get? name) := by
  induction definitions generalizing table with
  | nil => simp [insertAll]
  | cons definition definitions induction =>
      obtain ⟨key, body⟩ := definition
      have later := induction (table.insert key body)
      rw [get?_insert] at later
      rw [List.reverse_cons, List.lookup_append, Option.or_assoc]
      refine later.trans (congrArg _ ?_)
      by_cases same : name = key <;> simp [lookup_cons_eq_ite, same]

end Templates

theorem mem_of_lookup
    {name : String} {body : List Statement}
    {definitions : List (String × List Statement)}
    (found : definitions.reverse.lookup name = some body) :
    (name, body) ∈ definitions := by
  obtain ⟨before, after, same, _⟩ := List.lookup_eq_some_iff.1 found
  rw [← List.mem_reverse, same]
  simp

/-- The body of the last definition that is collected. -/
def lastDefinition (ss : List Statement) (name : String) :
    Option (List Statement) :=
  (collectedIn ss).reverse.lookup name

theorem mem_collectedIn_of_lastDefinition
    {ss body : List Statement} {name : String}
    (found : lastDefinition ss name = some body) :
    (name, body) ∈ collectedIn ss :=
  mem_of_lookup found

namespace Templates

theorem get?_collect (ss : List Statement) (name : String) :
    (Templates.collect {} ss).get? name = lastDefinition ss name := by
  rw [collect, get?_insertAll, lastDefinition]
  simp [get?]

theorem mem_of_get?_collect
    {table : Templates} {ss body : List Statement} {name : String}
    (found : (table.collect ss).get? name = some body) :
    (name, body) ∈ collectedIn ss ∨ table.get? name = some body := by
  rw [collect, get?_insertAll, Option.or_eq_some_iff] at found
  rcases found with found | ⟨_, before⟩
  · exact .inl (mem_of_lookup found)
  · exact .inr before

end Templates

end ServerConf
