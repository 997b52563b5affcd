import ServerConf.Files.Change

/-!
What changes of the files do to them. Directories are made where nothing stood,
a file is written at the address that its path leads to, and everything else
stays.
-/

namespace ServerConf

structure Meets
    {σ α : Type} (x : ExceptT Failure (StateM σ) α) (s : σ)
    (returns : α → σ → Prop) (fails : Failure → σ → Prop) :
    Prop where
  ok : ∀ a t, x.run.run s = (.ok a, t) → returns a t
  error : ∀ f t, x.run.run s = (.error f, t) → fails f t

namespace Meets

variable {σ α β : Type} {s : σ} {P : α → σ → Prop} {Q : β → σ → Prop}
  {F : Failure → σ → Prop}

theorem of_pure {a : α} (fits : P a s) : Meets (pure a) s P F where
  ok := by
    intro b t same
    cases same
    exact fits
  error := by
    intro f t same
    cases same

theorem of_throw {f : Failure} (fits : F f s) : Meets (throw f) s P F where
  ok := by
    intro a t same
    cases same
  error := by
    intro g t same
    cases same
    exact fits

theorem of_modify {g : σ → σ} {P : PUnit → σ → Prop} (fits : P ⟨⟩ (g s)) :
    Meets (modify g) s P F where
  ok := by
    intro a t same
    cases same
    exact fits
  error := by
    intro f t same
    cases same

theorem bind
    {x : ExceptT Failure (StateM σ) α} {f : α → ExceptT Failure (StateM σ) β}
    (first : Meets x s P F)
    (next : ∀ a t, P a t → Meets (f a) t Q F) :
    Meets (x >>= f) s Q F := by
  cases passed : x.run.run s with
  | mk result t =>
      cases result with
      | ok a =>
          have same : (x >>= f).run.run s = (f a).run.run t := by
            rw [ExceptT.run_bind, StateT.run_bind, passed]
            rfl
          have further := next a t (first.ok a t passed)
          exact ⟨same ▸ further.ok, same ▸ further.error⟩
      | error failure =>
          have same : (x >>= f).run.run s = (.error failure, t) := by
            rw [ExceptT.run_bind, StateT.run_bind, passed]
            rfl
          refine ⟨?_, ?_⟩
          · intro b u ended
            cases same.symm.trans ended
          · intro g u ended
            cases same.symm.trans ended
            exact first.error failure t passed

theorem of_get {f : σ → ExceptT Failure (StateM σ) β}
    (next : Meets (f s) s Q F) :
    Meets (get >>= f) s Q F :=
  ⟨next.ok, next.error⟩

theorem mono
    {x : ExceptT Failure (StateM σ) α} {P' : α → σ → Prop}
    {F' : Failure → σ → Prop}
    (meets : Meets x s P F)
    (returns : ∀ a t, P a t → P' a t)
    (fails : ∀ f t, F f t → F' f t) :
    Meets x s P' F' :=
  ⟨fun a t ended => returns a t (meets.ok a t ended),
    fun f t ended => fails f t (meets.error f t ended)⟩

theorem of_set {t : σ} {P : PUnit → σ → Prop} (fits : P ⟨⟩ t) :
    Meets (set t) s P F where
  ok := by
    intro a u same
    cases same
    exact fits
  error := by
    intro f u same
    cases same

end Meets

namespace FileStore

variable {s t u : FileStore} {a b : Address} {e : Entry}

theorem lookup_insertInto (entries : List (Address × Entry)) :
    (insertInto a e entries).lookup b = if b = a then some e
      else entries.lookup b := by
  induction entries with
  | nil =>
      by_cases same : b = a
      · simp [insertInto, same]
      · simp [insertInto, List.lookup_cons, same, beq_false_of_ne same]
  | cons entry entries induction =>
      obtain ⟨c, f⟩ := entry
      by_cases here : c = a
      · by_cases same : b = a
        · simp [insertInto, here, same]
        · simp [insertInto, List.lookup_cons, here, same, beq_false_of_ne same]
      · by_cases there : b = c
        · simp [insertInto, there, here]
        · simp [insertInto, List.lookup_cons, beq_false_of_ne there, here,
            induction]

theorem get?_insert (named : a.parts ≠ []) (b : Address) :
    (s.insert a e).get? b = if b = a then some e else s.get? b := by
  by_cases root : b.parts = []
  · have other : b ≠ a := fun same => named (same ▸ root)
    simp [get?, root, other]
  · simp [get?, root, insert, lookup_insertInto]

def Keeps (before after : FileStore) (a : Address) : Prop :=
  after.get? a = before.get? a ∨ before.get? a = none ∧
    after.get? a = some .directory

theorem Keeps.refl (s : FileStore) (a : Address) : s.Keeps s a :=
  .inl rfl

theorem Keeps.trans
    (first : s.Keeps t a)
    (second : t.Keeps u a) :
    s.Keeps u a := by
  cases first with
  | inl same =>
      rw [Keeps, ← same]
      exact second
  | inr made =>
      cases second with
      | inl same => exact .inr ⟨made.1, same.trans made.2⟩
      | inr other => cases made.2.symm.trans other.1

theorem keeps_makeDirectory {p : Path}
    (made : s.makeDirectory p = .ok t)
    (a : Address) :
    s.Keeps t a := by
  rw [makeDirectory] at made
  split at made
  · cases made
  · split at made
    · cases made
    · rename_i directory name _
      split at made
      · cases made
      · split at made
        · cases made
        · rename_i free
          cases made
          have named : (directory.child name).parts ≠ [] := by
            simp [Address.child]
          rw [Keeps, get?_insert named]
          by_cases same : a = directory.child name
          · exact .inr ⟨same ▸ free, if_pos same⟩
          · exact .inl (if_neg same)

theorem target_address
    (settled : ".." ∉ a.parts)
    (named : a.parts ≠ [])
    {name : String}
    (found : s.target a.toPath = .ok (b, name)) :
    b.child name = a := by
  rw [target] at found
  split at found
  · cases found
  · split at found
    · cases found
    · cases found
    · rename_i looked
      split at found
      · cases found
      · cases found
        rw [lookup] at looked
        split at looked
        · cases looked
        · have above : ".." ∉ a.toPath.parent.parts :=
            fun member => settled ((List.dropLast_subset _) member)
          rw [(walk_settled above looked).1]
          change Address.mk (a.parts.dropLast ++ [a.parts.getLastD ""]) = a
          rw [List.getLastD_eq_getLast?, List.getLast?_eq_some_getLast named]
          exact congrArg Address.mk (List.dropLast_concat_getLast named)

end FileStore

namespace Change

open FileStore

variable {a : Address}

def MakesDirectories {α : Type} (change : Change α) : Prop :=
  ∀ s,
    Meets change s (fun _ t => ∀ a, s.Keeps t a) (fun _ t => ∀ a, s.Keeps t a)

theorem MakesDirectories.bind
    {α β : Type} {first : Change α} {next : α → Change β}
    (makes : MakesDirectories first)
    (further : ∀ a, MakesDirectories (next a)) :
    MakesDirectories (first >>= next) := by
  intro s
  apply (makes s).bind
  intro a t kept
  apply (further a t).mono
  · intro b u more address
    exact (kept address).trans (more address)
  · intro f u more address
    exact (kept address).trans (more address)

theorem ensureDirectory_makes (p : Path) :
    MakesDirectories (ensureDirectory p) := by
  intro s
  apply Meets.of_get
  cases made : s.makeDirectory p with
  | ok t => exact .of_set (keeps_makeDirectory made)
  | error kind =>
      dsimp only
      split
      · exact .of_throw (Keeps.refl s)
      · exact .of_pure (Keeps.refl s)

theorem ensureDirectoriesFrom_makes (root : Root) (parts : List String) :
    MakesDirectories (ensureDirectoriesFrom root parts) := by
  induction parts with
  | nil => exact fun s => .of_pure (Keeps.refl s)
  | cons part above induction =>
      intro s
      apply Meets.of_get
      dsimp only
      split
      · exact induction.bind (fun _ => ensureDirectory_makes _) s
      · exact ensureDirectory_makes _ s

theorem ensureDirectories_makes (p : Path) :
    MakesDirectories (ensureDirectories p) := by
  intro s
  rw [ensureDirectories]
  split
  · exact .of_throw (Keeps.refl s)
  · exact ensureDirectoriesFrom_makes p.root p.parts.reverse s

theorem write_meets
    (settled : ".." ∉ a.parts)
    (bytes : ByteArray) (s : FileStore) :
    Meets (write a.toPath bytes) s
      (fun _ t => t.get? a = some (.file bytes) ∧ ∀ b, b ≠ a →
        t.get? b = s.get? b)
      (fun _ t => t = s) := by
  rw [write]
  by_cases null : a.toPath.hasNull = true
  · rw [if_pos null]
    exact .of_throw rfl
  · rw [if_neg null]
    by_cases root : a.parts = []
    · rw [if_pos (by simpa [Address.toPath] using root)]
      exact .of_throw rfl
    · rw [if_neg (by simpa [Address.toPath] using root)]
      apply Meets.of_get
      cases found : s.target a.toPath with
      | error kind => exact .of_throw rfl
      | ok place =>
          obtain ⟨directory, name⟩ := place
          dsimp only
          rw [target_address settled root found]
          split
          · exact .of_throw rfl
          · apply Meets.of_set
            refine ⟨by simp [get?_insert root], ?_⟩
            intro b other
            simp [get?_insert root, other]

theorem put_meets
    (settled : ".." ∉ a.parts)
    (bytes : ByteArray) (s : FileStore) :
    Meets (put a.toPath bytes) s
      (fun _ t => t.get? a = some (.file bytes) ∧ ∀ b, b ≠ a → s.Keeps t b)
      (fun _ t => ∀ b, s.Keeps t b) := by
  apply (ensureDirectories_makes a.toPath.parent s).bind
  intro _ t kept
  apply (write_meets settled bytes t).mono
  · intro _ u written
    refine ⟨written.1, ?_⟩
    intro b other
    exact (kept b).trans (.inl (written.2 b other))
  · intro f u same
    rw [same]
    exact kept

end Change

end ServerConf
