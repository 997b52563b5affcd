import ServerConf.Rendering.Site

/-!
Where paths lead. It is the same whether a path is followed at once or in two
parts, so what is named from a file may as well be named from the directory that
the file's path names, unless that path names a link. On the way to where a path
leads there are no links.
-/

namespace ServerConf

theorem Text.mem_joinWith
    {separator : String}
    {c : Char}
    (other : c ∉ separator.toList)
    (texts : List String) :
    c ∈ (joinWith separator texts).toList ↔
      ∃ text ∈ texts, c ∈ text.toList := by
  induction texts with
  | nil => simp
  | cons text texts induction =>
      cases texts with
      | nil => simp
      | cons next texts => simp [joinWith_cons_cons, other, induction]

namespace Path

theorem hasNull_iff {p : Path} :
    p.hasNull = true ↔ ∃ part ∈ p.parts, '\x00' ∈ part.toList := by
  obtain ⟨root, parts⟩ := p
  have separated : '\x00' ∉ "/".toList := by decide
  have rooted : '\x00' ∉ root.text.toList := by cases root <;> decide
  rw [hasNull, List.contains_iff_mem, text]
  split
  · rename_i empty
    cases empty
    simp
  · simp [rooted, Text.mem_joinWith separated]

theorem hasNull_eq_false_iff {p : Path} :
    p.hasNull = false ↔ ∀ part ∈ p.parts, '\x00' ∉ part.toList := by
  rw [← Bool.not_eq_true, hasNull_iff]
  simp

theorem climb_append (first second : List String) :
    ∀ above, climb above (first ++ second) =
      climb (climb above first).reverse second := by
  induction first with
  | nil =>
      intro above
      simp [climb]
  | cons part first induction =>
      intro above
      rw [List.cons_append, climb, climb]
      split
      · exact induction _
      · exact induction _

theorem climb_of_not_mem
    {parts : List String}
    (settled : ".." ∉ parts) :
    ∀ above, climb above parts = above.reverse ++ parts := by
  induction parts with
  | nil =>
      intro above
      simp [climb]
  | cons part parts induction =>
      intro above
      rw [List.mem_cons, not_or] at settled
      rw [climb, if_neg (Ne.symm settled.1), induction settled.2]
      simp

theorem mem_of_mem_climb
    {part : String}
    {parts : List String} :
    ∀ {above}, part ∈ climb above parts → part ∈ above ∨ part ∈ parts := by
  induction parts with
  | nil =>
      intro above member
      exact .inl (by simpa [climb] using member)
  | cons next parts induction =>
      intro above member
      rw [climb] at member
      split at member
      · exact (induction member).imp List.mem_of_mem_tail
          (List.mem_cons_of_mem _)
      · rcases induction member with before | behind
        · rcases List.mem_cons.1 before with rfl | before
          · exact .inr List.mem_cons_self
          · exact .inl before
        · exact .inr (List.mem_cons_of_mem _ behind)

end Path

namespace Address

variable {leads : Address → Option Address}

theorem follow_append (first second : List String) :
    ∀ a, follow leads a (first ++ second) =
      follow leads (follow leads a first) second := by
  induction first with
  | nil =>
      intro a
      rfl
  | cons part first induction =>
      intro a
      rw [List.cons_append, follow, follow]
      split
      · exact induction _
      · exact induction _

theorem follow_none (parts : List String) :
    ∀ above : List String, follow (fun _ => none) ⟨above.reverse⟩ parts =
      ⟨Path.climb above parts⟩ := by
  induction parts with
  | nil =>
      intro above
      rfl
  | cons part parts induction =>
      intro above
      rw [follow, Path.climb]
      split
      · rw [← induction, parent, List.dropLast_reverse]
      · rw [← induction, List.reverse_cons]
        rfl

/-- Whatever holds of the components that are followed, and of where links lead,
holds of the components of where this comes to. -/
theorem forall_mem_follow
    {R : String → Prop}
    (leading : ∀ a b, leads a = some b → (∀ part ∈ a.parts, R part) →
      ∀ part ∈ b.parts, R part)
    {parts : List String}
    (own : ∀ part ∈ parts, part ≠ ".." → R part) :
    ∀ {a : Address}, (∀ part ∈ a.parts, R part) →
      ∀ part ∈ (a.follow leads parts).parts, R part := by
  induction parts with
  | nil =>
      intro a here
      exact here
  | cons part parts induction =>
      intro a here
      have behind : ∀ {b : Address}, (∀ part ∈ b.parts, R part) →
          ∀ part ∈ (b.follow leads parts).parts, R part :=
        induction fun next member => own next (List.mem_cons_of_mem _ member)
      rw [follow]
      split
      · exact behind fun next member =>
          here next (List.dropLast_subset _ member)
      · rename_i proper
        have child : ∀ next ∈ (a.child part).parts, R next := by
          intro next member
          rcases List.mem_append.1 member with before | last
          · exact here next before
          · obtain rfl := List.mem_singleton.1 last
            exact own next List.mem_cons_self proper
        apply behind
        cases found : leads (a.child part) with
        | none => exact child
        | some b => exact leading _ b found child

end Address

namespace Links

variable {links : Links} {table : List (Address × Path)} {a b start : Address}

theorem exists_of_leadsIn
    (leading : leadsIn table a = some b) :
    ∃ target, (a, target) ∈ table := by
  induction table with
  | nil => cases leading
  | cons entry table induction =>
      obtain ⟨link, target⟩ := entry
      rw [leadsIn] at leading
      split at leading
      · rename_i same
        exact ⟨target, same ▸ List.mem_cons_self⟩
      · obtain ⟨other, member⟩ := induction leading
        exact ⟨other, List.mem_cons_of_mem _ member⟩

theorem forall_mem_of_leadsIn
    {R : String → Prop}
    (targets : ∀ entry ∈ table, ∀ part ∈ entry.2.parts, part ≠ ".." → R part)
    (leading : leadsIn table a = some b)
    (here : ∀ part ∈ a.parts, R part) :
    ∀ part ∈ b.parts, R part := by
  induction table generalizing a b with
  | nil => cases leading
  | cons entry table induction =>
      obtain ⟨link, target⟩ := entry
      have later := fun next member =>
        targets next (List.mem_cons_of_mem _ member)
      rw [leadsIn] at leading
      split at leading
      · cases leading
        refine Address.forall_mem_follow (fun a b leading =>
          induction later leading) (targets _ List.mem_cons_self) ?_
        rw [Path.linkStart]
        split
        · simp
        · exact fun part member => here part (List.dropLast_subset _ member)
      · exact induction later leading here

theorem forall_mem_resolve
    {R : String → Prop}
    {p : Path}
    (targets : ∀ entry ∈ links.table, ∀ part ∈ entry.2.parts,
      part ≠ ".." → R part)
    (before : ∀ part ∈ start.parts, part ≠ ".." → R part)
    (own : ∀ part ∈ p.parts, part ≠ ".." → R part) :
    ∀ part ∈ (links.resolve p start).parts, R part := by
  apply Address.forall_mem_follow
  · exact fun a b leading here => forall_mem_of_leadsIn targets leading here
  · intro part member
    rcases List.mem_append.1 member with first | second
    · split at first
      · cases first
      · exact before part first
    · exact own part second
  · simp

theorem not_mem_resolve (links : Links) (p : Path) (start : Address) :
    ".." ∉ (links.resolve p start).parts := by
  have proper : ∀ part ∈ (links.resolve p start).parts, part ≠ ".." :=
    forall_mem_resolve (fun _ _ _ _ proper => proper)
      (fun _ _ proper => proper) fun _ _ proper => proper
  exact fun member => proper _ member rfl

theorem resolve_none (p : Path) (start : Address) :
    Links.none.resolve p start = p.resolve start :=
  Address.follow_none _ []

theorem isClear_iff :
    isClear table a = true ↔
      ∀ n < a.parts.length, leadsIn table ⟨a.parts.take (n + 1)⟩ = none := by
  simp [isClear]

theorem isClear_parent
    (clear : isClear table a = true) :
    isClear table a.parent = true := by
  rw [isClear_iff] at clear ⊢
  intro n less
  rw [Address.parent, List.length_dropLast] at less
  have short : n + 1 ≤ a.parts.length - 1 := less
  rw [Address.parent, List.dropLast_eq_take, List.take_take,
    Nat.min_eq_left short]
  exact clear n (by omega)

theorem isClear_child
    (clear : isClear table a = true)
    {part : String}
    (free : leadsIn table (a.child part) = none) :
    isClear table (a.child part) = true := by
  rw [isClear_iff] at clear ⊢
  intro n less
  rw [Address.child, List.length_append, List.length_singleton] at less
  rcases Nat.lt_succ_iff_lt_or_eq.1 less with within | rfl
  · rw [Address.child, List.take_append_of_le_length within]
    exact clear n within
  · rw [List.take_of_length_le (by simp [Address.child])]
    exact free

theorem isClear_of_leads
    (leading : links.leads a = some b) :
    isClear links.table b = true := by
  obtain ⟨target, member⟩ := exists_of_leadsIn leading
  have settled := List.all_eq_true.1 links.settled _ member
  rw [leads] at leading
  dsimp only at settled
  rwa [leading] at settled

theorem isClear_follow (links : Links) (parts : List String) :
    ∀ {a : Address}, isClear links.table a = true →
      isClear links.table (a.follow links.leads parts) = true := by
  induction parts with
  | nil =>
      intro a clear
      exact clear
  | cons part parts induction =>
      intro a clear
      rw [Address.follow]
      split
      · exact induction (isClear_parent clear)
      · apply induction
        cases found : links.leads (a.child part) with
        | none => exact isClear_child clear found
        | some b => exact isClear_of_leads found

theorem isClear_resolve (links : Links) (p : Path) (start : Address) :
    isClear links.table (links.resolve p start) = true :=
  isClear_follow links _ rfl

theorem leadsIn_of_isClear
    {before after : List String}
    {part : String}
    (clear : isClear table ⟨before ++ part :: after⟩ = true) :
    leadsIn table ⟨before ++ [part]⟩ = none := by
  have here := isClear_iff.1 clear before.length (by simp)
  rwa [List.take_append, List.take_of_length_le (Nat.le_succ _),
    Nat.add_sub_cancel_left] at here

theorem follow_of_isClear
    {before after : List String}
    (clear : isClear links.table ⟨before ++ after⟩ = true)
    (proper : ".." ∉ after) :
    Address.follow links.leads ⟨before⟩ after = ⟨before ++ after⟩ := by
  induction after generalizing before with
  | nil => simp [Address.follow]
  | cons part after induction =>
      rw [List.mem_cons, not_or] at proper
      have free : links.leads (Address.child ⟨before⟩ part) = none :=
        leadsIn_of_isClear clear
      rw [Address.follow, if_neg (Ne.symm proper.1), free]
      have behind :
          isClear links.table ⟨(before ++ [part]) ++ after⟩ = true := by
        rwa [List.append_assoc]
      have rest := induction behind proper.2
      rwa [List.append_assoc] at rest

theorem follow_resolve (links : Links) (p : Path) (start : Address) :
    Address.follow links.leads ⟨[]⟩ (links.resolve p start).parts =
      links.resolve p start := by
  have clear :
      isClear links.table ⟨[] ++ (links.resolve p start).parts⟩ = true :=
    links.isClear_resolve p start
  exact follow_of_isClear clear (links.not_mem_resolve p start)

variable {p : Path}

theorem resolve_toPath_join (p q : Path) :
    links.resolve ((links.resolve p start).toPath.join q) start =
      links.resolve (p.join q) start := by
  rw [Path.join, Path.join]
  split
  · rfl
  · have rooted : links.resolve
        ⟨.single, (links.resolve p start).parts ++ q.parts⟩ start =
        Address.follow links.leads ⟨[]⟩
          ((links.resolve p start).parts ++ q.parts) := rfl
    refine rooted.trans ?_
    rw [Address.follow_append, follow_resolve, resolve, ← Address.follow_append,
      List.append_assoc]
    rfl

theorem hasNull_toPath_join
    (named : p.hasNull = false)
    (startNamed : start.toPath.hasNull = false)
    (q : Path) :
    ((links.resolve p start).toPath.join q).hasNull = (p.join q).hasNull := by
  rw [Path.hasNull_eq_false_iff] at named startNamed
  have resolved : ∀ part ∈ (links.resolve p start).parts,
      '\x00' ∉ part.toList := by
    apply forall_mem_resolve
    · intro entry member part inside _
      have targetNamed := List.all_eq_true.1 links.named entry member
      rw [Bool.not_eq_true'] at targetNamed
      exact Path.hasNull_eq_false_iff.1 targetNamed part inside
    · exact fun part member _ => startNamed part member
    · exact fun part member _ => named part member
  rw [Path.join, Path.join]
  split
  · rfl
  · apply Bool.eq_iff_iff.2
    rw [Path.hasNull_iff, Path.hasNull_iff]
    refine exists_congr fun part => and_congr_left fun null => ?_
    have left : part ∉ (links.resolve p start).toPath.parts :=
      fun member => resolved part member null
    have right : part ∉ p.parts := fun member => named part member null
    simp [left, right]

end Links

namespace Path

variable {links : Links} {p : Path} {start : Address}

theorem not_mem_of_resolve?
    {a : Address}
    (resolved : p.resolve? start links = .ok a) :
    ".." ∉ a.parts := by
  rw [resolve?] at resolved
  split at resolved
  · cases resolved
  · cases resolved
    exact links.not_mem_resolve p start

theorem resolve?_toPath_join
    (named : p.hasNull = false)
    (startNamed : start.toPath.hasNull = false)
    (q : Path) :
    ((links.resolve p start).toPath.join q).resolve? start links =
      (p.join q).resolve? start links := by
  rw [resolve?, resolve?, Links.hasNull_toPath_join named startNamed,
    Links.resolve_toPath_join]

def EndsInName (p : Path) : Prop :=
  ∃ before name, p.parts = before ++ [name] ∧ name ≠ ".."

theorem EndsInName.parent_resolve
    (ends : p.EndsInName)
    (own : links.names p start = false) :
    (links.resolve p start).parent = links.resolve p.parent start := by
  obtain ⟨root, parts⟩ := p
  obtain ⟨before, name, rfl, proper⟩ := ends
  have above : Path.parent ⟨root, before ++ [name]⟩ = ⟨root, before⟩ := by
    simp [Path.parent]
  have last : Path.name ⟨root, before ++ [name]⟩ = name := by
    simp [Path.name]
  rw [Links.names, above, last, Option.isSome_eq_false_iff,
    Option.isNone_iff_eq_none] at own
  rw [above]
  have whole : links.resolve ⟨root, before ++ [name]⟩ start =
      (links.resolve ⟨root, before⟩ start).follow links.leads [name] := by
    rw [Links.resolve, Links.resolve, ← Address.follow_append,
      List.append_assoc]
    rfl
  rw [whole, Address.follow, if_neg proper, own]
  simp [Address.follow, Address.parent, Address.child]

theorem hasNull_parent (named : p.hasNull = false) :
    p.parent.hasNull = false := by
  rw [hasNull_eq_false_iff] at named ⊢
  exact fun part member => named part (List.dropLast_subset _ member)

end Path

namespace FileStore

variable {s : FileStore} {bytes : ByteArray}

theorem exists_name_of_walk
    {reach : Address → Option (Except FaultKind (Address × Entry))}
    {parts : List String}
    {found : Address} :
    ∀ {directory}, s.walk reach directory parts = .ok (found, .file bytes) →
      ∃ before name, parts = before ++ [name] ∧ name ≠ ".." := by
  induction parts with
  | nil =>
      intro directory walked
      cases walked
  | cons part rest induction =>
      intro directory walked
      have longer : (∃ before name, rest = before ++ [name] ∧ name ≠ "..") →
          ∃ before name, part :: rest = before ++ [name] ∧ name ≠ ".." := by
        rintro ⟨before, name, rfl, proper⟩
        exact ⟨part :: before, name, rfl, proper⟩
      rw [walk] at walked
      split at walked
      · exact longer (induction walked)
      · rename_i proper
        split at walked
        · cases walked
        · dsimp only at walked
          split at walked
          · cases walked
          · exact longer (induction walked)
          · split at walked
            · rename_i last
              exact ⟨[], part, by rw [List.isEmpty_iff.1 last]; rfl, proper⟩
            · cases walked

theorem endsInName_of_find?
    {p : Path}
    {links : Links}
    (file : s.find? p links = .ok (some (.file bytes))) :
    p.EndsInName := by
  rw [find?] at file
  split at file
  · cases file
  · split at file
    · rename_i walked
      cases file
      rw [lookup] at walked
      split at walked
      · cases walked
      · exact exists_name_of_walk walked
    · cases file
    · cases file

theorem reachIn_eq_none
    {table : List (Address × Path)}
    {a : Address}
    (free : Links.leadsIn table a = none) :
    s.reachIn table a = none := by
  induction table with
  | nil => rfl
  | cons entry table induction =>
      obtain ⟨link, target⟩ := entry
      rw [Links.leadsIn] at free
      split at free
      · cases free
      · rename_i other
        rw [reachIn, if_neg other]
        exact induction free

theorem walk_of_isClear
    {table : List (Address × Path)}
    {before after : List String}
    (clear : Links.isClear table ⟨before ++ after⟩ = true)
    (proper : ".." ∉ after) :
    s.walk (s.reachIn table) before after =
      s.walk (s.reachIn []) before after := by
  induction after generalizing before with
  | nil => rfl
  | cons part after induction =>
      rw [List.mem_cons, not_or] at proper
      have free := s.reachIn_eq_none (Links.leadsIn_of_isClear clear)
      have behind :
          Links.isClear table ⟨(before ++ [part]) ++ after⟩ = true := by
        rwa [List.append_assoc]
      have same := induction behind proper.2
      rw [walk, walk, if_neg (Ne.symm proper.1), if_neg (Ne.symm proper.1)]
      dsimp only
      rw [free, reachIn]
      cases stands : s.entryAt ⟨before ++ [part]⟩ with
      | error kind => simp only [Option.getD_none]
      | ok found =>
          obtain ⟨a, entry⟩ := found
          obtain ⟨rfl, _⟩ := eq_of_entryAt stands
          cases entry <;> simp only [Option.getD_none, same]

/-- Where a path leads, links make no difference any more, so what stands there
may be looked up without them. -/
theorem find?_resolve
    (s : FileStore) (links : Links) (p : Path) (start : Address) :
    s.find? (links.resolve p start).toPath links =
      s.find? (links.resolve p start).toPath := by
  have walks : s.walk (s.reachIn links.table) [] (links.resolve p start).parts =
      s.walk (s.reachIn []) [] (links.resolve p start).parts :=
    walk_of_isClear (links.isClear_resolve p start)
      (links.not_mem_resolve p start)
  have found : s.lookup (links.resolve p start).toPath links =
      s.lookup (links.resolve p start).toPath := by
    rw [lookup, lookup]
    split
    · rfl
    · exact walks
  rw [find?, find?, found]

end FileStore

end ServerConf
