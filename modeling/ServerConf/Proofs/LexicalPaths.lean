import Mathlib.Logic.Basic
import Mathlib.Logic.Relation
import ServerConf.Proofs.Addresses

/-!
The spellings of a place. What does not lead anywhere may be left out of a way
from the root, and so may a component that the next one takes back. Two ways
that come to the same in this manner are those that lead to the same address.
The text of an address has nothing in it that could be left out, and wherever it
is read it leads to that address.
-/

namespace ServerConf

namespace Path

theorem splitSlash_cons_of_ne {c : Char} (other : c ≠ '/') (text : List Char) :
    ∃ part parts, splitSlash text = part :: parts ∧
      splitSlash (c :: text) = (c :: part) :: parts := by
  rw [splitSlash, if_neg other]
  cases split : splitSlash text with
  | nil =>
      cases text with
      | nil => cases split
      | cons d text =>
          rw [splitSlash] at split
          split at split
          · cases split
          · split at split <;> cases split
  | cons part parts => exact ⟨part, parts, rfl, rfl⟩

theorem splitSlash_eq_splitOn (text : List Char) :
    splitSlash text = text.splitOn '/' := by
  induction text with
  | nil => rfl
  | cons c text induction =>
      rw [List.splitOn_cons_eq_if_modifyHead, ← induction]
      by_cases slash : c = '/'
      · rw [splitSlash, if_pos slash, if_pos (by simpa using slash)]
      · obtain ⟨part, parts, behind, whole⟩ := splitSlash_cons_of_ne slash text
        rw [whole, behind, if_neg (by simpa using slash)]
        rfl

theorem slash_not_mem_of_mem_splitSlash {text : List Char} :
    ∀ part ∈ splitSlash text, '/' ∉ part := by
  induction text with
  | nil => simp [splitSlash]
  | cons c text induction =>
      by_cases slash : c = '/'
      · rw [splitSlash, if_pos slash]
        exact List.forall_mem_cons.2 ⟨List.not_mem_nil, induction⟩
      · obtain ⟨part, parts, behind, whole⟩ := splitSlash_cons_of_ne slash text
        rw [behind] at induction
        obtain ⟨first, others⟩ := List.forall_mem_cons.1 induction
        rw [whole]
        refine List.forall_mem_cons.2 ⟨?_, others⟩
        rw [List.mem_cons, not_or]
        exact ⟨Ne.symm slash, first⟩

theorem mem_splitSlash {c : Char} (other : c ≠ '/') (text : List Char) :
    (∃ part ∈ splitSlash text, c ∈ part) ↔ c ∈ text := by
  induction text with
  | nil => simp [splitSlash]
  | cons d text induction =>
      by_cases slash : d = '/'
      · rw [splitSlash, if_pos slash, List.mem_cons,
          or_iff_right (slash ▸ other), ← induction]
        simp
      · obtain ⟨part, parts, behind, whole⟩ := splitSlash_cons_of_ne slash text
        rw [behind] at induction
        rw [whole, List.mem_cons, ← induction]
        simp [or_assoc]

def leads (part : String) : Bool :=
  isComponent part.toList

theorem leads_iff {part : String} :
    leads part = true ↔ part ≠ "" ∧ part ≠ "." := by
  rw [leads, isComponent, Bool.and_eq_true, bne_iff_ne, bne_iff_ne, ne_eq,
    ne_eq, ne_eq, ne_eq, ← String.toList_inj, ← String.toList_inj]
  rfl

def IsRead (p : Path) : Prop :=
  ∀ part ∈ p.parts, leads part = true ∧ '/' ∉ part.toList

theorem ofString_isRead (text : String) : (ofString text).IsRead := by
  intro part member
  obtain ⟨chars, among, rfl⟩ := List.mem_map.1 member
  obtain ⟨among, component⟩ := List.mem_filter.1 among
  rw [leads, String.toList_ofList]
  exact ⟨component, slash_not_mem_of_mem_splitSlash chars among⟩

theorem hasNull_ofString {text : String} :
    (ofString text).hasNull = true ↔ '\x00' ∈ text.toList := by
  rw [hasNull_iff, ← mem_splitSlash (by decide) text.toList]
  constructor
  · rintro ⟨part, member, null⟩
    obtain ⟨chars, among, rfl⟩ := List.mem_map.1 member
    rw [String.toList_ofList] at null
    exact ⟨chars, (List.mem_filter.1 among).1, null⟩
  · rintro ⟨chars, among, null⟩
    have component : isComponent chars = true := by
      rw [isComponent, Bool.and_eq_true, bne_iff_ne, bne_iff_ne]
      constructor
      · rintro rfl
        cases null
      · rintro rfl
        exact absurd null (by decide)
    refine ⟨String.ofList chars,
      List.mem_map_of_mem (List.mem_filter.2 ⟨among, component⟩), ?_⟩
    rwa [String.toList_ofList]

/-- The components as they are spelled, the empty ones and `.` among them. -/
def spelled (text : String) : List String :=
  (splitSlash text.toList).map String.ofList

/-- Something is left out of a way from the root: an empty component or `.`, a
name and the `..` behind it, or a `..` at the root. -/
inductive Simplifies : List String → List String → Prop where
  | empty {before after : List String} :
      Simplifies (before ++ "" :: after) (before ++ after)
  | here {before after : List String} :
      Simplifies (before ++ "." :: after) (before ++ after)
  | back {before after : List String} {name : String} :
      name ∉ ["", ".", ".."] →
      Simplifies (before ++ name :: ".." :: after) (before ++ after)
  | top {after : List String} : Simplifies (".." :: after) after

/-- The ways are the same once enough is left out of either. -/
def SamePlace : List String → List String → Prop :=
  Relation.Join (Relation.ReflTransGen Simplifies)

end Path

def Address.ofWay (way : List String) : Address :=
  ⟨Path.climb [] (way.filter Path.leads)⟩

namespace Path

theorem parts_ofString (text : String) :
    (ofString text).parts = (spelled text).filter leads := by
  have same : leads ∘ String.ofList = isComponent :=
    funext fun chars => congrArg isComponent String.toList_ofList
  rw [spelled, List.filter_map, same]
  rfl

theorem climb_back {name : String}
    (proper : name ≠ "..")
    (above after : List String) :
    climb above (name :: ".." :: after) = climb above after := by
  rw [climb, if_neg proper, climb, if_pos rfl, List.tail_cons]

theorem Simplifies.ofWay_eq {way shorter : List String}
    (step : Simplifies way shorter) :
    Address.ofWay way = Address.ofWay shorter := by
  have without : ∀ part, leads part = false → ∀ before after : List String,
      (before ++ part :: after).filter leads =
        (before ++ after).filter leads := by
    intro part nothing before after
    rw [List.filter_append, List.filter_cons_of_neg (by simp [nothing]),
      List.filter_append]
  cases step with
  | empty => rw [Address.ofWay, without "" (by decide), ← Address.ofWay]
  | here => rw [Address.ofWay, without "." (by decide), ← Address.ofWay]
  | @back before after name other =>
      simp only [List.mem_cons, List.not_mem_nil, or_false, not_or] at other
      have named : leads name = true := leads_iff.2 ⟨other.1, other.2.1⟩
      have up : leads ".." = true := by decide
      rw [Address.ofWay, Address.ofWay, List.filter_append, List.filter_append,
        List.filter_cons_of_pos named, List.filter_cons_of_pos up, climb_append,
        climb_back other.2.2, ← climb_append]
  | top =>
      have up : leads ".." = true := by decide
      rw [Address.ofWay, List.filter_cons_of_pos up, climb, if_pos rfl]
      rfl

theorem simplifies_climb (parts : List String) :
    ∀ above : List String, (∀ name ∈ above, name ∉ ["", ".", ".."]) →
      Relation.ReflTransGen Simplifies (above.reverse ++ parts)
        (climb above (parts.filter leads)) := by
  induction parts with
  | nil =>
      intro above _
      rw [List.append_nil, List.filter_nil, climb]
  | cons part parts induction =>
      intro above names
      by_cases component : leads part = true
      · rw [List.filter_cons_of_pos component, climb]
        split
        · rename_i up
          subst up
          cases above with
          | nil => exact .head .top (induction [] (by simp))
          | cons name above =>
              obtain ⟨proper, others⟩ := List.forall_mem_cons.1 names
              rw [List.reverse_cons, List.append_assoc]
              exact .head (.back proper) (induction above others)
        · rename_i forward
          obtain ⟨some, other⟩ := leads_iff.1 component
          have further := induction (part :: above)
            (List.forall_mem_cons.2 ⟨by simp [some, other, forward], names⟩)
          rwa [List.reverse_cons, List.append_assoc] at further
      · rw [List.filter_cons_of_neg component]
        refine .head ?_ (induction above names)
        rw [leads_iff, not_and_or, not_ne_iff, not_ne_iff] at component
        rcases component with rfl | rfl
        · exact .empty
        · exact .here

theorem ofWay_eq_of_simplifies {way shorter : List String}
    (steps : Relation.ReflTransGen Simplifies way shorter) :
    Address.ofWay way = Address.ofWay shorter := by
  induction steps with
  | refl => rfl
  | tail _ step induction => exact induction.trans step.ofWay_eq

theorem samePlace_iff {first second : List String} :
    SamePlace first second ↔ Address.ofWay first = Address.ofWay second := by
  constructor
  · rintro ⟨common, left, right⟩
    exact (ofWay_eq_of_simplifies left).trans
      (ofWay_eq_of_simplifies right).symm
  · intro same
    refine ⟨(Address.ofWay first).parts,
      simplifies_climb first [] (by simp), ?_⟩
    rw [same]
    exact simplifies_climb second [] (by simp)

structure IsName (part : String) : Prop where
  component : leads part = true
  forward : part ≠ ".."
  whole : '/' ∉ part.toList
  named : '\x00' ∉ part.toList

instance : DecidablePred IsName := fun part =>
  decidable_of_iff
    (leads part = true ∧ part ≠ ".." ∧ '/' ∉ part.toList ∧ '\x00' ∉ part.toList)
    ⟨fun both => ⟨both.1, both.2.1, both.2.2.1, both.2.2.2⟩,
      fun name => ⟨name.component, name.forward, name.whole, name.named⟩⟩

/-- The text begins with one slash. What is behind it is nothing, or components
none of which is empty, `.` or `..`. -/
def IsCanonical (text : String) : Prop :=
  ∃ rest, text.toList = '/' :: rest ∧ rest.head? ≠ some '/' ∧
    (rest = [] ∨ ∀ part ∈ splitSlash rest, part ≠ [] ∧ part ≠ ['.'] ∧
      part ≠ ['.', '.'])

end Path

namespace Address

def IsSettled (a : Address) : Prop :=
  ∀ part ∈ a.parts, Path.IsName part

instance : DecidablePred IsSettled := fun a =>
  inferInstanceAs (Decidable (∀ part ∈ a.parts, Path.IsName part))

theorem toList_text (a : Address) :
    a.text.toList = '/' :: ['/'].intercalate (a.parts.map String.toList) := by
  have shown : a.text = "/" ++ Text.joinWith "/" a.parts := rfl
  rw [shown, String.toList_append, Text.toList_joinWith]
  rfl

namespace IsSettled

variable {a b : Address}

theorem splitSlash_rest
    (settled : a.IsSettled)
    (some : a.parts ≠ []) :
    Path.splitSlash (['/'].intercalate (a.parts.map String.toList)) =
      a.parts.map String.toList := by
  rw [Path.splitSlash_eq_splitOn]
  refine List.splitOn_intercalate '/' ?_ (by simpa using some)
  intro chars member
  obtain ⟨part, among, rfl⟩ := List.mem_map.1 member
  exact (settled part among).whole

theorem head?_rest (settled : a.IsSettled) :
    (['/'].intercalate (a.parts.map String.toList)).head? ≠ some '/' := by
  intro slash
  cases parts : a.parts with
  | nil =>
      rw [parts] at slash
      cases slash
  | cons part others =>
      have split := settled.splitSlash_rest (by simp [parts])
      obtain ⟨rest, begins⟩ := List.head?_eq_some_iff.1 slash
      rw [begins, Path.splitSlash, if_pos rfl, parts, List.map_cons] at split
      have name := (settled part (by simp [parts])).component
      rw [Path.leads, ← (List.cons.inj split).1] at name
      cases name

theorem isCanonical_text (settled : a.IsSettled) : Path.IsCanonical a.text := by
  refine ⟨_, a.toList_text, settled.head?_rest, ?_⟩
  by_cases none : a.parts = []
  · exact .inl (by rw [none]; rfl)
  · refine .inr ?_
    rw [settled.splitSlash_rest none]
    intro chars member
    obtain ⟨part, among, rfl⟩ := List.mem_map.1 member
    have name := settled part among
    obtain ⟨some, other⟩ := Path.leads_iff.1 name.component
    have texts : ∀ text : String, part ≠ text → part.toList ≠ text.toList :=
      fun text apart same => apart (String.toList_inj.1 same)
    exact ⟨texts "" some, texts "." other, texts ".." name.forward⟩

theorem ofString_text (settled : a.IsSettled) :
    Path.ofString a.text = a.toPath := by
  have root : Path.rootOf a.text.toList = .single := by
    have single := settled.head?_rest
    rw [a.toList_text]
    cases behind : ['/'].intercalate (a.parts.map String.toList) with
    | nil => rfl
    | cons c rest =>
        rw [behind] at single
        have other : c ≠ '/' := by simpa using single
        unfold Path.rootOf
        split <;> simp_all
  have parts : (Path.splitSlash a.text.toList).filter Path.isComponent =
      a.parts.map String.toList := by
    rw [a.toList_text, Path.splitSlash, if_pos rfl,
      List.filter_cons_of_neg (by decide)]
    by_cases none : a.parts = []
    · rw [none]
      rfl
    · rw [settled.splitSlash_rest none, List.filter_eq_self]
      intro chars member
      obtain ⟨part, among, rfl⟩ := List.mem_map.1 member
      exact (settled part among).component
  rw [Path.ofString, root, parts, toPath, List.map_map]
  congr 1
  exact (List.map_congr_left fun part _ => String.ofList_toList).trans
    (List.map_id _)

theorem text_inj
    (settled : a.IsSettled)
    (other : b.IsSettled) :
    a.text = b.text ↔ a = b := by
  constructor
  · intro same
    have paths := settled.ofString_text.symm.trans
      ((congrArg _ same).trans other.ofString_text)
    obtain ⟨parts⟩ := a
    obtain ⟨others⟩ := b
    exact congrArg Address.mk (congrArg Path.parts paths)
  · exact congrArg text

theorem hasNull_toPath (settled : a.IsSettled) : a.toPath.hasNull = false := by
  rw [Bool.eq_false_iff]
  intro null
  obtain ⟨part, member, inside⟩ := Path.hasNull_iff.1 null
  exact (settled part member).named inside

theorem resolve?_text (settled : a.IsSettled) (base : Path) (start : Address) :
    (base.join (Path.ofString a.text)).resolve? start = .ok a := by
  have forward : ".." ∉ a.parts := fun member => (settled _ member).forward rfl
  have lead : a.toPath.resolve start = a := by
    have climbs : a.toPath.resolve start = ⟨Path.climb [] a.parts⟩ := rfl
    rw [climbs, Path.climb_of_not_mem forward]
    rfl
  have absolute : base.join a.toPath = a.toPath := if_pos rfl
  rw [settled.ofString_text, absolute, Path.resolve?, Links.resolve_none,
    settled.hasNull_toPath, lead]
  rfl

end IsSettled

end Address

theorem Path.IsRead.isSettled_resolve {p : Path} {start a : Address}
    (read : p.IsRead)
    (settled : start.IsSettled)
    (resolved : p.resolve? start = .ok a) :
    a.IsSettled := by
  have settledIn := not_mem_of_resolve? resolved
  rw [resolve?, Links.resolve_none] at resolved
  split at resolved
  · cases resolved
  · rename_i named
    cases resolved
    intro part member
    have forward : part ≠ ".." := by
      rintro rfl
      exact settledIn member
    rcases mem_of_mem_climb member with above | within
    · cases above
    · rcases List.mem_append.1 within with before | own
      · split at before
        · cases before
        · exact settled part before
      · obtain ⟨component, whole⟩ := read part own
        exact ⟨component, forward, whole,
          fun null => named (hasNull_iff.2 ⟨part, own, null⟩)⟩

end ServerConf
