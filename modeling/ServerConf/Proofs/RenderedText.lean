import ServerConf.Proofs.Acceptance
import ServerConf.Proofs.ReadBack
import ServerConf.Rendering.Site

namespace ServerConf

open Lexeme Grammar

theorem Text.trim_eq_self {cs : List Char}
    (begins : ∀ c ∈ cs.head?, isBlank c = false)
    (ends : ∀ c ∈ cs.getLast?, isBlank c = false) :
    trim cs = cs := by
  have start : trimStart cs = cs := by
    cases cs with
    | nil => rfl
    | cons c cs => simp [trimStart, begins c rfl]
  have stop : trimEnd cs = cs := by
    rw [trimEnd]
    cases behind : cs.reverse with
    | nil => simpa using behind.symm
    | cons c rest =>
        have last : cs.getLast? = some c := by
          rw [← List.head?_reverse, behind]
          rfl
        rw [List.dropWhile_cons_of_neg (by simp [ends c last]), ← behind,
          List.reverse_reverse]
  rw [trim, start, stop]

/-- The text begins with something shown. -/
def Shown (text : List Char) : Prop :=
  ∃ c, text.head? = some c ∧ Text.isBlank c = false

theorem Shown.append {text : List Char}
    (shown : Shown text)
    (rest : List Char) :
    Shown (text ++ rest) := by
  obtain ⟨c, first, sign⟩ := shown
  exact ⟨c, by simp [first], sign⟩

/-- The first line begins right behind its indentation, and the last one ends
with no blank. -/
structure Framed (indentation : String) (lines : List String) : Prop where
  begins : ∀ line ∈ lines.head?, ∃ text,
    line.toList = indentation.toList ++ text ∧ Shown text
  ends : ∀ line ∈ lines.getLast?, ∃ c, line.toList.getLast? = some c ∧
    Text.isBlank c = false

theorem Framed.nil (indentation : String) : Framed indentation [] :=
  ⟨by simp, by simp⟩

theorem Framed.append {indentation : String} {first second : List String}
    (left : Framed indentation first)
    (right : Framed indentation second) :
    Framed indentation (first ++ second) := by
  constructor
  · intro line member
    cases first with
    | nil => exact right.begins line member
    | cons head first => exact left.begins line member
  · intro line member
    cases second with
    | nil => exact left.ends line (by simpa using member)
    | cons head second =>
        rw [List.getLast?_append_of_ne_nil _ (by simp)] at member
        exact right.ends line member

def Line.Begins : Line → Prop
  | .directive name _ => Shown name.toList
  | .block name _ => Shown name.toList
  | _ => True

theorem shown_blockHeader {name : String}
    (shown : Shown name.toList)
    (args : List String) :
    Shown (blockHeader name args).toList := by
  unfold blockHeader
  split
  · exact ⟨'i', by simp, by decide⟩
  · simpa using shown.append _

theorem shown_locationHeader (modifier : Modifier) (path : String) :
    Shown (locationHeader modifier path).toList := by
  unfold locationHeader
  split
  split <;> exact ⟨'l', by simp, by decide⟩

theorem framed_enclosed {indentation header : String} {inner : List String}
    (shown : Shown header.toList) :
    Framed indentation (enclosed indentation header inner) := by
  constructor
  · intro line member
    cases member
    exact ⟨header.toList ++ [' ', '\x7b'], by simp, shown.append _⟩
  · intro line member
    rw [enclosed, List.getLast?_append_of_ne_nil _ (by simp)] at member
    cases member
    exact ⟨'\x7d', by simp, by decide⟩

theorem framed_leaf (indentation : String) {text : String}
    (shown : Shown text.toList) :
    Framed indentation [indentation ++ text ++ ";"] := by
  constructor
  · intro line member
    cases member
    exact ⟨text.toList ++ [';'], by simp, shown.append _⟩
  · intro line member
    cases member
    exact ⟨';', by simp, by decide⟩

theorem Throughout.framed {statements : List Statement}
    (begins : Throughout Line.Begins statements)
    (options : RenderOptions) (depth : Nat) :
    Framed (options.indentation depth)
      (ownLinesOf options depth statements) := by
  induction begins generalizing depth with
  | nil => exact .nil _
  | @directive name args _ _ here _ induction =>
      have shown : Shown (name ++ Argument.line args).toList := by
        simpa using Shown.append here _
      have leaf := framed_leaf (options.indentation depth) shown
      simpa [ownLinesOf, Statement.ownLines, String.append_assoc]
        using leaf.append (induction depth)
  | @block name args _ _ _ here _ _ _ induction =>
      exact (framed_enclosed (shown_blockHeader here args)).append
        (induction depth)
  | @location modifier path _ _ _ _ _ _ _ induction =>
      rw [ownLinesOf, Statement.ownLines, List.flatMap_singleton]
      exact (framed_enclosed (shown_locationHeader modifier path)).append
        (induction depth)
  | @reference name _ _ _ _ induction =>
      have shown : Shown ("%inline(" ++ name ++ ")").toList :=
        ⟨'%', by simp, by decide⟩
      have leaf := framed_leaf (options.indentation depth) shown
      simpa [ownLinesOf, Statement.ownLines, String.append_assoc]
        using leaf.append (induction depth)

theorem written_eq {lines : List String} (some : lines ≠ []) :
    written lines = '\n' :: (Text.joinWith "\n" lines).toList := by
  obtain ⟨line, lines, rfl⟩ := List.exists_cons_of_ne_nil some
  induction lines generalizing line with
  | nil => simp
  | cons next lines induction =>
      rw [written_cons, induction next (by simp), Text.joinWith_cons_cons]
      simp

theorem Framed.trim_eq {lines : List String} (framed : Framed "" lines) :
    Text.trim (Text.joinWith "\n" lines).toList =
      (Text.joinWith "\n" lines).toList := by
  by_cases none : lines = []
  · subst none
    rfl
  have whole := written_eq none
  apply Text.trim_eq_self
  · intro c member
    obtain ⟨line, lines, rfl⟩ := List.exists_cons_of_ne_nil none
    obtain ⟨text, same, d, first, shown⟩ := framed.begins line rfl
    rw [written_cons] at whole
    rw [← (List.cons.inj whole).2, same] at member
    obtain rfl : d = c := by simpa [first] using member
    exact shown
  · intro c member
    obtain ⟨lines, line, rfl⟩ :=
      (List.eq_nil_or_concat' lines).resolve_left none
    obtain ⟨d, last, shown⟩ := framed.ends line (by simp)
    have ends := congrArg List.getLast? whole
    rw [written_append, written_cons, written_nil, List.append_nil,
      List.getLast?_append, List.getLast?_cons, List.getLast?_cons, last,
      show List.getLast? _ = some c from member] at ends
    obtain rfl : d = c := by simpa using ends
    exact shown

theorem Throughout.trim_eq {statements : List Statement}
    (begins : Throughout Line.Begins statements)
    {options : RenderOptions}
    (blank : options.Blank) :
    Text.trim (Text.joinWith "\n" (ownLinesOf options 0 statements)).toList =
      (Text.joinWith "\n" (ownLinesOf options 0 statements)).toList := by
  have framed := begins.framed options 0
  rw [blank.indentation_zero] at framed
  exact framed.trim_eq

theorem Site.render_result
    {site : Site} {document : Document} {origin : Option Path} {scope : Scope}
    {lines : List String}
    (started : site.startScope origin = .ok scope)
    (rendered : ∀ handlers,
      linesOf site.options handlers 0 document.children = pure lines) :
    (site.render document origin).result =
      .ok (String.ofList (Text.trim (Text.joinWith "\n" lines).toList)) := by
  have within : site.linesWithin (site.levels document) scope 0
      document.children = pure lines := rendered _
  simp only [render, started, renderIn, within]
  rfl

theorem ReadAs.parse {lines : List String} {statements : List Statement}
    (readAs : ReadAs ⟨0, 1⟩ lines statements)
    (env : Environment) (filename : String) :
    ∃ d, Document.parse env filename (Text.joinWith "\n" lines) = .ok d ∧
      d.filename = filename ∧
        unplacedAll d.children = unplacedAll statements := by
  obtain ⟨ps, reads, meaning⟩ := readAs
  obtain ⟨read, settled, same⟩ := meaning env
  have scanned : ∃ last,
      Token.ofSource (Text.joinWith "\n" lines) =
        .ok (tokensOf ps ++ [last]) := by
    have whole := reads []
    rw [List.append_nil, Token.scan_nil, Token.prepend_ok] at whole
    by_cases none : lines = []
    · subst none
      have none : tokensOf ps = [] := by simpa using whole
      exact ⟨.atEnd .start, by simp [none, Token.ofSource_eq_scan]⟩
    · rw [written_eq none, Token.scan_blank (by decide)] at whole
      exact ⟨_, whole⟩
  obtain ⟨last, scanned⟩ := scanned
  refine ⟨⟨read, filename⟩, ?_, rfl, same⟩
  rw [Document.parse_eq_ok_iff scanned]
  exact ⟨rfl, ps, by simp, settled⟩

theorem Lexeme.Spelling.shown {text : List Char} {lexemes : List Lexeme}
    (spelling : Spelling text lexemes)
    (some : lexemes ≠ []) :
    Shown text := by
  cases spelling with
  | nil => exact absurd rfl some
  | cons shown => exact ⟨_, rfl, shown⟩

theorem Line.Legible.begins {line : Line} (legible : line.Legible) :
    line.Begins := by
  cases legible with
  | directive header _ | block header _ =>
      exact header.spells.named.spelling.shown header.spells.named.isTerm.ne_nil
  | condition => exact ⟨'i', rfl, by decide⟩
  | location | reference => trivial

theorem Site.render_legible {site : Site}
    (blank : site.options.Blank)
    {origin : Option Path} {scope : Scope}
    (started : site.startScope origin = .ok scope)
    {document : Document}
    (legible : Throughout Line.Legible document.children)
    (kept :
      Throughout (Line.Kept site.options.expandTemplates) document.children) :
    ∃ text, (site.render document origin).result = .ok text ∧
      ∀ env filename, ∃ d, Document.parse env filename text = .ok d ∧
        d.filename = filename ∧
        unplacedAll d.children = unplacedAll document.children := by
  refine
    ⟨Text.joinWith "\n" (ownLinesOf site.options 0 document.children), ?_, ?_⟩
  · rw [Site.render_result started fun handlers => kept.linesOf_eq handlers 0,
      (legible.mono fun _ => Line.Legible.begins).trim_eq blank,
      String.ofList_toList]
  · exact fun env filename => (legible.readAs blank 0 ⟨0, 1⟩).parse env filename

end ServerConf
