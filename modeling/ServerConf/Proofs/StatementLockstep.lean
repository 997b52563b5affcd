import ServerConf.Proofs.Lockstep
import Mathlib.Data.List.Forall2

/-!
Whole documents in step. What is parsed from tokens that correspond is the same
at corresponding places, and so is what is found wrong with them.
-/

namespace ServerConf

namespace Reader

variable {δ : Displacement} {r s : Reader}

def SameItem (δ : Displacement) (i j : Item) : Prop :=
  i.place δ.before = j.place δ.after

def SameHeading (δ : Displacement) (h k : Heading) : Prop :=
  h.place δ.before = k.place δ.after

theorem SameHeading.enclosure {h k : Heading} (same : SameHeading δ h k) :
    h.enclosure = k.enclosure := by
  rw [← h.enclosure_place, same, k.enclosure_place]

theorem SameHeading.item {h k : Heading} (same : SameHeading δ h k) :
    SameItem δ (.heading h) (.heading k) :=
  congrArg Item.heading same

section Items

variable {t u : Token} {ts us : List Token}

theorem opened_alongside {h k : Heading}
    (same : SameHeading δ h k)
    (inStep : InStep δ r s ts us) :
    Alongside δ (Before δ r s (SameItem δ)) (r.opened h ts)
      (s.opened k us) := by
  rw [opened, opened, same.enclosure]
  refine (expect_alongside .openBrace _ inStep).map ?_
  rintro ⟨brace, after⟩ ⟨brace', after'⟩ found
  exact ⟨same.item, found.inStep⟩

theorem template_alongside
    (sign : Token.Corresponds δ t u)
    (inStep : InStep δ r s ts us) :
    Alongside δ (Before δ r s (SameItem δ)) (r.template t ts)
      (s.template u us) := by
  have whole := inStep
  cases inStep with
  | nil =>
      rw [template, template, sign.value]
      exact stop_alongside whole _
  | cons same =>
      rw [template, template, same.kind, sign.value]
      split
      · refine .ok ⟨?_, whole.tail⟩
        simp only [SameItem, Item.place, Heading.place, same.position,
          sign.position]
      · exact stop_alongside whole _

theorem inline_alongside
    (sign : Token.Corresponds δ t u)
    (inStep : InStep δ r s ts us) :
    Alongside δ (Before δ r s (SameItem δ)) (r.inline t ts)
      (s.inline u us) := by
  refine (expect_alongside .openParen .inlineParen inStep).bind ?_
  rintro ⟨paren, afterParen⟩ ⟨paren', afterParen'⟩ _ opening
  refine (expect_alongside .variable .inlineVariable opening.inStep).bind ?_
  rintro ⟨name, afterName⟩ ⟨name', afterName'⟩ _ naming
  refine (expect_alongside .closeParen .inlineClose naming.inStep).bind ?_
  rintro ⟨close, afterClose⟩ ⟨close', afterClose'⟩ _ closing
  refine (expect_alongside .semicolon .inlineSemicolon closing.inStep).bind ?_
  rintro ⟨semicolon, after⟩ ⟨semicolon', after'⟩ _ ending
  refine .ok ⟨?_, ending.inStep⟩
  simp only [SameItem, Item.place, Statement.place, naming.same.value,
    sign.position]

theorem importFile_alongside
    (sign : Token.Corresponds δ t u)
    (inStep : InStep δ r s ts us) :
    Alongside δ (Before δ r s (SameItem δ)) (r.importFile t ts)
      (s.importFile u us) := by
  refine (expect_alongside .openParen .importParen inStep).bind ?_
  rintro ⟨paren, afterParen⟩ ⟨paren', afterParen'⟩ _ opening
  refine (expect_alongside .string .importString opening.inStep).bind ?_
  rintro ⟨path, afterPath⟩ ⟨path', afterPath'⟩ _ naming
  refine (expect_alongside .closeParen .importClose naming.inStep).bind ?_
  rintro ⟨close, afterClose⟩ ⟨close', afterClose'⟩ _ closing
  refine (expect_alongside .semicolon .importSemicolon closing.inStep).bind ?_
  rintro ⟨semicolon, after⟩ ⟨semicolon', after'⟩ _ ending
  dsimp only
  rw [naming.same.value]
  split
  · refine .error ?_ ending.inStep.length
    rw [ParseError.place, ParseError.place, naming.same]
  · refine .ok ⟨?_, ending.inStep⟩
    simp only [SameItem, Item.place, Statement.place, sign.position]

theorem locationList_alongside
    (sign : Token.Corresponds δ t u)
    (inStep : InStep δ r s ts us) :
    Alongside δ (Before δ r s (SameItem δ)) (r.locationList t ts)
      (s.locationList u us) := by
  refine (expect_alongside .openBracket .noPathList inStep).bind ?_
  rintro ⟨bracket, afterBracket⟩ ⟨bracket', afterBracket'⟩ _ opening
  refine (pathList_alongside opening.inStep).bind ?_
  rintro ⟨⟨paths, close⟩, after⟩ ⟨⟨paths', close'⟩, after'⟩ _ ⟨same, closing⟩
  cases same
  dsimp only
  split
  · refine .error ?_ closing.inStep.length
    rw [ParseError.place, ParseError.place, closing.same]
  · refine opened_alongside ?_ closing.inStep
    simp only [SameHeading, Heading.place, sign.position]

theorem modifier_inStep (inStep : InStep δ r s ts us) :
    (modifier ts).1 = (modifier us).1 ∧
      InStep δ r s (modifier ts).2 (modifier us).2 := by
  have whole := inStep
  cases inStep with
  | nil => exact ⟨rfl, whole⟩
  | cons same =>
      rw [modifier, modifier, same.kind, same.value]
      split
      · exact ⟨rfl, whole.tail⟩
      split
      · exact ⟨rfl, whole.tail⟩
      · exact ⟨rfl, whole⟩

theorem path_alongside (inStep : InStep δ r s ts us) :
    Alongside δ (Before δ r s Eq) (r.path ts) (s.path us) := by
  have whole := inStep
  cases inStep with
  | nil => exact stop_alongside whole _
  | cons same =>
      rw [path, path, same.kind, same.value]
      split
      · exact .ok ⟨rfl, whole.tail⟩
      split
      · exact word_alongside whole
      · exact stop_alongside whole _

theorem locationSingle_alongside
    (sign : Token.Corresponds δ t u)
    (inStep : InStep δ r s ts us) :
    Alongside δ (Before δ r s (SameItem δ)) (r.locationSingle t ts)
      (s.locationSingle u us) := by
  obtain ⟨same, following⟩ := modifier_inStep inStep
  refine (path_alongside following).bind ?_
  rintro ⟨path, rest⟩ ⟨path', rest'⟩ _ ⟨rfl, behind⟩
  refine opened_alongside ?_ behind
  simp only [SameHeading, Heading.place, same, sign.position]

theorem location_alongside
    (sign : Token.Corresponds δ t u)
    (inStep : InStep δ r s ts us) :
    Alongside δ (Before δ r s (SameItem δ)) (r.location t ts)
      (s.location u us) := by
  have whole := inStep
  cases inStep with
  | nil => exact locationSingle_alongside sign whole
  | cons same =>
      rw [location, location, same.kind]
      split
      · exact locationList_alongside sign whole.tail
      · exact locationSingle_alongside sign whole

theorem ifBlock_alongside
    (sign : Token.Corresponds δ t u)
    (inStep : InStep δ r s ts us) :
    Alongside δ (Before δ r s (SameItem δ)) (r.ifBlock t ts)
      (s.ifBlock u us) := by
  refine (condition_alongside inStep).bind ?_
  rintro ⟨args, rest⟩ ⟨args', rest'⟩ _ ⟨rfl, behind⟩
  refine opened_alongside ?_ behind
  simp only [SameHeading, Heading.place, sign.position]

theorem named_alongside (inStep : InStep δ r s (t :: ts) (u :: us)) :
    Alongside δ (Before δ r s (SameItem δ)) (r.named t ts) (s.named u us) := by
  have sign := inStep.head
  refine (name_alongside inStep).bind ?_
  rintro ⟨name, afterName⟩ ⟨name', afterName'⟩ _ ⟨rfl, naming⟩
  dsimp only
  rw [← braceAhead_eq inStep.tail]
  refine (arguments_alongside name sign.line (braceAhead ts) naming).bind ?_
  rintro ⟨args, rest⟩ ⟨args', rest'⟩ _ ⟨rfl, behind⟩
  dsimp only
  split
  · refine opened_alongside ?_ behind
    simp only [SameHeading, Heading.place, sign.position]
  · refine (expect_alongside .semicolon (.openDirective name) behind).bind ?_
    rintro ⟨semicolon, after⟩ ⟨semicolon', after'⟩ _ ending
    refine .ok ⟨?_, ending.inStep⟩
    simp only [SameItem, Item.place, Statement.place, sign.position]

theorem variableItem_alongside (inStep : InStep δ r s (t :: ts) (u :: us)) :
    Alongside δ (Before δ r s (SameItem δ)) (r.variableItem t ts)
      (s.variableItem u us) := by
  have behind := inStep.tail
  cases behind with
  | nil => exact named_alongside inStep
  | cons same =>
      rw [variableItem, variableItem, same.kind]
      split
      · exact template_alongside inStep.head inStep.tail.tail
      · exact named_alongside inStep

theorem item_alongside (inStep : InStep δ r s (t :: ts) (u :: us)) :
    Alongside δ (Before δ r s (SameItem δ)) (r.item t ts) (s.item u us) := by
  have sign := inStep.head
  rw [item, item, sign.kind, sign.value]
  split
  · exact variableItem_alongside inStep
  · exact inline_alongside sign inStep.tail
  · exact location_alongside sign inStep.tail
  · exact importFile_alongside sign inStep.tail
  · split
    · exact ifBlock_alongside sign inStep.tail
    split
    · exact named_alongside inStep
    · exact stop_alongside inStep _

end Items

section Statements

variable {ts us : List Token}

theorem closed_alongside {h k : Heading} (same : SameHeading δ h k)
    (inStep : InStep δ r s ts us) :
    Alongside δ (InStep δ r s) (r.closed h ts) (s.closed k us) := by
  cases h with
  | template name =>
      cases k with
      | template =>
          cases Heading.template.inj same with
          | intro named =>
              rw [closed, closed, named]
              apply (expect_alongside .semicolon _ inStep).map
              intro found other ending
              exact ending.inStep
      | _ => cases same
  | _ =>
      cases k with
      | template => cases same
      | _ => exact .ok inStep

end Statements

def SameStatements (δ : Displacement) (ss tt : List Statement) : Prop :=
  placeAll δ.before ss = placeAll δ.after tt

theorem SameStatements.cons {a b : Statement} {ss tt : List Statement}
    (first : a.place δ.before = b.place δ.after)
    (rest : SameStatements δ ss tt) :
    SameStatements δ (a :: ss) (b :: tt) := by
  rw [SameStatements, placeAll, placeAll, first, rest]

theorem SameStatements.reverse {ss tt : List Statement}
    (same : SameStatements δ ss tt) :
    SameStatements δ ss.reverse tt.reverse := by
  rw [SameStatements, placeAll_eq_map, placeAll_eq_map] at same ⊢
  rw [List.map_reverse, List.map_reverse, same]

structure SameFrame (δ : Displacement) (frame other : Frame) : Prop where
  heading : SameHeading δ frame.heading other.heading
  before : SameStatements δ frame.before other.before

theorem SameFrame.close {frame other : Frame} {done made : List Statement}
    (same : SameFrame δ frame other)
    (sofar : SameStatements δ done made) :
    SameStatements δ (frame.heading.around done.reverse :: frame.before)
      (other.heading.around made.reverse :: other.before) := by
  apply SameStatements.cons _ same.before
  rw [Heading.place_around, Heading.place_around, same.heading, sofar.reverse]

theorem statements_alongside
    {frames others : List Frame} {done made : List Statement}
    {ts us : List Token}
    (inStep : InStep δ r s ts us)
    (same : List.Forall₂ (SameFrame δ) frames others)
    (sofar : SameStatements δ done made) :
    Alongside δ (SameStatements δ) (r.statements frames done ts)
      (s.statements others made us) := by
  have whole := inStep
  cases inStep with
  | nil last =>
      cases same with
      | nil =>
          rw [statements, statements]
          exact .ok sofar.reverse
      | cons frame =>
          rw [statements, statements, frame.heading.enclosure]
          refine .error ?_ rfl
          rw [ParseError.place, ParseError.place, last]
  | @cons t u rest rest' first =>
      have reading (goesOn : t.kind = .closeBrace → frames = [])
          (goesOn' : u.kind = .closeBrace → others = []) :
          Alongside δ (SameStatements δ) (r.statements frames done (t :: rest))
            (s.statements others made (u :: rest')) := by
        rw [statements_reading r goesOn, statements_reading s goesOn']
        apply (item_alongside whole).bind
        rintro ⟨i, next⟩ ⟨j, next'⟩ found ⟨item, inStep⟩
        have shorter : next.length ≤ rest.length := item_length found
        cases i with
        | leaf =>
            cases j with
            | leaf =>
                exact statements_alongside inStep same
                  (.cons (Item.leaf.inj item) sofar)
            | heading => cases item
        | heading =>
            cases j with
            | leaf => cases item
            | heading =>
                exact statements_alongside inStep
                  (.cons ⟨Item.heading.inj item, sofar⟩ same) rfl
      by_cases closes : t.kind = .closeBrace
      · cases same with
        | nil => exact reading (fun _ => rfl) fun _ => rfl
        | cons frame around =>
            rw [statements_closing r closes,
              statements_closing s (first.kind.trans closes)]
            apply (closed_alongside frame.heading whole.tail).bind
            intro next next' found inStep
            have shorter : next.length ≤ rest.length := closed_length found
            exact statements_alongside inStep around (frame.close sofar)
      · exact reading (fun closing => absurd closing closes)
          fun closing => absurd (first.kind.symm.trans closing) closes
termination_by ts.length

end Reader

theorem Document.ofTokens_inStep
    {δ : Displacement} {left right : Environment}
    {tokens others body rest : List Token} {last final : Token}
    (complete : Token.complete? tokens = some (body, last))
    (complete' : Token.complete? others = some (rest, final))
    (inStep : Reader.InStep δ ⟨left, last⟩ ⟨right, final⟩ body rest)
    (filename : String) :
    placed δ.before (ofTokens left filename tokens) =
      placed δ.after (ofTokens right filename others) := by
  have nothing : Reader.SameStatements δ [] [] := rfl
  have read := Reader.statements_alongside inStep .nil nothing
  rw [ofTokens, ofTokens, complete, complete']
  dsimp only
  generalize Reader.statements ⟨left, last⟩ [] [] body = first at read
  generalize Reader.statements ⟨right, final⟩ [] [] rest = second at read
  cases read with
  | ok same =>
      exact congrArg (fun ss => Except.ok (Document.mk ss filename)) same
  | error same => exact congrArg (fun e => Except.error (Failure.parse e)) same

end ServerConf
