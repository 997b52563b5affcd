import ServerConf.Proofs.Acceptance
import ServerConf.Proofs.TapeReading

/-!
Passages over whole statements, and over all tokens. The head never leaves the
tape, every statement takes it further, and it comes no further than to the
first end of input.
-/

namespace ServerConf

namespace Tape

variable {tape : Tape} {r : Reader} {body ts : List Token} {index : Nat}
  {t : Token}

section Items

theorem opened_follows
    (holds : tape.Holds r body)
    (here : From body index ts)
    (h : Heading) :
    Follows tape body Same ((tape.opened h).run index) (r.opened h ts) := by
  apply (expect_follows holds here (by decide) _).map
  intro brace other _ _ _ _
  exact ⟨rfl, rfl⟩

theorem template_follows (holds : tape.Holds r body) {equals : Token}
    (here : From body index (t :: equals :: ts)) :
    Follows tape body Same (tape.template.run index) (r.template t ts) := by
  rw [template, run_advance_bind holds here, run_advance_bind holds here.next]
  have behind := here.next.next
  cases ts with
  | nil =>
      have brace : r.last.kind ≠ .openBrace := holds.ends.trans_ne (by decide)
      rw [run_current_nil holds behind, if_neg brace]
      exact refuse_follows holds behind _
  | cons u ts =>
      rw [run_current_cons holds behind, Reader.template]
      split
      · rw [run_advance_bind holds behind]
        exact .ok rfl behind.next
      · exact refuse_follows holds behind _

theorem inline_follows
    (holds : tape.Holds r body)
    (here : From body index (t :: ts)) :
    Follows tape body Same (tape.inline.run index) (r.inline t ts) := by
  rw [inline, run_advance_bind holds here]
  apply (expect_follows holds here.next (by decide) .inlineParen).bind
  intro paren _ _ _ _ _ opened
  apply (expect_follows holds opened (by decide) .inlineVariable).bind
  intro name other _ _ _ taken named
  cases taken.1
  apply (expect_follows holds named (by decide) .inlineClose).bind
  intro close _ _ _ _ _ closed
  apply (expect_follows holds closed (by decide) .inlineSemicolon).bind
  intro semicolon _ _ _ _ _ ended
  exact .ok rfl ended

theorem importFile_follows
    (holds : tape.Holds r body)
    (here : From body index (t :: ts)) :
    Follows tape body Same (tape.importFile.run index) (r.importFile t ts) := by
  rw [importFile, run_advance_bind holds here]
  apply (expect_follows holds here.next (by decide) .importParen).bind
  intro paren _ _ _ _ _ opened
  apply (expect_follows holds opened (by decide) .importString).bind
  intro path other _ _ read taken named
  cases taken.1
  apply (expect_follows holds named (by decide) .importClose).bind
  intro close _ _ _ _ _ closed
  apply (expect_follows holds closed (by decide) .importSemicolon).bind
  intro semicolon _ _ _ _ _ ended
  dsimp only
  split
  · exact .refused (holds.mem_tokens (Passed.mem taken.2)) _ _
  · exact .ok rfl ended

theorem locationList_follows
    (holds : tape.Holds r body)
    (here : From body index ts)
    (sign : Token) :
    Follows tape body Same ((tape.locationList sign).run index)
      (r.locationList sign ts) := by
  apply (expect_follows holds here (by decide) .noPathList).bind
  intro bracket _ _ _ _ _ opened
  apply (pathList_follows holds opened).bind
  intro paths other _ _ _ ending listed
  obtain ⟨others, close⟩ := other
  obtain ⟨same, passed⟩ := ending
  cases same
  rw [run_previous_bind holds passed]
  dsimp only
  split
  · exact .refused (holds.mem_tokens passed.mem) _ _
  · exact opened_follows holds listed _

theorem exists_run_modifier
    (holds : tape.Holds r body)
    (here : From body index ts) :
    ∃ next,
      tape.modifier.run index = some (.ok ((Reader.modifier ts).1, next)) ∧
      From body next (Reader.modifier ts).2 := by
  cases ts with
  | nil =>
      have sign : r.last.kind ≠ .modifier := holds.ends.trans_ne (by decide)
      have equals : r.last.kind ≠ .equals := holds.ends.trans_ne (by decide)
      rw [modifier, run_current_nil holds here, if_neg sign, if_neg equals]
      exact ⟨index, rfl, here⟩
  | cons t ts =>
      rw [modifier, run_current_cons holds here, Reader.modifier]
      split
      · rw [run_advance_bind holds here]
        exact ⟨index + 1, rfl, here.next⟩
      split
      · rw [run_advance_bind holds here]
        exact ⟨index + 1, rfl, here.next⟩
      · exact ⟨index, rfl, here⟩

theorem path_follows
    (holds : tape.Holds r body)
    (here : From body index ts) :
    Follows tape body Same (tape.path.run index) (r.path ts) := by
  cases ts with
  | nil =>
      have string : r.last.kind ≠ .string := holds.ends.trans_ne (by decide)
      have isWord : ¬ r.last.kind.isWord = true := by
        simp [holds.ends, TokenKind.isWord]
      rw [path, run_current_nil holds here, if_neg string, if_neg isWord]
      exact refuse_follows holds here _
  | cons t ts =>
      rw [path, run_current_cons holds here, Reader.path]
      split
      · rw [run_advance_bind holds here]
        exact .ok rfl here.next
      split
      · exact word_follows holds here
      · exact refuse_follows holds here _

theorem locationSingle_follows
    (holds : tape.Holds r body)
    (here : From body index ts)
    (sign : Token) :
    Follows tape body Same ((tape.locationSingle sign).run index)
      (r.locationSingle sign ts) := by
  obtain ⟨next, signs, signed⟩ := exists_run_modifier holds here
  rw [locationSingle, run_bind_of_run signs]
  apply (path_follows holds signed).bind
  intro path other _ _ _ same behind
  cases same
  exact opened_follows holds behind _

theorem location_follows
    (holds : tape.Holds r body)
    (here : From body index (t :: ts)) :
    Follows tape body Same (tape.location.run index) (r.location t ts) := by
  rw [location, run_advance_bind holds here]
  cases ts with
  | nil =>
      have list : r.last.kind ≠ .inWord := holds.ends.trans_ne (by decide)
      rw [run_current_nil holds here.next, if_neg list]
      exact locationSingle_follows holds here.next t
  | cons u ts =>
      rw [run_current_cons holds here.next, Reader.location]
      split
      · rw [run_advance_bind holds here.next]
        exact locationList_follows holds here.next.next t
      · exact locationSingle_follows holds here.next t

theorem ifBlock_follows
    (holds : tape.Holds r body)
    (here : From body index (t :: ts)) :
    Follows tape body Same (tape.ifBlock.run index) (r.ifBlock t ts) := by
  rw [ifBlock, run_advance_bind holds here]
  apply (condition_follows holds here.next).bind
  intro args other _ _ _ same behind
  cases same
  exact opened_follows holds behind _

theorem named_follows
    (holds : tape.Holds r body)
    (here : From body index (t :: ts))
    (isName : t.kind.isName = true) :
    Follows tape body Same (tape.named.run index) (r.named t ts) := by
  rw [named, run_current_cons holds here, run_braceAhead_bind holds here isName]
  apply (name_follows holds here).bind
  intro name other _ _ _ same named
  cases same
  apply (arguments_follows holds name t.position.line (Reader.braceAhead ts)
    named).bind
  intro args other _ _ _ same behind
  cases same
  dsimp only
  split
  · exact opened_follows holds behind _
  · apply (expect_follows holds behind (by decide) (.openDirective name)).bind
    intro semicolon _ _ _ _ _ ended
    exact .ok rfl ended

theorem run_peek_bind {γ : Type}
    (holds : tape.Holds r body)
    (here : From body index (t :: ts))
    (f : Token → Passage γ) :
    (tape.peek >>= f).run index = (f (ts.headD r.last)).run index := by
  have length := here.index_add_length
  obtain ⟨after, whole⟩ := holds.tokens
  have within : min (index + 1) (tape.tokens.length - 1) = index + 1 := by
    rw [List.length_cons] at length
    rw [whole, List.length_append, List.length_cons]
    omega
  rw [StateT.run_bind]
  change (tape.token (min (index + 1) (tape.tokens.length - 1))).run
    index >>= _ = _
  rw [within, token, holds.getElem? here.next]
  rfl

theorem variableItem_follows
    (holds : tape.Holds r body)
    (here : From body index (t :: ts))
    (isVariable : t.kind = .variable) :
    Follows tape body Same (tape.variableItem.run index)
      (r.variableItem t ts) := by
  have isName : t.kind.isName = true := by rw [isVariable]; rfl
  rw [variableItem, run_peek_bind holds here]
  cases ts with
  | nil =>
      have equals : r.last.kind ≠ .equals := holds.ends.trans_ne (by decide)
      rw [List.headD_nil, if_neg equals]
      exact named_follows holds here isName
  | cons next ts =>
      rw [List.headD_cons, Reader.variableItem]
      split
      · exact template_follows holds here
      · exact named_follows holds here isName

theorem item_follows
    (holds : tape.Holds r body)
    (here : From body index (t :: ts)) :
    Follows tape body Same (tape.item.run index) (r.item t ts) := by
  rw [item, run_current_cons holds here, Reader.item]
  cases kind : t.kind with
  | «variable» => exact variableItem_follows holds here kind
  | inline => exact inline_follows holds here
  | location => exact location_follows holds here
  | importSign => exact importFile_follows holds here
  | _ =>
      dsimp only
      split
      · exact ifBlock_follows holds here
      split
      · rename_i isName
        exact named_follows holds here (kind ▸ isName)
      · exact refuse_follows holds here _

theorem closed_follows
    (holds : tape.Holds r body)
    (here : From body index ts)
    (h : Heading) (s : Statement) :
    Follows tape body Same
      ((do tape.closed h; return s : Passage Statement).run index)
      ((r.closed h ts).map fun rest => (s, rest)) := by
  cases h with
  | template name opening position =>
      have ended : Follows tape body Same
          ((tape.expect .semicolon (.openTemplate name) >>= fun _ =>
            pure s).run index)
          ((r.expect .semicolon (.openTemplate name) ts).map fun read =>
            (s, read.2)) := by
        apply (expect_follows holds here (by decide) _).map
        intro semicolon _ _ _ _ _
        exact ⟨rfl, rfl⟩
      rw [closed, Reader.closed, bind_assoc]
      cases found : r.expect .semicolon (.openTemplate name) ts with
      | error | ok =>
          rw [found] at ended
          exact ended
  | block | condition | location => exact .ok rfl here

end Items

structure ReadsStatement
    (tape : Tape) (r : Reader) (body : List Token) (index : Nat) (t : Token)
    (rest : List Token) (read : Except Stop (Statement × List Token)) :
    Prop where
  follows : Follows tape body Same (tape.statement.run index) read
  shrinks : ∀ s behind, read = .ok (s, behind) → behind.length ≤ rest.length
  reads : ∀ frames done, (t.kind = .closeBrace → frames = []) →
    r.statements frames done (t :: rest) =
      read >>= fun (s, behind) => r.statements frames (s :: done) behind

structure ReadsChildren
    (tape : Tape) (r : Reader) (body : List Token) (index : Nat) (h : Heading)
    (ts : List Token) (read : Except Stop (List Statement × List Token)) :
    Prop where
  follows : Follows tape body Same ((tape.children h.enclosure).run index) read
  shrinks : ∀ ss behind, read = .ok (ss, behind) → behind.length < ts.length
  reads : ∀ before outer done, r.statements (⟨h, before⟩ :: outer) done ts =
    read >>= fun (ss, behind) => r.closed h behind >>= fun next =>
      r.statements outer (h.around (done.reverse ++ ss) :: before) next

section Statements

variable {rest : List Token} {h : Heading}

theorem ReadsStatement.error
    (holds : tape.Holds r body)
    (here : From body index (t :: rest))
    {e : Stop}
    (found : r.item t rest = .error e) :
    ReadsStatement tape r body index t rest (.error e) where
  follows := by
    have item := item_follows holds here
    rw [found] at item
    rw [statement, run_bind_of_halt item.halts.1]
    exact .stopped item.halts.2
  shrinks := by
    intro s behind read
    cases read
  reads := by
    intro frames done goesOn
    rw [Reader.statements_reading r goesOn, found]
    rfl

theorem ReadsStatement.leaf
    (holds : tape.Holds r body)
    (here : From body index (t :: rest))
    {s : Statement} {next : List Token}
    (found : r.item t rest = .ok (.leaf s, next)) :
    ReadsStatement tape r body index t rest (.ok (s, next)) where
  follows := by
    have item := item_follows holds here
    rw [found] at item
    obtain ⟨_, there, passes, same, behind⟩ := item.exists_run
    cases same
    rw [statement, run_bind_of_run passes]
    exact .ok rfl behind
  shrinks := by
    intro s behind read
    cases read
    exact Reader.item_length found
  reads := by
    intro frames done goesOn
    rw [Reader.statements_reading r goesOn, found]
    rfl

theorem ReadsStatement.heading
    (holds : tape.Holds r body)
    {next : List Token} {there : Nat}
    (passes : tape.item.run index = some (.ok (.heading h, there)))
    (found : r.item t rest = .ok (.heading h, next))
    {inner : Except Stop (List Statement × List Token)}
    (inside : ReadsChildren tape r body there h next inner) :
    ReadsStatement tape r body index t rest (inner >>= fun (ss, behind) =>
      (r.closed h behind).map fun after => (h.around ss, after)) where
  follows := by
    rw [statement, run_bind_of_run passes]
    apply inside.follows.bind
    intro ss other _ _ _ same behind
    cases same
    exact closed_follows holds behind h (h.around ss)
  shrinks := by
    intro s behind read
    obtain ⟨⟨ss, rest⟩, listed, ends⟩ := Reader.bind_ok read
    obtain ⟨after, closes, same⟩ := Reader.map_ok ends
    cases same
    have opening := Reader.item_length found
    have shrunk := inside.shrinks ss rest listed
    have closing := Reader.closed_length closes
    omega
  reads := by
    intro frames done goesOn
    rw [Reader.statements_reading r goesOn, found]
    apply (inside.reads done frames []).trans
    cases inner with
    | error => rfl
    | ok read =>
        change (r.closed h read.2 >>= _) =
          Except.map _ (r.closed h read.2) >>= _
        cases r.closed h read.2 <;> rfl

theorem ReadsChildren.unclosed
    (holds : tape.Holds r body)
    (here : From body index []) :
    ReadsChildren tape r body index h []
      (.error ⟨⟨.noClosingBrace h.enclosure, r.last⟩, []⟩) where
  follows := by
    have brace : r.last.kind ≠ .closeBrace := holds.ends.trans_ne (by decide)
    rw [children, run_current_nil holds here, if_pos (by simp [holds.ends]),
      StateT.run_bind, expect, run_current_nil holds here, if_neg brace]
    exact refuse_follows holds here _
  shrinks := by
    intro ss behind read
    cases read
  reads := by
    intro before outer done
    rw [Reader.statements]
    rfl

theorem ReadsChildren.closed
    (holds : tape.Holds r body)
    (here : From body index (t :: rest))
    (closes : t.kind = .closeBrace) :
    ReadsChildren tape r body index h (t :: rest) (.ok ([], rest)) where
  follows := by
    rw [children, run_current_cons holds here, if_pos (by simp [closes]),
      StateT.run_bind, expect, run_current_cons holds here, if_pos closes,
      run_advance holds here]
    exact .ok rfl here.next
  shrinks := by
    intro ss behind read
    cases read
    exact Nat.lt_succ_self _
  reads := by
    intro before outer done
    rw [Reader.statements_closing r closes]
    change _ = r.closed h rest >>= fun next =>
      r.statements outer (h.around (done.reverse ++ []) :: before) next
    rw [List.append_nil]

theorem ReadsChildren.error
    (holds : tape.Holds r body)
    (here : From body index (t :: rest))
    (goesOn : t.kind ≠ .closeBrace)
    {e : Stop}
    (first : ReadsStatement tape r body index t rest (.error e)) :
    ReadsChildren tape r body index h (t :: rest) (.error e) where
  follows := by
    rw [children, run_current_cons holds here,
      if_neg (by simp [goesOn, holds.inside t here.mem]),
      run_bind_of_halt first.follows.halts.1]
    exact .stopped first.follows.halts.2
  shrinks := by
    intro ss behind read
    cases read
  reads := by
    intro before outer done
    rw [first.reads _ _ fun closing => absurd closing goesOn]
    rfl

theorem ReadsChildren.cons
    (holds : tape.Holds r body)
    (here : From body index (t :: rest))
    (goesOn : t.kind ≠ .closeBrace)
    {s : Statement} {behind : List Token} {there : Nat}
    (first : ReadsStatement tape r body index t rest (.ok (s, behind)))
    (passes : tape.statement.run index = some (.ok (s, there)))
    {others : Except Stop (List Statement × List Token)}
    (further : ReadsChildren tape r body there h behind others) :
    ReadsChildren tape r body index h (t :: rest)
      (others.map fun (ss, after) => (s :: ss, after)) where
  follows := by
    rw [children, run_current_cons holds here,
      if_neg (by simp [goesOn, holds.inside t here.mem]),
      run_bind_of_run passes]
    apply further.follows.map
    intro ss other _ _ same _
    cases same
    exact ⟨rfl, rfl⟩
  shrinks := by
    intro ss after read
    obtain ⟨⟨more, after⟩, found, same⟩ := Reader.map_ok read
    cases same
    have shorter := first.shrinks s behind rfl
    have shrunk := further.shrinks more after found
    rw [List.length_cons]
    omega
  reads := by
    intro before outer done
    rw [first.reads _ _ fun closing => absurd closing goesOn]
    apply (further.reads before outer (s :: done)).trans
    cases others with
    | error => rfl
    | ok read =>
        have inside :
            (s :: done).reverse ++ read.1 = done.reverse ++ s :: read.1 := by
          simp
        change (r.closed h read.2 >>= fun next =>
          r.statements outer
            (h.around ((s :: done).reverse ++ read.1) :: before) next) = _
        rw [inside]
        rfl

mutual

theorem exists_readsStatement
    (holds : tape.Holds r body)
    {t : Token} {rest : List Token} {index : Nat}
    (here : From body index (t :: rest)) :
    ∃ read, ReadsStatement tape r body index t rest read := by
  cases found : r.item t rest with
  | error e => exact ⟨_, .error holds here found⟩
  | ok read =>
      obtain ⟨i, next⟩ := read
      have shorter : next.length ≤ rest.length := Reader.item_length found
      cases i with
      | leaf s => exact ⟨_, .leaf holds here found⟩
      | heading h =>
          have item := item_follows holds here
          rw [found] at item
          obtain ⟨_, there, passes, same, behind⟩ := item.exists_run
          cases same
          obtain ⟨inner, inside⟩ := exists_readsChildren holds h behind
          exact ⟨_, .heading holds passes found inside⟩
termination_by (rest.length + 1, 0)

theorem exists_readsChildren
    (holds : tape.Holds r body)
    (h : Heading) {ts : List Token} {index : Nat}
    (here : From body index ts) :
    ∃ read, ReadsChildren tape r body index h ts read := by
  match ts with
  | [] => exact ⟨_, .unclosed holds here⟩
  | t :: rest =>
      by_cases closes : t.kind = .closeBrace
      · exact ⟨_, .closed holds here closes⟩
      · obtain ⟨first, read⟩ := exists_readsStatement holds here
        cases first with
        | error e => exact ⟨_, .error holds here closes read⟩
        | ok found =>
            obtain ⟨s, behind⟩ := found
            have shorter : behind.length ≤ rest.length :=
              read.shrinks s behind rfl
            obtain ⟨_, there, passes, same, following⟩ :=
              read.follows.exists_run
            cases same
            obtain ⟨others, further⟩ := exists_readsChildren holds h following
            exact ⟨_, .cons holds here closes read passes further⟩
termination_by (ts.length, 1)

end

theorem exists_statements
    (holds : tape.Holds r body)
    {ts : List Token} {index : Nat}
    (here : From body index ts) :
    ∃ read : Except Stop (List Statement),
      Follows tape body Same (tape.statements.run index)
        (read.map fun ss => (ss, [])) ∧
      ∀ done, r.statements [] done ts = read.map (done.reverse ++ ·) := by
  match ts with
  | [] =>
      refine ⟨.ok [], ?_, ?_⟩
      · rw [statements, run_current_nil holds here, if_pos holds.ends]
        exact .ok rfl here
      · intro done
        rw [Reader.statements]
        change _ = Except.ok (done.reverse ++ [])
        rw [List.append_nil]
  | t :: rest =>
      have goesOn : t.kind ≠ .endOfInput := holds.inside t here.mem
      obtain ⟨first, read⟩ := exists_readsStatement holds here
      cases first with
      | error e =>
          refine ⟨.error e, ?_, ?_⟩
          · rw [statements, run_current_cons holds here, if_neg goesOn,
              run_bind_of_halt read.follows.halts.1]
            exact .stopped read.follows.halts.2
          · intro done
            exact read.reads [] done fun _ => rfl
      | ok found =>
          obtain ⟨s, behind⟩ := found
          have shorter : behind.length ≤ rest.length :=
            read.shrinks s behind rfl
          obtain ⟨_, there, passes, same, following⟩ := read.follows.exists_run
          cases same
          obtain ⟨others, follows, reads⟩ := exists_statements holds following
          refine ⟨others.map (s :: ·), ?_, ?_⟩
          · rw [statements, run_current_cons holds here, if_neg goesOn,
              run_bind_of_run passes]
            have further := follows.map (f := (s :: ·)) (S := Same)
              (g := fun read => (s :: read.1, read.2)) fun _ _ _ _ same _ => by
                cases same
                exact ⟨rfl, rfl⟩
            cases others <;> exact further
          · intro done
            apply (read.reads [] done fun _ => rfl).trans
            apply (reads (s :: done)).trans
            cases others with
            | error => rfl
            | ok ss => exact congrArg Except.ok (by simp)
termination_by ts.length

theorem exists_halt_item
    (holds : tape.Holds r body)
    (here : From body index []) :
    ∃ halt, tape.item.run index = some (.error halt) := by
  rw [item, run_current_nil holds here, holds.ends]
  exact ⟨_, rfl⟩

theorem statement_advances
    (holds : tape.Holds r body)
    (within : index ≤ body.length)
    {s : Statement} {next : Nat}
    (passes : tape.statement.run index = some (.ok (s, next))) :
    index < next ∧ next ≤ body.length := by
  have here : From body index (body.drop index) := ⟨within, rfl⟩
  generalize body.drop index = ts at here
  cases ts with
  | nil =>
      obtain ⟨halt, refused⟩ := exists_halt_item holds here
      rw [statement, run_bind_of_halt refused] at passes
      cases passes
  | cons t rest =>
      obtain ⟨read, reads⟩ := exists_readsStatement holds here
      have follows := reads.follows
      rw [passes] at follows
      cases follows with
      | @ok _ b _ behind same following =>
          have shorter := reads.shrinks b behind rfl
          have before := here.index_add_length
          have after := following.index_add_length
          rw [List.length_cons] at before
          omega

end Statements

end Tape

/-- How a reading of all the statements on the tape may come out. -/
inductive Tape.Outcome (tape : Tape) (filename : String) :
    Except Failure Document → Prop where
  | read {children : List Statement} {index : Nat} :
      tape.statements.run 0 = some (.ok (children, index)) →
      Outcome tape filename (.ok ⟨children, filename⟩)
  | stopped {e : ParseError} :
      tape.statements.run 0 = some (.error (.stopped e)) →
        e.token ∈ tape.tokens →
      Outcome tape filename (.error (.parse e))

theorem Token.exists_first_end {tokens : List Token}
    (final : tokens.getLast?.map Token.kind = some .endOfInput) :
    ∃ body last after, tokens = body ++ last :: after ∧
      (∀ t ∈ body, t.kind ≠ .endOfInput) ∧ last.kind = .endOfInput := by
  obtain ⟨t, found, kind⟩ := Option.map_eq_some_iff.1 final
  have some := List.find?_isSome (p := fun t : Token => t.kind = .endOfInput)
    |>.2 ⟨t, List.mem_of_getLast? found, by simpa using kind⟩
  obtain ⟨last, first⟩ := Option.isSome_iff_exists.1 some
  obtain ⟨ends, body, after, whole, inside⟩ :=
    List.find?_eq_some_iff_append.1 first
  exact ⟨body, last, after, whole, by simpa using inside, by simpa using ends⟩

namespace Document

theorem ofTokens_outcome
    (env : Environment) (filename : String) {body after : List Token}
    {last : Token}
    (inside : ∀ t ∈ body, t.kind ≠ .endOfInput)
    (ends : last.kind = .endOfInput)
    (complete : Token.complete? (body ++ last :: after) = some (body, last)) :
    Tape.Outcome ⟨env, body ++ last :: after⟩ filename
      (ofTokens env filename (body ++ last :: after)) := by
  have holds : Tape.Holds ⟨env, body ++ last :: after⟩ ⟨env, last⟩ body :=
    ⟨rfl, ⟨after, rfl⟩, inside, ends⟩
  obtain ⟨read, follows, reads⟩ := Tape.exists_statements holds (.start body)
  rw [ofTokens, complete]
  dsimp only
  rw [reads []]
  cases read with
  | error e => exact .stopped follows.halts.1 follows.halts.2
  | ok children =>
      obtain ⟨_, index, passes, same, _⟩ := follows.exists_run
      cases same
      exact .read passes

/-- Whatever the tokens are, the last of them an end of input, reading them
comes to an end within the list, with the document or with an error at one of
them. No statement is read out of nothing, and nothing behind the first end of
input matters. -/
theorem ofTokens_safe
    (env : Environment) (filename : String) {tokens : List Token}
    (final : tokens.getLast?.map Token.kind = some .endOfInput) :
    Tape.Outcome ⟨env, tokens⟩ filename (ofTokens env filename tokens) ∧
      ∃ body last after, tokens = body ++ last :: after ∧
        (∀ t ∈ body, t.kind ≠ .endOfInput) ∧ last.kind = .endOfInput ∧
        (∀ index s next, index ≤ body.length →
          (Tape.mk env tokens).statement.run index = some (.ok (s, next)) →
          index < next ∧ next ≤ body.length) ∧
        ∀ others,
          (body ++ last :: others).getLast?.map Token.kind = some .endOfInput →
          ofTokens env filename (body ++ last :: others) =
            ofTokens env filename tokens := by
  obtain ⟨body, last, after, rfl, inside, ends⟩ := Token.exists_first_end final
  have complete := Token.complete?_append_cons inside ends final
  refine ⟨ofTokens_outcome env filename inside ends complete,
    body, last, after, rfl, inside, ends, ?_, ?_⟩
  · intro index s next within passes
    have holds : Tape.Holds ⟨env, body ++ last :: after⟩ ⟨env, last⟩ body :=
      ⟨rfl, ⟨after, rfl⟩, inside, ends⟩
    exact Tape.statement_advances holds within passes
  · intro others closed
    rw [ofTokens, ofTokens, complete,
      Token.complete?_append_cons inside ends closed]

/-- The tokens of `a` and then of `}`, each ended: the directive is not closed,
and the brace behind the first end is no part of the document. -/
theorem ofTokens_safe_of_two_ends :
    let tokens : List Token :=
      [⟨.identifier, "a", ⟨1, 1⟩, "a"⟩, ⟨.endOfInput, "", ⟨1, 2⟩, ""⟩,
      ⟨.closeBrace, "\x7d", ⟨1, 1⟩, "\x7d"⟩, ⟨.endOfInput, "", ⟨1, 2⟩, ""⟩]
    tokens.getLast?.map Token.kind = some .endOfInput ∧
      Tape.Outcome ⟨fun _ => none, tokens⟩ "a.ncl"
        (ofTokens (fun _ => none) "a.ncl" tokens) :=
  ⟨rfl, (ofTokens_safe _ _ rfl).1⟩

end Document

end ServerConf
