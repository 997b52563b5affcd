import Mathlib.Data.List.Nodup
import Mathlib.Data.List.SplitBy
import ServerConf.Proofs.Relayout
import ServerConf.Proofs.Shapes
import ServerConf.Proofs.SourceOrder

/-!
Tokens that touch. Whether two tokens touch is found from their lines and
columns alone. They touch where nothing stands between them in the source,
except behind a string that goes on over several lines: nothing touches its end.
-/

namespace ServerConf

namespace Token

/-- The second token begins in the source right where the first one ends. -/
def Adjacent (source : List Char) (previous t : Token) : Prop :=
  ∃ before after,
    source = before ++ previous.raw.toList ++ t.raw.toList ++ after ∧
    previous.position = .after before ∧
      t.position = .after (before ++ previous.raw.toList)

/-- Nothing stands between the tokens, and the first one ends on the line that
it begins on. -/
def Together (source : List Char) (previous t : Token) : Prop :=
  Adjacent source previous t ∧ '\n' ∉ previous.raw.toList

theorem Layout.of_append {before text : List Char} {first second : List Token}
    (layout : Layout before text (first ++ second))
    (some : second ≠ []) :
    ∃ passed rest, text = passed ++ rest ∧
      Layout (before ++ passed) rest second := by
  induction first generalizing before text with
  | nil => exact ⟨[], text, rfl, by rwa [List.append_nil]⟩
  | cons t first induction =>
      rw [List.cons_append] at layout
      generalize following : first ++ second = ts at layout
      cases layout with
      | last => simp [some] at following
      | @token _ gap rest _ _ _ _ _ _ _ layout =>
          subst following
          obtain ⟨passed, remaining, rfl, behind⟩ := induction layout
          refine ⟨gap ++ t.raw.toList ++ passed, remaining, by simp, ?_⟩
          simpa using behind

theorem Layout.exists_between
    {source : List Char} {us vs : List Token} {previous t : Token}
    (layout : Layout [] source (us ++ previous :: t :: vs))
    (inside : t.kind ≠ .endOfInput) :
    ∃ before between after,
      source = before ++ previous.raw.toList ++ between ++
        t.raw.toList ++ after ∧
      previous.position = .after before ∧
      t.position = .after (before ++ previous.raw.toList ++ between) := by
  obtain ⟨passed, rest, rfl, behind⟩ := layout.of_append (List.cons_ne_nil _ _)
  cases behind with
  | @token _ gap rest _ _ _ _ _ _ place following =>
      cases following with
      | last => exact absurd rfl inside
      | @token _ between after _ _ _ _ _ _ nextPlace _ =>
          refine ⟨passed ++ gap, between,
            after, by simp, by simpa using place, ?_⟩
          simpa using nextPlace

theorem touches_iff_of_places {before between : List Char} {previous t : Token}
    (place : previous.position = .after before)
    (nextPlace : t.position = .after (before ++ previous.raw.toList ++ between))
    (inside : t.kind ≠ .endOfInput) :
    previous.touches t = true ↔ between = [] ∧ '\n' ∉ previous.raw.toList := by
  let lexeme : Lexeme :=
    ⟨previous.kind, previous.value.toList, previous.raw.toList, []⟩
  have same : lexeme.toToken previous.position = previous := by
    simp [lexeme, Lexeme.toToken]
  have behind : t.position =
      (previous.position.advanceBy lexeme.raw).advanceBy between := by
    rw [nextPlace, place, Position.after_advanceBy, Position.after_advanceBy]
  rw [← same, Token.touches_iff inside behind, same, and_comm]

theorem Layout.touches_iff
    {source : List Char} {us vs : List Token} {previous t : Token}
    (layout : Layout [] source (us ++ previous :: t :: vs))
    (inside : t.kind ≠ .endOfInput) :
    previous.touches t = true ↔ Together source previous t := by
  constructor
  · intro touching
    obtain ⟨before, between, after, same, place, nextPlace⟩ :=
      layout.exists_between inside
    obtain ⟨rfl, oneLine⟩ :=
      (touches_iff_of_places place nextPlace inside).1 touching
    rw [List.append_nil] at same nextPlace
    exact ⟨⟨before, after, same, place, nextPlace⟩, oneLine⟩
  · rintro ⟨⟨before, after, same, place, nextPlace⟩, oneLine⟩
    rw [← List.append_nil (before ++ _)] at nextPlace
    exact (touches_iff_of_places place nextPlace inside).2 ⟨rfl, oneLine⟩

/-- What the tokens were written as, with nothing between them. -/
def rawText (ts : List Token) : String :=
  String.ofList (ts.flatMap fun t => t.raw.toList)

end Token

section Groups

variable {α : Type} {r : α → α → Bool}

theorem neighbours_of_flatten {groups : List (List α)}
    (filled : [] ∉ groups)
    {a b : α} {before after : List α}
    (same : groups.flatten = before ++ a :: b :: after) :
    (∃ group ∈ groups, [a, b] <:+: group) ∨
      ∃ first second, [first, second] <:+: groups ∧ a ∈ first.getLast? ∧
        b ∈ second.head? := by
  induction groups generalizing before with
  | nil => simp at same
  | cons group groups induction =>
      rw [List.mem_cons, not_or] at filled
      have later : ∀ before, groups.flatten = before ++ a :: b :: after →
          (∃ other ∈ group :: groups, [a, b] <:+: other) ∨ ∃ first second,
            [first, second] <:+: group :: groups ∧ a ∈ first.getLast? ∧
              b ∈ second.head? := by
        intro before same
        rcases induction filled.2 same with
          ⟨other, member, inside⟩ | ⟨first, second, inside, ends⟩
        · exact .inl ⟨other, List.mem_cons_of_mem group member, inside⟩
        · exact .inr ⟨first, second,
            inside.trans (List.suffix_cons group _).isInfix, ends⟩
      rw [List.flatten_cons] at same
      rcases List.append_eq_append_iff.1 same with
        ⟨middle, _, behind⟩ | ⟨middle, whole, behind⟩
      · exact later middle behind
      · cases middle with
        | nil => exact later [] behind.symm
        | cons c middle =>
            obtain ⟨rfl, rest⟩ := List.cons.inj behind
            cases middle with
            | cons d middle =>
                obtain ⟨rfl, _⟩ := List.cons.inj rest
                exact .inl ⟨group, List.mem_cons_self .., before,
                  middle, by simp [whole]⟩
            | nil =>
                cases groups with
                | nil => cases rest
                | cons next groups =>
                    refine .inr ⟨group, next,
                      (List.prefix_append [_, _] groups).isInfix,
                      by simp [whole], ?_⟩
                    cases next with
                    | nil => simp at filled
                    | cons d next =>
                        exact congrArg some (List.cons.inj rest).1.symm

theorem related_of_isChain {R : α → α → Prop} {items : List α} {a b : α}
    (chain : items.IsChain R)
    (inside : [a, b] <:+: items) :
    R a b := by
  obtain ⟨before, after, rfl⟩ := inside
  exact List.isChain_pair.1 chain.left_of_append.right_of_append

/-- The list falls into groups, and neighbours stay in one group exactly if they
are related. -/
structure GroupedBy
    (R : α → α → Prop) (items : List α) (groups : List (List α)) :
    Prop where
  filled : [] ∉ groups
  whole : groups.flatten = items
  together : ∀ before a b after, items = before ++ a :: b :: after →
    ((∃ group ∈ groups, [a, b] <:+: group) ↔ R a b)

theorem groupedBy_splitBy {R : α → α → Prop} {items : List α}
    (decides : ∀ before a b after, items = before ++ a :: b :: after →
      (r a b = true ↔ R a b)) :
    GroupedBy R items (items.splitBy r) := by
  refine ⟨List.nil_notMem_splitBy r items, List.flatten_splitBy r items, ?_⟩
  intro before a b after same
  rw [← decides before a b after same]
  constructor
  · rintro ⟨group, member, inside⟩
    have chain := List.isChain_of_mem_splitBy member
    exact @related_of_isChain α (fun a b => r a b = true) group a b chain inside
  · intro related
    rw [← List.flatten_splitBy r items] at same
    rcases neighbours_of_flatten (List.nil_notMem_splitBy r items) same with
      together | ⟨first, second, inside, last, head⟩
    · exact together
    · obtain ⟨_, _, unrelated⟩ :=
        related_of_isChain (List.isChain_getLast_head_splitBy r items) inside
      rw [List.getLast_of_mem_getLast? last, List.head_of_mem_head? head,
        related] at unrelated
      cases unrelated

end Groups

namespace Grammar

theorem join_groups {groups : List (List Token)}
    (filled : [] ∉ groups)
    (touching :
      ∀ group ∈ groups, group.IsChain fun t next => t.touches next = true)
    (apart : groups.IsChain fun first second =>
      ∃ some more, (first.getLast some).touches (second.head more) = false) :
    ConditionPart.join (partsOf groups.flatten) = groups.map Token.rawText := by
  induction groups with
  | nil => rfl
  | cons group groups induction =>
      rw [List.mem_cons, not_or] at filled
      rw [List.forall_mem_cons] at touching
      have others := induction filled.2 touching.2 apart.tail
      rw [List.flatten_cons, partsOf, List.map_append, ← partsOf, ← partsOf,
        join_run (Ne.symm filled.1) touching.1, others]
      · rfl
      · intro last ends next begins
        cases groups with
        | nil => cases begins
        | cons second groups =>
            obtain ⟨_, more, separate⟩ := (List.isChain_cons_cons.1 apart).1
            obtain ⟨t, second, rfl⟩ := List.exists_cons_of_ne_nil more
            cases begins
            rwa [List.getLast_of_mem_getLast? ends] at separate

theorem join_partsOf (ts : List Token) :
    ConditionPart.join (partsOf ts) =
      (ts.splitBy Token.touches).map Token.rawText := by
  have joined := join_groups (List.nil_notMem_splitBy Token.touches ts)
    (fun _ => List.isChain_of_mem_splitBy)
      (List.isChain_getLast_head_splitBy Token.touches ts)
  rwa [List.flatten_splitBy] at joined

theorem Condition.infix_parts (c : Condition) :
    Part.tokensOf c.parts <:+: c.tokens := by
  cases c with
  | bare => exact List.infix_refl _
  | enclosed opening parts closing => exact ⟨[opening.1], [closing.1], rfl⟩

theorem Condition.args?_eq_groups {c : Condition} {env : Environment}
    (plain : ∀ t ∈ c.tokens, t.kind ≠ .environment)
    (written : ∀ t ∈ c.tokens, t.raw ≠ "") :
    c.args? env =
      some (((Part.tokensOf c.parts).splitBy Token.touches).map
        Token.rawText) := by
  have among := c.infix_parts.subset
  have unreferenced : Plain (Part.tokensOf c.parts) := by
    intro ref inside
    exact plain ref.sign.1 (among (inside.subset (by simp [Reference.tokens])))
      ref.sign.2
  rw [args?, Part.mapM_kept? unreferenced fun t member =>
    written t (among member), Option.map_some, join_partsOf]

inductive ReadFrom (env : Environment) (ts : List Token) :
    Statement → Prop where
  | leaf {l : Leaf} {s : Statement} :
      l.tokens <:+: ts → l.statement? env = some s → ReadFrom env ts s
  | opening {o : Opening} {h : Heading} (children : List Statement) :
      o.tokens <:+: ts → o.heading? env = some h →
        ReadFrom env ts (h.around children)

theorem ReadFrom.mono {env : Environment} {ts us : List Token} {s : Statement}
    (read : ReadFrom env ts s)
    (part : ts <:+: us) :
    ReadFrom env us s := by
  cases read with
  | leaf among meaning => exact .leaf (among.trans part) meaning
  | opening children among meaning =>
      exact .opening children (among.trans part) meaning

theorem readFrom_of_walkIn
    {env : Environment} {ps : List Phrase} {ss : List Statement}
    (meaning : statementsOf? env ps = some ss) :
    ∀ s ∈ walkIn ss, ReadFrom env (tokensOf ps) s := by
  induction ps using phraseRecursion generalizing ss with
  | nil =>
      cases meaning
      simp
  | leaf l ps induction =>
      simp only [statementsOf?, Phrase.statement?, Option.bind_eq_bind,
        Option.bind_eq_some_iff] at meaning
      obtain ⟨first, read, others, behind, ⟨⟩⟩ := meaning
      have alone := (Leaf.statement_leaf read).1
      rw [walkIn_cons, alone, walkIn_nil, List.nil_append, List.forall_mem_cons,
        tokensOf, Phrase.tokens]
      refine ⟨.leaf (List.prefix_append _ _).isInfix read, fun s later => ?_⟩
      exact (induction behind s later).mono (List.suffix_append _ _).isInfix
  | group o body closing closes ps inside induction =>
      simp only [statementsOf?, Phrase.statement?, Option.bind_eq_bind,
        Option.pure_def, Option.bind_eq_some_iff] at meaning
      obtain ⟨first, ⟨h, heading, children, within, ⟨⟩⟩, others, behind, ⟨⟩⟩ :=
        meaning
      have below := (Opening.heading_around heading children).1
      rw [walkIn_cons, below, List.forall_mem_cons, List.forall_mem_append,
        tokensOf, Phrase.tokens]
      refine ⟨.opening children ⟨[], tokensOf body ++ closing ++
        tokensOf ps, by simp⟩ heading, fun s inner => ?_, fun s later => ?_⟩
      · exact (inside within s inner).mono ⟨o.tokens,
          closing ++ tokensOf ps, by simp⟩
      · exact (induction behind s later).mono (List.suffix_append _ _).isInfix

theorem ReadFrom.exists_condition
    {env : Environment} {ts : List Token} {name : String} {args : List String}
    {children : List Statement} {position : Position} {sign : Token}
    (read : ReadFrom env ts (.block name args children position))
    (places : ∀ t ∈ ts, t.position = position → t = sign)
    (kind : sign.kind = .identifier)
    (isIf : sign.value = "if") :
    ∃ (c : Condition) (brace : Token.Of .openBrace),
      sign :: (c.tokens ++ [brace.1]) <:+: ts ∧ c.args? env = some args := by
  generalize same : Statement.block name args children position = s at read
  cases read with
  | @leaf l s among meaning =>
      subst same
      cases l with
      | inline | importFile => cases meaning
      | directive =>
          simp only [Leaf.statement?, Option.bind_eq_bind,
            Option.bind_eq_some_iff, Option.pure_def] at meaning
          obtain ⟨_, _, _, _, ⟨⟩⟩ := meaning
  | @opening o h inner among meaning =>
      cases o with
      | definition =>
          cases meaning
          cases same
      | locations | location =>
          simp only [Opening.heading?, Option.bind_eq_bind,
            Option.bind_eq_some_iff, Option.pure_def] at meaning
          obtain ⟨_, _, ⟨⟩⟩ := meaning
          cases same
      | condition first first_if c brace =>
          simp only [Opening.heading?, Option.bind_eq_bind,
            Option.bind_eq_some_iff, Option.pure_def] at meaning
          obtain ⟨values, settled, ⟨⟩⟩ := meaning
          cases same
          obtain rfl :=
            places first.1 (among.subset (by simp [Opening.tokens])) rfl
          exact ⟨c, brace, among, settled⟩
      | block header brace noLocation =>
          simp only [Opening.heading?, Option.bind_eq_bind,
            Option.bind_eq_some_iff, Option.pure_def] at meaning
          obtain ⟨_, _, values, _, ⟨⟩⟩ := meaning
          cases same
          have member : header.name.first ∈
              (Opening.block header brace noLocation).tokens := by
            rw [Opening.tokens, header.tokens_eq_cons]
            exact List.mem_cons_self ..
          obtain rfl := places _ (among.subset member) rfl
          exact absurd ⟨kind, isIf⟩ header.notIf

end Grammar

namespace Token

theorem Scanned.eq_of_position
    {p : Position} {text : List Char} {ts : List Token}
    (scanned : Scanned p text ts)
    {t u : Token}
    (first : t ∈ ts)
    (second : u ∈ ts)
    (same : t.position = u.position) :
    t = u := by
  have distinct : (ts.map Token.position).Nodup := by
    refine scanned.pairwise_before.imp ?_
    rintro a b before rfl
    rcases before with less | ⟨_, less⟩ <;> exact Int.lt_irrefl _ less
  exact List.inj_on_of_nodup_map distinct first second same

theorem Scanned.kind_of_newline
    {p : Position} {text : List Char} {ts : List Token}
    (scanned : Scanned p text ts) :
    ∀ t ∈ ts, '\n' ∈ t.raw.toList → t.kind = .string := by
  induction scanned with
  | last => simp [atEnd]
  | @token p gap taken rest value c kind ts shown _ read _ induction =>
      refine List.forall_mem_cons.2 ⟨fun feed => ?_, induction⟩
      by_contra unquoted
      have inside : '\n' ∈ c :: taken := by simpa [Lexeme.toToken] using feed
      exact absurd (Lexeme.read?_not_blank read shown unquoted _ inside)
        (by decide)

theorem Layout.groupedBy
    {source : List Char} {ts us : List Token} {last : Token}
    (layout : Layout [] source (ts ++ [last]))
    (part : us <:+: ts) :
    GroupedBy (Together source) us (us.splitBy touches) := by
  apply groupedBy_splitBy
  intro before previous t after same
  obtain ⟨ahead, rest, whole⟩ := part
  have inside : t.kind ≠ .endOfInput := by
    obtain ⟨body, final, split, _, inner⟩ := layout.exists_end
    obtain ⟨rfl, _⟩ := List.append_inj' split rfl
    exact inner t (by simp [← whole, same])
  have place : ts ++ [last] =
      (ahead ++ before) ++ previous :: t :: (after ++ rest ++ [last]) := by
    simp [← whole, same]
  rw [place] at layout
  exact layout.touches_iff inside

end Token

namespace Document

open Grammar

theorem exists_groups
    {env : Environment} {filename source : String} {document : Document}
    {tokens : List Token}
    (scanned : Token.ofSource source = .ok tokens)
    (parsed : parse env filename source = .ok document)
    {name : String} {args : List String} {children : List Statement}
    {position : Position}
    (member : .block name args children position ∈ document.walk)
    {sign : Token}
    (among : sign ∈ tokens)
    (place : sign.position = position)
    (kind : sign.kind = .identifier)
    (isIf : sign.value = "if") :
    ∃ (c : Condition) (brace : Token.Of .openBrace),
      sign :: (c.tokens ++ [brace.1]) <:+: tokens ∧
      ((∀ t ∈ c.tokens, t.kind ≠ .environment) →
        ∃ groups : List (List Token), args = groups.map Token.rawText ∧
          GroupedBy (Token.Together source.toList)
            (Part.tokensOf c.parts) groups) := by
  have layout : Token.Layout [] source.toList tokens :=
    Cursor.tokens_layout rfl scanned
  obtain ⟨ps, last, found, meaning⟩ := exists_phrases parsed
  obtain rfl := Except.ok.inj (scanned.symm.trans found)
  have placed := Token.scanned_of_scan scanned
  have places : ∀ t ∈ tokensOf ps, t.position = position → t = sign :=
    fun t inside same =>
    placed.eq_of_position (List.mem_append_left _ inside) among
      (same.trans place.symm)
  obtain ⟨c, brace, inside, settled⟩ :=
    (readFrom_of_walkIn meaning _ member).exists_condition places kind isIf
  refine ⟨c, brace, inside.trans (List.prefix_append _ [last]).isInfix,
    fun plain => ?_⟩
  have written : ∀ t ∈ c.tokens, t.raw ≠ "" := by
    intro t member
    have here : t ∈ tokensOf ps := inside.subset (by simp [member])
    exact Token.InSource.raw_ne_empty ⟨_, _,
      placed⟩ (List.cons_ne_nil _ _) t here
  rw [Condition.args?_eq_groups plain written] at settled
  have part : Part.tokensOf c.parts <:+: tokensOf ps :=
    (c.infix_parts.trans ⟨[sign], [brace.1], rfl⟩).trans inside
  exact ⟨_, (Option.some.inj settled).symm, layout.groupedBy part⟩

/-- Of two tokens that follow each other in a source the second touches the
first exactly if nothing stands between them and the first one ends on its own
line, which only a string may fail to do. So in a condition without references
two tokens that follow each other stay in one argument exactly then. -/
theorem touches_iff_together {source : String} {tokens : List Token}
    (scanned : Token.ofSource source = .ok tokens) :
    (∀ us previous t vs, tokens = us ++ previous :: t :: vs →
      t.kind ≠ .endOfInput →
      (previous.touches t = true ↔ Token.Together source.toList previous t)) ∧
    (∀ t ∈ tokens, '\n' ∈ t.raw.toList → t.kind = .string) ∧
    ∀ env filename document, parse env filename source = .ok document →
      ∀ name args children position,
        .block name args children position ∈ document.walk →
      ∀ sign ∈ tokens, sign.position = position → sign.kind = .identifier →
        sign.value = "if" →
      ∃ (c : Condition) (brace : Token.Of .openBrace),
        sign :: (c.tokens ++ [brace.1]) <:+: tokens ∧
        ((∀ t ∈ c.tokens, t.kind ≠ .environment) →
          ∃ groups : List (List Token), args = groups.map Token.rawText ∧
            GroupedBy (Token.Together source.toList)
              (Part.tokensOf c.parts) groups) := by
  have layout : Token.Layout [] source.toList tokens :=
    Cursor.tokens_layout rfl scanned
  refine ⟨?_, (Token.scanned_of_scan scanned).kind_of_newline, ?_⟩
  · rintro us previous t vs rfl inside
    exact layout.touches_iff inside
  · intro env filename document parsed name args children position member
      sign among
    exact exists_groups scanned parsed member among

/-- The string touches the name before it, and not the name after it. -/
theorem touches_iff_together_string :
    ∃ (a text c : Token) (groups : List (List Token)),
      parse .empty "f" "if (a'b' c) \x7b\x7d" =
        .ok ⟨[.block "if" ["a'b'", "c"] [] ⟨1, 1⟩], "f"⟩ ∧
      Token.Adjacent "if (a'b' c) \x7b\x7d".toList a text ∧
      ¬ Token.Adjacent "if (a'b' c) \x7b\x7d".toList text c ∧
      ["a'b'", "c"] = groups.map Token.rawText := by
  let word : Token := ⟨.identifier, "if", ⟨1, 1⟩, "if"⟩
  let opening : Token := ⟨.openParen, "(", ⟨1, 4⟩, "("⟩
  let a : Token := ⟨.identifier, "a", ⟨1, 5⟩, "a"⟩
  let text : Token := ⟨.string, "b", ⟨1, 6⟩, "'b'"⟩
  let c : Token := ⟨.identifier, "c", ⟨1, 10⟩, "c"⟩
  let closing : List Token := [⟨.closeParen, ")", ⟨1, 11⟩, ")"⟩,
    ⟨.openBrace, "\x7b", ⟨1, 13⟩, "\x7b"⟩,
    ⟨.closeBrace, "\x7d", ⟨1, 14⟩, "\x7d"⟩,
    .atEnd ⟨1, 15⟩]
  have scanned : Token.ofSource "if (a'b' c) \x7b\x7d" =
      .ok (word :: opening :: a :: text :: c :: closing) := by
    decide +kernel
  have parsed : parse .empty "f" "if (a'b' c) \x7b\x7d" =
      .ok ⟨[.block "if" ["a'b'", "c"] [] ⟨1, 1⟩], "f"⟩ := by
    with_unfolding_all rfl
  have unreferenced : (word :: opening :: a :: text :: c :: closing).all
      (fun t => decide (t.kind ≠ .environment)) = true := by
    decide +kernel
  have touching : a.touches text = true := by decide +kernel
  have apart : text.touches c = false := by decide +kernel
  obtain ⟨neighbours, _, conditions⟩ := touches_iff_together scanned
  have first := neighbours [word, opening] a text (c :: closing) rfl (by decide)
  have second := neighbours [word, opening, a] text c closing rfl (by decide)
  obtain ⟨condition, brace, among, settled⟩ :=
    conditions .empty "f" _ parsed "if" ["a'b'", "c"] [] ⟨1, 1⟩
      (List.mem_singleton.2 rfl) word (List.mem_cons_self ..) rfl rfl rfl
  obtain ⟨groups, args, _⟩ := settled fun t member =>
    of_decide_eq_true
      (List.all_eq_true.1 unreferenced t (among.subset (by simp [member])))
  refine ⟨a, text, c, groups, parsed, (first.1 touching).1,
    fun adjacent => ?_, args⟩
  have joined := second.2 ⟨adjacent, by decide⟩
  rw [apart] at joined
  cases joined

/-- Nothing touches the end of a string of two lines, so the condition falls
into two arguments. -/
theorem not_touches_adjacent :
    ∃ (us vs : List Token) (text c : Token),
      Token.ofSource "if (\"a\nb\"c) \x7b\x7d" = .ok (us ++ text :: c :: vs) ∧
      Token.Adjacent "if (\"a\nb\"c) \x7b\x7d".toList text c ∧
        text.touches c = false ∧
      parse .empty "f" "if (\"a\nb\"c) \x7b\x7d" =
        .ok ⟨[.block "if" ["\"a\nb\"", "c"] [] ⟨1, 1⟩], "f"⟩ := by
  refine ⟨[⟨.identifier, "if", ⟨1, 1⟩, "if"⟩, ⟨.openParen, "(", ⟨1, 4⟩, "("⟩],
    [⟨.closeParen, ")", ⟨2, 4⟩, ")"⟩, ⟨.openBrace, "\x7b", ⟨2, 6⟩, "\x7b"⟩,
      ⟨.closeBrace, "\x7d", ⟨2, 7⟩, "\x7d"⟩, .atEnd ⟨2, 8⟩],
    ⟨.string, "a\nb", ⟨1, 5⟩, "\"a\nb\""⟩,
    ⟨.identifier, "c", ⟨2, 3⟩, "c"⟩, by decide +kernel,
    ?_, by decide +kernel, by with_unfolding_all rfl⟩
  exact ⟨"if (".toList, ") \x7b\x7d".toList, by decide +kernel,
    by decide +kernel, by decide +kernel⟩

end Document

end ServerConf
