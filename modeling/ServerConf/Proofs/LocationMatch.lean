import ServerConf.Proofs.Indentation
import ServerConf.Proofs.Rerendering
import ServerConf.Proofs.RoundTrip
import ServerConf.Proofs.Unambiguous

/-!
Whether a location is matched in the same way when it is read back. How it is
matched is said by its modifier or by a sign in front of its path. The sign is
written as the modifier, and the path behind it, so what is read back has both;
it is the same unless the path left over begins with a sign again, or is taken
for the beginning of a list of paths.
-/

namespace ServerConf

open Lexeme Grammar

namespace Modifier

theorem length_of_ofPath? {path rest : List Char} {found : Modifier}
    (signed : ofPath? path = some (found, rest)) :
    rest.length < path.length := by
  unfold ofPath? at signed
  split at signed <;> cases signed <;> simp only [List.length_cons] <;> omega

theorem splitPath_eq_self_iff {m : Modifier} {path : String} :
    m.splitPath path = (m, path) ↔ ofPath? path.toList = .none := by
  unfold splitPath
  split
  · rename_i found rest signed
    have shorter := length_of_ofPath? signed
    have trimmed : (Text.trimStart rest).length ≤ rest.length :=
      (List.dropWhile_sublist _).length_le
    simp only [signed, reduceCtorEq, iff_false, Prod.mk.injEq, not_and]
    intro _ same
    rw [← same, String.toList_ofList] at shorter
    omega
  · rename_i unsigned
    simp [unsigned]

theorem ofPath?_of_splitPath_none {modifier : Modifier} {path rest : String}
    (split : modifier.splitPath path = (.none, rest)) :
    ofPath? rest.toList = .none := by
  unfold splitPath at split
  split at split
  · rename_i found _ signed
    obtain ⟨rfl, _⟩ := Prod.mk.inj split
    unfold ofPath? at signed
    split at signed <;> cases signed
  · rename_i unsigned
    obtain ⟨_, rfl⟩ := Prod.mk.inj split
    exact unsigned

theorem mem_of_splitPath {modifier m : Modifier} {path rest : String}
    (split : modifier.splitPath path = (m, rest))
    {c : Char}
    (member : c ∈ rest.toList) :
    c ∈ path.toList := by
  unfold splitPath at split
  split at split
  · rename_i signed
    obtain ⟨_, rfl⟩ := Prod.mk.inj split
    rw [String.toList_ofList] at member
    exact mem_of_ofPath? signed ((List.dropWhile_sublist _).subset member)
  · obtain ⟨_, rfl⟩ := Prod.mk.inj split
    exact member

end Modifier

/-- A character that a path has in it without being quoted, brackets aside. -/
def Text.isPathSign (c : Char) : Bool :=
  isCleanSign c && c != '[' && c != ']'

theorem Text.clean_of_isPathSign {path : List Char} (some : path ≠ [])
    (plain : ∀ c ∈ path, isPathSign c = true) : Clean path := by
  have signs : ∀ c ∈ path, isCleanSign c = true ∧ c ≠ '[' ∧ c ≠ ']' := by
    simpa [isPathSign, and_assoc] using plain
  refine ⟨some, fun c member => (signs c member).1, fun begins => ?_⟩
  exact (signs ']' (List.mem_of_mem_head? begins)).2.2 rfl

theorem reads_locationHeader
    (m : Modifier) {path : List Char} {lexemes : List Lexeme}
    (spelling : Spelling path lexemes)
    (p : Position) :
    ∃ (sign : Option MatchSign) (brace : Token.Of .openBrace),
      Reads p (locationWord ++ [' '] ++ modifierText m ++ path ++ [' ', '\x7b'])
        (toToken ⟨.location, locationWord, locationWord, []⟩ p ::
          ((sign.elim [] fun sign => [sign.token]) ++
            placed (p.advanceBy (locationWord ++ [' '] ++ modifierText m))
              lexemes ++ [brace.1])) ∧
      (sign = none ↔ m = .none) := by
  obtain ⟨sign, readsSign, unsigned⟩ : ∃ sign : Option MatchSign,
      Reads (p.advanceBy (locationWord ++ [' '])) (modifierText m)
        (sign.elim [] fun sign => [sign.token]) ∧
          (sign = none ↔ m = .none) := by
    by_cases plain : m = .none
    · subst plain
      exact ⟨none, .nil, by simp⟩
    · obtain ⟨sign, reads, _, unsigned⟩ :=
        exists_sign m (p.advanceBy (locationWord ++ [' ']))
      exact ⟨sign, reads, unsigned, fun none => absurd none plain⟩
  have before := (reads_space spelling_location p).append readsSign
  obtain ⟨brace, whole⟩ := reads_brace (before.append_before (spelling.reads _))
  refine ⟨sign, brace, ?_, unsigned⟩
  simpa using whole

theorem Reader.kinds_of_location
    {r : Reader} {sign : Option MatchSign} {t first : Token}
    {more rest : List Token} {i : Item}
    (noBracket : ∀ next ∈ more.head?, next.kind ≠ .openBracket)
    (read : r.location t ((sign.elim [] fun sign => [sign.token]) ++
      first :: more) = .ok (i, rest)) :
    (sign = none → first.kind ≠ .inWord) ∧
      (sign ≠ none → first.kind.isName = true) := by
  cases sign with
  | none =>
      refine ⟨fun _ isIn => ?_, fun signed => absurd rfl signed⟩
      rw [Option.elim, List.nil_append, location, if_pos isIn] at read
      obtain ⟨⟨bracket, after⟩, opens, _⟩ := bind_ok read
      obtain ⟨kind, rfl⟩ := expect_ok opens
      exact noBracket bracket rfl kind
  | some sign =>
      refine ⟨fun unsigned => absurd unsigned (Option.some_ne_none _),
        fun _ => ?_⟩
      have taken : modifier (sign.token :: first :: more) =
          (sign.meaning, first :: more) := by
        cases sign <;> simp [modifier, MatchSign.token, MatchSign.meaning]
      have single : sign.token.kind ≠ .inWord := by
        cases sign <;> simp [MatchSign.token]
      rw [Option.elim, List.singleton_append, location_eq_single single,
        locationSingle, taken] at read
      obtain ⟨⟨text, after⟩, found, _⟩ := bind_ok read
      obtain ⟨term, whole, _, kind, _⟩ := path_sound found
      rw [term.tokens_eq_cons] at whole
      obtain ⟨rfl, _⟩ := List.cons.inj whole
      exact kind

def Encloses
    (env : Environment) (after : List Char) (children : List Statement) :
    Prop :=
  ∃ (body : List Phrase) (brace : Token.Of .closeBrace) (last : Token),
    Token.scan ⟨2, 1⟩ after = .ok (tokensOf body ++ [brace.1, last]) ∧
      statementsOf? env body = some children

structure Headed (source : String) (m : Modifier) (path after : List Char) :
    Prop where
  whole : source.toList =
    locationWord ++ [' '] ++ modifierText m ++ path ++ [' ', '\x7b'] ++
      '\n' :: after
  oneLine : '\n' ∉ path

section Headed

variable {source filename : String} {m : Modifier} {path after : List Char}
  {env : Environment}

theorem Headed.scan
    (headed : Headed source m path after)
    {tokens : List Token}
    (reads : Reads .start (locationWord ++ [' '] ++ modifierText m ++ path ++
      [' ', '\x7b']) tokens) :
    Token.ofSource source = Token.prepend tokens (Token.scan ⟨2, 1⟩ after) := by
  have oneLine : '\n' ∉ locationWord ++ [' '] ++ modifierText m ++ path ++
      [' ', '\x7b'] := by
    have sign : '\n' ∉ modifierText m := by cases m <;> decide
    simp [locationWord, sign, headed.oneLine]
  rw [Token.ofSource_eq_scan, headed.whole, reads, Token.scan_blank (by decide),
    Position.advanceBy_of_oneLine oneLine]
  rfl

theorem Headed.exists_behind
    (headed : Headed source m path after)
    {tokens whole : List Token}
    (reads : Reads .start
      (locationWord ++ [' '] ++ modifierText m ++ path ++ [' ', '\x7b']) tokens)
    (read : Token.ofSource source = .ok whole) :
    ∃ ts, Token.scan ⟨2, 1⟩ after = .ok ts ∧ whole = tokens ++ ts := by
  rw [headed.scan reads] at read
  cases behind : Token.scan ⟨2, 1⟩ after with
  | error fault =>
      rw [behind] at read
      cases read
  | ok ts =>
      rw [behind, Token.prepend_ok] at read
      exact ⟨ts, rfl, (Except.ok.inj read).symm⟩

theorem Grammar.Phrase.exists_item
    (p : Phrase) (r : Reader) {s : Statement} {t : Token} {ts rest : List Token}
    (settled : p.statement? r.env = some s)
    (whole : p.tokens ++ rest = t :: ts) :
    ∃ i after, r.item t ts = .ok (i, after) := by
  cases p with
  | leaf l => exact ⟨_, _, Reader.item_leaf l settled whole⟩
  | group o body closing closes =>
      simp only [Phrase.statement?, Option.bind_eq_bind,
        Option.bind_eq_some_iff] at settled
      obtain ⟨h, heading, _⟩ := settled
      rw [Phrase.tokens, List.append_assoc, List.append_assoc] at whole
      exact ⟨_, _, Reader.item_opening o heading whole⟩

theorem Document.exists_phrase {s : Statement}
    (parsed : Document.parse env filename source = .ok ⟨[s], filename⟩) :
    ∃ (p : Phrase) (last : Token),
      Token.ofSource source = .ok (p.tokens ++ [last]) ∧
        p.statement? env = some s := by
  obtain ⟨ps, last, read, settled⟩ := exists_phrases parsed
  cases ps with
  | nil => cases settled
  | cons p ps =>
      simp only [statementsOf?, Option.bind_eq_bind,
        Option.bind_eq_some_iff] at settled
      obtain ⟨first, here, others, behind, ⟨⟩⟩ := settled
      obtain rfl : ps = [] := by
        cases ps with
        | nil => rfl
        | cons => simp [statementsOf?, Option.bind_eq_some_iff] at behind
      exact ⟨p, last, by simpa [tokensOf] using read, here⟩

theorem Document.parse_headed_iff
    (headed : Headed source m path after)
    {lexemes : List Lexeme}
    (spells : SpellsPath m path lexemes)
    {s : Statement} :
    parse env filename source = .ok ⟨[s], filename⟩ ↔
      ∃ children, Encloses env after children ∧
        s = .location m [String.ofList (lexemes.flatMap value)] children
          .start := by
  obtain ⟨o, reads, meaning⟩ := exists_location spells .start
  constructor
  · intro parsed
    obtain ⟨p, last, read, settled⟩ := exists_phrase parsed
    obtain ⟨ts, behind, same⟩ := headed.exists_behind reads read
    cases p with
    | leaf l => exact absurd same.symm Opening.tokens_append_ne_leaf
    | group o' body closing closes =>
        rw [Phrase.tokens, List.append_assoc, List.append_assoc] at same
        obtain ⟨rfl, rfl⟩ := Opening.eq_of_append_eq same.symm
        obtain ⟨brace, rfl⟩ := (o.closes_iff (meaning env) closing).1 closes
        simp only [Phrase.statement?, meaning, Option.bind_eq_bind,
          Option.bind_some, Option.bind_eq_some_iff] at settled
        obtain ⟨children, inside, ⟨⟩⟩ := settled
        exact ⟨children,
          ⟨body, brace, last, by simpa using behind, inside⟩, rfl⟩
  · rintro ⟨children, ⟨body, brace, last, behind, settled⟩, rfl⟩
    have scanned := headed.scan reads
    rw [behind, Token.prepend_ok] at scanned
    rw [parse_eq_ok_iff scanned]
    have closes : o.Closes [brace.1] :=
      (o.closes_iff (meaning env) _).2 ⟨brace, rfl⟩
    refine ⟨rfl, [.group o body [brace.1] closes], ?_, ?_⟩
    · simp [tokensOf, Phrase.tokens]
    · simp [statementsOf?, Phrase.statement?, meaning, settled, Heading.around]

theorem Headed.kinds
    (headed : Headed source m path after)
    {lexemes : List Lexeme}
    (spelling : Spelling path lexemes)
    (noBracket : ∀ lexeme ∈ lexemes, lexeme.kind ≠ .openBracket)
    {s : Statement}
    (parsed : Document.parse env filename source = .ok ⟨[s], filename⟩)
    {first : Lexeme}
    (begins : lexemes.head? = some first) :
    (m = .none → first.kind ≠ .inWord) ∧
      (m ≠ .none → first.kind.isName = true) := by
  obtain ⟨others, rfl⟩ := List.head?_eq_some_iff.1 begins
  obtain ⟨p, last, read, settled⟩ := Document.exists_phrase parsed
  obtain ⟨sign, brace, reads, unsigned⟩ :=
    reads_locationHeader m spelling .start
  obtain ⟨ts, _, whole⟩ := headed.exists_behind reads read
  rw [List.cons_append] at whole
  obtain ⟨i, rest, item⟩ := p.exists_item ⟨env, last⟩ settled whole
  rw [Reader.item, toToken] at item
  simp only [placed_cons, List.append_assoc, List.cons_append] at item
  have kinds := Reader.kinds_of_location (fun next member => ?_) item
  · exact ⟨fun none => kinds.1 (unsigned.2 none),
      fun signed => kinds.2 (mt unsigned.1 signed)⟩
  · cases others with
    | nil =>
        cases member
        simp
    | cons lexeme others =>
        cases member
        exact noBracket lexeme (by simp)

end Headed

theorem Lexeme.Spelling.head_eq
    {c : Char} {rest : List Char} {lexemes : List Lexeme} {lexeme : Lexeme}
    (spelling : Spelling (c :: rest) lexemes)
    (read : read? c rest = some lexeme) :
    lexemes.head? = some lexeme := by
  generalize whole : c :: rest = text at spelling
  cases spelling with
  | nil => cases whole
  | cons _ _ found _ =>
      obtain ⟨rfl, rfl⟩ := List.cons.inj whole
      exact found.symm.trans read

theorem Text.exists_append_headWord (text : List Char) :
    ∃ rest, text = headWord text ++ rest ∧ ∀ c ∈ rest.head?, c = '[' ∨ c = ']' ∨
      c = '=' := by
  refine ⟨_, List.takeWhile_append_dropWhile.symm, fun c begins => ?_⟩
  have stops :=
    List.head?_dropWhile_not (fun c => c != '[' && c != ']' && c != '=') text
  rw [Option.mem_def.1 begins] at stops
  simpa [or_iff_not_imp_left] using stops

structure Modifier.Precedes (m : Modifier) (path : List Char) : Prop where
  unequal : path.head? ≠ some '='
  notIn : m = .none → ¬ ['i', 'n', '='] <+: path

structure PlainPath (m : Modifier) (path : List Char) : Prop where
  filled : path ≠ []
  notIn : path ≠ ['i', 'n']
  signs : ∀ c ∈ path, Text.isPathSign c = true
  unsigned : m = .none → Modifier.ofPath? path = .none

namespace PlainPath

variable {m : Modifier} {path : List Char} (plainPath : PlainPath m path)

theorem of_splitPath {modifier : Modifier} {text rest : String}
    (plain : ∀ c ∈ text.toList, Text.isPathSign c = true)
    (split : modifier.splitPath text = (m, rest))
    (filled : rest ≠ "")
    (notIn : rest ≠ "in") :
    PlainPath m rest.toList where
  filled := by simpa using filled
  notIn := fun isIn => notIn (String.toList_injective isIn)
  signs := fun c member => plain c (Modifier.mem_of_splitPath split member)
  unsigned := by
    rintro rfl
    exact Modifier.ofPath?_of_splitPath_none split

theorem root : PlainPath .none "/".toList where
  filled := by decide
  notIn := by decide
  signs := List.all_eq_true.1 (by decide)
  unsigned := fun _ => rfl

include plainPath

theorem begins_in (word : Text.headWord path = ['i', 'n']) :
    ['i', 'n', '='] <+: path := by
  obtain ⟨rest, whole, stops⟩ := Text.exists_append_headWord path
  rw [word] at whole
  cases rest with
  | nil => exact absurd (whole.trans (List.append_nil _)) plainPath.notIn
  | cons c rest =>
      have sign := plainPath.signs c (by simp [whole])
      rcases stops c rfl with rfl | rfl | rfl
      · exact absurd sign (by decide)
      · exact absurd sign (by decide)
      · exact ⟨rest, whole.symm⟩

theorem exists_spelling :
    ∃ lexemes, Argument.ReadsBack path lexemes ∧ Spelling path lexemes ∧
      ∀ lexeme ∈ lexemes, lexeme.kind ≠ .openBracket := by
  have clean := Text.clean_of_isPathSign plainPath.filled plainPath.signs
  obtain ⟨lexemes, readsBack, parts⟩ := Argument.readsBack_of_clean clean
  have spelling := readsBack.spelling
  rw [Argument.quoteChars_of_clean clean] at spelling
  refine ⟨lexemes, readsBack, spelling, fun lexeme member isBracket => ?_⟩
  have inside : ∀ c ∈ lexeme.raw, c ∈ path := by
    intro c here
    rw [← spelling.flatMap_raw]
    exact List.mem_flatMap.2 ⟨lexeme, member, here⟩
  obtain ⟨part, clean⟩ := parts lexeme member
  cases clean with
  | bracket =>
      exact absurd (plainPath.signs '[' (inside _ (by simp [plain])))
        (by decide)
  | word =>
      rcases wordKind_cases (Text.headWord part) with
        ⟨_, kind⟩ | ⟨_, kind⟩ | kind <;> simp [plain, kind] at isBracket
  | _ => simp [plain] at isBracket

theorem precedes_of_kinds {lexemes : List Lexeme}
    (spelling : Spelling path lexemes)
    (kinds : ∀ {first}, lexemes.head? = some first → (m = .none →
      first.kind ≠ .inWord) ∧ (m ≠ .none → first.kind.isName = true)) :
    m.Precedes path := by
  constructor
  · intro isEquals
    obtain ⟨rest, rfl⟩ := List.head?_eq_some_iff.1 isEquals
    have signed : m ≠ .none :=
      fun none => by simpa [Modifier.ofPath?] using plainPath.unsigned none
    have isName := (kinds (spelling.head_eq rfl)).2 signed
    cases isName
  · rintro none ⟨rest, rfl⟩
    exact (kinds (spelling.head_eq rfl)).1 none rfl

theorem spellsPath
    (precedes : m.Precedes path)
    {lexemes : List Lexeme}
    (readsBack : Argument.ReadsBack path lexemes)
    (spelling : Spelling path lexemes) :
    SpellsPath m path lexemes := by
  refine ⟨spelling, readsBack.isTerm, fun lexeme member => ?_⟩
  rcases readsBack.begins lexeme member with isString | ⟨clean, cleanLexeme⟩
  · simp [isString, TokenKind.isName]
  · obtain ⟨_, isIn, _, isSign⟩ := cleanLexeme.headWord
    refine ⟨cleanLexeme.isName clean.begins precedes.unequal,
      fun none => ⟨fun kind => ?_, fun kind => ?_⟩⟩
    · exact precedes.notIn none (plainPath.begins_in (isIn kind))
    · simpa [plainPath.unsigned none] using isSign kind

/-- A text that begins with a header is read as a location exactly if the path
can follow the modifier and what is behind the header can be read. -/
theorem parse_iff
    {source filename : String} {after : List Char} {env : Environment}
    (headed : Headed source m path after)
    {s : Statement} :
    Document.parse env filename source = .ok ⟨[s], filename⟩ ↔
      m.Precedes path ∧ ∃ children, Encloses env after children ∧
        s = .location m [String.ofList path] children .start := by
  obtain ⟨lexemes, readsBack, spelling, noBracket⟩ := plainPath.exists_spelling
  have reads (precedes : m.Precedes path) :
      Document.parse env filename source = .ok ⟨[s], filename⟩ ↔
        ∃ children, Encloses env after children ∧
          s = .location m [String.ofList path] children .start := by
    rw [Document.parse_headed_iff headed
      (plainPath.spellsPath precedes readsBack spelling), readsBack.same]
  constructor
  · intro parsed
    have precedes := plainPath.precedes_of_kinds spelling
      (headed.kinds spelling noBracket parsed)
    exact ⟨precedes, (reads precedes).1 parsed⟩
  · rintro ⟨precedes, inside⟩
    exact (reads precedes).2 inside

end PlainPath

theorem Rendering.run_map_of_run
    {α β : Type} {x : Rendering α} {result : Except Failure α}
    {progress final : Progress}
    (ran : x.run.run progress = (result, final))
    (f : α → β) :
    (f <$> x).run.run progress = (result.map f, final) := by
  cases result with
  | error failure =>
      rw [map_eq_pure_bind, run_bind_of_error ran]
      rfl
  | ok a => exact run_map_of_ok ran f

theorem PlainPath.headed {modifier m : Modifier} {path rest : String}
    (plainPath : PlainPath m rest.toList)
    (split : modifier.splitPath path = (m, rest))
    (lines : List String) :
    Headed (Text.joinWith "\n"
      (enclosed "" (locationHeader modifier path) lines)) m rest.toList
      (Text.joinWith "\n" (lines ++ ["\x7d"])).toList := by
  have clean := Text.clean_of_isPathSign plainPath.filled plainPath.signs
  have header := toList_locationHeader modifier path
  rw [split, Argument.quoteChars_of_clean clean] at header
  constructor
  · obtain ⟨next, others, behind⟩ :=
      List.exists_cons_of_ne_nil (show lines ++ ["\x7d"] ≠ [] by simp)
    have whole : enclosed "" (locationHeader modifier path) lines =
        (locationHeader modifier path ++ " \x7b") :: next :: others := by
      simp [enclosed, ← behind]
    rw [whole, behind, Text.joinWith_cons_cons]
    simp [header]
  · intro feed
    exact absurd (not_blank_of_clean (clean.signs _ feed)) (by decide)

/-- The location with the statements of the document in it. -/
def Document.inLocation
    (document : Document) (modifier : Modifier) (path : String)
    (position : Position) :
    Document :=
  ⟨[.location modifier [path] document.children position], document.filename⟩

namespace Site

variable {site : Site} {indent : String} {document : Document}
  {modifier : Modifier} {path : String} {position : Position}

theorem levels_inLocation :
    site.levels (document.inLocation modifier path position) =
      site.levels document := by
  have same : (document.inLocation modifier path position).definitions.length =
      document.definitions.length := by
    simp [Document.length_definitions, Document.inLocation, walkIn_cons,
      Statement.children, Statement.isDefinition]
  rw [levels, levels, same]

theorem firstProgress_inLocation :
    firstProgress (document.inLocation modifier path position) =
      firstProgress document := by
  simp [firstProgress, Document.inLocation, Templates.collect, collectedIn,
    Statement.collected]

theorem linesWithin_inLocation
    (given : site.options.indent = .text indent)
    (levels : Nat) (scope : Scope) :
    site.linesWithin (levels + 1) scope 0
      (document.inLocation modifier path position).children =
      enclosed "" (locationHeader modifier path) <$>
        site.linesWithin (levels + 1) scope 1 document.children := by
  simp [Document.inLocation, linesWithin_succ, linesOf, Statement.lines,
    site.options.indentation_zero given]

theorem exists_inside
    (given : site.options.indent = .text indent)
    (document : Document) (origin : Option Path) :
    ∃ inside : Except Failure (List String), ∀ modifier path position,
      (site.render (document.inLocation modifier path position) origin).result =
        inside.map fun lines =>
          Text.joinWith "\n"
            (enclosed "" (locationHeader modifier path) lines) := by
  cases started : site.startScope origin with
  | error failure =>
      exact ⟨.error failure, fun _ _ _ => by rw [render, started]; rfl⟩
  | ok scope =>
      rcases ran : (site.linesWithin (site.levels document) scope 1
        document.children).run.run (firstProgress document) with
        ⟨inside, progress⟩
      refine ⟨inside, fun modifier path position => ?_⟩
      have whole : (site.linesWithin
          (site.levels (document.inLocation modifier path position)) scope 0
          (document.inLocation modifier path position).children).run.run
          (firstProgress (document.inLocation modifier path position)) =
          (inside.map (enclosed "" (locationHeader modifier path)),
          progress) := by
        rw [levels_inLocation, firstProgress_inLocation, levels,
          linesWithin_inLocation given, ← levels, Rendering.run_map_of_run ran]
      rw [render_eq_linesWithin started whole]
      cases inside with
      | error failure => rfl
      | ok lines =>
          have framed :
              Framed "" (enclosed "" (locationHeader modifier path) lines) :=
            framed_enclosed (shown_locationHeader modifier path)
          simp [Except.map, textOf, framed.trim_eq]

/-- What is written for the document is read as the statement. -/
def ReadsBack
    (site : Site) (origin : Option Path) (env : Environment)
    (document : Document) (s : Statement) :
    Prop :=
  ∃ text, (site.render document origin).result = .ok text ∧
    Document.parse env document.filename text = .ok ⟨[s], document.filename⟩

section ReadsBack

variable {origin : Option Path} {env : Environment} {m : Modifier}
  {rest : String}

/-- A location is read back with the modifier and the path that are written for
it, if there is one that can be read back with the same statements inside. -/
theorem readsBack_inLocation_iff
    (given : site.options.indent = .text indent)
    (inside : ∃ read,
      site.ReadsBack origin env (document.inLocation .none "/" position) read)
    (split : modifier.splitPath path = (m, rest))
    (plainPath : PlainPath m rest.toList)
    (own : Modifier) (ownPath : String) :
    (∃ children place,
      site.ReadsBack origin env (document.inLocation modifier path position)
      (.location own [ownPath] children place)) ↔
    m.Precedes rest.toList ∧ own = m ∧ ownPath = rest := by
  obtain ⟨written, rendered⟩ := exists_inside given document origin
  obtain ⟨read, text, shown, parsed⟩ := inside
  rw [rendered] at shown
  cases written with
  | error failure => cases shown
  | ok lines =>
      obtain rfl := Except.ok.inj shown
      -- Every header has the same text behind it, so what is read inside `/` is
      -- read here as well.
      have same : Modifier.none.splitPath "/" = (.none, "/") := rfl
      obtain ⟨_, children, encloses, _⟩ :=
        (PlainPath.root.parse_iff (PlainPath.root.headed same lines)).1 parsed
      have reads (s : Statement) :
          site.ReadsBack origin env
            (document.inLocation modifier path position) s ↔
            m.Precedes rest.toList ∧ ∃ children, Encloses env
              (Text.joinWith "\n" (lines ++ ["\x7d"])).toList children ∧
                s = .location m [rest] children .start := by
        rw [ReadsBack, rendered]
        simpa [Except.map] using plainPath.parse_iff
          (plainPath.headed split lines)
      constructor
      · rintro ⟨children, place, readsBack⟩
        obtain ⟨precedes, inner, _, ⟨⟩⟩ := (reads _).1 readsBack
        exact ⟨precedes, rfl, rfl⟩
      · rintro ⟨precedes, rfl, rfl⟩
        exact ⟨children, .start,
          (reads _).2 ⟨precedes, children, encloses, rfl⟩⟩

/-- How a location is matched is kept exactly if its path begins with no second
sign, and not like a list of paths. -/
theorem match_kept_iff
    (given : site.options.indent = .text indent)
    (inside : ∃ read,
      site.ReadsBack origin env (document.inLocation .none "/" position) read)
    (plain : ∀ c ∈ path.toList, Text.isPathSign c = true)
    (split : modifier.splitPath path = (m, rest))
    (filled : rest ≠ "")
    (notIn : rest ≠ "in") :
    (∃ own ownPath children place,
      site.ReadsBack origin env (document.inLocation modifier path position)
        (.location own [ownPath] children place) ∧
          own.splitPath ownPath = (m, rest)) ↔
      Modifier.ofPath? rest.toList = none ∧
        ¬ (m = .none ∧ ['i', 'n', '='] <+: rest.toList) := by
  have plainPath := PlainPath.of_splitPath plain split filled notIn
  have reads := readsBack_inLocation_iff given inside split plainPath
  constructor
  · rintro ⟨own, ownPath, children, place, readsBack, kept⟩
    obtain ⟨precedes, rfl, rfl⟩ :=
      (reads own ownPath).1 ⟨children, place, readsBack⟩
    exact ⟨Modifier.splitPath_eq_self_iff.1 kept,
      fun both => precedes.notIn both.1 both.2⟩
  · rintro ⟨unsigned, unlisted⟩
    have precedes : m.Precedes rest.toList := by
      refine ⟨fun isEquals => ?_, fun none begins => unlisted ⟨none, begins⟩⟩
      obtain ⟨behind, whole⟩ := List.head?_eq_some_iff.1 isEquals
      simp [whole, Modifier.ofPath?] at unsigned
    obtain ⟨children, place, readsBack⟩ := (reads m rest).2 ⟨precedes, rfl, rfl⟩
    exact ⟨m, rest, children, place, readsBack,
      Modifier.splitPath_eq_self_iff.2 unsigned⟩

/-- The modifier gives way to the first sign, and no other sign of the path is
at its front. -/
theorem match_kept_signed :
    let site : Site := { store := ⟨⟨["w"]⟩, []⟩ }
    let document : Document := ⟨[.directive "d" ["a b"] ⟨2, 1⟩], "f"⟩
    Modifier.regex.splitPath "^~/in=~x" = (.priority, "/in=~x") ∧
      ∃ own ownPath children place,
        site.ReadsBack none .empty
          (document.inLocation .regex "^~/in=~x" ⟨1, 1⟩)
          (.location own [ownPath] children place) ∧
        own.splitPath ownPath = (.priority, "/in=~x") := by
  intro site document
  have inside : ∃ read, site.ReadsBack none .empty
      (document.inLocation .none "/" ⟨1, 1⟩) read := by
    refine ⟨.location .none ["/"] [.directive "d" ["a b"] ⟨2, 3⟩] ⟨1, 1⟩,
      "location / \x7b\n  d \"a b\";\n\x7d", ?_, ?_⟩
    · decide +kernel
    · with_unfolding_all rfl
  have plain : ∀ c ∈ "^~/in=~x".toList, Text.isPathSign c = true :=
    List.all_eq_true.1 (by decide)
  have split : Modifier.regex.splitPath "^~/in=~x" = (.priority, "/in=~x") := by
    decide +kernel
  exact ⟨split, (match_kept_iff rfl inside plain split (by decide)
    (by decide)).2 ⟨by decide +kernel, by decide +kernel⟩⟩

/-- Of two signs the first is written as the modifier, and the second is taken
for a modifier when the location is written again. -/
theorem match_changed :
    let site : Site := { store := ⟨⟨["w"]⟩, []⟩ }
    let document : Document := ⟨[], "f"⟩
    Modifier.none.splitPath "=~x" = (.exact, "~x") ∧
      site.ReadsBack none .empty (document.inLocation .none "=~x" ⟨1, 1⟩)
        (.location .exact ["~x"] [] ⟨1, 1⟩) ∧
      Modifier.exact.splitPath "~x" = (.regex, "x") := by
  intro site document
  refine ⟨by decide +kernel,
    ⟨"location = ~x \x7b\n\x7d", ?_, ?_⟩, by decide +kernel⟩
  · decide +kernel
  · with_unfolding_all rfl

end ReadsBack

end Site

end ServerConf
