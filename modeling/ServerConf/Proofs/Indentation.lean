import ServerConf.Proofs.WrittenLines

/-!
Indentation. Statements that are written one level deeper have the same lines
with one more indent before each, whatever templates and files they come from.
So the text of a document in a block is the text of the document, each line of
it indented once.
-/

namespace ServerConf

def indented (indent : String) (lines : List String) : List String :=
  lines.map (indent ++ ·)

theorem RenderOptions.indentation_zero
    {options : RenderOptions} {indent : String}
    (given : options.indent = .text indent) :
    options.indentation 0 = "" := by
  simp [indentation, given]

theorem RenderOptions.indentation_succ
    {options : RenderOptions} {indent : String}
    (given : options.indent = .text indent)
    (depth : Nat) :
    options.indentation (depth + 1) = indent ++ options.indentation depth := by
  simp [indentation, given, List.replicate_succ, String.join_cons]

theorem flatten_indented (indent : String) (parts : List (List String)) :
    (parts.map (indented indent)).flatten = indented indent parts.flatten :=
  List.map_flatten.symm

theorem enclosed_indented
    (indent indentation header : String) (inner : List String) :
    enclosed (indent ++ indentation) header (indented indent inner) =
      indented indent (enclosed indentation header inner) := by
  simp [enclosed, indented, String.append_assoc]

theorem Rendering.mapM_map
    {α β γ : Type} (change : β → γ) (f : α → Rendering β) (items : List α) :
    (items.mapM fun item => change <$> f item) =
      List.map change <$> items.mapM f := by
  induction items with
  | nil => simp
  | cons item items induction =>
      rw [List.mapM_cons, List.mapM_cons, induction]
      simp

theorem Rendering.run_map_of_ok
    {α β : Type} {x : Rendering α} {a : α} {progress final : Progress}
    (ran : x.run.run progress = (.ok a, final))
    (f : α → β) :
    (f <$> x).run.run progress = (.ok (f a), final) := by
  rw [map_eq_pure_bind, run_bind_of_ok ran]
  rfl

structure Handlers.Indent (handlers : Handlers) (indent : String) : Prop where
  reference :
    ∀ depth name position, handlers.reference (depth + 1) name position =
    indented indent <$> handlers.reference depth name position
  importFile : ∀ depth path, handlers.importFile (depth + 1) path =
    indented indent <$> handlers.importFile depth path

section Deeper

variable {options : RenderOptions} {handlers : Handlers} {indent : String}

theorem enclosing_succ
    (given : options.indent = .text indent)
    (depth : Nat) (header : String) {deeper inner : Rendering (List String)}
    (inside : deeper = indented indent <$> inner) :
    (do return enclosed (options.indentation (depth + 1)) header (← deeper)) =
      indented indent <$>
        (do return enclosed (options.indentation depth) header (← inner)) := by
  rw [inside, options.indentation_succ given]
  simp [enclosed_indented]

theorem Statement.lines_succ
    (given : options.indent = .text indent)
    (handled : handlers.Indent indent)
    (s : Statement) (depth : Nat)
    (inside : linesOf options handlers (depth + 2) s.children =
      indented indent <$> linesOf options handlers (depth + 1) s.children) :
    s.lines options handlers (depth + 1) =
      indented indent <$> s.lines options handlers depth := by
  have deeper := options.indentation_succ given depth
  cases s with
  | directive name args position =>
      simp [lines, deeper, indented, String.append_assoc]
  | block name args body position => exact enclosing_succ given depth _ inside
  | location modifier paths body position =>
      rw [Statement.children] at inside
      have each : ∀ path, _ := fun path =>
        enclosing_succ given depth (locationHeader modifier path) inside
      simp only [lines, each, Rendering.mapM_map]
      simp [flatten_indented]
  | definition => simp [lines, indented]
  | reference name position =>
      rw [lines, lines]
      split
      · exact handled.reference depth name position
      · simp [deeper, indented, String.append_assoc]
  | importFile path position => exact handled.importFile depth path
  | stray => rfl

theorem linesOf_succ
    (given : options.indent = .text indent)
    (handled : handlers.Indent indent)
    (ss : List Statement) :
    ∀ depth, linesOf options handlers (depth + 1) ss =
      indented indent <$> linesOf options handlers depth ss := by
  induction ss using statementRecursion with
  | nil => simp [linesOf, indented]
  | cons s rest inside behind =>
      intro depth
      rw [linesOf, linesOf,
        s.lines_succ given handled depth (inside (depth + 1)), behind]
      simp [indented]

end Deeper

namespace Site

variable {site : Site} {indent : String}

theorem linesWithin_succ_depth
    (given : site.options.indent = .text indent)
    (levels : Nat) :
    ∀ scope depth ss, site.linesWithin levels scope (depth + 1) ss =
      indented indent <$> site.linesWithin levels scope depth ss := by
  induction levels with
  | zero =>
      intro scope depth ss
      rfl
  | succ levels induction =>
      intro scope depth ss
      rw [linesWithin_succ, linesWithin_succ]
      refine linesOf_succ given ⟨fun depth name position => ?_,
        fun depth path => ?_⟩ ss depth
      · simp only [handlers, induction, map_bind]
      · simp only [handlers, induction, map_bind]

end Site

theorem Text.splitOn_joinWith {lines : List String} (some : lines ≠ [])
    (each : ∀ line ∈ lines, OneLine line) :
    (joinWith "\n" lines).toList.splitOn '\n' = lines.map String.toList := by
  rw [toList_joinWith]
  apply List.splitOn_intercalate
  · intro line member
    obtain ⟨line, among, rfl⟩ := List.mem_map.1 member
    exact each line among
  · simpa using some

/-- The document with all its statements in one block. -/
def Document.inBlock
    (document : Document) (name : String) (position : Position) :
    Document :=
  { document with children := [.block name [] document.children position] }

namespace Site

variable {site : Site} {indent name : String} {document : Document}
  {position : Position}

theorem levels_inBlock :
    site.levels (document.inBlock name position) = site.levels document := by
  have same : (document.inBlock name position).definitions.length =
      document.definitions.length := by
    simp [Document.length_definitions, Document.inBlock, walkIn_cons,
      Statement.children, Statement.isDefinition]
  rw [levels, levels, same]

theorem firstProgress_inBlock :
    firstProgress (document.inBlock name position) =
      firstProgress document := by
  simp [firstProgress, Document.inBlock, Templates.collect, collectedIn,
    Statement.collected]

theorem linesWithin_inBlock
    (given : site.options.indent = .text indent)
    (other : name ≠ "if")
    (levels : Nat) (scope : Scope) :
    site.linesWithin (levels + 1) scope 0
      (document.inBlock name position).children =
      (enclosed "" name ∘ indented indent) <$>
        site.linesWithin (levels + 1) scope 0 document.children := by
  have margin := site.options.indentation_zero given
  have header : blockHeader name [] = name := by
    simp [blockHeader, other, Argument.line]
  have deeper :=
    linesWithin_succ_depth given (levels + 1) scope 0 document.children
  rw [linesWithin_succ] at deeper
  simp only [Document.inBlock, linesWithin_succ, linesOf, Statement.lines,
    deeper, margin, header]
  simp only [bind_pure_comp, Functor.map_map, map_pure, List.append_nil,
    bind_pure]
  rfl

theorem oneLine_indentation
    (given : site.options.indent = .text indent)
    (oneLine : OneLine indent)
    (depth : Nat) :
    OneLine (site.options.indentation depth) := by
  induction depth with
  | zero => simp [OneLine, site.options.indentation_zero given]
  | succ depth induction =>
      rw [site.options.indentation_succ given]
      exact oneLine.append induction

theorem isNeat_firstProgress (neat : Neat document.children) :
    (firstProgress document).IsNeat := by
  refine ⟨fun name body known => ?_, by simp [firstProgress]⟩
  rcases Templates.mem_of_get?_collect known with collected | before
  · exact neat.body collected
  · cases before

theorem exists_lines {origin : Option Path} {text : String}
    (rendered : (site.render document origin).result = .ok text) :
    ∃ scope lines progress, site.startScope origin = .ok scope ∧
      (site.linesWithin (site.levels document) scope 0
        document.children).run.run
        (firstProgress document) = (.ok lines, progress) ∧
      textOf lines = text ∧
        (site.render document origin).progress = progress := by
  cases started : site.startScope origin with
  | error failure =>
      rw [render, started] at rendered
      cases rendered
  | ok scope =>
      rcases ran : (site.linesWithin (site.levels document) scope 0
        document.children).run.run (firstProgress document) with
        ⟨failure | lines, progress⟩
      · rw [render_eq_linesWithin started ran] at rendered
        cases rendered
      · have whole := render_eq_linesWithin started ran
        rw [whole] at rendered
        exact ⟨scope, lines, progress, rfl, ran,
          Except.ok.inj rendered, by rw [whole]⟩

/-- A document that is put into a block has the same text, in the block and with
each line indented once, if no text in it or in a file it imports breaks a
line. -/
theorem render_inBlock
    {env : Environment} {filename source text : String} {origin : Option Path}
    (parsed : Document.parse env filename source = .ok document)
    (unbroken : ∀ s ∈ document.walk, s.IsUnbroken)
    (imported : ∀ entry ∈ (site.render document origin).progress.cache,
      ∀ s ∈ entry.2.walk, s.IsUnbroken)
    (given : site.options.indent = .text indent)
    (oneLine : '\n' ∉ indent.toList)
    (rendered : (site.render document origin).result = .ok text)
    (some : text ≠ "")
    {name : String}
    (shown : Shown name.toList)
    (other : name ≠ "if")
    (position : Position) :
    (site.render (document.inBlock name position) origin).result =
      .ok (Text.joinWith "\n" ((name ++ " \x7b") ::
        (text.toList.splitOn '\n').map
          (fun line => indent ++ String.ofList line) ++
          ["\x7d"])) := by
  obtain ⟨scope, lines, progress, started, ran, same, final⟩ :=
    exists_lines rendered
  rw [final] at imported
  have margin := site.options.indentation_zero given
  have neat : Neat document.children := fun s below =>
    ⟨unbroken s below, Document.wellFormed_of_parse parsed s below⟩
  obtain ⟨each, framed⟩ := neat_linesWithin (oneLine_indentation given oneLine)
    margin ran neat (isNeat_firstProgress neat) imported
  rw [textOf, framed.trim_eq, String.ofList_toList] at same
  have filled : lines ≠ [] := by
    rintro rfl
    exact some same.symm
  have inBlock :
      (site.linesWithin (site.levels (document.inBlock name position)) scope 0
      (document.inBlock name position).children).run.run
      (firstProgress (document.inBlock name position)) =
      (.ok (enclosed "" name (indented indent lines)), progress) := by
    rw [levels_inBlock, firstProgress_inBlock, levels,
      linesWithin_inBlock given other]
    exact Rendering.run_map_of_ok ran _
  have whole : Framed "" (enclosed "" name (indented indent lines)) :=
    framed_enclosed shown
  rw [render_eq_linesWithin started inBlock, Except.map, textOf, whole.trim_eq,
    String.ofList_toList, ← same, Text.splitOn_joinWith filled each]
  simp [enclosed, indented, Function.comp_def]

/-- The lines of the imported file are indented with the others. -/
theorem render_inBlock_imported :
    let site : Site := { store := ⟨⟨["w"]⟩, [(⟨["w"]⟩, .directory),
      (⟨["w", "m"]⟩, .file "t \x7b x; \x7d".toUTF8)]⟩ }
    let document : Document :=
      ⟨[.importFile "m" ⟨1, 1⟩, .directive "d" ["a b"] ⟨1, 14⟩], "f"⟩
    (site.render document none).result = .ok "t \x7b\n  x;\n\x7d\nd \"a b\";" ∧
      (site.render (document.inBlock "http" ⟨1, 1⟩) none).result =
        .ok "http \x7b\n  t \x7b\n    x;\n  \x7d\n  d \"a b\";\n\x7d" := by
  intro site document
  have parsed :
      Document.parse .empty "f" "%import('m');d 'a b';" = .ok document := by
    with_unfolding_all rfl
  have unbroken : ∀ s ∈ document.walk, s.IsUnbroken := by decide +kernel
  have imported : ∀ entry ∈ (site.render document none).progress.cache,
      ∀ s ∈ entry.2.walk, s.IsUnbroken := by
    decide +kernel
  have rendered : (site.render document none).result =
      .ok "t \x7b\n  x;\n\x7d\nd \"a b\";" := by
    decide +kernel
  have shown : Shown "http".toList := ⟨'h', by simp, by decide⟩
  have inBlock := render_inBlock parsed unbroken imported rfl (by decide)
    rendered (by decide) shown (by decide) ⟨1, 1⟩
  refine ⟨rendered, inBlock.trans ?_⟩
  decide +kernel

end Site

end ServerConf
