import ServerConf.Proofs.Containment
import ServerConf.Proofs.ImportCache
import ServerConf.Proofs.SourceOrder
import ServerConf.Proofs.TemplateFailures

/-!
The lines that a run writes. If no text in the document and in the files it
imports breaks a line, no step writes a line that is broken, and what is written
first and last is shown: nothing is lost when the text is trimmed.
-/

namespace ServerConf

open Lexeme Grammar

/-- No text that the statement writes breaks its line, and its name begins with
no blank. -/
def Statement.IsUnbroken : Statement → Prop
  | .directive name args _ | .block name args _ _ =>
    '\n' ∉ name.toList ∧ name.toList.head?.any Text.isBlank = false ∧
      ∀ arg ∈ args, '\n' ∉ arg.toList
  | .location _ paths _ _ => ∀ path ∈ paths, '\n' ∉ path.toList
  | _ => True

instance : DecidablePred Statement.IsUnbroken
  | .directive name args _ | .block name args _ _ =>
    inferInstanceAs (Decidable ('\n' ∉ name.toList ∧
      name.toList.head?.any Text.isBlank = false ∧
      ∀ arg ∈ args, '\n' ∉ arg.toList))
  | .location _ paths _ _ =>
      inferInstanceAs (Decidable (∀ path ∈ paths, '\n' ∉ path.toList))
  | .definition .. | .reference .. | .importFile .. | .stray .. =>
      isTrue trivial

structure Statement.IsNeat (s : Statement) : Prop where
  unbroken : s.IsUnbroken
  formed : s.IsWellFormed

def Neat (ss : List Statement) : Prop :=
  ∀ s ∈ walkIn ss, s.IsNeat

theorem neat_cons {s : Statement} {rest : List Statement} :
    Neat (s :: rest) ↔ s.IsNeat ∧ Neat s.children ∧ Neat rest := by
  simp only [Neat, mem_walkIn_cons, or_imp, forall_and, forall_eq]

theorem Neat.head {s : Statement} {rest : List Statement}
    (neat : Neat (s :: rest)) :
    Neat [s] :=
  neat_cons.2 ⟨(neat_cons.1 neat).1, (neat_cons.1 neat).2.1, by simp [Neat]⟩

theorem Neat.body {name : String} {body ss : List Statement} (neat : Neat ss)
    (member : (name, body) ∈ collectedIn ss) : Neat body :=
  fun s below => neat s (walkIn_body_subset member s below)

theorem Document.wellFormed_of_parse
    {env : Environment} {filename source : String} {document : Document}
    (parsed : parse env filename source = .ok document) :
    ∀ s ∈ document.walk, s.IsWellFormed := by
  obtain ⟨ps, last, scanned, meaning⟩ := exists_phrases parsed
  have tokens := Token.scanned_of_scan scanned
  exact (Grammar.walkIn_wellFormed meaning fun t member =>
    tokens.isTemplateName (List.mem_append_left _ member)).1

theorem shown_of_name {name : String}
    (filled : name ≠ "")
    (begins : name.toList.head?.any Text.isBlank = false) :
    Shown name.toList := by
  cases same : name.toList with
  | nil => exact absurd (String.toList_eq_nil_iff.1 same) filled
  | cons c rest =>
      rw [same] at begins
      exact ⟨c, rfl, begins⟩

def OneLine (text : String) : Prop :=
  '\n' ∉ text.toList

theorem OneLine.append {first second : String}
    (left : OneLine first)
    (right : OneLine second) :
    OneLine (first ++ second) := by
  simp only [OneLine, String.toList_append, List.mem_append, not_or]
  exact ⟨left, right⟩

theorem oneLine_joinWith {texts : List String}
    (each : ∀ text ∈ texts, OneLine text) :
    OneLine (Text.joinWith " " texts) := by
  cases texts with
  | nil => exact List.not_mem_nil
  | cons text texts =>
      induction texts generalizing text with
      | nil => exact each text (by simp)
      | cons next texts induction =>
          rw [Text.joinWith_cons_cons]
          rw [List.forall_mem_cons] at each
          exact (each.1.append (by simp [OneLine])).append
            (induction next each.2)

theorem oneLine_quote {value : String} (oneLine : OneLine value) :
    OneLine (Argument.quote value) := by
  rw [OneLine, Argument.quote, String.toList_ofList]
  exact Argument.newline_not_mem_quoteChars oneLine

theorem oneLine_arguments {args : List String}
    (each : ∀ arg ∈ args, OneLine arg) :
    OneLine (Argument.line args) := by
  induction args with
  | nil => simp [OneLine, Argument.line]
  | cons arg args induction =>
      rw [List.forall_mem_cons] at each
      have here : OneLine (" " ++ Argument.quote arg) :=
        .append (by simp [OneLine]) (oneLine_quote each.1)
      have whole : Argument.line (arg :: args) =
          " " ++ Argument.quote arg ++ Argument.line args := by
        simp [Argument.line, String.join_cons]
      rw [whole]
      exact here.append (induction each.2)

theorem oneLine_blockHeader {name : String} {args : List String}
    (named : OneLine name)
    (each : ∀ arg ∈ args, OneLine arg) :
    OneLine (blockHeader name args) := by
  unfold blockHeader
  split
  · exact (OneLine.append (by simp [OneLine]) (oneLine_joinWith each)).append
      (by simp [OneLine])
  · exact named.append (oneLine_arguments each)

theorem oneLine_templateName {name : String} (isName : IsTemplateName name) :
    OneLine name := by
  obtain ⟨⟨signs, same, _, each⟩, _⟩ := isName
  intro feed
  rw [same, List.mem_cons] at feed
  rcases feed with sign | inside
  · cases sign
  · rcases each _ inside with letter | sign
    · exact absurd letter (by decide)
    · cases sign

theorem mem_of_ofPath? {path rest : List Char} {modifier : Modifier}
    (found : Modifier.ofPath? path = some (modifier, rest))
    {c : Char}
    (member : c ∈ rest) :
    c ∈ path := by
  unfold Modifier.ofPath? at found
  split at found <;> cases found <;> simp [member]

theorem oneLine_splitPath {path : String}
    (oneLine : OneLine path)
    (modifier : Modifier) :
    OneLine (modifier.splitPath path).2 := by
  unfold Modifier.splitPath
  split
  · rename_i found
    intro feed
    rw [String.toList_ofList] at feed
    exact oneLine
      (mem_of_ofPath? found ((List.dropWhile_sublist _).subset feed))
  · exact oneLine

theorem oneLine_modifier (modifier : Modifier) : OneLine modifier.text := by
  cases modifier <;> simp [OneLine, Modifier.text]

theorem oneLine_locationHeader {path : String}
    (oneLine : OneLine path)
    (modifier : Modifier) :
    OneLine (locationHeader modifier path) := by
  have quoted := oneLine_quote (oneLine_splitPath oneLine modifier)
  have word : OneLine "location " := by simp [OneLine]
  simp only [locationHeader]
  split
  · exact word.append quoted
  · exact ((word.append (oneLine_modifier _)).append (by simp [OneLine])).append
      quoted

structure NeatLine (line : String) : Prop where
  oneLine : OneLine line
  ends : ∃ c, line.toList.getLast? = some c ∧ Text.isBlank c = false

theorem NeatLine.prepend {before ending : String} (oneLine : OneLine before)
    (neat : NeatLine ending) : NeatLine (before ++ ending) := by
  refine ⟨oneLine.append neat.oneLine, ?_⟩
  obtain ⟨c, last, shown⟩ := neat.ends
  exact ⟨c, by simp [List.getLast?_append, last], shown⟩

theorem neatLine_semicolon : NeatLine ";" :=
  ⟨by simp [OneLine], ';', by simp, by decide⟩

theorem neatLine_openBrace : NeatLine " \x7b" :=
  ⟨by simp [OneLine], '\x7b', by simp, by decide⟩

theorem neatLine_closeBrace : NeatLine "\x7d" :=
  ⟨by simp [OneLine], '\x7d', by simp, by decide⟩

theorem neatLine_closeParen : NeatLine ");" :=
  ⟨by simp [OneLine], ';', by simp, by decide⟩

namespace Task

def IsNeat : Task → Prop
  | .statements _ ss => Neat ss
  | .statement _ s => Neat [s]
  | .line text => NeatLine text
  | .leave _ => True

def AtMargin : List Task → Prop
  | [] => True
  | .line text :: _ => Shown text.toList
  | .leave _ :: tasks => AtMargin tasks
  | .statements depth _ :: tasks | .statement depth _ :: tasks =>
      depth = 0 ∧ AtMargin tasks

variable {options : RenderOptions} {depth : Nat} {header : String}
  {children : List Statement}

theorem isNeat_enclosed
    (oneLine : OneLine (options.indentation depth))
    (headed : OneLine header)
    (neat : Neat children) :
    ∀ task ∈ enclosed options depth header children, task.IsNeat := by
  simp only [enclosed, List.forall_mem_cons, IsNeat, List.not_mem_nil,
    false_imp_iff, implies_true, and_true]
  exact ⟨.prepend (oneLine.append headed) neatLine_openBrace, neat,
    .prepend oneLine neatLine_closeBrace⟩

end Task

theorem Statement.isNeat_tasks
    {options : RenderOptions} {depth : Nat} {s : Statement}
    (oneLine : OneLine (options.indentation depth))
    (neat : Neat [s]) :
    ∀ task ∈ s.tasks options depth, task.IsNeat := by
  obtain ⟨here, below, _⟩ := neat_cons.1 neat
  cases s with
  | definition | importFile | stray => simp [tasks]
  | directive name args position =>
      obtain ⟨named, _, each⟩ := here.unbroken
      refine List.forall_mem_singleton.2 (.prepend ?_ neatLine_semicolon)
      exact (oneLine.append named).append (oneLine_arguments each)
  | block name args children position =>
      obtain ⟨named, _, each⟩ := here.unbroken
      exact Task.isNeat_enclosed oneLine (oneLine_blockHeader named each) below
  | location modifier paths children position =>
      intro task member
      obtain ⟨path, among, member⟩ := List.mem_flatMap.1 member
      exact Task.isNeat_enclosed oneLine
        (oneLine_locationHeader (here.unbroken path among) modifier) below
          task member
  | reference name position =>
      refine List.forall_mem_singleton.2 (.prepend ?_ neatLine_closeParen)
      exact (oneLine.append (by simp [OneLine])).append
        (oneLine_templateName here.formed)

theorem Task.atMargin_line
    {options : RenderOptions} {text : String} {tasks : List Task}
    (margin : options.indentation 0 = "")
    (shown : Shown text.toList)
    (ending : String) :
    AtMargin (.line (options.indentation 0 ++ text ++ ending) :: tasks) := by
  rw [AtMargin, margin, String.empty_append, String.toList_append]
  exact shown.append _

theorem Statement.atMargin_tasks
    {options : RenderOptions} {s : Statement} {tasks : List Task}
    (margin : options.indentation 0 = "")
    (neat : s.IsNeat)
    (behind : Task.AtMargin tasks) :
    Task.AtMargin (s.tasks options 0 ++ tasks) := by
  cases s with
  | definition | importFile | stray => exact behind
  | directive name args position =>
      have shown := shown_of_name neat.formed neat.unbroken.2.1
      rw [Statement.tasks, String.append_assoc]
      exact Task.atMargin_line margin shown _
  | block name args children position =>
      have shown := shown_of_name neat.formed neat.unbroken.2.1
      exact Task.atMargin_line margin (shown_blockHeader shown args) _
  | location modifier paths children position =>
      cases paths with
      | nil => exact behind
      | cons path paths =>
          exact Task.atMargin_line margin (shown_locationHeader modifier path) _
  | reference name position =>
      rw [Statement.tasks, String.append_assoc]
      exact Task.atMargin_line margin ⟨'%', by simp, by decide⟩ _

namespace Progress

def Unbroken (p : Progress) : Prop :=
  ∀ entry ∈ p.cache, ∀ s ∈ entry.2.walk, s.IsUnbroken

structure IsNeat (p : Progress) : Prop where
  templates : ∀ name body, p.templates.get? name = some body → Neat body
  files : ∀ entry ∈ p.cache, ∀ s ∈ entry.2.walk, s.IsWellFormed

end Progress

namespace Site

variable {site : Site} {p q : Progress}

theorem load_ok {a : Address} {document : Document}
    (ran : (site.load a).run.run p = (.ok document, q)) :
    q.templates = p.templates ∧ p.cache ⊆ q.cache ∧ (a, document) ∈ q.cache ∧
      ∀ entry ∈ q.cache, entry ∈ p.cache ∨
        ∃ filename source,
          Document.parse site.env filename source = .ok entry.2 := by
  rcases load_cases ran with ⟨known, rfl⟩ | ⟨_, between, read, rfl⟩
  · exact ⟨rfl, List.Subset.refl _, Progress.mem_cache_of_lookup known,
      fun _ => .inl⟩
  · obtain ⟨templates, cache, source, parsed⟩ := readDocument_ok read
    simp only [cache, List.mem_append, List.mem_singleton]
    refine ⟨templates, List.subset_append_left .., .inr trivial,
      fun entry among => ?_⟩
    rcases among with before | rfl
    · exact .inl before
    · exact .inr ⟨_, source, parsed⟩

theorem enter_neat {scope later : Scope} {s : Statement} {ss : List Statement}
    (opens : s.opens site.options = true)
    (entered : (site.enter scope s).run.run p = (.ok (later, ss), q)) :
    p.cache ⊆ q.cache ∧ (q.Unbroken → p.IsNeat → q.IsNeat ∧ Neat ss) := by
  cases s with
  | directive | block | location | definition => cases opens
  | stray => exact (Rendering.not_fail_ok entered).elim
  | reference name position =>
      obtain ⟨rfl, _, _, known⟩ := enter_reference_ok entered
      exact ⟨List.Subset.refl _,
        fun _ neat => ⟨neat, neat.templates name ss known⟩⟩
  | importFile path position =>
      obtain ⟨a, between, target, loading⟩ := Rendering.of_bind_ok entered
      obtain ⟨rfl, _, _⟩ := importTarget_ok target
      obtain ⟨document, loaded, ran, collecting⟩ := Rendering.of_bind_ok loading
      obtain ⟨templates, grows, among, parsed⟩ := load_ok ran
      cases collecting
      refine ⟨grows, fun unbroken neat => ?_⟩
      have files :
          ∀ entry ∈ loaded.cache, ∀ s ∈ entry.2.walk, s.IsWellFormed := by
        intro entry member
        rcases parsed entry member with before | ⟨filename, source, parsed⟩
        · exact neat.files entry before
        · exact Document.wellFormed_of_parse parsed
      have here : Neat document.children := fun s below =>
        ⟨unbroken _ among s below, files _ among s below⟩
      refine ⟨⟨fun name body known => ?_, files⟩, here⟩
      rcases Templates.mem_of_get?_collect known with collected | before
      · exact here.body collected
      · rw [templates] at before
        exact neat.templates name body before

end Site

/-- All that was written and that is left to be written is neat, and the first
line stands at the margin. -/
structure Moment.IsNeat (m : Moment) : Prop where
  progress : m.progress.IsNeat
  tasks : ∀ task ∈ m.tasks, task.IsNeat
  lines : ∀ line ∈ m.lines, NeatLine line
  first : ∀ line ∈ m.lines.head?, Shown line.toList
  margin : m.lines = [] → Task.AtMargin m.tasks

namespace Site

variable {site : Site} {m later : Moment}

theorem Next.cache_subset (next : site.Next m later) :
    m.progress.cache ⊆ later.progress.cache := by
  cases next.advances with
  | line | leave | done | split | written => exact List.Subset.refl _
  | opened opens found => exact (enter_neat opens found).1

theorem Next.isNeat
    (oneLine : ∀ depth, OneLine (site.options.indentation depth))
    (margin : site.options.indentation 0 = "")
    (next : site.Next m later)
    (unbroken : later.progress.Unbroken)
    (neat : m.IsNeat) :
    later.IsNeat := by
  obtain ⟨progress, tasks, lines, first, begins⟩ := neat
  cases next.advances with
  | @line scope text rest written _ =>
      obtain ⟨here, behind⟩ := List.forall_mem_cons.1 tasks
      refine ⟨progress, behind, ?_, ?_, ?_⟩
      · exact List.forall_mem_append.2 ⟨lines, List.forall_mem_singleton.2 here⟩
      · cases written with
        | nil => exact fun _ same => Option.some.inj same ▸ begins rfl
        | cons line written => exact first
      · simp
  | leave =>
      exact ⟨progress, (List.forall_mem_cons.1 tasks).2, lines, first, begins⟩
  | done =>
      exact ⟨progress, (List.forall_mem_cons.1 tasks).2, lines, first,
        fun none => (begins none).2⟩
  | split =>
      obtain ⟨here, behind⟩ := List.forall_mem_cons.1 tasks
      refine ⟨progress, ?_, lines, first, fun none => ?_⟩
      · rw [List.forall_mem_cons, List.forall_mem_cons]
        exact ⟨Neat.head here, (neat_cons.1 here).2.2, behind⟩
      · exact ⟨(begins none).1, begins none⟩
  | opened opens found =>
      obtain ⟨here, behind⟩ := List.forall_mem_cons.1 tasks
      obtain ⟨progress, inner⟩ := (enter_neat opens found).2 unbroken progress
      refine ⟨progress, ?_, lines, first, begins⟩
      rw [List.forall_mem_cons, List.forall_mem_cons]
      exact ⟨inner, trivial, behind⟩
  | @written scope depth s _ _ _ closed =>
      obtain ⟨here, behind⟩ := List.forall_mem_cons.1 tasks
      refine ⟨progress, ?_, lines, first, fun none => ?_⟩
      · exact List.forall_mem_append.2
          ⟨Statement.isNeat_tasks (oneLine depth) here, behind⟩
      · obtain ⟨rfl, behind⟩ := begins none
        exact Statement.atMargin_tasks margin (neat_cons.1 here).1 behind

theorem Steps.isNeat
    (oneLine : ∀ depth, OneLine (site.options.indentation depth))
    (margin : site.options.indentation 0 = "")
    (steps : site.Steps m later)
    (unbroken : later.progress.Unbroken)
    (neat : m.IsNeat) :
    later.IsNeat := by
  induction steps with
  | refl => exact neat
  | tail _ next induction =>
      have before :=
        induction fun entry among => unbroken entry (next.cache_subset among)
      exact next.isNeat oneLine margin unbroken before

theorem neat_linesWithin
    (oneLine : ∀ depth, OneLine (site.options.indentation depth))
    (margin : site.options.indentation 0 = "")
    {levels : Nat} {scope : Scope} {ss : List Statement} {p q : Progress}
    {lines : List String}
    (ran : (site.linesWithin levels scope 0 ss).run.run p = (.ok lines, q))
    (written : Neat ss)
    (progress : p.IsNeat)
    (unbroken : q.Unbroken) :
    (∀ line ∈ lines, OneLine line) ∧ Framed "" lines := by
  have steps :=
    (site.performs_linesWithin levels scope 0 ss).ok p q lines ran [] []
  have started : Moment.IsNeat ⟨scope, [.statements 0 ss], [], p⟩ :=
    ⟨progress, List.forall_mem_singleton.2 written, by simp, by simp,
      fun _ => ⟨rfl, trivial⟩⟩
  obtain ⟨_, _, neat, first, _⟩ := steps.isNeat oneLine margin unbroken started
  refine ⟨fun line member => (neat line member).oneLine, fun line head => ?_,
    fun line last => ?_⟩
  · exact ⟨line.toList, by simp, first line head⟩
  · exact (neat line (List.mem_of_mem_getLast? last)).ends

end Site

end ServerConf
