import ServerConf.CommandLine.Session
import ServerConf.Proofs.Changes
import ServerConf.Proofs.Loading

/-!
Runs of the command line that keep no log among the files. Such a run touches
the files only to write the configuration, and its exit code says whether
everything it was asked to do came about.
-/

namespace ServerConf

theorem Log.Handlers.emit_store {handlers : Handlers}
    (unfiled : handlers.file = none)
    (now : Moment) (record : Record) (store : FileStore) :
    (handlers.emit now record store).2 = store := by
  rw [emit, unfiled]
  split
  · split <;> rfl
  · split <;> rfl

theorem Log.setup_of_disabled {config : Config}
    (disabled : config.fileEnabled = false)
    (terminal : Bool) (store : FileStore) :
    ∃ handlers opened, setup config terminal store = (handlers, opened, store) ∧
      handlers.file = none := by
  rw [setup]
  split
  · rw [install, disabled]
    exact ⟨_, _, rfl, rfl⟩
  · exact ⟨_, _, rfl, rfl⟩

theorem Path.splitName_append (name : List Char) :
    (splitName name).1 ++ (splitName name).2 = name := by
  have whole := @List.takeWhile_append_dropWhile _ (· ≠ '.') name.reverse
  rw [splitName]
  split
  · simp
  · rename_i dot stem after
    rw [after] at whole
    simpa using congrArg List.reverse whole

theorem Path.stemAndSuffix_append (p : Path) :
    p.stemAndSuffix.1 ++ p.stemAndSuffix.2 = p.name := by
  rw [stemAndSuffix]
  split
  · rw [← String.ofList_append, splitName_append, String.ofList_toList]
  · simp

theorem exists_of_defaultOutput {input output : Path}
    (chosen : defaultOutput input = .ok output) :
    ∃ stem, output = { input with
        parts :=
          input.parts.dropLast ++ [stem ++ Application.outputExtension] } ∧
      stem ++ Application.outputExtension ≠ input.name := by
  rw [defaultOutput, Path.withName?] at chosen
  by_cases root : input.parts.isEmpty = true
  · rw [if_pos root] at chosen
    cases chosen
  · rw [if_neg root] at chosen
    cases chosen
    by_cases source : input.suffix = Application.sourceExtension
    · rw [if_pos source]
      refine ⟨_, rfl, ?_⟩
      rw [← input.stemAndSuffix_append]
      change _ ≠ _ ++ input.suffix
      rw [source]
      intro same
      exact absurd ((String.append_right_inj _).1 same) (by decide)
    · rw [if_neg source]
      refine ⟨_, rfl, ?_⟩
      intro same
      have length := congrArg String.length same
      rw [String.length_append] at length
      change _ + 5 = _ at length
      omega

theorem defaultOutput_ne {input output : Path}
    (chosen : defaultOutput input = .ok output) :
    output ≠ input := by
  obtain ⟨stem, rfl, other⟩ := exists_of_defaultOutput chosen
  intro same
  apply other
  rw [← same]
  simp [Path.name]

theorem outputExtension_ne (stem : String) :
    ".." ≠ stem ++ Application.outputExtension := by
  intro same
  have length := congrArg String.length same
  rw [String.length_append] at length
  change 2 = stem.length + 5 at length
  omega

namespace CommandLine

namespace Options

def writes (o : Options) : Bool :=
  !o.stdout && !o.validateOnly

def validates (o : Options) : Bool :=
  o.validate || o.validateOnly

end Options

namespace World

def inputPath (w : World) (o : Options) : Except Failure Path :=
  ((Path.ofString o.input).resolve? w.store.cwd).map Address.toPath

def compiled (w : World) (options : RenderOptions) (input : Path) :
    Except CompileFailure String :=
  (({ options, env := w.env } : Compiler).compileFile w.store input).result

def Writes (w : World) (o : Options) (input : Path) (text : String) : Prop :=
  ∃ output after, Run.outputPath w o input = .ok output ∧
    (writeOutput text output).on w.store = (.ok (), after)

def Validates (w : World) (o : Options) (text : String) : Prop :=
  ∃ verdict programs,
    o.validator.validate w.config text { w.programs with log := [] } =
    (.ok verdict, programs) ∧ verdict.isValid = true

/-- The input is there and compiles, and with its text everything asked for
comes about. -/
def Succeeds (w : World) (o : Options) (input : Path) : Prop :=
  (∃ entry, w.store.find? input = .ok (some entry)) ∧
    ∃ text, w.compiled o.renderOptions input = .ok text ∧
      (o.writes = true → w.Writes o input text) ∧
        (o.validates = true → w.Validates o text)

end World

structure Leaves (w : World) (o : Options) (input : Path) (after : FileStore) :
    Prop where
  files : ∀ a, w.store.Keeps after a ∨
    Run.outputPath w o input = .ok a.toPath ∧
      ∃ text, w.compiled o.renderOptions input = .ok text ∧
        after.get? a = some (.file (Text.Utf8.encode (text ++ "\n")))
  untouched : (o.writes = false ∨ w.store.find? input = .ok none ∨
    ∀ text, w.compiled o.renderOptions input ≠ .ok text) → after = w.store
  written : ∀ text, o.writes = true →
    w.compiled o.renderOptions input = .ok text →
    w.Writes o input text → ∃ a, Run.outputPath w o input = .ok a.toPath ∧
      after.get? a = some (.file (Text.Utf8.encode (text ++ "\n")))

/-- What a run reports is what it has done. -/
structure Reports
    (w : World) (o : Options) (input : Path) (code : Nat) (s : Session) :
    Prop where
  code : code = 0 ∧ w.Succeeds o input ∨ code = 1 ∧ ¬ w.Succeeds o input
  leaves : Leaves w o input s.store
  printed : o.stdout = true → o.validates = false →
    ∀ text, w.compiled o.renderOptions input = .ok text →
      s.stdout = text ++ "\n"

namespace Leaves

variable {w : World} {o : Options} {input : Path} {text : String}

theorem refl
    (idle : o.writes = false ∨
      ∀ text, w.compiled o.renderOptions input ≠ .ok text) :
    Leaves w o input w.store where
  files := fun a => .inl (.refl w.store a)
  untouched := fun _ => rfl
  written := by
    intro text writes compiled
    cases idle with
    | inl not => cases not.symm.trans writes
    | inr none => cases none text compiled

theorem of_write
    (found : ∃ entry, w.store.find? input = .ok (some entry))
    (compiled : w.compiled o.renderOptions input = .ok text)
    (writes : o.writes = true)
    {b : Address}
    (settled : ".." ∉ b.parts)
    (chosen : Run.outputPath w o input = .ok b.toPath)
    {result : Except Failure Unit} {after : FileStore}
    (put : (writeOutput text b.toPath).on w.store = (result, after)) :
    Leaves w o input after := by
  have meets :=
    Change.put_meets settled (Text.Utf8.encode (text ++ "\n")) w.store
  have busy : ¬ (o.writes = false ∨ w.store.find? input = .ok none ∨
      ∀ text, w.compiled o.renderOptions input ≠ .ok text) := by
    obtain ⟨entry, there⟩ := found
    simp [writes, there, compiled]
  cases result with
  | error f =>
      refine ⟨fun a => .inl (meets.error f after put a),
        fun idle => absurd idle busy, ?_⟩
      intro other _ same succeeds
      obtain ⟨output, store, there, again⟩ := succeeds
      cases compiled.symm.trans same
      cases chosen.symm.trans there
      cases put.symm.trans again
  | ok =>
      obtain ⟨there, elsewhere⟩ := meets.ok () after put
      refine ⟨?_, fun idle => absurd idle busy, ?_⟩
      · intro a
        by_cases same : a = b
        · exact .inr ⟨same ▸ chosen, text, compiled, same ▸ there⟩
        · exact .inl (elsewhere a same)
      · intro other _ same _
        cases compiled.symm.trans same
        exact ⟨b, chosen, there⟩

end Leaves

theorem exists_address_of_outputPath
    {w : World} {o : Options} {a : Address} {output : Path}
    (settled : ".." ∉ a.parts)
    (chosen : Run.outputPath w o a.toPath = .ok output) :
    ∃ b : Address, output = b.toPath ∧ ".." ∉ b.parts := by
  rw [Run.outputPath] at chosen
  split at chosen
  · obtain ⟨stem, same, _⟩ := exists_of_defaultOutput chosen
    refine
      ⟨⟨a.parts.dropLast ++ [stem ++ Application.outputExtension]⟩, same, ?_⟩
    intro member
    cases List.mem_append.1 member with
    | inl above => exact settled (List.dropLast_subset _ above)
    | inr last => exact outputExtension_ne stem (List.mem_singleton.1 last)
  · rename_i text _
    cases resolved : (Path.ofString text).resolve? w.store.cwd with
    | error f =>
        rw [resolved] at chosen
        cases chosen
    | ok b =>
        rw [resolved] at chosen
        cases chosen
        exact ⟨b, rfl, Path.not_mem_of_resolve? resolved⟩

namespace Run

variable {w : World} {o : Options} {s : Session} {text : String}

def Remarks (step : Run Unit) : Prop :=
  ∀ s : Session, s.handlers.file = none →
    Meets step s (fun _ t => ∃ stderr, t = { s with stderr }) (fun _ _ => True)

theorem log_remarks (w : World) (e : Log.Event) : Remarks (log w e) := by
  intro s unfiled
  apply Meets.of_modify
  have kept := Log.Handlers.emit_store unfiled w.now e.record s.store
  dsimp only
  rw [kept]
  exact ⟨_, rfl⟩

theorem printError_remarks (line : String) : Remarks (printError line) :=
  fun _ _ => .of_modify ⟨_, rfl⟩

theorem forM_remarks {α : Type} {step : α → Run Unit}
    (each : ∀ a, Remarks (step a))
    (l : List α) :
    Remarks (l.forM step) := by
  induction l with
  | nil => exact fun s _ => .of_pure ⟨s.stderr, rfl⟩
  | cons a l induction =>
      intro s unfiled
      rw [List.forM]
      apply (each a s unfiled).bind
      intro _ t same
      obtain ⟨stderr, rfl⟩ := same
      exact induction _ unfiled

theorem logAll_remarks (w : World) (events : List Log.Event) :
    Remarks (logAll w events) :=
  forM_remarks (log_remarks w) events

theorem ofExcept_meets {α : Type} (r : Except Failure α) (s : Session) :
    Meets (ofExcept r) s (fun a t => r = .ok a ∧ t = s) (fun _ _ => True) := by
  cases r with
  | ok a => exact .of_pure ⟨rfl, rfl⟩
  | error f => exact .of_throw trivial

theorem validate_meets
    (unfiled : s.handlers.file = none)
    (programs : s.programs = w.programs) :
    Meets (validate w o text) s
      (fun code t => t.store = s.store ∧
        (code = 0 ∧ w.Validates o text ∨ code = 1 ∧ ¬ w.Validates o text))
      (fun _ _ => True) := by
  rw [validate]
  apply (log_remarks w _ s unfiled).bind
  intro _ t same
  obtain ⟨stderr, rfl⟩ := same
  apply Meets.of_get
  rw [programs]
  cases ran :
    o.validator.validate w.config text { w.programs with log := [] } with
  | mk result after =>
      apply (Meets.of_modify (P :=
        fun _ t => t.handlers = s.handlers ∧ t.store = s.store) ⟨rfl, rfl⟩).bind
      intro _ t same
      apply (logAll_remarks w after.log t (same.1 ▸ unfiled)).bind
      intro _ u said
      obtain ⟨stderr, rfl⟩ := said
      apply (ofExcept_meets result _).bind
      intro verdict u came
      obtain ⟨rfl, rfl⟩ := came
      apply (forM_remarks (fun _ => printError_remarks _) verdict.warnings _
        (same.1 ▸ unfiled)).bind
      intro _ u said
      obtain ⟨stderr, rfl⟩ := said
      by_cases valid : verdict.isValid = true
      · rw [if_pos valid]
        apply (Meets.of_modify (P := fun _ t => t.store = s.store) same.2).bind
        intro _ u kept
        exact .of_pure ⟨kept, .inl ⟨rfl, verdict, after, ran, valid⟩⟩
      · rw [if_neg valid]
        have invalid : ¬ w.Validates o text := by
          rintro ⟨other, _, again, good⟩
          cases ran.symm.trans again
          exact valid good
        apply (printError_remarks _ _ (same.1 ▸ unfiled)).bind
        intro _ u said
        obtain ⟨stderr, rfl⟩ := said
        apply (forM_remarks (fun _ => printError_remarks _) verdict.errors _
          (same.1 ▸ unfiled)).bind
        intro _ u said
        obtain ⟨stderr, rfl⟩ := said
        exact .of_pure ⟨same.2, .inr ⟨rfl, invalid⟩⟩

theorem write_meets (text : String) (output : Path) (s : Session) :
    Meets (write text output) s
      (fun done t => t.handlers = s.handlers ∧ t.programs = s.programs ∧
        ∃ result, (writeOutput text output).on s.store = (result, t.store) ∧
          (done = true ↔ result = .ok ()))
      (fun _ _ => True) := by
  rw [write]
  apply Meets.of_get
  cases ran : (writeOutput text output).on s.store with
  | mk result after =>
      apply (Meets.of_modify (P := fun _ t => t.handlers = s.handlers ∧
        t.programs = s.programs ∧ t.store = after) ⟨rfl, rfl, rfl⟩).bind
      intro _ t same
      obtain ⟨handlers, programs, rfl⟩ := same
      split
      · apply (Meets.of_modify (P := fun _ u => u.handlers = s.handlers ∧
          u.programs = s.programs ∧
            u.store = t.store) ⟨handlers, programs, rfl⟩).bind
        intro _ u same
        exact .of_pure ⟨same.1, same.2.1, .ok (), by rw [same.2.2], by simp⟩
      · apply (Meets.of_modify (P := fun _ u => u.handlers = s.handlers ∧
          u.programs = s.programs ∧
            u.store = t.store) ⟨handlers, programs, rfl⟩).bind
        intro _ u same
        exact .of_pure ⟨same.1, same.2.1, _, by rw [same.2.2], by simp⟩
      · exact .of_throw trivial

structure Begun (w : World) (s : Session) : Prop where
  store : s.store = w.store
  programs : s.programs = w.programs
  stdout : s.stdout = ""
  unfiled : s.handlers.file = none

structure Delivered
    (w : World) (o : Options) (input : Path) (text : String) (done : Bool)
    (s : Session) :
    Prop where
  unfiled : s.handlers.file = none
  programs : s.programs = w.programs
  done : done = true ↔ (o.writes = true → w.Writes o input text)
  leaves : Leaves w o input s.store
  printed : o.stdout = true → s.stdout = text ++ "\n"

theorem print_delivers {input : Path}
    (begun : Begun w s)
    (asked : o.stdout = true) :
    Meets (print text) s (fun _ t => Delivered w o input text true t)
      (fun _ _ => True) := by
  have idle : o.writes = false := by simp [Options.writes, asked]
  apply Meets.of_modify
  refine ⟨begun.unfiled, begun.programs, by simp [idle], ?_, ?_⟩
  · rw [begun.store]
    exact .refl (.inl idle)
  · intro _
    rw [begun.stdout]
    simp

section Finish

variable {input : Path}
  (found : ∃ entry, w.store.find? input = .ok (some entry))
  (compiled : w.compiled o.renderOptions input = .ok text)

include found compiled

theorem succeeds_iff :
    w.Succeeds o input ↔
      (o.writes = true → w.Writes o input text) ∧
        (o.validates = true → w.Validates o text) := by
  constructor
  · rintro ⟨_, other, same, did⟩
    cases compiled.symm.trans same
    exact did
  · exact fun did => ⟨found, text, compiled, did⟩

theorem validate_reports
    (unfiled : s.handlers.file = none)
    (programs : s.programs = w.programs)
    (leaves : Leaves w o input s.store)
    (written : o.writes = true → w.Writes o input text)
    (asked : o.validates = true) :
    Meets (validate w o text) s (Reports w o input) (fun _ _ => True) := by
  have did := succeeds_iff found compiled
  apply (validate_meets unfiled programs).mono _ fun _ _ _ => trivial
  intro code t judged
  obtain ⟨kept, verdict⟩ := judged
  refine ⟨?_, kept ▸ leaves, ?_⟩
  · cases verdict with
    | inl valid => exact .inl ⟨valid.1, did.2 ⟨written, fun _ => valid.2⟩⟩
    | inr invalid =>
        exact .inr ⟨invalid.1,
          fun succeeds => invalid.2 ((did.1 succeeds).2 asked)⟩
  · intro _ unasked
    cases unasked.symm.trans asked

theorem conclude_reports {done : Bool}
    (delivered : Delivered w o input text done s)
    (later : o.validateOnly = false) :
    Meets (if (!done) = true then pure 1
      else if o.validate = true then validate w o text else pure 0) s
      (Reports w o input) (fun _ _ => True) := by
  have did := succeeds_iff found compiled
  have validates : o.validates = o.validate := by
    simp [Options.validates, later]
  have printed : o.stdout = true → o.validates = false →
      ∀ text, w.compiled o.renderOptions input = .ok text →
        s.stdout = text ++ "\n" := by
    intro asked _ other same
    cases compiled.symm.trans same
    exact delivered.printed asked
  cases done with
  | false =>
      have failed : ¬ w.Succeeds o input := by
        intro succeeds
        exact absurd (delivered.done.2 (did.1 succeeds).1) (by decide)
      exact .of_pure ⟨.inr ⟨rfl, failed⟩, delivered.leaves, printed⟩
  | true =>
      have written := delivered.done.1 rfl
      rw [if_neg (by decide)]
      cases asked : o.validate with
      | false =>
          have succeeds : w.Succeeds o input :=
            did.2 ⟨written, by simp [validates, asked]⟩
          exact .of_pure ⟨.inl ⟨rfl, succeeds⟩, delivered.leaves, printed⟩
      | true =>
          exact validate_reports found compiled delivered.unfiled
            delivered.programs delivered.leaves written (validates.trans asked)

theorem write_delivers
    (begun : Begun w s)
    (asked : o.writes = true)
    {b : Address}
    (settled : ".." ∉ b.parts)
    (chosen : Run.outputPath w o input = .ok b.toPath) :
    Meets (write text b.toPath) s (Delivered w o input text)
      (fun _ _ => True) := by
  apply (write_meets text b.toPath s).mono _ fun _ _ _ => trivial
  intro done t wrote
  obtain ⟨handlers, programs, result, put, done⟩ := wrote
  rw [begun.store] at put
  refine ⟨handlers ▸ begun.unfiled, programs.trans begun.programs,
    done.trans ?_, .of_write found compiled asked settled chosen put, ?_⟩
  · constructor
    · intro succeeded _
      exact ⟨_, _, chosen, succeeded ▸ put⟩
    · intro writes
      obtain ⟨output, after, there, again⟩ := writes asked
      cases chosen.symm.trans there
      cases put.symm.trans again
      rfl
  · intro toStdout
    simp [Options.writes, toStdout] at asked

theorem finish_reports
    (begun : Begun w s)
    {a : Address}
    (place : input = a.toPath)
    (settled : ".." ∉ a.parts) :
    Meets (finish w o input text) s (Reports w o input) (fun _ _ => True) := by
  rw [finish]
  cases only : o.validateOnly with
  | true =>
      have idle : o.writes = false := by simp [Options.writes, only]
      rw [if_pos rfl]
      apply validate_reports found compiled begun.unfiled begun.programs
      · rw [begun.store]
        exact .refl (.inl idle)
      · simp [idle]
      · simp [Options.validates, only]
  | false =>
      rw [if_neg (by decide)]
      cases asked : o.stdout with
      | true =>
          rw [if_pos rfl]
          apply (print_delivers begun asked).bind
          intro _ t delivered
          exact conclude_reports found compiled delivered only
      | false =>
          rw [if_neg (by decide)]
          apply (ofExcept_meets _ s).bind
          intro output t chosen
          obtain ⟨chosen, rfl⟩ := chosen
          obtain ⟨b, rfl, proper⟩ :=
            exists_address_of_outputPath settled (place ▸ chosen)
          apply (write_delivers found compiled begun
            (by simp [Options.writes, only, asked]) proper chosen).bind
          intro done t delivered
          exact conclude_reports found compiled delivered only

end Finish

theorem Begun.remark {step : Run Unit}
    (begun : Begun w s)
    (remarks : Remarks step) :
    Meets step s (fun _ t => Begun w t) (fun _ _ => True) := by
  apply (remarks s begun.unfiled).mono _ fun _ _ _ => trivial
  intro _ t said
  obtain ⟨stderr, rfl⟩ := said
  exact ⟨begun.store, begun.programs, begun.stdout, begun.unfiled⟩

theorem Reports.of_uncompiled {input : Path} {code : Nat}
    (begun : Begun w s)
    (uncompiled : ∀ text, w.compiled o.renderOptions input ≠ .ok text)
    (failed : code = 1) :
    Reports w o input code s where
  code := by
    refine .inr ⟨failed, ?_⟩
    intro succeeds
    obtain ⟨_, text, compiled, _⟩ := succeeds
    exact uncompiled text compiled
  leaves := by
    rw [begun.store]
    exact .refl (.inr uncompiled)
  printed := by
    intro _ _ text compiled
    cases uncompiled text compiled

theorem compileFile_reports
    (begun : Begun w s)
    {a : Address}
    (settled : ".." ∉ a.parts)
    (found : ∃ entry, w.store.find? a.toPath = .ok (some entry)) :
    Meets (do
      let compiler : Compiler :=
        { options := o.renderOptions
          env := w.env
          journal := journal? w (← get).handlers }
      let compiled := compiler.compileFile (← get).store a.toPath
      logAll w compiled.log
      match compiled.result with
      | .error (.reported e) =>
        printError ("Error: " ++ e.message)
        return 1
      | .error (.unreported f) => fail f
      | .ok text =>
        logAll w
          (compiled.compiler.lint.map fun warning => .warned warning.message)
        finish w o a.toPath text) s (Reports w o a.toPath)
          (fun _ _ => True) := by
  apply Meets.of_get
  apply Meets.of_get
  have unlogged : journal? w s.handlers = none := by
    simp [journal?, begun.unfiled]
  rw [unlogged, begun.store]
  apply (begun.remark (logAll_remarks w _)).bind
  intro _ t begun
  split
  · rename_i e failed
    apply (begun.remark (printError_remarks _)).bind
    intro _ u begun
    apply Meets.of_pure
    apply Reports.of_uncompiled begun _ rfl
    intro text compiled
    cases failed.symm.trans compiled
  · exact .of_throw trivial
  · rename_i text compiled
    apply (begun.remark (logAll_remarks w _)).bind
    intro _ u begun
    exact finish_reports found compiled begun rfl settled

theorem compile_reports
    (begun : Begun w s)
    {a : Address}
    (settled : ".." ∉ a.parts)
    (found : ∃ entry, w.store.find? a.toPath = .ok (some entry)) :
    Meets (compile w o a.toPath) s (Reports w o a.toPath)
      (fun _ _ => True) := by
  rw [compile]
  split
  · apply (begun.remark (log_remarks w _)).bind
    intro _ t begun
    exact compileFile_reports begun settled found
  · exact compileFile_reports begun settled found

theorem setupLog_begins (unlogged : o.logFile = none) :
    Meets (setupLog w o.logConfig) { store := w.store, programs := w.programs }
      (fun _ t => Begun w t) (fun _ _ => True) := by
  have disabled : o.logConfig.fileEnabled = false := by
    simp [Options.logConfig, unlogged]
  obtain ⟨handlers, opened, ready, unfiled⟩ :=
    Log.setup_of_disabled disabled w.terminal w.store
  rw [setupLog]
  apply Meets.of_get
  dsimp only
  rw [ready]
  apply (Meets.of_modify (P :=
    fun _ t => Begun w t) ⟨rfl, rfl, rfl, unfiled⟩).bind
  intro _ t begun
  apply (ofExcept_meets opened t).mono _ fun _ _ _ => trivial
  intro _ u came
  exact came.2 ▸ begun

theorem perform_reports (unlogged : o.logFile = none) :
    Meets (perform w o) { store := w.store, programs := w.programs }
      (fun code s => ∃ input, w.inputPath o = .ok input ∧
        Reports w o input code s)
      (fun _ _ => True) := by
  rw [perform]
  apply (setupLog_begins unlogged).bind
  intro _ s begun
  apply (ofExcept_meets _ s).bind
  intro a t resolved
  obtain ⟨resolved, rfl⟩ := resolved
  have place : w.inputPath o = .ok a.toPath := by
    rw [World.inputPath, resolved]; rfl
  have settled : ".." ∉ a.parts := Path.not_mem_of_resolve? resolved
  apply Meets.of_get
  rw [begun.store]
  cases found : w.store.find? a.toPath with
  | error fault => exact .of_throw trivial
  | ok entry =>
      cases entry with
      | none =>
          apply (begun.remark (printError_remarks _)).bind
          intro _ u begun
          apply Meets.of_pure
          refine ⟨a.toPath, place, Reports.of_uncompiled begun ?_ rfl⟩
          intro text compiled
          rw [World.compiled, Compiler.compileFile, found] at compiled
          cases compiled
      | some entry =>
          apply (compile_reports begun settled ⟨entry, found⟩).mono _
            fun _ _ _ => trivial
          intro code u reports
          exact ⟨a.toPath, place, reports⟩

end Run

end CommandLine

end ServerConf
