import Mathlib.Data.List.Infix
import ServerConf.Validation.Run

/-!
What a verdict on a configuration rests on. A configuration is valid only if
nginx itself was run on it, came to its end, succeeded and said nothing of an
error; and all that it said of errors and warnings is in the verdict, in the
order it was said.
-/

namespace ServerConf

namespace Text

theorem isInfix_dropWhile_iff {word : List Char} {p : Char → Bool}
    (kept : word.any p = false)
    (cs : List Char) :
    word <:+: cs.dropWhile p ↔ word <:+: cs := by
  induction cs with
  | nil => rfl
  | cons c cs induction =>
      cases dropped : p c with
      | false => rw [List.dropWhile_cons_of_neg (by simp [dropped])]
      | true =>
          rw [List.dropWhile_cons_of_pos dropped, induction,
            List.infix_cons_iff]
          refine ⟨.inr, fun inside => inside.elim (fun begins => ?_) id⟩
          cases word with
          | nil => exact List.nil_infix
          | cons d word =>
              obtain ⟨rfl, _⟩ := List.cons_prefix_cons.1 begins
              simp [dropped] at kept

theorem isInfix_trim_iff {word : List Char} (shown : word.any isBlank = false)
    (line : List Char) : word <:+: trim line ↔ word <:+: line := by
  have backwards : word.reverse.any isBlank = false := by rwa [List.any_reverse]
  rw [trim, trimEnd, ← List.reverse_infix, List.reverse_reverse,
    isInfix_dropWhile_iff backwards, List.reverse_infix, trimStart,
    isInfix_dropWhile_iff shown]

end Text

namespace Verdict

theorem mentions_iff {word line : List Char} :
    mentions word line = true ↔ word <:+: line := by
  induction line with
  | nil => simp [mentions]
  | cons c line induction =>
      rw [mentions, Bool.or_eq_true, List.isPrefixOf_iff_prefix, induction,
        List.infix_cons_iff]

/-- The line tells of an error. -/
def TellsError (line : List Char) : Prop :=
  "[emerg]".toList <:+: line ∨ "[error]".toList <:+: line

/-- The line tells of a warning, and of no error. -/
def TellsWarning (line : List Char) : Prop :=
  ¬ TellsError line ∧ "[warn]".toList <:+: line

instance : DecidablePred TellsError :=
  fun _ => inferInstanceAs (Decidable (_ ∨ _))

instance : DecidablePred TellsWarning :=
  fun _ => inferInstanceAs (Decidable (_ ∧ _))

/-- The lines of an output that the property holds of, in their order and
trimmed. -/
def told (P : List Char → Prop) [DecidablePred P] (output : String) :
    List String :=
  ((Text.lines output.toList).filter (P ·)).map fun line =>
    String.ofList (Text.trim line)

theorem told_eq_nil_iff
    {P : List Char → Prop} [DecidablePred P] {output : String} :
    told P output = [] ↔ ∀ line ∈ Text.lines output.toList, ¬ P line := by
  simp [told]

theorem map_filter_outputLines
    {P : List Char → Prop} [DecidablePred P] {test : List Char → Bool}
    (tests : ∀ line, test (Text.trim line) = true ↔ P line)
    (output : String) :
    ((outputLines output).filter test).map String.ofList = told P output := by
  have same : test ∘ Text.trim = fun line => decide (P line) := by
    funext line
    rw [Function.comp_apply, Bool.eq_iff_iff, tests, decide_eq_true_eq]
  rw [outputLines, List.filter_map, same, List.map_map]
  rfl

theorem isError_trim_iff (line : List Char) :
    isError (Text.trim line) = true ↔ TellsError line := by
  rw [isError, Bool.or_eq_true, mentions_iff, mentions_iff,
    Text.isInfix_trim_iff (by decide), Text.isInfix_trim_iff (by decide),
    TellsError]

theorem isWarning_trim_iff (line : List Char) :
    isWarning (Text.trim line) = true ↔ TellsWarning line := by
  rw [isWarning, Bool.and_eq_true, Bool.not_eq_true', ← Bool.not_eq_true,
    isError_trim_iff, mentions_iff, Text.isInfix_trim_iff (by decide),
    TellsWarning]

theorem isValid_ofOutput_iff {output : String} {succeeded : Bool} :
    (ofOutput output succeeded).isValid = true ↔
      succeeded = true ∧
        ∀ line ∈ Text.lines output.toList, ¬ TellsError line := by
  rw [ofOutput, Bool.and_eq_true, map_filter_outputLines isError_trim_iff,
    List.isEmpty_iff, told_eq_nil_iff]

theorem errors_ofOutput (output : String) (succeeded : Bool) :
    (ofOutput output succeeded).errors =
      if told TellsError output = [] ∧
        succeeded = false then ["nginx configuration test failed"]
      else told TellsError output := by
  simp only [ofOutput, map_filter_outputLines isError_trim_iff]
  cases told TellsError output <;> cases succeeded <;> rfl

theorem warnings_ofOutput (output : String) (succeeded : Bool) :
    (ofOutput output succeeded).warnings = told TellsWarning output :=
  map_filter_outputLines isWarning_trim_iff output

theorem isValid_ofOutput_iff_errors {output : String} {succeeded : Bool} :
    (ofOutput output succeeded).isValid = true ↔
      (ofOutput output succeeded).errors = [] := by
  rw [isValid_ofOutput_iff, ← told_eq_nil_iff, errors_ofOutput]
  cases told TellsError output <;> cases succeeded <;> simp

end Verdict

/-- Between two states exactly the listed calls are made, each with the result
beside it. -/
inductive Programs.Makes :
    Programs → List (Call × RunResult) → Programs → Prop where
  | nil (p : Programs) : Makes p [] p
  | report {p after : Programs} {runs : List (Call × RunResult)} (e : Log.Event)
      (behind : Makes (p.report e) runs after) :
      Makes p runs after
  | put {p after : Programs} {runs : List (Call × RunResult)}
      (path text : String)
      (behind : Makes (p.put path text) runs after) :
      Makes p runs after
  | remove {p after : Programs} {runs : List (Call × RunResult)}
      (behind : Makes p.remove runs after) :
      Makes p runs after
  | run {p after : Programs} {runs : List (Call × RunResult)} (call : Call)
      (behind : Makes (p.run call).2 runs after) :
      Makes p ((call, (p.run call).1) :: runs) after

namespace Programs

@[simp] theorem calls_run (p : Programs) (call : Call) :
    (p.run call).2.calls = p.calls ++ [call] := by
  unfold run
  split <;> rfl

@[simp] theorem files_run (p : Programs) (call : Call) :
    (p.run call).2.files = p.files := by
  unfold run
  split <;> rfl

theorem result_run_put (p : Programs) (path text : String) (call : Call) :
    ((p.put path text).run call).1 = (p.run call).1 := by
  unfold run put
  split <;> simp_all

theorem Makes.calls {p after : Programs} {runs : List (Call × RunResult)}
    (makes : Makes p runs after) :
    after.calls = p.calls ++ runs.map Prod.fst := by
  induction makes with
  | nil p => simp
  | report e _ induction => exact induction
  | put path text _ induction => exact induction
  | remove _ induction => exact induction
  | run call _ induction => simp [induction]

theorem Makes.single {p after : Programs} {call : Call} {result : RunResult}
    (ran : p.run call = (result, after)) : Makes p [(call, result)] after := by
  have made := Makes.run call (.nil (p.run call).2)
  rwa [ran] at made

theorem Makes.append
    {p middle after : Programs} {first second : List (Call × RunResult)}
    (left : Makes p first middle)
    (right : Makes middle second after) :
    Makes p (first ++ second) after := by
  induction left with
  | nil => exact right
  | report e _ induction => exact .report e (induction right)
  | put path text _ induction => exact .put path text (induction right)
  | remove _ induction => exact .remove (induction right)
  | run call _ induction => exact .run call (induction right)

end Programs

namespace Validator

variable {v : Validator} {config content : String} {p after : Programs}
  {verdict : Verdict}

def dockerQuery (v : Validator) : Call :=
  ⟨["docker", "ps"], none, v.timeout⟩

/-- Docker is wanted and installed, and answers the question. -/
def DockerAnswers (v : Validator) (p : Programs) : Prop :=
  v.useDocker = true ∧ "docker" ∈ p.installed ∧
    ∃ out err, (p.run v.dockerQuery).1 = .finished 0 out err

/-- The call that tests the content, which stands in the file `config`: in
Docker if that answers, else with the nginx that is installed. -/
inductive Tests (v : Validator) (p : Programs) (config content : String) :
    Call → Prop where
  | inDocker {image : String}
      (answers : v.DockerAnswers p)
      (given : v.dockerImage = .text image) :
      Tests v p config content
        ⟨["docker", "run", "--rm", "-v", config ++ ":/etc/nginx/nginx.conf:ro",
          image, "nginx",
          "-t"], some content, v.timeout⟩
  | installed {command : String}
      (silent : ¬ v.DockerAnswers p)
      (given : v.nginxCommand = .text command) :
      Tests v p config content ⟨[command, "-t", "-c", config], some content,
        v.timeout⟩

inductive Concludes
    (v : Validator) (p : Programs) (config content : String)
    (verdict : Verdict) :
    List (Call × RunResult) → Prop where
  | finished {before : List (Call × RunResult)} {call : Call} {code : Int}
      {out err : String}
      (others : ∀ run ∈ before, run.1.config = none)
      (tests : v.Tests p config content call)
      (judged : verdict = .ofOutput (out ++ err) (code = 0)) :
      Concludes v p config content verdict
        (before ++ [(call, .finished code out err)])
  | unfinished {runs : List (Call × RunResult)}
      (none : ∀ run ∈ runs, run.1.config = none ∨
        ∃ reason, run.2 = .timedOut reason)
      (invalid : verdict.isValid = false)
      (explained : verdict.errors ≠ []) :
      Concludes v p config content verdict runs

theorem Tests.config_eq {call : Call} (tests : v.Tests p config content call) :
    call.config = some content := by
  cases tests <;> rfl

theorem dockerAvailable_makes (v : Validator) (p : Programs) :
    ∃ runs, p.Makes runs (v.dockerAvailable p).2 ∧
      (∀ run ∈ runs, run.1.config = none) ∧
      ((v.dockerAvailable p).1 = true ↔ "docker" ∈ p.installed ∧
        ∃ out err, (p.run v.dockerQuery).1 = .finished 0 out err) := by
  have found : p.isInstalled (.text "docker") = true ↔
      "docker" ∈ p.installed := by
    simp [Programs.isInstalled]
  by_cases there : "docker" ∈ p.installed
  · obtain ⟨⟨result, next⟩, ran⟩ : ∃ r, p.run v.dockerQuery = r := ⟨_, rfl⟩
    have asked :
        p.run ⟨["docker", "ps"], none, v.timeout⟩ = (result, next) := ran
    have made := Programs.Makes.single ran
    rw [dockerAvailable, if_pos (found.2 there), asked, ran]
    refine ⟨[(v.dockerQuery, result)], ?_, List.forall_mem_singleton.2 rfl, ?_⟩
    · cases result with
      | finished code out err => exact made
      | timedOut reason | notRun reason =>
          exact made.append (.report _ (.nil _))
    · cases result <;> simp [there]
  · rw [dockerAvailable, if_neg (fun installed => there (found.1 installed))]
    exact ⟨[], .nil p, by simp, by simp [there]⟩

theorem files_dockerAvailable (v : Validator) (p : Programs) :
    (v.dockerAvailable p).2.files = p.files := by
  have ran := p.files_run v.dockerQuery
  unfold dockerAvailable
  split
  · rw [dockerQuery] at ran
    split
    all_goals
      rename_i result
      rw [result] at ran
      exact ran
  · rfl

section Returned

variable {before : List (Call × RunResult)} {q : Programs}

theorem concludes_of_run {command : List String} (made : p.Makes before q)
    (others : ∀ run ∈ before, run.1.config = none)
    (stands : q.files.lookup config = some content)
    (tests : v.Tests p config content ⟨command, some content, v.timeout⟩)
    (returned : v.run command config q = (.ok verdict, after)) :
    ∃ runs, p.Makes runs after ∧ v.Concludes p config content verdict runs := by
  obtain ⟨⟨result, next⟩, ran⟩ :
      ∃ r, (q.report (.running command)).run ⟨command, some content,
        v.timeout⟩ = r := ⟨_, rfl⟩
  have whole := made.append (.report (.running command) (.single ran))
  rw [run, stands, ran] at returned
  cases result with
  | finished code out err =>
      cases returned
      exact ⟨_, whole, .finished others tests rfl⟩
  | timedOut reason =>
      cases returned
      refine ⟨_, whole, .unfinished ?_ rfl (List.cons_ne_nil _ _)⟩
      intro run member
      rcases List.mem_append.1 member with earlier | last
      · exact .inl (others run earlier)
      · obtain rfl := List.mem_singleton.1 last
        exact .inr ⟨reason, rfl⟩
  | notRun reason => cases returned

theorem concludes_of_validateLocally (made : p.Makes before q)
    (others : ∀ run ∈ before, run.1.config = none)
    (stands : q.files.lookup config = some content)
    (silent : ¬ v.DockerAnswers p)
    (returned : v.validateLocally config q = (.ok verdict, after)) :
    ∃ runs, p.Makes runs after ∧ v.Concludes p config content verdict runs := by
  unfold validateLocally at returned
  split at returned
  · rename_i installed
    cases given : v.nginxCommand with
    | nothing => simp [given, Programs.isInstalled] at installed
    | text command =>
        have words : Given.texts (v.localCommand config) =
            .ok [command, "-t", "-c", config] := by
          rw [localCommand, given]
          rfl
        rw [runGiven, words] at returned
        exact concludes_of_run made others stands
          (.installed silent given) returned
  · cases returned
    exact ⟨before, made, .unfinished
      (fun run member => .inl (others run member)) rfl (List.cons_ne_nil _ _)⟩

theorem concludes_of_validateFile
    (stands : p.files.lookup config = some content)
    (returned : v.validateFile config p = (.ok verdict, after)) :
    ∃ runs, p.Makes runs after ∧ v.Concludes p config content verdict runs := by
  unfold validateFile at returned
  split at returned
  · rename_i wanted
    obtain ⟨before, made, others, answers⟩ := dockerAvailable_makes v p
    have kept := files_dockerAvailable v p
    obtain ⟨⟨answer, q⟩, asked⟩ : ∃ r, v.dockerAvailable p = r := ⟨_, rfl⟩
    rw [asked] at returned made answers kept
    dsimp only at kept
    rw [← kept] at stands
    cases answer with
    | false =>
        refine concludes_of_validateLocally made others stands ?_ returned
        exact fun silent => Bool.false_ne_true (answers.2 silent.2)
    | true =>
        cases given : v.dockerImage with
        | nothing =>
            have words : Given.texts (v.dockerCommand config) = .error 5 := by
              rw [dockerCommand, given]
              rfl
            simp only [runGiven, words] at returned
            cases returned
        | text image =>
            have words : Given.texts (v.dockerCommand config) =
                .ok ["docker", "run", "--rm", "-v",
                  config ++ ":/etc/nginx/nginx.conf:ro", image, "nginx",
                  "-t"] := by
              rw [dockerCommand, given]
              rfl
            simp only [runGiven, words] at returned
            refine concludes_of_run made others stands ?_ returned
            exact .inDocker ⟨wanted, answers.1 rfl⟩ given
  · rename_i unwanted
    exact concludes_of_validateLocally (.nil p) (by simp) stands
      (fun answers => unwanted answers.1) returned

theorem dockerAnswers_put (path text : String) :
    v.DockerAnswers (p.put path text) ↔ v.DockerAnswers p := by
  rw [DockerAnswers, DockerAnswers, Programs.result_run_put]
  rfl

theorem Concludes.of_put {runs : List (Call × RunResult)}
    (concludes :
      v.Concludes (p.put config content) config content verdict runs) :
    v.Concludes p config content verdict runs := by
  cases concludes with
  | finished others tests judged =>
      refine .finished others ?_ judged
      cases tests with
      | inDocker answers given =>
          exact .inDocker ((dockerAnswers_put _ _).1 answers) given
      | installed silent given =>
          exact .installed (mt (dockerAnswers_put _ _).2 silent) given
  | unfinished none invalid explained =>
      exact .unfinished none invalid explained

theorem concludes_of_validate
    (returned : v.validate config content p = (.ok verdict, after)) :
    ∃ runs, p.Makes runs after ∧ v.Concludes p config content verdict runs := by
  obtain ⟨⟨result, last⟩, ran⟩ :
    ∃ r, v.validateFile config (p.put config content) = r := ⟨_, rfl⟩
  rw [validate, ran] at returned
  cases returned
  have stands : (p.put config content).files.lookup config = some content := by
    simp [Programs.put]
  obtain ⟨runs, made, concludes⟩ := concludes_of_validateFile stands ran
  have removed : last.Makes [] last.remove := .remove (.nil _)
  refine ⟨runs, .put config content ?_, concludes.of_put⟩
  simpa using made.append removed

end Returned

theorem eq_of_mem_finished {before : List (Call × RunResult)} {call last : Call}
    {result final : RunResult} (others : ∀ run ∈ before, run.1.config = none)
    (tests : v.Tests p config content call)
    (member : (call, result) ∈ before ++ [(last, final)]) : result = final := by
  rcases List.mem_append.1 member with earlier | ends
  · have unrelated := others _ earlier
    rw [tests.config_eq] at unrelated
    cases unrelated
  · exact (Prod.mk.inj (List.mem_singleton.1 ends)).2

theorem not_finished_of_mem
    {runs : List (Call × RunResult)} {call : Call} {code : Int}
    {out err : String}
    (none : ∀ run ∈ runs, run.1.config = none ∨
      ∃ reason, run.2 = .timedOut reason)
    (tests : v.Tests p config content call) :
    (call, .finished code out err) ∉ runs := by
  intro member
  rcases none _ member with unrelated | ⟨reason, ended⟩
  · rw [tests.config_eq] at unrelated
    cases unrelated
  · cases ended

/-- A verdict is valid exactly if it names no error, and exactly if the test was
run on the content, came to its end, succeeded and told of no error. Once the
test came to its end, the verdict has all it told. -/
theorem validate_verdict
    (returned : v.validate config content p = (.ok verdict, after)) :
    ∃ runs, p.Makes runs after ∧ after.calls = p.calls ++ runs.map Prod.fst ∧
      (verdict.isValid = true ↔ verdict.errors = []) ∧
      (verdict.isValid = true ↔ ∃ call out err, v.Tests p config content call ∧
        (call, .finished 0 out err) ∈ runs ∧
        ∀ line ∈ Text.lines (out ++ err).toList, ¬ Verdict.TellsError line) ∧
      ∀ call code out err, v.Tests p config content call →
        (call, .finished code out err) ∈ runs →
        (verdict.errors =
          if Verdict.told Verdict.TellsError (out ++ err) = [] ∧ code ≠ 0 then
            ["nginx configuration test failed"]
          else Verdict.told Verdict.TellsError (out ++ err)) ∧
        verdict.warnings = Verdict.told Verdict.TellsWarning (out ++ err) := by
  obtain ⟨runs, made, concludes⟩ := concludes_of_validate returned
  refine ⟨runs, made, made.calls, ?_⟩
  cases concludes with
  | @finished before call code out err others tests judged =>
      subst judged
      refine ⟨Verdict.isValid_ofOutput_iff_errors, ?_, ?_⟩
      · rw [Verdict.isValid_ofOutput_iff, decide_eq_true_eq]
        constructor
        · rintro ⟨rfl, quiet⟩
          exact ⟨call, out, err, tests, by simp, quiet⟩
        · rintro ⟨other, _, _, testsToo, member, quiet⟩
          cases eq_of_mem_finished others testsToo member
          exact ⟨rfl, quiet⟩
      · intro other _ _ _ testsToo member
        cases eq_of_mem_finished others testsToo member
        refine ⟨?_, Verdict.warnings_ofOutput _ _⟩
        simp only [Verdict.errors_ofOutput, decide_eq_false_iff_not, ne_eq]
  | unfinished none invalid explained =>
      refine ⟨by simp [invalid, explained], ?_, ?_⟩
      · simp only [invalid, Bool.false_eq_true, false_iff]
        rintro ⟨call, out, err, tests, member, _⟩
        exact not_finished_of_mem none tests member
      · intro call code out err tests member
        exact absurd member (not_finished_of_mem none tests)

/-- Docker answers, and nginx warns on the last line of what it puts out and the
first of what it reports, which are one line. -/
theorem validate_verdict_docker :
    let v : Validator := {}
    let p : Programs :=
      { installed := ["docker"]
        results := [.finished 0 "" "",
          .finished 0 "checked\r\n\tnginx: [wa" "rn] old\u2028done"] }
    ∃ after runs,
      v.validate "/t/nginx.conf" "events;" p =
        (.ok ⟨true, "checked\r\n\tnginx: [warn] old\u2028done", [],
          ["nginx: [warn] old"]⟩, after) ∧
      p.Makes runs after ∧
        ∃ call out err, v.Tests p "/t/nginx.conf" "events;" call ∧
        (call, .finished 0 out err) ∈ runs ∧
        ∀ line ∈ Text.lines (out ++ err).toList, ¬ Verdict.TellsError line := by
  intro v p
  have judged : (v.validate "/t/nginx.conf" "events;" p).1 =
      .ok ⟨true, "checked\r\n\tnginx: [warn] old\u2028done", [],
        ["nginx: [warn] old"]⟩ := by
    decide +kernel
  obtain ⟨runs, made, _, _, valid, _⟩ := validate_verdict (Prod.ext judged rfl)
  exact ⟨_, runs, Prod.ext judged rfl, made, valid.1 rfl⟩

end Validator

end ServerConf
