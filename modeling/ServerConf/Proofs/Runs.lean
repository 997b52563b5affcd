import ServerConf.Rendering.Lines

namespace ServerConf

namespace Rendering

variable {α β : Type} {progress final : Progress}

theorem of_bind_ok {x : Rendering α} {f : α → Rendering β} {b : β}
    (ran : (x >>= f).run.run progress = (.ok b, final)) :
    ∃ a between, x.run.run progress = (.ok a, between) ∧
      (f a).run.run between = (.ok b, final) := by
  rw [ExceptT.run_bind, StateT.run_bind] at ran
  rcases result : x.run.run progress with ⟨_ | a, between⟩
  · rw [result] at ran
    cases ran
  · rw [result] at ran
    exact ⟨a, between, rfl, ran⟩

theorem of_bind_error
    {x : Rendering α} {f : α → Rendering β} {failure : Failure}
    (ran : (x >>= f).run.run progress = (.error failure, final)) :
    x.run.run progress = (.error failure, final) ∨
      ∃ a between, x.run.run progress = (.ok a, between) ∧
        (f a).run.run between = (.error failure, final) := by
  rw [ExceptT.run_bind, StateT.run_bind] at ran
  rcases result : x.run.run progress with ⟨_ | a, between⟩
  · rw [result] at ran
    cases ran
    exact .inl rfl
  · rw [result] at ran
    exact .inr ⟨a, between, rfl, ran⟩

theorem run_bind_of_ok {x : Rendering α} {f : α → Rendering β} {a : α}
    (ran : x.run.run progress = (.ok a, final)) :
    (x >>= f).run.run progress = (f a).run.run final := by
  rw [ExceptT.run_bind, StateT.run_bind, ran]
  rfl

theorem run_bind_of_error
    {x : Rendering α} {f : α → Rendering β} {failure : Failure}
    (ran : x.run.run progress = (.error failure, final)) :
    (x >>= f).run.run progress = (.error failure, final) := by
  rw [ExceptT.run_bind, StateT.run_bind, ran]
  rfl

theorem of_pure_ok {a b : α}
    (ran : (pure a : Rendering α).run.run progress = (.ok b, final)) :
    b = a ∧ final = progress := by
  cases ran
  exact ⟨rfl, rfl⟩

theorem not_fail_ok {failure : Failure} {b : α}
    (ran : (fail failure : Rendering α).run.run progress = (.ok b, final)) :
    False := by
  cases ran

theorem get_run (progress : Progress) :
    (get : Rendering Progress).run.run progress = (.ok progress, progress) :=
  rfl

theorem report_run (events : List Log.Event) (progress : Progress) :
    (report events).run.run progress =
      (.ok (),
        { progress with reported := events.reverse ++ progress.reported }) :=
  rfl

theorem ofExcept_run (x : Except Failure α) (progress : Progress) :
    (ofExcept x).run.run progress = (x, progress) := by
  cases x <;> rfl

end Rendering

end ServerConf
