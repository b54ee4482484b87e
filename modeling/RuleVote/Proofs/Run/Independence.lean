import RuleVote.Proofs.Run.Lifecycle
/-!
# Earlier runs

A session keeps the surrogate of its last run for the next one, and the
surrogate keeps its last training. Neither shows: a surrogate is used again
only for settings that agree with its own, and a training only for input that
agrees with its own, and what agrees is equal where no negative zero is
compared (`Session.Trusted.learn_eq`). Nothing else that a session remembers
enters a run. So a run answers and stores what it would in a session that has
not run before (`Session.answer_eq_fresh`).
-/

namespace RuleVote

/-- The result with another stamp. -/
def LabelingResult.restamp (stamp : RunStamp) (result : LabelingResult) : LabelingResult :=
  { result with id := stamp.id, moment := stamp.moment }

namespace Session

variable {σ : Type} [LabelStore σ]
variable {s s' : Session} {store : σ} {config : RunConfig} {stamp : RunStamp} {line : WorkerLine}

/-! ## What a run makes -/

/-- All that a run does before its result is stored. -/
def attempt (s : Session) (store : σ) (config : RunConfig) (stamp : RunStamp)
    (line : WorkerLine) : Fallible LabelingResult :=
  if config.task ≠ s.task then fail (taskMismatch config s)
  else do
    let lesson ← (s.selectRuleSet config.ruleSet).prepare store config
    let learned ← (s.selectRuleSet config.ruleSet).learn config line lesson.input
    s.conclude config stamp lesson learned

/-- The answer to a run that made a result or failed, and the store after
it. -/
def settle (store : σ) : Fallible LabelingResult → Fallible LabelingResult × σ
  | .error stop => (.error stop, store)
  | .ok result =>
    match LabelStore.saveResult store result with
    | .error f => (fail f, store)
    | .ok store => (.ok result, store)

/-- The answer to a run, and the store after it. -/
def answer (s : Session) (store : σ) (config : RunConfig) (stamp : RunStamp)
    (line : WorkerLine) : Fallible LabelingResult × σ :=
  ((s.run store config stamp line).1, (s.run store config stamp line).2.2)

theorem attempt_of_task (htask : config.task = s.task) : s.attempt store config stamp line =
    (s.selectRuleSet config.ruleSet).prepare store config >>= fun lesson =>
      (s.selectRuleSet config.ruleSet).learn config line lesson.input >>=
        s.conclude config stamp lesson :=
  if_neg (not_not_intro htask)

/-- What a run makes that gets through learning. -/
theorem Learns.attempt_eq {lesson : Lesson} {learned : Learned}
    (h : s.Learns store config line lesson learned) :
    s.attempt store config stamp line = s.conclude config stamp lesson learned := by
  rw [attempt_of_task h.task_eq, h.prepare]
  exact congrArg (· >>= s.conclude config stamp lesson) h.learn

/-- **A run answers with what it made**, once the store has kept it. -/
theorem answer_eq (s : Session) (store : σ) (config : RunConfig) (stamp : RunStamp)
    (line : WorkerLine) :
    s.answer store config stamp line = settle store (s.attempt store config stamp line) := by
  have hran := ran_run s store config stamp line
  rw [answer]
  generalize s.run store config stamp line = outcome at hran ⊢
  cases hran with
  | refused htask =>
    rw [attempt, if_pos htask]
    rfl
  | unprepared htask hprepare =>
    rw [attempt_of_task htask, hprepare]
    rfl
  | @unlearned lesson e htask hprepare hlearn =>
    have hattempt : s.attempt store config stamp line = .error e := by
      rw [attempt_of_task htask, hprepare]
      exact congrArg (· >>= s.conclude config stamp lesson) hlearn
    rw [hattempt]
    rfl
  | unconcluded hlearns hconclude =>
    rw [hlearns.attempt_eq, hconclude]
    rfl
  | unsaved hlearns hconclude hsave | saved hlearns hconclude hsave =>
    rw [hlearns.attempt_eq, hconclude, settle, hsave]

/-- **The stamp is only put on what a run makes.** -/
theorem attempt_restamp (s : Session) (store : σ) (config : RunConfig) (stamp stamp' : RunStamp)
    (line : WorkerLine) : s.attempt store config stamp' line =
      LabelingResult.restamp stamp' <$> s.attempt store config stamp line := by
  have hconclude : ∀ lesson learned, s.conclude config stamp' lesson learned =
      LabelingResult.restamp stamp' <$> s.conclude config stamp lesson learned := by
    intro lesson learned
    simp only [conclude, map_bind, map_pure]
    rfl
  simp only [attempt, hconclude]
  split
  · rfl
  · simp only [map_bind]

/-! ## What a run remembers -/

/-- The numbers that a session compares to find out whether it may use its
surrogate again, and whether the surrogate may recall its last training. -/
def compared (s : Session) (model : SurrogateSettings) (folds : Nat) (input : SurrogateInput) :
    List Float32 :=
  match s.surrogate with
  | none => []
  | some m => m.settings.numbers ++ model.numbers ++
      if m.settings.agrees model then m.compared input folds else []

variable {model : SurrogateSettings} {folds : Nat} {input : SurrogateInput}

/-- **The surrogate of a session trains as a new one would.** -/
theorem Trusted.train_eq (h : s.Trusted) (hzero : negativeZero ∉ s.compared model folds input) :
    (s.surrogateFor model).train input folds = (Surrogate.new model).train input folds := by
  cases hkept : s.surrogate.filter fun m => m.settings.agrees model with
  | none => rw [surrogateFor, hkept, Option.getD_none]
  | some m =>
    obtain ⟨hm, hagrees⟩ := Option.filter_eq_some_iff.1 hkept
    rw [compared, hm] at hzero
    simp only [hagrees, if_true, List.mem_append, not_or] at hzero
    obtain ⟨⟨hold, hnew⟩, hinput⟩ := hzero
    have hsettings := SurrogateSettings.eq_of_agrees hagrees hold hnew
    rw [surrogateFor, hkept, Option.getD_some, (h m hm).train_eq hinput, hsettings]

/-- **What is learned does not depend on what a session remembers.** -/
theorem Trusted.learn_eq (h : s.Trusted) (hnone : s'.surrogate = none)
    (hzero : negativeZero ∉
      s.compared config.learning.model config.learning.effectiveFolds input) :
    s.learn config line input = s'.learn config line input := by
  have hfresh : s'.surrogateFor config.learning.model = .new config.learning.model := by
    rw [surrogateFor, hnone]
    rfl
  rw [learn, learn, learnHere, learnHere, h.train_eq hzero, hfresh]

/-- The session with nothing remembered. -/
def fresh (s : Session) : Session := ⟨s.task, s.labels, s.table, none, [], none⟩

theorem Sound.new_eq (h : s.Sound) : new s.task s.table = .ok s.fresh :=
  bind_eq_ok_iff.2 ⟨s.labels, h.labels_eq, rfl⟩

/-- **A run makes what it would make in a session that remembers nothing.** -/
theorem Sound.attempt_eq (h : s.Sound)
    (hzero : ∀ lesson, (s.selectRuleSet config.ruleSet).prepare store config = .ok lesson →
      negativeZero ∉ (s.selectRuleSet config.ruleSet).compared config.learning.model
        config.learning.effectiveFolds lesson.input) :
    s.attempt store config stamp line = s.fresh.attempt store config stamp line := by
  by_cases htask : config.task = s.task
  · have htask' : config.task = s.fresh.task := htask
    have hfresh : SameTask s s.fresh := ⟨rfl, rfl, rfl⟩
    have hprepare := (sameTask_selectRuleSet s config.ruleSet).prepare_eq store config
    have hprepare' :=
      (hfresh.trans (sameTask_selectRuleSet s.fresh config.ruleSet)).prepare_eq store config
    have hconclude : s.fresh.conclude config stamp = s.conclude config stamp :=
      funext fun lesson => funext (hfresh.conclude_eq config stamp lesson)
    rw [attempt_of_task htask, attempt_of_task htask', hconclude, hprepare', ← hprepare]
    cases hlesson : (s.selectRuleSet config.ruleSet).prepare store config with
    | error e => rfl
    | ok lesson =>
      have hlearn : (s.selectRuleSet config.ruleSet).learn config line lesson.input =
          (s.fresh.selectRuleSet config.ruleSet).learn config line lesson.input :=
        (h.trusted.selectRuleSet config.ruleSet).learn_eq rfl (hzero lesson hlesson)
      exact congrArg (· >>= s.conclude config stamp lesson) hlearn
  · rw [attempt, attempt, if_pos htask]
    exact (if_pos htask).symm

/-- **Earlier runs do not influence a run.** However a session was used, a run
on the contents of a store makes what it makes in a new session with the same
task and table: the same failure, or the same result but for its stamp, which
the store keeps or refuses. What is compared on the way is supposed to hold no
negative zero, which is not told apart from zero. A worker, if there is one, is
supposed to answer both runs alike. -/
theorem answer_eq_fresh {task : Task} {table : FeatureTable} {s₀ : Session}
    (h₀ : new task table = .ok s₀) (calls : List (Call σ)) (store : σ) (config : RunConfig) :
    let s := s₀.after calls
    let chosen := s.selectRuleSet config.ruleSet
    (∀ lesson, chosen.prepare store config = .ok lesson → negativeZero ∉
      chosen.compared config.learning.model config.learning.effectiveFolds lesson.input) →
    ∃ other, new s.task s.table = .ok other ∧
      ∀ stamp stamp' line, ∃ made : Fallible LabelingResult,
        s.answer store config stamp line = settle store (LabelingResult.restamp stamp <$> made) ∧
        other.answer store config stamp' line =
          settle store (LabelingResult.restamp stamp' <$> made) := by
  intro s chosen hzero
  have hsound : s.Sound := (sound_new h₀).after calls
  refine ⟨s.fresh, hsound.new_eq, fun stamp stamp' line => ?_⟩
  refine ⟨s.fresh.attempt store config stamp line, ?_, ?_⟩
  · rw [answer_eq, hsound.attempt_eq hzero, ← attempt_restamp]
  · rw [answer_eq, ← attempt_restamp]

/-- A run after one with the same settings on the same contents, which finds
a surrogate with a training to recall. -/
theorem answer_eq_fresh_recalled :
    let store := Sample.store
    let config := Sample.config
    let stamp := Sample.stamp
    let line := Sample.line
    let s := (Sample.session Sample.table).after [Call.run store config stamp line]
    let chosen := s.selectRuleSet config.ruleSet
    new Sample.task Sample.table = .ok (Sample.session Sample.table) ∧
      (∃ m t, chosen.surrogate = some m ∧ m.training = some t) ∧
      (∀ lesson, chosen.prepare store config = .ok lesson → negativeZero ∉
        chosen.compared config.learning.model config.learning.effectiveFolds lesson.input) ∧
      ∃ other made, new s.task s.table = .ok other ∧
        s.answer store config stamp line = settle store (LabelingResult.restamp stamp <$> made) ∧
        other.answer store config stamp line =
          settle store (LabelingResult.restamp stamp <$> made) := by
  intro store config stamp line s chosen
  have hnew := Sample.new_session Sample.table
  have htrained : (chosen.surrogate.bind Surrogate.training).isSome = true := by decide +kernel
  have hall : (match chosen.prepare store config with
      | .ok lesson => (chosen.compared config.learning.model config.learning.effectiveFolds
          lesson.input).all (· ≠ negativeZero)
      | .error _ => false) = true := by decide +kernel
  have hzero : ∀ lesson, chosen.prepare store config = .ok lesson → negativeZero ∉
      chosen.compared config.learning.model config.learning.effectiveFolds lesson.input := by
    intro lesson hlesson hmem
    rw [hlesson] at hall
    exact of_decide_eq_true (List.all_eq_true.1 hall _ hmem) rfl
  obtain ⟨t, ht⟩ := Option.isSome_iff_exists.1 htrained
  obtain ⟨m, hm, ht⟩ := Option.bind_eq_some_iff.1 ht
  obtain ⟨other, hother, hanswers⟩ :=
    answer_eq_fresh hnew [Call.run store config stamp line] store config hzero
  obtain ⟨made, hmade, hmade'⟩ := hanswers stamp stamp line
  exact ⟨hnew, ⟨m, t, hm, ht⟩, hzero, other, made, hother, hmade, hmade'⟩

end Session

end RuleVote
