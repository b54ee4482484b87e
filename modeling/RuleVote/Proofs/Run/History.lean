import RuleVote.Proofs.Run.Lifecycle
/-!
# The history of a session

A session works on one store, with or without a worker. Its history is what the latest of its runs
answered that succeeded, back to the last change of the task or the rule set,
and the store has saved every answer, in the same order
(`Session.Work.Recorded`). One order keeps this (`Session.Work.Recorded.follow`),
so any orders do. A run that fails does not get as far as the history: it has
turned to its rule set and has its surrogate at most (`Session.Ran.of_error`).
-/

namespace RuleVote

namespace Session

/-! ## A session at work -/

/-- What a session is asked for. -/
inductive Order where
  | run (config : RunConfig) (stamp : RunStamp) (line : WorkerLine)
  | swapTable (table : FeatureTable)
  | selectRuleSet (name : String)
  | switchTask (task : Task)

/-- A run that succeeded. -/
structure Success where
  /-- What it was configured for. -/
  config : RunConfig
  /-- What it answered. -/
  result : LabelingResult

/-- A session at work on a store. -/
structure Work (σ : Type) where
  /-- The session. -/
  session : Session
  /-- The store. -/
  store : σ
  /-- The runs that succeeded, the oldest first. -/
  successes : List Success

variable {σ : Type} [LabelStore σ]

namespace Work

/-- The work after a call that only changes the session. -/
def visit (w : Work σ) (c : Call σ) : Work σ := { w with session := c.perform w.session }

/-- The work after an order. -/
def follow (w : Work σ) : Order → Work σ
  | .run config stamp line =>
    let outcome := w.session.run w.store config stamp line
    ⟨outcome.2.1, outcome.2.2, w.successes ++ (outcome.1.toOption.map (Success.mk config)).toList⟩
  | .swapTable table => w.visit (.swapTable table)
  | .selectRuleSet name => w.visit (.selectRuleSet name)
  | .switchTask task => w.visit (.switchTask task)

/-- The work after some orders. -/
def after (w : Work σ) (orders : List Order) : Work σ := orders.foldl follow w

end Work

/-! ## What a run leaves -/

variable {s : Session} {store : σ} {config : RunConfig} {stamp : RunStamp} {line : WorkerLine}
variable {outcome : Fallible LabelingResult × Session × σ}

/-- The session turned to a rule set, with some surrogate. -/
def turnedTo (s : Session) (name : String) (m : Option Surrogate) : Session :=
  { s with
    ruleSet := some name
    history := if s.ruleSet = some name then s.history else []
    surrogate := m }

theorem exists_turnedTo (s : Session) (name : String) :
    ∃ m, s.selectRuleSet name = s.turnedTo name m := by
  rw [selectRuleSet]
  by_cases hname : s.ruleSet = some name
  · refine ⟨s.surrogate, ?_⟩
    rw [if_pos hname, turnedTo, if_pos hname, ← hname]
  · refine ⟨none, ?_⟩
    rw [if_neg hname, turnedTo, if_neg hname]

theorem exists_turnedTo_keepSurrogate (s : Session) (config : RunConfig) (m : Option Surrogate) :
    ∃ m', (s.selectRuleSet config.ruleSet).keepSurrogate config m =
      s.turnedTo config.ruleSet m' := by
  obtain ⟨chosen, hchosen⟩ := s.exists_turnedTo config.ruleSet
  rw [hchosen, keepSurrogate]
  split_ifs
  · exact ⟨chosen, rfl⟩
  · exact ⟨m, rfl⟩

theorem exists_turnedTo_taught (s : Session) (config : RunConfig) (learned : Learned) :
    ∃ m, s.taught config learned = s.turnedTo config.ruleSet m :=
  s.exists_turnedTo_keepSurrogate config learned.surrogate

/-- **A run that fails** has turned to its rule set at most, unless it is
refused. -/
theorem Ran.of_error (h : Ran s store config stamp line outcome) (htask : config.task = s.task)
    {stop : Stop} (hstop : outcome.1 = .error stop) :
    ∃ m, outcome.2 = (s.turnedTo config.ruleSet m, store) := by
  cases h with
  | refused hother => exact absurd htask hother
  | unprepared =>
    obtain ⟨m, hm⟩ := s.exists_turnedTo config.ruleSet
    exact ⟨m, by rw [hm]⟩
  | unlearned =>
    obtain ⟨m, hm⟩ := s.exists_turnedTo_keepSurrogate config none
    exact ⟨m, by rw [hm]⟩
  | @unconcluded _ learned | @unsaved _ learned =>
    obtain ⟨m, hm⟩ := s.exists_turnedTo_taught config learned
    exact ⟨m, by rw [hm]⟩
  | saved => cases hstop

/-- The history goes on with a result that the store has saved. -/
def turnedWith (s : Session) (name : String) (m : Option Surrogate) (result : LabelingResult) :
    Session :=
  { s.turnedTo name m with history := (s.turnedTo name m).history ++ [result] }

theorem task_of_conclude {lesson : Lesson} {learned : Learned} {result : LabelingResult}
    (h : s.conclude config stamp lesson learned = .ok result) :
    result.task = s.task.id ∧ result.ruleSet = config.ruleSet := by
  obtain ⟨_, -, h⟩ := bind_eq_ok_iff.1 h
  obtain ⟨_, -, h⟩ := bind_eq_ok_iff.1 h
  obtain ⟨_, -, h⟩ := bind_eq_ok_iff.1 h
  cases h
  exact ⟨rfl, rfl⟩

/-- **A run that succeeds** has saved its result and put it last in the
history. -/
theorem Ran.of_ok (h : Ran s store config stamp line outcome) {result : LabelingResult}
    (hresult : outcome.1 = .ok result) :
    config.task = s.task ∧ result.task = s.task.id ∧ result.ruleSet = config.ruleSet ∧
      ∃ m store', LabelStore.saveResult store result = .ok store' ∧
        outcome.2 = (s.turnedWith config.ruleSet m result, store') := by
  cases h with
  | refused | unprepared | unlearned | unconcluded | unsaved => cases hresult
  | @saved _ learned _ store' hlearns hconclude hsave =>
    cases hresult
    obtain ⟨htask, hruleSet⟩ := task_of_conclude hconclude
    obtain ⟨m, hm⟩ := s.exists_turnedTo_taught config learned
    exact ⟨hlearns.task_eq, htask, hruleSet, m, store', hsave, by rw [hm, turnedWith]⟩

/-! ## What is recorded -/

/-- A run of the current task and rule set. -/
structure Success.IsOf (run : Success) (s : Session) : Prop where
  config_task : run.config.task = s.task
  config_ruleSet : s.ruleSet = some run.config.ruleSet
  task : run.result.task = s.task.id
  ruleSet : s.ruleSet = some run.result.ruleSet

namespace Work

/-- The answers of all runs that succeeded are saved in their order, and the
history is what the latest of them answered, all runs of the current task and
rule set. -/
structure Recorded (store₀ : σ) (w : Work σ) : Prop where
  saved : (w.successes.map Success.result).foldlM LabelStore.saveResult store₀ = .ok w.store
  history : ∃ earlier runs, w.successes = earlier ++ runs ∧
    w.session.history = runs.map Success.result ∧ ∀ run ∈ runs, run.IsOf w.session

variable {w : Work σ} {store₀ : σ}

theorem recorded_new {task : Task} {table : FeatureTable} (h : new task table = .ok s)
    (store₀ : σ) : Recorded store₀ ⟨s, store₀, []⟩ := by
  obtain ⟨labels, -, h⟩ := bind_eq_ok_iff.1 h
  cases h
  exact ⟨rfl, [], [], rfl, rfl, fun _ hrun => (List.not_mem_nil hrun).elim⟩

/-- A session whose history is cleared. -/
theorem Recorded.cleared (h : w.Recorded store₀) {s : Session} (hs : s.history = []) :
    Recorded store₀ { w with session := s } :=
  ⟨h.saved, w.successes, [], (List.append_nil _).symm, hs, fun _ hrun =>
    (List.not_mem_nil hrun).elim⟩

/-- **Turning to a rule set keeps the record.** -/
theorem Recorded.turnedTo (h : w.Recorded store₀) (name : String) (m : Option Surrogate) :
    Recorded store₀ { w with session := w.session.turnedTo name m } := by
  by_cases hname : w.session.ruleSet = some name
  · obtain ⟨earlier, runs, hsuccesses, hhistory, hruns⟩ := h.history
    refine ⟨h.saved, earlier, runs, hsuccesses, ?_, fun run hrun => ?_⟩
    · rw [← hhistory]
      exact if_pos hname
    · obtain ⟨hconfig, hruleSet, htask, hresult⟩ := hruns run hrun
      exact ⟨hconfig, hname.symm.trans hruleSet, htask, hname.symm.trans hresult⟩
  · exact h.cleared (if_neg hname)

/-- **A run that succeeds is recorded.** -/
theorem Recorded.succeeded (h : w.Recorded store₀) {config : RunConfig} {result : LabelingResult}
    (hconfig : config.task = w.session.task) (htask : result.task = w.session.task.id)
    (hruleSet : result.ruleSet = config.ruleSet) {store' : σ}
    (hsave : LabelStore.saveResult w.store result = .ok store') (m : Option Surrogate) :
    Recorded store₀ ⟨w.session.turnedWith config.ruleSet m result, store',
      w.successes ++ [⟨config, result⟩]⟩ := by
  obtain ⟨hsaved, earlier, runs, hsuccesses, hhistory, hruns⟩ := h.turnedTo config.ruleSet m
  refine ⟨?_, earlier, runs ++ [⟨config, result⟩], ?_, ?_, fun run hrun => ?_⟩
  · rw [List.map_append, List.foldlM_append]
    exact bind_eq_ok_iff.2 ⟨w.store, hsaved, bind_eq_ok_iff.2 ⟨store', hsave, rfl⟩⟩
  · rw [← List.append_assoc]
    exact congrArg (· ++ [_]) hsuccesses
  · rw [List.map_append]
    exact congrArg (· ++ [result]) hhistory
  · rcases List.mem_append.1 hrun with hrun | hrun
    · obtain ⟨hconfig, hname, htask, hresult⟩ := hruns run hrun
      exact ⟨hconfig, hname, htask, hresult⟩
    · obtain rfl := List.mem_singleton.1 hrun
      exact ⟨hconfig, rfl, htask, congrArg some hruleSet.symm⟩

/-! ## One order -/

/-- A run of another task changes nothing. -/
theorem follow_run_of_ne {config : RunConfig} (htask : config.task ≠ w.session.task)
    (stamp : RunStamp) (line : WorkerLine) : w.follow (.run config stamp line) = w := by
  have hrun : w.session.run w.store config stamp line =
      (fail (taskMismatch config w.session), w.session, w.store) := if_pos htask
  rw [follow, hrun]
  exact congrArg (Work.mk w.session w.store) (List.append_nil _)

/-- A run that fails leaves the store and the answers. -/
theorem follow_run_of_error {config : RunConfig} (htask : config.task = w.session.task)
    {stamp : RunStamp} {line : WorkerLine} {stop : Stop}
    (hstop : (w.session.run w.store config stamp line).1 = .error stop) :
    ∃ m, w.follow (.run config stamp line) =
      { w with session := w.session.turnedTo config.ruleSet m } := by
  obtain ⟨m, hm⟩ := (ran_run w.session w.store config stamp line).of_error htask hstop
  refine ⟨m, ?_⟩
  rw [follow, hstop, hm]
  exact congrArg (Work.mk _ w.store) (List.append_nil _)

/-- A run that succeeds is the last of the successes. -/
theorem follow_run_of_ok {config : RunConfig} {stamp : RunStamp} {line : WorkerLine}
    {result : LabelingResult} (hresult : (w.session.run w.store config stamp line).1 = .ok result) :
    ∃ m store', LabelStore.saveResult w.store result = .ok store' ∧
      w.follow (.run config stamp line) = ⟨w.session.turnedWith config.ruleSet m result, store',
        w.successes ++ [⟨config, result⟩]⟩ := by
  obtain ⟨-, -, -, m, store', hsave, hm⟩ :=
    (ran_run w.session w.store config stamp line).of_ok hresult
  refine ⟨m, store', hsave, ?_⟩
  rw [follow, hresult, hm]
  rfl

/-- A task that is refused changes nothing. -/
theorem follow_switchTask_of_error {task : Task} {f : Failure}
    (h : w.session.switchTask task = .error f) : w.follow (.switchTask task) = w := by
  rw [follow, visit, Call.perform, h]

/-- **Every order keeps the record.** -/
theorem Recorded.follow (h : w.Recorded store₀) (o : Order) : (w.follow o).Recorded store₀ := by
  cases o with
  | run config stamp line =>
    -- a run of another task is refused before it changes anything
    by_cases htask : config.task = w.session.task
    · cases hanswer : (w.session.run w.store config stamp line).1 with
      | error stop =>
        obtain ⟨m, hm⟩ := follow_run_of_error htask hanswer
        exact hm ▸ h.turnedTo config.ruleSet m
      | ok result =>
        obtain ⟨-, hid, hruleSet, -⟩ :=
          (ran_run w.session w.store config stamp line).of_ok hanswer
        obtain ⟨m, store', hsave, hm⟩ := follow_run_of_ok hanswer
        exact hm ▸ h.succeeded htask hid hruleSet hsave m
    · rw [follow_run_of_ne htask stamp line]
      exact h
  | swapTable table =>
    obtain ⟨earlier, runs, hsuccesses, hhistory, hruns⟩ := h.history
    refine ⟨h.saved, earlier, runs, hsuccesses, hhistory, fun run hrun => ?_⟩
    obtain ⟨hconfig, hruleSet, htask, hresult⟩ := hruns run hrun
    exact ⟨hconfig, hruleSet, htask, hresult⟩
  | selectRuleSet name =>
    obtain ⟨m, hm⟩ := w.session.exists_turnedTo name
    have hturned := h.turnedTo name m
    rw [← hm] at hturned
    exact hturned
  | switchTask task =>
    cases hswitch : w.session.switchTask task with
    | error f =>
      rw [follow_switchTask_of_error hswitch]
      exact h
    | ok s' =>
      have hcleared : s'.history = [] := by
        obtain ⟨labels, -, hs'⟩ := bind_eq_ok_iff.1 hswitch
        cases hs'
        rfl
      rw [Work.follow, visit, Call.perform, hswitch]
      exact h.cleared hcleared

/-- **A record is kept by any orders.** -/
theorem Recorded.after (h : w.Recorded store₀) (orders : List Order) :
    (w.after orders).Recorded store₀ := by
  induction orders generalizing w with
  | nil => exact h
  | cons o orders ih => exact ih (h.follow o)

/-- **The scores that are compared last** are those of two runs that succeeded
one after the other, both of the current task and rule set. -/
theorem Recorded.lastDelta (h : w.Recorded store₀) {d : RunDelta}
    (hd : w.session.lastDelta = some d) : ∃ earlier previous latest,
      w.successes = earlier ++ [previous, latest] ∧ previous.IsOf w.session ∧
        latest.IsOf w.session ∧ d = latest.result.scores.delta previous.result.scores := by
  obtain ⟨earlier, runs, hsuccesses, hhistory, hruns⟩ := h.history
  rw [Session.lastDelta, hhistory, ← List.map_reverse] at hd
  match hreverse : runs.reverse with
  | [] | [_] =>
    rw [hreverse] at hd
    cases hd
  | latest :: previous :: before =>
    rw [hreverse] at hd
    have hsplit : runs = before.reverse ++ [previous, latest] := by
      rw [← List.reverse_reverse runs, hreverse, List.reverse_cons, List.reverse_cons,
        List.append_assoc]
      rfl
    have hmem : ∀ run ∈ [previous, latest], run.IsOf w.session := fun run hrun =>
      hruns run (hsplit ▸ List.mem_append_right _ hrun)
    refine ⟨earlier ++ before.reverse, previous, latest, ?_, hmem _ ?_, hmem _ ?_, ?_⟩
    · rw [hsuccesses, hsplit, List.append_assoc]
    · exact List.mem_cons_self
    · exact List.mem_cons_of_mem _ List.mem_cons_self
    · exact (Option.some.inj hd).symm

end Work

/-! ## Any orders -/

/-- **The history holds the runs that succeeded since the task or the rule set
changed.** However a session is used on a store, and whatever a worker answers in
its runs, the store holds what it held before and then every answer in order; the
history is what the latest runs
answered, all of the current task and rule set; and the scores compared last
are those of two such runs, one right after the other. A task that is refused
changes nothing, nor does a run of another task. Any other run that fails saves
nothing and answers nothing; the session has turned to the rule set, without
its history if this is another one, and has another surrogate or none, at most.
A run that succeeds has saved its answer, which is the last of the history. -/
theorem history_after {task : Task} {table : FeatureTable} {s₀ : Session}
    (h₀ : new task table = .ok s₀) (store₀ : σ) (orders : List Order) :
    let w := Work.after ⟨s₀, store₀, []⟩ orders
    w.Recorded store₀ ∧
      (∀ d, w.session.lastDelta = some d → ∃ earlier previous latest,
        w.successes = earlier ++ [previous, latest] ∧ previous.IsOf w.session ∧
          latest.IsOf w.session ∧ d = latest.result.scores.delta previous.result.scores) ∧
      (∀ other f, w.session.switchTask other = .error f → w.follow (.switchTask other) = w) ∧
      ∀ config stamp line,
        let answer := (w.session.run w.store config stamp line).1
        (config.task ≠ w.session.task → answer = fail (taskMismatch config w.session) ∧
          w.follow (.run config stamp line) = w) ∧
        (config.task = w.session.task → ∀ stop, answer = .error stop → ∃ m,
          w.follow (.run config stamp line) =
            { w with session := w.session.turnedTo config.ruleSet m }) ∧
        ∀ result, answer = .ok result → ∃ m store',
          LabelStore.saveResult w.store result = .ok store' ∧
          w.follow (.run config stamp line) = ⟨w.session.turnedWith config.ruleSet m result, store',
            w.successes ++ [⟨config, result⟩]⟩ := by
  intro w
  have hrecorded : w.Recorded store₀ := (Work.recorded_new h₀ store₀).after orders
  refine ⟨hrecorded, fun d => hrecorded.lastDelta, fun other f => Work.follow_switchTask_of_error,
    fun config stamp line => ⟨fun htask => ⟨?_, Work.follow_run_of_ne htask stamp line⟩, ?_, ?_⟩⟩
  · rw [run, if_pos htask]
  · exact fun htask stop hstop => Work.follow_run_of_error htask hstop
  · exact fun result hresult => Work.follow_run_of_ok hresult

/-- A run without a worker and one with a worker, and one of another task between
them: the scores of the two are compared, and a task with one label only is
refused. -/
theorem history_after_two :
    let other : RunConfig := { Sample.config with task := ⟨"other", Sample.task.labels⟩ }
    let remote : RunConfig :=
      { Sample.config with learning := { Sample.config.learning with remote := true } }
    let orders : List Order := [.run Sample.config Sample.stamp Sample.line,
      .run other Sample.stamp Sample.line, .run remote Sample.stamp Sample.line]
    let w := Work.after ⟨Sample.session Sample.table, Sample.store, []⟩ orders
    new Sample.task Sample.table = .ok (Sample.session Sample.table) ∧ w.Recorded Sample.store ∧
      w.session.history.length = 2 ∧
      (∃ d earlier previous latest, w.session.lastDelta = some d ∧
        w.successes = earlier ++ [previous, latest] ∧ previous.IsOf w.session ∧
        latest.IsOf w.session ∧ latest.config.learning.remote = true ∧
        d = latest.result.scores.delta previous.result.scores) ∧
      w.follow (.switchTask ⟨"single", ["normal"]⟩) = w ∧
      w.follow (.run other Sample.stamp Sample.line) = w := by
  intro other remote orders w
  have hnew := Sample.new_session Sample.table
  have hlength : w.session.history.length = 2 := by decide +kernel
  have hdelta : w.session.lastDelta.isSome = true := by decide +kernel
  have hremote : (w.successes.getLast?.any fun run => run.config.learning.remote) = true := by
    decide +kernel
  have htask : other.task ≠ w.session.task := by decide +kernel
  obtain ⟨hrecorded, hcompared, hrefused, hruns⟩ := history_after hnew Sample.store orders
  obtain ⟨d, hd⟩ := Option.isSome_iff_exists.1 hdelta
  obtain ⟨earlier, previous, latest, hsuccesses, hprevious, hlatest, hcompared⟩ := hcompared d hd
  have hlast : latest.config.learning.remote = true := by
    have hsplit : w.successes = (earlier ++ [previous]) ++ [latest] := by
      rw [List.append_assoc]
      exact hsuccesses
    rwa [hsplit, List.getLast?_concat] at hremote
  refine ⟨hnew, hrecorded, hlength, ⟨d, earlier, previous, latest, hd, hsuccesses, hprevious,
    hlatest, hlast, hcompared⟩, hrefused ⟨"single", ["normal"]⟩ _ rfl, ?_⟩
  exact ((hruns other Sample.stamp Sample.line).1 htask).2

end Session

end RuleVote
