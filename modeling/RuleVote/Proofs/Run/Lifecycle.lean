import RuleVote.Proofs.Surrogate.Recall
import RuleVote.Run.Session
import RuleVote.Store.Memory
/-!
# The life of a session

A session is called in any order, each run on a store of its own contents and
with a line to a worker that answers whatever it answers. A call may change the
task or the table, forgets what no longer fits, and keeps the surrogate that was
trained last without a worker. Between calls the labels are those of the task and
the surrogate keeps a genuine training (`Session.Sound.after`). A run comes to one
of six outcomes, by the stage that it gets to (`Session.ran_run`).
-/

namespace RuleVote

namespace Session

variable {σ : Type} [LabelStore σ]

/-! ## Calls -/

/-- A call on a session. -/
inductive Call (σ : Type) where
  | run (store : σ) (config : RunConfig) (stamp : RunStamp) (line : WorkerLine)
  | swapTable (table : FeatureTable)
  | selectRuleSet (name : String)
  | switchTask (task : Task)

/-- The session after a call; one that fails may still have dropped the
surrogate. -/
def Call.perform (s : Session) : Call σ → Session
  | .run store config stamp line => (s.run store config stamp line).2.1
  | .swapTable table => s.swapTable table
  | .selectRuleSet name => s.selectRuleSet name
  | .switchTask task =>
    match s.switchTask task with
    | .ok s' => s'
    | .error _ => s

/-- The session after some calls. -/
def after (s : Session) (calls : List (Call σ)) : Session := calls.foldl Call.perform s

/-! ## What a run can do -/

variable {s s' : Session} {store : σ} {config : RunConfig} {stamp : RunStamp} {line : WorkerLine}

/-- The session as it is when a run has learned. -/
def taught (s : Session) (config : RunConfig) (learned : Learned) : Session :=
  (s.selectRuleSet config.ruleSet).keepSurrogate config learned.surrogate

/-- A run that gets through learning. -/
structure Learns (s : Session) (store : σ) (config : RunConfig) (line : WorkerLine)
    (lesson : Lesson) (learned : Learned) : Prop where
  task_eq : config.task = s.task
  prepare : (s.selectRuleSet config.ruleSet).prepare store config = .ok lesson
  learn : (s.selectRuleSet config.ruleSet).learn config line lesson.input = .ok learned

/-- What a run can come to: it is refused, it fails in one of its stages or in
the store, or it answers with its result. -/
inductive Ran (s : Session) (store : σ) (config : RunConfig) (stamp : RunStamp)
    (line : WorkerLine) : Fallible LabelingResult × Session × σ → Prop
  | refused (htask : config.task ≠ s.task) :
      Ran s store config stamp line (fail (taskMismatch config s), s, store)
  | unprepared {e : Stop} (htask : config.task = s.task)
      (hprepare : (s.selectRuleSet config.ruleSet).prepare store config = .error e) :
      Ran s store config stamp line (.error e, s.selectRuleSet config.ruleSet, store)
  | unlearned {lesson : Lesson} {e : Stop} (htask : config.task = s.task)
      (hprepare : (s.selectRuleSet config.ruleSet).prepare store config = .ok lesson)
      (hlearn : (s.selectRuleSet config.ruleSet).learn config line lesson.input = .error e) :
      Ran s store config stamp line
        (.error e, (s.selectRuleSet config.ruleSet).keepSurrogate config none, store)
  | unconcluded {lesson : Lesson} {learned : Learned} {e : Stop}
      (h : s.Learns store config line lesson learned)
      (hconclude : s.conclude config stamp lesson learned = .error e) :
      Ran s store config stamp line (.error e, s.taught config learned, store)
  | unsaved {lesson : Lesson} {learned : Learned} {result : LabelingResult} {f : Failure}
      (h : s.Learns store config line lesson learned)
      (hconclude : s.conclude config stamp lesson learned = .ok result)
      (hsave : LabelStore.saveResult store result = .error f) :
      Ran s store config stamp line (fail f, s.taught config learned, store)
  | saved {lesson : Lesson} {learned : Learned} {result : LabelingResult} {store' : σ}
      (h : s.Learns store config line lesson learned)
      (hconclude : s.conclude config stamp lesson learned = .ok result)
      (hsave : LabelStore.saveResult store result = .ok store') :
      Ran s store config stamp line (.ok result,
        { s.taught config learned with history := (s.taught config learned).history ++ [result] },
        store')

/-- Everything but what a session remembers. -/
structure SameTask (s s' : Session) : Prop where
  task_eq : s'.task = s.task
  labels_eq : s'.labels = s.labels
  table_eq : s'.table = s.table

theorem sameTask_keepSurrogate (s : Session) (config : RunConfig) (m : Option Surrogate) :
    SameTask s (s.keepSurrogate config m) := by
  rw [keepSurrogate]
  split_ifs <;> exact ⟨rfl, rfl, rfl⟩

theorem sameTask_selectRuleSet (s : Session) (name : String) :
    SameTask s (s.selectRuleSet name) := by
  rw [selectRuleSet]
  split_ifs <;> exact ⟨rfl, rfl, rfl⟩

theorem SameTask.trans {s s' s'' : Session} (h : SameTask s s') (h' : SameTask s' s'') :
    SameTask s s'' :=
  ⟨h'.task_eq.trans h.task_eq, h'.labels_eq.trans h.labels_eq, h'.table_eq.trans h.table_eq⟩

/-- Learning leaves the task. -/
theorem sameTask_taught (s : Session) (config : RunConfig) (learned : Learned) :
    SameTask s (s.taught config learned) :=
  (sameTask_selectRuleSet s _).trans (sameTask_keepSurrogate _ _ _)

/-- Rules and gold labels are turned into a lesson without what a session
remembers. -/
theorem SameTask.prepare_eq (h : SameTask s s') (store : σ) (config : RunConfig) :
    s'.prepare store config = s.prepare store config := by
  cases s
  cases s'
  obtain ⟨rfl, rfl, rfl⟩ := h
  rfl

/-- The result is made without what a session remembers. -/
theorem SameTask.conclude_eq (h : SameTask s s') (config : RunConfig) (stamp : RunStamp)
    (lesson : Lesson) (learned : Learned) :
    s'.conclude config stamp lesson learned = s.conclude config stamp lesson learned := by
  rw [conclude, conclude, h.task_eq, h.table_eq]

/-- **A run comes to one of these.** -/
theorem ran_run (s : Session) (store : σ) (config : RunConfig) (stamp : RunStamp)
    (line : WorkerLine) : Ran s store config stamp line (s.run store config stamp line) := by
  by_cases htask : config.task = s.task
  · rw [run, if_neg (not_not_intro htask)]
    dsimp only
    cases hprepare : (s.selectRuleSet config.ruleSet).prepare store config with
    | error e => exact .unprepared htask hprepare
    | ok lesson =>
      dsimp only
      cases hlearn : (s.selectRuleSet config.ruleSet).learn config line lesson.input with
      | error e => exact .unlearned htask hprepare hlearn
      | ok learned =>
        dsimp only
        have hlearns : s.Learns store config line lesson learned := ⟨htask, hprepare, hlearn⟩
        rw [show (s.selectRuleSet config.ruleSet).keepSurrogate config learned.surrogate =
            s.taught config learned from rfl,
          (sameTask_taught s config learned).conclude_eq config stamp lesson learned]
        cases hconclude : s.conclude config stamp lesson learned with
        | error e => exact .unconcluded hlearns hconclude
        | ok result =>
          dsimp only
          cases hsave : LabelStore.saveResult store result with
          | error f => exact .unsaved hlearns hconclude hsave
          | ok store' => exact .saved hlearns hconclude hsave
  · rw [run, if_pos htask]
    exact .refused htask

/-- **A run that succeeds** has learned from its lesson, made its result of both
and kept its surrogate. -/
theorem exists_of_run_eq_ok {result : LabelingResult}
    (h : (s.run store config stamp line).1 = .ok result) :
    ∃ lesson learned, s.Learns store config line lesson learned ∧
      s.conclude config stamp lesson learned = .ok result ∧
      (s.run store config stamp line).2.1.surrogate = (s.taught config learned).surrogate := by
  have hran := ran_run s store config stamp line
  generalize s.run store config stamp line = outcome at h hran ⊢
  cases hran with
  | refused | unprepared | unlearned | unconcluded | unsaved => cases h
  | @saved lesson learned _ _ hlearns hconclude =>
    cases h
    exact ⟨lesson, learned, hlearns, hconclude, rfl⟩

/-! ## Between calls -/

/-- A session keeps a surrogate only with a genuine training. -/
def Trusted (s : Session) : Prop := ∀ m, s.surrogate = some m → m.Genuine

/-- A session without a surrogate is trusted. -/
theorem trusted_of_none (h : s.surrogate = none) : s.Trusted := by
  intro m hm
  rw [h] at hm
  cases hm

theorem Trusted.keepSurrogate (h : s.Trusted) {m : Option Surrogate}
    (hm : config.learning.remote = false → { s with surrogate := m }.Trusted) :
    (s.keepSurrogate config m).Trusted := by
  rw [Session.keepSurrogate]
  split_ifs with hremote
  · exact h
  · exact hm (Bool.eq_false_iff.2 hremote)

theorem Trusted.selectRuleSet (h : s.Trusted) (name : String) :
    (s.selectRuleSet name).Trusted := by
  rw [Session.selectRuleSet]
  split_ifs
  · exact h
  · exact trusted_of_none rfl

/-- The surrogate that a trusted session chooses is genuine. -/
theorem Trusted.genuine_surrogateFor (h : s.Trusted) (settings : SurrogateSettings) :
    (s.surrogateFor settings).Genuine := by
  rw [Session.surrogateFor]
  cases hm : s.surrogate.filter fun m => m.settings.agrees settings with
  | none => exact Surrogate.genuine_new settings
  | some m => exact h m (Option.filter_eq_some_iff.1 hm).1

/-- Without a worker a session learns by itself. -/
theorem learn_of_local (hlocal : config.learning.remote = false) (input : SurrogateInput) :
    s.learn config line input = s.learnHere config.learning input := by
  rw [learn, hlocal]
  rfl

/-- A run without a worker learns from the lesson of its session. -/
theorem Learns.of_local {lesson : Lesson} {learned : Learned}
    (h : s.Learns store config line lesson learned) (hlocal : config.learning.remote = false) :
    s.prepare store config = .ok lesson ∧
      (s.selectRuleSet config.ruleSet).learnHere config.learning lesson.input = .ok learned := by
  rw [← learn_of_local hlocal, ← (sameTask_selectRuleSet s config.ruleSet).prepare_eq store config]
  exact ⟨h.prepare, h.learn⟩

/-- **What a session learns by itself** is learned by training its surrogate, and is
what this surrogate predicts and refers to. -/
theorem exists_of_learnHere {settings : LearningSettings} {input : SurrogateInput}
    {learned : Learned} (h : s.learnHere settings input = .ok learned) :
    ∃ m, learned.surrogate = some m ∧
      (s.surrogateFor settings.model).train input settings.effectiveFolds =
        .ok (learned.records, m) ∧
      m.predict input.features = .ok learned.predicted ∧
      ∀ reference, m.reference = some reference → learned.reference = reference := by
  obtain ⟨⟨records, m⟩, htrain, h⟩ := bind_eq_ok_iff.1 h
  obtain ⟨predicted, hpredict, h⟩ := bind_eq_ok_iff.1 h
  dsimp only at h
  split at h
  · next labels hlabels =>
    cases h
    exact ⟨m, rfl, htrain, hpredict, fun _ hreference =>
      Option.some.inj (hlabels.symm.trans hreference)⟩
  · next hnone =>
    obtain ⟨_, -, h⟩ := bind_eq_ok_iff.1 h
    cases h
    refine ⟨m, rfl, htrain, hpredict, fun _ hreference => ?_⟩
    rw [hnone] at hreference
    cases hreference

/-- A trusted session is trusted after it has learned. -/
theorem Trusted.taught (h : s.Trusted) {lesson : Lesson} {learned : Learned}
    (hlearns : s.Learns store config line lesson learned) : (s.taught config learned).Trusted := by
  have hchosen := h.selectRuleSet config.ruleSet
  refine hchosen.keepSurrogate fun hlocal m hm => ?_
  have hlearn := hlearns.learn
  rw [learn_of_local hlocal] at hlearn
  obtain ⟨m', hm', htrain, -⟩ := exists_of_learnHere hlearn
  obtain rfl := Option.some.inj (hm'.symm.trans hm)
  exact ((hchosen.genuine_surrogateFor config.learning.model).of_train htrain).1

/-- What holds of a session between calls. -/
structure Sound (s : Session) : Prop where
  labels_eq : s.task.labelSet = .ok s.labels
  trusted : s.Trusted

/-- **A new session is sound.** -/
theorem sound_new {task : Task} {table : FeatureTable} (h : new task table = .ok s) : s.Sound := by
  obtain ⟨labels, hlabels, h⟩ := bind_eq_ok_iff.1 h
  cases h
  exact ⟨hlabels, trusted_of_none rfl⟩

theorem Sound.of_sameTask (h : s.Sound) (hsame : SameTask s s') (htrusted : s'.Trusted) :
    s'.Sound :=
  ⟨by rw [hsame.task_eq, hsame.labels_eq, h.labels_eq], htrusted⟩

/-- **A run leaves a sound session**, whether it succeeds or fails. -/
theorem Sound.of_ran (h : s.Sound) {outcome : Fallible LabelingResult × Session × σ}
    (hran : Ran s store config stamp line outcome) : outcome.2.1.Sound := by
  have hselect := sameTask_selectRuleSet s config.ruleSet
  have hchosen := h.trusted.selectRuleSet config.ruleSet
  cases hran with
  | refused => exact h
  | unprepared => exact h.of_sameTask hselect hchosen
  | unlearned =>
    exact h.of_sameTask (hselect.trans (sameTask_keepSurrogate _ _ _))
      (hchosen.keepSurrogate fun _ => trusted_of_none rfl)
  | unconcluded hlearns | unsaved hlearns =>
    exact h.of_sameTask (sameTask_taught s _ _) (h.trusted.taught hlearns)
  | saved hlearns =>
    obtain ⟨htask, hlabels, htable⟩ := sameTask_taught s config _
    exact h.of_sameTask ⟨htask, hlabels, htable⟩ (h.trusted.taught hlearns)

/-- **Every call keeps a session sound.** -/
theorem Sound.perform (h : s.Sound) (c : Call σ) : (c.perform s).Sound := by
  cases c with
  | run store config stamp line => exact h.of_ran (ran_run s store config stamp line)
  | swapTable table => exact ⟨h.labels_eq, trusted_of_none rfl⟩
  | selectRuleSet name =>
    exact h.of_sameTask (sameTask_selectRuleSet s name) (h.trusted.selectRuleSet name)
  | switchTask task =>
    rw [Call.perform]
    cases hswitch : s.switchTask task with
    | error f => exact h
    | ok s' => exact sound_new hswitch

/-- **A session is sound after every run of calls**, whatever their order and
whichever of them fail. -/
theorem Sound.after (h : s.Sound) (calls : List (Call σ)) : (s.after calls).Sound := by
  induction calls generalizing s with
  | nil => exact h
  | cons c calls ih => exact ih (h.perform c)

end Session

/-! ## A small session -/

namespace Session.Sample

/-- Items are normal or noisy. -/
def task : Task := ⟨"quality", ["normal", "noisy"]⟩

/-- One normal and one noisy item. -/
def table : FeatureTable := ⟨["a", "b"], [⟨"noise", [0.25, 0.75]⟩, ⟨"gaps", [0, 4]⟩], none⟩

/-- The two items, and another noisy one. -/
def threeItems : FeatureTable :=
  ⟨["a", "b", "c"], [⟨"noise", [0.25, 0.75, 1]⟩, ⟨"gaps", [0, 4, 8]⟩], none⟩

/-- Three rules that agree. -/
def rules : List Rule := [⟨"noisy", none, "noise > 0.5", 1, 0⟩, ⟨"gaps", none, "gaps > 1", 1, 0⟩,
  ⟨"quiet", none, "noise < 0.5", 0, -1⟩]

/-- A store of these rules. -/
def store : MemoryStore := MemoryStore.empty.withRules "first" rules

/-- A regression that is left as it starts. -/
def model : SurrogateSettings := .closedForm { ClosedFormSettings.standard with maxIterations := 0 }

/-- The majority of the rules, and no folds. -/
def config : RunConfig := { RunConfig.new task "first" with
  reduction := { ReductionSettings.standard with method := .majority }
  learning := { LearningSettings.standard with model, folds := some 0 } }

/-- The identifier of zeros and the first moment of a year. -/
def stamp : RunStamp :=
  ⟨⟨List.replicate 32 (Uuid.digitOf 0), rfl⟩, { Moment.epoch with date := ⟨2026, 1, 1, by decide⟩ }⟩

/-- A worker that finds every item normal. -/
def line : WorkerLine where
  answer
    | .init settings => .ok (.initialized settings.kind)
    | .apply _ _ => .ok (.trained [])
    | .predict features => .ok (.predicted (List.replicate features.rows 0))
    | .restart => .ok .cleared
  wording _ := ""

/-- A session that has not run. -/
def session (table : FeatureTable) : Session := ⟨task, ⟨task.labels⟩, table, none, [], none⟩

theorem new_session (table : FeatureTable) : Session.new task table = .ok (session table) := rfl

end Session.Sample

end RuleVote
