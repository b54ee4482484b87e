import RuleVote.Proofs.Run.Preparation
import RuleVote.Proofs.Score.Evaluation
import RuleVote.Proofs.Surrogate.Retraining
/-!
# How runs end

A surrogate that was trained on a lesson predicts a label for every item, so
the scores, the analysis of the votes and the result are there as well
(`Session.Taught.exists_conclude`). Hence a run without a worker does not break off
where there is room for its training, and reports nothing but a task that is not its
own, what the store reports, rules that are too few, or what the training of its
surrogate reports (`Session.run_ends`). Settings may ask for a training that there is
no room for, and then it does break off (`Session.breaks_off_of_many_epochs`).
-/

namespace RuleVote

variable {E : Failure → Prop}

/-- **Valid votes have an analysis.** -/
theorem VoteTable.Valid.analysis {t : VoteTable} {classes : Nat} (h : t.Valid classes)
    {gold : List Int} (hgold : gold.length = t.keys.length) :
    Ends (VoteAnalysis.new t (some gold)) E fun _ => True := by
  rw [VoteAnalysis.new]
  dsimp only
  rw [if_neg (not_not_intro (hgold.trans h.rows_eq.symm))]
  refine h.wellShaped.sized.allRows.bind fun rows _ => ?_
  refine Ends.bind (Ends.mapM (Q := fun _ => True) fun j hj => ?_) fun _ _ => .ok trivial
  have hj : j < t.votes.cols := List.mem_range.1 hj
  refine (h.wellShaped.sized.column hj).bind fun column _ => ?_
  have hname := List.getElem?_eq_getElem (l := t.functions) (h.cols_eq ▸ hj)
  exact (Ends.orBreak (P := fun _ => True) hname trivial).bind fun _ _ => .ok trivial

namespace Session

variable {s : Session} {config : RunConfig} {line : WorkerLine} {lesson : Lesson}
variable {learned : Learned}

/-! ## After training -/

/-- There is room for the surrogate of the last run where there is room for one of
the settings. -/
theorem hasRoom_surrogateFor (s : Session) {settings : SurrogateSettings}
    {input : SurrogateInput} (hroom : settings.HasRoom input) :
    (s.surrogateFor settings).settings.HasRoom input := by
  rw [surrogateFor]
  cases hm : s.surrogate.filter fun m => m.settings.agrees settings with
  | none => exact hroom
  | some m => exact hroom.of_agrees (Option.filter_eq_some_iff.1 hm).2

/-- **A surrogate that is trained predicts** a label for every row. -/
theorem Trusted.ends_learnHere (h : s.Trusted) {settings : LearningSettings}
    {input : SurrogateInput} (hvalid : input.Valid) (hroom : settings.model.HasRoom input) :
    Ends (s.learnHere settings input)
      (fun f => (s.surrogateFor settings.model).train input settings.effectiveFolds =
        .error (.failed f))
      fun learned => learned.predicted.length = input.features.rows := by
  have htrain := ((h.genuine_surrogateFor settings.model).intact_train hvalid
    (s.hasRoom_surrogateFor hroom) settings.effectiveFolds).own
  rw [learnHere]
  refine htrain.bind ?_
  rintro ⟨records, surrogate⟩ hfor
  have hclasses : 0 < input.classes := Nat.lt_of_lt_of_le Nat.zero_lt_two hvalid.two_le
  refine (hfor.predict hclasses hvalid.features.sized).bind fun predicted hpredicted => ?_
  dsimp only
  cases surrogate.reference with
  | some reference => exact .ok hpredicted
  | none => exact hvalid.referenceLabels.bind fun _ _ => .ok hpredicted

/-- **It predicts labels of classes**, unless there are too many of these. -/
theorem Trusted.of_mem_predicted (h : s.Trusted) {settings : LearningSettings}
    {input : SurrogateInput} (hvalid : input.Valid)
    (hlearn : s.learnHere settings input = .ok learned) {label : Int}
    (hlabel : label ∈ learned.predicted) :
    (input.classes ≤ Nat.pow 2 31 → 0 ≤ label) ∧ label < input.classes := by
  obtain ⟨m, -, htrain, hpredict, -⟩ := exists_of_learnHere hlearn
  have hclasses : 0 < input.classes := Nat.lt_of_lt_of_le Nat.zero_lt_two hvalid.two_le
  have hfor := (h.genuine_surrogateFor settings.model).for_of_train hvalid htrain
  exact hfor.of_mem_predict hclasses hvalid.features.sized hpredict hlabel

theorem ends_scoresOf (keys : List String) (lesson : Lesson) (learned : Learned) :
    Ends (scoresOf keys lesson learned) E fun _ => True := by
  refine (Score.ends_ofLabels ?_).bind fun _ _ => .ok trivial
  rw [List.length_map, List.length_map]

theorem Taught.ends_itemLabels (h : s.Taught lesson)
    (hpredicted : learned.predicted.length = s.table.size) :
    Ends (itemLabels s.table.keys lesson learned) E fun _ => True := by
  refine (Ends.mapM (Q := fun _ => True) ?_).imp fun _ _ => trivial
  rintro ⟨key, i⟩ hkey
  have hi : i < s.table.size := List.snd_lt_of_mem_zipIdx hkey
  have hread : ∀ labels : List Int, labels.length = s.table.size →
      Ends (orBreak labels[i]?) E fun _ => True := fun labels hlength =>
    .orBreak (List.getElem?_eq_getElem (hlength ▸ hi)) trivial
  refine (hread _ h.aggregated).bind fun _ _ => ?_
  refine (hread _ h.targets).bind fun _ _ => ?_
  exact (hread _ hpredicted).bind fun _ _ => .ok trivial

/-- **A run that has learned has a result.** -/
theorem Taught.exists_conclude (h : s.Taught lesson)
    (hpredicted : learned.predicted.length = s.table.size) (config : RunConfig)
    (stamp : RunStamp) : ∃ result, s.conclude config stamp lesson learned = .ok result := by
  have hends : Ends (s.conclude config stamp lesson learned) (fun _ => False) fun _ => True := by
    refine (ends_scoresOf _ _ _).bind fun _ _ => ?_
    obtain ⟨t, ht, hkeys, hvalid⟩ := h.votes
    have hanalysis : Ends (lesson.labeler.analysis
        (some (s.table.keys.map fun key => (lesson.gold key).getD abstain)))
        (fun _ => False) fun _ => True := by
      refine (Ends.lifted (Labeler.currentVotes_eq_ok_iff.2 ht)).bind ?_
      rintro _ rfl
      exact hvalid.analysis ((List.length_map _).trans (congrArg List.length hkeys.symm))
    refine hanalysis.bind fun _ _ => ?_
    exact (h.ends_itemLabels hpredicted).bind fun _ _ => .ok trivial
  obtain ⟨result, hresult, -⟩ := hends.exists_ok
  exact ⟨result, hresult⟩

/-! ## The run -/

/-- The rules that a run can use: those selected that compile. -/
def usableRules (s : Session) (config : RunConfig) (rules : List Rule) : List Rule :=
  (s.labelerFor rules config.reduction).selected.filter
    (RuleFunction.compiles s.labels s.table)

theorem length_functions (s : Session) (config : RunConfig) (rules : List Rule) :
    (s.labelerFor rules config.reduction).compiled.functions.length =
      (s.usableRules config rules).length := by
  have hids : List.map RuleFunction.ruleId ((s.labelerFor rules config.reduction).selected.filterMap
      (RuleFunction.function? s.labels s.table)) = (s.usableRules config rules).map Rule.id :=
    RuleFunction.map_ruleId_functions _
  have hlength := congrArg List.length hids
  rwa [List.length_map, List.length_map] at hlength

/-- **Creation fails exactly where the rules that can be used are too few.** -/
theorem created_eq_error_iff {rules : List Rule} {f : Failure} :
    (s.labelerFor rules config.reduction).createFunctions.1 = .error f ↔
      (s.usableRules config rules).length < Labeler.minFunctions ∧
        f = .tooFewRules (s.usableRules config rules).length Labeler.minFunctions := by
  rw [Labeler.createFunctions_eq, length_functions]
  split_ifs with hfew
  · exact ⟨fun h => ⟨hfew, (Except.error.inj h).symm⟩, fun h => congrArg Except.error h.2.symm⟩
  · exact ⟨nofun, fun h => absurd h.1 hfew⟩

variable {σ : Type} [LabelStore σ]

/-- The surrogate that a run trains. -/
def chosenSurrogate (s : Session) (config : RunConfig) : Surrogate :=
  (s.selectRuleSet config.ruleSet).surrogateFor config.learning.model

/-- The failures that a run without a worker may report. -/
inductive Excused (s : Session) (store : σ) (config : RunConfig) (stamp : RunStamp) :
    Failure → Prop
  | task (h : config.task ≠ s.task) : Excused s store config stamp (taskMismatch config s)
  | rules {f : Failure} (h : LabelStore.rules store config.ruleSet = .error f) :
      Excused s store config stamp f
  | gold {f : Failure} (h : LabelStore.goldLabels store s.task.id = .error f) :
      Excused s store config stamp f
  | tooFewRules {rules : List Rule} (hrules : LabelStore.rules store config.ruleSet = .ok rules)
      (hfew : (s.usableRules config rules).length < Labeler.minFunctions) :
      Excused s store config stamp
        (.tooFewRules (s.usableRules config rules).length Labeler.minFunctions)
  | training {lesson : Lesson} {f : Failure} (hlesson : s.prepare store config = .ok lesson)
      (h : (s.chosenSurrogate config).train lesson.input config.learning.effectiveFolds =
        .error (.failed f)) : Excused s store config stamp f
  | saving {lesson : Lesson} {learned : Learned} {result : LabelingResult} {f : Failure}
      (hlesson : s.prepare store config = .ok lesson)
      (hlearn : (s.selectRuleSet config.ruleSet).learnHere config.learning lesson.input =
        .ok learned)
      (hresult : s.conclude config stamp lesson learned = .ok result)
      (h : LabelStore.saveResult store result = .error f) : Excused s store config stamp f

variable {store : σ} {stamp : RunStamp}

theorem Unprepared.excused {f : Failure} (h : s.Unprepared store config f) :
    s.Excused store config stamp f := by
  cases h with
  | rules h => exact .rules h
  | gold h => exact .gold h
  | created hrules h =>
    obtain ⟨hfew, rfl⟩ := created_eq_error_iff.1 h
    exact .tooFewRules hrules hfew

theorem prepare_selectRuleSet (s : Session) (store : σ) (config : RunConfig) :
    (s.selectRuleSet config.ruleSet).prepare store config = s.prepare store config :=
  (sameTask_selectRuleSet s config.ruleSet).prepare_eq store config

/-- What is learned from a lesson, once a surrogate is trained on it. -/
theorem Sound.ends_learnHere (hs : s.Sound) (hlesson : s.Taught lesson)
    (hroom : config.learning.model.HasRoom lesson.input) :
    Ends ((s.selectRuleSet config.ruleSet).learnHere config.learning lesson.input)
      (fun f => (s.chosenSurrogate config).train lesson.input config.learning.effectiveFolds =
        .error (.failed f))
      fun learned => learned.predicted.length = s.table.size := by
  have hchosen := hs.trusted.selectRuleSet config.ruleSet
  have hlearn := hchosen.ends_learnHere hlesson.input hroom
  rwa [hlesson.rows_eq] at hlearn

/-- **A run reports a failure only where it is excused**, and does not break off
where there is room for what it learns. -/
theorem Sound.ends_ran (hs : s.Sound) (ht : s.table.Proper)
    (hlocal : config.learning.remote = false)
    (hroom : ∀ lesson, s.prepare store config = .ok lesson →
      config.learning.model.HasRoom lesson.input)
    {outcome : Fallible LabelingResult × Session × σ}
    (hran : Ran s store config stamp line outcome) :
    Ends outcome.1 (s.Excused store config stamp) fun _ => True := by
  have hprepared := hs.ends_prepare ht store config
  cases hran with
  | refused htask => exact .fail (.task htask)
  | unprepared htask hprepare =>
    rw [prepare_selectRuleSet] at hprepare
    exact hprepared.of_error hprepare fun f => Unprepared.excused
  | unlearned htask hprepare hlearn =>
    rw [prepare_selectRuleSet] at hprepare
    rw [learn_of_local hlocal] at hlearn
    have hlearned := hs.ends_learnHere (hprepared.of_ok hprepare) (hroom _ hprepare)
    exact hlearned.of_error hlearn fun f => .training hprepare
  -- Nothing fails between the predictions and the result.
  | unconcluded hlearns hconclude =>
    obtain ⟨hprepare, hlearn⟩ := hlearns.of_local hlocal
    have htaught := hprepared.of_ok hprepare
    have hpredicted := (hs.ends_learnHere htaught (hroom _ hprepare)).of_ok hlearn
    obtain ⟨result, hresult⟩ := htaught.exists_conclude hpredicted config stamp
    rw [hresult] at hconclude
    cases hconclude
  | unsaved hlearns hconclude hsave =>
    obtain ⟨hprepare, hlearn⟩ := hlearns.of_local hlocal
    exact .fail (.saving hprepare hlearn hconclude hsave)
  | saved => exact .ok trivial

/-- **A run fails only where it says so.** However a session was used, a run
without a worker on a table that was made or read does not break off, if there is
room for what it learns. It has a result, or it reports that its task is another
one, what the store reports, that fewer than three rules can be used, or what the
training of its surrogate reports. In particular nothing else fails once the store
is read and three rules can be used: votes, model, labels, the features, the input
of the surrogate, its predictions, scores and analysis are all there. -/
theorem run_ends {task : Task} {table : FeatureTable} {s₀ : Session}
    (h₀ : new task table = .ok s₀) (calls : List (Call σ)) (store : σ) (config : RunConfig)
    (stamp : RunStamp) (line : WorkerLine) (hlocal : config.learning.remote = false) :
    let s := s₀.after calls
    s.table.Loaded →
      (∀ lesson, s.prepare store config = .ok lesson →
        config.learning.model.HasRoom lesson.input) →
      ((∃ result, (s.run store config stamp line).1 = .ok result) ∨
        ∃ f, (s.run store config stamp line).1 = .error (.failed f) ∧
          s.Excused store config stamp f) ∧
      ∀ rules gold, LabelStore.rules store config.ruleSet = .ok rules →
        LabelStore.goldLabels store s.task.id = .ok gold →
        Labeler.minFunctions ≤ (s.usableRules config rules).length →
        ∃ lesson, s.prepare store config = .ok lesson ∧
          ∀ trained, (s.chosenSurrogate config).train lesson.input
              config.learning.effectiveFolds = .ok trained →
            ∃ learned result,
              (s.selectRuleSet config.ruleSet).learn config line lesson.input = .ok learned ∧
              s.conclude config stamp lesson learned = .ok result := by
  intro s hloaded hroom
  have hs : s.Sound := (sound_new h₀).after calls
  have ht : s.table.Proper := hloaded.proper
  refine ⟨?_, fun rules gold hrules hgold henough => ?_⟩
  · rcases (hs.ends_ran ht hlocal hroom (ran_run s store config stamp line)).cases with
      ⟨result, hresult, -⟩ | hfailed
    · exact .inl ⟨result, hresult⟩
    · exact .inr hfailed
  · -- With rules, gold labels and enough functions, none of the excuses for preparing is left.
    have hprepare : Ends (s.prepare store config) (fun _ => False) s.Taught := by
      refine (hs.ends_prepare ht store config).mono (fun f hf => ?_) fun _ => id
      cases hf with
      | rules h =>
        rw [hrules] at h
        cases h
      | gold h =>
        rw [hgold] at h
        cases h
      | created hrules' h =>
        obtain rfl := Except.ok.inj (hrules.symm.trans hrules')
        exact Nat.not_lt.2 henough (created_eq_error_iff.1 h).1
    obtain ⟨lesson, hlesson, htaught⟩ := hprepare.exists_ok
    refine ⟨lesson, hlesson, fun trained htrained => ?_⟩
    have hlearn : Ends ((s.selectRuleSet config.ruleSet).learn config line lesson.input)
        (fun _ => False) fun learned => learned.predicted.length = s.table.size := by
      rw [learn_of_local hlocal]
      refine (hs.ends_learnHere htaught (hroom lesson hlesson)).mono (fun f hf => ?_) fun _ => id
      rw [htrained] at hf
      cases hf
    obtain ⟨learned, hlearned, hpredicted⟩ := hlearn.exists_ok
    obtain ⟨result, hresult⟩ := htaught.exists_conclude hpredicted config stamp
    exact ⟨learned, result, hlearned, hresult⟩

/-- Two runs of three rules with a gold label in the place of a label found; the
second finds a surrogate that is trained. -/
theorem run_ends_twice :
    let table := Sample.threeItems
    let gold : List GoldLabel := [⟨"g", "c", 0, "reader", "quality"⟩]
    let store : MemoryStore := { Sample.store with gold }
    let config : RunConfig :=
      { Sample.config with learning := { Sample.config.learning with includeGold := true } }
    let s := (Sample.session table).after [Call.run store config Sample.stamp Sample.line]
    new Sample.task table = .ok (Sample.session table) ∧ config.learning.remote = false ∧
      s.table.Loaded ∧
      (∀ lesson, s.prepare store config = .ok lesson →
        config.learning.model.HasRoom lesson.input) ∧
      LabelStore.rules store config.ruleSet = .ok Sample.rules ∧
      LabelStore.goldLabels store s.task.id = .ok gold ∧
      Labeler.minFunctions ≤ (s.usableRules config Sample.rules).length ∧
      ((∃ result, (s.run store config Sample.stamp Sample.line).1 = .ok result) ∨
        ∃ f, (s.run store config Sample.stamp Sample.line).1 = .error (.failed f) ∧
          s.Excused store config Sample.stamp f) ∧
      ∃ lesson trained learned result, s.prepare store config = .ok lesson ∧
        (s.chosenSurrogate config).train lesson.input config.learning.effectiveFolds =
          .ok trained ∧
        (s.selectRuleSet config.ruleSet).learn config Sample.line lesson.input = .ok learned ∧
        s.conclude config Sample.stamp lesson learned = .ok result := by
  intro table gold store config s
  have hnew := Sample.new_session table
  have hloaded : s.table.Loaded :=
    .new (show FeatureTable.new table.keys table.columns = .ok s.table by decide +kernel)
  have hgold : LabelStore.goldLabels store s.task.id = .ok gold := by decide +kernel
  have henough : Labeler.minFunctions ≤ (s.usableRules config Sample.rules).length := by
    decide +kernel
  have hchecks : ((s.prepare store config).toOption.any fun lesson =>
      decide (config.learning.model.HasRoom lesson.input) &&
        ((s.chosenSurrogate config).train lesson.input
          config.learning.effectiveFolds).toOption.any fun _ => true) = true := by decide +kernel
  obtain ⟨lesson, hlesson, hchecks⟩ := exists_of_any hchecks
  obtain ⟨hfits, htrains⟩ := (Bool.and_eq_true _ _).mp hchecks
  obtain ⟨trained, htrained, -⟩ := exists_of_any htrains
  have hroom : ∀ lesson, s.prepare store config = .ok lesson →
      config.learning.model.HasRoom lesson.input := by
    intro lesson' hlesson'
    obtain rfl := Except.ok.inj (hlesson.symm.trans hlesson')
    exact of_decide_eq_true hfits
  obtain ⟨hends, hstages⟩ := run_ends hnew [Call.run store config Sample.stamp Sample.line] store
    config Sample.stamp Sample.line rfl hloaded hroom
  obtain ⟨lesson', hlesson', hconcludes⟩ := hstages Sample.rules gold rfl hgold henough
  obtain rfl := Except.ok.inj (hlesson.symm.trans hlesson')
  obtain ⟨learned, result, hlearned, hresult⟩ := hconcludes trained htrained
  exact ⟨hnew, rfl, hloaded, hroom, rfl, hgold, henough, hends, lesson, trained, learned, result,
    hlesson, htrained, hlearned, hresult⟩

/-- **Without room a run breaks off**: the number of epochs that a network is to be
trained for has no bound. -/
theorem breaks_off_of_many_epochs :
    let network : NetworkSettings :=
      { NetworkSettings.standard with hidden := [], epochs := 2305843009213693952 }
    let config : RunConfig := { Sample.config with
      learning := { Sample.config.learning with model := .neural ⟨network, 1, 0⟩ } }
    let s := Sample.session Sample.table
    new Sample.task Sample.table = .ok s ∧ s.table.Loaded ∧ config.learning.remote = false ∧
      network.validate = .ok () ∧
      (s.run Sample.store config Sample.stamp Sample.line).1 = .error .broken := by
  intro network config s
  have hloaded : s.table.Loaded := .new
    (show FeatureTable.new Sample.table.keys Sample.table.columns = .ok s.table by decide +kernel)
  have hbroken : (s.run Sample.store config Sample.stamp Sample.line).1.breaksOff = true := by
    decide +kernel
  exact ⟨Sample.new_session Sample.table, hloaded, rfl, by decide +kernel,
    Fallible.breaksOff_iff.1 hbroken⟩

end Session

end RuleVote
