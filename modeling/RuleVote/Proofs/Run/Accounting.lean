import RuleVote.Proofs.Run.Completion
import RuleVote.Proofs.Run.GoldLabels
import RuleVote.Proofs.Surrogate.Unscored
/-!
# What a result accounts for

A result is put together from what the stages of a run have found, each in a
view of its own: labels by rows, gold labels by keys, the rules by what became
of them, the votes by functions, the folds by their records. Each stage is read
back on its own: the rules (`Session.Ground.Complete.rules`), what was learned
(`Session.Trusted.learnedFrom`), the scores (`Session.counted_of_scoresOf`) and
the items (`Session.map_items`). So the numbers of a result agree with one
another and with what the run was given (`Session.run_accounts`).
-/

namespace RuleVote

/-! ## Votes, folds and reference labels -/

/-- **An analysis has a summary for each function**, in their order. -/
theorem VoteAnalysis.functions_of_new {t : VoteTable} {gold : List Int} {a : VoteAnalysis}
    (hcols : t.votes.cols = t.functions.length) (h : new t (some gold) = .ok a) :
    a.summaries.map FunctionSummary.function = t.functions := by
  rw [new] at h
  dsimp only at h
  split_ifs at h
  · cases h
  · obtain ⟨rows, -, h⟩ := bind_eq_ok_iff.1 h
    obtain ⟨summaries, hsummaries, h⟩ := bind_eq_ok_iff.1 h
    obtain rfl := Except.ok.inj h
    have hname : ∀ j b, summary t rows (some gold) j = .ok b →
        b.function = t.functions[j]?.getD "" := by
      intro j b hb
      obtain ⟨column, -, hb⟩ := bind_eq_ok_iff.1 hb
      obtain ⟨name, hname, hb⟩ := bind_eq_ok_iff.1 hb
      obtain rfl := Except.ok.inj hb
      rw [orBreak_eq_ok_iff.1 hname]
      rfl
    rw [map_of_mapM hsummaries hname, hcols]
    refine List.ext_getElem (by rw [List.length_map, List.length_range]) fun j _ hj => ?_
    rw [List.getElem_map, List.getElem_range, List.getElem?_eq_getElem hj, Option.getD_some]

namespace Surrogate

variable {s s' : Surrogate} {input : SurrogateInput} {folds : Nat} {records : List FoldRecord}

theorem referenceLabels_of_trainOnce {settings : SurrogateSettings} {t : Training}
    (h : trainOnce settings input folds = .ok t) : input.referenceLabels = .ok t.reference := by
  obtain ⟨_, -, h⟩ := bind_eq_ok_iff.1 h
  obtain ⟨reference, hreference, h⟩ := bind_eq_ok_iff.1 h
  obtain rfl := Except.ok.inj h
  exact hreference

/-- **A surrogate that is trained keeps the reference labels of the input**, also
where it recalls a training on other input that agrees. -/
theorem Genuine.reference_of_train (hs : s.Genuine)
    (h : s.train input folds = .ok (records, s')) :
    ∃ reference, input.referenceLabels = .ok reference ∧ s'.reference = some reference := by
  rcases s.train_cases input folds with ⟨t, ht, his, hrecalled⟩ | honce
  · obtain ⟨-, hagrees⟩ := (Bool.and_eq_true _ _).mp his
    rw [hrecalled] at h
    cases h
    refine ⟨t.reference, ?_, by rw [reference, ht, Option.map_some]⟩
    rw [← SurrogateInput.referenceLabels_of_agrees hagrees]
    exact referenceLabels_of_trainOnce (hs t ht)
  · obtain ⟨t, honce, hresult⟩ := map_eq_ok_iff.1 (honce.symm.trans h)
    cases hresult
    exact ⟨t.reference, referenceLabels_of_trainOnce honce, rfl⟩

end Surrogate

theorem HoldsOut.length_eq {folds rows : Nat} {records : List FoldRecord}
    (h : HoldsOut folds rows records) : records.length = folds := by
  rcases h with ⟨rfl, rfl⟩ | ⟨-, -, hfolds, -⟩
  · rfl
  · rw [← List.length_map FoldRecord.fold, hfolds, List.length_range]

namespace Session

variable {σ : Type} [LabelStore σ]
variable {s : Session} {store : σ} {config : RunConfig} {stamp : RunStamp}
variable {lesson : Lesson} {learned : Learned} {result : LabelingResult}

/-! ## Rules -/

/-- The rules that a run leaves out: those selected that do not compile. -/
def excludedRules (s : Session) (config : RunConfig) (rules : List Rule) : List Rule :=
  (s.labelerFor rules config.reduction).selected.filter fun r =>
    !RuleFunction.compiles s.labels s.table r

/-- **The first stage sorts the selected rules.** -/
theorem sorted_of_runLabeler {rules : List Rule} {settings : ReductionSettings} {l : Labeler}
    (h : s.runLabeler rules settings = .ok l) :
    l.Sorted ∧ l.selected = (s.labelerFor rules settings).selected := by
  rw [runLabeler, Labeler.createFunctions_eq] at h
  split_ifs at h
  · cases h
  · obtain ⟨_, -, h⟩ := bind_eq_ok_iff.1 h
    obtain ⟨l₁, hvoted, h⟩ := bind_eq_ok_iff.1 h
    obtain ⟨-, t, -, rfl⟩ := Labeler.apply_eq_ok_iff.1 (liftFailure_eq_ok_iff.1 hvoted)
    have hsorted := (s.labelerFor rules settings).sorted_compiled
    cases hmethod : settings.method with
    | majority =>
      rw [hmethod] at h
      obtain ⟨l₂, hvoted, h⟩ := bind_eq_ok_iff.1 h
      obtain rfl := Except.ok.inj hvoted
      obtain ⟨-, -, -, -, -, -, -, rfl⟩ := Labeler.predictFrom_eq_ok_iff.1 h
      exact ⟨hsorted.congr rfl ⟨rfl, rfl⟩ ⟨rfl, rfl, rfl⟩, rfl⟩
    | labelModel =>
      rw [hmethod] at h
      obtain ⟨l₂, hlearned, h⟩ := bind_eq_ok_iff.1 h
      obtain ⟨-, -, m, -, -, rfl⟩ := Labeler.fit_eq_ok_iff.1 hlearned
      obtain ⟨-, -, -, -, -, -, -, rfl⟩ := Labeler.predictFrom_eq_ok_iff.1 h
      exact ⟨hsorted.congr rfl ⟨rfl, rfl⟩ ⟨rfl, rfl, rfl⟩, rfl⟩

theorem exists_rules_of_ground {g : Ground} (h : s.ground store config = .ok g) :
    ∃ rules, LabelStore.rules store config.ruleSet = .ok rules ∧
      s.runLabeler rules config.reduction = .ok g.labeler := by
  obtain ⟨rules, hrules, h⟩ := bind_eq_ok_iff.1 h
  obtain ⟨labels, -, h⟩ := bind_eq_ok_iff.1 h
  obtain ⟨l, hl, h⟩ := bind_eq_ok_iff.1 h
  obtain ⟨found, -, h⟩ := bind_eq_ok_iff.1 h
  obtain ⟨t, -, h⟩ := bind_eq_ok_iff.1 h
  obtain ⟨x, -, h⟩ := bind_eq_ok_iff.1 h
  obtain rfl := Except.ok.inj h
  exact ⟨rules, liftFailure_eq_ok_iff.1 hrules, hl⟩

/-! ## Items -/

variable {items : List ItemLabels} {keys : List String}

/-- What an item has is read in its row. -/
theorem of_itemLabels {key : String} {i : Nat} {item : ItemLabels}
    (h : (do return ⟨key, ← orBreak lesson.aggregated[i]?, ← orBreak lesson.targets[i]?,
      ← orBreak learned.predicted[i]?, lesson.gold key⟩ : Fallible ItemLabels) = .ok item) :
    item.key = key ∧ item.gold = lesson.gold key ∧ item.aggregated ∈ lesson.aggregated ∧
      item.target ∈ lesson.targets ∧ item.predicted ∈ learned.predicted := by
  obtain ⟨aggregated, haggregated, h⟩ := bind_eq_ok_iff.1 h
  obtain ⟨target, htarget, h⟩ := bind_eq_ok_iff.1 h
  obtain ⟨predicted, hpredicted, h⟩ := bind_eq_ok_iff.1 h
  obtain rfl := Except.ok.inj h
  exact ⟨rfl, rfl, List.mem_of_getElem? (orBreak_eq_ok_iff.1 haggregated),
    List.mem_of_getElem? (orBreak_eq_ok_iff.1 htarget),
    List.mem_of_getElem? (orBreak_eq_ok_iff.1 hpredicted)⟩

/-- **There is an item for each key**, in their order and with its gold label. -/
theorem map_items (h : itemLabels keys lesson learned = .ok items) :
    items.map ItemLabels.key = keys ∧ items.map ItemLabels.gold = keys.map lesson.gold := by
  constructor
  · refine (map_of_mapM h (h := Prod.fst) fun p item hitem => (of_itemLabels hitem).1).trans ?_
    exact List.zipIdx_map_fst _ _
  · have hgold := map_of_mapM h (h := lesson.gold ∘ Prod.fst) fun p item hitem =>
      (of_itemLabels hitem).2.1
    rwa [← List.map_map, List.zipIdx_map_fst] at hgold

theorem of_mem_items (h : itemLabels keys lesson learned = .ok items) {item : ItemLabels}
    (hitem : item ∈ items) : item.aggregated ∈ lesson.aggregated ∧
      item.target ∈ lesson.targets ∧ item.predicted ∈ learned.predicted := by
  obtain ⟨p, -, hread⟩ := exists_of_mem_mapM h hitem
  exact (of_itemLabels hread).2.2

/-! ## Scores -/

/-- As many labels as keys give every key one. -/
theorem isSome_byKey {labels : List Int} (h : labels.length = keys.length) {key : String}
    (hkey : key ∈ keys) : (byKey keys labels key).isSome = true := by
  obtain ⟨i, hi, rfl⟩ := List.mem_iff_getElem.1 hkey
  have hmem : (keys[i], labels[i]) ∈ keys.zip labels :=
    List.mem_iff_getElem.2 ⟨i, by rw [List.length_zip]; omega, List.getElem_zip⟩
  rw [byKey, List.lookup_isSome_iff]
  exact ⟨_, List.mem_reverse.2 hmem, beq_self_eq_true _⟩

/-- **Scores count what they are made of**: gold labels, labels that are no
abstentions, and folds. -/
structure Counted (gold : Nat) (reference : List Int) (records : List FoldRecord)
    (scores : RunScores) : Prop where
  aggregated : scores.aggregated.count = gold
  surrogateGold : scores.surrogateGold.count = gold
  surrogateReference : scores.surrogateReference.count = reference.countP (· ≠ abstain)
  folds : scores.training.folds = records.length
  failed : scores.training.failed = records.countP FoldRecord.hasFailed

theorem counted_of_scoresOf {scores : RunScores}
    (haggregated : lesson.aggregated.length = keys.length)
    (hpredicted : learned.predicted.length = keys.length)
    (hreference : learned.reference.length = keys.length)
    (h : scoresOf keys lesson learned = .ok scores) :
    Counted (keys.countP fun key => (lesson.gold key).isSome) learned.reference learned.records
      scores := by
  obtain ⟨score, hscore, h⟩ := bind_eq_ok_iff.1 h
  obtain rfl := Except.ok.inj h
  have hcount := (Score.ends_ofLabels (E := fun _ => True)
    (by rw [List.length_map, List.length_map])).of_ok hscore
  refine ⟨Score.count_ofItems fun _ => isSome_byKey haggregated,
    Score.count_ofItems fun _ => isSome_byKey hpredicted, ?_, rfl, TrainingScore.failed_ofFolds _⟩
  have hpairs : (learned.reference.zip learned.predicted).map Prod.fst = learned.reference :=
    List.map_fst_zip (by omega)
  rw [hcount, List.length_map, ← List.countP_eq_length_filter]
  conv_rhs => rw [← hpairs, List.countP_map]
  rfl

/-! ## The result -/

/-- All that a result accounts for: the items of the session, the rules that it
was given, and the reference labels that its surrogate was trained towards. -/
structure Accounts (s : Session) (config : RunConfig) (rules : List Rule) (reference : List Int)
    (result : LabelingResult) : Prop where
  /-- There is an item for each row. -/
  keys : result.output.items.map ItemLabels.key = s.table.keys
  /-- There is a reference label for each row. -/
  rows : reference.length = s.table.size
  /-- The scores count items with gold labels, reference labels and folds. -/
  counted : Counted (result.output.items.countP fun item => item.gold.isSome) reference
    result.output.folds result.scores
  /-- The folds are those asked for. -/
  folds : result.output.folds.length = config.learning.effectiveFolds
  /-- The rules used, in their order. -/
  used : result.rulesUsed = (s.usableRules config rules).map Rule.id
  /-- The rules left out, in their order. -/
  excluded : result.output.excluded.map ExcludedRule.ruleId =
    (s.excludedRules config rules).map Rule.id
  /-- No selected rule is missing, and there are no others. -/
  together : (result.rulesUsed ++ result.output.excluded.map ExcludedRule.ruleId).Perm
    ((s.labelerFor rules config.reduction).selected.map Rule.id)
  /-- There is a summary for each rule used. -/
  summaries : result.output.analysis.summaries.map FunctionSummary.function =
    (s.usableRules config rules).map Rule.functionName
  /-- Labels are abstentions or labels of the task, and those predicted are no
  abstentions as long as 32 bits can name the labels of the task. -/
  labels : ∀ item ∈ result.output.items,
    (item.aggregated = abstain ∨ 0 ≤ item.aggregated ∧ item.aggregated < s.labels.cardinality) ∧
    (item.target = abstain ∨ 0 ≤ item.target ∧ item.target < s.labels.cardinality) ∧
    (s.labels.cardinality ≤ Nat.pow 2 31 → 0 ≤ item.predicted) ∧
    item.predicted < s.labels.cardinality

/-- **The rules of a lesson** are used, left out and analysed. -/
theorem Ground.Complete.rules {g : Ground} (hg : g.Complete s) {rules : List Rule}
    (h : s.runLabeler rules config.reduction = .ok g.labeler) :
    g.labeler.usedRules = (s.usableRules config rules).map Rule.id ∧
      g.labeler.excluded.map ExcludedRule.ruleId = (s.excludedRules config rules).map Rule.id ∧
      ∀ gold a, g.labeler.analysis (some gold) = .ok a →
        a.summaries.map FunctionSummary.function =
          (s.usableRules config rules).map Rule.functionName := by
  obtain ⟨hsorted, hselected⟩ := sorted_of_runLabeler h
  rw [usableRules, excludedRules, ← hselected, ← hg.labels.labels_eq, ← hg.labels.table_eq]
  refine ⟨hsorted.usedRules_eq, hsorted.excludedIds_eq, fun gold a ha => ?_⟩
  obtain ⟨t, ht, -, hvalid⟩ := hg.labels.votes
  obtain ⟨t', ht', ha⟩ := bind_eq_ok_iff.1 ha
  obtain rfl := Option.some.inj
    (ht.symm.trans (Labeler.currentVotes_eq_ok_iff.1 (liftFailure_eq_ok_iff.1 ht')))
  obtain ⟨rows, -, hvotes⟩ :=
    VoteTable.apply_eq_ok_iff.1 (hg.labels.sound.phase.of_votes ht).1.2.2
  rw [VoteAnalysis.functions_of_new hvalid.cols_eq ha, hvotes]
  dsimp only
  rw [hsorted.functions_eq, RuleFunction.map_name_functions]

/-- What is learned from an input with so many folds. -/
structure LearnedFrom (input : SurrogateInput) (folds : Nat) (learned : Learned) : Prop where
  reference : input.referenceLabels = .ok learned.reference
  kept : learned.surrogate.bind Surrogate.reference = some learned.reference
  folds : learned.records.length = folds
  rows : learned.predicted.length = input.features.rows
  classes : ∀ label ∈ learned.predicted,
    (input.classes ≤ Nat.pow 2 31 → 0 ≤ label) ∧ label < input.classes

theorem Trusted.learnedFrom (h : s.Trusted) {settings : LearningSettings}
    {input : SurrogateInput} (hvalid : input.Valid)
    (hlearn : s.learnHere settings input = .ok learned) :
    LearnedFrom input settings.effectiveFolds learned := by
  have hgenuine := h.genuine_surrogateFor settings.model
  obtain ⟨m, hm, htrain, hpredict, hrefers⟩ := exists_of_learnHere hlearn
  obtain ⟨reference, hreference, hkept⟩ := hgenuine.reference_of_train htrain
  obtain rfl := hrefers reference hkept
  have hclasses : 0 < input.classes := Nat.lt_of_lt_of_le Nat.zero_lt_two hvalid.two_le
  have hfor := hgenuine.for_of_train hvalid htrain
  have hrows : input.targets.rows = input.features.rows :=
    SurrogateInput.rows_of_checkTargets (SurrogateInput.new_eq_ok_iff.1 hvalid.new_eq_ok).2.1
  refine ⟨hreference, ?_, (hgenuine.holdsOut hrows htrain).length_eq, ?_, fun _ =>
    h.of_mem_predicted hvalid hlearn⟩
  · rw [hm]
    exact hkept
  · exact (hfor.predict (E := fun _ => True) hclasses hvalid.features.sized).of_ok hpredict

/-- **A result accounts for everything** that it was made of. -/
theorem Ground.Complete.accounts {g : Ground} (hg : g.Complete s) {rules : List Rule}
    (hlabeler : s.runLabeler rules config.reduction = .ok g.labeler) {targets : Targets}
    {includeGold : Bool} (hvalid : SurrogateInput.Valid ⟨g.x, targets, s.labels.cardinality⟩)
    (hlearned : LearnedFrom ⟨g.x, targets, s.labels.cardinality⟩ config.learning.effectiveFolds
      learned)
    (hconclude : s.conclude config stamp (g.lesson s includeGold targets) learned = .ok result) :
    s.Accounts config rules learned.reference result := by
  have hpredicted : learned.predicted.length = s.table.size := hlearned.rows.trans hg.rows_eq
  have hreference : learned.reference.length = s.table.size :=
    ((hvalid.referenceLabels (E := fun _ => True)).of_ok hlearned.reference).1.trans hg.rows_eq
  obtain ⟨hused, hexcluded, hsummaries⟩ := hg.rules hlabeler
  obtain ⟨scores, hscores, hconclude⟩ := bind_eq_ok_iff.1 hconclude
  obtain ⟨analysis, hanalysis, hconclude⟩ := bind_eq_ok_iff.1 hconclude
  obtain ⟨items, hitems, hconclude⟩ := bind_eq_ok_iff.1 hconclude
  obtain rfl := Except.ok.inj hconclude
  obtain ⟨hkeys, hgold⟩ := map_items hitems
  refine ⟨hkeys, hreference, ?_, hlearned.folds, hused, hexcluded, ?_, hsummaries _ _ hanalysis,
    fun item hitem => ?_⟩
  · have hcount : s.table.keys.countP (fun key => (g.gold key).isSome) =
        items.countP fun item => item.gold.isSome := by
      have hmap := congrArg (List.countP Option.isSome) hgold
      rw [List.countP_map, List.countP_map] at hmap
      exact hmap.symm
    exact hcount ▸ counted_of_scoresOf hg.labels.found.count hpredicted hreference hscores
  · show (g.labeler.usedRules ++ g.labeler.excluded.map ExcludedRule.ruleId).Perm _
    rw [hused, hexcluded, ← List.map_append]
    exact (List.filter_append_perm _ _).map _
  · obtain ⟨haggregated, htarget, hlabel⟩ := of_mem_items hitems hitem
    exact ⟨hg.labels.found.below _ haggregated, (hg.fit_labels includeGold).2 _ htarget,
      hlearned.classes _ hlabel⟩

/-- **A finished run accounts for every item and rule.** Whatever a session was
called with before, whatever the store contains and however the run is
configured, a result has the items of the table in their order; its scores count
the items with gold labels, the rows with reference labels, which are those that
the surrogate keeps, and the folds, which are as many as asked for; the rules
used and left out are the selected rules of the rule set, each in their order,
and those used are analysed; and all labels are of the task. -/
theorem run_accounts {task : Task} {table : FeatureTable} {s₀ : Session}
    (h₀ : new task table = .ok s₀) (calls : List (Call σ)) (store : σ) (config : RunConfig)
    (stamp : RunStamp) (line : WorkerLine) (result : LabelingResult)
    (hlocal : config.learning.remote = false) :
    let s := s₀.after calls
    s.table.Shaped → (s.run store config stamp line).1 = .ok result →
    ∃ rules lesson reference, LabelStore.rules store config.ruleSet = .ok rules ∧
      s.prepare store config = .ok lesson ∧ lesson.input.referenceLabels = .ok reference ∧
      (s.run store config stamp line).2.1.surrogate.bind Surrogate.reference = some reference ∧
      s.Accounts config rules reference result := by
  intro s hshaped hrun
  have hs : s.Sound := (sound_new h₀).after calls
  obtain ⟨lesson, learned, hlearns, hconclude, hkept⟩ := exists_of_run_eq_ok hrun
  obtain ⟨hlesson, hlearn⟩ := hlearns.of_local hlocal
  obtain ⟨g, hground, -⟩ := bind_eq_ok_iff.1 ((prepare_eq s store config).symm.trans hlesson)
  obtain ⟨hg, -⟩ := hs.complete_of_ground hshaped hground
  obtain ⟨rules, hrules, hlabeler⟩ := exists_rules_of_ground hground
  obtain ⟨targets, -, hfit, rfl⟩ := (hg.prepare_eq_ok_iff hground).1 hlesson
  have hvalid : SurrogateInput.Valid ⟨g.x, targets, s.labels.cardinality⟩ :=
    ⟨hg.wellShaped, hg.rows_eq ▸ hfit, hg.two_le⟩
  have hlearned := (hs.trusted.selectRuleSet config.ruleSet).learnedFrom hvalid hlearn
  refine ⟨rules, _, learned.reference, hrules, hlesson, hlearned.reference, ?_,
    hg.accounts hlabeler hvalid hlearned hconclude⟩
  rw [hkept, taught, keepSurrogate, hlocal]
  exact hlearned.kept

/-- Four items, two of them with a label and one of the others with a gold label;
a rule that is not selected and one that is left out; and two folds, both of
which fail. -/
theorem run_accounts_four :
    let table : FeatureTable := ⟨["a", "b", "c", "d"],
      [⟨"noise", [0.25, 0.75, 0.5, 0.5]⟩, ⟨"gaps", [0, 4, 0, 0]⟩], none⟩
    let rules : List Rule := [⟨"noisy", none, "noise > 0.6", 1, -1⟩,
      ⟨"unknown", none, "pitch > 1", 1, -1⟩, ⟨"other", none, "gaps > 2", 0, -1⟩,
      ⟨"gaps", none, "gaps > 1", 1, -1⟩, ⟨"quiet", none, "noise < 0.4", 0, -1⟩]
    let gold : List GoldLabel := [⟨"g", "c", 0, "reader", "quality"⟩]
    let store : MemoryStore := { MemoryStore.empty.withRules "first" rules with gold }
    let selection := some ["noisy", "quiet", "gaps", "unknown"]
    let config : RunConfig := { Sample.config with
      reduction := { Sample.config.reduction with selection }
      learning := { Sample.config.learning with folds := some 2 } }
    let stamp := Sample.stamp
    let line := Sample.line
    let s := (Sample.session table).after [Call.run store config stamp line]
    new Sample.task table = .ok (Sample.session table) ∧ config.learning.remote = false ∧
      s.table.Shaped ∧
      ∃ result reference, (s.run store config stamp line).1 = .ok result ∧
        s.Accounts config rules reference result ∧
        result.rulesUsed = ["noisy", "gaps", "quiet"] ∧
        result.output.excluded.map ExcludedRule.ruleId = ["unknown"] ∧
        result.scores.aggregated.count = 1 ∧ result.scores.surrogateReference.count = 2 ∧
        result.scores.training.failed = 2 := by
  intro table rules gold store selection config stamp line s
  have hnew := Sample.new_session table
  have hshaped : s.table.Shaped := FeatureTable.shaped_of_new
    (show FeatureTable.new table.keys table.columns = .ok s.table by decide +kernel)
  have hruns : (s.run store config stamp line).1.toOption.any (fun result =>
      result.rulesUsed = ["noisy", "gaps", "quiet"] ∧
        result.output.excluded.map ExcludedRule.ruleId = ["unknown"] ∧
        result.scores.aggregated.count = 1 ∧ result.scores.surrogateReference.count = 2 ∧
        result.scores.training.failed = 2) = true := by decide +kernel
  obtain ⟨result, hresult, hfacts⟩ := exists_of_any hruns
  obtain ⟨rules', lesson, reference, hrules, -, -, -, haccounts⟩ :=
    run_accounts hnew [Call.run store config stamp line] store config stamp line result rfl hshaped
      hresult
  obtain rfl : rules = rules' := Except.ok.inj hrules
  exact ⟨hnew, rfl, hshaped, result, reference, hresult, haccounts, of_decide_eq_true hfacts⟩

end Session

end RuleVote
