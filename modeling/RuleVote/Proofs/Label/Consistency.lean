import RuleVote.Proofs.Label.Lifecycle
/-!
# What a labeler shows between calls

Stage, rules, votes, labels and reducer of a labeler agree with each other
after every run of calls (`Labeler.consistent_after`). Each part is read off
the phase that the labeler is in; the votes are valid because the functions
were compiled for the same table and labels.
-/

namespace RuleVote

namespace Labeler

variable {l : Labeler} {t : VoteTable}

/-! ## Functions and votes -/

/-- The functions are compiled rules. -/
theorem Sound.exists_compile (h : l.Sound) {f : RuleFunction} (hf : f ∈ l.functions) :
    ∃ r ∈ l.selected, RuleFunction.compile r l.labels l.table = .ok f := by
  cases h.origin with
  | inl hsorted =>
    rw [hsorted.functions_eq] at hf
    exact RuleFunction.exists_compile_of_mem_functions hf
  | inr hblank =>
    rw [hblank.1] at hf
    cases hf

theorem Sound.usedRules_eq (h : l.Sound) : l.usedRules = l.functions.map RuleFunction.ruleId := by
  cases h.origin with
  | inl hsorted =>
    rw [hsorted.usedRules_eq, hsorted.functions_eq, RuleFunction.map_ruleId_functions]
  | inr hblank => rw [hblank.2.1, hblank.1, List.map_nil]

/-- **The votes are valid.** -/
theorem Sound.valid (h : l.Sound) (ht : VoteTable.apply l.functions l.table = .ok t) :
    t.Valid l.labels.cardinality := by
  refine VoteTable.valid_of_apply ht fun f hf v hv => ?_
  obtain ⟨r, -, hcompile⟩ := h.exists_compile hf
  exact LabelSet.isOutcome_iff.1 (RuleFunction.isOutcome_of_mem_outcomes hcompile hv)

/-- A labeler fits a model to valid votes, for their labels and functions. -/
theorem exists_fitTo (ht : t.Valid l.labels.cardinality) (epochs seed : Nat) :
    ∃ m, l.fitTo t epochs seed = .ok m ∧
      (Reducer.learned m).Fits l.labels.cardinality t.functions.length := by
  obtain ⟨m, hm, hsized, hsame⟩ :=
    NoiseModel.exists_fit (m := .new l.labels.cardinality t.functions.length)
      ht.wellShaped ht.cols_eq ht.isVote epochs seed
  exact ⟨m, hm, hsized, hsame⟩

/-- The reducer is for the labels and functions of the votes. -/
theorem Sound.fits (h : l.Sound) (ht : l.votes = some t) :
    l.reducer.Fits l.labels.cardinality t.functions.length := by
  obtain ⟨hvotes, hreducer, -⟩ := h.phase.of_votes ht
  rcases hreducer with hmajority | ⟨m, epochs, seed, hmodel, hm⟩
  · rw [hmajority]
    rfl
  · obtain ⟨m', hm', hfits⟩ := exists_fitTo (h.valid hvotes.2.2) epochs seed
    obtain rfl : m' = m := Except.ok.inj (hm'.symm.trans hm)
    rwa [hmodel]

/-! ## Calls made too early -/

theorem demand_of_tooEarly {needed : Stage} (h : l.stage.rank < needed.rank) :
    l.demand needed = .error (.wrongState needed.name l.stage.name) := if_pos h

/-- **A call made too early is refused and changes nothing.** -/
theorem run_of_tooEarly {c : Call} (h : l.stage.rank < c.needed.rank) :
    c.run l = (fail (.wrongState c.needed.name l.stage.name), l) := by
  cases c with
  | create => exact absurd h (Nat.not_lt_zero _)
  | apply =>
    have hdemand : l.demand .functionsBuilt = _ := demand_of_tooEarly h
    rw [Call.run, apply, hdemand]
    rfl
  | fit epochs seed =>
    have hdemand : l.demand .applied = _ := demand_of_tooEarly h
    rw [Call.run, fit, hdemand]
    rfl
  | predict policy seed stream =>
    have hdemand : l.demand .applied = _ := demand_of_tooEarly h
    rw [Call.run, predictFrom, hdemand]
    rfl
  | rebind table => exact absurd h (Nat.not_lt_zero _)

/-- What is asked of votes too early is refused as well. -/
theorem refuses_of_tooEarly (h : l.Phase) (hearly : l.stage.rank < Stage.applied.rank) :
    l.probabilities = fail (.wrongState Stage.applied.name l.stage.name) ∧
      ∀ gold, l.analysis gold = fail (.wrongState Stage.applied.name l.stage.name) := by
  constructor
  · rw [probabilities, demand_of_tooEarly hearly]
    rfl
  · intro gold
    rw [analysis, currentVotes, (h.of_lt hearly).1]
    rfl

/-! ## Everything together -/

/-- How stage, rules, votes, labels and reducer of a labeler agree. -/
structure Consistent (l : Labeler) : Prop where
  /-- The rules used are those of the functions, column by column. -/
  usedRules_eq : l.usedRules = l.functions.map RuleFunction.ruleId
  enough_iff : minFunctions ≤ l.functions.length ↔ Stage.functionsBuilt.rank ≤ l.stage.rank
  votes_iff : l.votes.isSome = true ↔ Stage.applied.rank ≤ l.stage.rank
  /-- The votes are those of the functions on the table. -/
  votes_eq : ∀ t, l.votes = some t → VoteTable.apply l.functions l.table = .ok t ∧
    t.keys = l.table.keys ∧ t.functions = l.functions.map RuleFunction.name ∧
    t.Valid l.labels.cardinality
  found_iff : l.foundLabels.isSome = true ↔ l.foundProbabilities.isSome = true
  length_labels : ∀ labels, l.foundLabels = some labels → labels.length = l.table.size
  rows_probabilities : ∀ p, l.foundProbabilities = some p → p.rows = l.table.size
  found_of_predicted : l.stage = .predicted → l.foundLabels.isSome = true
  /-- A model is fitted to the votes there are. -/
  model_fitted : ∀ m, l.reducer.model? = some m → (l.stage = .fitted ∨ l.stage = .predicted) ∧
    ∃ t epochs seed, l.votes = some t ∧ l.fitTo t epochs seed = .ok m
  model_of_fitted : l.stage = .fitted → l.reducer.model?.isSome = true
  /-- A call made too early is refused and changes nothing. -/
  tooEarly : ∀ c : Call, l.stage.rank < c.needed.rank →
    c.run l = (fail (.wrongState c.needed.name l.stage.name), l)
  /-- What is asked of votes too early is refused. -/
  tooEarly_reads : l.stage.rank < Stage.applied.rank →
    l.probabilities = fail (.wrongState Stage.applied.name l.stage.name) ∧
      ∀ gold, l.analysis gold = fail (.wrongState Stage.applied.name l.stage.name)

theorem Phase.enough_iff (h : l.Phase) :
    minFunctions ≤ l.functions.length ↔ Stage.functionsBuilt.rank ≤ l.stage.rank := by
  refine ⟨fun henough => ?_, h.enough⟩
  cases h with
  | created _ hfew => exact absurd henough (Nat.not_le.2 hfew)
  | functionsBuilt hstage => exact Nat.le_of_eq (congrArg Stage.rank hstage.symm)
  | applied _ hstage | fitted _ hstage | predicted _ hstage =>
    rw [hstage]
    decide

theorem Phase.votes_iff (h : l.Phase) :
    l.votes.isSome = true ↔ Stage.applied.rank ≤ l.stage.rank := by
  cases h with
  | created hstage _ hvotes | functionsBuilt hstage _ hvotes =>
    rw [hstage, hvotes]
    decide
  | applied _ hstage hvotes | fitted _ hstage hvotes | predicted _ hstage hvotes =>
    rw [hstage, hvotes.2.1]
    exact iff_of_true rfl (by decide)

/-- Labels and probabilities are found for all items or not at all. -/
theorem Phase.unlabelled_or_labelled (h : l.Phase) : l.Unlabelled ∨ l.Labelled := by
  cases h with
  | created _ _ _ _ hfound | functionsBuilt _ _ _ _ hfound => exact .inl hfound
  | applied _ _ _ _ hfound => exact .inl hfound
  | fitted _ _ _ _ hfound => exact hfound
  | predicted _ _ _ _ hfound => exact .inr hfound

theorem Phase.found_iff (h : l.Phase) :
    l.foundLabels.isSome = true ↔ l.foundProbabilities.isSome = true := by
  rcases h.unlabelled_or_labelled with ⟨hlabels, hp⟩ | ⟨labels, p, hlabels, hp, -⟩
  · rw [hlabels, hp]
    rfl
  · rw [hlabels, hp]
    rfl

theorem Phase.shape_of_found (h : l.Phase) :
    (∀ labels, l.foundLabels = some labels → labels.length = l.table.size) ∧
      ∀ p, l.foundProbabilities = some p → p.rows = l.table.size := by
  rcases h.unlabelled_or_labelled with ⟨hlabels, hp⟩ | ⟨labels, p, hlabels, hp, hlength, hrows⟩
  · rw [hlabels, hp]
    exact ⟨nofun, nofun⟩
  · rw [hlabels, hp]
    constructor
    · intro labels' heq
      cases heq
      exact hlength
    · intro p' heq
      cases heq
      exact hrows

theorem Phase.model_fitted (h : l.Phase) {m : NoiseModel} (hm : l.reducer.model? = some m) :
    (l.stage = .fitted ∨ l.stage = .predicted) ∧
      ∃ t epochs seed, l.votes = some t ∧ l.fitTo t epochs seed = .ok m := by
  have hmajority : ¬ l.ByMajority := by
    intro hreducer
    rw [hreducer] at hm
    cases hm
  have hmodel : ∀ t, l.ByModel t → ∃ epochs seed, l.fitTo t epochs seed = .ok m := by
    rintro t ⟨m', epochs, seed, hreducer, hfit⟩
    rw [hreducer] at hm
    cases hm
    exact ⟨epochs, seed, hfit⟩
  cases h with
  | created _ _ _ hreducer | functionsBuilt _ _ _ hreducer => exact absurd hreducer hmajority
  | applied _ _ _ hreducer => exact absurd hreducer hmajority
  | fitted t hstage hvotes hreducer =>
    obtain ⟨epochs, seed, hfit⟩ := hmodel t hreducer
    exact ⟨.inl hstage, t, epochs, seed, hvotes.2.1, hfit⟩
  | predicted t hstage hvotes hreducer =>
    obtain ⟨epochs, seed, hfit⟩ := hmodel t (hreducer.resolve_left hmajority)
    exact ⟨.inr hstage, t, epochs, seed, hvotes.2.1, hfit⟩

theorem Phase.found_of_predicted (h : l.Phase) (hstage : l.stage = .predicted) :
    l.foundLabels.isSome = true := by
  cases h with
  | predicted _ _ _ _ hfound =>
    obtain ⟨labels, p, hlabels, -⟩ := hfound
    rw [hlabels]
    rfl
  | created hother | functionsBuilt hother | applied _ hother | fitted _ hother =>
    rw [hother] at hstage
    cases hstage

theorem Phase.model_of_fitted (h : l.Phase) (hstage : l.stage = .fitted) :
    l.reducer.model?.isSome = true := by
  cases h with
  | fitted _ _ _ hreducer =>
    obtain ⟨m, _, _, hmodel, -⟩ := hreducer
    rw [hmodel]
    rfl
  | created hother | functionsBuilt hother | applied _ hother | predicted _ hother =>
    rw [hother] at hstage
    cases hstage

theorem Sound.consistent (h : l.Sound) : l.Consistent where
  usedRules_eq := h.usedRules_eq
  enough_iff := h.phase.enough_iff
  votes_iff := h.phase.votes_iff
  votes_eq t ht := by
    have happly := (h.phase.of_votes ht).1.2.2
    obtain ⟨rows, -, heq⟩ := VoteTable.apply_eq_ok_iff.1 happly
    exact ⟨happly, by rw [heq], by rw [heq], h.valid happly⟩
  found_iff := h.phase.found_iff
  length_labels := h.phase.shape_of_found.1
  rows_probabilities := h.phase.shape_of_found.2
  found_of_predicted := h.phase.found_of_predicted
  model_fitted _ hm := h.phase.model_fitted hm
  model_of_fitted := h.phase.model_of_fitted
  tooEarly _ := run_of_tooEarly
  tooEarly_reads := refuses_of_tooEarly h.phase

/-! ## The task -/

/-- Calls leave the rules, the labels and the selection as they are, and only
binding a table changes the table. -/
theorem task_of_step {c : Call} {l' : Labeler} (hstep : Step l c l') :
    l'.rules = l.rules ∧ l'.labels = l.labels ∧ l'.selection = l.selection ∧
      l'.table = c.boundTable l.table := by
  cases hstep with
  | refused hc =>
    cases c with
    | rebind table => exact absurd rfl hc
    | _ => exact ⟨rfl, rfl, rfl, rfl⟩
  | _ => exact ⟨rfl, rfl, rfl, rfl⟩

theorem task_after (calls : List Call) : ∀ l : Labeler,
    (l.after calls).rules = l.rules ∧ (l.after calls).labels = l.labels ∧
      (l.after calls).selection = l.selection ∧
      (l.after calls).table = calls.foldl Call.boundTable l.table := by
  induction calls with
  | nil => exact fun _ => ⟨rfl, rfl, rfl, rfl⟩
  | cons c calls ih =>
    intro l
    obtain ⟨hrules, hlabels, hselection, htable⟩ := task_of_step (step_run l c)
    obtain ⟨hrules', hlabels', hselection', htable'⟩ := ih (c.run l).2
    rw [htable] at htable'
    exact ⟨hrules'.trans hrules, hlabels'.trans hlabels, hselection'.trans hselection, htable'⟩

/-- From a creation until a table is bound, the rules are sorted. -/
theorem sorted_after_create (l : Labeler) {later : List Call}
    (hlater : ∀ c ∈ later, c.bindsTable = false) (before : List Call) :
    (l.after (before ++ .create :: later)).Sorted := by
  rw [after_append, after_cons]
  exact (sorted_run_create _).after hlater

/-- **A labeler is consistent after every run of calls**, and from a creation
until a table is bound every selected rule is used or left out. -/
theorem consistent_after (rules : List Rule) (labels : LabelSet) (table : FeatureTable)
    (selection : Option (List String)) (calls : List Call) :
    let l := (new rules labels table selection).after calls
    (l.rules = rules ∧ l.labels = labels ∧ l.selection = selection ∧
      l.table = calls.foldl Call.boundTable table) ∧
    l.Consistent ∧
    ∀ before later, calls = before ++ .create :: later →
      (∀ c ∈ later, c.bindsTable = false) → l.Sorted := by
  intro l
  refine ⟨task_after calls _, ((sound_new rules labels table selection).after calls).consistent, ?_⟩
  rintro before later heq hlater
  have hsorted := sorted_after_create (new rules labels table selection) hlater before
  rwa [← heq] at hsorted

end Labeler

end RuleVote
