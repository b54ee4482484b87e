import RuleVote.Proofs.Label.Creation
import RuleVote.Proofs.Label.Votes
import RuleVote.Proofs.Voter.Probabilities
import RuleVote.Proofs.Voter.Ties
/-!
# The life of a labeler

A labeler may be called in any order, and a call may fail. What a call does
is said once (`Labeler.Step`), and so is what a labeler holds at each stage
(`Labeler.Phase`): a step leads from phase to phase. The rules that were
compiled are those of the last creation until another table is bound
(`Labeler.Sorted.after`). So every run of calls leaves a sound labeler
(`Labeler.Sound.after`).
-/

namespace RuleVote

namespace Labeler

/-! ## Calls -/

/-- A call on a labeler. -/
inductive Call where
  | create
  | apply
  | fit (epochs seed : Nat)
  /-- What is drawn comes from the stream: that of the seed, or any other where
  no seed is given. -/
  | predict (policy : TiePolicy) (seed : Nat) (stream : KeyStream)
  | rebind (table : FeatureTable)

namespace Call

/-- The stage that a call needs. -/
def needed : Call → Stage
  | create | rebind _ => .created
  | apply => .functionsBuilt
  | fit .. | predict .. => .applied

/-- Whether a call binds a table. -/
def bindsTable : Call → Bool
  | rebind _ => true
  | _ => false

/-- The table after a call. -/
def boundTable (table : FeatureTable) : Call → FeatureTable
  | rebind table => table
  | _ => table

/-- The labeler that a call gives, or the labeler as it is where it fails. -/
def settle (l : Labeler) : Fallible Labeler → Fallible Unit × Labeler
  | .ok l' => (.ok (), l')
  | .error stop => (.error stop, l)

/-- What a call answers, and the labeler after it. -/
def run (l : Labeler) : Call → Fallible Unit × Labeler
  | create => (liftFailure l.createFunctions.1, l.createFunctions.2)
  | apply => settle l (liftFailure l.apply)
  | fit epochs seed => settle l (l.fit epochs seed)
  | predict policy seed stream => settle l (l.predictFrom policy seed stream)
  | rebind table => (.ok (), l.rebind table)

end Call

/-- The labeler after some calls. -/
def after (l : Labeler) (calls : List Call) : Labeler := calls.foldl (fun l c => (c.run l).2) l

/-! ## What a call can do -/

/-- The labeler with these votes. -/
def voted (l : Labeler) (t : VoteTable) : Labeler :=
  { l with
    votes := some t
    reducer := .majority l.labels.cardinality
    foundLabels := none
    foundProbabilities := none
    stage := .applied }

/-- The labeler with this noise model. -/
def learned (l : Labeler) (m : NoiseModel) : Labeler :=
  { l with reducer := .learned m, stage := .fitted }

/-- The labeler with these labels and probabilities. -/
def found (l : Labeler) (labels : List Int) (p : Matrix Float32) : Labeler :=
  { l with foundLabels := some labels, foundProbabilities := some p, stage := .predicted }

variable {l l' : Labeler} {t : VoteTable}

/-- A stage is reached if its rank is. -/
theorem demand_eq_ok_iff {needed : Stage} :
    l.demand needed = .ok () ↔ needed.rank ≤ l.stage.rank := by
  rw [demand]
  split_ifs with h
  · constructor
    · intro hok
      cases hok
    · intro hle
      omega
  · exact ⟨fun _ => Nat.not_lt.1 h, fun _ => rfl⟩

/-- The votes are there if they were cast. -/
theorem currentVotes_eq_ok_iff : l.currentVotes = .ok t ↔ l.votes = some t := by
  rw [currentVotes]
  cases l.votes with
  | none =>
    constructor <;> intro h <;> cases h
  | some t' =>
    constructor <;> intro h <;> cases h <;> rfl

/-- **Voting takes functions that were built**, and all they read from the table. -/
theorem apply_eq_ok_iff : l.apply = .ok l' ↔ Stage.functionsBuilt.rank ≤ l.stage.rank ∧
    ∃ t, VoteTable.apply l.functions l.table = .ok t ∧ l' = l.voted t := by
  rw [← demand_eq_ok_iff]
  constructor
  · intro h
    obtain ⟨_, hdemand, h⟩ := bind_eq_ok_iff.1 h
    obtain ⟨t, ht, h⟩ := bind_eq_ok_iff.1 h
    cases h
    exact ⟨hdemand, t, ht, rfl⟩
  · rintro ⟨hdemand, t, ht, rfl⟩
    exact bind_eq_ok_iff.2 ⟨(), hdemand, bind_eq_ok_iff.2 ⟨t, ht, rfl⟩⟩

/-- The noise model that a labeler fits. -/
def fitTo (l : Labeler) (t : VoteTable) (epochs seed : Nat) : Fallible NoiseModel :=
  (NoiseModel.new l.labels.cardinality t.functions.length).fit t.votes epochs seed

/-- **Fitting takes votes**, and a model that can be fitted to them. -/
theorem fit_eq_ok_iff {epochs seed : Nat} : l.fit epochs seed = .ok l' ↔
    Stage.applied.rank ≤ l.stage.rank ∧ ∃ t m, l.votes = some t ∧
      l.fitTo t epochs seed = .ok m ∧ l' = l.learned m := by
  rw [← demand_eq_ok_iff]
  constructor
  · intro h
    obtain ⟨_, hdemand, h⟩ := bind_eq_ok_iff.1 h
    obtain ⟨t, ht, h⟩ := bind_eq_ok_iff.1 h
    obtain ⟨m, hm, h⟩ := bind_eq_ok_iff.1 h
    cases h
    exact ⟨liftFailure_eq_ok_iff.1 hdemand, t, m,
      currentVotes_eq_ok_iff.1 (liftFailure_eq_ok_iff.1 ht), hm, rfl⟩
  · rintro ⟨hdemand, t, m, ht, hm, rfl⟩
    have hvotes := liftFailure_eq_ok_iff.2 (currentVotes_eq_ok_iff.2 ht)
    exact bind_eq_ok_iff.2 ⟨(), liftFailure_eq_ok_iff.2 hdemand, bind_eq_ok_iff.2 ⟨t, hvotes,
      bind_eq_ok_iff.2 ⟨m, hm, rfl⟩⟩⟩

/-- **Predicting takes votes**, and probabilities of the reducer for them. -/
theorem predictFrom_eq_ok_iff {policy : TiePolicy} {seed : Nat} {stream : KeyStream} :
    l.predictFrom policy seed stream = .ok l' ↔
      Stage.applied.rank ≤ l.stage.rank ∧ ∃ t p labels, l.votes = some t ∧
        l.reducer.probabilities t.votes = .ok p ∧
        labelsFrom policy seed stream p = .ok labels ∧ l' = l.found labels p := by
  rw [← demand_eq_ok_iff]
  constructor
  · intro h
    obtain ⟨_, hdemand, h⟩ := bind_eq_ok_iff.1 h
    obtain ⟨t, ht, h⟩ := bind_eq_ok_iff.1 h
    obtain ⟨p, hp, h⟩ := bind_eq_ok_iff.1 h
    obtain ⟨labels, hlabels, h⟩ := bind_eq_ok_iff.1 h
    cases h
    exact ⟨liftFailure_eq_ok_iff.1 hdemand, t, p, labels,
      currentVotes_eq_ok_iff.1 (liftFailure_eq_ok_iff.1 ht), hp, hlabels, rfl⟩
  · rintro ⟨hdemand, t, p, labels, ht, hp, hlabels, rfl⟩
    have hvotes := liftFailure_eq_ok_iff.2 (currentVotes_eq_ok_iff.2 ht)
    exact bind_eq_ok_iff.2 ⟨(), liftFailure_eq_ok_iff.2 hdemand, bind_eq_ok_iff.2 ⟨t, hvotes,
      bind_eq_ok_iff.2 ⟨p, hp, bind_eq_ok_iff.2 ⟨labels, hlabels, rfl⟩⟩⟩⟩

/-- What a call can make of a labeler. A call that needs no stage is not
refused. -/
inductive Step (l : Labeler) : Call → Labeler → Prop
  | refused {c : Call} (hc : c.needed ≠ .created) : Step l c l
  | bound (table : FeatureTable) : Step l (.rebind table) (l.rebind table)
  | tooFew (hfew : l.compiled.functions.length < minFunctions) : Step l .create l.compiled
  | built (henough : minFunctions ≤ l.compiled.functions.length) :
      Step l .create { l.compiled with stage := .functionsBuilt }
  | voted {t : VoteTable} (hstage : Stage.functionsBuilt.rank ≤ l.stage.rank)
      (ht : VoteTable.apply l.functions l.table = .ok t) : Step l .apply (l.voted t)
  | learned {t : VoteTable} {m : NoiseModel} {epochs seed : Nat}
      (hstage : Stage.applied.rank ≤ l.stage.rank) (ht : l.votes = some t)
      (hm : l.fitTo t epochs seed = .ok m) : Step l (.fit epochs seed) (l.learned m)
  | found {t : VoteTable} {p : Matrix Float32} {labels : List Int} {policy : TiePolicy}
      {seed : Nat} {stream : KeyStream} (hstage : Stage.applied.rank ≤ l.stage.rank)
      (ht : l.votes = some t) (hp : l.reducer.probabilities t.votes = .ok p)
      (hlabels : labelsFrom policy seed stream p = .ok labels) :
      Step l (.predict policy seed stream) (l.found labels p)

/-- **Every call is a step.** -/
theorem step_run (l : Labeler) (c : Call) : Step l c (c.run l).2 := by
  cases c with
  | create =>
    rw [Call.run, createFunctions_eq]
    split_ifs with hfew
    · exact .tooFew hfew
    · exact .built (Nat.not_lt.1 hfew)
  | apply =>
    rw [Call.run]
    cases hx : l.apply with
    | error failure => exact .refused nofun
    | ok l' =>
      obtain ⟨hstage, t, ht, rfl⟩ := apply_eq_ok_iff.1 hx
      exact .voted hstage ht
  | fit epochs seed =>
    rw [Call.run]
    cases hx : l.fit epochs seed with
    | error stop => exact .refused nofun
    | ok l' =>
      obtain ⟨hstage, t, m, ht, hm, rfl⟩ := fit_eq_ok_iff.1 hx
      exact .learned hstage ht hm
  | predict policy seed stream =>
    rw [Call.run]
    cases hx : l.predictFrom policy seed stream with
    | error stop => exact .refused nofun
    | ok l' =>
      obtain ⟨hstage, t, p, labels, ht, hp, hlabels, rfl⟩ := predictFrom_eq_ok_iff.1 hx
      exact .found hstage ht hp hlabels
  | rebind table => exact .bound table

/-! ## What a labeler holds -/

/-- No labels were found, or those found were dropped. -/
def Unlabelled (l : Labeler) : Prop := l.foundLabels = none ∧ l.foundProbabilities = none

/-- A label and a row of probabilities for each item. -/
def Labelled (l : Labeler) : Prop :=
  ∃ labels p, l.foundLabels = some labels ∧ l.foundProbabilities = some p ∧
    labels.length = l.table.size ∧ p.rows = l.table.size

/-- Votes of enough functions on the table. -/
def HasVotes (l : Labeler) (t : VoteTable) : Prop :=
  minFunctions ≤ l.functions.length ∧ l.votes = some t ∧
    VoteTable.apply l.functions l.table = .ok t

/-- The reducer is the majority of votes for the labels. -/
def ByMajority (l : Labeler) : Prop := l.reducer = .majority l.labels.cardinality

/-- The reducer is a noise model fitted to the votes. -/
def ByModel (l : Labeler) (t : VoteTable) : Prop :=
  ∃ m epochs seed, l.reducer = .learned m ∧ l.fitTo t epochs seed = .ok m

/-- The probabilities found are those that the reducer gives for the votes. -/
def Reduced (l : Labeler) (t : VoteTable) : Prop :=
  ∃ p, l.foundProbabilities = some p ∧ l.reducer.probabilities t.votes = .ok p

/-- What a labeler holds at its stage. A model fitted after labels were found
leaves them where they are. -/
inductive Phase (l : Labeler) : Prop
  | created (hstage : l.stage = .created) (hfew : l.functions.length < minFunctions)
      (hvotes : l.votes = none) (hreducer : l.ByMajority) (hfound : l.Unlabelled)
  | functionsBuilt (hstage : l.stage = .functionsBuilt)
      (henough : minFunctions ≤ l.functions.length) (hvotes : l.votes = none)
      (hreducer : l.ByMajority) (hfound : l.Unlabelled)
  | applied (t : VoteTable) (hstage : l.stage = .applied) (hvotes : l.HasVotes t)
      (hreducer : l.ByMajority) (hfound : l.Unlabelled)
  | fitted (t : VoteTable) (hstage : l.stage = .fitted) (hvotes : l.HasVotes t)
      (hreducer : l.ByModel t) (hfound : l.Unlabelled ∨ l.Labelled)
  | predicted (t : VoteTable) (hstage : l.stage = .predicted) (hvotes : l.HasVotes t)
      (hreducer : l.ByMajority ∨ l.ByModel t) (hfound : l.Labelled) (hreduced : l.Reduced t)

theorem Phase.new (rules : List Rule) (labels : LabelSet) (table : FeatureTable)
    (selection : Option (List String)) : (new rules labels table selection).Phase :=
  .created rfl (Nat.zero_lt_succ 2) rfl rfl ⟨rfl, rfl⟩

/-- Functions are enough once they are said to be built. -/
theorem Phase.enough (h : l.Phase) (hstage : Stage.functionsBuilt.rank ≤ l.stage.rank) :
    minFunctions ≤ l.functions.length := by
  cases h with
  | created hcreated =>
    rw [hcreated] at hstage
    cases hstage
  | functionsBuilt _ henough => exact henough
  | applied _ _ hvotes => exact hvotes.1
  | fitted _ _ hvotes => exact hvotes.1
  | predicted _ _ hvotes => exact hvotes.1

/-- What a labeler holds that has not come to votes. -/
theorem Phase.of_lt (h : l.Phase) (hstage : l.stage.rank < Stage.applied.rank) :
    l.votes = none ∧ l.ByMajority ∧ l.Unlabelled := by
  cases h with
  | created _ _ hvotes hreducer hfound => exact ⟨hvotes, hreducer, hfound⟩
  | functionsBuilt _ _ hvotes hreducer hfound => exact ⟨hvotes, hreducer, hfound⟩
  | applied _ hlater | fitted _ hlater | predicted _ hlater =>
    rw [hlater] at hstage
    exact absurd hstage (by decide)

/-- What a labeler holds that has votes. -/
theorem Phase.of_votes (h : l.Phase) (ht : l.votes = some t) :
    l.HasVotes t ∧ (l.ByMajority ∨ l.ByModel t) ∧ (l.Unlabelled ∨ l.Labelled) := by
  cases h with
  | created _ _ hnone =>
    rw [hnone] at ht
    cases ht
  | functionsBuilt _ _ hnone =>
    rw [hnone] at ht
    cases ht
  | applied t' _ hvotes hreducer hfound =>
    obtain rfl : t' = t := Option.some.inj (hvotes.2.1.symm.trans ht)
    exact ⟨hvotes, .inl hreducer, .inl hfound⟩
  | fitted t' _ hvotes hreducer hfound =>
    obtain rfl : t' = t := Option.some.inj (hvotes.2.1.symm.trans ht)
    exact ⟨hvotes, .inr hreducer, hfound⟩
  | predicted t' _ hvotes hreducer hfound =>
    obtain rfl : t' = t := Option.some.inj (hvotes.2.1.symm.trans ht)
    exact ⟨hvotes, hreducer, .inr hfound⟩

/-- There are as many rows of votes as items. -/
theorem rows_of_apply {functions : List RuleFunction} {table : FeatureTable}
    (h : VoteTable.apply functions table = .ok t) : t.votes.rows = table.size := by
  obtain ⟨rows, hrows, rfl⟩ := VoteTable.apply_eq_ok_iff.1 h
  exact (length_of_mapM hrows).trans List.length_range

/-- **A step leads from phase to phase.** -/
theorem Phase.step {c : Call} (h : l.Phase) (hstep : Step l c l') : l'.Phase := by
  cases hstep with
  | refused => exact h
  | bound table => exact .new _ _ _ _
  | tooFew hfew => exact .created rfl hfew rfl rfl ⟨rfl, rfl⟩
  | built henough => exact .functionsBuilt rfl henough rfl rfl ⟨rfl, rfl⟩
  | @voted t hstage ht => exact .applied t rfl ⟨h.enough hstage, rfl, ht⟩ rfl ⟨rfl, rfl⟩
  | @learned t m epochs seed _ ht hm =>
    -- labels stay where they are, whichever reducer they came from
    obtain ⟨hvotes, -, hfound⟩ := h.of_votes ht
    exact .fitted t rfl hvotes ⟨m, epochs, seed, rfl, hm⟩ hfound
  | @found t p labels policy seed stream _ ht hp hlabels =>
    obtain ⟨hvotes, hreducer, -⟩ := h.of_votes ht
    have hrows : p.rows = l.table.size :=
      (Reducer.rows_of_probabilities hp).trans (rows_of_apply hvotes.2.2)
    have hlength : labels.length = l.table.size := (labels_of_labelsFrom hlabels).1.trans hrows
    exact .predicted t rfl hvotes hreducer ⟨labels, p, rfl, rfl, hlength, hrows⟩ ⟨p, rfl, hp⟩

/-! ## The rules used and left out -/

/-- Every selected rule is used or left out, in the order of the rules. -/
structure Sorted (l : Labeler) : Prop where
  functions_eq : l.functions = l.selected.filterMap (RuleFunction.function? l.labels l.table)
  usedRules_eq : l.usedRules =
    (l.selected.filter (RuleFunction.compiles l.labels l.table)).map Rule.id
  excluded_eq : l.excluded = l.selected.filterMap (RuleFunction.exclusion? l.labels l.table)
  excludedIds_eq : l.excluded.map ExcludedRule.ruleId =
    (l.selected.filter fun r => !RuleFunction.compiles l.labels l.table r).map Rule.id

/-- No rules were compiled for the table. -/
def Blank (l : Labeler) : Prop := l.functions = [] ∧ l.usedRules = [] ∧ l.excluded = []

/-- Rules compile to a labeler that is sorted. -/
theorem sorted_compiled (l : Labeler) : l.compiled.Sorted :=
  ⟨rfl, rfl, rfl, RuleFunction.map_ruleId_exclusions l.selected⟩

/-- Sorted rules are sorted at whatever stage. -/
theorem Sorted.congr (h : l.Sorted) (hrules : l'.selected = l.selected)
    (htask : l'.labels = l.labels ∧ l'.table = l.table)
    (hmade : l'.functions = l.functions ∧ l'.usedRules = l.usedRules ∧ l'.excluded = l.excluded) :
    l'.Sorted := by
  obtain ⟨hlabels, htable⟩ := htask
  obtain ⟨hfunctions, hused, hexcluded⟩ := hmade
  refine ⟨?_, ?_, ?_, ?_⟩
  · rw [hfunctions, hrules, hlabels, htable, h.functions_eq]
  · rw [hused, hrules, hlabels, htable, h.usedRules_eq]
  · rw [hexcluded, hrules, hlabels, htable, h.excluded_eq]
  · rw [hexcluded, hrules, hlabels, htable, h.excludedIds_eq]

theorem sorted_run_create (l : Labeler) : (Call.create.run l).2.Sorted := by
  rw [Call.run, createFunctions_eq]
  split_ifs
  · exact l.sorted_compiled
  · exact l.sorted_compiled.congr rfl ⟨rfl, rfl⟩ ⟨rfl, rfl, rfl⟩

/-- **Sorted rules stay sorted until a table is bound.** -/
theorem Sorted.step {c : Call} (h : l.Sorted) (hstep : Step l c l') (hc : c.bindsTable = false) :
    l'.Sorted := by
  cases hstep with
  | refused => exact h
  | bound => cases hc
  | tooFew => exact l.sorted_compiled
  | built => exact l.sorted_compiled.congr rfl ⟨rfl, rfl⟩ ⟨rfl, rfl, rfl⟩
  | voted | learned | found => exact h.congr rfl ⟨rfl, rfl⟩ ⟨rfl, rfl, rfl⟩

/-- A labeler stays sorted as long as its table is not bound again. -/
theorem Sorted.after (h : l.Sorted) {calls : List Call}
    (hcalls : ∀ c ∈ calls, c.bindsTable = false) : (l.after calls).Sorted := by
  induction calls generalizing l with
  | nil => exact h
  | cons c calls ih =>
    obtain ⟨hc, hcalls⟩ := List.forall_mem_cons.1 hcalls
    exact ih (h.step (step_run l c) hc) hcalls

/-! ## Every run -/

/-- What holds of a labeler between calls. -/
structure Sound (l : Labeler) : Prop where
  phase : l.Phase
  origin : l.Sorted ∨ l.Blank

theorem sound_new (rules : List Rule) (labels : LabelSet) (table : FeatureTable)
    (selection : Option (List String)) : (new rules labels table selection).Sound :=
  ⟨.new rules labels table selection, .inr ⟨rfl, rfl, rfl⟩⟩

/-- **A step keeps a labeler sound.** -/
theorem Sound.step {c : Call} (h : l.Sound) (hstep : Step l c l') : l'.Sound := by
  refine ⟨h.phase.step hstep, ?_⟩
  cases hstep with
  | refused => exact h.origin
  | bound => exact .inr ⟨rfl, rfl, rfl⟩
  | tooFew => exact .inl l.sorted_compiled
  | built => exact .inl (l.sorted_compiled.congr rfl ⟨rfl, rfl⟩ ⟨rfl, rfl, rfl⟩)
  | voted | learned | found =>
    exact h.origin.imp (fun hs => hs.congr rfl ⟨rfl, rfl⟩ ⟨rfl, rfl, rfl⟩) id

theorem after_cons (l : Labeler) (c : Call) (calls : List Call) :
    l.after (c :: calls) = (c.run l).2.after calls := rfl

/-- Calls are made one after the other. -/
theorem after_append (l : Labeler) (before later : List Call) :
    l.after (before ++ later) = (l.after before).after later := List.foldl_append

/-- **A labeler is sound after every run of calls**, whatever their order and
whichever of them fail. -/
theorem Sound.after (h : l.Sound) (calls : List Call) : (l.after calls).Sound := by
  induction calls generalizing l with
  | nil => exact h
  | cons c calls ih => exact ih (h.step (step_run l c))

end Labeler

end RuleVote
