import RuleVote.Proofs.Label.Consistency
/-!
# Labeling never breaks off

Once the rules of a labeler are compiled for a table that was made by the
operations on tables, nothing that follows can fail: the functions vote on
every item, a noise model is fitted to the votes, and labels are found, each
the abstention or a label of the task (`Labeler.total_of_compiled`).
-/

namespace RuleVote

namespace Labeler

variable {l l' : Labeler} {t : VoteTable}

/-- **A labeler with functions lets them vote.** -/
theorem Sound.exists_apply (h : l.Sound) (htable : l.table.Shaped)
    (hstage : Stage.functionsBuilt.rank ≤ l.stage.rank) :
    ∃ t, VoteTable.apply l.functions l.table = .ok t ∧ l.apply = .ok (l.voted t) := by
  have hvotes : ∀ f ∈ l.functions, ∀ i < l.table.size, ∃ v, f.apply (l.table.row i) = .ok v := by
    intro f hf i hi
    obtain ⟨r, -, hcompile⟩ := h.exists_compile hf
    exact RuleFunction.exists_apply_row htable hcompile hi
  obtain ⟨t, ht⟩ := VoteTable.exists_apply hvotes
  exact ⟨t, ht, apply_eq_ok_iff.2 ⟨hstage, t, ht, rfl⟩⟩

theorem Sound.exists_votes (h : l.Sound) (hstage : Stage.applied.rank ≤ l.stage.rank) :
    ∃ t, l.votes = some t ∧ t.Valid l.labels.cardinality := by
  obtain ⟨t, ht⟩ := Option.isSome_iff_exists.1 (h.phase.votes_iff.2 hstage)
  exact ⟨t, ht, h.valid (h.phase.of_votes ht).1.2.2⟩

/-- **A labeler with votes fits a model to them.** -/
theorem Sound.exists_fit (h : l.Sound) (hstage : Stage.applied.rank ≤ l.stage.rank)
    (epochs seed : Nat) : ∃ m, l.fit epochs seed = .ok (l.learned m) := by
  obtain ⟨t, ht, hvalid⟩ := h.exists_votes hstage
  obtain ⟨m, hm, -⟩ := exists_fitTo hvalid epochs seed
  exact ⟨m, fit_eq_ok_iff.2 ⟨hstage, t, m, ht, hm, rfl⟩⟩

/-- A labeler with votes has probabilities, one for each label. -/
theorem Sound.exists_probabilities (h : l.Sound) (hstage : Stage.applied.rank ≤ l.stage.rank) :
    ∃ t p, l.votes = some t ∧ l.reducer.probabilities t.votes = .ok p ∧
      p.cols = l.labels.cardinality ∧ p.WellShaped := by
  obtain ⟨t, ht, hvalid⟩ := h.exists_votes hstage
  obtain ⟨p, hp, hcols, hshaped⟩ := Reducer.exists_probabilities (h.fits ht) hvalid
  exact ⟨t, p, ht, hp, hcols, hshaped⟩

/-- **A labeler with votes finds a label and a distribution for every item**,
under every policy and whatever is drawn. -/
theorem Sound.exists_predictFrom (h : l.Sound) (hstage : Stage.applied.rank ≤ l.stage.rank)
    (policy : TiePolicy) (seed : Nat) (stream : KeyStream) :
    ∃ labels p, l.predictFrom policy seed stream = .ok (l.found labels p) ∧
      labels.length = l.table.size ∧ p.rows = l.table.size ∧
      p.cols = l.labels.cardinality ∧ p.WellShaped ∧
      ∀ v ∈ labels, v = abstain ∨ 0 ≤ v ∧ v < l.labels.cardinality := by
  obtain ⟨t, p, ht, hp, hcols, hshaped⟩ := h.exists_probabilities hstage
  obtain ⟨labels, hlabels⟩ := exists_labelsFrom hshaped stream
  have hrows : p.rows = l.table.size :=
    (Reducer.rows_of_probabilities hp).trans (rows_of_apply (h.phase.of_votes ht).1.2.2)
  obtain ⟨hcount, hvalid⟩ := labels_of_labelsFrom hlabels
  rw [hcols] at hvalid
  exact ⟨labels, p, predictFrom_eq_ok_iff.2 ⟨hstage, t, p, labels, ht, hp, hlabels, rfl⟩,
    hcount.trans hrows, hrows, hcols, hshaped, hvalid⟩

/-! ## From creation on -/

/-- A labeler whose creation succeeded is sound, with functions for its labels
and its table. -/
theorem sound_of_createFunctions (h : l.createFunctions = (.ok (), l')) :
    l'.Sound ∧ l'.stage = .functionsBuilt ∧ l'.labels = l.labels ∧ l'.table = l.table := by
  rw [createFunctions_eq] at h
  split_ifs at h with hfew
  · cases h
  · obtain rfl := (Prod.mk.inj h).2
    have hsorted : ({ l.compiled with stage := .functionsBuilt } : Labeler).Sorted :=
      l.sorted_compiled.congr rfl ⟨rfl, rfl⟩ ⟨rfl, rfl, rfl⟩
    have henough := Nat.not_lt.1 hfew
    exact ⟨⟨.functionsBuilt rfl henough rfl rfl ⟨rfl, rfl⟩, .inl hsorted⟩, rfl, rfl, rfl⟩

/-- Votes stay until functions are created or a table is bound. -/
theorem applied_le_of_step {c : Call} (hstep : Step l c l') (hc : c.needed ≠ .created)
    (hstage : Stage.applied.rank ≤ l.stage.rank) : Stage.applied.rank ≤ l'.stage.rank := by
  cases hstep with
  | refused => exact hstage
  | bound | tooFew | built => exact absurd rfl hc
  | voted => exact Nat.le_refl 2
  | learned => exact Nat.le_succ 2
  | found => exact Nat.le_add_right 2 2

theorem applied_le_after {calls : List Call} (hcalls : ∀ c ∈ calls, c.needed ≠ .created)
    (hstage : Stage.applied.rank ≤ l.stage.rank) :
    Stage.applied.rank ≤ (l.after calls).stage.rank := by
  induction calls generalizing l with
  | nil => exact hstage
  | cons c calls ih =>
    obtain ⟨hc, hcalls⟩ := List.forall_mem_cons.1 hcalls
    exact ih hcalls (applied_le_of_step (step_run l c) hc hstage)

/-- Whatever is asked of the votes is answered, labels among so many classes. -/
structure Answers (l : Labeler) (classes : Nat) : Prop where
  fit : ∀ epochs seed, ∃ l', l.fit epochs seed = .ok l'
  predict : ∀ policy seed stream, ∃ l' labels, l.predictFrom policy seed stream = .ok l' ∧
    l'.foundLabels = some labels ∧ ∀ v ∈ labels, v = abstain ∨ 0 ≤ v ∧ v < classes
  probabilities : ∃ p, l.probabilities = .ok p

theorem Sound.answers (h : l.Sound) (hstage : Stage.applied.rank ≤ l.stage.rank) :
    l.Answers l.labels.cardinality where
  fit epochs seed := by
    obtain ⟨m, hm⟩ := h.exists_fit hstage epochs seed
    exact ⟨_, hm⟩
  predict policy seed stream := by
    obtain ⟨labels, p, hfound, -, -, -, -, hlabels⟩ :=
      h.exists_predictFrom hstage policy seed stream
    exact ⟨_, labels, hfound, rfl, hlabels⟩
  probabilities := by
    obtain ⟨t, p, ht, hp, -⟩ := h.exists_probabilities hstage
    have hdemand := liftFailure_eq_ok_iff.2 (demand_eq_ok_iff.2 hstage)
    have hvotes := liftFailure_eq_ok_iff.2 (currentVotes_eq_ok_iff.2 ht)
    exact ⟨p, bind_eq_ok_iff.2 ⟨(), hdemand, bind_eq_ok_iff.2 ⟨t, hvotes, hp⟩⟩⟩

/-- **Compiled rules are total and stay inside the labels**: on the items of
their table they vote, elsewhere they fail only for a feature that they read,
and a labeler that has compiled its rules gets votes, models, labels and
probabilities from then on. -/
theorem total_of_compiled {table : FeatureTable} (htable : table.Built) (labels : LabelSet) :
    (∀ r f, RuleFunction.compile r labels table = .ok f →
      (∀ i < table.size, ∃ v, f.apply (table.row i) = .ok v ∧ v ∈ f.outcomes.toList) ∧
      (∀ v ∈ f.outcomes.toList, v = abstain ∨ 0 ≤ v ∧ v < labels.cardinality) ∧
      ∀ row missing, f.apply row = .error missing →
        missing.feature ∈ f.features.toList ∧ row missing.feature = none) ∧
    ∀ l₀ l : Labeler, l₀.table = table → l₀.labels = labels →
      l₀.createFunctions = (.ok (), l) →
      ∃ l₁ t, l.apply = .ok l₁ ∧ l₁.votes = some t ∧ t.Valid labels.cardinality ∧
        ∀ calls : List Call, (∀ c ∈ calls, c.needed ≠ .created) →
          (l₁.after calls).Answers labels.cardinality := by
  constructor
  · intro r f hcompile
    refine ⟨fun i hi => ?_, fun v hv => ?_, RuleFunction.faultsAmong_apply hcompile⟩
    · obtain ⟨v, hv⟩ := RuleFunction.exists_apply_row htable.shaped hcompile hi
      exact ⟨v, hv, RuleFunction.mem_outcomes_of_apply hv⟩
    · exact LabelSet.isOutcome_iff.1 (RuleFunction.isOutcome_of_mem_outcomes hcompile hv)
  · rintro l₀ l rfl rfl hcreate
    obtain ⟨hsound, hstage, hlabels, hbound⟩ := sound_of_createFunctions hcreate
    have hbuilt : Stage.functionsBuilt.rank ≤ l.stage.rank := Nat.le_of_eq (hstage ▸ rfl)
    obtain ⟨t, ht, happly⟩ := hsound.exists_apply (hbound ▸ htable.shaped) hbuilt
    refine ⟨l.voted t, t, happly, rfl, hlabels ▸ hsound.valid ht, fun calls hcalls => ?_⟩
    have hvoted := (hsound.step (.voted hbuilt ht)).after calls
    have hsame : ((l.voted t).after calls).labels = l₀.labels :=
      (task_after calls (l.voted t)).2.1.trans hlabels
    rw [← hsame]
    exact hvoted.answers (applied_le_after hcalls (Nat.le_refl 2))

/-- Three rules, one of them a program, on a table of two items. -/
theorem total_of_compiled_three :
    let table : FeatureTable := ⟨["a", "b"], [⟨"noise", [0.25, 0.75]⟩, ⟨"gaps", [0, 4]⟩], none⟩
    let labels : LabelSet := ⟨["normal", "high noise", "gaps"]⟩
    let noisy : Rule := ⟨"noisy", none, "noise > 0.5", 1, 0⟩
    let rules : List Rule := [noisy, ⟨"gaps", none, "gaps > 1", 2, -1⟩,
      ⟨"both", none, "if gaps:\n\tif noise > 0.5: return HIGH_NOISE", freeFormMark, freeFormMark⟩]
    table.Built ∧
      (∃ f, RuleFunction.compile noisy labels table = .ok f ∧
        ∀ i < table.size, ∃ v, f.apply (table.row i) = .ok v ∧ v ∈ f.outcomes.toList) ∧
      ∃ l l₁ t, (new rules labels table none).createFunctions = (.ok (), l) ∧
        l.apply = .ok l₁ ∧ l₁.votes = some t ∧ t.Valid labels.cardinality ∧
        (l₁.after [.fit 2 7, .predict .random 1 (.ofSeed 1)]).Answers labels.cardinality := by
  intro table labels noisy rules
  have hbuilt : table.Built :=
    .new (show FeatureTable.new table.keys table.columns = .ok table by decide +kernel)
  obtain ⟨hrules, hlabeler⟩ := total_of_compiled hbuilt labels
  have hcompiles : (RuleFunction.compile noisy labels table).toOption.isSome = true := by
    decide +kernel
  have hcreate : (new rules labels table none).createFunctions.1 = .ok () := by decide +kernel
  refine ⟨hbuilt, ?_, ?_⟩
  · cases hf : RuleFunction.compile noisy labels table with
    | error failure =>
      rw [hf] at hcompiles
      cases hcompiles
    | ok f => exact ⟨f, rfl, (hrules noisy f hf).1⟩
  · obtain ⟨l₁, t, happly, ht, hvalid, hanswers⟩ :=
      hlabeler (new rules labels table none) _ rfl rfl (Prod.ext hcreate rfl)
    exact ⟨_, l₁, t, Prod.ext hcreate rfl, happly, ht, hvalid, hanswers _ (by decide)⟩

end Labeler

end RuleVote
