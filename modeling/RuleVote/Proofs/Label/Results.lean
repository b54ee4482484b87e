import RuleVote.Proofs.Label.Totality
/-!
# Whose results a labeler shows

The labels and probabilities that a labeler shows are meant to be those that
its reducer gives for its votes. Letting the functions vote, creating them and
binding a table drop them; fitting a model does not, though it puts another
reducer in the place of the one that gave them. So results are out of date
after a fit that finds results, and after no other call
(`Labeler.current_run_iff`).
-/

namespace RuleVote

namespace Labeler

variable {l : Labeler}

/-- Labels and probabilities are shown in the last stage alone, and the
probabilities are those that the reducer gives for the votes. -/
structure Current (l : Labeler) : Prop where
  predicted_of_found : l.foundLabels.isSome = true ∨ l.foundProbabilities.isSome = true →
    l.stage = .predicted
  reduced : l.stage = .predicted → ∃ t p, l.votes = some t ∧ l.foundProbabilities = some p ∧
    l.reducer.probabilities t.votes = .ok p

/-- **Results are out of date in one stage alone**, when a model was fitted
and labels are still there. -/
theorem Phase.current_iff (h : l.Phase) :
    l.Current ↔ (l.stage = .fitted → l.foundLabels = none) := by
  constructor
  · intro hcurrent hfitted
    by_contra hfound
    have hpredicted := hcurrent.predicted_of_found (.inl (Option.isSome_iff_ne_none.2 hfound))
    rw [hfitted] at hpredicted
    cases hpredicted
  · intro hnone
    have hunlabelled : l.Unlabelled → l.stage ≠ .predicted → l.Current := by
      rintro ⟨hlabels, hp⟩ hstage
      refine ⟨fun hfound => ?_, fun hpredicted => absurd hpredicted hstage⟩
      rw [hlabels, hp] at hfound
      cases hfound with
      | inl hsome => cases hsome
      | inr hsome => cases hsome
    cases h with
    | created hstage _ _ _ hfound | functionsBuilt hstage _ _ _ hfound =>
      exact hunlabelled hfound (by rw [hstage]; nofun)
    | applied _ hstage _ _ hfound => exact hunlabelled hfound (by rw [hstage]; nofun)
    | fitted _ hstage _ _ hfound =>
      refine hunlabelled (hfound.resolve_right ?_) (by rw [hstage]; nofun)
      rintro ⟨labels, p, hlabels, -⟩
      rw [hnone hstage] at hlabels
      cases hlabels
    | predicted t hstage hvotes _ _ hreduced =>
      obtain ⟨p, hp, hreduced⟩ := hreduced
      exact ⟨fun _ => hstage, fun _ => ⟨t, p, hvotes.2.1, hp, hreduced⟩⟩

/-- Functions that have voted vote again. -/
theorem Phase.exists_apply_of_votes (h : l.Phase) (hstage : Stage.applied.rank ≤ l.stage.rank) :
    ∃ t, l.apply = .ok (l.voted t) := by
  obtain ⟨t, ht⟩ := Option.isSome_iff_exists.1 (h.votes_iff.2 hstage)
  have hbuilt : Stage.functionsBuilt.rank ≤ l.stage.rank := Nat.le_trans (Nat.le_succ 1) hstage
  exact ⟨t, apply_eq_ok_iff.2 ⟨hbuilt, t, (h.of_votes ht).1.2.2, rfl⟩⟩

/-- **Every call but a fit leaves current results**, and a fit does where there
were none. -/
theorem Sound.current_run_iff (h : l.Sound) (c : Call) :
    (c.run l).2.Current ↔ ∀ epochs seed, c = .fit epochs seed → l.foundLabels = none := by
  rw [(h.step (step_run l c)).phase.current_iff]
  -- before there are votes, no call finds or leaves results
  have hearly : l.stage.rank < Stage.applied.rank → l.foundLabels = none :=
    fun hlt => (h.phase.of_lt hlt).2.2.1
  cases c with
  | create =>
    refine iff_of_true (fun _ => ?_) fun _ _ hfit => ?_
    · rw [Call.run, createFunctions_eq]
      split_ifs <;> rfl
    · cases hfit
  | rebind table =>
    refine iff_of_true (fun _ => rfl) fun _ _ hfit => ?_
    cases hfit
  | apply =>
    refine iff_of_true (fun hfitted => ?_) fun _ _ hfit => ?_
    · rcases Nat.lt_or_ge l.stage.rank Stage.applied.rank with hlt | hge
      · rw [Call.run] at hfitted ⊢
        cases hx : l.apply with
        | error failure => exact hearly hlt
        | ok l' =>
          obtain ⟨-, t, -, rfl⟩ := apply_eq_ok_iff.1 hx
          rfl
      · obtain ⟨t, ht⟩ := h.phase.exists_apply_of_votes hge
        rw [Call.run, ht]
        rfl
    · cases hfit
  | fit epochs seed =>
    rcases Nat.lt_or_ge l.stage.rank Stage.applied.rank with hlt | hge
    · rw [run_of_tooEarly hlt]
      exact iff_of_true (fun _ => hearly hlt) fun _ _ _ => hearly hlt
    · obtain ⟨m, hm⟩ := h.exists_fit hge epochs seed
      rw [Call.run, hm]
      exact ⟨fun hnone _ _ _ => hnone rfl, fun hnone _ => hnone epochs seed rfl⟩
  | predict policy seed stream =>
    refine iff_of_true (fun hfitted => ?_) fun _ _ hfit => ?_
    · rcases Nat.lt_or_ge l.stage.rank Stage.applied.rank with hlt | hge
      · rw [run_of_tooEarly hlt]
        exact hearly hlt
      · obtain ⟨labels, p, hfound, -⟩ := h.exists_predictFrom hge policy seed stream
        rw [Call.run, hfound] at hfitted
        cases hfitted
    · cases hfit

/-- **Results go out of date by a fit that finds results**, and by no other
call: after every run of calls, those that a labeler shows are the reducer's
for the votes unless a model was fitted over them. -/
theorem current_after_iff (rules : List Rule) (labels : LabelSet) (table : FeatureTable)
    (selection : Option (List String)) (calls : List Call) :
    let l := (new rules labels table selection).after calls
    (l.Current ↔ (l.stage = .fitted → l.foundLabels = none)) ∧
      ∀ c : Call, (c.run l).2.Current ↔
        ∀ epochs seed, c = .fit epochs seed → l.foundLabels = none := by
  intro l
  have hsound : l.Sound := (sound_new rules labels table selection).after calls
  exact ⟨hsound.phase.current_iff, hsound.current_run_iff⟩

/-- A model fitted to votes that have been reduced to labels by majority: the
labels and probabilities of the majority are still shown. -/
theorem not_current_after_fit :
    let table : FeatureTable := ⟨["a", "b"], [⟨"noise", [0.25, 0.75]⟩, ⟨"gaps", [0, 4]⟩], none⟩
    let rules : List Rule := [⟨"noisy", none, "noise > 0.5", 1, 0⟩,
      ⟨"gaps", none, "gaps > 1", 2, -1⟩, ⟨"quiet", none, "noise < 0.5", 0, -1⟩]
    let l := (new rules ⟨["normal", "high noise", "gaps"]⟩ table none).after
      [.create, .apply, .predict .abstain 1 (.ofSeed 1), .fit 50 123]
    l.stage = .fitted ∧ l.foundLabels.isSome = true ∧ l.foundProbabilities.isSome = true ∧
      ¬ l.Current := by
  intro table rules l
  let before := (new rules ⟨["normal", "high noise", "gaps"]⟩ table none).after
    [.create, .apply, .predict .abstain 1 (.ofSeed 1)]
  have hsound : before.Sound := (sound_new _ _ _ _).after _
  have hstage : before.stage = .predicted := by decide +kernel
  have hfound := hsound.phase.found_of_predicted hstage
  obtain ⟨m, hm⟩ := hsound.exists_fit (by rw [hstage]; decide) 50 123
  have hl : l = before.learned m := by
    change ((Call.fit 50 123).run before).2 = _
    rw [Call.run, hm]
    rfl
  rw [hl]
  refine ⟨rfl, hfound, hsound.phase.found_iff.1 hfound, fun hcurrent => ?_⟩
  cases hcurrent.predicted_of_found (.inl hfound)

end Labeler

end RuleVote
