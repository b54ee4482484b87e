import RuleVote.Proofs.Voter.Probabilities
/-!
# A noise model that is fitted again

Fitting reads of a model only how it is configured (`NoiseModel.Alike.fit_eq`) and
never changes that (`NoiseModel.alike_of_fit`), so whatever calls went before, a call
ends as it does on a new model. A call is refused for votes of another number of
functions or outside of the classes and for nothing else
(`NoiseModel.exists_fit_eq_fail_iff`). Training that stopped by itself before the
last of its epochs stops there with any higher limit
(`NoiseModel.train_eq_of_stopped`). All of this together is
`NoiseModel.refitting_forgets`.
-/

namespace RuleVote

/-- Votes pass the check if and only if they are abstentions or classes. -/
theorem checkVotes_eq_ok_iff {votes : Matrix Int} {classes : Nat} :
    checkVotes votes classes = .ok () ↔
      ∀ v ∈ votes.data.toList, v = abstain ∨ 0 ≤ v ∧ v < classes := by
  refine ⟨fun h v hv => ?_, checkVotes_eq_ok⟩
  rw [checkVotes] at h
  split at h
  · cases h
  · next hnone =>
    have hvote := List.find?_eq_none.1 hnone v hv
    rw [or_iff_not_imp_left]
    simpa [isVote] using hvote

namespace NoiseModel

variable {m m' next : NoiseModel} {rows : List (List Int)} {votes : Matrix Int}
  {change : Float32} {limit : Nat}

/-- Two models are configured alike: they may differ only in what fitting
estimates. -/
structure Alike (m m' : NoiseModel) : Prop where
  classes : m.classes = m'.classes
  functions : m.functions = m'.functions
  initialAccuracy : m.initialAccuracy = m'.initialAccuracy
  smoothing : m.smoothing = m'.smoothing
  tolerance : m.tolerance = m'.tolerance

namespace Alike

theorem refl (m : NoiseModel) : m.Alike m := ⟨rfl, rfl, rfl, rfl, rfl⟩

theorem symm (h : m.Alike m') : m'.Alike m :=
  ⟨h.classes.symm, h.functions.symm, h.initialAccuracy.symm, h.smoothing.symm, h.tolerance.symm⟩

theorem trans {m₁ m₂ m₃ : NoiseModel} (h : m₁.Alike m₂) (h' : m₂.Alike m₃) : m₁.Alike m₃ :=
  ⟨h.classes.trans h'.classes, h.functions.trans h'.functions,
    h.initialAccuracy.trans h'.initialAccuracy, h.smoothing.trans h'.smoothing,
    h.tolerance.trans h'.tolerance⟩

/-- Models that are alike start a fit alike. -/
theorem startFrom_eq (h : m.Alike m') (seed : Nat) : m.startFrom seed = m'.startFrom seed := by
  simp only [startFrom, h.classes, h.functions, h.initialAccuracy, h.smoothing, h.tolerance]

/-- **What a model was fitted to before makes no difference.** -/
theorem fit_eq (h : m.Alike m') (votes : Matrix Int) (epochs seed : Nat) :
    m.fit votes epochs seed = m'.fit votes epochs seed := by
  rw [fit, fit, checkShape, checkShape, h.functions, h.classes, h.startFrom_eq]

end Alike

/-! ## Epochs -/

/-- An epoch takes a model to the next, with a change of its parameters. -/
def Epoch (rows : List (List Int)) (m next : NoiseModel) (change : Float32) : Prop :=
  ∃ qs estimate, m.posteriors rows = .ok qs ∧ m.maximize rows qs = .ok (estimate, change) ∧
    next = { estimate with epochs := m.epochs + 1 }

/-- Maximizing leaves the settings. -/
theorem alike_of_maximize {qs : List (List Float32)}
    (h : m.maximize rows qs = .ok (next, change)) : next.Alike m := by
  obtain ⟨priors, -, h⟩ := bind_eq_ok_iff.1 h
  obtain ⟨tables, -, h⟩ := bind_eq_ok_iff.1 h
  cases h
  exact ⟨rfl, rfl, rfl, rfl, rfl⟩

/-- An epoch leaves the settings. -/
theorem Epoch.alike (h : Epoch rows m next change) : next.Alike m := by
  obtain ⟨qs, estimate, -, hestimate, rfl⟩ := h
  obtain ⟨hclasses, hfunctions, haccuracy, hsmoothing, htolerance⟩ := alike_of_maximize hestimate
  exact ⟨hclasses, hfunctions, haccuracy, hsmoothing, htolerance⟩

theorem Epoch.epochs (h : Epoch rows m next change) : next.epochs = m.epochs + 1 := by
  obtain ⟨qs, estimate, -, -, rfl⟩ := h
  rfl

/-- **Training takes an epoch and stops there or goes on**, as the change is below
the tolerance or not. -/
theorem train_succ_eq_ok_iff : train rows (limit + 1) m = .ok m' ↔
    ∃ next change, Epoch rows m next change ∧
      (change < m.tolerance ∧ next = m' ∨
        ¬change < m.tolerance ∧ train rows limit next = .ok m') := by
  rw [train]
  constructor
  · intro h
    obtain ⟨qs, hqs, h⟩ := bind_eq_ok_iff.1 h
    obtain ⟨⟨estimate, change⟩, hestimate, h⟩ := bind_eq_ok_iff.1 h
    refine ⟨_, change, ⟨qs, estimate, hqs, hestimate, rfl⟩, ?_⟩
    by_cases hsmall : change < m.tolerance
    · exact .inl ⟨hsmall, Except.ok.inj ((if_pos hsmall).symm.trans h)⟩
    · exact .inr ⟨hsmall, (if_neg hsmall).symm.trans h⟩
  · rintro ⟨_, change, ⟨qs, estimate, hqs, hestimate, rfl⟩, h⟩
    refine bind_eq_ok_iff.2 ⟨qs, hqs, bind_eq_ok_iff.2 ⟨_, hestimate, ?_⟩⟩
    rcases h with ⟨hsmall, rfl⟩ | ⟨hlarge, htrain⟩
    · exact if_pos hsmall
    · exact (if_neg hlarge).trans htrain

/-- Training leaves the settings. -/
theorem alike_of_train (h : train rows limit m = .ok m') : m'.Alike m := by
  induction limit generalizing m with
  | zero =>
    obtain rfl : m = m' := Except.ok.inj h
    exact .refl m
  | succ limit ih =>
    obtain ⟨next, change, hepoch, ⟨-, rfl⟩ | ⟨-, htrain⟩⟩ := train_succ_eq_ok_iff.1 h
    · exact hepoch.alike
    · exact (ih htrain).trans hepoch.alike

/-- **Training that stopped before its limit stops there with any higher one.** -/
theorem train_eq_of_stopped {higher : Nat} (h : train rows limit m = .ok m')
    (hstopped : m'.epochs < m.epochs + limit) (hle : limit ≤ higher) :
    train rows higher m = .ok m' := by
  -- over the epochs that are left: where one went on, as many are left after it
  induction limit generalizing m higher with
  | zero =>
    obtain rfl : m = m' := Except.ok.inj h
    omega
  | succ limit ih =>
    obtain ⟨higher, rfl⟩ : ∃ n, higher = n + 1 := ⟨higher - 1, by omega⟩
    obtain ⟨next, change, hepoch, hstop | ⟨hlarge, htrain⟩⟩ := train_succ_eq_ok_iff.1 h
    · exact train_succ_eq_ok_iff.2 ⟨next, change, hepoch, .inl hstop⟩
    · have hepochs := hepoch.epochs
      have hrest := ih htrain (by omega) (by omega : limit ≤ higher)
      exact train_succ_eq_ok_iff.2 ⟨next, change, hepoch, .inr ⟨hlarge, hrest⟩⟩

/-! ## Calls -/

/-- **A fit checks the votes and trains from the start.** -/
theorem fit_eq_ok_iff {epochs seed : Nat} : m.fit votes epochs seed = .ok m' ↔
    m.checkShape votes = .ok () ∧ checkVotes votes m.classes = .ok () ∧
      ∃ rows, votes.allRows = .ok rows ∧ train rows epochs (m.startFrom seed) = .ok m' := by
  constructor
  · intro h
    obtain ⟨_, hshape, h⟩ := bind_eq_ok_iff.1 h
    obtain ⟨_, hvotes, h⟩ := bind_eq_ok_iff.1 h
    obtain ⟨rows, hrows, htrain⟩ := bind_eq_ok_iff.1 h
    exact ⟨liftFailure_eq_ok_iff.1 hshape, liftFailure_eq_ok_iff.1 hvotes, rows, hrows, htrain⟩
  · rintro ⟨hshape, hvotes, rows, hrows, htrain⟩
    exact bind_eq_ok_iff.2 ⟨(), liftFailure_eq_ok_iff.2 hshape,
      bind_eq_ok_iff.2 ⟨(), liftFailure_eq_ok_iff.2 hvotes, bind_eq_ok_iff.2 ⟨rows, hrows, htrain⟩⟩⟩

/-- A fit leaves the settings. -/
theorem alike_of_fit {epochs seed : Nat} (h : m.fit votes epochs seed = .ok m') : m'.Alike m := by
  obtain ⟨-, -, rows, -, htrain⟩ := fit_eq_ok_iff.1 h
  obtain ⟨hclasses, hfunctions, haccuracy, hsmoothing, htolerance⟩ := alike_of_train htrain
  exact ⟨hclasses, hfunctions, haccuracy, hsmoothing, htolerance⟩

/-- The votes are for the functions of the model, and none is outside of its
classes. -/
def Accepts (m : NoiseModel) (votes : Matrix Int) : Prop :=
  votes.cols = m.functions ∧ ∀ v ∈ votes.data.toList, v = abstain ∨ 0 ≤ v ∧ v < m.classes

/-- **A call fails for votes that are not accepted, and for nothing else.** -/
theorem exists_fit_eq_fail_iff (hvotes : votes.WellShaped) (epochs seed : Nat) :
    (∃ f, m.fit votes epochs seed = fail f) ↔ ¬m.Accepts votes := by
  constructor
  · rintro ⟨f, hf⟩ ⟨hcols, h⟩
    obtain ⟨m', hm', -⟩ := exists_fit hvotes hcols h epochs seed
    cases hf.symm.trans hm'
  · intro hnot
    rw [fit]
    by_cases hcols : votes.cols = m.functions
    · have hbad : checkVotes votes m.classes ≠ .ok () :=
        fun h => hnot ⟨hcols, checkVotes_eq_ok_iff.1 h⟩
      rw [checkShape_eq_ok hcols]
      cases hcheck : checkVotes votes m.classes with
      | ok => exact absurd hcheck hbad
      | error f => exact ⟨f, rfl⟩
    · rw [checkShape, if_neg hcols]
      exact ⟨_, rfl⟩

/-- A call of fitting. -/
structure FitCall where
  /-- The votes. -/
  votes : Matrix Int
  /-- The limit of the epochs. -/
  epochs : Nat
  /-- The seed. -/
  seed : Nat
deriving Repr

/-- What a call on a model ends with. -/
def FitCall.on (call : FitCall) (m : NoiseModel) : Fallible NoiseModel :=
  m.fit call.votes call.epochs call.seed

/-- The model after a call: one that fails does so before it estimates anything. -/
def refit (m : NoiseModel) (call : FitCall) : NoiseModel :=
  match call.on m with
  | .ok m' => m'
  | .error _ => m

/-- The model after calls one after another. -/
def refits (m : NoiseModel) (calls : List FitCall) : NoiseModel := calls.foldl refit m

theorem alike_refit (m : NoiseModel) (call : FitCall) : (m.refit call).Alike m := by
  rw [refit]
  split
  · next h => exact alike_of_fit h
  · exact .refl m

/-- **Fits leave the settings**, failed ones too. -/
theorem alike_refits (m : NoiseModel) (calls : List FitCall) : (m.refits calls).Alike m := by
  induction calls generalizing m with
  | nil => exact .refl m
  | cons call calls ih => exact (ih (m.refit call)).trans (alike_refit m call)

/-- The latest fit is done last. -/
theorem refits_concat (m : NoiseModel) (calls : List FitCall) (call : FitCall) :
    m.refits (calls ++ [call]) = (m.refits calls).refit call := by
  rw [refits, List.foldl_concat, refits]

/-- **Fitting again forgets the past.** After any calls, a call fails exactly for
votes that are not accepted and leaves the model as it is. Otherwise it leaves the
very model that it leaves where it is made on any other one configured alike, say a
new one. If it stopped before its limit, it leaves the same with any higher limit. -/
theorem refitting_forgets (m : NoiseModel) (calls : List FitCall) (call : FitCall) :
    (m.refits calls).Alike m ∧
      (call.votes.WellShaped →
        ((∃ f, call.on (m.refits calls) = fail f) ↔ ¬m.Accepts call.votes) ∧
        (m.Accepts call.votes → ∃ m', call.on (m.refits calls) = .ok m')) ∧
      (∀ stop, call.on (m.refits calls) = .error stop →
        m.refits (calls ++ [call]) = m.refits calls) ∧
      ∀ m', call.on (m.refits calls) = .ok m' → m.refits (calls ++ [call]) = m' ∧
        (∀ fresh : NoiseModel, fresh.Alike m → call.on fresh = .ok m') ∧
        (m'.epochs < call.epochs →
          ∀ limit, call.epochs ≤ limit →
            m.refits (calls ++ [{ call with epochs := limit }]) = m') := by
  have halike := alike_refits m calls
  have haccepts : (m.refits calls).Accepts call.votes ↔ m.Accepts call.votes := by
    rw [Accepts, Accepts, halike.functions, halike.classes]
  refine ⟨halike, fun hvotes => ⟨?_, fun h => ?_⟩, fun stop hstop => ?_, fun m' hm' => ⟨?_, ?_, ?_⟩⟩
  · rw [← haccepts]
    exact exists_fit_eq_fail_iff hvotes call.epochs call.seed
  · obtain ⟨hcols, hvalid⟩ := haccepts.2 h
    obtain ⟨m', hm', -⟩ := exists_fit hvotes hcols hvalid call.epochs call.seed
    exact ⟨m', hm'⟩
  · rw [refits_concat, refit, hstop]
  · rw [refits_concat, refit, hm']
  · intro fresh hfresh
    exact ((hfresh.trans halike.symm).fit_eq call.votes call.epochs call.seed).trans hm'
  · intro hstopped limit hle
    obtain ⟨hshape, hvotes, rows, hrows, htrain⟩ := fit_eq_ok_iff.1 hm'
    have hbelow : m'.epochs < ((m.refits calls).startFrom call.seed).epochs + call.epochs :=
      hstopped.trans_le (Nat.le_add_left _ _)
    have hfurther : ({ call with epochs := limit } : FitCall).on (m.refits calls) = .ok m' :=
      fit_eq_ok_iff.2 ⟨hshape, hvotes, rows, hrows, train_eq_of_stopped htrain hbelow hle⟩
    rw [refits_concat, refit, hfurther]

/-- A model of two classes and one function that was asked to fit a vote outside of
its classes, and then fitted to a single vote, fits two votes as a new one does. -/
theorem refitting_forgets_two :
    let m := (new 2 1).withSmoothing 0
    let calls : List FitCall := [⟨⟨#[2], 1, 1⟩, 3, 0⟩, ⟨⟨#[0], 1, 1⟩, 3, 0⟩]
    let call : FitCall := ⟨⟨#[1, 0], 2, 1⟩, 100, 7⟩
    (∃ f, calls[0].on m = fail f) ∧ m.refits [calls[0]] = m ∧
      ∃ m', m.refits (calls ++ [call]) = m' ∧ call.on m = .ok m' := by
  intro m calls call
  have haccepts : m.Accepts call.votes := ⟨rfl, by decide⟩
  have hbad : ¬m.Accepts calls[0].votes := by
    rintro ⟨-, h⟩
    exact absurd (h 2 (by decide)) (by decide)
  obtain ⟨-, hfails, hstays, -⟩ := refitting_forgets m [] calls[0]
  obtain ⟨f, hf⟩ := (hfails (by decide)).1.2 hbad
  obtain ⟨-, hends, -, hresult⟩ := refitting_forgets m calls call
  obtain ⟨m', hm'⟩ := (hends (by decide)).2 haccepts
  obtain ⟨hafter, hfresh, -⟩ := hresult m' hm'
  exact ⟨⟨f, hf⟩, hstays _ hf, m', hafter, hfresh m (.refl m)⟩

end NoiseModel

end RuleVote
