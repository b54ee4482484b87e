import RuleVote.Proofs.Random.Interval
import RuleVote.Proofs.Voter.Refitting
import RuleVote.Proofs.Voter.Smoothing
/-!
# What fitting divides by

In every epoch that fitting may come to, whatever its tolerance, the estimates are
divided by the number of items and by what was counted in each row of a table, with the
smoothing of all classes added (`NoiseModel.MStep`). The smoothing may be zero. Then the
total of the priors is zero for votes without rows, and that of a row of a table where
no item was counted in it; the estimates are not numbers there
(`NoiseModel.nan_without_rows`). Nothing else is divided by zero, so with a positive
smoothing all estimates are probabilities and all accuracies are numbers
(`NoiseModel.divides_by_zero_iff`).
-/

namespace RuleVote

open Float.Model (Format UnpackedFloat)
open Float.Model.UnpackedFloat

namespace NoiseModel

variable {E : Elementary} {m m' start next : NoiseModel} {rows : List (List Int)}
  {qs : List (List Float32)} {change s accuracy : Float32} {votes : Matrix Int}

/-! ## An epoch -/

/-- What an epoch divides by, and what comes of it. -/
structure MStep (m : NoiseModel) (rows : List (List Int)) (qs : List (List Float32)) : Prop where
  isZero_iff : IsZero (smoothedTotal m.classes m.smoothing (ofCount qs.length)) ↔
    rows = [] ∧ ¬0 < m.smoothing
  prior : ∀ c < m.classes, ∃ p, estimatePrior m.classes m.smoothing qs c = .ok p ∧
    EstimatedFrom (smoothedTotal m.classes m.smoothing (ofCount qs.length)) p
  table : ∀ j < m.functions, ∃ counts, voteCounts m.classes (rows.zip qs) j = .ok counts ∧
    estimateTable m.classes m.smoothing (rows.zip qs) j =
      .ok (smoothedTable m.classes m.smoothing counts) ∧
    ∀ row ∈ counts, RowEstimated m.classes m.smoothing row

/-- All parameters are probabilities. -/
structure Determined (m : NoiseModel) : Prop where
  priors : ∀ p ∈ m.priors, IsProbability p
  tables : ∀ table ∈ m.tables, ∀ row ∈ table, ∀ p ∈ row, IsProbability p

/-- An epoch of a model for valid rows is one of the kind above. -/
theorem mStep_of_smoothing {σ : ℚ} (h : Smoothing m.classes m.smoothing σ)
    (hrows : ∀ row ∈ rows, ValidRow m.classes m.functions row) (hword : rows.length < 2 ^ 64)
    (hlength : qs.length = rows.length) (hqs : ∀ q ∈ qs, IsDistribution m.classes q) :
    m.MStep rows qs := by
  have hword' : qs.length < 2 ^ 64 := hlength.symm ▸ hword
  refine ⟨?_, fun c hc => exists_prior h hqs hword' hc, fun j hj => ?_⟩
  · rw [isZero_priorTotal_iff h hword', hlength, List.length_eq_zero_iff]
  · have hitems : ∀ item ∈ rows.zip qs,
        ValidRow m.classes m.functions item.1 ∧ IsDistribution m.classes item.2 :=
      fun item hitem => ⟨hrows _ (List.of_mem_zip hitem).1, hqs _ (List.of_mem_zip hitem).2⟩
    obtain ⟨counts, hcounts, -, htable, hestimated⟩ := exists_table h hj hitems
    exact ⟨counts, hcounts, htable, hestimated⟩

/-- Where every parameter of the next model comes from. -/
theorem MStep.of_maximize (h : m.MStep rows qs) (hnext : m.maximize rows qs = .ok (next, change)) :
    (∀ p ∈ next.priors,
      EstimatedFrom (smoothedTotal m.classes m.smoothing (ofCount qs.length)) p) ∧
    ∀ table ∈ next.tables, ∀ row ∈ table, ∀ p ∈ row, ∃ counted,
      RowEstimated m.classes m.smoothing counted ∧
        EstimatedFrom (smoothedTotal m.classes m.smoothing (sumSingle counted)) p := by
  obtain ⟨priors, hpriors, hnext⟩ := bind_eq_ok_iff.1 hnext
  obtain ⟨tables, htables, hnext⟩ := bind_eq_ok_iff.1 hnext
  cases hnext
  constructor
  · intro p hp
    obtain ⟨c, hc, hestimate⟩ := exists_of_mem_mapM hpriors hp
    obtain ⟨p', hp', hfrom⟩ := h.prior c (List.mem_range.1 hc)
    cases hestimate.symm.trans hp'
    exact hfrom
  · intro table htable row hrow p hp
    obtain ⟨j, hj, hestimate⟩ := exists_of_mem_mapM htables htable
    obtain ⟨counts, -, htable', hrows⟩ := h.table j (List.mem_range.1 hj)
    cases hestimate.symm.trans htable'
    obtain ⟨counted, hcounted, rfl⟩ := List.mem_map.1 hrow
    obtain ⟨count, hcount, rfl⟩ := List.mem_map.1 hp
    exact ⟨counted, hrows counted hcounted, (hrows counted hcounted).estimated count hcount⟩

/-- **An epoch leaves estimates**, and with a positive smoothing probabilities. -/
theorem MStep.estimated (h : m.MStep rows qs) (hnext : m.maximize rows qs = .ok (next, change)) :
    next.Estimated ∧ (0 < m.smoothing → next.Determined) := by
  obtain ⟨hpriors, htables⟩ := h.of_maximize hnext
  refine ⟨⟨fun p hp => (hpriors p hp).isEstimate, fun table htable row hrow p hp => ?_⟩,
    fun hpos => ⟨fun p hp => ?_, fun table htable row hrow p hp => ?_⟩⟩
  · obtain ⟨counted, -, hfrom⟩ := htables table htable row hrow p hp
    exact hfrom.isEstimate
  · exact (hpriors p hp).isProbability fun hzero => (h.isZero_iff.1 hzero).2 hpos
  · obtain ⟨counted, hcounted, hfrom⟩ := htables table htable row hrow p hp
    exact hfrom.isProbability fun hzero => (hcounted.isZero_iff.1 hzero).2 hpos

/-! ## Runs -/

/-- The models that epochs lead to, whatever the tolerance. -/
inductive Fitting (E : Elementary) (rows : List (List Int)) (start : NoiseModel) :
    NoiseModel → Prop
  | start : Fitting E rows start start
  | epoch {m next : NoiseModel} {qs : List (List Float32)} {change : Float32}
      (hm : Fitting E rows start m) (hqs : m.posteriorsWith E rows = .ok qs)
      (hnext : m.maximize rows qs = .ok (next, change)) :
      Fitting E rows start { next with epochs := m.epochs + 1 }

/-- What every epoch keeps. -/
structure Sound (start m : NoiseModel) : Prop where
  alike : m.Alike start
  sized : m.Sized
  estimated : m.Estimated

section Run

variable {σ : ℚ} (hE : E.Documented) (hsmoothing : Smoothing start.classes start.smoothing σ)
  (hrows : ∀ row ∈ rows, ValidRow start.classes start.functions row)
  (hword : rows.length < 2 ^ 64)

include hE hsmoothing hrows hword

/-- A sound model has an epoch. -/
theorem Sound.exists_mStep (h : start.Sound m) :
    ∃ qs next change, m.posteriorsWith E rows = .ok qs ∧ m.MStep rows qs ∧
      m.maximize rows qs = .ok (next, change) ∧
      start.Sound { next with epochs := m.epochs + 1 } := by
  -- epochs keep the configuration, so the smoothing is still that of the start
  obtain ⟨hclasses, hfunctions, -, hs, -⟩ := h.alike
  rw [← hclasses, ← hs] at hsmoothing
  rw [← hclasses, ← hfunctions] at hrows
  have hpos : 0 < m.classes := two_pos.trans_le hsmoothing.two_le
  obtain ⟨qs, hqs, hlength, hall⟩ := exists_posteriorsWith hE h.sized h.estimated hpos hrows
  have hstep := mStep_of_smoothing hsmoothing hrows hword hlength hall
  obtain ⟨next, change, hnext, hsized, -⟩ := exists_maximize hrows fun q hq => (hall q hq).1
  have hestimated := (hstep.estimated hnext).1
  obtain ⟨hclasses, hfunctions, haccuracy, hs, htolerance⟩ :=
    (alike_of_maximize hnext).trans h.alike
  exact ⟨qs, next, change, hqs, hstep, hnext, ⟨hclasses, hfunctions, haccuracy, hs, htolerance⟩,
    ⟨hsized.1, hsized.2, hsized.3⟩, ⟨hestimated.1, hestimated.2⟩⟩

/-- **Every epoch is sound**, by induction on the epochs before it. -/
theorem Fitting.sound (hstart : start.Sound start) (h : Fitting E rows start m) :
    start.Sound m := by
  induction h with
  | start => exact hstart
  | epoch hm hqs hnext ih =>
    obtain ⟨qs, next, change, hqs', -, hnext', hsound⟩ :=
      ih.exists_mStep hE hsmoothing hrows hword
    cases hqs.symm.trans hqs'
    cases hnext.symm.trans hnext'
    exact hsound

/-- **Training ends with a model that epochs lead to.** With a positive smoothing any
epoch leaves it determined. -/
theorem exists_trainWith (limit : ℕ) (h : start.Sound m) (hm : Fitting E rows start m) :
    ∃ m', trainWith E rows limit m = .ok m' ∧ Fitting E rows start m' ∧
      (limit = 0 → m' = m) ∧ (0 < limit → 0 < start.smoothing → m'.Determined) := by
  -- the last epoch alone determines the model, so nothing is asked of the one before it
  induction limit generalizing m with
  | zero => exact ⟨m, rfl, hm, fun _ => rfl, fun hlt => (lt_irrefl 0 hlt).elim⟩
  | succ limit ih =>
    obtain ⟨qs, next, change, hqs, hstep, hnext, hsound⟩ :=
      h.exists_mStep hE hsmoothing hrows hword
    have hreached := hm.epoch hqs hnext
    have hdetermined : 0 < start.smoothing → next.Determined := by
      rw [← h.alike.smoothing]
      exact (hstep.estimated hnext).2
    rw [trainWith]
    by_cases hsmall : change < m.tolerance
    · refine ⟨_, bind_eq_ok_iff.2 ⟨qs, hqs, bind_eq_ok_iff.2 ⟨_, hnext, if_pos hsmall⟩⟩,
        hreached, fun hzero => (Nat.succ_ne_zero limit hzero).elim, fun _ hpos => ?_⟩
      exact ⟨(hdetermined hpos).1, (hdetermined hpos).2⟩
    · obtain ⟨m', hm', hreached', hnone, hsome⟩ := ih hsound hreached
      refine ⟨m', bind_eq_ok_iff.2 ⟨qs, hqs, bind_eq_ok_iff.2 ⟨_, hnext, ?_⟩⟩, hreached',
        fun hzero => (Nat.succ_ne_zero limit hzero).elim, fun _ hpos => ?_⟩
      · exact (if_neg hsmall).trans hm'
      · rcases Nat.eq_zero_or_pos limit with hzero | hlimit
        · rw [hnone hzero]
          exact ⟨(hdetermined hpos).1, (hdetermined hpos).2⟩
        · exact hsome hlimit hpos

end Run

/-! ## Where fitting starts -/

theorem isProbability_clamp {x : Float32} (hx : x.isNaN = false) :
    IsProbability (clampSingle 0 1 x) := by
  obtain ⟨q, hq⟩ := exists_hasAmount hx
  have hzero := hasValue_zero.hasAmount
  have hone := hasValue_one.hasAmount
  rw [isProbability_iff, clampSingle]
  split_ifs with hlow hhigh
  · exact ⟨0, hzero, le_rfl, zero_le_one⟩
  · exact ⟨1, hone, zero_le_one, le_rfl⟩
  · rw [hq.lt_iff hzero, not_lt] at hlow
    rw [hone.lt_iff hq, not_lt] at hhigh
    exact ⟨q, hq, hlow, hhigh⟩

theorem isEstimate_clamp (x : Float32) : IsEstimate (clampSingle 0 1 x) := by
  cases hx : x.isNaN with
  | false => exact .inr (isProbability_clamp hx)
  | true =>
    have hlow : ¬x < 0 := fun h => by cases hx.symm.trans (single_lt_iff.1 h).1
    have hhigh : ¬1 < x := fun h => by cases hx.symm.trans (single_lt_iff.1 h).2.1
    rw [clampSingle, if_neg hlow, if_neg hhigh]
    exact .inl hx

/-- An even table consists of the accuracy and of what is left of it for another class. -/
theorem eq_or_eq_of_mem_evenTable {k : ℕ} (hk : 2 ≤ k) {row : List Float32} {p : Float32}
    (hrow : row ∈ evenTable k accuracy) (hp : p ∈ row) :
    p = accuracy ∨ p = (1 - accuracy) / ofCount (k - 1) := by
  rw [evenTable, if_pos (by omega : 1 < k)] at hrow
  obtain ⟨c, -, rfl⟩ := List.mem_map.1 hrow
  obtain ⟨v, -, rfl⟩ := List.mem_map.1 hp
  split
  · exact .inl rfl
  · exact .inr rfl

theorem isProbability_left {k : ℕ} (hk : 2 ≤ k) (hword : k < 2 ^ 64)
    (haccuracy : IsProbability accuracy) : IsProbability ((1 - accuracy) / ofCount (k - 1)) := by
  obtain ⟨q, hq, hq₀, hq₁⟩ := isProbability_iff.1 haccuracy
  obtain ⟨r, hr, hsub⟩ := hasValue_one.hasAmount.sub hq (by norm_num)
    (by rw [abs_of_nonneg hq₀]; exact hq₁.trans_lt (by norm_num))
  obtain ⟨κ, hκ, hcount⟩ := hasAmount_ofCount (n := k - 1) (by omega)
  have hκ₁ : 1 ≤ κ := by exact_mod_cast hκ.natCast_le (k := 1) (by norm_num) (by omega)
  have hr₁ : r ≤ 1 := hr.le_one (by linarith)
  exact isProbability_div hsub hcount (hr.nonneg (by linarith)) (hr₁.trans hκ₁) (by linarith)
    (hr₁.trans_lt (by norm_num))

theorem isNaN_left {k : ℕ} (haccuracy : accuracy.isNaN = true) :
    ((1 - accuracy) / ofCount (k - 1)).isNaN = true := by
  have hnan : accuracy = Float32.nan := by simpa using haccuracy
  have hsub : 1 - Float32.nan = Float32.nan := by decide +kernel
  have hdiv : ∀ u, UnpackedFloat.div Format.binary32 .notANumber u = .notANumber := by
    rintro (_ | _ | _ | _) <;> rfl
  rw [hnan, hsub]
  show (unpack Format.binary32 (pack Format.binary32 (UnpackedFloat.div Format.binary32
    .notANumber (ofCount (k - 1)).toModel.unpack))).isNaN = true
  rw [hdiv]
  decide

theorem isProbability_evenPriors {k : ℕ} (hk : 2 ≤ k) (hword : k < 2 ^ 64) :
    ∀ p ∈ evenPriors k, IsProbability p := by
  intro p hp
  obtain ⟨κ, hκ, hcount⟩ := hasAmount_ofCount hword
  have hκ₁ : 1 ≤ κ := by exact_mod_cast hκ.natCast_le (k := 1) (by norm_num) (by omega)
  rw [List.eq_of_mem_replicate hp]
  exact isProbability_div hasValue_one.hasAmount hcount zero_le_one hκ₁ (by linarith) (by norm_num)

/-- Fitting starts with estimates. -/
theorem sound_startFrom (hk : 2 ≤ m.classes) (hword : m.classes < 2 ^ 64) (seed : ℕ) :
    (m.startFrom seed).Sound (m.startFrom seed) := by
  refine ⟨.refl _, sized_startFrom m seed,
    fun p hp => .inr (isProbability_evenPriors hk hword p hp), fun table htable row hrow p hp => ?_⟩
  obtain ⟨x, -, rfl⟩ := List.mem_map.1 htable
  have haccuracy := isEstimate_clamp (m.initialAccuracy + x)
  rcases eq_or_eq_of_mem_evenTable hk hrow hp with rfl | rfl
  · exact haccuracy
  · exact haccuracy.imp isNaN_left (isProbability_left hk hword)

/-- Fitting a model with a finite accuracy starts with probabilities. -/
theorem determined_startFrom (hk : 2 ≤ m.classes) (hword : m.classes < 2 ^ 64)
    (haccuracy : IsFinite m.initialAccuracy) (seed : ℕ) : (m.startFrom seed).Determined := by
  refine ⟨isProbability_evenPriors hk hword, fun table htable row hrow p hp => ?_⟩
  obtain ⟨x, hx, rfl⟩ := List.mem_map.1 htable
  obtain ⟨a, ha, hfinite⟩ := haccuracy.exists_hasAmount
  have hjitter : IsProbability jitter := ⟨by decide +kernel, by decide +kernel⟩
  obtain ⟨q, hq, hsmall⟩ := KeyStream.forall_mem_several
    (P := fun x => ∃ q, HasAmount x q ∧ |q| ≤ 4) (KeyStream.exists_between hjitter) _ _ x hx
  obtain ⟨r, -, hsum⟩ := ha.add hq hfinite (hsmall.trans_lt (by norm_num))
  have hclamped := isProbability_clamp hsum.not_isNaN
  rcases eq_or_eq_of_mem_evenTable hk hrow hp with rfl | rfl
  · exact hclamped
  · exact isProbability_left hk hword hclamped

/-! ## Accuracies -/

/-- **Probabilities have accuracies that are numbers.** -/
theorem Determined.accuracies (h : m.Determined) : ∀ a ∈ m.accuracies, a.isNaN = false := by
  intro a ha
  obtain ⟨table, htable, rfl⟩ := List.mem_map.1 ha
  have hcell : ∀ c, IsProbability (cell table c c) := by
    intro c
    have hzero : IsProbability 0 :=
      isProbability_iff.2 ⟨0, hasValue_zero.hasAmount, le_rfl, zero_le_one⟩
    rw [cell]
    cases hrow : table[c]? with
    | none => exact hzero
    | some row =>
      cases hp : row[c]? with
      | none => simpa [hp] using hzero
      | some p =>
        simpa [hp] using
          h.tables table htable row (List.mem_of_getElem? hrow) p (List.mem_of_getElem? hp)
  have hterms : ∀ x ∈ m.priors.zipIdx.map fun e => e.1 * cell table e.2 e.2, IsProbability x := by
    intro x hx
    obtain ⟨e, he, rfl⟩ := List.mem_map.1 hx
    exact isProbability_mul (h.priors _ (List.fst_mem_of_mem_zipIdx he)) (hcell _)
  obtain ⟨total, htotal, -⟩ := exists_sum_probabilities hterms
  exact htotal.not_isNaN

/-! ## Fitting -/

/-- What a smoothing is set to: a finite amount that is positive where the given one is. -/
theorem exists_smoothing {k : ℕ} (hk : 2 ≤ k) (hword : k < 2 ^ 64) (hs : IsFinite s) :
    (∃ σ, Smoothing k (larger s 0) σ) ∧ (0 < larger s 0 ↔ 0 < s) := by
  obtain ⟨q, hq, hfinite⟩ := hs.exists_hasAmount
  have hzero := hasValue_zero.hasAmount
  rw [larger, hq.not_isNaN, if_neg Bool.false_ne_true]
  by_cases hneg : s < 0
  · rw [if_pos hneg, hzero.lt_iff hzero, hzero.lt_iff hq]
    rw [hq.lt_iff hzero] at hneg
    exact ⟨⟨0, hk, hword, hzero, le_rfl, by norm_num⟩, iff_of_false (lt_irrefl 0) hneg.le.not_gt⟩
  · rw [if_neg hneg]
    rw [hq.lt_iff hzero, not_lt] at hneg
    exact ⟨⟨q, hk, hword, hq, hneg, (abs_lt.1 hfinite).2⟩, Iff.rfl⟩

/-- **Fitting divides by zero only without smoothing.** Fitting ends for all votes that
are accepted. In every epoch it may come to, the total of the priors is zero exactly
where there are no rows and that of a row of a table exactly where nothing is counted in
it, both only without a positive smoothing. An estimate from such a total is not a
number, and every other one is a probability. So with a positive smoothing, or before
the first epoch, all parameters are probabilities and all accuracies are numbers. -/
theorem divides_by_zero_iff (hE : E.Documented) (hclasses : 2 ≤ m.classes)
    (hword : m.classes < 2 ^ 64) (hs : IsFinite s) (hvotes : votes.WellShaped)
    (haccepts : m.Accepts votes) (hrows : votes.rows < 2 ^ 64) (epochs seed : ℕ) :
    (0 < (m.withSmoothing s).smoothing ↔ 0 < s) ∧
      ∃ rows m', votes.allRows = .ok rows ∧ rows.length = votes.rows ∧
        (m.withSmoothing s).fitWith E votes epochs seed = .ok m' ∧
        Fitting E rows ((m.withSmoothing s).startFrom seed) m' ∧
        (∀ reached, Fitting E rows ((m.withSmoothing s).startFrom seed) reached →
          reached.Alike (m.withSmoothing s) ∧
            ∃ qs, reached.posteriorsWith E rows = .ok qs ∧ reached.MStep rows qs) ∧
        ((0 < epochs ∧ 0 < s ∨ epochs = 0 ∧ IsFinite m.initialAccuracy) →
          m'.Determined ∧ ∀ a ∈ m'.accuracies, a.isNaN = false) := by
  obtain ⟨⟨σ, hsmoothing⟩, hpos⟩ := exists_smoothing hclasses hword hs
  refine ⟨hpos, ?_⟩
  have hstart := sound_startFrom (m := m.withSmoothing s) hclasses hword seed
  have hsmoothing : Smoothing ((m.withSmoothing s).startFrom seed).classes
    ((m.withSmoothing s).startFrom seed).smoothing σ := hsmoothing
  obtain ⟨rows, hallRows, hvalid⟩ := exists_validRows hvotes haccepts.2
  rw [haccepts.1] at hvalid
  have hlength := (Matrix.shape_of_allRows hallRows).1
  have hword' : rows.length < 2 ^ 64 := hlength.symm ▸ hrows
  obtain ⟨m', htrain, hreached, hnone, hsome⟩ :=
    exists_trainWith hE hsmoothing hvalid hword' epochs hstart .start
  have hshape := liftFailure_eq_ok_iff.2 (checkShape_eq_ok (m := m.withSmoothing s) haccepts.1)
  have hcheck := liftFailure_eq_ok_iff.2 (checkVotes_eq_ok haccepts.2)
  -- the checks pass, and training is the loop of the invariant
  refine ⟨rows, m', hallRows, hlength, bind_eq_ok_iff.2 ⟨(), hshape, bind_eq_ok_iff.2 ⟨(), hcheck,
    bind_eq_ok_iff.2 ⟨rows, hallRows, htrain⟩⟩⟩, hreached, fun reached hfitting => ?_, ?_⟩
  · have hsound := hfitting.sound hE hsmoothing hvalid hword' hstart
    obtain ⟨qs, next, change, hqs, hstep, -⟩ :=
      hsound.exists_mStep hE hsmoothing hvalid hword'
    exact ⟨hsound.alike.trans ⟨rfl, rfl, rfl, rfl, rfl⟩, qs, hqs, hstep⟩
  · intro h
    have hdetermined : m'.Determined := by
      rcases h with ⟨hepochs, hs⟩ | ⟨hepochs, haccuracy⟩
      · exact hsome hepochs (hpos.2 hs)
      · rw [hnone hepochs]
        exact determined_startFrom (m := m.withSmoothing s) hclasses hword haccuracy seed
    exact ⟨hdetermined, hdetermined.accuracies⟩

/-- With the default smoothing a column without votes is fitted to probabilities. The
exponential is taken of zero only, and the logarithm of one half. -/
theorem divides_by_zero_iff_abstention :
    (Elementary.coarse).Documented ∧ 0 < defaultSmoothing ∧
      ∃ m', ((new 2 1).withSmoothing defaultSmoothing).fitWith .coarse ⟨#[abstain], 1, 1⟩ 1 0 =
          .ok m' ∧ m'.Determined ∧ ∀ a ∈ m'.accuracies, a.isNaN = false := by
  have haccepts : (new 2 1).Accepts ⟨#[abstain], 1, 1⟩ := ⟨rfl, by decide⟩
  have hpos : 0 < defaultSmoothing := by decide +kernel
  obtain ⟨-, rows, m', -, -, hfit, -, -, hdetermined⟩ :=
    divides_by_zero_iff Elementary.coarse_documented (m := new 2 1) (by decide) (by decide)
      (by decide +kernel : IsFinite defaultSmoothing) (by decide) haccepts (by decide) 1 0
  exact ⟨Elementary.coarse_documented, hpos, m', hfit, hdetermined (.inl ⟨one_pos, hpos⟩)⟩

/-- **Without smoothing and without rows every estimate is zero divided by zero**: no
prior and no accuracy of the model is a number. -/
theorem nan_without_rows :
    IsFinite 0 ∧ (new 2 1).Accepts ⟨#[], 0, 1⟩ ∧
      IsZero (smoothedTotal 2 ((new 2 1).withSmoothing 0).smoothing (ofCount 0)) ∧
      ∃ m', ((new 2 1).withSmoothing 0).fit ⟨#[], 0, 1⟩ 1 0 = .ok m' ∧
        m'.priors.map Float32.isNaN = [true, true] ∧ m'.accuracies.map Float32.isNaN = [true] := by
  let start := ((new 2 1).withSmoothing 0).startFrom 0
  let smoothing : Float32 := larger 0 0
  let prior := (sumSingle [] + smoothing) / smoothedTotal 2 smoothing (ofCount 0)
  let cell := (0 + smoothing) / smoothedTotal 2 smoothing (sumSingle [0, 0])
  let next := { start with
    priors := [prior, prior], tables := [[[cell, cell], [cell, cell]]], epochs := 1 }
  -- the limit is one epoch, so its change does not matter
  have hepoch : ∃ change, Epoch [] start next change := ⟨_, [], _, rfl, rfl, rfl⟩
  obtain ⟨change, hepoch⟩ := hepoch
  have htrain : train [] 1 start = .ok next := by
    refine train_succ_eq_ok_iff.2 ⟨next, change, hepoch, ?_⟩
    by_cases hsmall : change < start.tolerance
    · exact .inl ⟨hsmall, rfl⟩
    · exact .inr ⟨hsmall, rfl⟩
  refine ⟨by decide +kernel, ⟨rfl, by decide⟩, ?_, next,
    fit_eq_ok_iff.2 ⟨rfl, rfl, [], rfl, htrain⟩, ?_, ?_⟩
  · show (_ == _) = true
    decide +kernel
  · decide +kernel
  · decide +kernel

end NoiseModel

end RuleVote
