import RuleVote.Proofs.Voter.Expectation
/-!
# Estimates from smoothed counts

Every estimate is a count divided by a total, and the smoothing is added to both, to the
total once for each class. With two classes at least the total is zero exactly where
nothing was counted and there is no smoothing (`Smoothing.isZero_total_iff`). The
estimate is then zero divided by zero, which is not a number, and otherwise it is a
probability, whatever was rounded and even where the total overflows
(`Smoothing.estimatedFrom`). The priors are estimated in this way from the number of
items, the vote probabilities of a function from the probabilities of the items it votes
on (`NoiseModel.exists_prior`, `NoiseModel.exists_table`).
-/

namespace RuleVote

/-- The number is a zero of either sign. -/
def IsZero (x : Float32) : Prop := (x == 0) = true

/-- A number with an amount is a zero if and only if the amount is zero. -/
theorem HasAmount.isZero_iff {x : Float32} {q : ℚ} (hx : HasAmount x q) : IsZero x ↔ q = 0 := by
  have hcompare : IsZero x ↔
      (x.toModel.unpack.compare (0 : Float32).toModel.unpack == some .eq) = true := Iff.rfl
  rw [hcompare, compare_of_reads hx hasValue_zero.hasAmount, beq_iff_eq, Option.some_inj,
    compare_eq_iff_eq]

/-! ## Smoothing -/

/-- What is counted with the smoothing of so many classes. -/
def smoothedTotal (classes : ℕ) (smoothing counted : Float32) : Float32 :=
  counted + ofCount classes * smoothing

/-- An estimate from a total: a probability unless the total is zero, and then it is not
a number. -/
structure EstimatedFrom (total p : Float32) : Prop where
  isNaN : IsZero total → p.isNaN = true
  isProbability : ¬IsZero total → IsProbability p

/-- It is an estimate, whatever the total is. -/
theorem EstimatedFrom.isEstimate {total p : Float32} (h : EstimatedFrom total p) :
    IsEstimate p := by
  by_cases hzero : IsZero total
  · exact .inl (h.isNaN hzero)
  · exact .inr (h.isProbability hzero)

/-- The smoothing of two classes at least, as many as a word counts, by a finite amount
that is not negative. -/
structure Smoothing (k : ℕ) (s : Float32) (σ : ℚ) : Prop where
  two_le : 2 ≤ k
  lt_word : k < 2 ^ 64
  amount : HasAmount s σ
  nonneg : 0 ≤ σ
  finite : σ < 2 ^ 128

/-- Twice an amount that is stored exactly is stored exactly, unless it is too large. -/
theorem representable_double {g : ℚ} (hg : Representable g) (hle : |2 * g| ≤ 2 ^ 128) :
    Representable (2 * g) := by
  obtain ⟨-, j, e, hj, he, rfl⟩ := hg
  refine ⟨hle, j, e + 1, hj, by omega, ?_⟩
  rw [zpow_add_one₀ two_ne_zero]
  ring

namespace Smoothing

variable {k : ℕ} {s w x : Float32} {σ ω ξ : ℚ}

/-- What all classes are smoothed by is what one is at least, and above it unless that is
zero. -/
theorem exists_all (h : Smoothing k s σ) :
    ∃ π, HasAmount (ofCount k * s) π ∧ σ ≤ π ∧ (0 < σ → σ < π) ∧ (σ = 0 → π = 0) := by
  have hσ := h.nonneg
  obtain ⟨κ, hκ, hcount⟩ := hasAmount_ofCount h.lt_word
  have hκ₂ : 2 ≤ κ := by exact_mod_cast hκ.natCast_le (by norm_num) h.two_le
  have hκ₆₄ : κ ≤ 2 ^ 64 := by
    have hpower : Representable (2 ^ (64 : ℤ)) := representable_zpow (by decide) (by decide)
    exact_mod_cast hκ.le hpower (by exact_mod_cast h.lt_word.le)
  have hκ' : |κ| < 2 ^ 128 := by
    rw [abs_of_nonneg (by linarith)]
    exact hκ₆₄.trans_lt (by norm_num)
  obtain ⟨π, hπ, hproduct⟩ := hcount.mul h.amount hκ' (by rw [abs_of_nonneg hσ]; exact h.finite)
  have hrep : Representable σ := Reads.representable h.amount
  refine ⟨π, hproduct, hπ.ge hrep (by nlinarith), fun hpos => ?_, fun hzero => ?_⟩
  · -- twice the smoothing is exact, unless it is beyond the end of the range
    rcases le_or_gt (2 * σ) (2 ^ 128) with hle | hgt
    · have hdouble := representable_double hrep (by rwa [abs_of_nonneg (by linarith)])
      linarith [hπ.ge hdouble (by nlinarith)]
    · have hend := hπ.ge (rounds_end le_rfl).representable (by nlinarith)
      linarith [h.finite]
  · rw [hzero, mul_zero] at hπ
    exact hπ.eq representable_zero

/-- A total is no less than what was counted, and a smoothed part of what was counted is
a finite part of the total. -/
theorem exists_total (h : Smoothing k s σ) (hw : HasAmount w ω) (hω : 0 ≤ ω) :
    ∃ δ, HasAmount (smoothedTotal k s w) δ ∧ 0 ≤ δ ∧ (δ = 0 ↔ ω = 0 ∧ σ = 0) ∧
      ∀ x ξ, HasAmount x ξ → 0 ≤ ξ → ξ ≤ ω → ξ ≤ 2 ^ 24 →
        ∃ r, HasAmount (x + s) r ∧ 0 ≤ r ∧ r ≤ δ ∧ r < 2 ^ 128 := by
  have hσ := h.nonneg
  obtain ⟨π, hproduct, hσπ, hstrict, hnone⟩ := h.exists_all
  have hπ : 0 ≤ π := hσ.trans hσπ
  obtain ⟨δ, hδ, htotal⟩ := hw.add_of_nonneg hproduct hω hπ
  have hωδ : ω ≤ δ := hδ.ge (Reads.representable hw) (by linarith)
  have hπδ : π ≤ δ := hδ.ge (Reads.representable hproduct) (by linarith)
  refine ⟨δ, htotal, hω.trans hωδ, ⟨fun hzero => ⟨by linarith, by linarith⟩, ?_⟩, ?_⟩
  · rintro ⟨hω₀, hσ₀⟩
    rw [hω₀, hnone hσ₀, add_zero] at hδ
    exact hδ.eq representable_zero
  · intro x ξ hx hξ hξω hcap
    obtain ⟨r, hr, hsum⟩ := hx.add_of_nonneg h.amount hξ hσ
    have hrδ : r ≤ δ := by
      -- the whole is smoothed by more than the part, so rounding keeps them in order
      rcases hσ.eq_or_lt with hσ₀ | hpos
      · rw [← hσ₀, add_zero] at hr
        rw [hr.eq (Reads.representable hx)]
        exact hξω.trans hωδ
      · exact hr.mono hδ (by linarith [hstrict hpos])
    have hbelow : r ≤ largestFinite :=
      hr.mono rounds_largestFinite (by linarith [Reads.le_largestFinite h.amount h.finite])
    exact ⟨r, hsum, hr.nonneg (by linarith), hrδ, hbelow.trans_lt (by norm_num [largestFinite])⟩

/-- The amount is zero exactly where the setting is not positive. -/
theorem eq_zero_iff (h : Smoothing k s σ) : σ = 0 ↔ ¬0 < s := by
  rw [hasValue_zero.hasAmount.lt_iff h.amount, not_lt]
  exact ⟨le_of_eq, fun hle => le_antisymm hle h.nonneg⟩

/-- **A total is zero exactly where nothing was counted without smoothing.** -/
theorem isZero_total_iff (h : Smoothing k s σ) (hw : HasAmount w ω) (hω : 0 ≤ ω) :
    IsZero (smoothedTotal k s w) ↔ IsZero w ∧ ¬0 < s := by
  obtain ⟨δ, htotal, -, hzero, -⟩ := h.exists_total hw hω
  rw [htotal.isZero_iff, hzero, hw.isZero_iff, h.eq_zero_iff]

/-- **A smoothed part of a total is an estimate from it.** -/
theorem estimatedFrom (h : Smoothing k s σ) (hw : HasAmount w ω) (hω : 0 ≤ ω)
    (hx : HasAmount x ξ) (hξ : 0 ≤ ξ) (hξω : ξ ≤ ω) (hcap : ξ ≤ 2 ^ 24) :
    EstimatedFrom (smoothedTotal k s w) ((x + s) / smoothedTotal k s w) := by
  obtain ⟨δ, htotal, hδ, -, hpart⟩ := h.exists_total hw hω
  obtain ⟨r, hr, hr₀, hrδ, hrfinite⟩ := hpart x ξ hx hξ hξω hcap
  constructor <;> rw [htotal.isZero_iff]
  · rintro rfl
    rw [le_antisymm hrδ hr₀] at hr
    exact isNaN_zero_div_zero hr htotal
  · intro hne
    exact isProbability_div hr htotal hr₀ hrδ (lt_of_le_of_ne hδ (Ne.symm hne)) hrfinite

end Smoothing

/-! ## The estimates of an epoch -/

/-- The number is a sum of probabilities. -/
def IsMass (x : Float32) : Prop := ∃ q, HasAmount x q ∧ 0 ≤ q ∧ q ≤ 2 ^ 24

/-- There is a probability for each class. -/
def IsDistribution (classes : ℕ) (q : List Float32) : Prop :=
  q.length = classes ∧ ∀ p ∈ q, IsProbability p

namespace NoiseModel

variable {k j : ℕ} {s : Float32} {σ : ℚ} {qs : List (List Float32)}
  {items : List (List Int × List Float32)} {counts counts' : VoteProbabilities}

/-- **Each prior is estimated from the number of items.** -/
theorem exists_prior (h : Smoothing k s σ) (hqs : ∀ q ∈ qs, IsDistribution k q)
    (hword : qs.length < 2 ^ 64) {c : ℕ} (hc : c < k) :
    ∃ p, estimatePrior k s qs c = .ok p ∧
      EstimatedFrom (smoothedTotal k s (ofCount qs.length)) p := by
  have hentries : ∀ q ∈ qs, ∃ x, orBreak q[c]? = .ok x ∧ IsProbability x := by
    intro q hq
    obtain ⟨hlength, hall⟩ := hqs q hq
    have hc' : c < q.length := hlength ▸ hc
    exact ⟨_, orBreak_eq_ok_iff.2 (List.getElem?_eq_getElem hc'), hall _ (List.getElem_mem hc')⟩
  obtain ⟨masses, hmasses, hlength, hall⟩ := exists_mapM_forall hentries
  obtain ⟨μ, hμ, hμ₀, hμ₁, hμn⟩ := exists_sum_probabilities hall
  obtain ⟨ν, hν, hcount⟩ := hasAmount_ofCount hword
  rw [hlength] at hμn
  exact ⟨_, bind_eq_ok_iff.2 ⟨masses, hmasses, rfl⟩, h.estimatedFrom hcount
    (hν.nonneg (Nat.cast_nonneg _)) hμ hμ₀ (hν.ge (Reads.representable hμ) hμn) hμ₁⟩

/-- The total of the priors is zero exactly where there are no items and no smoothing. -/
theorem isZero_priorTotal_iff (h : Smoothing k s σ) {n : ℕ} (hword : n < 2 ^ 64) :
    IsZero (smoothedTotal k s (ofCount n)) ↔ n = 0 ∧ ¬0 < s := by
  obtain ⟨ν, hν, hcount⟩ := hasAmount_ofCount hword
  rw [h.isZero_total_iff hcount (hν.nonneg (Nat.cast_nonneg _)), hcount.isZero_iff]
  refine and_congr_left fun _ => ⟨fun hzero => ?_, fun hzero => ?_⟩
  · by_contra hne
    have hle := hν.natCast_le (by norm_num) (Nat.one_le_iff_ne_zero.2 hne)
    rw [hzero] at hle
    norm_num at hle
  · rw [hzero, Nat.cast_zero] at hν
    exact hν.eq representable_zero

/-- The probabilities of the items that function `j` votes on, counted for its votes. -/
def voteCounts (classes : ℕ) (items : List (List Int × List Float32)) (j : ℕ) :
    Fallible VoteProbabilities :=
  items.foldlM (countItem j) (List.replicate classes (List.replicate classes 0))

/-- The vote probabilities that counts give. -/
def smoothedTable (k : ℕ) (s : Float32) (counts : VoteProbabilities) : VoteProbabilities :=
  counts.map fun row => row.map fun count => (count + s) / smoothedTotal k s (sumSingle row)

/-- A table is the votes that are counted for it, each of its rows smoothed. -/
theorem estimateTable_eq (k : ℕ) (s : Float32) (items : List (List Int × List Float32)) (j : ℕ) :
    estimateTable k s items j = smoothedTable k s <$> voteCounts k items j := by
  rw [← bind_pure_comp]
  rfl

/-- Counting one more item leaves masses. -/
theorem isMass_of_countItem {item : List Int × List Float32}
    (hcounts : ∀ row ∈ counts, ∀ x ∈ row, IsMass x) (hitem : ∀ p ∈ item.2, IsProbability p)
    (h : countItem j counts item = .ok counts') : ∀ row ∈ counts', ∀ x ∈ row, IsMass x := by
  obtain ⟨v, -, h⟩ := bind_eq_ok_iff.1 h
  split_ifs at h
  · obtain rfl := Except.ok.inj h
    exact hcounts
  · intro row hrow x hx
    obtain ⟨⟨old, c⟩, hmem, hrow⟩ := exists_of_mem_mapM h hrow
    obtain ⟨y, hy, hrow⟩ := bind_eq_ok_iff.1 hrow
    obtain ⟨p, hp, hrow⟩ := bind_eq_ok_iff.1 hrow
    obtain rfl := Except.ok.inj hrow
    have hold := hcounts old (List.fst_mem_of_mem_zipIdx hmem)
    rcases List.mem_or_eq_of_mem_set hx with hx | rfl
    · exact hold x hx
    · obtain ⟨q, hq, hq₀, hq₁⟩ := hold y (mem_of_entryAt hy)
      obtain ⟨r, hr, hr₀, hr₁, -⟩ := add_probability hq hq₀ hq₁
        (hitem p (List.mem_of_getElem? (orBreak_eq_ok_iff.1 hp)))
      exact ⟨r, hr, hr₀, hr₁⟩

/-- What a row of a table is estimated from: its total is zero exactly where no item was
counted in it and there is no smoothing. -/
structure RowEstimated (k : ℕ) (s : Float32) (row : List Float32) : Prop where
  isZero_iff : IsZero (smoothedTotal k s (sumSingle row)) ↔ IsZero (sumSingle row) ∧ ¬0 < s
  estimated : ∀ count ∈ row, EstimatedFrom (smoothedTotal k s (sumSingle row))
    ((count + s) / smoothedTotal k s (sumSingle row))

/-- A row of masses is estimated in this way. -/
theorem rowEstimated (h : Smoothing k s σ) {row : List Float32} (hrow : ∀ x ∈ row, IsMass x) :
    RowEstimated k s row := by
  obtain ⟨ω, hω, hω₀, hle⟩ := exists_sum fun x hx => by
    obtain ⟨q, hq, hq₀, -⟩ := hrow x hx
    exact ⟨q, hq, hq₀⟩
  refine ⟨h.isZero_total_iff hω hω₀, fun count hcount => ?_⟩
  obtain ⟨q, hq, hq₀, hq₁⟩ := hrow count hcount
  exact h.estimatedFrom hω hω₀ hq hq₀ (hle count hcount q hq) hq₁

/-- **Each row of a table is estimated from what was counted in it.** -/
theorem exists_table {functions : ℕ} (h : Smoothing k s σ) (hj : j < functions)
    (hitems : ∀ item ∈ items, ValidRow k functions item.1 ∧ IsDistribution k item.2) :
    ∃ counts, voteCounts k items j = .ok counts ∧ Square k counts ∧
      estimateTable k s items j = .ok (smoothedTable k s counts) ∧
      ∀ row ∈ counts, RowEstimated k s row := by
  have hstep : ∀ counts, (Square k counts ∧ ∀ row ∈ counts, ∀ x ∈ row, IsMass x) →
      ∀ item ∈ items, ∃ counts', countItem j counts item = .ok counts' ∧
        Square k counts' ∧ ∀ row ∈ counts', ∀ x ∈ row, IsMass x := by
    rintro counts ⟨hsquare, hmass⟩ item hitem
    obtain ⟨hrow, hlength, hall⟩ := hitems item hitem
    obtain ⟨counts', hcounts', hsquare'⟩ := exists_countItem hj hsquare hrow hlength
    exact ⟨counts', hcounts', hsquare', isMass_of_countItem hmass hall hcounts'⟩
  have hzeros : ∀ row ∈ List.replicate k (List.replicate k (0 : Float32)), ∀ x ∈ row, IsMass x := by
    intro row hrow x hx
    rw [List.eq_of_mem_replicate hrow] at hx
    rw [List.eq_of_mem_replicate hx]
    exact ⟨0, hasValue_zero.hasAmount, le_rfl, by norm_num⟩
  obtain ⟨counts, hcounts, hsquare, hmass⟩ :=
    exists_foldlM_of_step hstep ⟨square_replicate k 0, hzeros⟩
  refine ⟨counts, hcounts, hsquare, ?_, fun row hrow => rowEstimated h (hmass row hrow)⟩
  rw [estimateTable_eq, map_eq_ok_iff]
  exact ⟨counts, hcounts, rfl⟩

end NoiseModel

end RuleVote
