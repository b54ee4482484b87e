import RuleVote.Proofs.Number.Probability
import RuleVote.Proofs.Voter.Probabilities
/-!
# Probabilities of the classes as numbers

Between estimates, fitting computes the probabilities of the classes of each item from
logarithms and exponentials. Of these two functions only what their documentation says
is used (`Elementary.Documented`), and fitting with them as parameters is fitting where
they are the ones the model runs with (`NoiseModel.fitWith_native`). Whatever of the
estimate is a probability or not a number, the logarithms of the classes are finite:
from some point on the logarithm of a further vote is too small to change them
(`IsLogarithm.add`). So each item gets probabilities
(`NoiseModel.exists_posteriorWith`).
-/

namespace RuleVote

/-- An exponential function and a logarithm. -/
structure Elementary where
  /-- The exponential function. -/
  exp : Float32 → Float32
  /-- The natural logarithm. -/
  log : Float32 → Float32

namespace Elementary

/-- The functions that fitting runs with. -/
def native : Elementary := ⟨Float32.exp, Float32.log⟩

/-- What is documented of both: the exponential of a number that is not positive is one
from zero to one, and that of a zero is one; the logarithm of a normal number up to one
is not positive and not below that of the smallest one, which is above `-128`. -/
structure Documented (E : Elementary) : Prop where
  exp_of_nonpos : ∀ x : Float32, x ≤ 0 → IsProbability (E.exp x)
  exp_zero : ∀ x : Float32, x ≤ 0 → 0 ≤ x → E.exp x = 1
  log_of_le_one : ∀ x : Float32, smallestNormal ≤ x → x ≤ 1 → -128 ≤ E.log x ∧ E.log x ≤ 0

/-- Functions that are exact at zero, and at one and one half, and coarse elsewhere. -/
def coarse : Elementary where
  exp x := if 0 ≤ x then 1 else 0
  log x := if 1 ≤ x then 0 else -Float32.ofBits 0x3F317218

theorem coarse_documented : coarse.Documented := by
  refine ⟨fun x _ => ?_, fun x _ h => if_pos h, fun x _ _ => ?_⟩
  · dsimp only [coarse]
    split
    · exact ⟨by decide +kernel, by decide +kernel⟩
    · exact ⟨by decide +kernel, by decide +kernel⟩
  · dsimp only [coarse]
    split
    · exact ⟨by decide +kernel, by decide +kernel⟩
    · exact ⟨by decide +kernel, by decide +kernel⟩

end Elementary

/-! ## Fitting with given functions -/

/-- Exponentials that sum to one. -/
def softmaxWith (E : Elementary) (xs : List Float32) : List Float32 :=
  let most := largest xs
  let es := xs.map fun x => E.exp (x - most)
  let total := sumSingle es
  es.map (· / total)

namespace NoiseModel

variable (E : Elementary)

/-- The logarithm of a probability, which is not let below the smallest normal number. -/
def logProbabilityWith (p : Float32) : Float32 := E.log (larger p smallestNormal)

/-- Adds to the logarithms for the classes of an item what one more vote on it says. -/
def addVoteWith (tables : List VoteProbabilities) (logs : List Float32) (vote : Int × Nat) :
    Fallible (List Float32) :=
  if vote.1 = abstain then .ok logs
  else logs.zipIdx.mapM fun (l, c) => do
    return l + logProbabilityWith E (← cellFor tables vote.2 c vote.1)

/-- The probabilities of the classes of an item, given its votes. -/
def posteriorWith (priors : List Float32) (tables : List VoteProbabilities) (row : List Int) :
    Fallible (List Float32) := do
  return softmaxWith E
    (← row.zipIdx.foldlM (addVoteWith E tables) (priors.map (logProbabilityWith E)))

/-- The probabilities of the classes of every item. -/
def posteriorsWith (m : NoiseModel) (rows : List (List Int)) : Fallible (List (List Float32)) :=
  rows.mapM (posteriorWith E m.priors m.tables)

/-- Epochs of fitting, `limit` of them at most. -/
def trainWith (rows : List (List Int)) : Nat → NoiseModel → Fallible NoiseModel
  | 0, m => .ok m
  | limit + 1, m => do
    let (next, change) ← m.maximize rows (← m.posteriorsWith E rows)
    let next := { next with epochs := m.epochs + 1 }
    if change < m.tolerance then return next else trainWith rows limit next

/-- Fits a model to votes. -/
def fitWith (m : NoiseModel) (votes : Matrix Int) (epochs seed : Nat) : Fallible NoiseModel := do
  liftFailure (m.checkShape votes)
  liftFailure (checkVotes votes m.classes)
  trainWith E (← votes.allRows) epochs (m.startFrom seed)

theorem trainWith_native (rows : List (List Int)) (limit : Nat) (m : NoiseModel) :
    trainWith .native rows limit m = train rows limit m := by
  induction limit generalizing m with
  | zero => rfl
  | succ limit ih =>
    simp only [trainWith, train, ih]
    rfl

/-- **Fitting is fitting with the functions it runs with.** -/
theorem fitWith_native : fitWith .native = fit := by
  funext m votes epochs seed
  simp only [fitWith, fit, trainWith_native]

end NoiseModel

/-! ## Logarithms -/

/-- The number is what sums of logarithms of probabilities may be. -/
def IsLogarithm (l : Float32) : Prop := ∃ q, HasAmount l q ∧ -2 ^ 33 ≤ q ∧ q ≤ 0

theorem hasAmount_least : HasAmount (-128) (-128) := by
  have hreads : Reads (128 : Float32).toModel.unpack
      (signed .positive ((8388608 : ℕ) * 2 ^ (-16 : ℤ))) :=
    .finite .positive (by decide) (by decide) (by decide) (by decide) (.inr (by decide))
  have hvalue : signed .positive ((8388608 : ℕ) * 2 ^ (-16 : ℤ)) = 128 := by norm_num [signed]
  have hamount : HasAmount 128 128 := hvalue ▸ hreads
  exact hamount.neg

/-- At `-2 ^ 33` what is worth less than half of the last place is lost. -/
theorem rounds_floor : Rounds (-(2 ^ 33 + 256)) (-2 ^ 33) := by
  have hlarge : HasAmount (ofCount (2 ^ 33)) (2 ^ 33 : ℕ) :=
    hasAmount_ofCount_of_representable (by norm_num)
      (by exact_mod_cast representable_zpow (e := 33) (by decide) (by decide))
  have hsmall := hasAmount_ofCount_of_le (n := 256) (by norm_num)
  have hsum : ofCount (2 ^ 33) + ofCount 256 = ofCount (2 ^ 33) := by decide +kernel
  have hrounds := rounds_of_add hlarge hsmall hlarge (by norm_num) (by norm_num) hsum
  push_cast at hrounds
  exact_mod_cast hrounds.neg

/-- **A further logarithm leaves the sum finite.** -/
theorem IsLogarithm.add {l v : Float32} (hl : IsLogarithm l) (hv : -128 ≤ v) (hv' : v ≤ 0) :
    IsLogarithm (l + v) := by
  obtain ⟨p, hp, hlow, hhigh⟩ := hl
  obtain ⟨q, hq⟩ := exists_hasAmount (single_le_iff_standing.1 hv).2.1
  have hq₁ : -128 ≤ q := (hasAmount_least.le_iff hq).1 hv
  have hq₀ : q ≤ 0 := (hq.le_iff hasValue_zero.hasAmount).1 hv'
  obtain ⟨r, hr, hsum⟩ := hp.add hq (by rw [abs_of_nonpos hhigh]; linarith)
    (by rw [abs_of_nonpos hq₀]; linarith)
  exact ⟨r, hsum, rounds_floor.mono hr (by linarith), hr.le representable_zero (by linarith)⟩

/-! ## Softmax -/

variable {E : Elementary}

/-- The largest of some logarithms is one of them. -/
theorem largest_mem {xs : List Float32} (hxs : xs ≠ []) (h : ∀ x ∈ xs, IsLogarithm x) :
    largest xs ∈ xs := by
  have hlargest := isLargest_largest xs
  rcases List.mem_cons.1 hlargest.mem with hnone | hmem
  · -- negative infinity is below the first
    obtain ⟨x, hx⟩ := List.exists_mem_of_ne_nil xs hxs
    obtain ⟨q, hq, hlow, -⟩ := h x hx
    have hinfinity : HasAmount negativeInfinity (signed .negative (2 ^ 128)) :=
      Reads.infinity .negative
    have hnot := hlargest.not_lt x (List.mem_cons_of_mem _ hx)
    rw [hnone, hinfinity.lt_iff hq, signed] at hnot
    exact absurd (by linarith) hnot
  · exact hmem

/-- **The softmax of logarithms consists of probabilities.** The largest of them has the
exponential one, so the sum is not zero. -/
theorem isProbability_softmaxWith (hE : E.Documented) {xs : List Float32} (hxs : xs ≠ [])
    (h : ∀ x ∈ xs, IsLogarithm x) : ∀ p ∈ softmaxWith E xs, IsProbability p := by
  have hmost := largest_mem hxs h
  obtain ⟨most, hamount, hmost₁, hmost₀⟩ := h _ hmost
  -- Nothing is above the largest logarithm, so every exponent is zero or less.
  have hdifference : ∀ x ∈ xs, ∃ q, HasAmount (x - largest xs) q ∧ q ≤ 0 ∧
      (x = largest xs → q = 0) := by
    intro x hx
    obtain ⟨q, hq, hlow, hhigh⟩ := h x hx
    have hle : q ≤ most := by
      have hnot := (isLargest_largest xs).not_lt x (List.mem_cons_of_mem _ hx)
      rw [hamount.lt_iff hq] at hnot
      exact not_lt.1 hnot
    obtain ⟨r, hr, hsub⟩ := hq.sub hamount (by rw [abs_of_nonpos hhigh]; linarith)
      (by rw [abs_of_nonpos hmost₀]; linarith)
    refine ⟨r, hsub, hr.le representable_zero (by linarith), ?_⟩
    rintro rfl
    rw [hq.amount_unique hamount, sub_self] at hr
    exact hr.eq representable_zero
  have hexponentials : ∀ e ∈ xs.map fun x => E.exp (x - largest xs), IsProbability e := by
    intro e he
    obtain ⟨x, hx, rfl⟩ := List.mem_map.1 he
    obtain ⟨q, hq, hle, -⟩ := hdifference x hx
    exact hE.exp_of_nonpos _ ((hq.le_iff hasValue_zero.hasAmount).2 hle)
  -- The largest logarithm is one of the row, and its exponential is one.
  have hone : 1 ∈ xs.map fun x => E.exp (x - largest xs) := by
    obtain ⟨q, hq, -, hzero⟩ := hdifference _ hmost
    rw [hzero rfl] at hq
    exact List.mem_map.2 ⟨_, hmost, hE.exp_zero _ ((hq.le_iff hasValue_zero.hasAmount).2 le_rfl)
      ((hasValue_zero.hasAmount.le_iff hq).2 le_rfl)⟩
  obtain ⟨total, htotal, -, hle⟩ := exists_sum fun e he => by
    obtain ⟨q, hq, hq₀, -⟩ := isProbability_iff.1 (hexponentials e he)
    exact ⟨q, hq, hq₀⟩
  have hpos : 0 < total := zero_lt_one.trans_le (hle 1 hone 1 hasValue_one.hasAmount)
  intro p hp
  obtain ⟨e, he, rfl⟩ := List.mem_map.1 hp
  obtain ⟨q, hq, hq₀, hq₁⟩ := isProbability_iff.1 (hexponentials e he)
  exact isProbability_div hq htotal hq₀ (hle e he q hq) hpos (hq₁.trans_lt (by norm_num))

theorem length_softmaxWith (xs : List Float32) : (softmaxWith E xs).length = xs.length := by
  rw [softmaxWith, List.length_map, List.length_map]

/-! ## The probabilities of the classes -/

/-- The estimate is a probability, or it is not a number. -/
def IsEstimate (p : Float32) : Prop := p.isNaN = true ∨ IsProbability p

namespace NoiseModel

variable {m : NoiseModel}

/-- All parameters are probabilities or not numbers. -/
structure Estimated (m : NoiseModel) : Prop where
  priors : ∀ p ∈ m.priors, IsEstimate p
  tables : ∀ table ∈ m.tables, ∀ row ∈ table, ∀ p ∈ row, IsEstimate p

theorem logProbabilityWith_bounds (hE : E.Documented) {p : Float32} (hp : IsEstimate p) :
    -128 ≤ logProbabilityWith E p ∧ logProbabilityWith E p ≤ 0 := by
  have hsmallest : smallestNormal ≤ smallestNormal ∧ smallestNormal ≤ 1 := by decide +kernel
  rw [logProbabilityWith, larger]
  rcases hp with hnan | hp
  · rw [if_pos hnan]
    exact hE.log_of_le_one _ hsmallest.1 hsmallest.2
  · rw [hp.not_isNaN, if_neg Bool.false_ne_true]
    by_cases hlt : p < smallestNormal
    · rw [if_pos hlt]
      exact hE.log_of_le_one _ hsmallest.1 hsmallest.2
    · rw [if_neg hlt]
      obtain ⟨q, hq⟩ := exists_hasAmount hp.not_isNaN
      obtain ⟨q', hq'⟩ := exists_hasAmount (single_le_iff_standing.1 hsmallest.1).1
      rw [hq.lt_iff hq', not_lt] at hlt
      exact hE.log_of_le_one _ ((hq'.le_iff hq).2 hlt) hp.2

theorem mem_of_entryAt {xs : List Float32} {v : Int} {x : Float32} (h : entryAt xs v = .ok x) :
    x ∈ xs := by
  rw [entryAt] at h
  split at h
  · exact List.mem_of_getElem? (orBreak_eq_ok_iff.1 h)
  · cases h

/-- What says something about a vote is one of the parameters. -/
theorem Estimated.cellFor (hm : m.Estimated) {j c : Nat} {v : Int} {p : Float32}
    (h : cellFor m.tables j c v = .ok p) : IsEstimate p := by
  obtain ⟨table, htable, h⟩ := bind_eq_ok_iff.1 h
  obtain ⟨row, hrow, hp⟩ := bind_eq_ok_iff.1 h
  exact hm.tables table (List.mem_of_getElem? (orBreak_eq_ok_iff.1 htable)) row
    (List.mem_of_getElem? (orBreak_eq_ok_iff.1 hrow)) p (mem_of_entryAt hp)

/-- A vote leaves a logarithm for each class. -/
theorem exists_addVoteWith (hE : E.Documented) (hm : m.Sized) (hparams : m.Estimated)
    {logs : List Float32} (hlogs : logs.length = m.classes ∧ ∀ l ∈ logs, IsLogarithm l)
    {vote : Int × Nat} (hj : vote.2 < m.functions)
    (hv : vote.1 = abstain ∨ 0 ≤ vote.1 ∧ vote.1 < m.classes) :
    ∃ logs', addVoteWith E m.tables logs vote = .ok logs' ∧
      logs'.length = m.classes ∧ ∀ l ∈ logs', IsLogarithm l := by
  rw [addVoteWith]
  by_cases habstain : vote.1 = abstain
  · rw [if_pos habstain]
    exact ⟨logs, rfl, hlogs⟩
  · rw [if_neg habstain]
    obtain ⟨hnonneg, hlt⟩ := hv.resolve_left habstain
    obtain ⟨logs', hlogs', hlength, hall⟩ :=
      exists_addTerms hm (logProbabilityWith E) hlogs.1 hj hnonneg hlt
    refine ⟨logs', hlogs', hlength, fun l' hl' => ?_⟩
    obtain ⟨l, hl, c, p, hp, rfl⟩ := hall l' hl'
    obtain ⟨hlow, hhigh⟩ := logProbabilityWith_bounds hE (hparams.cellFor hp)
    exact (hlogs.2 l hl).add hlow hhigh

/-- **An item with valid votes has probabilities of its classes.** -/
theorem exists_posteriorWith (hE : E.Documented) (hm : m.Sized) (hparams : m.Estimated)
    (hclasses : 0 < m.classes) {row : List Int} (hrow : ValidRow m.classes m.functions row) :
    ∃ q, posteriorWith E m.priors m.tables row = .ok q ∧
      q.length = m.classes ∧ ∀ p ∈ q, IsProbability p := by
  have hpriors : (m.priors.map (logProbabilityWith E)).length = m.classes ∧
      ∀ l ∈ m.priors.map (logProbabilityWith E), IsLogarithm l := by
    refine ⟨(List.length_map _).trans hm.length_priors, fun l hl => ?_⟩
    obtain ⟨p, hp, rfl⟩ := List.mem_map.1 hl
    obtain ⟨hlow, hhigh⟩ := logProbabilityWith_bounds hE (hparams.priors p hp)
    obtain ⟨q, hq⟩ := exists_hasAmount (single_le_iff_standing.1 hlow).2.1
    have hlow := (hasAmount_least.le_iff hq).1 hlow
    exact ⟨q, hq, by linarith, (hq.le_iff hasValue_zero.hasAmount).1 hhigh⟩
  obtain ⟨logs, hlogs, hlength, hall⟩ := hrow.exists_foldlM
    (fun logs hlogs vote hj hv => exists_addVoteWith hE hm hparams hlogs hj hv) hpriors
  have hne : logs ≠ [] := by
    rintro rfl
    exact hclasses.ne hlength
  exact ⟨_, bind_eq_ok_iff.2 ⟨logs, hlogs, rfl⟩, (length_softmaxWith logs).trans hlength,
    isProbability_softmaxWith hE hne hall⟩

theorem exists_posteriorsWith (hE : E.Documented) (hm : m.Sized) (hparams : m.Estimated)
    (hclasses : 0 < m.classes) {rows : List (List Int)}
    (hrows : ∀ row ∈ rows, ValidRow m.classes m.functions row) :
    ∃ qs, m.posteriorsWith E rows = .ok qs ∧ qs.length = rows.length ∧
      ∀ q ∈ qs, q.length = m.classes ∧ ∀ p ∈ q, IsProbability p :=
  exists_mapM_forall fun row hrow => exists_posteriorWith hE hm hparams hclasses (hrows row hrow)

end NoiseModel

end RuleVote
