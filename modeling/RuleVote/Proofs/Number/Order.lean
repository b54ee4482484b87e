import RuleVote.Matrix
import RuleVote.Number.Single
import RuleVote.Proofs.Number.Sign
/-!
# The order of numbers

Comparison takes the two zeros for the same number, and what is no number for
equal to nothing. That is all in which it differs from equality of bits: where
the negative zero is left out, numbers that compare as equal are equal
(`single_eq_of_beq`), and so are lists and matrices of them.

Comparison puts every number in a place of a linear order (`standing`), in
which the two zeros share one, and leaves out what is no number
(`single_lt_iff`, `single_beq_iff`). So numbers of which none is below the other
compare as equal (`beq_of_not_lt`), those compare alike with others
(`lt_congr_of_beq`), and the largest of a list is one that no other is above,
whatever in the list is no number (`isLargest_largest`).
-/

namespace RuleVote

open Float.Model (Format UnpackedFloat)
open Float.Model.UnpackedFloat

/-! ## Equality -/

/-- **Only the zeros compare as equal without being equal.** -/
theorem eq_or_zero_of_compare {a b : UnpackedFloat} (h : a.compare b = some .eq) :
    a = b ∨ ∃ s t, a = .zero s ∧ b = .zero t := by
  cases a with
  | notANumber => cases h
  | zero s =>
    cases b with
    | zero t => exact .inr ⟨s, t, rfl, rfl⟩
    | notANumber => cases h
    | infinity t | finite t => cases t <;> cases h
  | infinity s =>
    cases b with
    | infinity t =>
      cases s <;> cases t
      case negative.negative | positive.positive => exact .inl rfl
      all_goals cases h
    | notANumber => cases h
    | zero t | finite t => cases s <;> cases h
  | finite s m e =>
    cases b with
    | finite t n f =>
      cases s <;> cases t
      case negative.positive | positive.negative => cases h
      case negative.negative =>
        have horder := Ordering.swap_eq_eq.1 (Option.some.inj h)
        obtain ⟨he, hm⟩ := Ordering.then_eq_eq.1 horder
        obtain rfl := Std.compare_eq_iff_eq.1 he
        obtain rfl := Std.compare_eq_iff_eq.1 hm
        exact .inl rfl
      case positive.positive =>
        obtain ⟨he, hm⟩ := Ordering.then_eq_eq.1 (Option.some.inj h)
        obtain rfl := Std.compare_eq_iff_eq.1 he
        obtain rfl := Std.compare_eq_iff_eq.1 hm
        exact .inl rfl
    | notANumber => cases h
    | zero t => cases s <;> cases h
    | infinity t => cases t <;> cases h

/-- A number is what it was before it was taken apart. -/
theorem single_eq_of_unpack {x y : Float32} (h : x.toModel.unpack = y.toModel.unpack) : x = y := by
  have hpack : ∀ z : Float32, pack Format.binary32 z.toModel.unpack = z.toBits.toBitVec := by
    intro z
    have hvalid := z.toModel.valid.eq_packedNaN
    rw [Float32.Model.unpack, pack_unpack, isNaNBits]
    split
    · next hnan =>
      obtain ⟨hexponent, hmantissa⟩ := of_decide_eq_true hnan
      exact (hvalid hexponent hmantissa).symm
    · rfl
  have hbits : x.toBits.toBitVec = y.toBits.toBitVec := by rw [← hpack x, ← hpack y, h]
  exact Float32.toBits_inj.1 (UInt32.toBitVec_inj.1 hbits)

theorem unpack_negativeZero : negativeZero.toModel.unpack = .zero .negative := rfl

/-- **Numbers that compare as equal are equal**, unless one of them is the
negative zero. -/
theorem single_eq_of_beq {x y : Float32} (h : (x == y) = true) (hx : x ≠ negativeZero)
    (hy : y ≠ negativeZero) : x = y := by
  have hsign : ∀ {z : Float32} {s : Sign}, z ≠ negativeZero → z.toModel.unpack = .zero s →
      s = .positive := by
    intro z s hz hunpack
    cases s with
    | positive => rfl
    | negative =>
      exact absurd (single_eq_of_unpack (hunpack.trans unpack_negativeZero.symm)) hz
  have hcompare : x.toModel.unpack.compare y.toModel.unpack = some .eq := eq_of_beq h
  rcases eq_or_zero_of_compare hcompare with heq | ⟨s, t, hs, ht⟩
  · exact single_eq_of_unpack heq
  · obtain rfl := hsign hx hs
    obtain rfl := hsign hy ht
    exact single_eq_of_unpack (hs.trans ht.symm)

theorem singles_eq_of_beq {xs ys : List Float32} (h : (xs == ys) = true)
    (hx : negativeZero ∉ xs) (hy : negativeZero ∉ ys) : xs = ys := by
  induction xs generalizing ys with
  | nil =>
    cases ys with
    | nil => rfl
    | cons => cases h
  | cons x xs ih =>
    cases ys with
    | nil => cases h
    | cons y ys =>
      rw [List.mem_cons, not_or] at hx hy
      obtain ⟨hhead, htail⟩ := (Bool.and_eq_true _ _).mp h
      rw [single_eq_of_beq hhead (Ne.symm hx.1) (Ne.symm hy.1), ih htail hx.2 hy.2]

namespace Matrix

/-- Matrices that agree are equal where their entries are. -/
theorem eq_of_agrees {α : Type} [BEq α] {a b : Matrix α} (h : a.agrees b = true)
    (hdata : (a.data.toList == b.data.toList) = true → a.data.toList = b.data.toList) :
    a = b := by
  simp only [agrees, Bool.and_eq_true, beq_iff_eq] at h
  obtain ⟨⟨hrows, hcols⟩, heq⟩ := h
  rw [← Array.beq_toList] at heq
  have hentries := Array.toList_inj.1 (hdata heq)
  cases a
  cases b
  cases hrows
  cases hcols
  cases hentries
  rfl

end Matrix

/-! ## Places -/

/-- The place of a number that was taken apart: its kind decides first, then its
exponent, then its significand. -/
def standingOf : UnpackedFloat → ℤ ×ₗ ℤ ×ₗ ℤ
  | .infinity .negative => toLex (-2, toLex (0, 0))
  | .finite .negative m e _ => toLex (-1, toLex (-e, -m))
  | .zero _ | .notANumber => toLex (0, toLex (0, 0))
  | .finite .positive m e _ => toLex (1, toLex (e, m))
  | .infinity .positive => toLex (2, toLex (0, 0))

theorem compare_eq_lt_iff {a b : UnpackedFloat} : a.compare b = some .lt ↔
    a.isNaN = false ∧ b.isNaN = false ∧ standingOf a < standingOf b := by
  -- kinds are told apart by the first component; within a kind the sign turns the order over
  rcases a with (_ | _) | _ | _ | ⟨_ | _, m, e, hm⟩ <;>
    rcases b with (_ | _) | _ | _ | ⟨_ | _, n, f, hn⟩ <;>
    simp [UnpackedFloat.compare, UnpackedFloat.isNaN, standingOf, Prod.Lex.toLex_lt_toLex,
      Ordering.then_eq_lt, Ordering.then_eq_gt, compare_lt_iff_lt, compare_gt_iff_gt]
  rfl

theorem compare_eq_eq_iff {a b : UnpackedFloat} : a.compare b = some .eq ↔
    a.isNaN = false ∧ b.isNaN = false ∧ standingOf a = standingOf b := by
  rcases a with (_ | _) | _ | _ | ⟨_ | _, m, e, hm⟩ <;>
    rcases b with (_ | _) | _ | _ | ⟨_ | _, n, f, hn⟩ <;>
    simp [UnpackedFloat.compare, UnpackedFloat.isNaN, standingOf, Ordering.then_eq_eq]
  all_goals rfl

variable {x y z a b : Float32}

/-- The place of a number among all others. -/
def standing (x : Float32) : ℤ ×ₗ ℤ ×ₗ ℤ := standingOf x.toModel.unpack

/-- **A number is below another one that stands behind it**; what is no number
is neither below nor above. -/
theorem single_lt_iff :
    x < y ↔ x.isNaN = false ∧ y.isNaN = false ∧ standing x < standing y := by
  have hlt : x < y ↔ (x.toModel.unpack.compare y.toModel.unpack == some Ordering.lt) = true :=
    decide_eq_true_iff
  rw [hlt, beq_iff_eq]
  exact compare_eq_lt_iff

theorem single_beq_iff :
    (x == y) = true ↔ x.isNaN = false ∧ y.isNaN = false ∧ standing x = standing y := by
  have heq : (x == y) = true ↔
      (x.toModel.unpack.compare y.toModel.unpack == some Ordering.eq) = true := Iff.rfl
  rw [heq, beq_iff_eq]
  exact compare_eq_eq_iff

theorem single_le_iff_standing :
    x ≤ y ↔ x.isNaN = false ∧ y.isNaN = false ∧ standing x ≤ standing y := by
  have hle : x ≤ y ↔ x < y ∨ (x == y) = true := by
    have hany : x ≤ y ↔
        ((x.toModel.unpack.compare y.toModel.unpack).any Ordering.isLE) = true := decide_eq_true_iff
    have hlt : x < y ↔ (x.toModel.unpack.compare y.toModel.unpack == some Ordering.lt) = true :=
      decide_eq_true_iff
    have heq : (x == y) = true ↔
        (x.toModel.unpack.compare y.toModel.unpack == some Ordering.eq) = true := Iff.rfl
    rw [hany, hlt, heq]
    cases x.toModel.unpack.compare y.toModel.unpack with
    | none => simp
    | some o => cases o <;> simp
  rw [hle, single_lt_iff, single_beq_iff, le_iff_lt_or_eq]
  simp only [and_or_left]

/-! ## The order -/

theorem single_lt_irrefl (x : Float32) : ¬x < x := by
  rw [single_lt_iff]
  rintro ⟨-, -, h⟩
  exact lt_irrefl _ h

/-- Not being below a number that is not below another one. -/
theorem not_lt_trans (hy : y.isNaN = false) (hxy : ¬x < y) (hyz : ¬y < z) : ¬x < z := by
  rw [single_lt_iff] at hxy hyz ⊢
  rintro ⟨hx, hz, hxz⟩
  have hle : standing y ≤ standing x := not_lt.1 fun h => hxy ⟨hx, hy, h⟩
  exact hyz ⟨hy, hz, hle.trans_lt hxz⟩

/-- **Numbers of which none is below the other compare as equal.** -/
theorem beq_of_not_lt (hx : x.isNaN = false) (hy : y.isNaN = false) (hxy : ¬x < y)
    (hyx : ¬y < x) : (x == y) = true := by
  rw [single_lt_iff] at hxy hyx
  refine single_beq_iff.2 ⟨hx, hy, le_antisymm ?_ ?_⟩
  · exact not_lt.1 fun h => hyx ⟨hy, hx, h⟩
  · exact not_lt.1 fun h => hxy ⟨hx, hy, h⟩

/-- **Numbers that compare as equal compare alike with others.** -/
theorem lt_congr_of_beq (hab : (a == b) = true) (hxy : (x == y) = true) : a < x ↔ b < y := by
  obtain ⟨ha, hb, hab⟩ := single_beq_iff.1 hab
  obtain ⟨hx, hy, hxy⟩ := single_beq_iff.1 hxy
  rw [single_lt_iff, single_lt_iff, ha, hb, hx, hy, hab, hxy]

/-! ## The largest of a list -/

/-- A number is the largest of a list: it is one of the list, and none of the
list is above it. What is no number does not count. -/
structure IsLargest (xs : List Float32) (most : Float32) : Prop where
  mem : most ∈ xs
  isNumber : most.isNaN = false
  not_lt : ∀ x ∈ xs, ¬most < x

/-- Two numbers that are the largest of a list compare as equal. -/
theorem IsLargest.beq {xs : List Float32} (hx : IsLargest xs x) (hy : IsLargest xs y) :
    (x == y) = true :=
  beq_of_not_lt hx.isNumber hy.isNumber (hx.not_lt y hy.mem) (hy.not_lt x hx.mem)

theorem standingOf_negativeInfinity_le (u : UnpackedFloat) :
    standingOf (.infinity .negative) ≤ standingOf u := by
  rcases u with (_ | _) | _ | _ | ⟨_ | _, m, e, hm⟩ <;>
    simp [standingOf, Prod.Lex.toLex_le_toLex]

/-- No number is below negative infinity. -/
theorem not_lt_negativeInfinity (x : Float32) : ¬x < negativeInfinity := by
  rw [single_lt_iff]
  rintro ⟨-, -, h⟩
  exact not_lt.2 (standingOf_negativeInfinity_le _) h

/-- The larger of a number and another value is no lower than either. -/
theorem isLargest_larger (hx : x.isNaN = false) : IsLargest [x, y] (larger x y) := by
  rw [larger, if_neg (by rw [hx]; exact Bool.false_ne_true)]
  by_cases hlt : x < y
  · rw [if_pos hlt]
    have hlt' := single_lt_iff.1 hlt
    have hnot : ¬y < x := fun h => lt_asymm hlt'.2.2 (single_lt_iff.1 h).2.2
    exact ⟨by simp, hlt'.2.1, by simp [hnot, single_lt_irrefl]⟩
  · rw [if_neg hlt]
    exact ⟨by simp, hx, by simp [hlt, single_lt_irrefl]⟩

/-- **What is found is the largest**; by induction on the list, where the
largest so far stands for what it was compared with. -/
theorem isLargest_foldl (xs : List Float32) (hx : x.isNaN = false) :
    IsLargest (x :: xs) (xs.foldl larger x) := by
  induction xs generalizing x with
  | nil => exact ⟨List.mem_singleton_self x, hx, by simp [single_lt_irrefl]⟩
  | cons y xs ih =>
    have hlarger := isLargest_larger (y := y) hx
    have hrest := ih hlarger.isNumber
    have hle : ∀ z ∈ [x, y], ¬xs.foldl larger (larger x y) < z := by
      intro z hz
      exact not_lt_trans hlarger.isNumber (hrest.not_lt _ List.mem_cons_self) (hlarger.not_lt z hz)
    rw [List.foldl_cons]
    refine ⟨?_, hrest.isNumber, ?_⟩
    · rcases List.mem_cons.1 hrest.mem with heq | hmem
      · rw [heq]
        exact List.mem_append_left xs hlarger.mem
      · exact List.mem_append_right [x, y] hmem
    · intro z hz
      rcases List.mem_append.1 (show z ∈ [x, y] ++ xs from hz) with hz | hz
      · exact hle z hz
      · exact hrest.not_lt z (List.mem_cons_of_mem _ hz)

/-- **The largest number of a list**, negative infinity counted in. -/
theorem isLargest_largest (xs : List Float32) :
    IsLargest (negativeInfinity :: xs) (largest xs) := isLargest_foldl xs (by decide)

end RuleVote
