import Mathlib
import RuleVote.Proofs.Number.Shortest
/-!
# Single precision numbers as bits

A single precision number is its bit pattern, and for a finite one the
arithmetic on patterns in `Number/Binary` agrees with the operations of the
number itself: the bits of `singleOfBits n` are `n`, and a minus sign only
turns the sign bit over (`neg_singleOfBits`). So a number whose magnitude
has been printed and read back gets its own bits again, the sign of zero
included (`toSingle_shortestSingle`).

That packing undoes unpacking (`pack_unpack`) is a lemma that comes with the whole
of Mathlib only.
-/

namespace RuleVote

open Float.Model (Format UnpackedFloat)
open Float.Model.UnpackedFloat

/-! ## Packing what was unpacked -/

/-- The three parts of a pattern, put side by side. -/
theorem toNat_packComponents (s : Sign) (e : BitVec 8) (m : BitVec 23) :
    (packComponents Format.binary32 s e m).toNat =
      s.toBitVec.toNat * 2 ^ 31 + e.toNat * 2 ^ 23 + m.toNat := by
  have he := e.isLt
  have hm := m.isLt
  rw [packComponents, BitVec.toNat_append, BitVec.toNat_append,
    ← Nat.shiftLeft_add_eq_or_of_lt hm, ← Nat.shiftLeft_add_eq_or_of_lt he]
  simp only [Nat.shiftLeft_eq]
  omega

theorem toNat_unpackExponent (b : BitVec Format.binary32.numBits) :
    (unpackExponent b).toNat = b.toNat % 2 ^ 31 / 2 ^ 23 := by
  simp only [unpackExponent, BitVec.toNat_cast, BitVec.extractLsb_toNat, Nat.shiftRight_eq_div_pow]
  omega

theorem toNat_unpackMantissa (b : BitVec Format.binary32.numBits) :
    (unpackMantissa b).toNat = b.toNat % 2 ^ 23 := by
  simp [unpackMantissa]

theorem toNat_unpackSign (b : BitVec Format.binary32.numBits) :
    (unpackSign b).toNat = b.toNat / 2 ^ 31 := by
  have hb : b.toNat < 2 ^ 32 := b.isLt
  simp only [unpackSign, BitVec.toNat_cast, BitVec.extractLsb_toNat, Nat.shiftRight_eq_div_pow]
  omega

/-- **What is unpacked is packed to the same bits**, unless its exponent is that of no number. -/
theorem pack_unpack_of_ne {format : Format} (hwide : 2 ≤ format.exponentBits)
    {b : BitVec format.numBits} (h : unpackExponent b ≠ -1#_) :
    pack format (unpack format b) = b := by
  rw [pack_unpack b hwide, isNaNBits, decide_eq_false fun hnan => h hnan.1]
  rfl

/-- A minus sign in front of what a pattern stands for is one in the pattern. -/
theorem neg_unpack (b : BitVec Format.binary32.numBits) :
    (unpack Format.binary32 b).neg = unpack Format.binary32 (packComponents Format.binary32
      (-Sign.ofBitVec (unpackSign b)) (unpackExponent b) (unpackMantissa b)) := by
  simp only [unpack, unpackExponent_packComponents, unpackMantissa_packComponents,
    unpackSign_packComponents, Sign.ofBitVec_toBitVec]
  split
  · split <;> rfl
  split
  · split <;> rfl
  · rfl

/-! ## The bits of a number -/

section Bits

open BinaryFormat

variable {x y : Float32} {bits : Nat}

theorem signWeight_single : single.signWeight = 2 ^ 31 := rfl

theorem infinityBits_single : single.infinityBits = 255 * 2 ^ 23 := rfl

theorem infinityBits_lt_signWeight : single.infinityBits < single.signWeight := by decide

/-- A pattern below infinity has a digit of its exponent missing. -/
theorem exponent_ne_of_lt (h : bits % single.signWeight < single.infinityBits) :
    bits % 2 ^ 31 / 2 ^ 23 ≠ 255 := by
  rw [signWeight_single, infinityBits_single] at h
  omega

/-- Bits below those of infinity have another exponent. -/
theorem unpackExponent_ne {b : BitVec Format.binary32.numBits}
    (h : b.toNat % single.signWeight < single.infinityBits) : unpackExponent b ≠ -1#_ := by
  intro heq
  have hexp := exponent_ne_of_lt h
  rw [← toNat_unpackExponent, heq] at hexp
  exact hexp rfl

/-- Bits of a finite number are kept. -/
theorem toBits_ofBits {b : UInt32} (h : b.toNat % single.signWeight < single.infinityBits) :
    (Float32.ofBits b).toBits = b := by
  show UInt32.ofBitVec (pack Format.binary32 (unpack Format.binary32 b.toBitVec)) = b
  rw [pack_unpack_of_ne (by decide) (unpackExponent_ne h)]

/-- A minus sign turns the sign bit over. -/
theorem toNat_toBits_neg (h : x.toBits.toNat % single.signWeight < single.infinityBits) :
    (-x).toBits.toNat = (x.toBits.toNat + single.signWeight) % (2 * single.signWeight) := by
  have hb := x.toBits.toBitVec.isLt
  have hneg : ∀ b : BitVec 1, (-Sign.ofBitVec b).toBitVec.toNat = 1 - b.toNat := by decide
  have hbits : (-x).toBits.toNat =
      (pack Format.binary32 (unpack Format.binary32 x.toBits.toBitVec).neg).toNat := rfl
  -- the pattern with its sign turned over is packed as it stands
  rw [hbits, neg_unpack, pack_unpack_of_ne (by decide), toNat_packComponents, hneg,
    toNat_unpackSign, toNat_unpackExponent, toNat_unpackMantissa, signWeight_single, ← UInt32.toNat_toBitVec]
  · omega
  · rw [unpackExponent_packComponents]
    exact unpackExponent_ne h

/-- Bits of a finite number are kept, with the bit of the sign. -/
theorem toNat_toBits_singleOfBits (hbits : bits < 2 * single.signWeight)
    (h : bits % single.signWeight < single.infinityBits) :
    (singleOfBits bits).toBits.toNat = bits := by
  have hnat : (UInt32.ofNat bits).toNat = bits := by
    rw [UInt32.toNat_ofNat']
    exact Nat.mod_eq_of_lt hbits
  rw [singleOfBits, toBits_ofBits (hnat.symm ▸ h), hnat]

/-- The sign in front of the magnitude makes the number that a minus sign
makes of the magnitude. -/
theorem neg_singleOfBits (h : bits < single.infinityBits) :
    -singleOfBits (single.withSign false bits) = singleOfBits (single.withSign true bits) := by
  have hsmall : bits < single.signWeight := h.trans infinityBits_lt_signWeight
  have hmod := Nat.mod_eq_of_lt hsmall
  have hplain : (singleOfBits bits).toBits.toNat = bits :=
    toNat_toBits_singleOfBits (by omega) (by rwa [hmod])
  have hneg : (singleOfBits (single.signWeight + bits)).toBits.toNat = single.signWeight + bits :=
    toNat_toBits_singleOfBits (by omega) (by rwa [Nat.add_mod_left, hmod])
  apply Float32.toBits_inj.1
  rw [← UInt32.toNat_inj]
  simp only [withSign, Bool.false_eq_true, if_false, if_true]
  rw [toNat_toBits_neg (by rwa [hplain, hmod]), hplain, hneg, Nat.add_comm,
    Nat.mod_eq_of_lt (by omega)]

/-! ## Finite numbers -/

/-- The number is neither infinite nor no number at all. -/
def IsFinite (x : Float32) : Prop :=
  ∃ negative significand exponent, singleValue x = .finite negative significand exponent

/-- A number is finite just when its magnitude is below infinity. -/
theorem isFinite_iff : IsFinite x ↔ x.toBits.toNat % single.signWeight < single.infinityBits := by
  constructor
  · rintro ⟨_, _, _, h⟩
    exact (decode_eq_finite h).2.2
  · intro h
    have hexp : x.toBits.toNat % single.signWeight / Nat.pow 2 single.fractionBits ≠
        Nat.pow 2 single.exponentBits - 1 := exponent_ne_of_lt h
    rw [IsFinite, singleValue, decode, if_neg hexp]
    split
    · exact ⟨_, _, _, rfl⟩
    · exact ⟨_, _, _, rfl⟩

instance (x : Float32) : Decidable (IsFinite x) := decidable_of_iff' _ isFinite_iff

/-- The negative of a finite number is finite. -/
theorem IsFinite.neg (h : IsFinite x) : IsFinite (-x) := by
  rw [isFinite_iff] at h ⊢
  rw [toNat_toBits_neg h, Nat.mod_mul_left_mod, Nat.add_mod_right]
  exact h

theorem isFinite_singleOfBits (h : bits < single.infinityBits) : IsFinite (singleOfBits bits) := by
  have hsmall : bits < single.signWeight := h.trans infinityBits_lt_signWeight
  have hmod := Nat.mod_eq_of_lt hsmall
  rw [isFinite_iff, toNat_toBits_singleOfBits (by omega) (by rwa [hmod]), hmod]
  exact h

/-- A decimal that is rounded below infinity is finite. -/
theorem isFinite_toSingle {d : Decimal} (h : d.roundTo .single < single.infinityBits) :
    IsFinite (d.toSingle false) := by
  rw [Decimal.toSingle, withSign, if_neg (by decide)]
  exact isFinite_singleOfBits h

/-- **The shortest decimal of a number is read as this number**, bit for bit,
when it is given the sign of the number. -/
theorem toSingle_shortestSingle (tie : Tie) {negative : Bool} {significand : Nat} {exponent : Int}
    (h : singleValue x = .finite negative significand exponent) :
    (shortestSingle tie x).roundTo .single < single.infinityBits ∧
      (shortestSingle tie x).toSingle negative = x := by
  have hlt : x.toBits.toNat < 2 * single.signWeight := x.toBits.toNat_lt
  have hmagnitude := isFinite_iff.1 ⟨_, _, _, h⟩
  have hsign : single.withSign negative (x.toBits.toNat % single.signWeight) = x.toBits.toNat := by
    rw [withSign, sign_of_decode h]
    by_cases hle : single.signWeight ≤ x.toBits.toNat
    · rw [if_pos (decide_eq_true hle), Nat.mod_eq_sub_mod hle, Nat.mod_eq_of_lt (by omega)]
      omega
    · rw [if_neg (by rwa [decide_eq_true_eq]), Nat.mod_eq_of_lt (by omega)]
  have hround := Decimal.roundTo_shortest withinReach_single tie h
  rw [Decimal.toSingle, shortestSingle, h]
  dsimp only
  rw [hround]
  refine ⟨hmagnitude, Float32.toBits_inj.1 ?_⟩
  rw [← UInt32.toNat_inj, hsign, toNat_toBits_singleOfBits hlt hmagnitude]

end Bits

end RuleVote
