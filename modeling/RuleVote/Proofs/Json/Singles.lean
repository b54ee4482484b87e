import RuleVote.Proofs.Json.Reading
import RuleVote.Proofs.Number.Sign
import RuleVote.Proofs.Number.Survival
/-!
# Numbers read back from JSON text

A finite double precision number is its bits, as a single precision one is, so making
it narrow rounds the quotient that its bits stand for (`narrow_doubleOfBits`). For a
decimal that survives being read step by step this is the single precision number
nearest to it (`Decimal.Survives.narrow`).

The text of a finite number spells its shortest decimal, either as it is or as a whole
number with a zero behind the point. Both survive being read step by step, so every
finite single precision number reads back from its text, bit for bit
(`Json.readsBack`).
-/

namespace RuleVote

open Float.Model (Format)
open Float.Model.UnpackedFloat
open BinaryFormat

/-! ## Double precision numbers made narrow -/

variable {f g : BinaryFormat} {bits : Nat}

theorem toNat_unpackExponent_double (b : BitVec Format.binary64.numBits) :
    (unpackExponent b).toNat = b.toNat % 2 ^ 63 / 2 ^ 52 := by
  simp only [unpackExponent, BitVec.toNat_cast, BitVec.extractLsb_toNat, Nat.shiftRight_eq_div_pow]
  omega

/-- **A double precision number has the bits it is made of**, if they are finite. -/
theorem toNat_toBits_doubleOfBits (hbits : bits < 2 * double.signWeight)
    (h : bits % double.signWeight < double.infinityBits) :
    (doubleOfBits bits).toBits.toNat = bits := by
  have hweight : double.signWeight = 2 ^ 63 := rfl
  have hinfinity : double.infinityBits = 2047 * 2 ^ 52 := rfl
  rw [hweight] at hbits h
  rw [hinfinity] at h
  have hnat : (UInt64.ofNat bits).toBitVec.toNat = bits := by
    rw [UInt64.toNat_toBitVec, UInt64.toNat_ofNat']
    exact Nat.mod_eq_of_lt hbits
  have hexponent : @unpackExponent Format.binary64 (UInt64.ofNat bits).toBitVec ≠ -1#_ := by
    intro heq
    have hfull := toNat_unpackExponent_double (UInt64.ofNat bits).toBitVec
    rw [heq, hnat, show (-1#11 : BitVec 11).toNat = 2047 from rfl] at hfull
    omega
  show (UInt64.ofBitVec (pack Format.binary64
    (unpack Format.binary64 (UInt64.ofNat bits).toBitVec))).toNat = bits
  rw [pack_unpack_of_ne (by decide) hexponent]
  exact hnat

/-- The sign of finite bits is decoded apart from their magnitude. -/
theorem decode_withSign (h : bits < f.infinityBits) (negative : Bool) :
    ∃ significand exponent, f.decode bits = .finite false significand exponent ∧
      f.decode (f.withSign negative bits) = .finite negative significand exponent := by
  have hlt : bits < f.signWeight := h.trans f.infinityBits_lt
  have hmod := Nat.mod_eq_of_lt hlt
  have hbiased : bits / Nat.pow 2 f.fractionBits ≠ Nat.pow 2 f.exponentBits - 1 :=
    ((Nat.div_lt_iff_lt_mul (Nat.two_pow_pos _)).2 h).ne
  have hsigned : ∀ negative, f.decode (f.withSign negative bits) =
      if bits / Nat.pow 2 f.fractionBits = 0 then
        .finite negative (bits % Nat.pow 2 f.fractionBits) f.minExponent
      else .finite negative (Nat.pow 2 f.fractionBits + bits % Nat.pow 2 f.fractionBits)
        (f.minExponent + (bits / Nat.pow 2 f.fractionBits - 1 : Nat)) := by
    intro negative
    cases negative with
    | false =>
      rw [withSign, if_neg Bool.false_ne_true, decode, hmod, if_neg hbiased,
        decide_eq_false (not_le.2 hlt)]
    | true =>
      rw [withSign, if_pos rfl, decode, Nat.add_mod_left, hmod, if_neg hbiased,
        decide_eq_true (Nat.le_add_right _ _)]
  by_cases hzero : bits / Nat.pow 2 f.fractionBits = 0
  · exact ⟨_, _, (hsigned false).trans (if_pos hzero), (hsigned negative).trans (if_pos hzero)⟩
  · exact ⟨_, _, (hsigned false).trans (if_neg hzero), (hsigned negative).trans (if_neg hzero)⟩

/-- Rounding what was decoded rounds the quotient that the bits stand for. -/
theorem roundBinary_eq {negative : Bool} {significand : Nat} {exponent : ℤ}
    (h : g.decode bits = .finite negative significand exponent) :
    f.roundBinary significand exponent =
      f.roundQuotient (g.quotient bits).1 (g.quotient bits).2 := by
  rw [roundBinary, quotient, h]
  dsimp only
  split <;> rfl

/-- **Making a double precision number narrow rounds its quotient.** -/
theorem narrow_doubleOfBits (h : bits < double.infinityBits) (negative : Bool) :
    narrow (doubleOfBits (double.withSign negative bits)) =
      singleOfBits (single.withSign negative
        (single.roundQuotient (double.quotient bits).1 (double.quotient bits).2)) := by
  have hlt : bits < double.signWeight := h.trans double.infinityBits_lt
  have hmod := Nat.mod_eq_of_lt hlt
  have hbits : (doubleOfBits (double.withSign negative bits)).toBits.toNat =
      double.withSign negative bits := by
    cases negative with
    | false =>
      rw [withSign, if_neg Bool.false_ne_true]
      exact toNat_toBits_doubleOfBits (by omega) (hmod.symm ▸ h)
    | true =>
      rw [withSign, if_pos rfl]
      exact toNat_toBits_doubleOfBits (by omega) (by rwa [Nat.add_mod_left, hmod])
  obtain ⟨significand, exponent, hdecode, hsigned⟩ := decode_withSign h negative
  rw [narrow, convert, hbits, hsigned, ← roundBinary_eq hdecode]

namespace Decimal

variable {d : Decimal}

/-- **A decimal that survives becomes the number nearest to it.** -/
theorem Survives.narrow (h : d.Survives) (hfinite : d.stepwise < double.infinityBits)
    (negative : Bool) :
    narrow (doubleOfBits (double.withSign negative d.stepwise)) = d.toSingle negative := by
  rw [narrow_doubleOfBits hfinite, h, toSingle]

end Decimal

/-! ## Texts -/

namespace Decimal

variable {d d' : Decimal}

theorem value_whole (n : Nat) : (⟨n * 10, -1⟩ : Decimal).value = n := by
  rw [value, zpow_neg_one, Nat.cast_mul, Nat.cast_ofNat, mul_inv_cancel_right₀ (by norm_num)]

/-- What a layout spells for a decimal has the value of the decimal. -/
theorem value_of_spells {l : InterchangeLayout} (h : l.Spells d d') : d'.value = d.value := by
  cases h with
  | same _ => rfl
  | whole hvalue _ => rw [hvalue, value_whole]

/-- A whole number with a zero behind the point is read exactly. -/
theorem survives_whole {n : Nat} (h : n < 10 ^ 13) :
    (⟨n * 10, -1⟩ : Decimal).stepwise < double.infinityBits ∧
      (⟨n * 10, -1⟩ : Decimal).Survives := by
  rcases Nat.eq_zero_or_pos n with rfl | hpos
  · decide +kernel
  have hvalue : (⟨n * 10, -1⟩ : Decimal).value = n * 2 ^ (0 : ℤ) := by
    rw [value_whole, zpow_zero, mul_one]
  have hone : (1 : ℚ) ≤ n := by exact_mod_cast hpos
  have hmost : (n : ℚ) ≤ 10 ^ 13 := by exact_mod_cast h.le
  have hordinary : Ordinary (⟨n * 10, -1⟩ : Decimal).value := by
    rw [value_whole]
    constructor
    · calc (2 : ℚ) ^ (-200 : ℤ) ≤ 1 := by norm_num
        _ ≤ n := hone
    · calc (n : ℚ) ≤ 10 ^ 13 := hmost
        _ ≤ 2 ^ (200 : ℤ) := by norm_num
  have hdigits : n * 10 < 2 ^ 53 := by omega
  obtain ⟨hfinite, hpoint⟩ := stepwise_eq (digits_pos hordinary.pos) hdigits
    (by decide : (-1 : ℤ).natAbs ≤ 22) hordinary.2 (show n < 2 ^ 53 by omega) (by decide) hvalue
  exact ⟨hfinite, survives_of_point_eq hordinary hfinite hpoint⟩

/-- **What JSON text spells for a number survives being read step by step**, and 64 bits
hold its digits. -/
theorem survives_of_spells {x : Float32} {negative : Bool} {significand : Nat} {exponent : ℤ}
    (h : singleValue x = .finite negative significand exponent)
    (hspells : jsonSingleLayout.Spells (shortestSingle jsonSingleLayout.tie x) d) :
    d.digits < 2 ^ 64 ∧ d.stepwise < double.infinityBits ∧ d.Survives := by
  cases hspells with
  | whole _ hlt =>
    have hlt' : _ < 10 ^ 13 := hlt
    obtain ⟨hfinite, hsurvives⟩ := survives_whole hlt'
    exact ⟨by dsimp only; omega, hfinite, hsurvives⟩
  | same hdigits =>
    rw [shortestSingle, h] at hdigits ⊢
    dsimp only at hdigits ⊢
    have hpos : 0 < significand := by
      rw [Nat.pos_iff_ne_zero]
      rintro rfl
      exact hdigits rfl
    have hprints := prints_shortest h hpos jsonSingleLayout.tie
    exact ⟨hprints.few.trans (by norm_num), hprints.stepwise_near.1,
      survives_shortest h hpos jsonSingleLayout.tie⟩

end Decimal

namespace Json

/-- **Every finite number reads back from its text**, bit for bit. -/
theorem readsBack {x : Float32} (h : IsFinite x) : ReadsBack x := by
  obtain ⟨negative, significand, exponent, hx⟩ := h
  obtain ⟨text, whole, fraction, mark, htext, hpart, hnumber, hspells⟩ :=
    JsonText.isNumber_jsonSingleText hx
  obtain ⟨hlt, hfinite, hsurvives⟩ := Decimal.survives_of_spells hx hspells
  -- the text is read as a number of double precision
  have hread : JsonText.number text.toList = .found (.real (doubleOfBits
      (double.withSign negative (JsonText.spelled whole fraction mark).stepwise))) [] := by
    have := JsonText.number_append hnumber JsonText.sealed_nil
    rwa [List.append_nil, JsonText.numeral_eq_real hpart hlt hfinite] at this
  -- which is made narrow to the number that the shortest decimal stands for
  have hnarrow : narrow (doubleOfBits
      (double.withSign negative (JsonText.spelled whole fraction mark).stepwise)) = x := by
    rw [hsurvives.narrow hfinite, Decimal.toSingle,
      Decimal.roundTo_congr (Decimal.value_of_spells hspells)]
    exact (toSingle_shortestSingle jsonSingleLayout.tie hx).2
  rw [readsBack_iff x (.bracketed 1), document, htext]
  dsimp only
  rw [numberDocument, hread]
  exact congrArg Except.ok hnarrow

end Json

end RuleVote
