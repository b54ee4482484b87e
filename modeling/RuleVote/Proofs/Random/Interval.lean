import RuleVote.Proofs.Number.Probability
import RuleVote.Proofs.Random.Draw
/-!
# Numbers drawn from an interval

Random bits become a number from zero to one (`KeyStream.isProbability_fraction`), so
a number that is drawn from an interval is finite, whatever the words of the stream are
(`KeyStream.exists_between`).
-/

namespace RuleVote

open Float.Model (Format)
open Float.Model.UnpackedFloat

/-- The number whose exponent is that of one, with given bits behind the point. -/
theorem hasAmount_onePoint {bits : ℕ} (hbits : bits < 2 ^ 23) :
    HasAmount (singleOfBits (0x3F800000 + bits)) ((8388608 + bits : ℕ) * 2 ^ (-23 : ℤ)) := by
  have hweight : BinaryFormat.single.signWeight = 2 ^ 31 := rfl
  have hinfinity : BinaryFormat.single.infinityBits = 255 * 2 ^ 23 := rfl
  have hnat : (singleOfBits (0x3F800000 + bits)).toBits.toNat = 0x3F800000 + bits :=
    toNat_toBits_singleOfBits (by omega) (by rw [hweight, hinfinity]; omega)
  generalize singleOfBits (0x3F800000 + bits) = x at hnat
  -- The bits are read as a number field by field: exponent, mantissa, sign.
  have hword : ∀ b : BitVec Format.binary32.numBits, b.toNat = 0x3F800000 + bits →
      Reads (unpack Format.binary32 b) ((8388608 + bits : ℕ) * 2 ^ (-23 : ℤ)) := by
    intro b hb
    have hexponent : unpackExponent b = 127#8 := by
      apply BitVec.eq_of_toNat_eq
      rw [toNat_unpackExponent, hb]
      show _ = 127
      omega
    have hmantissa : (1#1 ++ unpackMantissa b).toNat = 8388608 + bits := by
      rw [BitVec.toNat_append, ← Nat.shiftLeft_add_eq_or_of_lt (BitVec.isLt _),
        toNat_unpackMantissa, hb]
      show 8388608 + _ = _
      omega
    have hsign : Sign.ofBitVec (unpackSign b) = .positive := by
      have hzero : unpackSign b = 0#1 := by
        apply BitVec.eq_of_toNat_eq
        rw [toNat_unpackSign, hb]
        show _ = 0
        omega
      rw [hzero]
      rfl
    have hunpack : unpack Format.binary32 b =
        .finite .positive (8388608 + bits) (-23) (by omega) := by
      simp only [unpack, hexponent, hsign, hmantissa]
      rfl
    rw [hunpack]
    exact .finite .positive (by omega) (by omega) (by decide) (by decide) (.inr (by omega))
  exact hword x.toBits.toBitVec hnat

namespace KeyStream

/-- **Random bits become a number from zero to one.** -/
theorem isProbability_fraction (s : KeyStream) : IsProbability s.fraction.1 := by
  have hbits : s.nextNat32.1 / Nat.pow 2 9 < 2 ^ 23 := by
    have hword : s.nextNat32.1 < 2 ^ 32 := s.nextWord.1.toNat_lt
    show _ / 2 ^ 9 < _
    omega
  show IsProbability (singleOfBits (0x3F800000 + s.nextNat32.1 / Nat.pow 2 9) - 1)
  generalize s.nextNat32.1 / Nat.pow 2 9 = bits at hbits
  have hlt : (bits : ℚ) < 2 ^ 23 := by exact_mod_cast hbits
  have hle : (0 : ℚ) ≤ bits := Nat.cast_nonneg bits
  have hvalue : (((8388608 + bits : ℕ) : ℚ) * 2 ^ (-23 : ℤ)) = 1 + bits * 2 ^ (-23 : ℤ) := by
    push_cast
    norm_num
    ring
  have hpoint := hasAmount_onePoint hbits
  rw [hvalue] at hpoint
  have hpart : (bits : ℚ) * 2 ^ (-23 : ℤ) ≤ 1 := by
    norm_num
    linarith
  have hpart' : (0 : ℚ) ≤ bits * 2 ^ (-23 : ℤ) := by positivity
  obtain ⟨r, hr, hsub⟩ := hpoint.sub hasValue_one.hasAmount
    (by rw [abs_of_nonneg (by linarith)]; linarith) (by norm_num)
  rw [add_sub_cancel_left] at hr
  exact isProbability_iff.2 ⟨r, hsub, hr.nonneg hpart', hr.le_one hpart⟩

theorem betweenLoop_succ (low high : Float32) (redraws : ℕ) (s : KeyStream) :
    betweenLoop low high (redraws + 1) s =
      if high ≤ s.fraction.1 * (high - low) + low then betweenLoop low high redraws s.fraction.2
      else (s.fraction.1 * (high - low) + low, s.fraction.2) := by
  rw [betweenLoop]

/-- **A number drawn from a small interval around zero is finite.** -/
theorem exists_between {bound : Float32} (hbound : IsProbability bound) (s : KeyStream) :
    ∃ q, HasAmount (s.between (-bound) bound).1 q ∧ |q| ≤ 4 := by
  obtain ⟨b, hb, hb₀, hb₁⟩ := isProbability_iff.1 hbound
  have hnatCast : ∀ n : ℕ, n ≤ 4 → Representable n := fun n hn => by
    exact_mod_cast representable_intCast (j := n) (by rw [abs_of_nonneg] <;> omega)
  have hlow : |-b| ≤ 4 := by
    rw [abs_neg, abs_of_nonneg hb₀]
    linarith
  obtain ⟨w, hw, hwidth⟩ := hb.sub hb.neg (by rw [abs_of_nonneg hb₀]; linarith) (by linarith)
  have hw₀ : 0 ≤ w := hw.nonneg (by linarith)
  have hw₂ : w ≤ 2 := hw.le (by exact_mod_cast hnatCast 2 (by decide)) (by linarith)
  suffices h : ∀ (redraws : ℕ) (s : KeyStream),
      ∃ q, HasAmount (betweenLoop (-bound) bound redraws s).1 q ∧ |q| ≤ 4 from h maxRedraws s
  intro redraws
  induction redraws with
  | zero => exact fun s => ⟨-b, hb.neg, hlow⟩
  | succ redraws ih =>
    intro s
    obtain ⟨v, hv, hv₀, hv₁⟩ := isProbability_iff.1 s.isProbability_fraction
    obtain ⟨p, hp, hproduct⟩ := hv.mul hwidth (by rw [abs_of_nonneg hv₀]; linarith)
      (by rw [abs_of_nonneg hw₀]; linarith)
    have hp₀ : 0 ≤ p := hp.nonneg (mul_nonneg hv₀ hw₀)
    have hp₂ : p ≤ 2 := hp.le (by exact_mod_cast hnatCast 2 (by decide)) (by nlinarith)
    obtain ⟨r, hr, hsum⟩ := hproduct.add hb.neg (by rw [abs_of_nonneg hp₀]; linarith)
      (by linarith)
    have hr₁ : r ≤ 4 := hr.le (by exact_mod_cast hnatCast 4 le_rfl) (by linarith)
    have hr₂ : -4 ≤ r := hr.ge (by exact_mod_cast (hnatCast 4 le_rfl).neg) (by linarith)
    rw [betweenLoop_succ]
    split
    · exact ih _
    · exact ⟨r, hsum, abs_le.2 ⟨hr₂, hr₁⟩⟩

/-- What every draw has, several draws have. -/
theorem forall_mem_several {α : Type} {draw : KeyStream → α × KeyStream} {P : α → Prop}
    (h : ∀ s, P (draw s).1) : ∀ (n : ℕ) (s : KeyStream), ∀ a ∈ (several draw n s).1, P a
  | 0, _ => fun _ ha => (List.not_mem_nil ha).elim
  | n + 1, s => List.forall_mem_cons.2 ⟨h s, forall_mem_several h n (draw s).2⟩

end KeyStream

end RuleVote
