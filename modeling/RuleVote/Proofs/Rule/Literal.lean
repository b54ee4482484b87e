import RuleVote.Rule.Render
import RuleVote.Proofs.Number.Sign
import RuleVote.Proofs.Rule.Derivation
/-!
# Number literals

The text of a finite number is a sign and a decimal written out in full.
Wherever the point falls, the digits that stand in the text spell a decimal
of the same value (`spellsDecimal_positional`), and since rounding depends
on the value alone, the text is a literal of the number it was made from.
-/

namespace RuleVote

/-! ## Digits -/

theorem digitsValue_append (ds ds' : List Char) :
    digitsValue (ds ++ ds') = 10 ^ ds'.length * digitsValue ds + digitsValue ds' := by
  show Nat.ofDigitChars 10 (ds ++ ds') 0 = _
  rw [Nat.ofDigitChars_append, Nat.ofDigitChars_eq_ofDigitChars_zero]
  rfl

theorem digitsValue_zeros (count : Nat) : digitsValue (zeros count) = 0 := by
  show Nat.ofDigitChars 10 (List.replicate count '0') 0 = 0
  rw [Nat.ofDigitChars_replicate_zero, Nat.mul_zero]

theorem digitsValue_decimalDigits (n : Nat) : digitsValue (decimalDigits n) = n :=
  Nat.ofDigitChars_ten_toDigits

theorem allDigits_decimalDigits (n : Nat) : Token.AllDigits (decimalDigits n) :=
  fun _ hc => Nat.isDigit_of_mem_toDigits (by decide) (by decide) hc

theorem allDigits_zeros (count : Nat) : Token.AllDigits (zeros count) := by
  intro c hc
  rw [List.eq_of_mem_replicate hc]
  rfl

namespace Token

theorem AllDigits.append {ds ds' : List Char} (h : AllDigits ds) (h' : AllDigits ds') :
    AllDigits (ds ++ ds') :=
  fun c hc => (List.mem_append.1 hc).elim (h c) (h' c)

end Token

namespace Decimal

open Token (AllDigits)

variable {d : Decimal}

/-- A whole number is written out with zeros behind its digits. -/
theorem positional_whole (he : 0 ≤ d.exponent) : AllDigits d.positional ∧
    d.positional = decimalDigits d.digits ++ zeros d.exponent.toNat ∧
    digitsValue d.positional = d.digits * 10 ^ d.exponent.toNat := by
  have htext : d.positional = decimalDigits d.digits ++ zeros d.exponent.toNat := if_pos he
  rw [htext, digitsValue_append, digitsValue_zeros, digitsValue_decimalDigits, Nat.add_zero,
    zeros, List.length_replicate, Nat.mul_comm]
  exact ⟨(allDigits_decimalDigits _).append (allDigits_zeros _), rfl, rfl⟩

/-- Any other decimal is written with a point, which leaves its digits as they are: in
front of it are the first of them, or a zero if there are too few. -/
theorem positional_pointed (he : d.exponent < 0) : ∃ whole fraction,
    d.positional = whole ++ '.' :: fraction ∧ AllDigits whole ∧ AllDigits fraction ∧
      digitsValue (whole ++ fraction) = d.digits ∧ -(fraction.length : ℤ) = d.exponent ∧
      (whole = ['0'] ∨ whole ≠ [] ∧ whole <+: decimalDigits d.digits) := by
  have hall := allDigits_decimalDigits d.digits
  have hvalue := digitsValue_decimalDigits d.digits
  have hplaces : -((-d.exponent).toNat : Int) = d.exponent := by omega
  rw [positional]
  dsimp only
  rw [if_neg he.not_ge]
  generalize (-d.exponent).toNat = places at hplaces ⊢
  generalize decimalDigits d.digits = ds at hall hvalue ⊢
  split
  · next hlt =>
    -- the point falls between two digits
    refine ⟨_, _, rfl, fun c hc => hall c (List.mem_of_mem_take hc),
      fun c hc => hall c (List.mem_of_mem_drop hc), ?_, ?_, .inr ⟨?_, List.take_prefix _ _⟩⟩
    · rw [List.take_append_drop, hvalue]
    · rw [List.length_drop, Nat.sub_sub_self hlt.le, hplaces]
    · rw [← List.length_pos_iff, List.length_take]
      omega
  · next hge =>
    -- a zero in front of the point, and further ones behind it, add nothing
    refine ⟨['0'], zeros (places - ds.length) ++ ds, rfl, allDigits_zeros 1,
      (allDigits_zeros _).append hall, ?_, ?_, .inl rfl⟩
    · rw [← List.append_assoc, digitsValue_append, hvalue]
      show _ * digitsValue (zeros (places - ds.length + 1)) + _ = _
      rw [digitsValue_zeros, Nat.mul_zero, Nat.zero_add]
    · rw [List.length_append, zeros, List.length_replicate, Nat.sub_add_cancel (not_lt.1 hge),
        hplaces]

/-- A decimal is written with digits and a point. -/
theorem mem_positional {c : Char} (hc : c ∈ d.positional) : c.isDigit = true ∨ c = '.' := by
  rcases le_or_gt 0 d.exponent with hwhole | hpointed
  · exact .inl ((positional_whole hwhole).1 c hc)
  · obtain ⟨whole, fraction, htext, hdigits, hdigits', -⟩ := positional_pointed hpointed
    rw [htext, List.mem_append, List.mem_cons] at hc
    rcases hc with hc | rfl | hc
    · exact .inl (hdigits c hc)
    · exact .inr rfl
    · exact .inl (hdigits' c hc)

end Decimal

namespace Token

/-- A mantissa without an exponent spells its digits, the fraction in the
places behind the point. -/
theorem Mantissa.spellsDecimal {text whole fraction : List Char}
    (h : Mantissa text whole fraction) :
    SpellsDecimal text ⟨digitsValue (whole ++ fraction), -fraction.length⟩ :=
  ⟨text, whole, fraction, [], 0, (List.append_nil text).symm, h, .absent, by rw [Int.zero_sub]⟩

/-- **A decimal written out in full spells its value.** -/
theorem spellsDecimal_positional (d : Decimal) :
    ∃ d', SpellsDecimal d.positional d' ∧ d'.value = d.value := by
  rcases le_or_gt 0 d.exponent with he | he
  · -- zeros up to the point count as digits
    obtain ⟨hall, htext, hvalue⟩ := Decimal.positional_whole he
    have hne : d.positional ≠ [] := by
      rw [htext]
      exact List.append_ne_nil_of_left_ne_nil Nat.toDigits_ne_nil _
    refine ⟨_, (Mantissa.whole hne hall).spellsDecimal, ?_⟩
    rw [List.append_nil, hvalue, Decimal.value, Decimal.value, zpow_of_nonneg he, List.length_nil,
      Nat.cast_zero, neg_zero, zpow_zero, mul_one, Nat.cast_mul, Nat.pow_eq]
  · obtain ⟨whole, fraction, htext, hwhole, hfraction, hvalue, hplaces, hfirst⟩ :=
      Decimal.positional_pointed he
    have hne : whole ≠ [] := by
      rcases hfirst with rfl | ⟨hne, -⟩
      · exact List.cons_ne_nil _ _
      · exact hne
    refine ⟨_, htext ▸ (Mantissa.pointed hne hwhole hfraction).spellsDecimal, ?_⟩
    rw [Decimal.value, Decimal.value, hvalue, hplaces]

/-- The decimal of a number without its sign, in front of the end of a word,
is read as the magnitude of the number. -/
theorem number_positional {x : Float32} (h : IsFinite x) {rest : List Char}
    (hend : atWordEnd rest = true) :
    Number ((shortestSingle .up x).toSingle false) ((shortestSingle .up x).positional ++ rest)
      rest := by
  obtain ⟨negative, significand, exponent, hx⟩ := h
  obtain ⟨d, hspells, hvalue⟩ := spellsDecimal_positional (shortestSingle .up x)
  have hround := @Decimal.roundTo_congr .single _ _ hvalue
  have hlt := (toSingle_shortestSingle .up hx).1
  exact ⟨_, d, rfl, hend, hspells, hround ▸ hlt, by rw [Decimal.toSingle, Decimal.toSingle, hround]⟩

end Token

namespace Grammar

open Token

/-- **The text of a finite number is a literal of this number**, with its
sign folded in. -/
theorem signed_number {x : Float32} (h : IsFinite x) {rest : List Char}
    (hend : atWordEnd rest = true) :
    Signed (Render.literal (.number x) ++ rest) (.literal (.number x)) rest := by
  obtain ⟨negative, significand, exponent, hx⟩ := id h
  obtain ⟨hlt, hread⟩ := toSingle_shortestSingle .up hx
  have hnumber := Signed.primary (Gap.refl _) (.number (number_positional h hend))
  rw [Render.literal, positionalText, hx]
  dsimp only
  rw [String.toList_ofList]
  cases negative with
  | false =>
    rw [hread] at hnumber
    exact hnumber
  | true =>
    have hneg : -((shortestSingle .up x).toSingle false) = x := by
      rw [Decimal.toSingle, neg_singleOfBits hlt]
      exact hread
    have := Signed.minus (Gap.refl _) hnumber
    rw [negate, hneg] at this
    exact this

end Grammar

end RuleVote
