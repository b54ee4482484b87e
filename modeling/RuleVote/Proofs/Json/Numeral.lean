import RuleVote.Json.Reader
import RuleVote.Proofs.Rule.Literal
/-!
# Numbers in JSON text

The text of an integer and of a single precision number is a number by the
rules of the format (`JsonText.IsNumber`): a sign, digits without a leading
zero, and perhaps a fraction and an exponent. Such a text is read to its end and
no further, unless what follows goes on with the number (`number_append`). The
number is the decimal that the text spells, read step by step (`numeral_eq_real`),
and a single precision number is spelled by its shortest decimal
(`isNumber_jsonSingleText`).
-/

namespace RuleVote

/-- **The digits of a number other than zero do not begin with a zero.** -/
theorem exists_decimalDigits_cons {n : Nat} (h : n ≠ 0) :
    ∃ c cs, decimalDigits n = c :: cs ∧ c ≠ '0' := by
  induction n using Nat.strong_induction_on with
  | _ n ih =>
    rw [decimalDigits, Nat.toDigits_eq_if (by decide)]
    split
    · next hlt =>
      refine ⟨_, [], rfl, ?_⟩
      interval_cases n
      · exact absurd rfl h
      all_goals decide
    · next hle =>
      obtain ⟨c, cs, hdigits, hc⟩ := ih (n / 10) (by omega) (by omega)
      rw [decimalDigits] at hdigits
      exact ⟨c, cs ++ [(n % 10).digitChar], by rw [hdigits, List.cons_append], hc⟩

/-- The decimal that a layout spells for a decimal: the decimal itself, or a whole number
that is written out in full with a zero behind the point. -/
inductive InterchangeLayout.Spells (l : InterchangeLayout) (d : Decimal) : Decimal → Prop
  | same (h : d.digits ≠ 0) : l.Spells d d
  | whole {n : Nat} (hvalue : d.value = n) (hlt : n < 10 ^ l.maxPoint.toNat) :
    l.Spells d ⟨n * 10, -1⟩

namespace JsonText

open Token (AllDigits)

/-! ## The parts of a number -/

/-- A text does not go on with a number: no digit, point or exponent mark comes
first. -/
def Sealed (rest : List Char) : Prop :=
  ∀ c ∈ rest.head?, c.isDigit = false ∧ c ≠ '.' ∧ c ≠ 'e' ∧ c ≠ 'E'

/-- The digits before the point. -/
inductive IsWhole : List Char → Prop
  | zero : IsWhole ['0']
  | digits {c : Char} {cs : List Char} (h : AllDigits (c :: cs)) (hc : c ≠ '0') : IsWhole (c :: cs)

/-- What follows them up to the exponent, and the digits in it. -/
inductive IsFraction : List Char → List Char → Prop
  | absent : IsFraction [] []
  | point {ds : List Char} (h : AllDigits ds) (hne : ds ≠ []) : IsFraction ('.' :: ds) ds

/-- The exponent with its mark. -/
inductive IsExponent : List Char → Option Int → Prop
  | absent : IsExponent [] none
  | mark (p : Int) : IsExponent ('e' :: intText p) (some p)

/-- The sign. -/
def signText (negative : Bool) : List Char := if negative then ['-'] else []

/-- A number as it is written. -/
inductive IsNumber : List Char → Numeral → Prop
  | mk {whole text fraction mark : List Char} {exponent : Option Int} (negative : Bool)
      (hwhole : IsWhole whole) (hfraction : IsFraction text fraction)
      (hexponent : IsExponent mark exponent) :
    IsNumber (signText negative ++ (whole ++ (text ++ mark)))
      (numeral negative whole fraction exponent)

/-- The digits of a number have no zero in front. -/
theorem isWhole_decimalDigits (n : Nat) : IsWhole (decimalDigits n) := by
  by_cases h : n = 0
  · subst h
    exact .zero
  · obtain ⟨c, cs, hdigits, hc⟩ := exists_decimalDigits_cons h
    have hall := allDigits_decimalDigits n
    rw [hdigits] at hall ⊢
    exact .digits hall hc

theorem IsWhole.allDigits {whole : List Char} (h : IsWhole whole) : AllDigits whole := by
  cases h with
  | zero => exact allDigits_decimalDigits 0
  | digits h _ => exact h

/-! ## Reading a number -/

/-- Digits are read up to the first character that is none. -/
theorem digits_append {ds rest : List Char} (h : AllDigits ds)
    (hrest : ∀ c ∈ rest.head?, c.isDigit = false) : digits (ds ++ rest) = (ds, rest) := by
  have hstop : rest.takeWhile Char.isDigit = [] ∧ rest.dropWhile Char.isDigit = rest := by
    cases rest with
    | nil => exact ⟨rfl, rfl⟩
    | cons c cs =>
      have hc := hrest c rfl
      exact ⟨List.takeWhile_cons_of_neg (by simp [hc]), List.dropWhile_cons_of_neg (by simp [hc])⟩
  rw [digits, List.takeWhile_append_of_pos h, List.dropWhile_append_of_pos h, hstop.1, hstop.2,
    List.append_nil]

/-- The digits before the point are read. -/
theorem integerPart_append {whole rest : List Char} (h : IsWhole whole)
    (hrest : ∀ c ∈ rest.head?, c.isDigit = false) :
    integerPart (whole ++ rest) = .found whole rest := by
  rw [integerPart, digits_append h.allDigits hrest]
  cases h with
  | zero => rfl
  | digits _ hc =>
    split
    · next heq => cases heq
    · next heq =>
      cases heq
      exact absurd rfl hc
    · next heq =>
      cases heq
      exact absurd rfl hc
    · next heq =>
      cases heq
      rfl

/-- The digits behind the point are read, if there are any. -/
theorem fractionPart_append {text fraction rest : List Char} (h : IsFraction text fraction)
    (hdigit : ∀ c ∈ rest.head?, c.isDigit = false) (hpoint : ∀ c ∈ rest.head?, c ≠ '.') :
    fractionPart (text ++ rest) = .found fraction rest := by
  cases h with
  | absent =>
    rw [List.nil_append]
    unfold fractionPart
    split
    · exact absurd rfl (hpoint '.' rfl)
    · rfl
  | point h hne =>
    rw [List.cons_append, fractionPart, digits_append h hdigit]
    split
    · next heq => exact absurd (Prod.mk.inj heq).1 hne
    · next heq =>
      obtain ⟨rfl, rfl⟩ := Prod.mk.inj heq
      rfl

/-- The digits of an exponent, its sign already read. -/
theorem exponentDigits_append (negative : Bool) (n : Nat) {rest : List Char}
    (hrest : ∀ c ∈ rest.head?, c.isDigit = false) :
    (match digits (decimalDigits n ++ rest) with
      | ([], rest) => digitMissing rest
      | (ds, rest) =>
        .found (some (if negative then -(digitsValue ds : Int) else digitsValue ds)) rest
      : Scan (Option Int)) = .found (some (if negative then -(n : Int) else n)) rest := by
  rw [digits_append (allDigits_decimalDigits n) hrest]
  split
  · next heq => exact absurd (Prod.mk.inj heq).1 Nat.toDigits_ne_nil
  · next heq =>
    obtain ⟨rfl, rfl⟩ := Prod.mk.inj heq
    rw [digitsValue_decimalDigits]

/-- The exponent is read, if there is one. -/
theorem exponentPart_append {mark rest : List Char} {exponent : Option Int}
    (h : IsExponent mark exponent) (hrest : Sealed rest) :
    exponentPart (mark ++ rest) = .found exponent rest := by
  have hdigit : ∀ c ∈ rest.head?, c.isDigit = false := fun c hc => (hrest c hc).1
  cases h with
  | absent =>
    rw [List.nil_append]
    unfold exponentPart
    split
    all_goals first
      | rfl
      | exact absurd rfl (hrest _ rfl).2.2.1
      | exact absurd rfl (hrest _ rfl).2.2.2
  | mark p =>
    cases p with
    | ofNat n =>
      -- a digit comes first, so the exponent has no sign of its own
      have hfirst : ∀ c cs, decimalDigits n ++ rest = c :: cs → c.isDigit = true := by
        intro c cs heq
        have hne : decimalDigits n ≠ [] := Nat.toDigits_ne_nil
        obtain ⟨d, ds, hds⟩ := List.exists_cons_of_ne_nil hne
        rw [hds, List.cons_append] at heq
        exact (List.cons.inj heq).1 ▸ allDigits_decimalDigits n d (hds ▸ List.mem_cons_self)
      show exponentPart ('e' :: (decimalDigits n ++ rest)) = _
      unfold exponentPart
      split
      · next heq => exact absurd (hfirst _ _ (List.cons.inj heq).2) (by decide)
      · next heq => cases (List.cons.inj heq).1
      · next heq => exact absurd (hfirst _ _ (List.cons.inj heq).2) (by decide)
      · next heq => cases (List.cons.inj heq).1
      · next heq =>
        obtain ⟨-, rfl⟩ := List.cons.inj heq
        exact exponentDigits_append false n hdigit
      · next heq => cases (List.cons.inj heq).1
      · next hmark _ => exact absurd rfl (hmark _)
    | negSucc n => exact exponentDigits_append true (n + 1) hdigit

/-! ## Where a part ends -/

theorem IsExponent.head {mark rest : List Char} {exponent : Option Int}
    (h : IsExponent mark exponent) (hrest : Sealed rest) :
    ∀ c ∈ (mark ++ rest).head?, c.isDigit = false ∧ c ≠ '.' := by
  cases h with
  | absent => exact fun c hc => ⟨(hrest c hc).1, (hrest c hc).2.1⟩
  | mark p =>
    intro c hc
    obtain rfl : 'e' = c := Option.some.inj hc
    decide

theorem IsFraction.head {text fraction mark rest : List Char} {exponent : Option Int}
    (h : IsFraction text fraction) (hmark : IsExponent mark exponent) (hrest : Sealed rest) :
    ∀ c ∈ (text ++ (mark ++ rest)).head?, c.isDigit = false := by
  cases h with
  | absent => exact fun c hc => (hmark.head hrest c hc).1
  | point _ _ =>
    intro c hc
    obtain rfl : '.' = c := Option.some.inj hc
    decide

theorem IsWhole.exists_cons {whole : List Char} (h : IsWhole whole) :
    ∃ c cs, whole = c :: cs ∧ c.isDigit = true := by
  cases h with
  | zero => exact ⟨'0', [], rfl, by decide⟩
  | digits h _ => exact ⟨_, _, rfl, h _ List.mem_cons_self⟩

/-- A number starts with a digit or a minus. -/
theorem IsNumber.exists_cons {text : List Char} {n : Numeral} (h : IsNumber text n) :
    ∃ c cs, text = c :: cs ∧ (c = '-' ∨ c.isDigit = true) := by
  obtain ⟨negative, hwhole, -, -⟩ := h
  obtain ⟨c, cs, rfl, hc⟩ := hwhole.exists_cons
  cases negative with
  | true => exact ⟨'-', _, rfl, .inl rfl⟩
  | false => exact ⟨c, _, rfl, .inr hc⟩

/-- A sign is told from the digits behind it. -/
theorem sign_append (negative : Bool) {whole : List Char} (h : IsWhole whole) (rest : List Char) :
    (match signText negative ++ (whole ++ rest) with
      | '-' :: rest => (true, rest)
      | _ => (false, signText negative ++ (whole ++ rest))) = (negative, whole ++ rest) := by
  cases negative with
  | true => rfl
  | false =>
    obtain ⟨c, cs, rfl, hc⟩ := h.exists_cons
    show (match c :: (cs ++ rest) with
      | '-' :: rest => (true, rest)
      | _ => (false, c :: (cs ++ rest))) = _
    split
    · next heq =>
      obtain ⟨rfl, -⟩ := List.cons.inj heq
      cases hc
    · rfl

/-- **A number is read to its end.** -/
theorem number_append {text rest : List Char} {n : Numeral} (h : IsNumber text n)
    (hrest : Sealed rest) : number (text ++ rest) = .found n rest := by
  obtain ⟨negative, hwhole, hfraction, hexponent⟩ := h
  next whole text fraction mark exponent =>
  have hmark := hexponent.head hrest
  have hsign := sign_append negative hwhole (text ++ (mark ++ rest))
  rw [List.append_assoc, List.append_assoc, List.append_assoc]
  unfold number
  split
  next heq =>
    obtain ⟨rfl, rfl⟩ := Prod.mk.inj (hsign.symm.trans heq)
    rw [integerPart_append hwhole (hfraction.head hexponent hrest)]
    dsimp only
    rw [fractionPart_append hfraction (fun c hc => (hmark c hc).1) fun c hc => (hmark c hc).2]
    dsimp only
    rw [exponentPart_append hexponent hrest]

/-! ## The texts of numbers -/

/-- **The text of an integer is a number.** -/
theorem isNumber_intText (i : Int) :
    IsNumber (intText i) (numeral (i < 0) (decimalDigits i.natAbs) [] none) := by
  have h := fun negative => IsNumber.mk negative (isWhole_decimalDigits i.natAbs) .absent .absent
  simp only [List.append_nil] at h
  cases i with
  | ofNat n => exact h false
  | negSucc n =>
    rw [decide_eq_true (Int.negSucc_lt_zero n)]
    exact h true

/-! ## What the digits of a text stand for -/

/-- Digits that 64 bits hold are all taken. -/
theorem significand_digits {ds cs : List Char} (h : digitsValue (ds ++ cs) < Nat.pow 2 64) :
    significand (digitsValue ds) cs = (digitsValue (ds ++ cs), 0) := by
  induction cs generalizing ds with
  | nil => rw [List.append_nil, significand]
  | cons c cs ih =>
    have hstep : 10 * digitsValue ds + (c.toNat - 48) = digitsValue (ds ++ [c]) := by
      rw [digitsValue, digitsValue, List.foldl_append, List.foldl_cons, List.foldl_nil]
    have hsplit : ds ++ c :: cs = ds ++ [c] ++ cs := by simp
    rw [hsplit] at h ⊢
    have hle : digitsValue (ds ++ [c]) ≤ digitsValue (ds ++ [c] ++ cs) := by
      rw [digitsValue_append (ds ++ [c])]
      exact (Nat.le_mul_of_pos_left _ (Nat.pow_pos (by decide))).trans (Nat.le_add_right _ _)
    rw [significand, hstep, if_pos (hle.trans_lt h), ih h]

/-- The decimal that digits, fraction and exponent spell. -/
def spelled (whole fraction : List Char) (exponent : Option Int) : Decimal :=
  ⟨digitsValue (whole ++ fraction), exponent.getD 0 - fraction.length⟩

/-- **A text with a fraction or an exponent is read as the decimal that it spells**, step
by step. -/
theorem numeral_eq_real {whole fraction : List Char} {exponent : Option Int}
    (hpart : ¬ (fraction = [] ∧ exponent = none))
    (hlt : (spelled whole fraction exponent).digits < 2 ^ 64)
    (hfinite : (spelled whole fraction exponent).stepwise < BinaryFormat.double.infinityBits)
    (negative : Bool) :
    numeral negative whole fraction exponent =
      .real (doubleOfBits (BinaryFormat.double.withSign negative
        (spelled whole fraction exponent).stepwise)) := by
  have hwhole : digitsValue ([] ++ whole) < Nat.pow 2 64 := by
    refine lt_of_le_of_lt ?_ hlt
    rw [List.nil_append, spelled, digitsValue_append]
    exact (Nat.le_mul_of_pos_left _ (Nat.pow_pos (by decide))).trans (Nat.le_add_right _ _)
  have hdecimal : decimal whole fraction (exponent.getD 0) = spelled whole fraction exponent := by
    have hfirst : significand 0 whole = (digitsValue whole, 0) := significand_digits hwhole
    have hsecond : significand (digitsValue whole) fraction = _ := significand_digits hlt
    rw [decimal, hfirst]
    dsimp only
    rw [hsecond, spelled, Nat.cast_zero, add_zero, Nat.sub_zero]
  have hintegral : ¬ (fraction.isEmpty = true ∧ exponent.isNone = true) := by
    rwa [List.isEmpty_iff, Option.isNone_iff_eq_none]
  unfold numeral
  dsimp only
  rw [if_neg fun h => hintegral h.1, if_neg fun h => hintegral h.1, hdecimal, if_pos hfinite]

/-! ## Decimals as they are written -/

theorem isWhole_positional {d : Decimal} (h : d.digits ≠ 0) (he : 0 ≤ d.exponent) :
    IsWhole d.positional := by
  obtain ⟨hall, htext, -⟩ := Decimal.positional_whole he
  obtain ⟨c, cs, hds, hc⟩ := exists_decimalDigits_cons h
  rw [htext, hds, List.cons_append] at hall ⊢
  exact .digits hall hc

/-- A decimal that is written with a point is spelled as it is. -/
theorem exists_pointed {d : Decimal} (h : d.digits ≠ 0) (he : d.exponent < 0) :
    ∃ whole fraction, IsWhole whole ∧ IsFraction ('.' :: fraction) fraction ∧
      d.positional = whole ++ '.' :: fraction ∧ spelled whole fraction none = d := by
  obtain ⟨whole, fraction, htext, hwhole, hfraction, hvalue, hplaces, hfirst⟩ :=
    Decimal.positional_pointed he
  have hne : fraction ≠ [] := by
    rintro rfl
    exact he.ne hplaces.symm
  refine ⟨whole, fraction, ?_, .point hfraction hne, htext, ?_⟩
  · rcases hfirst with rfl | ⟨hne, hfront⟩
    · exact .zero
    · obtain ⟨c, cs, rfl⟩ := List.exists_cons_of_ne_nil hne
      obtain ⟨c', cs', hds, hc⟩ := exists_decimalDigits_cons h
      rw [hds, List.cons_prefix_cons] at hfront
      exact .digits hwhole (hfront.1 ▸ hc)
  · rw [spelled, hvalue, Option.getD_none, zero_sub, hplaces]

/-- A whole number is written out in full with a zero behind the point. -/
theorem spells_whole {l : InterchangeLayout} {d : Decimal} (he : 0 ≤ d.exponent)
    (hpoint : (decimalDigits d.digits).length + d.exponent ≤ l.maxPoint) :
    l.Spells d (spelled d.positional ['0'] none) := by
  have hspelled : spelled d.positional ['0'] none =
      ⟨d.digits * 10 ^ d.exponent.toNat * 10, -1⟩ := by
    rw [spelled, digitsValue_append, (Decimal.positional_whole he).2.2, Nat.mul_comm]
    rfl
  have hlength : d.digits < 10 ^ (decimalDigits d.digits).length :=
    (Nat.length_toDigits_le_iff (by decide) Nat.length_toDigits_pos).1 le_rfl
  rw [hspelled]
  refine .whole ?_ ?_
  · rw [Decimal.value, zpow_of_nonneg he, Nat.pow_eq, Nat.cast_mul]
  · calc d.digits * 10 ^ d.exponent.toNat
        < 10 ^ (decimalDigits d.digits).length * 10 ^ d.exponent.toNat := by gcongr
      _ = 10 ^ ((decimalDigits d.digits).length + d.exponent.toNat) := (pow_add ..).symm
      _ ≤ 10 ^ l.maxPoint.toNat := Nat.pow_le_pow_right (by decide) (by omega)

/-- A decimal with an exponent has its point behind the first digit. -/
theorem spelled_exponent {d : Decimal} {c : Char} {cs : List Char}
    (hds : decimalDigits d.digits = c :: cs) :
    spelled [c] cs (some ((c :: cs).length + d.exponent - 1)) = d := by
  rw [spelled, List.singleton_append, ← hds, digitsValue_decimalDigits, hds, Option.getD_some,
    List.length_cons]
  congr 1
  push_cast
  ring

/-- **A decimal is written as a number that spells it.** -/
theorem isNumber_write (l : InterchangeLayout) (negative : Bool) (d : Decimal) :
    ∃ whole fraction exponent, ¬ (fraction = [] ∧ exponent = none) ∧
      IsNumber (signText negative ++ l.write d) (numeral negative whole fraction exponent) ∧
      l.Spells d (spelled whole fraction exponent) := by
  have hzero : IsFraction ['.', '0'] ['0'] := .point (allDigits_decimalDigits 0) (by decide)
  unfold InterchangeLayout.write
  dsimp only
  split
  · next hdigits =>
    refine ⟨_, _, _, fun h => List.cons_ne_nil _ _ h.1, .mk negative .zero hzero .absent, ?_⟩
    refine .whole (n := 0) ?_ (Nat.pow_pos (by decide))
    rw [Decimal.value_eq_zero_iff.2 hdigits, Nat.cast_zero]
  next hdigits =>
  split
  · next he =>
    exact ⟨_, _, _, fun h => List.cons_ne_nil _ _ h.1,
      .mk negative (isWhole_positional hdigits he.1) hzero .absent, spells_whole he.1 he.2⟩
  -- behind zeros, a point or a mark, whichever layout is shorter
  next hlong =>
  split
  · next he =>
    obtain ⟨whole, fraction, hwhole, hfraction, hpositional, hspelled⟩ :=
      exists_pointed hdigits (by omega)
    have h := IsNumber.mk negative hwhole hfraction .absent
    rw [List.append_nil, ← hpositional] at h
    refine ⟨whole, fraction, none, ?_, h, ?_⟩
    · cases hfraction with
      | point _ hne => exact fun h => hne h.1
    · rw [hspelled]
      exact .same hdigits
  · obtain ⟨c, cs, hds, hc⟩ := exists_decimalDigits_cons hdigits
    have hspelled := spelled_exponent hds
    have hall := allDigits_decimalDigits d.digits
    rw [hds] at hall ⊢
    have hfirst : IsWhole [c] :=
      .digits (fun d hd => hall d (List.mem_of_mem_head? (List.mem_singleton.1 hd ▸ rfl))) hc
    refine ⟨[c], cs, some ((c :: cs).length + d.exponent - 1), fun h => Option.some_ne_none _ h.2,
      ?_, ?_⟩
    · cases cs with
      | nil => exact .mk negative hfirst .absent (.mark _)
      | cons c' cs =>
        have hrest : AllDigits (c' :: cs) := fun d hd => hall d (List.mem_cons_of_mem c hd)
        exact .mk negative hfirst (.point hrest (List.cons_ne_nil c' cs)) (.mark _)
    · rw [hspelled]
      exact .same hdigits

/-- Only finite numbers have digits. -/
theorem isFinite_of_jsonSingleText {x : Float32} {text : String}
    (h : jsonSingleText? x = some text) : IsFinite x := by
  unfold jsonSingleText? at h
  split at h
  · next negative significand exponent hx => exact ⟨negative, significand, exponent, hx⟩
  · cases h

/-- **The text of a finite number is a number that spells its shortest decimal.** -/
theorem isNumber_jsonSingleText {x : Float32} {negative : Bool} {digits : Nat} {exponent : Int}
    (h : singleValue x = .finite negative digits exponent) :
    ∃ text whole fraction mark, jsonSingleText? x = some text ∧
      ¬ (fraction = [] ∧ mark = none) ∧
      IsNumber text.toList (numeral negative whole fraction mark) ∧
      jsonSingleLayout.Spells (shortestSingle jsonSingleLayout.tie x)
        (spelled whole fraction mark) := by
  obtain ⟨whole, fraction, mark, hpart, hnumber, hspells⟩ :=
    isNumber_write jsonSingleLayout negative (shortestSingle jsonSingleLayout.tie x)
  refine ⟨_, whole, fraction, mark, by rw [jsonSingleText?, h], hpart, ?_, hspells⟩
  rw [String.toList_ofList]
  cases negative <;> exact hnumber

end JsonText

end RuleVote
