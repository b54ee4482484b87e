import RuleVote.Proofs.Number.Arithmetic
import RuleVote.Proofs.Number.Order
import RuleVote.Proofs.Voter.Ties
/-!
# What a tie policy touches

A class is near where it is within the tolerance of a largest probability of
its row (`Near`), and a row is tied where two classes are. That is what is
counted as tied (`mem_tiedClasses_iff_near`); nothing is near in a row whose
largest probability is infinite. The labels of rows that are not tied are the same
under all policies, seeds and streams; what becomes of a tied row is said by the
policy alone (`labelsFrom_touches_only_ties`). Nothing is asked of the
probabilities. A label of 32 bits names a class as long as there are no more
classes than that.
-/

namespace RuleVote

open Float.Model (Format UnpackedFloat)
open Float.Model.UnpackedFloat

/-! ## Distances -/

section Distances

variable {x y a b bound : Float32}

theorem single_le_iff :
    x ≤ y ↔ (x.toModel.unpack.compare y.toModel.unpack).any (·.isLE) = true := decide_eq_true_iff

/-- What is left of a difference when its sign is dropped. -/
theorem abs_sub_eq (x y : Float32) : (x - y).abs = Float32.ofModel (Float32.Model.pack
    (unpack Format.binary32 (pack Format.binary32
      (UnpackedFloat.sub Format.binary32 x.toModel.unpack y.toModel.unpack))).abs) := rfl

theorem not_le_of_notANumber (hx : x.toModel.unpack = .notANumber) : ¬x ≤ bound := by
  rw [single_le_iff, hx]
  simp [UnpackedFloat.compare]

/-- Infinity is above everything that has a value. -/
theorem not_le_of_infinity {q : ℚ} (hx : x.toModel.unpack = .infinity .positive)
    (hbound : HasValue bound q) : ¬x ≤ bound := by
  have hcompare : ∀ {u : UnpackedFloat}, Writes u q →
      (UnpackedFloat.infinity .positive).compare u = some .gt := by
    rintro _ (_ | _) <;> rfl
  rw [single_le_iff, hx, hcompare hbound]
  decide

/-- **Nothing is close to an infinity**, the infinity itself included: the
distance is infinite, or no number. -/
theorem not_abs_sub_le_of_infinity {s : Sign} {q : ℚ} (hx : x.toModel.unpack = .infinity s)
    (hbound : HasValue bound q) : ¬(x - y).abs ≤ bound := by
  have hsub : UnpackedFloat.sub Format.binary32 (.infinity s) y.toModel.unpack = .infinity s ∨
      UnpackedFloat.sub Format.binary32 (.infinity s) y.toModel.unpack = .notANumber := by
    generalize y.toModel.unpack = u
    rcases u with t | _ | _ | _
    · simp only [UnpackedFloat.sub]
      split
      · exact .inl rfl
      · exact .inr rfl
    · exact .inr rfl
    · exact .inl rfl
    · exact .inl rfl
  rcases hsub with hsub | hsub
  · refine not_le_of_infinity ?_ hbound
    rw [abs_sub_eq, hx, hsub]
    cases s <;> rfl
  · refine not_le_of_notANumber ?_
    rw [abs_sub_eq, hx, hsub]
    rfl

/-- **Numbers that compare as equal are equally far from others.** Only the
zeros differ, and they differ in their sign. -/
theorem abs_sub_congr (h : (a == b) = true) (y : Float32) : (a - y).abs = (b - y).abs := by
  have hcompare : a.toModel.unpack.compare b.toModel.unpack = some .eq := eq_of_beq h
  rw [abs_sub_eq, abs_sub_eq]
  generalize y.toModel.unpack = u
  rcases eq_or_zero_of_compare hcompare with heq | ⟨s, t, hs, ht⟩
  · rw [heq]
  · rw [hs, ht]
    rcases u with _ | _ | r | _
    · rfl
    · rfl
    · cases s <;> cases t <;> cases r <;> rfl
    · rfl

end Distances

/-! ## Near classes -/

variable {row : List Float32} {c classes : ℕ}

/-- A class is near: it is within the tolerance of a largest probability. -/
def Near (row : List Float32) (c : ℕ) : Prop :=
  ∃ most p, IsLargest row most ∧ row[c]? = some p ∧ (most - p).abs ≤ tieTolerance

/-- A row is tied: two classes are near. -/
def Tied (row : List Float32) : Prop := ∃ c d, c ≠ d ∧ Near row c ∧ Near row d

/-- **The classes counted as tied are the near ones.** Where nothing in a row is
a number, negative infinity is the largest, and no class is near it. -/
theorem mem_tiedClasses_iff_near : c ∈ tiedClasses row ↔ Near row c := by
  rw [mem_tiedClasses]
  constructor
  · rintro ⟨p, hp, hle⟩
    have hlargest := isLargest_largest row
    refine ⟨largest row, p, ⟨?_, hlargest.isNumber, fun x hx => ?_⟩, hp, hle⟩
    · rcases List.mem_cons.1 hlargest.mem with heq | hmem
      · -- nothing would be near it, so it is not where the search has started
        rw [heq] at hle
        have hinf : negativeInfinity.toModel.unpack = .infinity .negative := rfl
        exact absurd hle (not_abs_sub_le_of_infinity hinf hasValue_tieTolerance)
      · exact hmem
    · exact hlargest.not_lt x (List.mem_cons_of_mem _ hx)
  · rintro ⟨most, p, hmost, hp, hle⟩
    refine ⟨p, hp, ?_⟩
    have hmost' : IsLargest (negativeInfinity :: row) most := by
      refine ⟨List.mem_cons_of_mem _ hmost.mem, hmost.isNumber, ?_⟩
      rw [List.forall_mem_cons]
      exact ⟨not_lt_negativeInfinity most, hmost.not_lt⟩
    rwa [abs_sub_congr ((isLargest_largest row).beq hmost')]

/-- A near class is one of the row, and its label is the class itself. -/
theorem Near.classLabel_eq (h : Near row c) (hrow : row.length ≤ Nat.pow 2 31) :
    classLabel c = c :=
  classLabel_of_lt
    (Nat.lt_of_lt_of_le (lt_length_of_mem_tiedClasses (mem_tiedClasses_iff_near.2 h)) hrow)

theorem tiedClasses_eq_nil_iff : tiedClasses row = [] ↔ ∀ c, ¬Near row c := by
  simp only [List.eq_nil_iff_forall_not_mem, mem_tiedClasses_iff_near]

/-- The one near class of a row that is not tied. -/
theorem near_iff_of_not_tied (h : ¬Tied row) (hc : Near row c) (d : ℕ) : Near row d ↔ d = c := by
  constructor
  · intro hd
    by_contra hne
    exact h ⟨d, c, hne, hd, hc⟩
  · rintro rfl
    exact hc

theorem Tied.ne_nil (h : Tied row) : tiedClasses row ≠ [] := by
  obtain ⟨c, -, -, hc, -⟩ := h
  intro hnil
  exact tiedClasses_eq_nil_iff.1 hnil c hc

theorem Tied.ne_singleton (h : Tied row) : tiedClasses row ≠ [c] := by
  obtain ⟨a, b, hne, ha, hb⟩ := h
  rw [← mem_tiedClasses_iff_near] at ha hb
  intro hsingle
  rw [hsingle, List.mem_singleton] at ha hb
  exact hne (ha.trans hb.symm)

/-! ## The label of a row -/

/-- The labels that a policy allows a tied row. -/
def TiePolicy.Allows (classes : ℕ) (row : List Float32) (label : Int) : TiePolicy → Prop
  | .abstain => label = RuleVote.abstain
  | .random => ∃ c, Near row c ∧ label = c
  | .trueRandom => ∃ c < classes, label = (c : ℕ)

/-- A label belongs to a row: it is the near class if there is only one, the
abstention if there is none, and what the policy allows if there are several. -/
structure TiePolicy.Settles (policy : TiePolicy) (classes : ℕ) (row : List Float32)
    (label : Int) : Prop where
  single : ∀ c, (∀ d, Near row d ↔ d = c) → label = c
  none : (∀ c, ¬Near row c) → label = RuleVote.abstain
  tied : Tied row → policy.Allows classes row label

/-- **A policy has a say in tied rows only**, and so have seeds and streams. -/
theorem rowLabel_eq_of_not_tied (htied : ¬Tied row) (policy policy' : TiePolicy)
    (seed seed' number number' classes' : ℕ) (stream stream' : KeyStream) :
    (rowLabel policy seed classes number row stream).1 =
      (rowLabel policy' seed' classes' number' row stream').1 := by
  by_cases hnear : ∃ c, Near row c
  · obtain ⟨c, hc⟩ := hnear
    have hone : tiedClasses row = [c] := tiedClasses_eq_singleton_of_mem fun d => by
      rw [mem_tiedClasses_iff_near, near_iff_of_not_tied htied hc]
    rw [rowLabel_of_single hone, rowLabel_of_single hone]
  · have hnone := tiedClasses_eq_nil_iff.2 (not_exists.1 hnear)
    rw [rowLabel_of_none hnone, rowLabel_of_none hnone]

/-- **Every row gets a label that belongs to it.** -/
theorem settles_rowLabel (policy : TiePolicy) (seed number : ℕ) (stream : KeyStream)
    (hrow : row.length = classes) (hclasses : classes ≤ Nat.pow 2 31) :
    policy.Settles classes row (rowLabel policy seed classes number row stream).1 where
  single c hc := by
    have hone : tiedClasses row = [c] := tiedClasses_eq_singleton_of_mem fun d => by
      rw [mem_tiedClasses_iff_near, hc]
    rw [rowLabel_of_single hone, ((hc c).2 rfl).classLabel_eq (hrow.trans_le hclasses)]
  none hnone := rowLabel_of_none (tiedClasses_eq_nil_iff.2 hnone)
  tied htied := by
    cases policy with
    | abstain => exact rowLabel_abstain fun c => htied.ne_singleton
    | random =>
      obtain ⟨c, hc, hlabel⟩ := exists_rowLabel_random htied.ne_nil
      have hnear := mem_tiedClasses_iff_near.1 hc
      exact ⟨c, hnear, hlabel.trans (hnear.classLabel_eq (hrow.trans_le hclasses))⟩
    | trueRandom =>
      obtain ⟨c, hc, hlabel⟩ := exists_rowLabel_trueRandom hrow htied.ne_nil
      exact ⟨c, hc, hlabel.trans (classLabel_of_lt (Nat.lt_of_lt_of_le hc hclasses))⟩

/-! ## The labels of a matrix -/

/-- **A label of a matrix is the label of its row**, for some stream. -/
theorem getElem?_labelsFrom {policy : TiePolicy} {seed i : ℕ} {stream : KeyStream}
    {m : Matrix Float32} {labels : List Int} (h : labelsFrom policy seed stream m = .ok labels)
    (hi : i < m.rows) (hrow : m.row i = .ok row) :
    ∃ stream', labels[i]? = some (rowLabel policy seed m.cols i row stream').1 := by
  obtain ⟨rows, hrows, h⟩ := bind_eq_ok_iff.1 h
  cases h
  have hlength : i < rows.length := (Matrix.shape_of_allRows hrows).1 ▸ hi
  have hget : rows[i]? = some row := by
    have hsame := Matrix.row_of_allRows hrows (List.getElem?_eq_getElem hlength)
    rw [List.getElem?_eq_getElem hlength, Except.ok.inj (hsame.symm.trans hrow)]
  have hlabel := @getElem?_rowLabels policy seed m.cols rows row i hget 0 stream
  rwa [Nat.zero_add] at hlabel

/-- **A policy touches only tied rows.** Every row of probabilities, of whatever
values, gets a label that belongs to it, if there is a label of 32 bits for every
column. Where the row is not tied, another policy with another seed and another
stream gives the same one, and a random label is given again wherever its row
stands at the same place and the seed is the same. -/
theorem labelsFrom_touches_only_ties {m : Matrix Float32} (hm : m.WellShaped)
    (policy policy' : TiePolicy) (seed seed' : ℕ) (stream stream' : KeyStream) :
    ∃ labels labels', labelsFrom policy seed stream m = .ok labels ∧
      labelsFrom policy' seed' stream' m = .ok labels' ∧
      labels.length = m.rows ∧ (∀ v ∈ labels, v = abstain ∨ 0 ≤ v ∧ v < m.cols) ∧
      ∀ i < m.rows, ∃ row label, m.row i = .ok row ∧ labels[i]? = some label ∧
        (m.cols ≤ Nat.pow 2 31 → policy.Settles m.cols row label) ∧
        (¬Tied row → labels'[i]? = some label) ∧
        (policy = .random → ∀ (n : Matrix Float32) (stream'' : KeyStream) (labels'' : List Int),
          labelsFrom .random seed stream'' n = .ok labels'' → i < n.rows → n.row i = .ok row →
            labels''[i]? = some label) := by
  obtain ⟨labels, hlabels⟩ : ∃ labels, labelsFrom policy seed stream m = .ok labels :=
    exists_labelsFrom hm stream
  obtain ⟨labels', hlabels'⟩ : ∃ labels', labelsFrom policy' seed' stream' m = .ok labels' :=
    exists_labelsFrom hm stream'
  obtain ⟨hlength, hvotes⟩ := labels_of_labelsFrom hlabels
  refine ⟨labels, labels', hlabels, hlabels', hlength, hvotes, fun i hi => ?_⟩
  obtain ⟨row, hrow, hwidth⟩ : ∃ row, m.row i = .ok row ∧ row.length = m.cols := by
    obtain ⟨rows, hrows⟩ := Matrix.exists_allRows hm
    obtain ⟨row, hrow⟩ := exists_mapM_eq_ok_iff.1 ⟨rows, hrows⟩ i (List.mem_range.2 hi)
    exact ⟨row, hrow, Matrix.length_of_row hrow⟩
  obtain ⟨left, hlabel⟩ := getElem?_labelsFrom hlabels hi hrow
  refine ⟨row, _, hrow, hlabel, settles_rowLabel policy seed i left hwidth, ?_, ?_⟩
  · -- what the rows before have left of the streams differs, and does not matter
    intro htied
    obtain ⟨left', hlabel'⟩ := getElem?_labelsFrom hlabels' hi hrow
    rw [hlabel', rowLabel_eq_of_not_tied htied policy policy' seed seed' i i m.cols left left']
  · rintro rfl n stream'' labels'' hlabels'' hin hsame
    obtain ⟨left'', hlabel''⟩ := getElem?_labelsFrom hlabels'' hin hsame
    rw [hlabel'', rowLabel_random m.cols left]

/-- A tie, one near class, a probability that is no number, an infinite one. -/
def mixedRows : Matrix Float32 :=
  .ofRowsOf 2 [[1, 1], [1, 0], [notANumber, 1], [infinity, 0]]

theorem labelsFrom_touches_only_ties_mixed : mixedRows.WellShaped ∧
    mixedRows.cols ≤ Nat.pow 2 31 ∧
    ∃ labels labels', labelsOf .random 7 mixedRows = .ok labels ∧
      labelsOf .trueRandom 8 mixedRows = .ok labels' ∧
      labels[1]? = some 0 ∧ labels'[1]? = some 0 ∧ labels[2]? = some 1 ∧ labels'[2]? = some 1 ∧
      labels[3]? = some abstain ∧ labels'[3]? = some abstain := by
  have hshape : mixedRows.WellShaped := by decide
  have hcols : mixedRows.cols ≤ Nat.pow 2 31 := by decide
  obtain ⟨labels, labels', hlabels, hlabels', -, -, hrows⟩ :=
    labelsFrom_touches_only_ties hshape .random .trueRandom 7 8 (.ofSeed 7) (.ofSeed 8)
  have hone : ∀ i row c, i < 4 → mixedRows.row i = .ok row → tiedClasses row = [c] →
      labels[i]? = some (c : Int) ∧ labels'[i]? = some (c : Int) := by
    intro i row c hi hrow htied
    obtain ⟨row', label, hrow', hlabel, hsettles, hsame, -⟩ := hrows i hi
    obtain rfl : row' = row := Except.ok.inj (hrow'.symm.trans hrow)
    have hc : label = c := (hsettles hcols).single c fun d => by
      rw [← mem_tiedClasses_iff_near, htied, List.mem_singleton]
    exact ⟨hc ▸ hlabel, hc ▸ hsame fun h => h.ne_singleton htied⟩
  have hnone : labels[3]? = some abstain ∧ labels'[3]? = some abstain := by
    obtain ⟨row, label, hrow, hlabel, hsettles, hsame, -⟩ := hrows 3 (by decide)
    obtain rfl : row = [infinity, 0] := Except.ok.inj (hrow.symm.trans rfl)
    have htied : tiedClasses [infinity, 0] = [] := by decide
    have hc := (hsettles hcols).none (tiedClasses_eq_nil_iff.1 htied)
    exact ⟨hc ▸ hlabel, hc ▸ hsame fun h => h.ne_nil htied⟩
  obtain ⟨hfirst, hfirst'⟩ := hone 1 [1, 0] 0 (by decide) rfl (by decide)
  obtain ⟨hlast, hlast'⟩ := hone 2 [notANumber, 1] 1 (by decide) rfl (by decide)
  exact ⟨hshape, hcols, labels, labels', hlabels, hlabels', hfirst, hfirst', hlast, hlast', hnone⟩

end RuleVote
