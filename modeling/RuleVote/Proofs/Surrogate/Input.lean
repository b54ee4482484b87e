import RuleVote.Proofs.Matrix.Shape
import RuleVote.Proofs.Voter.Probabilities
import RuleVote.Surrogate.Input
/-!
# Input that goes together

The targets of a valid input are as many as its rows and name its classes
(`SurrogateInput.Valid`). Such an input is accepted, and its labels and
distributions are there: a label of every row that is a class or an
abstention (`SurrogateInput.Valid.referenceLabels`), and a distribution over
the classes for every row, where there is room for them
(`SurrogateInput.Valid.softTargets`).

A row gets a label by having all of its mass put on it; every other row of the
matrix stays as it is (`Matrix.Sized.labeled`), also where many rows get their
labels one after the other (`Matrix.Sized.labeled_foldlM`). The label is found
again as the position of the largest entry (`Matrix.argmax_massOn`).
-/

namespace RuleVote

/-- Abstentions and classes below a number. -/
def LabelsBelow (classes : Nat) (labels : List Int) : Prop :=
  ∀ l ∈ labels, l = abstain ∨ 0 ≤ l ∧ l < classes

/-- Targets for so many rows and classes. -/
def Targets.Fit (rows classes : Nat) : Targets → Prop
  | .hard labels => labels.length = rows ∧ LabelsBelow classes labels
  | .soft probabilities => probabilities.Sized rows classes
  | .votes cast labels => cast.Sized rows cast.cols ∧ LabelsBelow classes cast.data.toList ∧
    labels.length = rows ∧ LabelsBelow classes labels

namespace SurrogateInput

variable {E : Failure → Prop} {input : SurrogateInput} {targets : Targets} {rows classes : Nat}

/-- The parts of an input go together. -/
structure Valid (input : SurrogateInput) : Prop where
  features : input.features.WellShaped
  targets : input.targets.Fit input.features.rows input.classes
  two_le : 2 ≤ input.classes

/-! ## Accepted -/

theorem new_eq_ok_iff {features : Matrix Float32} : new features targets classes = .ok input ↔
    2 ≤ classes ∧ checkTargets features.rows classes targets = .ok () ∧
      input = ⟨features, targets, classes⟩ := by
  rw [new]
  dsimp only
  split_ifs with hfew
  · refine ⟨nofun, ?_⟩
    rintro ⟨htwo, -⟩
    exact absurd hfew (Nat.not_lt.2 htwo)
  · constructor
    · intro h
      obtain ⟨_, hcheck, h⟩ := bind_eq_ok_iff.1 h
      exact ⟨Nat.not_lt.1 hfew, hcheck, (Except.ok.inj h).symm⟩
    · rintro ⟨-, hcheck, rfl⟩
      exact bind_eq_ok_iff.2 ⟨(), hcheck, rfl⟩

theorem checkLabels_eq_ok {labels : List Int} (h : LabelsBelow classes labels) :
    checkLabels labels classes = .ok () := by
  have hnone : labels.find? (fun l => !isVote classes l) = none := by
    refine List.find?_eq_none.2 fun l hl => ?_
    have hvote : isVote classes l = true := by
      rw [isVote, Bool.or_eq_true, beq_iff_eq, Bool.and_eq_true, decide_eq_true_iff,
        decide_eq_true_iff]
      exact h l hl
    rw [hvote]
    exact Bool.false_ne_true
  rw [checkLabels, hnone]

theorem checkTargets_eq_ok (h : targets.Fit rows classes) :
    checkTargets rows classes targets = .ok () := by
  cases targets with
  | hard labels =>
    obtain ⟨hlength, hlabels⟩ := h
    exact bind_eq_ok_iff.2 ⟨(), if_pos hlength, checkLabels_eq_ok hlabels⟩
  | soft probabilities =>
    refine bind_eq_ok_iff.2 ⟨(), if_pos h.rows_eq, ?_⟩
    rw [if_neg (not_not_intro h.cols_eq)]
    rfl
  | votes votes labels =>
    obtain ⟨hvotes, hvalid, hlength, hlabels⟩ := h
    refine bind_eq_ok_iff.2 ⟨(), if_pos hvotes.rows_eq, ?_⟩
    refine bind_eq_ok_iff.2 ⟨(), if_pos hlength, ?_⟩
    exact bind_eq_ok_iff.2 ⟨(), checkVotes_eq_ok hvalid, checkLabels_eq_ok hlabels⟩

/-- **Parts that go together are accepted.** -/
theorem Valid.new_eq_ok (h : input.Valid) :
    new input.features input.targets input.classes = .ok input := by
  rw [new]
  dsimp only
  rw [if_neg (Nat.not_lt.2 h.two_le), checkTargets_eq_ok h.targets]
  rfl

/-! ## Labels and distributions -/

/-- **Every row has a label**, a class or an abstention. -/
theorem Valid.referenceLabels (h : input.Valid) : Ends input.referenceLabels E fun labels =>
    labels.length = input.features.rows ∧ LabelsBelow input.classes labels := by
  obtain ⟨features, targets, classes⟩ := input
  have htargets := h.targets
  cases targets with
  | hard labels => exact .ok htargets
  | votes votes labels => exact .ok htargets.2.2
  | soft probabilities =>
    have hclasses : 0 < classes := Nat.lt_of_lt_of_le Nat.zero_lt_two h.two_le
    refine (Matrix.Sized.argmaxRows htargets hclasses).bind fun places hplaces => .ok ⟨?_, ?_⟩
    · rw [List.length_map, hplaces.1]
    · exact List.forall_mem_map.2 fun j hj => classLabel_below (hplaces.2 j hj)

/-- A row whose mass is put on its label. -/
theorem ends_putLabel {m : Matrix Float32} (hm : m.Sized rows classes) {label : Int × Nat}
    (hlabel : label.1 < classes) (hrow : label.2 < rows) :
    Ends (putLabel m label) E (·.Sized rows classes) := by
  refine .ite (fun _ => .ok hm) fun hneg => ?_
  refine (hm.fillRow hrow 0).bind fun m' hm' => ?_
  exact hm'.setEntry hrow (by omega) 1

/-- Rows whose mass is put on their labels, one after the other. -/
theorem ends_putLabels {labels : List Int} (hbelow : LabelsBelow classes labels)
    {m : Matrix Float32} (hm : m.Sized labels.length classes) :
    Ends (labels.zipIdx.foldlM putLabel m) E (·.Sized labels.length classes) := by
  refine Ends.foldlM (fun m hm label hlabel => ?_) hm
  refine ends_putLabel hm ?_ (List.snd_lt_of_mem_zipIdx (l := labels) hlabel)
  rcases hbelow label.1 (List.fst_mem_of_mem_zipIdx hlabel) with habstain | ⟨-, hlt⟩
  · rw [habstain]
    exact Int.lt_of_lt_of_le (by decide) (Int.natCast_nonneg classes)
  · exact hlt

/-- **Every row has a distribution over the classes**, where there is room for
them. -/
theorem Valid.softTargets (h : input.Valid)
    (hroom : input.features.rows * input.classes < capacity) :
    Ends input.softTargets E (·.Sized input.features.rows input.classes) := by
  obtain ⟨features, targets, classes⟩ := input
  have hlabels : ∀ labels : List Int, labels.length = features.rows → LabelsBelow classes labels →
      Ends (do
        let even ← Matrix.filled labels.length classes (1 / ofCount classes)
        labels.zipIdx.foldlM putLabel even) E (·.Sized features.rows classes) := by
    intro labels hlength hbelow
    rw [← hlength] at hroom ⊢
    exact (Matrix.ends_filled hroom _).bind fun even heven => ends_putLabels hbelow heven
  have htargets := h.targets
  cases targets with
  | hard labels => exact hlabels labels htargets.1 htargets.2
  | votes votes labels => exact hlabels labels htargets.2.2.1 htargets.2.2.2
  | soft probabilities => exact .ok htargets

/-- Distributions that were made are as many as the rows. -/
theorem Valid.sized_softTargets (h : input.Valid) {m : Matrix Float32}
    (hm : input.softTargets = .ok m) : m.Sized input.features.rows input.classes := by
  obtain ⟨features, targets, classes⟩ := input
  have hlabels : ∀ labels : List Int, labels.length = features.rows → LabelsBelow classes labels →
      (do
        let even ← Matrix.filled labels.length classes (1 / ofCount classes)
        labels.zipIdx.foldlM putLabel even) = .ok m → m.Sized features.rows classes := by
    intro labels hlength hbelow hm
    obtain ⟨even, heven, hput⟩ := bind_eq_ok_iff.1 hm
    obtain ⟨-, rfl⟩ := Matrix.filled_eq_ok_iff.1 heven
    rw [← hlength]
    exact (ends_putLabels (E := fun _ => True) hbelow (Matrix.sized_uniform _ _ _)).of_ok hput
  have htargets := h.targets
  cases targets with
  | hard labels => exact hlabels labels htargets.1 htargets.2 hm
  | votes votes labels => exact hlabels labels htargets.2.2.1 htargets.2.2.2 hm
  | soft probabilities => exact Except.ok.inj hm ▸ htargets

end SurrogateInput

/-! ## Rows that get a label -/

/-- All of the mass of a row on one class. -/
def massOn (classes place : Nat) : List Float32 := (List.replicate classes 0).set place 1

namespace Matrix

variable {i k : Nat}

/-! ### The row of a label -/

variable {m m' : Matrix Float32} {rows classes : Nat} {label : Int} {r : List Float32}

/-- **One row gets its label**, and the others stay. -/
structure Labeled (m m' : Matrix Float32) (rows classes i place : Nat) : Prop where
  sized : m'.Sized rows classes
  row : m'.row i = .ok (massOn classes place)
  others : ∀ k r, k ≠ i → m.row k = .ok r → m'.row k = .ok r

theorem Sized.labeled (hm : m.Sized rows classes) (hi : i < rows) (hneg : 0 ≤ label)
    (hlt : label < classes) (h : SurrogateInput.putLabel m (label, i) = .ok m') :
    m.Labeled m' rows classes i label.toNat := by
  rw [SurrogateInput.putLabel, if_neg (Int.not_lt.2 hneg)] at h
  obtain ⟨cleared, hclear, hset⟩ := bind_eq_ok_iff.1 h
  have hcleared : cleared.Sized rows classes :=
    (hm.fillRow (E := fun _ => False) hi 0).of_ok hclear
  have hplace : label.toNat < classes := by omega
  have hm' : m'.Sized rows classes :=
    (hcleared.setEntry (E := fun _ => False) hi hplace 1).of_ok hset
  have hentry : ∀ p, m'.data[p]? = if p = i * classes + label.toNat then some 1
      else if i * classes ≤ p ∧ p < i * classes + classes then some 0 else m.data[p]? := by
    intro p
    rw [getElem?_setEntry hset, getElem?_fillRow hclear, hcleared.cols_eq, hm.cols_eq]
  refine ⟨hm', ?_, fun k r hk hr => row_congr hm hm' (fun j hj => ?_) hr⟩
  · rw [row_eq_ok_iff, hm'.cols_eq]
    refine ⟨hm'.cols_eq ▸ hm'.next_le hi, by rw [massOn, List.length_set, List.length_replicate],
      fun j hj => ?_⟩
    rw [hentry, massOn, List.getElem?_set, List.length_replicate, List.getElem?_replicate]
    grind
  · -- a place in another row lies before the row of the label or after it
    have hplaces : k * classes + classes ≤ i * classes ∨ i * classes + classes ≤ k * classes := by
      rw [← Nat.add_one_mul, ← Nat.add_one_mul]
      rcases Nat.lt_or_gt_of_ne hk with hlt | hgt
      · exact .inl (Nat.mul_le_mul_right _ hlt)
      · exact .inr (Nat.mul_le_mul_right _ hgt)
    rw [hentry, if_neg (by omega), if_neg (by omega)]

/-- **Rows get their labels one after the other.** -/
theorem Sized.labeled_foldlM (hm : m.Sized rows classes) {labels : List (Int × Nat)}
    (hlabels : ∀ l ∈ labels, l.2 < rows ∧ 0 ≤ l.1 ∧ l.1 < classes)
    (hdistinct : (labels.map Prod.snd).Nodup)
    (h : labels.foldlM SurrogateInput.putLabel m = .ok m') :
    (∀ l ∈ labels, m'.row l.2 = .ok (massOn classes l.1.toNat)) ∧
      ∀ k r, k ∉ labels.map Prod.snd → m.row k = .ok r → m'.row k = .ok r := by
  induction labels generalizing m with
  | nil =>
    obtain rfl := Except.ok.inj h
    exact ⟨nofun, fun k r _ hr => hr⟩
  | cons l labels ih =>
    obtain ⟨⟨hi, hneg, hlt⟩, hlabels⟩ := List.forall_mem_cons.1 hlabels
    rw [List.map_cons, List.nodup_cons] at hdistinct
    rw [List.foldlM_cons] at h
    obtain ⟨m₁, hput, h⟩ := bind_eq_ok_iff.1 h
    have hlabeled := hm.labeled hi hneg hlt hput
    obtain ⟨hrows, hothers⟩ := ih hlabeled.sized hlabels hdistinct.2 h
    constructor
    · exact List.forall_mem_cons.2 ⟨hothers _ _ hdistinct.1 hlabeled.row, hrows⟩
    · intro k r hk hr
      rw [List.map_cons, List.mem_cons, not_or] at hk
      exact hothers k r hk.2 (hlabeled.others k r hk.1 hr)

/-! ### The label of a row -/

/-- The largest entry so far stays the largest before nothing but zeros. -/
theorem foldl_largest_zeros (best : Nat × Float32) (h : ¬best.2 < 0) (n k : Nat) :
    ((List.replicate n (0 : Float32)).zipIdx k).foldl
      (fun best next => if best.2 < next.1 then (next.2, next.1) else best) best = best := by
  induction n generalizing k with
  | zero => rfl
  | succ n ih => rw [List.replicate_succ, List.zipIdx_cons, List.foldl_cons, if_neg h, ih]

theorem argmax_cons {x : Float32} (hx : ¬x < x) (xs : List Float32) : argmax (x :: xs) =
    ((xs.zipIdx 1).foldl (fun best next => if best.2 < next.1 then (next.2, next.1) else best)
      (0, x)).1 := by
  rw [argmax, List.zipIdx_cons, List.foldl_cons, if_neg hx]

/-- **The class with all of the mass is the most probable one.** -/
theorem argmax_massOn {place : Nat} (h : place < classes) :
    argmax (massOn classes place) = place := by
  have hzero : ¬(0 : Float32) < 0 := by decide +kernel
  have hone : ¬(1 : Float32) < 0 ∧ ¬(1 : Float32) < 1 ∧ (0 : Float32) < 1 := by decide +kernel
  have hsplit : massOn classes place =
      List.replicate place 0 ++ 1 :: List.replicate (classes - (place + 1)) 0 := by
    rw [massOn, List.set_eq_take_append_cons_drop, List.length_replicate, if_pos h,
      List.take_replicate, List.drop_replicate, Nat.min_eq_left (Nat.le_of_lt h)]
  rw [hsplit]
  cases place with
  | zero =>
    rw [List.replicate_zero, List.nil_append, argmax_cons hone.2.1,
      foldl_largest_zeros (0, 1) hone.1]
  | succ place =>
    rw [List.replicate_succ, List.cons_append, argmax_cons hzero, List.zipIdx_append,
      List.foldl_append, foldl_largest_zeros (0, 0) hzero, List.zipIdx_cons, List.foldl_cons]
    dsimp only
    rw [if_pos hone.2.2, foldl_largest_zeros (_, 1) hone.1, List.length_replicate]
    exact Nat.add_comm 1 place

/-- The label of every row is read off that row. -/
theorem getElem?_argmaxRows {places : List Nat} (h : m.argmaxRows = .ok places) (hi : i < m.rows)
    (hr : m.row i = .ok r) : places[i]? = some (argmax r) := by
  obtain ⟨rs, hrs, h⟩ := bind_eq_ok_iff.1 h
  obtain rfl := Except.ok.inj h
  have hlt : i < rs.length := (shape_of_allRows hrs).1 ▸ hi
  have hrow := row_of_allRows hrs (List.getElem?_eq_getElem hlt)
  rw [List.getElem?_map, List.getElem?_eq_getElem hlt, Except.ok.inj (hrow.symm.trans hr)]
  rfl

end Matrix

end RuleVote
