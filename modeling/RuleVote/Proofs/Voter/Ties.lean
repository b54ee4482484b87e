import RuleVote.Proofs.Matrix.Shape
import RuleVote.Proofs.Number.Arithmetic
import RuleVote.Proofs.Random.Draw
import RuleVote.Voter.TieBreak
/-!
# Labels taken from probabilities

Every row of probabilities gets one label, which is the abstention or one of
the classes, under every policy and whatever is drawn (`isVote_of_rowLabel`).
Probabilities that are no numbers leave their row without a class near the
largest one, and so without a label.
-/

namespace RuleVote

variable {policy : TiePolicy} {seed classes : Nat}

/-! ## Tied classes -/

theorem hasValue_tieTolerance : HasValue tieTolerance (10995116 * 2 ^ (-40 : ℤ)) := by
  have hwrites : Writes tieTolerance.toModel.unpack ((10995116 : ℕ) * 2 ^ (-40 : ℤ)) :=
    .normal (by decide) (by decide) (by decide) (by decide) (by decide)
  exact_mod_cast hwrites

theorem mem_tiedClasses {row : List Float32} {c : Nat} : c ∈ tiedClasses row ↔
    ∃ p, row[c]? = some p ∧ (largest row - p).abs ≤ tieTolerance := by
  simp only [tiedClasses, List.mem_map, List.mem_filter, decide_eq_true_eq, Prod.exists,
    exists_eq_right, List.mk_mem_zipIdx_iff_getElem?]

theorem lt_length_of_mem_tiedClasses {row : List Float32} {c : Nat} (h : c ∈ tiedClasses row) :
    c < row.length := by
  obtain ⟨_, hp, -⟩ := mem_tiedClasses.1 h
  exact (List.getElem?_eq_some_iff.1 hp).1

theorem nodup_tiedClasses (row : List Float32) : (tiedClasses row).Nodup := by
  have hsublist : (tiedClasses row).Sublist (row.zipIdx.map Prod.snd) :=
    List.filter_sublist.map Prod.snd
  refine hsublist.nodup ?_
  rw [List.zipIdx_map_snd]
  exact List.nodup_range'

/-- A class that is counted alone is the only one in the list. -/
theorem tiedClasses_eq_singleton_of_mem {row : List Float32} {c : Nat}
    (h : ∀ d, d ∈ tiedClasses row ↔ d = c) : tiedClasses row = [c] := by
  refine List.perm_singleton.1 ((List.perm_ext_iff_of_nodup (nodup_tiedClasses row)
    (List.nodup_singleton c)).2 fun d => ?_)
  rw [h, List.mem_singleton]

/-! ## The label of a row -/

section

variable {number : Nat} {row : List Float32} {stream : KeyStream}

/-- A row without a class near its largest probability abstains. -/
theorem rowLabel_of_none (h : tiedClasses row = []) :
    (rowLabel policy seed classes number row stream).1 = abstain := by
  rw [rowLabel, h]

/-- A class that is near the largest probability alone has its label. -/
theorem rowLabel_of_single {c : Nat} (h : tiedClasses row = [c]) :
    (rowLabel policy seed classes number row stream).1 = classLabel c := by
  rw [rowLabel, h]

/-- A tied row abstains where the policy says so. -/
theorem rowLabel_abstain (h : ∀ c, tiedClasses row ≠ [c]) :
    (rowLabel .abstain seed classes number row stream).1 = abstain := by
  rw [rowLabel]
  split
  · rfl
  · next only honly => exact absurd honly (h only)
  · rfl

/-- **A random label is that of one of the tied classes.** -/
theorem exists_rowLabel_random (h : tiedClasses row ≠ []) :
    ∃ c ∈ tiedClasses row,
      (rowLabel .random seed classes number row stream).1 = classLabel c := by
  rw [rowLabel]
  split
  · next hnone => exact absurd hnone h
  · next only honly => exact ⟨only, honly ▸ List.mem_singleton_self only, rfl⟩
  · have hlt : tiedPosition number seed (tiedClasses row).length < (tiedClasses row).length :=
      Nat.mod_lt _ (List.length_pos_of_ne_nil h)
    rw [List.getElem?_eq_getElem hlt]
    exact ⟨_, List.getElem_mem hlt, rfl⟩

/-- A random label asks neither the stream nor how many classes there are. -/
theorem rowLabel_random (classes' : Nat) (stream' : KeyStream) :
    (rowLabel .random seed classes number row stream).1 =
      (rowLabel .random seed classes' number row stream').1 := by
  rw [rowLabel, rowLabel]
  split
  · rfl
  · rfl
  · dsimp only
    split
    · rfl
    · rfl

/-- A drawn label is that of a class. -/
theorem exists_rowLabel_trueRandom (hrow : row.length = classes) (h : tiedClasses row ≠ []) :
    ∃ c < classes, (rowLabel .trueRandom seed classes number row stream).1 = classLabel c := by
  have hclass : ∀ c ∈ tiedClasses row, c < classes :=
    fun c hc => hrow ▸ lt_length_of_mem_tiedClasses hc
  rw [rowLabel]
  split
  · next hnone => exact absurd hnone h
  · next only honly => exact ⟨only, hclass only (honly ▸ List.mem_singleton_self only), rfl⟩
  · -- a tied row has a class, so there is one to be drawn
    obtain ⟨c, hc⟩ := List.exists_mem_of_ne_nil _ h
    exact ⟨_, KeyStream.choice_lt (Nat.zero_lt_of_lt (hclass c hc)) stream, rfl⟩

end

/-- **A row gets a class or no label.** -/
theorem isVote_of_rowLabel {number : Nat} {row : List Float32} {stream : KeyStream}
    (hrow : row.length = classes) :
    let v := (rowLabel policy seed classes number row stream).1
    v = abstain ∨ 0 ≤ v ∧ v < classes := by
  have hclass : ∀ c ∈ tiedClasses row,
      classLabel c = abstain ∨ 0 ≤ classLabel c ∧ classLabel c < classes :=
    fun c hc => classLabel_below (hrow ▸ lt_length_of_mem_tiedClasses hc)
  by_cases hnone : tiedClasses row = []
  · exact .inl (rowLabel_of_none hnone)
  by_cases hone : ∃ c, tiedClasses row = [c]
  · obtain ⟨c, hc⟩ := hone
    rw [rowLabel_of_single hc]
    exact hclass c (hc ▸ List.mem_singleton_self c)
  · -- a tied row is left to the policy
    cases policy with
    | abstain => exact .inl (rowLabel_abstain fun c hc => hone ⟨c, hc⟩)
    | random =>
      obtain ⟨c, hc, hlabel⟩ := exists_rowLabel_random hnone
      rw [hlabel]
      exact hclass c hc
    | trueRandom =>
      obtain ⟨c, hc, hlabel⟩ := exists_rowLabel_trueRandom hrow hnone
      rw [hlabel]
      exact classLabel_below hc

/-! ## The labels of all rows -/

theorem rowLabels_cons (number : Nat) (row : List Float32) (rows : List (List Float32))
    (stream : KeyStream) : rowLabels policy seed classes number (row :: rows) stream =
      (rowLabel policy seed classes number row stream).1 ::
        rowLabels policy seed classes (number + 1) rows
          (rowLabel policy seed classes number row stream).2 := rfl

/-- **Every row gets the label that belongs to its number**, for the stream
that the rows before it have left. -/
theorem getElem?_rowLabels {rows : List (List Float32)} {row : List Float32} {i : Nat}
    (h : rows[i]? = some row) (number : Nat) (stream : KeyStream) :
    ∃ stream', (rowLabels policy seed classes number rows stream)[i]? =
      some (rowLabel policy seed classes (number + i) row stream').1 := by
  induction rows generalizing number stream i with
  | nil =>
    rw [List.getElem?_nil] at h
    exact absurd h (Option.some_ne_none row).symm
  | cons first rows ih =>
    cases i with
    | zero =>
      rw [List.getElem?_cons_zero] at h
      rw [rowLabels_cons, List.getElem?_cons_zero, Option.some.inj h, Nat.add_zero]
      exact ⟨stream, rfl⟩
    | succ i =>
      rw [List.getElem?_cons_succ] at h
      rw [rowLabels_cons, List.getElem?_cons_succ, ← Nat.add_assoc, Nat.add_right_comm]
      exact ih h (number + 1) _

theorem length_rowLabels : ∀ (rows : List (List Float32)) (number : Nat) (stream : KeyStream),
    (rowLabels policy seed classes number rows stream).length = rows.length
  | [], _, _ => rfl
  | _ :: rows, number, _ => congrArg (· + 1) (length_rowLabels rows (number + 1) _)

/-- Every label is the label of its row, for some stream. -/
theorem exists_of_rowLabels {rows : List (List Float32)} {number i : Nat} {stream : KeyStream}
    {label : Int} (h : (rowLabels policy seed classes number rows stream)[i]? = some label) :
    ∃ row n stream', rows[i]? = some row ∧
      label = (rowLabel policy seed classes n row stream').1 := by
  have hi : i < rows.length := by
    rw [← length_rowLabels rows number stream]
    exact (List.getElem?_eq_some_iff.1 h).1
  have hrow := List.getElem?_eq_getElem hi
  obtain ⟨stream', hlabel⟩ := getElem?_rowLabels hrow number stream
  exact ⟨rows[i], number + i, stream', hrow, Option.some.inj (h.symm.trans hlabel)⟩

theorem isVote_of_rowLabels : ∀ (rows : List (List Float32)) (number : Nat) (stream : KeyStream),
    (∀ row ∈ rows, row.length = classes) →
      ∀ v ∈ rowLabels policy seed classes number rows stream,
        v = abstain ∨ 0 ≤ v ∧ v < classes
  | [], _, _, _, v, hv => (List.not_mem_nil hv).elim
  | row :: rows, number, stream, hrows, v, hv => by
    obtain ⟨hrow, hrows⟩ := List.forall_mem_cons.1 hrows
    rcases List.mem_cons.1 hv with rfl | hv
    · exact isVote_of_rowLabel hrow
    · exact isVote_of_rowLabels rows (number + 1) _ hrows v hv

/-- **Every row gets one label.** -/
theorem labels_of_labelsFrom {stream : KeyStream} {m : Matrix Float32} {labels : List Int}
    (h : labelsFrom policy seed stream m = .ok labels) :
    labels.length = m.rows ∧ ∀ v ∈ labels, v = abstain ∨ 0 ≤ v ∧ v < m.cols := by
  obtain ⟨rows, hrows, h⟩ := bind_eq_ok_iff.1 h
  cases h
  obtain ⟨hlength, hwidth⟩ := Matrix.shape_of_allRows hrows
  exact ⟨(length_rowLabels rows 0 _).trans hlength, isVote_of_rowLabels rows 0 _ hwidth⟩

theorem exists_labelsFrom {m : Matrix Float32} (hm : m.WellShaped) (stream : KeyStream) :
    ∃ labels, labelsFrom policy seed stream m = .ok labels := by
  obtain ⟨rows, hrows⟩ := Matrix.exists_allRows hm
  exact ⟨_, bind_eq_ok_iff.2 ⟨rows, hrows, rfl⟩⟩

end RuleVote
