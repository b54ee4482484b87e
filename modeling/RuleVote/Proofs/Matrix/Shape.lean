import Mathlib.Algebra.BigOperators.Group.List.Lemmas
import RuleVote.Matrix
import RuleVote.Proofs.Outcome
import RuleVote.Proofs.Sequence
/-!
# Matrices of a known shape

A matrix with as many entries as its shape asks for has all of its rows
(`Matrix.exists_allRows`), each as long as the matrix is wide, and one that is put
together from rows of one length has such a shape (`Matrix.wellShaped_ofRowsOf`) and
these rows (`Matrix.allRows_ofRowsOf`).

A matrix of so many rows and columns (`Matrix.Sized`) is read without breaking
off as long as rows and columns stay below these numbers: its rows, entries
and columns are there, and so are the rows that are selected from it. What is
changed in place keeps its shape.

A row is the entries at its places (`Matrix.row_eq_ok_iff`), and a change is seen
at the places that it concerns. Where a function gives the entry of every place
(`Matrix.Holds`), it gives the rows and the columns.
-/

namespace RuleVote

namespace Matrix

/-! ## Rows -/

section

variable {α : Type} {m : Matrix α} {rows : List (List α)}

/-- A row is as long as the matrix is wide. -/
theorem length_of_row {i : Nat} {r : List α} (h : m.row i = .ok r) : r.length = m.cols := by
  have hr := orBreak_eq_ok_iff.1 h
  rw [row?] at hr
  split_ifs at hr with hle
  obtain rfl := Option.some.inj hr
  rw [Array.length_toList, Array.size_extract, Nat.min_eq_left hle]
  omega

/-- The rows that are read are as many and as long as the shape says. -/
theorem shape_of_allRows (h : m.allRows = .ok rows) :
    rows.length = m.rows ∧ ∀ r ∈ rows, r.length = m.cols := by
  have hlength := (mapM_eq_ok_iff.1 h).length_eq
  rw [List.length_range] at hlength
  refine ⟨hlength.symm, fun r hr => ?_⟩
  obtain ⟨i, -, hi⟩ := exists_of_mem_mapM h hr
  exact length_of_row hi

/-- **A matrix of its shape has all of its rows.** -/
theorem exists_allRows (hm : m.WellShaped) : ∃ rows, m.allRows = .ok rows := by
  refine exists_mapM_eq_ok_iff.2 fun i hi => ?_
  have hnext : (i + 1) * m.cols ≤ m.rows * m.cols :=
    Nat.mul_le_mul_right _ (List.mem_range.1 hi)
  rw [Nat.add_one_mul, ← show m.data.size = m.rows * m.cols from hm] at hnext
  exact ⟨_, orBreak_eq_ok_iff.2 (if_pos hnext)⟩

/-- Each of the rows is the row at its place. -/
theorem row_of_allRows (h : m.allRows = .ok rows) {i : Nat} {r : List α} (hr : rows[i]? = some r) :
    m.row i = .ok r := by
  obtain ⟨j, hj, hrow⟩ := exists_getElem?_of_mapM h hr
  obtain ⟨hi, rfl⟩ := List.getElem?_eq_some_iff.1 hj
  rwa [List.getElem_range] at hrow

/-- What stands in a row stands in the data. -/
theorem mem_of_row {i : Nat} {r : List α} (h : m.row i = .ok r) {a : α} (ha : a ∈ r) :
    a ∈ m.data.toList := by
  have hr := orBreak_eq_ok_iff.1 h
  rw [row?] at hr
  split_ifs at hr
  obtain rfl := Option.some.inj hr
  rw [Array.toList_extract, List.extract_eq_take_drop] at ha
  exact List.mem_of_mem_drop (List.mem_of_mem_take ha)

/-- The entries of the rows are those of the matrix. -/
theorem mem_of_allRows (h : m.allRows = .ok rows) {r : List α} (hr : r ∈ rows) {a : α}
    (ha : a ∈ r) : a ∈ m.data.toList := by
  obtain ⟨i, -, hi⟩ := exists_of_mem_mapM h hr
  exact mem_of_row hi ha

/-- A matrix of rows of one length is well shaped. -/
theorem wellShaped_ofRowsOf {cols : Nat} (h : ∀ r ∈ rows, r.length = cols) :
    (ofRowsOf cols rows).WellShaped := by
  have hlength : rows.flatten.length = rows.length * cols := by
    rw [List.length_flatten, List.map_congr_left h, List.map_const', List.sum_replicate_nat]
  exact hlength

theorem row_ofRowsOf {cols i : Nat} (h : ∀ r ∈ rows, r.length = cols) (hi : i < rows.length) :
    (ofRowsOf cols rows).row i = .ok rows[i] := by
  have hsum : ∀ n ≤ rows.length, ((rows.map List.length).take n).sum = n * cols := by
    intro n hn
    rw [List.map_congr_left h, List.map_const', List.take_replicate, List.sum_replicate_nat,
      Nat.min_eq_left hn]
  have hsize : (ofRowsOf cols rows).data.size = rows.length * cols := wellShaped_ofRowsOf h
  have hnext : (i + 1) * cols ≤ rows.length * cols := Nat.mul_le_mul_right _ hi
  rw [Nat.add_one_mul] at hnext
  refine orBreak_eq_ok_iff.2 ?_
  rw [row?, if_pos (hsize ▸ hnext), Array.toList_extract, List.extract_eq_take_drop]
  have hrow := List.drop_take_succ_flatten_eq_getElem rows i hi
  rw [hsum (i + 1) hi, hsum i (Nat.le_of_lt hi), List.drop_take] at hrow
  rw [← hrow, Nat.add_one_mul]
  rfl

/-- **A matrix has the rows that it was put together from.** -/
theorem allRows_ofRowsOf {cols : Nat} (h : ∀ r ∈ rows, r.length = cols) :
    (ofRowsOf cols rows).allRows = .ok rows := by
  refine mapM_eq_ok_iff.2 (List.forall₂_iff_get.2 ⟨List.length_range, fun i _ hi => ?_⟩)
  simpa using row_ofRowsOf h hi

end

/-! ## Shapes -/

section

variable {α : Type} {E : Failure → Prop} {m : Matrix α} {rows cols : Nat}

/-- So many rows and columns, and an entry in every place. -/
structure Sized (m : Matrix α) (rows cols : Nat) : Prop where
  rows_eq : m.rows = rows
  cols_eq : m.cols = cols
  size_eq : m.data.size = rows * cols

/-- A matrix whose data are as many as its places has the size that it says. -/
theorem WellShaped.sized (h : m.WellShaped) : m.Sized m.rows m.cols := ⟨rfl, rfl, h⟩

theorem Sized.wellShaped (h : m.Sized rows cols) : m.WellShaped := by
  rw [WellShaped, h.rows_eq, h.cols_eq, h.size_eq]

/-! ### Made -/

theorem sized_ofRowsOf {rs : List (List α)} (hlength : rs.length = rows)
    (h : ∀ r ∈ rs, r.length = cols) : (ofRowsOf cols rs).Sized rows cols :=
  hlength ▸ (wellShaped_ofRowsOf h).sized

theorem sized_ofRowsOf_map {β : Type} {f : β → List α} {bs : List β} (hlength : bs.length = rows)
    (h : ∀ b ∈ bs, (f b).length = cols) : (ofRowsOf cols (bs.map f)).Sized rows cols :=
  sized_ofRowsOf ((List.length_map f).trans hlength) (List.forall_mem_map.2 h)

/-- A matrix of one value has the size asked for. -/
theorem sized_uniform (rows cols : Nat) (value : α) : (uniform rows cols value).Sized rows cols :=
  ⟨rfl, rfl, Array.size_replicate⟩

/-- **A matrix that there is room for is filled.** -/
theorem filled_eq_ok_iff {value : α} :
    filled rows cols value = .ok m ↔ rows * cols < capacity ∧ m = uniform rows cols value := by
  rw [← reserve_eq_ok_iff, filled, bind_eq_ok_iff]
  constructor
  · rintro ⟨⟨⟩, hroom, h⟩
    exact ⟨hroom, (Except.ok.inj h).symm⟩
  · rintro ⟨hroom, rfl⟩
    exact ⟨(), hroom, rfl⟩

/-- A matrix of one value is made where there is room for it. -/
theorem ends_filled (hroom : rows * cols < capacity) (value : α) :
    Ends (filled rows cols value) E (·.Sized rows cols) :=
  .of_eq_ok (filled_eq_ok_iff.2 ⟨hroom, rfl⟩) (sized_uniform rows cols value)

/-- Other entries, as many as before. -/
theorem Sized.withData (h : m.Sized rows cols) {data : Array α}
    (hdata : data.size = m.data.size) : ({ m with data } : Matrix α).Sized rows cols :=
  ⟨h.rows_eq, h.cols_eq, hdata.trans h.size_eq⟩

/-! ### Read -/

/-- A row ends within the data. -/
theorem Sized.next_le (h : m.Sized rows cols) {i : Nat} (hi : i < rows) :
    i * m.cols + m.cols ≤ m.data.size := by
  rw [h.size_eq, h.cols_eq, ← Nat.add_one_mul]
  exact Nat.mul_le_mul_right _ hi

/-- **Each row of a matrix with its size is there**, and so are the rows, entries and
columns below. -/
theorem Sized.row (h : m.Sized rows cols) {i : Nat} (hi : i < rows) :
    Ends (m.row i) E fun r => r.length = cols ∧ r ⊆ m.data.toList := by
  have hrow : m.row i = .ok _ := orBreak_eq_ok_iff.2 (if_pos (h.next_le hi))
  exact .of_eq_ok hrow ⟨(length_of_row hrow).trans h.cols_eq, fun _ => mem_of_row hrow⟩

theorem Sized.allRows (h : m.Sized rows cols) : Ends m.allRows E fun rs =>
    rs.length = rows ∧ ∀ r ∈ rs, r.length = cols ∧ r ⊆ m.data.toList := by
  refine (Ends.mapM fun i hi => h.row (h.rows_eq ▸ List.mem_range.1 hi)).imp fun rs hrs => ?_
  rw [List.length_range, h.rows_eq] at hrs
  exact hrs

theorem Sized.entry (h : m.Sized rows cols) {i j : Nat} (hi : i < rows) (hj : j < cols) :
    Ends (m.entry i j) E (· ∈ m.data.toList) := by
  have hplace : i * m.cols + j < m.data.size := by
    have hnext := h.next_le hi
    rw [h.cols_eq] at hnext ⊢
    omega
  exact .orBreak (Array.getElem?_eq_getElem hplace) (Array.getElem_mem_toList hplace)

theorem Sized.column (h : m.Sized rows cols) {j : Nat} (hj : j < cols) :
    Ends (m.column j) E fun c => c.length = rows ∧ c ⊆ m.data.toList := by
  refine (Ends.mapM fun i hi => h.entry (h.rows_eq ▸ List.mem_range.1 hi) hj).imp fun c hc => ?_
  rw [List.length_range, h.rows_eq] at hc
  exact hc

/-- **Rows of a matrix make a matrix** of the same entries. -/
theorem Sized.selectRows (h : m.Sized rows cols) {indices : List Nat}
    (hindices : ∀ i ∈ indices, i < rows) : Ends (m.selectRows indices) E fun m' =>
      m'.Sized indices.length cols ∧ m'.data.toList ⊆ m.data.toList := by
  refine (Ends.mapM fun i hi => h.row (hindices i hi)).bind fun rs hrs => ?_
  obtain ⟨hlength, hrs⟩ := hrs
  refine .ok ⟨?_, fun a ha => ?_⟩
  · rw [h.cols_eq]
    exact sized_ofRowsOf hlength fun r hr => (hrs r hr).1
  · obtain ⟨r, hr, ha⟩ := List.mem_flatten.1 ha
    exact (hrs r hr).2 ha

/-! ### Changed -/

theorem Sized.setEntry (h : m.Sized rows cols) {i j : Nat} (hi : i < rows) (hj : j < cols)
    (value : α) : Ends (m.setEntry i j value) E (·.Sized rows cols) := by
  have hplace : i * m.cols + j < m.data.size := by
    have hnext := h.next_le hi
    rw [h.cols_eq] at hnext ⊢
    omega
  exact .of_eq_ok (if_pos hplace) (h.withData Array.size_setIfInBounds)

theorem Sized.fillRow (h : m.Sized rows cols) {i : Nat} (hi : i < rows) (value : α) :
    Ends (m.fillRow i value) E (·.Sized rows cols) := by
  have hnext := h.next_le hi
  refine .of_eq_ok (if_pos hnext) (h.withData ?_)
  rw [Array.size_append, Array.size_append, Array.size_extract, Array.size_replicate,
    Array.size_extract]
  omega

/-! ### The largest of a row -/

/-- The place of the largest number is a place of the list. -/
theorem argmax_lt {xs : List Float32} (hxs : xs ≠ []) : argmax xs < xs.length := by
  cases xs with
  | nil => exact absurd rfl hxs
  | cons x xs =>
    -- the position found so far is always one of the list
    have hstep : ∀ (later : List (Float32 × Nat)) (best : Nat × Float32),
        (∀ p ∈ later, p.2 < (x :: xs).length) → best.1 < (x :: xs).length →
        (later.foldl (fun best next => if best.2 < next.1 then (next.2, next.1) else best)
          best).1 < (x :: xs).length := by
      intro later
      induction later with
      | nil => exact fun _ _ hbest => hbest
      | cons p later ih =>
        intro best hlater hbest
        obtain ⟨hp, hlater⟩ := List.forall_mem_cons.1 hlater
        refine ih _ hlater ?_
        dsimp only
        split_ifs
        · exact hp
        · exact hbest
    refine hstep _ _ (fun p hp => ?_) (Nat.zero_lt_succ _)
    exact List.snd_lt_of_mem_zipIdx (l := x :: xs) hp

/-- Every row has a largest entry among the columns. -/
theorem Sized.argmaxRows {m : Matrix Float32} (h : m.Sized rows cols) (hcols : 0 < cols) :
    Ends m.argmaxRows E fun places => places.length = rows ∧ ∀ j ∈ places, j < cols := by
  refine h.allRows.bind fun rs hrs => .ok ⟨?_, fun j hj => ?_⟩
  · rw [List.length_map, hrs.1]
  · obtain ⟨r, hr, rfl⟩ := List.mem_map.1 hj
    obtain ⟨hlength, -⟩ := hrs.2 r hr
    have hlt := argmax_lt (List.ne_nil_of_length_pos (hlength ▸ hcols))
    rwa [hlength] at hlt

end

/-! ## Entries -/

variable {α : Type} {m m' : Matrix α} {i j : Nat} {r : List α} {value : α}

/-- **A row is the entries at its places.** -/
theorem row_eq_ok_iff : m.row i = .ok r ↔ i * m.cols + m.cols ≤ m.data.size ∧
    r.length = m.cols ∧ ∀ j < m.cols, r[j]? = m.data[i * m.cols + j]? := by
  have hread : ∀ j < m.cols, (m.data.extract (i * m.cols) (i * m.cols + m.cols)).toList[j]? =
      m.data[i * m.cols + j]? := by
    intro j hj
    rw [Array.getElem?_toList, Array.getElem?_extract]
    split_ifs with hlt
    · rfl
    · exact (Array.getElem?_eq_none (by omega)).symm
  rw [row, orBreak_eq_ok_iff, row?]
  split_ifs with hle
  · have hlength : (m.data.extract (i * m.cols) (i * m.cols + m.cols)).toList.length = m.cols := by
      rw [Array.length_toList, Array.size_extract]
      omega
    constructor
    · intro h
      obtain rfl := Option.some.inj h
      exact ⟨hle, hlength, hread⟩
    · rintro ⟨-, hr, hentries⟩
      refine congrArg some (List.ext_getElem? fun j => ?_)
      by_cases hj : j < m.cols
      · rw [hread j hj, hentries j hj]
      · rw [List.getElem?_eq_none (by omega), List.getElem?_eq_none (by omega)]
  · refine iff_of_false (fun h => ?_) fun h => hle h.1
    cases h

/-- What one place holds after a change. -/
theorem getElem?_setEntry (h : m.setEntry i j value = .ok m') (p : Nat) :
    m'.data[p]? = if p = i * m.cols + j then some value else m.data[p]? := by
  rw [setEntry] at h
  split_ifs at h with hlt
  · obtain rfl := Except.ok.inj h
    rw [Array.getElem?_setIfInBounds]
    grind
  · cases h

/-- What one place holds after a row was filled. -/
theorem getElem?_fillRow (h : m.fillRow i value = .ok m') (p : Nat) :
    m'.data[p]? = if i * m.cols ≤ p ∧ p < i * m.cols + m.cols then some value
      else m.data[p]? := by
  rw [fillRow] at h
  split_ifs at h with hle
  · obtain rfl := Except.ok.inj h
    simp only [Array.getElem?_append, Array.getElem?_extract, Array.getElem?_replicate,
      Array.size_append, Array.size_extract, Array.size_replicate]
    grind
  · cases h

/-- Entries that stay leave their row. -/
theorem row_congr {rows cols : Nat} (hm : m.Sized rows cols) (hm' : m'.Sized rows cols)
    (hentries : ∀ j < cols, m'.data[i * cols + j]? = m.data[i * cols + j]?)
    (hr : m.row i = .ok r) : m'.row i = .ok r := by
  rw [row_eq_ok_iff, hm.cols_eq, hm.size_eq] at hr
  rw [row_eq_ok_iff, hm'.cols_eq, hm'.size_eq]
  exact ⟨hr.1, hr.2.1, fun j hj => (hr.2.2 j hj).trans (hentries j hj).symm⟩

/-! ### Given entries -/

/-- A function gives the entry of every place. -/
def Holds (m : Matrix α) (f : Nat → Nat → α) : Prop :=
  ∀ i < m.rows, ∀ j < m.cols, m.data[i * m.cols + j]? = some (f i j)

variable {f : Nat → Nat → α}

/-- The row of a matrix that holds a function is that of its values. -/
theorem Holds.row (h : m.Holds f) (hi : i < m.rows) :
    m.row i = .ok ((List.range m.cols).map (f i)) := by
  refine row_eq_ok_iff.2 ⟨?_, by simp, fun j hj => ?_⟩
  · rcases Nat.eq_zero_or_pos m.cols with hcols | hcols
    · rw [hcols]
      exact Nat.zero_le _
    · -- the last entry of the row is there
      obtain ⟨hlast, -⟩ := Array.getElem?_eq_some_iff.1 (h i hi (m.cols - 1) (by omega))
      omega
  · rw [h i hi j hj, List.getElem?_map, List.getElem?_range hj]
    rfl

/-- The rows of a matrix that holds a function are those of its values. -/
theorem Holds.allRows (h : m.Holds f) :
    m.allRows = .ok ((List.range m.rows).map fun i => (List.range m.cols).map (f i)) := by
  refine mapM_eq_ok_iff.2 (List.forall₂_map_right_iff.2 (List.forall₂_same.2 fun i hi => ?_))
  exact h.row (List.mem_range.1 hi)

theorem Holds.column (h : m.Holds f) (hj : j < m.cols) :
    m.column j = .ok ((List.range m.rows).map (f · j)) := by
  refine mapM_eq_ok_iff.2 (List.forall₂_map_right_iff.2 (List.forall₂_same.2 fun i hi => ?_))
  exact orBreak_eq_ok_iff.2 (h i (List.mem_range.1 hi) j hj)

end Matrix

end RuleVote
