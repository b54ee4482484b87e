import Mathlib.Data.List.Perm.Basic
import RuleVote.Proofs.Matrix.Shape
/-!
# Computations row by row

A computation on a matrix is row-wise if it makes no difference whether rows are
selected before or after it (`Matrix.RowWise`): what it gives for a row does not
depend on the other rows, on how many there are or in which order they stand.
What is put together from a computation for each row is so
(`Matrix.rowWise_of_rows`), and one row-wise computation after another is
(`Matrix.RowWise.bind`).
-/

namespace RuleVote

variable {α β γ : Type}

/-! ## Members at given positions -/

/-- The members of a list at given positions, in their order. -/
def Picks (indices : List Nat) (items picked : List α) : Prop :=
  List.Forall₂ (fun i a => items[i]? = some a) indices picked

namespace Picks

variable {indices : List Nat} {items picked : List α}

theorem exists_of_lt (h : ∀ i ∈ indices, i < items.length) :
    ∃ picked, Picks indices items picked := by
  induction indices with
  | nil => exact ⟨[], .nil⟩
  | cons i indices ih =>
    obtain ⟨hi, hindices⟩ := List.forall_mem_cons.1 h
    obtain ⟨picked, hpicked⟩ := ih hindices
    exact ⟨items[i] :: picked, .cons (List.getElem?_eq_getElem hi) hpicked⟩

theorem mem (h : Picks indices items picked) {a : α} (ha : a ∈ picked) : a ∈ items := by
  induction h with
  | nil => cases ha
  | cons hi _ ih =>
    rcases List.mem_cons.1 ha with rfl | hmem
    · exact List.mem_of_getElem? hi
    · exact ih hmem

theorem map (h : Picks indices items picked) (f : α → β) :
    Picks indices (items.map f) (picked.map f) := by
  induction h with
  | nil => exact .nil
  | cons hi _ ih =>
    refine .cons ?_ ih
    rw [List.getElem?_map, hi, Option.map_some]

/-- **What is computed for the members is computed for those at the positions.** -/
theorem mapM {ε : Type} {f : α → Except ε β} {results : List β} (h : Picks indices items picked)
    (hresults : items.mapM f = .ok results) :
    ∃ found, picked.mapM f = .ok found ∧ Picks indices results found := by
  induction h with
  | nil => exact ⟨[], rfl, .nil⟩
  | @cons i a indices picked hi _ ih =>
    obtain ⟨found, hfound, hpicks⟩ := ih
    obtain ⟨hlt, rfl⟩ := List.getElem?_eq_some_iff.1 hi
    have hlt' : i < results.length := length_of_mapM hresults ▸ hlt
    have hresult := (mapM_eq_ok_iff.1 hresults).get hlt hlt'
    refine ⟨results[i] :: found, ?_, .cons (List.getElem?_eq_getElem hlt') hpicks⟩
    exact mapM_eq_ok_iff.2 (.cons hresult (mapM_eq_ok_iff.1 hfound))

/-- What is picked of two lists at the same positions belongs together. -/
theorem zip {others found : List β} (h : Picks indices items picked)
    (h' : Picks indices others found) : Picks indices (items.zip others) (picked.zip found) := by
  induction h generalizing found with
  | nil =>
    cases h'
    exact .nil
  | cons hi _ ih =>
    cases h' with
    | cons hi' hrest => exact .cons (List.getElem?_zip_eq_some.2 ⟨hi, hi'⟩) (ih hrest)

/-- What is picked part by part is picked in all. -/
theorem flatten {parts : List (List Nat)} {pickedParts : List (List α)}
    (h : List.Forall₂ (fun indices picked => Picks indices items picked) parts pickedParts) :
    Picks parts.flatten items pickedParts.flatten := by
  induction h with
  | nil => exact .nil
  | cons hpart _ ih => exact List.rel_append hpart ih

/-- **What is picked at every position once is the members in another order.** -/
theorem perm (h : Picks indices items picked) (hindices : indices.Perm (List.range items.length)) :
    picked.Perm items := by
  have hpicked : indices.map (items[·]?) = picked.map some := by
    rw [← List.forall₂_eq_eq_eq, List.forall₂_map_left_iff, List.forall₂_map_right_iff]
    exact h
  have hitems : (List.range items.length).map (items[·]?) = items.map some :=
    List.ext_getElem (by simp) fun i hi hi' => by simp
  have hperm := hindices.map (items[·]?)
  rw [hpicked, hitems] at hperm
  exact (List.map_perm_map_iff (fun _ _ => Option.some.inj)).1 hperm

end Picks

namespace Matrix

variable {f : Matrix α → Fallible (Matrix β)} {indices : List Nat}

/-- Rows that were read are selected by picking them. -/
theorem selectRows_of_picks {m : Matrix α} {rows picked : List (List α)}
    (hrows : m.allRows = .ok rows) (h : Picks indices rows picked) :
    m.selectRows indices = .ok (ofRowsOf m.cols picked) := by
  have hpicked : indices.mapM m.row = .ok picked := by
    refine mapM_eq_ok_iff.2 (List.Forall₂.imp (fun i r hr => ?_) h)
    exact row_of_allRows hrows hr
  exact bind_eq_ok_iff.2 ⟨picked, hpicked, rfl⟩

/-! ## Row-wise computations -/

/-- Where the computation succeeds, there are as many rows as before, and rows that
are selected first give what is selected of the result. -/
def RowWise (f : Matrix α → Fallible (Matrix β)) : Prop :=
  ∀ ⦃x p⦄, f x = .ok p → p.rows = x.rows ∧ ∀ indices : List Nat, (∀ i ∈ indices, i < x.rows) →
    ∃ x' p', x.selectRows indices = .ok x' ∧ f x' = .ok p' ∧ p.selectRows indices = .ok p'

/-- The same for a computation that gives one label for each row. -/
def RowWiseLabels (f : Matrix α → Fallible (List Int)) : Prop :=
  ∀ ⦃x labels⦄, f x = .ok labels → labels.length = x.rows ∧
    ∀ indices : List Nat, (∀ i ∈ indices, i < x.rows) →
      ∃ x' labels', x.selectRows indices = .ok x' ∧ f x' = .ok labels' ∧
        Picks indices labels labels'

/-- **A computation for each row makes a row-wise one**, if what else it asks of a
matrix it asks of any of its rows as well. -/
theorem rowWise_of_rows (row : List α → Fallible (List β))
    (h : ∀ x p, f x = .ok p → ∃ rows results cols, x.allRows = .ok rows ∧
      rows.mapM row = .ok results ∧ p = ofRowsOf cols results ∧
      (∀ q ∈ results, q.length = cols) ∧
      ∀ rows' results', (∀ r ∈ rows', r ∈ rows) → rows'.mapM row = .ok results' →
        f (ofRowsOf x.cols rows') = .ok (ofRowsOf cols results')) : RowWise f := by
  intro x p hp
  obtain ⟨rows, results, cols, hrows, hresults, rfl, hlength, hpart⟩ := h x p hp
  have hcount := (shape_of_allRows hrows).1
  refine ⟨(length_of_mapM hresults).trans hcount, fun indices hindices => ?_⟩
  obtain ⟨picked, hpicked⟩ : ∃ picked, Picks indices rows picked :=
    Picks.exists_of_lt fun i hi => hcount ▸ hindices i hi
  obtain ⟨found, hfound, hpicks⟩ := hpicked.mapM hresults
  exact ⟨_, _, selectRows_of_picks hrows hpicked, hpart picked found (fun r => hpicked.mem) hfound,
    selectRows_of_picks (allRows_ofRowsOf hlength) hpicks⟩

/-- The same where nothing can fail for a row. -/
theorem rowWise_of_map (row : List α → List β)
    (h : ∀ x p, f x = .ok p → ∃ rows cols, x.allRows = .ok rows ∧ p = ofRowsOf cols (rows.map row) ∧
      (∀ r ∈ rows, (row r).length = cols) ∧
      ∀ rows', (∀ r ∈ rows', r ∈ rows) →
        f (ofRowsOf x.cols rows') = .ok (ofRowsOf cols (rows'.map row))) : RowWise f := by
  refine rowWise_of_rows (fun r => .ok (row r)) fun x p hp => ?_
  obtain ⟨rows, cols, hrows, hresult, hlength, hpart⟩ := h x p hp
  refine ⟨rows, rows.map row, cols, hrows, List.mapM_pure, hresult, List.forall_mem_map.2 hlength,
    fun rows' results' hrows' hresults' => ?_⟩
  obtain rfl : rows'.map row = results' := Except.ok.inj (List.mapM_pure.symm.trans hresults')
  exact hpart rows' hrows'

/-- **One row-wise computation after another.** -/
theorem RowWise.bind {g : Matrix β → Fallible (Matrix γ)} (hf : RowWise f) (hg : RowWise g) :
    RowWise fun x => f x >>= g := by
  intro x p hp
  obtain ⟨y, hy, hp⟩ := bind_eq_ok_iff.1 hp
  obtain ⟨hrows, hselect⟩ := hf hy
  obtain ⟨hrows', hselect'⟩ := hg hp
  refine ⟨hrows'.trans hrows, fun indices hindices => ?_⟩
  obtain ⟨x', y', hx', hy', hyy'⟩ := hselect indices hindices
  obtain ⟨y'', p', hy'', hp', hpp'⟩ := hselect' indices fun i hi => hrows.symm ▸ hindices i hi
  obtain rfl : y' = y'' := Except.ok.inj (hyy'.symm.trans hy'')
  exact ⟨x', p', hx', bind_eq_ok_iff.2 ⟨y', hy', hp'⟩, hpp'⟩

theorem cols_of_selectRows {m m' : Matrix α} (h : m.selectRows indices = .ok m') :
    m'.cols = m.cols := by
  obtain ⟨rows, -, h⟩ := bind_eq_ok_iff.1 h
  obtain rfl := Except.ok.inj h
  rfl

theorem rows_of_selectRows {m m' : Matrix α} (h : m.selectRows indices = .ok m') :
    m'.rows = indices.length := by
  obtain ⟨rows, hrows, h⟩ := bind_eq_ok_iff.1 h
  obtain rfl := Except.ok.inj h
  exact length_of_mapM hrows

/-- A check of the columns does no harm: rows that are selected have the same. -/
theorem RowWise.guard (hf : RowWise f) (check : Nat → Fallible Unit) :
    RowWise fun x => check x.cols >>= fun _ => f x := by
  intro x p hp
  obtain ⟨_, hcheck, hp⟩ := bind_eq_ok_iff.1 hp
  obtain ⟨hrows, hselect⟩ := hf hp
  refine ⟨hrows, fun indices hindices => ?_⟩
  obtain ⟨x', p', hx', hp', hpp'⟩ := hselect indices hindices
  refine ⟨x', p', hx', bind_eq_ok_iff.2 ⟨(), ?_, hp'⟩, hpp'⟩
  rw [cols_of_selectRows hx']
  exact hcheck

/-- **A label for each row of a result** depends on no other row either. -/
theorem RowWise.labels (hf : RowWise f) (label : List β → Int) :
    RowWiseLabels fun x => do return (← (← f x).allRows).map label := by
  intro x labels hlabels
  obtain ⟨p, hp, hlabels⟩ := bind_eq_ok_iff.1 hlabels
  obtain ⟨rows, hrows, hlabels⟩ := bind_eq_ok_iff.1 hlabels
  obtain rfl : rows.map label = labels := Except.ok.inj hlabels
  obtain ⟨hsame, hselect⟩ := hf hp
  have hcount : rows.length = x.rows := (shape_of_allRows hrows).1.trans hsame
  refine ⟨(List.length_map _).trans hcount, fun indices hindices => ?_⟩
  obtain ⟨x', p', hx', hp', hpp'⟩ := hselect indices hindices
  obtain ⟨picked, hpicked⟩ : ∃ picked, Picks indices rows picked :=
    Picks.exists_of_lt fun i hi => hcount ▸ hindices i hi
  obtain rfl : ofRowsOf p.cols picked = p' :=
    Except.ok.inj ((selectRows_of_picks hrows hpicked).symm.trans hpp')
  have hrows' : (ofRowsOf p.cols picked).allRows = .ok picked :=
    allRows_ofRowsOf fun r hr => (shape_of_allRows hrows).2 r (hpicked.mem hr)
  exact ⟨x', picked.map label, hx',
    bind_eq_ok_iff.2 ⟨_, hp', bind_eq_ok_iff.2 ⟨picked, hrows', rfl⟩⟩, hpicked.map label⟩

end Matrix

end RuleVote
