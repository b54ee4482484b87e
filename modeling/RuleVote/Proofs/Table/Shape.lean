import Mathlib.Data.List.Induction
import Mathlib.Data.List.Nodup
import Mathlib.Data.Option.Basic
import RuleVote.FeatureTable
import RuleVote.Proofs.Sequence
/-!
# The shape of feature tables

A table is made from keys and columns, given a column of labels, reduced to
some features or to some items. Keys and columns are accepted exactly when the
keys are distinct and the columns have distinct names and a number for every
item (`new_eq_ok_iff`). However a table was made, its columns have distinct names
and one number for every item (`Built.regular`), so the row of an item has all the
features of its table (`Shaped.row_ne_none`). Its keys are found where they stand
exactly if they are distinct (`nodup_iff_lastIndexOf?`), which a selection of rows
keeps only if it names none twice (`nodup_keys_of_selectRows`).
-/

namespace RuleVote

namespace FeatureTable

/-- A table that was made by the operations on tables. -/
inductive Built : FeatureTable → Prop
  | new {keys : List String} {columns : List (Column Float32)} {t : FeatureTable}
      (h : new keys columns = .ok t) : Built t
  | withLabelColumn {t t' : FeatureTable} {c : Column Int} (ht : Built t)
      (h : t.withLabelColumn c = .ok t') : Built t'
  | select {t t' : FeatureTable} {names : List String} (ht : Built t)
      (h : t.select names = .ok t') : Built t'
  | selectRows {t t' : FeatureTable} {indices : List Nat} (ht : Built t)
      (h : t.selectRows indices = .ok t') : Built t'

/-- Every column has one number for each item. -/
def Shaped (t : FeatureTable) : Prop := ∀ c ∈ t.columns, c.values.length = t.size

/-! ## Made from parts -/

/-- No key is found twice if and only if all of them are different and new. -/
theorem firstRepeated?_eq_none_iff {keys seen : List String} :
    firstRepeated? seen keys = none ↔ keys.Nodup ∧ ∀ key ∈ keys, key ∉ seen := by
  induction keys generalizing seen with
  | nil => simp [firstRepeated?]
  | cons key keys ih =>
    rw [firstRepeated?]
    by_cases hseen : seen.contains key = true
    · have hmem : key ∈ seen := List.contains_iff_mem.1 hseen
      rw [if_pos hseen]
      simp [hmem]
    · have hmem : key ∉ seen := fun hmem => hseen (List.contains_iff_mem.2 hmem)
      rw [if_neg hseen, ih]
      grind

/-- What the check of columns finds of the first of them. -/
theorem checkColumns_cons_iff {items : Nat} {seen : List String} {c : Column Float32}
    {columns : List (Column Float32)} : checkColumns items seen (c :: columns) = .ok () ↔
      c.name ≠ "" ∧ c.values.length = items ∧ c.name ∉ seen ∧
        checkColumns items (c.name :: seen) columns = .ok () := by
  rw [checkColumns]
  by_cases hempty : c.name.isEmpty = true
  · rw [if_pos hempty]
    exact ⟨nofun, fun h => absurd (String.isEmpty_iff.1 hempty) h.1⟩
  · have hname : c.name ≠ "" := fun hname => hempty (String.isEmpty_iff.2 hname)
    rw [if_neg hempty]
    dsimp only
    by_cases hlength : c.values.length = items
    · rw [if_neg (not_not_intro hlength)]
      by_cases hseen : seen.contains c.name = true
      · rw [if_pos hseen]
        exact ⟨nofun, fun h => absurd (List.contains_iff_mem.1 hseen) h.2.2.1⟩
      · rw [if_neg hseen]
        have hmem : c.name ∉ seen := fun hmem => hseen (List.contains_iff_mem.2 hmem)
        exact ⟨fun h => ⟨hname, hlength, hmem, h⟩, fun h => h.2.2.2⟩
    · rw [if_pos hlength]
      exact ⟨nofun, fun h => absurd h.2.1 hlength⟩

/-- **Columns pass the check if and only if they have names of their own and one value
for each item.** -/
theorem checkColumns_eq_ok_iff {items : Nat} {seen : List String}
    {columns : List (Column Float32)} : checkColumns items seen columns = .ok () ↔
      (∀ c ∈ columns, c.name ≠ "" ∧ c.values.length = items ∧ c.name ∉ seen) ∧
        (columns.map Column.name).Nodup := by
  induction columns generalizing seen with
  | nil => simp [checkColumns]
  | cons c columns ih =>
    rw [checkColumns_cons_iff, ih, List.map_cons, List.nodup_cons, List.forall_mem_cons,
      List.mem_map]
    grind

/-- **When a table is accepted**: the keys are distinct, and the columns have
distinct names and a number for every item. -/
theorem new_eq_ok_iff {keys : List String} {columns : List (Column Float32)} {t : FeatureTable} :
    new keys columns = .ok t ↔ t = ⟨keys, columns, none⟩ ∧ keys.Nodup ∧
      (columns.map Column.name).Nodup ∧
        ∀ c ∈ columns, c.name ≠ "" ∧ c.values.length = keys.length := by
  have hkeys : firstRepeated? [] keys = none ↔ keys.Nodup := by
    simp [firstRepeated?_eq_none_iff]
  have hcolumns : checkColumns keys.length [] columns = .ok () ↔
      (∀ c ∈ columns, c.name ≠ "" ∧ c.values.length = keys.length) ∧
        (columns.map Column.name).Nodup := by
    simp [checkColumns_eq_ok_iff]
  rw [new]
  cases hrepeated : firstRepeated? [] keys with
  | some key =>
    constructor
    · intro h
      cases h
    · rintro ⟨-, hnodup, -⟩
      rw [hkeys.2 hnodup] at hrepeated
      cases hrepeated
  | none =>
    constructor
    · intro h
      obtain ⟨_, -, h⟩ := bind_eq_ok_iff.1 h
      obtain ⟨_, hcheck, h⟩ := bind_eq_ok_iff.1 h
      cases h
      obtain ⟨hall, hnames⟩ := hcolumns.1 hcheck
      exact ⟨rfl, hkeys.1 hrepeated, hnames, hall⟩
    · rintro ⟨rfl, -, hnames, hall⟩
      exact bind_eq_ok_iff.2 ⟨(), rfl, bind_eq_ok_iff.2 ⟨(), hcolumns.2 ⟨hall, hnames⟩, rfl⟩⟩

variable {t t' : FeatureTable} {name : String} {indices : List Nat}

/-! ## Read -/

/-- A feature is found under its name. -/
theorem exists_column? (hname : t.hasColumn name = true) :
    ∃ c ∈ t.columns, c.name = name ∧ t.column? name = some c.values := by
  obtain ⟨values, hvalues⟩ := Option.isSome_iff_exists.1 hname
  obtain ⟨c, hc, rfl⟩ := Option.map_eq_some_iff.1 hvalues
  exact ⟨c, List.mem_of_find?_eq_some hc, by simpa using List.find?_some hc, hvalues⟩

theorem hasColumn_of_mem {c : Column Float32} (hc : c ∈ t.columns) :
    t.hasColumn c.name = true := by
  rw [hasColumn, column?, Option.isSome_map, List.find?_isSome]
  exact ⟨c, hc, decide_eq_true rfl⟩

/-- The names of the columns. -/
def names (t : FeatureTable) : List String := t.columns.map Column.name

/-- A table has the columns with its names. -/
theorem hasColumn_iff_mem : t.hasColumn name = true ↔ name ∈ t.names := by
  constructor
  · intro h
    obtain ⟨c, hc, rfl, -⟩ := exists_column? h
    exact List.mem_map_of_mem hc
  · intro h
    obtain ⟨c, hc, rfl⟩ := List.mem_map.1 h
    exact hasColumn_of_mem hc

/-- A column is missing if its name is none of the table. -/
theorem column?_eq_none_iff : t.column? name = none ↔ name ∉ t.names := by
  rw [← hasColumn_iff_mem, hasColumn, Option.not_isSome_iff_eq_none]

/-- A column is the one that its name stands for. -/
theorem column?_of_mem (h : t.names.Nodup) {c : Column Float32} (hc : c ∈ t.columns) :
    t.column? c.name = some c.values := by
  obtain ⟨c', hc', hname, hvalues⟩ := exists_column? (hasColumn_of_mem hc)
  rw [hvalues, List.inj_on_of_nodup_map h hc' hc hname]

/-! ## Columns of the right shape -/

/-- Columns of distinct names, all as long as the table. Nothing is asked of the
keys. -/
structure Regular (t : FeatureTable) : Prop where
  names : t.names.Nodup
  column : ∀ c ∈ t.columns, c.name ≠ "" ∧ c.values.length = t.size
  label : ∀ c ∈ t.labelColumn, c.name ∉ t.names ∧ c.values.length = t.size

/-- A regular table is shaped. -/
theorem Regular.shaped (h : t.Regular) : t.Shaped := fun c hc => (h.column c hc).2

/-- **A table that is made is regular.** -/
theorem regular_of_new {keys : List String} {columns : List (Column Float32)}
    (h : new keys columns = .ok t) : t.Regular := by
  obtain ⟨rfl, -, hnames, hcolumn⟩ := new_eq_ok_iff.1 h
  exact ⟨hnames, hcolumn, nofun⟩

theorem shaped_of_new {keys : List String} {columns : List (Column Float32)}
    (h : new keys columns = .ok t) : t.Shaped := (regular_of_new h).shaped

/-- **A label column is taken if and only if it has a label for each item and a new name.** -/
theorem withLabelColumn_eq_ok_iff {c : Column Int} : t.withLabelColumn c = .ok t' ↔
    c.values.length = t.size ∧ c.name ∉ t.names ∧ t' = { t with labelColumn := some c } := by
  rw [withLabelColumn, ← hasColumn_iff_mem]
  split_ifs with hlength hname
  · refine iff_of_false (fun h => ?_) fun h => hlength h.1
    cases h
  · refine iff_of_false (fun h => ?_) fun h => h.2.1 hname
    cases h
  · rw [Except.ok.injEq, eq_comm]
    exact ⟨fun h => ⟨not_not.1 hlength, hname, h⟩, fun h => h.2.2⟩

/-- A regular table stays regular with a label column. -/
theorem Regular.withLabelColumn {c : Column Int} (ht : t.Regular)
    (h : t.withLabelColumn c = .ok t') : t'.Regular := by
  obtain ⟨hlength, hname, rfl⟩ := withLabelColumn_eq_ok_iff.1 h
  refine ⟨ht.names, ht.column, fun c' hc' => ?_⟩
  obtain rfl := Option.some.inj hc'
  exact ⟨hname, hlength⟩

/-! ## Rows selected -/

/-- As many values are gathered as there are indices. -/
theorem length_gather {α : Type} {as bs : List α} {indices : List Nat}
    (h : gather as indices = .ok bs) : bs.length = indices.length :=
  (mapM_eq_ok_iff.1 h).length_eq.symm

/-- What was gathered stands at the positions. -/
theorem gather_eq_map {α : Type} {as bs : List α} (h : gather as indices = .ok bs) :
    bs.map some = indices.map (as[·]?) := by
  rw [← List.forall₂_eq_eq_eq, List.forall₂_map_left_iff, List.forall₂_map_right_iff]
  exact (mapM_eq_ok_iff.1 h).flip.imp fun _ _ hi => (orBreak_eq_ok_iff.1 hi).symm

/-- Column `c'` holds the values of column `c` at the given positions. -/
def Gathers {α : Type} (indices : List Nat) (c c' : Column α) : Prop :=
  c'.name = c.name ∧ gather c.values indices = .ok c'.values

theorem gathers_iff {α : Type} {c c' : Column α} :
    (do return (⟨c.name, ← gather c.values indices⟩ : Column α)) = Except.ok c' ↔
      Gathers indices c c' := by
  rw [bind_eq_ok_iff]
  constructor
  · rintro ⟨values, hvalues, h⟩
    obtain rfl := Except.ok.inj h
    exact ⟨rfl, hvalues⟩
  · rintro ⟨hname, hvalues⟩
    exact ⟨c'.values, hvalues, congrArg Except.ok (by rw [← hname])⟩

/-- **What a selection of rows gives**: keys, columns and labels at the given
positions. -/
theorem selectRows_eq_ok_iff : t.selectRows indices = .ok t' ↔
    gather t.keys indices = .ok t'.keys ∧
      List.Forall₂ (Gathers indices) t.columns t'.columns ∧
        Option.Rel (Gathers indices) t.labelColumn t'.labelColumn := by
  have hlabel : ∀ l : Option (Column Int),
      (t.labelColumn.mapM fun c => do return (⟨c.name, ← gather c.values indices⟩ : Column Int)) =
        Except.ok l ↔ Option.Rel (Gathers indices) t.labelColumn l := by
    intro l
    cases t.labelColumn with
    | none =>
      cases l with
      | none => exact iff_of_true rfl .none
      | some c' => exact iff_of_false nofun nofun
    | some c =>
      rw [Option.mapM_some, map_eq_ok_iff]
      constructor
      · rintro ⟨c', hc', rfl⟩
        exact .some (gathers_iff.1 hc')
      · rintro ⟨hc'⟩
        exact ⟨_, gathers_iff.2 hc', rfl⟩
  rw [selectRows, bind_eq_ok_iff]
  constructor
  · rintro ⟨keys, hkeys, h⟩
    obtain ⟨columns, hcolumns, h⟩ := bind_eq_ok_iff.1 h
    obtain ⟨l, hl, h⟩ := bind_eq_ok_iff.1 h
    obtain rfl := Except.ok.inj h
    exact ⟨hkeys, (mapM_eq_ok_iff.1 hcolumns).imp fun _ _ => gathers_iff.1, (hlabel l).1 hl⟩
  · rintro ⟨hkeys, hcolumns, hl⟩
    exact ⟨_, hkeys, bind_eq_ok_iff.2 ⟨_, mapM_eq_ok_iff.2 (hcolumns.imp fun _ _ => gathers_iff.2),
      bind_eq_ok_iff.2 ⟨_, (hlabel _).2 hl, rfl⟩⟩⟩

/-- A selection has as many items as there are indices. -/
theorem size_of_selectRows (h : t.selectRows indices = .ok t') : t'.size = indices.length :=
  length_gather (selectRows_eq_ok_iff.1 h).1

/-- A selection of rows keeps the names of the columns. -/
theorem names_of_selectRows (h : t.selectRows indices = .ok t') : t'.names = t.names := by
  obtain ⟨-, hcolumns, -⟩ := selectRows_eq_ok_iff.1 h
  rw [← List.forall₂_eq_eq_eq, FeatureTable.names, FeatureTable.names, List.forall₂_map_left_iff,
    List.forall₂_map_right_iff]
  exact hcolumns.flip.imp fun _ _ hc => hc.1

/-- A selection of rows of a regular table is regular. -/
theorem Regular.selectRows (ht : t.Regular) (h : t.selectRows indices = .ok t') : t'.Regular := by
  have hsize := size_of_selectRows h
  have hnames := names_of_selectRows h
  obtain ⟨-, hcolumns, hlabel⟩ := selectRows_eq_ok_iff.1 h
  refine ⟨hnames ▸ ht.names, fun c' hc' => ?_, fun c' hc' => ?_⟩
  · obtain ⟨j, hj, rfl⟩ := List.getElem_of_mem hc'
    have hc := hcolumns.get (hcolumns.length_eq ▸ hj) hj
    refine ⟨?_, (length_gather hc.2).trans hsize.symm⟩
    rw [List.get_eq_getElem, List.get_eq_getElem] at hc
    exact hc.1 ▸ (ht.column _ (List.getElem_mem _)).1
  · cases hl : t.labelColumn with
    | none =>
      rw [hl, Option.mem_def.1 hc'] at hlabel
      cases hlabel
    | some c =>
      rw [hl, Option.mem_def.1 hc'] at hlabel
      obtain ⟨hname, hvalues⟩ := hlabel
      exact ⟨hname ▸ hnames ▸ (ht.label c hl).1, (length_gather hvalues).trans hsize.symm⟩

/-- Rows in range can be selected. -/
theorem Regular.exists_selectRows (ht : t.Regular) (hindices : ∀ i ∈ indices, i < t.size) :
    ∃ t', t.selectRows indices = .ok t' := by
  have hgather : ∀ {α : Type} {as : List α}, as.length = t.size →
      ∃ bs, gather as indices = .ok bs := fun hlength =>
    exists_mapM_eq_ok_iff.2 fun i hi =>
      ⟨_, orBreak_eq_ok_iff.2 (List.getElem?_eq_getElem (hlength ▸ hindices i hi))⟩
  have hcolumn : ∀ {α : Type} {c : Column α}, c.values.length = t.size →
      ∃ c', Gathers indices c c' := by
    intro α c hlength
    obtain ⟨values, hvalues⟩ := hgather hlength
    exact ⟨⟨c.name, values⟩, rfl, hvalues⟩
  obtain ⟨keys, hkeys⟩ := @hgather String t.keys rfl
  obtain ⟨columns, hcolumns⟩ := exists_mapM_eq_ok_iff.2 fun c hc => by
    obtain ⟨c', hc'⟩ := hcolumn (ht.column c hc).2
    exact ⟨c', gathers_iff.2 hc'⟩
  obtain ⟨l, hl⟩ : ∃ l, Option.Rel (Gathers indices) t.labelColumn l := by
    cases hl : t.labelColumn with
    | none => exact ⟨none, .none⟩
    | some c =>
      obtain ⟨c', hc'⟩ := hcolumn (ht.label c hl).2
      exact ⟨some c', .some hc'⟩
  exact ⟨⟨keys, columns, l⟩, selectRows_eq_ok_iff.2
    ⟨hkeys, (mapM_eq_ok_iff.1 hcolumns).imp fun _ _ => gathers_iff.1, hl⟩⟩

/-- **Distinct keys stay distinct exactly where no row is named twice.** -/
theorem nodup_keys_of_selectRows (h : t.selectRows indices = .ok t') (hkeys : t.keys.Nodup) :
    t'.keys.Nodup ↔ indices.Nodup := by
  have hmap := gather_eq_map (selectRows_eq_ok_iff.1 h).1
  rw [← List.nodup_map_iff (Option.some_injective String), hmap]
  refine ⟨List.Nodup.of_map _, fun hindices => hindices.map_on fun i hi j _ hij => ?_⟩
  have hmem : t.keys[i]? ∈ t'.keys.map some := hmap ▸ List.mem_map_of_mem hi
  obtain ⟨key, -, hkey⟩ := List.mem_map.1 hmem
  exact (List.getElem?_inj (List.getElem?_eq_some_iff.1 hkey.symm).1 hkeys).1 hij

/-! ## All tables that were made -/

/-- **However a table was made, its columns have the right shape.** -/
theorem Built.regular (h : t.Built) : t.Regular := by
  induction h with
  | new h => exact regular_of_new h
  | withLabelColumn _ h ih => exact ih.withLabelColumn h
  | select _ h _ =>
    obtain ⟨columns, -, hnew⟩ := bind_eq_ok_iff.1 h
    exact regular_of_new hnew
  | selectRows _ h ih => exact ih.selectRows h

/-- **A table that was built is shaped.** -/
theorem Built.shaped (h : t.Built) : t.Shaped := h.regular.shaped

/-- **An item has every feature of its table.** -/
theorem Shaped.row_ne_none (ht : t.Shaped) {i : Nat} (hi : i < t.size)
    (hname : t.hasColumn name = true) : t.row i name ≠ none := by
  obtain ⟨c, hc, -, hvalues⟩ := exists_column? hname
  rw [row, hvalues, Option.bind_some, List.getElem?_eq_getElem (ht c hc ▸ hi)]
  exact Option.some_ne_none _

/-! ## Positions -/

theorem lastIndexOf?_eq_none_iff {s : String} {l : List String} :
    lastIndexOf? s l = none ↔ s ∉ l := by
  induction l with
  | nil => exact iff_of_true rfl List.not_mem_nil
  | cons t rest ih =>
    rw [lastIndexOf?, List.mem_cons, not_or, ← ih]
    cases lastIndexOf? s rest with
    | none => simp [eq_comm]
    | some i => simp

/-- The last place of a name is that of the latest. -/
theorem lastIndexOf?_append {s t : String} {l : List String} :
    lastIndexOf? s (l ++ [t]) = if t = s then some l.length else lastIndexOf? s l := by
  induction l with
  | nil => rfl
  | cons a l ih =>
    rw [List.cons_append, lastIndexOf?, ih, lastIndexOf?]
    split_ifs <;> rfl

/-- **The position of a member is the last one** where it stands. -/
theorem lastIndexOf?_eq_some_iff {s : String} {l : List String} {i : Nat} :
    lastIndexOf? s l = some i ↔ l[i]? = some s ∧ ∀ j, i < j → l[j]? ≠ some s := by
  induction l using List.reverseRecOn generalizing i with
  | nil => exact iff_of_false nofun fun h => nomatch h.1
  | append_singleton l t ih =>
    rw [lastIndexOf?_append]
    split_ifs with ht
    · rw [ht, Option.some.injEq]
      constructor
      · rintro rfl
        refine ⟨List.getElem?_concat_length, fun j hj => ?_⟩
        rw [List.getElem?_eq_none (List.length_append ▸ hj)]
        exact nofun
      · rintro ⟨hi, hlast⟩
        have hlt := (List.getElem?_eq_some_iff.1 hi).1
        rw [List.length_append, List.length_singleton] at hlt
        by_contra hne
        exact hlast l.length (by omega) List.getElem?_concat_length
    · -- the last member is another one
      have hsame : ∀ j : Nat, (l ++ [t])[j]? = some s ↔ l[j]? = some s := by
        intro j
        rcases Nat.lt_trichotomy j l.length with hj | rfl | hj
        · rw [List.getElem?_append_left hj]
        · simp [ht]
        · rw [List.getElem?_eq_none (List.length_append ▸ hj),
            List.getElem?_eq_none (Nat.le_of_lt hj)]
      simp only [hsame, ne_eq]
      exact ih

/-- **Members are distinct exactly if each stands at its position.** -/
theorem nodup_iff_lastIndexOf? {l : List String} :
    l.Nodup ↔ ∀ i s, l[i]? = some s → lastIndexOf? s l = some i := by
  rw [List.nodup_iff_getElem?_ne_getElem?]
  constructor
  · intro h i s hi
    refine lastIndexOf?_eq_some_iff.2 ⟨hi, fun j hlt hj => ?_⟩
    exact h i j hlt (List.getElem?_eq_some_iff.1 hj).1 (hi.trans hj.symm)
  · intro h i j hlt hj heq
    have hs := List.getElem?_eq_getElem hj
    have hi := h i _ (heq.trans hs)
    exact Nat.ne_of_lt hlt (Option.some.inj (hi.symm.trans (h j _ hs)))

end FeatureTable

end RuleVote
