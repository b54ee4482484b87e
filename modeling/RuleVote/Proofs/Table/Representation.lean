import Std.Data.HashMap
import RuleVote.Proofs.Json.Decoding
import RuleVote.Proofs.Json.Singles
import RuleVote.Proofs.Number.Order
import RuleVote.Proofs.Table.Selection
/-!
# Tables kept with indexes

A table is kept with an index of its keys and one of the names of its columns
(`IndexedTable`). Most operations make both anew. A selection of rows makes
that of the keys anew and hands on the other, and does not look whether a key
comes twice. Still the indexes are always those of the table
(`IndexedTable.Reached.exists_eq_ofTable`), so what is looked up there is what a
search through the table finds.

A table that was reached has columns of distinct names, all as long as the table.
Only its keys need not be distinct, and only through a selection that names a row
twice. The position of a key, and whether the table can be put together again
from its parts or from its text (`FeatureTable.Regular.decodeText_toJson_iff`),
depend on that (`IndexedTable.Reached.represents`).
-/

namespace RuleVote

/-! ## Written and read -/

variable {n : Nat}

/-- A value that is put together from what was read is recalled with it. -/
theorem Decoder.Recalls.validated {ε α : Type} {inner : Decoder (Except ε α)} {j : Json} {a : α}
    (h : inner.Recalls n j (.ok a)) : (Decoder.validated inner Except.toOption).Recalls n j a := by
  refine ⟨h.legible, fun hexact frame hframe => ?_⟩
  rw [← h.decode hexact hframe, Decoder.validated_eq_ok_iff]
  constructor
  · rintro ⟨made, hmade, hsome⟩
    cases made with
    | error e => cases hsome
    | ok made => exact hmade.trans (congrArg (Except.ok ∘ Except.ok) (Option.some.inj hsome))
  · exact fun hmade => ⟨_, hmade, rfl⟩

/-- A column is recalled if its values are. -/
theorem Column.recalls {α : Type} {decoder : Decoder α} {value : α → Json} {c : Column α}
    (h : ∀ v ∈ c.values, decoder.Recalls n (value v) v) :
    (Decoder.column decoder).Recalls (n + 2) (c.toJson value) c := by
  have hname := Decoder.recalls_string (n := n + 1) c.name
  have hvalues := Decoder.recalls_list h
  obtain ⟨name, values⟩ := c
  refine Decoder.recalls_record fun frame => ⟨_, _, (RecordDecoder.recalls_pure Column.mk).field
    hname |>.field hvalues, fun hread => ?_⟩
  simp [hread hname, hread hvalues]

/-- The object of a column is finite if and only if its values are. -/
theorem Column.finite_toJson_iff {α : Type} {value : α → Json} {c : Column α} :
    (c.toJson value).Finite ↔ ∀ v ∈ c.values, (value v).Finite := by
  have hname : (Json.string c.name).Finite := List.forall_mem_nil _
  rw [Column.toJson, Json.finite_object, List.forall_mem_cons, List.forall_mem_singleton,
    and_iff_right hname, Json.ofList, Json.finite_array, List.forall_mem_map]

namespace FeatureTable

variable {t : FeatureTable}

/-- **A table of distinct keys is recalled**, if its labels fit 32 bits. -/
theorem Regular.recalls (ht : t.Regular) (hkeys : t.keys.Nodup)
    (hlabels : ∀ c ∈ t.labelColumn, ∀ v ∈ c.values, Decoder.IsLabel v) :
    Decoder.featureTable.Recalls (n + 4) t.toJson t := by
  obtain ⟨keys, columns, l⟩ := t
  have hlist := Decoder.recalls_list (n := n + 2) fun key (_ : key ∈ keys) =>
    Decoder.recalls_string key
  have hcolumns := Decoder.recalls_list fun c (_ : c ∈ columns) =>
    Column.recalls (n := n) fun v (_ : v ∈ c.values) => Decoder.recalls_single v
  refine Decoder.Recalls.validated ?_
  cases l with
  | none =>
    refine Decoder.recalls_record fun frame => ⟨_, _, (RecordDecoder.recalls_pure
      Decoder.buildTable).field hlist |>.field hcolumns |>.absent, fun hread => ?_⟩
    simp [buildTable_eq_ok_iff, ht, hkeys, hread hlist, hread hcolumns]
  | some c =>
    have hlabel : (Decoder.nullable (Decoder.column Decoder.index)).Recalls (n + 2 + 1)
        (c.toJson .integer) (some c) :=
      Decoder.recalls_nullable (fun _ h => by cases h) fun c hc =>
        Column.recalls (n := n + 1) fun v hv => Decoder.recalls_index (hlabels c hc v hv)
    refine Decoder.recalls_record fun frame => ⟨_, _, (RecordDecoder.recalls_pure
      Decoder.buildTable).field hlist |>.field hcolumns |>.field hlabel, fun hread => ?_⟩
    simp [buildTable_eq_ok_iff, ht, hkeys, hread hlist, hread hcolumns, hread hlabel,
      and_assoc]

/-- The object of a table is finite if and only if all of its numbers are. -/
theorem finite_toJson_iff :
    t.toJson.Finite ↔ ∀ c ∈ t.columns, ∀ v ∈ c.values, IsFinite v := by
  have hkeys : (Json.ofList .string t.keys).Finite :=
    Json.finite_array.2 (List.forall_mem_map.2 fun _ _ => List.forall_mem_nil _)
  have hlabel : ∀ field ∈ (t.labelColumn.map fun c =>
      ("label_column", c.toJson Json.integer)).toList, field.2.Finite := by
    cases t.labelColumn with
    | none => exact List.forall_mem_nil _
    | some c =>
      exact List.forall_mem_singleton.2
        (Column.finite_toJson_iff.2 fun _ _ => List.forall_mem_nil _)
  rw [toJson, Json.finite_object, List.forall_mem_append, and_iff_left hlabel, List.forall_mem_cons,
    List.forall_mem_singleton, and_iff_right hkeys, Json.ofList, Json.finite_array,
    List.forall_mem_map]
  refine forall₂_congr fun c _ => Column.finite_toJson_iff.trans (forall₂_congr fun v _ => ?_)
  exact List.forall_mem_singleton

/-- **A table is read back from its text exactly if its keys are distinct and its
numbers finite.** -/
theorem Regular.decodeText_toJson_iff (ht : t.Regular)
    (hlabels : ∀ c ∈ t.labelColumn, ∀ v ∈ c.values, Decoder.IsLabel v) :
    decodeText Decoder.featureTable t.toJson.compact = .ok t ↔
      t.keys.Nodup ∧ ∀ c ∈ t.columns, ∀ v ∈ c.values, IsFinite v := by
  rw [← finite_toJson_iff]
  have hread (hkeys : t.keys.Nodup) :
      decodeText Decoder.featureTable t.toJson.compact = .ok t ↔ t.toJson.Finite :=
    ((ht.recalls (n := 0) hkeys hlabels).decodeText_eq_ok_iff (by decide)
      fun _ _ => Json.readsBack).1
  constructor
  · intro h
    obtain ⟨made, hmade, hrest⟩ := bind_eq_ok_iff.1 h
    have hkeys : t.keys.Nodup := by
      split_ifs at hrest
      obtain rfl := Except.ok.inj hrest
      exact (proper_of_read hmade).keys
    exact ⟨hkeys, (hread hkeys).1 h⟩
  · exact fun h => (hread h.1).2 h.2

end FeatureTable

/-! ## Indexes -/

/-- The index of a list of names. The names are put in one after the other, so
the last position of a name stands. -/
def positions (names : List String) : Std.HashMap String Nat :=
  names.zipIdx.foldl (fun index place => index.insert place.1 place.2) ∅

/-- The index has the last place of a name. -/
theorem getElem?_positions (names : List String) (name : String) :
    (positions names)[name]? = lastIndexOf? name names := by
  induction names using List.reverseRecOn with
  | nil => exact Std.HashMap.getElem?_empty
  | append_singleton names last ih =>
    have hstep : positions (names ++ [last]) = (positions names).insert last names.length := by
      rw [positions, List.zipIdx_append, List.foldl_append, Nat.zero_add]
      rfl
    rw [hstep, Std.HashMap.getElem?_insert, FeatureTable.lastIndexOf?_append, ih]
    simp only [beq_iff_eq]

/-- A table with the indexes that it is kept with. -/
structure IndexedTable where
  /-- The table. -/
  table : FeatureTable
  /-- The position of each key. -/
  keyIndex : Std.HashMap String Nat
  /-- The position of each column. -/
  columnIndex : Std.HashMap String Nat

namespace IndexedTable

/-- A table with indexes made from it. -/
def ofTable (t : FeatureTable) : IndexedTable :=
  ⟨t, positions t.keys, positions t.names⟩

/-! ## Operations through the indexes -/

/-- The position of an item. -/
def rowIndex? (x : IndexedTable) (key : String) : Option Nat := x.keyIndex[key]?

/-- The feature with a given name. -/
def column? (x : IndexedTable) (name : String) : Option (List Float32) :=
  x.columnIndex[name]?.bind fun j => x.table.columns[j]?.map Column.values

/-- The features of the item at a position. -/
def row (x : IndexedTable) (i : Nat) : Row := fun name =>
  (x.column? name).bind fun values => values[i]?

/-- A table from keys and columns. -/
def new (keys : List String) (columns : List (Column Float32)) : Except Failure IndexedTable :=
  ofTable <$> FeatureTable.new keys columns

/-- The table with a column of labels. -/
def withLabelColumn (x : IndexedTable) (c : Column Int) : Except Failure IndexedTable :=
  if c.values.length ≠ x.table.size then
    .error (.shapeMismatch (toString x.table.size ++ " label values") (toString c.values.length))
  else if x.columnIndex.contains c.name then
    .error (.other ("Label column '" ++ c.name ++ "' collides with a feature column"))
  else .ok { x with table := { x.table with labelColumn := some c } }

/-- A table from its record. -/
def ofRecord (keys : List String) (columns : List (Column Float32))
    (labelColumn : Option (Column Int)) : Except Failure IndexedTable := do
  let x ← new keys columns
  match labelColumn with
  | some c => x.withLabelColumn c
  | none => return x

/-- The named features alone, without the labels. -/
def select (x : IndexedTable) (names : List String) : Except Failure IndexedTable := do
  new x.table.keys (← names.mapM fun name =>
    match x.column? name with
    | some values => .ok ⟨name, values⟩
    | none => .error (.missingFeature name))

/-- The items at the given positions. The keys are indexed anew, the columns are not. -/
def selectRows (x : IndexedTable) (indices : List Nat) : Fallible IndexedTable := do
  let t ← x.table.selectRows indices
  return ⟨t, positions t.keys, x.columnIndex⟩

open FeatureTable

variable {t : FeatureTable} {x x' : IndexedTable} {indices : List Nat}

/-! ## The indexes find what a search finds -/

@[simp] theorem table_ofTable (t : FeatureTable) : (ofTable t).table = t := rfl

/-- The index of keys finds what a search finds. -/
theorem rowIndex?_ofTable (t : FeatureTable) (key : String) :
    (ofTable t).rowIndex? key = t.rowIndex? key := getElem?_positions t.keys key

/-- The index of columns finds what a search finds, if no name is there twice. -/
theorem column?_ofTable (ht : t.names.Nodup) (name : String) :
    (ofTable t).column? name = t.column? name := by
  have hindex : (ofTable t).columnIndex[name]? = lastIndexOf? name t.names :=
    getElem?_positions t.names name
  rw [column?, hindex]
  cases hplace : lastIndexOf? name t.names with
  | none => exact (column?_eq_none_iff.2 (lastIndexOf?_eq_none_iff.1 hplace)).symm
  | some j =>
    have hname := (lastIndexOf?_eq_some_iff.1 hplace).1
    rw [FeatureTable.names, List.getElem?_map] at hname
    obtain ⟨c, hc, rfl⟩ := Option.map_eq_some_iff.1 hname
    rw [column?_of_mem ht (List.mem_of_getElem? hc), Option.bind_some, table_ofTable, hc]
    rfl

theorem contains_ofTable (t : FeatureTable) (name : String) :
    (ofTable t).columnIndex.contains name = t.hasColumn name := by
  rw [Bool.eq_iff_iff, hasColumn_iff_mem, Std.HashMap.contains_eq_isSome_getElem?, ofTable,
    getElem?_positions, Option.isSome_iff_ne_none, Ne, lastIndexOf?_eq_none_iff, not_not]

/-- A row looks names up as the table does. -/
theorem row_ofTable (ht : t.names.Nodup) (i : Nat) : (ofTable t).row i = t.row i := by
  funext name
  rw [row, column?_ofTable ht]
  rfl

/-! ## The operations keep the indexes right -/

/-- Taking a label column keeps the indexes right. So do the other operations. -/
theorem withLabelColumn_ofTable (t : FeatureTable) (c : Column Int) :
    (ofTable t).withLabelColumn c = ofTable <$> t.withLabelColumn c := by
  rw [withLabelColumn, FeatureTable.withLabelColumn, contains_ofTable, table_ofTable]
  split_ifs <;> rfl

theorem ofRecord_eq (keys : List String) (columns : List (Column Float32))
    (labelColumn : Option (Column Int)) :
    ofRecord keys columns labelColumn =
      ofTable <$> Decoder.buildTable keys columns labelColumn := by
  rw [ofRecord, Decoder.buildTable, new, map_bind, bind_map_left]
  cases labelColumn with
  | none => rfl
  | some c => simp only [withLabelColumn_ofTable]

theorem select_ofTable (ht : t.names.Nodup) (names : List String) :
    (ofTable t).select names = ofTable <$> t.select names := by
  have hcolumn : ∀ name : String, (match (ofTable t).column? name with
      | some values => .ok ⟨name, values⟩
      | none => .error (.missingFeature name) : Except Failure (Column Float32)) =
        (do return ⟨name, ← t.column name⟩) := by
    intro name
    rw [column?_ofTable ht, FeatureTable.column]
    cases t.column? name <;> rfl
  rw [select, FeatureTable.select, map_bind]
  simp only [hcolumn, new, table_ofTable]

/-- The index of the columns is handed on, and is that of the columns selected from. -/
theorem selectRows_ofTable (t : FeatureTable) (indices : List Nat) :
    (ofTable t).selectRows indices = ofTable <$> t.selectRows indices := by
  rw [selectRows, table_ofTable]
  cases h : t.selectRows indices with
  | error stop => rfl
  | ok t' =>
    have hnames : positions t'.names = positions t.names := by rw [names_of_selectRows h]
    have hindexed : (⟨t', positions t'.keys, positions t.names⟩ : IndexedTable) = ofTable t' := by
      rw [← hnames]
      rfl
    exact congrArg Except.ok hindexed

/-! ## Tables that are reached -/

/-- A table that was made by any operations from given parts. Rows were selected
at allowed positions only. -/
inductive Reached (allowed : List Nat → Prop) : IndexedTable → Prop
  | new {keys : List String} {columns : List (Column Float32)} {x : IndexedTable}
      (h : new keys columns = .ok x) : Reached allowed x
  | ofRecord {keys : List String} {columns : List (Column Float32)}
      {labelColumn : Option (Column Int)} {x : IndexedTable}
      (h : ofRecord keys columns labelColumn = .ok x) : Reached allowed x
  | withLabelColumn {x x' : IndexedTable} {c : Column Int} (hx : Reached allowed x)
      (h : x.withLabelColumn c = .ok x') : Reached allowed x'
  | select {x x' : IndexedTable} {names : List String} (hx : Reached allowed x)
      (h : x.select names = .ok x') : Reached allowed x'
  | selectRows {x x' : IndexedTable} {indices : List Nat} (hx : Reached allowed x)
      (hallowed : allowed indices) (h : x.selectRows indices = .ok x') : Reached allowed x'

/-- **A table that was reached has its own indexes** and columns of the right
shape, and distinct keys unless a row was named twice. -/
theorem Reached.exists_eq_ofTable {allowed : List Nat → Prop} (h : Reached allowed x) :
    ∃ t, x = ofTable t ∧ t.Regular ∧
      ((∀ indices, allowed indices → indices.Nodup) → t.keys.Nodup) := by
  induction h with
  | new h =>
    obtain ⟨t, ht, rfl⟩ := map_eq_ok_iff.1 h
    exact ⟨t, rfl, regular_of_new ht, fun _ => (proper_of_new ht).keys⟩
  | ofRecord h =>
    obtain ⟨t, ht, rfl⟩ := map_eq_ok_iff.1 ((ofRecord_eq _ _ _).symm.trans h)
    obtain ⟨-, hregular, hkeys⟩ := buildTable_eq_ok_iff.1 ht
    exact ⟨t, rfl, hregular, fun _ => hkeys⟩
  | withLabelColumn _ h ih =>
    obtain ⟨t, rfl, hregular, hkeys⟩ := ih
    obtain ⟨t', ht', rfl⟩ := map_eq_ok_iff.1 ((withLabelColumn_ofTable t _).symm.trans h)
    refine ⟨t', rfl, hregular.withLabelColumn ht', fun hallowed => ?_⟩
    obtain ⟨-, -, rfl⟩ := withLabelColumn_eq_ok_iff.1 ht'
    exact hkeys hallowed
  | select _ h ih =>
    obtain ⟨t, rfl, hregular, -⟩ := ih
    obtain ⟨t', ht', rfl⟩ := map_eq_ok_iff.1 ((select_ofTable hregular.names _).symm.trans h)
    obtain ⟨columns, -, hnew⟩ := bind_eq_ok_iff.1 ht'
    exact ⟨t', rfl, regular_of_new hnew, fun _ => (proper_of_new hnew).keys⟩
  | selectRows _ hindices h ih =>
    obtain ⟨t, rfl, hregular, hkeys⟩ := ih
    obtain ⟨t', ht', rfl⟩ := map_eq_ok_iff.1 ((selectRows_ofTable t _).symm.trans h)
    exact ⟨t', rfl, hregular.selectRows ht', fun hallowed =>
      (nodup_keys_of_selectRows ht' (hkeys hallowed)).2 (hallowed _ hindices)⟩

/-- A table that was read is reached. -/
theorem reached_of_read {allowed : List Nat → Prop} {document : Document}
    (h : Decoder.featureTable document = .ok t) : Reached allowed (ofTable t) := by
  obtain ⟨keys, columns, labelColumn, hbuild⟩ := exists_buildTable_of_read h
  have hrecord : ofRecord keys columns labelColumn = .ok (ofTable t) := by
    rw [ofRecord_eq, hbuild]
    rfl
  exact .ofRecord hrecord

/-! ## What a table represents -/

/-- The table put together again from its parts. -/
def rebuild (x : IndexedTable) : Except Failure IndexedTable :=
  ofRecord x.table.keys x.table.columns x.table.labelColumn

/-- Two tables are equal in all their parts, numbers as comparison has it. -/
structure Equal (x y : IndexedTable) : Prop where
  keys : x.table.keys = y.table.keys
  columns : List.Forall₂ (fun c d => c.name = d.name ∧ (c.values == d.values) = true)
    x.table.columns y.table.columns
  labelColumn : x.table.labelColumn = y.table.labelColumn
  keyIndex : ∀ key : String, x.keyIndex[key]? = y.keyIndex[key]?
  columnIndex : ∀ name : String, x.columnIndex[name]? = y.columnIndex[name]?

/-- A table is equal to itself unless it holds what is no number. -/
theorem equal_self_iff :
    x.Equal x ↔ ∀ c ∈ x.table.columns, ∀ v ∈ c.values, v.isNaN = false := by
  have hself : ∀ vs : List Float32, (vs == vs) = true ↔ ∀ v ∈ vs, v.isNaN = false := by
    intro vs
    induction vs with
    | nil => exact iff_of_true rfl nofun
    | cons v vs ih =>
      have hcons : (v :: vs == v :: vs) = ((v == v) && (vs == vs)) := rfl
      rw [hcons, Bool.and_eq_true, ih, single_beq_iff, List.forall_mem_cons]
      simp
  constructor
  · intro h c hc
    exact (hself c.values).1 (List.forall₂_same.1 h.columns c hc).2
  · intro h
    exact ⟨rfl, List.forall₂_same.2 fun c hc => ⟨rfl, (hself c.values).2 (h c hc)⟩, rfl,
      fun _ => rfl, fun _ => rfl⟩

/-- What a table stands for. Its columns have distinct names and one value for each
item, and so has its label column, which is none of them. A feature is found under
its name, with its values, and nothing under another name. Whether each key is
found where it stands, and whether the table can be put together again, depends on
whether the keys are distinct, and rows of distinct keys are so again where none is
named twice. Text holds no infinite numbers, so from its text a table is read back
only without them. -/
structure Represents (x : IndexedTable) : Prop where
  names : x.table.names.Nodup
  column : ∀ c ∈ x.table.columns, c.name ≠ "" ∧ c.values.length = x.table.size
  label : ∀ c ∈ x.table.labelColumn, c.name ∉ x.table.names ∧ c.values.length = x.table.size
  row_of_mem : ∀ c ∈ x.table.columns, ∀ i, x.row i c.name = c.values[i]?
  row_eq_none : ∀ name ∉ x.table.names, ∀ i, x.row i name = none
  row_eq : x.row = x.table.row
  rowIndex_eq : x.rowIndex? = x.table.rowIndex?
  rowIndex_eq_none_iff : ∀ key, x.rowIndex? key = none ↔ key ∉ x.table.keys
  rowIndex_iff : x.table.keys.Nodup ↔
    ∀ i key, x.table.keys[i]? = some key → x.rowIndex? key = some i
  rebuild_iff : ∀ y, x.rebuild = .ok y ↔ y = x ∧ x.table.keys.Nodup
  equal_iff : x.Equal x ↔ ∀ c ∈ x.table.columns, ∀ v ∈ c.values, v.isNaN = false
  text_iff : (∀ c ∈ x.table.labelColumn, ∀ v ∈ c.values, Decoder.IsLabel v) →
    (decodeText Decoder.featureTable x.table.toJson.compact = .ok x.table ↔
      x.table.keys.Nodup ∧ ∀ c ∈ x.table.columns, ∀ v ∈ c.values, IsFinite v)
  selectRows : ∀ indices, (∀ i ∈ indices, i < x.table.size) → ∃ x', x.selectRows indices = .ok x' ∧
    (x.table.keys.Nodup → (x'.table.keys.Nodup ↔ indices.Nodup))

/-- **The indexes of a regular table represent it.** -/
theorem represents_ofTable (ht : t.Regular) : (ofTable t).Represents where
  names := ht.names
  column := ht.column
  label := ht.label
  row_of_mem c hc i := by
    rw [row, column?_ofTable ht.names, column?_of_mem ht.names hc, Option.bind_some]
  row_eq_none name hname i := by
    rw [row, column?_ofTable ht.names, column?_eq_none_iff.2 (show name ∉ t.names from hname),
      Option.bind_none]
  row_eq := funext fun i => row_ofTable ht.names i
  rowIndex_eq := funext fun key => rowIndex?_ofTable t key
  rowIndex_eq_none_iff key := by
    rw [rowIndex?_ofTable]
    exact lastIndexOf?_eq_none_iff
  rowIndex_iff := by
    simp only [rowIndex?_ofTable]
    exact nodup_iff_lastIndexOf?
  rebuild_iff y := by
    rw [rebuild, ofRecord_eq, map_eq_ok_iff]
    simp only [buildTable_eq_ok_iff]
    constructor
    · rintro ⟨_, ⟨rfl, -, hkeys⟩, rfl⟩
      exact ⟨rfl, hkeys⟩
    · rintro ⟨rfl, hkeys⟩
      exact ⟨t, ⟨rfl, ht, hkeys⟩, rfl⟩
  equal_iff := equal_self_iff
  text_iff := ht.decodeText_toJson_iff
  selectRows indices hindices := by
    obtain ⟨t', ht'⟩ := ht.exists_selectRows hindices
    refine ⟨ofTable t', ?_, nodup_keys_of_selectRows ht'⟩
    rw [selectRows_ofTable, ht']
    rfl

/-- **A table represents its items, however it was made** -- except that its keys
are distinct only as long as no selection named a row twice. -/
theorem Reached.represents {allowed : List Nat → Prop} (h : Reached allowed x) :
    x.Represents ∧ ((∀ indices, allowed indices → indices.Nodup) → x.table.keys.Nodup) := by
  obtain ⟨t, rfl, hregular, hkeys⟩ := h.exists_eq_ofTable
  exact ⟨represents_ofTable hregular, hkeys⟩

/-- The table of two items with a feature and a label column, its rows turned round. -/
theorem Reached.represents_turned :
    let column : Column Float32 := ⟨"noise", [0.25, 0.75]⟩
    let turned : FeatureTable := ⟨["b", "a"], [⟨"noise", [0.75, 0.25]⟩], some ⟨"label", [1, 0]⟩⟩
    ∃ x x₁ x₂, IndexedTable.new ["a", "b"] [column] = .ok x ∧
      x.withLabelColumn ⟨"label", [0, 1]⟩ = .ok x₁ ∧ x₁.selectRows [1, 0] = .ok x₂ ∧
        x₂.table = turned ∧ Reached List.Nodup x₂ ∧ x₂.Represents ∧ x₂.table.keys.Nodup := by
  intro column turned
  have hnew : IndexedTable.new ["a", "b"] [column] =
      .ok (ofTable ⟨["a", "b"], [column], none⟩) := rfl
  have hlabel : (ofTable ⟨["a", "b"], [column], none⟩).withLabelColumn ⟨"label", [0, 1]⟩ =
      .ok (ofTable ⟨["a", "b"], [column], some ⟨"label", [0, 1]⟩⟩) := by
    rw [withLabelColumn_ofTable]
    rfl
  have hturned : (ofTable ⟨["a", "b"], [column], some ⟨"label", [0, 1]⟩⟩).selectRows [1, 0] =
      .ok (ofTable turned) := by
    rw [selectRows_ofTable]
    rfl
  have hreached : Reached List.Nodup (ofTable turned) :=
    .selectRows (.withLabelColumn (.new hnew) hlabel) (by decide) hturned
  obtain ⟨hrepresents, hkeys⟩ := hreached.represents
  exact ⟨_, _, _, hnew, hlabel, hturned, rfl, hreached, hrepresents, hkeys fun _ => id⟩

/-- A row that is named twice has its key twice. The key stands for the second of the
two rows, and the table cannot be put together again. -/
theorem not_nodup_keys_of_named_twice :
    let column : Column Float32 := ⟨"noise", [0.25, 0.75]⟩
    ∃ x x', new ["a", "b"] [column] = .ok x ∧ x.selectRows [0, 0] = .ok x' ∧
      ¬x'.table.keys.Nodup ∧ x'.table.keys[0]? = some "a" ∧ x'.rowIndex? "a" = some 1 ∧
        x'.rebuild = .error (.other "Duplicate item key 'a'") := by
  intro column
  have hselect : (ofTable ⟨["a", "b"], [column], none⟩).selectRows [0, 0] =
      .ok (ofTable ⟨["a", "a"], [⟨"noise", [0.25, 0.25]⟩], none⟩) := by
    rw [selectRows_ofTable]
    rfl
  refine ⟨_, _, rfl, hselect, by decide, rfl, ?_, ?_⟩
  · rw [rowIndex?_ofTable]
    decide
  · rw [rebuild, ofRecord_eq]
    rfl

end IndexedTable

end RuleVote
