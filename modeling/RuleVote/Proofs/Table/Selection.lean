import RuleVote.DataCodec
import RuleVote.Proofs.Json.Record
import RuleVote.Proofs.Matrix.Shape
import RuleVote.Proofs.Table.Shape
/-!
# Features of a table

A table that was made from its parts or read has distinct keys and distinct
names of its columns (`FeatureTable.Loaded.proper`). So it can give up any of
its features: selecting distinct ones succeeds
(`FeatureTable.Proper.exists_select`), and they make a matrix with a row for each
item (`FeatureTable.Shaped.toMatrix`).
-/

namespace RuleVote

namespace FeatureTable

variable {t t' : FeatureTable}

/-- A table that was made from its parts, given a column of labels, or read. -/
inductive Loaded : FeatureTable → Prop
  | new {keys : List String} {columns : List (Column Float32)} {t : FeatureTable}
      (h : new keys columns = .ok t) : Loaded t
  | withLabelColumn {t t' : FeatureTable} {c : Column Int} (ht : Loaded t)
      (h : t.withLabelColumn c = .ok t') : Loaded t'
  | read {document : Document} {t : FeatureTable} (h : Decoder.featureTable document = .ok t) :
      Loaded t

/-- Distinct keys, and columns of distinct names with a number for each
item. -/
structure Proper (t : FeatureTable) : Prop where
  keys : t.keys.Nodup
  names : (t.columns.map Column.name).Nodup
  column : ∀ c ∈ t.columns, c.name ≠ "" ∧ c.values.length = t.size

theorem Proper.shaped (h : t.Proper) : t.Shaped := fun c hc => (h.column c hc).2

theorem proper_of_new {keys : List String} {columns : List (Column Float32)}
    (h : new keys columns = .ok t) : t.Proper := by
  obtain ⟨rfl, hkeys, hnames, hcolumn⟩ := new_eq_ok_iff.1 h
  exact ⟨hkeys, hnames, hcolumn⟩

theorem Proper.withLabelColumn (ht : t.Proper) {c : Column Int}
    (h : t.withLabelColumn c = .ok t') : t'.Proper := by
  obtain ⟨-, -, rfl⟩ := withLabelColumn_eq_ok_iff.1 h
  exact ⟨ht.keys, ht.names, ht.column⟩

/-- **When parts are put together**: to a table of them with columns of the right
shape and distinct keys. -/
theorem buildTable_eq_ok_iff {keys : List String} {columns : List (Column Float32)}
    {labelColumn : Option (Column Int)} : Decoder.buildTable keys columns labelColumn = .ok t ↔
      t = ⟨keys, columns, labelColumn⟩ ∧ t.Regular ∧ t.keys.Nodup := by
  rw [Decoder.buildTable, bind_eq_ok_iff]
  constructor
  · rintro ⟨made, hnew, h⟩
    have hmade := regular_of_new hnew
    obtain ⟨rfl, hkeys, -⟩ := new_eq_ok_iff.1 hnew
    cases labelColumn with
    | none =>
      obtain rfl := Except.ok.inj h
      exact ⟨rfl, hmade, hkeys⟩
    | some c =>
      have ht := hmade.withLabelColumn h
      obtain ⟨-, -, rfl⟩ := withLabelColumn_eq_ok_iff.1 h
      exact ⟨rfl, ht, hkeys⟩
  · rintro ⟨rfl, ht, hkeys⟩
    refine ⟨⟨keys, columns, none⟩, new_eq_ok_iff.2 ⟨rfl, hkeys, ht.names, ht.column⟩, ?_⟩
    cases labelColumn with
    | none => rfl
    | some c =>
      obtain ⟨hname, hlength⟩ := ht.label c rfl
      exact withLabelColumn_eq_ok_iff.2 ⟨hlength, hname, rfl⟩

theorem proper_of_buildTable {keys : List String} {columns : List (Column Float32)}
    {labelColumn : Option (Column Int)}
    (h : Decoder.buildTable keys columns labelColumn = .ok t) : t.Proper := by
  obtain ⟨-, ht, hkeys⟩ := buildTable_eq_ok_iff.1 h
  exact ⟨hkeys, ht.names, ht.column⟩

/-- **A table that is read has been put together from its parts.** -/
theorem exists_buildTable_of_read {document : Document}
    (h : Decoder.featureTable document = .ok t) :
    ∃ keys columns labelColumn, Decoder.buildTable keys columns labelColumn = .ok t := by
  obtain ⟨made, hmade, hsome⟩ := Decoder.validated_eq_ok_iff.1 h
  obtain ⟨keys, columns, labelColumn, rfl⟩ :
      ∃ keys columns labelColumn, made = Decoder.buildTable keys columns labelColumn := by
    refine RecordDecoder.Makes.of_decode (P := fun made => ∃ keys columns labelColumn,
      made = Decoder.buildTable keys columns labelColumn) ?_ hmade
    refine .seq (.seq (.map (RecordDecoder.makes_any _) ?_) (RecordDecoder.makes_any _))
      (RecordDecoder.makes_any _)
    exact fun keys _ columns _ labelColumn _ => ⟨keys, columns, labelColumn, rfl⟩
  refine ⟨keys, columns, labelColumn, ?_⟩
  cases hbuild : Decoder.buildTable keys columns labelColumn with
  | error f =>
    rw [hbuild] at hsome
    cases hsome
  | ok made =>
    rw [hbuild] at hsome
    exact congrArg Except.ok (Option.some.inj hsome)

/-- **A table that is read has been checked like one that is made.** -/
theorem proper_of_read {document : Document} (h : Decoder.featureTable document = .ok t) :
    t.Proper := by
  obtain ⟨keys, columns, labelColumn, hbuild⟩ := exists_buildTable_of_read h
  exact proper_of_buildTable hbuild

theorem Loaded.proper (h : t.Loaded) : t.Proper := by
  induction h with
  | new h => exact proper_of_new h
  | withLabelColumn _ h ih => exact ih.withLabelColumn h
  | read h => exact proper_of_read h

/-! ## Selected -/

/-- **Distinct features of a table can be selected.** -/
theorem Proper.exists_select (h : t.Proper) {names : List String} (hnodup : names.Nodup)
    (hnames : ∀ name ∈ names, t.hasColumn name = true) :
    ∃ t', t.select names = .ok t' ∧ t'.size = t.size ∧ t'.columns.length = names.length ∧
      t'.Shaped := by
  have hcolumn : ∀ name ∈ names, ∃ c : Column Float32,
      (do return ⟨name, ← t.column name⟩ : Except Failure (Column Float32)) = .ok c ∧
        c ∈ t.columns := by
    intro name hname
    obtain ⟨c, hc, rfl, hvalues⟩ := exists_column? (hnames name hname)
    have hread : t.column c.name = .ok c.values := by rw [FeatureTable.column, hvalues]
    exact ⟨c, bind_eq_ok_iff.2 ⟨c.values, hread, rfl⟩, hc⟩
  obtain ⟨columns, hcolumns, hcount, hmem⟩ := exists_mapM_forall hcolumn
  have hlisted : names = columns.map Column.name := by
    rw [← List.forall₂_eq_eq_eq, List.forall₂_map_right_iff]
    refine (mapM_eq_ok_iff.1 hcolumns).imp fun name c hc => ?_
    obtain ⟨values, -, hc⟩ := bind_eq_ok_iff.1 hc
    cases hc
    rfl
  have hnew : new t.keys columns = .ok ⟨t.keys, columns, none⟩ :=
    new_eq_ok_iff.2 ⟨rfl, h.keys, hlisted ▸ hnodup, fun c hc => h.column c (hmem c hc)⟩
  exact ⟨_, bind_eq_ok_iff.2 ⟨columns, hcolumns, hnew⟩, rfl, hcount,
    fun c hc => h.shaped c (hmem c hc)⟩

/-- **The features of a table make a matrix**, with a row for each item. -/
theorem Shaped.toMatrix {E : Failure → Prop} (h : t.Shaped) :
    Ends t.toMatrix E (·.Sized t.size t.columns.length) := by
  have hrow : ∀ i ∈ List.range t.size, Ends (t.columns.mapM fun c => orBreak c.values[i]?) E
      fun row => row.length = t.columns.length := by
    intro i hi
    have hvalue : ∀ c ∈ t.columns, Ends (orBreak c.values[i]?) E fun _ => True := fun c hc =>
      .orBreak (List.getElem?_eq_getElem (h c hc ▸ List.mem_range.1 hi)) trivial
    exact (Ends.mapM hvalue).imp fun row hrow => hrow.1
  refine (Ends.mapM hrow).bind fun rows hrows => .ok ?_
  exact Matrix.sized_ofRowsOf (hrows.1.trans List.length_range) hrows.2

end FeatureTable

end RuleVote
