import Mathlib.Algebra.GroupWithZero.Nat
import RuleVote.Label.Preview
import RuleVote.Proofs.Label.Votes
import RuleVote.Proofs.Matrix.Shape
import RuleVote.Proofs.Text.Sorted
/-!
# Previews show the votes

A preview and a table of votes are made in two separate passes over the items.
Both evaluate one compiled rule on each row, and neither fails where the rule
was compiled for the table. One key more goes to the end of the group of its
vote (`RulePreview.Grouped.addKey`), so the groups are the keys by their votes,
in the order of the items (`RulePreview.grouped_foldl`). Where no key is there
twice, every key is in one group (`RulePreview.Grouped.partitions`). Hence a
preview is what the votes of the rule say (`previewRule_agrees`).
-/

namespace RuleVote

namespace RulePreview

variable {groups : List (Int × List String)} {pairs : List (String × Int)} {p : RulePreview}

/-! ## Groups -/

/-- The keys that have a given vote, in their order. -/
def keysVoted (pairs : List (String × Int)) (v : Int) : List String :=
  (pairs.filter fun pair => pair.2 = v).map Prod.fst

theorem mem_keysVoted {v : Int} {key : String} : key ∈ keysVoted pairs v ↔ (key, v) ∈ pairs := by
  simp [keysVoted]

/-- The groups after a number of keys with their votes. -/
structure Grouped (groups : List (Int × List String)) (pairs : List (String × Int)) : Prop where
  ascending : SortedMap.Ascending groups
  keys : ∀ v, (groups.lookup v).getD [] = keysVoted pairs v
  nonempty : ∀ v, groups.lookup v ≠ some []
  sum_length : (groups.map fun g => g.2.length).sum = pairs.length

theorem grouped_nil : Grouped [] [] := ⟨SortedMap.ascending_nil, fun _ => rfl, nofun, rfl⟩

/-- **One more key stands at the end of the group of its vote.** -/
theorem Grouped.addKey (h : Grouped groups pairs) (key : String) (v : Int) :
    Grouped (addKey v key groups) (pairs ++ [(key, v)]) := by
  refine ⟨h.ascending.upsert v _, fun w => ?_, fun w => ?_, ?_⟩
  · rw [RulePreview.addKey, h.ascending.lookup_upsert, keysVoted, List.filter_append,
      List.map_append, ← keysVoted, ← h.keys]
    by_cases hw : w = v
    · subst hw
      simp
    · simp [hw, Ne.symm hw]
  · rw [RulePreview.addKey, h.ascending.lookup_upsert]
    split_ifs
    · simp
    · exact h.nonempty w
  · have hadds : ∀ keys? : Option (List String),
        (keys?.getD [] ++ [key]).length = keys?.elim 0 List.length + 1 := by
      intro keys?
      cases keys? <;> simp
    rw [RulePreview.addKey, SortedMap.sum_upsert hadds, h.sum_length, List.length_append]
    rfl

/-- **Keys with votes are grouped by their votes.** -/
theorem grouped_foldl (pairs : List (String × Int)) :
    Grouped (pairs.foldl (fun groups pair => RulePreview.addKey pair.2 pair.1 groups) [])
      pairs := by
  induction pairs using List.reverseRecOn with
  | nil => exact grouped_nil
  | append_singleton pairs pair ih =>
    rw [List.foldl_append]
    exact ih.addKey pair.1 pair.2

theorem Grouped.mem_iff (h : Grouped groups pairs) {v : Int} {keys : List String} :
    (v, keys) ∈ groups ↔ keys ≠ [] ∧ keysVoted pairs v = keys := by
  rw [h.ascending.mem_iff, ← h.keys]
  constructor
  · intro hlookup
    refine ⟨fun hkeys => h.nonempty v (hkeys ▸ hlookup), ?_⟩
    rw [hlookup, Option.getD_some]
  · rintro ⟨hne, rfl⟩
    cases hlookup : groups.lookup v with
    | none =>
      rw [hlookup] at hne
      exact absurd rfl hne
    | some keys => rfl

/-- A preview of keys with votes: it has the keys of each vote, each key in one
group and none of its groups empty. -/
structure Partitions (p : RulePreview) (pairs : List (String × Int)) : Prop where
  keysFor : ∀ v, p.keysFor v = keysVoted pairs v
  ascending : SortedMap.Ascending p.groups
  nonempty : ∀ g ∈ p.groups, g.2 ≠ []
  existsUnique : ∀ key ∈ pairs.map Prod.fst, ∃! g, g ∈ p.groups ∧ key ∈ g.2
  count : p.labeledCount + (p.keysFor abstain).length = pairs.length

/-- **Where no key is there twice, each is in one group.** -/
theorem Grouped.partitions (h : Grouped p.groups pairs) (hnodup : (pairs.map Prod.fst).Nodup) :
    p.Partitions pairs where
  keysFor := h.keys
  ascending := h.ascending
  nonempty := fun (_, _) hg => (h.mem_iff.1 hg).1
  existsUnique := by
    intro key hkey
    obtain ⟨⟨key, v⟩, hpair, rfl⟩ := List.mem_map.1 hkey
    have hmem : key ∈ keysVoted pairs v := mem_keysVoted.2 hpair
    refine ⟨(v, keysVoted pairs v), ⟨h.mem_iff.2 ⟨List.ne_nil_of_mem hmem, rfl⟩, hmem⟩, ?_⟩
    rintro ⟨w, keys⟩ ⟨hg, hw⟩
    obtain ⟨-, rfl⟩ := h.mem_iff.1 hg
    -- the key has one vote only
    have hvote := List.inj_on_of_nodup_map hnodup (mem_keysVoted.1 hw) hpair rfl
    obtain rfl : w = v := congrArg Prod.snd hvote
    rfl
  count := by
    have hsum := h.ascending.sum_eq_filter_add List.length abstain
    rw [h.sum_length] at hsum
    rw [hsum, labeledCount, List.length_flatMap, RulePreview.keysFor]
    cases p.groups.lookup abstain <;> rfl

/-! ## The two passes -/

variable {f : RuleFunction} {table : FeatureTable} {votes : List Int}

/-- **The pass of a preview groups the votes on its items**, where all are there. -/
theorem collect_eq_ok {items : List (String × Nat)}
    (h : List.Forall₂ (fun item v => f.apply (table.row item.2) = .ok v) items votes)
    (groups : List (Int × List String)) : collect f table items groups =
      .ok (((items.map Prod.fst).zip votes).foldl
        (fun groups pair => RulePreview.addKey pair.2 pair.1 groups) groups) := by
  induction h generalizing groups with
  | nil => rfl
  | @cons item v _ _ hv _ ih =>
    rw [collect, hv]
    exact ih (RulePreview.addKey v item.1 groups)

end RulePreview

namespace VoteTable

variable {f : RuleFunction} {table : FeatureTable} {votes : List Int}

/-- A table has the votes of one function on the items with the given keys. -/
structure OneColumn (t : VoteTable) (keys : List String) (name : String) (votes : List Int) :
    Prop where
  keys_eq : t.keys = keys
  functions_eq : t.functions = [name]
  rows_eq : t.votes.rows = keys.length
  cols_eq : t.votes.cols = 1
  column_eq : t.votes.column 0 = .ok votes
  length_eq : votes.length = keys.length

theorem column_ofRowsOf_singleton :
    (Matrix.ofRowsOf 1 (votes.map fun v => [v])).column 0 = .ok votes := by
  have hdata : (votes.map fun v => [v]).flatten = votes := List.flatMap_singleton' votes
  refine mapM_eq_ok_iff.2 (List.forall₂_iff_get.2 ⟨by simp [Matrix.ofRowsOf], fun i hi hi' => ?_⟩)
  refine orBreak_eq_ok_iff.2 ?_
  simp [Matrix.ofRowsOf, hdata]

/-- **A function that votes on every item has a table of these votes.** -/
theorem exists_apply_singleton
    (h : (List.range table.size).mapM (fun i => f.apply (table.row i)) = .ok votes) :
    ∃ t, VoteTable.apply [f] table = .ok t ∧ t.OneColumn table.keys f.name votes := by
  have hlength : votes.length = table.keys.length := (length_of_mapM h).trans List.length_range
  refine ⟨_, apply_eq_ok_iff.2 ⟨votes.map fun v => [v], ?_, rfl⟩, rfl, rfl,
    (List.length_map _).trans hlength, rfl, column_ofRowsOf_singleton, hlength⟩
  refine mapM_eq_ok_iff.2 (List.forall₂_map_right_iff.2 ((mapM_eq_ok_iff.1 h).imp fun i v hv => ?_))
  rw [voteRow, List.mapM_cons, hv]
  rfl

end VoteTable

/-- **A compiled rule has a preview and a table of votes** that say the same. -/
theorem exists_previewRule {keys : List String} {columns : List (Column Float32)}
    {table : FeatureTable} (htable : FeatureTable.new keys columns = .ok table) {r : Rule}
    {labels : LabelSet} {f : RuleFunction} (hf : RuleFunction.compile r labels table = .ok f) :
    ∃ p t votes, previewRule r table labels = .ok p ∧ VoteTable.apply [f] table = .ok t ∧
      t.OneColumn keys f.name votes ∧ p.Partitions (keys.zip votes) ∧
      ∀ g ∈ p.groups, g.1 ∈ f.outcomes.toList := by
  have hshaped := FeatureTable.shaped_of_new htable
  obtain ⟨htable, hnodup, -⟩ := FeatureTable.new_eq_ok_iff.1 htable
  obtain rfl : table.keys = keys := congrArg FeatureTable.keys htable
  obtain ⟨votes, hvotes⟩ := exists_mapM_eq_ok_iff.2 fun i hi =>
    RuleFunction.exists_apply_row hshaped hf (List.mem_range.1 hi)
  obtain ⟨t, ht, hcolumn⟩ := VoteTable.exists_apply_singleton hvotes
  have hitems : List.Forall₂ (fun item v => f.apply (table.row item.2) = .ok v)
      table.keys.zipIdx votes := by
    have hrows : List.Forall₂ (fun i v => f.apply (table.row i) = .ok v)
        (table.keys.zipIdx.map Prod.snd) votes := by
      rw [List.zipIdx_map_snd, ← List.range_eq_range']
      exact mapM_eq_ok_iff.1 hvotes
    exact List.forall₂_map_left_iff.1 hrows
  have hcollect := RulePreview.collect_eq_ok hitems []
  rw [List.zipIdx_map_fst] at hcollect
  have hgrouped := RulePreview.grouped_foldl (table.keys.zip votes)
  have hzip : (table.keys.zip votes).map Prod.fst = table.keys :=
    List.map_fst_zip (Nat.le_of_eq hcolumn.length_eq.symm)
  refine ⟨⟨_⟩, t, votes, ?_, ht, hcolumn, hgrouped.partitions (hzip.symm ▸ hnodup), ?_⟩
  · rw [previewRule, hf]
    dsimp only [bind, Except.bind]
    rw [hcollect]
    rfl
  · -- a group has a key, whose vote it is
    rintro ⟨v, group⟩ hg
    obtain ⟨hne, rfl⟩ := hgrouped.mem_iff.1 hg
    obtain ⟨key, hkey⟩ := List.exists_mem_of_ne_nil _ hne
    have hv := (List.of_mem_zip (RulePreview.mem_keysVoted.1 hkey)).2
    obtain ⟨i, -, hvote⟩ := exists_of_mem_mapM hvotes hv
    exact RuleFunction.mem_outcomes_of_apply hvote

/-- **A preview agrees with the votes.** A rule has a preview on a table exactly
when it is compiled for the table, and fails alike. The keys that a preview has
for a label are then those with this vote, in the order of the items. -/
theorem previewRule_agrees {keys : List String} {columns : List (Column Float32)}
    {table : FeatureTable} (htable : FeatureTable.new keys columns = .ok table) (r : Rule)
    (labels : LabelSet) :
    (∀ failure, previewRule r table labels = .error failure ↔
      RuleFunction.compile r labels table = .error failure) ∧
    ∀ f, RuleFunction.compile r labels table = .ok f → ∃ p t votes,
      previewRule r table labels = .ok p ∧ VoteTable.apply [f] table = .ok t ∧
      t.OneColumn keys f.name votes ∧ p.Partitions (keys.zip votes) ∧
      ∀ g ∈ p.groups, g.1 ∈ f.outcomes.toList := by
  refine ⟨fun failure => ?_, fun f hf => exists_previewRule htable hf⟩
  cases hf : RuleFunction.compile r labels table with
  | error failure' =>
    have hp : previewRule r table labels = .error failure' := by
      rw [previewRule, hf]
      rfl
    rw [hp, Except.error.injEq, Except.error.injEq]
  | ok f =>
    obtain ⟨p, _, _, hp, -⟩ := exists_previewRule htable hf
    rw [hp]
    exact iff_of_false nofun nofun

/-- A rule that votes on the second of three items and abstains on the others. -/
theorem previewRule_agrees_three :
    let keys := ["a", "b", "c"]
    let columns : List (Column Float32) := [⟨"noise", [0.25, 0.75, 0.5]⟩]
    let table : FeatureTable := ⟨keys, columns, none⟩
    let r : Rule := ⟨"noisy", none, "noise > 0.5", 1, abstain⟩
    let p : RulePreview := ⟨[(abstain, ["a", "c"]), (1, ["b"])]⟩
    FeatureTable.new keys columns = .ok table ∧ previewRule r table ⟨["normal", "noisy"]⟩ = .ok p ∧
      ∃ f t votes, VoteTable.apply [f] table = .ok t ∧ t.OneColumn keys f.name votes ∧
        p.Partitions (keys.zip votes) := by
  intro keys columns table r p
  have htable : FeatureTable.new keys columns = .ok table := by decide +kernel
  have hp : previewRule r table ⟨["normal", "noisy"]⟩ = .ok p := by decide +kernel
  have hcompiles : (RuleFunction.compile r ⟨["normal", "noisy"]⟩ table).toOption.isSome = true := by
    decide +kernel
  refine ⟨htable, hp, ?_⟩
  cases hf : RuleFunction.compile r ⟨["normal", "noisy"]⟩ table with
  | error failure =>
    rw [hf] at hcompiles
    cases hcompiles
  | ok f =>
    obtain ⟨p', t, votes, hp', ht, hcolumn, hpartitions, -⟩ :=
      (previewRule_agrees htable r ⟨["normal", "noisy"]⟩).2 f hf
    obtain rfl := Except.ok.inj (hp.symm.trans hp')
    exact ⟨f, t, votes, ht, hcolumn, hpartitions⟩

end RuleVote
