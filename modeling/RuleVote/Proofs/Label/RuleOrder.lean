import RuleVote.Proofs.Label.Totality
import RuleVote.Proofs.Voter.Probabilities
/-!
# The order of rules

Rules are compiled one by one, so another order of the rules gives the same
functions in another order (`Labeler.compiled_perm`), and the same failure
where they are too few. The functions vote on their own, so each item gets
the same votes in that order (`VoteTable.reordered_of_apply`). A majority is
taken from counts, which know no order, and ties are settled by the row alone
or by draws in the order of the rows. So the labels and the probabilities of
a majority are the same for every order of the rules
(`Labeler.majority_of_perm`).
-/

namespace RuleVote

/-! ## Members in another order -/

namespace FeatureTable

variable {α β : Type} {as as' : List α} {order : List Nat}

theorem gather_eq_ok_iff : gather as order = .ok as' ↔
    List.Forall₂ (fun i a => as[i]? = some a) order as' := by
  rw [gather, mapM_eq_ok_iff]
  exact ⟨fun h => h.imp fun _ _ => orBreak_eq_ok_iff.1,
    fun h => h.imp fun _ _ => orBreak_eq_ok_iff.2⟩

/-- All members in their order. -/
theorem gather_range (as : List α) : gather as (List.range as.length) = .ok as := by
  refine gather_eq_ok_iff.2 (List.forall₂_iff_get.2 ⟨List.length_range, fun i _ hi => ?_⟩)
  simp only [List.get_eq_getElem, List.getElem_range, List.getElem?_eq_getElem hi]

/-- **A permutation is an order of the positions.** -/
theorem exists_order (h : as'.Perm as) :
    ∃ order, order.Perm (List.range as.length) ∧ gather as order = .ok as' := by
  have hall := (gather_eq_ok_iff.1 (gather_range as)).flip
  obtain ⟨order, horder, hperm⟩ := List.perm_comp_forall₂ h hall
  exact ⟨order, hperm, gather_eq_ok_iff.2 horder.flip⟩

/-- Members at all positions in some order are the same members. -/
theorem perm_of_gather (h : gather as order = .ok as')
    (horder : order.Perm (List.range as.length)) : as'.Perm as := by
  have hread := gather_eq_ok_iff.1 h
  obtain ⟨as'', hall, hperm⟩ := List.perm_comp_forall₂ horder.symm hread
  obtain rfl : as'' = as := by
    have heq := gather_eq_ok_iff.2 hall
    rw [gather_range] at heq
    exact (Except.ok.inj heq).symm
  exact hperm.symm

theorem gather_map (f : α → β) (h : gather as order = .ok as') :
    gather (as.map f) order = .ok (as'.map f) := by
  rw [gather_eq_ok_iff] at h ⊢
  rw [List.forall₂_map_right_iff]
  refine h.imp fun i a ha => ?_
  rw [List.getElem?_map, ha, Option.map_some]

/-- What is computed for members in another order comes in that order. -/
theorem gather_mapM {ε : Type} {f : α → Except ε β} {bs bs' : List β}
    (h : gather as order = .ok as') (hbs : as.mapM f = .ok bs) (hbs' : as'.mapM f = .ok bs') :
    gather bs order = .ok bs' := by
  have hall := mapM_eq_ok_iff.1 hbs
  have hstep : ∀ (i : Nat) a b, as[i]? = some a → f a = .ok b → bs[i]? = some b := by
    intro i a b ha hb
    obtain ⟨hi, rfl⟩ := List.getElem?_eq_some_iff.1 ha
    have hi' : i < bs.length := hall.length_eq ▸ hi
    rw [List.getElem?_eq_getElem hi']
    exact congrArg some (Except.ok.inj ((hall.get hi hi').symm.trans hb))
  rw [gather_eq_ok_iff] at h ⊢
  have hcomp := mapM_eq_ok_iff.1 hbs'
  clear hbs'
  induction h generalizing bs' with
  | nil =>
    cases hcomp
    exact .nil
  | cons ha _ ih =>
    cases hcomp with
    | cons hb hrest => exact .cons (hstep _ _ _ ha hb) (ih hrest)

end FeatureTable

/-! ## Votes in another order -/

namespace VoteTable

open FeatureTable

variable {functions functions' : List RuleFunction} {table : FeatureTable} {t t' : VoteTable}
  {order : List Nat}

/-- The same items, with the columns of votes in another order. -/
structure Reordered (order : List Nat) (t t' : VoteTable) : Prop where
  keys_eq : t'.keys = t.keys
  functions : gather t.functions order = .ok t'.functions
  rows : ∃ rows rows', t.votes.allRows = .ok rows ∧ t'.votes.allRows = .ok rows' ∧
    List.Forall₂ (fun row row' => gather row order = .ok row') rows rows'

theorem length_of_apply (ht : apply functions table = .ok t) :
    t.functions.length = functions.length := by
  obtain ⟨rows, -, rfl⟩ := apply_eq_ok_iff.1 ht
  exact List.length_map _

/-- **Functions in another order give their votes in that order.** -/
theorem reordered_of_apply (h : gather functions order = .ok functions')
    (ht : apply functions table = .ok t) (ht' : apply functions' table = .ok t') :
    Reordered order t t' := by
  obtain ⟨rows, hrows, rfl⟩ := apply_eq_ok_iff.1 ht
  obtain ⟨rows', hrows', rfl⟩ := apply_eq_ok_iff.1 ht'
  have hwidth : ∀ {functions : List RuleFunction} {rows : List (List Int)},
      (List.range table.size).mapM (fun i => voteRow functions (table.row i)) = .ok rows →
        ∀ row ∈ rows, row.length = functions.length := by
    intro functions rows hrows row hrow
    obtain ⟨i, -, hi⟩ := exists_of_mem_mapM hrows hrow
    exact length_of_mapM hi
  refine ⟨rfl, gather_map _ h, rows, rows', Matrix.allRows_ofRowsOf (hwidth hrows),
    Matrix.allRows_ofRowsOf (hwidth hrows'), ?_⟩
  have hread := mapM_eq_ok_iff.1 hrows
  have hread' := mapM_eq_ok_iff.1 hrows'
  refine List.forall₂_iff_get.2 ⟨hread.length_eq.symm.trans hread'.length_eq, fun i hi hi' => ?_⟩
  have hi₀ : i < (List.range table.size).length := hread.length_eq ▸ hi
  exact gather_mapM h (hread.get hi₀ hi) (hread'.get hi₀ hi')

/-- **Columns in another order leave the probabilities of a majority alone.** -/
theorem Reordered.majorityProbabilities_eq {classes : Nat} (h : Reordered order t t')
    (ht : t.Valid classes) (ht' : t'.Valid classes)
    (horder : order.Perm (List.range t.functions.length)) :
    majorityProbabilities classes t'.votes = majorityProbabilities classes t.votes := by
  obtain ⟨rows, rows', hrows, hrows', hread⟩ := h.rows
  refine (majorityProbabilities_perm (checkVotes_eq_ok ht.isVote) (checkVotes_eq_ok ht'.isVote)
    hrows hrows' ?_).symm
  have hwidth := (Matrix.shape_of_allRows hrows).2
  refine List.forall₂_iff_get.2 ⟨hread.length_eq, fun i hi hi' => ?_⟩
  have hlength : (rows.get ⟨i, hi⟩).length = t.functions.length :=
    (hwidth _ (List.get_mem _ _)).trans ht.cols_eq
  exact (perm_of_gather (hread.get hi hi') (hlength ▸ horder)).symm

end VoteTable

/-! ## Rules in another order -/

namespace Labeler

variable {rules rules' : List Rule} {labels : LabelSet} {table : FeatureTable}
  {selection : Option (List String)}

/-- Rules in another order compile to the same functions in another order. -/
theorem compiled_perm (h : rules'.Perm rules) :
    (new rules' labels table selection).compiled.functions.Perm
      (new rules labels table selection).compiled.functions :=
  (h.filter _).filterMap _

/-- **Whether rules are enough does not depend on their order**, nor how many
of them there are. -/
theorem createFunctions_perm (h : rules'.Perm rules) :
    let l := (new rules labels table selection).createFunctions
    let l' := (new rules' labels table selection).createFunctions
    l'.1 = l.1 ∧ l'.2.functions.Perm l.2.functions := by
  have hfunctions : (new rules' labels table selection).compiled.functions.Perm
      (new rules labels table selection).compiled.functions := compiled_perm h
  rw [createFunctions_eq, createFunctions_eq, hfunctions.length_eq]
  split_ifs
  · exact ⟨rfl, hfunctions⟩
  · exact ⟨rfl, hfunctions⟩

/-- A labeler whose creation succeeded has valid votes. -/
theorem exists_voted_of_createFunctions {l l' : Labeler} (htable : l.table.Shaped)
    (h : l.createFunctions = (.ok (), l')) :
    ∃ t, VoteTable.apply l'.functions l.table = .ok t ∧ l'.apply = .ok (l'.voted t) ∧
      t.Valid l.labels.cardinality ∧ l'.labels = l.labels := by
  obtain ⟨hsound, hstage, hlabels, hbound⟩ := sound_of_createFunctions h
  obtain ⟨t, ht, happly⟩ := hsound.exists_apply (hbound ▸ htable) (Nat.le_of_eq (hstage ▸ rfl))
  exact ⟨t, hbound ▸ ht, happly, hlabels ▸ hsound.valid ht, hlabels⟩

/-- A labeler that has just voted finds the labels of the majority. -/
theorem predictFrom_voted {l : Labeler} {t : VoteTable} {p : Matrix Float32} {found : List Int}
    {policy : TiePolicy} {seed : Nat} {stream : KeyStream}
    (hp : majorityProbabilities l.labels.cardinality t.votes = .ok p)
    (hfound : labelsFrom policy seed stream p = .ok found) :
    (l.voted t).predictFrom policy seed stream = .ok ((l.voted t).found found p) :=
  predictFrom_eq_ok_iff.2 ⟨Nat.le_refl 2, t, p, found, rfl, hp, hfound, rfl⟩

/-- **Majority labels do not depend on the order of the rules.** Creation
answers the same for every order. Where it succeeds, the functions vote, the
columns of votes are in the order of the functions, and under every policy,
for every seed and whatever is drawn, the labels and the probabilities of the
majority are the same. -/
theorem majority_of_perm (hrules : rules'.Perm rules) (htable : table.Built) (labels : LabelSet)
    (selection : Option (List String)) :
    let l := (new rules labels table selection).createFunctions
    let l' := (new rules' labels table selection).createFunctions
    l'.1 = l.1 ∧ (l.1 = .ok () → ∃ order t t',
      order.Perm (List.range l.2.functions.length) ∧
      FeatureTable.gather l.2.functions order = .ok l'.2.functions ∧
      l.2.apply = .ok (l.2.voted t) ∧ l'.2.apply = .ok (l'.2.voted t') ∧
      t.Reordered order t' ∧
      ∀ policy seed stream, ∃ found p,
        (l.2.voted t).predictFrom policy seed stream = .ok ((l.2.voted t).found found p) ∧
        (l'.2.voted t').predictFrom policy seed stream = .ok ((l'.2.voted t').found found p)) := by
  intro l l'
  obtain ⟨hanswer, hfunctions⟩ : l'.1 = l.1 ∧ l'.2.functions.Perm l.2.functions :=
    createFunctions_perm hrules
  refine ⟨hanswer, fun hok => ?_⟩
  have hcreate : (new rules labels table selection).createFunctions = (.ok (), l.2) :=
    Prod.ext hok rfl
  have hcreate' : (new rules' labels table selection).createFunctions = (.ok (), l'.2) :=
    Prod.ext (hanswer.trans hok) rfl
  obtain ⟨t, ht, happly, hvalid, hlabels⟩ := exists_voted_of_createFunctions htable.shaped hcreate
  obtain ⟨t', ht', happly', hvalid', hlabels'⟩ :=
    exists_voted_of_createFunctions htable.shaped hcreate'
  -- The columns change places as the functions do; counting votes does not see it.
  obtain ⟨order, horder, hread⟩ := FeatureTable.exists_order hfunctions
  have hreordered : t.Reordered order t' := VoteTable.reordered_of_apply hread ht ht'
  refine ⟨order, t, t', horder, hread, happly, happly', hreordered, fun policy seed stream => ?_⟩
  obtain ⟨p, hp, -, hshaped⟩ := exists_majorityProbabilities hvalid.wellShaped hvalid.isVote
  obtain ⟨found, hfound⟩ := exists_labelsFrom hshaped stream
  have horder' : order.Perm (List.range t.functions.length) :=
    (VoteTable.length_of_apply ht).symm ▸ horder
  have hp' := (hreordered.majorityProbabilities_eq hvalid hvalid' horder').trans hp
  exact ⟨found, p, predictFrom_voted (hlabels ▸ hp) hfound,
    predictFrom_voted (hlabels' ▸ hp') hfound⟩

/-- Three rules and the same rules with the first of them at the end. -/
theorem majority_of_perm_rotated :
    let table : FeatureTable := ⟨["a", "b"], [⟨"noise", [0.25, 0.75]⟩, ⟨"gaps", [0, 4]⟩], none⟩
    let labels : LabelSet := ⟨["normal", "high noise", "gaps"]⟩
    let noisy : Rule := ⟨"noisy", none, "noise > 0.5", 1, 0⟩
    let others : List Rule := [⟨"gaps", none, "gaps > 1", 2, -1⟩,
      ⟨"both", none, "if gaps:\n\tif noise > 0.5: return HIGH_NOISE", freeFormMark, freeFormMark⟩]
    let l := (new (noisy :: others) labels table none).createFunctions
    let l' := (new (others ++ [noisy]) labels table none).createFunctions
    (others ++ [noisy]).Perm (noisy :: others) ∧ table.Built ∧ l'.1 = l.1 ∧
      ∃ order t t', order.Perm (List.range l.2.functions.length) ∧
        FeatureTable.gather l.2.functions order = .ok l'.2.functions ∧
        l.2.apply = .ok (l.2.voted t) ∧ l'.2.apply = .ok (l'.2.voted t') ∧
        t.Reordered order t' ∧
        ∃ found p,
          (l.2.voted t).predictFrom .random 7 (.ofSeed 7) = .ok ((l.2.voted t).found found p) ∧
          (l'.2.voted t').predictFrom .random 7 (.ofSeed 7) =
            .ok ((l'.2.voted t').found found p) := by
  intro table labels noisy others l l'
  have hperm : (others ++ [noisy]).Perm (noisy :: others) := List.perm_append_singleton _ _
  have hbuilt : table.Built :=
    .new (show FeatureTable.new table.keys table.columns = .ok table by decide +kernel)
  obtain ⟨hanswer, hmajority⟩ := majority_of_perm hperm hbuilt labels none
  have hok : l.1 = .ok () := by decide +kernel
  obtain ⟨order, t, t', horder, hread, happly, happly', hreordered, hpredict⟩ := hmajority hok
  exact ⟨hperm, hbuilt, hanswer, order, t, t', horder, hread, happly, happly', hreordered,
    hpredict .random 7 (.ofSeed 7)⟩

end Labeler

end RuleVote
