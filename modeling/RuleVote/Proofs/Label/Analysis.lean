import Mathlib.Data.Finset.Card
import Mathlib.Data.Nat.Count
import RuleVote.Label.Analysis
import RuleVote.Proofs.Label.Votes
import RuleVote.Proofs.Matrix.Shape
import RuleVote.Proofs.Text.Sorted
/-!
# What an analysis counts

An analysis never compares two functions. It condenses a row to its votes and to
its labels, and from these it tells whether a function meets another one there:
it votes beside another function where it votes in a row of two votes
(`VoteTable.votesBeside_iff`), and against another one where the row has a
second label (`VoteTable.votesAgainst_iff`). So the numbers of an analysis are
those of pairs of functions, for any number of functions and labels
(`VoteAnalysis.counted_of_new`).

A table that was decoded may lack entries or names, and then has no analysis
(`VoteAnalysis.exists_new_iff`). One that was made from its votes lacks none
(`VoteTable.Made.readable`).
-/

namespace RuleVote

namespace VoteTable

variable {t : VoteTable} {i j : Nat}

/-! ## Votes that meet -/

/-- The vote of function `j` on item `i`. -/
def vote (t : VoteTable) (i j : Nat) : Int := (t.votes.data[i * t.votes.cols + j]?).getD abstain

/-- Function `j` votes on item `i`. -/
def Votes (t : VoteTable) (i j : Nat) : Prop := t.vote i j ≠ abstain

/-- Function `j` and another function vote on item `i`. -/
def VotesBeside (t : VoteTable) (i j : Nat) : Prop :=
  t.Votes i j ∧ ∃ k < t.votes.cols, k ≠ j ∧ t.Votes i k

/-- Function `j` and another function vote differently on item `i`. -/
def VotesAgainst (t : VoteTable) (i j : Nat) : Prop :=
  t.Votes i j ∧ ∃ k < t.votes.cols, k ≠ j ∧ t.Votes i k ∧ t.vote i k ≠ t.vote i j

/-- Some function votes on item `i`. -/
def Covered (t : VoteTable) (i : Nat) : Prop := ∃ j < t.votes.cols, t.Votes i j

/-- Two functions vote on item `i`. -/
def Overlapped (t : VoteTable) (i : Nat) : Prop := ∃ j < t.votes.cols, t.VotesBeside i j

/-- Two functions vote differently on item `i`. -/
def Conflicted (t : VoteTable) (i : Nat) : Prop := ∃ j < t.votes.cols, t.VotesAgainst i j

/-- Function `j` votes on item `i`, which has a gold label. -/
def Judged (t : VoteTable) (labels : List Int) (i j : Nat) : Prop :=
  t.Votes i j ∧ labels[i]?.getD abstain ≠ abstain

/-- The vote of function `j` on item `i` is the gold label. -/
def Agrees (t : VoteTable) (labels : List Int) (i j : Nat) : Prop :=
  t.vote i j = labels[i]?.getD abstain

instance (t : VoteTable) (i j : Nat) : Decidable (t.Votes i j) :=
  inferInstanceAs (Decidable (_ ≠ _))

instance (t : VoteTable) (i j : Nat) : Decidable (t.VotesBeside i j) :=
  inferInstanceAs (Decidable (_ ∧ ∃ k, k < t.votes.cols ∧ k ≠ j ∧ t.Votes i k))

instance (t : VoteTable) (i j : Nat) : Decidable (t.VotesAgainst i j) :=
  inferInstanceAs
    (Decidable (_ ∧ ∃ k, k < t.votes.cols ∧ k ≠ j ∧ t.Votes i k ∧ t.vote i k ≠ t.vote i j))

instance (t : VoteTable) (i : Nat) : Decidable (t.Covered i) :=
  inferInstanceAs (Decidable (∃ j, j < t.votes.cols ∧ t.Votes i j))

instance (t : VoteTable) (i : Nat) : Decidable (t.Overlapped i) :=
  inferInstanceAs (Decidable (∃ j, j < t.votes.cols ∧ t.VotesBeside i j))

instance (t : VoteTable) (i : Nat) : Decidable (t.Conflicted i) :=
  inferInstanceAs (Decidable (∃ j, j < t.votes.cols ∧ t.VotesAgainst i j))

instance (t : VoteTable) (labels : List Int) (i j : Nat) : Decidable (t.Judged labels i j) :=
  inferInstanceAs (Decidable (_ ∧ _ ≠ _))

instance (t : VoteTable) (labels : List Int) (i j : Nat) : Decidable (t.Agrees labels i j) :=
  inferInstanceAs (Decidable (_ = _))

/-- Where two functions vote, every one that votes has another beside it. -/
theorem votesBeside_iff (hj : j < t.votes.cols) :
    t.VotesBeside i j ↔ t.Votes i j ∧ t.Overlapped i := by
  constructor
  · exact fun h => ⟨h.1, j, hj, h⟩
  · rintro ⟨hvotes, a, ha, hvotesa, b, hb, hab, hvotesb⟩
    by_cases haj : a = j
    · exact ⟨hvotes, b, hb, haj ▸ hab, hvotesb⟩
    · exact ⟨hvotes, a, ha, haj, hvotesa⟩

/-- A different vote is that of another function. -/
theorem votesAgainst_iff : t.VotesAgainst i j ↔
    t.Votes i j ∧ ∃ k < t.votes.cols, t.Votes i k ∧ t.vote i k ≠ t.vote i j := by
  refine and_congr_right fun _ => exists_congr fun k => and_congr_right fun _ => ?_
  refine and_iff_right_of_imp fun h hk => h.2 ?_
  rw [hk]

/-! ## Tables that can be read -/

/-- A table has an entry in every place and a name for every column. -/
structure Readable (t : VoteTable) : Prop where
  entries : t.votes.rows * t.votes.cols ≤ t.votes.data.size
  names : t.votes.cols ≤ t.functions.length

/-- A table that was made: of votes of functions, of given votes that have their
shape, or from another one. -/
inductive Made : VoteTable → Prop
  | apply {functions : List RuleFunction} {table : FeatureTable} {t : VoteTable}
      (happly : VoteTable.apply functions table = .ok t) : Made t
  | ofVotes {keys functions : List String} {votes : Matrix Int} {t : VoteTable}
      (hvotes : votes.WellShaped) (hmade : VoteTable.ofVotes keys functions votes = .ok t) : Made t
  | withGold {t t' : VoteTable} {gold : String → Option Int} (ht : Made t)
      (hgold : t.withGold gold = .ok t') : Made t'
  | selectRows {t t' : VoteTable} {indices : List Nat} (ht : Made t)
      (hselect : t.selectRows indices = .ok t') : Made t'

/-- **A table that was made can be read.** -/
theorem Made.readable (h : t.Made) : t.Readable := by
  -- the shape is exact, and so is the number of names
  suffices hexact : t.votes.WellShaped ∧ t.votes.cols = t.functions.length from
    ⟨Nat.le_of_eq hexact.1.symm, Nat.le_of_eq hexact.2⟩
  induction h with
  | apply happly =>
    obtain ⟨rows, hrows, rfl⟩ := apply_eq_ok_iff.1 happly
    exact ⟨Matrix.wellShaped_ofRowsOf (length_of_voteRows hrows), (List.length_map _).symm⟩
  | ofVotes hvotes hmade =>
    rw [VoteTable.ofVotes] at hmade
    split_ifs at hmade with hshape
    obtain rfl := Except.ok.inj hmade
    exact ⟨hvotes, hshape.2⟩
  | @withGold t _ gold _ hgold ih =>
    obtain ⟨rows, hrows, hgold⟩ := bind_eq_ok_iff.1 hgold
    obtain rfl := Except.ok.inj hgold
    refine ⟨Matrix.wellShaped_ofRowsOf (forall_mem_zipWith fun key _ row hrow => ?_), ih.2⟩
    exact (length_goldRow gold key row).trans ((Matrix.shape_of_allRows hrows).2 row hrow)
  | selectRows _ hselect ih =>
    obtain ⟨keys, -, hselect⟩ := bind_eq_ok_iff.1 hselect
    obtain ⟨votes, hvotes, hselect⟩ := bind_eq_ok_iff.1 hselect
    obtain ⟨rows, hrows, hvotes⟩ := bind_eq_ok_iff.1 hvotes
    obtain rfl := Except.ok.inj hselect
    obtain rfl := Except.ok.inj hvotes
    refine ⟨Matrix.wellShaped_ofRowsOf fun r hr => ?_, ih.2⟩
    obtain ⟨i, -, hi⟩ := exists_of_mem_mapM hrows hr
    exact Matrix.length_of_row hi

/-- The entries of a table are the votes of its functions on its items. -/
theorem holds_vote (h : t.votes.rows * t.votes.cols ≤ t.votes.data.size) :
    t.votes.Holds t.vote := by
  intro i hi j hj
  have hplace : i * t.votes.cols + j < t.votes.data.size := by
    have hnext := Nat.mul_le_mul_right t.votes.cols (Nat.succ_le_of_lt hi)
    rw [Nat.succ_mul] at hnext
    omega
  rw [vote, Array.getElem?_eq_getElem hplace, Option.getD_some]

/-- The votes on item `i`. -/
def votesOn (t : VoteTable) (i : Nat) : List Int := (List.range t.votes.cols).map (t.vote i)

theorem mem_castVotes_votesOn {v : Int} :
    v ∈ castVotes (t.votesOn i) ↔ ∃ j < t.votes.cols, t.Votes i j ∧ t.vote i j = v := by
  rw [castVotes, List.mem_filter, votesOn, List.mem_map, decide_eq_true_iff]
  constructor
  · rintro ⟨⟨j, hj, rfl⟩, hv⟩
    exact ⟨j, List.mem_range.1 hj, hv, rfl⟩
  · rintro ⟨j, hj, hv, rfl⟩
    exact ⟨⟨j, List.mem_range.2 hj, rfl⟩, hv⟩

/-- The functions that vote on item `i`. -/
def voters (t : VoteTable) (i : Nat) : Finset Nat := {j ∈ Finset.range t.votes.cols | t.Votes i j}

theorem length_castVotes_votesOn : (castVotes (t.votesOn i)).length = (t.voters i).card := by
  rw [castVotes, votesOn, List.filter_map, List.length_map]
  rfl

/-- Two functions vote where there are two votes. -/
theorem isOverlapped_votesOn : VoteAnalysis.isOverlapped (t.votesOn i) = true ↔ t.Overlapped i := by
  rw [VoteAnalysis.isOverlapped, decide_eq_true_iff, length_castVotes_votesOn, Finset.one_lt_card]
  simp only [voters, Finset.mem_filter, Finset.mem_range]
  constructor
  · rintro ⟨j, ⟨hj, hvotes⟩, k, ⟨hk, hvotesk⟩, hne⟩
    exact ⟨j, hj, hvotes, k, hk, hne.symm, hvotesk⟩
  · rintro ⟨j, hj, hvotes, k, hk, hne, hvotesk⟩
    exact ⟨j, ⟨hj, hvotes⟩, k, ⟨hk, hvotesk⟩, hne.symm⟩

theorem isCovered_votesOn : VoteAnalysis.isCovered (t.votesOn i) = true ↔ t.Covered i := by
  rw [VoteAnalysis.isCovered, Bool.not_eq_true', List.isEmpty_eq_false_iff_exists_mem]
  constructor
  · rintro ⟨v, hv⟩
    obtain ⟨j, hj, hvotes, -⟩ := mem_castVotes_votesOn.1 hv
    exact ⟨j, hj, hvotes⟩
  · rintro ⟨j, hj, hvotes⟩
    exact ⟨_, mem_castVotes_votesOn.2 ⟨j, hj, hvotes, rfl⟩⟩

/-- Two functions vote differently where there are two labels. -/
theorem isConflicted_votesOn :
    VoteAnalysis.isConflicted (t.votesOn i) = true ↔ t.Conflicted i := by
  have hnodup : (distinctVotes (t.votesOn i)).toList.Nodup := (SortedSet.ascending_ofList _).nodup
  rw [VoteAnalysis.isConflicted, decide_eq_true_iff, ← List.toFinset_card_of_nodup hnodup,
    Finset.one_lt_card]
  simp only [List.mem_toFinset, distinctVotes, SortedSet.mem_ofList, mem_castVotes_votesOn]
  constructor
  · rintro ⟨_, ⟨j, hj, hvotes, rfl⟩, _, ⟨k, hk, hvotesk, rfl⟩, hne⟩
    exact ⟨j, hj, votesAgainst_iff.2 ⟨hvotes, k, hk, hvotesk, hne.symm⟩⟩
  · rintro ⟨j, hj, h⟩
    obtain ⟨hvotes, k, hk, hvotesk, hne⟩ := votesAgainst_iff.1 h
    exact ⟨_, ⟨j, hj, hvotes, rfl⟩, _, ⟨k, hk, hvotesk, rfl⟩, hne.symm⟩

end VoteTable

namespace VoteAnalysis

open VoteTable

variable {t : VoteTable} {gold : Option (List Int)} {a : VoteAnalysis}

/-! ## Counts over the items -/

/-- A count over what is read item by item is one over the items. -/
theorem countP_map_range {β : Type} {n : Nat} {read : Nat → β} {p : β → Bool} {P : Nat → Prop}
    [DecidablePred P] (h : ∀ i < n, p (read i) = true ↔ P i) :
    ((List.range n).map read).countP p = Nat.count P n := by
  rw [List.countP_map]
  refine List.countP_congr fun i hi => ?_
  rw [Function.comp_apply, h i (List.mem_range.1 hi), decide_eq_true_iff]

theorem voteCount_map_vote {n j : Nat} :
    voteCount ((List.range n).map (t.vote · j)) = Nat.count (t.Votes · j) n :=
  countP_map_range fun _ _ => decide_eq_true_iff

theorem any_getElem?_votesOn {i j : Nat} (hj : j < t.votes.cols) (p : Int → Bool) :
    (t.votesOn i)[j]?.any p = p (t.vote i j) := by
  rw [votesOn, List.getElem?_map, List.getElem?_range hj]
  rfl

theorem overlapCount_map_votesOn {n j : Nat} (hj : j < t.votes.cols) :
    overlapCount ((List.range n).map t.votesOn) j = Nat.count (t.VotesBeside · j) n := by
  refine countP_map_range fun i _ => ?_
  rw [any_getElem?_votesOn hj, Bool.and_eq_true, bne_iff_ne, isOverlapped_votesOn,
    votesBeside_iff hj]
  rfl

theorem conflictCount_map_votesOn {n j : Nat} (hj : j < t.votes.cols) :
    conflictCount ((List.range n).map t.votesOn) j = Nat.count (t.VotesAgainst · j) n := by
  refine countP_map_range fun i _ => ?_
  rw [any_getElem?_votesOn hj, Bool.and_eq_true, bne_iff_ne, List.any_eq_true, votesAgainst_iff]
  refine and_congr_right fun _ => ?_
  simp only [distinctVotes, SortedSet.mem_ofList, mem_castVotes_votesOn, bne_iff_ne]
  constructor
  · rintro ⟨_, ⟨k, hk, hvotes, rfl⟩, hne⟩
    exact ⟨k, hk, hvotes, hne⟩
  · rintro ⟨k, hk, hvotes, hne⟩
    exact ⟨_, ⟨k, hk, hvotes, rfl⟩, hne⟩

theorem judgedCount_map_vote {labels : List Int} {n j : Nat} (hlabels : labels.length = n)
    (agree : Bool) : judgedCount agree ((List.range n).map (t.vote · j)) labels =
      Nat.count (fun i => t.Judged labels i j ∧ (t.Agrees labels i j ↔ agree = true)) n := by
  have hread : labels = (List.range n).map fun i => labels[i]?.getD abstain := by
    refine List.ext_getElem (by rw [List.length_map, List.length_range, hlabels]) fun i hi _ => ?_
    rw [List.getElem_map, List.getElem_range, List.getElem?_eq_getElem hi, Option.getD_some]
  conv_lhs => rw [hread]
  rw [judgedCount, List.zip_map']
  refine countP_map_range fun i _ => ?_
  rw [Bool.and_eq_true, Bool.and_eq_true, bne_iff_ne, bne_iff_ne, beq_iff_eq (b := agree),
    Bool.eq_iff_iff, beq_iff_eq]
  rfl

/-! ## What an analysis says -/

/-- Gold labels, if there are any, are as many as the items. -/
def GoldFits (t : VoteTable) (gold : Option (List Int)) : Prop :=
  ∀ labels ∈ gold, labels.length = t.votes.rows

instance (t : VoteTable) (gold : Option (List Int)) : Decidable (GoldFits t gold) :=
  inferInstanceAs (Decidable (∀ labels ∈ gold, labels.length = t.votes.rows))

/-- Other gold labels are refused. -/
theorem new_of_length_ne {labels : List Int} (h : labels.length ≠ t.votes.rows) :
    new t (some labels) = fail (.shapeMismatch (toString t.votes.rows ++ " gold labels")
      (toString labels.length)) := by
  rw [new]
  dsimp only
  rw [if_pos h]
  rfl

theorem new_eq_ok_iff (hgold : GoldFits t gold) : new t gold = .ok a ↔
    ∃ rows, t.votes.allRows = .ok rows ∧
      ∃ summaries, (List.range t.votes.cols).mapM (summary t rows gold) = .ok summaries ∧
        a = ⟨summaries, share (rows.countP isCovered) t.votes.rows,
          share (rows.countP isOverlapped) t.votes.rows,
          share (rows.countP isConflicted) t.votes.rows⟩ := by
  have hopen : new t gold = t.votes.allRows >>= fun rows =>
      (List.range t.votes.cols).mapM (summary t rows gold) >>= fun summaries =>
        .ok ⟨summaries, share (rows.countP isCovered) t.votes.rows,
          share (rows.countP isOverlapped) t.votes.rows,
          share (rows.countP isConflicted) t.votes.rows⟩ := by
    cases gold with
    | none => rfl
    | some labels =>
      rw [new]
      dsimp only
      rw [if_neg (not_not_intro (hgold labels rfl))]
      rfl
  simp only [hopen, bind_eq_ok_iff, Except.ok.injEq, eq_comm (b := a)]

/-- A summary has the name, the labels and the counts of function `j`. -/
structure Describes (t : VoteTable) (gold : Option (List Int)) (j : Nat) (s : FunctionSummary) :
    Prop where
  function : t.functions[j]? = some s.function
  polarity : ∀ v, v ∈ s.polarity.toList ↔ ∃ i < t.votes.rows, t.Votes i j ∧ t.vote i j = v
  ascending : s.polarity.Ascending
  coverage : s.coverage = share (Nat.count (t.Votes · j) t.votes.rows) t.votes.rows
  overlaps : s.overlaps = share (Nat.count (t.VotesBeside · j) t.votes.rows) t.votes.rows
  conflicts : s.conflicts = share (Nat.count (t.VotesAgainst · j) t.votes.rows) t.votes.rows
  correct : s.correct = gold.map fun labels =>
    Nat.count (fun i => t.Judged labels i j ∧ t.Agrees labels i j) t.votes.rows
  incorrect : s.incorrect = gold.map fun labels =>
    Nat.count (fun i => t.Judged labels i j ∧ ¬t.Agrees labels i j) t.votes.rows

/-- An analysis has the summaries of the functions and the counts of the items. -/
structure Counted (t : VoteTable) (gold : Option (List Int)) (a : VoteAnalysis) : Prop where
  summaries : List.Forall₂ (Describes t gold) (List.range t.votes.cols) a.summaries
  labelCoverage : a.labelCoverage = share (Nat.count t.Covered t.votes.rows) t.votes.rows
  labelOverlap : a.labelOverlap = share (Nat.count t.Overlapped t.votes.rows) t.votes.rows
  labelConflict : a.labelConflict = share (Nat.count t.Conflicted t.votes.rows) t.votes.rows

theorem exists_summary (h : t.Readable) (hgold : GoldFits t gold) {j : Nat}
    (hj : j < t.votes.cols) :
    ∃ s, summary t ((List.range t.votes.rows).map t.votesOn) gold j = .ok s ∧
      Describes t gold j s := by
  have hcolumn := (holds_vote h.entries).column hj
  have hname := List.getElem?_eq_getElem (Nat.lt_of_lt_of_le hj h.names)
  have hjudged : ∀ agree, gold.map (judgedCount agree ((List.range t.votes.rows).map (t.vote · j)))
      = gold.map fun labels => Nat.count
        (fun i => t.Judged labels i j ∧ (t.Agrees labels i j ↔ agree = true)) t.votes.rows :=
    fun agree => Option.map_congr fun labels hlabels =>
      judgedCount_map_vote (hgold labels hlabels) agree
  rw [summary, hcolumn, hname]
  refine ⟨_, rfl, hname, fun v => ?_, SortedSet.ascending_ofList _, ?_, ?_, ?_, ?_, ?_⟩
  · rw [SortedSet.mem_ofList, castVotes, List.mem_filter, List.mem_map, decide_eq_true_iff]
    constructor
    · rintro ⟨⟨i, hi, rfl⟩, hv⟩
      exact ⟨i, List.mem_range.1 hi, hv, rfl⟩
    · rintro ⟨i, hi, hv, rfl⟩
      exact ⟨⟨i, List.mem_range.2 hi, rfl⟩, hv⟩
  · rw [voteCount_map_vote]
  · rw [overlapCount_map_votesOn hj]
  · rw [conflictCount_map_votesOn hj]
  · simpa using hjudged true
  · simpa using hjudged false

/-- **A table that can be read has an analysis**, which counts its votes. -/
theorem exists_new (h : t.Readable) (hgold : GoldFits t gold) :
    ∃ a, new t gold = .ok a ∧ Counted t gold a := by
  obtain ⟨summaries, hsummaries⟩ : ∃ summaries, (List.range t.votes.cols).mapM
      (summary t ((List.range t.votes.rows).map t.votesOn) gold) = .ok summaries := by
    refine exists_mapM_eq_ok_iff.2 fun j hj => ?_
    obtain ⟨s, hs, -⟩ := exists_summary h hgold (List.mem_range.1 hj)
    exact ⟨s, hs⟩
  refine ⟨_, (new_eq_ok_iff hgold).2
    ⟨_, (holds_vote h.entries).allRows, summaries, hsummaries, rfl⟩, ?_, ?_, ?_, ?_⟩
  · refine List.forall₂_iff_get.2 ⟨(length_of_mapM hsummaries).symm, fun j hj hj' => ?_⟩
    have hs := (mapM_eq_ok_iff.1 hsummaries).get hj hj'
    rw [List.get_eq_getElem, List.getElem_range] at hs ⊢
    obtain ⟨s, hs', hdescribes⟩ := exists_summary h hgold (List.length_range ▸ hj)
    exact Except.ok.inj (hs'.symm.trans hs) ▸ hdescribes
  · exact congrArg (share · _) (countP_map_range fun _ _ => isCovered_votesOn)
  · exact congrArg (share · _) (countP_map_range fun _ _ => isOverlapped_votesOn)
  · exact congrArg (share · _) (countP_map_range fun _ _ => isConflicted_votesOn)

/-- **Only a table that can be read has one.** -/
theorem readable_of_new (hgold : GoldFits t gold) (h : new t gold = .ok a) : t.Readable := by
  obtain ⟨rows, hrows, summaries, hsummaries, -⟩ := (new_eq_ok_iff hgold).1 h
  constructor
  · rcases Nat.eq_zero_or_pos t.votes.rows with hzero | hpos
    · rw [hzero, Nat.zero_mul]
      exact Nat.zero_le _
    · -- the last row is there, and all others stand before it
      obtain ⟨r, hr⟩ := exists_mapM_eq_ok_iff.1 ⟨rows, hrows⟩ (t.votes.rows - 1)
        (List.mem_range.2 (Nat.sub_lt hpos Nat.zero_lt_one))
      have hlast := (Matrix.row_eq_ok_iff.1 hr).1
      rwa [← Nat.succ_mul, Nat.succ_eq_add_one, Nat.sub_add_cancel hpos] at hlast
  · by_contra hnames
    obtain ⟨s, hs⟩ := exists_mapM_eq_ok_iff.1 ⟨summaries, hsummaries⟩ t.functions.length
      (List.mem_range.2 (Nat.lt_of_not_le hnames))
    obtain ⟨column, -, hs⟩ := bind_eq_ok_iff.1 hs
    obtain ⟨name, hname, -⟩ := bind_eq_ok_iff.1 hs
    rw [List.getElem?_eq_none (Nat.le_refl _)] at hname
    cases hname

/-- **The coverage of an analysis is that of the votes.** -/
theorem Counted.voteCoverage_eq (h : t.Readable) (ha : Counted t gold a) :
    voteCoverage t.votes = .ok (a.summaries.map FunctionSummary.coverage) := by
  have hshares : List.Forall₂ Eq ((List.range t.votes.cols).map fun j =>
      share (Nat.count (t.Votes · j) t.votes.rows) t.votes.rows)
      (a.summaries.map FunctionSummary.coverage) :=
    List.forall₂_map_left_iff.2 (List.forall₂_map_right_iff.2
      (ha.summaries.imp fun _ _ hs => hs.coverage.symm))
  rw [List.forall₂_eq_eq_eq] at hshares
  rw [← hshares]
  refine mapM_eq_ok_iff.2 (List.forall₂_map_right_iff.2 (List.forall₂_same.2 fun j hj => ?_))
  rw [(holds_vote h.entries).column (List.mem_range.1 hj), ← voteCount_map_vote]
  rfl

/-- **An analysis counts what it says** -- for any number of items, functions and
labels. Gold labels of another number are refused. Where they fit, exactly a table
that can be read has an analysis, as every table has that was made, and its numbers
are those of the functions and of pairs of functions. -/
theorem counts_votes (t : VoteTable) (gold : Option (List Int)) :
    (∀ labels ∈ gold, labels.length ≠ t.votes.rows → new t gold =
      fail (.shapeMismatch (toString t.votes.rows ++ " gold labels") (toString labels.length))) ∧
    (GoldFits t gold → ((∃ a, new t gold = .ok a) ↔ t.Readable) ∧
      ∀ a, new t gold = .ok a → Counted t gold a ∧
        voteCoverage t.votes = .ok (a.summaries.map FunctionSummary.coverage)) ∧
    (t.Made → t.Readable) := by
  refine ⟨fun labels hlabels hlength => ?_, fun hgold => ⟨⟨?_, fun h => ?_⟩, fun a ha => ?_⟩,
    Made.readable⟩
  · obtain rfl := hlabels
    exact new_of_length_ne hlength
  · rintro ⟨a, ha⟩
    exact readable_of_new hgold ha
  · obtain ⟨a, ha, -⟩ := exists_new h hgold
    exact ⟨a, ha⟩
  · have h := readable_of_new hgold ha
    obtain ⟨a', ha', hcounted⟩ := exists_new h hgold
    obtain rfl := Except.ok.inj (ha'.symm.trans ha)
    exact ⟨hcounted, hcounted.voteCoverage_eq h⟩

/-- Two functions that vote alike and one that abstains or votes against them. -/
theorem counts_votes_doubled :
    let t : VoteTable := ⟨["a", "b", "c"], ["f", "g", "h"], ⟨#[0, 0, 1, 1, 1, -1, -1, -1, 0], 3, 3⟩⟩
    let labels : List Int := [0, 0, -1]
    GoldFits t (some labels) ∧ ∃ a, new t (some labels) = .ok a ∧ Counted t (some labels) a := by
  intro t labels
  have hgold : GoldFits t (some labels) := by decide
  obtain ⟨hiff, hcounted⟩ := (counts_votes t (some labels)).2.1 hgold
  obtain ⟨a, ha⟩ := hiff.2 ⟨by decide, by decide⟩
  exact ⟨hgold, a, ha, (hcounted a ha).1⟩

end VoteAnalysis

end RuleVote
