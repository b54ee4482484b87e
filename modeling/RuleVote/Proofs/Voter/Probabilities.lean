import RuleVote.Label.Labeler
import RuleVote.Proofs.Label.Votes
import RuleVote.Proofs.Random.Draw
/-!
# Probabilities from votes

Both reducers take a vote for the position of its class, in counts and in
tables, and break off where there is no such position. They check votes
first, so nothing breaks off on a table of valid votes: there is a row of
probabilities for each item with one probability for each class
(`Reducer.exists_probabilities`). For the noise model this holds before and
after fitting, for any number of epochs (`NoiseModel.exists_fit`): an epoch
gives priors for the same classes and tables for the same functions
(`NoiseModel.Sized`).

Counting takes one vote after another, and two votes may be counted in either
order (`countVote_comm`): they raise different counts or the same one twice,
and where one of them is no class the counting breaks off both ways. So the
shares of a row are those of every row with the same votes
(`majorityRow_perm`), down to the last bit.
-/

namespace RuleVote

/-- A vote of each of so many functions, on one of so many classes or none. -/
def ValidRow (classes functions : Nat) (row : List Int) : Prop :=
  row.length = functions ∧ ∀ v ∈ row, v = abstain ∨ 0 ≤ v ∧ v < classes

/-- Every vote of a valid row is counted in, where each valid vote of a function can be. -/
theorem ValidRow.exists_foldlM {classes functions : Nat} {row : List Int} {β : Type}
    {step : β → Int × Nat → Fallible β} {I : β → Prop} (hrow : ValidRow classes functions row)
    (hstep : ∀ b, I b → ∀ vote : Int × Nat, vote.2 < functions →
      (vote.1 = abstain ∨ 0 ≤ vote.1 ∧ vote.1 < classes) → ∃ b', step b vote = .ok b' ∧ I b')
    {b : β} (hb : I b) : ∃ b', row.zipIdx.foldlM step b = .ok b' ∧ I b' := by
  refine exists_foldlM_of_step (fun b hb vote hvote => ?_) hb
  have hj := List.snd_lt_of_mem_zipIdx hvote
  rw [Nat.add_zero, hrow.1] at hj
  exact hstep b hb vote hj (hrow.2 _ (List.fst_mem_of_mem_zipIdx hvote))

section

variable {classes : Nat} {votes : Matrix Int} {p : Matrix Float32}

/-- Votes for classes and abstentions pass the check. -/
theorem checkVotes_eq_ok (h : ∀ v ∈ votes.data.toList, v = abstain ∨ 0 ≤ v ∧ v < classes) :
    checkVotes votes classes = .ok () := by
  have hnone : (votes.data.toList.find? fun v => !isVote classes v) = none := by
    rw [List.find?_eq_none]
    intro v hv
    simpa [isVote, -Array.mem_toList_iff] using or_iff_not_imp_left.1 (h v hv)
  rw [checkVotes, hnone]

/-- The rows of a matrix of such votes are rows of them. -/
theorem exists_validRows (hm : votes.WellShaped)
    (h : ∀ v ∈ votes.data.toList, v = abstain ∨ 0 ≤ v ∧ v < classes) :
    ∃ rows, votes.allRows = .ok rows ∧ ∀ row ∈ rows, ValidRow classes votes.cols row := by
  obtain ⟨rows, hrows⟩ := Matrix.exists_allRows hm
  refine ⟨rows, hrows, fun row hrow => ⟨(Matrix.shape_of_allRows hrows).2 row hrow, ?_⟩⟩
  exact fun v hv => h v (Matrix.mem_of_allRows hrows hrow hv)

/-- A vote for a class names an entry. -/
theorem exists_entryAt {xs : List Float32} {v : Int} (hnonneg : 0 ≤ v) (hlt : v < xs.length) :
    ∃ x, entryAt xs v = .ok x := by
  have hlt' : v.toNat < xs.length := by omega
  refine ⟨xs[v.toNat], ?_⟩
  rw [entryAt, if_pos hnonneg]
  exact orBreak_eq_ok_iff.2 (List.getElem?_eq_getElem hlt')

/-! ## The majority -/

/-- A vote for a class is counted, and there are counts for as many classes. -/
theorem exists_countVote {counts : List Float32} {v : Int} (hnonneg : 0 ≤ v)
    (hlt : v < counts.length) :
    ∃ counts', countVote counts v = .ok counts' ∧ counts'.length = counts.length := by
  obtain ⟨x, hx⟩ := exists_entryAt hnonneg hlt
  exact ⟨_, bind_eq_ok_iff.2 ⟨x, hx, rfl⟩, List.length_set⟩

/-- The shares of a row are there, one for each class. -/
theorem exists_majorityRow {row : List Int} (h : ∀ v ∈ row, v = abstain ∨ 0 ≤ v ∧ v < classes) :
    ∃ q, majorityRow classes row = .ok q ∧ q.length = classes := by
  have hcount : ∀ counts : List Float32, counts.length = classes →
      ∀ v ∈ row.filter (· ≠ abstain),
        ∃ counts', countVote counts v = .ok counts' ∧ counts'.length = classes := by
    intro counts hcounts v hv
    obtain ⟨hmem, hne⟩ := List.mem_filter.1 hv
    obtain ⟨hnonneg, hlt⟩ := (h v hmem).resolve_left (of_decide_eq_true hne)
    rw [← hcounts] at hlt ⊢
    exact exists_countVote hnonneg hlt
  have hzeros : (List.replicate classes (0 : Float32)).length = classes := List.length_replicate
  obtain ⟨counts, hcounts, hlength⟩ := exists_foldlM_of_step hcount hzeros
  by_cases hempty : (row.filter (· ≠ abstain)).isEmpty = true
  · exact ⟨_, bind_eq_ok_iff.2 ⟨counts, hcounts, if_pos hempty⟩, List.length_replicate⟩
  · exact ⟨_, bind_eq_ok_iff.2 ⟨counts, hcounts, if_neg hempty⟩,
      (List.length_map _).trans hlength⟩

/-- **The shares of a matrix of votes are there**, a row of them for each of its rows. -/
theorem exists_majorityProbabilities (hm : votes.WellShaped)
    (h : ∀ v ∈ votes.data.toList, v = abstain ∨ 0 ≤ v ∧ v < classes) :
    ∃ p, majorityProbabilities classes votes = .ok p ∧ p.cols = classes ∧ p.WellShaped := by
  obtain ⟨rows, hrows, hvalid⟩ := exists_validRows hm h
  obtain ⟨qs, hqs, -, hlength⟩ :=
    exists_mapM_forall fun row hrow => exists_majorityRow (hvalid row hrow).2
  have hcheck := liftFailure_eq_ok_iff.2 (checkVotes_eq_ok h)
  exact ⟨_, bind_eq_ok_iff.2 ⟨(), hcheck, bind_eq_ok_iff.2 ⟨rows, hrows,
    bind_eq_ok_iff.2 ⟨qs, hqs, rfl⟩⟩⟩, rfl, Matrix.wellShaped_ofRowsOf hlength⟩

theorem rows_of_majorityProbabilities (h : majorityProbabilities classes votes = .ok p) :
    p.rows = votes.rows := by
  obtain ⟨_, -, h⟩ := bind_eq_ok_iff.1 h
  obtain ⟨rows, hrows, h⟩ := bind_eq_ok_iff.1 h
  obtain ⟨qs, hqs, h⟩ := bind_eq_ok_iff.1 h
  cases h
  exact (length_of_mapM hqs).trans (Matrix.shape_of_allRows hrows).1

end

/-! ## The noise model -/

theorem length_softmax (xs : List Float32) : (softmax xs).length = xs.length := by
  rw [softmax, List.length_map, List.length_map]

namespace NoiseModel

/-- A row and a column for each class. -/
def Square (classes : Nat) (table : VoteProbabilities) : Prop :=
  table.length = classes ∧ ∀ row ∈ table, row.length = classes

theorem square_replicate (classes : Nat) (x : Float32) :
    Square classes (List.replicate classes (List.replicate classes x)) := by
  refine ⟨List.length_replicate, fun row hrow => ?_⟩
  rw [List.eq_of_mem_replicate hrow, List.length_replicate]

/-- A prior for each class and a square table for each function. -/
structure Sized (m : NoiseModel) : Prop where
  length_priors : m.priors.length = m.classes
  length_tables : m.tables.length = m.functions
  square : ∀ table ∈ m.tables, Square m.classes table

variable {m : NoiseModel}

/-! ### The probabilities of the classes -/

/-- The cell of a vote is there, one for each class. -/
theorem exists_cellFor (hm : m.Sized) {j c : Nat} {v : Int} (hj : j < m.functions)
    (hc : c < m.classes) (hnonneg : 0 ≤ v) (hlt : v < m.classes) :
    ∃ p, cellFor m.tables j c v = .ok p := by
  have hj' : j < m.tables.length := hm.length_tables.symm ▸ hj
  obtain ⟨hrows, hcols⟩ := hm.square _ (List.getElem_mem hj')
  have hc' : c < (m.tables[j]).length := hrows.symm ▸ hc
  have hlength := hcols _ (List.getElem_mem hc')
  have hentry : ∃ p, entryAt m.tables[j][c] v = .ok p := exists_entryAt hnonneg (by omega)
  obtain ⟨p, hp⟩ := hentry
  have htable := orBreak_eq_ok_iff.2 (List.getElem?_eq_getElem hj')
  have hrow := orBreak_eq_ok_iff.2 (List.getElem?_eq_getElem hc')
  exact ⟨p, bind_eq_ok_iff.2 ⟨_, htable, bind_eq_ok_iff.2 ⟨_, hrow, hp⟩⟩⟩

/-- What a valid vote says of each class is there, whatever is computed from it: to the
number of each class its own term is added. -/
theorem exists_addTerms (hm : m.Sized) (term : Float32 → Float32) {logs : List Float32}
    (hlogs : logs.length = m.classes) {j : Nat} {v : Int} (hj : j < m.functions)
    (hnonneg : 0 ≤ v) (hlt : v < m.classes) :
    ∃ logs', logs.zipIdx.mapM (fun log => do
        return log.1 + term (← cellFor m.tables j log.2 v) : _ → Fallible Float32) = .ok logs' ∧
      logs'.length = m.classes ∧ ∀ l' ∈ logs', ∃ l ∈ logs, ∃ c p,
        cellFor m.tables j c v = .ok p ∧ l' = l + term p := by
  have hcells : ∀ log ∈ logs.zipIdx, ∃ l', (do
      return log.1 + term (← cellFor m.tables j log.2 v) : Fallible Float32) = .ok l' ∧
        ∃ l ∈ logs, ∃ c p, cellFor m.tables j c v = .ok p ∧ l' = l + term p := by
    intro log hlog
    have hc : log.2 < m.classes := by
      have := List.snd_lt_of_mem_zipIdx hlog
      omega
    obtain ⟨p, hp⟩ := exists_cellFor hm hj hc hnonneg hlt
    exact ⟨_, bind_eq_ok_iff.2 ⟨p, hp, rfl⟩, log.1, List.fst_mem_of_mem_zipIdx hlog, log.2, p,
      hp, rfl⟩
  obtain ⟨logs', hlogs', hlength, hall⟩ := exists_mapM_forall hcells
  exact ⟨logs', hlogs', by rw [hlength, List.length_zipIdx, hlogs], hall⟩

/-- A vote adds to the logarithms of all classes. -/
theorem exists_addVote (hm : m.Sized) {logs : List Float32} (hlogs : logs.length = m.classes)
    {vote : Int × Nat} (hj : vote.2 < m.functions)
    (hv : vote.1 = abstain ∨ 0 ≤ vote.1 ∧ vote.1 < m.classes) :
    ∃ logs', addVote m.tables logs vote = .ok logs' ∧ logs'.length = m.classes := by
  rw [addVote]
  by_cases habstain : vote.1 = abstain
  · rw [if_pos habstain]
    exact ⟨logs, rfl, hlogs⟩
  · rw [if_neg habstain]
    obtain ⟨hnonneg, hlt⟩ := hv.resolve_left habstain
    obtain ⟨logs', hlogs', hlength, -⟩ :=
      exists_addTerms hm logProbability hlogs hj hnonneg hlt
    exact ⟨logs', hlogs', hlength⟩

/-- **An item with valid votes has a probability for each class.** -/
theorem exists_posterior (hm : m.Sized) {row : List Int}
    (hrow : ValidRow m.classes m.functions row) :
    ∃ q, posterior m.priors m.tables row = .ok q ∧ q.length = m.classes := by
  have hpriors := (List.length_map logProbability).trans hm.length_priors
  obtain ⟨logs, hlogs, hlength⟩ :=
    hrow.exists_foldlM (fun logs hlogs vote hj hv => exists_addVote hm hlogs hj hv) hpriors
  exact ⟨_, bind_eq_ok_iff.2 ⟨logs, hlogs, rfl⟩, (length_softmax logs).trans hlength⟩

/-- **Each row of votes has posteriors**, one for each class. -/
theorem exists_posteriors (hm : m.Sized) {rows : List (List Int)}
    (hrows : ∀ row ∈ rows, ValidRow m.classes m.functions row) :
    ∃ qs, m.posteriors rows = .ok qs ∧ qs.length = rows.length ∧
      ∀ q ∈ qs, q.length = m.classes :=
  exists_mapM_forall fun row hrow => exists_posterior hm (hrows row hrow)

/-! ### An epoch -/

/-- A prior is estimated from what the items give to its class. -/
theorem exists_estimatePrior {classes c : Nat} (hc : c < classes) (smoothing : Float32)
    {qs : List (List Float32)} (hqs : ∀ q ∈ qs, q.length = classes) :
    ∃ p, estimatePrior classes smoothing qs c = .ok p := by
  have hentries : ∀ q ∈ qs, ∃ x, orBreak q[c]? = .ok x := by
    intro q hq
    exact ⟨_, orBreak_eq_ok_iff.2 (List.getElem?_eq_getElem ((hqs q hq).symm ▸ hc))⟩
  obtain ⟨masses, hmasses⟩ := exists_mapM_eq_ok_iff.2 hentries
  exact ⟨_, bind_eq_ok_iff.2 ⟨masses, hmasses, rfl⟩⟩

/-- What an item gives to the classes is counted for its vote. -/
theorem exists_addMass {classes : Nat} {counts : VoteProbabilities}
    (hcounts : Square classes counts) {v : Int} (hnonneg : 0 ≤ v) (hlt : v < classes)
    {q : List Float32} (hq : q.length = classes) :
    ∃ counts', addMass counts v q = .ok counts' ∧ Square classes counts' := by
  obtain ⟨hrows, hcols⟩ := hcounts
  have hadd : ∀ item ∈ counts.zipIdx, ∃ row, (do
      return item.1.set v.toNat ((← entryAt item.1 v) + (← orBreak q[item.2]?)) :
        Fallible (List Float32)) = .ok row ∧ row.length = classes := by
    intro item hitem
    have hlength := hcols _ (List.fst_mem_of_mem_zipIdx hitem)
    have hc : item.2 < q.length := by
      have := List.snd_lt_of_mem_zipIdx hitem
      omega
    have hentry : ∃ x, entryAt item.1 v = .ok x := exists_entryAt hnonneg (by omega)
    obtain ⟨x, hx⟩ := hentry
    have hmass := orBreak_eq_ok_iff.2 (List.getElem?_eq_getElem hc)
    exact ⟨_, bind_eq_ok_iff.2 ⟨x, hx, bind_eq_ok_iff.2 ⟨_, hmass, rfl⟩⟩,
      List.length_set.trans hlength⟩
  obtain ⟨counts', hcounts', hlength, hsquare⟩ := exists_mapM_forall hadd
  exact ⟨counts', hcounts', by rw [hlength, List.length_zipIdx, hrows], hsquare⟩

/-- An item is counted for its vote, and not at all where that is an abstention. -/
theorem exists_countItem {classes functions j : Nat} (hj : j < functions)
    {counts : VoteProbabilities} (hcounts : Square classes counts)
    {item : List Int × List Float32} (hrow : ValidRow classes functions item.1)
    (hq : item.2.length = classes) :
    ∃ counts', countItem j counts item = .ok counts' ∧ Square classes counts' := by
  have hj' : j < item.1.length := hrow.1.symm ▸ hj
  have hvote := orBreak_eq_ok_iff.2 (List.getElem?_eq_getElem hj')
  rw [countItem]
  by_cases habstain : item.1[j] = abstain
  · refine ⟨counts, bind_eq_ok_iff.2 ⟨_, hvote, ?_⟩, hcounts⟩
    rw [if_pos habstain]
    rfl
  · obtain ⟨hnonneg, hlt⟩ := (hrow.2 _ (List.getElem_mem hj')).resolve_left habstain
    obtain ⟨counts', hcounts', hsquare⟩ := exists_addMass hcounts hnonneg hlt hq
    refine ⟨counts', bind_eq_ok_iff.2 ⟨_, hvote, ?_⟩, hsquare⟩
    rw [if_neg habstain]
    exact hcounts'

/-- A table is estimated from the items, a square of the classes again. -/
theorem exists_estimateTable {classes functions j : Nat} (hj : j < functions)
    (smoothing : Float32) {items : List (List Int × List Float32)}
    (hitems : ∀ item ∈ items, ValidRow classes functions item.1 ∧ item.2.length = classes) :
    ∃ table, estimateTable classes smoothing items j = .ok table ∧ Square classes table := by
  obtain ⟨counts, hcounts, hrows, hcols⟩ := exists_foldlM_of_step
    (fun counts h item hitem => exists_countItem hj h (hitems item hitem).1 (hitems item hitem).2)
    (square_replicate classes 0)
  refine ⟨_, bind_eq_ok_iff.2 ⟨counts, hcounts, rfl⟩, (List.length_map _).trans hrows, ?_⟩
  intro row hrow
  obtain ⟨row', hrow', rfl⟩ := List.mem_map.1 hrow
  exact (List.length_map _).trans (hcols row' hrow')

/-- A model for the same classes and functions. -/
def SameSize (m m' : NoiseModel) : Prop := m'.classes = m.classes ∧ m'.functions = m.functions

/-- **An epoch has an estimate**, for the same classes and functions. -/
theorem exists_maximize {rows : List (List Int)} {qs : List (List Float32)}
    (hrows : ∀ row ∈ rows, ValidRow m.classes m.functions row)
    (hqs : ∀ q ∈ qs, q.length = m.classes) :
    ∃ next change, m.maximize rows qs = .ok (next, change) ∧ next.Sized ∧ m.SameSize next := by
  have hpriors : ∀ c ∈ List.range m.classes,
      ∃ p, estimatePrior m.classes m.smoothing qs c = .ok p :=
    fun c hc => exists_estimatePrior (List.mem_range.1 hc) m.smoothing hqs
  have hitems : ∀ item ∈ rows.zip qs,
      ValidRow m.classes m.functions item.1 ∧ item.2.length = m.classes :=
    fun item hitem => ⟨hrows _ (List.of_mem_zip hitem).1, hqs _ (List.of_mem_zip hitem).2⟩
  obtain ⟨priors, hpriors⟩ := exists_mapM_eq_ok_iff.2 hpriors
  obtain ⟨tables, htables, hlength, hsquare⟩ := exists_mapM_forall
    fun j hj => exists_estimateTable (List.mem_range.1 hj) m.smoothing hitems
  refine ⟨_, _, bind_eq_ok_iff.2 ⟨priors, hpriors, bind_eq_ok_iff.2 ⟨tables, htables, rfl⟩⟩, ?_,
    rfl, rfl⟩
  exact ⟨(length_of_mapM hpriors).trans List.length_range, hlength.trans List.length_range, hsquare⟩

/-- **Training comes to an end**, after any number of epochs. -/
theorem exists_train {rows : List (List Int)} : ∀ (limit : Nat) {m : NoiseModel}, m.Sized →
    (∀ row ∈ rows, ValidRow m.classes m.functions row) →
    ∃ m', train rows limit m = .ok m' ∧ m'.Sized ∧ m.SameSize m'
  | 0, m, hm, _ => ⟨m, rfl, hm, rfl, rfl⟩
  | limit + 1, m, hm, hrows => by
    obtain ⟨qs, hqs, -, hlength⟩ := exists_posteriors hm hrows
    obtain ⟨next, change, hnext, hsized, hclasses, hfunctions⟩ := exists_maximize hrows hlength
    rw [train]
    by_cases hsmall : change < m.tolerance
    · refine ⟨{ next with epochs := m.epochs + 1 }, bind_eq_ok_iff.2 ⟨qs, hqs,
        bind_eq_ok_iff.2 ⟨_, hnext, ?_⟩⟩, ⟨hsized.1, hsized.2, hsized.3⟩, hclasses, hfunctions⟩
      exact if_pos hsmall
    · -- the rows are as valid for the next model, which is of the same size
      obtain ⟨m', hm', hsized', hclasses', hfunctions'⟩ :=
        exists_train limit (m := { next with epochs := m.epochs + 1 })
          ⟨hsized.1, hsized.2, hsized.3⟩ (by simpa only [hclasses, hfunctions] using hrows)
      refine ⟨m', bind_eq_ok_iff.2 ⟨qs, hqs, bind_eq_ok_iff.2 ⟨_, hnext, ?_⟩⟩, hsized',
        hclasses'.trans hclasses, hfunctions'.trans hfunctions⟩
      exact (if_neg hsmall).trans hm'

/-! ### Fitting -/

theorem square_evenTable (classes : Nat) (accuracy : Float32) :
    Square classes (evenTable classes accuracy) := by
  refine ⟨(List.length_map _).trans List.length_range, fun row hrow => ?_⟩
  obtain ⟨c, -, rfl⟩ := List.mem_map.1 hrow
  exact (List.length_map _).trans List.length_range

/-- Fitting starts from a prior for each class and a table for each function. -/
theorem sized_startFrom (m : NoiseModel) (seed : Nat) : (m.startFrom seed).Sized := by
  refine ⟨List.length_replicate, (List.length_map _).trans (KeyStream.length_several _ _ _), ?_⟩
  intro table htable
  obtain ⟨x, -, rfl⟩ := List.mem_map.1 htable
  exact square_evenTable _ _

theorem checkShape_eq_ok {votes : Matrix Int} (h : votes.cols = m.functions) :
    m.checkShape votes = .ok () := if_pos h

/-- **A noise model is fitted to valid votes**, for any number of epochs and
any seed. -/
theorem exists_fit {votes : Matrix Int} (hvotes : votes.WellShaped)
    (hcols : votes.cols = m.functions)
    (h : ∀ v ∈ votes.data.toList, v = abstain ∨ 0 ≤ v ∧ v < m.classes) (epochs seed : Nat) :
    ∃ m', m.fit votes epochs seed = .ok m' ∧ m'.Sized ∧ m.SameSize m' := by
  obtain ⟨rows, hrows, hvalid⟩ := exists_validRows hvotes h
  rw [hcols] at hvalid
  have hshape := liftFailure_eq_ok_iff.2 (checkShape_eq_ok hcols)
  have hcheck := liftFailure_eq_ok_iff.2 (checkVotes_eq_ok h)
  obtain ⟨m', hm', hsized, hsame⟩ := exists_train epochs (sized_startFrom m seed) hvalid
  exact ⟨m', bind_eq_ok_iff.2 ⟨(), hshape, bind_eq_ok_iff.2 ⟨(), hcheck,
    bind_eq_ok_iff.2 ⟨rows, hrows, hm'⟩⟩⟩, hsized, hsame⟩

/-- **A noise model has probabilities for valid votes.** -/
theorem exists_probabilities {votes : Matrix Int} (hm : m.Sized) (hvotes : votes.WellShaped)
    (hcols : votes.cols = m.functions)
    (h : ∀ v ∈ votes.data.toList, v = abstain ∨ 0 ≤ v ∧ v < m.classes) :
    ∃ p, m.probabilities votes = .ok p ∧ p.cols = m.classes ∧ p.WellShaped := by
  obtain ⟨rows, hrows, hvalid⟩ := exists_validRows hvotes h
  rw [hcols] at hvalid
  obtain ⟨qs, hqs, -, hlength⟩ := exists_posteriors hm hvalid
  have hshape := liftFailure_eq_ok_iff.2 (checkShape_eq_ok hcols)
  have hcheck := liftFailure_eq_ok_iff.2 (checkVotes_eq_ok h)
  exact ⟨_, bind_eq_ok_iff.2 ⟨(), hshape, bind_eq_ok_iff.2 ⟨(), hcheck,
    bind_eq_ok_iff.2 ⟨rows, hrows, bind_eq_ok_iff.2 ⟨qs, hqs, rfl⟩⟩⟩⟩, rfl,
    Matrix.wellShaped_ofRowsOf hlength⟩

theorem rows_of_probabilities {votes : Matrix Int} {p : Matrix Float32}
    (h : m.probabilities votes = .ok p) : p.rows = votes.rows := by
  obtain ⟨_, -, h⟩ := bind_eq_ok_iff.1 h
  obtain ⟨_, -, h⟩ := bind_eq_ok_iff.1 h
  obtain ⟨rows, hrows, h⟩ := bind_eq_ok_iff.1 h
  obtain ⟨qs, hqs, h⟩ := bind_eq_ok_iff.1 h
  cases h
  exact (length_of_mapM hqs).trans (Matrix.shape_of_allRows hrows).1

end NoiseModel

/-! ## Reducers -/

namespace Reducer

/-- A reducer for so many classes and functions. -/
def Fits (classes functions : Nat) : Reducer → Prop
  | majority k => k = classes
  | learned m => m.Sized ∧ m.classes = classes ∧ m.functions = functions

variable {classes : Nat} {r : Reducer}

/-- **Valid votes have probabilities**, one for each class. -/
theorem exists_probabilities {t : VoteTable} (hr : r.Fits classes t.functions.length)
    (ht : t.Valid classes) :
    ∃ p, r.probabilities t.votes = .ok p ∧ p.cols = classes ∧ p.WellShaped := by
  cases r with
  | majority k =>
    obtain rfl : k = classes := hr
    exact exists_majorityProbabilities ht.wellShaped ht.isVote
  | learned m =>
    obtain ⟨hm, rfl, hfunctions⟩ := hr
    exact NoiseModel.exists_probabilities hm ht.wellShaped (ht.cols_eq.trans hfunctions.symm)
      ht.isVote

/-- There is a row of probabilities for each row of votes. -/
theorem rows_of_probabilities {votes : Matrix Int} {p : Matrix Float32}
    (h : r.probabilities votes = .ok p) : p.rows = votes.rows := by
  cases r with
  | majority k => exact rows_of_majorityProbabilities h
  | learned m => exact NoiseModel.rows_of_probabilities h

end Reducer

/-! ## The order of votes -/

variable {counts : List Float32} {v w : Int} {classes : Nat}

/-- A vote for a class adds one to its count. -/
theorem countVote_of_lt (hv : 0 ≤ v) (hlt : v.toNat < counts.length) :
    countVote counts v = .ok (counts.set v.toNat (counts[v.toNat] + 1)) := by
  rw [countVote, entryAt, if_pos hv, List.getElem?_eq_getElem hlt]
  rfl

/-- A vote that is no class breaks off. -/
theorem countVote_of_not (h : ¬(0 ≤ v ∧ v.toNat < counts.length)) :
    countVote counts v = breakOff := by
  rw [countVote, entryAt]
  by_cases hv : 0 ≤ v
  · rw [if_pos hv, List.getElem?_eq_none (Nat.le_of_not_lt fun hlt => h ⟨hv, hlt⟩)]
    rfl
  · rw [if_neg hv]
    rfl

/-- A vote that is no class breaks off the counting of another one too. -/
theorem countVote_bind_of_not (h : ¬(0 ≤ w ∧ w.toNat < counts.length)) :
    (countVote counts v >>= fun counts => countVote counts w) = breakOff := by
  by_cases hv : 0 ≤ v ∧ v.toNat < counts.length
  · rw [countVote_of_lt hv.1 hv.2]
    exact countVote_of_not (by rwa [List.length_set])
  · rw [countVote_of_not hv]
    rfl

/-- **Two votes are counted in either order.** -/
theorem countVote_comm (counts : List Float32) (v w : Int) :
    (countVote counts v >>= fun counts => countVote counts w) =
      (countVote counts w >>= fun counts => countVote counts v) := by
  by_cases hv : 0 ≤ v ∧ v.toNat < counts.length
  · by_cases hw : 0 ≤ w ∧ w.toNat < counts.length
    · obtain rfl | hne := eq_or_ne v w
      · rfl
      have hplaces : v.toNat ≠ w.toNat := by omega
      have hv' : v.toNat < (counts.set w.toNat (counts[w.toNat] + 1)).length :=
        hv.2.trans_eq List.length_set.symm
      have hw' : w.toNat < (counts.set v.toNat (counts[v.toNat] + 1)).length :=
        hw.2.trans_eq List.length_set.symm
      have hvw := countVote_of_lt hw.1 hw'
      have hwv := countVote_of_lt hv.1 hv'
      rw [List.getElem_set_ne hplaces] at hvw
      rw [List.getElem_set_ne hplaces.symm] at hwv
      rw [countVote_of_lt hv.1 hv.2, countVote_of_lt hw.1 hw.2]
      exact hvw.trans ((congrArg Except.ok (List.set_comm _ _ hplaces)).trans hwv.symm)
    · rw [countVote_bind_of_not hw, countVote_of_not hw]
      rfl
  · rw [countVote_bind_of_not hv, countVote_of_not hv]
    rfl

/-- **The shares of a row do not depend on the order of its votes.** -/
theorem majorityRow_perm {row row' : List Int} (h : row.Perm row') :
    majorityRow classes row = majorityRow classes row' := by
  have hcast := h.filter (· ≠ abstain)
  rw [majorityRow, majorityRow, foldlM_perm countVote_comm hcast, hcast.isEmpty_eq,
    hcast.length_eq]

/-- **Votes with the same rows up to the order in each have the same
probabilities.** -/
theorem majorityProbabilities_perm {votes votes' : Matrix Int} {rows rows' : List (List Int)}
    (hcheck : checkVotes votes classes = .ok ()) (hcheck' : checkVotes votes' classes = .ok ())
    (hrows : votes.allRows = .ok rows) (hrows' : votes'.allRows = .ok rows')
    (h : List.Forall₂ List.Perm rows rows') :
    majorityProbabilities classes votes = majorityProbabilities classes votes' := by
  have hmap : rows.mapM (majorityRow classes) = rows'.mapM (majorityRow classes) :=
    mapM_congr (h.imp fun _ _ => majorityRow_perm)
  rw [majorityProbabilities, majorityProbabilities, hcheck, hcheck', hrows, hrows']
  exact congrArg (fun x => x >>= fun qs => .ok (Matrix.ofRowsOf classes qs)) hmap

end RuleVote
