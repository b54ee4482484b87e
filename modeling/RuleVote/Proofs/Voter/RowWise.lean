import RuleVote.Proofs.Matrix.RowWise
import RuleVote.Proofs.Voter.Refitting
import RuleVote.Proofs.Voter.Ties
/-!
# Probabilities from votes row by row

Votes are checked all together, but what is checked holds of any of the rows. So
the shares of the votes (`rowWise_majorityProbabilities`) and the probabilities of
a noise model, fitted or not (`NoiseModel.Sized.rowWise_probabilities`), are
row-wise, and so are the labels where ties abstain (`rowWise_labelsFrom`).
-/

namespace RuleVote

open RuleVote.Matrix

/-! ## Votes that are checked -/

/-- Rows of checked votes pass the check. -/
theorem checkVotes_ofRowsOf {votes : Matrix Int} {classes : Nat} {rows rows' : List (List Int)}
    (h : checkVotes votes classes = .ok ()) (hrows : votes.allRows = .ok rows)
    (hrows' : ∀ r ∈ rows', r ∈ rows) : checkVotes (ofRowsOf votes.cols rows') classes = .ok () := by
  refine checkVotes_eq_ok fun v hv => checkVotes_eq_ok_iff.1 h v ?_
  obtain ⟨row, hrow, hmem⟩ := List.mem_flatten.1 hv
  exact mem_of_allRows hrows (hrows' row hrow) hmem

/-- What is computed for each row of checked votes is row-wise. -/
theorem rowWise_of_checkVotes {classes cols : Nat} {row : List Int → Fallible (List Float32)}
    (hrow : ∀ r q, row r = .ok q → q.length = cols) : RowWise fun votes : Matrix Int => do
      liftFailure (checkVotes votes classes)
      return ofRowsOf cols (← (← votes.allRows).mapM row) := by
  refine rowWise_of_rows row fun votes p hp => ?_
  obtain ⟨_, hcheck, hp⟩ := bind_eq_ok_iff.1 hp
  obtain ⟨rows, hrows, hp⟩ := bind_eq_ok_iff.1 hp
  obtain ⟨qs, hqs, hp⟩ := bind_eq_ok_iff.1 hp
  refine ⟨rows, qs, cols, hrows, hqs, (Except.ok.inj hp).symm, fun q hq => ?_,
    fun rows' qs' hrows' hqs' => ?_⟩
  · obtain ⟨r, -, hr⟩ := exists_of_mem_mapM hqs hq
    exact hrow r q hr
  · have hcheck' := liftFailure_eq_ok_iff.2
      (checkVotes_ofRowsOf (liftFailure_eq_ok_iff.1 hcheck) hrows hrows')
    have hread := allRows_ofRowsOf fun r hr => (shape_of_allRows hrows).2 r (hrows' r hr)
    exact bind_eq_ok_iff.2 ⟨(), hcheck', bind_eq_ok_iff.2 ⟨rows', hread,
      bind_eq_ok_iff.2 ⟨qs', hqs', rfl⟩⟩⟩

/-! ## The majority -/

theorem length_of_majorityRow {classes : Nat} {row : List Int} {q : List Float32}
    (h : majorityRow classes row = .ok q) : q.length = classes := by
  obtain ⟨counts, hcounts, h⟩ := bind_eq_ok_iff.1 h
  have hlength : counts.length = classes := by
    refine of_foldlM (P := (List.length · = classes)) (fun counts v counts' hlength _ hstep => ?_)
      hcounts List.length_replicate
    obtain ⟨x, -, hstep⟩ := bind_eq_ok_iff.1 hstep
    obtain rfl := Except.ok.inj hstep
    rwa [List.length_set]
  split_ifs at h
  · obtain rfl := Except.ok.inj h
    exact List.length_replicate
  · obtain rfl := Except.ok.inj h
    rwa [List.length_map]

/-- **The shares of the votes are row-wise.** -/
theorem rowWise_majorityProbabilities (classes : Nat) : RowWise (majorityProbabilities classes) :=
  rowWise_of_checkVotes fun _ _ => length_of_majorityRow

/-! ## The noise model -/

namespace NoiseModel

theorem length_of_posterior {priors : List Float32} {tables : List VoteProbabilities}
    {row : List Int} {q : List Float32} (h : posterior priors tables row = .ok q) :
    q.length = priors.length := by
  obtain ⟨logs, hlogs, h⟩ := bind_eq_ok_iff.1 h
  obtain rfl := Except.ok.inj h
  rw [length_softmax]
  refine of_foldlM (P := (List.length · = priors.length))
    (fun logs vote logs' hlength _ hstep => ?_) hlogs (List.length_map _)
  rw [addVote] at hstep
  split_ifs at hstep
  · obtain rfl := Except.ok.inj hstep
    exact hlength
  · rw [length_of_mapM hstep, List.length_zipIdx, hlength]

/-- A model that is made, configured or fitted. -/
inductive Built : NoiseModel → Prop
  | new (classes functions : Nat) : Built (new classes functions)
  | withInitialAccuracy {m : NoiseModel} (hm : Built m) (accuracy : Float32) :
      Built (m.withInitialAccuracy accuracy)
  | withSmoothing {m : NoiseModel} (hm : Built m) (smoothing : Float32) :
      Built (m.withSmoothing smoothing)
  | withTolerance {m : NoiseModel} (hm : Built m) (tolerance : Float32) :
      Built (m.withTolerance tolerance)
  | fit {m m' : NoiseModel} {votes : Matrix Int} {epochs seed : Nat} (hm : Built m)
      (h : m.fit votes epochs seed = .ok m') : Built m'

theorem square_of_estimateTable {classes j : Nat} {smoothing : Float32}
    {items : List (List Int × List Float32)} {table : VoteProbabilities}
    (h : estimateTable classes smoothing items j = .ok table) : Square classes table := by
  obtain ⟨counts, hcounts, h⟩ := bind_eq_ok_iff.1 h
  obtain rfl := Except.ok.inj h
  obtain ⟨hrows, hcols⟩ : Square classes counts := by
    refine of_foldlM (fun counts item counts' hsquare _ hstep => ?_) hcounts
      (square_replicate classes 0)
    obtain ⟨v, -, hstep⟩ := bind_eq_ok_iff.1 hstep
    split_ifs at hstep
    · obtain rfl := Except.ok.inj hstep
      exact hsquare
    · refine ⟨?_, fun row hrow => ?_⟩
      · rw [length_of_mapM hstep, List.length_zipIdx, hsquare.1]
      · obtain ⟨⟨row', c⟩, hmem, hrow⟩ := exists_of_mem_mapM hstep hrow
        obtain ⟨x, -, hrow⟩ := bind_eq_ok_iff.1 hrow
        obtain ⟨y, -, hrow⟩ := bind_eq_ok_iff.1 hrow
        obtain rfl := Except.ok.inj hrow
        rw [List.length_set]
        exact hsquare.2 row' (List.fst_mem_of_mem_zipIdx hmem)
  refine ⟨(List.length_map _).trans hrows, List.forall_mem_map.2 fun row hrow => ?_⟩
  exact (List.length_map _).trans (hcols row hrow)

theorem Epoch.sized {rows : List (List Int)} {m next : NoiseModel} {change : Float32}
    (h : Epoch rows m next change) : next.Sized := by
  obtain ⟨qs, estimate, -, hestimate, rfl⟩ := h
  obtain ⟨priors, hpriors, h⟩ := bind_eq_ok_iff.1 hestimate
  obtain ⟨tables, htables, h⟩ := bind_eq_ok_iff.1 h
  cases h
  refine ⟨(length_of_mapM hpriors).trans List.length_range,
    (length_of_mapM htables).trans List.length_range, fun table htable => ?_⟩
  obtain ⟨j, -, hj⟩ := exists_of_mem_mapM htables htable
  exact square_of_estimateTable hj

theorem sized_of_train {rows : List (List Int)} {limit : Nat} {m m' : NoiseModel} (hm : m.Sized)
    (h : train rows limit m = .ok m') : m'.Sized := by
  induction limit generalizing m with
  | zero =>
    obtain rfl : m = m' := Except.ok.inj h
    exact hm
  | succ limit ih =>
    obtain ⟨next, change, hepoch, ⟨-, rfl⟩ | ⟨-, htrain⟩⟩ := train_succ_eq_ok_iff.1 h
    · exact hepoch.sized
    · exact ih hepoch.sized htrain

/-- **Every model that is built has a prior for each class and a table for each
function.** -/
theorem Built.sized {m : NoiseModel} (hm : m.Built) : m.Sized := by
  have heven : ∀ (classes functions : Nat) (accuracy : Float32),
      ∀ table ∈ List.replicate functions (evenTable classes accuracy), Square classes table := by
    intro classes functions accuracy table htable
    rw [List.eq_of_mem_replicate htable]
    exact square_evenTable classes accuracy
  induction hm with
  | new classes functions =>
    exact ⟨List.length_replicate, List.length_replicate, heven _ _ _⟩
  | withInitialAccuracy hm accuracy ih =>
    exact ⟨ih.length_priors, List.length_replicate, heven _ _ _⟩
  | withSmoothing hm smoothing ih => exact ⟨ih.length_priors, ih.length_tables, ih.square⟩
  | withTolerance hm tolerance ih => exact ⟨ih.length_priors, ih.length_tables, ih.square⟩
  | fit hm h ih =>
    obtain ⟨-, -, rows, -, htrain⟩ := fit_eq_ok_iff.1 h
    exact sized_of_train (sized_startFrom _ _) htrain

/-- **The probabilities of a noise model are row-wise**, whatever it was fitted to. -/
theorem Sized.rowWise_probabilities {m : NoiseModel} (hm : m.Sized) : RowWise m.probabilities := by
  have hrows : RowWise fun votes : Matrix Int => do
      liftFailure (checkVotes votes m.classes)
      return ofRowsOf m.classes (← (← votes.allRows).mapM (posterior m.priors m.tables)) :=
    rowWise_of_checkVotes fun _ _ h => (length_of_posterior h).trans hm.length_priors
  exact hrows.guard fun cols => liftFailure (if cols = m.functions then .ok ()
    else .error (.shapeMismatch (toString m.functions ++ " labeling functions") (toString cols)))

end NoiseModel

/-! ## Labels -/

/-- The label of a row where ties abstain. -/
def labelOrAbstain (row : List Float32) : Int :=
  match tiedClasses row with
  | [only] => classLabel only
  | _ => abstain

theorem rowLabels_abstain (seed classes number : Nat) (rows : List (List Float32))
    (stream : KeyStream) :
    rowLabels .abstain seed classes number rows stream = rows.map labelOrAbstain := by
  induction rows generalizing number stream with
  | nil => rfl
  | cons row rows ih =>
    rw [rowLabels_cons, List.map_cons, ih]
    congr 1
    rw [rowLabel, labelOrAbstain]
    rcases tiedClasses row with _ | ⟨first, _ | ⟨second, others⟩⟩
    · rfl
    · rfl
    · rfl

/-- **Labels are row-wise where ties abstain**, whatever the seed and the stream. -/
theorem rowWise_labelsFrom {f : Matrix Int → Fallible (Matrix Float32)} (hf : RowWise f)
    (seed : Nat) (stream : KeyStream) :
    RowWiseLabels fun votes => f votes >>= labelsFrom .abstain seed stream := by
  have hsame : (fun votes => f votes >>= labelsFrom .abstain seed stream) = fun votes => do
      return (← (← f votes).allRows).map labelOrAbstain := by
    funext votes
    refine bind_congr fun p => bind_congr fun rows => ?_
    rw [rowLabels_abstain]
  rw [hsame]
  exact hf.labels labelOrAbstain

end RuleVote
