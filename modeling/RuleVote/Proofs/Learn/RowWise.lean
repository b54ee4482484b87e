import RuleVote.Proofs.Learn.LogisticRegression
import RuleVote.Proofs.Learn.Network
import RuleVote.Proofs.Matrix.RowWise
/-!
# Learned probabilities row by row

Bringing features to their units, passing through a layer, the softmax, and with
them a whole pass through a network without dropout are row-wise
(`Perceptron.rowWise_probabilities`), and so are the probabilities of a fitted
regression (`LogisticRegression.For.rowWise_probabilities`).
-/

namespace RuleVote

open RuleVote.Matrix

/-! ## Regressions -/

/-- Rows are brought into other units one by one. -/
theorem Standardizer.rowWise_transform (s : Standardizer) : RowWise s.transform := by
  cases hstats : s.stats with
  | none =>
    intro x p hp
    rw [transform, hstats] at hp
    cases hp
  | some stats =>
    have htransform : ∀ x : Matrix Float32, x.cols = stats.length → s.transform x = do
        return ofRowsOf x.cols ((← x.allRows).map fun row => List.zipWith scale row stats) := by
      intro x hcols
      rw [transform, hstats]
      dsimp only
      rw [if_neg (not_not_intro hcols)]
    refine rowWise_of_map (fun row => List.zipWith scale row stats) fun x p hp => ?_
    have hcols : x.cols = stats.length := by
      rw [transform, hstats] at hp
      dsimp only at hp
      by_contra hcols
      rw [if_pos hcols] at hp
      cases hp
    rw [htransform x hcols] at hp
    obtain ⟨rows, hrows, hp⟩ := bind_eq_ok_iff.1 hp
    have hlength := (shape_of_allRows hrows).2
    refine ⟨rows, x.cols, hrows, (Except.ok.inj hp).symm, fun r hr => ?_, fun rows' hrows' => ?_⟩
    · rw [List.length_zipWith, hlength r hr, hcols, Nat.min_self]
    · have hread := allRows_ofRowsOf fun r hr => hlength r (hrows' r hr)
      rw [htransform (ofRowsOf x.cols rows') hcols, hread]
      rfl

/-- **The probabilities of a fitted regression are row-wise.** -/
theorem LogisticRegression.For.rowWise_probabilities {m : LogisticRegression}
    {features classes : Nat} (hm : m.For features classes) : RowWise m.probabilities := by
  obtain ⟨f, hfitted, hf⟩ := hm
  have hrows : RowWise fun x : Matrix Float32 => do
      return ofRowsOf f.intercepts.length ((← x.allRows).map (rowProbabilities f)) := by
    refine rowWise_of_map (rowProbabilities f) fun x p hp => ?_
    obtain ⟨rows, hrows, hp⟩ := bind_eq_ok_iff.1 hp
    refine ⟨rows, _, hrows, (Except.ok.inj hp).symm, fun r _ => ?_, fun rows' hrows' => ?_⟩
    · rw [length_rowProbabilities hf, hf.intercepts]
    · have hread := allRows_ofRowsOf fun r hr => (shape_of_allRows hrows).2 r (hrows' r hr)
      rw [hread]
      rfl
  have hsame : m.probabilities = fun x => (if x.cols ≠ features then
      fail (.shapeMismatch (toString features ++ " features") (toString x.cols ++ " features"))
      else pure PUnit.unit) >>= fun _ => do
        return ofRowsOf f.intercepts.length ((← x.allRows).map (rowProbabilities f)) := by
    funext x
    rw [LogisticRegression.probabilities, hfitted]
    dsimp only
    split_ifs
    · rfl
    · rfl
  rw [hsame]
  exact hrows.guard fun cols => if cols ≠ features then
    fail (.shapeMismatch (toString features ++ " features") (toString cols ++ " features"))
    else pure PUnit.unit

/-! ## Networks -/

/-- Rows are turned into distributions one by one. -/
theorem rowWise_softmaxRows : RowWise softmaxRows := by
  refine rowWise_of_map softmax fun x p hp => ?_
  obtain ⟨rows, hrows, hp⟩ := bind_eq_ok_iff.1 hp
  have hlength := (shape_of_allRows hrows).2
  refine ⟨rows, x.cols, hrows, (Except.ok.inj hp).symm, fun r hr => ?_, fun rows' hrows' => ?_⟩
  · rw [length_softmax, hlength r hr]
  · rw [softmaxRows, allRows_ofRowsOf fun r hr => hlength r (hrows' r hr)]
    rfl

/-- Rows go through a layer one by one. -/
theorem Linear.rowWise_forward (l : Linear) : RowWise l.forward := by
  refine rowWise_of_rows l.forwardRow fun x p hp => ?_
  obtain ⟨_, hcols, hp⟩ := bind_eq_ok_iff.1 hp
  obtain ⟨rows, hrows, hp⟩ := bind_eq_ok_iff.1 hp
  obtain ⟨outs, houts, hp⟩ := bind_eq_ok_iff.1 hp
  refine ⟨rows, outs, l.weight.rows, hrows, houts, (Except.ok.inj hp).symm, fun out hout => ?_,
    fun rows' outs' hrows' houts' => ?_⟩
  · obtain ⟨row, -, hrow⟩ := exists_of_mem_mapM houts hout
    exact (length_of_mapM hrow).trans List.length_range
  · have hread := allRows_ofRowsOf fun r hr => (shape_of_allRows hrows).2 r (hrows' r hr)
    exact bind_eq_ok_iff.2 ⟨(), hcols, bind_eq_ok_iff.2 ⟨rows', hread,
      bind_eq_ok_iff.2 ⟨outs', houts', rfl⟩⟩⟩

namespace Perceptron

variable {f : Matrix Float32 → Fallible (Matrix Float32)} {p : Perceptron}

/-! ### Rectified values -/

theorem rectify_ofRowsOf (cols : Nat) (rows : List (List Float32)) : rectify (ofRowsOf cols rows) =
    ofRowsOf cols (rows.map fun row => row.map fun v => larger v 0) := by
  simp [rectify, ofRowsOf, List.map_flatten]

theorem row_rectify {m : Matrix Float32} {i : Nat} {row : List Float32} (h : m.row i = .ok row) :
    (rectify m).row i = .ok (row.map fun v => larger v 0) := by
  have hrow := orBreak_eq_ok_iff.1 h
  rw [row?] at hrow
  split_ifs at hrow with hle
  obtain rfl := Option.some.inj hrow
  refine orBreak_eq_ok_iff.2 ?_
  rw [row?, if_pos (by simpa [rectify] using hle)]
  simp [rectify]

theorem selectRows_rectify {m m' : Matrix Float32} {indices : List Nat}
    (h : m.selectRows indices = .ok m') : (rectify m).selectRows indices = .ok (rectify m') := by
  obtain ⟨rows, hrows, h⟩ := bind_eq_ok_iff.1 h
  obtain rfl := Except.ok.inj h
  rw [rectify_ofRowsOf]
  refine bind_eq_ok_iff.2 ⟨_, mapM_eq_ok_iff.2 ?_, rfl⟩
  rw [List.forall₂_map_right_iff]
  exact (mapM_eq_ok_iff.1 hrows).imp fun i row => row_rectify

/-- Rows are rectified one by one. -/
theorem rowWise_rectify (hf : RowWise f) : RowWise fun x => rectify <$> f x := by
  intro x p hp
  obtain ⟨y, hy, rfl⟩ := map_eq_ok_iff.1 hp
  obtain ⟨hrows, hselect⟩ := hf hy
  refine ⟨hrows, fun indices hindices => ?_⟩
  obtain ⟨x', y', hx', hy', hyy'⟩ := hselect indices hindices
  exact ⟨x', rectify y', hx', map_eq_ok_iff.2 ⟨y', hy', rfl⟩, selectRows_rectify hyy'⟩

/-! ### A pass without dropout -/

/-- The values that hidden layers give where none is dropped. -/
def hiddenValues : List Linear → Matrix Float32 → Fallible (Matrix Float32)
  | [], x => .ok x
  | layer :: layers, x => do hiddenValues layers (← rectify <$> layer.forward x)

/-- Without a mask the hidden layers do not draw anything. -/
theorem forwardHidden_none {α : Type} (dropout : Dropout) (layers : List Linear)
    (x : Matrix Float32) (rest : Matrix Float32 → Fallible α) :
    (forwardHidden dropout layers x none >>= fun pass => rest pass.2.1) =
      hiddenValues layers x >>= rest := by
  induction layers generalizing x with
  | nil => rfl
  | cons layer layers ih =>
    rw [forwardHidden, hiddenValues]
    cases layer.forward x with
    | error stop => rfl
    | ok raw =>
      have hrest := ih (rectify raw)
      show ((forwardHidden dropout layers (rectify raw) none >>= fun pass =>
        .ok (_ :: pass.1, pass.2.1, pass.2.2)) >>= fun pass => rest pass.2.1) = _
      rw [bind_assoc]
      exact hrest

/-- The probabilities are those of the output layer for the hidden values. -/
theorem probabilities_eq (p : Perceptron) (x : Matrix Float32) : p.probabilities x =
    liftFailure (p.checkInput x) >>= fun _ =>
      hiddenValues p.hidden x >>= fun h => p.output.forward h >>= softmaxRows := by
  rw [probabilities, ← forwardHidden_none (.new p.settings.dropout), forward]
  simp only [bind_assoc, pure_bind, bind_pure]

/-- **Rows go through the hidden layers one by one.** -/
theorem rowWise_hiddenValues (layers : List Linear) (hf : RowWise f) :
    RowWise fun x => hiddenValues layers x >>= f := by
  induction layers with
  | nil => exact hf
  | cons layer layers ih =>
    have hlayer := (rowWise_rectify layer.rowWise_forward).bind ih
    have hsame : (fun x => hiddenValues (layer :: layers) x >>= f) = fun x =>
        rectify <$> layer.forward x >>= fun y => hiddenValues layers y >>= f := by
      funext x
      exact bind_assoc _ _ _
    rw [hsame]
    exact hlayer

/-- **The probabilities of a network are row-wise.** -/
theorem rowWise_probabilities (p : Perceptron) : RowWise p.probabilities := by
  have hpass := rowWise_hiddenValues p.hidden (p.output.rowWise_forward.bind rowWise_softmaxRows)
  have hsame : p.probabilities = fun x => liftFailure (if x.cols = p.features then .ok ()
      else .error (.shapeMismatch (toString p.features ++ " features")
        (toString x.cols ++ " features"))) >>= fun _ =>
      hiddenValues p.hidden x >>= fun h => p.output.forward h >>= softmaxRows :=
    funext p.probabilities_eq
  rw [hsame]
  exact hpass.guard fun cols => liftFailure (if cols = p.features then .ok ()
    else .error (.shapeMismatch (toString p.features ++ " features")
      (toString cols ++ " features")))

end Perceptron

end RuleVote
