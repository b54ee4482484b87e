import RuleVote.Learn.LogisticRegression
import RuleVote.Learn.Standardize
import RuleVote.Proofs.Matrix.Shape
import RuleVote.Proofs.Voter.Probabilities
/-!
# Fitted regressions

Units are taken from a matrix of any rows at all (`Standardizer.ends_fit`), and
every matrix with as many columns is brought to them
(`Standardizer.For.transform`).

A regression keeps one linear function for each class in every step of its
descent (`LogisticRegression.sized_descendFrom`). So fitting does not break off
where there is room for the coefficients (`LogisticRegression.ends_fit`), and what
was fitted to some features has probabilities for every matrix of these features
(`LogisticRegression.For.probabilities`).
-/

namespace RuleVote

/-! ## Units of features -/

namespace Standardizer

variable {E : Failure → Prop} {s : Standardizer} {x : Matrix Float32} {rows cols : Nat}

/-- There is a unit for each of so many features. -/
def For (s : Standardizer) (features : Nat) : Prop :=
  ∃ stats, s.stats = some stats ∧ stats.length = features

/-- **Units are taken from any rows at all.** -/
theorem ends_fit (hx : x.Sized rows cols) :
    Ends (fit x) (fun _ => rows = 0) fun s => s.For cols ∧ rows ≠ 0 := by
  rw [fit]
  dsimp only
  refine .ite (fun hrows => hx.rows_eq ▸ hrows) fun hrows => ?_
  have hcolumn : ∀ j ∈ List.range x.cols,
      Ends (do return columnStats (← x.column j)) (fun _ => rows = 0) fun _ => True := by
    intro j hj
    exact (hx.column (hx.cols_eq ▸ List.mem_range.1 hj)).bind fun _ _ => .ok trivial
  refine (Ends.mapM hcolumn).bind fun stats hstats => .ok ⟨⟨stats, rfl, ?_⟩, ?_⟩
  · rw [hstats.1, List.length_range, hx.cols_eq]
  · rwa [← hx.rows_eq]

/-- **A matrix with the fitted columns is brought to their units.** -/
theorem For.transform (hs : s.For cols) (hx : x.Sized rows cols) :
    Ends (s.transform x) E (·.Sized rows cols) := by
  obtain ⟨stats, hstats, hlength⟩ := hs
  have hcols : x.cols = stats.length := hx.cols_eq.trans hlength.symm
  rw [Standardizer.transform, hstats]
  dsimp only
  rw [if_neg (not_not_intro hcols)]
  refine hx.allRows.bind fun rs hrs => .ok ?_
  rw [hx.cols_eq]
  refine Matrix.sized_ofRowsOf_map hrs.1 fun row hrow => ?_
  rw [List.length_zipWith, (hrs.2 row hrow).1, hlength, Nat.min_self]

/-- A matrix in other units has all of its rows. -/
theorem sized_of_transform {z : Matrix Float32} (h : s.transform x = .ok z) :
    z.Sized x.rows x.cols := by
  rw [transform] at h
  split at h
  · cases h
  · next stats hstats =>
    split_ifs at h with hcols
    · cases h
    · obtain ⟨rs, hrs, h⟩ := bind_eq_ok_iff.1 h
      obtain rfl := Except.ok.inj h
      obtain ⟨hcount, hwidth⟩ := Matrix.shape_of_allRows hrs
      refine Matrix.sized_ofRowsOf_map hcount fun row hrow => ?_
      rw [List.length_zipWith, hwidth row hrow, not_not.1 hcols, Nat.min_self]

end Standardizer

/-! ## Regressions -/

/-- One function for each of so many classes. -/
structure LinearFunctions.Sized (f : LinearFunctions) (classes : Nat) : Prop where
  coefficients : f.coefficients.length = classes
  intercepts : f.intercepts.length = classes

namespace LogisticRegression

variable {E : Failure → Prop} {m : LogisticRegression} {f g : LinearFunctions}
variable {x : Matrix Float32} {rows cols classes : Nat}

/-! ### The descent -/

theorem length_rowProbabilities (hf : f.Sized classes) (row : List Float32) :
    (rowProbabilities f row).length = classes := by
  rw [rowProbabilities, length_softmax, List.length_zipWith, hf.intercepts, hf.coefficients,
    Nat.min_self]

theorem sized_gradient (hf : f.Sized classes) (features : Nat)
    (samples : List (List Float32 × Nat)) :
    (gradient classes features f samples).Sized classes := by
  refine List.foldlRecOn (motive := (LinearFunctions.Sized · classes)) samples _
    ⟨List.length_replicate, List.length_replicate⟩ fun sums hsums sample _ => ?_
  have herrors : ∀ error : Float32 × Nat → Float32,
      ((rowProbabilities f sample.1).zipIdx.map error).length = classes := by
    intro error
    rw [List.length_map, List.length_zipIdx, length_rowProbabilities hf]
  constructor
  · rw [List.length_zipWith, herrors, hsums.coefficients, Nat.min_self]
  · rw [List.length_zipWith, herrors, hsums.intercepts, Nat.min_self]

theorem sized_meanGradient (hf : f.Sized classes) (hg : g.Sized classes) (count penalty : Float32) :
    (meanGradient count penalty f g).Sized classes := by
  constructor
  · rw [meanGradient, List.length_zipWith, hg.coefficients, hf.coefficients, Nat.min_self]
  · rw [meanGradient, List.length_map, hg.intercepts]

theorem sized_descend (hf : f.Sized classes) (hg : g.Sized classes) (rate : Float32) :
    (descend rate f g).Sized classes := by
  constructor
  · rw [descend, List.length_zipWith, hf.coefficients, hg.coefficients, Nat.min_self]
  · rw [descend, List.length_zipWith, hf.intercepts, hg.intercepts, Nat.min_self]

/-- **Every step keeps one function for each class.** -/
theorem sized_descendFrom (m : LogisticRegression) (features : Nat)
    (samples : List (List Float32 × Nat)) : ∀ (limit taken : Nat) {f : LinearFunctions},
      f.Sized m.classes → (m.descendFrom features samples limit taken f).2.Sized m.classes
  | 0, _, _, hf => hf
  | limit + 1, taken, f, hf => by
    have hg := sized_meanGradient hf (sized_gradient hf features samples)
      (ofCount samples.length) (1 / (m.c * ofCount samples.length))
    have hnext := sized_descend hf hg m.learningRate
    rw [descendFrom]
    split_ifs
    · exact hnext
    · exact sized_descendFrom m features samples limit (taken + 1) hnext

/-! ### Fitted and asked -/

/-- A regression is made where there is room for its constants. -/
theorem new_eq_ok_iff : new classes = .ok m ↔ classes < capacity ∧ m = unfitted classes := by
  rw [new, bind_eq_ok_iff]
  constructor
  · rintro ⟨_, hroom, h⟩
    exact ⟨reserve_eq_ok_iff.1 hroom, (Except.ok.inj h).symm⟩
  · rintro ⟨hroom, rfl⟩
    exact ⟨(), reserve_eq_ok_iff.2 hroom, rfl⟩

theorem ends_new (hroom : classes < capacity) : Ends (new classes) E (· = unfitted classes) :=
  .of_eq_ok (new_eq_ok_iff.2 ⟨hroom, rfl⟩) rfl

/-- Functions of so many features were fitted, one for each of so many
classes. -/
def For (m : LogisticRegression) (features classes : Nat) : Prop :=
  ∃ f, m.fitted = some (features, f) ∧ f.Sized classes

/-- Settings that are valid and a class for each of so many rows, one at
least. -/
structure Accepts (m : LogisticRegression) (rows : Nat) (y : List Nat) : Prop where
  settings : m.validate = .ok ()
  length : y.length = rows
  nonempty : rows ≠ 0
  classes : ∀ c ∈ y, c < m.classes

/-- **Fitting does not break off** where there is room, and fails only on what
cannot be fitted. -/
theorem ends_fit (hroom : m.classes * cols < capacity) (hx : x.Sized rows cols) (y : List Nat) :
    Ends (m.fit x y) (fun _ => ¬m.Accepts rows y) (·.For cols m.classes) := by
  have hvalidate : Ends (liftFailure m.validate) (fun _ => ¬m.Accepts rows y) fun _ => True :=
    Ends.lift (fun _ hf h => nomatch hf.symm.trans h.settings) fun _ _ => trivial
  refine hvalidate.bind fun _ _ => ?_
  dsimp only
  refine .ite (fun hlength h => hlength (hx.rows_eq.trans h.length.symm)) fun _ => ?_
  refine .ite (fun hrows h => h.nonempty (hx.rows_eq.symm.trans hrows)) fun _ => ?_
  split
  · next bad hbad =>
    intro h
    have hle := List.find?_some hbad
    rw [decide_eq_true_iff] at hle
    exact absurd (h.classes bad (List.mem_of_find?_eq_some hbad)) (Nat.not_lt.2 hle)
  · obtain rfl := hx.cols_eq
    refine (Ends.reserve hroom).bind fun _ _ => hx.allRows.bind fun rs _ => .ok ⟨_, rfl, ?_⟩
    exact sized_descendFrom m x.cols _ _ _ ⟨List.length_replicate, List.length_replicate⟩

/-- What was fitted had room. -/
theorem lt_capacity_of_fit {m' : LogisticRegression} {y : List Nat} (h : m.fit x y = .ok m') :
    m.validate = .ok () ∧ m.classes * x.cols < capacity := by
  obtain ⟨_, hvalidate, h⟩ := bind_eq_ok_iff.1 h
  refine ⟨liftFailure_eq_ok_iff.1 hvalidate, ?_⟩
  dsimp only at h
  split at h
  · cases h
  · split at h
    · cases h
    · split at h
      · cases h
      · obtain ⟨_, hroom, -⟩ := bind_eq_ok_iff.1 h
        exact reserve_eq_ok_iff.1 hroom

/-- **A fitted regression has probabilities** for every matrix of its
features. -/
theorem For.probabilities (hm : m.For cols classes) (hx : x.Sized rows cols) :
    Ends (m.probabilities x) E (·.Sized rows classes) := by
  obtain ⟨f, hfitted, hf⟩ := hm
  rw [LogisticRegression.probabilities, hfitted]
  dsimp only
  rw [if_neg (not_not_intro hx.cols_eq)]
  refine hx.allRows.bind fun rs hrs => .ok ?_
  rw [hf.intercepts]
  exact Matrix.sized_ofRowsOf_map hrs.1 fun row _ => length_rowProbabilities hf row

end LogisticRegression

end RuleVote
