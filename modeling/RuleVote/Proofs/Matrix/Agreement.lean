import RuleVote.Proofs.Number.Order
import RuleVote.Proofs.Sequence
/-!
# The largest entries of matrices that agree

Numbers that compare as equal compare alike with any others
(`lt_congr_of_beq`), so where two matrices agree the largest entry of
a row stands in the same place in both (`Matrix.argmaxRows_of_agrees`), whichever
zeros they hold.
-/

namespace RuleVote

namespace Matrix

theorem forall₂_of_beq {xs ys : List Float32} (h : (xs == ys) = true) :
    List.Forall₂ (fun x y => (x == y) = true) xs ys := by
  induction xs generalizing ys with
  | nil =>
    cases ys with
    | nil => exact .nil
    | cons => cases h
  | cons x xs ih =>
    cases ys with
    | nil => cases h
    | cons y ys =>
      obtain ⟨hhead, htail⟩ := (Bool.and_eq_true _ _).mp h
      exact .cons hhead (ih htail)

/-- **Rows that agree have their largest entry in the same place.** -/
theorem argmax_of_beq {xs ys : List Float32} (h : List.Forall₂ (fun x y => (x == y) = true) xs ys) :
    argmax xs = argmax ys := by
  -- the places found so far are the same, and the entries there agree
  have hfold : ∀ (start : Nat) (best best' : Nat × Float32), best.1 = best'.1 →
      (best.2 == best'.2) = true → ∀ {xs ys : List Float32},
      List.Forall₂ (fun x y => (x == y) = true) xs ys →
      ((xs.zipIdx start).foldl (fun best next =>
        if best.2 < next.1 then (next.2, next.1) else best) best).1 =
      ((ys.zipIdx start).foldl (fun best next =>
        if best.2 < next.1 then (next.2, next.1) else best) best').1 := by
    intro start best best' hplace hentry xs ys hall
    induction hall generalizing start best best' with
    | nil => exact hplace
    | @cons x y xs ys hxy hrest ih =>
      rw [List.zipIdx_cons, List.zipIdx_cons, List.foldl_cons, List.foldl_cons]
      by_cases hlt : best.2 < x
      · rw [if_pos hlt, if_pos ((lt_congr_of_beq hentry hxy).1 hlt)]
        exact ih (start + 1) _ _ rfl hxy
      · rw [if_neg hlt, if_neg fun hlt' => hlt ((lt_congr_of_beq hentry hxy).2 hlt')]
        exact ih (start + 1) _ _ hplace hentry
  cases h with
  | nil => rfl
  | @cons x y _ _ hxy hrest =>
    exact hfold 0 (0, x) (0, y) rfl hxy (.cons hxy hrest)

/-- What is made of all results is made of each. -/
theorem map_mapM {ε α β γ : Type} (g : β → γ) (f : α → Except ε β) (as : List α) :
    List.map g <$> as.mapM f = as.mapM fun a => g <$> f a := by
  induction as with
  | nil => rfl
  | cons a as ih =>
    rw [List.mapM_cons, List.mapM_cons, ← ih]
    cases f a with
    | error e => rfl
    | ok b => cases as.mapM f <;> rfl

/-- Rows of matrices that agree, where there are any. -/
theorem row?_of_agrees {a b : Matrix Float32} (h : a.agrees b = true) (i : Nat) :
    (a.row? i).map argmax = (b.row? i).map argmax := by
  simp only [agrees, Bool.and_eq_true, beq_iff_eq] at h
  obtain ⟨⟨-, hcols⟩, hdata⟩ := h
  have hsize := Array.size_eq_of_beq hdata
  rw [← Array.beq_toList] at hdata
  have hentries := forall₂_of_beq hdata
  rw [row?, row?, hcols, hsize]
  split_ifs
  · refine congrArg some (argmax_of_beq ?_)
    rw [Array.toList_extract, Array.toList_extract, List.extract_eq_take_drop,
      List.extract_eq_take_drop]
    exact List.forall₂_take _ (List.forall₂_drop _ hentries)
  · rfl

/-- **Matrices that agree have the largest entries of their rows in the same
places.** -/
theorem argmaxRows_of_agrees {a b : Matrix Float32} (h : a.agrees b = true) :
    a.argmaxRows = b.argmaxRows := by
  have hrows : a.rows = b.rows := by
    simp only [agrees, Bool.and_eq_true, beq_iff_eq] at h
    exact h.1.1
  have hrow (i : Nat) : argmax <$> a.row i = argmax <$> b.row i := by
    have hrow := row?_of_agrees h i
    rw [row, row]
    cases ha : a.row? i <;> cases hb : b.row? i <;> rw [ha, hb] at hrow
    · cases hrow
    · cases hrow
    · exact congrArg Except.ok (Option.some.inj hrow)
  have hplaces (m : Matrix Float32) :
      m.argmaxRows = (List.range m.rows).mapM fun i => argmax <$> m.row i :=
    map_mapM argmax m.row (List.range m.rows)
  rw [hplaces, hplaces, hrows, funext hrow]

end Matrix

end RuleVote
