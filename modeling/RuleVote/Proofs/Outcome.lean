import RuleVote.Proofs.Sequence
/-!
# How computations end

A computation ends with a value, reports a failure or breaks off. `Ends` says
of one that it does not break off, which failures it may report and what holds
of its value. It is composed the way computations are: one after another
(`Ends.bind`), over the members of a list (`Ends.mapM`, `Ends.foldlM`). What
can report no failure at all has a value (`Ends.exists_ok`).
-/

namespace RuleVote

variable {α β γ : Type} {E E' : Failure → Prop} {P P' : α → Prop} {Q : β → Prop}

/-- What a check finds out about a value. -/
theorem exists_of_any {ε : Type} {x : Except ε α} {p : α → Bool}
    (h : x.toOption.any p = true) : ∃ a, x = .ok a ∧ p a = true := by
  cases x with
  | error _ => cases h
  | ok a => exact ⟨a, rfl, h⟩

/-- Whether a computation breaks off. -/
def Fallible.breaksOff : Fallible α → Bool
  | .error .broken => true
  | _ => false

/-- The test finds out whether a computation breaks off. -/
theorem Fallible.breaksOff_iff {x : Fallible α} : x.breaksOff = true ↔ x = .error .broken := by
  constructor
  · intro h
    cases x with
    | ok a => cases h
    | error stop => cases stop with
      | failed f => cases h
      | broken => rfl
  · rintro rfl
    rfl

/-- What neither has a value nor breaks off reports a failure. -/
theorem Fallible.exists_fail {x : Fallible α} (hnone : x.toOption.isNone = true)
    (hintact : x.breaksOff = false) : ∃ f, x = fail f := by
  cases x with
  | ok a => cases hnone
  | error stop =>
    cases stop with
    | failed f => exact ⟨f, rfl⟩
    | broken => cases hintact

/-- A computation does not break off, reports a failure only among `E`, and
has a value only in `P`. -/
def Ends (x : Fallible α) (E : Failure → Prop) (P : α → Prop) : Prop :=
  match x with
  | .ok a => P a
  | .error (.failed f) => E f
  | .error .broken => False

/-- A computation does not break off, whatever it may report, and has a value
only in `P`. -/
abbrev Intact (x : Fallible α) (P : α → Prop) : Prop := Ends x (fun _ => True) P

namespace Ends

variable {x : Fallible α}

/-! ## One computation -/

theorem ok {a : α} (h : P a) : Ends (.ok a) E P := h

theorem of_eq_ok {a : α} (hx : x = .ok a) (h : P a) : Ends x E P := hx ▸ h

theorem fail {f : Failure} (h : E f) : Ends (fail f : Fallible α) E P := h

/-- **A computation that may report nothing has a value.** -/
theorem exists_ok (h : Ends x (fun _ => False) P) : ∃ a, x = .ok a ∧ P a :=
  match x, h with
  | .ok a, h => ⟨a, rfl, h⟩
  | .error (.failed _), h => h.elim

theorem of_exists (h : ∃ a, x = .ok a ∧ P a) : Ends x E P := by
  obtain ⟨a, hx, ha⟩ := h
  exact of_eq_ok hx ha

/-- What holds of the value, where there is one. -/
theorem of_ok {a : α} (h : Ends x E P) (hx : x = .ok a) : P a := by
  rw [hx] at h
  exact h

/-- **A computation that does not end with a value reports a failure.** -/
theorem cases (h : Ends x E P) :
    (∃ a, x = .ok a ∧ P a) ∨ ∃ f, x = .error (.failed f) ∧ E f :=
  match x, h with
  | .ok a, h => .inl ⟨a, rfl, h⟩
  | .error (.failed f), h => .inr ⟨f, rfl, h⟩

/-- More failures and a weaker property allow more. -/
theorem mono (h : Ends x E P) (hE : ∀ f, E f → E' f) (hP : ∀ a, P a → P' a) : Ends x E' P' :=
  match x, h with
  | .ok a, h => hP a h
  | .error (.failed f), h => hE f h

/-- A computation reports its own failure. -/
theorem own (h : Ends x E P) : Ends x (fun f => x = .error (.failed f)) P :=
  match x, h with
  | .ok _, h => h
  | .error (.failed _), _ => rfl

/-- A computation has its own value. -/
theorem own_ok (h : Ends x E P) : Ends x E fun a => x = .ok a ∧ P a :=
  match x, h with
  | .ok _, h => ⟨rfl, h⟩
  | .error (.failed _), h => h

/-- A computation that ends as another one failed. -/
theorem of_error {stop : Stop} (h : Ends x E P) (hx : x = .error stop)
    (hE : ∀ f, E f → E' f) : Ends (.error stop : Fallible β) E' Q := by
  rw [hx] at h
  cases stop with
  | failed f => exact hE f h
  | broken => exact h

theorem imp (h : Ends x E P) (hP : ∀ a, P a → P' a) : Ends x E P' := h.mono (fun _ => id) hP

/-- A computation that can only fail ends, whatever it fails with. -/
theorem lift {y : Except Failure α} (hE : ∀ f, y = .error f → E f) (hP : ∀ a, y = .ok a → P a) :
    Ends (liftFailure y) E P :=
  match y with
  | .ok a => hP a rfl
  | .error f => hE f rfl

/-- What succeeds without a break succeeds among what may break off. -/
theorem lifted {y : Except Failure α} {a : α} (hy : y = .ok a) : Ends (liftFailure y) E (· = a) :=
  of_eq_ok (liftFailure_eq_ok_iff.2 hy) rfl

/-- A value that is there ends a read. -/
theorem orBreak {a? : Option α} {a : α} (ha : a? = some a) (h : P a) :
    Ends (orBreak a?) E P := of_eq_ok (orBreak_eq_ok_iff.2 ha) h

theorem assertThat {b : Bool} (hb : b = true) : Ends (assertThat b) E fun _ => True := by
  rw [hb]
  trivial

/-- Room that is there is reserved. -/
theorem reserve {count : Nat} (h : count < capacity) : Ends (reserve count) E fun _ => True :=
  of_eq_ok (reserve_eq_ok_iff.2 h) trivial

/-! ## Several computations -/

/-- **One computation after another.** -/
theorem bind {f : α → Fallible β} (h : Ends x E P) (hf : ∀ a, P a → Ends (f a) E Q) :
    Ends (x >>= f) E Q :=
  match x, h with
  | .ok a, h => hf a h
  | .error (.failed _), h => h

theorem map {f : α → β} (h : Ends x E P) (hf : ∀ a, P a → Q (f a)) : Ends (f <$> x) E Q :=
  match x, h with
  | .ok a, h => hf a h
  | .error (.failed _), h => h

theorem ite {c : Prop} [Decidable c] {y : Fallible α} (hx : c → Ends x E P)
    (hy : ¬c → Ends y E P) : Ends (if c then x else y) E P := by
  split_ifs with hc
  · exact hx hc
  · exact hy hc

/-- **A computation for every member of a list.** -/
theorem mapM {f : α → Fallible β} {as : List α} (h : ∀ a ∈ as, Ends (f a) E Q) :
    Ends (as.mapM f) E fun bs => bs.length = as.length ∧ ∀ b ∈ bs, Q b := by
  induction as with
  | nil => exact ok ⟨rfl, fun _ hb => (List.not_mem_nil hb).elim⟩
  | cons a as ih =>
    obtain ⟨ha, has⟩ := List.forall_mem_cons.1 h
    rw [List.mapM_cons]
    refine ha.bind fun b hb => (ih has).bind fun bs hbs => ?_
    obtain ⟨hlength, hbs⟩ := hbs
    exact ok ⟨congrArg (· + 1) hlength, List.forall_mem_cons.2 ⟨hb, hbs⟩⟩

/-- **A step for every member of a list**, which keeps a property. -/
theorem foldlM {step : γ → α → Fallible γ} {R : γ → Prop} {as : List α}
    (h : ∀ c, R c → ∀ a ∈ as, Ends (step c a) E R) {c : γ} (hc : R c) :
    Ends (as.foldlM step c) E R := by
  induction as generalizing c with
  | nil => exact ok hc
  | cons a as ih =>
    rw [List.foldlM_cons]
    refine (h c hc a List.mem_cons_self).bind fun c' hc' => ?_
    exact ih (fun c hc a ha => h c hc a (List.mem_cons_of_mem _ ha)) hc'

theorem forM {f : α → Fallible PUnit} {as : List α} (h : ∀ a ∈ as, Ends (f a) E fun _ => True) :
    Ends (as.forM f) E fun _ => True := by
  induction as with
  | nil => exact ok trivial
  | cons a as ih =>
    obtain ⟨ha, has⟩ := List.forall_mem_cons.1 h
    exact ha.bind fun _ _ => ih has

end Ends

end RuleVote
