import RuleVote.Proofs.Sequence
import RuleVote.Proofs.Surrogate.Recall
/-!
# The life of a surrogate

A surrogate is trained again and again, on any input and with any number of
folds, and a call may fail. However it was called, it keeps a genuine training
of its own settings (`Surrogate.Genuine.after`), on the input of one of the
calls (`Surrogate.exists_call_of_after`). So unless an input holds a negative
zero, each call comes to what it comes to on a new surrogate
(`Surrogate.train_after`), and the surrogate is the one that the last success
alone would have left (`Surrogate.after_of_lastSuccess`).
-/

namespace RuleVote

namespace Surrogate

/-! ## Calls -/

/-- A call to train a surrogate. -/
structure Call where
  /-- What it is trained on. -/
  input : SurrogateInput
  /-- The number of folds. -/
  folds : Nat

/-- What a call answers, and the surrogate after it, which is as it was where
the call fails. -/
def Call.run (s : Surrogate) (c : Call) : Fallible (List FoldRecord) × Surrogate :=
  match s.train c.input c.folds with
  | .ok (records, s') => (.ok records, s')
  | .error stop => (.error stop, s)

/-- The surrogate after some calls. -/
def after (s : Surrogate) (calls : List Call) : Surrogate :=
  calls.foldl (fun s c => (c.run s).2) s

/-- What some calls answer, one after another. -/
def answers (s : Surrogate) : List Call → List (Fallible (List FoldRecord))
  | [] => []
  | c :: calls => (c.run s).1 :: answers (c.run s).2 calls

/-- The last of some calls that succeeds. -/
def lastSuccess (s : Surrogate) (calls : List Call) : Option Call :=
  ((calls.zip (s.answers calls)).filter fun p => p.2.isOk).getLast?.map Prod.fst

variable {s s' : Surrogate} {calls : List Call} {c : Call} {records : List FoldRecord}

theorem run_of_ok (h : s.train c.input c.folds = .ok (records, s')) :
    c.run s = (.ok records, s') := by
  rw [Call.run, h]

theorem run_of_error {stop : Stop} (h : s.train c.input c.folds = .error stop) :
    c.run s = (.error stop, s) := by
  rw [Call.run, h]

theorem run_fst (s : Surrogate) (c : Call) :
    (c.run s).1 = Prod.fst <$> s.train c.input c.folds := by
  cases h : s.train c.input c.folds with
  | ok result => rw [run_of_ok h]; rfl
  | error stop => rw [run_of_error h]; rfl

theorem after_concat (s : Surrogate) (calls : List Call) (c : Call) :
    s.after (calls ++ [c]) = (c.run (s.after calls)).2 := List.foldl_concat _ _ _ _

theorem length_answers (s : Surrogate) (calls : List Call) :
    (s.answers calls).length = calls.length := by
  induction calls generalizing s with
  | nil => rfl
  | cons c calls ih => exact congrArg (· + 1) (ih _)

theorem answers_concat (s : Surrogate) (calls : List Call) (c : Call) :
    s.answers (calls ++ [c]) = s.answers calls ++ [(c.run (s.after calls)).1] := by
  induction calls generalizing s with
  | nil => rfl
  | cons c' calls ih => exact congrArg ((c'.run s).1 :: ·) (ih _)

theorem lastSuccess_concat (s : Surrogate) (calls : List Call) (c : Call) :
    s.lastSuccess (calls ++ [c]) =
      if (c.run (s.after calls)).1.isOk then some c else s.lastSuccess calls := by
  rw [lastSuccess, answers_concat, List.zip_append (s.length_answers calls).symm,
    List.filter_append]
  cases h : (c.run (s.after calls)).1.isOk <;> simp [h, lastSuccess]

/-! ## What a surrogate keeps -/

/-- A call leaves a genuine training, and the settings as they are. -/
theorem Genuine.run (hs : s.Genuine) (c : Call) :
    (c.run s).2.Genuine ∧ (c.run s).2.settings = s.settings := by
  cases h : s.train c.input c.folds with
  | ok result =>
    rw [run_of_ok h]
    exact hs.of_train h
  | error stop =>
    rw [run_of_error h]
    exact ⟨hs, rfl⟩

/-- **Any calls leave a genuine training**, and the settings as they are. -/
theorem Genuine.after (hs : s.Genuine) (calls : List Call) :
    (s.after calls).Genuine ∧ (s.after calls).settings = s.settings := by
  induction calls generalizing s with
  | nil => exact ⟨hs, rfl⟩
  | cons c calls ih =>
    obtain ⟨hrun, hsettings⟩ := hs.run c
    obtain ⟨hafter, hkept⟩ := ih hrun
    exact ⟨hafter, hkept.trans hsettings⟩

/-- A training is kept, or it is one on the input of the call. -/
theorem training_run {t : Training} (h : (c.run s).2.training = some t) :
    s.training = some t ∨ t.input = c.input := by
  cases htrain : s.train c.input c.folds with
  | error stop =>
    rw [run_of_error htrain] at h
    exact .inl h
  | ok result =>
    rw [run_of_ok htrain] at h
    rcases s.train_cases c.input c.folds with ⟨t', -, -, hrecalled⟩ | honce
    · rw [hrecalled] at htrain
      cases htrain
      exact .inl h
    · obtain ⟨t', htrained, hresult⟩ := map_eq_ok_iff.1 (honce.symm.trans htrain)
      cases hresult
      obtain rfl := Option.some.inj h
      exact .inr (trainOnce_input htrained).1

variable {settings : SurrogateSettings}

/-- **What a new surrogate is trained on in the end is the input of one of the
calls.** -/
theorem exists_call_of_after {t : Training} (h : ((new settings).after calls).training = some t) :
    ∃ c ∈ calls, t.input = c.input := by
  -- by the last call, which either keeps the training or replaces it
  induction calls using List.reverseRecOn with
  | nil => cases h
  | append_singleton calls c ih =>
    rw [after_concat] at h
    rcases training_run h with hkept | hinput
    · obtain ⟨c', hc', hinput⟩ := ih hkept
      exact ⟨c', List.mem_append_left _ hc', hinput⟩
    · exact ⟨c, List.mem_append_right _ List.mem_cons_self, hinput⟩

/-! ## As a new surrogate would -/

/-- **After any calls training comes to what it comes to on a new surrogate**,
a negative zero apart. -/
theorem train_after (hzero : ∀ c ∈ calls, negativeZero ∉ c.input.numbers) {input : SurrogateInput}
    (hinput : negativeZero ∉ input.numbers) (folds : Nat) :
    ((new settings).after calls).train input folds = (new settings).train input folds := by
  obtain ⟨hgenuine, hsettings⟩ := (genuine_new settings).after calls
  -- what is compared with the input was the input of a call
  have hcompared : negativeZero ∉ ((new settings).after calls).compared input folds := by
    rw [compared]
    split
    · next t ht =>
      obtain ⟨c, hc, htrained⟩ := exists_call_of_after ht
      split_ifs
      · rw [htrained, List.mem_append, not_or]
        exact ⟨hzero c hc, hinput⟩
      · exact List.not_mem_nil
    · exact List.not_mem_nil
  rw [hgenuine.train_eq hcompared, hsettings]
  rfl

theorem answers_new (hzero : ∀ c ∈ calls, negativeZero ∉ c.input.numbers) :
    (new settings).answers calls =
      calls.map fun c => Prod.fst <$> (new settings).train c.input c.folds := by
  induction calls using List.reverseRecOn with
  | nil => rfl
  | append_singleton calls c ih =>
    rw [List.forall_mem_append, List.forall_mem_singleton] at hzero
    rw [answers_concat, ih hzero.1, List.map_append, run_fst, train_after hzero.1 hzero.2]
    rfl

/-- **The last success is all that is left of the calls.** -/
theorem after_of_lastSuccess (hzero : ∀ c ∈ calls, negativeZero ∉ c.input.numbers)
    (h : (new settings).lastSuccess calls = some c) : ∃ records,
      (new settings).train c.input c.folds = .ok (records, (new settings).after calls) := by
  induction calls using List.reverseRecOn with
  | nil => cases h
  | append_singleton calls c' ih =>
    rw [List.forall_mem_append, List.forall_mem_singleton] at hzero
    have htrain : ((new settings).after calls).train c'.input c'.folds =
        (new settings).train c'.input c'.folds := train_after hzero.1 hzero.2 _
    rw [lastSuccess_concat] at h
    rw [after_concat]
    cases hresult : ((new settings).after calls).train c'.input c'.folds with
    | ok result =>
      obtain ⟨records, s'⟩ := result
      rw [run_of_ok hresult] at h ⊢
      obtain rfl : c' = c := Option.some.inj h
      exact ⟨records, htrain.symm.trans hresult⟩
    | error stop =>
      rw [run_of_error hresult] at h ⊢
      exact ih hzero.1 h

/-- Calls that all fail leave a surrogate as it was. -/
theorem after_of_lastSuccess_eq_none (h : s.lastSuccess calls = none) : s.after calls = s := by
  induction calls using List.reverseRecOn with
  | nil => rfl
  | append_singleton calls c ih =>
    rw [lastSuccess_concat] at h
    rw [after_concat]
    cases hresult : (s.after calls).train c.input c.folds with
    | ok result =>
      rw [run_of_ok hresult] at h
      cases h
    | error stop =>
      rw [run_of_error hresult] at h ⊢
      exact ih h

/-- **A surrogate that is trained again and again does what a new one does.**
Each call answers what it answers on a new surrogate, a call that fails changes
nothing, and in the end the surrogate predicts and refers to what a new one does
that was trained by the last success only, or not at all where there was none. -/
theorem trains_as_new (settings : SurrogateSettings)
    (hzero : ∀ c ∈ calls, negativeZero ∉ c.input.numbers) :
    (new settings).answers calls =
      calls.map (fun c => Prod.fst <$> (new settings).train c.input c.folds) ∧
    (∀ (c : Call) (stop : Stop), (c.run ((new settings).after calls)).1 = .error stop →
      (c.run ((new settings).after calls)).2 = (new settings).after calls) ∧
    ((new settings).lastSuccess calls = none →
      (∀ x, ((new settings).after calls).predict x = (new settings).predict x) ∧
      ((new settings).after calls).reference = (new settings).reference) ∧
    ∀ c, (new settings).lastSuccess calls = some c → ∃ records fresh,
      (new settings).train c.input c.folds = .ok (records, fresh) ∧
      (∀ x, ((new settings).after calls).predict x = fresh.predict x) ∧
      ((new settings).after calls).reference = fresh.reference := by
  refine ⟨answers_new hzero, fun c stop hfails => ?_, fun hnone => ?_, fun c hlast => ?_⟩
  · cases hresult : ((new settings).after calls).train c.input c.folds with
    | ok result =>
      rw [run_of_ok hresult] at hfails
      cases hfails
    | error stop => rw [run_of_error hresult]
  · rw [after_of_lastSuccess_eq_none hnone]
    exact ⟨fun _ => rfl, rfl⟩
  · obtain ⟨records, htrain⟩ := after_of_lastSuccess hzero hlast
    exact ⟨records, _, htrain, fun _ => rfl, rfl⟩

/-- A training that is recalled after one that failed. -/
theorem trains_as_new_recalled :
    let settings : SurrogateSettings := .closedForm { ClosedFormSettings.standard with
      maxIterations := 0 }
    let labeled : Call := ⟨⟨⟨#[1, 2], 2, 1⟩, .hard [0, 1], 2⟩, 0⟩
    let unlabeled : Call := ⟨⟨⟨#[1, 2], 2, 1⟩, .hard [-1, -1], 2⟩, 0⟩
    let calls := [labeled, unlabeled, labeled]
    (∀ c ∈ calls, negativeZero ∉ c.input.numbers) ∧
    (new settings).answers calls =
      calls.map (fun c => Prod.fst <$> (new settings).train c.input c.folds) ∧
    ∃ records fresh, (new settings).train labeled.input labeled.folds = .ok (records, fresh) ∧
      (∀ x, ((new settings).after calls).predict x = fresh.predict x) ∧
      ((new settings).after calls).reference = fresh.reference := by
  intro settings labeled unlabeled calls
  have hall : (calls.all fun c => c.input.numbers.all (· ≠ negativeZero)) = true := by
    decide +kernel
  have hzero : ∀ c ∈ calls, negativeZero ∉ c.input.numbers := fun c hc hmem =>
    of_decide_eq_true (List.all_eq_true.1 (List.all_eq_true.1 hall c hc) _ hmem) rfl
  obtain ⟨hanswers, -, -, hlast⟩ := trains_as_new settings hzero
  refine ⟨hzero, hanswers, hlast labeled ?_⟩
  rw [show calls = [labeled, unlabeled] ++ [labeled] from rfl, lastSuccess_concat,
    if_pos (by decide +kernel)]

end Surrogate

end RuleVote
