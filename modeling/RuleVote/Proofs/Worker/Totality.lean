import RuleVote.Proofs.Surrogate.Retraining
import RuleVote.Worker.Basic
/-!
# When a worker answers

A worker answers every request whose parts go together, whatever it was asked
before, as long as there is room for what it stores (`Worker.Reached.answers`). What
it is asked is not checked where it is read, so it may be asked about parts that do
not go together, and then it may break off (`Worker.breaks_off_decoded`). It does so
only there or without room, and where it has room to label rows, exactly if it is
trained on these features and a row is missing
(`Worker.breaks_off_only_inconsistent`).
-/

namespace RuleVote

/-- The parts of a request go together: its matrices have an entry in every
place, and its input is accepted. -/
def WorkerRequest.Consistent : WorkerRequest → Prop
  | .apply input _ => input.features.WellShaped ∧ input.targets.WellShaped ∧
    SurrogateInput.new input.features input.targets input.classes = .ok input
  | .predict features => features.WellShaped
  | .init _ | .restart => True

/-- What a request is to train on is accepted. -/
def WorkerRequest.accepted : WorkerRequest → Bool
  | .apply input _ => (SurrogateInput.new input.features input.targets input.classes).isOk
  | .init _ | .predict _ | .restart => true

theorem WorkerRequest.Consistent.accepted {request : WorkerRequest} (h : request.Consistent) :
    request.accepted = true := by
  cases request with
  | apply input folds => rw [WorkerRequest.accepted, h.2.2]; rfl
  | init | predict | restart => rfl

namespace Worker

variable {w : Worker}

/-- There is room for what a worker stores to answer a request: for a training of
the surrogate that it holds, and for rows on their way through the model of this
surrogate. -/
def HasRoom (w : Worker) : WorkerRequest → Prop
  | .apply input _ => ∀ s, w.surrogate = some s → s.settings.HasRoom input
  | .predict features => ∀ s classes, w.surrogate = some s → s.For features.cols classes →
    s.settings.Passes features.cols classes features.rows
  | .init _ | .restart => True

/-- A worker that has answered all that it was asked. -/
inductive Reached : Worker → Prop
  | new : Reached .new
  | answered {w w' : Worker} {request : WorkerRequest} {response : WorkerResponse}
      (h : Reached w) (hanswer : w.handle request = .ok (response, w')) : Reached w'

/-- The surrogate of a worker keeps only a genuine training. -/
def Trusted (w : Worker) : Prop := ∀ s, w.surrogate = some s → s.Genuine

theorem trusted_new : new.Trusted := nofun

/-! ## One request -/

theorem Trusted.init (h : w.Trusted) (settings : SurrogateSettings) :
    (w.init settings).2.Trusted := by
  rw [Worker.init]
  split
  · exact h
  · intro s hs
    obtain rfl := Option.some.inj hs
    exact Surrogate.genuine_new settings

theorem Trusted.apply (h : w.Trusted) {input : SurrogateInput} {folds : Nat}
    {response : WorkerResponse} {w' : Worker}
    (hanswer : w.apply input folds = .ok (response, w')) : w'.Trusted := by
  rw [Worker.apply] at hanswer
  split at hanswer
  · cases hanswer
    exact h
  · next s hs =>
    split at hanswer
    · next records s' htrain =>
      cases hanswer
      intro s'' hs''
      obtain rfl := Option.some.inj hs''
      exact ((h s hs).of_train htrain).1
    · cases hanswer
      exact trusted_new
    · cases hanswer

/-- **Every answer leaves a genuine training at most.** -/
theorem Trusted.handle (h : w.Trusted) {request : WorkerRequest} {response : WorkerResponse}
    {w' : Worker} (hanswer : w.handle request = .ok (response, w')) : w'.Trusted := by
  cases request with
  | init settings =>
    have hw : (w.init settings).2 = w' := congrArg Prod.snd (Except.ok.inj hanswer)
    exact hw ▸ h.init settings
  | apply input folds => exact h.apply hanswer
  | predict features =>
    obtain ⟨_, -, hanswer⟩ := bind_eq_ok_iff.1 hanswer
    cases hanswer
    exact h
  | restart =>
    cases hanswer
    exact trusted_new

/-- **A worker is trusted however it was reached.** -/
theorem Reached.trusted (h : w.Reached) : w.Trusted := by
  induction h with
  | new => exact trusted_new
  | answered _ hanswer ih => exact ih.handle hanswer

/-! ## Answers -/

/-- A worker does not fail: what fails is answered. -/
theorem handle_cases (w : Worker) (request : WorkerRequest) :
    (∃ response w', w.handle request = .ok (response, w')) ∨
      w.handle request = .error .broken := by
  cases request with
  | init | restart => exact .inl ⟨_, _, rfl⟩
  | apply input folds =>
    rw [handle, Worker.apply]
    split
    · exact .inl ⟨_, _, rfl⟩
    · split
      · exact .inl ⟨_, _, rfl⟩
      · exact .inl ⟨_, _, rfl⟩
      · exact .inr rfl
  | predict features =>
    rw [handle, Worker.predict]
    split
    · exact .inl ⟨_, _, rfl⟩
    · split
      · exact .inl ⟨_, _, rfl⟩
      · exact .inl ⟨_, _, rfl⟩
      · exact .inr rfl

theorem handle_predict_eq_broken_iff {features : Matrix Float32} :
    w.handle (.predict features) = .error .broken ↔
      ∃ s, w.surrogate = some s ∧ s.predict features = .error .broken := by
  rw [handle, Worker.predict]
  cases hs : w.surrogate with
  | none => exact ⟨nofun, nofun⟩
  | some s =>
    dsimp only
    cases hpredict : s.predict features with
    | ok labels =>
      refine ⟨nofun, ?_⟩
      rintro ⟨s', hs', hbroken⟩
      rw [← Option.some.inj hs', hpredict] at hbroken
      cases hbroken
    | error stop =>
      cases stop with
      | failed f =>
        refine ⟨nofun, ?_⟩
        rintro ⟨s', hs', hbroken⟩
        rw [← Option.some.inj hs', hpredict] at hbroken
        cases hbroken
      | broken => exact ⟨fun _ => ⟨s, rfl, hpredict⟩, fun _ => rfl⟩

theorem handle_apply_ne_broken (h : w.Trusted) {input : SurrogateInput} (hvalid : input.Valid)
    {folds : Nat} (hroom : w.HasRoom (.apply input folds)) :
    w.handle (.apply input folds) ≠ .error .broken := by
  rw [handle, Worker.apply]
  cases hs : w.surrogate with
  | none => exact nofun
  | some s =>
    dsimp only
    rcases ((h s hs).intact_train hvalid (hroom s hs) folds).cases with
      ⟨result, htrain, -⟩ | ⟨f, htrain, -⟩
    · rw [htrain]
      exact nofun
    · rw [htrain]
      exact nofun

/-- **A worker answers a request whose parts go together**, where there is room. -/
theorem Reached.answers (h : w.Reached) {request : WorkerRequest} (hrequest : request.Consistent)
    (hroom : w.HasRoom request) : ∃ response w', w.handle request = .ok (response, w') := by
  refine (w.handle_cases request).resolve_right fun hbroken => ?_
  cases request with
  | init | restart => cases hbroken
  | apply input folds =>
    have hvalid := SurrogateInput.valid_iff.2 hrequest
    exact handle_apply_ne_broken h.trusted hvalid hroom hbroken
  | predict features =>
    obtain ⟨s, hs, hbroken⟩ := handle_predict_eq_broken_iff.1 hbroken
    obtain ⟨-, -, -, i, hi, hmissing⟩ := (h.trusted s hs).predict_eq_broken_iff.1 hbroken
    obtain ⟨r, hr, -⟩ := (hrequest.sized.row hi).exists_ok
    rw [orBreak_eq_ok_iff.1 hr] at hmissing
    cases hmissing

/-- **A worker breaks off only on a request whose parts do not go together**, or
without room. However it was reached, any other request is answered. What it is asked
to label and has room for breaks it off exactly if it is trained on as many features
and a row is missing. -/
theorem breaks_off_only_inconsistent (h : w.Reached) :
    (∀ request, (∃ response w', w.handle request = .ok (response, w')) ∨
      w.handle request = .error .broken ∧ ¬(request.Consistent ∧ w.HasRoom request)) ∧
    ∀ features, w.HasRoom (.predict features) → (w.handle (.predict features) = .error .broken ↔
      ∃ s t, w.surrogate = some s ∧ s.training = some t ∧
        features.cols = t.input.features.cols ∧ ∃ i < features.rows, features.row? i = none) := by
  constructor
  · intro request
    rcases w.handle_cases request with hanswer | hbroken
    · exact .inl hanswer
    · refine .inr ⟨hbroken, fun ⟨hconsistent, hroom⟩ => ?_⟩
      obtain ⟨response, w', hanswer⟩ := h.answers hconsistent hroom
      rw [hanswer] at hbroken
      cases hbroken
  · intro features _
    rw [handle_predict_eq_broken_iff]
    constructor
    · rintro ⟨s, hs, hbroken⟩
      obtain ⟨t, ht, hcols, hmissing⟩ := (h.trusted s hs).predict_eq_broken_iff.1 hbroken
      exact ⟨s, t, hs, ht, hcols, hmissing⟩
    · rintro ⟨s, t, hs, ht, hcols, hmissing⟩
      exact ⟨s, hs, (h.trusted s hs).predict_eq_broken_iff.2 ⟨t, ht, hcols, hmissing⟩⟩

/-- A worker that is trained on one feature, asked about two rows of it of
which one is missing, and about one that is there. -/
theorem breaks_off_only_inconsistent_trained :
    let settings : SurrogateSettings := .closedForm { ClosedFormSettings.standard with
      maxIterations := 0 }
    let input : SurrogateInput := ⟨⟨#[1, 2], 2, 1⟩, .hard [0, 1], 2⟩
    ∃ w response, (Worker.new.init settings).2.handle (.apply input 0) = .ok (response, w) ∧
      w.Reached ∧ w.HasRoom (.predict ⟨#[1], 2, 1⟩) ∧
      w.handle (.predict ⟨#[1], 2, 1⟩) = .error .broken ∧
      ¬WorkerRequest.Consistent (.predict ⟨#[1], 2, 1⟩) ∧
      ∃ response w', w.handle (.predict ⟨#[1], 1, 1⟩) = .ok (response, w') := by
  intro settings input
  have hvalid : input.Valid := SurrogateInput.valid_iff.2 ⟨rfl, trivial, rfl⟩
  have htrains : ((Surrogate.new settings).train input 0).toOption.any (fun _ => true) = true := by
    decide +kernel
  obtain ⟨⟨records, s⟩, htrain, -⟩ := exists_of_any htrains
  have hanswer : (Worker.new.init settings).2.handle (.apply input 0) =
      .ok (.trained records, ⟨some s⟩) := by
    have hinit : (Worker.new.init settings).2 = ⟨some (.new settings)⟩ := rfl
    rw [hinit, handle, Worker.apply]
    dsimp only
    rw [htrain]
  have hreached : Reached ⟨some s⟩ :=
    .answered (.answered .new (show Worker.new.handle (.init settings) = .ok _ from rfl)) hanswer
  obtain ⟨hgenuine, hsettings⟩ := (Surrogate.genuine_new settings).of_train htrain
  obtain ⟨t, ht, hmodel⟩ := (Surrogate.genuine_new settings).for_of_train hvalid htrain
  -- whatever the model is for is one feature and two classes
  have hroom : ∀ m : Matrix Float32, m.cols = 1 → m.rows ≤ 2 →
      HasRoom ⟨some s⟩ (.predict m) := by
    rintro m hcols hrows s' classes hs' ⟨t', ht', hmodel'⟩
    obtain rfl := Option.some.inj hs'
    obtain rfl := Option.some.inj (ht.symm.trans ht')
    rw [← (hmodel.unique hmodel').2, hcols, hsettings]
    have hpasses : ∀ rows ≤ 2, settings.Passes 1 2 rows := by decide
    exact hpasses m.rows hrows
  obtain ⟨hcases, hpredict⟩ := breaks_off_only_inconsistent hreached
  have hcols : 1 = t.input.features.cols := by
    obtain ⟨classes, hkept, -⟩ := hgenuine.exists_for ht
    exact (hmodel.unique hkept).1
  have hbroken : (⟨some s⟩ : Worker).handle (.predict ⟨#[1], 2, 1⟩) = .error .broken :=
    (hpredict _ (hroom _ rfl (Nat.le_refl 2))).2 ⟨s, t, rfl, ht, hcols, 1, by decide, by decide⟩
  have hshape : ¬Matrix.WellShaped (⟨#[1], 2, 1⟩ : Matrix Float32) := by decide
  refine ⟨⟨some s⟩, _, hanswer, hreached, hroom _ rfl (Nat.le_refl 2), hbroken, hshape, ?_⟩
  rcases hcases (.predict ⟨#[1], 1, 1⟩) with hanswer | ⟨-, hinconsistent⟩
  · exact hanswer
  · exact absurd ⟨rfl, hroom _ rfl (by decide)⟩ hinconsistent

/-- **A request that is read may break a worker off**: it is asked to train on
three labels for two rows. -/
theorem breaks_off_decoded :
    let init := "\x7b\"method\":\"init\",\"config\":\x7b\"variant\":\"closed_form\"\x7d\x7d"
    let apply := "\x7b\"method\":\"apply\",\"input\":\x7b\"features\":\x7b\"data\":[1.0,2.0],\"rows\":2,\"cols\":1\x7d,"
      ++ "\"targets\":\x7b\"kind\":\"hard\",\"labels\":[0,1,0]\x7d,\"n_classes\":2\x7d,\"folds\":0\x7d"
    ∃ first second response w, decodeText Decoder.workerRequest init = .ok first ∧
      decodeText Decoder.workerRequest apply = .ok second ∧
      Worker.new.handle first = .ok (response, w) ∧ w.Reached ∧ ¬second.Consistent ∧
      w.handle second = .error .broken := by
  intro init apply
  have hbreaks : ((decodeText Decoder.workerRequest init).toOption.any fun first =>
      (decodeText Decoder.workerRequest apply).toOption.any fun second => !second.accepted &&
        (Worker.new.handle first).toOption.any fun answer =>
          (answer.2.handle second).breaksOff) = true := by decide +kernel
  obtain ⟨first, hfirst, hbreaks⟩ := exists_of_any hbreaks
  obtain ⟨second, hsecond, hbreaks⟩ := exists_of_any hbreaks
  obtain ⟨hrefused, hbreaks⟩ := (Bool.and_eq_true _ _).mp hbreaks
  obtain ⟨⟨response, w⟩, hanswer, hbreaks⟩ := exists_of_any hbreaks
  have hbroken : w.handle second = .error .broken := Fallible.breaksOff_iff.1 hbreaks
  have hreached : w.Reached := .answered .new hanswer
  refine ⟨first, second, response, w, hfirst, hsecond, hanswer, hreached, fun h => ?_, hbroken⟩
  rw [h.accepted] at hrefused
  cases hrefused

end Worker

end RuleVote
