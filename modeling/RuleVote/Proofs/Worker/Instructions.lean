import RuleVote.Proofs.Outcome
import RuleVote.Proofs.Surrogate.Lifecycle
import RuleVote.Worker.Basic
/-!
# What a worker goes by

Of all that a worker was asked, only its instructions count: the settings that
it last made a surrogate for, and the last training since that succeeded. The
surrogate it holds is a new one that is given just these
(`Worker.Served.follows`), so every answer is the one that such a surrogate gives
(`Worker.Follows.obeys`). An input with a negative zero is left out, as it may
agree with one that is not equal to it.
-/

namespace RuleVote

/-- The numbers that a request trains on. -/
def WorkerRequest.numbers : WorkerRequest → List Float32
  | .apply input _ => input.numbers
  | .init _ | .predict _ | .restart => []

/-- A result as an answer, which a failure is too. -/
def WorkerResponse.ofResult {α : Type} (reply : α → WorkerResponse) :
    Fallible α → Fallible WorkerResponse
  | .ok a => .ok (reply a)
  | .error (.failed f) => .ok (.error f.text)
  | .error .broken => breakOff

/-- A request and its answer. -/
structure Exchange where
  /-- What was asked. -/
  request : WorkerRequest
  /-- What was answered. -/
  response : WorkerResponse

/-- What a worker goes by. -/
structure Instructions where
  /-- The settings of the surrogate that it holds. -/
  settings : SurrogateSettings
  /-- The last training of the surrogate that succeeded. -/
  training : Option Surrogate.Call

/-- A new surrogate that is given only the instructions. -/
def Instructions.follow (i : Instructions) : Surrogate :=
  (Surrogate.new i.settings).after i.training.toList

/-- The instructions after an exchange, given those before it. -/
def Exchange.revise (e : Exchange) (held : Option Instructions) : Option Instructions :=
  match e.request, e.response with
  | .init settings, .initialized _ => some ⟨settings, none⟩
  | .init _, _ => held
  | .apply input folds, .trained _ => held.map fun i => { i with training := some ⟨input, folds⟩ }
  | .apply _ _, _ => none
  | .predict _, _ => held
  | .restart, _ => none

/-- The instructions that some exchanges come to, the latest of them first. -/
def instructed (past : List Exchange) : Option Instructions := past.foldr Exchange.revise none

/-- Instructions that can be followed: their training is one that a new
surrogate succeeds with, on input without a negative zero. -/
def Instructions.Sound (i : Instructions) : Prop :=
  ∀ c, i.training = some c → negativeZero ∉ c.input.numbers ∧
    ∃ records, (Surrogate.new i.settings).train c.input c.folds = .ok (records, i.follow)

namespace Instructions

variable {i : Instructions}

theorem follow_settings (i : Instructions) : i.follow.settings = i.settings :=
  ((Surrogate.genuine_new i.settings).after i.training.toList).2

theorem sound_untrained (settings : SurrogateSettings) : Sound ⟨settings, none⟩ := nofun

/-- Whatever the instructions, training comes to what it comes to on a new
surrogate. -/
theorem Sound.train_follow (hi : i.Sound) {input : SurrogateInput}
    (hinput : negativeZero ∉ input.numbers) (folds : Nat) :
    i.follow.train input folds = (Surrogate.new i.settings).train input folds := by
  refine Surrogate.train_after (fun c hc => ?_) hinput folds
  exact (hi c (Option.mem_toList.1 hc)).1

/-- **A training that succeeds becomes the last one.** -/
theorem Sound.retrained (hi : i.Sound) {input : SurrogateInput}
    (hinput : negativeZero ∉ input.numbers) {folds : Nat} {records : List FoldRecord}
    {s : Surrogate} (htrain : i.follow.train input folds = .ok (records, s)) :
    follow { i with training := some ⟨input, folds⟩ } = s ∧
      Sound { i with training := some ⟨input, folds⟩ } := by
  rw [hi.train_follow hinput] at htrain
  have hfollow : follow { i with training := some ⟨input, folds⟩ } = s :=
    congrArg Prod.snd (Surrogate.run_of_ok (c := ⟨input, folds⟩) htrain)
  refine ⟨hfollow, fun c hc => ?_⟩
  obtain rfl := Option.some.inj hc
  exact ⟨hinput, records, hfollow ▸ htrain⟩

end Instructions

namespace Worker

/-- What a worker answers. -/
def answer (w : Worker) (request : WorkerRequest) : Fallible WorkerResponse :=
  Prod.fst <$> w.handle request

/-- A new worker that had some exchanges, the latest of them first. -/
inductive Served : List Exchange → Worker → Prop
  | new : Served [] .new
  | answered {past : List Exchange} {w w' : Worker} {request : WorkerRequest}
      {response : WorkerResponse} (h : Served past w)
      (hanswer : w.handle request = .ok (response, w')) : Served (⟨request, response⟩ :: past) w'

/-- A worker that holds nothing: it reports so when it is to train or to label,
and goes on holding nothing. -/
structure Vacant (w : Worker) : Prop where
  surrogate : w.surrogate = none
  apply : ∀ input folds, w.handle (.apply input folds) = .ok (.error uninitialized.text, w)
  predict : ∀ x, w.handle (.predict x) = .ok (.error uninitialized.text, w)

/-- A worker holds the surrogate that its instructions make. -/
structure Follows (w : Worker) (held : Option Instructions) : Prop where
  surrogate : w.surrogate = held.map Instructions.follow
  sound : ∀ i, held = some i → i.Sound

/-- A worker answers as its instructions say. -/
structure Obeys (w : Worker) (held : Option Instructions) : Prop where
  /-- It holds a surrogate with the settings of its instructions. -/
  settings : w.surrogate.map Surrogate.settings = held.map Instructions.settings
  /-- It has a surrogate already exactly if it holds one whose settings agree.
  Otherwise it holds a new one from then on. -/
  init : ∀ settings, w.handle (.init settings) =
    if held.any fun i => i.settings.agrees settings then
      .ok (.alreadyInitialized settings.kind, w)
    else .ok (.initialized settings.kind, ⟨some (.new settings)⟩)
  /-- Training answers what it comes to on a new surrogate. -/
  apply : ∀ i, held = some i → ∀ input folds, negativeZero ∉ input.numbers →
    w.answer (.apply input folds) =
      WorkerResponse.ofResult (fun result => .trained result.1)
        ((Surrogate.new i.settings).train input folds)
  /-- Labeling answers what a new surrogate does after the last training. -/
  predict : ∀ i, held = some i → ∀ c, i.training = some c → ∃ records fresh,
    (Surrogate.new i.settings).train c.input c.folds = .ok (records, fresh) ∧
    ∀ x, w.answer (.predict x) = WorkerResponse.ofResult .predicted (fresh.predict x)
  /-- Labeling fails where there was no training. -/
  untrained : ∀ i, held = some i → i.training = none →
    ∀ x, w.answer (.predict x) = .ok (.error (Failure.wrongState "trained" "untrained").text)
  /-- Without instructions there is no surrogate. -/
  vacant : held = none → w.Vacant
  /-- Nothing is held after a restart. -/
  restart : w.handle .restart = .ok (.cleared, .new)

variable {w w' : Worker} {held : Option Instructions} {past later earlier : List Exchange}
variable {request : WorkerRequest} {response : WorkerResponse} {s : Surrogate}

/-! ## One request -/

theorem vacant_of_surrogate (h : w.surrogate = none) : w.Vacant where
  surrogate := h
  apply input folds := by rw [handle, Worker.apply, h]
  predict x := by rw [handle, Worker.predict, h]; rfl

theorem handle_init (w : Worker) (settings : SurrogateSettings) : w.handle (.init settings) =
    if w.surrogate.any fun s => s.settings.agrees settings then
      .ok (.alreadyInitialized settings.kind, w)
    else .ok (.initialized settings.kind, ⟨some (.new settings)⟩) := by
  rw [handle, Worker.init]
  cases w.surrogate with
  | none => rfl
  | some s =>
    cases hagrees : s.settings.agrees settings <;>
      simp [Option.filter, hagrees]

section

variable {input : SurrogateInput} {folds : Nat} {records : List FoldRecord} {s' : Surrogate}

theorem handle_apply_of_ok (h : w.surrogate = some s)
    (htrain : s.train input folds = .ok (records, s')) :
    w.handle (.apply input folds) = .ok (.trained records, ⟨some s'⟩) := by
  rw [handle, Worker.apply, h]
  dsimp only
  rw [htrain]

theorem handle_apply_of_fail (h : w.surrogate = some s) {f : Failure}
    (htrain : s.train input folds = .error (.failed f)) :
    w.handle (.apply input folds) = .ok (.error f.text, .new) := by
  rw [handle, Worker.apply, h]
  dsimp only
  rw [htrain]

theorem handle_apply_of_broken (h : w.surrogate = some s)
    (htrain : s.train input folds = .error .broken) :
    w.handle (.apply input folds) = .error .broken := by
  rw [handle, Worker.apply, h]
  dsimp only
  rw [htrain]
  rfl

/-- What is answered was trained, and then the surrogate is kept, or it failed,
and then nothing is held. -/
theorem apply_cases (h : w.surrogate = some s)
    (hanswer : w.handle (.apply input folds) = .ok (response, w')) :
    (∃ records s', s.train input folds = .ok (records, s') ∧
      response = .trained records ∧ w' = ⟨some s'⟩) ∨
    ∃ f : Failure, response = .error f.text ∧ w' = .new := by
  cases htrain : s.train input folds with
  | ok result =>
    rw [handle_apply_of_ok h htrain] at hanswer
    cases hanswer
    exact .inl ⟨result.1, result.2, rfl, rfl, rfl⟩
  | error stop =>
    cases stop with
    | failed f =>
      rw [handle_apply_of_fail h htrain] at hanswer
      cases hanswer
      exact .inr ⟨f, rfl, rfl⟩
    | broken =>
      rw [handle_apply_of_broken h htrain] at hanswer
      cases hanswer

theorem answer_apply (h : w.surrogate = some s) : w.answer (.apply input folds) =
    WorkerResponse.ofResult (fun result => .trained result.1) (s.train input folds) := by
  cases htrain : s.train input folds with
  | ok result =>
    rw [answer, handle_apply_of_ok h htrain]
    rfl
  | error stop =>
    cases stop with
    | failed f =>
      rw [answer, handle_apply_of_fail h htrain]
      rfl
    | broken =>
      rw [answer, handle_apply_of_broken h htrain]
      rfl

end

theorem answer_predict (h : w.surrogate = some s) (x : Matrix Float32) :
    w.answer (.predict x) = WorkerResponse.ofResult .predicted (s.predict x) := by
  rw [answer, handle, Worker.predict, h]
  dsimp only
  rcases s.predict x with (f | _) | _ <;> rfl

/-! ## Requests one after another -/

theorem follows_new : Follows .new none := ⟨rfl, nofun⟩

/-- **An answer revises the instructions**, and the surrogate is the one that
they make. -/
theorem Follows.handle (h : w.Follows held) (hzero : negativeZero ∉ request.numbers)
    (hanswer : w.handle request = .ok (response, w')) :
    w'.Follows (Exchange.revise ⟨request, response⟩ held) := by
  cases request with
  | init settings =>
    rw [handle_init] at hanswer
    split_ifs at hanswer
    · cases hanswer
      exact h
    · cases hanswer
      refine ⟨rfl, fun i hi => ?_⟩
      obtain rfl := Option.some.inj hi
      exact Instructions.sound_untrained settings
  | apply input folds =>
    cases held with
    | none =>
      rw [(vacant_of_surrogate h.surrogate).apply] at hanswer
      cases hanswer
      exact h
    | some i =>
      rcases apply_cases h.surrogate hanswer with ⟨records, s', htrain, rfl, rfl⟩ | ⟨f, rfl, rfl⟩
      · obtain ⟨hfollow, hsound⟩ := (h.sound i rfl).retrained hzero htrain
        refine ⟨congrArg some hfollow.symm, fun i' hi' => ?_⟩
        obtain rfl := Option.some.inj hi'
        exact hsound
      · -- a failure drops the surrogate, and the instructions with it
        exact follows_new
  | predict x =>
    obtain ⟨_, -, hanswer⟩ := bind_eq_ok_iff.1 hanswer
    cases hanswer
    exact h
  | restart =>
    cases hanswer
    exact follows_new

/-- **A worker holds what its instructions make**, whatever else it was
asked. -/
theorem Served.follows (h : Served past w) (hzero : ∀ e ∈ past, negativeZero ∉ e.request.numbers) :
    w.Follows (instructed past) := by
  induction h with
  | new => exact follows_new
  | answered _ hanswer ih =>
    rw [List.forall_mem_cons] at hzero
    exact (ih hzero.2).handle hzero.1 hanswer

/-- **Who holds what its instructions make answers as they say.** -/
theorem Follows.obeys (h : w.Follows held) : w.Obeys held where
  settings := by
    rw [h.surrogate, Option.map_map]
    exact congrArg (held.map ·) (funext Instructions.follow_settings)
  init settings := by
    rw [handle_init, h.surrogate, Option.any_map]
    simp only [Instructions.follow_settings]
  apply := by
    rintro i rfl input folds hinput
    rw [answer_apply h.surrogate, (h.sound i rfl).train_follow hinput]
  predict := by
    rintro i rfl c hc
    obtain ⟨-, records, htrain⟩ := h.sound i rfl c hc
    exact ⟨records, i.follow, htrain, answer_predict h.surrogate⟩
  untrained := by
    rintro ⟨settings, _⟩ rfl rfl x
    rw [answer_predict h.surrogate]
    rfl
  vacant := by
    rintro rfl
    exact vacant_of_surrogate h.surrogate
  restart := rfl

/-- Only when a surrogate is asked for are there instructions again. -/
theorem revise_none {e : Exchange} (hinit : ∀ settings, e.request ≠ .init settings) :
    e.revise none = none := by
  obtain ⟨request, response⟩ := e
  cases request with
  | init settings => exact absurd rfl (hinit settings)
  | apply => cases response <;> rfl
  | predict | restart => rfl

/-- After a training that failed there are no instructions until a surrogate
is asked for. -/
theorem instructed_of_failed {input : SurrogateInput} {folds : Nat} {message : String}
    (hinit : ∀ e ∈ later, ∀ settings, e.request ≠ .init settings) :
    instructed (later ++ ⟨.apply input folds, .error message⟩ :: earlier) = none := by
  induction later with
  | nil => rfl
  | cons e later ih =>
    rw [List.forall_mem_cons] at hinit
    exact (congrArg e.revise (ih hinit.2)).trans (revise_none hinit.1)

/-- **A worker answers as a new surrogate does that is given only its
instructions.** The last settings that it made a surrogate for and the last
training since that succeeded settle every answer. After a training that failed
it holds nothing until it is asked for a surrogate. -/
theorem obeys_instructions (h : Served past w)
    (hzero : ∀ e ∈ past, negativeZero ∉ e.request.numbers) :
    w.Obeys (instructed past) ∧
    ∀ later input folds message earlier,
      past = later ++ ⟨.apply input folds, .error message⟩ :: earlier →
      (∀ e ∈ later, ∀ settings, e.request ≠ .init settings) → w.Vacant := by
  have hobeys := (h.follows hzero).obeys
  refine ⟨hobeys, ?_⟩
  rintro later input folds message earlier rfl hinit
  exact hobeys.vacant (instructed_of_failed hinit)

/-- A worker that held nothing after a training that failed, was asked for a
surrogate again and trained it, and is asked for it once more. -/
theorem obeys_instructions_kept :
    let settings : SurrogateSettings := .closedForm { ClosedFormSettings.standard with
      maxIterations := 0 }
    let labeled : SurrogateInput := ⟨⟨#[1, 2], 2, 1⟩, .hard [0, 1], 2⟩
    let unlabeled : SurrogateInput := ⟨⟨#[1, 2], 2, 1⟩, .hard [-1, -1], 2⟩
    let requests : List WorkerRequest := [.init settings, .apply labeled 0, .init settings,
      .apply unlabeled 0, .init settings]
    let held : Instructions := ⟨settings, some ⟨labeled, 0⟩⟩
    ∃ past w, Served past w ∧ past.map Exchange.request = requests ∧
      (∀ e ∈ past, negativeZero ∉ e.request.numbers) ∧ instructed past = some held ∧
      w.Obeys (some held) := by
  intro settings labeled unlabeled requests held
  have hall : (requests.all fun r => r.numbers.all (· ≠ negativeZero)) = true := by decide +kernel
  have hzero : ∀ r ∈ requests, negativeZero ∉ r.numbers := fun r hr hmem =>
    of_decide_eq_true (List.all_eq_true.1 (List.all_eq_true.1 hall r hr) _ hmem) rfl
  have htrains : ((Surrogate.new settings).train labeled 0).toOption.any (fun _ => true) = true :=
    by decide +kernel
  have hnone : ((Surrogate.new settings).train unlabeled 0).toOption.isNone = true := by
    decide +kernel
  have hintact : ((Surrogate.new settings).train unlabeled 0).breaksOff = false := by
    decide +kernel
  have hagrees : settings.agrees settings = true := by decide +kernel
  obtain ⟨⟨records, s⟩, htrain, -⟩ := exists_of_any htrains
  obtain ⟨f, hfail⟩ := Fallible.exists_fail hnone hintact
  have hsettings : s.settings = settings := ((Surrogate.genuine_new settings).of_train htrain).2
  let fresh : Worker := ⟨some (.new settings)⟩
  have hinit : new.handle (.init settings) = .ok (.initialized settings.kind, fresh) := rfl
  have hfailed : fresh.handle (.apply unlabeled 0) = .ok (.error f.text, new) :=
    handle_apply_of_fail rfl hfail
  have htrained : fresh.handle (.apply labeled 0) = .ok (.trained records, ⟨some s⟩) :=
    handle_apply_of_ok rfl htrain
  have hkept : (⟨some s⟩ : Worker).handle (.init settings) =
      .ok (.alreadyInitialized settings.kind, ⟨some s⟩) := by
    rw [handle_init, Option.any_some, hsettings, hagrees, if_pos rfl]
  have hserved := (((Served.new.answered hinit).answered hfailed).answered hinit).answered htrained
    |>.answered hkept
  obtain ⟨past, hrequests, hserved, hheld⟩ : ∃ past, past.map Exchange.request = requests ∧
      Served past ⟨some s⟩ ∧ instructed past = some held := ⟨_, rfl, hserved, rfl⟩
  have hpast := List.forall_mem_map.1 (hrequests.symm ▸ hzero)
  have hobeys := (obeys_instructions hserved hpast).1
  exact ⟨past, ⟨some s⟩, hserved, hrequests, hpast, hheld, hheld ▸ hobeys⟩

end Worker

end RuleVote
