import RuleVote.Proofs.Run.Accounting
import RuleVote.Proofs.Run.History
import RuleVote.Proofs.Store.Directory
/-!
# Runs that are read back

A run on a directory that answers with a result has left it there
(`Session.withResult_of_run`). The file keeps the settings, the findings and the
scores as JSON text, and JSON has no infinite numbers and none that is not a
number: they are written as null. So a result reads back as it was exactly if all
of its numbers are finite, and it is among the results of its rule set in just
the same case (`Session.reads_back`). Where the text of the settings, the findings
or the scores is refused, the results of the whole rule set are, those saved
before included.

The settings are the place to look: training refuses an inverse penalty that is
not positive or not a number, but an infinite one passes
(`Session.not_reads_back_infinite`).
-/

namespace RuleVote

namespace Session

variable {s s' : Session} {store store' : DirectoryStore} {config : RunConfig} {stamp : RunStamp}
variable {line : WorkerLine} {r : LabelingResult}

/-- **A run that answers with a result** has left it in the directory. -/
theorem withResult_of_run (hrun : s.run store config stamp line = (.ok r, s', store')) :
    r.ruleSet = config.ruleSet ∧ store' = store.withResult r := by
  have hanswer : (s.run store config stamp line).1 = .ok r := congrArg Prod.fst hrun
  obtain ⟨-, -, hruleSet, m, saved, hsave, houtcome⟩ :=
    (ran_run s store config stamp line).of_ok hanswer
  refine ⟨hruleSet, ?_⟩
  rw [DirectoryStore.saveResult_eq, Except.ok.injEq] at hsave
  rw [hrun] at houtcome
  exact (congrArg Prod.snd houtcome).trans hsave.symm

/-- **A result of a run reads back exactly if its numbers are finite.** If the
earlier results of the rule set can be read, they still can after the run exactly
if what is archived of the new one can be taken apart; and the new one is among
them exactly if its numbers are finite, unless it has been there before. The
result is one within the ranges of 64 bit counts and 32 bit labels, and the text
of a finite number reads back as this number. -/
theorem reads_back (hrun : s.run store config stamp line = (.ok r, s', store'))
    (hr : r.Representable) (hexact : r.Exact) :
    ((ArchivedResult.ofResult r).result = .ok r ↔ r.Finite) ∧
      ∀ rs, LabelStore.results store config.ruleSet = .ok rs →
        ((∃ rs', LabelStore.results store' config.ruleSet = .ok rs') ↔
          ∃ r', (ArchivedResult.ofResult r).result = .ok r') ∧
        (r ∉ rs → ((∃ rs', LabelStore.results store' config.ruleSet = .ok rs' ∧ r ∈ rs') ↔
          r.Finite)) := by
  obtain ⟨hruleSet, rfl⟩ := withResult_of_run hrun
  have hback := ArchivedResult.result_ofResult_iff hr hexact
  refine ⟨hback, fun rs hrs => ?_⟩
  rw [← hruleSet] at hrs ⊢
  exact ⟨DirectoryStore.exists_results_withResult_iff hrs, fun hnew =>
    (DirectoryStore.mem_results_withResult_iff hrs hnew).trans hback⟩

/-! ## Runs on a directory like runs in memory -/

section Stores

variable {σ τ : Type} [LabelStore σ] [LabelStore τ] {one : σ} {other : τ}

/-- A run makes the same on stores that have the same rules and gold labels. -/
theorem attempt_eq_of_store
    (hrules : LabelStore.rules one config.ruleSet = LabelStore.rules other config.ruleSet)
    (hgold : LabelStore.goldLabels one s.task.id = LabelStore.goldLabels other s.task.id) :
    s.attempt one config stamp line = s.attempt other config stamp line := by
  have hprepare : s.prepare one config = s.prepare other config := by
    rw [prepare, prepare, hrules, hgold]
  rw [attempt, attempt, prepare_selectRuleSet, prepare_selectRuleSet, hprepare]

/-- **A result that is made elsewhere** from the same rules and gold labels is
answered with and left in the directory. -/
theorem run_of_attempt
    (hrules : LabelStore.rules store config.ruleSet = LabelStore.rules one config.ruleSet)
    (hgold : LabelStore.goldLabels store s.task.id = LabelStore.goldLabels one s.task.id)
    (h : s.attempt one config stamp line = .ok r) : s.run store config stamp line =
      (.ok r, (s.run store config stamp line).2.1, store.withResult r) := by
  have hanswer := s.answer_eq store config stamp line
  rw [attempt_eq_of_store hrules hgold, h, settle, DirectoryStore.saveResult_eq] at hanswer
  obtain ⟨hfirst, hsecond⟩ := Prod.ext_iff.1 hanswer
  exact Prod.ext hfirst (Prod.ext rfl hsecond)

/-- **What holds of the result whatever labels are predicted** holds of the result
of a run: they are as many as the items, and labels of the task. -/
theorem Sound.exists_attempt (hs : s.Sound) (ht : s.table.Proper) (htask : config.task = s.task)
    (hlocal : config.learning.remote = false) (stamp : RunStamp) (line : WorkerLine)
    {lesson : Lesson} (hlesson : s.prepare one config = .ok lesson) {learned : Learned}
    (hlearn : (s.selectRuleSet config.ruleSet).learnHere config.learning lesson.input =
      .ok learned)
    {P : LabelingResult → Prop}
    (hall : ∀ predicted : List Int, predicted.length = s.table.size →
      (∀ label ∈ predicted, (lesson.input.classes ≤ Nat.pow 2 31 → 0 ≤ label) ∧
        label < lesson.input.classes) →
      ∃ r, s.conclude config stamp lesson { learned with predicted } = .ok r ∧ P r) :
    ∃ r, s.attempt one config stamp line = .ok r ∧ P r := by
  have htaught := (hs.ends_prepare ht one config).of_ok hlesson
  have hlearned := (hs.trusted.selectRuleSet config.ruleSet).learnedFrom htaught.input hlearn
  obtain ⟨r, hconclude, hr⟩ :=
    hall learned.predicted (hlearned.rows.trans htaught.rows_eq) hlearned.classes
  have hlearns : s.Learns one config line lesson learned :=
    ⟨htask, (prepare_selectRuleSet s one config).trans hlesson,
      (learn_of_local hlocal lesson.input).trans hlearn⟩
  exact ⟨r, hlearns.attempt_eq.trans hconclude, hr⟩

end Stores

namespace Sample

/-- A directory with the rules. -/
def directory : DirectoryStore := DirectoryStore.empty.withRules "first" rules

theorem rules_directory :
    LabelStore.rules directory "first" = LabelStore.rules Sample.store "first" := by
  have hlabels : ∀ r ∈ rules, Decoder.IsLabel r.whenTrue ∧ Decoder.IsLabel r.whenFalse := by decide
  exact DirectoryStore.rules_withRules _ rfl hlabels

theorem goldLabels_directory :
    LabelStore.goldLabels directory "quality" = LabelStore.goldLabels Sample.store "quality" := by
  decide +kernel

theorem results_directory : LabelStore.results directory "first" = .ok [] := by decide +kernel

end Sample

/-- A run of three rules on a directory without results: its result is read
back. -/
theorem reads_back_majority :
    ∃ r s' store' rs', (Sample.session Sample.table).run Sample.directory Sample.config
        Sample.stamp Sample.line = (.ok r, s', store') ∧
      r.Representable ∧ r.Exact ∧ r.Finite ∧ LabelStore.results Sample.directory "first" = .ok [] ∧
      (ArchivedResult.ofResult r).result = .ok r ∧
      LabelStore.results store' "first" = .ok rs' ∧ r ∈ rs' := by
  have hproper : Sample.table.Proper := FeatureTable.proper_of_new
    (show FeatureTable.new Sample.table.keys Sample.table.columns = .ok Sample.table by
      decide +kernel)
  have hlearned : (((Sample.session Sample.table).prepare Sample.store Sample.config).toOption.any
      fun lesson => decide (lesson.input.classes = 2) &&
        ((((Sample.session Sample.table).selectRuleSet "first").learnHere Sample.config.learning
          lesson.input).toOption.any fun learned =>
            decide (learned.records = [] ∧ learned.reference = [0, 1])) &&
        -- the labels predicted hang on exponentials, so all of them are tried
        [(0 : Int), 1].all fun a => [(0 : Int), 1].all fun b =>
          ((Sample.session Sample.table).conclude Sample.config Sample.stamp lesson
            ⟨[], [a, b], [0, 1], none⟩).toOption.any fun r =>
              decide (r.Representable ∧ r.Exact ∧ r.Finite)) = true := by decide +kernel
  obtain ⟨lesson, hlesson, hchecks⟩ := exists_of_any hlearned
  simp only [Bool.and_eq_true, decide_eq_true_iff, List.all_eq_true] at hchecks
  obtain ⟨⟨hclasses, hlearn⟩, hresults⟩ := hchecks
  obtain ⟨⟨records, predicted, reference, surrogate⟩, hlearn, hfacts⟩ := exists_of_any hlearn
  obtain ⟨rfl, rfl⟩ := of_decide_eq_true hfacts
  have hsound : (Sample.session Sample.table).Sound := sound_new (Sample.new_session Sample.table)
  obtain ⟨r, hattempt, hr, hexact, hfinite⟩ := hsound.exists_attempt
    (P := fun r => r.Representable ∧ r.Exact ∧ r.Finite) hproper rfl rfl Sample.stamp Sample.line
    hlesson hlearn fun predicted hlength hlabels => by
      obtain ⟨a, b, rfl⟩ := List.length_eq_two.1 hlength
      have hlabel : ∀ label ∈ [a, b], label ∈ [(0 : Int), 1] := by
        intro label hmem
        obtain ⟨hnonneg, hlt⟩ := hlabels label hmem
        rw [hclasses] at hnonneg hlt
        have hnonneg := hnonneg (by decide)
        simp only [List.mem_cons, List.not_mem_nil, or_false]
        omega
      obtain ⟨r, hconclude, hr⟩ := exists_of_any
        (hresults a (hlabel a (by simp)) b (hlabel b (by simp)))
      exact ⟨r, hconclude, of_decide_eq_true hr⟩
  have hrun : (Sample.session Sample.table).run Sample.directory Sample.config Sample.stamp
      Sample.line = (.ok r, _, Sample.directory.withResult r) :=
    run_of_attempt Sample.rules_directory Sample.goldLabels_directory hattempt
  obtain ⟨hback, hresults⟩ := reads_back hrun hr hexact
  obtain ⟨rs', hafter, hmem⟩ :=
    ((hresults [] Sample.results_directory).2 List.not_mem_nil).2 hfinite
  exact ⟨r, _, _, rs', hrun, hr, hexact, hfinite, Sample.results_directory, hback.2 hfinite,
    hafter, hmem⟩

/-- **An infinite inverse penalty is accepted, and its result is lost**: the run
answers with a result that does not read back, and the results of the rule set
cannot be read any more. -/
theorem not_reads_back_infinite :
    let model : SurrogateSettings := .closedForm { ClosedFormSettings.standard with
      c := infinity
      maxIterations := 0 }
    let config : RunConfig :=
      { Sample.config with learning := { Sample.config.learning with model } }
    let s := Sample.session Sample.table
    new Sample.task Sample.table = .ok s ∧ config.learning.remote = false ∧
      LabelStore.results Sample.directory "first" = .ok [] ∧
      ∃ r s' store', s.run Sample.directory config Sample.stamp Sample.line = (.ok r, s', store') ∧
        (∃ fault, (ArchivedResult.ofResult r).result = .error fault) ∧
        ∃ f, LabelStore.results store' "first" = .error f := by
  intro model config s
  have hlost : ((s.attempt Sample.store config Sample.stamp Sample.line).toOption.any fun r =>
      !(ArchivedResult.ofResult r).result.toOption.isSome) = true := by decide +kernel
  obtain ⟨r, hattempt, hfails⟩ := exists_of_any hlost
  have hrun : s.run Sample.directory config Sample.stamp Sample.line =
      (.ok r, _, Sample.directory.withResult r) :=
    run_of_attempt Sample.rules_directory Sample.goldLabels_directory hattempt
  have hruleSet : r.ruleSet = "first" := (withResult_of_run hrun).1
  cases hresult : (ArchivedResult.ofResult r).result with
  | ok r' =>
    rw [hresult] at hfails
    cases hfails
  | error fault =>
    refine ⟨Sample.new_session _, rfl, Sample.results_directory, r, _, _, hrun,
      ⟨fault, hresult⟩, ?_⟩
    cases hafter : LabelStore.results (Sample.directory.withResult r) "first" with
    | error f => exact ⟨f, rfl⟩
    | ok rs =>
      have hnone := Sample.results_directory
      rw [← hruleSet] at hnone hafter
      obtain ⟨r', hr'⟩ := (DirectoryStore.exists_results_withResult_iff hnone).1 ⟨rs, hafter⟩
      rw [hresult] at hr'
      cases hr'

end Session

end RuleVote
