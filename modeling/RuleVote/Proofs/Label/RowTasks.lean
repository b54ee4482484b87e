import Mathlib.Data.List.Perm.Basic
import Mathlib.Data.List.ProdSigma
import Mathlib.Data.List.ReduceOption
import RuleVote.Proofs.Label.Votes
/-!
# Rows voted on side by side

The votes on one row of a table need no other row, so each row can be a task of its
own. Tasks that run side by side finish in any order (`Finishes`), and those that have
not begun when one fails may be left out. Results go to the places of their tasks, and
of the failures the first to come is kept (`Gathered.finish`). So tasks fail as they
would one after another in the order in which they finish (`collect_eq_error_iff`), and
where none fails the results stand in the order of the tasks
(`collect_eq_of_mapM_eq_ok`).

Rows may lack different features, since the features read first settle whether others
are read at all, and any row that fails may be the first to finish. Hence the order
makes no difference to a table of votes exactly where all rows that fail lack the same
feature (`VoteTable.applyInOrder_eq_apply_iff`).
-/

namespace RuleVote

variable {ε α β : Type}

/-- **Computations over one list for every member of another** fail as the first of
all, member by member. -/
theorem mapM_mapM_eq_error_iff {γ : Type} {f : α → γ → Except ε β} {as : List α} {cs : List γ}
    {e : ε} :
    (as.mapM fun a => cs.mapM (f a)) = .error e ↔
      FailsFirst (fun p => f p.1 p.2) (as ×ˢ cs) e := by
  rw [← mapM_eq_error_iff]
  induction as with
  | nil => exact iff_of_false nofun nofun
  | cons a as ih =>
    rw [List.product_cons, mapM_append_eq_error_iff, List.mapM_map, ← ih, List.mapM_cons,
      both_eq_error_iff]
    rfl

/-! ## Tasks side by side -/

/-- What the tasks that have finished leave behind. -/
structure Gathered (ε β : Type) where
  /-- The results, each at the place of its task. -/
  results : List (Option β)
  /-- The failure, if there was one. -/
  failure : Option ε

namespace Gathered

/-- Nothing has finished. -/
def start (tasks : Nat) : Gathered ε β := ⟨List.replicate tasks none, none⟩

/-- One more task has finished: its result goes to its place, its failure is kept if
it is the first. -/
def finish (task : Nat → Except ε β) (g : Gathered ε β) (i : Nat) : Gathered ε β :=
  match task i with
  | .ok b => { g with results := g.results.set i (some b) }
  | .error e => { g with failure := g.failure.or (some e) }

/-- The failure that was kept, or the results in the order of the tasks. -/
def outcome (g : Gathered ε β) : Except ε (List β) :=
  match g.failure with
  | some e => .error e
  | none => .ok g.results.reduceOption

/-- What is left behind by tasks that have finished in a given order. -/
structure After (task : Nat → Except ε β) (tasks : Nat) (order : List Nat) (g : Gathered ε β) :
    Prop where
  results : g.results =
    (List.range tasks).map fun i => if i ∈ order then (task i).toOption else none
  failure : ∀ e, g.failure = some e ↔ order.mapM task = .error e

variable {task : Nat → Except ε β} {tasks : Nat} {order : List Nat} {g : Gathered ε β}

theorem after_start : After task tasks [] (start tasks) where
  results := by simp [start]
  failure e := iff_of_false nofun nofun

theorem After.failure_eq_none_iff (h : After task tasks order g) :
    g.failure = none ↔ ∃ bs, order.mapM task = .ok bs := by
  cases hrun : order.mapM task with
  | ok bs =>
    refine iff_of_true (Option.eq_none_iff_forall_ne_some.2 fun e he => ?_) ⟨bs, rfl⟩
    cases hrun.symm.trans ((h.failure e).1 he)
  | error e =>
    rw [(h.failure e).2 hrun]
    exact iff_of_false nofun fun ⟨bs, hbs⟩ => nomatch hbs

/-- **One more task leaves its result or, if it is the first, its failure.** -/
theorem After.finish (h : After task tasks order g) (i : Nat) :
    After task tasks (order ++ [i]) (g.finish task i) := by
  -- a task that finishes last fails the run only if none before it did
  have hone : ∀ e, [i].mapM task = .error e ↔ task i = .error e := by
    intro e
    rw [List.mapM_cons, both_eq_error_iff]
    refine or_iff_left ?_
    rintro ⟨-, hnil⟩
    cases hnil
  cases htask : task i with
  | ok b =>
    refine ⟨?_, fun e => ?_⟩
    · rw [Gathered.finish, htask]
      refine List.ext_getElem? fun j => ?_
      rw [List.getElem?_set, h.results, List.length_map, List.length_range]
      by_cases hj : i = j
      · subst hj
        by_cases hlt : i < tasks
        · simp [hlt, htask, Except.toOption]
        · simp [hlt]
      · by_cases hlt : j < tasks
        · simp [hj, hlt, Ne.symm hj]
        · simp [hj, hlt]
    · rw [mapM_append_eq_error_iff, hone, htask, ← h.failure, Gathered.finish, htask]
      refine (or_iff_left ?_).symm
      rintro ⟨-, hok⟩
      cases hok
  | error e' =>
    refine ⟨?_, fun e => ?_⟩
    · rw [Gathered.finish, htask, h.results]
      refine List.map_congr_left fun j _ => ?_
      by_cases hj : j = i
      · subst hj
        simp [htask, Except.toOption]
      · simp [hj]
    · rw [mapM_append_eq_error_iff, hone, htask, ← h.failure, ← h.failure_eq_none_iff,
        Gathered.finish, htask]
      dsimp only
      rw [Option.or_eq_some_iff, Option.some.injEq, Except.error.injEq]

theorem after_foldl (task : Nat → Except ε β) (tasks : Nat) (order : List Nat) :
    After task tasks order (order.foldl (Gathered.finish task) (start tasks)) := by
  induction order using List.reverseRecOn with
  | nil => exact after_start
  | append_singleton order i ih =>
    rw [List.foldl_concat]
    exact ih.finish i

end Gathered

/-- What tasks that finish in a given order come to. -/
def collect (task : Nat → Except ε β) (tasks : Nat) (order : List Nat) : Except ε (List β) :=
  (order.foldl (Gathered.finish task) (Gathered.start tasks)).outcome

/-- An order in which tasks may finish: none of them twice, and all of them unless one
has failed. -/
structure Finishes (task : Nat → Except ε β) (tasks : Nat) (order : List Nat) : Prop where
  nodup : order.Nodup
  lt : ∀ i ∈ order, i < tasks
  complete : (∀ i < tasks, i ∈ order) ∨ ∃ i ∈ order, ∃ e, task i = .error e

section

variable {task : Nat → Except ε β} {tasks : Nat} {order : List Nat} {e : ε} {bs : List β}

theorem finishes_of_perm (h : order.Perm (List.range tasks)) : Finishes task tasks order where
  nodup := h.nodup_iff.2 List.nodup_range
  lt _ hi := List.mem_range.1 (h.mem_iff.1 hi)
  complete := .inl fun _ hi => h.mem_iff.2 (List.mem_range.2 hi)

/-- **Tasks fail as they would one after another in the order in which they finish.** -/
theorem collect_eq_error_iff :
    collect task tasks order = .error e ↔ order.mapM task = .error e := by
  have hafter := Gathered.after_foldl task tasks order
  rw [← hafter.failure, collect, Gathered.outcome]
  cases (order.foldl (Gathered.finish task) (Gathered.start tasks)).failure with
  | none => exact iff_of_false nofun nofun
  | some e' => rw [Except.error.injEq, Option.some.injEq]

/-- **Tasks that do not fail have their results in their own order**, whatever the
order in which they finish. -/
theorem collect_eq_of_mapM_eq_ok (h : Finishes task tasks order)
    (hbs : (List.range tasks).mapM task = .ok bs) : collect task tasks order = .ok bs := by
  have hall : ∀ i < tasks, ∃ b, task i = .ok b := fun i hi =>
    exists_mapM_eq_ok_iff.1 ⟨bs, hbs⟩ i (List.mem_range.2 hi)
  -- only a failure would have left tasks out
  have hfinished : ∀ i < tasks, i ∈ order := by
    refine h.complete.resolve_right ?_
    rintro ⟨i, hi, e, he⟩
    obtain ⟨b, hb⟩ := hall i (h.lt i hi)
    cases he.symm.trans hb
  have hafter := Gathered.after_foldl task tasks order
  have hfailure := hafter.failure_eq_none_iff.2
    (exists_mapM_eq_ok_iff.2 fun i hi => hall i (h.lt i hi))
  have hresults : bs.map some = (List.range tasks).map fun i => (task i).toOption :=
    map_of_mapM hbs fun i b hb => by rw [hb]; rfl
  have hplaces : (order.foldl (Gathered.finish task) (Gathered.start tasks)).results =
      bs.map some := by
    rw [hafter.results, hresults]
    exact List.map_congr_left fun i hi => if_pos (hfinished i (List.mem_range.1 hi))
  rw [collect, Gathered.outcome, hfailure, hplaces]
  simp [List.reduceOption]

/-- Where a task fails, all come to the failure of one of them. -/
theorem exists_collect_eq_error (h : Finishes task tasks order)
    (he : (List.range tasks).mapM task = .error e) :
    ∃ i < tasks, ∃ e', task i = .error e' ∧ collect task tasks order = .error e' := by
  cases hrun : order.mapM task with
  | ok bs =>
    have hok := exists_mapM_eq_ok_iff.1 ⟨bs, hrun⟩
    obtain ⟨i, hi, hfails⟩ := (mapM_eq_error_iff.1 he).exists_mem
    -- a task that fails is among those that have finished
    obtain ⟨j, hj, e', hj'⟩ : ∃ j ∈ order, ∃ e, task j = .error e :=
      h.complete.elim (fun hall => ⟨i, hall i (List.mem_range.1 hi), e, hfails⟩) id
    obtain ⟨b, hb⟩ := hok j hj
    cases hj'.symm.trans hb
  | error e' =>
    obtain ⟨i, hi, hfails⟩ := (mapM_eq_error_iff.1 hrun).exists_mem
    exact ⟨i, h.lt i hi, e', hfails, collect_eq_error_iff.2 hrun⟩

/-- Any task may be the first to finish. -/
theorem exists_order_of_error (task : Nat → Except ε β) {i : Nat} (hi : i < tasks)
    (he : task i = .error e) :
    ∃ order, order.Perm (List.range tasks) ∧ collect task tasks order = .error e := by
  refine ⟨i :: (List.range tasks).erase i,
    (List.perm_cons_erase (List.mem_range.2 hi)).symm, collect_eq_error_iff.2 ?_⟩
  rw [List.mapM_cons, he]
  rfl

end

namespace VoteTable

variable {functions : List RuleFunction} {table : FeatureTable} {order : List Nat}

/-! ## Rows in any order -/

/-- The votes on all rows as a table, or what was missing as a failure. -/
def ofRowVotes (functions : List RuleFunction) (table : FeatureTable) :
    Except MissingFeature (List (List Int)) → Except Failure VoteTable
  | .ok rows =>
    .ok ⟨table.keys, functions.map RuleFunction.name, Matrix.ofRowsOf functions.length rows⟩
  | .error missing => .error missing.failure

/-- The votes of every function on every row of a table, where the rows finish in a
given order. -/
def applyInOrder (functions : List RuleFunction) (table : FeatureTable) (order : List Nat) :
    Except Failure VoteTable :=
  ofRowVotes functions table
    (collect (fun i => voteRow functions (table.row i)) table.size order)

/-- An order in which the rows of a table may finish. -/
def RowsFinish (functions : List RuleFunction) (table : FeatureTable) (order : List Nat) : Prop :=
  Finishes (fun i => voteRow functions (table.row i)) table.size order

/-- The first feature that the functions, one after the other, find missing in a row. -/
def RowLacks (functions : List RuleFunction) (table : FeatureTable) (i : Nat)
    (missing : MissingFeature) : Prop :=
  FailsFirst (fun f => f.apply (table.row i)) functions missing

/-- The votes of functions on the items of a table, row by row and function by function. -/
structure VotedBy (functions : List RuleFunction) (table : FeatureTable) (t : VoteTable) :
    Prop where
  keys_eq : t.keys = table.keys
  functions_eq : t.functions = functions.map RuleFunction.name
  rows : ∃ rows, t.votes.allRows = .ok rows ∧ List.Forall₂
    (fun i votes => List.Forall₂ (fun f v => f.apply (table.row i) = .ok v) functions votes)
    (List.range table.size) rows

theorem rowLacks_iff {i : Nat} {missing : MissingFeature} :
    RowLacks functions table i missing ↔ voteRow functions (table.row i) = .error missing :=
  mapM_eq_error_iff.symm

theorem apply_eq_ofRowVotes : apply functions table = ofRowVotes functions table
    ((List.range table.size).mapM fun i => voteRow functions (table.row i)) := by
  rw [apply]
  cases (List.range table.size).mapM fun i => voteRow functions (table.row i) <;> rfl

theorem ofRowVotes_eq_error_iff {rows : Except MissingFeature (List (List Int))}
    {failure : Failure} : ofRowVotes functions table rows = .error failure ↔
      ∃ missing, rows = .error missing ∧ failure = missing.failure := by
  cases rows with
  | ok rows => exact iff_of_false nofun fun ⟨_, h, _⟩ => nomatch h
  | error missing =>
    constructor
    · intro h
      exact ⟨missing, rfl, (Except.error.inj h).symm⟩
    · rintro ⟨_, h, rfl⟩
      cases h
      rfl

/-- **Row after row, the failure is that of the first vote that fails.** -/
theorem apply_eq_error_iff {failure : Failure} : apply functions table = .error failure ↔
    ∃ missing, FailsFirst (fun cell => cell.2.apply (table.row cell.1))
      (List.range table.size ×ˢ functions) missing ∧ failure = missing.failure := by
  rw [apply_eq_ofRowVotes, ofRowVotes_eq_error_iff]
  exact exists_congr fun _ => and_congr_left fun _ => mapM_mapM_eq_error_iff

/-- **In any order, the failure is that of some row**, and may be that of any. -/
theorem exists_applyInOrder_eq_error_iff {failure : Failure} :
    (∃ order, RowsFinish functions table order ∧
      applyInOrder functions table order = .error failure) ↔
    ∃ i < table.size, ∃ missing, RowLacks functions table i missing ∧
      failure = missing.failure := by
  constructor
  · rintro ⟨order, horder, h⟩
    obtain ⟨missing, hcollect, rfl⟩ := ofRowVotes_eq_error_iff.1 h
    have hrun := collect_eq_error_iff.1 hcollect
    obtain ⟨i, hi, hlacks⟩ := (mapM_eq_error_iff.1 hrun).exists_mem
    exact ⟨i, horder.lt i hi, missing, rowLacks_iff.2 hlacks, rfl⟩
  · rintro ⟨i, hi, missing, hlacks, rfl⟩
    obtain ⟨order, hperm, hcollect⟩ := exists_order_of_error
      (fun i => voteRow functions (table.row i)) hi (rowLacks_iff.1 hlacks)
    exact ⟨order, finishes_of_perm hperm, ofRowVotes_eq_error_iff.2 ⟨missing, hcollect, rfl⟩⟩

/-- **Where every function votes on every row the order makes no difference.** -/
theorem exists_votedBy
    (h : ∀ i < table.size, ∀ f ∈ functions, ∃ v, f.apply (table.row i) = .ok v) :
    ∃ t, VotedBy functions table t ∧ apply functions table = .ok t ∧
      ∀ order, RowsFinish functions table order → applyInOrder functions table order = .ok t := by
  have hrows : ∃ rows,
      (List.range table.size).mapM (fun i => voteRow functions (table.row i)) = .ok rows :=
    exists_mapM_eq_ok_iff.2 fun i hi =>
      exists_mapM_eq_ok_iff.2 fun f hf => h i (List.mem_range.1 hi) f hf
  obtain ⟨rows, hrows⟩ := hrows
  refine ⟨_, ⟨rfl, rfl, rows, ?_, ?_⟩, apply_eq_ok_iff.2 ⟨rows, hrows, rfl⟩, fun order horder => ?_⟩
  · exact Matrix.allRows_ofRowsOf (length_of_voteRows hrows)
  · exact (mapM_eq_ok_iff.1 hrows).imp fun i votes hvotes => mapM_eq_ok_iff.1 hvotes
  · rw [applyInOrder, collect_eq_of_mapM_eq_ok horder hrows]
    rfl

/-- **The order makes no difference exactly where all rows that fail lack the same.** -/
theorem applyInOrder_eq_apply_iff : (∀ order, RowsFinish functions table order →
      applyInOrder functions table order = apply functions table) ↔
    ∀ i < table.size, ∀ j < table.size, ∀ missing missing',
      RowLacks functions table i missing → RowLacks functions table j missing' →
        missing = missing' := by
  constructor
  · -- either row may be the first to fail, so both failures are that of `apply`
    intro h i hi j hj missing missing' hlacks hlacks'
    obtain ⟨order, horder, hfails⟩ :=
      exists_applyInOrder_eq_error_iff.2 ⟨i, hi, missing, hlacks, rfl⟩
    obtain ⟨order', horder', hfails'⟩ :=
      exists_applyInOrder_eq_error_iff.2 ⟨j, hj, missing', hlacks', rfl⟩
    have hsame : missing.failure = missing'.failure := Except.error.inj <| calc
      .error missing.failure = applyInOrder functions table order := hfails.symm
      _ = apply functions table := h order horder
      _ = applyInOrder functions table order' := (h order' horder').symm
      _ = .error missing'.failure := hfails'
    exact congrArg MissingFeature.mk (Failure.missingFeature.inj hsame)
  · intro hsame order horder
    rw [applyInOrder, apply_eq_ofRowVotes]
    cases hrun : (List.range table.size).mapM fun i => voteRow functions (table.row i) with
    | ok rows => rw [collect_eq_of_mapM_eq_ok horder hrun]
    | error missing =>
      obtain ⟨i, hi, hlacks⟩ := (mapM_eq_error_iff.1 hrun).exists_mem
      obtain ⟨j, hj, missing', hlacks', hcollect⟩ := exists_collect_eq_error horder hrun
      rw [hcollect, hsame i (List.mem_range.1 hi) j hj missing missing' (rowLacks_iff.2 hlacks)
        (rowLacks_iff.2 hlacks')]

/-- **Rows voted on side by side.** Where no vote fails the order in which the rows finish
makes no difference: the votes stand row by row and function by function. Where one fails
the failure is, in the order of the rows, that of the first vote that fails, but in the
orders there are it is that of any row that fails. So what comes out is the same in every
order exactly where all rows that fail lack the same feature. -/
theorem rows_in_any_order (functions : List RuleFunction) (table : FeatureTable) :
    ((∀ i < table.size, ∀ f ∈ functions, ∃ v, f.apply (table.row i) = .ok v) →
      ∃ t, VotedBy functions table t ∧ apply functions table = .ok t ∧
        ∀ order, RowsFinish functions table order →
          applyInOrder functions table order = .ok t) ∧
    (∀ failure, apply functions table = .error failure ↔
      ∃ missing, FailsFirst (fun cell => cell.2.apply (table.row cell.1))
        (List.range table.size ×ˢ functions) missing ∧ failure = missing.failure) ∧
    (∀ failure, (∃ order, RowsFinish functions table order ∧
        applyInOrder functions table order = .error failure) ↔
      ∃ i < table.size, ∃ missing, RowLacks functions table i missing ∧
        failure = missing.failure) ∧
    ((∀ order, RowsFinish functions table order →
        applyInOrder functions table order = apply functions table) ↔
      ∀ i < table.size, ∀ j < table.size, ∀ missing missing',
        RowLacks functions table i missing → RowLacks functions table j missing' →
          missing = missing') :=
  ⟨exists_votedBy, fun _ => apply_eq_error_iff, fun _ => exists_applyInOrder_eq_error_iff,
    applyInOrder_eq_apply_iff⟩

/-- A rule is compiled for three features and applied where two of them are missing. The
first row is settled by one of these and the second by the other: each is reported where
its row is the first to finish. -/
theorem not_rows_in_any_order :
    let r : Rule := ⟨"r", none, "flag and noise > 0 or mean > 0", 1, 0⟩
    let full : FeatureTable :=
      ⟨["x"], [⟨"flag", [1]⟩, ⟨"noise", [1]⟩, ⟨"mean", [1]⟩], none⟩
    let lacking : FeatureTable := ⟨["x", "y"], [⟨"flag", [1, 0]⟩], none⟩
    FeatureTable.new full.keys full.columns = .ok full ∧
      FeatureTable.new lacking.keys lacking.columns = .ok lacking ∧
      ∃ f, RuleFunction.compile r ⟨["normal", "noisy"]⟩ full = .ok f ∧
        apply [f] lacking = .error (.missingFeature "noise") ∧
        RowsFinish [f] lacking [0, 1] ∧
        applyInOrder [f] lacking [0, 1] = .error (.missingFeature "noise") ∧
        RowsFinish [f] lacking [1, 0] ∧
        applyInOrder [f] lacking [1, 0] = .error (.missingFeature "mean") := by
  intro r full lacking
  have hfull : FeatureTable.new full.keys full.columns = .ok full := by decide +kernel
  have hlacking : FeatureTable.new lacking.keys lacking.columns = .ok lacking := by decide +kernel
  have hcheck : (RuleFunction.compile r ⟨["normal", "noisy"]⟩ full).toOption.any (fun f =>
      decide (apply [f] lacking = .error (.missingFeature "noise") ∧
        applyInOrder [f] lacking [0, 1] = .error (.missingFeature "noise") ∧
        applyInOrder [f] lacking [1, 0] = .error (.missingFeature "mean"))) = true := by
    decide +kernel
  obtain ⟨f, hf, houtcomes⟩ := exists_of_any hcheck
  obtain ⟨happly, hfirst, hsecond⟩ := of_decide_eq_true houtcomes
  have hfinish : ∀ order, order.Perm (List.range 2) → RowsFinish [f] lacking order :=
    fun _ horder => finishes_of_perm horder
  exact ⟨hfull, hlacking, f, hf, happly, hfinish _ (.refl _), hfirst,
    hfinish _ (.swap 0 1 []), hsecond⟩

end VoteTable

end RuleVote
