import RuleVote.Label.Labeler
import RuleVote.Proofs.Label.Compilation
import RuleVote.Proofs.Rule.Refusal
/-!
# Compiling the rules of a labeler

A rule that cannot be compiled is left out for itself alone
(`RuleFunction.refusesRule_compile`). So compilation never stops early, and
every selected rule is either used or left out, both in the order of the
rules (`Labeler.createFunctions_eq`).
-/

namespace RuleVote

/-! ## One rule -/

theorem refusesRule_mapM {α β : Type} {f : α → Except Failure β} (hf : ∀ a, RefusesRule (f a)) :
    ∀ as : List α, RefusesRule (as.mapM f)
  | [] => refusesRule_ok _
  | a :: as => by
    rw [List.mapM_cons]
    exact (hf a).bind fun _ => (refusesRule_mapM hf as).bind fun _ => refusesRule_ok _

/-- A program is refused as one of its targets is. -/
theorem Statement.refusesRule_resolveBlock {τ υ : Type} {f : τ → Except Failure υ}
    (hf : ∀ t, RefusesRule (f t)) (b : Block τ) : RefusesRule (resolveBlock f b) := by
  intro failure h
  have htargets := map_resolveBlock f b
  rw [h] at htargets
  exact refusesRule_mapM hf (blockTargets b) failure htargets.symm

namespace RuleFunction

variable {r : Rule} {labels : LabelSet} {table : FeatureTable}

theorem refusesRule_resolveIndex (i : Int) : RefusesRule (resolveIndex r labels i) := by
  rw [resolveIndex]
  split_ifs
  · exact refusesRule_ok _
  · exact refusesRule_error rfl

theorem refusesRule_resolveTarget (t : ReturnTarget) : RefusesRule (resolveTarget r labels t) := by
  cases t with
  | index i => exact refusesRule_resolveIndex i
  | label code =>
    rw [resolveTarget]
    cases labels.indexOfCode? code with
    | none => exact refusesRule_error rfl
    | some v => exact refusesRule_ok v

theorem refusesRule_resolve (body : RuleBody) : RefusesRule (resolve r labels body) := by
  cases body with
  | expression condition =>
    rw [resolve]
    cases r.isFreeForm with
    | true => exact refusesRule_error rfl
    | false =>
      refine (refusesRule_resolveIndex r.whenTrue).bind fun _ => ?_
      exact (refusesRule_resolveIndex r.whenFalse).bind fun _ => refusesRule_ok _
  | program block =>
    rw [resolve]
    cases r.isFreeForm with
    | false => exact refusesRule_error rfl
    | true =>
      cases (Statement.blockTargets block).isEmpty with
      | true => exact refusesRule_error rfl
      | false =>
        exact (Statement.refusesRule_resolveBlock refusesRule_resolveTarget block).bind
          fun _ => refusesRule_ok _

/-- **A rule that cannot be compiled is refused for itself alone.** -/
theorem refusesRule_compile (r : Rule) (labels : LabelSet) (table : FeatureTable) :
    RefusesRule (compile r labels table) := by
  refine (refusesRule_parseRule none r.expression).bind fun parsed => ?_
  rw [build]
  cases parsed.features.toList.find? fun name => !table.hasColumn name with
  | some name => exact refusesRule_error rfl
  | none => exact (refusesRule_resolve parsed.body).bind fun _ => refusesRule_ok _

/-- The function that a rule becomes, if it does. -/
def function? (labels : LabelSet) (table : FeatureTable) (r : Rule) : Option RuleFunction :=
  (compile r labels table).toOption

/-- Whether a rule becomes a function. -/
def compiles (labels : LabelSet) (table : FeatureTable) (r : Rule) : Bool :=
  (function? labels table r).isSome

/-- Why a rule becomes none. -/
def exclusion? (labels : LabelSet) (table : FeatureTable) (r : Rule) : Option ExcludedRule :=
  match compile r labels table with
  | .ok _ => none
  | .error f => some ⟨r.id, f.text⟩

theorem ruleId_of_compile {f : RuleFunction} (h : compile r labels table = .ok f) :
    f.ruleId = r.id := by
  obtain ⟨body, decision, -, -, -, rfl⟩ := compile_eq_ok_iff.1 h
  rfl

theorem name_of_compile {f : RuleFunction} (h : compile r labels table = .ok f) :
    f.name = r.functionName := by
  obtain ⟨body, decision, -, -, -, rfl⟩ := compile_eq_ok_iff.1 h
  rfl

/-- A rule that compiles is its function, and not left out. -/
theorem sorting_of_compile {f : RuleFunction} (h : compile r labels table = .ok f) :
    function? labels table r = some f ∧ compiles labels table r = true ∧
      exclusion? labels table r = none := by
  have hsome : function? labels table r = some f := by
    rw [function?, h]
    rfl
  refine ⟨hsome, ?_, ?_⟩
  · rw [compiles, hsome]
    rfl
  · rw [exclusion?, h]

/-- A rule that does not compile is left out with its reason. -/
theorem sorting_of_failure {failure : Failure} (h : compile r labels table = .error failure) :
    function? labels table r = none ∧ compiles labels table r = false ∧
      exclusion? labels table r = some ⟨r.id, failure.text⟩ := by
  have hnone : function? labels table r = none := by
    rw [function?, h]
    rfl
  refine ⟨hnone, ?_, ?_⟩
  · rw [compiles, hnone]
    rfl
  · rw [exclusion?, h]

theorem exists_compile_of_mem_functions {rules : List Rule} {f : RuleFunction}
    (hf : f ∈ rules.filterMap (function? labels table)) :
    ∃ r ∈ rules, compile r labels table = .ok f := by
  obtain ⟨r, hr, hsome⟩ := List.mem_filterMap.1 hf
  refine ⟨r, hr, ?_⟩
  cases hcompile : compile r labels table with
  | error failure =>
    rw [(sorting_of_failure hcompile).1] at hsome
    cases hsome
  | ok f' =>
    rw [(sorting_of_compile hcompile).1] at hsome
    exact congrArg Except.ok (Option.some.inj hsome)

/-- What functions have of their rules, they have of the rules that became
one. -/
theorem map_functions {β : Type} {g : RuleFunction → β} {h : Rule → β}
    (hcompile : ∀ r f, compile r labels table = .ok f → g f = h r) (rules : List Rule) :
    (rules.filterMap (function? labels table)).map g =
      (rules.filter (compiles labels table)).map h := by
  induction rules with
  | nil => rfl
  | cons r rules ih =>
    cases hr : compile r labels table with
    | error failure =>
      obtain ⟨hnone, hfalse, -⟩ := sorting_of_failure hr
      rw [List.filterMap_cons_none hnone, List.filter_cons_of_neg (ne_true_of_eq_false hfalse), ih]
    | ok f =>
      obtain ⟨hsome, htrue, -⟩ := sorting_of_compile hr
      rw [List.filterMap_cons_some hsome, List.filter_cons_of_pos htrue, List.map_cons,
        List.map_cons, ih, hcompile r f hr]

/-- The identifiers of functions are those of the rules that became one. -/
theorem map_ruleId_functions (rules : List Rule) :
    (rules.filterMap (function? labels table)).map ruleId =
      (rules.filter (compiles labels table)).map Rule.id :=
  map_functions (fun _ _ => ruleId_of_compile) rules

/-- The names of functions are those of the rules that became one. -/
theorem map_name_functions (rules : List Rule) :
    (rules.filterMap (function? labels table)).map name =
      (rules.filter (compiles labels table)).map Rule.functionName :=
  map_functions (fun _ _ => name_of_compile) rules

/-- The identifiers of excluded rules are those of the rules that became
none. -/
theorem map_ruleId_exclusions (rules : List Rule) :
    (rules.filterMap (exclusion? labels table)).map ExcludedRule.ruleId =
      (rules.filter fun r => !compiles labels table r).map Rule.id := by
  induction rules with
  | nil => rfl
  | cons r rules ih =>
    cases hcompile : compile r labels table with
    | error failure =>
      obtain ⟨-, hfalse, hsome⟩ := sorting_of_failure hcompile
      simp only [List.filterMap_cons_some hsome, List.filter_cons, hfalse, Bool.not_false,
        if_true, List.map_cons, ih]
    | ok f =>
      obtain ⟨-, htrue, hnone⟩ := sorting_of_compile hcompile
      simp only [List.filterMap_cons_none hnone, List.filter_cons, htrue, Bool.not_true,
        Bool.false_eq_true, if_false, ih]

end RuleFunction

/-! ## All rules -/

namespace Labeler

open RuleFunction

/-- The rules to be used. -/
def selected (l : Labeler) : List Rule := l.rules.filter l.isSelected

/-- **Compilation goes through all rules**, each of which ends up in a function
or among the excluded ones. -/
theorem compileAll_eq (rules : List Rule) : ∀ l : Labeler, l.compileAll rules =
    (.ok (), { l with
      functions := l.functions ++ rules.filterMap (function? l.labels l.table)
      usedRules := l.usedRules ++ (rules.filter (compiles l.labels l.table)).map Rule.id
      excluded := l.excluded ++ rules.filterMap (exclusion? l.labels l.table) }) := by
  induction rules with
  | nil =>
    intro l
    simp only [compileAll, List.filterMap_nil, List.filter_nil, List.map_nil, List.append_nil]
  | cons r rules ih =>
    intro l
    rw [compileAll]
    cases hcompile : compile r l.labels l.table with
    | error failure =>
      obtain ⟨hnone, hfalse, hsome⟩ := sorting_of_failure hcompile
      dsimp only
      rw [if_pos (refusesRule_compile r l.labels l.table failure hcompile), ih]
      simp only [List.filterMap_cons_none hnone, List.filterMap_cons_some hsome,
        List.filter_cons_of_neg (ne_true_of_eq_false hfalse), List.append_assoc,
        List.singleton_append]
    | ok f =>
      obtain ⟨hsome, htrue, hnone⟩ := sorting_of_compile hcompile
      dsimp only
      rw [ih]
      simp only [List.filterMap_cons_some hsome, List.filterMap_cons_none hnone,
        List.filter_cons_of_pos htrue, List.map_cons, List.append_assoc, List.singleton_append]

/-- The labeler at its start with its selected rules compiled. -/
def compiled (l : Labeler) : Labeler :=
  { l.reset with
    functions := l.selected.filterMap (function? l.labels l.table)
    usedRules := (l.selected.filter (compiles l.labels l.table)).map Rule.id
    excluded := l.selected.filterMap (exclusion? l.labels l.table) }

/-- **What creation does**: it compiles every selected rule that can be
compiled, and fails where these are too few. -/
theorem createFunctions_eq (l : Labeler) : l.createFunctions =
    if l.compiled.functions.length < minFunctions then
      (.error (.tooFewRules l.compiled.functions.length minFunctions), l.compiled)
    else (.ok (), { l.compiled with stage := .functionsBuilt }) := by
  rw [createFunctions, compileAll_eq]
  rfl

end Labeler

end RuleVote
