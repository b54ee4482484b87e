import RuleVote.Label.RuleFunction
import RuleVote.Proofs.Label.CodeNames
import RuleVote.Proofs.Rule.Resolution
/-!
# What a compiled rule does

A rule compiles when its text parses, the features in it are columns of the
table, and the outcomes it names are known (`compile_eq_ok_iff`,
`exists_resolve_program_iff`). What it then votes on a row is what its text
says of that row: the outcome that belongs to the truth of the condition, or
what the return stands for that its program reaches
(`compile_preserves_meaning`). The row need not come from the table.
-/

namespace RuleVote

namespace RuleFunction

variable {r : Rule} {labels : LabelSet} {table : FeatureTable}

/-! ## When a rule compiles -/

theorem resolveIndex_eq_ok_iff {i v : Int} :
    resolveIndex r labels i = .ok v ↔ labels.isOutcome i = true ∧ v = i := by
  rw [resolveIndex]
  split_ifs with h
  · exact ⟨fun heq => ⟨h, (Except.ok.inj heq).symm⟩, fun heq => congrArg Except.ok heq.2.symm⟩
  · constructor
    · intro heq
      cases heq
    · rintro ⟨hi, -⟩
      exact absurd hi h

/-- **A target is resolved to what it stands for**, if it is known. -/
theorem resolveTarget_eq_ok_iff (hlabels : labels.WellNamed) {t : ReturnTarget} {v : Int} :
    resolveTarget r labels t = .ok v ↔ ¬ labels.Unknown t ∧ labels.Means (some t) v := by
  cases t with
  | index i =>
    rw [resolveTarget, resolveIndex_eq_ok_iff, LabelSet.isOutcome_iff, LabelSet.Unknown]
    refine and_congr ?_ Iff.rfl
    omega
  | label code =>
    have hsome : (∃ w, labels.indexOfCode? code = some w) ↔ ¬ labels.Unknown (.label code) :=
      LabelSet.exists_indexOfCode?_iff
    have hmeans : labels.indexOfCode? code = some v ↔ labels.Means (some (.label code)) v :=
      LabelSet.indexOfCode?_eq_some_iff hlabels
    rw [resolveTarget, ← hsome, ← hmeans]
    cases labels.indexOfCode? code with
    | none =>
      constructor
      · intro h
        cases h
      · rintro ⟨-, h⟩
        cases h
    | some w =>
      constructor
      · intro h
        cases h
        exact ⟨⟨v, rfl⟩, rfl⟩
      · rintro ⟨-, h⟩
        cases h
        rfl

theorem exists_resolveTarget_iff {t : ReturnTarget} :
    (∃ v, resolveTarget r labels t = .ok v) ↔ ¬ labels.Unknown t := by
  cases t with
  | index i =>
    simp only [resolveTarget, resolveIndex_eq_ok_iff, exists_and_left, exists_eq, and_true,
      LabelSet.isOutcome_iff, LabelSet.Unknown]
    omega
  | label code =>
    rw [← LabelSet.exists_indexOfCode?_iff, resolveTarget]
    cases labels.indexOfCode? code with
    | none => constructor <;> rintro ⟨_, h⟩ <;> cases h
    | some v => exact ⟨fun _ => ⟨v, rfl⟩, fun _ => ⟨v, rfl⟩⟩

/-- What a target is resolved to is an outcome. -/
theorem isOutcome_of_resolveTarget {t : ReturnTarget} {v : Int}
    (h : resolveTarget r labels t = .ok v) : labels.isOutcome v = true := by
  cases t with
  | index i =>
    obtain ⟨hi, rfl⟩ := resolveIndex_eq_ok_iff.1 h
    exact hi
  | label code =>
    rw [resolveTarget] at h
    split at h
    · next v' hv =>
      cases h
      exact LabelSet.isOutcome_of_indexOfCode? hv
    · cases h

theorem resolve_expression_eq_ok_iff {condition : Expr} {d : Decision} :
    resolve r labels (.expression condition) = .ok d ↔
      r.isFreeForm = false ∧ labels.isOutcome r.whenTrue = true ∧
        labels.isOutcome r.whenFalse = true ∧ d = .twoWay condition r.whenTrue r.whenFalse := by
  rw [resolve]
  cases r.isFreeForm with
  | true =>
    constructor
    · intro h
      cases h
    · rintro ⟨h, -⟩
      cases h
  | false =>
    constructor
    · intro h
      obtain ⟨a, ha, h⟩ := bind_eq_ok_iff.1 h
      obtain ⟨b, hb, h⟩ := bind_eq_ok_iff.1 h
      obtain ⟨htrue, rfl⟩ := resolveIndex_eq_ok_iff.1 ha
      obtain ⟨hfalse, rfl⟩ := resolveIndex_eq_ok_iff.1 hb
      cases h
      exact ⟨rfl, htrue, hfalse, rfl⟩
    · rintro ⟨-, ha, hb, rfl⟩
      exact bind_eq_ok_iff.2 ⟨_, resolveIndex_eq_ok_iff.2 ⟨ha, rfl⟩,
        bind_eq_ok_iff.2 ⟨_, resolveIndex_eq_ok_iff.2 ⟨hb, rfl⟩, rfl⟩⟩

theorem resolve_program_eq_ok_iff {block : Block ReturnTarget} {d : Decision} :
    resolve r labels (.program block) = .ok d ↔
      r.isFreeForm = true ∧ Statement.blockTargets block ≠ [] ∧
        ∃ b, Statement.resolveBlock (resolveTarget r labels) block = .ok b ∧ d = .program b := by
  rw [resolve]
  cases r.isFreeForm with
  | false =>
    constructor
    · intro h
      cases h
    · rintro ⟨h, -⟩
      cases h
  | true =>
    rw [if_neg (by simp)]
    by_cases hnone : Statement.blockTargets block = []
    · rw [hnone]
      constructor
      · intro h
        cases h
      · rintro ⟨-, h, -⟩
        exact absurd rfl h
    · rw [if_neg (by simpa using hnone)]
      constructor
      · intro h
        obtain ⟨b, hb, h⟩ := bind_eq_ok_iff.1 h
        cases h
        exact ⟨rfl, hnone, b, hb, rfl⟩
      · rintro ⟨-, -, b, hb, rfl⟩
        exact bind_eq_ok_iff.2 ⟨b, hb, rfl⟩

/-- **When a rule compiles, and to what.** -/
theorem compile_eq_ok_iff {f : RuleFunction} :
    compile r labels table = .ok f ↔ ∃ body decision, parseBody r.expression = .ok body ∧
      (∀ name ∈ body.occurrences, table.hasColumn name = true) ∧
      resolve r labels body = .ok decision ∧
      f = ⟨r.id, r.functionName, renderBody none body, body.features, decision⟩ := by
  have hfeatures : ∀ body : RuleBody,
      (body.features.toList.find? fun name => !table.hasColumn name) = none ↔
        ∀ name ∈ body.occurrences, table.hasColumn name = true := by
    intro body
    rw [List.find?_eq_none]
    simp [RuleBody.features]
  rw [compile, bind_eq_ok_iff]
  constructor
  · rintro ⟨parsed, hparsed, h⟩
    obtain ⟨body, hbody, hparsed⟩ := bind_eq_ok_iff.1 hparsed
    cases hparsed
    rw [build] at h
    split at h
    · cases h
    · next hfound =>
      obtain ⟨_, -, h⟩ := bind_eq_ok_iff.1 h
      obtain ⟨decision, hdecision, h⟩ := bind_eq_ok_iff.1 h
      cases h
      exact ⟨body, decision, hbody, (hfeatures body).1 hfound, hdecision, rfl⟩
  · rintro ⟨body, decision, hbody, hcolumns, hdecision, rfl⟩
    refine ⟨⟨body, renderBody none body, body.features⟩, bind_eq_ok_iff.2 ⟨body, hbody, rfl⟩, ?_⟩
    rw [build, (hfeatures body).2 hcolumns]
    exact bind_eq_ok_iff.2 ⟨(), rfl, bind_eq_ok_iff.2 ⟨decision, hdecision, rfl⟩⟩

theorem exists_compile_iff :
    (∃ f, compile r labels table = .ok f) ↔ ∃ body, parseBody r.expression = .ok body ∧
      (∀ name ∈ body.occurrences, table.hasColumn name = true) ∧
      ∃ decision, resolve r labels body = .ok decision := by
  simp only [compile_eq_ok_iff]
  constructor
  · rintro ⟨f, body, decision, hbody, hcolumns, hdecision, -⟩
    exact ⟨body, hbody, hcolumns, decision, hdecision⟩
  · rintro ⟨body, hbody, hcolumns, decision, hdecision⟩
    exact ⟨_, body, decision, hbody, hcolumns, hdecision, rfl⟩

/-- **A parsed program is compiled unless** it reads a feature that the table
does not have, returns nowhere, or names an unknown outcome somewhere. -/
theorem exists_compile_program_iff {block : Block ReturnTarget}
    (hfree : r.isFreeForm = true) (hbody : parseBody r.expression = .ok (.program block)) :
    (∃ f, compile r labels table = .ok f) ↔
      (∀ name ∈ Statement.blockOccurrences block, table.hasColumn name = true) ∧
        Statement.blockTargets block ≠ [] ∧
        ∀ t ∈ Statement.blockTargets block, ¬ labels.Unknown t := by
  have hresolve : (∃ d, resolve r labels (.program block) = .ok d) ↔
      Statement.blockTargets block ≠ [] ∧
        ∀ t ∈ Statement.blockTargets block, ¬ labels.Unknown t := by
    simp only [resolve_program_eq_ok_iff, hfree, true_and, exists_and_left]
    refine and_congr_right fun _ => ?_
    have hall := Statement.exists_resolveBlock_iff (f := resolveTarget r labels) (b := block)
    simp only [exists_resolveTarget_iff] at hall
    rw [← hall]
    constructor
    · rintro ⟨_, b, hb, -⟩
      exact ⟨b, hb⟩
    · rintro ⟨b, hb⟩
      exact ⟨_, b, hb, rfl⟩
  rw [exists_compile_iff]
  constructor
  · rintro ⟨body, hbody', hcolumns, hdecision⟩
    rw [hbody] at hbody'
    cases hbody'
    exact ⟨hcolumns, hresolve.1 hdecision⟩
  · rintro ⟨hcolumns, htargets⟩
    exact ⟨_, hbody, hcolumns, hresolve.2 htargets⟩

/-! ## What it does -/

/-- A function does on every row what a body says: it votes what the return
stands for that a program reaches, or the outcome that belongs to the truth of
a condition. Where the body cannot be evaluated, it fails in the same way. -/
def Follows (f : RuleFunction) (r : Rule) (labels : LabelSet) : RuleBody → Prop
  | .program block => ∀ row,
    (∀ missing, f.apply row = .error missing ↔ Statement.runBlock row block = .error missing) ∧
      ∀ v, f.apply row = .ok v ↔
        ∃ reached, Statement.runBlock row block = .ok reached ∧ labels.Means reached v
  | .expression condition => ∀ row,
    f.apply row = (condition.eval row).map fun x => if isTrue x then r.whenTrue else r.whenFalse

/-- Beside a run of a program, its resolved form votes for what is reached. -/
theorem vote_iff_of_simulates (hlabels : labels.WellNamed)
    {x : Except MissingFeature (Option ReturnTarget)} {x' : Except MissingFeature (Option Int)}
    (h : Statement.Simulates (resolveTarget r labels) x x') {v : Int} :
    (x'.map fun reached => reached.getD abstain) = .ok v ↔
      ∃ reached, x = .ok reached ∧ labels.Means reached v := by
  cases h with
  | fault missing =>
    constructor
    · intro heq
      cases heq
    · rintro ⟨reached, heq, -⟩
      cases heq
  | passes =>
    constructor
    · intro heq
      cases heq
      exact ⟨none, rfl, rfl⟩
    · rintro ⟨reached, heq, hv⟩
      cases heq
      exact congrArg Except.ok hv.symm
  | reaches ht =>
    have hmeans := ((resolveTarget_eq_ok_iff hlabels).1 ht).2
    constructor
    · intro heq
      cases heq
      exact ⟨_, rfl, hmeans⟩
    · rintro ⟨reached, heq, hv⟩
      cases heq
      exact congrArg Except.ok (hmeans.unique hv)

/-- **A compiled rule does what its text says.** -/
theorem follows_of_compile (hlabels : labels.WellNamed) {f : RuleFunction}
    (h : compile r labels table = .ok f) :
    ∃ body, parseBody r.expression = .ok body ∧ r.isFreeForm = body.isProgram ∧
      f.Follows r labels body := by
  obtain ⟨body, decision, hbody, -, hdecision, rfl⟩ := compile_eq_ok_iff.1 h
  refine ⟨body, hbody, ?_⟩
  cases body with
  | expression condition =>
    obtain ⟨hfree, -, -, rfl⟩ := resolve_expression_eq_ok_iff.1 hdecision
    refine ⟨hfree, fun row => ?_⟩
    rw [apply]
    dsimp only
    rw [Expr.holds]
    cases condition.eval row <;> rfl
  | program block =>
    obtain ⟨hfree, -, b, hb, rfl⟩ := resolve_program_eq_ok_iff.1 hdecision
    refine ⟨hfree, fun row => ?_⟩
    have hrun := Statement.resolveBlock_simulates row hb
    have happly : apply ⟨r.id, r.functionName, renderBody none (.program block),
        RuleBody.features (.program block), .program b⟩ row =
          (Statement.runBlock row b).map fun reached => reached.getD abstain := by
      rw [apply]
      dsimp only
      cases Statement.runBlock row b <;> rfl
    rw [happly]
    exact ⟨fun missing => hrun.error_iff _, fun v => vote_iff_of_simulates hlabels hrun⟩

/-- The targets that a body returns; a condition has none. -/
def targetsOfBody : RuleBody → List ReturnTarget
  | .expression _ => []
  | .program block => Statement.blockTargets block

/-- **Compilation preserves the meaning of the text**: a rule that compiles is
followed by its function on every row, and a program that parses fails to
compile only for a feature that the table does not have, for returning
nowhere, or for a return that names no outcome, reached or not. -/
theorem compile_preserves_meaning {names : List String}
    (hlabels : LabelSet.ofList names = .ok labels) (r : Rule) (table : FeatureTable) :
    (∀ f, compile r labels table = .ok f →
      ∃ body, parseBody r.expression = .ok body ∧ r.isFreeForm = body.isProgram ∧
        f.Follows r labels body) ∧
    ∀ block, r.isFreeForm = true → parseBody r.expression = .ok (.program block) →
      ((∃ failure, compile r labels table = .error failure) ↔
        (∃ name ∈ Statement.blockOccurrences block, table.hasColumn name = false) ∨
          Statement.blockTargets block = [] ∨
            ∃ t ∈ Statement.blockTargets block, labels.Unknown t) := by
  have hnamed := LabelSet.wellNamed_of_ofList hlabels
  refine ⟨fun f h => follows_of_compile hnamed h, fun block hfree hbody => ?_⟩
  have hfails : (∃ failure, compile r labels table = .error failure) ↔
      ¬ ∃ f, compile r labels table = .ok f := by
    cases compile r labels table with
    | error failure =>
      refine ⟨fun _ hok => ?_, fun _ => ⟨failure, rfl⟩⟩
      obtain ⟨f, hf⟩ := hok
      cases hf
    | ok f =>
      refine ⟨fun hfail => ?_, fun hnone => absurd ⟨f, rfl⟩ hnone⟩
      obtain ⟨failure, hfailure⟩ := hfail
      cases hfailure
  rw [hfails, exists_compile_program_iff hfree hbody]
  simp only [not_and_or, not_forall, ne_eq, not_not, Bool.not_eq_true, exists_prop]

/-- A program with a conditional inside another one, and a program with an
unknown label behind the return that every row reaches. -/
theorem compile_preserves_meaning_nested :
    let labels : LabelSet := ⟨["normal", "high noise", "gaps"]⟩
    let table : FeatureTable := ⟨["a", "b"], [⟨"noise", [0.25, 0.75]⟩, ⟨"gaps", [0, 4]⟩], none⟩
    let nested : Rule := ⟨"nested", none,
      "if noise > 0.5:\n\tif gaps: return HIGH_NOISE\n\telse: return 2\nreturn ABSTAIN",
      freeFormMark, freeFormMark⟩
    let misnamed : Rule := ⟨"misnamed", none, "return 1\nreturn QUIET", freeFormMark, freeFormMark⟩
    LabelSet.ofList labels.labels = .ok labels ∧
      (∃ f body, compile nested labels table = .ok f ∧ parseBody nested.expression = .ok body ∧
        nested.isFreeForm = body.isProgram ∧ f.Follows nested labels body) ∧
      ∃ block, parseBody misnamed.expression = .ok (.program block) ∧
        (∃ t ∈ Statement.blockTargets block, labels.Unknown t) ∧
        ∃ failure, compile misnamed labels table = .error failure := by
  intro labels table nested misnamed
  have hlabels : LabelSet.ofList labels.labels = .ok labels := by decide +kernel
  have hpreserves := fun r => compile_preserves_meaning hlabels r table
  refine ⟨hlabels, ?_, ?_⟩
  · have hsome : (compile nested labels table).toOption.isSome = true := by decide +kernel
    cases hf : compile nested labels table with
    | error failure => rw [hf] at hsome; cases hsome
    | ok f =>
      obtain ⟨body, hbody, hfree, hfollows⟩ := (hpreserves nested).1 f hf
      exact ⟨f, body, rfl, hbody, hfree, hfollows⟩
  · have htargets : (parseBody misnamed.expression).toOption.map targetsOfBody =
        some [.index 1, .label "QUIET"] := by decide +kernel
    have hunknown : labels.Unknown (.label "QUIET") := by
      constructor <;> decide +kernel
    cases hparse : parseBody misnamed.expression with
    | error failure =>
      rw [hparse] at htargets
      cases htargets
    | ok body =>
      rw [hparse] at htargets
      have hbody := Option.some.inj htargets
      cases body with
      | expression condition => cases hbody
      | program block =>
        have hmem : ReturnTarget.label "QUIET" ∈ Statement.blockTargets block := by
          rw [show Statement.blockTargets block = _ from hbody]
          decide
        exact ⟨block, rfl, ⟨_, hmem, hunknown⟩,
          ((hpreserves misnamed).2 block (by decide) hparse).2 (.inr (.inr ⟨_, hmem, hunknown⟩))⟩

end RuleFunction

end RuleVote
