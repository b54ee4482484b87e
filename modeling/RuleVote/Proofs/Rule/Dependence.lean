import RuleVote.Proofs.Rule.Evaluation
import RuleVote.Proofs.Rule.Resolution
/-!
# What a rule reads

The features of a body are those that are mentioned in it, at any depth
(`RuleBody.mem_features_iff`), and nothing else of a row makes a difference: on
two rows that agree on them an expression has the same value or fails in the
same way, although short circuits decide row by row which features are read at
all (`Expr.eval_congr`). The same holds of the runs of a program
(`Statement.runBlock_congr`), whatever its targets are resolved to
(`RuleBody.reads_only_features`).
-/

namespace RuleVote

/-! ## Features that are mentioned -/

/-- A feature is mentioned in an expression. -/
inductive Expr.Mentions (name : String) : Expr → Prop
  | feature : Mentions name (.feature name)
  | first {first : Expr} {links : List (Comparator × Expr)} (h : Mentions name first) :
      Mentions name (.comparison first links)
  | link {first : Expr} {links : List (Comparator × Expr)} {op : Comparator} {right : Expr}
      (hlink : (op, right) ∈ links) (h : Mentions name right) :
      Mentions name (.comparison first links)
  | operand {op : Connective} {operands : List Expr} {operand : Expr}
      (hoperand : operand ∈ operands) (h : Mentions name operand) :
      Mentions name (.connected op operands)
  | unary {op : UnaryOperator} {operand : Expr} (h : Mentions name operand) :
      Mentions name (.unary op operand)

/-- A feature is mentioned in a condition somewhere in a statement. -/
inductive Statement.Mentions {τ : Type} (name : String) : Statement τ → Prop
  | condition {branches : List (Expr × Block τ)} {otherwise : Option (Block τ)}
      {condition : Expr} {body : Block τ} (hbranch : (condition, body) ∈ branches)
      (h : condition.Mentions name) : Mentions name (.conditional branches otherwise)
  | body {branches : List (Expr × Block τ)} {otherwise : Option (Block τ)}
      {condition : Expr} {body : Block τ} {s : Statement τ}
      (hbranch : (condition, body) ∈ branches) (hs : s ∈ body) (h : Mentions name s) :
      Mentions name (.conditional branches otherwise)
  | otherwise {branches : List (Expr × Block τ)} {body : Block τ} {s : Statement τ}
      (hs : s ∈ body) (h : Mentions name s) : Mentions name (.conditional branches (some body))

/-- A feature is mentioned in the body of a rule. -/
def RuleBody.Mentions (name : String) : RuleBody → Prop
  | .expression condition => condition.Mentions name
  | .program block => ∃ s ∈ block, s.Mentions name

variable {name : String}

namespace Expr

mutual

/-- **A name that occurs is mentioned**: by recursion on the expression, with its links
and operands below. -/
theorem mentions_of_mem : ∀ e : Expr, name ∈ e.occurrences → e.Mentions name
  | .literal _, h => absurd h List.not_mem_nil
  | .feature _, h => List.mem_singleton.1 h ▸ .feature
  | .comparison first links, h => by
    rcases List.mem_append.1 h with h | h
    · exact .first (mentions_of_mem first h)
    · obtain ⟨link, hlink, h⟩ := exists_link_of_mem links h
      exact .link hlink h
  | .connected _ operands, h => by
    obtain ⟨operand, hoperand, h⟩ := exists_operand_of_mem operands h
    exact .operand hoperand h
  | .unary _ operand, h => .unary (mentions_of_mem operand h)

theorem exists_link_of_mem : ∀ links : List (Comparator × Expr),
    name ∈ linkOccurrences links → ∃ link ∈ links, link.2.Mentions name
  | [], h => absurd h List.not_mem_nil
  | (op, right) :: links, h => by
    rcases List.mem_append.1 h with h | h
    · exact ⟨(op, right), List.mem_cons_self, mentions_of_mem right h⟩
    · obtain ⟨link, hlink, h⟩ := exists_link_of_mem links h
      exact ⟨link, List.mem_cons_of_mem _ hlink, h⟩

theorem exists_operand_of_mem : ∀ operands : List Expr,
    name ∈ operandOccurrences operands → ∃ operand ∈ operands, operand.Mentions name
  | [], h => absurd h List.not_mem_nil
  | operand :: operands, h => by
    rcases List.mem_append.1 h with h | h
    · exact ⟨operand, List.mem_cons_self, mentions_of_mem operand h⟩
    · obtain ⟨operand', hoperand, h⟩ := exists_operand_of_mem operands h
      exact ⟨operand', List.mem_cons_of_mem _ hoperand, h⟩

end

/-- What occurs in links is what occurs in their operands, one after the other. -/
theorem linkOccurrences_eq_flatMap (links : List (Comparator × Expr)) :
    linkOccurrences links = links.flatMap fun link => link.2.occurrences := by
  induction links with
  | nil => rfl
  | cons link links ih => rw [linkOccurrences, ih, List.flatMap_cons]

theorem operandOccurrences_eq_flatMap (operands : List Expr) :
    operandOccurrences operands = operands.flatMap occurrences := by
  induction operands with
  | nil => rfl
  | cons operand operands ih => rw [operandOccurrences, ih, List.flatMap_cons]

/-- **What occurs in an expression is what it mentions.** -/
theorem mem_occurrences_iff {e : Expr} : name ∈ e.occurrences ↔ e.Mentions name := by
  refine ⟨mentions_of_mem e, fun h => ?_⟩
  induction h with
  | feature => exact List.mem_singleton_self name
  | first _ ih => exact List.mem_append_left _ ih
  | link hlink _ ih =>
    refine List.mem_append_right _ ?_
    rw [linkOccurrences_eq_flatMap]
    exact List.mem_flatMap_of_mem hlink ih
  | operand hoperand _ ih =>
    rw [occurrences, operandOccurrences_eq_flatMap]
    exact List.mem_flatMap_of_mem hoperand ih
  | unary _ ih => exact ih

end Expr

namespace Statement

variable {τ υ : Type}

mutual

theorem mentions_of_mem : ∀ s : Statement τ, name ∈ s.occurrences → s.Mentions name
  | .give _, h => absurd h List.not_mem_nil
  | .conditional branches otherwise, h => by
    rcases List.mem_append.1 h with h | h
    · obtain ⟨branch, hbranch, h | ⟨s, hs, h⟩⟩ := exists_branch_of_mem branches h
      · exact .condition hbranch h
      · exact .body hbranch hs h
    · obtain ⟨body, rfl, s, hs, h⟩ := exists_else_of_mem otherwise h
      exact .otherwise hs h

theorem exists_branch_of_mem : ∀ branches : List (Expr × Block τ),
    name ∈ branchOccurrences branches → ∃ branch ∈ branches,
      branch.1.Mentions name ∨ ∃ s ∈ branch.2, s.Mentions name
  | [], h => absurd h List.not_mem_nil
  | (condition, body) :: branches, h => by
    rw [branchOccurrences, List.mem_append, List.mem_append, Expr.mem_occurrences_iff] at h
    rcases h with (h | h) | h
    · exact ⟨(condition, body), List.mem_cons_self, .inl h⟩
    · exact ⟨(condition, body), List.mem_cons_self, .inr (exists_statement_of_mem body h)⟩
    · obtain ⟨branch, hbranch, h⟩ := exists_branch_of_mem branches h
      exact ⟨branch, List.mem_cons_of_mem _ hbranch, h⟩

theorem exists_else_of_mem : ∀ otherwise : Option (Block τ), name ∈ elseOccurrences otherwise →
    ∃ body, otherwise = some body ∧ ∃ s ∈ body, s.Mentions name
  | none, h => absurd h List.not_mem_nil
  | some body, h => ⟨body, rfl, exists_statement_of_mem body h⟩

theorem exists_statement_of_mem : ∀ b : Block τ, name ∈ blockOccurrences b →
    ∃ s ∈ b, s.Mentions name
  | [], h => absurd h List.not_mem_nil
  | s :: block, h => by
    rcases List.mem_append.1 h with h | h
    · exact ⟨s, List.mem_cons_self, mentions_of_mem s h⟩
    · obtain ⟨s', hs, h⟩ := exists_statement_of_mem block h
      exact ⟨s', List.mem_cons_of_mem _ hs, h⟩

end

theorem branchOccurrences_eq_flatMap (branches : List (Expr × Block τ)) :
    branchOccurrences branches = branches.flatMap fun branch =>
      branch.1.occurrences ++ blockOccurrences branch.2 := by
  induction branches with
  | nil => rfl
  | cons branch branches ih => rw [branchOccurrences, ih, List.flatMap_cons]

theorem blockOccurrences_eq_flatMap (b : Block τ) :
    blockOccurrences b = b.flatMap occurrences := by
  induction b with
  | nil => rfl
  | cons s block ih => rw [blockOccurrences, ih, List.flatMap_cons]

theorem mem_occurrences_of_mentions {s : Statement τ} (h : s.Mentions name) :
    name ∈ s.occurrences := by
  induction h with
  | condition hbranch h =>
    refine List.mem_append_left _ ?_
    rw [branchOccurrences_eq_flatMap]
    exact List.mem_flatMap_of_mem hbranch (List.mem_append_left _ (Expr.mem_occurrences_iff.2 h))
  | body hbranch hs _ ih =>
    refine List.mem_append_left _ ?_
    rw [branchOccurrences_eq_flatMap]
    refine List.mem_flatMap_of_mem hbranch (List.mem_append_right _ ?_)
    rw [blockOccurrences_eq_flatMap]
    exact List.mem_flatMap_of_mem hs ih
  | otherwise hs _ ih =>
    refine List.mem_append_right _ ?_
    rw [elseOccurrences, blockOccurrences_eq_flatMap]
    exact List.mem_flatMap_of_mem hs ih

/-- A name occurs in a block if and only if one of its statements mentions it. -/
theorem mem_blockOccurrences_iff {b : Block τ} :
    name ∈ blockOccurrences b ↔ ∃ s ∈ b, s.Mentions name := by
  refine ⟨exists_statement_of_mem b, ?_⟩
  rintro ⟨s, hs, h⟩
  rw [blockOccurrences_eq_flatMap]
  exact List.mem_flatMap_of_mem hs (mem_occurrences_of_mentions h)

end Statement

/-- The features of a rule are the names that occur in it. -/
theorem RuleBody.mem_features_occurrences {body : RuleBody} :
    name ∈ body.features.toList ↔ name ∈ body.occurrences := SortedSet.mem_ofList

/-- **The features of a body are those that it mentions.** -/
theorem RuleBody.mem_features_iff {body : RuleBody} :
    name ∈ body.features.toList ↔ body.Mentions name := by
  rw [mem_features_occurrences]
  cases body with
  | expression condition => exact Expr.mem_occurrences_iff
  | program block => exact Statement.mem_blockOccurrences_iff

/-! ## Rows that agree -/

/-- Two rows have the same values of some features, or both have none. -/
def AgreeOn (names : List String) (row row' : Row) : Prop := ∀ name ∈ names, row name = row' name

section

variable {τ : Type} {row row' : Row} {names names' : List String}

/-- Rows that agree on more names agree on the first of them. -/
theorem AgreeOn.left (h : AgreeOn (names ++ names') row row') : AgreeOn names row row' :=
  fun name hname => h name (List.mem_append_left _ hname)

/-- Rows that agree on more names agree on the last of them. -/
theorem AgreeOn.right (h : AgreeOn (names ++ names') row row') : AgreeOn names' row row' :=
  fun name hname => h name (List.mem_append_right _ hname)

namespace Expr

mutual

/-- **An expression has the same value, or fails in the same way, on rows that
agree on what occurs in it.** -/
theorem eval_congr : ∀ e : Expr, AgreeOn e.occurrences row row' → e.eval row = e.eval row'
  | .literal value, _ => rfl
  | .feature name, h => by rw [eval, eval, h name (List.mem_singleton_self name)]
  | .comparison first links, h => by
    rw [eval, eval, eval_congr first h.left]
    exact bind_congr fun left => evalLinks_congr links left h.right
  | .connected op operands, h => evalOperands_congr op operands 0 h
  | .unary op operand, h => by rw [eval, eval, eval_congr operand h]

theorem evalLinks_congr : ∀ (links : List (Comparator × Expr)) (left : Float32),
    AgreeOn (linkOccurrences links) row row' → evalLinks row left links = evalLinks row' left links
  | [], _, _ => rfl
  | (op, right) :: links, left, h => by
    rw [evalLinks, evalLinks, eval_congr right h.left]
    refine bind_congr fun value => ?_
    rw [evalLinks_congr links value h.right]

theorem evalOperands_congr (op : Connective) : ∀ (operands : List Expr) (last : Float32),
    AgreeOn (operandOccurrences operands) row row' →
      evalOperands row op last operands = evalOperands row' op last operands
  | [], _, _ => rfl
  | operand :: operands, last, h => by
    rw [evalOperands, evalOperands, eval_congr operand h.left]
    -- the value is the same on both rows, so both go on or both stop here
    refine bind_congr fun value => ?_
    rw [evalOperands_congr op operands value h.right]

end

/-- A condition holds alike on rows that agree on its names. -/
theorem holds_congr {e : Expr} (h : AgreeOn e.occurrences row row') :
    e.holds row = e.holds row' := by
  rw [holds, holds, eval_congr e h]

end Expr

namespace Statement

mutual

/-- A statement comes to the same on such rows. -/
theorem run_congr : ∀ s : Statement τ, AgreeOn s.occurrences row row' → run row s = run row' s
  | .give target, _ => rfl
  | .conditional branches otherwise, h => by
    rw [run, run, runBranches_congr branches h.left]
    refine bind_congr fun reached => ?_
    rw [runElse_congr otherwise h.right]

theorem runBranches_congr : ∀ branches : List (Expr × Block τ),
    AgreeOn (branchOccurrences branches) row row' →
      runBranches row branches = runBranches row' branches
  | [], _ => rfl
  | (condition, body) :: branches, h => by
    rw [runBranches, runBranches, Expr.holds_congr h.left.left, runBlock_congr body h.left.right,
      runBranches_congr branches h.right]

theorem runElse_congr : ∀ otherwise : Option (Block τ),
    AgreeOn (elseOccurrences otherwise) row row' → runElse row otherwise = runElse row' otherwise
  | none, _ => rfl
  | some body, h => runBlock_congr body h

/-- **A program comes to the same on rows that agree on what occurs in its
conditions**, those of bodies that no row reaches among them. -/
theorem runBlock_congr : ∀ b : Block τ,
    AgreeOn (blockOccurrences b) row row' → runBlock row b = runBlock row' b
  | [], _ => rfl
  | s :: block, h => by
    rw [runBlock, runBlock, run_congr s h.left]
    refine bind_congr fun reached => ?_
    rw [runBlock_congr block h.right]

end

end Statement

end

/-! ## Bodies -/

/-- A resolved run is settled by the run that it simulates. -/
theorem Statement.Simulates.unique {τ υ ε : Type} {f : τ → Except ε υ}
    {x : Except MissingFeature (Option τ)} {y y' : Except MissingFeature (Option υ)}
    (h : Simulates f x y) (h' : Simulates f x y') : y = y' := by
  cases h with
  | fault missing => cases h'; rfl
  | passes => cases h'; rfl
  | reaches ht =>
    cases h' with
    | reaches ht' => rw [Except.ok.inj (ht.symm.trans ht')]

/-- A resolved run fails only where the run that it simulates does. -/
theorem FaultsAmong.of_simulates {τ υ ε : Type} {f : τ → Except ε υ} {row : Row}
    {names : List String} {x : Except MissingFeature (Option τ)}
    {y : Except MissingFeature (Option υ)} (hx : FaultsAmong row names x)
    (h : Statement.Simulates f x y) : FaultsAmong row names y := by
  cases h with
  | fault missing => exact fun missing' heq => hx missing' (Except.error.inj heq ▸ rfl)
  | passes => exact faultsAmong_ok _
  | reaches _ => exact faultsAmong_ok _

namespace RuleBody

/-- What can be computed of a body on a row: the value of a condition or its
truth, or what a program reaches once its targets have been resolved. -/
inductive Computes : RuleBody → {α : Type} → (Row → Except MissingFeature α) → Prop
  | value (condition : Expr) : Computes (.expression condition) fun row => condition.eval row
  | truth (condition : Expr) : Computes (.expression condition) fun row => condition.holds row
  | reached {block : Block ReturnTarget} {ε υ : Type} {f : ReturnTarget → Except ε υ}
      {b : Block υ} (h : Statement.resolveBlock f block = .ok b) :
      Computes (.program block) fun row => Statement.runBlock row b

/-- **A rule reads only its features.** Whatever is computed of its body is the
same on rows that agree on them, and fails only for one of them that the row
does not have; and its features are those that are mentioned in it. -/
theorem reads_only_features (body : RuleBody) :
    (∀ {α : Type} (compute : Row → Except MissingFeature α), body.Computes compute →
      (∀ row row', AgreeOn body.features.toList row row' → compute row = compute row') ∧
      ∀ row, FaultsAmong row body.features.toList (compute row)) ∧
    ∀ name, name ∈ body.features.toList ↔ body.Mentions name := by
  refine ⟨fun compute hcompute => ?_, fun name => mem_features_iff⟩
  have hagree : ∀ {row row'}, AgreeOn body.features.toList row row' →
      AgreeOn body.occurrences row row' :=
    fun h name hname => h name (mem_features_occurrences.2 hname)
  have hfaults : ∀ {β : Type} {row} {x : Except MissingFeature β},
      FaultsAmong row body.occurrences x → FaultsAmong row body.features.toList x :=
    fun h => h.mono fun _ hname => mem_features_occurrences.2 hname
  cases hcompute with
  | value condition =>
    exact ⟨fun row row' h => Expr.eval_congr condition (hagree h),
      fun row => hfaults (Expr.faultsAmong_eval row condition)⟩
  | truth condition =>
    exact ⟨fun row row' h => Expr.holds_congr (hagree h),
      fun row => hfaults (Expr.faultsAmong_holds row condition)⟩
  | @reached block _ _ _ b hresolve =>
    have hsimulates := fun row => Statement.resolveBlock_simulates row hresolve
    constructor
    · -- the targets are reached as those of the program before it was resolved
      intro row row' h
      have hrun : Statement.runBlock row block = Statement.runBlock row' block :=
        Statement.runBlock_congr block (hagree h)
      exact (hsimulates row).unique (hrun ▸ hsimulates row')
    · intro row
      exact (hfaults (Statement.faultsAmong_runBlock row block)).of_simulates (hsimulates row)

/-- A row without noise is settled before the gaps are read, whatever its mean
is; one with noise fails for the gaps that it does not have. -/
theorem reads_only_features_short_circuit :
    let condition : Expr := .connected .and [.feature "noise", .feature "gaps"]
    let block : Block ReturnTarget :=
      [.conditional [(condition, [.give (.index 1)])] none, .give (.index 0)]
    let body : RuleBody := .program block
    let quiet : Row := fun name => if name = "noise" then some 0 else none
    let other : Row := fun name => if name = "mean" then some 1 else quiet name
    let loud : Row := fun name => if name = "noise" then some 1 else none
    body.Computes (fun row => Statement.runBlock row block) ∧
      AgreeOn body.features.toList quiet other ∧
      Statement.runBlock quiet block = .ok (some (.index 0)) ∧
      Statement.runBlock other block = .ok (some (.index 0)) ∧
      Statement.runBlock loud block = .error ⟨"gaps"⟩ ∧
      "gaps" ∈ body.features.toList ∧ body.Mentions "gaps" := by
  intro condition block body quiet other loud
  -- targets that stay as they are
  have hresolve : Statement.resolveBlock (Except.ok (ε := Unit)) block = .ok block := rfl
  have hcomputes : body.Computes fun row => Statement.runBlock row block := .reached hresolve
  obtain ⟨hreads, hmentions⟩ := reads_only_features body
  obtain ⟨hsame, hfaults⟩ := hreads _ hcomputes
  have hagree : AgreeOn body.features.toList quiet other := by
    intro name hname
    have hne : name ≠ "mean" := by
      rintro rfl
      exact absurd hname (by decide +kernel)
    exact (if_neg hne).symm
  have hquiet : Statement.runBlock quiet block = .ok (some (.index 0)) := by rfl
  have hloud : Statement.runBlock loud block = .error ⟨"gaps"⟩ := by rfl
  obtain ⟨hmem, -⟩ := hfaults loud _ hloud
  exact ⟨hcomputes, hagree, hquiet, hsame quiet other hagree ▸ hquiet, hloud, hmem,
    (hmentions "gaps").1 hmem⟩

end RuleBody

end RuleVote
