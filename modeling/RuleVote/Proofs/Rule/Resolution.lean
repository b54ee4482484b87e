import RuleVote.Proofs.Sequence
import RuleVote.Rule.Program
/-!
# Resolving a program

Resolving a program replaces its return targets one after another, in the
order in which they are written, and touches nothing else. It stands or
falls with these replacements alone (`map_resolveBlock`), and the resolved
program runs as the program does: the same conditions are evaluated in the
same order, the same return is reached, and a condition that cannot be
evaluated fails both (`resolveBlock_simulates`).
-/

namespace RuleVote

namespace Statement

variable {τ υ ε : Type} {f : τ → Except ε υ}

/-! ## The targets -/

mutual

theorem map_resolve (f : τ → Except ε υ) :
    ∀ s : Statement τ, (resolve f s).map targets = s.targets.mapM f
  | .give target => by
    rw [resolve, targets, List.mapM_cons, List.mapM_nil]
    cases f target <;> rfl
  | .conditional branches otherwise => by
    rw [resolve, targets, List.mapM_append, ← map_resolveBranches f branches,
      ← map_resolveElse f otherwise]
    cases resolveBranches f branches with
    | error e => rfl
    | ok branches' => cases resolveElse f otherwise <;> rfl

theorem map_resolveBranches (f : τ → Except ε υ) : ∀ branches : List (Expr × Block τ),
    (resolveBranches f branches).map branchTargets = (branchTargets branches).mapM f
  | [] => rfl
  | (condition, body) :: branches => by
    rw [resolveBranches, branchTargets, List.mapM_append, ← map_resolveBlock f body,
      ← map_resolveBranches f branches]
    cases resolveBlock f body with
    | error e => rfl
    | ok body' => cases resolveBranches f branches <;> rfl

theorem map_resolveElse (f : τ → Except ε υ) : ∀ otherwise : Option (Block τ),
    (resolveElse f otherwise).map elseTargets = (elseTargets otherwise).mapM f
  | none => rfl
  | some body => by
    rw [resolveElse, elseTargets, ← map_resolveBlock f body]
    cases resolveBlock f body <;> rfl

/-- **Resolving a block is resolving its targets**, from the first to the last
that is written: where one is rejected, so is the block. -/
theorem map_resolveBlock (f : τ → Except ε υ) :
    ∀ b : Block τ, (resolveBlock f b).map blockTargets = (blockTargets b).mapM f
  | [] => rfl
  | s :: block => by
    rw [resolveBlock, blockTargets, List.mapM_append, ← map_resolve f s,
      ← map_resolveBlock f block]
    cases resolve f s with
    | error e => rfl
    | ok s' => cases resolveBlock f block <;> rfl

end

/-- **A block is resolved exactly when all of its targets are**, those that no
row reaches among them. -/
theorem exists_resolveBlock_iff {b : Block τ} :
    (∃ b', resolveBlock f b = .ok b') ↔ ∀ t ∈ blockTargets b, ∃ v, f t = .ok v := by
  rw [← exists_mapM_eq_ok_iff, ← map_resolveBlock]
  cases resolveBlock f b with
  | error e =>
    constructor <;> rintro ⟨_, h⟩ <;> cases h
  | ok b' => exact ⟨fun _ => ⟨_, rfl⟩, fun _ => ⟨_, rfl⟩⟩

/-- A target of a resolved block was one of the block. -/
theorem exists_target_of_resolveBlock {b : Block τ} {b' : Block υ} (h : resolveBlock f b = .ok b')
    {v : υ} (hv : v ∈ blockTargets b') : ∃ t ∈ blockTargets b, f t = .ok v := by
  have htargets := map_resolveBlock f b
  rw [h] at htargets
  exact exists_of_mem_mapM htargets.symm hv

/-! ## The run -/

/-- What a program and its resolved form come to: the same error, no return in
both, or a return that is resolved in one to what is returned in the other. -/
inductive Simulates (f : τ → Except ε υ) :
    Except MissingFeature (Option τ) → Except MissingFeature (Option υ) → Prop
  | fault (missing : MissingFeature) : Simulates f (.error missing) (.error missing)
  | passes : Simulates f (.ok none) (.ok none)
  | reaches {t : τ} {v : υ} (h : f t = .ok v) : Simulates f (.ok (some t)) (.ok (some v))

theorem Simulates.error_iff {γ : Type} {x : Except MissingFeature (Option τ)}
    {x' : Except MissingFeature (Option υ)} (h : Simulates f x x') (g : Option υ → γ)
    {missing : MissingFeature} : x'.map g = .error missing ↔ x = .error missing := by
  cases h with
  | fault => constructor <;> intro heq <;> cases heq <;> rfl
  | passes => constructor <;> intro heq <;> cases heq
  | reaches => constructor <;> intro heq <;> cases heq

/-- Two programs of which the second goes on where the first has passed. -/
theorem Simulates.bind {x next : Except MissingFeature (Option τ)}
    {x' next' : Except MissingFeature (Option υ)} (hx : Simulates f x x')
    (hnext : Simulates f next next') :
    Simulates f (do match ← x with | some t => return some t | none => next)
      (do match ← x' with | some v => return some v | none => next') := by
  cases hx with
  | fault missing => exact .fault missing
  | passes => exact hnext
  | reaches h => exact .reaches h

mutual

theorem resolve_simulates (row : Row) : ∀ {s : Statement τ} {s' : Statement υ},
    resolve f s = .ok s' → Simulates f (run row s) (run row s')
  | .give target, s', h => by
    obtain ⟨v, hv, h⟩ := bind_eq_ok_iff.1 h
    cases h
    exact .reaches hv
  | .conditional branches otherwise, s', h => by
    obtain ⟨branches', hbranches, h⟩ := bind_eq_ok_iff.1 h
    obtain ⟨otherwise', hotherwise, h⟩ := bind_eq_ok_iff.1 h
    cases h
    exact resolveBranches_simulates row hbranches (resolveElse_simulates row hotherwise)

/-- The branches are compared with what follows them, since the last body is
run where no condition holds and not where a body passes. -/
theorem resolveBranches_simulates (row : Row) : ∀ {branches : List (Expr × Block τ)}
    {branches' : List (Expr × Block υ)} {next : Except MissingFeature (Option τ)}
    {next' : Except MissingFeature (Option υ)},
    resolveBranches f branches = .ok branches' → Simulates f next next' →
    Simulates f
      (do match ← runBranches row branches with | some reached => return reached | none => next)
      (do match ← runBranches row branches' with | some reached => return reached | none => next')
  | [], _, _, _, h, hnext => by
    cases h
    exact hnext
  | (condition, body) :: branches, _, _, _, h, hnext => by
    obtain ⟨body', hbody, h⟩ := bind_eq_ok_iff.1 h
    obtain ⟨branches', hbranches, h⟩ := bind_eq_ok_iff.1 h
    cases h
    have hrun := resolveBlock_simulates row hbody
    have hrest := resolveBranches_simulates row hbranches hnext
    rw [runBranches, runBranches]
    cases condition.holds row with
    | error missing => exact .fault missing
    | ok holds =>
      cases holds with
      | false => exact hrest
      | true =>
        -- the body decides, also where it reaches no return
        generalize runBlock row body = x at hrun ⊢
        generalize runBlock row body' = x' at hrun ⊢
        cases hrun with
        | fault missing => exact .fault missing
        | passes => exact .passes
        | reaches h => exact .reaches h

theorem resolveElse_simulates (row : Row) : ∀ {otherwise : Option (Block τ)}
    {otherwise' : Option (Block υ)}, resolveElse f otherwise = .ok otherwise' →
    Simulates f (runElse row otherwise) (runElse row otherwise')
  | none, _, h => by
    cases h
    exact .passes
  | some body, _, h => by
    obtain ⟨body', hbody, h⟩ := bind_eq_ok_iff.1 h
    cases h
    exact resolveBlock_simulates row hbody

/-- **A resolved block runs as the block does**, on every row. -/
theorem resolveBlock_simulates (row : Row) : ∀ {b : Block τ} {b' : Block υ},
    resolveBlock f b = .ok b' → Simulates f (runBlock row b) (runBlock row b')
  | [], _, h => by
    cases h
    exact .passes
  | s :: block, _, h => by
    obtain ⟨s', hs, h⟩ := bind_eq_ok_iff.1 h
    obtain ⟨block', hblock, h⟩ := bind_eq_ok_iff.1 h
    cases h
    exact (resolve_simulates row hs).bind (resolveBlock_simulates row hblock)

end

end Statement

end RuleVote
