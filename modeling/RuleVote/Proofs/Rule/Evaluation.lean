import RuleVote.Rule.Expr
import RuleVote.Rule.Program
/-!
# Evaluation

Evaluating an expression or running a program fails only for a feature that
is written in it and that the row does not have (`faultsAmong_eval`,
`faultsAmong_runBlock`). So a row with all the features that are written has
a value, however the operands cut each other short. A return that is reached
is one of the returns that are written (`mem_of_runBlock`).

A chain of comparisons says that all of its links hold. It evaluates the
operand between two links once and carries the value on, while the conjunction
of the links evaluates it for each of the two. Both stop at the first link that
does not hold, so they have the same value on every row, and where an operand
cannot be evaluated they fail for the same feature (`Expr.eval_chain`).
-/

namespace RuleVote

/-- A reading of a row fails at most for one of these features, which the row
does not have. -/
def FaultsAmong {α : Type} (row : Row) (names : List String) (x : Except MissingFeature α) : Prop :=
  ∀ missing, x = .error missing → missing.feature ∈ names ∧ row missing.feature = none

section

variable {α β τ : Type} {row : Row} {names names' : List String}

/-- A value is no fault. -/
theorem faultsAmong_ok (a : α) : FaultsAmong row names (.ok a) := by
  intro missing h
  cases h

/-- A fault among some names is one among more of them. -/
theorem FaultsAmong.mono {x : Except MissingFeature α} (h : FaultsAmong row names x)
    (hsub : names ⊆ names') : FaultsAmong row names' x :=
  fun missing hx => ⟨hsub (h missing hx).1, (h missing hx).2⟩

theorem FaultsAmong.left {x : Except MissingFeature α} (h : FaultsAmong row names x) :
    FaultsAmong row (names ++ names') x := h.mono (List.subset_append_left _ _)

theorem FaultsAmong.right {x : Except MissingFeature α} (h : FaultsAmong row names' x) :
    FaultsAmong row (names ++ names') x := h.mono (List.subset_append_right _ _)

/-- One reading after another fails where the first or the second does. -/
theorem FaultsAmong.bind {x : Except MissingFeature α} {f : α → Except MissingFeature β}
    (hx : FaultsAmong row names x) (hf : ∀ a, FaultsAmong row names (f a)) :
    FaultsAmong row names (x >>= f) := by
  cases x with
  | error missing =>
    intro missing' h
    cases h
    exact hx missing rfl
  | ok a => exact hf a

/-- **A row with all of the features lets the reading succeed.** -/
theorem FaultsAmong.exists_ok {x : Except MissingFeature α} (h : FaultsAmong row names x)
    (hrow : ∀ name ∈ names, row name ≠ none) : ∃ a, x = .ok a := by
  cases x with
  | ok a => exact ⟨a, rfl⟩
  | error missing =>
    obtain ⟨hmem, hnone⟩ := h missing rfl
    exact absurd hnone (hrow _ hmem)

/-! ## Expressions -/

namespace Expr

mutual

/-- **An expression fails only for a feature that occurs in it** and that the
row does not have. -/
theorem faultsAmong_eval (row : Row) : ∀ e : Expr, FaultsAmong row e.occurrences (e.eval row)
  | .literal value => faultsAmong_ok _
  | .feature name => by
    intro missing h
    rw [eval] at h
    split at h
    · cases h
    · next hnone =>
      cases h
      exact ⟨List.mem_singleton.2 rfl, hnone⟩
  | .comparison first links =>
    (faultsAmong_eval row first).left.bind fun left =>
      (faultsAmong_evalLinks row links left).right
  | .connected op operands => faultsAmong_evalOperands row op operands 0
  | .unary op operand => (faultsAmong_eval row operand).bind fun _ => faultsAmong_ok _

theorem faultsAmong_evalLinks (row : Row) : ∀ (links : List (Comparator × Expr)) (left : Float32),
    FaultsAmong row (linkOccurrences links) (evalLinks row left links)
  | [], _ => faultsAmong_ok _
  | (op, right) :: links, left => by
    refine (faultsAmong_eval row right).left.bind fun value => ?_
    split
    · exact (faultsAmong_evalLinks row links value).right
    · exact faultsAmong_ok _

theorem faultsAmong_evalOperands (row : Row) (op : Connective) :
    ∀ (operands : List Expr) (last : Float32),
      FaultsAmong row (operandOccurrences operands) (evalOperands row op last operands)
  | [], _ => faultsAmong_ok _
  | operand :: operands, last => by
    refine (faultsAmong_eval row operand).left.bind fun value => ?_
    split
    · exact faultsAmong_ok _
    · exact (faultsAmong_evalOperands row op operands value).right

end

/-- A condition misses only features that occur in it. -/
theorem faultsAmong_holds (row : Row) (e : Expr) :
    FaultsAmong row e.occurrences (e.holds row) :=
  (faultsAmong_eval row e).bind fun _ => faultsAmong_ok _

end Expr

/-! ## Programs -/

namespace Statement

mutual

/-- A statement fails only for a feature in one of its conditions. -/
theorem faultsAmong_run (row : Row) :
    ∀ s : Statement τ, FaultsAmong row s.occurrences (run row s)
  | .give target => faultsAmong_ok _
  | .conditional branches otherwise => by
    refine (faultsAmong_runBranches row branches).left.bind fun reached => ?_
    split
    · exact faultsAmong_ok _
    · exact (faultsAmong_runElse row otherwise).right

theorem faultsAmong_runBranches (row : Row) : ∀ branches : List (Expr × Block τ),
    FaultsAmong row (branchOccurrences branches) (runBranches row branches)
  | [] => faultsAmong_ok _
  | (condition, body) :: branches => by
    refine (Expr.faultsAmong_holds row condition).left.left.bind fun holds => ?_
    split
    · exact (faultsAmong_runBlock row body).right.left.bind fun _ => faultsAmong_ok _
    · exact (faultsAmong_runBranches row branches).right

theorem faultsAmong_runElse (row : Row) : ∀ otherwise : Option (Block τ),
    FaultsAmong row (elseOccurrences otherwise) (runElse row otherwise)
  | none => faultsAmong_ok _
  | some body => faultsAmong_runBlock row body

/-- **A program fails only for a feature in one of its conditions** that the
row does not have. -/
theorem faultsAmong_runBlock (row : Row) :
    ∀ b : Block τ, FaultsAmong row (blockOccurrences b) (runBlock row b)
  | [] => faultsAmong_ok _
  | s :: block => by
    refine (faultsAmong_run row s).left.bind fun reached => ?_
    split
    · exact faultsAmong_ok _
    · exact (faultsAmong_runBlock row block).right

end

mutual

/-- What a statement gives is one of its targets. -/
theorem mem_of_run {t : τ} (row : Row) :
    ∀ s : Statement τ, run row s = .ok (some t) → t ∈ s.targets
  | .give target, h => by
    cases h
    exact List.mem_singleton.2 rfl
  | .conditional branches otherwise, h => by
    obtain ⟨reached, hbranches, h⟩ := bind_eq_ok_iff.1 h
    cases reached with
    | some reached =>
      cases h
      exact List.mem_append_left _ (mem_of_runBranches row branches hbranches)
    | none => exact List.mem_append_right _ (mem_of_runElse row otherwise h)

theorem mem_of_runBranches {t : τ} (row : Row) : ∀ branches : List (Expr × Block τ),
    runBranches row branches = .ok (some (some t)) → t ∈ branchTargets branches
  | [], h => by cases h
  | (condition, body) :: branches, h => by
    obtain ⟨holds, -, h⟩ := bind_eq_ok_iff.1 h
    cases holds with
    | true =>
      obtain ⟨reached, hbody, h⟩ := bind_eq_ok_iff.1 h
      cases h
      exact List.mem_append_left _ (mem_of_runBlock row body hbody)
    | false => exact List.mem_append_right _ (mem_of_runBranches row branches h)

theorem mem_of_runElse {t : τ} (row : Row) : ∀ otherwise : Option (Block τ),
    runElse row otherwise = .ok (some t) → t ∈ elseTargets otherwise
  | none, h => by cases h
  | some body, h => mem_of_runBlock row body h

/-- **A return that is reached is one that is written.** -/
theorem mem_of_runBlock {t : τ} (row : Row) :
    ∀ b : Block τ, runBlock row b = .ok (some t) → t ∈ blockTargets b
  | [], h => by cases h
  | s :: block, h => by
    obtain ⟨reached, hs, h⟩ := bind_eq_ok_iff.1 h
    cases reached with
    | some target =>
      cases h
      exact List.mem_append_left _ (mem_of_run row s hs)
    | none => exact List.mem_append_right _ (mem_of_runBlock row block h)

end

end Statement

end

/-! ## Chains of comparisons -/

namespace Expr

variable {row : Row}

/-- The links of a chain as comparisons of their own: each operand with the one
after it. -/
def singleLinks (first : Expr) (links : List (Comparator × Expr)) : List Expr :=
  List.zipWith (fun left link => .comparison left [link]) (first :: links.map Prod.snd) links

/-- The operand of a link is the first of what follows. -/
theorem singleLinks_cons (first right : Expr) (op : Comparator)
    (links : List (Comparator × Expr)) : singleLinks first ((op, right) :: links) =
      .comparison first [(op, right)] :: singleLinks right links := rfl

/-- A truth value is true if it is. -/
theorem isTrue_truthValue (b : Bool) : isTrue (truthValue b) = b := by
  cases b
  · decide +kernel
  · decide +kernel

/-- A single comparison whose left operand has a value. -/
theorem eval_singleLink {left right : Expr} {x : Float32} (hleft : left.eval row = .ok x)
    (op : Comparator) : (comparison left [(op, right)]).eval row =
      (right.eval row).map fun y => truthValue (op.holds x y) := by
  rw [eval, hleft]
  show evalLinks row x [(op, right)] = _
  rw [evalLinks]
  cases right.eval row with
  | error missing => rfl
  | ok y =>
    show (if op.holds x y then evalLinks row y [] else .ok 0) = .ok (truthValue (op.holds x y))
    cases op.holds x y with
    | false => rfl
    | true => rw [if_pos rfl, evalLinks, truthValue, if_pos rfl]

/-- Links are evaluated as the conjunction that has found no false one yet,
once the value that the chain carries is that of the operand before them. -/
theorem evalLinks_eq_evalOperands {x : Float32} (links : List (Comparator × Expr)) {left : Expr}
    (hleft : left.eval row = .ok x) :
    evalLinks row x links = evalOperands row .and 1 (singleLinks left links) := by
  induction links generalizing left x with
  | nil => simp [singleLinks, evalLinks, evalOperands]
  | cons link links ih =>
    obtain ⟨op, right⟩ := link
    rw [singleLinks_cons, evalLinks, evalOperands, eval_singleLink hleft]
    cases hright : right.eval row with
    | error missing => rfl
    | ok y =>
      show (if op.holds x y then evalLinks row y links else .ok 0) =
        if decides .and (truthValue (op.holds x y)) then .ok (truthValue (op.holds x y))
        else evalOperands row .and (truthValue (op.holds x y)) (singleLinks right links)
      rw [decides, isTrue_truthValue]
      cases op.holds x y with
      | false => rfl
      | true => exact ih hright

/-- **A chain has the value of the conjunction of its links**, or fails for the
same feature, on every row and for operands of any kind. (A chain with no link
is true, a conjunction of nothing is not.) -/
theorem eval_chain (row : Row) (first : Expr) (link : Comparator × Expr)
    (links : List (Comparator × Expr)) : (comparison first (link :: links)).eval row =
      (connected .and (singleLinks first (link :: links))).eval row := by
  rw [eval, eval]
  cases hfirst : first.eval row with
  | error missing =>
    -- the first link fails before anything is compared
    rw [singleLinks_cons, evalOperands, eval, hfirst]
    rfl
  | ok x =>
    show evalLinks row x (link :: links) = _
    rw [evalLinks_eq_evalOperands _ hfirst, singleLinks_cons, evalOperands, evalOperands]

end Expr

end RuleVote
