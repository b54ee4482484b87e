import Mathlib.Tactic.SplitIfs
import RuleVote.Rule.Basic
/-!
# Refusing a rule text

A text that does not parse is refused for the rule alone: whatever is wrong
with it, the failure is one that leaves out the rule and lets a run go on
(`refusesRule_parseRule`).
-/

namespace RuleVote

/-- A computation that fails, if it does, for the rule alone. -/
def RefusesRule {α : Type} (x : Except Failure α) : Prop :=
  ∀ f, x = .error f → f.isRecoverable = true

section

variable {α β : Type}

theorem refusesRule_ok (a : α) : RefusesRule (.ok a) := by
  intro f h
  cases h

/-- A failure that a run goes on after refuses the rule only. -/
theorem refusesRule_error {f : Failure} (h : f.isRecoverable = true) :
    RefusesRule (.error f : Except Failure α) := by
  intro f' h'
  cases h'
  exact h

/-- One computation after another fails where the first or the second does. -/
theorem RefusesRule.bind {x : Except Failure α} {f : α → Except Failure β} (hx : RefusesRule x)
    (hf : ∀ a, RefusesRule (f a)) : RefusesRule (x >>= f) := by
  cases x with
  | error e => exact refusesRule_error (hx e rfl)
  | ok a => exact hf a

theorem RefusesRule.map {x : Except Failure α} (hx : RefusesRule x) (f : α → β) :
    RefusesRule (f <$> x) := by
  cases x with
  | error e => exact refusesRule_error (hx e rfl)
  | ok a => exact refusesRule_ok (f a)

end

/-- **Text that is no expression refuses the rule only.** -/
theorem refusesRule_parseExpression (text : List Char) : RefusesRule (parseExpression text) := by
  have hfailure : ∀ rest, (expressionFailure text rest).isRecoverable = true := by
    intro rest
    rw [expressionFailure]
    split_ifs <;> rfl
  unfold parseExpression
  split
  · exact refusesRule_error (hfailure _)
  · dsimp only
    split
    · exact refusesRule_ok _
    · exact refusesRule_error (hfailure _)

namespace Layout

theorem refusesRule_returnLine (line : SourceLine) (content : List Char) :
    RefusesRule (returnLine line content) := by
  unfold returnLine
  split
  · exact refusesRule_ok _
  · exact refusesRule_error rfl

mutual

/-- **Lines that are no block refuse the rule only**: by recursion on the fuel. -/
theorem refusesRule_block : ∀ (fuel indent : Nat) (lines : List SourceLine),
    RefusesRule (block fuel indent lines)
  | 0, _, _ => by
    rw [block]
    exact refusesRule_ok _
  | _ + 1, _, [] => by
    rw [block]
    exact refusesRule_ok _
  | fuel + 1, indent, line :: lines => by
    rw [block]
    split_ifs
    · exact refusesRule_ok _
    · exact refusesRule_error rfl
    · refine (refusesRule_branch fuel _ indent line lines).bind fun first => ?_
      refine (refusesRule_branches fuel indent first.2).bind fun further => ?_
      exact (refusesRule_block fuel indent further.2).bind fun _ => refusesRule_ok _
    · exact refusesRule_error rfl
    · refine (refusesRule_returnLine line _).bind fun statement => ?_
      exact (refusesRule_block fuel indent lines).bind fun _ => refusesRule_ok _

theorem refusesRule_branch : ∀ (fuel : Nat) (keyword : String) (indent : Nat) (line : SourceLine)
    (lines : List SourceLine), RefusesRule (branch fuel keyword indent line lines)
  | 0, _, _, _, _ => by
    rw [branch]
    exact refusesRule_error rfl
  | fuel + 1, keyword, indent, line, lines => by
    rw [branch]
    split
    · exact refusesRule_error rfl
    · exact (refusesRule_body fuel indent line _ lines).bind fun _ => refusesRule_ok _

theorem refusesRule_branches : ∀ (fuel indent : Nat) (lines : List SourceLine),
    RefusesRule (branches fuel indent lines)
  | 0, _, _ => by
    rw [branches]
    exact refusesRule_ok _
  | _ + 1, _, [] => by
    rw [branches]
    exact refusesRule_ok _
  | fuel + 1, indent, line :: lines => by
    rw [branches]
    split_ifs
    · exact refusesRule_ok _
    · refine (refusesRule_branch fuel _ indent line lines).bind fun first => ?_
      exact (refusesRule_branches fuel indent first.2).bind fun _ => refusesRule_ok _
    · split
      · exact refusesRule_error rfl
      · exact (refusesRule_body fuel indent line _ lines).bind fun _ => refusesRule_ok _
    · exact refusesRule_ok _

theorem refusesRule_body : ∀ (fuel indent : Nat) (line : SourceLine) (after : List Char)
    (lines : List SourceLine), RefusesRule (body fuel indent line after lines)
  | 0, _, _, _, _ => by
    rw [body]
    exact refusesRule_error rfl
  | fuel + 1, indent, line, after, lines => by
    unfold body
    dsimp only
    split_ifs
    · split
      · split_ifs
        · exact refusesRule_block fuel _ _
        · exact refusesRule_error rfl
      · exact refusesRule_error rfl
    · exact (refusesRule_returnLine line _).bind fun _ => refusesRule_ok _

end

theorem refusesRule_parseProgram (lines : List SourceLine) : RefusesRule (parseProgram lines) := by
  refine (refusesRule_block _ _ lines).bind fun parsed => ?_
  obtain ⟨statements, rest⟩ := parsed
  cases rest with
  | nil => exact refusesRule_ok _
  | cons line rest => exact refusesRule_error rfl

end Layout

/-- **Text that is no rule refuses the rule only.** -/
theorem refusesRule_parseBody (text : String) : RefusesRule (parseBody text) := by
  unfold parseBody
  dsimp only
  split
  · exact refusesRule_error rfl
  · split_ifs
    · exact (Layout.refusesRule_parseProgram _).map _
    · exact (refusesRule_parseExpression _).map _

/-- **A text that does not parse is refused for the rule alone.** -/
theorem refusesRule_parseRule (table : Option String) (text : String) :
    RefusesRule (parseRule table text) :=
  (refusesRule_parseBody text).bind fun _ => refusesRule_ok _

end RuleVote
