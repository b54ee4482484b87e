import RuleVote.Rule.Basic
import RuleVote.Proofs.Number.Order
import RuleVote.Proofs.Rule.Evaluation
import RuleVote.Proofs.Table.Shape
/-!
# The other rows of a comparison

A rule that is a single comparison has a negated comparator, which is offered
for the rows that the rule does not select. Equality and its negation are
complementary on all values. The comparators of the order are so on numbers
only: a value that is no number stands in none of the four relations, so a row
that has one for an operand is selected by neither of the two comparisons
(`holds_negated_iff`). A table may hold such values.
-/

namespace RuleVote

namespace Comparator

/-- Whether the comparator asks for equality, and not for an order. -/
def isEquality : Comparator → Bool
  | equal | notEqual => true
  | less | lessEqual | greaterEqual | greater => false

/-- Of two values one is below the other or not, as long as both are numbers. -/
theorem le_eq_not_lt_iff {x y : Float32} :
    decide (y ≤ x) = !decide (x < y) ↔ x.isNaN = false ∧ y.isNaN = false := by
  constructor
  · intro h
    by_cases hlt : x < y
    · obtain ⟨hx, hy, -⟩ := single_lt_iff.1 hlt
      exact ⟨hx, hy⟩
    · rw [decide_eq_false hlt, Bool.not_false, decide_eq_true_iff] at h
      obtain ⟨hy, hx, -⟩ := single_le_iff_standing.1 h
      exact ⟨hx, hy⟩
  · rintro ⟨hx, hy⟩
    have hle : y ≤ x ↔ ¬x < y := by
      rw [single_le_iff_standing, single_lt_iff, hx, hy]
      simp only [true_and, not_lt]
    rw [decide_eq_decide.2 hle, decide_not]

/-- **A comparator and its negation part the values** where they ask for
equality, or compare two numbers, and only there. -/
theorem holds_negated_iff (op : Comparator) (x y : Float32) :
    op.negated.holds x y = !op.holds x y ↔
      op.isEquality = true ∨ x.isNaN = false ∧ y.isNaN = false := by
  have hnot : ∀ {a b : Bool}, a = !b ↔ b = !a := by decide
  cases op with
  | equal => exact iff_of_true rfl (.inl rfl)
  | notEqual => exact iff_of_true (Bool.not_not _).symm (.inl rfl)
  | less => exact le_eq_not_lt_iff.trans (by simp [isEquality])
  | lessEqual => exact (hnot.trans le_eq_not_lt_iff).trans (by simp [isEquality, and_comm])
  | greaterEqual => exact (hnot.trans le_eq_not_lt_iff).trans (by simp [isEquality])
  | greater => exact le_eq_not_lt_iff.trans (by simp [isEquality, and_comm])

/-- **No two values are in a relation and in its negation.** -/
theorem not_holds_both (op : Comparator) (x y : Float32) :
    ¬(op.holds x y = true ∧ op.negated.holds x y = true) := by
  have horder : ∀ {a b : Float32}, a < b → ¬b ≤ a := fun hlt hle =>
    not_le.2 (single_lt_iff.1 hlt).2.2 (single_le_iff_standing.1 hle).2.2
  have hequal : ∀ {a b : Float32}, (a == b) = true → ¬(a != b) = true := fun hbeq hne =>
    absurd hbeq (by simpa [bne] using hne)
  rintro ⟨h, h'⟩
  cases op with
  | equal => exact hequal h h'
  | notEqual => exact hequal h' h
  | less => exact horder (of_decide_eq_true h) (of_decide_eq_true h')
  | lessEqual => exact horder (of_decide_eq_true h') (of_decide_eq_true h)
  | greaterEqual => exact horder (of_decide_eq_true h') (of_decide_eq_true h)
  | greater => exact horder (of_decide_eq_true h) (of_decide_eq_true h')

end Comparator

/-- A comparison with operands that have values. -/
theorem Expr.holds_singleLink {row : Row} {left right : Expr} {x y : Float32}
    (hleft : left.eval row = .ok x) (hright : right.eval row = .ok y) (op : Comparator) :
    (comparison left [(op, right)]).holds row = .ok (op.holds x y) := by
  rw [holds, eval_singleLink hleft, hright]
  exact congrArg Except.ok (isTrue_truthValue _)

namespace Rule

variable {r : Rule} {op' : Comparator}

/-- **A rule has a negated comparator exactly if it is a single comparison.** -/
theorem negatedComparison?_eq_some_iff : r.negatedComparison? = some op' ↔ ∃ left op right,
    parseBody r.expression = .ok (.expression (.comparison left [(op, right)])) ∧
      op' = op.negated := by
  rw [negatedComparison?]
  constructor
  · intro h
    split at h
    · next left op right hparse => exact ⟨left, op, right, hparse, (Option.some.inj h).symm⟩
    · cases h
  · rintro ⟨left, op, right, hparse, rfl⟩
    rw [hparse]

/-- **The negated comparator selects exactly the rows that the rule does not
select**, of every table with its features, where it asks for equality or
compares two numbers. On any other row neither comparison holds. -/
theorem negatedComparison_selects_rest_iff (h : r.negatedComparison? = some op')
    {table : FeatureTable} (htable : table.Built) : ∃ left op right,
    parseBody r.expression = .ok (.expression (.comparison left [(op, right)])) ∧
      ((∀ name ∈ (Expr.comparison left [(op, right)]).occurrences, table.hasColumn name = true) →
        ∀ i < table.size, ∃ x y selected others,
          left.eval (table.row i) = .ok x ∧ right.eval (table.row i) = .ok y ∧
          (Expr.comparison left [(op, right)]).holds (table.row i) = .ok selected ∧
          (Expr.comparison left [(op', right)]).holds (table.row i) = .ok others ∧
          (others = !selected ↔ op.isEquality = true ∨ x.isNaN = false ∧ y.isNaN = false) ∧
          ¬(selected = true ∧ others = true)) := by
  obtain ⟨left, op, right, hparse, rfl⟩ := negatedComparison?_eq_some_iff.1 h
  refine ⟨left, op, right, hparse, fun hcolumns i hi => ?_⟩
  -- an operand reads columns of the table only, and those have a value on every row
  have hvalue : ∀ e : Expr, e.occurrences ⊆ (Expr.comparison left [(op, right)]).occurrences →
      ∃ x, e.eval (table.row i) = .ok x := fun e hsub =>
    (e.faultsAmong_eval (table.row i)).exists_ok fun name hname =>
      htable.shaped.row_ne_none hi (hcolumns name (hsub hname))
  obtain ⟨x, hx⟩ := hvalue left (List.subset_append_left _ _)
  obtain ⟨y, hy⟩ := hvalue right fun name hname =>
    List.mem_append_right _ (List.mem_append_left _ hname)
  exact ⟨x, y, _, _, hx, hy, Expr.holds_singleLink hx hy op, Expr.holds_singleLink hx hy op.negated,
    op.holds_negated_iff x y, op.not_holds_both x y⟩

/-- Of a loud item and a quiet one, each is selected by one of the comparisons. -/
theorem negatedComparison_selects_rest_threshold :
    let r : Rule := ⟨"loud", none, "noise > 0.5", 1, 0⟩
    let table : FeatureTable := ⟨["a", "b"], [⟨"noise", [1, 0]⟩], none⟩
    r.negatedComparison? = some .lessEqual ∧ table.Built ∧ ∃ left op right,
      parseBody r.expression = .ok (.expression (.comparison left [(op, right)])) ∧
        ∀ i < table.size, ∃ x y selected others,
          left.eval (table.row i) = .ok x ∧ right.eval (table.row i) = .ok y ∧
          (Expr.comparison left [(op, right)]).holds (table.row i) = .ok selected ∧
          (Expr.comparison left [(.lessEqual, right)]).holds (table.row i) = .ok others ∧
          (others = !selected ↔ op.isEquality = true ∨ x.isNaN = false ∧ y.isNaN = false) ∧
          ¬(selected = true ∧ others = true) := by
  intro r table
  have hnegated : r.negatedComparison? = some .lessEqual := by decide +kernel
  have htable : table.Built :=
    .new (show FeatureTable.new table.keys table.columns = .ok table by decide +kernel)
  obtain ⟨left, op, right, hparse, hrest⟩ := negatedComparison_selects_rest_iff hnegated htable
  refine ⟨hnegated, htable, left, op, right, hparse, hrest fun name hname => ?_⟩
  have hnames : (parseBody r.expression).toOption.map RuleBody.occurrences = some ["noise"] := by
    decide +kernel
  rw [hparse] at hnames
  obtain rfl : name = "noise" := List.mem_singleton.1 (Option.some.inj hnames ▸ hname)
  decide +kernel

/-- An item whose noise is no number is selected by neither comparison. -/
theorem negatedComparison_selects_neither :
    let r : Rule := ⟨"loud", none, "noise > limit", 1, 0⟩
    let table : FeatureTable :=
      ⟨["a"], [⟨"noise", [notANumber]⟩, ⟨"limit", [0.5]⟩], none⟩
    ∃ left op right op', parseBody r.expression =
        .ok (.expression (.comparison left [(op, right)])) ∧
      r.negatedComparison? = some op' ∧ table.Built ∧
      (∀ name ∈ (Expr.comparison left [(op, right)]).occurrences, table.hasColumn name = true) ∧
      0 < table.size ∧
      (Expr.comparison left [(op, right)]).holds (table.row 0) = .ok false ∧
      (Expr.comparison left [(op', right)]).holds (table.row 0) = .ok false := by
  intro r table
  have hparse : parseBody r.expression =
      .ok (.expression (.comparison (.feature "noise") [(.greater, .feature "limit")])) := by cbv
  have htable : table.Built :=
    .new (show FeatureTable.new table.keys table.columns = .ok table by decide +kernel)
  exact ⟨_, _, _, _, hparse, negatedComparison?_eq_some_iff.2 ⟨_, _, _, hparse, rfl⟩, htable,
    by decide +kernel, by decide +kernel, by decide +kernel, by decide +kernel⟩

end Rule

end RuleVote
