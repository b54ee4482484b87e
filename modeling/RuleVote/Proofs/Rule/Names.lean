import RuleVote.Proofs.Rule.ProgramText
/-!
# Names in the normal text

The characters that matter to the layout of a text, a `#` and the two that
break lines, are written by no part of the normal text but the feature names
in it. So a text has as many of each as its names do (`count_expr`,
`count_block`), and a name without them leaves the text without them.
-/

namespace RuleVote

/-- The characters of some names, one name after another. -/
def nameChars (names : List String) : List Char := names.flatMap String.toList

theorem nameChars_append (names names' : List String) :
    nameChars (names ++ names') = nameChars names ++ nameChars names' := List.flatMap_append

namespace Render

open Token Layout

/-- A text without such a character. -/
def Plain (cs : List Char) : Prop := ∀ c ∈ cs, breaks c = false

instance (cs : List Char) : Decidable (Plain cs) := List.decidableBAll _ cs

variable {table : Option String} {c : Char}

theorem Plain.append {cs ds : List Char} (hcs : Plain cs) (hds : Plain ds) : Plain (cs ++ ds) :=
  fun c hc => (List.mem_append.1 hc).elim (hcs c) (hds c)

/-- A plain text has neither a `#` nor a line break. -/
theorem Plain.count {cs : List Char} (h : Plain cs) (hc : breaks c = true) : cs.count c = 0 := by
  rw [List.count_eq_zero]
  intro hmem
  rw [h c hmem] at hc
  cases hc

/-- Text without such a character around another adds none to it. -/
theorem Plain.count_between {cs ds es : List Char} (hcs : Plain cs) (hes : Plain es)
    (hc : breaks c = true) : (cs ++ ds ++ es).count c = ds.count c := by
  rw [List.count_append, List.count_append, hcs.count hc, hes.count hc, Nat.zero_add, Nat.add_zero]

theorem breaks_of_inWord {c : Char} (h : inWord c = true) : breaks c = false := by
  have := toNat_of_inWord h
  rw [Bool.eq_false_iff]
  intro hbreaks
  simp only [breaks, Bool.or_eq_true, beq_iff_eq] at hbreaks
  rcases hbreaks with (rfl | rfl) | rfl <;> simp at this

/-- Words are plain. -/
theorem plain_of_word {cs : List Char} (h : WordShaped cs) : Plain cs :=
  fun c hc => breaks_of_inWord (h.inWord c hc)

/-! ## Literals and features -/

theorem plain_positional (d : Decimal) : Plain d.positional := by
  intro c hc
  rcases Decimal.mem_positional hc with hdigit | rfl
  · exact breaks_of_inWord (inWord_of_isDigit hdigit)
  · rfl

/-- Literals are plain. -/
theorem plain_literal (value : Literal) : Plain (literal value) := by
  cases value with
  | truth b => cases b <;> decide
  | number x =>
    rw [literal, positionalText]
    split
    · decide
    · split <;> decide
    · have := plain_positional (shortestSingle .up x)
      dsimp only
      rw [String.toList_ofList]
      split
      · exact (show Plain ['-'] by decide).append this
      · exact this

/-- Escaping adds no `#` and no line break. -/
theorem count_escape (hc : breaks c = true) (name : List Char) :
    (name.flatMap escapeChar).count c = name.count c := by
  induction name with
  | nil => rfl
  | cons d name ih =>
    rw [List.flatMap_cons, List.count_append, ih, List.count_cons, escapeChar]
    split
    -- the backslash in front is no such character
    · have hslash : '\\' ≠ c := by rintro rfl; cases hc
      rw [List.count_cons_of_ne hslash, List.count_singleton, Nat.add_comm]
    · rw [List.count_singleton, Nat.add_comm]

/-- The text of a feature has a `#` or a line break as often as its name. -/
theorem count_feature (htable : TableShaped table) (hc : breaks c = true) (name : String) :
    (feature table name).count c = name.toList.count c := by
  have lookup : ∀ t : String, isIdentifier t = true →
      (t.toList ++ '[' :: '"' :: name.toList.flatMap escapeChar ++ ['"', ']']).count c =
        name.toList.count c := by
    intro t ht
    have hopen := (plain_of_word (isIdentifier_iff.1 ht).1).append
      (show Plain ['[', '"'] by decide)
    have hclose : Plain ['"', ']'] := by decide
    have hsplit : t.toList ++ '[' :: '"' :: name.toList.flatMap escapeChar ++ ['"', ']'] =
        t.toList ++ ['[', '"'] ++ name.toList.flatMap escapeChar ++ ['"', ']'] := by simp
    rw [hsplit, hopen.count_between hclose hc, count_escape hc]
  cases table with
  | some t => exact lookup t (htable t rfl)
  | none =>
    rw [feature.eq_def]
    dsimp only
    split
    · rfl
    · exact lookup defaultTable (by decide)

/-! ## Expressions -/

theorem plain_spaced {word : String} (h : Plain word.toList) : Plain (spaced word) :=
  (show Plain [' '] by decide).append (h.append (show Plain [' '] by decide))

/-- Parentheses add no `#` and no line break. -/
theorem count_parenthesized (hc : breaks c = true) (cs : List Char) :
    ('(' :: cs ++ [')']).count c = cs.count c :=
  Plain.count_between (show Plain ['('] by decide) (show Plain [')'] by decide) hc

mutual

/-- **A line break or a comment in the text of an expression is in the names
it reads**, as often as there. -/
theorem count_expr (htable : TableShaped table) (hc : breaks c = true) :
    ∀ e : Expr, (expr table e).count c = (nameChars e.occurrences).count c
  | .literal value => (plain_literal value).count hc
  | .feature name => by
    have hname : nameChars (Expr.feature name).occurrences = name.toList := List.append_nil _
    rw [hname]
    exact count_feature htable hc name
  | .comparison first links => by
    have hnames : nameChars (Expr.comparison first links).occurrences =
        nameChars first.occurrences ++ nameChars (Expr.linkOccurrences links) :=
      nameChars_append _ _
    rw [expr_comparison, hnames, List.cons_append, count_parenthesized hc, List.count_append,
      List.count_append, count_expr htable hc first, count_linkTexts htable hc links]
  | .connected op operands => by
    rw [expr_connected, count_parenthesized hc]
    exact count_operandTexts htable hc op operands
  | .unary .minus e => by
    have hminus : (['-'] ++ expr table e ++ []).count c = (expr table e).count c :=
      Plain.count_between (by decide) (by decide) hc
    rw [List.append_nil] at hminus
    exact hminus.trans (count_expr htable hc e)
  | .unary .not e => by
    rw [expr_not, Plain.count_between (by decide) (by decide) hc]
    exact count_expr htable hc e

theorem count_linkTexts (htable : TableShaped table) (hc : breaks c = true) :
    ∀ links : List (Comparator × Expr),
      (linkTexts table links).count c = (nameChars (Expr.linkOccurrences links)).count c
  | [] => rfl
  | (op, right) :: links => by
    have hop : Plain op.symbol.toList := by cases op <;> decide
    have hnames : nameChars (Expr.linkOccurrences ((op, right) :: links)) =
        nameChars right.occurrences ++ nameChars (Expr.linkOccurrences links) :=
      nameChars_append _ _
    rw [linkTexts_cons, hnames, List.count_append, List.count_append, List.count_append,
      (plain_spaced hop).count hc, count_expr htable hc right, count_linkTexts htable hc links,
      Nat.zero_add]

theorem count_operandTexts (htable : TableShaped table) (hc : breaks c = true) (op : Connective) :
    ∀ operands : List Expr, (operandTexts table op operands).count c =
      (nameChars (Expr.operandOccurrences operands)).count c
  | [] => rfl
  | [operand] => by
    have hnames : nameChars (Expr.operandOccurrences [operand]) =
        nameChars operand.occurrences := by
      rw [Expr.operandOccurrences, Expr.operandOccurrences, List.append_nil]
    rw [operandTexts_singleton, hnames, count_expr htable hc operand]
  | first :: second :: operands => by
    have hop : Plain op.keyword.toList := by cases op <;> decide
    have hnames : nameChars (Expr.operandOccurrences (first :: second :: operands)) =
        nameChars first.occurrences ++ nameChars (Expr.operandOccurrences (second :: operands)) :=
      nameChars_append _ _
    rw [operandTexts_cons, hnames, List.count_append, List.count_append, List.count_append,
      (plain_spaced hop).count hc, count_expr htable hc first,
      count_operandTexts htable hc op (second :: operands), Nat.add_zero]

end

/-! ## Programs -/

theorem count_line (hc : breaks c = true) (level : Nat) (content : List Char) :
    (line level content).count c = content.count c := by
  have htabs : Plain (List.replicate level '\t') := by
    intro d hd
    rw [List.eq_of_mem_replicate hd]
    rfl
  rw [line, List.count_append, htabs.count hc, Nat.zero_add]

/-- The text of a target is plain. -/
theorem plain_target {t : ReturnTarget} (h : t.Normal) : Plain (target t) := by
  intro c hc
  rcases (target_chars h).2 c hc with hword | rfl
  · exact breaks_of_inWord hword
  · rfl

/-- A header has a `#` or a line break as often as the names of its condition. -/
theorem count_header (htable : TableShaped table) (hc : breaks c = true) {keyword : String}
    (hkeyword : Plain keyword.toList) (level : Nat) (condition : Expr) :
    (line level (keyword.toList ++ ' ' :: expr table condition ++ [':'])).count c =
      (nameChars condition.occurrences).count c := by
  have hsplit : keyword.toList ++ ' ' :: expr table condition ++ [':'] =
      keyword.toList ++ [' '] ++ expr table condition ++ [':'] := by simp
  rw [count_line hc, hsplit, (hkeyword.append (show Plain [' '] by decide)).count_between
    (show Plain [':'] by decide) hc, count_expr htable hc]

mutual

/-- The lines of a statement have a `#` or a line break as often as its names. -/
theorem count_statement (htable : TableShaped table) (hc : breaks c = true) :
    ∀ (s : Statement ReturnTarget) (level : Nat), s.Normal →
      (statement table level s).flatten.count c = (nameChars s.occurrences).count c
  | .give t, level, h => by
    have hplain := (show Plain "return ".toList by decide).append (plain_target h)
    rw [statement_give, List.flatten_cons, List.flatten_nil, List.append_nil, count_line hc,
      hplain.count hc]
    rfl
  | .conditional branches otherwise, level, ⟨_, hbranches, hotherwise⟩ => by
    have hnames : nameChars (Statement.conditional branches otherwise).occurrences =
        nameChars (Statement.branchOccurrences branches) ++
          nameChars (Statement.elseOccurrences otherwise) := nameChars_append _ _
    rw [statement_conditional, hnames, List.flatten_append, List.count_append, List.count_append,
      count_branchLines htable hc branches (by decide) level hbranches,
      count_elseLines htable hc otherwise level hotherwise]

theorem count_branchLines (htable : TableShaped table) (hc : breaks c = true) :
    ∀ (branches : List (Expr × Block ReturnTarget)) {keyword : String}, Plain keyword.toList →
      ∀ level, Statement.BranchesNormal branches →
      (branchLines table level keyword branches).flatten.count c =
        (nameChars (Statement.branchOccurrences branches)).count c
  | [], _, _, _, _ => rfl
  | (condition, body) :: branches, keyword, hkeyword, level, ⟨_, _, hbody, hbranches⟩ => by
    have hnames : nameChars (Statement.branchOccurrences ((condition, body) :: branches)) =
        nameChars condition.occurrences ++ nameChars (Statement.blockOccurrences body) ++
          nameChars (Statement.branchOccurrences branches) := by
      rw [← nameChars_append, ← nameChars_append]
      rfl
    rw [branchLines_cons, hnames, List.flatten_append, List.flatten_cons, List.count_append,
      List.count_append, List.count_append, List.count_append, count_header htable hc hkeyword,
      count_block htable hc body (level + 1) hbody,
      count_branchLines htable hc branches (by decide) level hbranches]

theorem count_elseLines (htable : TableShaped table) (hc : breaks c = true) :
    ∀ (otherwise : Option (Block ReturnTarget)) (level : Nat), Statement.ElseNormal otherwise →
      (elseLines table level otherwise).flatten.count c =
        (nameChars (Statement.elseOccurrences otherwise)).count c
  | none, _, _ => rfl
  | some body, level, ⟨_, hbody⟩ => by
    have hnames : nameChars (Statement.elseOccurrences (some body)) =
        nameChars (Statement.blockOccurrences body) := rfl
    rw [elseLines_some, hnames, List.flatten_cons, List.count_append, count_line hc,
      (show Plain "else:".toList by decide).count hc, Nat.zero_add,
      count_block htable hc body (level + 1) hbody]

/-- **A line break or a comment inside the lines of a block is in the names
it reads**, as often as there. -/
theorem count_block (htable : TableShaped table) (hc : breaks c = true) :
    ∀ (b : Block ReturnTarget) (level : Nat), Statement.BlockNormal b →
      (blockLines table level b).flatten.count c =
        (nameChars (Statement.blockOccurrences b)).count c
  | [], _, _ => rfl
  | s :: b, level, ⟨hs, hb⟩ => by
    have hnames : nameChars (Statement.blockOccurrences (s :: b)) =
        nameChars s.occurrences ++ nameChars (Statement.blockOccurrences b) := nameChars_append _ _
    rw [blockLines_cons, hnames, List.flatten_append, List.count_append, List.count_append,
      count_statement htable hc s level hs, count_block htable hc b level hb]

end

/-- A `#` or a line break that no name has is not in the text of an expression. -/
theorem notMem_expr (htable : TableShaped table) (hc : breaks c = true) {e : Expr}
    (h : c ∉ nameChars e.occurrences) : c ∉ expr table e := by
  have hcount := count_expr htable hc e
  rwa [List.count_eq_zero.2 h, List.count_eq_zero] at hcount

/-- A `#` or a line break that no name has is in no line of a block. -/
theorem notMem_blockLines (htable : TableShaped table) (hc : breaks c = true)
    {b : Block ReturnTarget} {level : Nat} (hb : Statement.BlockNormal b)
    (h : c ∉ nameChars (Statement.blockOccurrences b)) :
    ∀ l ∈ blockLines table level b, c ∉ l := by
  have hcount := count_block htable hc b level hb
  rw [List.count_eq_zero.2 h, List.count_eq_zero] at hcount
  exact fun l hl hmem => hcount (List.mem_flatten.2 ⟨l, hl, hmem⟩)

end Render

end RuleVote
