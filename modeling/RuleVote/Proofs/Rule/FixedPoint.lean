import RuleVote.Rule.Basic
import RuleVote.Proofs.Rule.Provenance
import RuleVote.Proofs.Rule.RoundTrip
/-!
# When the normal text is a fixed point

The body that a text is read as is in normal form, so its normal text is
read as this body again wherever taking the comments out leaves that text
alone. Nothing weaker will do. A `#`, a line feed or a carriage return in
the normal text stands in a feature name; if one of them goes with the
comments, too few are left to spell the names, and the second reading gives
another body or none (`parseRule_normalized_iff`).

The two readings differ because quotes are followed twice, in two ways. A
name in double quotes escapes a quote inside it with a backslash, which ends
the name for whoever takes the comments out.
-/

namespace RuleVote

open Layout Grammar Render

variable {table : Option String} {text : String} {b : RuleBody}

/-! ## What a text is read as -/

/-- **A text is read as one expression or as a program.** -/
theorem parseBody_cases (h : parseBody text = .ok b) :
    (∃ e, b = .expression e ∧ parseExpression (stripComments text.toList) = .ok e) ∨
      ∃ indent p, b = .program p ∧ SpellsBlock indent (layout text.toList) p := by
  simp only [parseBody] at h
  split at h
  · cases h
  · next first lines hlines =>
    split at h
    · cases hprogram : parseProgram (layout text.toList) with
      | error => rw [hprogram] at h; cases h
      | ok p =>
        rw [hprogram] at h
        cases h
        rw [hlines] at hprogram ⊢
        exact .inr ⟨first.indent, p, rfl, spells_of_parseProgram hprogram⟩
    · cases hexpr : parseExpression (stripComments text.toList) with
      | error => rw [hexpr] at h; cases h
      | ok e =>
        rw [hexpr] at h
        cases h
        exact .inl ⟨e, rfl, rfl⟩

/-- What a text is read as is in normal form. -/
theorem normal_of_parseBody (h : parseBody text = .ok b) : b.Normal := by
  rcases parseBody_cases h with ⟨e, rfl, hexpr⟩ | ⟨indent, p, rfl, hspells⟩
  · obtain ⟨rest, hjoined, -⟩ := joined_of_parseExpression hexpr
    exact joined_normal hjoined
  · exact spells_normal hspells

/-- **The names of a body stand in what is left of the text** when the
comments are taken out. -/
theorem count_names_le (h : parseBody text = .ok b) (c : Char) :
    (nameChars b.occurrences).count c ≤ (stripComments text.toList).count c := by
  rcases parseBody_cases h with ⟨e, rfl, hexpr⟩ | ⟨indent, p, rfl, hspells⟩
  · obtain ⟨rest, hjoined, -⟩ := joined_of_parseExpression hexpr
    have huses := joined_uses hjoined c
    have hleft := (List.dropWhile_sublist (l := stripComments text.toList) isBlank).count_le c
    exact (Nat.le_add_right _ _).trans (huses.trans hleft)
  · exact (spells_uses hspells c).trans ((contents_layout text.toList).count_le c)

/-- The names of a program are written on its lines. -/
theorem notMem_names_of_program (h : parseBody text = .ok b) (hprogram : b.isProgram = true) :
    '\n' ∉ nameChars b.occurrences := by
  rcases parseBody_cases h with ⟨e, rfl, -⟩ | ⟨indent, p, rfl, hspells⟩
  · cases hprogram
  · have hcount := spells_uses hspells '\n'
    rw [List.count_eq_zero.2 (notMem_contents_layout text.toList)] at hcount
    exact List.count_eq_zero.1 (Nat.le_zero.1 hcount)

/-! ## The second reading -/

/-- **What a normal text read as its own body keeps.** Its comments are taken
out, and it is still all there. -/
theorem stripComments_of_parseBody (htable : TableShaped table)
    (h : parseBody (renderBody table b) = .ok b) :
    stripComments (renderBody table b).toList = (renderBody table b).toList := by
  have hnormal := normal_of_parseBody h
  refine stripComments_eq_of_count fun c hc => ?_
  have hnames := count_names_le h c
  cases b with
  | expression e =>
    rw [toList_renderBody_expression] at hnames ⊢
    rw [count_expr htable hc]
    exact hnames
  | program p =>
    have hfeed := notMem_names_of_program h rfl
    have hsolid := solid_blockLines htable hnormal.2 hfeed
    have hflat : (blockLines table 0 p).flatten.count c =
        (nameChars (RuleBody.program p).occurrences).count c := count_block htable hc p 0 hnormal.2
    rw [toList_renderBody_program] at hnames ⊢
    rcases eq_or_ne c '\n' with rfl | hline
    · -- no line is lost, and the names add no line feed
      rw [stripComments, textLines_joinLines hsolid, count_joinLines, count_joinLines,
        List.length_map, hflat, List.count_eq_zero.2 hfeed]
      omega
    · rw [count_joinLines, if_neg hline, Nat.add_zero, hflat]
      exact hnames

/-- **A normal text is a fixed point exactly where it has no comment** that
the reader of comments would see, and no line break that would be cut short:
the rule that is read from it is the rule that it was written for, with the
same body, features and normal text. -/
theorem parseRule_normalized_iff {rule : ParsedRule} (h : parseRule none text = .ok rule) :
    parseRule none rule.normalized = .ok rule ↔
      stripComments rule.normalized.toList = rule.normalized.toList := by
  have htable := tableShaped_none
  obtain ⟨b, hparse, hrule⟩ := bind_eq_ok_iff.1 h
  cases hrule
  constructor
  · intro hagain
    obtain ⟨b', hparse', hrule'⟩ := bind_eq_ok_iff.1 hagain
    cases hrule'
    exact stripComments_of_parseBody htable hparse'
  · intro hstrip
    have hagain := parseBody_of_stripComments htable (normal_of_parseBody hparse)
      (notMem_names_of_program hparse) hstrip
    exact bind_eq_ok_iff.2 ⟨b, hagain, rfl⟩

/-- A `#` inside the quotes of a name starts no comment. -/
theorem parseRule_normalized_quoted_mark :
    ∃ rule, parseRule none "fm['a#b']" = .ok rule ∧ rule.normalized = "fm[\"a#b\"]" ∧
      parseRule none rule.normalized = .ok rule := by
  have hparse : parseBody "fm['a#b']" = .ok (.expression (.feature "a#b")) := by cbv
  have hrule : parseRule none "fm['a#b']" = .ok ⟨_, _, _⟩ := bind_eq_ok_iff.2 ⟨_, hparse, rfl⟩
  refine ⟨_, hrule, by decide, (parseRule_normalized_iff hrule).2 ?_⟩
  rw [toList_renderBody_expression, stripComments_of_notMem (by decide)]
  decide

/-- A `#` behind a quote inside a name starts one: the quote is escaped in the
normal text, and an escaped quote is taken for the end of the name. -/
theorem parseRule_normalized_escaped_quote :
    ∃ rule, parseRule none "fm['a\"#b']" = .ok rule ∧ rule.normalized = "fm[\"a\\\"#b\"]" ∧
      parseRule none rule.normalized ≠ .ok rule := by
  have hparse : parseBody "fm['a\"#b']" = .ok (.expression (.feature "a\"#b")) := by cbv
  have hrule : parseRule none "fm['a\"#b']" = .ok ⟨_, _, _⟩ := bind_eq_ok_iff.2 ⟨_, hparse, rfl⟩
  refine ⟨_, hrule, by decide, fun hagain => ?_⟩
  obtain ⟨b, hparse', heq⟩ := bind_eq_ok_iff.1 hagain
  cases heq
  have hstrip := stripComments_of_parseBody tableShaped_none hparse'
  rw [toList_renderBody_expression, stripComments_of_notMem (by decide)] at hstrip
  exact absurd hstrip (by decide)

end RuleVote
