import RuleVote.Rule.Layout
import RuleVote.Rule.Render
import Mathlib.Data.List.TakeWhile
/-!
# Lines and comments

A text that is put together from lines is cut into the same lines, as long
as none of them is empty, holds a line feed or ends in a carriage return
(`textLines_joinLines`). Taking the comments out only takes characters away:
of each line it leaves a start, and when it leaves less than the line a `#`
is gone, while the cut into lines can only lose carriage returns and a last
line feed. So a text that keeps its `#`s and the characters of its line
breaks is kept whole (`stripComments_eq_of_count`).
-/

namespace RuleVote

/-! ## Cutting a text into lines -/

theorem cutLine_of_notMem {line : List Char} (h : '\n' ∉ line) : cutLine line = (line, none) := by
  induction line with
  | nil => rfl
  | cons c line ih =>
    rw [List.mem_cons, not_or] at h
    rw [cutLine, ih h.2]
    exact Ne.symm h.1

/-- A line is cut at the first line break. -/
theorem cutLine_append {line : List Char} (h : '\n' ∉ line) (rest : List Char) :
    cutLine (line ++ '\n' :: rest) = (line, some rest) := by
  induction line with
  | nil => rfl
  | cons c line ih =>
    rw [List.mem_cons, not_or] at h
    rw [List.cons_append, cutLine, ih h.2]
    exact Ne.symm h.1

theorem textLines_nil : textLines [] = [] := by
  rw [textLines]
  rfl

/-- A text without line breaks is one line. -/
theorem textLines_of_notMem {line : List Char} (h : '\n' ∉ line) (hne : line ≠ []) :
    textLines line = [line] := by
  rw [textLines]
  split
  · next heq =>
    rw [cutLine_of_notMem h] at heq
    cases heq
    rw [if_neg (by simpa using hne)]
  · next heq =>
    rw [cutLine_of_notMem h] at heq
    cases heq

/-- **Lines are cut off one after the other.** -/
theorem textLines_append {line : List Char} (h : '\n' ∉ line) (rest : List Char) :
    textLines (line ++ '\n' :: rest) = dropReturn line :: textLines rest := by
  rw [textLines]
  split
  · next heq =>
    rw [cutLine_append h] at heq
    cases heq
  · next heq =>
    rw [cutLine_append h] at heq
    cases heq
    rfl

/-- Every text is one line, or a line with a line feed in front of a text. -/
@[elab_as_elim]
theorem line_induction {motive : List Char → Prop} (single : ∀ line, '\n' ∉ line → motive line)
    (cons : ∀ line rest, '\n' ∉ line → motive rest → motive (line ++ '\n' :: rest)) :
    ∀ text, motive text := by
  intro text
  induction hlen : text.length using Nat.strong_induction_on generalizing text with
  | _ n ih =>
    by_cases hfeed : '\n' ∈ text
    · obtain ⟨line, rest, rfl, hline⟩ := List.eq_append_cons_of_mem hfeed
      refine cons line rest hline (ih rest.length ?_ rest rfl)
      rw [← hlen, List.length_append, List.length_cons]
      omega
    · exact single text hfeed

/-- Text after a line feed makes further lines. -/
theorem textLines_ne_nil {text : List Char} (h : text ≠ []) : textLines text ≠ [] := by
  induction text using line_induction with
  | single line hline =>
    rw [textLines_of_notMem hline h]
    exact List.cons_ne_nil _ _
  | cons line rest hline _ =>
    rw [textLines_append hline]
    exact List.cons_ne_nil _ _

/-- Dropping a carriage return only drops characters. -/
theorem dropReturn_sublist (line : List Char) : (dropReturn line).Sublist line := by
  rw [dropReturn]
  split
  · exact List.dropLast_sublist line
  · exact List.Sublist.refl line

/-- Only a carriage return is ever dropped. -/
theorem dropReturn_eq_of_count {line : List Char}
    (h : line.count '\r' ≤ (dropReturn line).count '\r') : dropReturn line = line := by
  rw [dropReturn] at h ⊢
  split
  · next hlast =>
    obtain ⟨init, rfl⟩ := List.getLast?_eq_some_iff.1 hlast
    rw [if_pos hlast, List.dropLast_concat, List.count_append, List.count_singleton_self] at h
    omega
  · rfl

namespace Layout

/-! ## Lines put together -/

/-- Lines are joined by line breaks. -/
theorem joinLines_cons {line : List Char} {lines : List (List Char)} (h : lines ≠ []) :
    joinLines (line :: lines) = line ++ '\n' :: joinLines lines := by
  cases lines with
  | nil => exact absurd rfl h
  | cons => rfl

/-- Joining lines puts line breaks between them. -/
theorem joinLines_eq_intercalate (lines : List (List Char)) :
    joinLines lines = List.intercalate ['\n'] lines := by
  induction lines with
  | nil => rfl
  | cons line lines ih =>
    cases lines with
    | nil => exact List.intercalate_singleton.symm
    | cons next lines =>
      rw [joinLines_cons (List.cons_ne_nil _ _), ih, List.intercalate_cons_cons]
      simp

/-- A line that is found again when lines are put together. -/
structure Solid (line : List Char) : Prop where
  /-- It is one line. -/
  notMem : '\n' ∉ line
  /-- It is there at all. -/
  ne_nil : line ≠ []
  /-- Its end is no part of a line break. -/
  getLast : line.getLast? ≠ some '\r'

/-- **Lines put together are cut into the same lines.** -/
theorem textLines_joinLines {lines : List (List Char)} (h : ∀ line ∈ lines, Solid line) :
    textLines (joinLines lines) = lines := by
  induction lines with
  | nil => exact textLines_nil
  | cons line lines ih =>
    have hline := h line (by simp)
    cases lines with
    | nil => exact textLines_of_notMem hline.notMem hline.ne_nil
    | cons next lines =>
      rw [joinLines_cons (by simp), textLines_append hline.notMem,
        ih fun l hl => h l (by simp [hl]), dropReturn, if_neg hline.getLast]

/-! ## Comments -/

/-- What stands before a comment is the start of the line. -/
theorem beforeComment_isPrefix (quote : Option Char) (line : List Char) :
    beforeComment quote line <+: line := by
  induction line generalizing quote with
  | nil => cases quote <;> exact List.prefix_refl _
  | cons c line ih =>
    cases quote with
    | none =>
      rw [beforeComment]
      split
      · exact List.nil_prefix
      · exact List.cons_prefix_cons.2 ⟨rfl, ih _⟩
    | some quote => exact List.cons_prefix_cons.2 ⟨rfl, ih _⟩

/-- A comment starts at its `#`. -/
theorem beforeComment_eq_of_count (quote : Option Char) {line : List Char}
    (h : line.count '#' ≤ (beforeComment quote line).count '#') :
    beforeComment quote line = line := by
  induction line generalizing quote with
  | nil => cases quote <;> rfl
  | cons c line ih =>
    have hcons : ∀ quote', (c :: line).count '#' ≤ (c :: beforeComment quote' line).count '#' →
        c :: beforeComment quote' line = c :: line := by
      intro quote' h
      rw [List.count_cons, List.count_cons, Nat.add_le_add_iff_right] at h
      rw [ih quote' h]
    cases quote with
    | none =>
      rw [beforeComment] at h ⊢
      by_cases hc : c = '#'
      · rw [if_pos hc, hc, List.count_cons_self] at h
        cases h
      · rw [if_neg hc] at h ⊢
        exact hcons _ h
    | some quote => exact hcons _ h

/-- A line that has all of its comment marks without its comment has no comment. -/
theorem stripComment_eq_of_count {line : List Char}
    (h : line.count '#' ≤ (stripComment line).count '#') : stripComment line = line :=
  beforeComment_eq_of_count none h

/-- A line without a comment mark has no comment. -/
theorem stripComment_eq_of_notMem {line : List Char} (h : '#' ∉ line) : stripComment line = line :=
  stripComment_eq_of_count (by rw [List.count_eq_zero_of_not_mem h]; exact Nat.zero_le _)

theorem stripComment_sublist (line : List Char) : (stripComment line).Sublist line :=
  (beforeComment_isPrefix none line).sublist

theorem stripComments_of_notMem {line : List Char} (h : '\n' ∉ line) :
    stripComments line = stripComment line := by
  rw [stripComments]
  rcases eq_or_ne line [] with rfl | hne
  · rw [textLines_nil]
    rfl
  · rw [textLines_of_notMem h hne]
    rfl

/-- Comments are stripped line by line. -/
theorem stripComments_append {line rest : List Char} (h : '\n' ∉ line) (hrest : rest ≠ []) :
    stripComments (line ++ '\n' :: rest) =
      stripComment (dropReturn line) ++ '\n' :: stripComments rest := by
  rw [stripComments, textLines_append h, List.map_cons, joinLines_cons, stripComments]
  simpa using textLines_ne_nil hrest

/-- Taking comments out only takes characters away. -/
theorem stripComments_sublist (text : List Char) : (stripComments text).Sublist text := by
  induction text using line_induction with
  | single line hline =>
    rw [stripComments_of_notMem hline]
    exact stripComment_sublist line
  | cons line rest hline ih =>
    have hfirst := (stripComment_sublist (dropReturn line)).trans (dropReturn_sublist line)
    rcases eq_or_ne rest [] with rfl | hrest
    · rw [stripComments, textLines_append hline, textLines_nil]
      exact hfirst.trans (List.sublist_append_left _ _)
    · rw [stripComments_append hline hrest]
      exact hfirst.append (ih.cons_cons _)

/-- A character that starts a comment or breaks a line. -/
def breaks (c : Char) : Bool := c == '#' || c == '\n' || c == '\r'

/-- **A text that keeps its `#`s and its line breaks is kept whole** when its
comments are taken out. -/
theorem stripComments_eq_of_count {text : List Char}
    (h : ∀ c, breaks c = true → text.count c ≤ (stripComments text).count c) :
    stripComments text = text := by
  induction text using line_induction with
  | single line hline =>
    have hmark := h '#' rfl
    rw [stripComments_of_notMem hline] at hmark ⊢
    exact stripComment_eq_of_count hmark
  | cons line rest hline ih =>
    have hfirst := (stripComment_sublist (dropReturn line)).trans (dropReturn_sublist line)
    rcases eq_or_ne rest [] with rfl | hrest
    · -- the line feed at the end is lost
      have hfeed := h '\n' rfl
      have := hfirst.count_le '\n'
      rw [stripComments, textLines_append hline, textLines_nil, List.count_append,
        List.count_singleton_self] at hfeed
      exact absurd (hfeed.trans this) (Nat.not_succ_le_self _)
    rw [stripComments_append hline hrest] at h ⊢
    -- neither part has more than it had, so each keeps all
    have hparts : ∀ c, breaks c = true → line.count c ≤ (stripComment (dropReturn line)).count c ∧
        rest.count c ≤ (stripComments rest).count c := by
      intro c hc
      have hcount := h c hc
      have := hfirst.count_le c
      have := (stripComments_sublist rest).count_le c
      rw [List.count_append, List.count_append, List.count_cons, List.count_cons] at hcount
      omega
    have hdropped : dropReturn line = line :=
      dropReturn_eq_of_count ((hparts '\r' rfl).1.trans ((stripComment_sublist _).count_le _))
    rw [hdropped] at hparts ⊢
    rw [stripComment_eq_of_count (hparts '#' rfl).1, ih fun c hc => (hparts c hc).2]

/-- Joined lines have their own characters, and a line break between any two. -/
theorem count_joinLines (lines : List (List Char)) (c : Char) :
    (joinLines lines).count c =
      lines.flatten.count c + if c = '\n' then lines.length - 1 else 0 := by
  induction lines with
  | nil => simp [joinLines]
  | cons line lines ih =>
    rcases eq_or_ne lines [] with rfl | hne
    · simp [joinLines]
    have := List.length_pos_iff.2 hne
    rw [joinLines_cons hne, List.flatten_cons, List.count_append, List.count_append,
      List.count_cons, ih, List.length_cons]
    by_cases hc : c = '\n'
    · subst hc
      simp
      omega
    · simp [hc, Ne.symm hc]

theorem joinLines_ne_nil {lines : List (List Char)} (h : ∀ line ∈ lines, Solid line)
    (hne : lines ≠ []) : joinLines lines ≠ [] := by
  cases lines with
  | nil => exact absurd rfl hne
  | cons line lines =>
    have hline := (h line (by simp)).ne_nil
    cases lines with
    | nil => exact hline
    | cons next lines =>
      rw [joinLines_cons (List.cons_ne_nil _ _)]
      simp

/-- Where lines put together have no comment, none of them has one. -/
theorem stripComment_of_joinLines {lines : List (List Char)} (h : ∀ line ∈ lines, Solid line)
    (hstrip : stripComments (joinLines lines) = joinLines lines) :
    ∀ line ∈ lines, stripComment line = line := by
  induction lines with
  | nil => exact List.forall_mem_nil _
  | cons line lines ih =>
    have hline := h line (by simp)
    have hlines : ∀ l ∈ lines, Solid l := fun l hl => h l (by simp [hl])
    rcases eq_or_ne lines [] with rfl | hne
    · rw [joinLines, stripComments_of_notMem hline.notMem] at hstrip
      simpa using hstrip
    rw [joinLines_cons hne, stripComments_append hline.notMem (joinLines_ne_nil hlines hne),
      dropReturn, if_neg hline.getLast] at hstrip
    have hsub := stripComment_sublist line
    have hsub' := stripComments_sublist (joinLines lines)
    have hlen := congrArg List.length hstrip
    simp only [List.length_append, List.length_cons] at hlen
    have := hsub.length_le
    have := hsub'.length_le
    -- no line gets longer, so none gets shorter
    intro l hl
    rcases List.mem_cons.1 hl with rfl | hl
    · exact hsub.eq_of_length (by omega)
    · exact ih hlines (hsub'.eq_of_length (by omega)) l hl

/-! ## Lines of a program -/

/-- The content of a line: what its indentation and its end do not change. -/
structure Trimmed (content : List Char) : Prop where
  /-- It is there at all. -/
  ne_nil : content ≠ []
  /-- It starts with no blank. -/
  head : ∀ c ∈ content.head?, isBlank c = false
  /-- It ends with no blank. -/
  getLast : ∀ c ∈ content.getLast?, isBlank c = false

theorem dropWhile_eq_self {p : Char → Bool} {cs : List Char} (h : ∀ c ∈ cs.head?, p c = false) :
    cs.dropWhile p = cs := by
  cases cs with
  | nil => rfl
  | cons c cs => simp [h c rfl]

/-- Trimming a line that is written gives its content. -/
theorem trimChars_line (level : Nat) {content : List Char} (h : Trimmed content) :
    trimChars (Render.line level content) = content := by
  have htabs : ∀ c ∈ List.replicate level '\t', isBlank c = true := by
    intro c hc
    rw [List.eq_of_mem_replicate hc]
    rfl
  rw [trimChars, trimLeft, Render.line, List.dropWhile_append_of_pos htabs,
    dropWhile_eq_self h.head, trimRight, dropWhile_eq_self, List.reverse_reverse]
  rw [List.head?_reverse]
  exact h.getLast

/-- A line that is written has the indent of its level. -/
theorem indentFrom_line (column level : Nat) {content : List Char} (h : Trimmed content) :
    indentFrom (tabWidth * column) (Render.line level content) = tabWidth * (column + level) := by
  induction level generalizing column with
  | zero =>
    obtain ⟨c, content, rfl⟩ := List.exists_cons_of_ne_nil h.ne_nil
    have hc : isBlank c = false := h.head c rfl
    rw [Render.line, List.replicate_zero, List.nil_append, indentFrom.eq_def]
    split
    · next heq => cases heq; cases hc
    · next heq => cases heq; cases hc
    · rfl
  | succ level ih =>
    have htab : tabWidth * column / tabWidth = column := Nat.mul_div_cancel_left _ (by decide)
    have hnext := ih (column + 1)
    rw [Render.line, List.replicate_succ, List.cons_append, indentFrom, htab, Nat.mul_comm]
    rw [Render.line] at hnext
    rw [hnext]
    congr 1
    omega

/-- **A line that is written is read with its level and its content**, if it has no comment. -/
theorem sourceLine?_line (number level : Nat) {content : List Char} (h : Trimmed content)
    (hstrip : stripComment (Render.line level content) = Render.line level content) :
    sourceLine? number (Render.line level content) = some ⟨number, tabWidth * level, content⟩ := by
  have hindent := indentFrom_line 0 level h
  rw [Nat.mul_zero, Nat.zero_add] at hindent
  rw [sourceLine?, hstrip, trimChars_line level h, hindent]
  rw [if_neg (by simpa using h.ne_nil)]

/-- Lines are numbered on from the number of those before them. -/
theorem numberLines_append (number : Nat) (lines more : List (List Char)) :
    numberLines number (lines ++ more) =
      numberLines number lines ++ numberLines (number + lines.length) more := by
  induction lines generalizing number with
  | nil => rfl
  | cons line lines ih =>
    rw [List.cons_append, numberLines, ih, numberLines, List.append_assoc, List.length_cons]
    congr 3
    omega

end Layout

end RuleVote
