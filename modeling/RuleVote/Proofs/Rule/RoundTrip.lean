import RuleVote.Proofs.Rule.Names
/-!
# Reading the normal text back

What `renderBody` writes for a body in normal form, `parseBody` reads as
this body, as long as no comment is taken out of the text on the way
(`parseBody_of_stripComments`). Three things meet here: the first line
decides that an expression is no program (`opening_expr`), the text of an
expression is derived from it, and the lines of a program spell it. A name
without a `#` and without a line feed keeps comments out of the text.
-/

namespace RuleVote

namespace Layout

open Token

/-! ## The first line -/

/-- A character that is found in the first line of a text just as it stands. -/
def firm (c : Char) : Bool := !isBlank c && c != '#' && c != '"' && c != '\''

/-- A firm character is none of the blanks, quotes and the comment mark. -/
theorem firm_iff {c : Char} :
    firm c = true ↔ isBlank c = false ∧ c ≠ '#' ∧ c ≠ '"' ∧ c ≠ '\'' := by
  simp [firm, and_assoc]

/-- Characters of words are firm. -/
theorem firm_of_inWord {c : Char} (h : inWord c = true) : firm c = true := by
  have hblank := isBlank_of_inWord h
  rw [firm_iff]
  refine ⟨hblank, ?_, ?_, ?_⟩ <;> rintro rfl <;> simp [inWord] at h

variable {start : List Char}

theorem notMem_of_firm (h : ∀ c ∈ start, firm c = true) : '\n' ∉ start :=
  fun hmem => absurd (h _ hmem) (by decide)

/-- No comment starts among firm characters. -/
theorem beforeComment_append (rest : List Char) (h : ∀ c ∈ start, firm c = true) :
    beforeComment none (start ++ rest) = start ++ beforeComment none rest := by
  induction start with
  | nil => rfl
  | cons c start ih =>
    obtain ⟨-, hmark, hdouble, hsingle⟩ := firm_iff.1 (h c (by simp))
    rw [List.cons_append, beforeComment, if_neg hmark, if_neg (by simp [hdouble, hsingle]),
      ih fun d hd => h d (by simp [hd]), List.cons_append]

/-- A carriage return is not dropped from among firm characters. -/
theorem dropReturn_append (rest : List Char) (h : ∀ c ∈ start, firm c = true) :
    ∃ more, dropReturn (start ++ rest) = start ++ more ∧ more <+: rest := by
  rw [dropReturn]
  split
  · next hlast =>
    rcases eq_or_ne rest [] with rfl | hrest
    · rw [List.append_nil] at hlast
      exact absurd (h _ (List.mem_of_getLast? hlast)) (by decide)
    · exact ⟨rest.dropLast, List.dropLast_append_of_ne_nil hrest, List.dropLast_prefix rest⟩
  · exact ⟨rest, rfl, List.prefix_refl _⟩

/-- Firm characters in front are not trimmed. -/
theorem trimChars_append (rest : List Char) (hne : start ≠ [])
    (h : ∀ c ∈ start, firm c = true) :
    ∃ more, trimChars (start ++ rest) = start ++ more ∧ more <+: rest := by
  have hblank : ∀ c ∈ start, isBlank c = false := fun c hc => (firm_iff.1 (h c hc)).1
  have hleft : trimLeft (start ++ rest) = start ++ rest := by
    obtain ⟨c, start, rfl⟩ := List.exists_cons_of_ne_nil hne
    exact dropWhile_eq_self (by rintro _ ⟨⟩; exact hblank c (by simp))
  have hstart : start.reverse.dropWhile isBlank = start.reverse := by
    refine dropWhile_eq_self fun c hc => hblank c ?_
    rw [List.head?_reverse] at hc
    exact List.mem_of_getLast? hc
  rw [trimChars, hleft, trimRight, List.reverse_append, List.dropWhile_append, hstart]
  split
  · exact ⟨[], by simp, List.nil_prefix⟩
  · refine ⟨(rest.reverse.dropWhile isBlank).reverse, by simp, ?_⟩
    rw [← List.reverse_suffix, List.reverse_reverse]
    exact List.dropWhile_suffix _

/-- **The first line of a program starts as its text does**, as far as there
is neither a blank nor the start of a comment or a quoted name. -/
theorem layout_append (rest : List Char) (hne : start ≠ [])
    (h : ∀ c ∈ start, firm c = true) :
    ∃ indent more lines, layout (start ++ rest) = ⟨1, indent, start ++ more⟩ :: lines ∧
      more <+: rest := by
  have hfirst : ∃ first lines, textLines (start ++ rest) = (start ++ first) :: lines ∧
      first <+: rest := by
    have hstart := notMem_of_firm h
    induction rest using line_induction with
    | single rest hrest =>
      refine ⟨rest, [], textLines_of_notMem ?_ (by simp [hne]), List.prefix_refl _⟩
      exact fun hmem => (List.mem_append.1 hmem).elim hstart hrest
    | cons rest after hrest _ =>
      obtain ⟨first, hfirst, hprefix⟩ := dropReturn_append rest h
      refine ⟨first, textLines after, ?_, hprefix.trans (List.prefix_append _ _)⟩
      rw [← List.append_assoc, textLines_append, hfirst]
      exact fun hmem => (List.mem_append.1 hmem).elim hstart hrest
  obtain ⟨first, lines, hlines, hprefix⟩ := hfirst
  have hstrip : stripComment (start ++ first) = start ++ stripComment first :=
    beforeComment_append first h
  obtain ⟨more, htrim, hmore⟩ := trimChars_append (stripComment first) hne h
  refine ⟨indentFrom 0 (start ++ stripComment first), more, numberLines 2 lines, ?_,
    hmore.trans ((beforeComment_isPrefix none first).trans hprefix)⟩
  rw [layout, hlines, numberLines, sourceLine?, hstrip, htrim, if_neg (by simp [hne])]
  rfl

end Layout

namespace Render

open Token Grammar Layout

variable {table : Option String}

/-! ## Expressions -/

/-- No keyword starts with a character that starts no word. -/
theorem startsWith_cons {word : String} (hword : WordShaped word.toList) {c : Char}
    (hc : startsWord c = false) (cs : List Char) : startsWith word (c :: cs) = false := by
  rw [Bool.eq_false_iff]
  intro h
  obtain ⟨rest, hkeyword⟩ := startsWith_iff.1 h
  obtain ⟨d, tail, heq, hd⟩ := Word.head ⟨hword, hkeyword⟩
  cases heq
  rw [hc] at hd
  cases hd

/-- What a text starts with keeps it from being taken for a program, even
where only its first line is looked at. -/
def Opening (text : List Char) : Prop :=
  ∃ start rest, text = start ++ rest ∧ start ≠ [] ∧ (∀ c ∈ start, firm c = true) ∧
    ∀ more, more <+: rest → startsWith "if" (start ++ more) = false ∧
      startsWith "return" (start ++ more) = false

theorem opening_cons {c : Char} (hfirm : firm c = true) (hc : startsWord c = false)
    (cs : List Char) : Opening (c :: cs) :=
  ⟨[c], cs, rfl, List.cons_ne_nil _ _, by simpa using hfirm, fun more _ =>
    ⟨startsWith_cons (by decide) hc more, startsWith_cons (by decide) hc more⟩⟩

/-- A name opens an expression unless it is the keyword of a program. -/
theorem opening_word {name : String} {cs rest : List Char} (h : Word name cs rest)
    (hif : name ≠ "if") (hreturn : name ≠ "return") : Opening cs := by
  obtain ⟨hshape, rfl, hend⟩ := h
  refine ⟨name.toList, rest, rfl, ?_, fun c hc => firm_of_inWord (hshape.inWord c hc),
    fun more hmore => ?_⟩
  · intro hnil
    rw [hnil] at hshape
    exact hshape
  · have hword : Word name (name.toList ++ more) more := by
      refine ⟨hshape, rfl, ?_⟩
      cases more with
      | nil => rfl
      | cons c more =>
        obtain ⟨after, rfl⟩ := hmore
        exact hend
    exact ⟨startsWith_eq_false hword.2 hshape (by decide) hif,
      startsWith_eq_false hword.2 hshape (by decide) hreturn⟩

theorem trimLeft_of_opening {text : List Char} (h : Opening text) : trimLeft text = text := by
  obtain ⟨start, rest, rfl, hne, hfirm, -⟩ := h
  obtain ⟨c, start, rfl⟩ := List.exists_cons_of_ne_nil hne
  exact dropWhile_eq_self (by rintro _ ⟨⟩; exact (firm_iff.1 (hfirm c (by simp))).1)

/-- The text of a number opens an expression. -/
theorem opening_number {x : Float32} (h : IsFinite x) : Opening (literal (.number x)) := by
  have hdigits : Opening (shortestSingle .up x).positional := by
    have hnumber := @number_positional _ h [] rfl
    rw [List.append_nil] at hnumber
    obtain ⟨c, tail, heq, hc⟩ := hnumber.head
    rw [heq]
    rcases hc with hdigit | rfl
    · refine opening_cons (firm_of_inWord (inWord_of_isDigit hdigit)) ?_ tail
      rw [Bool.eq_false_iff]
      intro hstart
      rw [isDigit_of_startsWord hstart] at hdigit
      cases hdigit
    · exact opening_cons rfl rfl tail
  obtain ⟨negative, _, _, hx⟩ := h
  rw [literal, positionalText, hx]
  dsimp only
  rw [String.toList_ofList]
  cases negative with
  | false => exact hdigits
  | true => exact opening_cons rfl rfl _

/-- The text of a feature opens an expression. -/
theorem opening_feature (htable : TableShaped table) (name : String) :
    Opening (feature table name) := by
  have opening : ∀ {t : String} {cs : List Char}, isIdentifier t = true → atWordEnd cs = true →
      Opening (t.toList ++ cs) := by
    intro t cs ht hcs
    obtain ⟨hshape, hkeyword⟩ := isIdentifier_iff.1 ht
    refine opening_word ⟨hshape, rfl, hcs⟩ ?_ ?_
    · rintro rfl
      exact hkeyword (by decide)
    · rintro rfl
      exact hkeyword (by decide)
  have lookup : ∀ t : String, isIdentifier t = true →
      Opening (t.toList ++ '[' :: '"' :: name.toList.flatMap escapeChar ++ ['"', ']']) := by
    intro t ht
    rw [List.append_assoc]
    exact opening ht rfl
  cases table with
  | some t => exact lookup t (htable t rfl)
  | none =>
    rw [feature.eq_def]
    dsimp only
    split
    · next hid =>
      rw [← List.append_nil name.toList]
      exact opening hid rfl
    · exact lookup defaultTable (by decide)

/-- **The text of an expression is never taken for a program.** -/
theorem opening_expr (htable : TableShaped table) {e : Expr} (h : e.Normal) :
    Opening (expr table e) := by
  match e, h with
  | .literal (.number x), h => exact opening_number h
  | .literal (.truth true), _ =>
    exact @opening_word "True" _ [] ⟨by decide, rfl, rfl⟩ (by decide) (by decide)
  | .literal (.truth false), _ =>
    exact @opening_word "False" _ [] ⟨by decide, rfl, rfl⟩ (by decide) (by decide)
  | .feature name, _ => exact opening_feature htable name
  | .comparison _ _, _ => exact opening_cons rfl rfl _
  | .connected _ _, _ => exact opening_cons rfl rfl _
  | .unary .minus _, _ => exact opening_cons rfl rfl _
  | .unary .not _, _ => exact opening_cons rfl rfl _

/-- **An expression in normal form is read from its text.** -/
theorem parseExpression_expr (htable : TableShaped table) {e : Expr} (h : e.Normal) :
    parseExpression (expr table e) = .ok e := by
  have hleft := trimLeft_of_opening (opening_expr htable h)
  have hread := @signed_expr _ htable e [] h rfl
  rw [List.append_nil, ← hleft] at hread
  have hjoined := joined_of_operand (operand_of_negated (negated_of_signed hread))
  exact parseExpression_of_joined hjoined (List.forall_mem_nil _)

/-! ## Bodies -/

/-- The lines of a block are found again when they are put together, unless a name breaks one. -/
theorem solid_blockLines (htable : TableShaped table) {b : Block ReturnTarget}
    (h : Statement.BlockNormal b) (hnames : '\n' ∉ nameChars (Statement.blockOccurrences b)) :
    ∀ l ∈ blockLines table 0 b, Solid l := by
  intro l hl
  have hfeed := notMem_blockLines htable rfl h hnames l hl
  obtain ⟨level, content, rfl, htrimmed⟩ := indented_block table b 0 h l hl
  refine ⟨hfeed, ?_, ?_⟩
  · simp [line, htrimmed.ne_nil]
  · intro hlast
    rw [line, List.getLast?_append] at hlast
    obtain ⟨d, hd⟩ := Option.isSome_iff_exists.1 (List.getLast?_isSome.2 htrimmed.ne_nil)
    rw [hd] at hlast
    cases hlast
    exact absurd (htrimmed.getLast _ hd) (by decide)

end Render

open Render Layout

variable {table : Option String}

/-- The text of a rule that is an expression is that of the expression. -/
theorem toList_renderBody_expression (table : Option String) (e : Expr) :
    (renderBody table (.expression e)).toList = expr table e := String.toList_ofList

/-- The text of a rule that is a program is that of its lines. -/
theorem toList_renderBody_program (table : Option String) (p : Block ReturnTarget) :
    (renderBody table (.program p)).toList = joinLines (blockLines table 0 p) := by
  rw [joinLines_eq_intercalate]
  exact String.toList_ofList

/-- **A text that does not open like a program is read as the expression that
it is**, when it has no comment to be taken out. -/
theorem parseBody_of_opening {text : String} {e : Expr} (hopening : Opening text.toList)
    (hstrip : stripComments text.toList = text.toList)
    (hparse : parseExpression text.toList = .ok e) : parseBody text = .ok (.expression e) := by
  obtain ⟨start, rest, htext, hne, hfirm, hopens⟩ := hopening
  obtain ⟨indent, more, lines, hlayout, hmore⟩ := layout_append rest hne hfirm
  obtain ⟨hif, hreturn⟩ := hopens more hmore
  rw [parseBody, hstrip, hparse, htext, hlayout]
  simp only [hif, hreturn]
  rfl

/-- **The normal text of a body is read as this body** when no comment and no
part of a line break is taken out of it. A program has names without line
feeds. -/
theorem parseBody_of_stripComments (htable : TableShaped table) {b : RuleBody} (h : b.Normal)
    (hnames : b.isProgram = true → '\n' ∉ nameChars b.occurrences)
    (hstrip : stripComments (renderBody table b).toList = (renderBody table b).toList) :
    parseBody (renderBody table b) = .ok b := by
  cases b with
  | expression e =>
    have htext := toList_renderBody_expression table e
    exact parseBody_of_opening (htext ▸ opening_expr htable h) hstrip
      (htext ▸ parseExpression_expr htable h)
  | program p =>
    obtain ⟨hne, hblock⟩ := h
    have hsolid := solid_blockLines htable hblock (hnames rfl)
    have htext := toList_renderBody_program table p
    rw [htext] at hstrip
    have hbare : Bare (blockLines table 0 p) := stripComment_of_joinLines hsolid hstrip
    have hspells := spells_block htable p 0 1 hne hblock hbare
    -- its first line is the one that makes the text a program
    obtain ⟨first, lines, hlines, hindent, hopens⟩ := hspells.opens
    rw [hlines, ← hindent] at hspells
    rw [parseBody, htext, layout, textLines_joinLines hsolid, hlines]
    simp only [hopens, if_true, parseProgram_of_spells hspells]
    rfl

/-- A text without a `#` has no comment, and one line has no line break. -/
theorem stripComments_renderBody (htable : TableShaped table) {b : RuleBody} (h : b.Normal)
    (hmark : '#' ∉ nameChars b.occurrences) (hfeed : '\n' ∉ nameChars b.occurrences) :
    stripComments (renderBody table b).toList = (renderBody table b).toList := by
  cases b with
  | expression e =>
    rw [toList_renderBody_expression, stripComments_of_notMem (notMem_expr htable rfl hfeed),
      stripComment_eq_of_notMem (notMem_expr htable rfl hmark)]
  | program p =>
    have hsolid := solid_blockLines htable h.2 hfeed
    have hstrip : ∀ l ∈ blockLines table 0 p, stripComment l = l :=
      fun l hl => stripComment_eq_of_notMem (notMem_blockLines htable rfl h.2 hmark l hl)
    rw [toList_renderBody_program, stripComments, textLines_joinLines hsolid,
      List.map_congr_left hstrip, List.map_id']

/-- **Reading the normal text back gives the body again**, for every body in
normal form whose feature names hold neither a `#` nor a line feed. -/
theorem parseBody_renderBody {b : RuleBody} (htable : TableShaped table) (h : b.Normal)
    (hnames : ∀ name ∈ b.occurrences, '#' ∉ name.toList ∧ '\n' ∉ name.toList) :
    parseBody (renderBody table b) = .ok b := by
  have hchars : ∀ {c}, (∀ name ∈ b.occurrences, c ∉ name.toList) → c ∉ nameChars b.occurrences := by
    intro c hnotMem hmem
    obtain ⟨name, hname, hc⟩ := List.mem_flatMap.1 hmem
    exact hnotMem name hname hc
  have hfeed := hchars fun name hname => (hnames name hname).2
  exact parseBody_of_stripComments htable h (fun _ => hfeed) (stripComments_renderBody htable h
    (hchars fun name hname => (hnames name hname).1) hfeed)

/-- A conditional on a quoted name and a number, with both of its bodies. -/
theorem parseBody_renderBody_conditional :
    let x := singleOfBits 0x3FC00000
    let b : RuleBody := .program [.conditional
      [(.comparison (.feature "a b") [(.less, .literal (.number x))], [.give (.label "SPAM")])]
      (some [.give (.index (-1))])]
    parseBody (renderBody (some "row") b) = .ok b := by
  intro x b
  have hx : IsFinite x := isFinite_singleOfBits (by decide)
  have htable : TableShaped (some "row") := by rintro _ ⟨⟩; decide
  have hnormal : b.Normal := by
    refine ⟨List.cons_ne_nil _ _, ⟨List.cons_ne_nil _ _, ⟨⟨?_, List.cons_ne_nil _ _, hx, trivial⟩,
      List.cons_ne_nil _ _, ⟨?_, trivial⟩, trivial⟩, List.cons_ne_nil _ _, ?_, trivial⟩, trivial⟩
    · show "a b" ≠ ""
      decide
    · show Token.WordShaped "SPAM".toList
      decide
    · exact ⟨by decide, by decide⟩
  exact parseBody_renderBody htable hnormal (by decide)

end RuleVote
