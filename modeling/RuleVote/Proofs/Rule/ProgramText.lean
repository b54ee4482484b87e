import RuleVote.Proofs.Rule.Lines
import RuleVote.Proofs.Rule.Rendering
import RuleVote.Proofs.Rule.Spelling
/-!
# The normal text of programs

The lines of a block in normal form spell this block, one tab for each level
(`spells_block`): a condition stands between its keyword and a colon, so its
end is settled by what `signed_expr` asks of the text behind it, and a body
is indented by one tab more than its header. The only thing asked of the
lines is that none of them has a comment.
-/

namespace RuleVote

namespace Token

theorem isBlank_of_inWord {c : Char} (h : inWord c = true) : isBlank c = false := by
  have := toNat_of_inWord h
  simp only [isBlank, Bool.or_eq_false_iff, Bool.and_eq_false_iff, decide_eq_false_iff_not,
    beq_eq_false_iff_ne]
  omega

theorem isGap_of_isBlank {c : Char} (h : isBlank c = false) : isGap c = false := by
  rw [isGap]
  simp only [Bool.or_eq_false_iff, beq_eq_false_iff_ne]
  refine ⟨⟨⟨?_, ?_⟩, ?_⟩, ?_⟩ <;> rintro rfl <;> cases h

end Token

namespace Render

open Token Grammar Layout

variable {table : Option String}

/-! ## The texts by constructor -/

theorem statement_give (table : Option String) (level : Nat) (t : ReturnTarget) :
    statement table level (.give t) = [line level ("return ".toList ++ target t)] := rfl

theorem statement_conditional (table : Option String) (level : Nat)
    (branches : List (Expr × Block ReturnTarget)) (otherwise : Option (Block ReturnTarget)) :
    statement table level (.conditional branches otherwise) =
      branchLines table level "if" branches ++ elseLines table level otherwise := rfl

theorem branchLines_cons (table : Option String) (level : Nat) (keyword : String)
    (condition : Expr) (body : Block ReturnTarget) (branches : List (Expr × Block ReturnTarget)) :
    branchLines table level keyword ((condition, body) :: branches) =
      line level (keyword.toList ++ ' ' :: expr table condition ++ [':'])
        :: blockLines table (level + 1) body ++ branchLines table level "elif" branches := rfl

theorem elseLines_some (table : Option String) (level : Nat) (body : Block ReturnTarget) :
    elseLines table level (some body) =
      line level "else:".toList :: blockLines table (level + 1) body := rfl

theorem blockLines_cons (table : Option String) (level : Nat) (s : Statement ReturnTarget)
    (block : Block ReturnTarget) :
    blockLines table level (s :: block) =
      statement table level s ++ blockLines table level block := rfl

/-! ## Returns -/

/-- The digits of a number are taken whole. -/
theorem takeDigits_decimalDigits (n : Nat) :
    takeDigits (decimalDigits n) = (decimalDigits n, []) := by
  have h : takeDigits (decimalDigits n ++ []) = _ :=
    takeDigits_append (allDigits_decimalDigits n) (by simp)
  rwa [List.append_nil] at h

/-- A target of 32 bits is read from its digits. -/
theorem takeIndex?_decimalDigits {n : Nat} (h : n ≤ maxIndex) :
    takeIndex? (decimalDigits n) = some ((n : Int), []) := by
  have hdigits := takeDigits_decimalDigits n
  have hvalue := digitsValue_decimalDigits n
  have hall := allDigits_decimalDigits n
  obtain ⟨d, ds, hds⟩ := List.exists_cons_of_ne_nil (@Nat.toDigits_ne_nil n 10)
  rw [decimalDigits, hds] at hdigits hvalue hall ⊢
  rw [takeIndex?]
  · simp [hdigits, hvalue, h]
  · -- a digit is no sign
    rintro _ ⟨⟩
    exact absurd (hall '-' (by simp)) (by decide)

/-- A negative target reaches one further than a positive one. -/
theorem takeIndex?_minus {n : Nat} (h : n ≤ maxIndex + 1) :
    takeIndex? ('-' :: decimalDigits n) = some (-(n : Int), []) := by
  have hdigits := takeDigits_decimalDigits n
  have hvalue := digitsValue_decimalDigits n
  obtain ⟨d, ds, hds⟩ := List.exists_cons_of_ne_nil (@Nat.toDigits_ne_nil n 10)
  rw [decimalDigits, hds] at hdigits hvalue ⊢
  rw [takeIndex?]
  simp [hdigits, hvalue, h]

/-- **A target that is a number is read from its text.** -/
theorem takeIndex?_intText {i : Int} (h : (ReturnTarget.index i).Normal) :
    takeIndex? (intText i) = some (i, []) := by
  obtain ⟨hlow, hhigh⟩ := h
  cases i with
  | ofNat n => exact @takeIndex?_decimalDigits n (Int.ofNat_le.1 hhigh)
  | negSucc n => exact @takeIndex?_minus (n + 1) (by omega)

/-- No word is taken for a number. -/
theorem takeIndex?_word {name : List Char} (h : WordShaped name) : takeIndex? name = none := by
  cases name with
  | nil => cases h
  | cons c name =>
    rw [takeIndex?]
    · simp [takeDigits, isDigit_of_startsWord h.1]
    · rintro _ ⟨⟩
      exact absurd h.1 (by decide)

/-- **A target is read from its text**, a number or a word. -/
theorem takeTarget?_text {t : ReturnTarget} (h : t.Normal) :
    takeTarget? (target t) = some (t, []) := by
  cases t with
  | index i => rw [target, takeTarget?, takeIndex?_intText h]
  | label name =>
    have hword : Word name name.toList [] := ⟨h, (List.append_nil _).symm, rfl⟩
    rw [target, takeTarget?, takeIndex?_word h, takeWord?_eq_some_iff.2 hword]
    rfl

/-- A target is written with characters of a word and a sign, and none of
them is a blank. -/
theorem target_chars {t : ReturnTarget} (h : t.Normal) :
    target t ≠ [] ∧ ∀ c ∈ target t, inWord c = true ∨ c = '-' := by
  have hdigits : ∀ n, ∀ c ∈ decimalDigits n, inWord c = true :=
    fun n c hc => inWord_of_isDigit (allDigits_decimalDigits n c hc)
  cases t with
  | label name =>
    have hshape : WordShaped name.toList := h
    refine ⟨?_, fun c hc => .inl (hshape.inWord c hc)⟩
    intro hnil
    rw [target] at hnil
    rw [hnil] at hshape
    exact hshape
  | index i =>
    cases i with
    | ofNat n => exact ⟨Nat.toDigits_ne_nil, fun c hc => .inl (hdigits n c hc)⟩
    | negSucc n =>
      refine ⟨List.cons_ne_nil _ _, fun c hc => ?_⟩
      rcases List.mem_cons.1 hc with rfl | hc
      · exact .inr rfl
      · exact .inl (hdigits _ c hc)

/-- The text of a target has no blanks, so nothing of it is trimmed. -/
theorem isBlank_of_target {t : ReturnTarget} (h : t.Normal) :
    ∀ c ∈ target t, isBlank c = false := by
  intro c hc
  rcases (target_chars h).2 c hc with hword | rfl
  · exact isBlank_of_inWord hword
  · rfl

/-- The content of a line that gives a target is read as this target. -/
theorem returnTarget?_text {t : ReturnTarget} (h : t.Normal) :
    returnTarget? ("return ".toList ++ target t) = some t := by
  have hreturn : takeKeyword? "return" ("return ".toList ++ target t) = some (' ' :: target t) :=
    takeKeyword?_eq_some_iff.2 ⟨rfl, rfl⟩
  have hskip : skipGaps (' ' :: target t) = target t := by
    obtain ⟨c, cs, hcs⟩ := List.exists_cons_of_ne_nil (target_chars h).1
    have hc := isGap_of_isBlank (isBlank_of_target h c (by simp [hcs]))
    rw [hcs]
    exact Gap.skipGaps_cons ⟨[' '], by simp [isGap], rfl⟩ hc
  rw [returnTarget?, hreturn]
  simp only [Option.bind_eq_bind, Option.bind_some, hskip, takeTarget?_text h]
  rfl

/-! ## Contents of lines -/

/-- A text is trimmed if neither its first nor its last character is blank. -/
theorem trimmed_of_ends {content : List Char} {c d : Char} (hc : content.head? = some c)
    (hd : content.getLast? = some d) (hblank : isBlank c = false) (hblank' : isBlank d = false) :
    Trimmed content where
  ne_nil := by rintro rfl; cases hc
  head := by rw [hc]; rintro _ ⟨⟩; exact hblank
  getLast := by rw [hd]; rintro _ ⟨⟩; exact hblank'

theorem trimmed_give {t : ReturnTarget} (h : t.Normal) :
    Trimmed ("return ".toList ++ target t) := by
  obtain ⟨d, hd⟩ := Option.isSome_iff_exists.1 (List.getLast?_isSome.2 (target_chars h).1)
  refine trimmed_of_ends rfl ?_ rfl (isBlank_of_target h d (List.mem_of_getLast? hd))
  rw [List.getLast?_append, hd]
  rfl

theorem trimmed_header {keyword : String} (hkeyword : keyword = "if" ∨ keyword = "elif")
    (text : List Char) : Trimmed (keyword.toList ++ ' ' :: text ++ [':']) := by
  rcases hkeyword with rfl | rfl
  · exact trimmed_of_ends rfl List.getLast?_concat rfl rfl
  · exact trimmed_of_ends rfl List.getLast?_concat rfl rfl

theorem trimmed_else : Trimmed "else:".toList := trimmed_of_ends rfl rfl rfl rfl

/-- **The text of a header is a header** of its condition, with nothing behind the colon. -/
theorem header_text (htable : TableShaped table) {keyword : String} {condition : Expr}
    (h : condition.Normal) :
    Header keyword (keyword.toList ++ ' ' :: expr table condition ++ [':']) condition [] := by
  have hread : Signed (' ' :: (expr table condition ++ [':'])) condition [':'] :=
    (signed_expr htable condition h rfl).gap rfl
  exact ⟨' ' :: (expr table condition ++ [':']), [':'], ⟨by simp, rfl⟩,
    joined_of_operand (operand_of_negated (negated_of_signed hread)), Gap.refl _⟩

theorem elseHeader_text : ElseHeader "else:".toList [] := ⟨[':'], ⟨rfl, rfl⟩, Gap.refl _⟩

/-! ## Blocks -/

/-- The lines have no comment. -/
def Bare (lines : List (List Char)) : Prop := ∀ line ∈ lines, stripComment line = line

/-- The first of bare lines are bare. -/
theorem Bare.left {lines more : List (List Char)} (h : Bare (lines ++ more)) : Bare lines :=
  fun line hline => h line (List.mem_append_left _ hline)

/-- The last of bare lines are bare. -/
theorem Bare.right {lines more : List (List Char)} (h : Bare (lines ++ more)) : Bare more :=
  fun line hline => h line (List.mem_append_right _ hline)

/-- A line in front of others is a line of the program with its content. -/
theorem numberLines_cons (number level : Nat) {content : List Char} {lines : List (List Char)}
    (h : Trimmed content) (hbare : Bare (line level content :: lines)) :
    numberLines number (line level content :: lines) =
      ⟨number, tabWidth * level, content⟩ :: numberLines (number + 1) lines := by
  rw [numberLines, sourceLine?_line number level h (hbare _ (by simp))]
  rfl

/-- A body one level deeper is the body of the header above it. -/
theorem spells_body {level number : Nat} {lines : List (List Char)} {body : Block ReturnTarget}
    (h : SpellsBlock (tabWidth * (level + 1)) (numberLines number lines) body) :
    SpellsBody (tabWidth * level) [] (numberLines number lines) body :=
  .underneath rfl (Nat.mul_lt_mul_of_pos_left (Nat.lt_succ_self level) (by decide)) h

/-- A branch is spelled by its header and the lines of its body, one level deeper. -/
theorem spells_branch (htable : TableShaped table) {keyword : String}
    (hkeyword : keyword = "if" ∨ keyword = "elif") {level : Nat} (number : Nat)
    {condition : Expr} (hcondition : condition.Normal) {lines : List (List Char)}
    {body : Block ReturnTarget}
    (hbare : Bare (line level (keyword.toList ++ ' ' :: expr table condition ++ [':']) :: lines))
    (hbody : SpellsBlock (tabWidth * (level + 1)) (numberLines (number + 1) lines) body) :
    SpellsBranch keyword (tabWidth * level) (numberLines number
      (line level (keyword.toList ++ ' ' :: expr table condition ++ [':']) :: lines))
      (condition, body) := by
  rw [numberLines_cons number level (trimmed_header hkeyword _) hbare]
  exact .mk rfl (header_text htable hcondition) (spells_body hbody)

mutual

/-- **The lines of a block in normal form spell this block.** -/
theorem spells_block (htable : TableShaped table) :
    ∀ (b : Block ReturnTarget) (level number : Nat), b ≠ [] → Statement.BlockNormal b →
      Bare (blockLines table level b) →
      SpellsBlock (tabWidth * level) (numberLines number (blockLines table level b)) b
  | [], _, _, hne, _, _ => absurd rfl hne
  | [s], level, number, _, ⟨hs, _⟩, hbare => by
    have hlines : blockLines table level [s] = statement table level s := List.append_nil _
    rw [hlines] at hbare ⊢
    exact .single (spells_statement htable s level number hs hbare)
  | s :: next :: b, level, number, _, ⟨hs, hb⟩, hbare => by
    have hblock := fun number => spells_block htable (next :: b) level number (List.cons_ne_nil _ _)
      hb hbare.right
    rw [blockLines_cons, numberLines_append]
    exact .cons (spells_statement htable s level number hs hbare.left) (hblock _)

/-- The lines of a statement spell this statement. -/
theorem spells_statement (htable : TableShaped table) :
    ∀ (s : Statement ReturnTarget) (level number : Nat), s.Normal →
      Bare (statement table level s) →
      SpellsStatement (tabWidth * level) (numberLines number (statement table level s)) s
  | .give t, level, number, h, hbare => by
    rw [statement_give] at hbare ⊢
    rw [numberLines_cons number level (trimmed_give h) hbare]
    exact .give rfl (returnTarget?_text h)
  | .conditional [] otherwise, _, _, ⟨hne, _⟩, _ => absurd rfl hne
  | .conditional ((condition, body) :: branches) otherwise, level, number,
      ⟨_, ⟨hcondition, hne, hbody, hbranches⟩, hotherwise⟩, hbare => by
    rw [statement_conditional, branchLines_cons, List.append_assoc] at hbare ⊢
    rw [numberLines_append]
    have hblock := spells_block htable body (level + 1) (number + 1) hne hbody
      fun l hl => hbare.left l (List.mem_cons_of_mem _ hl)
    exact .conditional (spells_branch htable (.inl rfl) number hcondition hbare.left hblock)
      (spells_branches htable branches level _ hbranches hbare.right.left
        fun number => spells_else htable otherwise level number hotherwise hbare.right.right)

/-- Branches in front of what ends the conditional. -/
theorem spells_branches (htable : TableShaped table) :
    ∀ (branches : List (Expr × Block ReturnTarget)) {otherwise : Option (Block ReturnTarget)}
      {lines : List (List Char)} (level number : Nat), Statement.BranchesNormal branches →
      Bare (branchLines table level "elif" branches) →
      (∀ number, SpellsFurther (tabWidth * level) (numberLines number lines) [] otherwise) →
      SpellsFurther (tabWidth * level)
        (numberLines number (branchLines table level "elif" branches ++ lines)) branches otherwise
  | [], _, _, _, number, _, _, hlast => hlast number
  | (condition, body) :: branches, _, _, level, number, ⟨hcondition, hne, hbody, hbranches⟩, hbare,
      hlast => by
    rw [branchLines_cons] at hbare ⊢
    rw [List.append_assoc, numberLines_append]
    have hblock := spells_block htable body (level + 1) (number + 1) hne hbody
      fun l hl => hbare.left l (List.mem_cons_of_mem _ hl)
    exact .more (spells_branch htable (.inr rfl) number hcondition hbare.left hblock)
      (spells_branches htable branches level _ hbranches hbare.right hlast)

theorem spells_else (htable : TableShaped table) :
    ∀ (otherwise : Option (Block ReturnTarget)) (level number : Nat),
      Statement.ElseNormal otherwise → Bare (elseLines table level otherwise) →
      SpellsFurther (tabWidth * level) (numberLines number (elseLines table level otherwise)) []
        otherwise
  | none, _, _, _, _ => .done
  | some body, level, number, ⟨hne, hbody⟩, hbare => by
    rw [elseLines_some] at hbare ⊢
    have hblock := spells_block htable body (level + 1) (number + 1) hne hbody
      fun l hl => hbare l (List.mem_cons_of_mem _ hl)
    rw [numberLines_cons number level trimmed_else hbare]
    exact .otherwise rfl elseHeader_text (spells_body hblock)

end

/-! ## Each line has its content -/

/-- Every line is a content behind its indentation. -/
def Indented (lines : List (List Char)) : Prop :=
  ∀ l ∈ lines, ∃ level content, l = line level content ∧ Trimmed content

theorem Indented.cons {level : Nat} {content : List Char} {lines : List (List Char)}
    (h : Trimmed content) (hlines : Indented lines) : Indented (line level content :: lines) := by
  intro l hl
  rcases List.mem_cons.1 hl with rfl | hl
  · exact ⟨level, content, rfl, h⟩
  · exact hlines l hl

theorem Indented.append {lines more : List (List Char)} (h : Indented lines)
    (hmore : Indented more) : Indented (lines ++ more) :=
  fun l hl => (List.mem_append.1 hl).elim (h l) (hmore l)

mutual

/-- The lines of a statement are trimmed contents behind their indents. -/
theorem indented_statement (table : Option String) :
    ∀ (s : Statement ReturnTarget) (level : Nat), s.Normal → Indented (statement table level s)
  | .give _, _, h => .cons (trimmed_give h) nofun
  | .conditional branches otherwise, level, ⟨_, hbranches, hotherwise⟩ =>
    (indented_branchLines table branches (.inl rfl) level hbranches).append
      (indented_elseLines table otherwise level hotherwise)

theorem indented_branchLines (table : Option String) :
    ∀ (branches : List (Expr × Block ReturnTarget)) {keyword : String},
      keyword = "if" ∨ keyword = "elif" → ∀ level, Statement.BranchesNormal branches →
      Indented (branchLines table level keyword branches)
  | [], _, _, _, _ => nofun
  | (_, body) :: branches, _, hkeyword, level, ⟨_, _, hbody, hbranches⟩ =>
    (Indented.cons (trimmed_header hkeyword _) (indented_block table body (level + 1) hbody)).append
      (indented_branchLines table branches (.inr rfl) level hbranches)

theorem indented_elseLines (table : Option String) :
    ∀ (otherwise : Option (Block ReturnTarget)) (level : Nat), Statement.ElseNormal otherwise →
      Indented (elseLines table level otherwise)
  | none, _, _ => nofun
  | some body, level, ⟨_, hbody⟩ =>
    .cons trimmed_else (indented_block table body (level + 1) hbody)

theorem indented_block (table : Option String) :
    ∀ (b : Block ReturnTarget) (level : Nat), Statement.BlockNormal b →
      Indented (blockLines table level b)
  | [], _, _ => nofun
  | s :: b, level, ⟨hs, hb⟩ =>
    (indented_statement table s level hs).append (indented_block table b level hb)

end

end Render

end RuleVote
