import RuleVote.Proofs.Rule.Complement
import RuleVote.Proofs.Rule.FixedPoint
/-!
# Rules that compare one feature with a threshold

The text of such a rule is its feature name as it stands, a comparator and a
number. Nothing in it quotes the name, so the text is the comparison it is
made for exactly if the name is a word by itself
(`Rule.parseBody_comparison_iff`). The carrying fact is that whatever is
derived from a text has its names there as words or in the brackets of a table
(`allStand_of_parseExpression`), and a name with all the opening brackets of a
text stands in none of them.
-/

namespace RuleVote

open Token Render Layout

/-- A name stands in a text, as a word or quoted in the brackets of a table. -/
def Stands (name : String) (cs : List Char) : Prop :=
  ∃ mid rest, mid <:+ cs ∧ ((∃ table, Lookup table name mid rest) ∨ Name name mid rest)

/-- All of some names stand in a text. -/
def AllStand (names : List String) (cs : List Char) : Prop := ∀ name ∈ names, Stands name cs

section Stands

variable {names names' : List String} {cs mid rest : List Char}

theorem AllStand.nil (cs : List Char) : AllStand [] cs := List.forall_mem_nil _

theorem AllStand.of_suffix (h : AllStand names mid) (hsuffix : mid <:+ cs) : AllStand names cs := by
  intro name hname
  obtain ⟨start, rest, hstart, hstands⟩ := h name hname
  exact ⟨start, rest, hstart.trans hsuffix, hstands⟩

theorem AllStand.append (h : AllStand names cs) (h' : AllStand names' cs) :
    AllStand (names ++ names') cs :=
  fun name hname => (List.mem_append.1 hname).elim (h name) (h' name)

theorem AllStand.singleton {name : String}
    (h : (∃ table, Lookup table name cs rest) ∨ Name name cs rest) : AllStand [name] cs :=
  List.forall_mem_singleton.2 ⟨cs, rest, List.suffix_refl _, h⟩

end Stands

namespace Grammar

/-- A name stands where its token does. -/
theorem tokenWise_stands : TokenWise fun names cs rest => AllStand names cs ∧ rest <:+ cs where
  done cs := ⟨.nil cs, List.suffix_refl cs⟩
  append h h' := ⟨h.1.append (h'.1.of_suffix h.2), h'.2.trans h.2⟩
  gap h := ⟨.nil _, h.suffix⟩
  keyword _ h := ⟨.nil _, h.suffix⟩
  mark _ := ⟨.nil _, List.suffix_cons _ _⟩
  number h := ⟨.nil _, h.suffix⟩
  lookup h := ⟨.singleton (.inl ⟨_, h⟩), h.suffix⟩
  name h := ⟨.singleton (.inr h), h.1.2.suffix⟩

end Grammar

/-! ## Names and brackets -/

theorem Token.Lookup.count_lt {table name : String} {cs rest : List Char}
    (h : Lookup table name cs rest) : name.toList.count '[' < cs.count '[' := by
  obtain ⟨mid, opened, quoted, closed, hword, hopened, hgap, hname, -⟩ := h
  -- the bracket of the lookup stands in front of the quoted name
  have huses := hname.uses '['
  have hquoted := hgap.suffix.sublist.count_le '['
  have hbracket := (hopened.suffix.trans hword.2.suffix).sublist.count_le '['
  rw [nameChars_singleton] at huses
  rw [List.count_cons_self] at hbracket
  omega

/-- A name that has all the opening brackets of a text stands in none of them. -/
theorem Stands.isIdentifier {name : String} {cs : List Char} (h : Stands name cs)
    (hcount : cs.count '[' ≤ name.toList.count '[') : isIdentifier name = true := by
  obtain ⟨mid, rest, hmid, ⟨table, hlookup⟩ | hname⟩ := h
  · have := hlookup.count_lt
    have := hmid.sublist.count_le '['
    omega
  · exact isIdentifier_iff.2 ⟨hname.1.1, hname.2⟩

/-- **The names that an expression is read with stand in its text.** -/
theorem allStand_of_parseExpression {text : List Char} {e : Expr}
    (h : parseExpression text = .ok e) : AllStand e.occurrences text := by
  obtain ⟨rest, hjoined, -⟩ := joined_of_parseExpression h
  exact (Grammar.tokenWise_stands.joined hjoined).1.of_suffix (List.dropWhile_suffix _)

/-- A number is written without brackets. -/
theorem Render.notMem_number {x : Float32} (h : IsFinite x) : '[' ∉ Render.literal (.number x) := by
  have hpositional : '[' ∉ (shortestSingle .up x).positional := by
    intro hmem
    rcases Decimal.mem_positional hmem with hdigit | hpoint
    · cases hdigit
    · cases hpoint
  obtain ⟨negative, _, _, hx⟩ := h
  rw [Render.literal, positionalText, hx]
  dsimp only
  rw [String.toList_ofList]
  cases negative with
  | false => exact hpositional
  | true => exact List.not_mem_cons_of_ne_of_not_mem (by decide) hpositional

namespace Rule

variable {threshold : Float32} (id name : String) (op : Comparator) (whenTrue whenFalse : Int)

/-- The comparison of one feature with a threshold. -/
def thresholdBody (name : String) (op : Comparator) (threshold : Float32) : RuleBody :=
  .expression (.comparison (.feature name) [(op, .literal (.number threshold))])

theorem toList_comparison_expression (threshold : Float32) :
    (comparison id name op threshold whenTrue whenFalse).expression.toList =
      name.toList ++ linkTexts none [(op, .literal (.number threshold))] := by
  have hlinks : linkTexts none [(op, .literal (.number threshold))] =
      spaced op.symbol ++ (positionalText threshold).toList :=
    (linkTexts_cons none op _ []).trans (List.append_nil _)
  rw [hlinks, comparison, String.toList_append, String.toList_append, String.toList_append,
    String.toList_append, spaced]
  simp

theorem plain_linkTexts (op : Comparator) (value : Literal) :
    Plain (linkTexts none [(op, .literal value)]) := by
  rw [linkTexts_cons]
  exact ((plain_spaced (by cases op <;> decide)).append (plain_literal value)).append (by decide)

/-- A name that is a word by itself is compared as it is meant. -/
theorem parseBody_comparison (h : IsFinite threshold) {name : String}
    (hname : isIdentifier name = true) :
    parseBody (comparison id name op threshold whenTrue whenFalse).expression =
      .ok (thresholdBody name op threshold) := by
  obtain ⟨hshape, hkeyword⟩ := isIdentifier_iff.1 hname
  have htext := toList_comparison_expression id name op whenTrue whenFalse threshold
  have hlinks : Grammar.Links (linkTexts none [(op, .literal (.number threshold))] ++ [])
      [(op, .literal (.number threshold))] [] := links_texts tableShaped_none _ ⟨h, trivial⟩ rfl
  rw [List.append_nil] at hlinks
  have hword : Word name (name.toList ++ linkTexts none [(op, .literal (.number threshold))])
      (linkTexts none [(op, .literal (.number threshold))]) := ⟨hshape, rfl, rfl⟩
  have hopening := opening_word hword (fun heq => hkeyword (by rw [heq]; decide))
    (fun heq => hkeyword (by rw [heq]; decide))
  have hplain := (plain_of_word hshape).append (plain_linkTexts op (.number threshold))
  have hjoined := joined_of_operand (operand_of_negated
    (.compared (.mk (.primary (Gap.refl _) (.name ⟨hword, hkeyword⟩)) hlinks)))
  rw [← trimLeft_of_opening hopening] at hjoined
  rw [← htext] at hopening hplain hjoined
  refine parseBody_of_opening hopening ?_
    (parseExpression_of_joined hjoined (List.forall_mem_nil _))
  rw [stripComments_of_notMem fun hmem => absurd (hplain _ hmem) (by decide),
    stripComment_eq_of_notMem fun hmem => absurd (hplain _ hmem) (by decide)]

variable {id name : String} {op : Comparator} {whenTrue whenFalse : Int}

/-- Any other name is not: the text has no bracket but those of the name. -/
theorem isIdentifier_of_parseBody (h : IsFinite threshold)
    (hparse : parseBody (comparison id name op threshold whenTrue whenFalse).expression =
      .ok (thresholdBody name op threshold)) : isIdentifier name = true := by
  have hsymbol : '[' ∉ spaced op.symbol := by cases op <;> decide
  have hnumber : '[' ∉ expr none (.literal (.number threshold)) := notMem_number h
  have hbrackets : (comparison id name op threshold whenTrue whenFalse).expression.toList.count '['
      ≤ name.toList.count '[' := by
    rw [toList_comparison_expression, linkTexts_cons, List.count_append, List.count_append,
      List.count_append, List.count_eq_zero.2 hsymbol, List.count_eq_zero.2 hnumber]
    exact le_rfl
  obtain ⟨e, heq, hexpr⟩ | ⟨_, _, heq, -⟩ := parseBody_cases hparse
  · cases heq
    have hstands := allStand_of_parseExpression hexpr name (by simp [Expr.occurrences])
    exact hstands.isIdentifier (((stripComments_sublist _).count_le '[').trans hbrackets)
  · cases heq

/-- **A rule that is made for a comparison of one feature with a threshold is
read as this comparison exactly if the name of the feature is a word by
itself.** Then its negated comparator is that of the comparison, and it reads
this feature alone. -/
theorem parseBody_comparison_iff (id name : String) (op : Comparator) (whenTrue whenFalse : Int)
    (h : IsFinite threshold) :
    let r := comparison id name op threshold whenTrue whenFalse
    (parseBody r.expression = .ok (thresholdBody name op threshold) ↔ isIdentifier name = true) ∧
      (isIdentifier name = true → r.negatedComparison? = some op.negated ∧
        ∃ body, parseBody r.expression = .ok body ∧ body.features.toList = [name]) := by
  intro r
  have hreads : isIdentifier name = true →
      parseBody r.expression = .ok (thresholdBody name op threshold) :=
    parseBody_comparison id op whenTrue whenFalse h
  refine ⟨⟨isIdentifier_of_parseBody h, hreads⟩, fun hname => ?_⟩
  exact ⟨negatedComparison?_eq_some_iff.2 ⟨_, _, _, hreads hname, rfl⟩, _, hreads hname, rfl⟩

theorem parseBody_comparison_noise :
    let threshold := singleOfBits 0x3E800000
    let r := comparison "r" "noise" .greaterEqual threshold 1 0
    IsFinite threshold ∧ isIdentifier "noise" = true ∧
      parseBody r.expression = .ok (thresholdBody "noise" .greaterEqual threshold) ∧
      r.negatedComparison? = some .less ∧
      ∃ body, parseBody r.expression = .ok body ∧ body.features.toList = ["noise"] := by
  intro threshold r
  have hfinite : IsFinite threshold := isFinite_singleOfBits (by decide)
  have hname : isIdentifier "noise" = true := by decide
  obtain ⟨hreads, hnegated⟩ := parseBody_comparison_iff "r" "noise" .greaterEqual 1 0 hfinite
  exact ⟨hfinite, hname, hreads.2 hname, hnegated hname⟩

/-- A table may have a feature with a space in its name, but a rule cannot be made for it so. -/
theorem not_parseBody_comparison_spaced :
    let threshold := singleOfBits 0x3E800000
    let r := comparison "r" "mean value" .greaterEqual threshold 1 0
    IsFinite threshold ∧ (FeatureTable.new ["a"] [⟨"mean value", [1]⟩]).toOption.isSome = true ∧
      parseBody r.expression ≠ .ok (thresholdBody "mean value" .greaterEqual threshold) := by
  intro threshold r
  have hfinite : IsFinite threshold := isFinite_singleOfBits (by decide)
  refine ⟨hfinite, by decide +kernel, fun hparse => ?_⟩
  exact absurd (isIdentifier_of_parseBody hfinite hparse) (by decide)

end Rule

end RuleVote
