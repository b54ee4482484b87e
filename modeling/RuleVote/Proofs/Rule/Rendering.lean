import RuleVote.Proofs.Number.Sign
import RuleVote.Proofs.Rule.Acceptance
import RuleVote.Proofs.Rule.Lexeme
import RuleVote.Proofs.Rule.Literal
import RuleVote.Rule.Layout
import RuleVote.Rule.Render
/-!
# The normal text of expressions

The bodies that the reader of rule text can give are normal (`RuleBody.Normal`), by
their shape alone: numbers are finite and carry their own sign, chains have a link and
connectives two operands, names are not empty, and nothing that is a list of
lines is empty. Every other body has a neighbour of the same text, so no
reader could tell the two apart. What stands in a feature name beyond that
is not a matter of shape.

The text of an expression in normal form is derived by the grammar with this
expression as its tree (`signed_expr`): whatever stands in parentheses or is
a literal, a feature or a minus sign is read as an operand of the tightest
level, so no level above it has a choice. The induction is over the
expression, with the text behind it left open; all it needs of that text is
that a word may end in front of it.
-/

namespace RuleVote

/-! ## Normal bodies -/

/-- A target that text can name: a word, or an index in its range. -/
def ReturnTarget.Normal : ReturnTarget → Prop
  | .label name => Token.WordShaped name.toList
  | .index i => -(Layout.maxIndex + 1 : Int) ≤ i ∧ i ≤ Layout.maxIndex

namespace Expr

mutual

/-- An expression in normal form. -/
def Normal : Expr → Prop
  | .literal (.number x) => IsFinite x
  | .literal (.truth _) => True
  | .feature name => name ≠ ""
  | .comparison first links => first.Normal ∧ links ≠ [] ∧ LinksNormal links
  | .connected _ operands => 2 ≤ operands.length ∧ OperandsNormal operands
  | .unary .minus operand => operand.Normal ∧ ∀ x, operand ≠ .literal (.number x)
  | .unary .not operand => operand.Normal

/-- The links of a chain in normal form. -/
def LinksNormal : List (Comparator × Expr) → Prop
  | [] => True
  | (_, right) :: links => right.Normal ∧ LinksNormal links

/-- Operands in normal form. -/
def OperandsNormal : List Expr → Prop
  | [] => True
  | operand :: operands => operand.Normal ∧ OperandsNormal operands

end

end Expr

namespace Statement

mutual

/-- A statement in normal form. -/
def Normal : Statement ReturnTarget → Prop
  | .give target => target.Normal
  | .conditional branches otherwise =>
    branches ≠ [] ∧ BranchesNormal branches ∧ ElseNormal otherwise

/-- Branches in normal form: none has an empty body. -/
def BranchesNormal : List (Expr × List (Statement ReturnTarget)) → Prop
  | [] => True
  | (condition, body) :: branches =>
    condition.Normal ∧ body ≠ [] ∧ BlockNormal body ∧ BranchesNormal branches

/-- An optional body in normal form. -/
def ElseNormal : Option (List (Statement ReturnTarget)) → Prop
  | none => True
  | some body => body ≠ [] ∧ BlockNormal body

/-- The statements of a block in normal form. -/
def BlockNormal : List (Statement ReturnTarget) → Prop
  | [] => True
  | s :: block => s.Normal ∧ BlockNormal block

end

end Statement

/-- A body in normal form. -/
def RuleBody.Normal : RuleBody → Prop
  | .expression condition => condition.Normal
  | .program block => block ≠ [] ∧ Statement.BlockNormal block

namespace Render

open Token Grammar

variable {table : Option String} {rest : List Char}

/-! ## The texts by constructor -/

theorem expr_comparison (table : Option String) (first : Expr) (links : List (Comparator × Expr)) :
    expr table (.comparison first links) =
      '(' :: expr table first ++ linkTexts table links ++ [')'] := rfl

theorem expr_connected (table : Option String) (op : Connective) (operands : List Expr) :
    expr table (.connected op operands) = '(' :: operandTexts table op operands ++ [')'] := rfl

theorem expr_not (table : Option String) (e : Expr) :
    expr table (.unary .not e) = "(not ".toList ++ expr table e ++ [')'] := rfl

theorem linkTexts_cons (table : Option String) (op : Comparator) (right : Expr)
    (links : List (Comparator × Expr)) :
    linkTexts table ((op, right) :: links) =
      spaced op.symbol ++ expr table right ++ linkTexts table links := rfl

theorem operandTexts_singleton (table : Option String) (op : Connective) (operand : Expr) :
    operandTexts table op [operand] = expr table operand := rfl

theorem operandTexts_cons (table : Option String) (op : Connective) (first second : Expr)
    (operands : List Expr) :
    operandTexts table op (first :: second :: operands) =
      expr table first ++ spaced op.keyword ++ operandTexts table op (second :: operands) := rfl

/-! ## Features -/

/-- The table that is asked for is a name of its own. -/
def TableShaped (table : Option String) : Prop := ∀ t ∈ table, isIdentifier t = true

theorem tableShaped_none : TableShaped none := by
  intro t ht
  cases ht

/-- A name is an identifier if it is a word and none of the keywords. -/
theorem isIdentifier_iff {name : String} :
    isIdentifier name = true ↔ WordShaped name.toList ∧ name ∉ keywords := by
  rw [isIdentifier]
  cases name.toList with
  | nil => simp [WordShaped]
  | cons c cs => simp [WordShaped, List.all_eq_true, and_assoc]

/-- **An escaped name is quoted.** -/
theorem quoted_escape (name : List Char) : Quoted '"' (name.flatMap escapeChar) name := by
  induction name with
  | nil => exact .nil
  | cons c name ih =>
    rw [List.flatMap_cons, escapeChar]
    split
    · next hc =>
      refine .escaped ?_ ih
      rcases hc with rfl | rfl <;> rfl
    · next hc =>
      rw [not_or] at hc
      exact .plain hc.1 hc.2 ih

/-- The text of a quoted name in the brackets of a table. -/
theorem lookup_text {table name : String} (htable : WordShaped table.toList) (hname : name ≠ "") :
    Lookup table name
      (table.toList ++ '[' :: '"' :: name.toList.flatMap escapeChar ++ ['"', ']'] ++ rest) rest :=
  ⟨'[' :: ('"' :: name.toList.flatMap escapeChar ++ '"' :: ']' :: rest), _, _, ']' :: rest,
    ⟨htable, by simp, rfl⟩, Gap.refl _, Gap.refl _,
    ⟨'"', _, .inl rfl, rfl, quoted_escape _, hname⟩, Gap.refl _⟩

/-- The text of a feature is read as this feature. -/
theorem primary_feature (htable : TableShaped table) {name : String} (hname : name ≠ "")
    (hend : atWordEnd rest = true) : Primary (feature table name ++ rest) (.feature name) rest := by
  have lookup : ∀ t : String, isIdentifier t = true →
      Primary (t.toList ++ '[' :: '"' :: name.toList.flatMap escapeChar ++ ['"', ']'] ++ rest)
        (.feature name) rest := by
    intro t ht
    obtain ⟨hshape, hkeyword⟩ := isIdentifier_iff.1 ht
    refine .lookup ?_ ?_ (lookup_text hshape hname)
    · rintro rfl
      exact hkeyword (by decide)
    · rintro rfl
      exact hkeyword (by decide)
  cases table with
  | some t => exact lookup t (htable t rfl)
  | none =>
    rw [feature.eq_def]
    dsimp only
    split
    · next hid =>
      obtain ⟨hshape, hkeyword⟩ := isIdentifier_iff.1 hid
      exact .name ⟨⟨hshape, rfl, hend⟩, hkeyword⟩
    · exact lookup defaultTable (by decide)

/-! ## From the tightest level to the loosest -/

theorem negated_of_signed {cs : List Char} {e : Expr} (h : Signed cs e rest) : Negated cs e rest :=
  .compared (.mk h .done)

theorem operand_of_negated {op : Connective} {cs : List Char} {e : Expr} (h : Negated cs e rest) :
    Operand op cs e rest := by
  cases op with
  | and => exact .negated h
  | or => exact .conjunction (.mk (.negated h) .done)

theorem joined_of_operand {cs : List Char} {e : Expr} (h : Operand .or cs e rest) :
    Joined .or cs e rest :=
  .mk h .done

/-- Operands of any connective in parentheses. -/
theorem joined_of_further {op : Connective} {cs mid : List Char} {first : Expr}
    {operands : List Expr} (hne : operands ≠ []) (hfirst : Operand op cs first mid)
    (hmore : Further op mid operands rest) :
    Joined .or cs (.connected op (first :: operands)) rest := by
  have hconnect : connect op first operands = .connected op (first :: operands) := by
    cases operands with
    | nil => exact absurd rfl hne
    | cons => rfl
  have hjoined := Joined.mk hfirst hmore
  rw [hconnect] at hjoined
  cases op with
  | or => exact hjoined
  | and => exact .mk (.conjunction hjoined) .done

/-! ## Expressions -/

/-- A sign in front of anything but a number stays one. -/
theorem negate_of_ne {e : Expr} (h : ∀ x, e ≠ .literal (.number x)) :
    negate e = .unary .minus e := by
  rw [negate.eq_def]
  split
  · next x => exact absurd rfl (h x)
  · rfl

/-- A connective between two spaces. -/
theorem connecting_keyword (op : Connective) (rest : List Char) :
    Connecting op (op.keyword.toList ++ ' ' :: rest) (' ' :: rest) :=
  .inl ⟨rfl, rfl⟩

mutual

/-- **The text of an expression in normal form is read as this expression**,
wherever a word may end behind it. -/
theorem signed_expr (htable : TableShaped table) : ∀ (e : Expr) {rest : List Char}, e.Normal →
    atWordEnd rest = true → Signed (expr table e ++ rest) e rest
  | .literal (.number x), rest, h, hend => signed_number h hend
  | .literal (.truth b), rest, h, hend => by
    refine .primary (Gap.refl _) ?_
    cases b with
    | true => exact .yes ⟨rfl, hend⟩
    | false => exact .no ⟨rfl, hend⟩
  | .feature name, rest, h, hend => .primary (Gap.refl _) (primary_feature htable h hend)
  | .comparison _ [], rest, ⟨_, hne, _⟩, hend => absurd rfl hne
  | .comparison first (link :: links), rest, ⟨hfirst, _, hlinks⟩, hend => by
    have hread : Links (linkTexts table (link :: links) ++ ')' :: rest) (link :: links)
        (')' :: rest) := links_texts htable _ hlinks rfl
    have hcompared := Compared.mk (signed_expr htable first hfirst (by rfl)) hread
    have hjoined := joined_of_operand (operand_of_negated (.compared hcompared))
    have hprimary : Signed _ (.comparison first (link :: links)) rest :=
      .primary (Gap.refl _) (.parenthesized hjoined (Gap.refl _))
    rw [expr_comparison]
    simpa only [List.cons_append, List.append_assoc, List.nil_append] using hprimary
  | .connected op (first :: second :: operands), rest, ⟨_, hfirst, hmore⟩, hend => by
    have hread : Further op (spaced op.keyword ++ operandTexts table op (second :: operands) ++
        ')' :: rest) (second :: operands) (')' :: rest) :=
      further_texts htable op _ (List.cons_ne_nil _ _) hmore rfl
    have hsigned : Signed (expr table first ++ (spaced op.keyword ++
        operandTexts table op (second :: operands) ++ ')' :: rest)) first _ :=
      signed_expr htable first hfirst rfl
    have hjoined := joined_of_further (List.cons_ne_nil _ _)
      (operand_of_negated (negated_of_signed hsigned)) hread
    have hprimary := Signed.primary (Gap.refl _) (.parenthesized hjoined (Gap.refl _))
    rw [expr_connected, operandTexts_cons]
    simpa only [List.cons_append, List.append_assoc, List.nil_append] using hprimary
  | .unary .minus e, rest, ⟨h, hnumber⟩, hend => by
    have hread := Signed.minus (Gap.refl _) (signed_expr htable e h hend)
    rw [negate_of_ne hnumber] at hread
    exact hread
  -- a negation is written in parentheses, so it is read as a primary expression
  | .unary .not e, rest, h, hend => by
    have hread : Signed (' ' :: (expr table e ++ ')' :: rest)) e (')' :: rest) :=
      (signed_expr htable e h rfl).gap rfl
    have hnegated := Negated.not (Gap.refl _) ⟨rfl, rfl⟩ (negated_of_signed hread)
    have hprimary := Signed.primary (Gap.refl _) (.parenthesized
      (joined_of_operand (operand_of_negated hnegated)) (Gap.refl _))
    rw [expr_not]
    simpa using hprimary

/-- **The text of links derives them**, and that of operands below: by recursion on the list. -/
theorem links_texts (htable : TableShaped table) :
    ∀ (links : List (Comparator × Expr)) {rest : List Char}, Expr.LinksNormal links →
      atWordEnd rest = true → Links (linkTexts table links ++ rest) links rest
  | [], rest, h, hend => .done
  | (op, right) :: links, rest, ⟨hright, hlinks⟩, hend => by
    have hread := links_texts htable links hlinks hend
    -- behind an operand stands the space of the next link, or what is behind all of them
    have hstart : atWordEnd (linkTexts table links ++ rest) = true := by
      cases links with
      | nil => exact hend
      | cons => rfl
    have hsigned : Signed (' ' :: (expr table right ++ (linkTexts table links ++ rest))) right
        (linkTexts table links ++ rest) := (signed_expr htable right hright hstart).gap rfl
    have hsymbol : Symbol op (op.symbol.toList ++ ' ' :: (expr table right ++
        (linkTexts table links ++ rest))) _ := rfl
    have hlinks := Links.more ⟨[' '], by simp [isGap], rfl⟩ hsymbol hsigned hread
    rw [linkTexts_cons]
    simpa only [spaced, List.cons_append, List.append_assoc, List.nil_append] using hlinks

theorem further_texts (htable : TableShaped table) (op : Connective) :
    ∀ (operands : List Expr) {rest : List Char}, operands ≠ [] → Expr.OperandsNormal operands →
      atWordEnd rest = true →
      Further op (spaced op.keyword ++ operandTexts table op operands ++ rest) operands rest
  | [], rest, hne, _, _ => absurd rfl hne
  | [operand], rest, _, ⟨h, _⟩, hend => by
    have hsigned : Signed (' ' :: (expr table operand ++ rest)) operand rest :=
      (signed_expr htable operand h hend).gap rfl
    have hmore := Further.more ⟨[' '], by simp [isGap], rfl⟩ (connecting_keyword op _)
      (operand_of_negated (negated_of_signed hsigned)) .done
    rw [operandTexts_singleton]
    simpa only [spaced, List.cons_append, List.append_assoc, List.nil_append] using hmore
  | operand :: second :: operands, rest, _, ⟨h, hmore⟩, hend => by
    have hread := further_texts htable op (second :: operands) (List.cons_ne_nil _ _) hmore hend
    have hsigned : Signed (' ' :: (expr table operand ++ (spaced op.keyword ++
        operandTexts table op (second :: operands) ++ rest))) operand _ :=
      (signed_expr htable operand h rfl).gap rfl
    have hmore := Further.more ⟨[' '], by simp [isGap], rfl⟩ (connecting_keyword op _)
      (operand_of_negated (negated_of_signed hsigned)) hread
    rw [operandTexts_cons]
    simpa only [spaced, List.cons_append, List.append_assoc, List.nil_append] using hmore

end

end Render

end RuleVote
