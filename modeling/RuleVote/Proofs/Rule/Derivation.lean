import RuleVote.Rule.Grammar
import RuleVote.Proofs.Rule.Lexeme
/-!
# The grammar as derivations

The grammar of expressions as an inductive relation: `Joined .or cs e rest`
says that a text in front of `rest` is derived with tree `e`, and the
levels below it say the same of `and`, `not`, chains of comparisons, signs
and primaries. Nothing in it tries one alternative before another or takes
as much as it can; where a repetition stops is left open.

The parser does choose, but each choice is a step of some derivation: what
it reads is derived (`expression_sound`), however deep the parentheses.
-/

namespace RuleVote

namespace Grammar

open Token

/-- A comparison operator at the front of a text. -/
def Symbol (op : Comparator) (cs rest : List Char) : Prop := cs = op.symbol.toList ++ rest

/-- A connective at the front of a text, as a keyword or as a sign. -/
def Connecting (op : Connective) (cs rest : List Char) : Prop :=
  Keyword op.keyword cs rest ∨ cs = connectiveSign op :: rest

mutual

/-- Operands joined by a connective, those of `or` being joined by `and`. -/
inductive Joined : Connective → List Char → Expr → List Char → Prop
  | mk {op : Connective} {cs mid rest : List Char} {first : Expr} {operands : List Expr} :
      Operand op cs first mid → Further op mid operands rest →
      Joined op cs (connect op first operands) rest

/-- One operand of a connective. -/
inductive Operand : Connective → List Char → Expr → List Char → Prop
  | conjunction {cs rest : List Char} {e : Expr} : Joined .and cs e rest → Operand .or cs e rest
  | negated {cs rest : List Char} {e : Expr} : Negated cs e rest → Operand .and cs e rest

/-- Any number of operands, each after a connective. -/
inductive Further : Connective → List Char → List Expr → List Char → Prop
  | done {op : Connective} {cs : List Char} : Further op cs [] cs
  | more {op : Connective} {cs mid start after rest : List Char} {e : Expr} {es : List Expr} :
      Gap cs mid → Connecting op mid start → Operand op start e after →
      Further op after es rest → Further op cs (e :: es) rest

/-- A chain of comparisons after any number of `not`s. -/
inductive Negated : List Char → Expr → List Char → Prop
  | not {cs mid start rest : List Char} {e : Expr} :
      Gap cs mid → Keyword "not" mid start → Negated start e rest →
      Negated cs (.unary .not e) rest
  | compared {cs rest : List Char} {e : Expr} : Compared cs e rest → Negated cs e rest

/-- A chain of comparisons. -/
inductive Compared : List Char → Expr → List Char → Prop
  | mk {cs mid rest : List Char} {first : Expr} {links : List (Comparator × Expr)} :
      Signed cs first mid → Links mid links rest → Compared cs (chain first links) rest

/-- Any number of links of a chain. -/
inductive Links : List Char → List (Comparator × Expr) → List Char → Prop
  | done {cs : List Char} : Links cs [] cs
  | more {cs mid start after rest : List Char} {op : Comparator} {e : Expr}
      {links : List (Comparator × Expr)} :
      Gap cs mid → Symbol op mid start → Signed start e after → Links after links rest →
      Links cs ((op, e) :: links) rest

/-- A primary after any number of signs. -/
inductive Signed : List Char → Expr → List Char → Prop
  | minus {cs start rest : List Char} {e : Expr} :
      Gap cs ('-' :: start) → Signed start e rest → Signed cs (negate e) rest
  | primary {cs start rest : List Char} {e : Expr} :
      Gap cs start → Primary start e rest → Signed cs e rest

/-- A number, a truth value, a feature, or an expression in parentheses. The
words of the truth values name no table. -/
inductive Primary : List Char → Expr → List Char → Prop
  | number {cs rest : List Char} {x : Float32} :
      Number x cs rest → Primary cs (.literal (.number x)) rest
  | yes {cs rest : List Char} : Keyword "True" cs rest → Primary cs (.literal (.truth true)) rest
  | no {cs rest : List Char} : Keyword "False" cs rest → Primary cs (.literal (.truth false)) rest
  | lookup {cs rest : List Char} {table name : String} :
      table ≠ "True" → table ≠ "False" → Lookup table name cs rest → Primary cs (.feature name) rest
  | name {cs rest : List Char} {name : String} : Name name cs rest → Primary cs (.feature name) rest
  | parenthesized {start after rest : List Char} {e : Expr} :
      Joined .or start e after → Gap after (')' :: rest) → Primary ('(' :: start) e rest

end

/-! ## What the parser accepts is derived -/

variable {inner : List Char → Parsed Expr} {cs rest : List Char} {e : Expr}

/-- Every reading of a parser of expressions is a derivation. -/
def Sound (inner : List Char → Parsed Expr) : Prop :=
  ∀ {cs e rest}, inner cs = .ok (e, rest) → Joined .or cs e rest

/-- What is taken for a comparator spells it. -/
theorem symbol_of_takeComparator? {op : Comparator} (h : takeComparator? cs = some (op, rest)) :
    Symbol op cs rest := by
  rw [takeComparator?.eq_def] at h
  split at h <;> cases h <;> rfl

/-- The reader takes a connective if and only if the text spells it. -/
theorem takeConnective?_eq_some_iff {op : Connective} :
    takeConnective? op cs = some rest ↔ Connecting op cs rest := by
  rw [takeConnective?, Option.or_eq_some_iff, takeKeyword?_eq_some_iff, takeExactly_eq_some_iff,
    Connecting]
  constructor
  · rintro (h | ⟨-, h⟩)
    · exact .inl h
    · exact .inr h
  · rintro (h | h)
    · exact .inl h
    · refine .inr ⟨?_, h⟩
      cases op <;> subst h <;> rfl

/-- The items that `many` takes are readings of `item`, one after another. -/
theorem many_cases {α : Type} {item : List Char → Option (α × List Char)} {as : List α}
    (h : many item cs = (as, rest)) :
    (as = [] ∧ rest = cs) ∨
      ∃ a as' mid, as = a :: as' ∧ item cs = some (a, mid) ∧ mid.length < cs.length ∧
        many item mid = (as', rest) := by
  rw [many] at h
  split at h
  · cases h; exact .inl ⟨rfl, rfl⟩
  · next a mid hitem =>
    split at h
    · next hlt => cases h; exact .inr ⟨a, _, mid, rfl, hitem, hlt, rfl⟩
    · cases h; exact .inl ⟨rfl, rfl⟩

/-- **What is read for a primary expression is derived**, if the reader inside
parentheses is sound. The levels above follow in turn. -/
theorem primary_sound (hinner : Sound inner) (h : primary inner cs = .ok (e, rest)) :
    Primary cs e rest := by
  rw [primary] at h
  split at h
  · next x _ hx => cases h; exact .number (number_of_takeNumber? hx)
  split at h
  · next hyes => cases h; exact .yes (takeKeyword?_eq_some_iff.1 hyes)
  split at h
  · next hno => cases h; exact .no (takeKeyword?_eq_some_iff.1 hno)
  next hyes _ hno =>
  split at h
  · next hlookup =>
    cases h
    obtain ⟨table, hlookup⟩ := takeLookup?_eq_some_iff.1 hlookup
    obtain ⟨mid, -, -, -, ⟨-, hword⟩, -⟩ := id hlookup
    -- the two words that name no table were tried before it
    refine .lookup ?_ ?_ hlookup
    · rintro rfl
      rw [takeKeyword?_eq_some_iff.2 hword] at hyes
      cases hyes
    · rintro rfl
      rw [takeKeyword?_eq_some_iff.2 hword] at hno
      cases hno
  split at h
  · next hname => cases h; exact .name (takeName?_eq_some_iff.1 hname)
  rw [parenthesized.eq_def] at h
  split at h
  · split at h
    · cases h
    · next hin =>
      split at h
      · next hclosed =>
        cases h
        exact .parenthesized (hinner hin) ((takeMark?_eq_some_iff rfl).1 hclosed)
      · cases h
  · cases h

/-- A gap in front leaves a derivation. -/
theorem Signed.gap {c : Char} (hc : isGap c = true) (h : Signed cs e rest) :
    Signed (c :: cs) e rest := by
  cases h with
  | minus hgap h => exact .minus (hgap.cons hc) h
  | primary hgap h => exact .primary (hgap.cons hc) h

theorem signed_sound (hinner : Sound inner) (h : signed inner cs = .ok (e, rest)) :
    Signed cs e rest := by
  fun_induction signed inner cs generalizing e rest with
  | case1 => exact .primary (.refl []) (primary_sound hinner h)
  | case2 c tail hc ih => exact (ih h).gap hc
  | case3 tail e' rest' htail _ ih =>
    cases h
    exact .minus (.refl _) (ih htail)
  | case4 => cases h
  | case5 c tail => exact .primary (.refl _) (primary_sound hinner h)

theorem link_sound (hinner : Sound inner) {op : Comparator}
    (h : link inner cs = some ((op, e), rest)) :
    ∃ mid start, Gap cs mid ∧ Symbol op mid start ∧ Signed start e rest := by
  simp only [link, Option.bind_eq_bind, Option.bind_eq_some_iff] at h
  obtain ⟨⟨op', start⟩, hop, ⟨e', rest'⟩, hsigned, heq⟩ := h
  cases heq
  cases hread : signed inner start with
  | error => rw [hread] at hsigned; cases hsigned
  | ok r =>
    rw [hread] at hsigned
    cases hsigned
    exact ⟨skipGaps cs, start, gap_skipGaps cs, symbol_of_takeComparator? hop,
      signed_sound hinner hread⟩

theorem links_sound (hinner : Sound inner) {links : List (Comparator × Expr)}
    (h : many (link inner) cs = (links, rest)) : Links cs links rest := by
  induction links generalizing cs with
  | nil =>
    rcases many_cases h with ⟨-, rfl⟩ | ⟨_, _, _, heq, -⟩
    · exact .done
    · cases heq
  | cons l links ih =>
    rcases many_cases h with ⟨heq, -⟩ | ⟨⟨op, e⟩, _, after, heq, hlink, -, hmany⟩
    · cases heq
    · cases heq
      obtain ⟨mid, start, hgap, hop, hsigned⟩ := link_sound hinner hlink
      exact .more hgap hop hsigned (ih hmany)

/-- A comparison that is read is derived. -/
theorem comparison_sound (hinner : Sound inner) (h : comparison inner cs = .ok (e, rest)) :
    Compared cs e rest := by
  rw [comparison] at h
  split at h
  · cases h
  · next first mid hfirst =>
    cases hmany : many (link inner) mid with
    | mk links rest' =>
      rw [hmany] at h
      cases h
      exact .mk (signed_sound hinner hfirst) (links_sound hinner hmany)

theorem Negated.gap {c : Char} (hc : isGap c = true) (h : Negated cs e rest) :
    Negated (c :: cs) e rest := by
  cases h with
  | not hgap hnot h => exact .not (hgap.cons hc) hnot h
  | compared h =>
    cases h with
    | mk hfirst hlinks => exact .compared (.mk (hfirst.gap hc) hlinks)

/-- A negation that is read is derived. -/
theorem negation_sound (hinner : Sound inner) (h : negation inner cs = .ok (e, rest)) :
    Negated cs e rest := by
  fun_induction negation inner cs generalizing e rest with
  | case1 tail hend e' rest' htail ih =>
    cases h
    exact .not (.refl _) ⟨rfl, hend⟩ (ih htail)
  | case2 => exact .compared (comparison_sound hinner h)
  | case3 => exact .compared (comparison_sound hinner h)
  | case4 c tail hnot hc ih => exact (ih h).gap hc
  | case5 => exact .compared (comparison_sound hinner h)
  | case6 => exact .compared (comparison_sound hinner h)

/-- The reader of one operand of a connective. -/
def operand (inner : List Char → Parsed Expr) : Connective → List Char → Parsed Expr
  | .or => joined .and (negation inner)
  | .and => negation inner

theorem further_sound {op : Connective}
    (hoperand : ∀ {cs e rest}, operand inner op cs = .ok (e, rest) → Operand op cs e rest)
    {es : List Expr} (h : many (further op (operand inner op)) cs = (es, rest)) :
    Further op cs es rest := by
  induction es generalizing cs with
  | nil =>
    rcases many_cases h with ⟨-, rfl⟩ | ⟨_, _, _, heq, -⟩
    · exact .done
    · cases heq
  | cons e es ih =>
    rcases many_cases h with ⟨heq, -⟩ | ⟨_, _, after, heq, hitem, -, hmany⟩
    · cases heq
    · cases heq
      simp only [further, Option.bind_eq_bind, Option.bind_eq_some_iff] at hitem
      obtain ⟨start, hop, hread⟩ := hitem
      cases hread' : operand inner op start with
      | error => rw [hread'] at hread; cases hread
      | ok r =>
        rw [hread'] at hread
        cases hread
        exact .more (gap_skipGaps cs) (takeConnective?_eq_some_iff.1 hop) (hoperand hread')
          (ih hmany)

/-- Operands that are read and joined are derived, if each of them is. -/
theorem joined_sound {op : Connective}
    (hoperand : ∀ {cs e rest}, operand inner op cs = .ok (e, rest) → Operand op cs e rest)
    (h : joined op (operand inner op) cs = .ok (e, rest)) : Joined op cs e rest := by
  rw [joined] at h
  split at h
  · cases h
  · next first mid hfirst =>
    cases hmany : many (further op (operand inner op)) mid with
    | mk es rest' =>
      rw [hmany] at h
      cases h
      exact .mk (hoperand hfirst) (further_sound hoperand hmany)

/-- **What the parser reads off the front of a text is derived**, however
deep it may go. -/
theorem expression_sound (depth : Nat) : Sound (expression depth) := by
  induction depth with
  | zero => intro cs e rest h; cases h
  | succ depth ih =>
    intro cs e rest h
    have hand : ∀ {cs e rest}, joined .and (negation (expression depth)) cs = .ok (e, rest) →
        Joined .and cs e rest :=
      joined_sound fun h => .negated (negation_sound ih h)
    exact joined_sound (fun h => .conjunction (hand h)) h

end Grammar

end RuleVote
