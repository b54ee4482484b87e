import RuleVote.Proofs.Rule.Derivation
/-!
# What is derived is accepted

The converse of `expression_sound`. A derivation may stop a repetition
early and may take `<` off the front of `<=`; the parser does neither. So
a derivation says what the parser finds only where it cannot go on: an
operand in front of no point and no opening bracket (`EndsOperand`), a
chain in front of no comparison operator (`EndsChain`), a list of operands
in front of no connective of its own or a tighter level (`Ends`).

Inside a derivation the condition holds at every place where one part
meets the next, because the part that follows starts with an operator, a
connective or a closing mark. The length of the text bounds the depth of
its parentheses, which is what lets `expression` run out of none.
-/

namespace RuleVote

namespace Grammar

open Token

variable {inner : List Char → Parsed Expr} {cs rest : List Char} {e : Expr}

/-! ## Where a derivation ends -/

/-- No point and no opening bracket follows, so neither a number nor a name
goes on. -/
def EndsOperand (cs : List Char) : Prop :=
  (skipGaps cs).head? ≠ some '.' ∧ (skipGaps cs).head? ≠ some '['

/-- An operand ends, and no comparison operator follows. -/
def EndsChain (cs : List Char) : Prop :=
  EndsOperand cs ∧ takeComparator? (skipGaps cs) = none

/-- One operand of a connective ends. -/
def EndsItem : Connective → List Char → Prop
  | .and, cs => EndsChain cs
  | .or, cs => EndsChain cs ∧ takeConnective? .and (skipGaps cs) = none

/-- An operand of a connective ends, and the connective does not follow. -/
def Ends (op : Connective) (cs : List Char) : Prop :=
  EndsItem op cs ∧ takeConnective? op (skipGaps cs) = none

/-- Where an item ends, a chain of comparisons ends as well. -/
theorem EndsItem.chain {op : Connective} (h : EndsItem op cs) : EndsChain cs := by
  cases op with
  | and => exact h
  | or => exact h.1

/-- An operand does not end before a point, which would go on with its number. -/
theorem EndsOperand.head_ne_point (h : EndsOperand cs) : cs.head? ≠ some '.' := by
  intro hc
  obtain ⟨tail, rfl⟩ : ∃ tail, cs = '.' :: tail := by
    cases cs <;> simp_all
  exact h.1 rfl

/-- A comparator is found behind a gap. -/
theorem skipGaps_of_symbol {mid start : List Char} {op : Comparator} (hgap : Gap cs mid)
    (hop : Symbol op mid start) : skipGaps cs = mid := by
  obtain ⟨c, tail, rfl, hc⟩ : ∃ c tail, mid = c :: tail ∧ isGap c = false := by
    cases op <;> exact ⟨_, _, hop, rfl⟩
  exact hgap.skipGaps_cons hc

/-- A connective is found behind a gap. -/
theorem skipGaps_of_connecting {mid start : List Char} {op : Connective} (hgap : Gap cs mid)
    (hop : Connecting op mid start) : skipGaps cs = mid := by
  obtain ⟨c, tail, rfl, hc⟩ : ∃ c tail, mid = c :: tail ∧ isGap c = false := by
    cases op <;> rcases hop with ⟨hop, -⟩ | hop <;> exact ⟨_, _, hop, rfl⟩
  exact hgap.skipGaps_cons hc

/-- A comparison operator ends the operand in front of it. -/
theorem endsOperand_of_symbol {mid start : List Char} {op : Comparator} (hgap : Gap cs mid)
    (hop : Symbol op mid start) : EndsOperand cs := by
  rw [EndsOperand, skipGaps_of_symbol hgap hop, hop]
  cases op <;> simp [Comparator.symbol]

/-- A connective ends the operand in front of it. -/
theorem endsItem_of_connecting {mid start : List Char} {op : Connective} (hgap : Gap cs mid)
    (hop : Connecting op mid start) : EndsItem op cs := by
  have hskip := skipGaps_of_connecting hgap hop
  cases op with
  | and =>
    rcases hop with ⟨rfl, -⟩ | rfl <;>
      simp [EndsItem, EndsChain, EndsOperand, hskip, takeComparator?, Connective.keyword,
        connectiveSign]
  | or =>
    rcases hop with ⟨rfl, -⟩ | rfl <;>
      simp [EndsItem, EndsChain, EndsOperand, hskip, takeComparator?, takeConnective?,
        takeKeyword?, takeExactly, Connective.keyword, connectiveSign]

/-- A closing mark ends an expression. -/
theorem ends_of_mark {mark : Char} {tail : List Char} (hmark : mark = ')' ∨ mark = ':')
    (hgap : Gap cs (mark :: tail)) : Ends .or cs := by
  have hskip : skipGaps cs = mark :: tail :=
    hgap.skipGaps_cons (by rcases hmark with rfl | rfl <;> rfl)
  rcases hmark with rfl | rfl <;>
    simp [Ends, EndsItem, EndsChain, EndsOperand, hskip, takeComparator?, takeConnective?,
      takeKeyword?, takeExactly, Connective.keyword, connectiveSign]

/-- So does the end of the text. -/
theorem ends_of_skipGaps_eq_nil (h : skipGaps cs = []) : Ends .or cs := by
  simp [Ends, EndsItem, EndsChain, EndsOperand, h, takeComparator?, takeConnective?,
    takeKeyword?, takeExactly, Connective.keyword, connectiveSign]

/-- An operand ends where the links after it begin. -/
theorem Links.endsOperand {links : List (Comparator × Expr)} (h : Links cs links rest)
    (hends : EndsChain rest) : EndsOperand cs := by
  cases h with
  | done => exact hends.1
  | more hgap hop _ _ => exact endsOperand_of_symbol hgap hop

/-- And an operand of a connective where the further operands begin. -/
theorem Further.endsItem {op : Connective} {es : List Expr} (h : Further op cs es rest)
    (hends : Ends op rest) : EndsItem op cs := by
  cases h with
  | done => exact hends.1
  | more hgap hop _ _ => exact endsItem_of_connecting hgap hop

/-! ## What a derivation takes -/

theorem length_lt_of_connecting {op : Connective} (h : Connecting op cs rest) :
    rest.length < cs.length := by
  rcases h with h | rfl
  · exact h.length_lt (by cases op <;> decide)
  · simp

theorem length_lt_of_symbol {op : Comparator} (h : Symbol op cs rest) :
    rest.length < cs.length := by
  rw [h, List.length_append]
  exact Nat.lt_add_of_pos_left (by cases op <;> decide)

mutual

/-- Every part of a derivation takes something off the text, the repetitions
apart. -/
theorem Joined.length_lt {op : Connective} {cs rest : List Char} {e : Expr} :
    Joined op cs e rest → rest.length < cs.length
  | .mk hfirst hmore => by
    have := hfirst.length_lt
    have := hmore.length_le
    omega

theorem Operand.length_lt {op : Connective} {cs rest : List Char} {e : Expr} :
    Operand op cs e rest → rest.length < cs.length
  | .conjunction h => h.length_lt
  | .negated h => h.length_lt

theorem Further.length_le {op : Connective} {cs rest : List Char} {es : List Expr} :
    Further op cs es rest → rest.length ≤ cs.length
  | .done => le_rfl
  | .more hgap hop hoperand hmore => by
    have := hgap.length_le
    have := length_lt_of_connecting hop
    have := hoperand.length_lt
    have := hmore.length_le
    omega

theorem Negated.length_lt {cs rest : List Char} {e : Expr} :
    Negated cs e rest → rest.length < cs.length
  | .not hgap hnot h => by
    have := hgap.length_le
    have := hnot.length_lt (by decide)
    have := h.length_lt
    omega
  | .compared h => h.length_lt

theorem Compared.length_lt {cs rest : List Char} {e : Expr} :
    Compared cs e rest → rest.length < cs.length
  | .mk hfirst hlinks => by
    have := hfirst.length_lt
    have := hlinks.length_le
    omega

theorem Links.length_le {cs rest : List Char} {links : List (Comparator × Expr)} :
    Links cs links rest → rest.length ≤ cs.length
  | .done => le_rfl
  | .more hgap hop hsigned hlinks => by
    have := hgap.length_le
    have := length_lt_of_symbol hop
    have := hsigned.length_lt
    have := hlinks.length_le
    omega

theorem Signed.length_lt {cs rest : List Char} {e : Expr} :
    Signed cs e rest → rest.length < cs.length
  | .minus hgap h => by
    have := hgap.length_le
    have := h.length_lt
    simp only [List.length_cons] at *
    omega
  | .primary hgap h => by
    have := hgap.length_le
    have := h.length_lt
    omega

theorem Primary.length_lt {cs rest : List Char} {e : Expr} :
    Primary cs e rest → rest.length < cs.length
  | .number h => h.length_lt
  | .yes h => h.length_lt (by decide)
  | .no h => h.length_lt (by decide)
  | .lookup _ _ h => h.length_lt
  | .name h => h.1.length_lt
  | .parenthesized h hclosed => by
    have := h.length_lt
    have := hclosed.length_le
    simp only [List.length_cons] at *
    omega

end

/-! ## The readers, past a gap and at a first character -/

/-- A reader of operands skips gaps. -/
theorem signed_gap {start : List Char} (hgap : Gap cs start) :
    signed inner cs = signed inner start := by
  obtain ⟨gap, hall, rfl⟩ := hgap
  induction gap with
  | nil => rfl
  | cons c gap ih =>
    rw [List.cons_append, signed, if_pos (hall c (by simp))]
    exact ih fun d hd => hall d (List.mem_cons_of_mem c hd)

/-- A reader of negations skips gaps. -/
theorem negation_gap {start : List Char} (hgap : Gap cs start) :
    negation inner cs = negation inner start := by
  obtain ⟨gap, hall, rfl⟩ := hgap
  induction gap with
  | nil => rfl
  | cons c gap ih =>
    have hc : isGap c = true := hall c (by simp)
    rw [List.cons_append, negation, if_pos hc]
    · exact ih fun d hd => hall d (List.mem_cons_of_mem c hd)
    · rintro _ rfl
      cases hc

/-- The characters a primary may start with. -/
def opens (c : Char) : Bool := c.isDigit || c == '.' || startsWord c || c == '('

theorem isGap_of_opens {c : Char} (h : opens c = true) : isGap c = false := by
  cases hgap : isGap c with
  | false => rfl
  | true =>
    simp only [isGap, Bool.or_eq_true, beq_iff_eq] at hgap
    rcases hgap with ((rfl | rfl) | rfl) | rfl <;> cases h

/-- A primary starts with a character that opens one. -/
theorem Primary.opens (h : Primary cs e rest) : ∃ c tail, cs = c :: tail ∧ opens c = true := by
  cases h with
  | number h =>
    obtain ⟨c, tail, rfl, hc | rfl⟩ := h.head
    · exact ⟨c, tail, rfl, by simp [Grammar.opens, hc]⟩
    · exact ⟨'.', tail, rfl, rfl⟩
  | yes h => exact ⟨'T', _, h.1, rfl⟩
  | no h => exact ⟨'F', _, h.1, rfl⟩
  | lookup _ _ h =>
    obtain ⟨mid, _, _, _, hword, -⟩ := h
    obtain ⟨c, tail, rfl, hc⟩ := hword.head
    exact ⟨c, tail, rfl, by simp [Grammar.opens, hc]⟩
  | name h =>
    obtain ⟨c, tail, rfl, hc⟩ := h.1.head
    exact ⟨c, tail, rfl, by simp [Grammar.opens, hc]⟩
  | parenthesized => exact ⟨'(', _, rfl, rfl⟩

/-- So does an operand, unless it starts with a sign. -/
theorem Signed.opens (h : Signed cs e rest) :
    ∃ c tail, Gap cs (c :: tail) ∧ (c = '-' ∨ opens c = true) := by
  cases h with
  | minus hgap _ => exact ⟨'-', _, hgap, .inl rfl⟩
  | primary hgap h =>
    obtain ⟨c, tail, rfl, hc⟩ := h.opens
    exact ⟨c, tail, hgap, .inr hc⟩

/-- Skipping gaps stops at the first character of an operand. -/
theorem Signed.skipGaps_eq (h : Signed cs e rest) :
    ∃ c tail, skipGaps cs = c :: tail ∧ (c = '-' ∨ Grammar.opens c = true) := by
  obtain ⟨c, tail, hgap, hc⟩ := h.opens
  refine ⟨c, tail, hgap.skipGaps_cons ?_, hc⟩
  rcases hc with rfl | hc
  · rfl
  · exact isGap_of_opens hc

/-- Dropping the gap before an operand leaves its derivation. -/
theorem Signed.skipGaps (h : Signed cs e rest) : Signed (skipGaps cs) e rest := by
  cases h with
  | minus hgap h =>
    rw [hgap.skipGaps_cons rfl]
    exact .minus (.refl _) h
  | primary hgap h =>
    obtain ⟨c, tail, rfl, hc⟩ := h.opens
    rw [hgap.skipGaps_cons (isGap_of_opens hc)]
    exact .primary (.refl _) h

/-- **An operator is read in full**: what opens an operand is no equals sign,
so `<` in front of an operand is not the start of `<=`. -/
theorem takeComparator?_of_signed {op : Comparator} {start : List Char} (hop : Symbol op cs start)
    (h : Signed start e rest) : takeComparator? cs = some (op, start) := by
  -- the operand would have to start with the equals sign
  have hne : ∀ tail, start ≠ '=' :: tail := by
    rintro tail rfl
    obtain ⟨c, tail', hskip, hc⟩ := h.skipGaps_eq
    rw [Token.skipGaps_cons rfl] at hskip
    cases hskip
    rcases hc with hc | hc <;> cases hc
  subst hop
  cases op with
  | less => simp [Comparator.symbol, takeComparator?]
  | greater => simp [Comparator.symbol, takeComparator?]
  | _ => rfl

/-- Nothing starts with an opening bracket, so a `not` in front of one is no
operator. -/
theorem negation_bracket (inner : List Char → Parsed Expr) {tail : List Char}
    (hgap : Gap cs ('[' :: tail)) :
    ∃ rest, negation inner cs = .error rest := by
  have hnumber : takeNumber? ('[' :: tail) = none := takeNumber?_cons_eq_none rfl (by decide)
  refine ⟨'[' :: tail, ?_⟩
  rw [negation_gap hgap]
  simp [negation, comparison, signed, primary, parenthesized, hnumber, takeKeyword?, takeExactly,
    takeLookup?, takeName?, takeWord?, isGap, startsWord]

/-! ## The readers follow a derivation -/

/-- A word that is no truth value is read as a lookup, or else as a name. -/
theorem primary_of_word {name : String} (h : Word name cs rest) (hyes : name ≠ "True")
    (hno : name ≠ "False") :
    primary inner cs = match takeLookup? cs with
      | some (name, rest) => .ok (.feature name, rest)
      | none => match takeName? cs with
        | some (name, rest) => .ok (.feature name, rest)
        | none => parenthesized inner cs := by
  have htrue : takeKeyword? "True" cs = none := takeKeyword?_of_word h (by decide) hyes
  have hfalse : takeKeyword? "False" cs = none := takeKeyword?_of_word h (by decide) hno
  rewrite [primary, takeNumber?_of_word h, htrue, hfalse]
  rfl

/-- A derivation that starts with the word `not` and is none of `not` looks a
name up in a table of that name. -/
theorem bracket_of_signed_not {tail : List Char} (h : Signed cs e rest)
    (hnot : Keyword "not" cs tail) : ∃ opened, Gap tail ('[' :: opened) := by
  have hword : Word "not" cs tail := ⟨by decide, hnot⟩
  obtain ⟨c, cs', rfl, hc⟩ := hword.head
  have hgap : isGap c = false := isGap_of_opens (by simp [opens, hc])
  cases h with
  | minus hminus _ =>
    cases hminus.eq_of_cons hgap
    cases hc
  | primary hstart h =>
    cases hstart.eq_of_cons hgap
    cases h with
    | number h =>
      obtain ⟨d, _, heq, hd⟩ := h.head
      cases heq
      rcases hd with hd | rfl
      · rw [isDigit_of_startsWord hc] at hd; cases hd
      · cases hc
    | yes h => exact absurd (hword.unique ⟨by decide, h⟩).1 (by decide)
    | no h => exact absurd (hword.unique ⟨by decide, h⟩).1 (by decide)
    | lookup _ _ h =>
      obtain ⟨mid, opened, _, _, htable, hopened, -⟩ := h
      obtain ⟨-, rfl⟩ := hword.unique htable
      exact ⟨opened, hopened⟩
    | name h =>
      obtain ⟨rfl, -⟩ := hword.unique h.1
      exact absurd (by decide) h.2
    | parenthesized => cases hc

/-- A chain that is derived is read as such, also where it starts with the
word `not`. -/
theorem negation_of_compared (h : Compared cs e rest)
    (hread : comparison inner cs = .ok (e, rest)) :
    negation inner cs = .ok (e, rest) := by
  have hsame : comparison inner (skipGaps cs) = .ok (e, rest) := by
    rw [comparison, ← signed_gap (gap_skipGaps cs), ← comparison, hread]
  rw [negation_gap (gap_skipGaps cs)]
  obtain ⟨hfirst, -⟩ := h
  have hsigned := hfirst.skipGaps
  obtain ⟨c, tail, hskip, hc⟩ := hfirst.skipGaps_eq
  rw [hskip] at hsame hsigned ⊢
  rw [negation.eq_def]
  split
  · next tail' heq =>
    cases heq
    split
    · next hend =>
      -- the word `not` names a table here, and nothing can be negated behind it
      obtain ⟨opened, hopened⟩ := bracket_of_signed_not hsigned ⟨rfl, hend⟩
      obtain ⟨stuck, hstuck⟩ := negation_bracket inner hopened
      rw [hstuck]
      exact hsame
    · exact hsame
  · next heq =>
    cases heq
    rw [if_neg ?_]
    · exact hsame
    · rcases hc with rfl | hc
      · decide
      · simp [isGap_of_opens hc]
  · next heq => cases heq

/-- A repetition stops where no item starts. -/
theorem many_nil {α : Type} {item : List Char → Option (α × List Char)} (h : item cs = none) :
    many item cs = ([], cs) := by
  rw [many, h]

/-- A repetition goes on behind an item that takes something off. -/
theorem many_cons {α : Type} {item : List Char → Option (α × List Char)} {a : α} {as : List α}
    {mid : List Char} (hitem : item cs = some (a, mid)) (hlt : mid.length < cs.length)
    (hmany : many item mid = (as, rest)) : many item cs = (a :: as, rest) := by
  rw [many, hitem]
  simp [hlt, hmany]

mutual

/-- **Where a derivation cannot go on, the parser finds its tree and its
end**, given parentheses enough for the length of the text. -/
theorem joined_complete {op : Connective} {cs rest : List Char} {e : Expr} :
    Joined op cs e rest → ∀ depth, cs.length ≤ depth → Ends op rest →
      joined op (operand (expression depth) op) cs = .ok (e, rest)
  | .mk hfirst hmore, depth, hle, hends => by
    have hlt := hfirst.length_lt
    rw [joined, operand_complete hfirst depth hle (hmore.endsItem hends)]
    simp only [further_complete hmore depth (by omega) hends]

theorem operand_complete {op : Connective} {cs rest : List Char} {e : Expr} :
    Operand op cs e rest → ∀ depth, cs.length ≤ depth → EndsItem op rest →
      operand (expression depth) op cs = .ok (e, rest)
  | .conjunction h, depth, hle, hends => joined_complete h depth hle hends
  | .negated h, depth, hle, hends => negated_complete h depth hle hends

theorem further_complete {op : Connective} {cs rest : List Char} {es : List Expr} :
    Further op cs es rest → ∀ depth, cs.length ≤ depth → Ends op rest →
      many (further op (operand (expression depth) op)) cs = (es, rest)
  | .done, depth, _, hends => many_nil (by simp [further, hends.2])
  | .more hgap hop hoperand hmore, depth, hle, hends => by
    have h1 := hgap.length_le
    have h2 := length_lt_of_connecting hop
    have h3 := hoperand.length_lt
    refine many_cons ?_ (by omega) (further_complete hmore depth (by omega) hends)
    have hread := operand_complete hoperand depth (by omega) (hmore.endsItem hends)
    simp [further, skipGaps_of_connecting hgap hop, takeConnective?_eq_some_iff.2 hop, hread,
      Except.toOption]

theorem negated_complete {cs rest : List Char} {e : Expr} :
    Negated cs e rest → ∀ depth, cs.length ≤ depth → EndsChain rest →
      negation (expression depth) cs = .ok (e, rest)
  | @Negated.not _ _ start _ _ hgap hnot h, depth, hle, hends => by
    have h1 := hgap.length_le
    have h2 := hnot.length_lt (by decide)
    have hread := negated_complete h depth (by omega) hends
    rw [negation_gap hgap, hnot.1]
    change negation _ ('n' :: 'o' :: 't' :: start) = _
    rw [negation, if_pos hnot.2, hread]
  | .compared h, depth, hle, hends => negation_of_compared h (compared_complete h depth hle hends)

theorem compared_complete {cs rest : List Char} {e : Expr} :
    Compared cs e rest → ∀ depth, cs.length ≤ depth → EndsChain rest →
      comparison (expression depth) cs = .ok (e, rest)
  | .mk hfirst hlinks, depth, hle, hends => by
    have hlt := hfirst.length_lt
    rw [comparison, signed_complete hfirst depth hle (hlinks.endsOperand hends)]
    simp only [links_complete hlinks depth (by omega) hends]

theorem links_complete {cs rest : List Char} {links : List (Comparator × Expr)} :
    Links cs links rest → ∀ depth, cs.length ≤ depth → EndsChain rest →
      many (link (expression depth)) cs = (links, rest)
  | .done, depth, _, hends => many_nil (by simp [link, hends.2])
  | .more hgap hop hsigned hlinks, depth, hle, hends => by
    have h1 := hgap.length_le
    have h2 := length_lt_of_symbol hop
    have h3 := hsigned.length_lt
    refine many_cons ?_ (by omega) (links_complete hlinks depth (by omega) hends)
    have hread := signed_complete hsigned depth (by omega) (hlinks.endsOperand hends)
    simp [link, skipGaps_of_symbol hgap hop, takeComparator?_of_signed hop hsigned, hread,
      Except.toOption]

theorem signed_complete {cs rest : List Char} {e : Expr} :
    Signed cs e rest → ∀ depth, cs.length ≤ depth → EndsOperand rest →
      signed (expression depth) cs = .ok (e, rest)
  | .minus hgap h, depth, hle, hends => by
    have h1 := hgap.length_le
    rw [List.length_cons] at h1
    rw [signed_gap hgap, signed, if_neg (by decide), if_pos rfl,
      signed_complete h depth (by omega) hends]
  | .primary hgap h, depth, hle, hends => by
    have h1 := hgap.length_le
    have hread := primary_complete h depth (by omega) hends
    obtain ⟨c, tail, rfl, hc⟩ := h.opens
    have hminus : c ≠ '-' := by rintro rfl; cases hc
    rw [signed_gap hgap, signed, if_neg (by simp [isGap_of_opens hc]), if_neg hminus, hread]

theorem primary_complete {cs rest : List Char} {e : Expr} :
    Primary cs e rest → ∀ depth, cs.length ≤ depth → EndsOperand rest →
      primary (expression depth) cs = .ok (e, rest)
  | .number h, depth, _, hends => by
    rw [primary, takeNumber?_of_spelled h hends.head_ne_point]
  | .yes h, depth, _, _ => by
    have hword : Word "True" cs rest := ⟨by decide, h⟩
    rw [primary, takeNumber?_of_word hword, takeKeyword?_eq_some_iff.2 h]
  | .no h, depth, _, _ => by
    have hword : Word "False" cs rest := ⟨by decide, h⟩
    have htrue : takeKeyword? "True" cs = none := takeKeyword?_of_word hword (by decide) (by decide)
    rw [primary, takeNumber?_of_word hword, htrue, takeKeyword?_eq_some_iff.2 h]
  | .lookup hyes hno h, depth, _, _ => by
    obtain ⟨mid, _, _, _, hword, -⟩ := id h
    rw [primary_of_word hword hyes hno, takeLookup?_eq_some_iff.2 ⟨_, h⟩]
  | @Primary.name _ _ name h, depth, _, hends => by
    have hkeyword : ∀ word ∈ keywords, name ≠ word := by
      rintro word hword rfl
      exact h.2 hword
    -- a lookup needs a bracket where this derivation ends
    have hlookup : takeLookup? cs = none := by
      cases hl : takeLookup? cs with
      | none => rfl
      | some r =>
        obtain ⟨table, mid, opened, _, _, hword, hopened, -⟩ := takeLookup?_eq_some_iff.1 hl
        obtain ⟨-, rfl⟩ := h.1.unique hword
        have := hopened.skipGaps_cons rfl
        exact absurd (by rw [this]; rfl) hends.2
    rw [primary_of_word h.1 (hkeyword _ (by decide)) (hkeyword _ (by decide)), hlookup,
      takeName?_eq_some_iff.2 h]
  | @Primary.parenthesized start _ _ _ h hclosed, depth, hle, _ => by
    have hnumber : takeNumber? ('(' :: start) = none := takeNumber?_cons_eq_none rfl (by decide)
    rw [List.length_cons] at hle
    -- the parenthesis is the character that pays for one level of depth
    obtain ⟨depth, rfl⟩ : ∃ d, depth = d + 1 := ⟨depth - 1, by omega⟩
    have hread := joined_complete h depth (by omega) (ends_of_mark (.inl rfl) hclosed)
    have hexpr : expression (depth + 1) start = .ok (e, _) := hread
    rw [primary, hnumber]
    simp [takeKeyword?, takeExactly, takeLookup?, takeName?, takeWord?, startsWord, parenthesized,
      hexpr, (takeMark?_eq_some_iff rfl).2 hclosed]

end

/-- **The whole parser follows a derivation** that cannot go on. -/
theorem takeExpression_of_joined (h : Joined .or cs e rest) (hends : Ends .or rest) :
    takeExpression cs = .ok (e, rest) :=
  joined_complete h _ le_rfl hends

/-- What it reads is derived. -/
theorem joined_of_takeExpression (h : takeExpression cs = .ok (e, rest)) : Joined .or cs e rest :=
  expression_sound _ h

end Grammar

/-- An expression that is read is derived, with gaps around it. -/
theorem joined_of_parseExpression {text : List Char} {e : Expr}
    (h : parseExpression text = .ok e) :
    ∃ rest, Grammar.Joined .or (trimLeft text) e rest ∧ ∀ c ∈ rest, Token.isGap c = true := by
  simp only [parseExpression] at h
  split at h
  · cases h
  · next e' rest hread =>
    split at h
    · next hempty =>
      cases h
      exact ⟨rest, Grammar.joined_of_takeExpression hread, Token.skipGaps_isEmpty_iff.1 hempty⟩
    · cases h

/-- An expression that is derived, with gaps around it, is read. -/
theorem parseExpression_of_joined {text rest : List Char} {e : Expr}
    (h : Grammar.Joined .or (trimLeft text) e rest) (hgaps : ∀ c ∈ rest, Token.isGap c = true) :
    parseExpression text = .ok e := by
  have hempty := Token.skipGaps_isEmpty_iff.2 hgaps
  have hends := Grammar.ends_of_skipGaps_eq_nil (List.isEmpty_iff.1 hempty)
  simp only [parseExpression, Grammar.takeExpression_of_joined h hends, hempty, if_true]

/-- **A text is accepted as an expression exactly when it is derived as one**,
leading blanks and trailing gaps apart, and then with the tree of the
derivation. -/
theorem parseExpression_eq_ok_iff {text : List Char} {e : Expr} :
    parseExpression text = .ok e ↔
      ∃ rest, Grammar.Joined .or (trimLeft text) e rest ∧ ∀ c ∈ rest, Token.isGap c = true := by
  constructor
  · exact joined_of_parseExpression
  · rintro ⟨rest, hjoined, hgaps⟩
    exact parseExpression_of_joined hjoined hgaps

end RuleVote
