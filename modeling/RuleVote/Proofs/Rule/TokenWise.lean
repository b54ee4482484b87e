import RuleVote.Proofs.Rule.Derivation
/-!
# What holds token by token

A derivation reads its text as gaps, keywords, marks, numbers and features,
one after the other. What relates a text and the names in it to the text that
is left, and is carried on when such texts are put behind each other, holds of
everything that is derived as soon as it holds of these (`TokenWise.joined`).
-/

namespace RuleVote

namespace Grammar

open Token

/-! ## The names of what is put together -/

/-- Folding a minus keeps the names. -/
theorem occurrences_negate (e : Expr) : (negate e).occurrences = e.occurrences := by
  rw [negate.eq_def]
  split <;> rfl

/-- Joining operands keeps their names. -/
theorem occurrences_connect (op : Connective) (first : Expr) (operands : List Expr) :
    (connect op first operands).occurrences =
      first.occurrences ++ Expr.operandOccurrences operands := by
  cases operands with
  | nil => exact (List.append_nil _).symm
  | cons => rfl

/-- Chaining comparisons keeps the names of their operands. -/
theorem occurrences_chain (first : Expr) (links : List (Comparator × Expr)) :
    (chain first links).occurrences = first.occurrences ++ Expr.linkOccurrences links := by
  cases links with
  | nil => exact (List.append_nil _).symm
  | cons => rfl

/-! ## Token by token -/

/-- The characters of operators and parentheses. -/
def marks : List Char := ['(', ')', '-', '&', '|', '<', '>', '=', '!']

/-- A relation between a text, the names that are read off its front and the
text that is left, which holds of every token and is carried on from one to the
next. -/
structure TokenWise (P : List String → List Char → List Char → Prop) : Prop where
  done (cs : List Char) : P [] cs cs
  append {names names' : List String} {cs mid rest : List Char} :
    P names cs mid → P names' mid rest → P (names ++ names') cs rest
  gap {cs rest : List Char} : Gap cs rest → P [] cs rest
  keyword {word : String} {cs rest : List Char} :
    WordShaped word.toList → Keyword word cs rest → P [] cs rest
  mark {c : Char} {rest : List Char} : c ∈ marks → P [] (c :: rest) rest
  number {x : Float32} {cs rest : List Char} : Number x cs rest → P [] cs rest
  lookup {table name : String} {cs rest : List Char} : Lookup table name cs rest → P [name] cs rest
  name {name : String} {cs rest : List Char} : Name name cs rest → P [name] cs rest

namespace TokenWise

variable {P : List String → List Char → List Char → Prop}

section

variable {names : List String} {cs mid rest : List Char}

/-- Text without names in front of the text that has them. -/
theorem after (hP : TokenWise P) (hstart : P [] cs mid) (h : P names mid rest) : P names cs rest :=
  hP.append hstart h

/-- Text without names behind the text that has them. -/
theorem before (hP : TokenWise P) (h : P names cs mid) (hend : P [] mid rest) : P names cs rest :=
  List.append_nil names ▸ hP.append h hend

theorem symbol (hP : TokenWise P) {op : Comparator} (h : Symbol op cs rest) : P [] cs rest := by
  subst h
  have hmark : ∀ {c : Char}, c ∈ marks → ∀ rest, P [] (c :: rest) rest := fun hc _ => hP.mark hc
  cases op with
  | less => exact hmark (by decide) _
  | lessEqual => exact hP.after (hmark (by decide) _) (hmark (by decide) _)
  | equal => exact hP.after (hmark (by decide) _) (hmark (by decide) _)
  | notEqual => exact hP.after (hmark (by decide) _) (hmark (by decide) _)
  | greaterEqual => exact hP.after (hmark (by decide) _) (hmark (by decide) _)
  | greater => exact hmark (by decide) _

theorem connecting (hP : TokenWise P) {op : Connective} (h : Connecting op cs rest) :
    P [] cs rest := by
  rcases h with h | rfl
  · exact hP.keyword (by cases op <;> decide) h
  · exact hP.mark (by cases op <;> decide)

end

mutual

/-- **What holds token by token holds of what is derived.** -/
theorem joined (hP : TokenWise P) {op : Connective} {cs rest : List Char} {e : Expr} :
    Joined op cs e rest → P e.occurrences cs rest
  | .mk hfirst hmore => by
    rw [occurrences_connect]
    exact hP.append (operand hP hfirst) (further hP hmore)

theorem operand (hP : TokenWise P) {op : Connective} {cs rest : List Char} {e : Expr} :
    Operand op cs e rest → P e.occurrences cs rest
  | .conjunction h => joined hP h
  | .negated h => negated hP h

theorem further (hP : TokenWise P) {op : Connective} {cs rest : List Char} {es : List Expr} :
    Further op cs es rest → P (Expr.operandOccurrences es) cs rest
  | .done => hP.done _
  | .more hgap hop hoperand hmore => by
    have hstart := hP.after (hP.gap hgap) (hP.connecting hop)
    exact hP.append (hP.after hstart (operand hP hoperand)) (further hP hmore)

theorem negated (hP : TokenWise P) {cs rest : List Char} {e : Expr} :
    Negated cs e rest → P e.occurrences cs rest
  | .not hgap hnot h => by
    have hstart := hP.after (hP.gap hgap) (hP.keyword (by decide) hnot)
    exact hP.after hstart (negated hP h :)
  | .compared h => compared hP h

theorem compared (hP : TokenWise P) {cs rest : List Char} {e : Expr} :
    Compared cs e rest → P e.occurrences cs rest
  | .mk hfirst hlinks => by
    rw [occurrences_chain]
    exact hP.append (signed hP hfirst) (links hP hlinks)

theorem links (hP : TokenWise P) {cs rest : List Char} {ls : List (Comparator × Expr)} :
    Links cs ls rest → P (Expr.linkOccurrences ls) cs rest
  | .done => hP.done _
  | .more hgap hop hsigned hlinks => by
    have hstart := hP.after (hP.gap hgap) (hP.symbol hop)
    exact hP.append (hP.after hstart (signed hP hsigned)) (links hP hlinks)

theorem signed (hP : TokenWise P) {cs rest : List Char} {e : Expr} :
    Signed cs e rest → P e.occurrences cs rest
  | .minus hgap h => by
    rw [occurrences_negate]
    exact hP.after (hP.after (hP.gap hgap) (hP.mark (by decide))) (signed hP h)
  | .primary hgap h => hP.after (hP.gap hgap) (primary hP h)

theorem primary (hP : TokenWise P) {cs rest : List Char} {e : Expr} :
    Primary cs e rest → P e.occurrences cs rest
  | .number h => hP.number h
  | .yes h => hP.keyword (by decide) h
  | .no h => hP.keyword (by decide) h
  | .lookup _ _ h => hP.lookup h
  | .name h => hP.name h
  | .parenthesized h hclosed => by
    have hend := hP.after (hP.gap hclosed) (hP.mark (by decide))
    exact hP.after (hP.mark (by decide)) (hP.before (joined hP h) hend)

end

end TokenWise

end Grammar

end RuleVote
