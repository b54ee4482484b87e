import RuleVote.Proofs.Rule.Names
import RuleVote.Proofs.Rule.TokenWise
/-!
# What a reading gives

Two things hold of every tree that is derived from a text. It is in normal
form, since each production makes its constructor only where the normal form
allows it (`joined_normal`, `spells_normal`). And its names are written in the
text: the characters of all of them and of what is left behind the tree are
not more than those of the text (`Uses`), an escaped name being longer than
the name it spells.
-/

namespace RuleVote

/-! ## Normal forms -/

namespace Grammar

open Token

variable {cs rest : List Char} {e : Expr}

/-- A number that is spelled is finite, since the reader refuses any other. -/
theorem number_finite {x : Float32} (h : Number x cs rest) : IsFinite x := by
  obtain ⟨_, d, -, -, -, hlt, hx⟩ := h
  rw [hx]
  exact isFinite_toSingle hlt

/-- A minus folds into a number and stands before anything else, so it keeps normal forms. -/
theorem negate_normal (h : e.Normal) : (negate e).Normal := by
  rw [negate.eq_def]
  split
  · exact IsFinite.neg h
  · next hne => exact ⟨h, fun x heq => hne x heq⟩

/-- Joining operands in normal form gives a normal form: one operand stands for itself. -/
theorem connect_normal {op : Connective} {first : Expr} {operands : List Expr}
    (hfirst : first.Normal) (h : Expr.OperandsNormal operands) :
    (connect op first operands).Normal := by
  cases operands with
  | nil => exact hfirst
  | cons second operands =>
    refine ⟨?_, hfirst, h⟩
    rw [List.length_cons, List.length_cons]
    omega

/-- Chaining comparisons in normal form gives a normal form: without links the operand
stands for itself. -/
theorem chain_normal {first : Expr} {links : List (Comparator × Expr)} (hfirst : first.Normal)
    (h : Expr.LinksNormal links) : (chain first links).Normal := by
  cases links with
  | nil => exact hfirst
  | cons link links => exact ⟨hfirst, List.cons_ne_nil _ _, h⟩

mutual

/-- **What is derived is in normal form.** -/
theorem joined_normal {op : Connective} {cs rest : List Char} {e : Expr} :
    Joined op cs e rest → e.Normal
  | .mk hfirst hmore => connect_normal (operand_normal hfirst) (further_normal hmore)

theorem operand_normal {op : Connective} {cs rest : List Char} {e : Expr} :
    Operand op cs e rest → e.Normal
  | .conjunction h => joined_normal h
  | .negated h => negated_normal h

theorem further_normal {op : Connective} {cs rest : List Char} {es : List Expr} :
    Further op cs es rest → Expr.OperandsNormal es
  | .done => trivial
  | .more _ _ hoperand hmore => ⟨operand_normal hoperand, further_normal hmore⟩

theorem negated_normal {cs rest : List Char} {e : Expr} : Negated cs e rest → e.Normal
  | .not _ _ h => (negated_normal h :)
  | .compared h => compared_normal h

theorem compared_normal {cs rest : List Char} {e : Expr} : Compared cs e rest → e.Normal
  | .mk hfirst hlinks => chain_normal (signed_normal hfirst) (links_normal hlinks)

theorem links_normal {cs rest : List Char} {links : List (Comparator × Expr)} :
    Links cs links rest → Expr.LinksNormal links
  | .done => trivial
  | .more _ _ hsigned hlinks => ⟨signed_normal hsigned, links_normal hlinks⟩

theorem signed_normal {cs rest : List Char} {e : Expr} : Signed cs e rest → e.Normal
  | .minus _ h => negate_normal (signed_normal h)
  | .primary _ h => primary_normal h

/-- Literals and names are in normal form, and parentheses add nothing to what they hold. -/
theorem primary_normal {cs rest : List Char} {e : Expr} : Primary cs e rest → e.Normal
  | .number h => number_finite h
  | .yes _ => trivial
  | .no _ => trivial
  | .lookup _ _ h => by
    obtain ⟨_, _, _, _, -, -, -, ⟨_, _, -, -, -, hne⟩, -⟩ := h
    exact hne
  | .name h => by
    rintro rfl
    exact h.1.1
  | .parenthesized h _ => joined_normal h

end

end Grammar

namespace Layout

open Token Grammar

/-- A target that is a number fits into 32 bits. -/
theorem index_normal {cs rest : List Char} {i : Int} (h : takeIndex? cs = some (i, rest)) :
    (ReturnTarget.index i).Normal := by
  unfold takeIndex? at h
  dsimp only at h
  split at h
  · cases h
  · split_ifs at h with _ hle hle
    · cases h
      exact ⟨by omega, by omega⟩
    · cases h
      exact ⟨by omega, by omega⟩

/-- A target that is read is in normal form. -/
theorem target_normal {content : List Char} {t : ReturnTarget}
    (h : returnTarget? content = some t) : t.Normal := by
  simp only [returnTarget?, Option.bind_eq_bind, Option.bind_eq_some_iff] at h
  obtain ⟨start, -, ⟨target, rest⟩, htarget, h⟩ := h
  split at h
  · cases h
    rw [takeTarget?] at htarget
    split at htarget
    · next hindex =>
      cases htarget
      exact index_normal hindex
    · obtain ⟨⟨name, rest'⟩, hword, heq⟩ := Option.map_eq_some_iff.1 htarget
      cases heq
      exact (takeWord?_eq_some_iff.1 hword).1
  · cases h

mutual

/-- **What lines spell is in normal form.** -/
theorem spells_normal {indent : Nat} {lines : List SourceLine} {b : Block ReturnTarget} :
    SpellsBlock indent lines b → b ≠ [] ∧ Statement.BlockNormal b
  | .single hs => ⟨List.cons_ne_nil _ _, statement_normal hs, trivial⟩
  | .cons hs hmore => ⟨List.cons_ne_nil _ _, statement_normal hs, (spells_normal hmore).2⟩

/-- A statement is in normal form, and so are its branches and bodies. -/
theorem statement_normal {indent : Nat} {lines : List SourceLine} {s : Statement ReturnTarget} :
    SpellsStatement indent lines s → s.Normal
  | .give _ htarget => target_normal htarget
  | @SpellsStatement.conditional _ _ _ (condition, body) _ _ hbranch hmore => by
    obtain ⟨hcondition, hne, hbody⟩ := branch_normal hbranch
    obtain ⟨hbranches, hotherwise⟩ := further_normal hmore
    exact ⟨List.cons_ne_nil _ _, ⟨hcondition, hne, hbody, hbranches⟩, hotherwise⟩

theorem branch_normal {keyword : String} {indent : Nat} {lines : List SourceLine}
    {branch : Expr × Block ReturnTarget} : SpellsBranch keyword indent lines branch →
      branch.1.Normal ∧ branch.2 ≠ [] ∧ Statement.BlockNormal branch.2
  | .mk _ hheader hbody => by
    obtain ⟨_, _, -, hjoined, -⟩ := hheader
    exact ⟨joined_normal hjoined, body_normal hbody⟩

theorem further_normal {indent : Nat} {lines : List SourceLine}
    {branches : List (Expr × Block ReturnTarget)} {otherwise : Option (Block ReturnTarget)} :
    SpellsFurther indent lines branches otherwise →
      Statement.BranchesNormal branches ∧ Statement.ElseNormal otherwise
  | .done => ⟨trivial, trivial⟩
  | .otherwise _ _ hbody => ⟨trivial, body_normal hbody⟩
  | @SpellsFurther.more _ _ _ (condition, body) _ _ hbranch hmore => by
    obtain ⟨hcondition, hne, hbody⟩ := branch_normal hbranch
    obtain ⟨hbranches, hotherwise⟩ := further_normal hmore
    exact ⟨⟨hcondition, hne, hbody, hbranches⟩, hotherwise⟩

theorem body_normal {indent : Nat} {after : List Char} {lines : List SourceLine}
    {b : Block ReturnTarget} : SpellsBody indent after lines b → b ≠ [] ∧ Statement.BlockNormal b
  | .onLine htarget => ⟨List.cons_ne_nil _ _, target_normal htarget, trivial⟩
  | .underneath _ _ hblock => spells_normal hblock

end

end Layout

/-! ## Names -/

/-- The characters of the names and of the rest are not more than those of
the text. -/
def Uses (names : List String) (cs rest : List Char) : Prop :=
  ∀ c, (nameChars names).count c + rest.count c ≤ cs.count c

section Uses

variable {names names' : List String} {cs mid rest : List Char}

theorem Uses.trans (h : Uses names cs mid) (h' : Uses names' mid rest) :
    Uses (names ++ names') cs rest := by
  intro c
  have := h c
  have := h' c
  rw [nameChars_append, List.count_append]
  omega

/-- Text that is passed over spells no name. -/
theorem Uses.of_suffix (h : rest <:+ cs) : Uses [] cs rest := by
  intro c
  have := h.sublist.count_le c
  simpa [nameChars] using this

/-- What a later part of the text has, all of it has. -/
theorem Uses.after (h : Uses names mid rest) (hsuffix : mid <:+ cs) : Uses names cs rest :=
  (Uses.of_suffix hsuffix).trans h

/-- What is left of the rest is left of it as well. -/
theorem Uses.before (h : Uses names cs mid) (hsuffix : rest <:+ mid) : Uses names cs rest := by
  have := h.trans (.of_suffix hsuffix)
  rwa [List.append_nil] at this

/-- Names in one text and names in another that follows it. -/
theorem Uses.append {ds : List Char} (h : Uses names cs []) (h' : Uses names' ds []) :
    Uses (names ++ names') (cs ++ ds) [] := by
  intro c
  have := h c
  have := h' c
  rw [nameChars_append, List.count_append, List.count_append]
  omega

end Uses

namespace Token

variable {cs rest : List Char}

/-- A quoted text has every character as often as its name, at least: escapes only add to it. -/
theorem Quoted.count_le {quote : Char} {text name : List Char} (h : Quoted quote text name)
    (c : Char) : name.count c ≤ text.count c := by
  induction h with
  | nil => exact le_rfl
  | plain _ _ _ ih =>
    rw [List.count_cons, List.count_cons]
    omega
  | escaped _ _ ih =>
    rw [List.count_cons, List.count_cons, List.count_cons]
    omega

theorem nameChars_singleton (name : String) : nameChars [name] = name.toList := List.append_nil _

/-- A quoted name has the characters of its name. -/
theorem QuotedName.uses {name : String} (h : QuotedName name cs rest) : Uses [name] cs rest := by
  obtain ⟨quote, text, -, rfl, hquoted, -⟩ := h
  intro c
  have := hquoted.count_le c
  rw [nameChars_singleton, List.cons_append, List.count_cons, List.count_append, List.count_cons]
  omega

theorem Lookup.uses {table name : String} (h : Lookup table name cs rest) :
    Uses [name] cs rest := by
  obtain ⟨mid, opened, quoted, closed, hword, hopened, hgap, hname, hclosed⟩ := h
  have hstart : quoted <:+ cs :=
    hgap.suffix.trans ((List.suffix_cons _ _).trans (hopened.suffix.trans hword.2.suffix))
  exact (hname.uses.after hstart).before ((List.suffix_cons _ _).trans hclosed.suffix)

/-- A word has its own characters. -/
theorem Word.uses {name : String} (h : Word name cs rest) : Uses [name] cs rest := by
  obtain ⟨-, rfl, -⟩ := h
  intro c
  rw [nameChars_singleton, List.count_append]

end Token

namespace Grammar

open Token

/-- Tokens spell no more than what stands in them. -/
theorem tokenWise_uses : TokenWise Uses where
  done cs := .of_suffix (List.suffix_refl cs)
  append := Uses.trans
  gap h := .of_suffix h.suffix
  keyword _ h := .of_suffix h.suffix
  mark _ := .of_suffix (List.suffix_cons _ _)
  number h := .of_suffix h.suffix
  lookup h := h.uses
  name h := h.1.uses

/-- **The names of what is derived are written in the text.** -/
theorem joined_uses {op : Connective} {cs rest : List Char} {e : Expr} (h : Joined op cs e rest) :
    Uses e.occurrences cs rest :=
  tokenWise_uses.joined h

end Grammar

namespace Layout

open Token Grammar

/-- What stands on some lines. -/
def contents (lines : List SourceLine) : List Char := lines.flatMap SourceLine.content

theorem contents_cons (line : SourceLine) (lines : List SourceLine) :
    contents (line :: lines) = line.content ++ contents lines := rfl

theorem contents_append (lines more : List SourceLine) :
    contents (lines ++ more) = contents lines ++ contents more := List.flatMap_append

mutual

/-- **The names of what lines spell are written on them.** -/
theorem spells_uses {indent : Nat} {lines : List SourceLine} {b : Block ReturnTarget} :
    SpellsBlock indent lines b → Uses (Statement.blockOccurrences b) (contents lines) []
  | .single hs => by
    have hnames := statement_uses hs
    rw [← List.append_nil (Statement.occurrences _)] at hnames
    exact hnames
  | .cons hs hmore => by
    rw [contents_append]
    exact (statement_uses hs).append (spells_uses hmore)

/-- The lines of a statement have the characters of all names that occur in it. -/
theorem statement_uses {indent : Nat} {lines : List SourceLine} {s : Statement ReturnTarget} :
    SpellsStatement indent lines s → Uses s.occurrences (contents lines) []
  | .give _ _ => .of_suffix List.nil_suffix
  | @SpellsStatement.conditional _ _ _ (condition, body) _ _ hbranch hmore => by
    rw [contents_append]
    have hnames := (branch_uses hbranch).append (further_uses hmore)
    rw [← List.append_assoc] at hnames
    exact hnames

theorem branch_uses {keyword : String} {indent : Nat} {lines : List SourceLine}
    {branch : Expr × Block ReturnTarget} : SpellsBranch keyword indent lines branch →
      Uses (branch.1.occurrences ++ Statement.blockOccurrences branch.2) (contents lines) []
  | .mk _ hheader hbody => by
    obtain ⟨start, stop, hkeyword, hjoined, -⟩ := hheader
    rw [contents_cons]
    exact (((joined_uses hjoined).after hkeyword.suffix).before List.nil_suffix).append
      (body_uses hbody)

theorem further_uses {indent : Nat} {lines : List SourceLine}
    {branches : List (Expr × Block ReturnTarget)} {otherwise : Option (Block ReturnTarget)} :
    SpellsFurther indent lines branches otherwise →
      Uses (Statement.branchOccurrences branches ++ Statement.elseOccurrences otherwise)
        (contents lines) []
  | .done => .of_suffix List.nil_suffix
  | .otherwise _ _ hbody => by
    rw [contents_cons]
    exact (Uses.of_suffix List.nil_suffix).append (body_uses hbody)
  | @SpellsFurther.more _ _ _ (condition, body) _ _ hbranch hmore => by
    rw [contents_append]
    have hnames := (branch_uses hbranch).append (further_uses hmore)
    rw [← List.append_assoc] at hnames
    exact hnames

theorem body_uses {indent : Nat} {after : List Char} {lines : List SourceLine}
    {b : Block ReturnTarget} :
    SpellsBody indent after lines b → Uses (Statement.blockOccurrences b) (contents lines) []
  | .onLine _ => .of_suffix List.nil_suffix
  | .underneath _ _ hblock => spells_uses hblock

end

/-! ## Lines of a text -/

/-- Trimming only drops characters. -/
theorem trimChars_sublist (cs : List Char) : (trimChars cs).Sublist cs := by
  have hright := (List.dropWhile_sublist (l := (trimLeft cs).reverse) isBlank).reverse
  rw [List.reverse_reverse] at hright
  exact hright.trans (List.dropWhile_sublist _)

/-- The contents of lines are what is left of them without comments and blanks, in their order. -/
theorem contents_numberLines (number : Nat) (lines : List (List Char)) :
    (contents (numberLines number lines)).Sublist (lines.map stripComment).flatten := by
  induction lines generalizing number with
  | nil => exact List.Sublist.refl _
  | cons line lines ih =>
    rw [numberLines, contents_append, List.map_cons, List.flatten_cons]
    refine List.Sublist.append ?_ (ih _)
    rw [sourceLine?]
    split
    · exact List.nil_sublist _
    · simpa [contents] using trimChars_sublist (stripComment line)

/-- **What stands on the lines of a program is left of its text** when the
comments are taken out. -/
theorem contents_layout (text : List Char) :
    (contents (layout text)).Sublist (stripComments text) := by
  have hjoin : ∀ lines : List (List Char), lines.flatten.Sublist (joinLines lines) := by
    intro lines
    induction lines with
    | nil => exact List.nil_sublist _
    | cons line lines ih =>
      rcases eq_or_ne lines [] with rfl | hne
      · simp [joinLines]
      · rw [joinLines_cons hne, List.flatten_cons]
        exact (List.Sublist.refl line).append (ih.cons _)
  exact (contents_numberLines 1 _).trans (hjoin _)

/-- No line has a line break in it. -/
theorem notMem_textLines (text : List Char) : ∀ line ∈ textLines text, '\n' ∉ line := by
  induction text using line_induction with
  | single line hline =>
    rcases eq_or_ne line [] with rfl | hne
    · rw [textLines_nil]
      exact List.forall_mem_nil _
    · rw [textLines_of_notMem hline hne]
      simpa using hline
  | cons line rest hline ih =>
    rw [textLines_append hline]
    intro l hl
    rcases List.mem_cons.1 hl with rfl | hl
    · exact fun hmem => hline ((dropReturn_sublist line).subset hmem)
    · exact ih l hl

/-- No line of a program holds a line feed. -/
theorem notMem_contents_layout (text : List Char) : '\n' ∉ contents (layout text) := by
  intro hmem
  have hflat := (contents_numberLines 1 _).subset hmem
  obtain ⟨stripped, hstripped, hfeed⟩ := List.mem_flatten.1 hflat
  obtain ⟨line, hline, rfl⟩ := List.mem_map.1 hstripped
  exact notMem_textLines text line hline ((stripComment_sublist line).subset hfeed)

end Layout

end RuleVote
