import RuleVote.Proofs.Rule.FixedPoint
/-!
# Quotes that are closed

In what is left of an accepted text when its comments are taken out, every
quote is closed and no `#` stands outside quotes (`closed_of_parseBody`). Where
such a text is cut in two behind closed quotes, both parts are of this kind
(`Closed.of_append`): the closing quote of a name is settled by the text alone.
-/

namespace RuleVote

open Token

namespace Layout

/-- A character that neither starts a quoted name nor a comment. -/
def inert (c : Char) : Bool := c != '"' && c != '\'' && c != '#'

/-- A text in which every quoted name is closed, without a `#` outside of them. -/
inductive Closed : List Char → Prop
  | nil : Closed []
  | plain {c : Char} {cs : List Char} : inert c = true → Closed cs → Closed (c :: cs)
  | quoted {quote : Char} {text name cs : List Char} : quote = '"' ∨ quote = '\'' →
      Quoted quote text name → Closed cs → Closed (quote :: text ++ quote :: cs)

variable {quote c : Char} {text text' name name' cs ds mid rest rest' : List Char}

/-- A character is inert if it is no quote and no comment mark. -/
theorem inert_iff : inert c = true ↔ c ≠ '"' ∧ c ≠ '\'' ∧ c ≠ '#' := by
  simp [inert, and_assoc]

theorem inert_of_inWord (h : inWord c = true) : inert c = true := by
  obtain ⟨-, hmark, hdouble, hsingle⟩ := firm_iff.1 (firm_of_inWord h)
  exact inert_iff.2 ⟨hdouble, hsingle, hmark⟩

theorem inert_of_isBlank (h : isBlank c = true) : inert c = true := by
  rw [inert_iff]
  refine ⟨?_, ?_, ?_⟩ <;> rintro rfl <;> simp [isBlank] at h

theorem not_inert_of_quote (h : quote = '"' ∨ quote = '\'') : inert quote = false := by
  rcases h with rfl | rfl <;> rfl

theorem ne_slash_of_quote (h : quote = '"' ∨ quote = '\'') : quote ≠ '\\' := by
  rcases h with rfl | rfl <;> decide

/-! ## Parts of closed texts -/

/-- A text of inert characters is closed. -/
theorem closed_of_inert (h : ∀ c ∈ cs, inert c = true) : Closed cs := by
  induction cs with
  | nil => exact .nil
  | cons c cs ih => exact .plain (h c (by simp)) (ih fun d hd => h d (by simp [hd]))

/-- Closed texts side by side are closed. -/
theorem Closed.append (h : Closed cs) (h' : Closed ds) : Closed (cs ++ ds) := by
  induction h with
  | nil => exact h'
  | plain hc _ ih => exact .plain hc ih
  | quoted hquote hname _ ih =>
    rw [List.append_assoc]
    exact .quoted hquote hname ih

/-- What a closed text starts with. -/
theorem Closed.of_cons (h : Closed (c :: cs)) : inert c = true ∧ Closed cs ∨
    (c = '"' ∨ c = '\'') ∧ ∃ text name rest, Quoted c text name ∧ cs = text ++ c :: rest ∧
      Closed rest := by
  generalize heq : c :: cs = all at h
  cases h with
  | nil => cases heq
  | plain hc h =>
    obtain ⟨rfl, rfl⟩ := List.cons.inj heq
    exact .inl ⟨hc, h⟩
  | quoted hquote hname h =>
    obtain ⟨rfl, rfl⟩ := List.cons.inj heq
    exact .inr ⟨hquote, _, _, _, hname, rfl, h⟩

theorem Closed.of_inert (h : Closed (c :: cs)) (hc : inert c = true) : Closed cs := by
  rcases h.of_cons with ⟨-, h⟩ | ⟨hquote, -⟩
  · exact h
  · rw [not_inert_of_quote hquote] at hc
    cases hc

/-- A text that starts with a comment mark is not closed. -/
theorem not_closed_mark : ¬Closed ('#' :: cs) := by
  intro h
  rcases h.of_cons with ⟨hc, -⟩ | ⟨hquote, -⟩
  · cases hc
  · rcases hquote with h | h <;> cases h

/-- The closing quote of a name is the first that is not escaped. -/
theorem rest_of_quoted (hquote : quote = '"' ∨ quote = '\'') (h : Quoted quote text name)
    (h' : Quoted quote text' name') (heq : text ++ quote :: rest = text' ++ quote :: rest') :
    text = text' ∧ rest = rest' := by
  have htake : takeQuoted? quote (text ++ quote :: rest) = some (name, rest) :=
    takeQuoted?_append (ne_slash_of_quote hquote) h
  rw [heq, takeQuoted?_append (ne_slash_of_quote hquote) h'] at htake
  cases htake
  exact ⟨List.append_cancel_right heq, rfl⟩

/-- **Behind closed quotes the rest of a closed text is closed.** -/
theorem Closed.of_append (h : Closed cs) (h' : Closed (cs ++ ds)) : Closed ds := by
  induction h with
  | nil => exact h'
  | plain hc _ ih => exact ih (h'.of_inert hc)
  | quoted hquote hname _ ih =>
    rw [List.append_assoc, List.cons_append] at h'
    rcases h'.of_cons with ⟨hc, -⟩ | ⟨-, text', name', rest, hname', heq, hrest⟩
    · rw [not_inert_of_quote hquote] at hc
      cases hc
    · obtain ⟨-, rfl⟩ := rest_of_quoted hquote hname hname' heq
      exact ih hrest

/-- The text ends inside a quoted name, which goes on behind it. -/
def EndsInside (cs : List Char) : Prop :=
  ∃ front quote text more name, cs = front ++ quote :: text ∧ Closed front ∧
    (quote = '"' ∨ quote = '\'') ∧ Quoted quote (text ++ more) name

/-- A text that ends inside a quote does so behind a closed text too. -/
theorem EndsInside.after (h : Closed text) (hcs : EndsInside cs) : EndsInside (text ++ cs) := by
  obtain ⟨front, quote, open', more, name, rfl, hfront, hquoted⟩ := hcs
  exact ⟨text ++ front, quote, open', more, name, (List.append_assoc _ _ _).symm,
    h.append hfront, hquoted⟩

/-- **A closed text is cut either outside its quoted names or inside one.** -/
theorem closed_or_endsInside (h : Closed (cs ++ ds)) : Closed cs ∨ EndsInside cs := by
  generalize heq : cs ++ ds = all at h
  induction h generalizing cs with
  | nil =>
    rw [(List.append_eq_nil_iff.1 heq).1]
    exact .inl .nil
  | @plain c all hc _ ih =>
    cases cs with
    | nil => exact .inl .nil
    | cons d cs =>
      obtain ⟨rfl, htail⟩ := List.cons.inj heq
      exact (ih htail).imp (.plain hc) (EndsInside.after (.plain hc .nil))
  | @quoted quote text name all hquote hname _ ih =>
    cases cs with
    | nil => exact .inl .nil
    | cons d cs =>
      obtain ⟨rfl, htail⟩ := List.cons.inj heq
      have hinside : ∀ {more}, cs ++ more = text → EndsInside (d :: cs) := fun hmore =>
        ⟨[], d, cs, _, name, rfl, .nil, hquote, hmore ▸ hname⟩
      rcases List.append_eq_append_iff.1 htail with ⟨more, hmore, -⟩ | ⟨mid, rfl, hmid⟩
      · exact .inr (hinside hmore.symm)
      · cases mid with
        | nil => exact .inr (hinside (show text ++ [] ++ [] = text by simp))
        | cons q mid =>
          -- the cut is behind the closing quote
          obtain ⟨rfl, hrest⟩ := List.cons.inj hmid
          have hclosed : Closed (d :: text ++ [d]) := .quoted hquote hname .nil
          have hsplit : d :: (text ++ d :: mid) = d :: text ++ [d] ++ mid := by simp
          rw [hsplit]
          exact (ih hrest.symm).imp hclosed.append (EndsInside.after hclosed)

/-- A closed text does not end inside a quote. -/
theorem Closed.not_endsInside (h : Closed cs) : ¬EndsInside cs := by
  rintro ⟨front, quote, text, more, name, rfl, hfront, hquote, hname⟩
  rcases (hfront.of_append h).of_cons with ⟨hc, -⟩ | ⟨-, text', name', rest, hname', rfl, -⟩
  · rw [not_inert_of_quote hquote] at hc
    cases hc
  · -- the name would be closed before its end
    have heq : text' ++ quote :: rest ++ more ++ quote :: [] =
        text' ++ quote :: (rest ++ more ++ quote :: []) := by simp
    obtain ⟨hsame, -⟩ := rest_of_quoted hquote hname hname' heq
    simpa using congrArg List.length hsame

/-! ## Text that is read -/

/-- What is taken off the front of a text is closed. -/
def Passes (cs rest : List Char) : Prop := ∃ text, cs = text ++ rest ∧ Closed text

theorem Passes.trans (h : Passes cs mid) (h' : Passes mid rest) : Passes cs rest := by
  obtain ⟨text, rfl, htext⟩ := h
  obtain ⟨text', rfl, htext'⟩ := h'
  exact ⟨text ++ text', (List.append_assoc _ _ _).symm, htext.append htext'⟩

theorem passes_of_inert (h : ∀ c ∈ cs, inert c = true) : Passes (cs ++ rest) rest :=
  ⟨cs, rfl, closed_of_inert h⟩

/-- A text is closed if all of it is, up to a rest that is closed. -/
theorem Passes.closed (h : Passes cs rest) (hrest : Closed rest) : Closed cs := by
  obtain ⟨text, rfl, htext⟩ := h
  exact htext.append hrest

theorem inert_of_isGap (h : isGap c = true) : inert c = true := by
  simp only [isGap, Bool.or_eq_true, beq_iff_eq] at h
  rcases h with ((rfl | rfl) | rfl) | rfl <;> rfl

/-- Gaps have no quotes in them. -/
theorem passes_of_gap (h : Gap cs rest) : Passes cs rest := by
  obtain ⟨gap, hgap, rfl⟩ := h
  exact passes_of_inert fun c hc => inert_of_isGap (hgap c hc)

/-- Keywords have no quotes in them. -/
theorem passes_of_keyword {word : String} (hword : WordShaped word.toList)
    (h : Keyword word cs rest) : Passes cs rest :=
  h.1 ▸ passes_of_inert fun c hc => inert_of_inWord (hword.inWord c hc)

theorem passes_of_word {name : String} (h : Word name cs rest) : Passes cs rest :=
  passes_of_keyword h.1 h.2

theorem passes_cons (hc : inert c = true) (rest : List Char) : Passes (c :: rest) rest :=
  ⟨[c], rfl, .plain hc .nil⟩

/-- A quoted name opens a quote and closes it. -/
theorem passes_of_quotedName {name : String} (h : QuotedName name cs rest) : Passes cs rest := by
  obtain ⟨quote, text, hquote, rfl, hname, -⟩ := h
  exact ⟨quote :: text ++ [quote], by simp, .quoted hquote hname .nil⟩

/-- A lookup opens a quote and closes it. -/
theorem passes_of_lookup {table name : String} (h : Lookup table name cs rest) :
    Passes cs rest := by
  obtain ⟨mid, opened, quoted, closed, hword, hopened, hgap, hname, hclosed⟩ := h
  have hbracket := (passes_of_gap hopened).trans (passes_cons rfl opened)
  have hend := (passes_of_gap hclosed).trans (passes_cons rfl rest)
  exact (((passes_of_word hword).trans hbracket).trans (passes_of_gap hgap)).trans
    ((passes_of_quotedName hname).trans hend)

/-- The characters of a decimal. -/
theorem mem_spellsDecimal {d : Decimal} (h : SpellsDecimal text d) (hc : c ∈ text) :
    inWord c = true ∨ c ∈ ['.', '+', '-'] := by
  have digits : ∀ {ds : List Char}, AllDigits ds →
      ∀ c ∈ ds, inWord c = true ∨ c ∈ ['.', '+', '-'] :=
    fun hds c hc => .inl (inWord_of_isDigit (hds c hc))
  have cons : ∀ {ds : List Char} {d : Char}, (inWord d = true ∨ d ∈ ['.', '+', '-']) →
      AllDigits ds → ∀ c ∈ d :: ds, inWord c = true ∨ c ∈ ['.', '+', '-'] :=
    fun hd hds => List.forall_mem_cons.2 ⟨hd, digits hds⟩
  obtain ⟨mantissa, whole, fraction, exponent, value, rfl, hmantissa, hexponent, -⟩ := h
  rcases List.mem_append.1 hc with hc | hc
  · cases hmantissa with
    | whole _ hds => exact digits hds c hc
    | pointed _ hds hfs =>
      rcases List.mem_append.1 hc with hc | hc
      · exact digits hds c hc
      · exact cons (.inr (by decide)) hfs c hc
    | bare _ hfs => exact cons (.inr (by decide)) hfs c hc
  · cases hexponent with
    | absent => cases hc
    | marked hmark hds =>
      rcases List.mem_cons.1 hc with rfl | hc
      · exact .inl (by rcases hmark with rfl | rfl <;> decide)
      · cases hds with
        | unsigned _ hds => exact digits hds c hc
        | plus _ hds => exact cons (.inr (by decide)) hds c hc
        | minus _ hds => exact cons (.inr (by decide)) hds c hc

/-- Numbers have no quotes in them. -/
theorem inert_of_mem_spellsDecimal {d : Decimal} (h : SpellsDecimal text d) (hc : c ∈ text) :
    inert c = true := by
  rcases mem_spellsDecimal h hc with hword | hmark
  · exact inert_of_inWord hword
  · exact List.all_eq_true.1 (by decide : ['.', '+', '-'].all inert = true) c hmark

/-- Every token has its quotes closed. -/
theorem tokenWise_passes : Grammar.TokenWise fun _ cs rest => Passes cs rest where
  done cs := ⟨[], rfl, .nil⟩
  append := Passes.trans
  gap := passes_of_gap
  keyword := passes_of_keyword
  mark hc := passes_cons (List.all_eq_true.1 (by decide : Grammar.marks.all inert = true) _ hc) _
  number h := by
    obtain ⟨text, d, rfl, -, hspells, -⟩ := h
    exact passes_of_inert fun c hc => inert_of_mem_spellsDecimal hspells hc
  lookup := passes_of_lookup
  name h := passes_of_word h.1

theorem closed_of_forall_isGap (h : ∀ c ∈ cs, isGap c = true) : Closed cs :=
  closed_of_inert fun c hc => inert_of_isGap (h c hc)

theorem passes_trimLeft (cs : List Char) : Passes cs (trimLeft cs) :=
  ⟨cs.takeWhile isBlank, List.takeWhile_append_dropWhile.symm,
    closed_of_inert fun _ hc => inert_of_isBlank (List.mem_takeWhile_imp hc)⟩

/-- Blanks around a text are outside its quotes. -/
theorem closed_of_trimChars (h : Closed (trimChars cs)) : Closed cs := by
  refine (passes_trimLeft cs).closed ?_
  have hsplit : trimLeft cs =
      trimChars cs ++ ((trimLeft cs).reverse.takeWhile isBlank).reverse := by
    rw [trimChars, trimRight, ← List.reverse_append, List.takeWhile_append_dropWhile,
      List.reverse_reverse]
  rw [hsplit]
  refine h.append (closed_of_inert fun c hc => ?_)
  exact inert_of_isBlank (List.mem_takeWhile_imp (List.mem_reverse.1 hc))

/-- **A text that is read as an expression is closed.** -/
theorem closed_of_parseExpression {e : Expr} (h : parseExpression text = .ok e) : Closed text := by
  obtain ⟨rest, hjoined, hgaps⟩ := joined_of_parseExpression h
  exact (passes_trimLeft text).closed
    ((tokenWise_passes.joined hjoined).closed (closed_of_forall_isGap hgaps))

/-! ## Lines of a program -/

/-- A target that is a number has no quotes in it. -/
theorem passes_of_takeIndex? {i : Int} (h : takeIndex? cs = some (i, rest)) : Passes cs rest := by
  have digits : ∀ {cs ds}, takeDigits cs = (ds, rest) → Passes cs rest := by
    intro cs ds hds
    obtain ⟨rfl, hall⟩ := takeDigits_eq hds
    exact passes_of_inert fun c hc => inert_of_inWord (inWord_of_isDigit (hall c hc))
  unfold takeIndex? at h
  dsimp only at h
  split at h
  · cases h
  · next ds after _ hds =>
    obtain rfl : after = rest := by split_ifs at h <;> cases h <;> rfl
    split at hds
    · exact (passes_cons rfl _).trans (digits hds)
    · exact digits hds

theorem passes_of_takeTarget? {t : ReturnTarget} (h : takeTarget? cs = some (t, rest)) :
    Passes cs rest := by
  rw [takeTarget?] at h
  split at h
  · next hindex =>
    cases h
    exact passes_of_takeIndex? hindex
  · obtain ⟨⟨name, rest'⟩, hword, heq⟩ := Option.map_eq_some_iff.1 h
    cases heq
    exact passes_of_word (takeWord?_eq_some_iff.1 hword)

/-- The content of a line that gives a target is closed. -/
theorem closed_of_returnTarget? {t : ReturnTarget} (h : returnTarget? cs = some t) :
    Closed cs := by
  simp only [returnTarget?, Option.bind_eq_bind, Option.bind_eq_some_iff] at h
  obtain ⟨start, hreturn, ⟨target, rest⟩, htarget, h⟩ := h
  have hstart := passes_of_keyword (by decide) (takeKeyword?_eq_some_iff.1 hreturn)
  have hrest := (passes_of_gap (gap_skipGaps start)).trans (passes_of_takeTarget? htarget)
  split at h
  · next hempty =>
    exact (hstart.trans hrest).closed (closed_of_forall_isGap (skipGaps_isEmpty_iff.1 hempty))
  · cases h

mutual

/-- **The lines of a program are closed.** -/
theorem spells_closed {indent : Nat} {lines : List SourceLine} {b : Block ReturnTarget} :
    SpellsBlock indent lines b → ∀ line ∈ lines, Closed line.content
  | .single hs => statement_closed hs
  | .cons hs hmore => List.forall_mem_append.2 ⟨statement_closed hs, spells_closed hmore⟩

/-- The lines of a statement are closed. -/
theorem statement_closed {indent : Nat} {lines : List SourceLine} {s : Statement ReturnTarget} :
    SpellsStatement indent lines s → ∀ line ∈ lines, Closed line.content
  | .give _ htarget => List.forall_mem_singleton.2 (closed_of_returnTarget? htarget)
  | .conditional hbranch hmore =>
    List.forall_mem_append.2 ⟨branch_closed (.inl rfl) hbranch, further_closed hmore⟩

theorem branch_closed {keyword : String} {indent : Nat} {lines : List SourceLine}
    {branch : Expr × Block ReturnTarget} (hkeyword : keyword = "if" ∨ keyword = "elif") :
    SpellsBranch keyword indent lines branch → ∀ line ∈ lines, Closed line.content
  | .mk _ hheader hbody => by
    obtain ⟨start, stop, hstart, hjoined, hcolon⟩ := hheader
    obtain ⟨hafter, hlines⟩ := body_closed hbody
    have hshape : WordShaped keyword.toList := by rcases hkeyword with rfl | rfl <;> decide
    have hcondition := (passes_of_keyword hshape hstart).trans (tokenWise_passes.joined hjoined)
    have hend := (passes_of_gap hcolon).trans (passes_cons rfl _)
    exact List.forall_mem_cons.2 ⟨(hcondition.trans hend).closed hafter, hlines⟩

theorem further_closed {indent : Nat} {lines : List SourceLine}
    {branches : List (Expr × Block ReturnTarget)} {otherwise : Option (Block ReturnTarget)} :
    SpellsFurther indent lines branches otherwise → ∀ line ∈ lines, Closed line.content
  | .done => List.forall_mem_nil _
  | .otherwise _ hheader hbody => by
    obtain ⟨start, hstart, hcolon⟩ := hheader
    obtain ⟨hafter, hlines⟩ := body_closed hbody
    have hend := (passes_of_gap hcolon).trans (passes_cons rfl _)
    exact List.forall_mem_cons.2
      ⟨((passes_of_keyword (by decide) hstart).trans hend).closed hafter, hlines⟩
  | .more hbranch hmore =>
    List.forall_mem_append.2 ⟨branch_closed (.inr rfl) hbranch, further_closed hmore⟩

theorem body_closed {indent : Nat} {after : List Char} {lines : List SourceLine}
    {b : Block ReturnTarget} :
    SpellsBody indent after lines b → Closed after ∧ ∀ line ∈ lines, Closed line.content
  | .onLine htarget =>
    ⟨closed_of_trimChars (closed_of_returnTarget? htarget), List.forall_mem_nil _⟩
  | .underneath hblank _ hblock =>
    ⟨closed_of_trimChars (hblank ▸ .nil), spells_closed hblock⟩

end

/-- What is closed as a line of a program is closed as a line of its text. -/
theorem closed_of_numberLines {lines : List (List Char)} {number : Nat}
    (h : ∀ line ∈ numberLines number lines, Closed line.content) :
    ∀ line ∈ lines, Closed (stripComment line) := by
  induction lines generalizing number with
  | nil => exact List.forall_mem_nil _
  | cons line lines ih =>
    rw [numberLines, List.forall_mem_append] at h
    refine List.forall_mem_cons.2 ⟨closed_of_trimChars ?_, ih h.2⟩
    have hline := h.1
    rw [sourceLine?] at hline
    split at hline
    · next hempty => rw [List.isEmpty_iff.1 hempty]; exact .nil
    · exact hline _ (List.mem_singleton_self _)

/-- Closed lines joined to a text are closed, as line breaks are inert. -/
theorem closed_joinLines {lines : List (List Char)} (h : ∀ line ∈ lines, Closed line) :
    Closed (joinLines lines) := by
  induction lines with
  | nil => exact .nil
  | cons line lines ih =>
    obtain ⟨hline, hlines⟩ := List.forall_mem_cons.1 h
    rcases eq_or_ne lines [] with rfl | hne
    · exact hline
    · rw [joinLines_cons hne]
      exact hline.append (.plain rfl (ih hlines))

end Layout

open Layout

/-- **In an accepted text every quote is closed**, and no `#` is left outside
quotes, once the comments are taken out. -/
theorem closed_of_parseBody {text : String} {b : RuleBody} (h : parseBody text = .ok b) :
    Closed (stripComments text.toList) := by
  rcases parseBody_cases h with ⟨e, -, hexpr⟩ | ⟨indent, p, -, hspells⟩
  · exact closed_of_parseExpression hexpr
  · refine closed_joinLines fun line hline => ?_
    obtain ⟨line, hmem, rfl⟩ := List.mem_map.1 hline
    exact closed_of_numberLines (spells_closed hspells) line hmem

end RuleVote
