import RuleVote.Proofs.Rule.Quotes
/-!
# One more space between tokens

A space more in front of a gap, or at the end of a text, changes nothing of
what is derived from the text, as long as it falls outside quotes
(`joined_of_loosened`). Every token but a quoted name is without gaps, so it is
found in the loosened text as it was, with the rest loosened instead or left as
it is; a quoted name is passed over as a whole.
-/

namespace RuleVote

open Token

namespace Layout

/-- The second text is the first with one more space in front of a gap or at
its end, outside quotes, or the first itself. -/
inductive Loosened : List Char → List Char → Prop
  | space {cs : List Char} : (∀ c ∈ cs.head?, isGap c = true) → Loosened cs (' ' :: cs)
  | same (cs : List Char) : Loosened cs cs
  | plain {c : Char} {cs ds : List Char} :
      inert c = true → Loosened cs ds → Loosened (c :: cs) (c :: ds)
  | quoted {quote : Char} {text name cs ds : List Char} : quote = '"' ∨ quote = '\'' →
      Quoted quote text name → Loosened cs ds →
      Loosened (quote :: text ++ quote :: cs) (quote :: text ++ quote :: ds)

variable {c quote : Char} {text name cs ds rest token : List Char}

/-- A closed text in front of what is loosened. -/
theorem Loosened.after (h : Closed text) (hcs : Loosened cs ds) :
    Loosened (text ++ cs) (text ++ ds) := by
  induction h with
  | nil => exact hcs
  | plain hc _ ih => exact .plain hc ih
  | quoted hquote hname _ ih =>
    rw [List.append_assoc, List.append_assoc]
    exact .quoted hquote hname ih

/-! ## Tokens of a loosened text -/

/-- What becomes of a text that starts with a character that is no gap. -/
theorem Loosened.of_cons (h : Loosened (c :: cs) ds) (hc : isGap c = false) :
    (∃ ds', ds = c :: ds' ∧ inert c = true ∧ Loosened cs ds') ∨ ds = c :: cs ∨
      (c = '"' ∨ c = '\'') ∧ ∃ text name rest rest', Quoted c text name ∧
        cs = text ++ c :: rest ∧ ds = c :: text ++ c :: rest' ∧ Loosened rest rest' := by
  generalize heq : c :: cs = all at h
  cases h with
  | space hgap =>
    subst heq
    rw [hgap c rfl] at hc
    cases hc
  | same =>
    subst heq
    exact .inr (.inl rfl)
  | plain hinert h =>
    obtain ⟨rfl, rfl⟩ := List.cons.inj heq
    exact .inl ⟨_, rfl, hinert, h⟩
  | quoted hquote hname h =>
    obtain ⟨rfl, rfl⟩ := List.cons.inj heq
    exact .inr (.inr ⟨hquote, _, _, _, _, hname, rfl, rfl, h⟩)

/-- Characters of a token stay together. -/
theorem Loosened.of_append (htoken : ∀ c ∈ token, isGap c = false ∧ inert c = true)
    (h : Loosened (token ++ rest) ds) : ∃ rest', ds = token ++ rest' ∧ Loosened rest rest' := by
  induction token generalizing ds with
  | nil => exact ⟨ds, rfl, h⟩
  | cons c token ih =>
    obtain ⟨⟨hgap, hinert⟩, htoken⟩ := List.forall_mem_cons.1 htoken
    rcases h.of_cons hgap with ⟨ds', rfl, -, h⟩ | rfl | ⟨hquote, -⟩
    · obtain ⟨rest', rfl, hrest⟩ := ih htoken h
      exact ⟨rest', rfl, hrest⟩
    · exact ⟨rest, rfl, .same rest⟩
    · rw [not_inert_of_quote hquote] at hinert
      cases hinert

/-- A gap may become longer. -/
theorem Loosened.gap (hgap : Gap cs rest) (h : Loosened cs ds) :
    ∃ rest', Gap ds rest' ∧ Loosened rest rest' := by
  obtain ⟨gap, hall, rfl⟩ := hgap
  induction gap generalizing ds with
  | nil => exact ⟨ds, .refl ds, h⟩
  | cons c gap ih =>
    obtain ⟨hc, hall'⟩ := List.forall_mem_cons.1 hall
    generalize heq : c :: gap ++ rest = all at h
    cases h with
    | space _ =>
      -- the space in front becomes a part of the gap
      subst heq
      exact ⟨rest, .cons rfl ⟨c :: gap, hall, rfl⟩, .same rest⟩
    | same =>
      subst heq
      exact ⟨rest, ⟨c :: gap, hall, rfl⟩, .same rest⟩
    | plain _ h =>
      obtain ⟨rfl, rfl⟩ := List.cons.inj heq
      obtain ⟨rest', hgap, hrest⟩ := ih hall' h
      exact ⟨rest', hgap.cons hc, hrest⟩
    | quoted hquote _ _ =>
      obtain ⟨rfl, -⟩ := List.cons.inj heq
      rcases hquote with rfl | rfl <;> cases hc

/-- A word that ends still ends in a looser text. -/
theorem Loosened.atWordEnd (h : Loosened cs ds) (hend : atWordEnd cs = true) :
    atWordEnd ds = true := by
  cases h with
  | space _ => rfl
  | same => exact hend
  | plain _ _ => exact hend
  | quoted _ _ _ => exact hend

theorem Loosened.forall_isGap (h : Loosened cs ds) (hcs : ∀ c ∈ cs, isGap c = true) :
    ∀ c ∈ ds, isGap c = true := by
  induction h with
  | space _ => exact List.forall_mem_cons.2 ⟨rfl, hcs⟩
  | same => exact hcs
  | plain _ _ ih =>
    obtain ⟨hc, hcs⟩ := List.forall_mem_cons.1 hcs
    exact List.forall_mem_cons.2 ⟨hc, ih hcs⟩
  | quoted hquote _ _ _ =>
    have hgap := (List.forall_mem_cons.1 hcs).1
    rcases hquote with rfl | rfl <;> cases hgap

/-- A character of a token that is no quoted name. -/
theorem isGap_inert_of_inWord (h : inWord c = true) : isGap c = false ∧ inert c = true :=
  ⟨isGap_of_isBlank (isBlank_of_inWord h), inert_of_inWord h⟩

/-- A character that is no gap and opens no quote stays where it is. -/
theorem Loosened.cons (hc : isGap c = false ∧ inert c = true) (h : Loosened (c :: rest) ds) :
    ∃ rest', ds = c :: rest' ∧ Loosened rest rest' :=
  h.of_append (List.forall_mem_singleton.2 hc)

/-- A keyword is still spelled by a loosened text, and so is every other token. -/
theorem Loosened.keyword {word : String} (hword : WordShaped word.toList)
    (hkeyword : Keyword word cs rest) (h : Loosened cs ds) :
    ∃ rest', Keyword word ds rest' ∧ Loosened rest rest' := by
  obtain ⟨rfl, hend⟩ := hkeyword
  obtain ⟨rest', rfl, hrest⟩ := h.of_append fun c hc => isGap_inert_of_inWord (hword.inWord c hc)
  exact ⟨rest', ⟨rfl, hrest.atWordEnd hend⟩, hrest⟩

theorem Loosened.number {x : Float32} (hnumber : Number x cs rest) (h : Loosened cs ds) :
    ∃ rest', Number x ds rest' ∧ Loosened rest rest' := by
  obtain ⟨text, d, rfl, hend, hspells, hx⟩ := hnumber
  have htoken : ∀ c ∈ text, isGap c = false ∧ inert c = true := by
    intro c hc
    refine ⟨?_, inert_of_mem_spellsDecimal hspells hc⟩
    rcases mem_spellsDecimal hspells hc with hword | hmark
    · exact (isGap_inert_of_inWord hword).1
    · simp only [List.mem_cons, List.not_mem_nil, or_false] at hmark
      rcases hmark with rfl | rfl | rfl <;> rfl
  obtain ⟨rest', rfl, hrest⟩ := h.of_append htoken
  exact ⟨rest', ⟨text, d, rfl, hrest.atWordEnd hend, hspells, hx⟩, hrest⟩

theorem Loosened.word {name : String} (hword : Word name cs rest) (h : Loosened cs ds) :
    ∃ rest', Word name ds rest' ∧ Loosened rest rest' := by
  obtain ⟨rest', hkeyword, hrest⟩ := h.keyword hword.1 hword.2
  exact ⟨rest', ⟨hword.1, hkeyword⟩, hrest⟩

theorem Loosened.quotedName {name : String} (hname : QuotedName name cs rest)
    (h : Loosened cs ds) : ∃ rest', QuotedName name ds rest' ∧ Loosened rest rest' := by
  obtain ⟨quote, text, hquote, rfl, hspelled, hne⟩ := hname
  have hgap : isGap quote = false := by rcases hquote with rfl | rfl <;> rfl
  rcases h.of_cons hgap with
    ⟨_, -, hinert, -⟩ | rfl | ⟨-, text', _, _, rest', hspelled', heq, rfl, h⟩
  · rw [not_inert_of_quote hquote] at hinert
    cases hinert
  · exact ⟨rest, ⟨quote, text, hquote, rfl, hspelled, hne⟩, .same rest⟩
  · -- the name that is passed over is the one that was read
    obtain ⟨rfl, rfl⟩ := rest_of_quoted hquote hspelled hspelled' heq
    exact ⟨rest', ⟨quote, text, hquote, rfl, hspelled, hne⟩, h⟩

theorem Loosened.lookup {table name : String} (hlookup : Lookup table name cs rest)
    (h : Loosened cs ds) : ∃ rest', Lookup table name ds rest' ∧ Loosened rest rest' := by
  obtain ⟨mid, opened, quoted, closed, hword, hopened, hgap, hname, hclosed⟩ := hlookup
  obtain ⟨mid', hword', h⟩ := h.word hword
  obtain ⟨_, hopened', hmark⟩ := h.gap hopened
  obtain ⟨opened', rfl, h⟩ := hmark.cons ⟨rfl, rfl⟩
  obtain ⟨quoted', hgap', h⟩ := h.gap hgap
  obtain ⟨closed', hname', h⟩ := h.quotedName hname
  obtain ⟨_, hclosed', hmark'⟩ := h.gap hclosed
  obtain ⟨rest', rfl, h⟩ := hmark'.cons ⟨rfl, rfl⟩
  exact ⟨rest', ⟨mid', opened', quoted', closed', hword', hopened', hgap', hname', hclosed'⟩, h⟩

end Layout

namespace Grammar

open Layout

/-- A comparator is still spelled by a looser text. -/
theorem symbol_of_loosened {op : Comparator} {cs ds rest : List Char} (hop : Symbol op cs rest)
    (h : Loosened cs ds) : ∃ rest', Symbol op ds rest' ∧ Loosened rest rest' := by
  subst hop
  exact h.of_append (by cases op <;> simp [Comparator.symbol, isGap, inert])

/-- A connective is still spelled by a looser text, with the gap behind it. -/
theorem connecting_of_loosened {op : Connective} {cs ds rest : List Char}
    (hop : Connecting op cs rest) (h : Loosened cs ds) :
    ∃ rest', Connecting op ds rest' ∧ Loosened rest rest' := by
  rcases hop with hkeyword | rfl
  · obtain ⟨rest', hkeyword', hrest⟩ := h.keyword (by cases op <;> decide) hkeyword
    exact ⟨rest', .inl hkeyword', hrest⟩
  · obtain ⟨rest', rfl, hrest⟩ := h.cons (by cases op <;> decide)
    exact ⟨rest', .inr rfl, hrest⟩

mutual

/-- **What is derived from a text is derived from it when it is loosened**, in
front of the loosened rest. -/
theorem joined_of_loosened {op : Connective} {cs ds rest : List Char} {e : Expr} :
    Joined op cs e rest → Loosened cs ds → ∃ rest', Joined op ds e rest' ∧ Loosened rest rest'
  | .mk hfirst hmore, h => by
    obtain ⟨mid, hfirst', h⟩ := operand_of_loosened hfirst h
    obtain ⟨rest', hmore', h⟩ := further_of_loosened hmore h
    exact ⟨rest', .mk hfirst' hmore', h⟩

theorem operand_of_loosened {op : Connective} {cs ds rest : List Char} {e : Expr} :
    Operand op cs e rest → Loosened cs ds → ∃ rest', Operand op ds e rest' ∧ Loosened rest rest'
  | .conjunction hjoined, h => by
    obtain ⟨rest', hjoined', h⟩ := joined_of_loosened hjoined h
    exact ⟨rest', .conjunction hjoined', h⟩
  | .negated hnegated, h => by
    obtain ⟨rest', hnegated', h⟩ := negated_of_loosened hnegated h
    exact ⟨rest', .negated hnegated', h⟩

theorem further_of_loosened {op : Connective} {cs ds rest : List Char} {es : List Expr} :
    Further op cs es rest → Loosened cs ds → ∃ rest', Further op ds es rest' ∧ Loosened rest rest'
  | .done, h => ⟨ds, .done, h⟩
  | .more hgap hop hoperand hmore, h => by
    obtain ⟨mid, hgap', h⟩ := h.gap hgap
    obtain ⟨start, hop', h⟩ := connecting_of_loosened hop h
    obtain ⟨after, hoperand', h⟩ := operand_of_loosened hoperand h
    obtain ⟨rest', hmore', h⟩ := further_of_loosened hmore h
    exact ⟨rest', .more hgap' hop' hoperand' hmore', h⟩

theorem negated_of_loosened {cs ds rest : List Char} {e : Expr} :
    Negated cs e rest → Loosened cs ds → ∃ rest', Negated ds e rest' ∧ Loosened rest rest'
  | .not hgap hnot hnegated, h => by
    obtain ⟨mid, hgap', h⟩ := h.gap hgap
    obtain ⟨start, hnot', h⟩ := h.keyword (by decide) hnot
    obtain ⟨rest', hnegated', h⟩ := negated_of_loosened hnegated h
    exact ⟨rest', .not hgap' hnot' hnegated', h⟩
  | .compared hcompared, h => by
    obtain ⟨rest', hcompared', h⟩ := compared_of_loosened hcompared h
    exact ⟨rest', .compared hcompared', h⟩

theorem compared_of_loosened {cs ds rest : List Char} {e : Expr} :
    Compared cs e rest → Loosened cs ds → ∃ rest', Compared ds e rest' ∧ Loosened rest rest'
  | .mk hfirst hlinks, h => by
    obtain ⟨mid, hfirst', h⟩ := signed_of_loosened hfirst h
    obtain ⟨rest', hlinks', h⟩ := links_of_loosened hlinks h
    exact ⟨rest', .mk hfirst' hlinks', h⟩

theorem links_of_loosened {cs ds rest : List Char} {links : List (Comparator × Expr)} :
    Links cs links rest → Loosened cs ds → ∃ rest', Links ds links rest' ∧ Loosened rest rest'
  | .done, h => ⟨ds, .done, h⟩
  | .more hgap hop hsigned hlinks, h => by
    obtain ⟨mid, hgap', h⟩ := h.gap hgap
    obtain ⟨start, hop', h⟩ := symbol_of_loosened hop h
    obtain ⟨after, hsigned', h⟩ := signed_of_loosened hsigned h
    obtain ⟨rest', hlinks', h⟩ := links_of_loosened hlinks h
    exact ⟨rest', .more hgap' hop' hsigned' hlinks', h⟩

theorem signed_of_loosened {cs ds rest : List Char} {e : Expr} :
    Signed cs e rest → Loosened cs ds → ∃ rest', Signed ds e rest' ∧ Loosened rest rest'
  | .minus hgap hsigned, h => by
    obtain ⟨_, hgap', hmark⟩ := h.gap hgap
    obtain ⟨start, rfl, h⟩ := hmark.cons ⟨rfl, rfl⟩
    obtain ⟨rest', hsigned', h⟩ := signed_of_loosened hsigned h
    exact ⟨rest', .minus hgap' hsigned', h⟩
  | .primary hgap hprimary, h => by
    obtain ⟨start, hgap', h⟩ := h.gap hgap
    obtain ⟨rest', hprimary', h⟩ := primary_of_loosened hprimary h
    exact ⟨rest', .primary hgap' hprimary', h⟩

theorem primary_of_loosened {cs ds rest : List Char} {e : Expr} :
    Primary cs e rest → Loosened cs ds → ∃ rest', Primary ds e rest' ∧ Loosened rest rest'
  | .number hnumber, h => by
    obtain ⟨rest', hnumber', h⟩ := h.number hnumber
    exact ⟨rest', .number hnumber', h⟩
  | .yes hyes, h => by
    obtain ⟨rest', hyes', h⟩ := h.keyword (by decide) hyes
    exact ⟨rest', .yes hyes', h⟩
  | .no hno, h => by
    obtain ⟨rest', hno', h⟩ := h.keyword (by decide) hno
    exact ⟨rest', .no hno', h⟩
  | .lookup hyes hno hlookup, h => by
    obtain ⟨rest', hlookup', h⟩ := h.lookup hlookup
    exact ⟨rest', .lookup hyes hno hlookup', h⟩
  | .name hname, h => by
    obtain ⟨rest', hword', h⟩ := h.word hname.1
    exact ⟨rest', .name ⟨hword', hname.2⟩, h⟩
  | .parenthesized hjoined hclosed, hopen => by
    obtain ⟨start, rfl, h⟩ := hopen.cons ⟨rfl, rfl⟩
    obtain ⟨after, hjoined', h⟩ := joined_of_loosened hjoined h
    obtain ⟨_, hclosed', hmark⟩ := h.gap hclosed
    obtain ⟨rest', rfl, h⟩ := hmark.cons ⟨rfl, rfl⟩
    exact ⟨rest', .parenthesized hjoined' hclosed', h⟩

end

end Grammar

open Layout

/-- Leading blanks are no part of what is loosened. -/
theorem Layout.Loosened.trimLeft {cs ds : List Char} (h : Loosened cs ds) :
    Loosened (trimLeft cs) (trimLeft ds) := by
  have dropped : ∀ {c : Char} {cs : List Char}, isBlank c = true →
      RuleVote.trimLeft (c :: cs) = RuleVote.trimLeft cs := fun hc => List.dropWhile_cons_of_pos hc
  have kept : ∀ {c : Char} {cs : List Char}, isBlank c = false →
      RuleVote.trimLeft (c :: cs) = c :: cs := fun hc => List.dropWhile_cons_of_neg (by simp [hc])
  induction h with
  | space _ =>
    rw [dropped rfl]
    exact .same _
  | same => exact .same _
  | @plain c _ _ hinert h ih =>
    cases hc : isBlank c with
    | true => rwa [dropped hc, dropped hc]
    | false =>
      rw [kept hc, kept hc]
      exact .plain hinert h
  | quoted hquote hname h _ =>
    have hc : ∀ {quote : Char}, quote = '"' ∨ quote = '\'' → isBlank quote = false := by
      rintro _ (rfl | rfl) <;> rfl
    rw [List.cons_append, List.cons_append, kept (hc hquote), kept (hc hquote)]
    exact .quoted hquote hname h

/-- **An expression is read as before when its text is loosened.** -/
theorem parseExpression_of_loosened {text loosened : List Char} {e : Expr}
    (h : parseExpression text = .ok e) (hloosened : Loosened text loosened) :
    parseExpression loosened = .ok e := by
  obtain ⟨rest, hjoined, hgaps⟩ := joined_of_parseExpression h
  obtain ⟨rest', hjoined', hrest⟩ := Grammar.joined_of_loosened hjoined hloosened.trimLeft
  exact parseExpression_of_joined hjoined' (hrest.forall_isGap hgaps)

end RuleVote
