import Mathlib.Data.List.TakeWhile
import RuleVote.Rule.Token
/-!
# Lexemes

What a token looks like, said without the reader that takes it: each
relation below ties a text to the token at its front and to the text
after the token. The readers of `Rule/Token` are then shown to take
exactly these. Words, keywords, names, marks and quoted names are
settled by the text alone (`takeWord?_eq_some_iff` and its siblings).
A number is not, since the digits of `1` may be read off the front of
`1.5`: a number is taken whole where no point follows it
(`takeNumber?_of_spelled`).
-/

namespace RuleVote

namespace Token

variable {cs mid rest : List Char}

/-! ## Runs of characters -/

/-- A run of characters that ends where the test fails is what `takeWhile`
takes, and `dropWhile` leaves the rest. -/
theorem takeWhile_dropWhile_append {p : Char → Bool} {run rest : List Char}
    (hrun : ∀ c ∈ run, p c = true) (hrest : ∀ c ∈ rest.head?, p c = false) :
    (run ++ rest).takeWhile p = run ∧ (run ++ rest).dropWhile p = rest := by
  rw [List.takeWhile_append_of_pos hrun, List.dropWhile_append_of_pos hrun]
  cases rest with
  | nil => simp
  | cons c rest =>
    have hc : p c = false := hrest c rfl
    simp [hc]

/-- What `dropWhile` leaves does not start with a character of the run. -/
theorem head_dropWhile {p : Char → Bool} (cs : List Char) :
    ∀ c ∈ (cs.dropWhile p).head?, p c = false := by
  intro c hc
  have h := List.head?_dropWhile_not p cs
  rw [Option.mem_def.1 hc] at h
  simpa using h

/-! ## Gaps -/

/-- `rest` is what follows a run of gaps, possibly empty, at the front of
`cs`. -/
def Gap (cs rest : List Char) : Prop := ∃ gap, (∀ c ∈ gap, isGap c = true) ∧ cs = gap ++ rest

theorem Gap.refl (cs : List Char) : Gap cs cs := ⟨[], by simp, rfl⟩

/-- What is skipped is a gap. -/
theorem gap_skipGaps (cs : List Char) : Gap cs (skipGaps cs) :=
  ⟨cs.takeWhile isGap, fun _ hc => List.mem_takeWhile_imp hc, List.takeWhile_append_dropWhile.symm⟩

theorem Gap.cons {c : Char} (hc : isGap c = true) (h : Gap cs rest) : Gap (c :: cs) rest := by
  obtain ⟨gap, hgap, rfl⟩ := h
  exact ⟨c :: gap, by simpa using ⟨hc, hgap⟩, rfl⟩

/-- A gap before a text makes no difference to what is skipped. -/
theorem Gap.skipGaps_eq (h : Gap cs rest) : skipGaps cs = skipGaps rest := by
  obtain ⟨gap, hgap, rfl⟩ := h
  exact List.dropWhile_append_of_pos hgap

theorem skipGaps_cons {c : Char} (hc : isGap c = false) : skipGaps (c :: rest) = c :: rest := by
  simp [skipGaps, hc]

/-- Skipping gaps stops right in front of a character that is none. -/
theorem Gap.skipGaps_cons {c : Char} (h : Gap cs (c :: rest)) (hc : isGap c = false) :
    skipGaps cs = c :: rest := by
  rw [h.skipGaps_eq, Token.skipGaps_cons hc]

/-- There is no gap in front of a character that is none. -/
theorem Gap.eq_of_cons {c : Char} (h : Gap (c :: cs) rest) (hc : isGap c = false) :
    rest = c :: cs := by
  obtain ⟨gap, hgap, heq⟩ := h
  cases gap with
  | nil => exact heq.symm
  | cons d gap =>
    cases heq
    rw [hgap c (by simp)] at hc
    cases hc

/-- What stands behind a gap is the end of the text. -/
theorem Gap.suffix (h : Gap cs rest) : rest <:+ cs := by
  obtain ⟨gap, -, rfl⟩ := h
  exact List.suffix_append _ _

theorem Gap.length_le (h : Gap cs rest) : rest.length ≤ cs.length := h.suffix.length_le

/-- Only gaps are left of a text exactly when skipping them leaves nothing. -/
theorem skipGaps_isEmpty_iff : (skipGaps cs).isEmpty = true ↔ ∀ c ∈ cs, isGap c = true := by
  rw [List.isEmpty_iff, skipGaps, List.dropWhile_eq_nil_iff]

/-- A mark is taken after the gaps in front of it. -/
theorem takeMark?_eq_some_iff {mark : Char} (hmark : isGap mark = false) :
    takeMark? mark cs = some rest ↔ Gap cs (mark :: rest) := by
  constructor
  · intro h
    have hgap := gap_skipGaps cs
    rw [takeMark?] at h
    split at h
    · cases h
    · next c tail hskip =>
      rw [hskip] at hgap
      by_cases hc : c = mark
      · rw [if_pos hc] at h
        cases h
        exact hc ▸ hgap
      · rw [if_neg hc] at h
        cases h
  · intro h
    simp [takeMark?, h.skipGaps_cons hmark]

/-! ## Words -/

/-- A keyword at the front of `cs`, ending where a word may end. -/
def Keyword (word : String) (cs rest : List Char) : Prop :=
  cs = word.toList ++ rest ∧ atWordEnd rest = true

/-- A list of characters shaped like a word: it starts like one and goes on
like one. -/
def WordShaped : List Char → Prop
  | [] => False
  | c :: cs => startsWord c = true ∧ ∀ d ∈ cs, inWord d = true

instance : ∀ cs, Decidable (WordShaped cs)
  | [] => isFalse id
  | _ :: cs => @instDecidableAnd _ _ inferInstance (List.decidableBAll _ cs)

/-- A word at the front of `cs`, keyword or not. -/
def Word (name : String) (cs rest : List Char) : Prop :=
  WordShaped name.toList ∧ Keyword name cs rest

theorem Keyword.suffix {word : String} (h : Keyword word cs rest) : rest <:+ cs :=
  h.1 ▸ List.suffix_append _ _

/-- A word is taken if and only if the text starts with it. -/
theorem takeExactly_eq_some_iff {word : List Char} :
    takeExactly word cs = some rest ↔ cs = word ++ rest := by
  induction word generalizing cs with
  | nil => simp [takeExactly]
  | cons w ws ih =>
    cases cs with
    | nil => simp [takeExactly]
    | cons c cs =>
      by_cases hw : w = c
      · simp [takeExactly, hw, ih]
      · simp [takeExactly, hw, Ne.symm hw]

/-- The reader takes a keyword if and only if the text spells it. -/
theorem takeKeyword?_eq_some_iff {word : String} :
    takeKeyword? word cs = some rest ↔ Keyword word cs rest := by
  rw [takeKeyword?, Option.filter_eq_some_iff, takeExactly_eq_some_iff, Keyword]

/-- The look ahead finds a keyword if and only if the text spells it. -/
theorem startsWith_iff {word : String} :
    startsWith word cs = true ↔ ∃ rest, Keyword word cs rest := by
  simp only [startsWith, Option.isSome_iff_exists, takeKeyword?_eq_some_iff]

/-- A word may end in front of a text that does not start inside a word. -/
theorem atWordEnd_iff : atWordEnd cs = true ↔ ∀ c ∈ cs.head?, inWord c = false := by
  cases cs <;> simp [atWordEnd]

theorem inWord_of_startsWord {c : Char} (h : startsWord c = true) : inWord c = true := by
  simp only [startsWord, inWord, Char.isAlphanum, Bool.or_eq_true] at h ⊢
  exact h.imp Or.inl id

/-- The letters of words are those of ASCII. -/
theorem isAlpha_iff {c : Char} : c.isAlpha = true ↔
    65 ≤ c.toNat ∧ c.toNat ≤ 90 ∨ 97 ≤ c.toNat ∧ c.toNat ≤ 122 := by
  change (decide (65 ≤ c.toNat ∧ c.toNat ≤ 90) || (decide (97 ≤ c.toNat) && decide (c.toNat ≤ 122)))
    = true ↔ _
  simp only [Bool.or_eq_true, Bool.and_eq_true, decide_eq_true_eq]

/-- The characters of words are digits, letters and the underscore of ASCII. -/
theorem toNat_of_inWord {c : Char} (h : inWord c = true) :
    48 ≤ c.toNat ∧ c.toNat ≤ 57 ∨ 65 ≤ c.toNat ∧ c.toNat ≤ 90 ∨ c.toNat = 95 ∨
      97 ≤ c.toNat ∧ c.toNat ≤ 122 := by
  simp only [inWord, Char.isAlphanum, Bool.or_eq_true, beq_iff_eq, isAlpha_iff,
    Char.isDigit_iff_toNat] at h
  rcases h with ((h | h) | h) | rfl
  · exact .inr (.inl h)
  · exact .inr (.inr (.inr h))
  · exact .inl h
  · exact .inr (.inr (.inl rfl))

/-- No word starts with a digit. -/
theorem isDigit_of_startsWord {c : Char} (h : startsWord c = true) : c.isDigit = false := by
  simp only [startsWord, Bool.or_eq_true, beq_iff_eq, isAlpha_iff] at h
  rw [Bool.eq_false_iff, ne_eq, Char.isDigit_iff_toNat]
  have : '9'.toNat = 57 := rfl
  rcases h with (⟨h, -⟩ | ⟨h, -⟩) | rfl
  · omega
  · omega
  · decide

/-- All characters of a word stand in words, the first one too. -/
theorem WordShaped.inWord {name : List Char} (h : WordShaped name) :
    ∀ c ∈ name, inWord c = true := by
  cases name with
  | nil => cases h
  | cons c cs =>
    intro d hd
    rcases List.mem_cons.1 hd with rfl | hd
    · exact inWord_of_startsWord h.1
    · exact h.2 d hd

/-- **A word is taken as far as it goes**, so the text alone settles which
word stands at its front. -/
theorem takeWord?_eq_some_iff {name : String} :
    takeWord? cs = some (name, rest) ↔ Word name cs rest := by
  cases cs with
  | nil =>
    constructor
    · intro h
      cases h
    · rintro ⟨hshape, hcs, -⟩
      rw [(List.append_eq_nil_iff.1 hcs.symm).1] at hshape
      cases hshape
  | cons c cs =>
    by_cases hc : startsWord c = true
    · rw [takeWord?, if_pos hc, Option.some.injEq, Prod.mk.injEq]
      constructor
      · rintro ⟨rfl, rfl⟩
        refine ⟨?_, ?_, atWordEnd_iff.2 (head_dropWhile cs)⟩
        · rw [String.toList_ofList]
          exact ⟨hc, fun _ hd => List.mem_takeWhile_imp hd⟩
        · rw [String.toList_ofList, List.cons_append, List.takeWhile_append_dropWhile]
      · rintro ⟨hshape, hcs, hend⟩
        rw [← String.toList_inj, String.toList_ofList]
        cases hname : name.toList with
        | nil => rw [hname] at hshape; cases hshape
        | cons d ds =>
          rw [hname, List.cons_append, List.cons.injEq] at hcs
          rw [hname] at hshape
          -- the run stops where the word does, since a word may end there
          obtain ⟨htake, hdrop⟩ := takeWhile_dropWhile_append hshape.2 (atWordEnd_iff.1 hend)
          rw [hcs.1, hcs.2, htake, hdrop]
          exact ⟨rfl, rfl⟩
    · rw [takeWord?, if_neg hc]
      constructor
      · intro h
        cases h
      · rintro ⟨hshape, hcs, -⟩
        cases hname : name.toList with
        | nil => rw [hname] at hshape; cases hshape
        | cons d ds =>
          rw [hname, List.cons_append, List.cons.injEq] at hcs
          rw [hname] at hshape
          exact absurd (hcs.1 ▸ hshape.1) hc

/-- One word stands at the front of a text at most. -/
theorem Word.unique {name name' : String} {rest' : List Char} (h : Word name cs rest)
    (h' : Word name' cs rest') : name = name' ∧ rest = rest' := by
  have heq := (takeWord?_eq_some_iff.2 h).symm.trans (takeWord?_eq_some_iff.2 h')
  simpa using heq

theorem Word.head {name : String} (h : Word name cs rest) :
    ∃ c tail, cs = c :: tail ∧ startsWord c = true := by
  obtain ⟨hshape, rfl, -⟩ := h
  cases hname : name.toList with
  | nil => rw [hname] at hshape; cases hshape
  | cons c tail => exact ⟨c, tail ++ rest, rfl, (hname ▸ hshape).1⟩

/-- Where a word stands, no other keyword does. -/
theorem takeKeyword?_of_word {name word : String} (h : Word name cs rest)
    (hword : WordShaped word.toList) (hne : name ≠ word) : takeKeyword? word cs = none := by
  cases hkey : takeKeyword? word cs with
  | none => rfl
  | some rest' =>
    have h' : Word word cs rest' := ⟨hword, takeKeyword?_eq_some_iff.1 hkey⟩
    exact absurd (h.unique h').1 hne

/-- A name that stands for a feature by itself. -/
def Name (name : String) (cs rest : List Char) : Prop := Word name cs rest ∧ name ∉ keywords

/-- The reader takes a name if and only if the text spells it. -/
theorem takeName?_eq_some_iff {name : String} :
    takeName? cs = some (name, rest) ↔ Name name cs rest := by
  rw [takeName?, Option.filter_eq_some_iff, takeWord?_eq_some_iff, Name]
  simp

/-! ## Numbers -/

/-- A run of digits, possibly empty. -/
def AllDigits (ds : List Char) : Prop := ∀ d ∈ ds, d.isDigit = true

/-- The digits of a number with its point: `text` spells the digits `whole`
in front of the point and the digits `fraction` behind it. -/
inductive Mantissa : List Char → List Char → List Char → Prop
  /-- Digits without a point. -/
  | whole {ds : List Char} : ds ≠ [] → AllDigits ds → Mantissa ds ds []
  /-- Digits, a point, and any further digits. -/
  | pointed {ds fs : List Char} :
      ds ≠ [] → AllDigits ds → AllDigits fs → Mantissa (ds ++ '.' :: fs) ds fs
  /-- A point and the digits behind it. -/
  | bare {fs : List Char} : fs ≠ [] → AllDigits fs → Mantissa ('.' :: fs) [] fs

/-- The digits of an exponent with their sign. -/
inductive SignedDigits : List Char → Int → Prop
  | unsigned {ds : List Char} : ds ≠ [] → AllDigits ds → SignedDigits ds (digitsValue ds)
  | plus {ds : List Char} : ds ≠ [] → AllDigits ds → SignedDigits ('+' :: ds) (digitsValue ds)
  | minus {ds : List Char} : ds ≠ [] → AllDigits ds → SignedDigits ('-' :: ds) (-digitsValue ds)

/-- An optional exponent. -/
inductive Exponent : List Char → Int → Prop
  | absent : Exponent [] 0
  | marked {mark : Char} {text : List Char} {value : Int} :
      mark = 'e' ∨ mark = 'E' → SignedDigits text value → Exponent (mark :: text) value

/-- `text` spells the decimal `d`. -/
def SpellsDecimal (text : List Char) (d : Decimal) : Prop :=
  ∃ mantissa whole fraction exponent value, text = mantissa ++ exponent ∧
    Mantissa mantissa whole fraction ∧ Exponent exponent value ∧
    d = ⟨digitsValue (whole ++ fraction), value - fraction.length⟩

/-- A number at the front of `cs`: a decimal nearest to the finite number `x`,
ending where a word may end. -/
def Number (x : Float32) (cs rest : List Char) : Prop :=
  ∃ text d, cs = text ++ rest ∧ atWordEnd rest = true ∧ SpellsDecimal text d ∧
    d.roundTo .single < BinaryFormat.single.infinityBits ∧ x = d.toSingle false

theorem Number.suffix {x : Float32} (h : Number x cs rest) : rest <:+ cs := by
  obtain ⟨text, _, rfl, -⟩ := h
  exact List.suffix_append _ _

theorem inWord_of_isDigit {c : Char} (h : c.isDigit = true) : inWord c = true := by
  simp [inWord, Char.isAlphanum, h]

/-- Digits are taken up to the first character that is none. -/
theorem takeDigits_append {ds : List Char} (hds : AllDigits ds)
    (hrest : ∀ c ∈ rest.head?, c.isDigit = false) : takeDigits (ds ++ rest) = (ds, rest) := by
  obtain ⟨htake, hdrop⟩ := takeWhile_dropWhile_append hds hrest
  rw [takeDigits, htake, hdrop]

/-- Digits are taken as far as they go. -/
theorem takeDigits_eq {ds : List Char} (h : takeDigits cs = (ds, rest)) :
    cs = ds ++ rest ∧ AllDigits ds := by
  rw [takeDigits, Prod.mk.injEq] at h
  obtain ⟨rfl, rfl⟩ := h
  exact ⟨List.takeWhile_append_dropWhile.symm, fun _ hd => List.mem_takeWhile_imp hd⟩

/-- No digit follows the end of a word. -/
theorem head_not_digit_of_atWordEnd (h : atWordEnd rest = true) :
    ∀ c ∈ rest.head?, c.isDigit = false := by
  intro c hc
  have hword := atWordEnd_iff.1 h c hc
  cases hd : c.isDigit with
  | false => rfl
  | true => rw [inWord_of_isDigit hd] at hword; cases hword

/-- An exponent starts with its mark, so it extends neither digits nor a
point. -/
theorem Exponent.head_append {text : List Char} {value : Int} (h : Exponent text value)
    {c : Char} (hc : c ∈ (text ++ rest).head?) : c = 'e' ∨ c = 'E' ∨ c ∈ rest.head? := by
  cases h with
  | absent => exact .inr (.inr hc)
  | marked hmark _ =>
    simp only [List.cons_append, List.head?_cons, Option.mem_def, Option.some.injEq] at hc
    exact hc ▸ hmark.imp id Or.inl

/-- **The mantissa is taken whole** where neither a digit nor a point goes on
behind it. -/
theorem takeMantissa?_append {text whole fraction : List Char} (h : Mantissa text whole fraction)
    (hdigit : ∀ c ∈ rest.head?, c.isDigit = false) (hpoint : rest.head? ≠ some '.') :
    takeMantissa? (text ++ rest) = some (whole, fraction, rest) := by
  cases h with
  | whole hne hds =>
    obtain ⟨d, ds, rfl⟩ := List.exists_cons_of_ne_nil hne
    rw [takeMantissa?, takeDigits_append hds hdigit]
    split
    · next heq => simp at heq
    · next heq => simp at heq
    · next heq => simp_all
    · next heq => simp_all
  | pointed hne hds hfs =>
    obtain ⟨d, ds, rfl⟩ := List.exists_cons_of_ne_nil hne
    -- the digits in front of the point stop at the point
    have hd : takeDigits (d :: ds ++ '.' :: (fraction ++ rest)) =
        (d :: ds, '.' :: (fraction ++ rest)) := takeDigits_append hds (by simp)
    rw [List.append_assoc, @List.cons_append _ '.', takeMantissa?, hd]
    simp only [takeDigits_append hfs hdigit]
  | bare hne hfs =>
    obtain ⟨d, ds, rfl⟩ := List.exists_cons_of_ne_nil hne
    have hd : takeDigits ('.' :: (d :: ds ++ rest)) = ([], '.' :: (d :: ds ++ rest)) := by
      simp [takeDigits]
    rw [@List.cons_append _ '.', takeMantissa?, hd]
    simp only [takeDigits_append hfs hdigit]

/-- What is taken for a mantissa spells one. -/
theorem mantissa_of_takeMantissa? {whole fraction : List Char}
    (h : takeMantissa? cs = some (whole, fraction, rest)) :
    ∃ text, cs = text ++ rest ∧ Mantissa text whole fraction := by
  rw [takeMantissa?] at h
  split at h
  · next tail hds =>
    obtain ⟨rfl, -⟩ := takeDigits_eq hds
    split at h
    · cases h
    · next fs _ hne hfs =>
      obtain ⟨rfl, hall⟩ := takeDigits_eq hfs
      cases h
      exact ⟨'.' :: fraction, rfl, .bare hne hall⟩
  · cases h
  · next ds tail hne hds =>
    obtain ⟨rfl, hall⟩ := takeDigits_eq hds
    cases hfs : takeDigits tail with
    | mk fs tail' =>
      obtain ⟨rfl, hall'⟩ := takeDigits_eq hfs
      rw [hfs] at h
      cases h
      exact ⟨whole ++ '.' :: fraction, by simp, .pointed hne hall hall'⟩
  · next hne _ hds =>
    obtain ⟨rfl, hall⟩ := takeDigits_eq hds
    cases h
    exact ⟨whole, rfl, .whole hne hall⟩

/-- The digits of an exponent are taken whole where no digit follows. -/
theorem takeSignedDigits?_append {text : List Char} {value : Int} (h : SignedDigits text value)
    (hdigit : ∀ c ∈ rest.head?, c.isDigit = false) :
    takeSignedDigits? (text ++ rest) = some (value, rest) := by
  cases h with
  | unsigned hne hds =>
    obtain ⟨d, ds, rfl⟩ := List.exists_cons_of_ne_nil hne
    have hd : d.isDigit = true := hds d (by simp)
    have hminus : d ≠ '-' := by rintro rfl; simp at hd
    have hplus : d ≠ '+' := by rintro rfl; simp at hd
    have htake := takeDigits_append hds hdigit
    rw [List.cons_append] at htake ⊢
    simp [takeSignedDigits?, hminus, hplus, htake]
  | plus hne hds =>
    obtain ⟨d, ds, rfl⟩ := List.exists_cons_of_ne_nil hne
    have htake := takeDigits_append hds hdigit
    rw [List.cons_append] at htake
    simp [takeSignedDigits?, htake]
  | minus hne hds =>
    obtain ⟨d, ds, rfl⟩ := List.exists_cons_of_ne_nil hne
    have htake := takeDigits_append hds hdigit
    rw [List.cons_append] at htake
    simp [takeSignedDigits?, htake]

/-- What is taken for digits with a sign spells them. -/
theorem signedDigits_of_takeSignedDigits? {value : Int}
    (h : takeSignedDigits? cs = some (value, rest)) :
    ∃ text, cs = text ++ rest ∧ SignedDigits text value := by
  have digits : ∀ {cs : List Char} {ds rest : List Char}, takeDigits cs = (ds, rest) → ds ≠ [] →
      ∃ text, cs = text ++ rest ∧ text = ds ∧ text ≠ [] ∧ AllDigits text := by
    intro cs ds rest hds hne
    obtain ⟨rfl, hall⟩ := takeDigits_eq hds
    exact ⟨ds, rfl, rfl, hne, hall⟩
  simp only [takeSignedDigits?] at h
  split at h
  · split at h
    · cases h
    · next tail ds rest' hne hds =>
      obtain ⟨text, rfl, rfl, hne', hall⟩ := digits hds hne
      cases h
      exact ⟨'-' :: text, rfl, .minus hne' hall⟩
  · split at h
    · cases h
    · next tail ds rest' hne hds =>
      obtain ⟨text, rfl, rfl, hne', hall⟩ := digits hds hne
      cases h
      exact ⟨'+' :: text, rfl, .plus hne' hall⟩
  · split at h
    · cases h
    · next ds rest' hne hds =>
      obtain ⟨text, rfl, rfl, hne', hall⟩ := digits hds hne
      cases h
      exact ⟨text, rfl, .unsigned hne' hall⟩

/-- An exponent that ends where a word may end is taken whole. -/
theorem takeExponent_append {text : List Char} {value : Int} (h : Exponent text value)
    (hend : atWordEnd rest = true) : takeExponent (text ++ rest) = (value, rest) := by
  cases h with
  | absent =>
    -- a mark is a letter, and no word may end in front of one
    have hmark : ∀ c ∈ rest.head?, c ≠ 'e' ∧ c ≠ 'E' := by
      intro c hc
      have := atWordEnd_iff.1 hend c hc
      constructor <;> rintro rfl <;> simp [inWord] at this
    cases rest with
    | nil => rfl
    | cons c rest =>
      have := hmark c rfl
      simp [takeExponent, this.1, this.2]
  | marked hmark hds =>
    have htake := takeSignedDigits?_append hds (head_not_digit_of_atWordEnd hend)
    rcases hmark with rfl | rfl <;> simp [takeExponent, htake]

/-- What is taken for an exponent spells one, which may be missing. -/
theorem exponent_of_takeExponent {value : Int} (h : takeExponent cs = (value, rest)) :
    ∃ text, cs = text ++ rest ∧ Exponent text value := by
  have absent : (value, rest) = ((0 : Int), cs) →
      ∃ text, cs = text ++ rest ∧ Exponent text value := by
    intro heq
    cases heq
    exact ⟨[], rfl, .absent⟩
  have marked : ∀ {mark : Char} {tail : List Char}, mark = 'e' ∨ mark = 'E' → cs = mark :: tail →
      (takeSignedDigits? tail).getD (0, cs) = (value, rest) →
      ∃ text, cs = text ++ rest ∧ Exponent text value := by
    intro mark tail hmark hcs h
    cases hds : takeSignedDigits? tail with
    -- a mark without digits is left in the text
    | none => rw [hds] at h; exact absent h.symm
    | some p =>
      rw [hds, Option.getD_some] at h
      subst h
      obtain ⟨text, rfl, hspelled⟩ := signedDigits_of_takeSignedDigits? hds
      exact ⟨mark :: text, hcs, .marked hmark hspelled⟩
  rw [takeExponent.eq_def] at h
  split at h
  · exact marked (.inl rfl) rfl h
  · exact marked (.inr rfl) rfl h
  · exact absent h.symm

/-- **A decimal is taken whole** where a word may end and no point follows. -/
theorem takeDecimal?_append {text : List Char} {d : Decimal} (h : SpellsDecimal text d)
    (hend : atWordEnd rest = true) (hpoint : rest.head? ≠ some '.') :
    takeDecimal? (text ++ rest) = some (d, rest) := by
  obtain ⟨mantissa, whole, fraction, exponent, value, rfl, hmantissa, hexponent, rfl⟩ := h
  have hdigit : ∀ c ∈ (exponent ++ rest).head?, c.isDigit = false := by
    intro c hc
    rcases hexponent.head_append hc with rfl | rfl | hc
    · rfl
    · rfl
    · exact head_not_digit_of_atWordEnd hend c hc
  have hpoint' : (exponent ++ rest).head? ≠ some '.' := by
    intro hc
    rcases hexponent.head_append hc with h | h | h
    · cases h
    · cases h
    · exact hpoint h
  rw [List.append_assoc, takeDecimal?, takeMantissa?_append hmantissa hdigit hpoint']
  simp [takeExponent_append hexponent hend, hend]

/-- What is taken for a decimal spells it, up to where a word may end. -/
theorem spellsDecimal_of_takeDecimal? {d : Decimal} (h : takeDecimal? cs = some (d, rest)) :
    ∃ text, cs = text ++ rest ∧ atWordEnd rest = true ∧ SpellsDecimal text d := by
  simp only [takeDecimal?, Option.bind_eq_bind, Option.bind_eq_some_iff] at h
  obtain ⟨⟨whole, fraction, mid⟩, hmantissa, h⟩ := h
  obtain ⟨mantissa, rfl, hm⟩ := mantissa_of_takeMantissa? hmantissa
  cases hexponent : takeExponent mid with
  | mk value rest' =>
    obtain ⟨exponent, rfl, hspelled⟩ := exponent_of_takeExponent hexponent
    rw [hexponent] at h
    by_cases hend : atWordEnd rest' = true
    · rw [if_pos hend] at h
      cases h
      exact ⟨mantissa ++ exponent, by simp, hend,
        mantissa, whole, fraction, exponent, value, rfl, hm, hspelled, rfl⟩
    · rw [if_neg hend] at h
      cases h

/-- **A number is taken whole** where no point follows it. -/
theorem takeNumber?_of_spelled {x : Float32} (h : Number x cs rest)
    (hpoint : rest.head? ≠ some '.') : takeNumber? cs = some (x, rest) := by
  obtain ⟨text, d, rfl, hend, hspelled, hfinite, rfl⟩ := h
  rw [takeNumber?, takeDecimal?_append hspelled hend hpoint]
  simp [hfinite]

/-- What is taken for a number spells it. -/
theorem number_of_takeNumber? {x : Float32} (h : takeNumber? cs = some (x, rest)) :
    Number x cs rest := by
  simp only [takeNumber?, Option.bind_eq_bind, Option.bind_eq_some_iff] at h
  obtain ⟨⟨d, rest'⟩, hd, h⟩ := h
  obtain ⟨text, rfl, hend, hspelled⟩ := spellsDecimal_of_takeDecimal? hd
  split at h
  · next hfinite =>
    cases h
    exact ⟨text, d, rfl, hend, hspelled, hfinite, rfl⟩
  · cases h

/-- A number starts with a digit or a point, which no word does. -/
theorem Number.head {x : Float32} (h : Number x cs rest) :
    ∃ c tail, cs = c :: tail ∧ (c.isDigit = true ∨ c = '.') := by
  obtain ⟨text, d, rfl, -, ⟨mantissa, whole, fraction, exponent, value, rfl, hm, -⟩, -⟩ := h
  cases hm with
  | whole hne hall =>
    obtain ⟨c, tail, rfl⟩ := List.exists_cons_of_ne_nil hne
    exact ⟨c, _, rfl, .inl (hall c (by simp))⟩
  | pointed hne hall _ =>
    obtain ⟨c, tail, rfl⟩ := List.exists_cons_of_ne_nil hne
    exact ⟨c, _, rfl, .inl (hall c (by simp))⟩
  | bare _ _ => exact ⟨'.', _, rfl, .inr rfl⟩

/-- A number starts with a digit or a point, if there is one. -/
theorem takeNumber?_cons_eq_none {c : Char} (hdigit : c.isDigit = false) (hpoint : c ≠ '.') :
    takeNumber? (c :: cs) = none := by
  cases hnum : takeNumber? (c :: cs) with
  | none => rfl
  | some r =>
    obtain ⟨d, tail, heq, hd⟩ := (number_of_takeNumber? hnum).head
    cases heq
    rcases hd with hd | rfl
    · rw [hdigit] at hd; cases hd
    · exact absurd rfl hpoint

/-- No word is taken for a number. -/
theorem takeNumber?_of_word {name : String} (h : Word name cs rest) : takeNumber? cs = none := by
  obtain ⟨c, tail, rfl, hc⟩ := h.head
  refine takeNumber?_cons_eq_none (isDigit_of_startsWord hc) ?_
  rintro rfl
  cases hc

/-! ## Quoted names -/

/-- `text` spells a quoted name between its quotes: a backslash stands before
a backslash or a quote, and neither of the two that would end or escape the
name stands by itself. -/
inductive Quoted (quote : Char) : List Char → List Char → Prop
  | nil : Quoted quote [] []
  | plain {c : Char} {text name : List Char} :
      c ≠ '\\' → c ≠ quote → Quoted quote text name → Quoted quote (c :: text) (c :: name)
  | escaped {c : Char} {text name : List Char} :
      isEscapable c = true → Quoted quote text name → Quoted quote ('\\' :: c :: text) (c :: name)

/-- A quoted name at the front of `cs`, which is not empty. -/
def QuotedName (name : String) (cs rest : List Char) : Prop :=
  ∃ quote text, (quote = '"' ∨ quote = '\'') ∧ cs = quote :: text ++ quote :: rest ∧
    Quoted quote text name.toList ∧ name ≠ ""

/-- A quoted text is taken up to its closing quote. -/
theorem takeQuoted?_append {quote : Char} {text name : List Char} (hquote : quote ≠ '\\')
    (h : Quoted quote text name) :
    takeQuoted? quote (text ++ quote :: rest) = some (name, rest) := by
  induction h with
  | nil =>
    rw [List.nil_append, takeQuoted?.eq_def]
    split <;> simp_all
  | plain hslash hne _ ih =>
    rw [List.cons_append, takeQuoted?.eq_def]
    split <;> simp_all
  | escaped hc _ ih =>
    rw [List.cons_append, List.cons_append, takeQuoted?, if_pos hc, ih]
    rfl

/-- What is taken up to a closing quote is a quoted text. -/
theorem quoted_of_takeQuoted? {quote : Char} {name : List Char}
    (h : takeQuoted? quote cs = some (name, rest)) :
    ∃ text, cs = text ++ quote :: rest ∧ Quoted quote text name := by
  fun_induction takeQuoted? quote cs generalizing name with
  | case1 => cases h
  | case2 c tail hc ih =>
    obtain ⟨⟨inner, rest'⟩, htail, heq⟩ := Option.map_eq_some_iff.1 h
    cases heq
    obtain ⟨text, rfl, hinner⟩ := ih htail
    exact ⟨'\\' :: c :: text, rfl, .escaped hc hinner⟩
  | case3 => cases h
  | case4 => cases h
  | case5 tail =>
    cases h
    exact ⟨[], rfl, .nil⟩
  | case6 c tail _ hslash hquote ih =>
    obtain ⟨⟨inner, rest'⟩, htail, heq⟩ := Option.map_eq_some_iff.1 h
    cases heq
    obtain ⟨text, rfl, hinner⟩ := ih htail
    exact ⟨c :: text, rfl, .plain hslash hquote hinner⟩

/-- **A quoted name is settled by the text alone**, since its closing quote
is the first that no backslash stands before. -/
theorem takeString?_eq_some_iff {name : String} :
    takeString? cs = some (name, rest) ↔ QuotedName name cs rest := by
  constructor
  · intro h
    rw [takeString?.eq_def] at h
    split at h
    · cases h
    · next c tail =>
      split at h
      · next hquote =>
        simp only [Option.bind_eq_bind, Option.bind_eq_some_iff] at h
        obtain ⟨⟨inner, rest'⟩, hinner, h⟩ := h
        obtain ⟨text, rfl, hspelled⟩ := quoted_of_takeQuoted? hinner
        split at h
        · cases h
        · next hne =>
          cases h
          refine ⟨c, text, hquote, rfl, ?_, ?_⟩
          · rwa [String.toList_ofList]
          · simpa using hne
      · cases h
  · rintro ⟨quote, text, hquote, rfl, hspelled, hne⟩
    have hslash : quote ≠ '\\' := by rcases hquote with rfl | rfl <;> decide
    rw [List.cons_append, takeString?, if_pos hquote, takeQuoted?_append hslash hspelled]
    simp [hne, String.ofList_toList]

/-- A quoted name in the brackets of a table. -/
def Lookup (table name : String) (cs rest : List Char) : Prop :=
  ∃ mid opened quoted closed, Word table cs mid ∧ Gap mid ('[' :: opened) ∧
    Gap opened quoted ∧ QuotedName name quoted closed ∧ Gap closed (']' :: rest)

theorem QuotedName.suffix {name : String} (h : QuotedName name cs rest) : rest <:+ cs := by
  obtain ⟨quote, text, -, rfl, -⟩ := h
  exact (List.suffix_cons quote rest).trans (List.suffix_append (quote :: text) _)

theorem Lookup.suffix {table name : String} (h : Lookup table name cs rest) : rest <:+ cs := by
  obtain ⟨mid, opened, quoted, closed, hword, hopened, hgap, hname, hclosed⟩ := h
  have hstart : quoted <:+ cs :=
    hgap.suffix.trans ((List.suffix_cons _ _).trans (hopened.suffix.trans hword.2.suffix))
  exact (List.suffix_cons _ _).trans (hclosed.suffix.trans (hname.suffix.trans hstart))

/-- The reader takes a lookup if and only if the text spells one, of whatever table. -/
theorem takeLookup?_eq_some_iff {name : String} :
    takeLookup? cs = some (name, rest) ↔ ∃ table, Lookup table name cs rest := by
  simp only [takeLookup?, Option.bind_eq_bind, Option.bind_eq_some_iff, Prod.exists]
  constructor
  · rintro ⟨table, mid, htable, opened, hopened, name', closed, hname, rest', hclosed, heq⟩
    cases heq
    exact ⟨table, mid, opened, skipGaps opened, closed, takeWord?_eq_some_iff.1 htable,
      (takeMark?_eq_some_iff rfl).1 hopened, gap_skipGaps opened,
      takeString?_eq_some_iff.1 hname, (takeMark?_eq_some_iff rfl).1 hclosed⟩
  · rintro ⟨table, mid, opened, quoted, closed, htable, hopened, hgap, hname, hclosed⟩
    -- a quote is no gap, so the reader skips just the gaps of the derivation
    have hskip : skipGaps opened = quoted := by
      obtain ⟨quote, text, hquote, rfl, -⟩ := id hname
      exact hgap.skipGaps_cons (by rcases hquote with rfl | rfl <;> rfl)
    exact ⟨table, mid, takeWord?_eq_some_iff.2 htable, opened,
      (takeMark?_eq_some_iff rfl).2 hopened, name, closed,
      hskip ▸ takeString?_eq_some_iff.2 hname, rest, (takeMark?_eq_some_iff rfl).2 hclosed, rfl⟩

/-! ## A token takes something off the text -/

/-- A keyword is not empty, so less of the text is left. This and the like below end the
recursion of the grammar. -/
theorem Keyword.length_lt {word : String} (h : Keyword word cs rest) (hword : word ≠ "") :
    rest.length < cs.length := by
  obtain ⟨rfl, -⟩ := h
  have : 0 < word.toList.length := by simpa [List.length_pos_iff] using hword
  rw [List.length_append]
  omega

theorem Word.length_lt {name : String} (h : Word name cs rest) : rest.length < cs.length := by
  refine h.2.length_lt ?_
  rintro rfl
  exact h.1

theorem Mantissa.ne_nil {text whole fraction : List Char} (h : Mantissa text whole fraction) :
    text ≠ [] := by
  cases h <;> simp_all

theorem Number.length_lt {x : Float32} (h : Number x cs rest) : rest.length < cs.length := by
  obtain ⟨text, d, rfl, -, ⟨mantissa, _, _, exponent, _, rfl, hmantissa, -⟩, -⟩ := h
  have := List.length_pos_iff.2 hmantissa.ne_nil
  simp only [List.length_append]
  omega

theorem QuotedName.length_lt {name : String} (h : QuotedName name cs rest) :
    rest.length < cs.length := by
  obtain ⟨quote, text, -, rfl, -⟩ := h
  simp only [List.length_append, List.length_cons]
  omega

theorem Lookup.length_lt {table name : String} (h : Lookup table name cs rest) :
    rest.length < cs.length := by
  obtain ⟨mid, opened, quoted, closed, hword, hopened, hgap, hname, hclosed⟩ := h
  have h1 := hword.length_lt
  have h2 := hopened.length_le
  have h3 := hgap.length_le
  have h4 := hname.length_lt
  have h5 := hclosed.length_le
  simp only [List.length_cons] at h2 h5
  omega

end Token

end RuleVote
