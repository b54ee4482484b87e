import RuleVote.Json.Decoder
import RuleVote.Proofs.Json.Numeral
import RuleVote.Proofs.Json.Tree
/-!
# JSON text reads back

Whatever lies between the tokens, the text of a value is read as the document
of the value (`Json.Layout.ofText_text`). The two layouts in use, without blanks
and with an item on every line, are cases of one (`Json.Layout`).
-/

namespace RuleVote

namespace JsonText

/-! ## Strings -/

/-- A digit that is written is read back. -/
theorem hexValue?_hexDigit : ∀ n < 16, hexValue? (Json.hexDigit n) = some n := by decide

/-- **An escaped character is read as this character.** -/
theorem string_escapeChar (c : Char) (fuel : Nat) (spelled rest : List Char) :
    string (fuel + 1) (some spelled) (Json.escapeChar c ++ rest) =
      string fuel (some (c :: spelled)) rest := by
  unfold Json.escapeChar
  split_ifs with hquote hslash hbreak hreturn htab hback hfeed hcontrol
  · subst hquote; rfl
  · subst hslash; rfl
  · subst hbreak; rfl
  · subst hreturn; rfl
  · subst htab; rfl
  · obtain rfl : c = Char.ofNat 8 := by rw [← hback, Char.ofNat_toNat]
    rfl
  · obtain rfl : c = Char.ofNat 12 := by rw [← hfeed, Char.ofNat_toNat]
    rfl
  · -- control characters have four hexadecimal digits, the first two of them zero
    have hhigh := hexValue?_hexDigit (c.toNat / 16) (by omega)
    have hlow := hexValue?_hexDigit (c.toNat % 16) (by omega)
    have hfour : hexFour ('0' :: '0' :: Json.hexDigit (c.toNat / 16) ::
        Json.hexDigit (c.toNat % 16) :: rest) = .found c.toNat rest := by
      rw [hexFour, hhigh, hlow]
      show Scan.found (((0 * 16 + 0) * 16 + c.toNat / 16) * 16 + c.toNat % 16) rest = _
      congr 1
      omega
    have hescape : escape ('u' :: '0' :: '0' :: Json.hexDigit (c.toNat / 16) ::
        Json.hexDigit (c.toNat % 16) :: rest) = .found (some c) rest := by
      rw [escape, hfour]
      dsimp only
      rw [if_neg (by omega), if_neg (by omega), Char.ofNat_toNat]
    show string (fuel + 1) (some spelled) ('\\' :: 'u' :: '0' :: '0' :: _ :: _ :: rest) = _
    rw [string, hescape]
    rfl
  · rw [List.cons_append, List.nil_append, string]
    · rw [if_neg hcontrol]
      rfl
    · exact fun heq => hquote heq
    · exact fun heq => hslash heq

/-- **A quoted string is read to its end.** -/
theorem string_append (cs rest : List Char) (fuel : Nat) (spelled : List Char)
    (h : cs.length < fuel) :
    string fuel (some spelled) (cs.flatMap Json.escapeChar ++ '"' :: rest) =
      .found (some (String.ofList (spelled.reverse ++ cs))) rest := by
  induction cs generalizing fuel spelled with
  | nil =>
    obtain ⟨fuel, rfl⟩ := Nat.exists_eq_add_one_of_ne_zero (Nat.ne_of_gt h)
    rw [List.append_nil]
    rfl
  | cons c cs ih =>
    obtain ⟨fuel, rfl⟩ := Nat.exists_eq_add_one_of_ne_zero (Nat.ne_zero_of_lt h)
    rw [List.flatMap_cons, List.append_assoc, string_escapeChar,
      ih fuel (c :: spelled) (Nat.lt_of_succ_lt_succ h), List.reverse_cons, List.append_assoc,
      List.singleton_append]

/-! ## Gaps -/

/-- Blanks before a text are skipped. -/
theorem skipGaps_append {gap rest : List Char} (h : ∀ c ∈ gap, isGap c = true) :
    skipGaps (gap ++ rest) = skipGaps rest := by
  rw [skipGaps, List.dropWhile_append_of_pos h, skipGaps]

theorem skipGaps_of_not {c : Char} {cs : List Char} (h : isGap c = false) :
    skipGaps (c :: cs) = c :: cs :=
  List.dropWhile_cons_of_neg (by simp [h])

theorem sealed_cons {c : Char} {rest : List Char}
    (h : c.isDigit = false ∧ c ≠ '.' ∧ c ≠ 'e' ∧ c ≠ 'E') : Sealed (c :: rest) := by
  intro d hd
  obtain rfl : c = d := Option.some.inj hd
  exact h

theorem sealed_nil : Sealed [] := nofun

/-- Gaps in front of a text that does not go on with a number do not go on with
one either. -/
theorem sealed_append {gap rest : List Char} (h : ∀ c ∈ gap, isGap c = true)
    (hrest : Sealed rest) : Sealed (gap ++ rest) := by
  cases gap with
  | nil => exact hrest
  | cons c cs =>
    have hc := h c List.mem_cons_self
    unfold isGap at hc
    simp only [Bool.or_eq_true, beq_iff_eq] at hc
    refine sealed_cons ?_
    rcases hc with ((rfl | rfl) | rfl) | rfl <;> decide

end JsonText

namespace Json

open JsonText

/-! ## Layouts -/

/-- A way to lay out JSON text: what stands in front of the items of a container
at some level, and what behind the colon of a field. -/
structure Layout where
  /-- What stands in front of an item. -/
  lineBreak : Nat → List Char
  /-- What stands in front of the value of a field. -/
  space : List Char
  /-- Both are gaps. -/
  isGap_lineBreak : ∀ level, ∀ c ∈ lineBreak level, isGap c = true
  isGap_space : ∀ c ∈ space, isGap c = true

namespace Layout

/-- No blanks at all. -/
def compact : Layout := ⟨fun _ => [], [], nofun, nofun⟩

/-- A line break with its indent is skipped by a reader. -/
theorem isGap_lineBreak_pretty (level : Nat) : ∀ c ∈ Json.lineBreak level, isGap c = true := by
  intro c hc
  rcases List.mem_cons.1 hc with rfl | hc
  · rfl
  · rw [List.eq_of_mem_replicate hc]
    rfl

/-- An item on every line. -/
def pretty : Layout := ⟨Json.lineBreak, [' '], isGap_lineBreak_pretty, by simp [isGap]⟩

mutual

/-- The text of a value at a level. -/
def chars (l : Layout) (level : Nat) : Json → List Char
  | .array [] => ['[', ']']
  | .array items =>
    '[' :: l.lineBreak (level + 1) ++ l.itemChars (level + 1) items ++ l.lineBreak level ++ [']']
  | .object [] => ['\x7b', '\x7d']
  | .object fields =>
    '\x7b' :: l.lineBreak (level + 1) ++ l.fieldChars (level + 1) fields ++ l.lineBreak level
      ++ ['\x7d']
  | j => j.scalarText

/-- The text of the items of an array. -/
def itemChars (l : Layout) (level : Nat) : List Json → List Char
  | [] => []
  | [item] => l.chars level item
  | item :: items => l.chars level item ++ ',' :: l.lineBreak level ++ l.itemChars level items

/-- The text of the fields of an object. -/
def fieldChars (l : Layout) (level : Nat) : List (String × Json) → List Char
  | [] => []
  | [(key, value)] => quote key ++ ':' :: l.space ++ l.chars level value
  | (key, value) :: fields =>
    quote key ++ ':' :: l.space ++ l.chars level value ++ ',' :: l.lineBreak level
      ++ l.fieldChars level fields

end

mutual

/-- **The compact text is that of the compact layout**: by recursion on the tree. -/
theorem compactChars_eq : ∀ (level : Nat) (j : Json), j.compactChars = compact.chars level j
  | _, .null => rfl
  | _, .bool _ => rfl
  | _, .integer _ => rfl
  | _, .single _ => rfl
  | _, .decimal _ _ => rfl
  | _, .string _ => rfl
  | _, .array [] => rfl
  | level, .array (item :: items) => by
    rw [compactChars, chars, compactItems_eq (level + 1) (item :: items)]
    · simp [compact]
    · exact nofun
  | _, .object [] => rfl
  | level, .object (field :: fields) => by
    rw [compactChars, chars, compactFields_eq (level + 1) (field :: fields)]
    · simp [compact]
    · exact nofun

theorem compactItems_eq : ∀ (level : Nat) (items : List Json),
    compactItems items = compact.itemChars level items
  | _, [] => rfl
  | level, [item] => by
    rw [compactItems, itemChars, compactChars_eq level item]
  | level, item :: next :: items => by
    rw [compactItems, itemChars, compactChars_eq level item,
      compactItems_eq level (next :: items)]
    · simp [compact]
    · exact nofun
    · exact nofun

theorem compactFields_eq : ∀ (level : Nat) (fields : List (String × Json)),
    compactFields fields = compact.fieldChars level fields
  | _, [] => rfl
  | level, [(key, value)] => by
    rw [compactFields, fieldChars, compactChars_eq level value]
    simp [compact]
  | level, (key, value) :: next :: fields => by
    rw [compactFields, fieldChars, compactChars_eq level value,
      compactFields_eq level (next :: fields)]
    · simp [compact]
    · exact nofun
    · exact nofun

end

mutual

/-- **The pretty text is that of the pretty layout**: by recursion on the tree. -/
theorem prettyChars_eq : ∀ (level : Nat) (j : Json), j.prettyChars level = pretty.chars level j
  | _, .null => rfl
  | _, .bool _ => rfl
  | _, .integer _ => rfl
  | _, .single _ => rfl
  | _, .decimal _ _ => rfl
  | _, .string _ => rfl
  | _, .array [] => rfl
  | level, .array (item :: items) => by
    rw [prettyChars, chars, prettyItems_eq (level + 1) (item :: items)]
    · rfl
    · exact nofun
    · exact nofun
  | _, .object [] => rfl
  | level, .object (field :: fields) => by
    rw [prettyChars, chars, prettyFields_eq (level + 1) (field :: fields)]
    · rfl
    · exact nofun
    · exact nofun

theorem prettyItems_eq : ∀ (level : Nat) (items : List Json),
    prettyItems level items = pretty.itemChars level items
  | _, [] => rfl
  | level, [item] => by
    rw [prettyItems, itemChars, prettyChars_eq level item]
  | level, item :: next :: items => by
    rw [prettyItems, itemChars, prettyChars_eq level item, prettyItems_eq level (next :: items)]
    · rfl
    · exact nofun
    · exact nofun

theorem prettyFields_eq : ∀ (level : Nat) (fields : List (String × Json)),
    prettyFields level fields = pretty.fieldChars level fields
  | _, [] => rfl
  | level, [(key, value)] => by
    rw [prettyFields, fieldChars, prettyChars_eq level value]
    simp [pretty]
  | level, (key, value) :: next :: fields => by
    rw [prettyFields, fieldChars, prettyChars_eq level value,
      prettyFields_eq level (next :: fields)]
    · simp [pretty]
    · exact nofun
    · exact nofun

end

end Layout

/-! ## Reading a value -/

/-- The text of a number is read as the number. -/
def ReadsBack (x : Float32) : Prop := decodeText .single (single x).compact = .ok x

instance (x : Float32) : Decidable (ReadsBack x) := inferInstanceAs (Decidable (_ = _))

/-- A value whose text can be read whole: its containers nest at most so many
levels deep, its integers have at most 64 bits, and its other numbers are of
single precision and read back if they are finite. -/
inductive Legible : Nat → Json → Prop
  | null {n : Nat} : Legible n .null
  | bool {n : Nat} (b : Bool) : Legible n (.bool b)
  | integer {n : Nat} {i : Int} (h : -(2 ^ 63 : Int) ≤ i ∧ i < 2 ^ 64) : Legible n (.integer i)
  | single {n : Nat} {x : Float32} (h : IsFinite x → ReadsBack x) : Legible n (.single x)
  | string {n : Nat} (s : String) : Legible n (.string s)
  | array {n : Nat} {items : List Json} (h : ∀ item ∈ items, Legible n item) :
    Legible (n + 1) (.array items)
  | object {n : Nat} {fields : List (String × Json)} (h : ∀ field ∈ fields, Legible n field.2) :
    Legible (n + 1) (.object fields)

/-- A text that begins a value and is read as the document of one, whatever
follows. -/
structure ReadAs (text : List Char) (j : Json) : Prop where
  head : ∃ c cs, text = c :: cs ∧ isGap c = false ∧ c ≠ ']'
  value : ∀ (fuel depth : Nat) (rest : List Char), text.length ≤ fuel → Sealed rest →
    JsonText.value fuel depth (text ++ rest) = (j.document (.bracketed (depth + 1)), some rest)

theorem isGap_of_number {c : Char} (h : c = '-' ∨ c.isDigit = true) : isGap c = false := by
  rw [← Bool.not_eq_true]
  intro hgap
  simp only [isGap, Bool.or_eq_true, beq_iff_eq] at hgap
  rcases hgap with ((rfl | rfl) | rfl) | rfl <;> exact absurd h (by decide)

/-- What begins a number begins nothing else. -/
theorem value_of_number {c : Char} (h : c = '-' ∨ c.isDigit = true) (fuel depth : Nat)
    (cs : List Char) : JsonText.value (fuel + 1) depth (c :: cs) =
      (number (c :: cs)).read .number := by
  rw [JsonText.value, skipGaps_of_not (isGap_of_number h)]
  split
  case h_1 heq => cases heq
  case h_8 heq =>
    obtain ⟨rfl, rfl⟩ := List.cons.inj heq
    rw [if_pos h]
  all_goals
    next heq =>
      obtain ⟨rfl, -⟩ := List.cons.inj heq
      exact absurd h (by decide)

/-- A text that spells a number is read as it, if the tree has it as its document. -/
theorem readAs_number {text : List Char} {j : Json} {n : Numeral} (h : IsNumber text n)
    (hj : ∀ frame, j.document frame = numberDocument text) : ReadAs text j := by
  have hread : numberDocument text = .number n := by
    have := number_append h sealed_nil
    rw [List.append_nil] at this
    rw [numberDocument, this]
    rfl
  obtain ⟨c, cs, rfl, hc⟩ := h.exists_cons
  refine ⟨⟨c, cs, rfl, isGap_of_number hc, ?_⟩, fun fuel depth rest hfuel hrest => ?_⟩
  · rintro rfl
    exact absurd hc (by decide)
  · obtain ⟨fuel, rfl⟩ := Nat.exists_eq_add_one_of_ne_zero (Nat.ne_zero_of_lt hfuel)
    rw [List.cons_append, value_of_number hc, ← List.cons_append, number_append h hrest, hj, hread]
    rfl

/-- A word is read as a tree, if a value that starts with it is. -/
theorem readAs_word {c : Char} {cs : List Char} {j : Json} (hc : isGap c = false ∧ c ≠ ']')
    (h : ∀ fuel depth rest, JsonText.value (fuel + 1) depth (c :: (cs ++ rest)) =
      (j.document (.bracketed (depth + 1)), some rest)) : ReadAs (c :: cs) j := by
  refine ⟨⟨c, cs, rfl, hc.1, hc.2⟩, fun fuel depth rest hfuel _ => ?_⟩
  obtain ⟨fuel, rfl⟩ := Nat.exists_eq_add_one_of_ne_zero (Nat.ne_zero_of_lt hfuel)
  exact h fuel depth rest

theorem quote_append (s : String) (rest : List Char) :
    quote s ++ rest = '"' :: (s.toList.flatMap escapeChar ++ '"' :: rest) := by
  simp [quote]

/-- Escaping makes no text shorter, so the fuel for the text written is enough for what it says. -/
theorem length_le_escaped (cs : List Char) : cs.length ≤ (cs.flatMap escapeChar).length := by
  induction cs with
  | nil => exact Nat.le_refl 0
  | cons c cs ih =>
    have hc : 0 < (escapeChar c).length := by
      unfold escapeChar
      split_ifs <;> exact Nat.succ_pos _
    rw [List.flatMap_cons, List.length_append, List.length_cons]
    omega

/-- What is written of a string is read to its closing quote. -/
theorem string_quoted (s : String) (rest : List Char) :
    JsonText.string ((s.toList.flatMap escapeChar ++ '"' :: rest).length + 1) (some [])
      (s.toList.flatMap escapeChar ++ '"' :: rest) = .found (some s) rest := by
  have hlength := length_le_escaped s.toList
  rw [string_append]
  · rw [List.reverse_nil, List.nil_append, String.ofList_toList]
  · rw [List.length_append]
    omega

/-- A string is read from its quoted text. -/
theorem readAs_string (s : String) : ReadAs (quote s) (.string s) := by
  refine readAs_word (by decide : isGap '"' = false ∧ '"' ≠ ']') fun fuel depth rest => ?_
  show JsonText.value (fuel + 1) depth (quote s ++ rest) = _
  rw [quote_append]
  show (JsonText.string _ (some []) _).readString = _
  rw [string_quoted]
  rfl

/-- A number of single precision is read from the digits that stand for it. -/
theorem readAs_single (x : Float32) : ReadAs (scalarText (.single x)) (.single x) := by
  rw [scalarText]
  cases htext : jsonSingleText? x with
  | none =>
    refine readAs_word (by decide : isGap 'n' = false ∧ 'n' ≠ ']') fun fuel depth rest => ?_
    rw [document, htext]
    rfl
  | some text =>
    obtain ⟨negative, digits, exponent, hx⟩ := isFinite_of_jsonSingleText htext
    obtain ⟨text', _, _, _, htext', -, hnumber, -⟩ := isNumber_jsonSingleText hx
    obtain rfl : text = text' := Option.some.inj (htext.symm.trans htext')
    refine readAs_number hnumber fun frame => ?_
    rw [document, htext]
    rfl

/-! ## Reading a container -/

variable {l : Layout} {level fuel depth : Nat}

/-- What follows the last item of a container. -/
theorem skipGaps_closing {gap rest : List Char} {c : Char} (h : ∀ c ∈ gap, isGap c = true)
    (hc : isGap c = false) : skipGaps (gap ++ c :: rest) = c :: rest := by
  rw [skipGaps_append h, skipGaps_of_not hc]

theorem skipGaps_readAs {gap text rest : List Char} {j : Json} (hgap : ∀ c ∈ gap, isGap c = true)
    (h : ReadAs text j) : skipGaps (gap ++ (text ++ rest)) = text ++ rest := by
  obtain ⟨c, cs, rfl, hc, -⟩ := h.head
  exact skipGaps_closing hgap hc

section

variable {opening : Bool} {before after text rest : List Char} {j : Json}

/-- An item does not close the array that it begins. -/
theorem ReadAs.not_closing (h : ReadAs text j) (hbefore : ∀ c ∈ before, isGap c = true) :
    (∀ cs, opening = true → skipGaps (before ++ (text ++ rest)) = ']' :: cs → False) ∧
      (opening = true → skipGaps (before ++ (text ++ rest)) = [] → False) := by
  rw [skipGaps_readAs hbefore h]
  obtain ⟨c, cs, rfl, -, hc⟩ := h.head
  exact ⟨fun _ _ heq => hc (List.cons.inj heq).1, fun _ heq => List.cons_ne_nil _ _ heq⟩

/-- The last item of an array is read up to the bracket that closes it. -/
theorem items_last (h : ReadAs text j) (hbefore : ∀ c ∈ before, isGap c = true)
    (hafter : ∀ c ∈ after, isGap c = true) (hfuel : text.length ≤ fuel) :
    JsonText.items (fuel + 1) depth opening (before ++ (text ++ (after ++ ']' :: rest))) =
      ([j.document (.bracketed (depth + 1))], none, some rest) := by
  have hrest : Sealed (after ++ ']' :: rest) := sealed_append hafter (sealed_cons (by decide))
  rw [JsonText.items, skipGaps_readAs hbefore h, h.value _ _ _ hfuel hrest]
  · dsimp only
    rw [skipGaps_closing hafter (by decide)]
    rfl
  · exact (h.not_closing hbefore).1
  · exact (h.not_closing hbefore).2

/-- An item with a comma behind it is read, and the items behind it as they are without it. -/
theorem items_next (h : ReadAs text j) (hbefore : ∀ c ∈ before, isGap c = true)
    (hfuel : text.length ≤ fuel) {docs : List Document}
    (hmore : JsonText.items fuel depth false after = (docs, none, some rest)) :
    JsonText.items (fuel + 1) depth opening (before ++ (text ++ ',' :: after)) =
      (j.document (.bracketed (depth + 1)) :: docs, none, some rest) := by
  have hrest : Sealed (',' :: after) := sealed_cons (by decide)
  rw [JsonText.items, skipGaps_readAs hbefore h, h.value _ _ _ hfuel hrest]
  · dsimp only
    rw [skipGaps_of_not (by decide)]
    show (_ :: (JsonText.items fuel depth false after).1, _) = _
    rw [hmore]
  · exact (h.not_closing hbefore).1
  · exact (h.not_closing hbefore).2

end

/-- **The items of an array are read one after another**, to the closing
bracket. -/
theorem items_itemChars {items : List Json} (hne : items ≠ [])
    (h : ∀ item ∈ items, ReadAs (l.chars level item) item) (fuel depth : Nat) (opening : Bool)
    {before after : List Char} (rest : List Char) (hbefore : ∀ c ∈ before, isGap c = true)
    (hafter : ∀ c ∈ after, isGap c = true)
    (hfuel : (l.itemChars level items).length < fuel) :
    JsonText.items fuel depth opening
        (before ++ (l.itemChars level items ++ (after ++ ']' :: rest))) =
      (itemDocuments (.bracketed (depth + 1)) items, none, some rest) := by
  induction items generalizing fuel opening before with
  | nil => exact absurd rfl hne
  | cons item items ih =>
    obtain ⟨fuel, rfl⟩ := Nat.exists_eq_add_one_of_ne_zero (Nat.ne_zero_of_lt hfuel)
    have hitem := h item List.mem_cons_self
    cases items with
    | nil => exact items_last hitem hbefore hafter (Nat.le_of_lt_succ hfuel)
    | cons next items =>
      rw [Layout.itemChars, List.length_append, List.length_append, List.length_cons] at hfuel
      · have hmore := ih (List.cons_ne_nil next items)
          (fun item hitem => h item (List.mem_cons_of_mem _ hitem)) fuel false
          (l.isGap_lineBreak level) (by omega)
        rw [Layout.itemChars, List.append_assoc, List.append_assoc, List.cons_append]
        · exact items_next hitem hbefore (by omega) hmore
        · exact nofun
      · exact nofun

/-- Blanks before a value are skipped. -/
theorem value_append {gap : List Char} (h : ∀ c ∈ gap, isGap c = true) (fuel depth : Nat)
    (rest : List Char) :
    JsonText.value fuel depth (gap ++ rest) = JsonText.value fuel depth rest := by
  cases fuel with
  | zero => rfl
  | succ fuel => rw [JsonText.value, skipGaps_append h, JsonText.value]

/-- The text of a field. -/
def Layout.fieldText (l : Layout) (level : Nat) (field : String × Json) : List Char :=
  quote field.1 ++ ':' :: (l.space ++ l.chars level field.2)

section

variable {opening : Bool} {before after rest : List Char} {field : String × Json}

/-- The key of a field and its value, whatever follows. -/
theorem entries_field (h : ReadAs (l.chars level field.2) field.2)
    (hbefore : ∀ c ∈ before, isGap c = true) (hfuel : (l.fieldText level field).length ≤ fuel)
    (hrest : Sealed rest) :
    JsonText.entries (fuel + 1) depth opening (before ++ (l.fieldText level field ++ rest)) =
      match skipGaps rest with
      | '\x7d' :: rest => ([entryDocument (.bracketed (depth + 1)) field], none, some rest)
      | ',' :: rest =>
        let (more, tail, rest) := JsonText.entries fuel depth false rest
        (entryDocument (.bracketed (depth + 1)) field :: more, tail, rest)
      | [] => ([entryDocument (.bracketed (depth + 1)) field], some .truncated, none)
      | _ => ([entryDocument (.bracketed (depth + 1)) field], some .malformed, none) := by
  obtain ⟨key, value⟩ := field
  have hvalue : (l.chars level value).length ≤ fuel := by
    simp only [Layout.fieldText, List.length_append, List.length_cons] at hfuel
    omega
  have hkey : skipGaps (before ++ (l.fieldText level (key, value) ++ rest)) =
      '"' :: (key.toList.flatMap escapeChar ++ '"' :: (':' :: (l.space ++
        (l.chars level value ++ rest)))) := by
    rw [Layout.fieldText, List.append_assoc, List.cons_append, List.append_assoc, quote_append,
      skipGaps_closing hbefore (by decide)]
  simp only [JsonText.entries, hkey, string_quoted, skipGaps_of_not (by decide : isGap ':' = false)]
  rw [value_append l.isGap_space, h.value _ _ _ hvalue hrest]
  rfl

end

/-- The text of several fields is that of the first, a comma and that of the others. -/
theorem fieldChars_cons (field next : String × Json) (fields : List (String × Json)) :
    l.fieldChars level (field :: next :: fields) =
      l.fieldText level field ++
        ',' :: (l.lineBreak level ++ l.fieldChars level (next :: fields)) := by
  rw [Layout.fieldChars, Layout.fieldText]
  · simp
  · exact nofun

theorem fieldChars_singleton (field : String × Json) :
    l.fieldChars level [field] = l.fieldText level field := by
  simp [Layout.fieldChars, Layout.fieldText]

/-- **The fields of an object are read one after another**, to the closing
brace. -/
theorem entries_fieldChars {fields : List (String × Json)} (hne : fields ≠ [])
    (h : ∀ field ∈ fields, ReadAs (l.chars level field.2) field.2) (fuel depth : Nat)
    (opening : Bool) {before after : List Char} (rest : List Char)
    (hbefore : ∀ c ∈ before, isGap c = true) (hafter : ∀ c ∈ after, isGap c = true)
    (hfuel : (l.fieldChars level fields).length < fuel) :
    JsonText.entries fuel depth opening
        (before ++ (l.fieldChars level fields ++ (after ++ '\x7d' :: rest))) =
      (fieldDocuments (.bracketed (depth + 1)) fields, none, some rest) := by
  induction fields generalizing fuel opening before with
  | nil => exact absurd rfl hne
  | cons field fields ih =>
    obtain ⟨fuel, rfl⟩ := Nat.exists_eq_add_one_of_ne_zero (Nat.ne_zero_of_lt hfuel)
    have hfield := h field List.mem_cons_self
    -- The last field is followed by the closing brace, every other one by a comma.
    cases fields with
    | nil =>
      rw [fieldChars_singleton] at hfuel ⊢
      rw [entries_field hfield hbefore (Nat.le_of_lt_succ hfuel)
        (sealed_append hafter (sealed_cons (by decide))), skipGaps_closing hafter (by decide)]
      rfl
    | cons next fields =>
      rw [fieldChars_cons] at hfuel ⊢
      rw [List.length_append, List.length_cons, List.length_append] at hfuel
      have hmore := ih (List.cons_ne_nil next fields)
        (fun field hfield => h field (List.mem_cons_of_mem _ hfield)) fuel false
        (l.isGap_lineBreak level) (by omega)
      rw [List.append_assoc, List.cons_append, List.append_assoc,
        entries_field hfield hbefore (by omega) (sealed_cons (by decide)),
        skipGaps_of_not (by decide)]
      show (_ :: (JsonText.entries fuel depth false _).1, _) = _
      rw [hmore]
      rfl

/-- **An array is read from its text** if its items are read from theirs. -/
theorem readAs_array {items : List Json}
    (h : ∀ item ∈ items, ReadAs (l.chars (level + 1) item) item) :
    ReadAs (l.chars level (.array items)) (.array items) := by
  cases items with
  | nil =>
    refine ⟨⟨'[', [']'], rfl, by decide⟩, fun fuel depth rest hfuel _ => ?_⟩
    obtain ⟨fuel, rfl⟩ := Nat.exists_eq_add_of_le' hfuel
    rfl
  | cons item items =>
    rw [Layout.chars]
    · refine ⟨⟨'[', _, rfl, by decide⟩, fun fuel depth rest hfuel _ => ?_⟩
      simp only [List.length_append, List.length_cons] at hfuel
      obtain ⟨fuel, rfl⟩ := Nat.exists_eq_add_one_of_ne_zero (Nat.ne_zero_of_lt hfuel)
      have hitems := items_itemChars (List.cons_ne_nil item items) h fuel (depth + 1) true rest
        (l.isGap_lineBreak (level + 1)) (l.isGap_lineBreak level) (by omega)
      simp only [List.cons_append, List.append_assoc, List.nil_append]
      exact congrArg (fun read : List Document × Option DocumentFault × Option (List Char) =>
        (Document.array (.bracketed (depth + 1)) read.1 read.2.1, read.2.2)) hitems
    · intro h
      cases h

/-- **An object is read from its text** if its fields are read from theirs. -/
theorem readAs_object {fields : List (String × Json)}
    (h : ∀ field ∈ fields, ReadAs (l.chars (level + 1) field.2) field.2) :
    ReadAs (l.chars level (.object fields)) (.object fields) := by
  cases fields with
  | nil =>
    refine ⟨⟨'\x7b', ['\x7d'], rfl, by decide⟩, fun fuel depth rest hfuel _ => ?_⟩
    obtain ⟨fuel, rfl⟩ := Nat.exists_eq_add_of_le' hfuel
    rfl
  | cons field fields =>
    rw [Layout.chars]
    · refine ⟨⟨'\x7b', _, rfl, by decide⟩, fun fuel depth rest hfuel _ => ?_⟩
      simp only [List.length_append, List.length_cons] at hfuel
      obtain ⟨fuel, rfl⟩ := Nat.exists_eq_add_one_of_ne_zero (Nat.ne_zero_of_lt hfuel)
      have hfields := entries_fieldChars (List.cons_ne_nil field fields) h fuel (depth + 1) true
        rest (l.isGap_lineBreak (level + 1)) (l.isGap_lineBreak level) (by omega)
      simp only [List.cons_append, List.append_assoc, List.nil_append]
      exact congrArg (fun read :
          List (Document × Document) × Option DocumentFault × Option (List Char) =>
        (Document.object (.bracketed (depth + 1)) read.1 read.2.1, read.2.2)) hfields
    · intro h
      cases h

/-- **The text of a value is read as its document.** -/
theorem Legible.readAs {n : Nat} {j : Json} (h : j.Legible n) (l : Layout) (level : Nat) :
    ReadAs (l.chars level j) j := by
  induction h generalizing level with
  | null =>
    exact readAs_word (by decide : isGap 'n' = false ∧ 'n' ≠ ']') fun _ _ _ => rfl
  | bool b =>
    cases b with
    | true => exact readAs_word (by decide : isGap 't' = false ∧ 't' ≠ ']') fun _ _ _ => rfl
    | false => exact readAs_word (by decide : isGap 'f' = false ∧ 'f' ≠ ']') fun _ _ _ => rfl
  | integer _ => exact readAs_number (isNumber_intText _) fun _ => rfl
  | single _ => exact readAs_single _
  | string s => exact readAs_string s
  | array _ ih => exact readAs_array fun item hitem => ih item hitem (level + 1)
  | object _ ih => exact readAs_object fun field hfield => ih field hfield (level + 1)

/-- The text of a value is read to its end. -/
theorem ReadAs.ofText {text : List Char} {j : Json} (h : ReadAs text j) :
    DocumentText.ofText (String.ofList text) = ⟨j.document (.bracketed 1), false⟩ := by
  have hvalue := h.value _ 0 [] (Nat.le_succ _) sealed_nil
  rw [List.append_nil] at hvalue
  rw [DocumentText.ofText, String.toList_ofList, hvalue]
  rfl

/-- What is decoded from the text of a value is decoded from its document. -/
theorem ReadAs.decodeText_eq_ok_iff {text : List Char} {j : Json} (h : ReadAs text j) {α : Type}
    (decoder : Decoder α) (a : α) : decodeText decoder (String.ofList text) = .ok a ↔
      decoder (j.document (.bracketed 1)) = .ok a := by
  rw [decodeText, h.ofText]
  cases decoder (j.document (.bracketed 1)) <;> exact .rfl

/-- **What is decoded from the text of a value is decoded from its document**,
however the text is laid out. -/
theorem Legible.decodeText_eq_ok_iff {n : Nat} {j : Json} (h : j.Legible n) {α : Type}
    (decoder : Decoder α) (a : α) :
    (decodeText decoder j.compact = .ok a ↔ decoder (j.document (.bracketed 1)) = .ok a) ∧
      (decodeText decoder j.pretty = .ok a ↔ decoder (j.document (.bracketed 1)) = .ok a) := by
  rw [compact, pretty, Layout.compactChars_eq 0, Layout.prettyChars_eq]
  exact ⟨(h.readAs _ 0).decodeText_eq_ok_iff decoder a,
    (h.readAs _ 0).decodeText_eq_ok_iff decoder a⟩

/-! ## Numbers -/

/-- The digits of an integer of 64 bits stand for it. -/
theorem numberDocument_intText {i : Int} (h : -(2 ^ 63 : Int) ≤ i ∧ i < 2 ^ 64) :
    numberDocument (intText i) = .number (.integer i) := by
  have hread := number_append (isNumber_intText i) sealed_nil
  have hlow : Nat.pow 2 63 = 2 ^ 63 := rfl
  have hhigh : Nat.pow 2 64 = 2 ^ 64 := rfl
  have hnumeral : numeral (i < 0) (decimalDigits i.natAbs) [] none = .integer i := by
    unfold numeral
    rw [digitsValue_decimalDigits]
    by_cases hi : i < 0
    · rw [if_pos ⟨⟨rfl, rfl⟩, decide_eq_true hi, by omega, by omega⟩]
      congr 1
      omega
    · rw [if_neg fun hneg => hi (of_decide_eq_true hneg.2.1),
        if_pos ⟨⟨rfl, rfl⟩, fun hneg => hi (of_decide_eq_true hneg), by omega⟩]
      congr 1
      omega
  rw [List.append_nil] at hread
  rw [numberDocument, hread, hnumeral]
  rfl

/-- **A number that is not finite is written as nothing.** -/
theorem document_single_of_not {x : Float32} (h : ¬ IsFinite x) (frame : Frame) :
    (single x).document frame = .null := by
  unfold document
  split
  · next htext => exact absurd (isFinite_of_jsonSingleText htext) h
  · rfl

/-- **A number reads back just when it is decoded from its document**, in any frame. -/
theorem readsBack_iff (x : Float32) (frame : Frame) :
    ReadsBack x ↔ Decoder.single ((single x).document frame) = .ok x := by
  rw [ReadsBack, compact, Layout.compactChars_eq 0]
  exact (readAs_single x).decodeText_eq_ok_iff .single x

/-! ## Checking a value -/

/-- A document that is read as a number has no fault in it. -/
theorem check_of_single {d : Document} {x : Float32} (h : Decoder.single d = .ok x) :
    d.check = .ok () := by
  cases d with
  | number n => cases n <;> first | rfl | cases h
  | text content => cases content <;> cases h
  | _ => cases h

/-- An array has no fault if its items have none. -/
theorem checkItems_eq_ok {items : List Document} (h : ∀ item ∈ items, item.check = .ok ()) :
    Document.checkItems items = .ok () := by
  induction items with
  | nil => rfl
  | cons item items ih =>
    rw [Document.checkItems, h item List.mem_cons_self]
    exact ih fun item hitem => h item (List.mem_cons_of_mem _ hitem)

/-- An object has no fault if its names and values have none. -/
theorem checkEntries_eq_ok {entries : List (Document × Document)}
    (h : ∀ entry ∈ entries, entry.1.check = .ok () ∧ entry.2.check = .ok ()) :
    Document.checkEntries entries = .ok () := by
  induction entries with
  | nil => rfl
  | cons entry entries ih =>
    obtain ⟨key, value⟩ := entry
    obtain ⟨hkey, hvalue⟩ := h (key, value) List.mem_cons_self
    rw [Document.checkEntries, hkey]
    show (value.check >>= fun _ => Document.checkEntries entries) = _
    rw [hvalue]
    exact ih fun entry hentry => h entry (List.mem_cons_of_mem _ hentry)

/-- **A value can be read whole** where its containers may be entered. -/
theorem Legible.check {n : Nat} {j : Json} (h : j.Legible n) {frame : Frame}
    (hframe : frame.Spans n) : (j.document frame).check = .ok () := by
  induction h generalizing frame with
  | null | bool _ | string _ => rfl
  | integer h =>
    rw [document, numberDocument_intText h]
    rfl
  | @single n x h =>
    by_cases hx : IsFinite x
    · exact check_of_single ((readsBack_iff x frame).1 (h hx))
    · rw [document_single_of_not hx]
      rfl
  | array h ih =>
    rw [document, Document.check, hframe.admits, itemDocuments_eq_map, checkItems_eq_ok]
    · rfl
    · intro d hd
      obtain ⟨item, hitem, rfl⟩ := List.mem_map.1 hd
      exact ih item hitem hframe.inner
  | object h ih =>
    rw [document, Document.check, hframe.admits, fieldDocuments_eq_map, checkEntries_eq_ok]
    · rfl
    · intro entry hentry
      obtain ⟨field, hfield, rfl⟩ := List.mem_map.1 hentry
      exact ⟨rfl, ih field hfield hframe.inner⟩

end Json

end RuleVote
