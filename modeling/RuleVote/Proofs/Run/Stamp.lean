import RuleVote.Proofs.Rule.ProgramText
import RuleVote.Run.Moment
import RuleVote.Run.Uuid
/-!
# Identifiers and moments read back

Both are kept as text. The text of an identifier is read as the identifier
(`Uuid.ofText?_text`) and the text of a moment as the moment
(`Moment.ofText?_text`), leap seconds, years with a sign and every fraction of a
second included.
-/

namespace RuleVote

/-! ## Identifiers -/

namespace Uuid

/-- A digit that is written is read back. -/
theorem digit?_hexDigit : ∀ d : Fin 16, digit? (Json.hexDigit d.val) = some d := by decide

theorem mapM_digit? (ds : List (Fin 16)) :
    (ds.map fun d => Json.hexDigit d.val).mapM digit? = some ds := by
  induction ds with
  | nil => rfl
  | cons d ds ih => rw [List.map_cons, List.mapM_cons, digit?_hexDigit, ih]; rfl

/-- Between the groups there are hyphens, one fewer than groups. -/
theorem length_hyphenate {ns : List Nat} {cs : List Char} (h : ns.dropLast.sum ≤ cs.length) :
    (hyphenate ns cs).length = cs.length + (ns.length - 1) := by
  induction ns generalizing cs with
  | nil => rfl
  | cons n ns ih =>
    cases ns with
    | nil => rfl
    | cons m ns =>
      rw [List.dropLast_cons_cons, List.sum_cons] at h
      rw [hyphenate, List.length_append, List.length_cons, List.length_take,
        ih (by rw [List.length_drop]; omega), List.length_drop]
      · simp only [List.length_cons]
        omega
      · exact nofun

/-- **Groups that are joined are taken apart again.** -/
theorem ungroup?_hyphenate {ns : List Nat} {cs : List Char} (h : ns.dropLast.sum ≤ cs.length) :
    ungroup? ns (hyphenate ns cs) = some cs := by
  induction ns generalizing cs with
  | nil => rfl
  | cons n ns ih =>
    cases ns with
    | nil => rfl
    | cons m ns =>
      rw [List.dropLast_cons_cons, List.sum_cons] at h
      have hlength : (cs.take n).length = n := List.length_take_of_le (by omega)
      have hrest := @ih (cs.drop n) (by rw [List.length_drop]; omega)
      rw [hyphenate, ungroup?, List.drop_left' hlength, List.take_left' hlength]
      · show (cs.take n ++ ·) <$> ungroup? (m :: ns) (hyphenate (m :: ns) (cs.drop n)) = _
        rw [hrest]
        exact congrArg some (List.take_append_drop n cs)
      all_goals exact nofun

/-- Joining adds nothing but hyphens. -/
theorem mem_hyphenate {ns : List Nat} {cs : List Char} {c : Char} (h : c ∈ hyphenate ns cs) :
    c = '-' ∨ c ∈ cs := by
  induction ns generalizing cs with
  | nil => exact .inr h
  | cons n ns ih =>
    cases ns with
    | nil => exact .inr h
    | cons m ns =>
      rw [hyphenate, List.mem_append, List.mem_cons] at h
      · rcases h with htake | rfl | hrest
        · exact .inr (List.mem_of_mem_take htake)
        · exact .inl rfl
        · exact (ih hrest).imp_right List.mem_of_mem_drop
      · exact nofun

/-- The characters of the digits. -/
def plain (u : Uuid) : List Char := u.digits.map fun d => Json.hexDigit d.val

theorem length_plain (u : Uuid) : u.plain.length = 32 := (List.length_map _).trans u.length_digits

theorem toList_text (u : Uuid) : u.text.toList = hyphenate groups u.plain := String.toList_ofList

theorem length_groups_le (u : Uuid) : groups.dropLast.sum ≤ u.plain.length := by
  rw [length_plain]
  decide

/-- The text of an identifier has 36 characters, as only the hyphenated form has. -/
theorem length_text (u : Uuid) : u.text.toList.length = 36 := by
  rw [toList_text, length_hyphenate u.length_groups_le, length_plain]
  rfl

/-- The text of an identifier holds hyphens and hexadecimal digits only. -/
theorem of_mem_text {u : Uuid} {c : Char} (h : c ∈ u.text.toList) :
    c = '-' ∨ ∃ d : Fin 16, c = Json.hexDigit d.val := by
  rw [toList_text] at h
  refine (mem_hyphenate h).imp_right fun hc => ?_
  obtain ⟨d, -, rfl⟩ := List.mem_map.1 hc
  exact ⟨d, rfl⟩

/-- **The text of an identifier is read as the identifier.** -/
theorem ofText?_text (u : Uuid) : ofText? u.text = some u := by
  unfold ofText?
  dsimp only
  rw [if_neg (by rw [length_text]; decide), if_pos u.length_text, toList_text, ofGrouped?,
    ungroup?_hyphenate u.length_groups_le]
  show ofPlain? _ = _
  rw [ofPlain?, plain, mapM_digit?]
  exact dif_pos u.length_digits

end Uuid

/-! ## Moments -/

namespace Moment

open Token (AllDigits)

/-! ### Numbers with leading zeros -/

theorem allDigits_padded (width n : Nat) : AllDigits (padded width n) :=
  (allDigits_zeros _).append (allDigits_decimalDigits n)

theorem padded_ne_nil (width n : Nat) : padded width n ≠ [] := by
  have hne : decimalDigits n ≠ [] := Nat.toDigits_ne_nil
  unfold padded
  simp [hne]

/-- Zeros in front do not change what digits stand for. -/
theorem digitsValue_padded (width n : Nat) : digitsValue (padded width n) = n := by
  show digitsValue (zeros (width - (decimalDigits n).length) ++ decimalDigits n) = n
  rw [digitsValue_append, digitsValue_zeros, Nat.mul_zero, Nat.zero_add, digitsValue_decimalDigits]

/-- A number below the power of its width is padded to the width. -/
theorem length_padded {width n : Nat} (hwidth : 0 < width) (h : n < 10 ^ width) :
    (padded width n).length = width := by
  have hle : (decimalDigits n).length ≤ width := (Nat.length_toDigits_le_iff (by decide) hwidth).2 h
  unfold padded
  rw [List.length_append, List.length_replicate]
  omega

/-- Digits are taken up to a number of them, or to where they end. -/
theorem digits?_append {most : Nat} {ds rest : List Char} (h : AllDigits ds) (hne : ds ≠ [])
    (hle : ds.length ≤ most)
    (hrest : ds.length = most ∨ ∀ c ∈ rest.head?, c.isDigit = false) :
    digits? most (ds ++ rest) = some (ds, rest) := by
  have hstop : (rest.take (most - ds.length)).takeWhile Char.isDigit = [] := by
    rcases hrest with heq | hdigit
    · rw [heq, Nat.sub_self, List.take_zero]
      rfl
    · cases rest with
      | nil => rw [List.take_nil]; rfl
      | cons c cs =>
        cases most - ds.length with
        | zero => rfl
        | succ k =>
          rw [List.take_succ_cons, List.takeWhile_cons_of_neg (by simp [hdigit c rfl])]
  have htake : ((ds ++ rest).take most).takeWhile Char.isDigit = ds := by
    rw [List.take_append, List.take_of_length_le hle, List.takeWhile_append_of_pos h, hstop,
      List.append_nil]
  unfold digits?
  rw [htake]
  dsimp only
  rw [if_neg (by simpa using hne), List.drop_left]

theorem isBlank_of_isDigit {c : Char} (h : c.isDigit = true) : isBlank c = false :=
  Token.isBlank_of_inWord (Token.inWord_of_isDigit h)

theorem trimLeft_cons {c : Char} {cs : List Char} (h : isBlank c = false) :
    trimLeft (c :: cs) = c :: cs :=
  List.dropWhile_cons_of_neg (by simp [h])

/-- Digits do not start with blanks. -/
theorem trimLeft_padded (width n : Nat) (rest : List Char) :
    trimLeft (padded width n ++ rest) = padded width n ++ rest := by
  obtain ⟨c, cs, hcs⟩ := List.exists_cons_of_ne_nil (padded_ne_nil width n)
  have hc := allDigits_padded width n c (hcs ▸ List.mem_cons_self)
  rw [hcs, List.cons_append, trimLeft_cons (isBlank_of_isDigit hc)]

/-- A number of fixed width is read from its padded digits. -/
theorem number?_padded {width n : Nat} (hwidth : 0 < width) (h : n < 10 ^ width)
    (rest : List Char) : number? width (padded width n ++ rest) = some (n, rest) := by
  have hlength := length_padded hwidth h
  unfold number?
  rw [trimLeft_padded, digits?_append (allDigits_padded width n) (padded_ne_nil width n) hlength.le
    (.inl hlength)]
  show some (digitsValue (padded width n), rest) = _
  rw [digitsValue_padded]

theorem mark?_cons {c : Char} (h : isBlank c = false) (rest : List Char) :
    mark? c (c :: rest) = some rest := by
  unfold mark?
  rw [trimLeft_cons h]
  exact if_pos rfl

/-! ### The date -/

/-- The digits of a year behind its sign. -/
theorem digits?_signedYear (n : Nat) (rest : List Char) :
    digits? (padded 4 n ++ '-' :: rest).length (padded 4 n ++ '-' :: rest) =
      some (padded 4 n, '-' :: rest) := by
  refine digits?_append (allDigits_padded 4 n) (padded_ne_nil 4 n) (by simp) (.inr fun c hc => ?_)
  obtain rfl : '-' = c := Option.some.inj hc
  rfl

/-- A year is read from its text, whatever its sign and length. -/
theorem year?_yearText (year : Int) (rest : List Char) :
    year? (yearText year ++ '-' :: rest) = some (year, '-' :: rest) := by
  unfold yearText
  split_ifs with hplain hnegative
  · have hsmall : year.toNat < 10 ^ 4 := by omega
    obtain ⟨c, cs, hcs⟩ := List.exists_cons_of_ne_nil (padded_ne_nil 4 year.toNat)
    -- A plain year starts with a digit, so that neither of the signs is taken.
    have hc := allDigits_padded 4 year.toNat c (hcs ▸ List.mem_cons_self)
    unfold year?
    rw [trimLeft_padded]
    split
    · next heq =>
      rw [hcs, List.cons_append] at heq
      obtain ⟨rfl, -⟩ := List.cons.inj heq
      cases hc
    · next heq =>
      rw [hcs, List.cons_append] at heq
      obtain ⟨rfl, -⟩ := List.cons.inj heq
      cases hc
    · rw [number?_padded (by decide) hsmall]
      show some ((year.toNat : Int), '-' :: rest) = _
      rw [Int.toNat_of_nonneg hplain.1]
  · show (digits? (padded 4 year.natAbs ++ '-' :: rest).length
      (padded 4 year.natAbs ++ '-' :: rest) >>= fun read =>
      some (-(digitsValue read.1 : Int), read.2)) = _
    rw [digits?_signedYear]
    show some (-(digitsValue (padded 4 year.natAbs) : Int), '-' :: rest) = _
    rw [digitsValue_padded, Int.ofNat_natAbs_of_nonpos hnegative.le, neg_neg]
  · show (digits? (padded 4 year.natAbs ++ '-' :: rest).length
      (padded 4 year.natAbs ++ '-' :: rest) >>= fun read =>
      some ((digitsValue read.1 : Int), read.2)) = _
    rw [digits?_signedYear]
    show some ((digitsValue (padded 4 year.natAbs) : Int), '-' :: rest) = _
    rw [digitsValue_padded, Int.natAbs_of_nonneg (not_lt.1 hnegative)]

/-- **A date is read from its text.** -/
theorem date?_text (d : Date) (rest : List Char) :
    date? (yearText d.year ++ '-' :: (padded 2 d.month ++ '-' :: (padded 2 d.day ++ rest))) =
      some (d, rest) := by
  have hmonth : d.month < 10 ^ 2 := by have := d.valid.2.1; omega
  have hday : d.day < 10 ^ 2 := by
    have hle : daysInMonth d.year d.month ≤ 31 := by
      unfold daysInMonth
      split_ifs <;> decide
    have := d.valid.2.2
    omega
  have hof : Date.of? d.year d.month d.day = some d := dif_pos d.valid
  have hmark : ∀ rest, mark? '-' ('-' :: rest) = some rest := mark?_cons (by decide)
  simp only [date?, year?_yearText, hmark, number?_padded Nat.two_pos hmonth,
    number?_padded Nat.two_pos hday, hof, Option.bind_eq_bind, Option.bind_some, Option.pure_def]

/-! ### The time of day -/

/-- Digits behind the point, which end with the zone. -/
theorem fraction?_padded {width n : Nat} (hwidth : 0 < width) (hle : width ≤ 9)
    (h : n < 10 ^ width) (rest : List Char) :
    fraction? ('.' :: padded width n ++ 'Z' :: rest) =
      some (n * 10 ^ (9 - width), 'Z' :: rest) := by
  have hlength := length_padded hwidth h
  have hdrop : ('Z' :: rest).dropWhile Char.isDigit = 'Z' :: rest := rfl
  have hzone : ∀ c ∈ ('Z' :: rest).head?, c.isDigit = false := by
    intro c hc
    obtain rfl : 'Z' = c := Option.some.inj hc
    rfl
  show (digits? 9 (padded width n ++ 'Z' :: rest) >>= fun read => _) = _
  rw [digits?_append (allDigits_padded width n) (padded_ne_nil width n) (hlength.le.trans hle)
    (.inr hzone)]
  show some (digitsValue (padded width n) * Nat.pow 10 (9 - (padded width n).length),
    ('Z' :: rest).dropWhile Char.isDigit) = _
  rw [digitsValue_padded, hlength, hdrop]
  rfl

/-- The fraction of a second is read from its text, of none, three, six or nine digits. -/
theorem fraction?_fractionText {nanos : Nat} (h : nanos < nanosPerSecond) (rest : List Char) :
    fraction? (fractionText nanos ++ 'Z' :: rest) = some (nanos, 'Z' :: rest) := by
  unfold nanosPerSecond at h
  unfold fractionText
  split_ifs with hzero hmillis hmicros
  · rw [hzero]
    rfl
  · rw [fraction?_padded (by decide) (by decide) (by omega)]
    congr 2
    omega
  · rw [fraction?_padded (by decide) (by decide) (by omega)]
    congr 2
    omega
  · rw [fraction?_padded (by decide) (by decide) (by omega)]
    congr 2
    omega

/-- **A time of day is read from its text**, a leap second too. -/
theorem time?_text {hour minute second nanos : Nat} (hhour : hour ≤ 23) (hminute : minute ≤ 59)
    (hsecond : second ≤ 60) (hnanos : nanos < nanosPerSecond) (rest : List Char) :
    time? (padded 2 hour ++ ':' :: (padded 2 minute ++ ':' :: (padded 2 second ++
        (fractionText nanos ++ 'Z' :: rest)))) =
      some ((hour * 3600 + minute * 60 + min second 59,
        nanos + if second = 60 then nanosPerSecond else 0), 'Z' :: rest) := by
  have hmark : ∀ rest, mark? ':' (':' :: rest) = some rest := mark?_cons (by decide)
  simp only [time?, hmark, number?_padded Nat.two_pos (show hour < 10 ^ 2 by omega),
    number?_padded Nat.two_pos (show minute < 10 ^ 2 by omega),
    number?_padded Nat.two_pos (show second < 10 ^ 2 by omega), fraction?_fractionText hnanos,
    Option.bind_eq_bind, Option.bind_some, Option.pure_def]
  rw [if_neg (by omega)]

/-- A moment without an offset is its own local time. -/
theorem ofLocal?_zero (m : Moment) : ofLocal? m.date m.second m.nanos 0 = some m := by
  have hsecond := m.second_lt
  have hof : of? m.date m.second m.nanos = some m := dif_pos ⟨m.second_lt, m.nanos_lt⟩
  unfold ofLocal?
  dsimp only
  rw [if_neg (by omega), if_neg (by omega)]
  show of? m.date (((m.second : Int) - 0) % secondsPerDay).toNat m.nanos = _
  rw [Int.sub_zero, Int.emod_eq_of_lt (by omega) (by omega), Int.toNat_natCast, hof]

/-- **The text of a moment is read as the moment.** -/
theorem ofText?_text (m : Moment) : ofText? m.text = some m := by
  have hsecond := m.second_lt
  have hnanos := m.nanos_lt
  unfold secondsPerDay at hsecond
  unfold nanosPerSecond at hnanos
  have htext : m.text.toList = yearText m.date.year ++ '-' :: (padded 2 m.date.month ++ '-' ::
      (padded 2 m.date.day ++ 'T' :: (padded 2 (m.second / 3600) ++ ':' ::
        (padded 2 (m.second / 60 % 60) ++ ':' :: (padded 2 (m.second % 60 + m.nanos / nanosPerSecond)
          ++ (fractionText (m.nanos % nanosPerSecond) ++ ['Z'])))))) := by
    unfold text
    rw [String.toList_ofList]
    simp only [List.append_assoc, List.cons_append]
  have hpart : m.nanos % nanosPerSecond < nanosPerSecond := Nat.mod_lt _ (by decide)
  unfold nanosPerSecond at htext hpart
  have htime := @time?_text (m.second / 3600) (m.second / 60 % 60)
    (m.second % 60 + m.nanos / 1000000000) _ (by omega) (by omega) (by omega) hpart []
  have hclock : m.second / 3600 * 3600 + m.second / 60 % 60 * 60 +
      min (m.second % 60 + m.nanos / 1000000000) 59 = m.second := by
    omega
  have hleap : (m.nanos % 1000000000 +
      if m.second % 60 + m.nanos / 1000000000 = 60 then nanosPerSecond else 0) = m.nanos := by
    unfold nanosPerSecond
    split_ifs <;> omega
  rw [hclock, hleap] at htime
  have hseparator : ('T' ∉ ['T', 't', ' ']) = False := by simp
  have hzone : offset? (trimLeft ['Z']) = some (0, []) := rfl
  simp only [ofText?, htext, date?_text, htime, hseparator, hzone, ofLocal?_zero,
    List.head?_cons, List.tail_cons, Option.map_some, Option.bind_eq_bind, Option.bind_some,
    if_false, List.all_nil, Bool.not_true, Bool.false_eq_true]

end Moment

end RuleVote
