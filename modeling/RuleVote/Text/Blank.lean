/-!
# Blanks and lines

A blank is a character with the White_Space property. Trimming works on the
list of characters of a text. A text is cut into lines at each line feed,
and a carriage return right before the line feed belongs to the line break;
the part after the last line feed is a line only when it is not empty.
-/

namespace RuleVote

/-- The White_Space property. -/
def isBlank (c : Char) : Bool :=
  let n := c.toNat
  (9 ≤ n && n ≤ 13) || n == 0x20 || n == 0x85 || n == 0xA0 || n == 0x1680
    || (0x2000 ≤ n && n ≤ 0x200A) || n == 0x2028 || n == 0x2029 || n == 0x202F
    || n == 0x205F || n == 0x3000

/-- The text without its leading blanks. -/
def trimLeft (cs : List Char) : List Char := cs.dropWhile isBlank

/-- The text without its trailing blanks. -/
def trimRight (cs : List Char) : List Char := (cs.reverse.dropWhile isBlank).reverse

/-- The text without leading and trailing blanks. -/
def trimChars (cs : List Char) : List Char := trimRight (trimLeft cs)

/-- A string without leading and trailing blanks. -/
def trimText (s : String) : String := String.ofList (trimChars s.toList)

/-- Whether a string holds nothing but blanks. -/
def isBlankText (s : String) : Bool := s.toList.all isBlank

/-- A text cut after its first line feed: what stands before the line feed,
and what follows it, if there is one. -/
def cutLine : List Char → List Char × Option (List Char)
  | [] => ([], none)
  | '\n' :: rest => ([], some rest)
  | c :: rest => let (line, after) := cutLine rest; (c :: line, after)

/-- What follows the first line feed is shorter than the text. -/
theorem length_of_cutLine_eq {cs line after : List Char}
    (h : cutLine cs = (line, some after)) : after.length < cs.length := by
  induction cs generalizing line with
  | nil => simp [cutLine] at h
  | cons c rest ih =>
    by_cases hc : c = '\n'
    · subst hc
      simp only [cutLine, Prod.mk.injEq, Option.some.injEq] at h
      simp [← h.2]
    · rw [cutLine] at h
      · simp only [Prod.mk.injEq] at h
        have := ih (Prod.ext (x := cutLine rest) (y := ((cutLine rest).1, some after)) rfl h.2)
        simp only [List.length_cons]
        omega
      · exact hc

/-- A line without the carriage return that ends it. -/
def dropReturn (line : List Char) : List Char :=
  if line.getLast? = some '\r' then line.dropLast else line

/-- The lines of a text. -/
def textLines (cs : List Char) : List (List Char) :=
  match h : cutLine cs with
  | (line, none) => if line.isEmpty then [] else [line]
  | (line, some after) =>
    have : after.length < cs.length := length_of_cutLine_eq h
    dropReturn line :: textLines after
termination_by cs.length

end RuleVote
