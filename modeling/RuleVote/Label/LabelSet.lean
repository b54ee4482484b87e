import RuleVote.Failure
import RuleVote.Text.Blank
import RuleVote.Text.Case

/-!
# Label sets

The labels of a task in a fixed order; the index of a label is its
position. Rule text names a label by its code name: the name in upper case
with underscores for spaces. An abstention has an index and a code name too
and is no label.
-/

namespace RuleVote

/-- The index that stands for an abstention. -/
def abstain : Int := -1

/-- The label that stands for a class: its position, as long as that is a
number of 32 bits, and none beyond. -/
def classLabel (c : Nat) : Int := if c < Nat.pow 2 31 then c else abstain

theorem classLabel_of_lt {c : Nat} (h : c < Nat.pow 2 31) : classLabel c = c := if_pos h

/-- The label of a class is the class or none. -/
theorem classLabel_below {c classes : Nat} (h : c < classes) :
    classLabel c = abstain ∨ 0 ≤ classLabel c ∧ classLabel c < classes := by
  rw [classLabel]
  split
  · exact .inr ⟨Int.natCast_nonneg c, Int.ofNat_lt.2 h⟩
  · exact .inl rfl

/-- The label of a class is below the number of classes, and the class itself as
long as these are not too many. -/
theorem classLabel_bounds {c classes : Nat} (h : c < classes) :
    (classes ≤ Nat.pow 2 31 → 0 ≤ classLabel c) ∧ classLabel c < classes := by
  constructor
  · intro hle
    rw [classLabel_of_lt (Nat.lt_of_lt_of_le h hle)]
    exact Int.natCast_nonneg c
  · rcases classLabel_below h with habstain | ⟨-, hlt⟩
    · rw [habstain]
      exact Int.lt_of_lt_of_le (by decide) (Int.natCast_nonneg classes)
    · exact hlt

/-- The code name of an abstention. -/
def abstainCode : String := "ABSTAIN"

/-- The code form of a name. -/
def codeName (name : String) : String :=
  String.ofList ((name.toList.flatMap upperCase).map fun c => if c = ' ' then '_' else c)

/-- Capitalises words: `start` holds where a word begins. -/
def displayChars : Bool → List Char → List Char
  | _, [] => []
  | start, c :: cs =>
    if c = ' ' ∨ c = '_' then ' ' :: displayChars true cs
    else (if start then upperCase c else lowerCase c) ++ displayChars false cs

/-- The display form of a name: words apart and capitalised. -/
def displayName (name : String) : String := String.ofList (displayChars true name.toList)

/-- The labels of a task. -/
structure LabelSet where
  /-- The names in index order. -/
  labels : List String
deriving DecidableEq, Repr

namespace LabelSet

/-- Checks names one after the other, `codes` being the code names before. -/
def checkNames (codes : List String) : List String → Except Failure Unit
  | [] => .ok ()
  | label :: labels =>
    let code := codeName (trimText label)
    if code.isEmpty then .error (.other "Label names cannot be empty")
    else if code = abstainCode then
      .error (.other ("Label '" ++ label ++ "' collides with the reserved ABSTAIN label"))
    else if codes.contains code then .error (.other ("Duplicate label '" ++ label ++ "'"))
    else checkNames (code :: codes) labels

/-- A label set: two labels or more, with distinct code names. -/
def ofList (labels : List String) : Except Failure LabelSet := do
  if labels.length < 2 then
    .error (.badSetting "labels" (toString labels.length) "at least 2 labels")
  checkNames [] labels
  return ⟨labels⟩

/-- The number of labels. -/
def cardinality (s : LabelSet) : Nat := s.labels.length

/-- The label at an index. -/
def name? (s : LabelSet) (index : Int) : Option String :=
  if 0 ≤ index then s.labels[index.toNat]? else none

/-- The display form of an index. -/
def display (s : LabelSet) (index : Int) : String :=
  if index = abstain then displayName abstainCode
  else ((s.name? index).map displayName).getD (toString index)

/-- The code names in index order. -/
def codeNames (s : LabelSet) : List String := s.labels.map fun l => codeName (trimText l)

/-- The index with a given code name. Labels are taken to be fewer than indices of
32 bits. -/
def indexOfCode? (s : LabelSet) (code : String) : Option Int :=
  if code = abstainCode then some abstain
  else (s.codeNames.findIdx? (· = code)).map Int.ofNat

/-- Whether an index is an abstention or that of a label. -/
def isOutcome (s : LabelSet) (index : Int) : Bool := index == abstain || (s.name? index).isSome

end LabelSet

end RuleVote
