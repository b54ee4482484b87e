import RuleVote.Failure
import RuleVote.Number.Single

/-!
# Documents as they are read

A reader of typed values meets the faults of a text in the order of the
text: a value of the wrong type comes before a missing bracket further
right. A `Document` therefore also stands for a text that is not
well-formed. It is the tree of everything up to the first fault, with a
tear (`torn`) in the place of the fault. Walking the tree in order and
stopping at the first thing that is wrong gives the fault that comes first.

Some parts are only faulty for a reader that wants their value: a number
out of range, an escape that spells no character, brackets nested too
deeply. A reader that skips the part passes over them.
-/

namespace RuleVote

/-- The value of a number in a document. -/
inductive Numeral where
  /-- A number written without point and exponent, in the range of 64 bit
  integers, signed or unsigned. -/
  | integer (value : Int)
  /-- Any other number. -/
  | real (value : Float)
  /-- A number beyond the range of double precision. -/
  | excessive

/-- Where a container comes from. It decides how deep containers may be
nested and what becomes of items that nobody reads. -/
inductive Frame where
  /-- JSON text, inside so many brackets; further items are a fault. -/
  | bracketed (depth : Nat)
  /-- A configuration, nested at will; further items are left alone. -/
  | open
  /-- A value that was read before its type was known, and fits no type with
  fewer items. -/
  | held
deriving DecidableEq, Repr

/-- The tree of a text up to its first fault. -/
inductive Document where
  | null
  | bool (value : Bool)
  | number (value : Numeral)
  /-- A string; `none` when one of its escapes spells no character. -/
  | text (content : Option String)
  /-- An array. `tail` is the fault met where a comma or the closing bracket
  should stand. -/
  | array (frame : Frame) (items : List Document) (tail : Option DocumentFault)
  /-- An object, its keys being documents themselves: `text`, `stray` or
  `torn`. -/
  | object (frame : Frame) (entries : List (Document × Document))
      (tail : Option DocumentFault)
  /-- Something that is not a string in the place of a key. -/
  | stray (value : Document)
  /-- The first fault of the text, for a reader that wants a value here, for
  one that skips it, and for one that wants a choice, which begins with a quote
  or a brace. -/
  | torn (wanted skipped chosen : DocumentFault)

namespace Document

instance : Inhabited Document := ⟨.null⟩

/-- The same fault for every reader. -/
def tear (fault : DocumentFault) : Document := .torn fault fault fault

/-- The deepest nesting of brackets that a reader of values accepts. -/
def maxDepth : Nat := 127

/-- Whether a container may be entered. -/
def admits : Frame → Except DocumentFault Unit
  | .bracketed depth => if depth ≤ maxDepth then .ok () else .error .malformed
  | .open => .ok ()
  | .held => .ok ()

/-- The fault after the last item of a container, if any. -/
def close : Option DocumentFault → Except DocumentFault Unit
  | none => .ok ()
  | some fault => .error fault

mutual

/-- Skips a value: only a tear stops a reader that does not want it. -/
def skip : Document → Except DocumentFault Unit
  | .torn _ skipped _ => .error skipped
  | .stray _ => .error .malformed
  | .array _ items tail => do skipItems items; close tail
  | .object _ entries tail => do skipEntries entries; close tail
  | _ => .ok ()

/-- Skips the items of an array. -/
def skipItems : List Document → Except DocumentFault Unit
  | [] => .ok ()
  | item :: items => do skip item; skipItems items

/-- Skips the entries of an object. -/
def skipEntries : List (Document × Document) → Except DocumentFault Unit
  | [] => .ok ()
  | (key, value) :: entries => do skip key; skip value; skipEntries entries

end

mutual

/-- Reads a value of any type: everything in it has to be readable. -/
def check : Document → Except DocumentFault Unit
  | .torn wanted _ _ => .error wanted
  | .stray _ => .error .malformed
  | .text none => .error .malformed
  | .number .excessive => .error .malformed
  | .array frame items tail => do admits frame; checkItems items; close tail
  | .object frame entries tail => do admits frame; checkEntries entries; close tail
  | _ => .ok ()

/-- Reads the items of an array. -/
def checkItems : List Document → Except DocumentFault Unit
  | [] => .ok ()
  | item :: items => do check item; checkItems items

/-- Reads the entries of an object. -/
def checkEntries : List (Document × Document) → Except DocumentFault Unit
  | [] => .ok ()
  | (key, value) :: entries => do check key; check value; checkEntries entries

end

mutual

/-- A value kept until its type is known. -/
def hold : Document → Document
  | .array _ items tail => .array .held (holdItems items) tail
  | .object _ entries tail => .object .held (holdEntries entries) tail
  | d => d

/-- The items of an array, each one kept. -/
def holdItems : List Document → List Document
  | [] => []
  | item :: items => hold item :: holdItems items

/-- The entries of an object, each one kept. -/
def holdEntries : List (Document × Document) → List (Document × Document)
  | [] => []
  | (key, value) :: entries => (key, hold value) :: holdEntries entries

end

/-- The fault of a value of the wrong type: a scalar is read to its end
first, a container is not entered. -/
def mismatch : Document → DocumentFault
  | .torn wanted _ _ => wanted
  | .stray _ => .malformed
  | .text none => .malformed
  | .number .excessive => .malformed
  | _ => .unfitting

end Document

end RuleVote
