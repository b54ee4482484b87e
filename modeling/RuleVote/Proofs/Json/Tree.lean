import RuleVote.Json.Reader
import RuleVote.Json.Value
/-!
# The documents of values

What a JSON value becomes once its text is read: the same tree, with a frame
around every container (`Json.document`). A value whose containers nest no more
than so many levels deep (`Json.Plain`) can be read whole in every frame with
that much room (`Json.Plain.check`), and keeping it for later only changes the
frames (`Json.hold_document`).

Numbers that are not finite have no text of their own. Where a value is read
back depends on the single precision numbers in it, which `Json.singles` lists.
-/

namespace RuleVote

/-! ## Frames -/

namespace Frame

/-- The frame of a container inside one with the given frame. -/
def inner : Frame → Frame
  | .bracketed depth => .bracketed (depth + 1)
  | .open => .open
  | .held => .held

/-- So many containers, one inside the other, may be entered. -/
def Spans : Frame → Nat → Prop
  | .bracketed depth, levels => depth + levels ≤ Document.maxDepth + 1
  | .open, _ => True
  | .held, _ => True

variable {frame : Frame} {levels : Nat}

/-- A frame that spans one more level admits it. -/
theorem Spans.admits (h : frame.Spans (levels + 1)) : Document.admits frame = .ok () := by
  cases frame with
  | bracketed depth =>
    unfold Spans at h
    exact if_pos (by omega)
  | «open» => rfl
  | held => rfl

/-- Inside of a level there is one less to span. -/
theorem Spans.inner (h : frame.Spans (levels + 1)) : frame.inner.Spans levels := by
  cases frame with
  | bracketed depth =>
    unfold Spans at h
    unfold Frame.inner Spans
    omega
  | «open» => trivial
  | held => trivial

end Frame

namespace Json

/-! ## The document of a value -/

/-- The document of a number with the given text. -/
def numberDocument (text : List Char) : Document := ((JsonText.number text).read .number).1

mutual

/-- What the text of a value is read as. -/
def document : Frame → Json → Document
  | _, .null => .null
  | _, .bool b => .bool b
  | _, .integer i => numberDocument (intText i)
  | _, .single x =>
    match jsonSingleText? x with
    | some text => numberDocument text.toList
    | none => .null
  | _, .decimal negative d => numberDocument (scalarText (.decimal negative d))
  | _, .string s => .text (some s)
  | frame, .array items => .array frame (itemDocuments frame.inner items) none
  | frame, .object fields => .object frame (fieldDocuments frame.inner fields) none

/-- What the items of an array are read as. -/
def itemDocuments : Frame → List Json → List Document
  | _, [] => []
  | frame, item :: items => document frame item :: itemDocuments frame items

/-- What the fields of an object are read as. -/
def fieldDocuments : Frame → List (String × Json) → List (Document × Document)
  | _, [] => []
  | frame, (key, value) :: fields =>
    (.text (some key), document frame value) :: fieldDocuments frame fields

end

mutual

/-- The single precision numbers of a value, in the order of its text. -/
def singles : Json → List Float32
  | .single x => [x]
  | .array items => itemSingles items
  | .object fields => fieldSingles fields
  | _ => []

/-- The single precision numbers of the items of an array. -/
def itemSingles : List Json → List Float32
  | [] => []
  | item :: items => singles item ++ itemSingles items

/-- The single precision numbers of the fields of an object. -/
def fieldSingles : List (String × Json) → List Float32
  | [] => []
  | (_, value) :: fields => singles value ++ fieldSingles fields

end

variable {frame : Frame}

/-- The documents of items are those of each of them. -/
theorem itemDocuments_eq_map (frame : Frame) (items : List Json) :
    itemDocuments frame items = items.map (document frame) := by
  induction items with
  | nil => rfl
  | cons item items ih => rw [itemDocuments, ih, List.map_cons]

/-- An entry of an object. -/
def entryDocument (frame : Frame) (field : String × Json) : Document × Document :=
  (.text (some field.1), document frame field.2)

/-- The documents of fields are those of each of them. -/
theorem fieldDocuments_eq_map (frame : Frame) (fields : List (String × Json)) :
    fieldDocuments frame fields = fields.map (entryDocument frame) := by
  induction fields with
  | nil => rfl
  | cons field fields ih => rw [fieldDocuments, ih, List.map_cons, entryDocument]

/-- The numbers of items are those of each of them. -/
theorem mem_itemSingles {x : Float32} {items : List Json} :
    x ∈ itemSingles items ↔ ∃ item ∈ items, x ∈ item.singles := by
  induction items with
  | nil => simp [itemSingles]
  | cons item items ih => simp [itemSingles, ih]

/-- The numbers of fields are those of each of them. -/
theorem mem_fieldSingles {x : Float32} {fields : List (String × Json)} :
    x ∈ fieldSingles fields ↔ ∃ field ∈ fields, x ∈ field.2.singles := by
  induction fields with
  | nil => simp [fieldSingles]
  | cons field fields ih => simp [fieldSingles, ih]

/-! ## Values that are kept -/

theorem hold_numberDocument (text : List Char) :
    (numberDocument text).hold = numberDocument text := by
  unfold numberDocument
  cases JsonText.number text <;> rfl

mutual

/-- **Keeping a value for later only changes its frames.** -/
theorem hold_document : ∀ (frame : Frame) (j : Json),
    (j.document frame).hold = j.document .held
  | _, .null => rfl
  | _, .bool _ => rfl
  | _, .integer _ => hold_numberDocument _
  | _, .single x => by
    unfold document
    split
    · exact hold_numberDocument _
    · rfl
  | _, .decimal _ _ => hold_numberDocument _
  | _, .string _ => rfl
  | frame, .array items => by
    unfold document
    rw [Document.hold, hold_itemDocuments, Frame.inner]
  | frame, .object fields => by
    unfold document
    rw [Document.hold, hold_fieldDocuments, Frame.inner]

/-- Items are kept one by one, and so are fields. -/
theorem hold_itemDocuments : ∀ (frame : Frame) (items : List Json),
    Document.holdItems (itemDocuments frame items) = itemDocuments .held items
  | _, [] => rfl
  | frame, item :: items => by
    rw [itemDocuments, Document.holdItems, hold_document frame item,
      hold_itemDocuments frame items, itemDocuments]

theorem hold_fieldDocuments : ∀ (frame : Frame) (fields : List (String × Json)),
    Document.holdEntries (fieldDocuments frame fields) = fieldDocuments .held fields
  | _, [] => rfl
  | frame, (key, value) :: fields => by
    rw [fieldDocuments, Document.holdEntries, hold_document frame value,
      hold_fieldDocuments frame fields, fieldDocuments]

end

end Json

end RuleVote
