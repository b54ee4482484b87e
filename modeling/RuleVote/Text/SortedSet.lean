/-!
# Sorted sets

A finite set kept as the strictly ascending list of its members, which is
also the order in which it is printed. Strings are ordered by code point.
-/

namespace RuleVote

/-- A set as a list; the operations below keep it strictly ascending. -/
structure SortedSet (α : Type) where
  /-- The members in ascending order. -/
  toList : List α
deriving DecidableEq, Repr

namespace SortedSet

variable {α : Type} [LT α] [DecidableLT α]

/-- The set without members. -/
def empty : SortedSet α := ⟨[]⟩

instance : Inhabited (SortedSet α) := ⟨empty⟩

/-- A member put at its place in an ascending list, unless it is there. -/
def insertList (a : α) : List α → List α
  | [] => [a]
  | b :: rest =>
    if a < b then a :: b :: rest
    else if b < a then b :: insertList a rest
    else b :: rest

/-- The set with one more member. -/
def insert (s : SortedSet α) (a : α) : SortedSet α := ⟨insertList a s.toList⟩

/-- The set with every member of a list. -/
def insertAll (s : SortedSet α) (as : List α) : SortedSet α := as.foldl insert s

/-- The set of the members of a list. -/
def ofList (as : List α) : SortedSet α := insertAll empty as

/-- The members of either set. -/
def union (s t : SortedSet α) : SortedSet α := s.insertAll t.toList

/-- Whether the set has no member. -/
def isEmpty (s : SortedSet α) : Bool := s.toList.isEmpty

section

variable [Std.Trichotomous (α := α) (· < ·)]

theorem mem_insertList {x a : α} {as : List α} : x ∈ insertList a as ↔ x = a ∨ x ∈ as := by
  induction as with
  | nil => simp [insertList]
  | cons b as ih =>
    rw [insertList]
    split
    · exact List.mem_cons
    · next hlt =>
      split
      · rw [List.mem_cons, ih, List.mem_cons, or_left_comm]
      · next hgt =>
        -- neither is smaller, so the member to be put in is there
        have hab : a = b := Std.Trichotomous.trichotomous a b hlt hgt
        rw [hab, List.mem_cons, ← or_assoc, or_self]

@[simp] theorem mem_insert {x a : α} {s : SortedSet α} :
    x ∈ (s.insert a).toList ↔ x = a ∨ x ∈ s.toList := mem_insertList

@[simp] theorem mem_insertAll {x : α} {s : SortedSet α} {as : List α} :
    x ∈ (s.insertAll as).toList ↔ x ∈ s.toList ∨ x ∈ as := by
  induction as generalizing s with
  | nil => simp [insertAll]
  | cons a as ih =>
    have hstep : s.insertAll (a :: as) = (s.insert a).insertAll as := rfl
    rw [hstep, ih, mem_insert, List.mem_cons, or_comm (a := x = a), or_assoc]

/-- **The set of a list has the members of the list.** -/
@[simp] theorem mem_ofList {x : α} {as : List α} : x ∈ (ofList as).toList ↔ x ∈ as := by
  rw [ofList, mem_insertAll]
  simp [empty]

end

end SortedSet

end RuleVote
