/-!
# Sorted maps

A finite map kept as the list of its entries in strictly ascending order of
their keys, which is also the order in which it is printed. What stands under
a key is found with `List.lookup`.
-/

namespace RuleVote

namespace SortedMap

variable {κ ν : Type} [LT κ] [DecidableLT κ] [DecidableEq κ]

/-- What stands under a key changed. A key that is not there is put at its
place, with what is made of nothing. -/
def upsert (k : κ) (f : Option ν → ν) : List (κ × ν) → List (κ × ν)
  | [] => [(k, f none)]
  | (l, v) :: entries =>
    if k < l then (k, f none) :: (l, v) :: entries
    else if k = l then (l, f (some v)) :: entries
    else (l, v) :: upsert k f entries

end SortedMap

end RuleVote
