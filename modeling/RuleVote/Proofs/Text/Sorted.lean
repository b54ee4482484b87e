import Mathlib.Algebra.BigOperators.Group.List.Basic
import Mathlib.Order.Defs.Unbundled
import RuleVote.Text.SortedMap
import RuleVote.Text.SortedSet
/-!
# Sorted sets and maps ascend

The operations on sorted sets keep their lists strictly ascending, so no member
is in one twice (`SortedSet.Ascending.nodup`).

A change under one key keeps the keys of a sorted map strictly ascending
(`SortedMap.Ascending.upsert`) and is seen under this key only
(`SortedMap.Ascending.lookup_upsert`). A sum over all entries grows by what the
change adds to the one (`SortedMap.sum_upsert`), and is taken apart at one key
(`SortedMap.Ascending.sum_eq_filter_add`).
-/

namespace RuleVote

/-! ## Sets -/

namespace SortedSet

variable {α : Type} [LT α] {s : SortedSet α}

/-- The members stand in strictly ascending order. -/
def Ascending (s : SortedSet α) : Prop := s.toList.Pairwise (· < ·)

instance [DecidableLT α] (s : SortedSet α) : Decidable s.Ascending :=
  inferInstanceAs (Decidable (s.toList.Pairwise (· < ·)))

theorem Ascending.nodup [Std.Irrefl (α := α) (· < ·)] (h : s.Ascending) : s.toList.Nodup := by
  refine List.Pairwise.imp ?_ h
  rintro a _ hlt rfl
  exact Std.Irrefl.irrefl a hlt

theorem ascending_empty : (empty : SortedSet α).Ascending := .nil

variable [DecidableLT α] [Std.Trichotomous (α := α) (· < ·)] [IsTrans α (· < ·)]

/-- Inserting keeps the order. -/
theorem pairwise_insertList (a : α) {as : List α} (h : as.Pairwise (· < ·)) :
    (insertList a as).Pairwise (· < ·) := by
  induction as with
  | nil => exact List.pairwise_singleton _ a
  | cons b as ih =>
    obtain ⟨hb, has⟩ := List.pairwise_cons.1 h
    rw [insertList]
    split
    · next hab =>
      refine List.pairwise_cons.2 ⟨List.forall_mem_cons.2 ⟨hab, fun c hc => ?_⟩, h⟩
      exact IsTrans.trans _ _ _ hab (hb c hc)
    · split
      · next hba =>
        refine List.pairwise_cons.2 ⟨fun c hc => ?_, ih has⟩
        rcases mem_insertList.1 hc with rfl | hc
        · exact hba
        · exact hb c hc
      · exact h

theorem Ascending.insert (h : s.Ascending) (a : α) : (s.insert a).Ascending :=
  pairwise_insertList a h

theorem Ascending.insertAll (h : s.Ascending) (as : List α) : (s.insertAll as).Ascending :=
  List.foldlRecOn (motive := Ascending) as _ h fun _ hs a _ => hs.insert a

/-- A set of the members of a list is in order. -/
theorem ascending_ofList (as : List α) : (ofList as).Ascending := ascending_empty.insertAll as

theorem Ascending.union (h : s.Ascending) (t : SortedSet α) : (s.union t).Ascending :=
  h.insertAll t.toList

section

omit [Std.Trichotomous (α := α) (· < ·)]

variable [Std.Irrefl (α := α) (· < ·)]

/-- What is larger than all members is added behind them. -/
theorem insertList_of_lt {a : α} {as : List α} (h : ∀ b ∈ as, b < a) :
    insertList a as = as ++ [a] := by
  induction as with
  | nil => rfl
  | cons b as ih =>
    have hb := h b List.mem_cons_self
    have hnot : ¬ a < b := fun hab => Std.Irrefl.irrefl a (IsTrans.trans _ _ _ hab hb)
    rw [insertList, if_neg hnot, if_pos hb, ih fun c hc => h c (List.mem_cons_of_mem b hc),
      List.cons_append]

/-- **Members in order are inserted as they are.** -/
theorem insertAll_of_pairwise {as bs : List α} (h : (as ++ bs).Pairwise (· < ·)) :
    insertAll ⟨as⟩ bs = ⟨as ++ bs⟩ := by
  induction bs generalizing as with
  | nil => rw [List.append_nil]; rfl
  | cons b bs ih =>
    have hb : ∀ a ∈ as, a < b := fun a ha =>
      (List.pairwise_append.1 h).2.2 a ha b List.mem_cons_self
    rw [List.append_cons] at h ⊢
    rw [← ih h, ← insertList_of_lt hb]
    rfl

/-- **The members of a set in their order give the set.** -/
theorem Ascending.ofList_toList (h : s.Ascending) : ofList s.toList = s :=
  insertAll_of_pairwise h

end

end SortedSet

/-! ## Maps -/

namespace SortedMap

variable {κ ν : Type} [LT κ] {entries : List (κ × ν)} {k x : κ} {f : Option ν → ν}

/-- The keys stand in strictly ascending order. -/
def Ascending (entries : List (κ × ν)) : Prop := (entries.map Prod.fst).Pairwise (· < ·)

theorem ascending_nil : Ascending ([] : List (κ × ν)) := .nil

theorem ascending_cons {entry : κ × ν} : Ascending (entry :: entries) ↔
    (∀ e ∈ entries, entry.1 < e.1) ∧ Ascending entries := by
  rw [Ascending, List.map_cons, List.pairwise_cons, List.forall_mem_map]
  exact Iff.rfl

/-! ### Entries and keys -/

section

variable [DecidableEq κ] [Std.Irrefl (α := κ) (· < ·)]

omit [LT κ] [Std.Irrefl (α := κ) (· < ·)] in
theorem lookup_cons_of_ne {l : κ} (h : x ≠ l) (v : ν) :
    ((l, v) :: entries).lookup x = entries.lookup x := by
  rw [List.lookup_cons, beq_eq_false_iff_ne.2 h]

/-- Nothing stands under a key below all others. -/
theorem lookup_eq_none_of_lt (h : ∀ e ∈ entries, k < e.1) : entries.lookup k = none := by
  refine List.lookup_eq_none_iff.2 fun e he => ?_
  rw [bne_iff_ne]
  intro hk
  exact Std.Irrefl.irrefl k (hk.trans_gt (h e he))

/-- **An entry is what stands under its key.** -/
theorem Ascending.mem_iff (h : Ascending entries) {v : ν} :
    (k, v) ∈ entries ↔ entries.lookup k = some v := by
  induction entries with
  | nil => exact iff_of_false List.not_mem_nil nofun
  | cons entry entries ih =>
    obtain ⟨l, w⟩ := entry
    obtain ⟨hlt, htail⟩ := ascending_cons.1 h
    rw [List.mem_cons, Prod.mk.injEq, ih htail]
    by_cases hk : k = l
    · subst hk
      rw [lookup_eq_none_of_lt hlt, List.lookup_cons_self]
      simp [eq_comm]
    · rw [lookup_cons_of_ne hk w]
      simp [hk]

end

/-- **A sum over the entries is one over those of other keys** and what stands under
one key. -/
theorem Ascending.sum_eq_filter_add {M : Type} [AddCommMonoid M] [DecidableEq κ]
    [Std.Irrefl (α := κ) (· < ·)] (h : Ascending entries) (g : ν → M) (k : κ) :
    (entries.map fun e => g e.2).sum = ((entries.filter fun e => e.1 ≠ k).map fun e => g e.2).sum +
      (entries.lookup k).elim 0 g := by
  induction entries with
  | nil => exact (add_zero 0).symm
  | cons entry entries ih =>
    obtain ⟨l, v⟩ := entry
    obtain ⟨hl, htail⟩ := ascending_cons.1 h
    by_cases hk : k = l
    · subst hk
      have hothers : (entries.filter fun e => e.1 ≠ k) = entries :=
        List.filter_eq_self.2 fun e he => decide_eq_true fun heq =>
          Std.Irrefl.irrefl k (heq ▸ hl e he)
      rw [List.filter_cons_of_neg (by simp), hothers, List.lookup_cons_self, List.map_cons,
        List.sum_cons, add_comm]
      rfl
    · rw [List.filter_cons_of_pos (by simpa using Ne.symm hk), lookup_cons_of_ne hk, List.map_cons,
        List.map_cons, List.sum_cons, List.sum_cons, ih htail, add_assoc]

/-! ### Changed -/

variable [DecidableLT κ] [DecidableEq κ]

/-- The keys after an update are the old ones and the one updated. -/
theorem mem_keys_upsert : x ∈ (upsert k f entries).map Prod.fst ↔
    x = k ∨ x ∈ entries.map Prod.fst := by
  induction entries with
  | nil => simp [upsert]
  | cons entry entries ih =>
    obtain ⟨l, v⟩ := entry
    rw [upsert]
    split_ifs with hlt heq
    · exact List.mem_cons
    · subst heq
      simp
    · rw [List.map_cons, List.mem_cons, ih, List.map_cons, List.mem_cons, or_left_comm]

/-- **The keys go on ascending.** -/
theorem Ascending.upsert [IsTrans κ (· < ·)] [Std.Trichotomous (α := κ) (· < ·)]
    (h : Ascending entries) (k : κ) (f : Option ν → ν) : Ascending (upsert k f entries) := by
  induction entries with
  | nil => exact List.pairwise_singleton _ k
  | cons entry entries ih =>
    obtain ⟨l, v⟩ := entry
    obtain ⟨hl, htail⟩ := ascending_cons.1 h
    rw [SortedMap.upsert]
    split_ifs with hlt heq
    · refine ascending_cons.2 ⟨List.forall_mem_cons.2 ⟨hlt, fun e he => ?_⟩, h⟩
      exact IsTrans.trans _ _ _ hlt (hl e he)
    · exact ascending_cons.2 ⟨hl, htail⟩
    · have hgt : l < k := by
        by_contra hgt
        exact heq (Std.Trichotomous.trichotomous k l hlt hgt)
      refine ascending_cons.2 ⟨fun e he => ?_, ih htail⟩
      rcases mem_keys_upsert.1 (List.mem_map_of_mem he) with hk | hmem
      · exact hk ▸ hgt
      · obtain ⟨e', he', hkey⟩ := List.mem_map.1 hmem
        exact hkey ▸ hl e' he'

/-- **A change is seen under its key only.** -/
theorem Ascending.lookup_upsert [IsTrans κ (· < ·)] [Std.Irrefl (α := κ) (· < ·)]
    (h : Ascending entries) : (SortedMap.upsert k f entries).lookup x =
      if x = k then some (f (entries.lookup k)) else entries.lookup x := by
  have hself (l : κ) (v : ν) (rest : List (κ × ν)) : ((l, v) :: rest).lookup l = some v :=
    List.lookup_cons_self
  induction entries with
  | nil =>
    rw [SortedMap.upsert]
    split_ifs with hx
    · rw [hx, hself]
      rfl
    · rw [lookup_cons_of_ne hx]
  | cons entry entries ih =>
    obtain ⟨l, v⟩ := entry
    obtain ⟨hl, htail⟩ := ascending_cons.1 h
    rw [SortedMap.upsert]
    by_cases hlt : k < l
    · -- Past a larger key there is no entry of the key any more.
      have hnone : ((l, v) :: entries).lookup k = none :=
        lookup_eq_none_of_lt (List.forall_mem_cons.2 ⟨hlt, fun e he =>
          IsTrans.trans _ _ _ hlt (hl e he)⟩)
      rw [if_pos hlt, hnone]
      split_ifs with hx
      · rw [hx, hself]
      · rw [lookup_cons_of_ne hx]
    rw [if_neg hlt]
    by_cases heq : k = l
    · rw [if_pos heq, heq, hself]
      split_ifs with hx
      · rw [hx, hself]
      · rw [lookup_cons_of_ne hx, lookup_cons_of_ne hx]
    · rw [if_neg heq, lookup_cons_of_ne heq]
      by_cases hxl : x = l
      · rw [hxl, hself, hself, if_neg (Ne.symm heq)]
      · rw [lookup_cons_of_ne hxl, lookup_cons_of_ne hxl, ih htail]

/-- **A sum over the entries grows by what a change adds** to the one that it
concerns. -/
theorem sum_upsert {M : Type} [AddCommMonoid M] {g : ν → M} {d : M}
    (h : ∀ v? : Option ν, g (f v?) = v?.elim 0 g + d) :
    ((upsert k f entries).map fun e => g e.2).sum = (entries.map fun e => g e.2).sum + d := by
  induction entries with
  | nil => simp [upsert, h]
  | cons entry entries ih =>
    obtain ⟨l, v⟩ := entry
    rw [upsert]
    split_ifs
    · simp [h, add_comm]
    · simp [h, add_right_comm]
    · simp [ih, add_assoc]

end SortedMap

end RuleVote
