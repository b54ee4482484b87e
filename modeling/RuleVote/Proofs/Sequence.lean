import Mathlib.Data.List.Forall2
import RuleVote.Failure
/-!
# Computations over lists

A computation that is run on the members of a list one after another ends
at the first that fails (`mapM_eq_error_iff`). It succeeds exactly when all do,
and its results then stand in the order of the members (`mapM_eq_ok_iff`). Where
the steps of a computation commute, the order of the members makes no difference
(`foldlM_perm`).
-/

namespace RuleVote

variable {ε α β : Type} {f : α → Except ε β} {as : List α} {bs : List β}

theorem map_eq_ok_iff {x : Except ε α} {g : α → β} {b : β} :
    g <$> x = .ok b ↔ ∃ a, x = .ok a ∧ g a = b := by
  cases x with
  | error e =>
    constructor
    · intro h
      cases h
    · rintro ⟨a, h, -⟩
      cases h
  | ok a =>
    constructor
    · exact fun h => ⟨a, rfl, Except.ok.inj h⟩
    · rintro ⟨a', h, h'⟩
      cases h
      exact congrArg Except.ok h'

/-- What goes on alike from the value of a computation goes on alike. -/
theorem bind_congr_of_ok {x : Except ε α} {g : α → Except ε β} (h : ∀ a, x = .ok a → f a = g a) :
    (x >>= f) = (x >>= g) := by
  cases x with
  | error e => rfl
  | ok a => exact h a rfl

/-- **A computation over a list succeeds exactly when it does for every
member.** -/
theorem mapM_eq_ok_iff : as.mapM f = .ok bs ↔ List.Forall₂ (fun a b => f a = .ok b) as bs := by
  induction as generalizing bs with
  | nil =>
    rw [List.mapM_nil, List.forall₂_nil_left_iff]
    exact ⟨fun h => (Except.ok.inj h).symm, fun h => congrArg Except.ok h.symm⟩
  | cons a as ih =>
    rw [List.mapM_cons, List.forall₂_cons_left_iff, bind_eq_ok_iff]
    constructor
    · rintro ⟨b, hb, h⟩
      obtain ⟨bs', hbs, h⟩ := bind_eq_ok_iff.1 h
      exact ⟨b, bs', hb, ih.1 hbs, (Except.ok.inj h).symm⟩
    · rintro ⟨b, bs', hb, hbs, rfl⟩
      exact ⟨b, hb, bind_eq_ok_iff.2 ⟨bs', ih.2 hbs, rfl⟩⟩

/-- Every result is that of some member. -/
theorem exists_of_mem_mapM (h : as.mapM f = .ok bs) {b : β} (hb : b ∈ bs) :
    ∃ a ∈ as, f a = .ok b := by
  induction mapM_eq_ok_iff.1 h with
  | nil => cases hb
  | cons hab hrest ih =>
    rcases List.mem_cons.1 hb with rfl | hmem
    · exact ⟨_, List.mem_cons_self, hab⟩
    · obtain ⟨a, ha, hab'⟩ := ih (mapM_eq_ok_iff.2 hrest) hmem
      exact ⟨a, List.mem_cons_of_mem _ ha, hab'⟩

theorem mem_mapM_iff (h : as.mapM f = .ok bs) {b : β} : b ∈ bs ↔ ∃ a ∈ as, f a = .ok b := by
  refine ⟨exists_of_mem_mapM h, ?_⟩
  rintro ⟨a, ha, hab⟩
  induction mapM_eq_ok_iff.1 h with
  | nil => cases ha
  | @cons a' b' _ _ hab' hrest ih =>
    rcases List.mem_cons.1 ha with rfl | ha
    · cases hab.symm.trans hab'
      exact List.mem_cons_self
    · exact List.mem_cons_of_mem _ (ih (mapM_eq_ok_iff.2 hrest) ha)

/-- **What can be computed for every member can be computed for the list.** -/
theorem exists_mapM_eq_ok_iff : (∃ bs, as.mapM f = .ok bs) ↔ ∀ a ∈ as, ∃ b, f a = .ok b := by
  induction as with
  | nil => exact ⟨fun _ a ha => (List.not_mem_nil ha).elim, fun _ => ⟨[], rfl⟩⟩
  | cons a as ih =>
    rw [List.forall_mem_cons, ← ih]
    constructor
    · rintro ⟨bs, h⟩
      cases mapM_eq_ok_iff.1 h with
      | cons hb hbs => exact ⟨⟨_, hb⟩, _, mapM_eq_ok_iff.2 hbs⟩
    · rintro ⟨⟨b, hb⟩, bs, hbs⟩
      exact ⟨b :: bs, mapM_eq_ok_iff.2 (.cons hb (mapM_eq_ok_iff.1 hbs))⟩

/-- Members that give the same give the same results. -/
theorem mapM_congr {as' : List α} (h : List.Forall₂ (fun a a' => f a = f a') as as') :
    as.mapM f = as'.mapM f := by
  induction h with
  | nil => rfl
  | cons ha _ ih => rw [List.mapM_cons, List.mapM_cons, ha, ih]

/-- Computations that agree on the members agree on the list. -/
theorem mapM_congr_of_mem {g : α → Except ε β} (h : ∀ a ∈ as, f a = g a) :
    as.mapM f = as.mapM g := by
  induction as with
  | nil => rfl
  | cons a as ih =>
    obtain ⟨ha, has⟩ := List.forall_mem_cons.1 h
    rw [List.mapM_cons, List.mapM_cons, ha, ih has]

theorem length_of_mapM (h : as.mapM f = .ok bs) : bs.length = as.length :=
  (mapM_eq_ok_iff.1 h).length_eq.symm

/-- What every result has of its member, the results have of the members. -/
theorem map_of_mapM {γ : Type} {g : β → γ} {h : α → γ} (hm : as.mapM f = .ok bs)
    (hstep : ∀ a b, f a = .ok b → g b = h a) : bs.map g = as.map h := by
  induction mapM_eq_ok_iff.1 hm with
  | nil => rfl
  | cons hab hrest ih =>
    rw [List.map_cons, List.map_cons, hstep _ _ hab, ih (mapM_eq_ok_iff.2 hrest)]

/-- A result stands where its member stands. -/
theorem exists_getElem?_of_mapM (h : as.mapM f = .ok bs) {i : Nat} {b : β} (hb : bs[i]? = some b) :
    ∃ a, as[i]? = some a ∧ f a = .ok b := by
  obtain ⟨hi, rfl⟩ := List.getElem?_eq_some_iff.1 hb
  have hi' : i < as.length := length_of_mapM h ▸ hi
  exact ⟨as[i], List.getElem?_eq_getElem hi', (mapM_eq_ok_iff.1 h).get hi' hi⟩

/-- What is computed for every member with a property is computed for the list
with it. -/
theorem exists_mapM_forall {P : β → Prop} (h : ∀ a ∈ as, ∃ b, f a = .ok b ∧ P b) :
    ∃ bs, as.mapM f = .ok bs ∧ bs.length = as.length ∧ ∀ b ∈ bs, P b := by
  have hall : ∀ a ∈ as, ∃ b, f a = .ok b := by
    intro a ha
    obtain ⟨b, hb, -⟩ := h a ha
    exact ⟨b, hb⟩
  obtain ⟨bs, hbs⟩ := exists_mapM_eq_ok_iff.2 hall
  refine ⟨bs, hbs, length_of_mapM hbs, fun b hb => ?_⟩
  obtain ⟨a, ha, hab⟩ := exists_of_mem_mapM hbs hb
  obtain ⟨b', hab', hP⟩ := h a ha
  exact Except.ok.inj (hab'.symm.trans hab) ▸ hP

/-- What holds of every pair holds of what pairs are turned into. -/
theorem forall_mem_zipWith {γ : Type} {f : α → β → γ} {P : γ → Prop}
    (h : ∀ a ∈ as, ∀ b ∈ bs, P (f a b)) : ∀ c ∈ List.zipWith f as bs, P c := by
  rw [← List.map_uncurry_zip_eq_zipWith, List.forall_mem_map]
  rintro ⟨a, b⟩ hab
  exact h a (List.of_mem_zip hab).1 b (List.of_mem_zip hab).2

/-- **A step that keeps a property has a result with it** after all members. -/
theorem exists_foldlM_of_step {γ : Type} {step : γ → α → Except ε γ} {P : γ → Prop}
    (h : ∀ c, P c → ∀ a ∈ as, ∃ c', step c a = .ok c' ∧ P c') {c : γ} (hc : P c) :
    ∃ c', as.foldlM step c = .ok c' ∧ P c' := by
  induction as generalizing c with
  | nil => exact ⟨c, rfl, hc⟩
  | cons a as ih =>
    obtain ⟨c₁, hstep, hc₁⟩ := h c hc a List.mem_cons_self
    obtain ⟨c₂, hrest, hc₂⟩ := ih (fun c hc a ha => h c hc a (List.mem_cons_of_mem _ ha)) hc₁
    exact ⟨c₂, by rw [List.foldlM_cons]; exact bind_eq_ok_iff.2 ⟨c₁, hstep, hrest⟩, hc₂⟩

/-- What every step keeps is kept by all of them. -/
theorem of_foldlM {γ : Type} {step : γ → α → Except ε γ} {P : γ → Prop}
    (hstep : ∀ c a c', P c → a ∈ as → step c a = .ok c' → P c') {c c' : γ}
    (h : as.foldlM step c = .ok c') (hc : P c) : P c' := by
  induction as generalizing c with
  | nil =>
    obtain rfl : c = c' := Except.ok.inj h
    exact hc
  | cons a as ih =>
    rw [List.foldlM_cons] at h
    obtain ⟨c₁, ha, hrest⟩ := bind_eq_ok_iff.1 h
    exact ih (fun c b c' hP hb => hstep c b c' hP (List.mem_cons_of_mem _ hb)) hrest
      (hstep c a c₁ hc List.mem_cons_self ha)

/-- **Steps that commute may be taken in any order**, with the same failure
where there is one. -/
theorem foldlM_perm {γ : Type} {step : γ → α → Except ε γ}
    (hcomm : ∀ c a b, (step c a >>= fun c => step c b) = (step c b >>= fun c => step c a))
    {as bs : List α} (h : as.Perm bs) (c : γ) : as.foldlM step c = bs.foldlM step c := by
  induction h generalizing c with
  | nil => rfl
  | cons a _ ih =>
    rw [List.foldlM_cons, List.foldlM_cons]
    exact bind_congr ih
  | swap a b as =>
    simp only [List.foldlM_cons]
    rw [← bind_assoc, ← bind_assoc, hcomm]
  | trans _ _ ih₁ ih₂ => exact (ih₁ c).trans (ih₂ c)

/-! ## The first failure -/

/-- **Two computations one after the other** fail as the first of them, or as the
second where the first has a value. -/
theorem both_eq_error_iff {γ : Type} {x : Except ε α} {y : Except ε β} {g : α → β → γ} {e : ε} :
    (do let a ← x; let b ← y; return g a b) = .error e ↔
      x = .error e ∨ (∃ a, x = .ok a) ∧ y = .error e := by
  cases x with
  | error e' =>
    constructor
    · exact fun h => .inl (congrArg Except.error (Except.error.inj h))
    · rintro (h | ⟨⟨a, h⟩, -⟩)
      · exact congrArg Except.error (Except.error.inj h)
      · cases h
  | ok a =>
    cases y with
    | error e' =>
      constructor
      · exact fun h => .inr ⟨⟨a, rfl⟩, congrArg Except.error (Except.error.inj h)⟩
      · rintro (h | ⟨-, h⟩)
        · cases h
        · exact congrArg Except.error (Except.error.inj h)
    | ok b => exact iff_of_false nofun fun h => h.elim nofun fun h => nomatch h.2

/-- A computation fails for a member of a list, and for none before it. -/
def FailsFirst (f : α → Except ε β) (as : List α) (e : ε) : Prop :=
  ∃ before a after, as = before ++ a :: after ∧ (∀ b ∈ before, ∃ c, f b = .ok c) ∧ f a = .error e

variable {a : α} {e : ε}

theorem FailsFirst.exists_mem (h : FailsFirst f as e) : ∃ a ∈ as, f a = .error e := by
  obtain ⟨before, a, after, rfl, -, ha⟩ := h
  exact ⟨a, List.mem_append_right _ List.mem_cons_self, ha⟩

theorem failsFirst_cons_iff :
    FailsFirst f (a :: as) e ↔ f a = .error e ∨ (∃ b, f a = .ok b) ∧ FailsFirst f as e := by
  constructor
  · rintro ⟨before, a', after, has, hbefore, ha'⟩
    cases before with
    | nil =>
      obtain ⟨rfl, rfl⟩ := List.cons.inj has
      exact .inl ha'
    | cons b before =>
      obtain ⟨rfl, rfl⟩ := List.cons.inj has
      obtain ⟨ha, hbefore⟩ := List.forall_mem_cons.1 hbefore
      exact .inr ⟨ha, before, a', after, rfl, hbefore, ha'⟩
  · rintro (ha | ⟨ha, before, a', after, rfl, hbefore, ha'⟩)
    · exact ⟨[], a, as, rfl, nofun, ha⟩
    · exact ⟨a :: before, a', after, rfl, List.forall_mem_cons.2 ⟨ha, hbefore⟩, ha'⟩

/-- **A computation over a list fails as it does for the first member for which it
fails.** -/
theorem mapM_eq_error_iff : as.mapM f = .error e ↔ FailsFirst f as e := by
  induction as with
  | nil => exact iff_of_false nofun fun ⟨before, a, after, has, _⟩ =>
      List.append_ne_nil_of_right_ne_nil before (List.cons_ne_nil a after) has.symm
  | cons a as ih =>
    rw [List.mapM_cons, both_eq_error_iff, failsFirst_cons_iff, ← ih]

theorem mapM_append_eq_error_iff {as' : List α} : (as ++ as').mapM f = .error e ↔
    as.mapM f = .error e ∨ (∃ bs, as.mapM f = .ok bs) ∧ as'.mapM f = .error e := by
  rw [List.mapM_append, both_eq_error_iff]

end RuleVote
