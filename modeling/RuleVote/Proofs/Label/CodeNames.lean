import Mathlib.Data.List.Nodup
import RuleVote.Label.LabelSet
import RuleVote.Rule.Program
/-!
# What code names stand for

A return names an index or a code name. The labels of a task have different
code names, and no label has that of an abstention (`wellNamed_of_ofList`).
So a code name stands for one outcome at most (`Means.unique`), and it is
found exactly where it stands for one (`indexOfCode?_eq_some_iff`).
-/

namespace RuleVote

namespace LabelSet

/-- What a program stands for that reached this return, or none: an index for
itself, a code name for an abstention or for the one label that has it. -/
def Means (s : LabelSet) : Option ReturnTarget → Int → Prop
  | none, v => v = abstain
  | some (.index i), v => v = i
  | some (.label code), v =>
    code = abstainCode ∧ v = abstain ∨
      code ≠ abstainCode ∧ ∃ n : Nat, v = n ∧ ∀ m, s.codeNames[m]? = some code ↔ m = n

/-- A return that names no outcome: a code name that no label has, or an index
out of range. -/
def Unknown (s : LabelSet) : ReturnTarget → Prop
  | .index i => i ≠ abstain ∧ (i < 0 ∨ s.cardinality ≤ i)
  | .label code => code ≠ abstainCode ∧ code ∉ s.codeNames

theorem Means.unique {s : LabelSet} {reached : Option ReturnTarget} {v w : Int}
    (hv : s.Means reached v) (hw : s.Means reached w) : v = w := by
  match reached with
  | none => exact hv.trans hw.symm
  | some (.index i) => exact hv.trans hw.symm
  | some (.label code) =>
    rcases hv with ⟨hcode, rfl⟩ | ⟨hcode, n, rfl, hn⟩
    · rcases hw with ⟨-, rfl⟩ | ⟨hne, -⟩
      · rfl
      · exact absurd hcode hne
    · rcases hw with ⟨heq, -⟩ | ⟨-, m, rfl, hm⟩
      · exact absurd heq hcode
      · rw [(hm n).1 ((hn n).2 rfl)]

/-- The labels have different code names, and no label that of an
abstention. -/
structure WellNamed (s : LabelSet) : Prop where
  nodup : s.codeNames.Nodup
  abstain_notMem : abstainCode ∉ s.codeNames

theorem checkNames_cons {codes : List String} {label : String} {labels : List String}
    (h : checkNames codes (label :: labels) = .ok ()) :
    codeName (trimText label) ≠ abstainCode ∧ codeName (trimText label) ∉ codes ∧
      checkNames (codeName (trimText label) :: codes) labels = .ok () := by
  rw [checkNames] at h
  split_ifs at h with _ habstain hcodes
  exact ⟨habstain, fun hmem => hcodes (List.contains_iff_mem.2 hmem), h⟩

theorem codes_of_checkNames {labels : List String} : ∀ {codes : List String},
    checkNames codes labels = .ok () →
      (labels.map fun l => codeName (trimText l)).Nodup ∧
        ∀ code ∈ labels.map fun l => codeName (trimText l), code ≠ abstainCode ∧ code ∉ codes := by
  induction labels with
  | nil => exact fun _ => ⟨List.nodup_nil, fun code hcode => (List.not_mem_nil hcode).elim⟩
  | cons label labels ih =>
    intro codes h
    obtain ⟨habstain, hcodes, h⟩ := checkNames_cons h
    obtain ⟨hnodup, hall⟩ := ih h
    rw [List.map_cons, List.nodup_cons, List.forall_mem_cons]
    refine ⟨⟨fun hmem => (hall _ hmem).2 List.mem_cons_self, hnodup⟩, ⟨habstain, hcodes⟩, ?_⟩
    intro code hcode
    exact ⟨(hall code hcode).1, fun hmem => (hall code hcode).2 (List.mem_cons_of_mem _ hmem)⟩

/-- What was checked of the names of a label set. -/
theorem checked_of_ofList {names : List String} {s : LabelSet} (h : ofList names = .ok s) :
    s = ⟨names⟩ ∧ 2 ≤ names.length ∧ checkNames [] names = .ok () := by
  rw [ofList] at h
  split_ifs at h with hfew
  · cases h
  · obtain ⟨_, hcheck, h⟩ := bind_eq_ok_iff.1 h
    cases h
    exact ⟨rfl, Nat.not_lt.1 hfew, hcheck⟩

/-- **The labels of a task are well named.** -/
theorem wellNamed_of_ofList {names : List String} {s : LabelSet} (h : ofList names = .ok s) :
    s.WellNamed := by
  obtain ⟨rfl, -, hcheck⟩ := checked_of_ofList h
  obtain ⟨hnodup, hall⟩ := codes_of_checkNames hcheck
  exact ⟨hnodup, fun hmem => (hall _ hmem).1 rfl⟩

/-- **A task has two labels.** -/
theorem two_le_of_ofList {names : List String} {s : LabelSet} (h : ofList names = .ok s) :
    2 ≤ s.cardinality := by
  obtain ⟨rfl, htwo, -⟩ := checked_of_ofList h
  exact htwo

/-- **A code name is found where it stands for something.** -/
theorem indexOfCode?_eq_some_iff {s : LabelSet} (hs : s.WellNamed) {code : String} {v : Int} :
    s.indexOfCode? code = some v ↔ s.Means (some (.label code)) v := by
  rw [indexOfCode?, Means]
  by_cases hcode : code = abstainCode
  · rw [if_pos hcode]
    constructor
    · intro h
      exact .inl ⟨hcode, (Option.some.inj h).symm⟩
    · rintro (⟨-, rfl⟩ | ⟨hne, -⟩)
      · rfl
      · exact absurd hcode hne
  · rw [if_neg hcode, Option.map_eq_some_iff]
    constructor
    · rintro ⟨n, hn, rfl⟩
      obtain ⟨hlt, hfound, -⟩ := List.findIdx?_eq_some_iff_getElem.1 hn
      refine .inr ⟨hcode, n, rfl, fun m => ?_⟩
      have hfound' : s.codeNames[n] = code := by simpa using hfound
      constructor
      · intro hm
        obtain ⟨hm, hat⟩ := List.getElem?_eq_some_iff.1 hm
        exact (hs.nodup.getElem_inj_iff).1 (hat.trans hfound'.symm)
      · rintro rfl
        exact List.getElem?_eq_some_iff.2 ⟨hlt, hfound'⟩
    · rintro (⟨heq, -⟩ | ⟨-, n, rfl, hn⟩)
      · exact absurd heq hcode
      · obtain ⟨hlt, hat⟩ := List.getElem?_eq_some_iff.1 ((hn n).2 rfl)
        refine ⟨n, List.findIdx?_eq_some_iff_getElem.2 ⟨hlt, by simpa using hat, ?_⟩, rfl⟩
        intro m hm hfound
        have hat' : s.codeNames[m]? = some code :=
          List.getElem?_eq_some_iff.2 ⟨by omega, by simpa using hfound⟩
        have := (hn m).1 hat'
        omega

/-! ## Outcomes -/

/-- The outcomes are the abstention and the labels. -/
theorem isOutcome_iff {s : LabelSet} {i : Int} :
    s.isOutcome i = true ↔ i = abstain ∨ 0 ≤ i ∧ i < s.cardinality := by
  rw [isOutcome, Bool.or_eq_true, beq_iff_eq, name?, cardinality]
  split_ifs with hi
  · rw [isSome_getElem?]
    omega
  · simp only [Option.isSome_none, Bool.false_eq_true, or_false]
    omega

/-- What a code name is found to be is an outcome. -/
theorem isOutcome_of_indexOfCode? {s : LabelSet} {code : String} {v : Int}
    (h : s.indexOfCode? code = some v) : s.isOutcome v = true := by
  rw [isOutcome_iff]
  rw [indexOfCode?] at h
  split_ifs at h with hcode
  · exact .inl (Option.some.inj h).symm
  · obtain ⟨n, hn, rfl⟩ := Option.map_eq_some_iff.1 h
    obtain ⟨hlt, -⟩ := List.findIdx?_eq_some_iff_getElem.1 hn
    rw [codeNames, List.length_map] at hlt
    exact .inr ⟨Int.natCast_nonneg n, Int.ofNat_lt.2 hlt⟩

/-- **A code name is found unless it is unknown.** -/
theorem exists_indexOfCode?_iff {s : LabelSet} {code : String} :
    (∃ v, s.indexOfCode? code = some v) ↔ ¬ s.Unknown (.label code) := by
  rw [indexOfCode?, Unknown, not_and_not_right]
  by_cases hcode : code = abstainCode
  · rw [if_pos hcode]
    exact ⟨fun _ hne => absurd hcode hne, fun _ => ⟨abstain, rfl⟩⟩
  · rw [if_neg hcode]
    constructor
    · rintro ⟨v, hv⟩ -
      obtain ⟨n, hn, -⟩ := Option.map_eq_some_iff.1 hv
      obtain ⟨hlt, hfound, -⟩ := List.findIdx?_eq_some_iff_getElem.1 hn
      have hcode' : s.codeNames[n] = code := by simpa using hfound
      exact hcode' ▸ List.getElem_mem hlt
    · intro h
      have hsome : (s.codeNames.findIdx? (· = code)).isSome = true := by
        rw [List.findIdx?_isSome, List.any_eq_true]
        exact ⟨code, h hcode, by simp⟩
      obtain ⟨n, hn⟩ := Option.isSome_iff_exists.1 hsome
      exact ⟨n, by rw [hn]; rfl⟩

end LabelSet

end RuleVote
