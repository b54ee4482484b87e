import Mathlib.Data.List.Perm.Basic
import Mathlib.Data.List.Sort
import RuleVote.Proofs.Store.Directory
import RuleVote.Store.Memory
/-!
# Stores that answer alike

A sequence of calls is answered alike by a directory that was empty and by a
store in memory that was new, however often the directory is opened again in
between (`DirectoryStore.answersAcross_alike`). What carries the proof is that
the directory mirrors the memory (`DirectoryStore.Mirrors`): every file holds what
the memory holds for its name. Each call keeps this and is answered alike
(`DirectoryStore.Mirrors.answer`).

Results of one moment may come in another order from a directory, which lists
them by the names of their files and not by when they were saved.
-/

namespace RuleVote

open Decoder RecordDecoder

/-! ## Calls -/

/-- A call of a store. -/
inductive StoreCall where
  /-- A rule set is saved. -/
  | saveRules (name : String) (rules : List Rule)
  /-- A gold label is entered. -/
  | upsertGold (label : GoldLabel)
  /-- A result is saved. -/
  | saveResult (result : LabelingResult)
  /-- The rules of a rule set are wanted. -/
  | rules (name : String)
  /-- The gold labels of a task are wanted. -/
  | goldLabels (task : String)
  /-- The results for a rule set are wanted. -/
  | results (name : String)
deriving Repr

/-- What a call that succeeds is answered with. -/
inductive StoreAnswer where
  /-- Nothing, as something was kept. -/
  | done
  /-- Rules. -/
  | rules (rules : List Rule)
  /-- Gold labels. -/
  | goldLabels (labels : List GoldLabel)
  /-- Results. -/
  | results (results : List LabelingResult)
deriving DecidableEq, Repr

namespace StoreCall

variable {σ : Type}

/-- The answer of a call that keeps something, with the store after it: a call
that fails leaves the store as it was. -/
def kept (s : σ) : Except Failure σ → Except Failure StoreAnswer × σ
  | .ok s' => (.ok .done, s')
  | .error f => (.error f, s)

variable [LabelStore σ]

/-- The answer to a call, with the store after it. -/
def answer (s : σ) : StoreCall → Except Failure StoreAnswer × σ
  | saveRules name rs => kept s (LabelStore.saveRules s name rs)
  | upsertGold label => kept s (LabelStore.upsertGold s label)
  | saveResult result => kept s (LabelStore.saveResult s result)
  | rules name => (.rules <$> LabelStore.rules s name, s)
  | goldLabels task => (.goldLabels <$> LabelStore.goldLabels s task, s)
  -- the directory lists its files in another order, so the results agree up to theirs
  | results name => (.results <$> LabelStore.results s name, s)

/-- The answers to calls one after another. -/
def answers (s : σ) : List StoreCall → List (Except Failure StoreAnswer)
  | [] => []
  | call :: calls => (call.answer s).1 :: answers (call.answer s).2 calls

/-- The store after calls one after another. -/
def after (s : σ) (calls : List StoreCall) : σ := calls.foldl (fun s call => (call.answer s).2) s

/-- Calls are answered one after the other. -/
theorem answers_append (s : σ) (calls calls' : List StoreCall) :
    answers s (calls ++ calls') = answers s calls ++ answers (after s calls) calls' := by
  induction calls generalizing s with
  | nil => rfl
  | cons call calls ih => exact congrArg _ (ih _)

/-- The identifier of the result that is saved. -/
def savedId? : StoreCall → Option Uuid
  | saveResult r => some r.id
  | _ => none

/-- Names that are made file names are safe, labels fit 32 bits and counts 64,
and the numbers of a result are finite. -/
def Fits : StoreCall → Prop
  | saveRules name rs => DirectoryStore.isSafe name = true ∧
      ∀ r ∈ rs, IsLabel r.whenTrue ∧ IsLabel r.whenFalse
  | upsertGold label => DirectoryStore.isSafe label.task = true ∧ IsLabel label.label
  | saveResult r => r.Representable ∧ r.Finite
  | rules name => DirectoryStore.isSafe name = true
  | goldLabels task => DirectoryStore.isSafe task = true
  | results _ => True

instance : DecidablePred Fits := fun call => by
  cases call <;> unfold Fits <;> infer_instance

end StoreCall

/-- Two stores answer alike: with the same, or with the same results where only
those of one moment may stand in another order. -/
def StoreAnswer.Alike : Except Failure StoreAnswer → Except Failure StoreAnswer → Prop
  | .ok (.results rs), .ok (.results rs') =>
    rs.Perm rs' ∧ rs.map LabelingResult.moment = rs'.map LabelingResult.moment
  | a, b => a = b

/-! ## Results in order -/

/-- Moments of the same rank are the same. -/
theorem Moment.rank_injective {a b : Moment} (h : a.rank = b.rank) : a = b := by
  have hday : ∀ d : Date, d.day ≤ 31 := by
    intro d
    have hle : daysInMonth d.year d.month ≤ 31 := by
      unfold daysInMonth
      split_ifs <;> decide
    exact d.valid.2.2.2.trans hle
  have hnanos : ∀ m : Moment, m.nanos < 2 * nanosPerSecond := by
    intro m
    have hpos : 0 < nanosPerSecond := by decide
    rcases m.nanos_lt with hplain | ⟨-, hleap⟩ <;> omega
  have hsecond : a.second < 86400 ∧ b.second < 86400 := ⟨a.second_lt, b.second_lt⟩
  have hmonth := And.intro a.date.valid.2.1 b.date.valid.2.1
  have hfirst := And.intro a.date.valid.2.2.1 b.date.valid.2.2.1
  have hlast := And.intro (hday a.date) (hday b.date)
  have hlt := And.intro (hnanos a) (hnanos b)
  obtain ⟨⟨year, month, day, _⟩, second, nanos, _, _⟩ := a
  obtain ⟨⟨year', month', day', _⟩, second', nanos', _, _⟩ := b
  simp only [rank, secondsPerDay, nanosPerSecond] at *
  obtain ⟨rfl, rfl, rfl, rfl, rfl⟩ :
      year = year' ∧ month = month' ∧ day = day' ∧ second = second' ∧ nanos = nanos' := by
    omega
  rfl

/-- The moments of results in order do not hang on the order the results were in. -/
theorem map_moment_inOrder {rs rs' : List LabelingResult} (h : rs.Perm rs') :
    (inOrder rs).map LabelingResult.moment = (inOrder rs').map LabelingResult.moment := by
  have hsorted : ∀ rs : List LabelingResult, ((inOrder rs).map LabelingResult.moment).Pairwise
      fun a b => a.rank ≤ b.rank := by
    intro rs
    refine List.pairwise_map.2 (List.Pairwise.imp (fun h => of_decide_eq_true h)
      (List.pairwise_mergeSort ?_ ?_ rs))
    · simp only [decide_eq_true_eq]
      exact fun a b c => le_trans
    · simp only [Bool.or_eq_true, decide_eq_true_eq]
      exact fun a b => le_total _ _
  have hperm : ((inOrder rs).map LabelingResult.moment).Perm
      ((inOrder rs').map LabelingResult.moment) :=
    (((List.mergeSort_perm _ _).trans h).trans (List.mergeSort_perm _ _).symm).map _
  exact hperm.eq_of_pairwise (fun a b _ _ hab hba => Moment.rank_injective (le_antisymm hab hba))
    (hsorted rs) (hsorted rs')

/-! ## Gold labels -/

namespace GoldLabel

variable {n : Nat}

/-- A gold label whose label fits 32 bits is recalled. -/
theorem recalls {g : GoldLabel} (h : IsLabel g.label) : goldLabel.Recalls (n + 1) g.toJson g := by
  have hid := recalls_string (n := n) g.id
  have hitem := recalls_string (n := n) g.item
  have hlabel := recalls_index (n := n) h
  have hcontributor := recalls_string (n := n) g.contributor
  have htask := recalls_string (n := n) g.task
  obtain ⟨id, item, label, contributor, task⟩ := g
  refine recalls_record fun frame => ⟨_, _, (recalls_pure GoldLabel.mk).field hid |>.field hitem
    |>.field hlabel |>.field hcontributor |>.field htask, fun hread => ?_⟩
  simp [hread hid, hread hitem, hread hlabel, hread hcontributor, hread htask, and_assoc]

/-- Gold labels are read from their text. -/
theorem decodeText_pretty {gold : List GoldLabel} (h : ∀ g ∈ gold, IsLabel g.label) :
    decodeText (list goldLabel) (Json.ofList toJson gold).pretty = .ok gold :=
  (recalls_list fun g hg => recalls (n := 0) (h g hg)).decodeText_pretty (by decide)
    (singles_ofList_eq_nil (fun _ => rfl) gold)

variable {new g : GoldLabel} {gold : List GoldLabel}

/-- A label that is entered is entered among those of its task. -/
theorem filter_upsert_self : (new.upsert gold).filter (fun g => g.task = new.task) =
    new.upsert (gold.filter fun g => g.task = new.task) := by
  induction gold with
  | nil => simp [upsert]
  | cons g gold ih =>
    by_cases htask : g.task = new.task
    · rw [List.filter_cons_of_pos (by simpa using htask), upsert, upsert]
      split
      · rw [List.filter_cons_of_pos (by simpa using htask)]
      · rw [List.filter_cons_of_pos (by simpa using htask), ih]
    · have hsame : g.isForSame new = false := by simp [isForSame, htask]
      rw [List.filter_cons_of_neg (by simpa using htask), upsert, hsame, if_neg Bool.false_ne_true,
        List.filter_cons_of_neg (by simpa using htask), ih]

/-- The labels of another task stay. -/
theorem filter_upsert_of_ne {task : String} (h : task ≠ new.task) :
    (new.upsert gold).filter (fun g => g.task = task) = gold.filter fun g => g.task = task := by
  induction gold with
  | nil => simp [upsert, h.symm]
  | cons g gold ih =>
    rw [upsert]
    split
    · next hsame =>
      have htask : g.task = new.task := by
        simp only [isForSame, Bool.and_eq_true, beq_iff_eq] at hsame
        exact hsame.1
      rw [List.filter_cons_of_neg (by simpa [htask] using h.symm),
        List.filter_cons_of_neg (by simpa [htask] using h.symm)]
    · rw [List.filter_cons, List.filter_cons, ih]

/-- A gold label that is kept is the new one or one of the old. -/
theorem label_of_mem_upsert (h : g ∈ new.upsert gold) : g.label = new.label ∨ g ∈ gold := by
  induction gold with
  | nil =>
    rw [upsert, List.mem_singleton] at h
    exact .inl (h ▸ rfl)
  | cons g' gold ih =>
    rw [upsert] at h
    split at h
    · rcases List.mem_cons.1 h with rfl | hmem
      · exact .inl rfl
      · exact .inr (List.mem_cons_of_mem _ hmem)
    · rcases List.mem_cons.1 h with rfl | hmem
      · exact .inr List.mem_cons_self
      · exact (ih hmem).imp_right (List.mem_cons_of_mem _)

end GoldLabel

namespace DirectoryStore

/-! ## What a write leaves -/

variable {s : DirectoryStore} {place : Place}

/-- Writing into one folder leaves the names in any other. -/
theorem names_write_of_ne {text : String} {folder : Folder} (h : place.folder ≠ folder) :
    (s.write place text).names folder = s.names folder := by
  have hkept : ((s.write place text).files.filter fun file => file.1.folder = folder) =
      s.files.filter fun file => file.1.folder = folder := by
    rw [write, List.filter_cons_of_neg (by simpa using h), List.filter_filter]
    refine List.filter_congr fun file _ => ?_
    by_cases hfolder : file.1.folder = folder
    · have hplace : file.1 ≠ place := by
        rintro rfl
        exact h hfolder
      simp [hfolder, hplace]
    · simp [hfolder]
  rw [names, names, hkept]

/-- No name is in a folder twice. -/
theorem nodup_names (folder : Folder) : (s.names folder).Nodup :=
  (SortedSet.ascending_ofList _).nodup

/-! ## A directory that mirrors a memory -/

/-- Every file of the directory holds what the memory holds for its name. -/
structure Mirrors (d : DirectoryStore) (m : MemoryStore) : Prop where
  rules : ∀ name, d.load? (list rule) ⟨.ruleSets, name ++ suffix⟩ = .ok (m.ruleSets.lookup name)
  gold : ∀ task, d.loadGold ⟨.gold, task ++ suffix⟩ = .ok (m.gold.filter fun g => g.task = task)
  labels : ∀ g ∈ m.gold, IsLabel g.label
  names : (d.names .results).Perm (m.results.map fun r => (resultPlace r).name)
  results : ∀ r ∈ m.results, ∀ name,
    d.loadResult name (resultPlace r).name = .ok (if r.ruleSet = name then some r else none)

/-- An empty directory mirrors an empty memory. -/
theorem mirrors_empty : empty.Mirrors MemoryStore.empty where
  rules _ := rfl
  gold _ := rfl
  labels _ hg := absurd hg List.not_mem_nil
  names := List.Perm.refl []
  results _ hr := absurd hr List.not_mem_nil

theorem place_of_isSafe {folder : Folder} {id : String} (h : isSafe id = true) :
    DirectoryStore.place folder id = .ok ⟨folder, id ++ suffix⟩ := if_pos h

/-- Files of different names are different. -/
theorem append_suffix_ne {id id' : String} (h : id ≠ id') : id ++ suffix ≠ id' ++ suffix :=
  fun heq => h ((String.append_left_inj suffix).1 heq)

namespace Mirrors

variable {d : DirectoryStore} {m : MemoryStore}

/-! ### What is kept -/

/-- **Saving rules on both sides keeps the mirror**, as do the other calls that write. -/
theorem saveRules (h : d.Mirrors m) {name : String} {rules : List Rule}
    (hrules : ∀ r ∈ rules, IsLabel r.whenTrue ∧ IsLabel r.whenFalse) :
    (d.withRules name rules).Mirrors (m.withRules name rules) where
  rules name' := by
    show _ = Except.ok (List.lookup name' ((name, rules) :: _))
    rw [List.lookup_cons]
    by_cases hname : name' = name
    · rw [hname, beq_self_eq_true]
      exact load?_write_self (Rule.decodeText_pretty hrules)
    · have hplace : (⟨.ruleSets, name' ++ suffix⟩ : Place) ≠ ⟨.ruleSets, name ++ suffix⟩ :=
        fun heq => append_suffix_ne hname (congrArg Place.name heq)
      rw [beq_false_of_ne hname, withRules, load?_write_of_ne hplace, h.rules]
      exact congrArg Except.ok (lookup_filter_ne hname).symm
  gold task := by
    rw [loadGold, withRules, load?_write_of_ne (by simp)]
    exact h.gold task
  labels := h.labels
  names := by
    rw [withRules, names_write_of_ne (by simp)]
    exact h.names
  results r hr name' := by
    rw [loadResult, withRules, load?_write_of_ne (by simp)]
    exact h.results r hr name'

theorem upsertGold (h : d.Mirrors m) {label : GoldLabel} (hlabel : IsLabel label.label) :
    (d.write ⟨.gold, label.task ++ suffix⟩ (Json.ofList GoldLabel.toJson
      (label.upsert (m.gold.filter fun g => g.task = label.task))).pretty).Mirrors
      { m with gold := label.upsert m.gold } where
  rules name := by
    rw [load?_write_of_ne (by simp)]
    exact h.rules name
  gold task := by
    by_cases htask : task = label.task
    · have hfits : ∀ g ∈ label.upsert (m.gold.filter fun g => g.task = label.task),
          IsLabel g.label := by
        intro g hg
        rcases GoldLabel.label_of_mem_upsert hg with heq | hmem
        · exact heq ▸ hlabel
        · exact h.labels g (List.mem_of_mem_filter hmem)
      rw [htask, loadGold, load?_write_self (GoldLabel.decodeText_pretty hfits),
        GoldLabel.filter_upsert_self]
      rfl
    · have hplace : (⟨.gold, task ++ suffix⟩ : Place) ≠ ⟨.gold, label.task ++ suffix⟩ :=
        fun heq => append_suffix_ne htask (congrArg Place.name heq)
      rw [loadGold, load?_write_of_ne hplace, GoldLabel.filter_upsert_of_ne htask]
      exact h.gold task
  labels g hg := by
    rcases GoldLabel.label_of_mem_upsert hg with heq | hmem
    · exact heq ▸ hlabel
    · exact h.labels g hmem
  names := by
    rw [names_write_of_ne (by simp)]
    exact h.names
  results r hr name := by
    rw [loadResult, load?_write_of_ne (by simp)]
    exact h.results r hr name

/-- Results of different identifiers are in different files. -/
theorem name_resultPlace_ne {r r' : LabelingResult} (h : r.id ≠ r'.id) :
    (resultPlace r).name ≠ (resultPlace r').name := by
  refine append_suffix_ne fun htext => h (Option.some.inj ?_)
  rw [← Uuid.ofText?_text, ← Uuid.ofText?_text, htext]

theorem saveResult (h : d.Mirrors m) {r : LabelingResult} (hnew : ∀ r' ∈ m.results, r'.id ≠ r.id)
    (hback : (ArchivedResult.ofResult r).result = .ok r) :
    (d.withResult r).Mirrors { m with results := m.results ++ [r] } where
  rules name := by
    rw [withResult, load?_write_of_ne (by simp [resultPlace])]
    exact h.rules name
  gold task := by
    rw [loadGold, withResult, load?_write_of_ne (by simp [resultPlace])]
    exact h.gold task
  labels := h.labels
  names := by
    have hbefore : (m.results.map fun r => (resultPlace r).name).Nodup :=
      h.names.nodup_iff.1 (nodup_names .results)
    have hfresh : (resultPlace r).name ∉ m.results.map fun r => (resultPlace r).name := by
      intro hmem
      obtain ⟨r', hr', heq⟩ := List.mem_map.1 hmem
      exact name_resultPlace_ne (hnew r' hr') heq
    have hafter : ((m.results ++ [r]).map fun r => (resultPlace r).name).Nodup := by
      rw [List.map_append, List.map_singleton, List.nodup_append_comm]
      exact List.nodup_cons.2 ⟨hfresh, hbefore⟩
    refine (List.perm_ext_iff_of_nodup (nodup_names .results) hafter).2 fun file => ?_
    rw [mem_names_withResult, h.names.mem_iff, List.map_append, List.mem_append,
      List.map_singleton, List.mem_singleton, or_comm]
  results r' hr' name := by
    rcases List.mem_append.1 hr' with hmem | hmem
    · rw [loadResult_withResult_of_ne (name_resultPlace_ne (hnew r' hmem))]
      exact h.results r' hmem name
    · obtain rfl := List.mem_singleton.1 hmem
      rw [loadResult_withResult, hback]
      split
      · rfl
      · rfl

/-! ### What is answered -/

/-- **Both sides give the same rules**, and the same answers to the other calls that read. -/
theorem rules_eq (h : d.Mirrors m) {name : String} (hname : isSafe name = true) :
    LabelStore.rules d name = LabelStore.rules m name := by
  show (DirectoryStore.place .ruleSets name >>= fun p => d.load? (list rule) p >>= _) = _
  rw [place_of_isSafe hname]
  show d.load? (list rule) _ >>= _ = _
  rw [h.rules name]
  cases hlookup : m.ruleSets.lookup name with
  | none =>
    simp only [LabelStore.rules, hlookup]
    rfl
  | some rules =>
    simp only [LabelStore.rules, hlookup]
    rfl

theorem goldLabels_eq (h : d.Mirrors m) {task : String} (htask : isSafe task = true) :
    LabelStore.goldLabels d task = LabelStore.goldLabels m task := by
  show (DirectoryStore.place .gold task >>= d.loadGold) = _
  rw [place_of_isSafe htask]
  exact h.gold task

theorem upsertGold_eq (h : d.Mirrors m) {label : GoldLabel} (htask : isSafe label.task = true) :
    LabelStore.upsertGold d label = .ok (d.write ⟨.gold, label.task ++ suffix⟩
      (Json.ofList GoldLabel.toJson
        (label.upsert (m.gold.filter fun g => g.task = label.task))).pretty) := by
  show (DirectoryStore.place .gold label.task >>= fun p => d.loadGold p >>= fun gold =>
    .ok (d.write p (Json.ofList GoldLabel.toJson (label.upsert gold)).pretty)) = _
  rw [place_of_isSafe htask]
  show (d.loadGold _ >>= _) = _
  rw [h.gold label.task]
  rfl

/-- The results of the directory are those of the memory, and the moments stand
in the same order. -/
theorem results_perm (h : d.Mirrors m) (name : String) :
    ∃ rs, LabelStore.results d name = .ok rs ∧
      ∃ rs', LabelStore.results m name = .ok rs' ∧ rs.Perm rs' ∧
        rs.map LabelingResult.moment = rs'.map LabelingResult.moment := by
  have hown : (d.names .results).filter isOwn = d.names .results := by
    refine List.filter_eq_self.2 fun file hfile => ?_
    obtain ⟨r, -, rfl⟩ := List.mem_map.1 (h.names.mem_iff.1 hfile)
    exact isOwn_resultPlace r
  have hloads : List.Forall₂ (fun file found => d.loadResult name file = .ok found)
      (m.results.map fun r => (resultPlace r).name)
      (m.results.map fun r => if r.ruleSet = name then some r else none) := by
    rw [List.forall₂_map_left_iff, List.forall₂_map_right_iff, List.forall₂_same]
    exact fun r hr => h.results r hr name
  obtain ⟨found, hfound, hperm⟩ := List.perm_comp_forall₂ h.names hloads
  have hkept : found.filterMap id |>.Perm (m.results.filter fun r => r.ruleSet = name) := by
    refine (hperm.filterMap id).trans (.of_eq ?_)
    rw [List.filterMap_map, ← List.filterMap_eq_filter]
    refine List.filterMap_congr fun r _ => ?_
    simp [Option.guard]
  refine ⟨_, results_eq_ok_iff.2 ⟨found, ?_, rfl⟩, _, rfl, ?_, map_moment_inOrder hkept⟩
  · rw [hown]
    exact mapM_eq_ok_iff.2 hfound
  · exact ((List.mergeSort_perm _ _).trans hkept).trans (List.mergeSort_perm _ _).symm

/-! ### A call and a sequence of calls -/

/-- **A call is answered alike, and the directory goes on mirroring the memory.** -/
theorem answer (h : d.Mirrors m) {call : StoreCall} (hfits : call.Fits)
    (hnew : ∀ id ∈ call.savedId?, ∀ r ∈ m.results, r.id ≠ id) :
    StoreAnswer.Alike (call.answer d).1 (call.answer m).1 ∧
      (call.answer d).2.Mirrors (call.answer m).2 := by
  cases call with
  | saveRules name rules =>
    obtain ⟨hname, hrules⟩ := hfits
    have hstep : StoreCall.answer d (.saveRules name rules) = (.ok .done, d.withRules name rules) :=
      congrArg (StoreCall.kept d) (saveRules_eq d hname rules)
    rw [hstep]
    exact ⟨rfl, h.saveRules hrules⟩
  | upsertGold label =>
    obtain ⟨htask, hlabel⟩ := hfits
    have hstep := congrArg (StoreCall.kept d) (h.upsertGold_eq htask)
    rw [show StoreCall.answer d (.upsertGold label) = _ from hstep]
    exact ⟨rfl, h.upsertGold hlabel⟩
  | saveResult r =>
    obtain ⟨hr, hfinite⟩ := hfits
    have hstep : StoreCall.answer d (.saveResult r) = (.ok .done, d.withResult r) :=
      congrArg (StoreCall.kept d) (saveResult_eq d r)
    have hback := (ArchivedResult.result_ofResult_iff hr r.exact).2 hfinite
    rw [hstep]
    exact ⟨rfl, h.saveResult (hnew r.id rfl) hback⟩
  | rules name =>
    refine ⟨?_, h⟩
    show StoreAnswer.Alike (.rules <$> LabelStore.rules d name) (.rules <$> LabelStore.rules m name)
    rw [h.rules_eq hfits]
    cases LabelStore.rules m name with
    | error f => rfl
    | ok rules => rfl
  | goldLabels task =>
    refine ⟨?_, h⟩
    show StoreAnswer.Alike (.goldLabels <$> LabelStore.goldLabels d task)
      (.goldLabels <$> LabelStore.goldLabels m task)
    rw [h.goldLabels_eq hfits]
    rfl
  | results name =>
    refine ⟨?_, h⟩
    obtain ⟨rs, hd, rs', hm, hsame⟩ := h.results_perm name
    show StoreAnswer.Alike (.results <$> LabelStore.results d name)
      (.results <$> LabelStore.results m name)
    rw [hd, hm]
    exact hsame

/-- The memory keeps the identifiers of the results that are saved. -/
theorem ids_answer (m : MemoryStore) (call : StoreCall) :
    (call.answer m).2.results.map LabelingResult.id =
      m.results.map LabelingResult.id ++ call.savedId?.toList := by
  cases call with
  | saveResult r => exact List.map_append
  | _ => exact (List.append_nil _).symm

/-- **Both sides give the same answers** to all calls that fit. -/
theorem answers (h : d.Mirrors m) {calls : List StoreCall} (hfits : ∀ call ∈ calls, call.Fits)
    (hids : (m.results.map LabelingResult.id ++ calls.filterMap StoreCall.savedId?).Nodup) :
    List.Forall₂ StoreAnswer.Alike (StoreCall.answers d calls) (StoreCall.answers m calls) := by
  induction calls generalizing d m with
  | nil => exact .nil
  | cons call calls ih =>
    obtain ⟨hcall, hcalls⟩ := List.forall_mem_cons.1 hfits
    have hnew : ∀ id ∈ call.savedId?, ∀ r ∈ m.results, r.id ≠ id := by
      rintro id hid r hr rfl
      rw [List.filterMap_cons, Option.mem_def.1 hid] at hids
      exact List.disjoint_of_nodup_append hids (List.mem_map_of_mem hr) List.mem_cons_self
    obtain ⟨halike, hafter⟩ := h.answer hcall hnew
    refine .cons halike (ih hafter hcalls ?_)
    rw [ids_answer, List.append_assoc]
    cases hid : call.savedId? with
    | none => rwa [List.filterMap_cons, hid] at hids
    | some id => rwa [List.filterMap_cons, hid] at hids

end Mirrors

/-! ## Opened again -/

/-- The answers of a directory with the given files to calls, where it is opened
again after each list of them: all that is left of it then is its files. -/
def answersAcross (files : List (Place × String)) :
    List (List StoreCall) → List (Except Failure StoreAnswer)
  | [] => []
  | calls :: rest =>
    StoreCall.answers (⟨files⟩ : DirectoryStore) calls ++
      answersAcross (StoreCall.after (⟨files⟩ : DirectoryStore) calls).files rest

/-- Opening the directory again changes no answer. -/
theorem answersAcross_eq (files : List (Place × String)) (calls : List (List StoreCall)) :
    answersAcross files calls = StoreCall.answers (⟨files⟩ : DirectoryStore) calls.flatten := by
  induction calls generalizing files with
  | nil => rfl
  | cons first rest ih => rw [List.flatten_cons, StoreCall.answers_append, answersAcross, ih]

/-- **The stores are interchangeable**: calls are answered alike by a directory that
was empty, opened again after each list of them, and by a new store in memory that
gets all of them one after another. -/
theorem answersAcross_alike {calls : List (List StoreCall)}
    (hfits : ∀ call ∈ calls.flatten, call.Fits)
    (hids : (calls.flatten.filterMap StoreCall.savedId?).Nodup) :
    List.Forall₂ StoreAnswer.Alike (answersAcross empty.files calls)
      (StoreCall.answers MemoryStore.empty calls.flatten) := by
  rw [answersAcross_eq]
  exact mirrors_empty.answers hfits hids

/-- Two results of one moment, one saved before and one after the directory is
opened again, which lists them by their identifiers. -/
theorem answersAcross_alike_twice :
    let rules : List Rule := [⟨"noisy", none, "noise > 0.5", 1, 0⟩]
    let gold : GoldLabel := ⟨"g", "a", 1, "reviewer", "quality"⟩
    let moment : Moment := ⟨⟨2026, 1, 1, by decide⟩, 0, 0, by decide, by decide⟩
    let score : Score := ⟨3, some 0.5, none, none⟩
    let result (digit : Fin 16) : LabelingResult :=
      ⟨⟨List.replicate 32 digit, rfl⟩, "first", "quality", moment, ["noisy"],
        ⟨.standard, .standard, ["noise"]⟩, ⟨[⟨"a", 1, 1, 0, some 1⟩], [], [], ⟨[], 1, 0, 0⟩⟩,
        ⟨score, score, score, ⟨0, 0, none, none, none, none⟩⟩⟩
    let calls : List (List StoreCall) :=
      [[.saveRules "first" rules, .upsertGold gold, .saveResult (result 1), .rules "second"],
        [.upsertGold { gold with label := 0 }, .saveResult (result 0), .results "first",
          .goldLabels "quality", .rules "first"]]
    (∀ call ∈ calls.flatten, call.Fits) ∧ (calls.flatten.filterMap StoreCall.savedId?).Nodup ∧
      List.Forall₂ StoreAnswer.Alike (answersAcross empty.files calls)
        (StoreCall.answers MemoryStore.empty calls.flatten) := by
  intro rules gold moment score result calls
  have hfits : ∀ call ∈ calls.flatten, call.Fits := by decide +kernel
  have hids : (calls.flatten.filterMap StoreCall.savedId?).Nodup := by decide +kernel
  exact ⟨hfits, hids, answersAcross_alike hfits hids⟩

end DirectoryStore

end RuleVote
