import RuleVote.Proofs.Sequence
import RuleVote.Proofs.Store.Archive
import RuleVote.Store.Directory
/-!
# Results kept in a directory

A file that is written is read as it was written, and the others stay
(`DirectoryStore.read?_write_self`, `DirectoryStore.read?_write_of_ne`). A rule
set is read as it was saved (`DirectoryStore.rules_withRules`). A result is always
saved, under a name that is its own (`DirectoryStore.saveResult_eq`), and listed
with its rule set exactly if it reads back from its archive
(`DirectoryStore.mem_results_withResult_iff`). If it cannot be taken apart at all,
no result of the rule set can be listed any more
(`DirectoryStore.exists_results_withResult_iff`).
-/

namespace RuleVote

open Decoder RecordDecoder

/-! ## Rules -/

/-- A rule whose labels fit 32 bits is recalled. -/
theorem Rule.recalls {n : Nat} {r : Rule} (htrue : IsLabel r.whenTrue)
    (hfalse : IsLabel r.whenFalse) : rule.Recalls (n + 1) r.toJson r := by
  have hid := recalls_string (n := n) r.id
  have hexpression := recalls_string (n := n) r.expression
  have hwhenTrue := recalls_index (n := n) htrue
  have hwhenFalse := recalls_index (n := n) hfalse
  obtain ⟨id, name, expression, whenTrue, whenFalse⟩ := r
  cases name with
  | none =>
    refine recalls_record fun frame => ⟨_, _, (recalls_pure Rule.mk).field hid |>.absent
      |>.field hexpression |>.field hwhenTrue |>.field hwhenFalse, fun hread => ?_⟩
    simp [hread hid, hread hexpression, hread hwhenTrue, hread hwhenFalse, and_assoc]
  | some name =>
    have hname : (nullable string).Recalls n (.string name) (some name) :=
      recalls_nullable (f := Json.string) (o := some name) (fun _ h => by cases h)
        fun s _ => recalls_string s
    refine recalls_record fun frame => ⟨_, _, (recalls_pure Rule.mk).field hid |>.field hname
      |>.field hexpression |>.field hwhenTrue |>.field hwhenFalse, fun hread => ?_⟩
    simp [hread hid, hread hname, hread hexpression, hread hwhenTrue, hread hwhenFalse, and_assoc]

/-- Rules whose labels fit 32 bits are read back. -/
theorem Rule.decodeText_pretty {rules : List Rule}
    (h : ∀ r ∈ rules, IsLabel r.whenTrue ∧ IsLabel r.whenFalse) :
    decodeText (list rule) (Json.ofList Rule.toJson rules).pretty = .ok rules := by
  have hnone : (Json.ofList Rule.toJson rules).singles = [] := by
    refine singles_ofList_eq_nil (fun r => ?_) rules
    obtain ⟨_, _ | _, _, _, _⟩ := r <;> rfl
  have hrecalls := recalls_list fun r hr => Rule.recalls (n := 0) (h r hr).1 (h r hr).2
  exact hrecalls.decodeText_pretty (by decide) hnone

/-! ## Entries -/

/-- Dropping the entries of a key leaves those of any other. -/
theorem lookup_filter_ne {α β : Type} [DecidableEq α] {entries : List (α × β)} {key other : α}
    (h : other ≠ key) : (entries.filter fun entry => entry.1 ≠ key).lookup other =
      entries.lookup other := by
  induction entries with
  | nil => rfl
  | cons entry entries ih =>
    obtain ⟨k, b⟩ := entry
    by_cases hk : k = key
    · rw [List.filter_cons_of_neg (by simpa using hk), ih, List.lookup_cons,
        beq_false_of_ne (hk ▸ h)]
    · rw [List.filter_cons_of_pos (by simpa using hk), List.lookup_cons, List.lookup_cons, ih]

namespace DirectoryStore

variable {s : DirectoryStore} {place : Place} {text : String}

/-! ## Files -/

/-- A file that is written is read. -/
theorem read?_write_self : (s.write place text).read? place = some text := by
  simp [read?, write]

/-- Writing a file leaves any other. -/
theorem read?_write_of_ne {other : Place} (h : other ≠ place) :
    (s.write place text).read? other = s.read? other := by
  rw [read?, write, List.lookup_cons, beq_false_of_ne h]
  exact lookup_filter_ne h

/-- A document that is written and can be decoded is loaded. -/
theorem load?_write_self {α : Type} {decoder : Decoder α} {j : Json} {a : α}
    (h : decodeText decoder j.pretty = .ok a) :
    (s.write place j.pretty).load? decoder place = .ok (some a) := by
  rw [load?, read?_write_self]
  show some <$> decode _ _ = _
  rw [decode, h]
  rfl

theorem load?_write_of_ne {α : Type} {decoder : Decoder α} {other : Place} (h : other ≠ place) :
    (s.write place text).load? decoder other = s.load? decoder other := by
  rw [load?, load?, read?_write_of_ne h]

theorem mem_names {folder : Folder} {name : String} :
    name ∈ s.names folder ↔ ∃ text, (⟨folder, name⟩, text) ∈ s.files := by
  rw [names, SortedSet.mem_ofList]
  constructor
  · intro h
    obtain ⟨⟨p, text⟩, hfile, rfl⟩ := List.mem_map.1 h
    obtain ⟨hmem, hfolder⟩ := List.mem_filter.1 hfile
    obtain rfl : p.folder = folder := of_decide_eq_true hfolder
    exact ⟨text, hmem⟩
  · rintro ⟨text, hmem⟩
    exact List.mem_map.2 ⟨_, List.mem_filter.2 ⟨hmem, decide_eq_true rfl⟩, rfl⟩

/-- The names after writing are the old ones and the new one. -/
theorem mem_names_write {folder : Folder} {name : String} :
    name ∈ (s.write place text).names folder ↔
      place = ⟨folder, name⟩ ∨ name ∈ s.names folder := by
  rw [mem_names, mem_names, write]
  by_cases h : place = ⟨folder, name⟩
  · exact iff_of_true ⟨text, by rw [h]; exact List.mem_cons_self⟩ (.inl h)
  · simp [h, Ne.symm h]

/-! ## The file of a rule set -/

/-- The directory with the file of a rule set. -/
def withRules (s : DirectoryStore) (name : String) (rules : List Rule) : DirectoryStore :=
  s.write ⟨.ruleSets, name ++ suffix⟩ (Json.ofList Rule.toJson rules).pretty

/-- Rules are saved under every safe name. -/
theorem saveRules_eq (s : DirectoryStore) {name : String} (hname : isSafe name = true)
    (rules : List Rule) : LabelStore.saveRules s name rules = .ok (s.withRules name rules) := by
  show (place .ruleSets name >>= fun p =>
    .ok (s.write p (Json.ofList Rule.toJson rules).pretty)) = _
  rw [DirectoryStore.place, if_pos hname]
  rfl

/-- **A rule set is read as it was saved.** -/
theorem rules_withRules (s : DirectoryStore) {name : String} (hname : isSafe name = true)
    {rules : List Rule} (h : ∀ r ∈ rules, IsLabel r.whenTrue ∧ IsLabel r.whenFalse) :
    LabelStore.rules (s.withRules name rules) name = .ok rules := by
  have hload : (s.withRules name rules).load? (list rule) ⟨.ruleSets, name ++ suffix⟩ =
      .ok (some rules) := load?_write_self (Rule.decodeText_pretty h)
  show (place .ruleSets name >>= fun p => (s.withRules name rules).load? (list rule) p >>= _) = _
  rw [DirectoryStore.place, if_pos hname]
  show (s.withRules name rules).load? (list rule) _ >>= _ = _
  rw [hload]
  rfl

/-! ## The file of a result -/

/-- The text of an identifier is safe as a name of a file. -/
theorem isSafe_uuid (u : Uuid) : isSafe u.text = true := by
  have hdigit : ∀ d : Fin 16, isSafeChar (Json.hexDigit d) = true ∧ Json.hexDigit d ≠ '.' := by
    decide
  have hsafe : ∀ c ∈ u.text.toList, isSafeChar c = true ∧ c ≠ '.' := by
    intro c hc
    rcases Uuid.of_mem_text hc with rfl | ⟨d, rfl⟩
    · decide
    · exact hdigit d
  have hlength : u.text.toList.length = 36 := u.length_text
  have hempty : u.text.isEmpty = false := by
    rw [String.isEmpty_eq_false_iff]
    intro h
    rw [h] at hlength
    cases hlength
  have hall : u.text.toList.all isSafeChar = true := List.all_eq_true.2 fun c hc => (hsafe c hc).1
  have hhead : u.text.toList.head? ≠ some '.' := fun h =>
    (hsafe '.' (List.mem_of_head? h)).2 rfl
  simp [isSafe, hempty, hall, hhead]

/-- The place of a result. -/
def resultPlace (r : LabelingResult) : Place := ⟨.results, r.id.text ++ suffix⟩

theorem isOwn_resultPlace (r : LabelingResult) : isOwn (resultPlace r).name = true := by
  have hlength : r.id.text.length = 36 := r.id.length_text
  rw [resultPlace, isOwn, Bool.and_eq_true, decide_eq_true_eq, List.isSuffixOf_iff_suffix,
    String.toList_append, String.length_append]
  exact ⟨List.suffix_append _ _, by omega⟩

/-- The directory with the file of a result. -/
def withResult (s : DirectoryStore) (r : LabelingResult) : DirectoryStore :=
  s.write (resultPlace r) (ArchivedResult.ofResult r).toJson.pretty

/-- **A result can always be saved.** -/
theorem saveResult_eq (s : DirectoryStore) (r : LabelingResult) :
    LabelStore.saveResult s r = .ok (s.withResult r) := by
  show (place .results r.id.text >>= fun p =>
    .ok (s.write p (ArchivedResult.ofResult r).toJson.pretty)) = _
  rw [DirectoryStore.place, if_pos (isSafe_uuid r.id)]
  rfl

/-- Saving a result adds its file. -/
theorem mem_names_withResult {r : LabelingResult} {file : String} :
    file ∈ (s.withResult r).names .results ↔
      file = (resultPlace r).name ∨ file ∈ s.names .results := by
  rw [withResult, mem_names_write, resultPlace, Place.mk.injEq, eq_comm (a := file)]
  exact or_congr_left (and_iff_right rfl)

/-- The file of a result is taken apart for its rule set only. -/
theorem loadResult_withResult (s : DirectoryStore) (r : LabelingResult) (name : String) :
    (s.withResult r).loadResult name (resultPlace r).name =
      if r.ruleSet = name then some <$> (ArchivedResult.ofResult r).result.mapError .document
      else .ok none := by
  have hload : (s.withResult r).load? .archivedResult (resultPlace r) =
      .ok (some (ArchivedResult.ofResult r)) :=
    load?_write_self (ArchivedResult.decodeText_pretty _)
  rw [loadResult, show (⟨.results, (resultPlace r).name⟩ : Place) = resultPlace r from rfl, hload]
  rfl

/-- The file of a result holds what its archive holds. -/
theorem loadResult_withResult_self {r : LabelingResult} {found : Option LabelingResult} :
    (s.withResult r).loadResult r.ruleSet (resultPlace r).name = .ok found ↔
      ∃ r', (ArchivedResult.ofResult r).result = .ok r' ∧ some r' = found := by
  rw [loadResult_withResult, if_pos rfl]
  constructor
  · intro h
    cases hresult : (ArchivedResult.ofResult r).result with
    | ok r' =>
      rw [hresult] at h
      exact ⟨r', rfl, Except.ok.inj h⟩
    | error f =>
      rw [hresult] at h
      cases h
  · rintro ⟨r', hresult, rfl⟩
    rw [hresult]
    rfl

/-- The other files stay. -/
theorem loadResult_withResult_of_ne {r : LabelingResult} {name file : String}
    (h : file ≠ (resultPlace r).name) :
    (s.withResult r).loadResult name file = s.loadResult name file := by
  have hplace : (⟨.results, file⟩ : Place) ≠ resultPlace r := fun heq => h (congrArg Place.name heq)
  rw [loadResult, loadResult, withResult, load?_write_of_ne hplace]

/-! ## The results of a rule set -/

/-- **Results are there if and only if every file can be loaded**; they are in the order
of their moments. -/
theorem results_eq_ok_iff {name : String} {rs : List LabelingResult} :
    LabelStore.results s name = .ok rs ↔ ∃ found,
      ((s.names .results).filter isOwn).mapM (s.loadResult name) = .ok found ∧
        inOrder (found.filterMap id) = rs := by
  refine bind_eq_ok_iff.trans (exists_congr fun found => and_congr_right fun _ => ?_)
  exact ⟨Except.ok.inj, congrArg Except.ok⟩

theorem exists_results_iff {name : String} : (∃ rs, LabelStore.results s name = .ok rs) ↔
    ∀ file ∈ s.names .results, isOwn file = true → ∃ found, s.loadResult name file = .ok found := by
  have hfiles : (∃ rs, LabelStore.results s name = .ok rs) ↔
      ∃ found, ((s.names .results).filter isOwn).mapM (s.loadResult name) = .ok found := by
    simp only [results_eq_ok_iff]
    exact ⟨fun ⟨_, found, h, _⟩ => ⟨found, h⟩, fun ⟨found, h⟩ => ⟨_, found, h, rfl⟩⟩
  rw [hfiles, exists_mapM_eq_ok_iff]
  simp only [List.mem_filter, and_imp]

/-- A result is listed if and only if it is loaded from a file. -/
theorem mem_results_iff {name : String} {rs : List LabelingResult} {r : LabelingResult}
    (h : LabelStore.results s name = .ok rs) : r ∈ rs ↔
      ∃ file ∈ s.names .results, isOwn file = true ∧ s.loadResult name file = .ok (some r) := by
  obtain ⟨found, hfound, rfl⟩ := results_eq_ok_iff.1 h
  rw [inOrder, List.mem_mergeSort, List.mem_filterMap]
  simp only [mem_mapM_iff hfound, List.mem_filter, and_assoc, id, exists_eq_right]

/-- **The results of a rule set can be read after one more is saved** exactly if
this one can. -/
theorem exists_results_withResult_iff {r : LabelingResult} {rs : List LabelingResult}
    (h : LabelStore.results s r.ruleSet = .ok rs) :
    (∃ rs', LabelStore.results (s.withResult r) r.ruleSet = .ok rs') ↔
      ∃ r', (ArchivedResult.ofResult r).result = .ok r' := by
  have hbefore := exists_results_iff.1 ⟨rs, h⟩
  have hself : (∃ found, (s.withResult r).loadResult r.ruleSet (resultPlace r).name = .ok found) ↔
      ∃ r', (ArchivedResult.ofResult r).result = .ok r' := by
    simp only [loadResult_withResult_self]
    exact ⟨fun ⟨_, r', hr', _⟩ => ⟨r', hr'⟩, fun ⟨r', hr'⟩ => ⟨_, r', hr', rfl⟩⟩
  rw [exists_results_iff, ← hself]
  constructor
  · intro hafter
    exact hafter _ (mem_names_withResult.2 (.inl rfl)) (isOwn_resultPlace r)
  · intro hresult file hfile hown
    by_cases hname : file = (resultPlace r).name
    · exact hname ▸ hresult
    · rw [loadResult_withResult_of_ne hname]
      exact hbefore file ((mem_names_withResult.1 hfile).resolve_left hname) hown

/-- **A result is among those of its rule set after it is saved** exactly if it
reads back from its archive, unless it has been there before. -/
theorem mem_results_withResult_iff {r : LabelingResult} {rs : List LabelingResult}
    (h : LabelStore.results s r.ruleSet = .ok rs) (hnew : r ∉ rs) :
    (∃ rs', LabelStore.results (s.withResult r) r.ruleSet = .ok rs' ∧ r ∈ rs') ↔
      (ArchivedResult.ofResult r).result = .ok r := by
  have hself : (s.withResult r).loadResult r.ruleSet (resultPlace r).name = .ok (some r) ↔
      (ArchivedResult.ofResult r).result = .ok r := by
    simp only [loadResult_withResult_self, Option.some.injEq, exists_eq_right]
  constructor
  · rintro ⟨rs', hafter, hmem⟩
    obtain ⟨file, hfile, hown, hload⟩ := (mem_results_iff hafter).1 hmem
    by_cases hname : file = (resultPlace r).name
    · exact hself.1 (hname ▸ hload)
    · rw [loadResult_withResult_of_ne hname] at hload
      have hfile := (mem_names_withResult.1 hfile).resolve_left hname
      exact absurd ((mem_results_iff h).2 ⟨file, hfile, hown, hload⟩) hnew
  · intro hresult
    obtain ⟨rs', hafter⟩ := (exists_results_withResult_iff h).2 ⟨r, hresult⟩
    exact ⟨rs', hafter, (mem_results_iff hafter).2 ⟨(resultPlace r).name,
      mem_names_withResult.2 (.inl rfl), isOwn_resultPlace r, hself.2 hresult⟩⟩

end DirectoryStore

end RuleVote
