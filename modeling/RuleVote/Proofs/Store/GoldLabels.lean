import RuleVote.Proofs.Store.Interchange
/-!
# The gold labels that stand

What the gold labels of a task are, whatever labels were entered for it and for
others in between: one for each item, in the order in which the items were first
entered, with the label and the contributor of the last time and the identifier of
the first (`GoldLabel.Standing`). Entering one more label keeps this
(`GoldLabel.Standing.upsert`). Both stores answer so (`gold_labels_last_write_wins`);
a directory refuses tasks that are no file names and then stays as it is, so it
mirrors a memory that never got their labels
(`DirectoryStore.mirrors_after_upserts`).
-/

namespace RuleVote

open Decoder

namespace GoldLabel

variable {entered gold : List GoldLabel} {new g : GoldLabel}

/-- What labels entered one after another make of those for one item. -/
structure IsEntry (entered : List GoldLabel) (g : GoldLabel) : Prop where
  /-- The identifier is that of the first label entered for the item. -/
  first : ∃ first, entered.find? (fun e => e.item = g.item) = some first ∧
    g.id = first.id ∧ g.task = first.task
  /-- The label and the contributor are those of the last one. -/
  last : ∃ last, entered.reverse.find? (fun e => e.item = g.item) = some last ∧
    g.label = last.label ∧ g.contributor = last.contributor

/-- The gold labels that stand after labels of one task were entered one after
another. -/
structure Standing (entered gold : List GoldLabel) : Prop where
  /-- There is one for each item, in the order in which the items were first entered. -/
  items : gold.map item = (entered.map item).eraseDups
  /-- There is only one for each item. -/
  nodup : (gold.map item).Nodup
  /-- Each is what the labels entered for its item make of it. -/
  entries : ∀ g ∈ gold, IsEntry entered g

/-! ## Entering one more label -/

/-- A label for an item that has none comes last. -/
theorem upsert_of_new (h : ∀ g ∈ gold, g.item ≠ new.item) : new.upsert gold = gold ++ [new] := by
  induction gold with
  | nil => rfl
  | cons g gold ih =>
    obtain ⟨hg, hgold⟩ := List.forall_mem_cons.1 h
    have hsame : g.isForSame new = false := by simp [isForSame, hg]
    rw [upsert, hsame, if_neg Bool.false_ne_true, ih hgold, List.cons_append]

/-- A label for an item that has one takes over its place and its identifier. -/
theorem upsert_of_old {before after : List GoldLabel} (h : ∀ g ∈ before, g.item ≠ new.item)
    (htask : g.task = new.task) (hitem : g.item = new.item) :
    new.upsert (before ++ g :: after) =
      before ++ { g with label := new.label, contributor := new.contributor } :: after := by
  induction before with
  | nil =>
    have hsame : g.isForSame new = true := by simp [isForSame, htask, hitem]
    rw [List.nil_append, upsert, if_pos hsame, List.nil_append]
  | cons b before ih =>
    obtain ⟨hb, hbefore⟩ := List.forall_mem_cons.1 h
    have hsame : b.isForSame new = false := by simp [isForSame, hb]
    rw [List.cons_append, upsert, hsame, if_neg Bool.false_ne_true, ih hbefore, List.cons_append]

/-- An entry stays where a label is entered for another item. -/
theorem IsEntry.stays (h : IsEntry entered g) (hitem : new.item ≠ g.item) :
    IsEntry (entered ++ [new]) g := by
  obtain ⟨⟨first, hfirst, hfirsts⟩, last, hlast, hlasts⟩ := h
  refine ⟨⟨first, ?_, hfirsts⟩, last, ?_, hlasts⟩
  · rw [List.find?_append, hfirst, Option.some_or]
  · rw [List.reverse_concat, List.find?_cons_of_neg (by simpa using hitem), hlast]

/-- A label for the same item takes over the entry. -/
theorem IsEntry.replaced (h : IsEntry entered g) (hitem : g.item = new.item) :
    IsEntry (entered ++ [new]) { g with label := new.label, contributor := new.contributor } := by
  obtain ⟨first, hfirst, hfirsts⟩ := h.first
  refine ⟨⟨first, ?_, hfirsts⟩, new, ?_, rfl, rfl⟩
  · rw [List.find?_append, hfirst, Option.some_or]
  · rw [List.reverse_concat, List.find?_cons_of_pos (by simpa using hitem.symm)]

/-- A label for a new item is its entry. -/
theorem isEntry_new (h : new.item ∉ entered.map item) : IsEntry (entered ++ [new]) new := by
  have hnone : entered.find? (fun e => e.item = new.item) = none := by
    refine List.find?_eq_none.2 fun e he heq => h ?_
    exact List.mem_map.2 ⟨e, he, of_decide_eq_true heq⟩
  refine ⟨⟨new, ?_, rfl, rfl⟩, new, ?_, rfl, rfl⟩
  · rw [List.find?_append, hnone, Option.none_or, List.find?_cons_of_pos (by simp)]
  · rw [List.reverse_concat, List.find?_cons_of_pos (by simp)]

namespace Standing

theorem nil : Standing [] [] where
  items := rfl
  nodup := List.nodup_nil
  entries _ h := absurd h List.not_mem_nil

/-- Items have a label if and only if one was entered for them. -/
theorem mem_items (h : Standing entered gold) {i : String} :
    i ∈ gold.map item ↔ i ∈ entered.map item := by
  rw [h.items, List.mem_eraseDups]

theorem task_eq (h : Standing entered gold) {task : String} (htask : ∀ e ∈ entered, e.task = task)
    (hg : g ∈ gold) : g.task = task := by
  obtain ⟨first, hfirst, -, hsame⟩ := (h.entries g hg).first
  exact hsame.trans (htask first (List.mem_of_find?_eq_some hfirst))

/-- A label for a new item is added behind the others. -/
theorem upsert_of_not_mem (h : Standing entered gold) (hitem : new.item ∉ gold.map item) :
    Standing (entered ++ [new]) (new.upsert gold) := by
  have hentered : new.item ∉ entered.map item := fun hmem => hitem (h.mem_items.2 hmem)
  have hall : [new.item].removeAll (entered.map item) = [new.item] := by
    rw [List.removeAll, List.filter_cons_of_pos (by simpa using hentered), List.filter_nil]
  have hother : ∀ g ∈ gold, new.item ≠ g.item := by
    intro g hg heq
    exact hitem (List.mem_map.2 ⟨g, hg, heq.symm⟩)
  rw [upsert_of_new fun g hg => (hother g hg).symm]
  refine ⟨?_, ?_, List.forall_mem_append.2 ⟨fun g hg => (h.entries g hg).stays (hother g hg), ?_⟩⟩
  · rw [List.map_append, List.map_append, List.eraseDups_append, List.map_singleton, hall, h.items]
    rfl
  · rw [List.map_append, List.map_singleton, List.nodup_append_comm]
    exact List.nodup_cons.2 ⟨hitem, h.nodup⟩
  · exact List.forall_mem_singleton.2 (isEntry_new hentered)

/-- A label for an old item takes the place of the former. -/
theorem upsert_of_mem (h : Standing entered gold) (htask : ∀ e ∈ entered, e.task = new.task)
    (hitem : new.item ∈ gold.map item) : Standing (entered ++ [new]) (new.upsert gold) := by
  obtain ⟨g, hg, hsame⟩ := List.mem_map.1 hitem
  have hentry := h.entries g hg
  have hnone : [new.item].removeAll (entered.map item) = [] := by
    rw [List.removeAll, List.filter_cons_of_neg (by simpa using h.mem_items.1 hitem),
      List.filter_nil]
  have htasks := h.task_eq htask hg
  obtain ⟨before, after, rfl⟩ := List.append_of_mem hg
  -- the entry for the item is the only one, so those on either side of it are for others
  have hnodup := h.nodup
  rw [List.map_append, List.map_cons, List.nodup_middle, List.nodup_cons, ← List.map_append]
    at hnodup
  have hother : ∀ g' ∈ before ++ after, new.item ≠ g'.item := by
    intro g' hg' heq
    exact hnodup.1 (List.mem_map.2 ⟨g', hg', (hsame.trans heq).symm⟩)
  have hstays : ∀ g' ∈ before ++ after, IsEntry (entered ++ [new]) g' := by
    intro g' hg'
    have hmem : g' ∈ before ++ g :: after := by
      rw [List.mem_append] at hg' ⊢
      exact hg'.imp_right (List.mem_cons_of_mem _)
    exact (h.entries g' hmem).stays (hother g' hg')
  obtain ⟨hbefore, hafter⟩ := List.forall_mem_append.1 hstays
  have hitems : (before ++ { g with label := new.label, contributor := new.contributor } ::
      after).map item = (before ++ g :: after).map item := by
    rw [List.map_append, List.map_append, List.map_cons, List.map_cons]
  rw [upsert_of_old (fun g' hg' => (hother g' (List.mem_append_left _ hg')).symm) htasks hsame]
  refine ⟨?_, hitems ▸ h.nodup, ?_⟩
  · rw [hitems, h.items, List.map_append, List.eraseDups_append, List.map_singleton, hnone,
      List.eraseDups_nil, List.append_nil]
  · exact List.forall_mem_append.2
      ⟨hbefore, List.forall_mem_cons.2 ⟨hentry.replaced hsame, hafter⟩⟩

/-- **Entering a label keeps one entry for each item**, the last label of the item
with its first identifier. -/
theorem upsert (h : Standing entered gold) (htask : ∀ e ∈ entered, e.task = new.task) :
    Standing (entered ++ [new]) (new.upsert gold) := by
  by_cases hitem : new.item ∈ gold.map item
  · exact h.upsert_of_mem htask hitem
  · exact h.upsert_of_not_mem hitem

/-- What stands is determined by what was entered. -/
theorem unique {gold' : List GoldLabel} (h : Standing entered gold) (h' : Standing entered gold') :
    gold = gold' := by
  have hitems : gold.map item = gold'.map item := h.items.trans h'.items.symm
  have hsame : ∀ g ∈ gold, ∀ g' ∈ gold', g.item = g'.item → g = g' := by
    intro g hg g' hg' hitem
    obtain ⟨⟨first, hfirst, hid, htask⟩, last, hlast, hlabel, hcontributor⟩ := h.entries g hg
    obtain ⟨⟨first', hfirst', hid', htask'⟩, last', hlast', hlabel', hcontributor'⟩ :=
      h'.entries g' hg'
    rw [hitem] at hfirst hlast
    obtain rfl : first = first' := Option.some.inj (hfirst.symm.trans hfirst')
    obtain rfl : last = last' := Option.some.inj (hlast.symm.trans hlast')
    cases g
    cases g'
    simp_all
  have hlength : gold.length = gold'.length := by
    rw [← List.length_map item, hitems, List.length_map]
  refine List.ext_getElem hlength fun i hi hi' => ?_
  refine hsame _ (List.getElem_mem hi) _ (List.getElem_mem hi') ?_
  rw [← List.getElem_map item (h := by rwa [List.length_map]),
    ← List.getElem_map item (h := by rwa [List.length_map])]
  exact List.getElem_of_eq hitems _

/-- The labels by item are the last ones entered. -/
theorem byItem_eq (h : Standing entered gold) (i : String) : byItem gold i = byItem entered i := by
  rw [byItem, byItem]
  cases hgold : gold.reverse.find? fun g => g.item = i with
  | none =>
    have hmissing : i ∉ entered.map item := by
      rw [← h.mem_items]
      intro hmem
      obtain ⟨g, hg, hitem⟩ := List.mem_map.1 hmem
      exact List.find?_eq_none.1 hgold g (List.mem_reverse.2 hg) (decide_eq_true hitem)
    have hentered : entered.reverse.find? (fun g => g.item = i) = none := by
      refine List.find?_eq_none.2 fun e he hitem => hmissing ?_
      exact List.mem_map.2 ⟨e, List.mem_reverse.1 he, of_decide_eq_true hitem⟩
    rw [hentered]
  | some g =>
    obtain rfl : g.item = i := by simpa using List.find?_some hgold
    obtain ⟨last, hlast, hlabel, -⟩ :=
      (h.entries g (List.mem_reverse.1 (List.mem_of_find?_eq_some hgold))).last
    rw [hlast, Option.map_some, Option.map_some, hlabel]

end Standing

/-! ## Entering labels of several tasks -/

/-- The labels that were entered for a task. -/
def ofTask (task : String) (entered : List GoldLabel) : List GoldLabel :=
  entered.filter fun g => g.task = task

theorem ofTask_concat_self :
    ofTask new.task (entered ++ [new]) = ofTask new.task entered ++ [new] := by
  rw [ofTask, List.filter_append, List.filter_cons_of_pos (by simp), List.filter_nil, ofTask]

theorem ofTask_concat_of_ne {task : String} (h : new.task ≠ task) :
    ofTask task (entered ++ [new]) = ofTask task entered := by
  rw [ofTask, List.filter_append, List.filter_cons_of_neg (by simpa using h), List.filter_nil,
    List.append_nil, ofTask]

/-- Upserting is done among the labels of the same task. -/
theorem ofTask_upsert_self :
    ofTask new.task (new.upsert gold) = new.upsert (ofTask new.task gold) :=
  filter_upsert_self

/-- Upserting leaves the labels of any other task. -/
theorem ofTask_upsert_of_ne {task : String} (h : new.task ≠ task) :
    ofTask task (new.upsert gold) = ofTask task gold := filter_upsert_of_ne h.symm

/-- **The labels of each task stand**, in whatever order those of several tasks are
entered. -/
theorem standing_foldl (entered : List GoldLabel) (task : String) :
    Standing (ofTask task entered)
      (ofTask task (entered.foldl (fun gold new => new.upsert gold) [])) := by
  -- from the end: one more label is entered among those of its task
  induction entered using List.reverseRecOn with
  | nil => exact .nil
  | append_singleton entered new ih =>
    rw [List.foldl_concat]
    by_cases htask : new.task = task
    · subst htask
      have hone : ∀ e ∈ ofTask new.task entered, e.task = new.task :=
        fun e he => of_decide_eq_true (List.mem_filter.1 he).2
      rw [ofTask_concat_self, ofTask_upsert_self]
      exact ih.upsert hone
    · rw [ofTask_concat_of_ne htask, ofTask_upsert_of_ne htask]
      exact ih

end GoldLabel

/-! ## The stores -/

/-- A store after gold labels were entered one after another. -/
def afterUpserts {σ : Type} [LabelStore σ] (s : σ) (entered : List GoldLabel) : σ :=
  StoreCall.after s (entered.map StoreCall.upsertGold)

/-- The latest label is entered last. -/
theorem afterUpserts_concat {σ : Type} [LabelStore σ] (s : σ) (entered : List GoldLabel)
    (new : GoldLabel) : afterUpserts s (entered ++ [new]) =
      (StoreCall.answer (afterUpserts s entered) (.upsertGold new)).2 := by
  rw [afterUpserts, List.map_append, StoreCall.after, List.foldl_append]
  rfl

theorem MemoryStore.gold_afterUpserts (entered : List GoldLabel) :
    (afterUpserts MemoryStore.empty entered).gold =
      entered.foldl (fun gold new => new.upsert gold) [] := by
  induction entered using List.reverseRecOn with
  | nil => rfl
  | append_singleton entered new ih =>
    rw [afterUpserts_concat, List.foldl_concat, ← ih]
    rfl

namespace DirectoryStore

variable {d : DirectoryStore} {new : GoldLabel}

/-- An identifier that is not safe has no place. -/
theorem place_of_not_isSafe {folder : Folder} {id : String} (h : isSafe id = false) :
    place folder id = .error (.store ("invalid identifier '" ++ id ++ "'")) :=
  if_neg (Bool.eq_false_iff.1 h)

/-- A label for a task that is no file name is refused, and the directory stays. -/
theorem answer_upsertGold_of_not_isSafe (h : isSafe new.task = false) :
    StoreCall.answer d (.upsertGold new) =
      (.error (.store ("invalid identifier '" ++ new.task ++ "'")), d) := by
  have hrefused : LabelStore.upsertGold d new =
      .error (.store ("invalid identifier '" ++ new.task ++ "'")) := by
    show (place .gold new.task >>= fun p => d.loadGold p >>= _) = _
    rw [place_of_not_isSafe h]
    rfl
  exact congrArg (StoreCall.kept d) hrefused

/-- **The directory mirrors a memory** that got only the labels it did not refuse. -/
theorem mirrors_after_upserts {entered : List GoldLabel} (h : ∀ g ∈ entered, IsLabel g.label) :
    (afterUpserts empty entered).Mirrors
      (afterUpserts MemoryStore.empty (entered.filter fun g => isSafe g.task)) := by
  induction entered using List.reverseRecOn with
  | nil => exact mirrors_empty
  | append_singleton entered new ih =>
    have hnew : IsLabel new.label := h new (List.mem_append_right _ (List.mem_singleton.2 rfl))
    have hmirrors := ih fun g hg => h g (List.mem_append_left _ hg)
    rw [afterUpserts_concat, List.filter_append]
    by_cases hsafe : isSafe new.task = true
    · rw [List.filter_cons_of_pos (by simpa using hsafe), List.filter_nil, afterUpserts_concat]
      have hfits : (StoreCall.upsertGold new).Fits := ⟨hsafe, hnew⟩
      exact (hmirrors.answer hfits fun _ hid => nomatch hid).2
    · rw [List.filter_cons_of_neg (by simpa using hsafe), List.filter_nil, List.append_nil,
        answer_upsertGold_of_not_isSafe (Bool.eq_false_iff.2 hsafe)]
      exact hmirrors

end DirectoryStore

/-- What a memory answers for a task is what stands of the labels entered for it. -/
theorem MemoryStore.exists_standing (entered : List GoldLabel) (task : String) :
    ∃ gold, LabelStore.goldLabels (afterUpserts MemoryStore.empty entered) task = .ok gold ∧
      GoldLabel.Standing (GoldLabel.ofTask task entered) gold := by
  refine ⟨_, rfl, ?_⟩
  rw [MemoryStore.gold_afterUpserts]
  exact GoldLabel.standing_foldl entered task

/-- A directory answers likewise for a task that is a file name: the labels it
refused were for others. -/
theorem DirectoryStore.exists_standing {entered : List GoldLabel}
    (h : ∀ g ∈ entered, IsLabel g.label) {task : String} (htask : isSafe task = true) :
    ∃ gold, LabelStore.goldLabels (afterUpserts DirectoryStore.empty entered) task = .ok gold ∧
      GoldLabel.Standing (GoldLabel.ofTask task entered) gold := by
  have hofTask : GoldLabel.ofTask task (entered.filter fun g => isSafe g.task) =
      GoldLabel.ofTask task entered := by
    rw [GoldLabel.ofTask, List.filter_filter]
    refine List.filter_congr fun g _ => ?_
    by_cases hg : g.task = task
    · simp [hg, htask]
    · simp [hg]
  obtain ⟨gold, hgold, hstanding⟩ :=
    MemoryStore.exists_standing (entered.filter fun g => isSafe g.task) task
  exact ⟨gold, ((mirrors_after_upserts h).goldLabels_eq htask).trans hgold, hofTask ▸ hstanding⟩

/-- **Gold labels are last-write-wins per task and item.** After any labels were
entered in new stores, each answers for a task what stands of the labels entered
for it, one for each item, and the labels by item are the last ones entered. What
was entered for other tasks makes no difference. A directory answers for the tasks
that are file names; a label for another one it refuses, and stays as it is. -/
theorem gold_labels_last_write_wins (entered : List GoldLabel) (task : String) :
    ∃ gold, GoldLabel.Standing (GoldLabel.ofTask task entered) gold ∧
      (∀ item, GoldLabel.byItem gold item =
        GoldLabel.byItem (GoldLabel.ofTask task entered) item) ∧
      (∀ entered', GoldLabel.ofTask task entered' = GoldLabel.ofTask task entered →
        LabelStore.goldLabels (afterUpserts MemoryStore.empty entered') task = .ok gold) ∧
      (∀ entered', GoldLabel.ofTask task entered' = GoldLabel.ofTask task entered →
        (∀ g ∈ entered', IsLabel g.label) →
        LabelStore.goldLabels (afterUpserts DirectoryStore.empty entered') task =
          if DirectoryStore.isSafe task then .ok gold
          else .error (.store ("invalid identifier '" ++ task ++ "'"))) ∧
      ∀ refused : GoldLabel, DirectoryStore.isSafe refused.task = false →
        StoreCall.answer (afterUpserts DirectoryStore.empty entered) (.upsertGold refused) =
          (.error (.store ("invalid identifier '" ++ refused.task ++ "'")),
            afterUpserts DirectoryStore.empty entered) := by
  obtain ⟨gold, -, hstanding⟩ := MemoryStore.exists_standing entered task
  refine ⟨gold, hstanding, hstanding.byItem_eq, ?_, ?_, ?_⟩
  · intro entered' hsame
    obtain ⟨gold', hgold', hstanding'⟩ := MemoryStore.exists_standing entered' task
    rw [hgold', hstanding.unique (hsame ▸ hstanding')]
  · intro entered' hsame hlabels
    by_cases htask : DirectoryStore.isSafe task = true
    · obtain ⟨gold', hgold', hstanding'⟩ := DirectoryStore.exists_standing hlabels htask
      rw [if_pos htask, hgold', hstanding.unique (hsame ▸ hstanding')]
    · rw [if_neg htask]
      show (DirectoryStore.place .gold task >>= _) = _
      rw [DirectoryStore.place_of_not_isSafe (Bool.eq_false_iff.2 htask)]
      rfl
  · intro refused hunsafe
    exact DirectoryStore.answer_upsertGold_of_not_isSafe hunsafe

/-- Labels of two tasks in turn, with one of a task that is no file name in between:
the second label of an item has replaced the first. -/
theorem gold_labels_last_write_wins_in_turn :
    let entered : List GoldLabel :=
      [⟨"1", "a", 1, "first", "quality"⟩, ⟨"2", "a", 0, "first", "noise"⟩,
        ⟨"3", "b", 1, "first", "quality"⟩, ⟨"4", "a", 1, "first", "../quality"⟩,
        ⟨"5", "a", 0, "second", "quality"⟩]
    (∀ g ∈ entered, IsLabel g.label) ∧ DirectoryStore.isSafe "quality" = true ∧
      DirectoryStore.isSafe "../quality" = false ∧
      ∃ gold, gold.map GoldLabel.item = ["a", "b"] ∧ GoldLabel.byItem gold "a" = some 0 ∧
        LabelStore.goldLabels (afterUpserts MemoryStore.empty entered) "quality" = .ok gold ∧
        LabelStore.goldLabels (afterUpserts DirectoryStore.empty entered) "quality" = .ok gold := by
  intro entered
  have hlabels : ∀ g ∈ entered, IsLabel g.label := by decide
  have hsafe : DirectoryStore.isSafe "quality" = true := by decide
  have hunsafe : DirectoryStore.isSafe "../quality" = false := by decide
  obtain ⟨gold, hstanding, hbyItem, hmemory, hdirectory, -⟩ :=
    gold_labels_last_write_wins entered "quality"
  refine ⟨hlabels, hsafe, hunsafe, gold, hstanding.items, hbyItem "a", hmemory entered rfl, ?_⟩
  rw [hdirectory entered rfl hlabels, if_pos hsafe]

end RuleVote
