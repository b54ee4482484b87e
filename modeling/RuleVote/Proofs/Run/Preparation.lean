import RuleVote.Proofs.Label.Totality
import RuleVote.Proofs.Run.Lifecycle
import RuleVote.Proofs.Surrogate.Input
import RuleVote.Proofs.Table.Selection
import RuleVote.Proofs.Text.Sorted
import RuleVote.Run.Session
/-!
# What a run learns from

Once enough rules are compiled, votes, model and labels follow: the first stage
of a run fails only where its rules are too few (`Session.ends_runLabeler`). It
leaves a labeler with a label and a distribution over the labels for every
item (`Session.Labels`), and the features that its rules read are features of
the table, each of them once (`Labeler.Sound.features`).

The labels that the first stage finds, with gold labels in their place or not,
and the features that are learned from go together: they make valid input for
every kind of surrogate (`Session.ends_targetsOf`,
`Session.Labels.exists_select`). So once rules and gold labels are read, a run
has its lesson unless its rules are too few (`Session.ends_prepare`).
-/

namespace RuleVote

/-! ## The first stage -/

/-- So many labels of a task, and as many distributions over them. -/
structure Aggregate.For (a : Aggregate) (items classes : Nat) : Prop where
  count : a.labels.length = items
  below : LabelsBelow classes a.labels
  probabilities : a.probabilities.Sized items classes

namespace Labeler

variable {l : Labeler}

/-- **The features that rules read** are features of the table, each once. -/
theorem Sound.features (h : l.Sound) : l.features.toList.Nodup ∧
    ∀ name ∈ l.features.toList, l.table.hasColumn name = true := by
  have hread : ∀ f ∈ l.functions, ∀ name ∈ f.features.toList, l.table.hasColumn name = true := by
    intro f hf name hname
    obtain ⟨r, -, hcompile⟩ := h.exists_compile hf
    obtain ⟨body, decision, -, hcolumns, -, rfl⟩ := RuleFunction.compile_eq_ok_iff.1 hcompile
    exact hcolumns name (SortedSet.mem_ofList.1 hname)
  have hunion : l.features.Ascending ∧
      ∀ name ∈ l.features.toList, l.table.hasColumn name = true := by
    refine List.foldlRecOn (motive := fun s : SortedSet String => s.Ascending ∧
      ∀ name ∈ s.toList, l.table.hasColumn name = true) l.functions _
      ⟨SortedSet.ascending_empty, nofun⟩ ?_
    rintro s ⟨hs, hcolumns⟩ f hf
    refine ⟨hs.union f.features, fun name hname => ?_⟩
    rcases SortedSet.mem_insertAll.1 hname with hname | hname
    · exact hcolumns name hname
    · exact hread f hf name hname
  exact ⟨hunion.1.nodup, hunion.2⟩

/-- A labeler is sound after a call that succeeds. -/
theorem Sound.of_run {l' : Labeler} (h : l.Sound) {c : Call} (hrun : c.run l = (.ok (), l')) :
    l'.Sound := by
  have hstep := h.step (step_run l c)
  rwa [hrun] at hstep

/-- What a labeler with votes finds is for its items and labels. -/
theorem Sound.exists_found (h : l.Sound) (hstage : Stage.applied.rank ≤ l.stage.rank)
    (policy : TiePolicy) (seed : Nat) (stream : KeyStream) :
    ∃ found : Aggregate,
      l.predictFrom policy seed stream = .ok (l.found found.labels found.probabilities) ∧
      (l.found found.labels found.probabilities).Sound ∧
      found.For l.table.size l.labels.cardinality := by
  obtain ⟨labels, p, hpredict, hcount, hrows, hcols, hshaped, hbelow⟩ :=
    h.exists_predictFrom hstage policy seed stream
  have hrun : (Call.predict policy seed stream).run l = (.ok (), l.found labels p) := by
    rw [Call.run, hpredict]
    rfl
  refine ⟨⟨labels, p⟩, hpredict, h.of_run hrun, hcount, hbelow, ?_⟩
  rw [← hrows, ← hcols]
  exact hshaped.sized

/-- The votes of a labeler on the items of its table. -/
theorem Sound.exists_votes_keys (h : l.Sound) (hstage : Stage.applied.rank ≤ l.stage.rank) :
    ∃ t, l.votes = some t ∧ t.keys = l.table.keys ∧ t.Valid l.labels.cardinality := by
  obtain ⟨t, ht, hvalid⟩ := h.exists_votes hstage
  obtain ⟨rows, -, rfl⟩ := VoteTable.apply_eq_ok_iff.1 (h.phase.of_votes ht).1.2.2
  exact ⟨_, ht, rfl, hvalid⟩

end Labeler

namespace Session

variable {s : Session}

/-- A labeler that has found labels for the items of a session. -/
structure Labels (s : Session) (l : Labeler) (found : Aggregate) : Prop where
  sound : l.Sound
  table_eq : l.table = s.table
  labels_eq : l.labels = s.labels
  aggregate_eq : l.aggregate = some found
  found : found.For s.table.size s.labels.cardinality
  votes : ∃ t, l.votes = some t ∧ t.keys = s.table.keys ∧ t.Valid s.labels.cardinality

theorem exists_labels {l : Labeler} (hl : l.Sound) (hstage : Stage.applied.rank ≤ l.stage.rank)
    (htable : l.table = s.table) (hlabels : l.labels = s.labels) (policy : TiePolicy)
    (seed : Nat) : ∃ l', l.predict policy seed = .ok l' ∧ ∃ found, s.Labels l' found := by
  obtain ⟨found, hpredict, hsound, hfound⟩ := hl.exists_found hstage policy seed (.ofSeed seed)
  obtain ⟨t, ht, hkeys, hvalid⟩ := hl.exists_votes_keys hstage
  rw [htable, hlabels] at hfound
  rw [htable] at hkeys
  rw [hlabels] at hvalid
  exact ⟨_, hpredict, found, hsound, htable, hlabels, rfl, hfound, t, ht, hkeys, hvalid⟩

/-- The labeler of a run at its start. -/
def labelerFor (s : Session) (rules : List Rule) (settings : ReductionSettings) : Labeler :=
  .new rules s.labels s.table settings.selection

/-- **The first stage fails only where too few rules are compiled.** -/
theorem ends_runLabeler (hshaped : s.table.Shaped) (rules : List Rule)
    (settings : ReductionSettings) : Ends (s.runLabeler rules settings)
      (fun f => (s.labelerFor rules settings).createFunctions.1 = .error f)
      fun l => ∃ found, s.Labels l found := by
  rw [runLabeler, labelerFor]
  generalize hcreate : (Labeler.new rules s.labels s.table settings.selection).createFunctions =
    created
  obtain ⟨made, l⟩ := created
  refine Ends.bind (P := fun _ => made = .ok ()) (.lift (fun f hf => hf) fun _ h => h) ?_
  rintro _ rfl
  obtain ⟨hsound, hstage, hlabels, htable⟩ := Labeler.sound_of_createFunctions hcreate
  have hbuilt : Stage.functionsBuilt.rank ≤ l.stage.rank := Nat.le_of_eq (hstage ▸ rfl)
  obtain ⟨t, ht, happly⟩ := hsound.exists_apply (htable ▸ hshaped) hbuilt
  refine (Ends.lifted happly).bind ?_
  rintro _ rfl
  have hvoted : (l.voted t).Sound := hsound.step (.voted hbuilt ht)
  cases settings.method with
  | majority => exact .of_exists (exists_labels hvoted (Nat.le_refl 2) htable hlabels _ _)
  | labelModel =>
    obtain ⟨m, hm⟩ := hvoted.exists_fit (Nat.le_refl 2) settings.epochs settings.seed
    have hrun : (Labeler.Call.fit settings.epochs settings.seed).run (l.voted t) =
        (.ok (), (l.voted t).learned m) := by
      rw [Labeler.Call.run, hm]
      rfl
    have hlearned := hvoted.of_run hrun
    refine Ends.bind (.of_eq_ok (P := (· = (l.voted t).learned m)) hm rfl) ?_
    rintro _ rfl
    exact .of_exists (exists_labels hlearned (Nat.le_succ 2) htable hlabels _ _)

end Session

/-! ## The second stage -/

/-- Gold labels are classes below a number. -/
def GoldBelow (classes : Nat) (gold : String → Option Int) : Prop :=
  ∀ key label, gold key = some label → 0 ≤ label ∧ label < classes

variable {E : Failure → Prop} {gold : String → Option Int} {classes : Nat}

namespace VoteTable

variable {t : VoteTable}

/-- Gold labels among the votes leave a vote of every function on every
item. -/
theorem Valid.withGold (h : t.Valid classes) (hgold : GoldBelow classes gold) :
    Ends (t.withGold gold) E fun t' => t'.votes.Sized t.keys.length t'.votes.cols ∧
      LabelsBelow classes t'.votes.data.toList := by
  refine h.wellShaped.sized.allRows.bind fun rows hrows => .ok ?_
  obtain ⟨hcount, hrows⟩ := hrows
  have hrow : ∀ r ∈ List.zipWith (goldRow gold) t.keys rows,
      r.length = t.votes.cols ∧ LabelsBelow classes r := by
    refine forall_mem_zipWith fun key _ row hrow => ?_
    obtain ⟨hlength, hmem⟩ := hrows row hrow
    rw [goldRow]
    cases hlabel : gold key with
    | none => exact ⟨hlength, fun v hv => h.isVote v (hmem hv)⟩
    | some label =>
      exact ⟨(List.length_map _).trans hlength,
        List.forall_mem_map.2 fun _ _ => .inr (hgold key label hlabel)⟩
  refine ⟨Matrix.sized_ofRowsOf ?_ fun r hr => (hrow r hr).1, fun v hv => ?_⟩
  · rw [List.length_zipWith, hcount, h.rows_eq, Nat.min_self]
  · obtain ⟨r, hr, hv⟩ := List.mem_flatten.1 hv
    exact (hrow r hr).2 v hv

end VoteTable

namespace Session

variable {s : Session} {l : Labeler} {found : Aggregate}

/-! ### Gold labels -/

theorem goldBelow_validGold (s : Session) (gold : List GoldLabel) :
    GoldBelow s.labels.cardinality (s.validGold gold) := by
  intro key label h
  obtain ⟨-, hvalid⟩ := Option.filter_eq_some_iff.1 h
  simp only [Bool.and_eq_true, decide_eq_true_iff] at hvalid
  exact hvalid.1

/-- Labels with gold labels in their place. -/
theorem fit_targetLabels (hgold : GoldBelow classes gold) (includeGold : Bool)
    {keys : List String} {labels : List Int} (hcount : labels.length = keys.length)
    (hbelow : LabelsBelow classes labels) :
    (Targets.hard (targetLabels gold includeGold keys labels)).Fit keys.length classes := by
  cases includeGold with
  | false => exact ⟨hcount, hbelow⟩
  | true =>
    refine ⟨by rw [targetLabels, if_pos rfl, List.length_zipWith, hcount, Nat.min_self], ?_⟩
    refine forall_mem_zipWith fun label hlabel key _ => ?_
    cases hkey : gold key with
    | none => exact hbelow label hlabel
    | some v => exact .inr (hgold key v hkey)

/-- Distributions with gold labels in their place. -/
theorem ends_putGold (hgold : GoldBelow classes gold) {keys : List String} {m : Matrix Float32}
    (hm : m.Sized keys.length classes) :
    Ends (putGold gold keys m) E (·.Sized keys.length classes) := by
  refine Ends.foldlM (fun m hm label hlabel => ?_) hm
  obtain ⟨⟨key, i⟩, hkey, hlabel⟩ := List.mem_filterMap.1 hlabel
  obtain ⟨v, hv, rfl⟩ := Option.map_eq_some_iff.1 hlabel
  exact SurrogateInput.ends_putLabel hm (hgold key v hv).2 (List.snd_lt_of_mem_zipIdx hkey)

/-- **The targets of every kind of surrogate go together.** -/
theorem Labels.targetsOf (h : s.Labels l found) (hgold : GoldBelow s.labels.cardinality gold)
    (kind : SurrogateKind) (includeGold : Bool) {targets : List Int}
    (htargets : (Targets.hard targets).Fit s.table.size s.labels.cardinality) :
    Ends (targetsOf kind gold includeGold l found.probabilities targets) E
      (·.Fit s.table.size s.labels.cardinality) := by
  cases kind with
  | closedForm => exact .ok htargets
  | neural =>
    have hput := ends_putGold (E := E) hgold h.found.probabilities
    cases includeGold with
    | false => exact .ok h.found.probabilities
    | true =>
      rw [← h.table_eq] at hput ⊢
      exact hput.bind fun p hp => .ok hp
  | endToEnd =>
    obtain ⟨t, ht, hkeys, hvalid⟩ := h.votes
    have hrows : t.keys.length = s.table.size := congrArg List.length hkeys
    refine (Ends.lifted (Labeler.currentVotes_eq_ok_iff.2 ht)).bind ?_
    rintro _ rfl
    cases includeGold with
    | false =>
      rw [← hrows, ← hvalid.rows_eq] at htargets ⊢
      exact .ok ⟨hvalid.wellShaped.sized, hvalid.isVote, htargets⟩
    | true =>
      rw [← hrows] at htargets ⊢
      exact (hvalid.withGold hgold).bind fun t' ht' => .ok ⟨ht'.1, ht'.2, htargets⟩

/-! ### Features -/

/-- **The features to be learned from** are features of the table, each
once. -/
theorem Labels.learningFeatures (h : s.Labels l found) (ht : s.table.Proper)
    (settings : LearningSettings) : (s.learningFeatures l settings).Nodup ∧
      ∀ name ∈ s.learningFeatures l settings, s.table.hasColumn name = true := by
  rw [Session.learningFeatures]
  split_ifs
  · exact h.table_eq ▸ h.sound.features
  · exact ⟨ht.names, List.forall_mem_map.2 fun c hc => FeatureTable.hasColumn_of_mem hc⟩

/-- **The features to be learned from make a matrix**, with a row for each
item. -/
theorem Labels.exists_select (h : s.Labels l found) (ht : s.table.Proper)
    (settings : LearningSettings) :
    ∃ t, s.table.select (s.learningFeatures l settings) = .ok t ∧
      Ends t.toMatrix E fun x => x.WellShaped ∧ x.rows = s.table.size := by
  obtain ⟨hnodup, hcolumns⟩ := h.learningFeatures ht settings
  obtain ⟨t, hselect, hsize, -, hshaped⟩ := ht.exists_select hnodup hcolumns
  refine ⟨t, hselect, hshaped.toMatrix.imp fun x hx => ⟨hx.wellShaped, ?_⟩⟩
  exact hx.rows_eq.trans hsize

/-! ### The lesson -/

/-- A lesson for the items of a session. -/
structure Taught (s : Session) (lesson : Lesson) : Prop where
  input : lesson.input.Valid
  rows_eq : lesson.input.features.rows = s.table.size
  aggregated : lesson.aggregated.length = s.table.size
  targets : lesson.targets.length = s.table.size
  votes : ∃ t, lesson.labeler.votes = some t ∧ t.keys = s.table.keys ∧
    t.Valid s.labels.cardinality

variable {σ : Type} [LabelStore σ]

/-- Why there is no lesson. -/
inductive Unprepared (s : Session) (store : σ) (config : RunConfig) : Failure → Prop
  | rules {f : Failure} (h : LabelStore.rules store config.ruleSet = .error f) :
      Unprepared s store config f
  | gold {f : Failure} (h : LabelStore.goldLabels store s.task.id = .error f) :
      Unprepared s store config f
  | created {f : Failure} {rules : List Rule}
      (hrules : LabelStore.rules store config.ruleSet = .ok rules)
      (h : (s.labelerFor rules config.reduction).createFunctions.1 = .error f) :
      Unprepared s store config f

/-- **A run has its lesson once rules and gold labels are read**, unless its
rules are too few. -/
theorem Sound.ends_prepare (hs : s.Sound) (ht : s.table.Proper) (store : σ)
    (config : RunConfig) :
    Ends (s.prepare store config) (s.Unprepared store config) s.Taught := by
  refine Ends.bind (.lift (P := fun rules => LabelStore.rules store config.ruleSet = .ok rules)
    (fun f => .rules) fun _ => id) fun rules hrules => ?_
  refine Ends.bind (.lift (P := fun _ => True) (fun f => .gold) fun _ _ => trivial) fun gold _ => ?_
  have hgold := s.goldBelow_validGold gold
  refine ((ends_runLabeler ht.shaped rules config.reduction).mono
    (fun f => .created hrules) fun _ => id).bind ?_
  rintro l ⟨found, hl⟩
  have hfound : aggregateOf l = .ok found := by rw [aggregateOf, hl.aggregate_eq]
  refine (Ends.lifted hfound).bind ?_
  rintro _ rfl
  obtain ⟨t, hselect, hmatrix⟩ := hl.exists_select ht config.learning
  refine (Ends.lifted hselect).bind ?_
  rintro _ rfl
  refine hmatrix.bind fun x hx => ?_
  have htargets := fit_targetLabels hgold config.learning.includeGold hl.found.count hl.found.below
  refine (hl.targetsOf hgold config.learning.model.kind config.learning.includeGold htargets).bind
    fun targets hfit => ?_
  have hvalid : SurrogateInput.Valid ⟨x, targets, s.labels.cardinality⟩ :=
    ⟨hx.1, hx.2 ▸ hfit, LabelSet.two_le_of_ofList hs.labels_eq⟩
  refine (Ends.lifted hvalid.new_eq_ok).bind ?_
  rintro _ rfl
  exact .ok ⟨hvalid, hx.2, hl.found.count, htargets.1, hl.votes⟩

end Session

end RuleVote
