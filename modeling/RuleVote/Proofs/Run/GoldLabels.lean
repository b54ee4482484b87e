import RuleVote.Proofs.Run.Independence
import RuleVote.Proofs.Run.Preparation
import RuleVote.Proofs.Surrogate.Input
/-!
# Gold labels in the place of labels found

A run that uses gold labels prepares everything as one that does not, and
then puts gold labels into the targets (`Session.prepare_eq`). They are put in
for each kind of surrogate in its own way, but come to the same: the row of an
item with a gold label in effect says nothing but that label, and all other
rows stay (`Session.Ground.Complete.row_targets`). Scores and analysis of the
labels found do not read the targets (`Session.Reports`). So gold labels
override the targets of their items, and nothing else
(`Session.gold_overrides_targets`).
-/

namespace RuleVote

/-- The configuration with gold labels put in the place of labels found, or
not. -/
def RunConfig.withGold (config : RunConfig) (includeGold : Bool) : RunConfig :=
  { config with learning := { config.learning with includeGold } }

/-! ## The target of a row -/

/-- What a surrogate is trained on in one row. -/
inductive RowTarget where
  /-- A label. -/
  | hard (label : Int)
  /-- The probabilities of the labels. -/
  | soft (probabilities : List Float32)
  /-- The votes, and a label. -/
  | votes (cast : List Int) (label : Int)

namespace RowTarget

/-- The target that says nothing but a label, in the words of a kind of
surrogate. -/
def only (kind : SurrogateKind) (classes functions : Nat) (label : Int) : RowTarget :=
  match kind with
  | .closedForm => .hard label
  | .neural => .soft (massOn classes label.toNat)
  | .endToEnd => .votes (List.replicate functions label) label

/-- The label of a row, the most probable one if there are probabilities. -/
def label : RowTarget → Int
  | hard label => label
  | soft probabilities => classLabel (Matrix.argmax probabilities)
  | .votes _ label => label

theorem label_only {kind : SurrogateKind} {classes functions : Nat} {label : Int}
    (hneg : 0 ≤ label) (hlt : label < classes) (hword : label < Nat.pow 2 31) :
    (only kind classes functions label).label = label := by
  cases kind with
  | closedForm | endToEnd => rfl
  | neural =>
    rw [only, RowTarget.label, Matrix.argmax_massOn (by omega), classLabel_of_lt (by omega)]
    exact Int.toNat_of_nonneg hneg

end RowTarget

/-- The target of a row. -/
def Targets.row? (targets : Targets) (i : Nat) : Option RowTarget :=
  match targets with
  | .hard labels => labels[i]?.map .hard
  | .soft probabilities => (probabilities.row? i).map .soft
  | .votes cast labels => (cast.row? i).bind fun votes => labels[i]?.map (.votes votes)

/-- Every row of targets that fit has one. -/
theorem Targets.Fit.exists_row? {targets : Targets} {rows classes : Nat}
    (h : targets.Fit rows classes) {i : Nat} (hi : i < rows) : ∃ t, targets.row? i = some t := by
  have hread : ∀ {labels : List Int}, labels.length = rows → ∃ label, labels[i]? = some label :=
    fun hlength => ⟨_, List.getElem?_eq_getElem (hlength ▸ hi)⟩
  cases targets with
  | hard labels =>
    obtain ⟨label, hlabel⟩ := hread h.1
    exact ⟨.hard label, by rw [row?, hlabel, Option.map_some]⟩
  | soft probabilities =>
    obtain ⟨row, hrow, -⟩ := (Matrix.Sized.row h hi).exists_ok
    exact ⟨.soft row, by rw [row?, orBreak_eq_ok_iff.1 hrow, Option.map_some]⟩
  | votes cast labels =>
    obtain ⟨hcast, -, hlength, -⟩ := h
    obtain ⟨label, hlabel⟩ := hread hlength
    obtain ⟨row, hrow, -⟩ := (hcast.row hi).exists_ok
    exact ⟨.votes row label, by
      rw [row?, orBreak_eq_ok_iff.1 hrow, Option.bind_some, hlabel, Option.map_some]⟩

/-- **The reference label of a row is that of its target.** -/
theorem SurrogateInput.getElem?_referenceLabels {input : SurrogateInput} {labels : List Int}
    (h : input.referenceLabels = .ok labels) {rows classes i : Nat}
    (hfit : input.targets.Fit rows classes) (hi : i < rows) {t : RowTarget}
    (ht : input.targets.row? i = some t) : labels[i]? = some t.label := by
  obtain ⟨features, targets, count⟩ := input
  cases targets with
  | hard found =>
    obtain rfl := Except.ok.inj h
    obtain ⟨label, hlabel, rfl⟩ := Option.map_eq_some_iff.1 ht
    exact hlabel
  | soft probabilities =>
    obtain ⟨places, hplaces, h⟩ := bind_eq_ok_iff.1 h
    obtain rfl := Except.ok.inj h
    obtain ⟨row, hrow, rfl⟩ := Option.map_eq_some_iff.1 ht
    have hi : i < probabilities.rows := Matrix.Sized.rows_eq hfit ▸ hi
    have hplace := Matrix.getElem?_argmaxRows hplaces hi (orBreak_eq_ok_iff.2 hrow)
    rw [List.getElem?_map, hplace]
    rfl
  | votes cast found =>
    obtain rfl := Except.ok.inj h
    obtain ⟨row, -, ht⟩ := Option.bind_eq_some_iff.1 ht
    obtain ⟨label, hlabel, rfl⟩ := Option.map_eq_some_iff.1 ht
    exact hlabel

namespace Session

variable {σ : Type} [LabelStore σ]
variable {s : Session} {store : σ} {config : RunConfig} {gold : String → Option Int}

/-! ## Labels in their rows -/

section Rows

variable {l : Labeler} {found : Aggregate} {i : Nat} {key : String} {label : Int}

/-- The label to be learned in one row. -/
theorem getElem?_targetLabels {keys : List String} {labels : List Int}
    (hkey : keys[i]? = some key) :
    (targetLabels gold true keys labels)[i]? =
      labels[i]?.map fun found => (gold key).getD found := by
  rw [targetLabels, if_pos rfl, List.getElem?_zipWith, hkey]
  cases labels[i]? <;> rfl

/-- The gold labels with the rows of their items. -/
def goldRows (gold : String → Option Int) (keys : List String) : List (Int × Nat) :=
  keys.zipIdx.filterMap fun (key, i) => (gold key).map fun label => (label, i)

theorem mem_goldRows {keys : List String} {label : Int} {i : Nat} :
    (label, i) ∈ goldRows gold keys ↔ ∃ key, keys[i]? = some key ∧ gold key = some label := by
  rw [goldRows, List.mem_filterMap]
  constructor
  · rintro ⟨⟨key, j⟩, hkey, hlabel⟩
    obtain ⟨v, hv, heq⟩ := Option.map_eq_some_iff.1 hlabel
    cases heq
    exact ⟨key, List.mem_zipIdx_iff_getElem?.1 hkey, hv⟩
  · rintro ⟨key, hkey, hlabel⟩
    exact ⟨(key, i), List.mem_zipIdx_iff_getElem?.2 hkey,
      Option.map_eq_some_iff.2 ⟨label, hlabel, rfl⟩⟩

/-- No two gold labels are put in one row. -/
theorem nodup_goldRows (gold : String → Option Int) (keys : List String) :
    ((goldRows gold keys).map Prod.snd).Nodup := by
  have hplaces : keys.zipIdx.Pairwise fun a b => a.2 ≠ b.2 := by
    rw [← List.pairwise_map, List.zipIdx_map_snd]
    exact List.nodup_range'
  rw [goldRows, List.Nodup, List.pairwise_map]
  refine hplaces.filterMap _ ?_
  rintro ⟨key, i⟩ ⟨key', i'⟩ hne l hl l' hl'
  obtain ⟨_, -, rfl⟩ := Option.map_eq_some_iff.1 hl
  obtain ⟨_, -, rfl⟩ := Option.map_eq_some_iff.1 hl'
  exact hne

/-- **Gold labels take the rows of their items**, and no others. -/
theorem rows_of_putGold {classes : Nat} (hgold : GoldBelow classes gold) {keys : List String}
    {m m' : Matrix Float32} (hm : m.Sized keys.length classes) (h : putGold gold keys m = .ok m')
    (hkey : keys[i]? = some key) :
    (∀ label, gold key = some label → m'.row? i = some (massOn classes label.toNat)) ∧
      (gold key = none → m'.row? i = m.row? i) := by
  have hlabels : ∀ l ∈ goldRows gold keys, l.2 < keys.length ∧ 0 ≤ l.1 ∧ l.1 < classes := by
    rintro ⟨label, j⟩ hl
    obtain ⟨key', hkey', hlabel⟩ := mem_goldRows.1 hl
    exact ⟨(List.getElem?_eq_some_iff.1 hkey').1, hgold key' _ hlabel⟩
  obtain ⟨hrows, hothers⟩ := hm.labeled_foldlM hlabels (nodup_goldRows gold keys) h
  constructor
  · intro label hlabel
    exact orBreak_eq_ok_iff.1 (hrows (label, i) (mem_goldRows.2 ⟨key, hkey, hlabel⟩))
  · intro hnone
    have hlt : i < keys.length := (List.getElem?_eq_some_iff.1 hkey).1
    obtain ⟨r, hr, -⟩ := (hm.row hlt).exists_ok
    have hstays : m'.row i = .ok r := by
      refine hothers i r (fun hi => ?_) hr
      obtain ⟨⟨label, j⟩, hlabel, rfl⟩ := List.mem_map.1 hi
      obtain ⟨key', hkey', hlabel⟩ := mem_goldRows.1 hlabel
      rw [Option.some.inj (hkey.symm.trans hkey'), hlabel] at hnone
      cases hnone
    rw [orBreak_eq_ok_iff.1 hstays, orBreak_eq_ok_iff.1 hr]

/-- **Gold labels take the votes on their items**, and no others. -/
theorem rows_of_withGold {t t' : VoteTable} {classes : Nat} (ht : t.Valid classes)
    (h : t.withGold gold = .ok t') (hkey : t.keys[i]? = some key) :
    (∀ label, gold key = some label →
      t'.votes.row? i = some (List.replicate t.functions.length label)) ∧
      (gold key = none → t'.votes.row? i = t.votes.row? i) := by
  obtain ⟨rows, hrows, h⟩ := bind_eq_ok_iff.1 h
  obtain rfl := Except.ok.inj h
  obtain ⟨hcount, hwidth⟩ := Matrix.shape_of_allRows hrows
  have hi : i < rows.length := by
    rw [hcount, ht.rows_eq]
    exact (List.getElem?_eq_some_iff.1 hkey).1
  have hread : (List.zipWith (VoteTable.goldRow gold) t.keys rows)[i]? =
      some (VoteTable.goldRow gold key rows[i]) := by
    rw [List.getElem?_zipWith, hkey, List.getElem?_eq_getElem hi]
  have hrow : t.votes.row i = .ok rows[i] :=
    Matrix.row_of_allRows hrows (List.getElem?_eq_getElem hi)
  have hall : ∀ r ∈ List.zipWith (VoteTable.goldRow gold) t.keys rows,
      r.length = t.votes.cols := by
    refine forall_mem_zipWith fun key _ row hrow => ?_
    rw [VoteTable.goldRow]
    cases gold key with
    | none => exact hwidth row hrow
    | some label => exact (List.length_map _).trans (hwidth row hrow)
  -- The new table is well shaped, so reading one of its rows cannot fail.
  have hnew : (Matrix.ofRowsOf t.votes.cols
      (List.zipWith (VoteTable.goldRow gold) t.keys rows)).row? i =
        some (VoteTable.goldRow gold key rows[i]) := by
    obtain ⟨hlt, hget⟩ := List.getElem?_eq_some_iff.1 hread
    rw [← hget]
    exact orBreak_eq_ok_iff.1 (Matrix.row_ofRowsOf hall hlt)
  constructor
  · intro label hlabel
    rw [hnew, VoteTable.goldRow, hlabel, ← ht.cols_eq, ← hwidth _ (List.getElem_mem hi)]
    exact congrArg some List.map_const'
  · intro hnone
    rw [hnew, VoteTable.goldRow, hnone, orBreak_eq_ok_iff.1 hrow]

end Rows

/-! ## Lessons with gold labels and without -/

/-- What a lesson is made of before gold labels come in. -/
structure Ground where
  /-- The labeler, its work done. -/
  labeler : Labeler
  /-- The gold labels in effect. -/
  gold : String → Option Int
  /-- What the labeler found. -/
  found : Aggregate
  /-- The features to be learned from. -/
  features : List String
  /-- Their numbers. -/
  x : Matrix Float32

/-- All that is done with rules and gold labels before gold labels come in. -/
def groundOn (s : Session) (config : RunConfig) (rules : List Rule)
    (gold : String → Option Int) : Fallible Ground := do
  let labeler ← s.runLabeler rules config.reduction
  let found ← liftFailure (aggregateOf labeler)
  let features := s.learningFeatures labeler config.learning
  let x ← (← liftFailure (s.table.select features)).toMatrix
  return ⟨labeler, gold, found, features, x⟩

/-- All that is done before gold labels come in. -/
def ground (s : Session) (store : σ) (config : RunConfig) : Fallible Ground := do
  let rules ← liftFailure (LabelStore.rules store config.ruleSet)
  let labels ← liftFailure (LabelStore.goldLabels store s.task.id)
  s.groundOn config rules (s.validGold labels)

/-- The labels to be learned. -/
def Ground.labels (g : Ground) (s : Session) (includeGold : Bool) : List Int :=
  targetLabels g.gold includeGold s.table.keys g.found.labels

/-- The targets to be learned. -/
def Ground.targets (g : Ground) (s : Session) (kind : SurrogateKind) (includeGold : Bool) :
    Fallible Targets :=
  targetsOf kind g.gold includeGold g.labeler g.found.probabilities (g.labels s includeGold)

/-- The lesson with some targets. -/
def Ground.lesson (g : Ground) (s : Session) (includeGold : Bool) (targets : Targets) : Lesson :=
  ⟨g.labeler, g.gold, g.found.labels, g.labels s includeGold, g.features,
    ⟨g.x, targets, s.labels.cardinality⟩⟩

/-- **Gold labels come in only with the targets.** -/
theorem prepare_eq (s : Session) (store : σ) (config : RunConfig) : s.prepare store config =
    s.ground store config >>= fun g =>
      g.targets s config.learning.model.kind config.learning.includeGold >>= fun targets =>
        liftFailure (SurrogateInput.new g.x targets s.labels.cardinality) >>= fun input =>
          .ok { g.lesson s config.learning.includeGold targets with input } := by
  simp only [prepare, ground, groundOn, bind_assoc]
  rfl

/-- The ground of a lesson is there in full. -/
structure Ground.Complete (g : Ground) (s : Session) : Prop where
  labels : s.Labels g.labeler g.found
  gold : GoldBelow s.labels.cardinality g.gold
  wellShaped : g.x.WellShaped
  rows_eq : g.x.rows = s.table.size
  two_le : 2 ≤ s.labels.cardinality

theorem Sound.complete_of_ground (hs : s.Sound) (hshaped : s.table.Shaped) {g : Ground}
    (h : s.ground store config = .ok g) : g.Complete s ∧ ∃ labels,
      LabelStore.goldLabels store s.task.id = .ok labels ∧ g.gold = s.validGold labels := by
  obtain ⟨rules, -, h⟩ := bind_eq_ok_iff.1 h
  obtain ⟨labels, hgold, h⟩ := bind_eq_ok_iff.1 h
  obtain ⟨l, hl, h⟩ := bind_eq_ok_iff.1 h
  obtain ⟨found, hfound, h⟩ := bind_eq_ok_iff.1 h
  obtain ⟨t, ht, h⟩ := bind_eq_ok_iff.1 h
  obtain ⟨x, hx, h⟩ := bind_eq_ok_iff.1 h
  obtain rfl := Except.ok.inj h
  obtain ⟨found', hlabels⟩ := (ends_runLabeler hshaped rules config.reduction).of_ok hl
  have hsame : found' = found := by
    have hread := liftFailure_eq_ok_iff.1 hfound
    rw [aggregateOf, hlabels.aggregate_eq] at hread
    exact Except.ok.inj hread
  obtain ⟨columns, -, hnew⟩ := bind_eq_ok_iff.1 (liftFailure_eq_ok_iff.1 ht)
  have hsized := (FeatureTable.shaped_of_new hnew).toMatrix (E := fun _ => False) |>.of_ok hx
  have hkeys : t.size = s.table.size := by
    obtain ⟨rfl, -⟩ := FeatureTable.new_eq_ok_iff.1 hnew
    rfl
  exact ⟨⟨hsame ▸ hlabels, s.goldBelow_validGold labels, hsized.wellShaped,
    hsized.rows_eq.trans hkeys, LabelSet.two_le_of_ofList hs.labels_eq⟩,
    labels, liftFailure_eq_ok_iff.1 hgold, rfl⟩

namespace Ground

variable {g : Ground}

/-- The labels to be learned are as many as the items. -/
theorem Complete.fit_labels (hg : g.Complete s) (includeGold : Bool) :
    (Targets.hard (g.labels s includeGold)).Fit s.table.size s.labels.cardinality :=
  fit_targetLabels hg.gold includeGold hg.labels.found.count hg.labels.found.below

/-- **There are targets for every kind of surrogate**, with gold labels or
without. -/
theorem Complete.exists_targets (hg : g.Complete s) (kind : SurrogateKind)
    (includeGold : Bool) : ∃ targets, g.targets s kind includeGold = .ok targets ∧
      targets.Fit s.table.size s.labels.cardinality := by
  have hends := hg.labels.targetsOf (E := fun _ => False) hg.gold kind includeGold
    (hg.fit_labels includeGold)
  exact hends.exists_ok

/-- **A lesson is its ground with targets that fit.** -/
theorem Complete.prepare_eq_ok_iff (hg : g.Complete s) (h : s.ground store config = .ok g)
    {lesson : Lesson} : s.prepare store config = .ok lesson ↔ ∃ targets,
      g.targets s config.learning.model.kind config.learning.includeGold = .ok targets ∧
        targets.Fit s.table.size s.labels.cardinality ∧
        lesson = g.lesson s config.learning.includeGold targets := by
  obtain ⟨targets, htargets, hfit⟩ := hg.exists_targets config.learning.model.kind
    config.learning.includeGold
  have hvalid : SurrogateInput.Valid ⟨g.x, targets, s.labels.cardinality⟩ :=
    ⟨hg.wellShaped, hg.rows_eq ▸ hfit, hg.two_le⟩
  have hprepare : s.prepare store config =
      .ok (g.lesson s config.learning.includeGold targets) := by
    rw [prepare_eq, h]
    refine bind_eq_ok_iff.2 ⟨g, rfl, bind_eq_ok_iff.2 ⟨targets, htargets, ?_⟩⟩
    exact bind_eq_ok_iff.2 ⟨_, liftFailure_eq_ok_iff.2 hvalid.new_eq_ok, rfl⟩
  rw [hprepare]
  constructor
  · intro heq
    exact ⟨targets, htargets, hfit, (Except.ok.inj heq).symm⟩
  · rintro ⟨targets', htargets', -, rfl⟩
    rw [Except.ok.inj (htargets.symm.trans htargets')]

/-- The votes are those of the functions of the labeler. -/
theorem Complete.length_functions (hg : g.Complete s) {t : VoteTable}
    (ht : g.labeler.votes = some t) : t.functions.length = g.labeler.functions.length := by
  obtain ⟨_, -, happly⟩ := VoteTable.apply_eq_ok_iff.1 (hg.labels.sound.phase.of_votes ht).1.2.2
  rw [happly]
  exact List.length_map _

/-- **The target of a row with gold labels**: nothing but the gold label of its
item if it has one, else the target without gold labels. -/
theorem Complete.row_targets (hg : g.Complete s) {kind : SurrogateKind} {targets plain : Targets}
    (h : g.targets s kind true = .ok targets) (hplain : g.targets s kind false = .ok plain)
    {i : Nat} {key : String} (hkey : s.table.keys[i]? = some key) :
    (∀ label, g.gold key = some label → targets.row? i =
        some (.only kind s.labels.cardinality g.labeler.functions.length label)) ∧
      (g.gold key = none → targets.row? i = plain.row? i) := by
  have hlt : i < g.found.labels.length := by
    rw [hg.labels.found.count]
    exact (List.getElem?_eq_some_iff.1 hkey).1
  have hlabel : (g.labels s true)[i]? = some ((g.gold key).getD g.found.labels[i]) := by
    rw [Ground.labels, getElem?_targetLabels hkey, List.getElem?_eq_getElem hlt, Option.map_some]
  have hfound : (g.labels s false)[i]? = some g.found.labels[i] := List.getElem?_eq_getElem hlt
  cases kind with
  | closedForm =>
    obtain rfl := Except.ok.inj h
    obtain rfl := Except.ok.inj hplain
    simp only [Targets.row?, hlabel, hfound]
    constructor
    · intro label hgold
      rw [hgold]
      rfl
    · intro hnone
      rw [hnone]
      rfl
  | neural =>
    obtain ⟨p, hput, h⟩ := bind_eq_ok_iff.1 h
    obtain rfl := Except.ok.inj h
    obtain rfl := Except.ok.inj hplain
    rw [hg.labels.table_eq] at hput
    obtain ⟨hrow, hother⟩ := rows_of_putGold hg.gold hg.labels.found.probabilities hput hkey
    simp only [Targets.row?]
    constructor
    · intro label hgold
      rw [hrow label hgold]
      rfl
    · intro hnone
      rw [hother hnone]
  -- here the votes are overwritten as well, one for each function
  | endToEnd =>
    obtain ⟨t, ht, hkeys, hvalid⟩ := hg.labels.votes
    have hvotes := Labeler.currentVotes_eq_ok_iff.2 ht
    obtain ⟨t₁, ht₁, h⟩ := bind_eq_ok_iff.1 h
    obtain rfl := Except.ok.inj (hvotes.symm.trans (liftFailure_eq_ok_iff.1 ht₁))
    obtain ⟨t', hgolden, h⟩ := bind_eq_ok_iff.1 h
    obtain rfl := Except.ok.inj h
    obtain ⟨t₂, ht₂, hplain⟩ := bind_eq_ok_iff.1 hplain
    obtain rfl := Except.ok.inj (hvotes.symm.trans (liftFailure_eq_ok_iff.1 ht₂))
    obtain rfl := Except.ok.inj hplain
    obtain ⟨hrow, hother⟩ := rows_of_withGold hvalid hgolden (hkeys.symm ▸ hkey)
    simp only [Targets.row?, hlabel, hfound]
    constructor
    · intro label hgold
      rw [hrow label hgold, hgold, hg.length_functions ht]
      rfl
    · intro hnone
      rw [hother hnone, hnone]
      rfl

end Ground

/-! ## Gold labels in effect -/

/-- **The gold label of an item is in effect exactly if it is a label of the
task.** -/
theorem validGold_eq_some_iff {labels : List GoldLabel} {key : String}
    (hkey : key ∈ s.table.keys) {label : Int} : s.validGold labels key = some label ↔
      GoldLabel.byItem labels key = some label ∧ 0 ≤ label ∧ label < s.labels.cardinality := by
  have hrow : (s.table.rowIndex? key).isSome = true :=
    Option.isSome_iff_ne_none.2 fun hnone => FeatureTable.lastIndexOf?_eq_none_iff.1 hnone hkey
  rw [validGold, Option.filter_eq_some_iff]
  simp only [hrow, Bool.and_true, Bool.and_eq_true, decide_eq_true_iff]

/-- Whether a gold label is a label of the task for an item of the table. -/
def usable (s : Session) (g : GoldLabel) : Bool :=
  0 ≤ g.label && g.label < s.labels.cardinality && (s.table.rowIndex? g.item).isSome

/-- **Gold labels that cannot be used can as well be missing**, unless they
stand among usable ones for the same item. -/
theorem validGold_filter {labels : List GoldLabel} (halike : ∀ g ∈ labels, ∀ g' ∈ labels,
    g.item = g'.item → s.usable g = s.usable g') :
    s.validGold (labels.filter s.usable) = s.validGold labels := by
  funext key
  have hfind : GoldLabel.byItem (labels.filter s.usable) key =
      ((labels.reverse.filter fun g => decide (g.item = key) && s.usable g).head?).map
        GoldLabel.label := by
    rw [GoldLabel.byItem, ← List.head?_filter, ← List.filter_reverse, List.filter_filter]
  have hfind' : GoldLabel.byItem labels key =
      ((labels.reverse.filter fun g => decide (g.item = key)).head?).map GoldLabel.label := by
    rw [GoldLabel.byItem, List.head?_filter]
  rw [validGold, validGold, hfind, hfind']
  cases hlast : (labels.reverse.filter fun g => decide (g.item = key)).head? with
  | none =>
    have hnone : ∀ g ∈ labels.reverse, ¬decide (g.item = key) = true :=
      List.filter_eq_nil_iff.1 (List.head?_eq_none_iff.1 hlast)
    have hnil : (labels.reverse.filter fun g => decide (g.item = key) && s.usable g) = [] := by
      refine List.filter_eq_nil_iff.2 fun g hg hboth => hnone g hg ?_
      rw [Bool.and_eq_true] at hboth
      exact hboth.1
    rw [hnil]
    rfl
  | some g =>
    obtain ⟨hg, hitem⟩ := List.mem_filter.1 (List.mem_of_head? hlast)
    have hitem : g.item = key := of_decide_eq_true hitem
    have hsame : ∀ g' ∈ labels.reverse, (decide (g'.item = key) && s.usable g') =
        (decide (g'.item = key) && s.usable g) := by
      intro g' hg'
      by_cases hitem' : g'.item = key
      · rw [halike g' (List.mem_reverse.1 hg') g (List.mem_reverse.1 hg)
          (hitem'.trans hitem.symm)]
      · rw [decide_eq_false hitem', Bool.false_and, Bool.false_and]
    rw [List.filter_congr hsame]
    cases husable : s.usable g with
    | true =>
      simp only [Bool.and_true]
      rw [hlast]
    | false =>
      -- the last label of the item is not in effect, and no other one is left
      simp only [Bool.and_false, List.filter_false, List.head?_nil, Option.map_none,
        Option.filter_none, Option.map_some]
      rw [usable, hitem] at husable
      rw [Option.filter_some, husable]
      rfl

/-- A run makes the same from the same rules and gold labels in effect. -/
theorem attempt_congr (config : RunConfig) {other : σ} {labels labels' : List GoldLabel}
    (hrules : LabelStore.rules other config.ruleSet = LabelStore.rules store config.ruleSet)
    (hlabels : LabelStore.goldLabels store s.task.id = .ok labels)
    (hlabels' : LabelStore.goldLabels other s.task.id = .ok labels')
    (h : s.validGold labels' = s.validGold labels) (stamp : RunStamp) (line : WorkerLine) :
    s.attempt other config stamp line = s.attempt store config stamp line := by
  have hground : s.ground other config = s.ground store config := by
    rw [ground, ground, hrules, hlabels, hlabels']
    refine bind_congr fun rules => ?_
    show s.groundOn config rules (s.validGold labels') =
      s.groundOn config rules (s.validGold labels)
    rw [h]
  have hprepare : s.prepare other config = s.prepare store config := by
    rw [prepare_eq, prepare_eq, hground]
  have hsame := sameTask_selectRuleSet s config.ruleSet
  rw [attempt, attempt, hsame.prepare_eq, hsame.prepare_eq, hprepare]

/-! ## What a run reports -/

section Reports

variable {stamp : RunStamp} {line : WorkerLine} {lesson : Lesson} {learned : Learned}
variable {result : LabelingResult}

/-- What a result takes from the lesson. -/
structure Reports (s : Session) (lesson : Lesson) (learned : Learned)
    (result : LabelingResult) : Prop where
  items : itemLabels s.table.keys lesson learned = .ok result.output.items
  aggregated : result.scores.aggregated =
    Score.ofItems s.table.keys lesson.gold (byKey s.table.keys lesson.aggregated)
  analysis : lesson.labeler.analysis
    (some (s.table.keys.map fun key => (lesson.gold key).getD abstain)) =
      .ok result.output.analysis

theorem reports_of_conclude (h : s.conclude config stamp lesson learned = .ok result) :
    s.Reports lesson learned result := by
  obtain ⟨scores, hscores, h⟩ := bind_eq_ok_iff.1 h
  obtain ⟨analysis, hanalysis, h⟩ := bind_eq_ok_iff.1 h
  obtain ⟨items, hitems, h⟩ := bind_eq_ok_iff.1 h
  obtain rfl := Except.ok.inj h
  obtain ⟨_, -, hscores⟩ := bind_eq_ok_iff.1 hscores
  obtain rfl := Except.ok.inj hscores
  exact ⟨hitems, rfl, hanalysis⟩

/-- **The labels of an item stand in its row.** -/
theorem Reports.exists_item (h : s.Reports lesson learned result) {i : Nat} {key : String}
    (hkey : s.table.keys[i]? = some key) : ∃ item, result.output.items[i]? = some item ∧
      item.key = key ∧ lesson.aggregated[i]? = some item.aggregated ∧
      lesson.targets[i]? = some item.target := by
  have hall := mapM_eq_ok_iff.1 h.items
  obtain ⟨hi, rfl⟩ := List.getElem?_eq_some_iff.1 hkey
  have hzip : i < s.table.keys.zipIdx.length := by rwa [List.length_zipIdx]
  have hitem : i < result.output.items.length := hall.length_eq ▸ hzip
  have hread := hall.get hzip hitem
  simp only [List.get_eq_getElem, List.getElem_zipIdx, Nat.zero_add] at hread
  obtain ⟨aggregated, haggregated, hread⟩ := bind_eq_ok_iff.1 hread
  obtain ⟨target, htarget, hread⟩ := bind_eq_ok_iff.1 hread
  obtain ⟨predicted, -, hread⟩ := bind_eq_ok_iff.1 hread
  refine ⟨result.output.items[i], List.getElem?_eq_getElem hitem, ?_⟩
  rw [← Except.ok.inj hread]
  exact ⟨rfl, orBreak_eq_ok_iff.1 haggregated, orBreak_eq_ok_iff.1 htarget⟩

theorem Reports.map_aggregated (h : s.Reports lesson learned result)
    (hlength : lesson.aggregated.length = s.table.keys.length) :
    result.output.items.map ItemLabels.aggregated = lesson.aggregated := by
  have hcount : result.output.items.length = s.table.keys.length := by
    rw [length_of_mapM h.items, List.length_zipIdx]
  refine List.ext_getElem? fun i => ?_
  by_cases hi : i < s.table.keys.length
  · obtain ⟨item, hitem, -, haggregated, -⟩ := h.exists_item (List.getElem?_eq_getElem hi)
    rw [List.getElem?_map, hitem, haggregated, Option.map_some]
  · rw [List.getElem?_eq_none (by rw [List.length_map]; omega),
      List.getElem?_eq_none (by omega)]

/-- **A run that succeeds** reports what it has learned from its lesson. -/
theorem exists_reports (h : (s.run store config stamp line).1 = .ok result) :
    ∃ lesson learned, s.prepare store config = .ok lesson ∧ s.Reports lesson learned result := by
  obtain ⟨lesson, learned, hlearns, hconclude, -⟩ := exists_of_run_eq_ok h
  have hprepare := hlearns.prepare
  rw [(sameTask_selectRuleSet s config.ruleSet).prepare_eq] at hprepare
  exact ⟨lesson, learned, hprepare, reports_of_conclude hconclude⟩

end Reports

/-! ## Overridden and untouched rows -/

/-- A row that is trained on nothing but a label, which the result records. It is
the reference label as well, as every label of 32 bits is. -/
structure Overridden (s : Session) (kind : SurrogateKind) (lesson : Lesson)
    (result : LabelingResult) (i : Nat) (key : String) (label : Int) : Prop where
  recorded : ∃ item, result.output.items[i]? = some item ∧ item.key = key ∧ item.target = label
  target : lesson.input.targets.row? i =
    some (.only kind s.labels.cardinality lesson.labeler.functions.length label)
  reference : label < Nat.pow 2 31 → ∃ reference,
    lesson.input.referenceLabels = .ok reference ∧ reference[i]? = some label

/-- A row that is trained on what it is trained on in a lesson without gold
labels. -/
structure Untouched (lesson plain : Lesson) (result : LabelingResult) (i : Nat)
    (key : String) : Prop where
  recorded : ∃ item, result.output.items[i]? = some item ∧ item.key = key ∧
    plain.targets[i]? = some item.target
  target : ∃ t, lesson.input.targets.row? i = some t ∧ plain.input.targets.row? i = some t
  reference : ∃ reference reference' label, lesson.input.referenceLabels = .ok reference ∧
    plain.input.referenceLabels = .ok reference' ∧
    reference[i]? = some label ∧ reference'[i]? = some label

section Rows

variable {g : Ground} {kind : SurrogateKind} {targets plain : Targets} {learned : Learned}
variable {result : LabelingResult} {i : Nat} {key : String}

/-- The reference labels of a lesson. -/
theorem Ground.Complete.exists_reference (hg : g.Complete s) (includeGold : Bool)
    (hfit : targets.Fit s.table.size s.labels.cardinality) :
    ∃ reference, (g.lesson s includeGold targets).input.referenceLabels = .ok reference ∧
      ∀ i t, i < s.table.size → targets.row? i = some t → reference[i]? = some t.label := by
  have hvalid : SurrogateInput.Valid ⟨g.x, targets, s.labels.cardinality⟩ :=
    ⟨hg.wellShaped, hg.rows_eq ▸ hfit, hg.two_le⟩
  obtain ⟨reference, hreference, -⟩ := hvalid.referenceLabels.exists_ok
  exact ⟨reference, hreference, fun i t hi ht =>
    SurrogateInput.getElem?_referenceLabels hreference hfit hi ht⟩

/-- **The row of an item with a gold label in effect is overridden.** -/
theorem Ground.Complete.overridden (hg : g.Complete s)
    (h : g.targets s kind true = .ok targets)
    (hfit : targets.Fit s.table.size s.labels.cardinality)
    (hreports : s.Reports (g.lesson s true targets) learned result)
    (hkey : s.table.keys[i]? = some key) {label : Int} (hlabel : g.gold key = some label) :
    s.Overridden kind (g.lesson s true targets) result i key label := by
  have hi : i < s.table.size := (List.getElem?_eq_some_iff.1 hkey).1
  obtain ⟨plain, hplain, -⟩ := hg.exists_targets kind false
  have hrow := (hg.row_targets h hplain hkey).1 label hlabel
  refine ⟨?_, hrow, fun hword => ?_⟩
  · obtain ⟨item, hitem, hitemKey, -, htarget⟩ := hreports.exists_item hkey
    refine ⟨item, hitem, hitemKey, ?_⟩
    have hlt : i < g.found.labels.length := by rwa [hg.labels.found.count]
    have hread : (g.labels s true)[i]? = some label := by
      rw [Ground.labels, getElem?_targetLabels hkey, List.getElem?_eq_getElem hlt, hlabel]
      rfl
    exact Option.some.inj (htarget.symm.trans hread)
  · obtain ⟨reference, hreference, hread⟩ := hg.exists_reference true hfit
    obtain ⟨hneg, hlt⟩ := hg.gold key label hlabel
    refine ⟨reference, hreference, ?_⟩
    rw [hread i _ hi hrow, RowTarget.label_only hneg hlt hword]

/-- **The row of an item without a gold label in effect is untouched.** -/
theorem Ground.Complete.untouched (hg : g.Complete s)
    (h : g.targets s kind true = .ok targets)
    (hfit : targets.Fit s.table.size s.labels.cardinality)
    (hplain : g.targets s kind false = .ok plain)
    (hplainFit : plain.Fit s.table.size s.labels.cardinality)
    (hreports : s.Reports (g.lesson s true targets) learned result)
    (hkey : s.table.keys[i]? = some key) (hnone : g.gold key = none) :
    Untouched (g.lesson s true targets) (g.lesson s false plain) result i key := by
  have hi : i < s.table.size := (List.getElem?_eq_some_iff.1 hkey).1
  have hrow := (hg.row_targets h hplain hkey).2 hnone
  obtain ⟨t, ht⟩ := hplainFit.exists_row? hi
  refine ⟨?_, ⟨t, hrow.trans ht, ht⟩, ?_⟩
  · obtain ⟨item, hitem, hitemKey, -, htarget⟩ := hreports.exists_item hkey
    refine ⟨item, hitem, hitemKey, ?_⟩
    have hlt : i < g.found.labels.length := by rwa [hg.labels.found.count]
    have hread : (g.labels s true)[i]? = (g.labels s false)[i]? := by
      rw [Ground.labels, getElem?_targetLabels hkey, List.getElem?_eq_getElem hlt, hnone]
      exact (List.getElem?_eq_getElem hlt).symm
    exact hread.symm.trans htarget
  · obtain ⟨reference, hreference, hread⟩ := hg.exists_reference true hfit
    obtain ⟨reference', hreference', hread'⟩ := hg.exists_reference false hplainFit
    exact ⟨reference, reference', t.label, hreference, hreference',
      hread i t hi (hrow.trans ht), hread' i t hi ht⟩

end Rows

/-- **Gold labels override exactly the rows of their items, and only for
training.** Where a run succeeds that puts gold labels in the place of labels
found, the item of every gold label that is one of the task has it as its
recorded target and as its reference label, and is trained on nothing else:
all of the mass of its distribution, and all of the votes on it, are that
label's. Every other item is trained on what it is trained on without gold
labels. Gold labels for other items and gold labels that are none of the task
can as well be missing. A run on the same contents that differs only in not
using gold labels reports the same labels found, scores them the same and
analyses the votes the same. -/
theorem gold_overrides_targets {task : Task} {table : FeatureTable} {s₀ : Session}
    (h₀ : new task table = .ok s₀) (calls : List (Call σ)) (store : σ) (config : RunConfig)
    (stamp : RunStamp) (line : WorkerLine) (result : LabelingResult) :
    let s := s₀.after calls
    s.table.Shaped → (s.run store (config.withGold true) stamp line).1 = .ok result →
    ∃ labels lesson plain, LabelStore.goldLabels store s.task.id = .ok labels ∧
      s.prepare store (config.withGold true) = .ok lesson ∧
      s.prepare store (config.withGold false) = .ok plain ∧
      (∀ i key, s.table.keys[i]? = some key → ∀ label, GoldLabel.byItem labels key = some label →
        0 ≤ label → label < s.labels.cardinality →
        s.Overridden config.learning.model.kind lesson result i key label) ∧
      (∀ i key, s.table.keys[i]? = some key →
        (∀ label, GoldLabel.byItem labels key = some label →
          ¬(0 ≤ label ∧ label < s.labels.cardinality)) →
        Untouched lesson plain result i key) ∧
      ((∀ g ∈ labels, ∀ g' ∈ labels, g.item = g'.item → s.usable g = s.usable g') →
        ∀ other : σ, LabelStore.rules other config.ruleSet = LabelStore.rules store config.ruleSet →
          LabelStore.goldLabels other s.task.id = .ok (labels.filter s.usable) →
          ∀ stamp line, s.attempt other (config.withGold true) stamp line =
            s.attempt store (config.withGold true) stamp line) ∧
      ∀ stamp' line' result', (s.run store (config.withGold false) stamp' line').1 = .ok result' →
        result.output.items.map ItemLabels.aggregated =
            result'.output.items.map ItemLabels.aggregated ∧
          result.scores.aggregated = result'.scores.aggregated ∧
          result.output.analysis = result'.output.analysis := by
  intro s hshaped hrun
  have hs : s.Sound := (sound_new h₀).after calls
  obtain ⟨lesson, learned, hlesson, hreports⟩ := exists_reports hrun
  obtain ⟨g, hground, -⟩ := bind_eq_ok_iff.1 ((prepare_eq s store _).symm.trans hlesson)
  obtain ⟨hg, labels, hlabels, hgold⟩ := hs.complete_of_ground hshaped hground
  obtain ⟨targets, htargets, hfit, rfl⟩ := (hg.prepare_eq_ok_iff hground).1 hlesson
  -- the run without gold labels starts from the same votes and labels
  have hground' : s.ground store (config.withGold false) = .ok g := hground
  obtain ⟨plain, hplain, hplainFit⟩ := hg.exists_targets config.learning.model.kind false
  have hplainLesson : s.prepare store (config.withGold false) = .ok (g.lesson s false plain) :=
    (hg.prepare_eq_ok_iff hground').2 ⟨plain, hplain, hplainFit, rfl⟩
  have hmem : ∀ {i key}, s.table.keys[i]? = some key → key ∈ s.table.keys :=
    List.mem_of_getElem?
  refine ⟨labels, _, _, hlabels, hlesson, hplainLesson, ?_, ?_, ?_, ?_⟩
  · intro i key hkey label hlabel hneg hlt
    have heffect : g.gold key = some label := by
      rw [hgold]
      exact (validGold_eq_some_iff (hmem hkey)).2 ⟨hlabel, hneg, hlt⟩
    exact hg.overridden htargets hfit hreports hkey heffect
  · intro i key hkey hother
    have hnone : g.gold key = none := by
      rw [hgold, Option.eq_none_iff_forall_ne_some]
      intro label hlabel
      obtain ⟨hitem, hrange⟩ := (validGold_eq_some_iff (hmem hkey)).1 hlabel
      exact hother label hitem hrange
    exact hg.untouched htargets hfit hplain hplainFit hreports hkey hnone
  · intro halike other hrules hlabels'
    exact attempt_congr (config.withGold true) hrules hlabels hlabels' (validGold_filter halike)
  · intro stamp' line' result' hrun'
    obtain ⟨lesson', learned', hlesson', hreports'⟩ := exists_reports hrun'
    obtain rfl := Except.ok.inj (hplainLesson.symm.trans hlesson')
    have hcount : g.found.labels.length = s.table.keys.length := hg.labels.found.count
    refine ⟨?_, hreports.aggregated.trans hreports'.aggregated.symm, ?_⟩
    · rw [hreports.map_aggregated hcount, hreports'.map_aggregated hcount]
      rfl
    · exact Except.ok.inj (hreports.analysis.symm.trans hreports'.analysis)

/-- Three items: one with a gold label, one with a gold label that is none of
the task, and one without any. -/
theorem gold_overrides_targets_three :
    let gold : List GoldLabel := [⟨"g", "c", 0, "reader", "quality"⟩,
      ⟨"h", "b", 7, "reader", "quality"⟩, ⟨"k", "z", 1, "reader", "quality"⟩]
    let store : MemoryStore := { Sample.store with gold }
    let fewer : MemoryStore := { Sample.store with gold := gold.take 1 }
    let config := Sample.config
    let stamp := Sample.stamp
    let line := Sample.line
    let s := (Sample.session Sample.threeItems).after [Call.run store config stamp line]
    new Sample.task Sample.threeItems = .ok (Sample.session Sample.threeItems) ∧ s.table.Shaped ∧
      ∃ result lesson plain, (s.run store (config.withGold true) stamp line).1 = .ok result ∧
        s.prepare store (config.withGold true) = .ok lesson ∧
        s.prepare store (config.withGold false) = .ok plain ∧
        s.Overridden .closedForm lesson result 2 "c" 0 ∧
        Untouched lesson plain result 0 "a" ∧ Untouched lesson plain result 1 "b" ∧
        s.attempt fewer (config.withGold true) stamp line =
          s.attempt store (config.withGold true) stamp line ∧
        ∃ result', (s.run store (config.withGold false) stamp line).1 = .ok result' ∧
          result.output.items.map ItemLabels.aggregated =
            result'.output.items.map ItemLabels.aggregated := by
  intro gold store fewer config stamp line s
  have hnew := Sample.new_session Sample.threeItems
  have hshaped : s.table.Shaped := FeatureTable.shaped_of_new
    (show FeatureTable.new Sample.threeItems.keys Sample.threeItems.columns = .ok s.table by
      decide +kernel)
  have hlabels : LabelStore.goldLabels store s.task.id = .ok gold := by decide +kernel
  have hkeys : s.table.keys = ["a", "b", "c"] := by decide +kernel
  have hfewer : LabelStore.goldLabels fewer s.task.id = .ok (gold.filter s.usable) ∧
      ∀ g ∈ gold, ∀ g' ∈ gold, g.item = g'.item → s.usable g = s.usable g' := by decide +kernel
  have hrun : (s.run store (config.withGold true) stamp line).1.toOption.any (fun _ => true) =
      true := by decide +kernel
  have hrun' : (s.run store (config.withGold false) stamp line).1.toOption.any (fun _ => true) =
      true := by decide +kernel
  obtain ⟨result, hrun, -⟩ := exists_of_any hrun
  obtain ⟨result', hrun', -⟩ := exists_of_any hrun'
  obtain ⟨labels, lesson, plain, hread, hlesson, hplain, hgold, hother, huseless, hsame⟩ :=
    gold_overrides_targets hnew [Call.run store config stamp line] store config stamp line result
      hshaped hrun
  obtain rfl := Except.ok.inj (hlabels.symm.trans hread)
  -- no gold label of a task of two labels is 7, and "a" has none
  have hnone : ∀ key ∈ ["a", "b"], ∀ label, GoldLabel.byItem gold key = some label →
      ¬(0 ≤ label ∧ label < s.labels.cardinality) := by decide +kernel
  refine ⟨hnew, hshaped, result, lesson, plain, hrun, hlesson, hplain, ?_, ?_, ?_, ?_, result',
    hrun', (hsame stamp line result' hrun').1⟩
  · exact hgold 2 "c" (congrArg (·[2]?) hkeys) 0 (by decide) (by decide) (by decide +kernel)
  · exact hother 0 "a" (congrArg (·[0]?) hkeys) (hnone "a" (by decide))
  · exact hother 1 "b" (congrArg (·[1]?) hkeys) (hnone "b" (by decide))
  · exact huseless hfewer.2 fewer rfl hfewer.1 stamp line

end Session

end RuleVote
