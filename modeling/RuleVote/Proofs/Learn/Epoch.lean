import Mathlib.Algebra.Ring.Nat
import Mathlib.Data.List.Perm.Basic
import RuleVote.Proofs.Learn.Network
import RuleVote.Proofs.Matrix.RowWise
/-!
# The minibatches of an epoch

An epoch puts the rows in random order, cuts this order into pieces and trains on
the rows of each piece. The pieces are of the batch size at most and none is empty
(`length_of_mem_pieces`), and together they are the order that was drawn, which has
every row once. Rows and targets are selected by the same piece, so each row comes
with its own targets (`Samples.Sized.exists_selects`). Hence an epoch trains on every row
exactly once, whatever is drawn (`Perceptron.trainEpoch_covers_rows`).
-/

namespace RuleVote

/-! ## Pieces -/

/-- **No piece is empty or larger than it may be.** -/
theorem length_of_mem_pieces {α : Type} {size : Nat} (hsize : 1 ≤ size) {as piece : List α}
    (h : piece ∈ pieces size as) : 1 ≤ piece.length ∧ piece.length ≤ size := by
  fun_induction pieces size as with
  | case1 as hlast hempty => cases h
  | case2 as hlast hempty =>
    obtain rfl := List.mem_singleton.1 h
    have hne : piece ≠ [] := by simpa using hempty
    have hpos := List.length_pos_of_ne_nil hne
    omega
  | case3 as hmore ih =>
    rcases List.mem_cons.1 h with rfl | hrest
    · rw [List.length_take]
      omega
    · exact ih hrest

/-! ## Rows with their targets -/

/-- Rows to train on and the targets that belong to them. -/
structure Samples where
  /-- The rows. -/
  x : Matrix Float32
  /-- The targets. -/
  targets : Matrix Float32

namespace Samples

variable {d part : Samples} {rows features classes : Nat} {indices : List Nat}

/-- Each row with its target. -/
def pairs (d : Samples) : Fallible (List (List Float32 × List Float32)) := do
  return (← d.x.allRows).zip (← d.targets.allRows)

/-- The given rows with their targets. -/
def select (d : Samples) (indices : List Nat) : Fallible Samples := do
  return ⟨← d.x.selectRows indices, ← d.targets.selectRows indices⟩

/-- So many rows of so many features, with a target for each. -/
structure Sized (d : Samples) (rows features classes : Nat) : Prop where
  x : d.x.Sized rows features
  targets : d.targets.Sized rows classes

theorem pairs_eq_ok {xs ts : List (List Float32)} (hxs : d.x.allRows = .ok xs)
    (hts : d.targets.allRows = .ok ts) : d.pairs = .ok (xs.zip ts) := by
  rw [pairs, hxs, hts]
  rfl

theorem Sized.exists_pairs (hd : d.Sized rows features classes) :
    ∃ all, d.pairs = .ok all ∧ all.length = rows := by
  obtain ⟨xs, hxs⟩ := Matrix.exists_allRows hd.x.wellShaped
  obtain ⟨ts, hts⟩ := Matrix.exists_allRows hd.targets.wellShaped
  refine ⟨xs.zip ts, pairs_eq_ok hxs hts, ?_⟩
  rw [List.length_zip, (Matrix.shape_of_allRows hxs).1, (Matrix.shape_of_allRows hts).1,
    hd.x.rows_eq, hd.targets.rows_eq, Nat.min_self]

/-- A part of the rows: those at given positions, each with its own target. -/
structure Selects (d : Samples) (indices : List Nat) (part : Samples) : Prop where
  select_eq : d.select indices = .ok part
  sized : part.Sized indices.length d.x.cols d.targets.cols
  picks : ∀ all, d.pairs = .ok all → ∃ picked, part.pairs = .ok picked ∧ Picks indices all picked

/-- **Rows that are selected come with their own targets.** -/
theorem Sized.exists_selects (hd : d.Sized rows features classes)
    (hindices : ∀ i ∈ indices, i < rows) : ∃ part, d.Selects indices part := by
  obtain ⟨xs, hxs⟩ := Matrix.exists_allRows hd.x.wellShaped
  obtain ⟨ts, hts⟩ := Matrix.exists_allRows hd.targets.wellShaped
  obtain ⟨hxsCount, hxsWidth⟩ := Matrix.shape_of_allRows hxs
  obtain ⟨htsCount, htsWidth⟩ := Matrix.shape_of_allRows hts
  obtain ⟨pickedXs, hpickedXs⟩ : ∃ picked, Picks indices xs picked :=
    Picks.exists_of_lt fun i hi => (hxsCount.trans hd.x.rows_eq).symm ▸ hindices i hi
  obtain ⟨pickedTs, hpickedTs⟩ : ∃ picked, Picks indices ts picked :=
    Picks.exists_of_lt fun i hi => (htsCount.trans hd.targets.rows_eq).symm ▸ hindices i hi
  have hwidthXs : ∀ r ∈ pickedXs, r.length = d.x.cols := fun r hr => hxsWidth r (hpickedXs.mem hr)
  have hwidthTs : ∀ r ∈ pickedTs, r.length = d.targets.cols :=
    fun r hr => htsWidth r (hpickedTs.mem hr)
  refine ⟨⟨Matrix.ofRowsOf d.x.cols pickedXs, Matrix.ofRowsOf d.targets.cols pickedTs⟩, ?_, ?_, ?_⟩
  · exact bind_eq_ok_iff.2 ⟨_, Matrix.selectRows_of_picks hxs hpickedXs,
      bind_eq_ok_iff.2 ⟨_, Matrix.selectRows_of_picks hts hpickedTs, rfl⟩⟩
  · exact ⟨Matrix.sized_ofRowsOf (List.Forall₂.length_eq hpickedXs).symm hwidthXs,
      Matrix.sized_ofRowsOf (List.Forall₂.length_eq hpickedTs).symm hwidthTs⟩
  · intro all hall
    obtain rfl := Except.ok.inj ((pairs_eq_ok hxs hts).symm.trans hall)
    exact ⟨_, pairs_eq_ok (Matrix.allRows_ofRowsOf hwidthXs) (Matrix.allRows_ofRowsOf hwidthTs),
      hpickedXs.zip hpickedTs⟩

/-- Parts that have every row once among them: none is empty or larger than it may be,
they are selected at positions that are all positions in some order, and their rows with
their targets are those of the whole. -/
structure Covers (d : Samples) (size : Nat) (parts : List Samples) : Prop where
  size : ∀ part ∈ parts, 1 ≤ part.x.rows ∧ part.x.rows ≤ size
  sized : ∀ part ∈ parts, part.Sized part.x.rows d.x.cols d.targets.cols
  sum : (parts.map fun part => part.x.rows).sum = d.x.rows
  positions : ∃ pieces : List (List Nat), pieces.flatten.Perm (List.range d.x.rows) ∧
    pieces.mapM d.select = .ok parts
  perm : ∃ all picked, d.pairs = .ok all ∧ parts.mapM pairs = .ok picked ∧ picked.flatten.Perm all

/-- **Pieces that have every position once select parts that have every row once.** -/
theorem Sized.exists_covers (hd : d.Sized rows features classes) {size : Nat}
    {pieces : List (List Nat)} (hperm : pieces.flatten.Perm (List.range rows))
    (hsize : ∀ piece ∈ pieces, 1 ≤ piece.length ∧ piece.length ≤ size) :
    ∃ parts, pieces.mapM d.select = .ok parts ∧ d.Covers size parts := by
  have hselects : ∀ piece ∈ pieces, ∃ part, d.Selects piece part := fun piece hpiece =>
    hd.exists_selects fun i hi =>
      List.mem_range.1 (hperm.mem_iff.1 (List.mem_flatten_of_mem hpiece hi))
  -- a part for each piece, and for each part its rows with their targets
  have : Nonempty Samples := ⟨d⟩
  choose! part hpart using hselects
  obtain ⟨all, hall, hcount⟩ := hd.exists_pairs
  have hpicks : ∀ piece ∈ pieces, ∃ picked, (part piece).pairs = .ok picked ∧
      Picks piece all picked := fun piece hpiece => (hpart piece hpiece).picks all hall
  choose! picked hpicked using hpicks
  have hselect : pieces.mapM d.select = .ok (pieces.map part) :=
    mapM_eq_ok_iff.2 (List.forall₂_map_right_iff.2 (List.forall₂_same.2 fun piece hpiece =>
      (hpart piece hpiece).select_eq))
  have hrows : ∀ piece ∈ pieces, (part piece).x.rows = piece.length :=
    fun piece hpiece => (hpart piece hpiece).sized.x.rows_eq
  refine ⟨pieces.map part, hselect, ⟨?_, ?_, ?_, ?_, all, (pieces.map picked), hall, ?_, ?_⟩⟩
  · refine List.forall_mem_map.2 fun piece hpiece => ?_
    rw [hrows piece hpiece]
    exact hsize piece hpiece
  · refine List.forall_mem_map.2 fun piece hpiece => ?_
    rw [hrows piece hpiece]
    exact (hpart piece hpiece).sized
  · rw [List.map_map, hd.x.rows_eq, ← List.length_range (n := rows), ← hperm.length_eq,
      List.length_flatten]
    exact congrArg List.sum (List.map_congr_left hrows)
  · exact ⟨pieces, hd.x.rows_eq ▸ hperm, hselect⟩
  · refine mapM_eq_ok_iff.2 (List.forall₂_map_left_iff.2 (List.forall₂_map_right_iff.2 ?_))
    exact List.forall₂_same.2 fun piece hpiece => (hpicked piece hpiece).1
  · refine (Picks.flatten (List.forall₂_map_right_iff.2 ?_)).perm (hcount.symm ▸ hperm)
    exact List.forall₂_same.2 fun piece hpiece => (hpicked piece hpiece).2

end Samples

namespace Perceptron

variable {p : Perceptron} {x targets : Matrix Float32} {rows : Nat}

/-- The minibatches of an epoch: the rows of each piece with their targets. -/
def minibatches (p : Perceptron) (d : Samples) (s : KeyStream) : Fallible (List Samples) :=
  (batches p.settings.batchSize d.x.rows s).1.mapM d.select

/-- Trains on minibatches in turn; `total` is the sum of their losses, each times the
number of its rows. -/
def trainOn : List Samples → Float32 → Perceptron → KeyStream →
    Fallible (Float32 × Perceptron × KeyStream)
  | [], total, p, s => .ok (total, p, s)
  | part :: rest, total, p, s => do
    let (loss, p, s) ← p.trainBatch part.x part.targets s
    trainOn rest (total + loss * ofCount part.x.rows) p s

/-- **Training on batches of positions is training on the rows at them.** -/
theorem trainBatches_eq_trainOn {pieces : List (List Nat)} {parts : List Samples}
    (h : pieces.mapM (Samples.select ⟨x, targets⟩) = .ok parts) (total : Float32)
    (p : Perceptron) (s : KeyStream) :
    trainBatches x targets pieces total p s = trainOn parts total p s := by
  induction mapM_eq_ok_iff.1 h generalizing total p s with
  | nil => rfl
  | @cons piece part _ _ hpart hrest ih =>
    obtain ⟨xPart, hx, hpart⟩ := bind_eq_ok_iff.1 hpart
    obtain ⟨targetsPart, htargets, hpart⟩ := bind_eq_ok_iff.1 hpart
    obtain rfl : ⟨xPart, targetsPart⟩ = part := Except.ok.inj hpart
    have hrows : xPart.rows = piece.length := Matrix.rows_of_selectRows hx
    rw [trainBatches, hx, htargets, trainOn, hrows]
    exact bind_congr fun result => ih (mapM_eq_ok_iff.2 hrest) _ _ _

/-- **An epoch trains on every row exactly once.** Its minibatches, whatever the order
that is drawn, have from one row to as many as the batch size, and their rows with their
targets are those it was given, each once. It trains on one after the other, and on all
of them where the layers of the network fit together. -/
theorem trainEpoch_covers_rows (hx : x.Sized rows p.features)
    (htargets : targets.Sized rows p.classes) (hrows : rows ≠ 0) (hsize : 1 ≤ p.settings.batchSize)
    (s : KeyStream) : ∃ parts, p.minibatches ⟨x, targets⟩ s = .ok parts ∧
      Samples.Covers ⟨x, targets⟩ p.settings.batchSize parts ∧
      p.trainEpoch x targets s = (do
        let (total, p, s) ← trainOn parts 0 p (batches p.settings.batchSize x.rows s).2
        return (total / ofCount x.rows, { p with epochsRun := p.epochsRun + 1 }, s)) ∧
      (p.Sized p.features p.classes → ∃ result, p.trainEpoch x targets s = .ok result) := by
  have hd : Samples.Sized ⟨x, targets⟩ rows p.features p.classes := ⟨hx, htargets⟩
  have hperm : (batches p.settings.batchSize x.rows s).1.flatten.Perm (List.range rows) :=
    hx.rows_eq ▸ flatten_batches_perm p.settings.batchSize x.rows s
  obtain ⟨parts, hparts, hcovers⟩ :=
    hd.exists_covers hperm fun piece hpiece => length_of_mem_pieces hsize hpiece
  refine ⟨parts, hparts, hcovers, ?_, fun hp => ?_⟩
  · rw [trainEpoch, checkTargets_eq_ok hx htargets hrows]
    dsimp only
    rw [← trainBatches_eq_trainOn hparts]
    rfl
  · obtain ⟨result, hresult, -⟩ := (hp.trainEpoch hx htargets hrows s).exists_ok
    exact ⟨result, hresult⟩

/-- Three rows in batches of two: the last batch is smaller. -/
theorem trainEpoch_covers_rows_uneven :
    let settings := { NetworkSettings.standard with batchSize := 2 }
    let p : Perceptron := ⟨[], ⟨.uniform 2 1 0, [0, 0]⟩, .new 1, settings, 1, 2, 0⟩
    let x : Matrix Float32 := ⟨#[3, 4, 5], 3, 1⟩
    let targets : Matrix Float32 := ⟨#[1, 0, 0, 1, 1, 0], 3, 2⟩
    x.Sized 3 p.features ∧ targets.Sized 3 p.classes ∧ 1 ≤ p.settings.batchSize ∧
      ∃ parts result, p.minibatches ⟨x, targets⟩ (KeyStream.ofSeed 7) = .ok parts ∧
        Samples.Covers ⟨x, targets⟩ 2 parts ∧
        p.trainEpoch x targets (KeyStream.ofSeed 7) = .ok result := by
  intro settings p x targets
  have hx : x.Sized 3 p.features := ⟨rfl, rfl, rfl⟩
  have htargets : targets.Sized 3 p.classes := ⟨rfl, rfl, rfl⟩
  have hsize : 1 ≤ p.settings.batchSize := by decide
  have hp : p.Sized p.features p.classes :=
    ⟨rfl, rfl, ⟨1, .nil, ⟨Matrix.sized_uniform 2 1 0, rfl⟩⟩, Adam.balanced_new 1⟩
  obtain ⟨parts, hparts, hcovers, -, hends⟩ :=
    trainEpoch_covers_rows hx htargets (by decide) hsize (KeyStream.ofSeed 7)
  obtain ⟨result, hresult⟩ := hends hp
  exact ⟨hx, htargets, hsize, parts, result, hparts, hcovers, hresult⟩

end Perceptron

end RuleVote
