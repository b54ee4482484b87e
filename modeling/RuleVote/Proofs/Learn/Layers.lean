import RuleVote.Learn.Linear
import RuleVote.Proofs.Matrix.Shape
import RuleVote.Proofs.Random.Draw
/-!
# The shape of layers

A layer of so many inputs and outputs (`Linear.Sized`) takes rows of its inputs
to rows of its outputs, and a gradient at the outputs to one at the inputs and
one at the parameters, which has their shape (`Linear.Sized.forward`,
`Linear.Sized.backward`).
-/

namespace RuleVote

theorem length_addScaled (factor : Float32) :
    ∀ acc xs : List Float32, (addScaled factor acc xs).length = acc.length
  | _ :: acc, _ :: xs => congrArg (· + 1) (length_addScaled factor acc xs)
  | _ :: _, [] => rfl
  | [], [] => rfl
  | [], _ :: _ => rfl

/-- A gradient at the parameters of a layer of so many inputs and outputs. -/
structure LinearGradient.Sized (g : LinearGradient) (inputs outputs : Nat) : Prop where
  weight : g.weight.Sized outputs inputs
  bias : g.bias.length = outputs

namespace Linear

variable {E : Failure → Prop} {l : Linear} {x gradOut : Matrix Float32}
variable {rows inputs outputs : Nat}

/-- A layer of so many inputs and outputs. -/
structure Sized (l : Linear) (inputs outputs : Nat) : Prop where
  weight : l.weight.Sized outputs inputs
  bias : l.bias.length = outputs

/-- There is room for the weights and for the biases of a layer. -/
def HasRoom (inputs outputs : Nat) : Prop := outputs * inputs < capacity ∧ outputs < capacity

instance (inputs outputs : Nat) : Decidable (HasRoom inputs outputs) :=
  inferInstanceAs (Decidable (_ ∧ _))

/-- **A layer that there is room for is made.** -/
theorem ends_random (hroom : HasRoom inputs outputs) (s : KeyStream) :
    Ends (random inputs outputs s) E fun result => result.1.Sized inputs outputs := by
  refine Ends.bind (P := fun result => result.1.Sized outputs inputs) ?_ ?_
  · refine (Ends.reserve hroom.1).bind fun _ _ => .ok ?_
    exact ⟨rfl, rfl, KeyStream.length_several _ _ _⟩
  · rintro ⟨weight, s⟩ hweight
    exact (Ends.reserve hroom.2).bind fun _ _ => .ok ⟨hweight, List.length_replicate⟩

theorem hasRoom_of_random {s s' : KeyStream} (h : random inputs outputs s = .ok (l, s')) :
    HasRoom inputs outputs := by
  obtain ⟨⟨weight, _⟩, hweights, h⟩ := bind_eq_ok_iff.1 h
  obtain ⟨_, hweight, -⟩ := bind_eq_ok_iff.1 hweights
  obtain ⟨_, hbias, -⟩ := bind_eq_ok_iff.1 h
  exact ⟨reserve_eq_ok_iff.1 hweight, reserve_eq_ok_iff.1 hbias⟩

/-! ## Forward -/

theorem Sized.forwardRow (hl : l.Sized inputs outputs) (row : List Float32) :
    Ends (l.forwardRow row) E fun out => out.length = outputs := by
  have houtput : ∀ o ∈ List.range l.weight.rows,
      Ends (do return (← orBreak l.bias[o]?) + dotSingle (← l.weight.row o) row) E
        fun _ => True := by
    intro o ho
    have ho : o < outputs := hl.weight.rows_eq ▸ List.mem_range.1 ho
    have hbias := List.getElem?_eq_getElem (hl.bias ▸ ho)
    refine (Ends.orBreak (P := fun _ => True) hbias trivial).bind fun _ _ => ?_
    exact (hl.weight.row ho).bind fun _ _ => .ok trivial
  refine (Ends.mapM houtput).imp fun out hout => ?_
  rw [hout.1, List.length_range, hl.weight.rows_eq]

/-- **A layer takes rows of its inputs to rows of its outputs.** -/
theorem Sized.forward (hl : l.Sized inputs outputs) (hx : x.Sized rows inputs) :
    Ends (l.forward x) E (·.Sized rows outputs) := by
  have hcols : (x.cols == l.weight.cols) = true := by
    rw [hx.cols_eq, hl.weight.cols_eq]
    exact beq_self_eq_true inputs
  refine (Ends.assertThat hcols).bind fun _ _ => hx.allRows.bind fun rs hrs => ?_
  refine (Ends.mapM fun row _ => hl.forwardRow row).bind fun outs houts => .ok ?_
  rw [hl.weight.rows_eq]
  exact Matrix.sized_ofRowsOf (houts.1.trans hrs.1) houts.2

/-! ## Backward -/

theorem lt_length_of_mem_activeOutputs {gradients : List Float32} {p : Float32 × Nat}
    (hp : p ∈ activeOutputs gradients) : p.2 < gradients.length :=
  List.snd_lt_of_mem_zipIdx (l := gradients) (List.mem_filter.1 hp).1

theorem Sized.checkActive (hl : l.Sized inputs outputs) (hx : x.Sized rows inputs) {row o : Nat}
    (hrow : row < rows) (ho : o < outputs) :
    Ends (l.checkActive x row o) E fun _ => True := by
  have houtput : decide (o < l.weight.rows) = true := decide_eq_true (hl.weight.rows_eq ▸ ho)
  have hweights : (l.weight.row? o).isSome = true := by
    rw [Matrix.row?, if_pos (hl.weight.next_le ho)]
    rfl
  have hinput : (l.weight.cols == 0 || decide (row < x.rows)) = true := by
    rw [hx.rows_eq, decide_eq_true hrow, Bool.or_true]
  refine (Ends.assertThat houtput).bind fun _ _ => ?_
  exact (Ends.assertThat hweights).bind fun _ _ => Ends.assertThat hinput

theorem Sized.inputGradient (hl : l.Sized inputs outputs) {gradients : List Float32}
    (hlength : gradients.length = outputs) :
    Ends (l.inputGradient gradients) E fun reached => reached.length = inputs := by
  refine Ends.foldlM (fun acc hacc p hp => ?_) ?_
  · have hp : p.2 < outputs := hlength ▸ lt_length_of_mem_activeOutputs hp
    refine (hl.weight.row hp).bind fun weights _ => .ok ?_
    rw [length_addScaled, hacc]
  · exact List.length_replicate.trans hl.weight.cols_eq

theorem length_weightGradient (inputs o : Nat) (pairs : List (List Float32 × List Float32)) :
    (weightGradient inputs o pairs).length = inputs := by
  refine List.foldlRecOn (motive := (List.length · = inputs)) pairs _ List.length_replicate ?_
  rintro acc hacc ⟨xs, gradients⟩ -
  dsimp only
  split
  · split_ifs
    · rw [length_addScaled, hacc]
    · exact hacc
  · exact hacc

/-- **A gradient at the outputs is taken to one at the inputs and one at the
parameters.** -/
theorem Sized.backward (hl : l.Sized inputs outputs) (hx : x.Sized rows inputs)
    (hgrad : gradOut.Sized rows outputs) : Ends (l.backward x gradOut) E fun result =>
      result.1.Sized rows inputs ∧ result.2.Sized inputs outputs := by
  refine hgrad.allRows.bind fun gradRows hgradRows => ?_
  have hinputs : ∀ i ∈ List.range gradOut.rows, Ends (x.row i) E fun _ => True := by
    intro i hi
    exact (hx.row (hgrad.rows_eq ▸ List.mem_range.1 hi)).imp fun _ _ => trivial
  refine (Ends.mapM hinputs).bind fun inputRows _ => ?_
  have hactive : ∀ p ∈ gradRows.zipIdx, Ends ((activeOutputs p.1).forM fun q =>
      l.checkActive x p.2 q.2) E fun _ => True := by
    rintro ⟨gradients, i⟩ hp
    have hi : i < rows := hgradRows.1 ▸ List.snd_lt_of_mem_zipIdx (l := gradRows) hp
    have hlength := (hgradRows.2 gradients (List.fst_mem_of_mem_zipIdx hp)).1
    exact Ends.forM fun q hq =>
      hl.checkActive hx hi (hlength ▸ lt_length_of_mem_activeOutputs hq)
  refine (Ends.forM hactive).bind fun _ _ => ?_
  have hreached : ∀ gradients ∈ gradRows,
      Ends (l.inputGradient gradients) E fun reached => reached.length = inputs :=
    fun gradients hmem => hl.inputGradient (hgradRows.2 gradients hmem).1
  refine (Ends.mapM hreached).bind fun reached hreached => .ok ⟨?_, ?_, ?_⟩
  · have hlength : reached.length = rows := hreached.1.trans hgradRows.1
    have hall : (reached ++ List.replicate (x.rows - gradOut.rows)
        (zeroVector l.weight.cols)).take x.rows = reached := by
      rw [hx.rows_eq, hgrad.rows_eq, Nat.sub_self, List.replicate_zero, List.append_nil,
        List.take_of_length_le hlength.le]
    rw [hall, hl.weight.cols_eq]
    exact Matrix.sized_ofRowsOf hlength hreached.2
  · rw [hl.weight.cols_eq, hl.weight.rows_eq]
    exact Matrix.sized_ofRowsOf_map List.length_range fun o _ =>
      length_weightGradient inputs o _
  · rw [List.length_map, List.length_range, hl.weight.rows_eq]

end Linear

end RuleVote
