import RuleVote.Learn.Perceptron
import RuleVote.Proofs.Learn.Layers
import RuleVote.Proofs.Random.Draw
import RuleVote.Proofs.Voter.Probabilities
/-!
# The shape of networks

The layers of a network are linked: each takes what the one before gives
(`Linked`). A forward pass goes through them in order and the gradients come
back in the reverse order, in the shape of the parameters that they move. So a
network keeps its shape in training, and neither training on rows of its
features with targets of its classes nor asking it breaks off or fails
(`Perceptron.Sized.trainEpoch`, `Perceptron.Sized.probabilities`).
-/

namespace RuleVote

/-! ## Links -/

/-- Members of a list that fit together: what one ends at, the next starts
from. -/
inductive Linked {α : Type} (R : α → Nat → Nat → Prop) : List α → Nat → Nat → Prop
  | nil {width : Nat} : Linked R [] width width
  | cons {a : α} {as : List α} {first width last : Nat} (ha : R a first width)
      (has : Linked R as width last) : Linked R (a :: as) first last

namespace Linked

variable {α : Type} {R : α → Nat → Nat → Prop} {a : α} {as : List α} {first last : Nat}

/-- **The last member ends where all of them do.** -/
theorem concat_iff : Linked R (as ++ [a]) first last ↔
    ∃ width, Linked R as first width ∧ R a width last := by
  induction as generalizing first with
  | nil =>
    constructor
    · intro h
      cases h with
      | cons ha has =>
        cases has
        exact ⟨first, .nil, ha⟩
    · rintro ⟨width, h, ha⟩
      cases h
      exact .cons ha .nil
  | cons b as ih =>
    constructor
    · intro h
      cases h with
      | cons hb has =>
        obtain ⟨width, has, ha⟩ := ih.1 has
        exact ⟨width, .cons hb has, ha⟩
    · rintro ⟨width, h, ha⟩
      cases h with
      | cons hb has => exact .cons hb (ih.2 ⟨width, has, ha⟩)

/-- What is left without the last member, and the last member. -/
theorem dropLast (h : Linked R as first last) (hne : as ≠ []) (other : α) :
    ∃ width, Linked R as.dropLast first width ∧ R (as.getLastD other) width last := by
  rw [← List.dropLast_append_getLast hne, concat_iff] at h
  rwa [List.getLastD_eq_getLast?, List.getLast?_eq_some_getLast hne, Option.getD_some]

end Linked

/-! ## The optimizer -/

namespace Adam

variable {E : Failure → Prop} {a : Adam}

/-- The two means of each slot are of one length. -/
def Balanced (a : Adam) : Prop := ∀ m ∈ a.slots, m.second.length = m.first.length

/-- An optimizer that did not move anything is balanced. -/
theorem balanced_new (rate : Float32) : (new rate).Balanced := nofun

/-- Another step keeps the optimizer balanced. -/
theorem Balanced.step (ha : a.Balanced) : a.step.Balanced := ha

/-- The moments of a slot are as many as asked for, both of them. -/
theorem Balanced.slot (ha : a.Balanced) (index length : Nat) :
    (a.slot index length).first.length = length ∧
      (a.slot index length).second.length = length := by
  rw [Adam.slot]
  split
  · next m hm =>
    split_ifs with hlength
    · exact ⟨hlength, (ha m (List.mem_of_getElem? hm)).trans hlength⟩
    · exact ⟨List.length_replicate, List.length_replicate⟩
  · exact ⟨List.length_replicate, List.length_replicate⟩

/-- Moving parameters keeps their number. -/
theorem length_moveAll (rate correct1 correct2 : Float32) :
    ∀ {params grads first second : List Float32}, grads.length = params.length →
      first.length = params.length → second.length = params.length →
      (moveAll rate correct1 correct2 params grads first second).length = params.length
  | [], _, _, _, _, _, _ => by rw [moveAll] <;> simp
  | p :: params, g :: grads, m :: first, v :: second, hg, hm, hv =>
    congrArg (· + 1) (length_moveAll rate correct1 correct2 (Nat.succ.inj hg) (Nat.succ.inj hm)
      (Nat.succ.inj hv))

/-- The moments after one slot was set are the new ones, the old ones or empty ones. -/
theorem mem_setSlot {slots : List Moments} {index : Nat} {m x : Moments}
    (hx : x ∈ setSlot slots index m) : x ∈ slots ∨ x = ⟨[], []⟩ ∨ x = m := by
  rcases List.mem_or_eq_of_mem_set hx with hx | rfl
  · rcases List.mem_append.1 hx with hx | hx
    · exact .inl hx
    · exact .inr (.inl (List.eq_of_mem_replicate hx))
  · exact .inr (.inr rfl)

/-- **As many parameters are moved as there are.** -/
theorem Balanced.update (ha : a.Balanced) (index : Nat) {params grads : List Float32}
    (hgrads : grads.length = params.length) : Ends (a.update index params grads) E
      fun result => result.1.length = params.length ∧ result.2.Balanced := by
  have hassert : (params.length == grads.length) = true := beq_iff_eq.2 hgrads.symm
  obtain ⟨hfirst, hsecond⟩ := ha.slot index params.length
  refine (Ends.assertThat hassert).bind fun _ _ => .ok ⟨?_, fun m hm => ?_⟩
  · rw [List.length_map]
    exact length_moveAll _ _ _ hgrads hfirst hsecond
  · rcases mem_setSlot hm with hm | rfl | rfl
    · exact ha m hm
    · rfl
    · rw [List.length_map, List.length_map]

end Adam

/-! ## Dropout -/

namespace Dropout

variable {m : Matrix Float32} {rows cols : Nat}

/-- A mask has the size of what it is for. -/
theorem sized_of_mask (d : Dropout) (s : KeyStream) {k : Matrix Float32}
    (h : (d.mask rows cols s).1 = some k) : k.Sized rows cols := by
  rw [mask] at h
  split_ifs at h
  obtain rfl := Option.some.inj h
  exact ⟨rfl, rfl, KeyStream.length_several _ _ _⟩

/-- Applying a mask keeps the size. -/
theorem sized_apply (hm : m.Sized rows cols) {mask : Option (Matrix Float32)}
    (hmask : ∀ k, mask = some k → k.Sized rows cols) : (apply mask m).Sized rows cols := by
  cases mask with
  | none => exact hm
  | some k =>
    refine hm.withData ?_
    rw [Array.size_zipWith, hm.size_eq, (hmask k rfl).size_eq, Nat.min_self]

end Dropout

namespace NetworkSettings

/-- There is a network of the settings for so many features and classes. -/
def Suit (settings : NetworkSettings) (features classes : Nat) : Prop :=
  ∃ p, Perceptron.new features classes settings = .ok p

/-- There is room for every layer of a network. -/
def HasRoom (settings : NetworkSettings) (features classes : Nat) : Prop :=
  (features :: settings.hidden ++ [classes]).IsChain Linear.HasRoom

instance (settings : NetworkSettings) (features classes : Nat) :
    Decidable (settings.HasRoom features classes) := inferInstanceAs (Decidable (List.IsChain _ _))

end NetworkSettings

namespace Perceptron

variable {E : Failure → Prop} {p : Perceptron} {x targets : Matrix Float32}
variable {rows features classes inputs outputs : Nat}

/-! ## Networks -/

/-- Linked layers from so many features to so many classes. -/
structure Sized (p : Perceptron) (features classes : Nat) : Prop where
  features_eq : p.features = features
  classes_eq : p.classes = classes
  layers : ∃ width, Linked Linear.Sized p.hidden features width ∧ p.output.Sized width classes
  optimizer : p.optimizer.Balanced

/-- **Layers that there is room for are made and linked.** -/
theorem ends_randomLayers {outputs : Nat} : ∀ {widths : List Nat} {inputs : Nat} (s : KeyStream),
    (inputs :: widths ++ [outputs]).IsChain Linear.HasRoom →
      Ends (randomLayers (inputs :: widths ++ [outputs]) s) E fun layers =>
        Linked Linear.Sized layers inputs outputs ∧ layers ≠ []
  | [], inputs, s, hroom => by
    refine (Linear.ends_random (List.isChain_pair.1 hroom) s).bind ?_
    rintro ⟨layer, s⟩ hlayer
    exact .ok ⟨.cons hlayer .nil, List.cons_ne_nil _ _⟩
  | width :: widths, inputs, s, hroom => by
    obtain ⟨hfirst, hrest⟩ := List.isChain_cons_cons.1 hroom
    refine (Linear.ends_random hfirst s).bind ?_
    rintro ⟨layer, s⟩ hlayer
    refine (ends_randomLayers s hrest).bind fun layers hlayers => ?_
    exact .ok ⟨.cons hlayer hlayers.1, List.cons_ne_nil _ _⟩

/-- Layers that were made had room, each of them. -/
theorem isChain_of_randomLayers {outputs : Nat} : ∀ {widths : List Nat} {inputs : Nat}
    {s : KeyStream} {layers : List Linear},
      randomLayers (inputs :: widths ++ [outputs]) s = .ok layers →
        (inputs :: widths ++ [outputs]).IsChain Linear.HasRoom
  | [], _, _, _, h => by
    obtain ⟨_, hlayer, -⟩ := bind_eq_ok_iff.1 h
    exact List.isChain_pair.2 (Linear.hasRoom_of_random hlayer)
  | _ :: _, _, _, _, h => by
    obtain ⟨_, hlayer, h⟩ := bind_eq_ok_iff.1 h
    obtain ⟨_, hlayers, -⟩ := bind_eq_ok_iff.1 h
    exact List.isChain_cons_cons.2
      ⟨Linear.hasRoom_of_random hlayer, isChain_of_randomLayers hlayers⟩

/-- **A new network is linked**, and its settings are those it was made with. -/
theorem ends_new {settings : NetworkSettings} (hroom : settings.HasRoom features classes) :
    Ends (new features classes settings) (fun _ => ¬settings.Suit features classes)
      fun p => p.Sized features classes ∧ p.settings = settings := by
  have hends : Ends (new features classes settings) (fun _ => True)
      fun p => p.Sized features classes ∧ p.settings = settings := by
    refine (Ends.lift (fun _ _ => trivial) fun _ _ => trivial).bind fun _ (_ : True) => ?_
    refine (Ends.lift (fun _ _ => trivial) fun _ _ => trivial).bind fun _ (_ : True) => ?_
    refine (ends_randomLayers _ hroom).bind fun layers hlayers => .ok ⟨?_, rfl⟩
    exact ⟨rfl, rfl, hlayers.1.dropLast hlayers.2 _, Adam.balanced_new _⟩
  refine hends.own.mono (fun f hfail hsuit => ?_) fun _ => id
  obtain ⟨p, hp⟩ := hsuit
  cases hfail.symm.trans hp

/-- **A network that was made had room**, and it has the settings that it was made with. -/
theorem hasRoom_of_new {settings : NetworkSettings} (h : new features classes settings = .ok p) :
    settings.HasRoom features classes ∧ p.settings = settings := by
  obtain ⟨_, -, h⟩ := bind_eq_ok_iff.1 h
  obtain ⟨_, -, h⟩ := bind_eq_ok_iff.1 h
  obtain ⟨layers, hlayers, h⟩ := bind_eq_ok_iff.1 h
  exact ⟨isChain_of_randomLayers hlayers, (congrArg Perceptron.settings (Except.ok.inj h)).symm⟩

/-! ## Forward -/

/-- Rectifying keeps the size. -/
theorem sized_rectify (hx : x.Sized rows inputs) : (rectify x).Sized rows inputs :=
  hx.withData Array.size_map

/-- A hidden layer with its pass over so many rows. -/
structure Passed (rows : Nat) (step : Linear × HiddenPass) (inputs outputs : Nat) : Prop where
  layer : step.1.Sized inputs outputs
  input : step.2.input.Sized rows inputs
  raw : step.2.raw.Sized rows outputs
  mask : ∀ k, step.2.mask = some k → k.Sized rows outputs

/-- **Rows pass through linked layers.** -/
theorem ends_forwardHidden (dropout : Dropout) : ∀ {layers : List Linear} {inputs : Nat}
    {x : Matrix Float32} (s : Option KeyStream), Linked Linear.Sized layers inputs outputs →
      x.Sized rows inputs → Ends (forwardHidden dropout layers x s) E fun result =>
        result.2.1.Sized rows outputs ∧ ∃ steps, Linked (Passed rows) steps inputs outputs ∧
          steps.map Prod.fst = layers ∧ steps.map Prod.snd = result.1
  | [], _, _, _, hlayers, hx => by
    cases hlayers
    exact .ok ⟨hx, [], .nil, rfl, rfl⟩
  | layer :: layers, inputs, x, s, hlayers, hx => by
    cases hlayers with
    | @cons _ _ _ width _ hlayer hlayers =>
      refine (hlayer.forward hx).bind fun raw hraw => ?_
      -- the rest of the pass, whichever mask was drawn
      have hrest : ∀ (mask : Option (Matrix Float32)) (s : Option KeyStream),
          (∀ k, mask = some k → k.Sized rows width) →
          Ends (do
            let rest ← forwardHidden dropout layers (Dropout.apply mask (rectify raw)) s
            return (⟨x, raw, mask⟩ :: rest.1, rest.2.1, rest.2.2)) E fun result =>
              result.2.1.Sized rows outputs ∧
                ∃ steps, Linked (Passed rows) steps inputs outputs ∧
                  steps.map Prod.fst = layer :: layers ∧ steps.map Prod.snd = result.1 := by
        intro mask s hmask
        have hnext := Dropout.sized_apply (sized_rectify hraw) hmask
        refine (ends_forwardHidden dropout s hlayers hnext).bind ?_
        rintro ⟨passes, out, s⟩ ⟨hout, steps, hsteps, hfst, hsnd⟩
        refine .ok ⟨hout, (layer, ⟨x, raw, mask⟩) :: steps, .cons ?_ hsteps, ?_, ?_⟩
        · exact ⟨hlayer, hx, hraw, hmask⟩
        · exact congrArg (layer :: ·) hfst
        · exact congrArg (_ :: ·) hsnd
      cases s with
      | none => exact hrest none none nofun
      | some s =>
        refine hrest _ _ fun k hk => ?_
        rw [hraw.rows_eq, hraw.cols_eq] at hk
        exact dropout.sized_of_mask s hk

/-- The rows of distributions are as many and as long. -/
theorem sized_softmaxRows (hx : x.Sized rows classes) :
    Ends (softmaxRows x) E (·.Sized rows classes) := by
  refine hx.allRows.bind fun rs hrs => .ok ?_
  rw [hx.cols_eq]
  exact Matrix.sized_ofRowsOf_map hrs.1 fun r hr => (length_softmax r).trans (hrs.2 r hr).1

/-- A forward pass of a network over so many rows. -/
structure Traced (p : Perceptron) (rows features classes : Nat) (pass : ForwardPass) : Prop where
  hidden : ∃ width steps, Linked (Passed rows) steps features width ∧
    steps.map Prod.fst = p.hidden ∧ steps.map Prod.snd = pass.hidden ∧
      pass.input.Sized rows width ∧ p.output.Sized width classes
  probabilities : pass.probabilities.Sized rows classes

/-- **Rows of its features pass through a network.** -/
theorem Sized.forward (hp : p.Sized features classes) (hx : x.Sized rows features)
    (s : Option KeyStream) :
    Ends (p.forward x s) E fun result => p.Traced rows features classes result.1 := by
  obtain ⟨width, hhidden, houtput⟩ := hp.layers
  refine (ends_forwardHidden _ s hhidden hx).bind ?_
  rintro ⟨passes, input, s⟩ ⟨hinput, steps, hsteps, hfst, hsnd⟩
  refine (houtput.forward hinput).bind fun raw hraw => ?_
  refine (sized_softmaxRows hraw).bind fun probabilities hprobabilities => .ok ?_
  exact ⟨⟨width, steps, hsteps, hfst, hsnd, hinput, houtput⟩, hprobabilities⟩

/-! ## Backward -/

/-- A layer with a gradient at its parameters. -/
structure Graded (step : Linear × LinearGradient) (inputs outputs : Nat) : Prop where
  layer : step.1.Sized inputs outputs
  gradient : step.2.Sized inputs outputs

/-- The gradient behind a hidden layer has the size of its values. -/
theorem sized_backwardHidden {step : Linear × HiddenPass} (hstep : Passed rows step inputs outputs)
    {grad : Matrix Float32} (hgrad : grad.Sized rows outputs) :
    (backwardHidden step.2 grad).Sized rows outputs := by
  have hmasked := Dropout.sized_apply hgrad hstep.mask
  refine hmasked.withData ?_
  rw [Array.size_zipWith, hmasked.size_eq, hstep.raw.size_eq, Nat.min_self]

/-- **The gradients come back through the layers that were passed**, the last of
them first. -/
theorem ends_backwardLayers {steps : List (Linear × HiddenPass)}
    (hsteps : Linked (Passed rows) steps inputs outputs) {grad : Matrix Float32}
    (hgrad : grad.Sized rows outputs) : Ends (backwardLayers steps.reverse grad) E fun gs =>
      ∃ pairs, Linked Graded pairs inputs outputs ∧ pairs.map Prod.fst = steps.map Prod.fst ∧
        pairs.map Prod.snd = gs.reverse := by
  induction steps using List.reverseRecOn generalizing outputs grad with
  | nil =>
    cases hsteps
    exact .ok ⟨[], .nil, rfl, rfl⟩
  | append_singleton steps step ih =>
    obtain ⟨width, hsteps, hstep⟩ := Linked.concat_iff.1 hsteps
    rw [List.reverse_append]
    refine (hstep.layer.backward hstep.input (sized_backwardHidden hstep hgrad)).bind ?_
    rintro ⟨gradIn, g⟩ ⟨hgradIn, hg⟩
    refine (ih hsteps hgradIn).bind fun gs hgs => .ok ?_
    obtain ⟨pairs, hpairs, hfst, hsnd⟩ := hgs
    refine ⟨pairs ++ [(step.1, g)], Linked.concat_iff.2 ⟨width, hpairs, hstep.layer, hg⟩, ?_, ?_⟩
    · rw [List.map_append, List.map_append, hfst]
      rfl
    · rw [List.map_append, List.reverse_cons, hsnd]
      rfl

/-- **Every layer has a gradient of its shape.** -/
theorem Traced.gradients {pass : ForwardPass} (hpass : p.Traced rows features classes pass)
    (htargets : targets.Sized rows classes) : Ends (p.gradients pass targets) E fun grads =>
      Linked Graded (p.layers.zip grads) features classes ∧ p.layers.zip grads ≠ [] := by
  obtain ⟨width, steps, hsteps, hfst, hsnd, hinput, houtput⟩ := hpass.hidden
  have hgrad : (CrossEntropy.gradient pass.probabilities targets).Sized rows classes := by
    refine hpass.probabilities.withData ?_
    rw [Array.size_zipWith, hpass.probabilities.size_eq, htargets.size_eq, Nat.min_self]
  refine (houtput.backward hinput hgrad).bind ?_
  rintro ⟨gradIn, last⟩ ⟨hgradIn, hlast⟩
  dsimp only
  rw [← List.zip_of_prod hfst hsnd]
  refine (ends_backwardLayers hsteps hgradIn).bind fun reversed hreversed => .ok ?_
  obtain ⟨pairs, hpairs, hpairs₁, hpairs₂⟩ := hreversed
  have hzip : pairs ++ [(p.output, last)] = p.layers.zip (reversed.reverse ++ [last]) := by
    refine List.zip_of_prod ?_ ?_
    · rw [List.map_append, hpairs₁, hfst]
      rfl
    · rw [List.map_append, hpairs₂]
      rfl
  rw [← hzip]
  exact ⟨Linked.concat_iff.2 ⟨width, hpairs, houtput, hlast⟩, List.append_ne_nil_of_right_ne_nil _
    (List.cons_ne_nil _ _)⟩

/-! ## Training -/

/-- **Layers that are moved keep their shape.** -/
theorem ends_moveLayers : ∀ {pairs : List (Linear × LinearGradient)} {inputs : Nat} (n : Nat)
    {a : Adam}, a.Balanced → Linked Graded pairs inputs outputs →
      Ends (moveLayers n a pairs) E fun result =>
        Linked Linear.Sized result.1 inputs outputs ∧ result.1.length = pairs.length ∧
          result.2.Balanced
  | [], _, _, _, ha, hpairs => by
    cases hpairs
    exact .ok ⟨.nil, rfl, ha⟩
  | (layer, g) :: pairs, inputs, n, a, ha, hpairs => by
    cases hpairs with
    | cons hpair hpairs =>
      obtain ⟨hlayer, hg⟩ := hpair
      have hweights : g.weight.data.toList.length = layer.weight.data.toList.length := by
        rw [Array.length_toList, Array.length_toList, hg.weight.size_eq, hlayer.weight.size_eq]
      refine (ha.update _ hweights).bind ?_
      rintro ⟨weight, a⟩ ⟨hweight, ha⟩
      refine (ha.update _ (hg.bias.trans hlayer.bias.symm)).bind ?_
      rintro ⟨bias, a⟩ ⟨hbias, ha⟩
      refine (ends_moveLayers (n + 1) ha hpairs).bind ?_
      rintro ⟨layers, a⟩ ⟨hlayers, hlength, ha⟩
      refine .ok ⟨.cons ⟨?_, ?_⟩ hlayers, congrArg (· + 1) hlength, ha⟩
      · exact hlayer.weight.withData (hweight.trans Array.length_toList)
      · exact hbias.trans hlayer.bias

/-- **A batch keeps the shape of a network.** -/
theorem Sized.trainBatch (hp : p.Sized features classes) (hx : x.Sized rows features)
    (htargets : targets.Sized rows classes) (s : KeyStream) :
    Ends (p.trainBatch x targets s) E fun result => result.2.1.Sized features classes := by
  refine (hp.forward hx (some s)).bind ?_
  rintro ⟨pass, rest⟩ hpass
  have hprobabilities := hpass.probabilities
  have hloss : Ends (CrossEntropy.loss pass.probabilities targets) E fun _ => True := by
    have hshape : (pass.probabilities.rows == targets.rows &&
        pass.probabilities.cols == targets.cols) = true := by
      rw [hprobabilities.rows_eq, hprobabilities.cols_eq, htargets.rows_eq, htargets.cols_eq,
        beq_self_eq_true, beq_self_eq_true, Bool.and_self]
    refine (Ends.assertThat hshape).bind fun _ _ => ?_
    exact .ite (fun _ => .ok trivial) fun _ => .ok trivial
  refine hloss.bind fun loss _ => (hpass.gradients htargets).bind fun grads hgrads => ?_
  obtain ⟨hgrads, hne⟩ := hgrads
  refine (ends_moveLayers 0 hp.optimizer.step hgrads).bind ?_
  rintro ⟨layers, optimizer⟩ ⟨hlayers, hlength, hbalanced⟩
  have hlayers_ne : layers ≠ [] :=
    List.ne_nil_of_length_pos (hlength ▸ List.length_pos_of_ne_nil hne)
  exact .ok ⟨hp.features_eq, hp.classes_eq, hlayers.dropLast hlayers_ne _, hbalanced⟩

/-- The pieces of a list, one after the other, are the list. -/
theorem flatten_pieces {α : Type} (size : Nat) (as : List α) : (pieces size as).flatten = as := by
  fun_induction pieces size as with
  | case1 as hlast hempty => simpa using hempty
  | case2 as hlast hempty => simp
  | case3 as hmore ih => rw [List.flatten_cons, ih, List.take_append_drop]

/-- **The batches of an epoch have every row once.** -/
theorem flatten_batches_perm (size rows : Nat) (s : KeyStream) :
    (batches size rows s).1.flatten.Perm (List.range rows) := by
  show (pieces size (s.shuffle (List.range rows)).1).flatten.Perm (List.range rows)
  rw [flatten_pieces]
  exact KeyStream.shuffle_perm s _

/-- A batch has numbers of rows only. -/
theorem lt_of_mem_batches {size rows : Nat} {s : KeyStream} {batch : List Nat}
    (hbatch : batch ∈ (batches size rows s).1) {i : Nat} (hi : i ∈ batch) : i < rows :=
  List.mem_range.1
    ((flatten_batches_perm size rows s).mem_iff.1 (List.mem_flatten_of_mem hbatch hi))

/-- **Batches of its rows train a network**: by recursion on the batches. -/
theorem Sized.trainBatches (hx : x.Sized rows features) (htargets : targets.Sized rows classes) :
    ∀ {batches : List (List Nat)}, (∀ batch ∈ batches, ∀ i ∈ batch, i < rows) →
      ∀ (total : Float32) {p : Perceptron} (s : KeyStream), p.Sized features classes →
        Ends (Perceptron.trainBatches x targets batches total p s) E
          fun result => result.2.1.Sized features classes
  | [], _, _, _, _, hp => .ok hp
  | batch :: batches, hbatches, total, p, s, hp => by
    obtain ⟨hbatch, hbatches⟩ := List.forall_mem_cons.1 hbatches
    refine (hx.selectRows hbatch).bind fun x' hx' => ?_
    refine (htargets.selectRows hbatch).bind fun targets' htargets' => ?_
    refine (hp.trainBatch hx'.1 htargets'.1 s).bind ?_
    rintro ⟨loss, p, s⟩ hp
    exact trainBatches hx htargets hbatches _ s hp

/-- Rows with the features of a network pass its check. -/
theorem checkInput_eq_ok (hx : x.Sized rows p.features) : p.checkInput x = .ok () :=
  if_pos hx.cols_eq

/-- Targets for the rows pass its check. -/
theorem checkTargets_eq_ok (hx : x.Sized rows p.features) (htargets : targets.Sized rows p.classes)
    (hrows : rows ≠ 0) : p.checkTargets x targets = .ok () := by
  have hshape : ¬(targets.rows ≠ x.rows ∨ targets.cols ≠ p.classes) := by
    rw [htargets.rows_eq, htargets.cols_eq, hx.rows_eq]
    exact not_or_intro (not_not_intro rfl) (not_not_intro rfl)
  rw [Perceptron.checkTargets, checkInput_eq_ok hx]
  dsimp only
  refine bind_eq_ok_iff.2 ⟨(), rfl, ?_⟩
  rw [if_neg hshape, if_neg (hx.rows_eq.trans_ne hrows)]
  rfl

theorem Sized.checkInput (hp : p.Sized features classes) (hx : x.Sized rows features) :
    p.checkInput x = .ok () := checkInput_eq_ok (hp.features_eq ▸ hx)

theorem Sized.checkTargets (hp : p.Sized features classes) (hx : x.Sized rows features)
    (htargets : targets.Sized rows classes) (hrows : rows ≠ 0) :
    p.checkTargets x targets = .ok () :=
  checkTargets_eq_ok (hp.features_eq ▸ hx) (hp.classes_eq ▸ htargets) hrows

/-- **An epoch keeps the shape of a network.** -/
theorem Sized.trainEpoch (hp : p.Sized features classes) (hx : x.Sized rows features)
    (htargets : targets.Sized rows classes) (hrows : rows ≠ 0) (s : KeyStream) :
    Ends (p.trainEpoch x targets s) E fun result => result.2.1.Sized features classes := by
  refine (Ends.lifted (hp.checkTargets hx htargets hrows)).bind fun _ _ => ?_
  have hbatches : ∀ batch ∈ (batches p.settings.batchSize x.rows s).1, ∀ i ∈ batch, i < rows :=
    fun batch hbatch i hi => hx.rows_eq ▸ lt_of_mem_batches hbatch hi
  refine (Sized.trainBatches hx htargets hbatches 0 _ hp).bind ?_
  rintro ⟨total, p, s⟩ ⟨hfeatures, hclasses, hlayers, hoptimizer⟩
  exact .ok ⟨hfeatures, hclasses, hlayers, hoptimizer⟩

/-- **Epochs train a network**: by recursion on their number. -/
theorem Sized.trainEpochs (hx : x.Sized rows features) (htargets : targets.Sized rows classes)
    (hrows : rows ≠ 0) : ∀ (epochs : Nat) {p : Perceptron} (s : KeyStream),
      p.Sized features classes → Ends (Perceptron.trainEpochs x targets epochs p s) E
        fun result => result.2.Sized features classes
  | 0, _, _, hp => .ok hp
  | epochs + 1, p, s, hp => by
    refine (hp.trainEpoch hx htargets hrows s).bind ?_
    rintro ⟨loss, p, s⟩ hp
    refine (Sized.trainEpochs hx htargets hrows epochs s hp).bind ?_
    rintro ⟨losses, p⟩ hp
    exact .ok hp

/-- **Training keeps the shape of a network**, and cannot fail where there are
rows and room for the losses. -/
theorem Sized.fit (hp : p.Sized features classes) (hx : x.Sized rows features)
    (htargets : targets.Sized rows classes) (hrows : rows ≠ 0)
    (hroom : p.settings.epochs < capacity) :
    Ends (p.fit x targets) E fun result => result.2.Sized features classes :=
  (Ends.reserve hroom).bind fun _ _ => Sized.trainEpochs hx htargets hrows _ _ hp

/-! ## Asked -/

/-- **A network has probabilities for every matrix of its features.** -/
theorem Sized.probabilities (hp : p.Sized features classes) (hx : x.Sized rows features) :
    Ends (p.probabilities x) E (·.Sized rows classes) := by
  refine (Ends.lifted (hp.checkInput hx)).bind fun _ _ => ?_
  exact (hp.forward hx none).bind fun _ hpass => .ok hpass.probabilities

/-- The passes add up to as many numbers as there are probabilities. -/
theorem Sized.addPasses (hp : p.Sized features classes) (hx : x.Sized rows features)
    (passes : Nat) : ∀ (left : Nat) {sum : Array Float32} (s : KeyStream),
      sum.size = rows * classes →
        Ends (p.addPasses x passes left sum s) E fun sum => sum.size = rows * classes
  | 0, _, _, hsum => .ok hsum
  | left + 1, sum, s, hsum => by
    refine (hp.forward hx (some s)).bind ?_
    rintro ⟨pass, rest⟩ hpass
    refine Sized.addPasses hp hx passes left _ ?_
    rw [Array.size_zipWith, hsum, hpass.probabilities.size_eq, Nat.min_self]

/-- **A network has mean probabilities for every matrix of its features.** -/
theorem Sized.meanProbabilities (hp : p.Sized features classes) (hx : x.Sized rows features)
    (passes seed : Nat) : Ends (p.meanProbabilities x passes seed) E (·.Sized rows classes) := by
  refine .ite (fun _ => hp.probabilities hx) fun _ => ?_
  refine (Ends.lifted (hp.checkInput hx)).bind fun _ _ => ?_
  have hstart : (Matrix.uniform x.rows p.classes (0 : Float32)).Sized rows classes := by
    rw [hx.rows_eq, hp.classes_eq]
    exact Matrix.sized_uniform rows classes 0
  refine (hp.addPasses hx passes passes _ hstart.size_eq).bind fun data hdata => .ok ?_
  exact hstart.withData (hdata.trans hstart.size_eq.symm)

end Perceptron

end RuleVote
