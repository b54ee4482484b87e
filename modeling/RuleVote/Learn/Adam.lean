import RuleVote.Failure
import RuleVote.Learn.Vector

/-!
# Adaptive moments

The optimizer keeps running means of the gradient and of its square for
each list of parameters, and moves a parameter by their quotient. Both means
start at zero and are scaled up for that.
-/

namespace RuleVote

/-- The running means for a list of parameters. -/
structure Moments where
  /-- Of the gradient. -/
  first : List Float32
  /-- Of its square. -/
  second : List Float32
deriving Repr

/-- The optimizer. -/
structure Adam where
  /-- The length of a step. -/
  rate : Float32
  /-- The running means of each list of parameters. -/
  slots : List Moments
  /-- The number of steps. -/
  steps : Nat
deriving Repr

namespace Adam

/-- The part of the old mean of the gradient that is kept. -/
def keepFirst : Float32 := (Decimal.mk 9 (-1)).toSingle false

/-- The part of the old mean of the square that is kept. -/
def keepSecond : Float32 := (Decimal.mk 999 (-3)).toSingle false

/-- A number that keeps the quotient finite. -/
def floor : Float32 := (Decimal.mk 1 (-8)).toSingle false

/-- An optimizer before its first step. -/
def new (rate : Float32) : Adam := ⟨rate, [], 0⟩

/-- Counts a step. -/
def step (a : Adam) : Adam := { a with steps := a.steps + 1 }

/-- The means of a slot, zero if they have another length. -/
def slot (a : Adam) (index length : Nat) : Moments :=
  match a.slots[index]? with
  | some m => if m.first.length = length then m else ⟨zeroVector length, zeroVector length⟩
  | none => ⟨zeroVector length, zeroVector length⟩

/-- The slots with one of them replaced, and with those that were missing
before it. -/
def setSlot (slots : List Moments) (index : Nat) (m : Moments) : List Moments :=
  (slots ++ List.replicate (index + 1 - slots.length) (⟨[], []⟩ : Moments)).set index m

/-- One parameter with its means after a step. -/
def move (rate correct1 correct2 param grad first second : Float32) :
    Float32 × Float32 × Float32 :=
  let m := keepFirst * first + (1 - keepFirst) * grad
  let v := keepSecond * second + (1 - keepSecond) * grad * grad
  (param - rate * (m / correct1) / ((v / correct2).sqrt + floor), m, v)

/-- Several parameters with their means after a step. -/
def moveAll (rate correct1 correct2 : Float32) :
    List Float32 → List Float32 → List Float32 → List Float32 →
      List (Float32 × Float32 × Float32)
  | p :: ps, g :: gs, m :: ms, v :: vs =>
    move rate correct1 correct2 p g m v :: moveAll rate correct1 correct2 ps gs ms vs
  | _, _, _, _ => []

/-- Moves the parameters of a slot. -/
def update (a : Adam) (index : Nat) (params grads : List Float32) :
    Fallible (List Float32 × Adam) := do
  assertThat (params.length == grads.length)
  let s := a.slot index params.length
  let t := max a.steps 1
  let moved := moveAll a.rate (1 - powerSingle keepFirst t) (1 - powerSingle keepSecond t)
    params grads s.first s.second
  let means : Moments := ⟨moved.map fun x => x.2.1, moved.map fun x => x.2.2⟩
  return (moved.map Prod.fst, { a with slots := setSlot a.slots index means })

end Adam

end RuleVote
