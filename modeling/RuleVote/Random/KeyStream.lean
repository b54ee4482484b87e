/-!
# The key stream

Random numbers are the words of a ChaCha key stream with twelve rounds, a 64
bit block counter that starts at zero, and no nonce. The key comes from a
seed of 64 bits through a multiplicative congruential generator whose
outputs are permuted. Words are taken in order; what is left of a block
waits for the next request.
-/

namespace RuleVote

namespace ChaCha

/-- The sixteen words that a block is made from, and a block. -/
abbrev State := Vector UInt32 16

/-- A word turned left by some bits. -/
def rotateLeft (x : UInt32) (bits : UInt32) : UInt32 :=
  (x <<< bits) ||| (x >>> (32 - bits))

/-- Stirs four words. -/
def quarterRound (s : State) (a b c d : Fin 16) : State :=
  let step (s : State) (x y z : Fin 16) (bits : UInt32) : State :=
    let s := s.set x (s[x] + s[y])
    s.set z (rotateLeft (s[z] ^^^ s[x]) bits)
  step (step (step (step s a b d 16) c d b 12) a b d 8) c d b 7

/-- A round over the columns and one over the diagonals. -/
def doubleRound (s : State) : State :=
  let s := quarterRound s 0 4 8 12
  let s := quarterRound s 1 5 9 13
  let s := quarterRound s 2 6 10 14
  let s := quarterRound s 3 7 11 15
  let s := quarterRound s 0 5 10 15
  let s := quarterRound s 1 6 11 12
  let s := quarterRound s 2 7 8 13
  quarterRound s 3 4 9 14

/-- A key. -/
abbrev Key := Vector UInt32 8

/-- The state from which a block is made. -/
def initial (key : Key) (counter : UInt64) : State :=
  let constants : Vector UInt32 4 := #v[0x61707865, 0x3320646e, 0x79622d32, 0x6b206574]
  let place : Vector UInt32 4 := #v[counter.toUInt32, (counter >>> 32).toUInt32, 0, 0]
  constants ++ key ++ place

/-- The double rounds of a block. -/
def doubleRounds : Nat := 6

/-- The words of a block. -/
def block (key : Key) (counter : UInt64) : State :=
  let start := initial key counter
  Vector.zipWith (· + ·) (Nat.repeat doubleRound doubleRounds start) start

/-- The next state of the generator that spreads a seed over a key. -/
def spread (state : UInt64) : UInt64 := state * 6364136223846793005 + 11634580027462260723

/-- The word that a state of this generator gives. -/
def spreadWord (state : UInt64) : UInt32 :=
  let x := (((state >>> 18) ^^^ state) >>> 27).toUInt32
  let turn := (state >>> 59).toUInt32
  (x >>> turn) ||| (x <<< ((32 - turn) &&& 31))

/-- The key of a seed: eight words of the spreading generator. -/
def keyOfSeed (seed : UInt64) : Key :=
  Vector.ofFn fun i => spreadWord (Nat.repeat spread (i.val + 1) seed)

end ChaCha

/-- A key stream from some word on. -/
structure KeyStream where
  /-- The key. -/
  key : ChaCha.Key
  /-- The number of the next block. -/
  counter : UInt64
  /-- Words of the block before that have not been taken. -/
  pending : List UInt32

namespace KeyStream

/-- The stream of a seed, taken modulo 64 bits. -/
def ofSeed (seed : Nat) : KeyStream := ⟨ChaCha.keyOfSeed (UInt64.ofNat seed), 0, []⟩

/-- The next word. -/
def nextWord (s : KeyStream) : UInt32 × KeyStream :=
  match s.pending with
  | word :: rest => (word, { s with pending := rest })
  | [] =>
    let block := ChaCha.block s.key s.counter
    (block[0], ⟨s.key, s.counter + 1, block.toList.drop 1⟩)

/-- The next word as a natural number. -/
def nextNat32 (s : KeyStream) : Nat × KeyStream :=
  let (word, s) := s.nextWord
  (word.toNat, s)

/-- The next two words as a natural number, the low one first. -/
def nextNat64 (s : KeyStream) : Nat × KeyStream :=
  let (low, s) := s.nextWord
  let (high, s) := s.nextWord
  (low.toNat + Nat.pow 2 32 * high.toNat, s)

end KeyStream

end RuleVote
