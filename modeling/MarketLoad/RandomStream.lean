import MarketLoad.Powers

/-! # Random streams

A stream of 32-bit words from the ChaCha block function with eight rounds, keyed by a 64-bit
seed, and the draws made from it. The words of the blocks are taken in order. -/

namespace MarketLoad

namespace ChaCha

/-- The sixteen words of a block. -/
abbrev Block := Vector UInt32 16

/-- Rotates a word to the left. -/
def rotateLeft (x : UInt32) (n : UInt32) : UInt32 := (x <<< n) ||| (x >>> (32 - n))

/-- Mixes four words of a block. -/
def quarterRound (a b c d : Fin 16) (s : Block) : Block :=
  let s := s.set a (s[a] + s[b])
  let s := s.set d (rotateLeft (s[d] ^^^ s[a]) 16)
  let s := s.set c (s[c] + s[d])
  let s := s.set b (rotateLeft (s[b] ^^^ s[c]) 12)
  let s := s.set a (s[a] + s[b])
  let s := s.set d (rotateLeft (s[d] ^^^ s[a]) 8)
  let s := s.set c (s[c] + s[d])
  s.set b (rotateLeft (s[b] ^^^ s[c]) 7)

/-- One round over the columns and one over the diagonals. -/
def doubleRound (s : Block) : Block :=
  let s := quarterRound 0 4 8 12 s
  let s := quarterRound 1 5 9 13 s
  let s := quarterRound 2 6 10 14 s
  let s := quarterRound 3 7 11 15 s
  let s := quarterRound 0 5 10 15 s
  let s := quarterRound 1 6 11 12 s
  let s := quarterRound 2 7 8 13 s
  quarterRound 3 4 9 14 s

/-- The words of a block: four constants, the key, the block's number, and zeros. -/
def initial (key : Vector UInt32 8) (number : UInt64) : Block :=
  let constants : Vector UInt32 4 := #v[0x61707865, 0x3320646e, 0x79622d32, 0x6b206574]
  let numbers : Vector UInt32 4 := #v[number.toUInt32, (number >>> 32).toUInt32, 0, 0]
  constants ++ key ++ numbers

/-- The output of the block of this number: four double rounds, added to the start. -/
def block (key : Vector UInt32 8) (number : UInt64) : Block :=
  let start := initial key number
  let mixed := doubleRound (doubleRound (doubleRound (doubleRound start)))
  Vector.zipWith (· + ·) start mixed

end ChaCha

/-- A stream of random words: its key, the number of the next block, and the words of the
current block that are not yet drawn. -/
structure RandomStream where
  key : Vector UInt32 8
  nextBlock : UInt64
  pending : List UInt32

namespace RandomStream

/-- One step of the generator that spreads a seed over the key. -/
def spreadStep (state : UInt64) : UInt64 := state * 6364136223846793005 + 11634580027462260723

/-- The word that a state of the spreading generator gives. -/
def spreadWord (state : UInt64) : UInt32 :=
  let mixed := (((state >>> 18) ^^^ state) >>> 27).toUInt32
  let turn := (state >>> 59).toUInt32
  (mixed >>> turn) ||| (mixed <<< ((32 - turn) % 32))

/-- The states of the spreading generator after one, two, … steps. -/
def spreadStates (state : UInt64) : (count : Nat) → List UInt64
  | 0 => []
  | count + 1 => spreadStep state :: spreadStates (spreadStep state) count

def ofSeed (seed : UInt64) : RandomStream :=
  let words := (spreadStates seed 8).map spreadWord
  { key := Vector.ofFn fun i => words.getD i 0, nextBlock := 0, pending := [] }

def nextWord (r : RandomStream) : UInt32 × RandomStream :=
  match r.pending with
  | word :: pending => (word, { r with pending })
  | [] =>
    let words := (ChaCha.block r.key r.nextBlock).toList
    (words.headD 0, { r with nextBlock := r.nextBlock + 1, pending := words.tail })

/-- Draws two words as one number below `2 ^ 64`, the first word at the low end. -/
def nextPair (r : RandomStream) : Nat × RandomStream :=
  let (low, r) := r.nextWord
  let (high, r) := r.nextWord
  (low.toNat + UInt32.size * high.toNat, r)

/-- A width of random numbers. -/
inductive Width
  | word
  | pair
deriving DecidableEq

def Width.bits : Width → Nat
  | .word => 32
  | .pair => 64

def nextBits (r : RandomStream) : Width → Nat × RandomStream
  | .word => let (w, r) := r.nextWord; (w.toNat, r)
  | .pair => r.nextPair

/-- Draws a number below `range`, for a `range` below `2 ^ w.bits`. A draw `v` counts if the
low half of `v * range` falls below the greatest multiple of `range` by a power of two; its
high half is the result. More than half of all draws count; after `patience` draws that do
not, the next one is taken as it is. -/
def nextBelow (w : Width) (range : Nat) (r : RandomStream) : (patience : Nat) → Nat × RandomStream
  | 0 =>
    let (v, r) := r.nextBits w
    (v * range / twoTo w.bits, r)
  | patience + 1 =>
    let (v, r) := r.nextBits w
    if v * range % twoTo w.bits < range * twoTo (w.bits - 1 - range.log2) then
      (v * range / twoTo w.bits, r)
    else nextBelow w range r patience

/-- The number of draws that may be passed over in a row. -/
def patience : Nat := 4096

/-- Draws a number from `low` to `high`. -/
def nextBetween (w : Width) (low high : Int) (r : RandomStream) : Int × RandomStream :=
  let (v, r) := nextBelow w (high - low + 1).toNat r patience
  (low + v, r)

/-- Draws a coin. -/
def nextCoin (r : RandomStream) : Bool × RandomStream :=
  let (v, r) := r.nextPair
  (v < twoTo 63, r)

end RandomStream

end MarketLoad
