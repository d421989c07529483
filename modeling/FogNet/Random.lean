/-!
# A reproducible source of random numbers

Numbers are drawn from the key stream of the ChaCha cipher with eight rounds. The 256-bit key is
spread from a 64-bit seed by a linear congruential generator with permuted output, the nonce is
zero, and the blocks are numbered from zero. The words of the blocks are used in order, two for
each number.

`Generator` is a value: equal generators give equal numbers for ever.
-/

namespace FogNet

/-! ## The block function -/

namespace ChaCha

/-- The sixteen words a block is computed from and consists of. -/
abbrev Block := Vector UInt32 16

def rotateLeft (x : UInt32) (n : UInt32) : UInt32 := (x <<< n) ||| (x >>> (32 - n))

/-- One quarter round on the words at four places. -/
def quarterRound (s : Block) (i j k l : Fin 16) : Block :=
  let a := s[i] + s[j]
  let d := rotateLeft (s[l] ^^^ a) 16
  let c := s[k] + d
  let b := rotateLeft (s[j] ^^^ c) 12
  let a := a + b
  let d := rotateLeft (d ^^^ a) 8
  let c := c + d
  let b := rotateLeft (b ^^^ c) 7
  (((s.set i a).set j b).set k c).set l d

/-- A round on the four columns and a round on the four diagonals. -/
def doubleRound (s : Block) : Block :=
  let s := quarterRound s 0 4 8 12
  let s := quarterRound s 1 5 9 13
  let s := quarterRound s 2 6 10 14
  let s := quarterRound s 3 7 11 15
  let s := quarterRound s 0 5 10 15
  let s := quarterRound s 1 6 11 12
  let s := quarterRound s 2 7 8 13
  quarterRound s 3 4 9 14

/-- The words that block `number` starts from: constants, key, number and a zero nonce. -/
def start (key : Vector UInt32 8) (number : UInt64) : Block :=
  #v[0x61707865, 0x3320646e, 0x79622d32, 0x6b206574,
    key[0], key[1], key[2], key[3], key[4], key[5], key[6], key[7],
    number.toUInt32, (number >>> 32).toUInt32, 0, 0]

/-- Block `number` of the key stream with eight rounds. -/
def block (key : Vector UInt32 8) (number : UInt64) : Block :=
  let s := start key number
  let mixed := doubleRound (doubleRound (doubleRound (doubleRound s)))
  Vector.zipWith (· + ·) mixed s

end ChaCha

/-! ## Generators -/

/-- A place in the key stream of one key. -/
structure Generator where
  key : Vector UInt32 8
  /-- The number of the first block of which no word has been used. -/
  nextBlock : UInt64
  /-- The words of the block before it that have not been used. -/
  unused : List UInt32
  deriving DecidableEq

namespace Generator

/-- The state after one step of the linear congruential generator that spreads a seed. -/
def spreadStep (state : UInt64) : UInt64 := state * 6364136223846793005 + 11634580027462260723

/-- The word that the spreading generator puts out in a state. -/
def spreadWord (state : UInt64) : UInt32 :=
  let mixed := (((state >>> 18) ^^^ state) >>> 27).toUInt32
  let turn := (state >>> 59).toUInt32
  (mixed >>> turn) ||| (mixed <<< ((32 - turn) % 32))

/-- The first `count` words spread from a state. -/
def spread : (count : Nat) → UInt64 → List UInt32
  | 0, _ => []
  | count + 1, state =>
    let state := spreadStep state
    spreadWord state :: spread count state

theorem length_spread : ∀ (count : Nat) (state : UInt64), (spread count state).length = count
  | 0, _ => rfl
  | count + 1, state => by simp [spread, length_spread count]

/-- The generator at the beginning of the stream of a seed. -/
def ofSeed (seed : UInt64) : Generator :=
  { key := ⟨(spread 8 seed).toArray, by simp [length_spread]⟩
    nextBlock := 0
    unused := [] }

/-- The next word of the stream. -/
def word (g : Generator) : UInt32 × Generator :=
  match g.unused with
  | w :: rest => (w, { g with unused := rest })
  | [] =>
    let block := ChaCha.block g.key g.nextBlock
    (block[0], { g with nextBlock := g.nextBlock + 1, unused := block.toList.tail })

/-- A number from zero (included) to one (excluded), a multiple of `2 ^ -53`. -/
def unitInterval (g : Generator) : Float × Generator :=
  let (low, g) := g.word
  let (high, g) := g.word
  let bits := low.toUInt64 ||| (high.toUInt64 <<< 32)
  ((bits >>> 11).toFloat / 9007199254740992.0, g)

end Generator

end FogNet
