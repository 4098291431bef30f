/-!
# Random words from a seed

A seed of 64 bits is stretched to a key of 256 bits, and the key drives a ChaCha stream of
twelve rounds with a block counter of 64 bits and no nonce. Two neighbouring words of 32
bits make one of 64, the low half first. The word at a place depends on the seed and the
place alone, so equal seeds give equal streams.
-/

namespace CircuitBench.Sampling

namespace Keystream

/-- The sixteen words that a block is computed on. -/
abbrev Words := Vector UInt32 16

def rotateLeft (x : UInt32) (bits : UInt32) : UInt32 :=
  (x <<< bits) ||| (x >>> (32 - bits))

/-- One addition, exclusive or and rotation of a quarter round. -/
def mix (a b c : Fin 16) (bits : UInt32) (w : Words) : Words :=
  let w := w.set a (w[a] + w[b])
  w.set c (rotateLeft (w[c] ^^^ w[a]) bits)

def quarterRound (a b c d : Fin 16) (w : Words) : Words :=
  mix c d b 7 (mix a b d 8 (mix c d b 12 (mix a b d 16 w)))

/-- A round down the columns and one along the diagonals. -/
def doubleRound (w : Words) : Words :=
  let w := quarterRound 3 7 11 15 (quarterRound 2 6 10 14 (quarterRound 1 5 9 13
    (quarterRound 0 4 8 12 w)))
  quarterRound 3 4 9 14 (quarterRound 2 7 8 13 (quarterRound 1 6 11 12
    (quarterRound 0 5 10 15 w)))

/-- The words before the rounds: four constants, the key, the block counter, and zeros. -/
def initialWords (key : Vector UInt32 8) (counter : UInt64) : Words :=
  #v[0x61707865, 0x3320646e, 0x79622d32, 0x6b206574,
    key[0], key[1], key[2], key[3], key[4], key[5], key[6], key[7],
    counter.toUInt32, (counter >>> 32).toUInt32, 0, 0]

/-- A block: six double rounds, and the words before them added. -/
def block (key : Vector UInt32 8) (counter : UInt64) : Words :=
  let start := initialWords key counter
  (Nat.repeat doubleRound 6 start).zipWith (· + ·) start

/-- Two words of 32 bits as one, the low half first. -/
def join (low high : UInt32) : UInt64 :=
  low.toUInt64 ||| (high.toUInt64 <<< 32)

def blockWords (key : Vector UInt32 8) (counter : Nat) : List UInt64 :=
  let w := block key (UInt64.ofNat counter)
  [join w[0] w[1], join w[2] w[3], join w[4] w[5], join w[6] w[7],
    join w[8] w[9], join w[10] w[11], join w[12] w[13], join w[14] w[15]]

/-- One step of the generator that stretches a seed. -/
def stretch (state : UInt64) : UInt64 :=
  state * 6364136223846793005 + 11634580027462260723

/-- The word that the stretching generator gives out in a state. -/
def stretched (state : UInt64) : UInt32 :=
  let shifted := (((state >>> 18) ^^^ state) >>> 27).toUInt32
  let turn := (state >>> 59).toUInt32
  (shifted >>> turn) ||| (shifted <<< ((32 - turn) % 32))

/-- The key of a seed, from the eight states that follow it. -/
def key (seed : UInt64) : Vector UInt32 8 :=
  Vector.ofFn fun i => stretched (Nat.repeat stretch (i.val + 1) seed)

/-- The first words of the stream of a seed. -/
def words (seed : UInt64) (count : Nat) : List UInt64 :=
  let key := key seed
  ((List.range ((count + 7) / 8)).flatMap (blockWords key)).take count

@[simp] theorem length_words (seed : UInt64) (count : Nat) : (words seed count).length = count := by
  have blocks : ∀ (key : Vector UInt32 8) (l : List Nat),
      (l.flatMap (blockWords key)).length = 8 * l.length := by
    intro key l
    induction l with
    | nil => rfl
    | cons b rest ih =>
      simp only [List.flatMap_cons, List.length_append, List.length_cons, ih]
      simp only [blockWords, List.length_cons, List.length_nil]
      omega
  simp only [words, List.length_take, blocks, List.length_range]
  omega

end Keystream

/-- Where the random words of a run come from: `words n` are the first `n` of them. -/
structure WordSource where
  words : Nat → List UInt64
  length_words : ∀ n, (words n).length = n

def WordSource.ofSeed (seed : UInt64) : WordSource :=
  ⟨Keystream.words seed, Keystream.length_words seed⟩

end CircuitBench.Sampling
