import Chip8.Random.ChaCha
import Chip8.Word

/-!
# Random bytes

A random source is a stream of 32-bit words, fixed by a key, and the number of
words drawn so far. A draw takes one word and yields its low byte. Sources of the
same seed give the same bytes.

* `draw_eq`: the draw after `n` draws yields word `n` of the stream.
-/

namespace Chip8

/-- A position in a stream of random words. -/
@[ext] structure RandomSource where
  /-- The key of the stream. -/
  key : ChaCha.Key
  /-- The number of words drawn. -/
  drawn : Nat
deriving DecidableEq

namespace RandomSource

/-- Word `n` of the stream of a key: the words of its blocks one after another. -/
def word (key : ChaCha.Key) (n : Nat) : BitVec 32 :=
  (ChaCha.block key (BitVec.ofNat 64 (n / 16)))[n % 16]

/-- The byte that the next draw yields. -/
def next (s : RandomSource) : Byte := (word s.key s.drawn).setWidth 8

/-- Takes a word from the stream and yields its low byte. -/
def draw (s : RandomSource) : Byte × RandomSource := (s.next, { s with drawn := s.drawn + 1 })

/-! ## Seeds -/

/-- The congruential step that spreads a seed over a key. -/
def seedStep (s : BitVec 64) : BitVec 64 := s * 6364136223846793005 + 11634580027462260723

/-- The key word that a state of the seed sequence yields: its upper bits folded
together and rotated right by the topmost five. -/
def seedWord (s : BitVec 64) : BitVec 32 :=
  ((((s >>> 18) ^^^ s) >>> 27).setWidth 32).rotateRight (s >>> 59).toNat

/-- The start of the stream of a seed. -/
def ofSeed (seed : BitVec 64) : RandomSource where
  key := Vector.ofFn fun i => seedWord (Nat.repeat seedStep (i.val + 1) seed)
  drawn := 0

theorem draw_eq (s : RandomSource) :
    s.draw = ((word s.key s.drawn).setWidth 8, ⟨s.key, s.drawn + 1⟩) := rfl

end RandomSource

end Chip8
