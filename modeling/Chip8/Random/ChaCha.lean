/-!
# The ChaCha block function

A block is sixteen 32-bit words: four constants, a key of eight words, a 64-bit
block counter with the low word first, and a nonce of two words, zero here.
`ChaCha.block` mixes it by twelve rounds and adds the result to the block.
-/

namespace Chip8.ChaCha

/-- Sixteen words. -/
abbrev Block := Vector (BitVec 32) 16

/-- A key. -/
abbrev Key := Vector (BitVec 32) 8

/-- Adds word `b` to word `a`, combines the sum with word `d` and rotates that left. -/
def mix (s : Block) (a b d : Fin 16) (distance : Nat) : Block :=
  let s := s.set a (s[a] + s[b])
  s.set d ((s[d] ^^^ s[a]).rotateLeft distance)

/-- The quarter round on four words. -/
def quarterRound (s : Block) (a b c d : Fin 16) : Block :=
  let s := mix s a b d 16
  let s := mix s c d b 12
  let s := mix s a b d 8
  mix s c d b 7

/-- A round on the columns and a round on the diagonals. -/
def doubleRound (s : Block) : Block :=
  let s := quarterRound s 0 4 8 12
  let s := quarterRound s 1 5 9 13
  let s := quarterRound s 2 6 10 14
  let s := quarterRound s 3 7 11 15
  let s := quarterRound s 0 5 10 15
  let s := quarterRound s 1 6 11 12
  let s := quarterRound s 2 7 8 13
  quarterRound s 3 4 9 14

/-- The block that `ChaCha.block` mixes. -/
def input (key : Key) (counter : BitVec 64) : Block :=
  #v[0x61707865, 0x3320646e, 0x79622d32, 0x6b206574,
    key[0], key[1], key[2], key[3], key[4], key[5], key[6], key[7],
    counter.setWidth 32, (counter >>> 32).setWidth 32, 0, 0]

/-- The block of key stream for a counter. -/
def block (key : Key) (counter : BitVec 64) : Block :=
  let s := input key counter
  Vector.zipWith (· + ·) (Nat.repeat doubleRound 6 s) s

end Chip8.ChaCha
