import WalletApi.Hash.Padding

/-!
# RIPEMD-160

The digest of twenty bytes that names a public key. Each block runs through two lines of eighty
steps that start from the same state of five words; the lines differ in the order in which they take
the words of the block, in their turns and constants, and meet when the block is done. Words are
written with the least significant byte first.
-/

namespace WalletApi.Ripemd160

/-- The five words that a message has stirred so far. -/
structure State where
  a : UInt32
  b : UInt32
  c : UInt32
  d : UInt32
  e : UInt32

/-- The state before the first block. -/
def State.start : State := ⟨0x67452301, 0xefcdab89, 0x98badcfe, 0x10325476, 0xc3d2e1f0⟩

/-- The words of a state, in order. -/
def State.words (s : State) : List UInt32 := [s.a, s.b, s.c, s.d, s.e]

/-- A word turned to the left by `n` bits. -/
def rotateLeft (x : UInt32) (n : Nat) : UInt32 :=
  (x <<< UInt32.ofNat n) ||| (x >>> (32 - UInt32.ofNat n))

/-- The bits that differ an odd number of times. -/
def parity (x y z : UInt32) : UInt32 := x ^^^ y ^^^ z

/-- The bits of `y` or `z`, chosen by `x`. -/
def choice (x y z : UInt32) : UInt32 := (x &&& y) ||| (~~~x &&& z)

/-- The bits of `x` or the missing bits of `y`, against `z`. -/
def orNot (x y z : UInt32) : UInt32 := (x ||| ~~~y) ^^^ z

/-- The bits of `x` or `y`, chosen by `z`. -/
def choiceByLast (x y z : UInt32) : UInt32 := (x &&& z) ||| (y &&& ~~~z)

/-- The bits of `x` against `y` or the missing bits of `z`. -/
def notOr (x y z : UInt32) : UInt32 := x ^^^ (y ||| ~~~z)

/-- Sixteen steps of a line: how they mix three words, the constant they add, and for each step the
word of the block and the turn. -/
structure Round where
  mix : UInt32 → UInt32 → UInt32 → UInt32
  constant : UInt32
  steps : List (Nat × Nat)

/-- The rounds of the left line. -/
def leftLine : List Round :=
  [⟨parity, 0x00000000,
      [(0, 11), (1, 14), (2, 15), (3, 12), (4, 5), (5, 8), (6, 7), (7, 9), (8, 11), (9, 13),
       (10, 14), (11, 15), (12, 6), (13, 7), (14, 9), (15, 8)]⟩,
   ⟨choice, 0x5a827999,
      [(7, 7), (4, 6), (13, 8), (1, 13), (10, 11), (6, 9), (15, 7), (3, 15), (12, 7), (0, 12),
       (9, 15), (5, 9), (2, 11), (14, 7), (11, 13), (8, 12)]⟩,
   ⟨orNot, 0x6ed9eba1,
      [(3, 11), (10, 13), (14, 6), (4, 7), (9, 14), (15, 9), (8, 13), (1, 15), (2, 14), (7, 8),
       (0, 13), (6, 6), (13, 5), (11, 12), (5, 7), (12, 5)]⟩,
   ⟨choiceByLast, 0x8f1bbcdc,
      [(1, 11), (9, 12), (11, 14), (10, 15), (0, 14), (8, 15), (12, 9), (4, 8), (13, 9), (3, 14),
       (7, 5), (15, 6), (14, 8), (5, 6), (6, 5), (2, 12)]⟩,
   ⟨notOr, 0xa953fd4e,
      [(4, 9), (0, 15), (5, 5), (9, 11), (7, 6), (12, 8), (2, 13), (10, 12), (14, 5), (1, 12),
       (3, 13), (8, 14), (11, 11), (6, 8), (15, 5), (13, 6)]⟩]

/-- The rounds of the right line. -/
def rightLine : List Round :=
  [⟨notOr, 0x50a28be6,
      [(5, 8), (14, 9), (7, 9), (0, 11), (9, 13), (2, 15), (11, 15), (4, 5), (13, 7), (6, 7),
       (15, 8), (8, 11), (1, 14), (10, 14), (3, 12), (12, 6)]⟩,
   ⟨choiceByLast, 0x5c4dd124,
      [(6, 9), (11, 13), (3, 15), (7, 7), (0, 12), (13, 8), (5, 9), (10, 11), (14, 7), (15, 7),
       (8, 12), (12, 7), (4, 6), (9, 15), (1, 13), (2, 11)]⟩,
   ⟨orNot, 0x6d703ef3,
      [(15, 9), (5, 7), (1, 15), (3, 11), (7, 8), (14, 6), (6, 6), (9, 14), (11, 12), (8, 13),
       (12, 5), (2, 14), (10, 13), (0, 13), (4, 7), (13, 5)]⟩,
   ⟨choice, 0x7a6d76e9,
      [(8, 15), (6, 5), (4, 8), (1, 11), (3, 14), (11, 14), (15, 6), (0, 14), (5, 6), (12, 9),
       (2, 12), (13, 9), (9, 12), (7, 5), (10, 15), (14, 8)]⟩,
   ⟨parity, 0x00000000,
      [(12, 8), (15, 5), (10, 12), (4, 9), (1, 12), (5, 5), (8, 14), (7, 6), (6, 8), (2, 13),
       (13, 6), (14, 5), (0, 15), (3, 13), (9, 11), (11, 11)]⟩]

/-- One step on the state, with a word of the block and a turn. -/
def step (r : Round) (block : List UInt32) (s : State) (st : Nat × Nat) : State :=
  let t := rotateLeft (s.a + r.mix s.b s.c s.d + block.getD st.1 0 + r.constant) st.2 + s.e
  ⟨s.e, t, s.b, rotateLeft s.c 10, s.d⟩

/-- A state run through a line. -/
def runLine (line : List Round) (block : List UInt32) (s : State) : State :=
  line.foldl (fun s r => r.steps.foldl (step r block) s) s

/-- The number that a byte string writes, least significant byte first. -/
def littleEndian (bs : Bytes) : Nat := Bytes.toNat bs.reverse

/-- The state after one block of bytes, where the two lines meet. -/
def compress (s : State) (block : Bytes) : State :=
  let words := (Padding.groups 4 block).map fun w => UInt32.ofNat (littleEndian w)
  let l := runLine leftLine words s
  let r := runLine rightLine words s
  ⟨s.b + l.c + r.d, s.c + l.d + r.e, s.d + l.e + r.a, s.e + l.a + r.b, s.a + l.b + r.c⟩

/-- A message filled up to whole blocks, with its length written least significant byte first. -/
def pad (message : Bytes) : Bytes :=
  message ++ 0x80 :: (List.replicate (Padding.zeros 64 8 message.length) 0
    ++ (Bytes.ofNat 8 (8 * message.length)).reverse)

/-- The digest of a byte string. -/
def hash (message : Bytes) : Bytes :=
  let final := (Padding.groups 64 (pad message)).foldl compress State.start
  final.words.flatMap fun w => (Bytes.ofNat 4 w.toNat).reverse

@[simp] theorem length_hash (message : Bytes) : (hash message).length = 20 := by
  simp [hash, State.words]

end WalletApi.Ripemd160
