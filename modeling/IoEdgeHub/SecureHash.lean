import IoEdgeHub.BitStrings
import IoEdgeHub.BlockStream

/-!
SHA-1 as FIPS 180-4 defines it, over strings of bits: the functions and constants of the
rounds, the padding of a message to blocks of 512 bits, the schedule of a block, and the
hash values after each block.
-/
namespace IoEdgeHub.SecureHash
open IoEdgeHub.BitStrings IoEdgeHub.BlockStream

abbrev Word := BitVec 32

/-- Five words: the hash value, and the working variables of a block. -/
structure Words where
  a : Word
  b : Word
  c : Word
  d : Word
  e : Word

def Ch (x y z : Word) : Word := (x &&& y) ^^^ (~~~x &&& z)

def Parity (x y z : Word) : Word := x ^^^ y ^^^ z

def Maj (x y z : Word) : Word := (x &&& y) ^^^ (x &&& z) ^^^ (y &&& z)

/-- The function of a round. -/
def f (t : Nat) : Word → Word → Word → Word :=
  if t < 20 then Ch else if t < 40 then Parity else if t < 60 then Maj else Parity

/-- The constant of a round. -/
def K (t : Nat) : Word :=
  if t < 20 then 0x5a827999 else if t < 40 then 0x6ed9eba1 else if t < 60 then 0x8f1bbcdc else 0xca62c1d6

def initial : Words := ⟨0x67452301, 0xefcdab89, 0x98badcfe, 0x10325476, 0xc3d2e1f0⟩

/-- How many zeros stand between the first bit of the padding and the length. -/
def zeros (length : Nat) : Nat := (448 + 512 - (length + 1) % 512) % 512

/-- The message, a one, the zeros and the length of the message in 64 bits. -/
def pad (message : List Bool) : List Bool :=
  message ++ [true] ++ List.replicate (zeros message.length) false ++ bits 64 message.length

/-- There are as few zeros as make the length, with the 64 bits to come, one of whole blocks. -/
theorem zeros_least (length : Nat) :
    (length + 1 + zeros length) % 512 = 448 ∧ ∀ k, (length + 1 + k) % 512 = 448 → zeros length ≤ k := by
  unfold zeros
  constructor
  · omega
  · intro k reaches
    omega

theorem length_pad (message : List Bool) : (pad message).length % 512 = 0 := by
  have reaches := (zeros_least message.length).1
  simp only [pad, List.length_append, List.length_singleton, List.length_replicate, length_bits]
  omega

/-- A word of a block. -/
def block_word (block : List Bool) (t : Nat) : Word := BitVec.ofNat 32 (value ((block.drop (32 * t)).take 32))

/-- The message schedule. -/
def W (block : List Bool) (t : Nat) : Word :=
  if t < 16 then block_word block t
  else (W block (t - 3) ^^^ W block (t - 8) ^^^ W block (t - 14) ^^^ W block (t - 16)).rotateLeft 1

theorem W_early {block : List Bool} {t : Nat} (early : t < 16) : W block t = block_word block t := by
  rw [W, if_pos early]

theorem W_late {block : List Bool} {t : Nat} (late : 16 ≤ t) :
    W block t = (W block (t - 3) ^^^ W block (t - 8) ^^^ W block (t - 14) ^^^ W block (t - 16)).rotateLeft 1 := by
  rw [W, if_neg (Nat.not_lt.mpr late)]

def round (block : List Bool) (v : Words) (t : Nat) : Words where
  a := v.a.rotateLeft 5 + f t v.b v.c v.d + v.e + K t + W block t
  b := v.a
  c := v.b.rotateLeft 30
  d := v.c
  e := v.d

/-- The hash value behind a block. -/
def compress (H : Words) (block : List Bool) : Words :=
  let v := (List.range 80).foldl (round block) H
  ⟨H.a + v.a, H.b + v.b, H.c + v.c, H.d + v.d, H.e + v.e⟩

/-- The hash value behind the first blocks of a padded message. -/
def hash (padded : List Bool) (blocks : Nat) : Words := chain 512 compress initial padded blocks

/-- The message digest. -/
def sha1 (message : List Bool) : List Bool :=
  let H := hash (pad message) ((pad message).length / 512)
  [H.a, H.b, H.c, H.d, H.e].flatMap fun w => bits 32 w.toNat

/-- No bit is chosen from both words, so their union is their sum. -/
theorem Ch_or (x y z : Word) : (x &&& y) ||| (~~~x &&& z) = Ch x y z := by
  apply BitVec.eq_of_getLsbD_eq
  intro i inside
  simp only [Ch, BitVec.getLsbD_or, BitVec.getLsbD_xor, BitVec.getLsbD_and, BitVec.getLsbD_not, inside]
  cases x.getLsbD i <;> cases y.getLsbD i <;> cases z.getLsbD i <;> rfl

theorem Maj_or (x y z : Word) : (x &&& y) ||| (x &&& z) ||| (y &&& z) = Maj x y z := by
  apply BitVec.eq_of_getLsbD_eq
  intro i inside
  simp only [Maj, BitVec.getLsbD_or, BitVec.getLsbD_xor, BitVec.getLsbD_and]
  cases x.getLsbD i <;> cases y.getLsbD i <;> cases z.getLsbD i <;> rfl

end IoEdgeHub.SecureHash
