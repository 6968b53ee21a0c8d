import Mathlib.Algebra.Group.Nat.Defs
import Mathlib.Data.List.Basic

/-!
Byte-order helpers over unaligned buffers (`util/io_bytes.c` and the local
`put_le16`/`get_le16` of its users). A buffer is the list of its bytes; a put
truncates to the width of the field, as the casts of the source do.
-/
namespace IoEdgeHub.Bytes

/-- The byte at an index of a buffer. -/
def byteAt (p : List UInt8) (i : Nat) : Nat := (p.getD i 0).toNat

def io_get_be16 (p : List UInt8) : Nat := byteAt p 0 * 2^8 + byteAt p 1

def io_get_be32 (p : List UInt8) : Nat :=
  byteAt p 0 * 2^24 + byteAt p 1 * 2^16 + byteAt p 2 * 2^8 + byteAt p 3

def get_le16 (p : List UInt8) : Nat := byteAt p 0 + byteAt p 1 * 2^8

def io_get_le32 (p : List UInt8) : Nat :=
  byteAt p 3 * 2^24 + byteAt p 2 * 2^16 + byteAt p 1 * 2^8 + byteAt p 0

def io_put_be16 (v : Nat) : List UInt8 := [UInt8.ofNat (v / 2^8), UInt8.ofNat v]

def put_le16 (v : Nat) : List UInt8 := [UInt8.ofNat v, UInt8.ofNat (v / 2^8)]

def io_put_le32 (v : Nat) : List UInt8 :=
  [UInt8.ofNat v, UInt8.ofNat (v / 2^8), UInt8.ofNat (v / 2^16), UInt8.ofNat (v / 2^24)]

theorem byteAt_lt (p : List UInt8) (i : Nat) : byteAt p i < 2^8 := UInt8.toNat_lt _

@[simp] theorem io_put_le32_length (v : Nat) : (io_put_le32 v).length = 4 := rfl

/-- Reading a little-endian word gives back what was put there, up to its width. -/
theorem io_get_put_le32 (v : Nat) (rest : List UInt8) : io_get_le32 (io_put_le32 v ++ rest) = v % 2^32 := by
  simp only [io_get_le32, io_put_le32, byteAt, List.cons_append, List.getD_cons_zero, List.getD_cons_succ,
    UInt8.toNat_ofNat']
  omega

theorem get_put_le16 (v : Nat) (rest : List UInt8) : get_le16 (put_le16 v ++ rest) = v % 2^16 := by
  simp only [get_le16, put_le16, byteAt, List.cons_append, List.getD_cons_zero, List.getD_cons_succ,
    UInt8.toNat_ofNat']
  omega

theorem io_get_put_be16 (v : Nat) (rest : List UInt8) : io_get_be16 (io_put_be16 v ++ rest) = v % 2^16 := by
  simp only [io_get_be16, io_put_be16, byteAt, List.cons_append, List.getD_cons_zero, List.getD_cons_succ,
    UInt8.toNat_ofNat']
  omega

theorem io_get_be16_lt (p : List UInt8) : io_get_be16 p < 2^16 := by
  have b0 := byteAt_lt p 0
  have b1 := byteAt_lt p 1
  unfold io_get_be16
  omega

end IoEdgeHub.Bytes
