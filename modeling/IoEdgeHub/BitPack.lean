import Mathlib.Data.List.Basic
import Mathlib.Tactic.IntervalCases

/-!
Bits packed into bytes, the least significant bit of a byte first: the byte that
holds eight given bits, the bytes that hold any number of them, and what setting
one bit in such bytes makes of what they hold.
-/
namespace IoEdgeHub.BitPack
variable {f g : Nat → Bool}

/-- The byte whose bit `j` is `f j`. -/
def byteOf (f : Nat → Bool) : UInt8 :=
  UInt8.ofBitVec (BitVec.ofBoolListLE [f 0, f 1, f 2, f 3, f 4, f 5, f 6, f 7])

/-- The bytes of `n` bits of which the first `k` have been set as `f` says, the others zero. -/
def filled (n k : Nat) (f : Nat → Bool) : List UInt8 :=
  (List.range ((n + 7) / 8)).map fun i => byteOf fun j => decide (8 * i + j < k) && f (8 * i + j)

/-- The bytes that hold the first `n` of the bits `f`, the rest of the last byte zero. -/
def pack (n : Nat) (f : Nat → Bool) : List UInt8 := filled n n f

theorem byteOf_getLsbD {j : Nat} (low : j < 8) : (byteOf f).toBitVec.getLsbD j = f j := by
  simp only [byteOf, BitVec.getLsbD_ofBoolListLE]
  interval_cases j <;> rfl

/-- A byte is its eight bits. -/
theorem eq_byteOf {b : UInt8} (bits : ∀ j < 8, b.toBitVec.getLsbD j = f j) : b = byteOf f := by
  apply UInt8.eq_of_toBitVec_eq
  apply BitVec.eq_of_getLsbD_eq
  intro j low
  rw [bits j low, byteOf_getLsbD low]

theorem byteOf_congr (same : ∀ j < 8, f j = g j) : byteOf f = byteOf g :=
  eq_byteOf fun j low => by rw [byteOf_getLsbD low, same j low]

theorem byteOf_or (f g : Nat → Bool) : byteOf f ||| byteOf g = byteOf fun j => f j || g j := by
  refine eq_byteOf fun j low => ?_
  rw [UInt8.toBitVec_or, BitVec.getLsbD_or, byteOf_getLsbD low, byteOf_getLsbD low]

@[simp] theorem filled_length (n k : Nat) (f : Nat → Bool) : (filled n k f).length = (n + 7) / 8 := by simp [filled]

@[simp] theorem pack_length (n : Nat) (f : Nat → Bool) : (pack n f).length = (n + 7) / 8 := filled_length n n f

/-- Eight bits are one byte. -/
theorem pack_eight (f : Nat → Bool) : pack 8 f = [byteOf f] := by
  refine congrArg (fun b => [b]) (byteOf_congr fun j low => ?_)
  simp only [Nat.mul_zero, Nat.zero_add, decide_eq_true low, Bool.true_and]

theorem filled_zero (n : Nat) (f : Nat → Bool) : filled n 0 f = List.replicate ((n + 7) / 8) 0 := by
  have none_ : byteOf (fun _ => false) = 0 := by decide
  simp [filled, none_]

/-- The mask of bit `m`, as shifting 1 to the left gives it. -/
def mask (m : Nat) : UInt8 := byteOf fun j => j == m

theorem mask_zero : mask 0 = 1 := by decide

theorem mask_succ {m : Nat} (low : m + 1 < 8) : mask m <<< 1 = mask (m + 1) := by
  have low' : m < 7 := by omega
  interval_cases m <;> decide

/-- Setting the next bit, if it is to be set. -/
theorem filled_succ {n k : Nat} (f : Nat → Bool) :
    (if f k then (filled n k f).modify (k / 8) (· ||| mask (k % 8)) else filled n k f) = filled n (k + 1) f := by
  have byte (i j : Nat) (low : j < 8) :
      (decide (8 * i + j < k + 1) && f (8 * i + j)) =
        ((decide (8 * i + j < k) && f (8 * i + j)) || (decide (i = k / 8) && j == k % 8 && f k)) := by
    by_cases here : 8 * i + j = k
    · subst here
      have at_ : i = (8 * i + j) / 8 ∧ j = (8 * i + j) % 8 := by omega
      simp [← at_.1, ← at_.2]
    · have not_ : ¬ (i = k / 8 ∧ j = k % 8) := by omega
      have still : 8 * i + j < k + 1 ↔ 8 * i + j < k := by omega
      by_cases in_ : i = k / 8
      · simp [still, show j ≠ k % 8 from fun same => not_ ⟨in_, same⟩]
      · simp [still, in_]
  apply List.ext_getElem
  · split_ifs <;> simp
  · intro i _ inside
    have bits : (filled n (k + 1) f)[i] =
        byteOf (fun j => decide (8 * i + j < k) && f (8 * i + j)) |||
          byteOf (fun j => decide (i = k / 8) && j == k % 8 && f k) := by
      rw [byteOf_or]
      simp only [filled, List.getElem_map, List.getElem_range]
      exact byteOf_congr (byte i)
    rw [bits]
    have none_ : byteOf (fun _ => false) = 0 := by decide
    split_ifs with set
    · rw [List.getElem_modify]
      by_cases in_ : k / 8 = i
      · simp [in_, set, filled, mask]
      · simp [in_, Ne.symm in_, filled, none_]
    · simp [set, filled, none_]

end IoEdgeHub.BitPack
