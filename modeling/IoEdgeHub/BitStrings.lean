import Mathlib.Data.List.Basic
import Mathlib.Data.List.Induction
import Mathlib.Data.Nat.Bitwise

/-!
Strings of bits, the highest bit of a number first. Numbers of one width can be written
one after the other and read back with another width: what is written is one string, and
the string says what the numbers of any width are.
-/
namespace IoEdgeHub.BitStrings

/-- The lowest `width` bits of a number. -/
def bits : Nat → Nat → List Bool
  | 0, _ => []
  | width + 1, v => v.testBit width :: bits width v

/-- The number that a string of bits writes. -/
def value (s : List Bool) : Nat := s.foldl (fun v bit => 2 * v + bit.toNat) 0

/-- Numbers of one width, one after the other. -/
def concat (width : Nat) (vs : List Nat) : List Bool := vs.flatMap (bits width)

section
variable {a b k width u v : Nat}

@[simp] theorem length_bits (width v : Nat) : (bits width v).length = width := by
  induction width with
  | zero => rfl
  | succ width ih => rw [bits, List.length_cons, ih]

/-- A string of bits can be cut into high and low bits. -/
theorem bits_add (a b v : Nat) : bits (a + b) v = bits a (v / 2^b) ++ bits b v := by
  induction a with
  | zero => rw [Nat.zero_add, bits, List.nil_append]
  | succ a ih => rw [Nat.succ_add, bits, ih, bits, Nat.testBit_div_two_pow, Nat.add_comm a b, List.cons_append]

theorem bits_mod (short : width ≤ k) (v : Nat) : bits width (v % 2^k) = bits width v := by
  induction width with
  | zero => rfl
  | succ width ih =>
    have inside : width < k := short
    rw [bits, bits, ih (Nat.le_of_lt inside), Nat.testBit_mod_two_pow, decide_eq_true inside, Bool.true_and]

theorem bits_zero (width : Nat) : bits width 0 = List.replicate width false := by
  induction width with
  | zero => rfl
  | succ width ih => rw [bits, ih, Nat.zero_testBit, List.replicate_succ]

theorem value_append (s t : List Bool) : value (s ++ t) = value s * 2^t.length + value t := by
  induction t using List.reverseRecOn with
  | nil => simp [value]
  | append_singleton t bit ih =>
    have last (s : List Bool) : value (s ++ [bit]) = 2 * value s + bit.toNat := by
      rw [value, List.foldl_concat]
      rfl
    rw [← List.append_assoc, last, last, ih, List.length_append, List.length_singleton, Nat.pow_succ', Nat.mul_add,
      Nat.add_assoc, Nat.mul_left_comm]

theorem value_bits (width v : Nat) : value (bits width v) = v % 2^width := by
  induction width with
  | zero => rw [pow_zero, Nat.mod_one]; rfl
  | succ width ih =>
    have first : value [v.testBit width] = v / 2^width % 2 := by
      rw [← Nat.toNat_testBit]
      simp [value]
    have cut := value_append [v.testBit width] (bits width v)
    rw [List.singleton_append, first, ih, length_bits] at cut
    rw [bits, cut, Nat.mod_pow_succ, Nat.mul_comm, Nat.add_comm]

/-- Numbers that fit are known by their bits. -/
theorem bits_inj (fits : u < 2^width) (fits' : v < 2^width) (same : bits width u = bits width v) : u = v := by
  have values := congrArg value same
  rw [value_bits, value_bits, Nat.mod_eq_of_lt fits, Nat.mod_eq_of_lt fits'] at values
  exact values

/-- Two numbers of any widths are one number. -/
theorem bits_append (a u : Nat) (fits : v < 2^b) : bits a u ++ bits b v = bits (a + b) (u * 2^b + v) := by
  have high : (u * 2^b + v) / 2^b = u := by
    rw [Nat.add_comm, Nat.add_mul_div_right _ _ (Nat.two_pow_pos b), Nat.div_eq_of_lt fits, Nat.zero_add]
  have low : (u * 2^b + v) % 2^b = v := by
    rw [Nat.add_comm, Nat.add_mul_mod_self_right, Nat.mod_eq_of_lt fits]
  rw [bits_add, high, ← bits_mod (Nat.le_refl b) (u * 2^b + v), low]

theorem concat_cons (width v : Nat) (vs : List Nat) : concat width (v :: vs) = bits width v ++ concat width vs := rfl

theorem concat_append (width : Nat) (us vs : List Nat) : concat width (us ++ vs) = concat width us ++ concat width vs :=
  List.flatMap_append

theorem length_concat (width : Nat) (vs : List Nat) : (concat width vs).length = width * vs.length := by
  induction vs with
  | nil => rfl
  | cons v vs ih => rw [concat_cons, List.length_append, length_bits, ih, List.length_cons, Nat.mul_succ, Nat.add_comm]

/-- As many numbers with the same bits are the same numbers. -/
theorem concat_inj {us vs : List Nat} (fits : ∀ u ∈ us, u < 2^width) (fits' : ∀ v ∈ vs, v < 2^width)
    (length : us.length = vs.length) (same : concat width us = concat width vs) : us = vs := by
  induction us generalizing vs with
  | nil => exact (List.length_eq_zero_iff.mp length.symm).symm
  | cons u us ih =>
    cases vs with
    | nil => cases length
    | cons v vs =>
      rw [concat_cons, concat_cons] at same
      obtain ⟨first, rest⟩ := List.append_inj same (by rw [length_bits, length_bits])
      obtain rfl := bits_inj (fits u List.mem_cons_self) (fits' v List.mem_cons_self) first
      have later := ih (fun u member => fits u (List.mem_cons_of_mem _ member))
        (fun v member => fits' v (List.mem_cons_of_mem _ member)) (Nat.succ.inj length) rest
      rw [later]

/-- The bits of bytes. -/
def of_bytes (m : List UInt8) : List Bool := concat 8 (m.map UInt8.toNat)

theorem of_bytes_cons (c : UInt8) (m : List UInt8) : of_bytes (c :: m) = bits 8 c.toNat ++ of_bytes m := rfl

theorem of_bytes_append (m n : List UInt8) : of_bytes (m ++ n) = of_bytes m ++ of_bytes n := by
  rw [of_bytes, List.map_append, concat_append]
  rfl

@[simp] theorem length_of_bytes (m : List UInt8) : (of_bytes m).length = 8 * m.length := by
  rw [of_bytes, length_concat, List.length_map]

theorem of_bytes_inj {m n : List UInt8} (length : m.length = n.length) (same : of_bytes m = of_bytes n) : m = n := by
  have small (l : List UInt8) : ∀ v ∈ l.map UInt8.toNat, v < 2^8 := by
    intro v member
    obtain ⟨c, _, rfl⟩ := List.mem_map.mp member
    exact c.toNat_lt
  have numbers := concat_inj (small m) (small n) (by rw [List.length_map, List.length_map, length]) same
  exact List.map_injective_iff.mpr (fun c d same => UInt8.toNat_inj.mp same) numbers

theorem of_bytes_drop (k : Nat) (m : List UInt8) : (of_bytes m).drop (8 * k) = of_bytes (m.drop k) := by
  induction k generalizing m with
  | zero => rfl
  | succ k ih =>
    cases m with
    | nil => rw [List.drop_nil]; exact List.drop_nil
    | cons c m =>
      rw [of_bytes_cons, Nat.mul_succ, Nat.add_comm, ← List.drop_drop, List.drop_left' (length_bits 8 _), ih]
      rfl

theorem of_bytes_take (k : Nat) (m : List UInt8) : (of_bytes m).take (8 * k) = of_bytes (m.take k) := by
  have split : of_bytes m = of_bytes (m.take k) ++ of_bytes (m.drop k) := by rw [← of_bytes_append, List.take_append_drop]
  by_cases inside : k ≤ m.length
  · rw [split, List.take_left' (by rw [length_of_bytes, List.length_take, Nat.min_eq_left inside])]
  · have whole : m.take k = m := List.take_of_length_le (Nat.le_of_not_le inside)
    rw [whole, List.take_of_length_le (by rw [length_of_bytes]; omega)]

theorem of_bytes_zeros (k : Nat) : of_bytes (List.replicate k 0) = List.replicate (8 * k) false := by
  induction k with
  | zero => rfl
  | succ k ih =>
    rw [List.replicate_succ, of_bytes_cons, ih, Nat.mul_succ, Nat.add_comm, List.replicate_add]
    rfl

/-- The byte that is cut out of a number. -/
theorem bits_byte (v : Nat) : bits 8 (UInt8.ofNat v).toNat = bits 8 v := by
  rw [UInt8.toNat_ofNat']
  exact bits_mod (Nat.le_refl 8) v

/-- A number written in bytes, the highest first: one more of them. -/
theorem of_bytes_digit {l : List UInt8} (k v : Nat) (rest : of_bytes l = bits k v) :
    of_bytes (UInt8.ofNat (v / 2^k) :: l) = bits (8 + k) v := by
  rw [of_bytes_cons, bits_byte, rest, bits_add]

/-- A number read from bytes, the highest first. -/
theorem value_of_bytes (m : List UInt8) (c : UInt8) : value (of_bytes (m ++ [c])) = value (of_bytes m) * 2^8 + c.toNat := by
  have last : of_bytes [c] = bits 8 c.toNat := List.append_nil _
  rw [of_bytes_append, value_append, last, length_bits, value_bits, Nat.mod_eq_of_lt c.toNat_lt]

end

end IoEdgeHub.BitStrings
