import Mathlib.Data.List.Basic
import Mathlib.Logic.Function.Iterate

/-!
Shift registers that divide a stream of bits by a polynomial, the lowest place first. A
register takes each bit into its lowest place and moves down by one, and what falls out
decides whether the polynomial is added.

As many bits as the register has places can be added to it at once (`run_eq_iterate`), and no
step forgets anything when the polynomial has its top bit (`shift_injective`). Two streams
that differ, but only within as many bits, hence leave different registers (`run_ne`).
-/
namespace IoEdgeHub.ShiftRegister

section
variable {n : Nat} (poly : BitVec n)

/-- One step down. -/
def shift (c : BitVec n) : BitVec n := if c.getLsbD 0 then (c >>> 1) ^^^ poly else c >>> 1

/-- The register with one bit in its lowest place. -/
def low (bit : Bool) : BitVec n := BitVec.setWidth n (BitVec.ofBool bit)

def feed (c : BitVec n) (bit : Bool) : BitVec n := shift poly (c ^^^ low bit)

/-- The register after a stream of bits. -/
def run (c : BitVec n) (bits : List Bool) : BitVec n := bits.foldl (feed poly) c

/-- The bits in their places, the first one lowest. -/
def word : List Bool → BitVec n
  | [] => 0
  | bit :: bits => low bit ^^^ (word bits <<< 1)

variable {poly}

theorem getLsbD_low (bit : Bool) (i : Nat) :
    (low bit : BitVec n).getLsbD i = (decide (i < n) && (decide (i = 0) && bit)) := by
  simp [low, BitVec.getLsbD_ofBool]

theorem getLsbD_shift (c : BitVec n) (i : Nat) :
    (shift poly c).getLsbD i = (c.getLsbD (i + 1) ^^ (c.getLsbD 0 && poly.getLsbD i)) := by
  unfold shift
  cases c.getLsbD 0 <;> simp [Nat.add_comm]

/-- A step is linear. -/
theorem shift_xor (c d : BitVec n) : shift poly (c ^^^ d) = shift poly c ^^^ shift poly d := by
  apply BitVec.eq_of_getLsbD_eq
  intro i inside
  simp only [getLsbD_shift, BitVec.getLsbD_xor]
  cases c.getLsbD 0 <;> cases d.getLsbD 0 <;> cases poly.getLsbD i <;> simp

/-- A polynomial with its top bit lets nothing be forgotten: the top bit tells whether it was added. -/
theorem shift_injective (top : poly.getLsbD (n - 1) = true) : Function.Injective (shift poly) := by
  intro c d same
  have bits : ∀ i, (shift poly c).getLsbD i = (shift poly d).getLsbD i := fun i => by rw [same]
  simp only [getLsbD_shift] at bits
  have positive : 0 < n := by
    rcases Nat.eq_zero_or_pos n with rfl | positive
    · simp [BitVec.of_length_zero] at top
    · exact positive
  have lowest : c.getLsbD 0 = d.getLsbD 0 := by
    have highest := bits (n - 1)
    rwa [Nat.sub_add_cancel positive, BitVec.getLsbD_of_ge c n (Nat.le_refl n),
      BitVec.getLsbD_of_ge d n (Nat.le_refl n), top, Bool.and_true, Bool.and_true, Bool.false_xor, Bool.false_xor] at highest
  apply BitVec.eq_of_getLsbD_eq
  intro i inside
  cases i with
  | zero => exact lowest
  | succ i =>
    have place := bits i
    rw [lowest] at place
    exact Bool.xor_left_inj.mp place

theorem getLsbD_word (bits : List Bool) (i : Nat) :
    (word bits : BitVec n).getLsbD i = (decide (i < n) && bits.getD i false) := by
  induction bits generalizing i with
  | nil => simp [word]
  | cons bit bits ih =>
    cases i with
    | zero => simp [word, getLsbD_low]
    | succ i =>
      simp only [word, BitVec.getLsbD_xor, getLsbD_low, BitVec.getLsbD_shiftLeft, ih, List.getD_cons_succ]
      by_cases inside : i + 1 < n
      · have below : i < n := by omega
        simp [inside, below]
      · simp [inside]

/-- What is added one place up comes down whole, as long as it is not the whole register. -/
theorem shift_up (c : BitVec n) {bits : List Bool} (room : bits.length < n) :
    shift poly (c ^^^ (word bits <<< 1)) = shift poly c ^^^ word bits := by
  have lowest : ((word bits : BitVec n) <<< 1).getLsbD 0 = false := by simp
  rw [shift_xor]
  congr 1
  apply BitVec.eq_of_getLsbD_eq
  intro i inside
  rw [getLsbD_shift, lowest, BitVec.getLsbD_shiftLeft]
  simp only [Bool.false_and, Bool.xor_false, Nat.add_sub_cancel, getLsbD_word]
  by_cases last : i + 1 < n
  · simp [last]
  · have beyond : bits.length ≤ i := by omega
    simp [last, beyond]

/-- As many bits as the register has places: they are added, and the register moves down. -/
theorem run_eq_iterate (c : BitVec n) {bits : List Bool} (fits : bits.length ≤ n) :
    run poly c bits = (shift poly)^[bits.length] (c ^^^ word bits) := by
  induction bits generalizing c with
  | nil => simp [run, word]
  | cons bit bits ih =>
    have room : bits.length < n := fits
    rw [List.length_cons, Function.iterate_succ_apply, word, ← BitVec.xor_assoc, shift_up _ room,
      ← ih _ (Nat.le_of_lt room)]
    rfl

theorem run_append (c : BitVec n) (first second : List Bool) :
    run poly c (first ++ second) = run poly (run poly c first) second :=
  List.foldl_append

theorem run_injective (top : poly.getLsbD (n - 1) = true) (bits : List Bool) :
    Function.Injective fun c => run poly c bits := by
  induction bits with
  | nil => exact Function.injective_id
  | cons bit bits ih =>
    intro c d same
    have fed : feed poly c bit = feed poly d bit := ih same
    exact (BitVec.xor_left_inj _).mp (shift_injective top fed)

/-- Different words of the register's length are different bits in the register. -/
theorem word_inj {first second : List Bool} (alike : first.length = second.length) (fits : first.length ≤ n)
    (same : (word first : BitVec n) = word second) : first = second := by
  apply List.ext_getElem alike
  intro i inside inside'
  have place : (word first : BitVec n).getLsbD i = (word second : BitVec n).getLsbD i := by rw [same]
  have below : i < n := Nat.lt_of_lt_of_le inside fits
  rw [getLsbD_word, getLsbD_word, decide_eq_true below] at place
  simpa [inside, inside'] using place

/-- The bits of a word, the lowest first. -/
def bits {w : Nat} (x : BitVec w) : List Bool := (List.range w).map x.getLsbD

@[simp] theorem length_bits {w : Nat} (x : BitVec w) : (bits x).length = w := by simp [bits]

theorem getD_bits {w : Nat} (x : BitVec w) (i : Nat) : (bits x).getD i false = x.getLsbD i := by
  by_cases inside : i < w
  · simp [bits, inside]
  · simp [bits, inside, BitVec.getLsbD_of_ge _ _ (Nat.not_lt.mp inside)]

theorem word_bits {w : Nat} (x : BitVec w) : (word (bits x) : BitVec n) = x.setWidth n := by
  apply BitVec.eq_of_getLsbD_eq
  intro i inside
  rw [getLsbD_word, getD_bits, BitVec.getLsbD_setWidth]

/-- A word that the register has room for. -/
theorem run_bits {w : Nat} (c : BitVec n) (x : BitVec w) (fits : w ≤ n) :
    run poly c (bits x) = (shift poly)^[w] (c ^^^ x.setWidth n) := by
  rw [run_eq_iterate c (by rw [length_bits]; exact fits), length_bits, word_bits]

theorem iterate_shift_xor (times : Nat) (c d : BitVec n) :
    (shift poly)^[times] (c ^^^ d) = (shift poly)^[times] c ^^^ (shift poly)^[times] d := by
  induction times generalizing c d with
  | zero => rfl
  | succ times ih => rw [Function.iterate_succ_apply, shift_xor, ih, Function.iterate_succ_apply, Function.iterate_succ_apply]

/-- Where the lowest places are clear, nothing is added and the register only moves down. -/
theorem iterate_shift_clear {times : Nat} {c : BitVec n} (clear : ∀ i < times, c.getLsbD i = false) :
    (shift poly)^[times] c = c >>> times := by
  induction times generalizing c with
  | zero => simp
  | succ times ih =>
    have down : shift poly c = c >>> 1 := by
      unfold shift
      rw [clear 0 (Nat.succ_pos times)]
      rfl
    rw [Function.iterate_succ_apply, down, ih, ← BitVec.shiftRight_add, Nat.add_comm]
    intro i below
    rw [BitVec.getLsbD_ushiftRight]
    exact clear (1 + i) (by omega)

/-- The streams differ at most within `width` bits, from the place `p` on. -/
def Burst (width p : Nat) (first second : List Bool) : Prop :=
  first.length = second.length ∧ ∀ i, first[i]? ≠ second[i]? → p ≤ i ∧ i < p + width

/-- Two streams which differ, but only within as many bits as the register has places, leave it different. -/
theorem run_ne (top : poly.getLsbD (n - 1) = true) {p : Nat} {first second : List Bool} (burst : Burst n p first second)
    (differ : first ≠ second) (c : BitVec n) : run poly c first ≠ run poly c second := by
  obtain ⟨alike, within⟩ := burst
  have equal : ∀ i, ¬ (p ≤ i ∧ i < p + n) → first[i]? = second[i]? := fun i outside =>
    Classical.byContradiction fun ne => outside (within i ne)
  have before : first.take p = second.take p := by
    apply List.ext_getElem?
    intro i
    simp only [List.getElem?_take]
    split
    · exact equal i (by omega)
    · rfl
  have after : (first.drop p).drop n = (second.drop p).drop n := by
    apply List.ext_getElem?
    intro i
    simp only [List.getElem?_drop]
    exact equal _ (by omega)
  have cut : ∀ bits : List Bool,
      run poly c bits = run poly (run poly (run poly c (bits.take p)) ((bits.drop p).take n)) ((bits.drop p).drop n) :=
    fun bits => by rw [← run_append, ← run_append, List.take_append_drop, List.take_append_drop]
  have length_ : ((first.drop p).take n).length = ((second.drop p).take n).length := by
    simp only [List.length_take, List.length_drop, alike]
  have fits : ((first.drop p).take n).length ≤ n := List.length_take_le _ _
  intro same
  rw [cut first, cut second, before, after] at same
  have middle := run_injective top _ same
  rw [run_eq_iterate _ fits, run_eq_iterate _ (Nat.le_trans (Nat.le_of_eq length_.symm) fits), length_] at middle
  have words := (BitVec.xor_right_inj _).mp ((shift_injective top).iterate _ middle)
  have burst_ := word_inj length_ fits words
  apply differ
  rw [← List.take_append_drop p first, ← List.take_append_drop p second, before,
    ← List.take_append_drop n (first.drop p), ← List.take_append_drop n (second.drop p), burst_, after]

end

end IoEdgeHub.ShiftRegister
