import Mathlib.Data.List.GetD
import IoEdgeHub.CStrings

/-!
Buffers of C of a fixed size, with writes that are checked: a write of which any byte would
lie outside the buffer has no result. A string in a buffer ends at its first zero byte.
-/
namespace IoEdgeHub.CBuffers
open IoEdgeHub.CStrings

variable {size : Nat}

/-- The byte at an index. -/
def read (b : Vector UInt8 size) (i : Nat) : UInt8 := b[i]?.getD 0

/-- Bytes written from an index on. -/
def poke (start : Nat) (bytes : List UInt8) (b : Vector UInt8 size) : Option (Vector UInt8 size) :=
  if start + bytes.length ≤ size then
    some (Vector.ofFn fun i =>
      if start ≤ i.val ∧ i.val < start + bytes.length then bytes.getD (i.val - start) 0 else b.get i)
  else none

/-- Bytes read from an index on. -/
def peek (start n : Nat) (b : Vector UInt8 size) : Option (List UInt8) :=
  if start + n ≤ size then some ((List.range n).map fun i => read b (start + i)) else none

/-- The string that starts a buffer. -/
def string (b : Vector UInt8 size) : List UInt8 := cstr b.toList

def strcpy (dst src : Vector UInt8 size) : Option (Vector UInt8 size) := poke 0 (string src ++ [0]) dst

/-- `memmove(&b[dst], &b[src], n)` -/
def memmove (dst src n : Nat) (b : Vector UInt8 size) : Option (Vector UInt8 size) :=
  poke dst ((List.range n).map fun i => read b (src + i)) b

/-- There is a zero byte in the buffer. -/
def Terminated (b : Vector UInt8 size) : Prop := ∃ i < size, read b i = 0

section
variable {b src : Vector UInt8 size} {start n : Nat} {bytes : List UInt8}

theorem poke_inside (b : Vector UInt8 size) (fits : start + bytes.length ≤ size) :
    ∃ b', poke start bytes b = some b' ∧ ∀ i < size,
      read b' i = if start ≤ i ∧ i < start + bytes.length then bytes.getD (i - start) 0 else read b i := by
  refine ⟨_, if_pos fits, ?_⟩
  intro i inside
  rw [read, Vector.getElem?_eq_getElem inside, Vector.getElem_ofFn, Option.getD_some]
  split_ifs
  · rfl
  · rw [read, Vector.getElem?_eq_getElem inside]
    rfl

theorem poke_outside (outside : size < start + bytes.length) : poke start bytes b = none :=
  if_neg (Nat.not_le.mpr outside)

/-- A single byte. -/
theorem poke_one (b : Vector UInt8 size) {c : UInt8} (inside : start < size) :
    ∃ b', poke start [c] b = some b' ∧ read b' start = c ∧ ∀ i < size, i ≠ start → read b' i = read b i := by
  obtain ⟨b', wrote, reads⟩ := @poke_inside size start [c] b inside
  refine ⟨b', wrote, ?_, ?_⟩
  · rw [reads start inside, if_pos ⟨Nat.le_refl _, Nat.lt_succ_self _⟩, Nat.sub_self]
    rfl
  · intro i below other
    refine (reads i below).trans (if_neg ?_)
    rintro ⟨low, high⟩
    exact other (Nat.le_antisymm (Nat.le_of_lt_succ high) low)

/-- A prefix that stops at what the condition excludes is no longer than its index. -/
theorem takeWhile_length_le {l : List UInt8} {p : UInt8 → Bool} {c : UInt8} (at_ : l[n]? = some c) (stops : p c = false) :
    (l.takeWhile p).length ≤ n := by
  induction l generalizing n with
  | nil => cases at_
  | cons x rest ih =>
    by_cases first : p x = true
    · rw [List.takeWhile_cons_of_pos first, List.length_cons]
      cases n with
      | zero =>
        obtain rfl : x = c := Option.some.inj at_
        rw [stops] at first
        cases first
      | succ n => exact Nat.succ_le_succ (ih at_)
    · rw [List.takeWhile_cons_of_neg first]
      exact Nat.zero_le n

/-- The string ends before any zero byte. -/
theorem string_length (zero : read b n = 0) (inside : n < size) : (string b).length ≤ n := by
  have here : b.toList[n]? = some 0 := by
    rw [read, Vector.getElem?_eq_getElem inside, Option.getD_some] at zero
    rw [Vector.getElem?_toList, Vector.getElem?_eq_getElem inside, zero]
  exact takeWhile_length_le here (decide_eq_false (not_not.mpr rfl))

theorem string_short (terminated : Terminated b) : (string b).length < size := by
  obtain ⟨n, inside, zero⟩ := terminated
  exact Nat.lt_of_le_of_lt (string_length zero inside) inside

theorem toList_eq (b : Vector UInt8 size) : b.toList = (List.range size).map (read b) := by
  refine List.ext_getElem (by simp) ?_
  intro i _ inside
  have below : i < size := by simpa using inside
  rw [List.getElem_map, List.getElem_range, read, Vector.getElem?_eq_getElem below, Vector.getElem_toList]
  rfl

/-- What stands in front of the end of the string. -/
theorem string_reads {i : Nat} (below : i < (string b).length) : read b i = (string b).getD i 0 := by
  have start := List.takeWhile_prefix (fun c : UInt8 => decide (c ≠ 0)) (l := b.toList)
  have inside : i < b.toList.length := Nat.lt_of_lt_of_le below start.length_le
  have same : (string b)[i] = b.toList[i] := List.IsPrefix.getElem start below
  have reads : b.toList[i] = read b i := by
    simp only [toList_eq b, List.getElem_map, List.getElem_range]
  rw [List.getD_eq_getElem _ _ below, same, reads]

theorem string_nonzero : ∀ c ∈ string b, c ≠ 0 := by
  intro c member
  have kept := List.all_takeWhile (p := fun c : UInt8 => decide (c ≠ 0)) (l := b.toList)
  exact of_decide_eq_true (List.all_eq_true.mp kept c member)

/-- A character and a zero at the end of a string make it longer. -/
theorem string_concat (b : Vector UInt8 size) {c : UInt8} (character : c ≠ 0) (room : (string b).length + 1 < size) :
    ∃ b₁ b₂, poke (string b).length [c] b = some b₁ ∧ poke ((string b).length + 1) [0] b₁ = some b₂ ∧
      string b₂ = string b ++ [c] := by
  obtain ⟨b₁, wrote, last, before⟩ := @poke_one size (string b).length b c (by omega)
  obtain ⟨b₂, ended, zero, others⟩ := @poke_one size ((string b).length + 1) b₁ 0 room
  refine ⟨b₁, b₂, wrote, ended, ?_⟩
  have length : (string b ++ [c]).length = (string b).length + 1 := List.length_append
  rw [string, toList_eq b₂]
  refine cstr_eq ?_ ?_ ?_ ?_
  · intro i below
    rw [length] at below
    rw [others i (by omega) (by omega)]
    by_cases old : i < (string b).length
    · rw [before i (by omega) (by omega), string_reads old, List.getD_append _ _ _ _ old]
    · obtain rfl : i = (string b).length := by omega
      rw [last, List.getD_append_right _ _ _ _ (Nat.le_refl _), Nat.sub_self]
      rfl
  · rw [length]
    exact zero
  · rw [length]
    exact room
  · intro x member
    rcases List.mem_append.mp member with old | new
    · exact string_nonzero x old
    · rw [List.mem_singleton.mp new]
      exact character

/-- A string that ends in its buffer is copied with its end. -/
theorem strcpy_ends (dst : Vector UInt8 size) (terminated : Terminated src) :
    ∃ dst', strcpy dst src = some dst' ∧ read dst' (string src).length = 0 := by
  have short := string_short terminated
  have length : (string src ++ [0]).length = (string src).length + 1 := List.length_append
  obtain ⟨dst', copied, reads⟩ := @poke_inside size 0 (string src ++ [0]) dst (by omega)
  refine ⟨dst', copied, ?_⟩
  rw [reads _ short, if_pos (by omega), Nat.sub_zero, List.getD_append_right _ _ _ _ (Nat.le_refl _), Nat.sub_self]
  rfl

theorem memmove_inside {dst src : Nat} (b : Vector UInt8 size) (fits : dst + n ≤ size) :
    ∃ b', memmove dst src n b = some b' := by
  have length : ((List.range n).map fun i => read b (src + i)).length = n := by
    rw [List.length_map, List.length_range]
  obtain ⟨b', moved, _⟩ := @poke_inside size dst ((List.range n).map fun i => read b (src + i)) b (by rw [length]; exact fits)
  exact ⟨b', moved⟩

end

end IoEdgeHub.CBuffers
