import Mathlib.Algebra.Group.Nat.Defs
import Mathlib.Data.List.Basic
import Mathlib.Data.List.GetD

/-!
NOR flash, independent of any device or driver. Erasing sets every byte of a
range to 0xFF; programming can only clear bits, so it ANDs the new bytes into
place. A `Dev` is a memory together with what becomes of its coming operations:
each one completes, reports a failure after leaving anything at all in its own
range, or is cut short by a loss of power after some of its bytes.
-/
namespace IoEdgeHub.Nor

/-- The bytes of a flash device by address. -/
abbrev Mem := Nat → UInt8

/-- The range `[addr, addr + len)` set to 0xFF. -/
def erased (addr len : Nat) (m : Mem) : Mem :=
  fun a => if addr ≤ a ∧ a < addr + len then 0xFF else m a

/-- The given bytes programmed from `addr` on: bits are cleared, never set. -/
def programmed (addr : Nat) (bytes : List UInt8) (m : Mem) : Mem :=
  fun a => if addr ≤ a ∧ a < addr + bytes.length then m a &&& bytes.getD (a - addr) 0xFF else m a

/-- The `len` bytes stored from `addr` on. -/
def bytesAt (m : Mem) (addr len : Nat) : List UInt8 := (List.range len).map fun i => m (addr + i)

/-- Every byte of the range is in its erased state. -/
def Blank (m : Mem) (addr len : Nat) : Prop := ∀ a, addr ≤ a → a < addr + len → m a = 0xFF

@[simp] theorem bytesAt_length (m : Mem) (addr len : Nat) : (bytesAt m addr len).length = len := by
  simp [bytesAt]

@[simp] theorem bytesAt_zero (m : Mem) (addr : Nat) : bytesAt m addr 0 = [] := rfl

theorem bytesAt_congr {m m' : Mem} {addr len : Nat}
    (same : ∀ a, addr ≤ a → a < addr + len → m a = m' a) : bytesAt m addr len = bytesAt m' addr len := by
  apply List.map_congr_left
  intro i member
  have inside : i < len := List.mem_range.mp member
  exact same (addr + i) (by omega) (by omega)

theorem bytesAt_append (m : Mem) (addr first second : Nat) :
    bytesAt m addr (first + second) = bytesAt m addr first ++ bytesAt m (addr + first) second := by
  simp only [bytesAt, List.range_add, List.map_append, List.map_map, Function.comp_def, Nat.add_assoc]

theorem bytesAt_take (m : Mem) (addr : Nat) {len k : Nat} (le : k ≤ len) :
    (bytesAt m addr len).take k = bytesAt m addr k := by
  obtain ⟨rest, rfl⟩ := Nat.exists_eq_add_of_le le
  rw [bytesAt_append, List.take_append_of_le_length (by simp), List.take_of_length_le (by simp)]

/-- A part of a range, read on its own. -/
theorem bytesAt_slice (m : Mem) (addr : Nat) {len off n : Nat} (inside : off + n ≤ len) :
    bytesAt m (addr + off) n = ((bytesAt m addr len).drop off).take n := by
  obtain ⟨rest, rfl⟩ := Nat.exists_eq_add_of_le inside
  rw [Nat.add_assoc, bytesAt_append, List.drop_left' (bytesAt_length m addr off), bytesAt_take m _ (Nat.le_add_right n rest)]

theorem bytesAt_getElem? (m : Mem) (addr : Nat) {len i : Nat} (inside : i < len) :
    (bytesAt m addr len)[i]? = some (m (addr + i)) := by
  simp [bytesAt, inside]

theorem erased_inside (m : Mem) {addr len a : Nat} (low : addr ≤ a) (high : a < addr + len) :
    erased addr len m a = 0xFF := by
  simp [erased, low, high]

theorem erased_outside (m : Mem) {addr len a : Nat} (outside : a < addr ∨ addr + len ≤ a) :
    erased addr len m a = m a := by
  have no : ¬ (addr ≤ a ∧ a < addr + len) := by omega
  simp [erased, no]

theorem erased_blank (m : Mem) (addr len : Nat) : Blank (erased addr len m) addr len :=
  fun _ low high => erased_inside m low high

theorem programmed_outside (m : Mem) {addr a : Nat} {bytes : List UInt8}
    (outside : a < addr ∨ addr + bytes.length ≤ a) : programmed addr bytes m a = m a := by
  have no : ¬ (addr ≤ a ∧ a < addr + bytes.length) := by omega
  simp [programmed, no]

@[simp] theorem programmed_nil (m : Mem) (addr : Nat) : programmed addr [] m = m := by
  funext a
  exact programmed_outside m (by simp; omega)

private theorem blank_and (b : UInt8) : (0xFF : UInt8) &&& b = b := UInt8.neg_one_and

/-- Over erased bytes programming stores what it is given. -/
theorem bytesAt_programmed {m : Mem} {addr : Nat} {bytes : List UInt8} (blank : Blank m addr bytes.length) :
    bytesAt (programmed addr bytes m) addr bytes.length = bytes := by
  apply List.ext_getElem?
  intro i
  by_cases inside : i < bytes.length
  · rw [bytesAt_getElem? _ _ inside, List.getElem?_eq_getElem inside]
    have old : m (addr + i) = 0xFF := blank _ (by omega) (by omega)
    simp [programmed, old, inside, blank_and]
  · rw [List.getElem?_eq_none (by simpa using inside), List.getElem?_eq_none (by simpa using inside)]

theorem bytesAt_programmed_outside (m : Mem) {addr at_ len : Nat} {bytes : List UInt8}
    (apart : at_ + len ≤ addr ∨ addr + bytes.length ≤ at_) :
    bytesAt (programmed addr bytes m) at_ len = bytesAt m at_ len :=
  bytesAt_congr fun _ low high => programmed_outside m (by omega)

theorem bytesAt_erased_outside (m : Mem) {addr at_ len size : Nat}
    (apart : at_ + len ≤ addr ∨ addr + size ≤ at_) :
    bytesAt (erased addr size m) at_ len = bytesAt m at_ len :=
  bytesAt_congr fun _ low high => erased_outside m (by omega)

theorem blank_programmed {m : Mem} {addr at_ len : Nat} {bytes : List UInt8} (blank : Blank m at_ len)
    (apart : at_ + len ≤ addr ∨ addr + bytes.length ≤ at_) : Blank (programmed addr bytes m) at_ len := by
  intro a low high
  rw [programmed_outside m (by omega)]
  exact blank a low high

theorem blank_part {m : Mem} {addr len at_ n : Nat} (blank : Blank m addr len) (low : addr ≤ at_)
    (high : at_ + n ≤ addr + len) : Blank m at_ n :=
  fun a from_ upTo => blank a (by omega) (by omega)

/-- Bytes programmed behind what a range already stores extend what it stores. -/
theorem bytesAt_extend {m : Mem} {addr : Nat} {stored bytes : List UInt8}
    (have_ : bytesAt m addr stored.length = stored)
    (blank : Blank m (addr + stored.length) bytes.length) :
    bytesAt (programmed (addr + stored.length) bytes m) addr (stored ++ bytes).length = stored ++ bytes := by
  rw [List.length_append, bytesAt_append, bytesAt_programmed_outside m (.inl (Nat.le_refl _)), have_,
    bytesAt_programmed blank]

/-- Programming in two pieces is programming the whole. -/
theorem programmed_append (addr : Nat) (first second : List UInt8) (m : Mem) :
    programmed addr (first ++ second) m = programmed (addr + first.length) second (programmed addr first m) := by
  funext a
  by_cases low : a < addr + first.length
  · rw [programmed_outside _ (.inl low)]
    simp only [programmed, List.length_append]
    by_cases from_ : addr ≤ a
    · have inFirst : a - addr < first.length := by omega
      rw [if_pos ⟨from_, by omega⟩, if_pos ⟨from_, low⟩, List.getD_append _ _ _ _ inFirst]
    · rw [if_neg (by omega), if_neg (by omega)]
  · have kept : programmed addr first m a = m a := programmed_outside m (by omega)
    simp only [programmed, List.length_append] at kept ⊢
    by_cases inSecond : a < addr + first.length + second.length
    · have behind : first.length ≤ a - addr := by omega
      rw [if_pos (by omega), if_pos (by omega), kept, List.getD_append_right _ _ _ _ behind, Nat.sub_sub]
    · rw [if_neg (by omega), if_neg (by omega), kept]

theorem programmed_split (addr : Nat) {n : Nat} {bytes : List UInt8} (le : n ≤ bytes.length) (m : Mem) :
    programmed (addr + n) (bytes.drop n) (programmed addr (bytes.take n) m) = programmed addr bytes m := by
  have size : (bytes.take n).length = n := List.length_take_of_le le
  conv => rhs; rw [← List.take_append_drop n bytes, programmed_append, size]

/-- What becomes of one operation: it completes; it reports a failure, having
    left `left` in its range; or power is lost when it has done the bytes `part`
    selects. -/
inductive Fate
  | ok
  | fail (left : Mem)
  | cut (part : Nat → Bool)

/-- A device and the fates of its coming operations, all of which complete once
    the list is used up. Without power an operation does nothing and fails. -/
structure Dev where
  mem : Mem
  fates : List Fate := []
  power : Bool := true

/-- The same contents with no fault to come. -/
def Dev.sound (d : Dev) : Dev := { mem := d.mem }

/-- The addresses selected by `select` take their bytes from `new`. -/
def blend (select : Nat → Bool) (new old : Mem) : Mem := fun a => if select a then new a else old a

/-- Whether an address lies in a range. -/
def inRange (addr len a : Nat) : Bool := decide (addr ≤ a ∧ a < addr + len)

/-- One operation on the range `[addr, addr + len)` that turns the memory into
    `effect` of it when it completes. -/
def Dev.operate (addr len : Nat) (effect : Mem → Mem) (d : Dev) : Bool × Dev :=
  if !d.power then (false, d) else
  match d.fates with
  | [] => (true, { d with mem := effect d.mem })
  | .ok :: rest => (true, { d with mem := effect d.mem, fates := rest })
  | .fail left :: rest => (false, { d with mem := blend (inRange addr len) left d.mem, fates := rest })
  | .cut part :: rest =>
    (false, { mem := blend (fun a => inRange addr len a && part a) (effect d.mem) d.mem, fates := rest, power := false })

def Dev.erase (addr len : Nat) (d : Dev) : Bool × Dev := d.operate addr len (erased addr len)

def Dev.program (addr : Nat) (bytes : List UInt8) (d : Dev) : Bool × Dev :=
  d.operate addr bytes.length (programmed addr bytes)

/-- Reading: the stored bytes, or nothing when the operation fails. -/
def Dev.read (addr len : Nat) (d : Dev) : Option (List UInt8) × Dev :=
  let r := d.operate addr 0 id
  (if r.1 then some (bytesAt d.mem addr len) else none, r.2)

section
variable {addr len : Nat} {effect : Mem → Mem} {d d' : Dev}

/-- What holds of an operation that has completed. -/
theorem operate_done (done : d.operate addr len effect = (true, d')) :
    d'.power = true ∧ d'.mem = effect d.mem ∧ d'.fates = d.fates.tail := by
  unfold Dev.operate at done
  cases on : d.power with
  | false => simp [on] at done
  | true =>
    simp only [on, Bool.not_true, Bool.false_eq_true, if_false] at done
    split at done
    · rename_i unused; cases done; simp [unused]
    · rename_i rest next; cases done; simp [next]
    · simp at done
    · simp at done

/-- With power and no fault to come an operation completes. -/
theorem operate_working (on : d.power = true) (working : d.fates = []) :
    d.operate addr len effect = (true, { d with mem := effect d.mem }) := by
  simp [Dev.operate, on, working]

/-- An operation uses up one fate. -/
theorem operate_fates (on : d.power = true) : (d.operate addr len effect).2.fates = d.fates.tail := by
  unfold Dev.operate
  cases ahead : d.fates with
  | nil => simp [on]
  | cons fate rest => cases fate <;> simp [on]

/-- Whatever becomes of it, an operation leaves the bytes outside its range alone. -/
theorem operate_outside {a : Nat} (frame : effect d.mem a = d.mem a) (outside : a < addr ∨ addr + len ≤ a) :
    (d.operate addr len effect).2.mem a = d.mem a := by
  have no : inRange addr len a = false := by simp [inRange]; omega
  unfold Dev.operate
  split
  · rfl
  · split <;> simp [blend, no, frame]

end

theorem erase_outside {d : Dev} {addr len a : Nat} (outside : a < addr ∨ addr + len ≤ a) :
    (d.erase addr len).2.mem a = d.mem a :=
  operate_outside (erased_outside _ outside) outside

theorem program_outside {d : Dev} {addr a : Nat} {bytes : List UInt8}
    (outside : a < addr ∨ addr + bytes.length ≤ a) : (d.program addr bytes).2.mem a = d.mem a :=
  operate_outside (programmed_outside _ outside) outside

theorem read_mem (d : Dev) (addr len : Nat) : (d.read addr len).2.mem = d.mem := by
  funext a
  exact @operate_outside addr 0 id d a rfl (by omega)

theorem read_working {d : Dev} (on : d.power = true) (working : d.fates = []) (addr len : Nat) :
    d.read addr len = (some (bytesAt d.mem addr len), d) := by
  simp [Dev.read, operate_working on working]

/-- A read that succeeds returns the stored bytes. -/
theorem read_some {d : Dev} {addr len : Nat} {bytes : List UInt8} (got : (d.read addr len).1 = some bytes) :
    bytes = bytesAt d.mem addr len := by
  simp only [Dev.read] at got
  split at got
  · exact (Option.some.inj got).symm
  · simp at got

end IoEdgeHub.Nor
