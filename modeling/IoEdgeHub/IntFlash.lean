import IoEdgeHub.W25qxx

/-!
The on-chip flash of the STM32F407 (`storage/intflash.c`): its sectors, and the
erase and write operations over the HAL. Every HAL call (unlock, sector erase,
word or byte program, lock) is one operation of the device, so every one of them
can fail on its own.
-/
namespace IoEdgeHub.IntFlash
open IoEdgeHub.Nor IoEdgeHub.W25qxx

/-- Address and size of the sectors of a 512 KB part. -/
def f4_sector_tab : List (Nat × Nat) :=
  [(0x08000000, 0x4000), (0x08004000, 0x4000), (0x08008000, 0x4000), (0x0800C000, 0x4000),
   (0x08010000, 0x10000), (0x08020000, 0x20000), (0x08040000, 0x20000), (0x08060000, 0x20000)]

/-- `HAL_FLASH_Unlock` and `HAL_FLASH_Lock`: they touch no byte of the memory. -/
def hal_lock (d : Dev) : Bool × Dev := d.operate 0 0 id

/-- A length rounded up to 4 KB in 32 bits. -/
def round_4k (len : Nat) : Nat := (len + 0xFFF) % 2^32 / 0x1000 * 0x1000

/-- Erases the sectors that reach into `[addr, stop)`. -/
def erase_sectors (addr stop : Nat) : List (Nat × Nat) → Dev → Bool × Dev
  | [], d => (true, d)
  | (s_addr, size) :: rest, d =>
    if s_addr + size ≤ addr ∨ s_addr ≥ stop then erase_sectors addr stop rest d
    else
      match d.erase s_addr size with
      | (true, d) => erase_sectors addr stop rest d
      | (false, d) => (false, d)

/-- The lock is put back whatever came of the work; its own failure counts only
    when the work has succeeded. -/
def locked : Bool × Dev → Bool × Dev
  | (done, d) => (done && (hal_lock d).1, (hal_lock d).2)

def intflash_erase (addr len : Nat) (d : Dev) : Bool × Dev :=
  if len = 0 then (true, d)
  else if addr < 0x08000000 ∨ (addr + round_4k len) % 2^32 > 0x08080000 then (false, d)
  else
    match hal_lock d with
    | (false, d) => (false, d)
    | (true, d) => locked (erase_sectors addr ((addr + round_4k len) % 2^32) f4_sector_tab d)

/-- How many bytes the next program command takes: a word where one is aligned, else a byte. -/
def unit_size (addr : Nat) (buf : List UInt8) : Nat := if addr % 4 = 0 ∧ buf.length ≥ 4 then 4 else 1

def program_loop (addr : Nat) (buf : List UInt8) (d : Dev) : Bool × Dev :=
  if buf = [] then (true, d)
  else
    match d.program addr (buf.take (unit_size addr buf)) with
    | (true, d) => program_loop ((addr + unit_size addr buf) % 2^32) (buf.drop (unit_size addr buf)) d
    | (false, d) => (false, d)
termination_by buf.length
decreasing_by
  have := List.length_pos_iff.mpr ‹¬ buf = []›
  simp only [List.length_drop, unit_size]
  split_ifs <;> omega

def intflash_write (addr : Nat) (buf : List UInt8) (d : Dev) : Bool × Dev :=
  match hal_lock d with
  | (false, d) => (false, d)
  | (true, d) => locked (program_loop addr buf d)

private theorem hal_lock_mem (d : Dev) : (hal_lock d).2.mem = d.mem := by
  funext a
  exact @operate_outside 0 0 id d a rfl (by omega)

private theorem locked_done {r : Bool × Dev} (done : (locked r).1 = true) : r.1 = true := by
  simp only [locked, Bool.and_eq_true] at done
  exact done.1

private theorem locked_mem (r : Bool × Dev) : (locked r).2.mem = r.2.mem := hal_lock_mem r.2

/-- Erasing sectors blanks those that reach into the range and spares what is blank already. -/
private theorem erase_sectors_done {addr stop a : Nat} {sectors : List (Nat × Nat)} {d : Dev}
    (done : (erase_sectors addr stop sectors d).1 = true)
    (hit : d.mem a = 0xFF ∨ ∃ s ∈ sectors, addr < s.1 + s.2 ∧ s.1 < stop ∧ s.1 ≤ a ∧ a < s.1 + s.2) :
    (erase_sectors addr stop sectors d).2.mem a = 0xFF := by
  induction sectors generalizing d with
  | nil => simpa [erase_sectors] using hit
  | cons sector rest ih =>
    obtain ⟨s_addr, size⟩ := sector
    simp only [erase_sectors] at done ⊢
    split_ifs at done ⊢ with apart
    · refine ih done (hit.imp_right ?_)
      rintro ⟨s, member, low, high, inside⟩
      rcases List.mem_cons.mp member with rfl | member
      · simp only at low high
        omega
      · exact ⟨s, member, low, high, inside⟩
    · split at done <;> rename_i erased_
      · have mem := (operate_done erased_).2.1
        refine ih done ?_
        rw [mem]
        by_cases inside : s_addr ≤ a ∧ a < s_addr + size
        · exact .inl (erased_inside _ inside.1 inside.2)
        · rw [erased_outside _ (by omega)]
          refine hit.imp_right ?_
          rintro ⟨s, member, low, high, within⟩
          rcases List.mem_cons.mp member with rfl | member
          · exact absurd within inside
          · exact ⟨s, member, low, high, within⟩
      · simp at done

/-- Every byte of the on-chip flash lies in a sector. -/
theorem sector_of {a : Nat} (low : 0x08000000 ≤ a) (high : a < 0x08080000) :
    ∃ s ∈ f4_sector_tab, s.1 ≤ a ∧ a < s.1 + s.2 := by
  simp only [f4_sector_tab, List.mem_cons, List.not_mem_nil, or_false, exists_eq_or_imp, exists_eq_left]
  omega

/-- An erase that succeeds leaves its whole range blank. -/
theorem intflash_erase_done {addr len : Nat} {d : Dev} (done : (intflash_erase addr len d).1 = true)
    (small : addr + len + 0xFFF < 2^32) : Blank (intflash_erase addr len d).2.mem addr len := by
  intro a low high
  unfold intflash_erase at done ⊢
  split_ifs at done ⊢ with empty outside
  · omega
  · have covers : len ≤ round_4k len ∧ addr + round_4k len < 2^32 := by unfold round_4k; omega
    rw [Nat.mod_eq_of_lt covers.2] at outside
    split at done <;> rename_i unlocked
    · simp at done
    · rw [locked_mem, Nat.mod_eq_of_lt covers.2]
      rw [Nat.mod_eq_of_lt covers.2] at done
      obtain ⟨s, member, inside⟩ := @sector_of a (by omega) (by omega)
      exact erase_sectors_done (locked_done done) (.inr ⟨s, member, by omega, by omega, inside⟩)

theorem unit_size_le {addr : Nat} {buf : List UInt8} (more : ¬ buf = []) : unit_size addr buf ≤ buf.length := by
  have some_ := List.length_pos_iff.mpr more
  unfold unit_size
  split_ifs <;> omega

private theorem program_loop_done {addr : Nat} {buf : List UInt8} {d : Dev} (unwrapped : addr + buf.length < 2^32)
    (done : (program_loop addr buf d).1 = true) : (program_loop addr buf d).2.mem = programmed addr buf d.mem := by
  fun_induction program_loop addr buf d with
  | case1 addr d => rw [programmed_nil]
  | case2 addr buf d more d' programmed_ ih =>
    have fits := @unit_size_le addr buf more
    have next : (addr + unit_size addr buf) % 2^32 = addr + unit_size addr buf := Nat.mod_eq_of_lt (by omega)
    rw [next] at ih done ⊢
    rw [ih (by rw [List.length_drop]; omega) done, (operate_done programmed_).2.1, programmed_split addr fits]
  | case3 => simp at done

/-- A write that succeeds has programmed its bytes. -/
theorem intflash_write_done {addr : Nat} {buf : List UInt8} {d : Dev} (unwrapped : addr + buf.length < 2^32)
    (done : (intflash_write addr buf d).1 = true) : (intflash_write addr buf d).2.mem = programmed addr buf d.mem := by
  have mem := hal_lock_mem d
  unfold intflash_write at done ⊢
  split at done <;> rename_i unlocked <;> rw [unlocked] at mem
  · simp at done
  · rw [locked_mem, program_loop_done unwrapped (locked_done done), mem]

section
variable {d : Dev}

private theorem locked_working (on : d.power = true) (working : d.fates = []) : locked (true, d) = (true, d) := by
  simp [locked, hal_lock, operate_working on working]

private theorem erase_sectors_working (addr stop : Nat) (sectors : List (Nat × Nat)) (on : d.power = true)
    (working : d.fates = []) : ∃ m, erase_sectors addr stop sectors d = (true, { d with mem := m }) := by
  induction sectors generalizing d with
  | nil => exact ⟨d.mem, rfl⟩
  | cons sector rest ih =>
    obtain ⟨s_addr, size⟩ := sector
    simp only [erase_sectors]
    split_ifs
    · exact ih on working
    · simp only [Dev.erase, operate_working on working]
      obtain ⟨m, erased_⟩ := @ih { d with mem := erased s_addr size d.mem } on working
      exact ⟨m, erased_⟩

/-- On working flash an erase that passes the checks succeeds. -/
theorem intflash_erase_passed {addr len : Nat} (on : d.power = true) (working : d.fates = [])
    (low : 0x08000000 ≤ addr) (high : (addr + round_4k len) % 2^32 ≤ 0x08080000) :
    ∃ m, intflash_erase addr len d = (true, { d with mem := m }) := by
  unfold intflash_erase
  split_ifs with empty outside
  · exact ⟨d.mem, rfl⟩
  · omega
  · obtain ⟨m, erased_⟩ := @erase_sectors_working d addr ((addr + round_4k len) % 2^32) f4_sector_tab on working
    simp only [hal_lock, operate_working on working, id]
    rw [erased_]
    exact ⟨m, @locked_working { d with mem := m } on working⟩

/-- On working flash an erase inside the part succeeds. -/
theorem intflash_erase_working {addr len : Nat} (on : d.power = true) (working : d.fates = [])
    (low : 0x08000000 ≤ addr) (high : addr + round_4k len ≤ 0x08080000) :
    ∃ m, intflash_erase addr len d = (true, { d with mem := m }) :=
  intflash_erase_passed on working low (by rw [Nat.mod_eq_of_lt (by omega)]; exact high)

private theorem program_loop_working (addr : Nat) (buf : List UInt8) (on : d.power = true) (working : d.fates = []) :
    ∃ m, program_loop addr buf d = (true, { d with mem := m }) := by
  fun_induction program_loop addr buf d with
  | case1 addr d => exact ⟨d.mem, rfl⟩
  | case2 addr buf d more d' programmed_ ih =>
    rw [Dev.program, operate_working on working] at programmed_
    obtain rfl : _ = d' := congrArg Prod.snd programmed_
    exact ih on working
  | case3 addr buf d more d' failed =>
    rw [Dev.program, operate_working on working] at failed
    simp at failed

/-- On working flash a write succeeds. -/
theorem intflash_write_working (addr : Nat) (buf : List UInt8) (on : d.power = true) (working : d.fates = []) :
    ∃ m, intflash_write addr buf d = (true, { d with mem := m }) := by
  obtain ⟨m, programmed_⟩ := program_loop_working addr buf on working
  unfold intflash_write
  simp only [hal_lock, operate_working on working, id]
  rw [programmed_]
  exact ⟨m, @locked_working { d with mem := m } on working⟩

end

end IoEdgeHub.IntFlash
