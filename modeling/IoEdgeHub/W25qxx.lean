import IoEdgeHub.Nor

/-!
The flash partitions (`flash_layout.h`) and the io_flash operations of the
W25Q128 driver (`storage/w25qxx.c`): which arguments an operation refuses, and
the erase commands a range is cut into. One SPI exchange (write enable, command,
transfer, wait for the busy bit) is one operation of the device, so every one of
them can fail on its own.
-/
namespace IoEdgeHub.W25qxx
open IoEdgeHub.Nor

def SLOT1_OFFSET : Nat := 0x00000000
def SLOT1_SIZE : Nat := 0x00070000
def STORAGE_OFFSET : Nat := 0x000E0000
def SLOT0_SIZE : Nat := 0x00070000
def SLOT0_ADDR : Nat := 0x08010000
def IMG_HDR_SIZE : Nat := 0x00000200

def W25Q_CHIP_SIZE : Nat := 0x1000000
def W25Q_PAGE_SIZE : Nat := 256
def W25Q_SECTOR_SIZE : Nat := 4096

def w25_read (addr len : Nat) (d : Dev) : Option (List UInt8) × Dev :=
  if len = 0 then (some [], d)
  else if addr ≥ W25Q_CHIP_SIZE ∨ W25Q_CHIP_SIZE - addr < len then (none, d)
  else d.read addr len

def w25_write (addr : Nat) (buf : List UInt8) (d : Dev) : Bool × Dev :=
  if buf.length = 0 then (true, d)
  else if buf.length > W25Q_PAGE_SIZE then (false, d)
  else if addr % W25Q_PAGE_SIZE + buf.length > W25Q_PAGE_SIZE then (false, d)
  else if addr ≥ W25Q_CHIP_SIZE ∨ W25Q_CHIP_SIZE - addr < buf.length then (false, d)
  else d.program addr buf

/-- The size of the next erase command: the largest block that is aligned and fits. -/
def erase_chunk (addr len : Nat) : Nat :=
  if addr % 0x10000 = 0 ∧ len ≥ 0x10000 then 0x10000
  else if addr % 0x8000 = 0 ∧ len ≥ 0x8000 then 0x8000
  else 0x1000

theorem erase_chunk_pos (addr len : Nat) : 0 < erase_chunk addr len := by
  unfold erase_chunk; split_ifs <;> decide

def erase_loop (addr len : Nat) (d : Dev) : Bool × Dev :=
  if len = 0 then (true, d) else
    match d.erase addr (erase_chunk addr len) with
    | (true, d) => erase_loop (addr + erase_chunk addr len) (len - erase_chunk addr len) d
    | (false, d) => (false, d)
termination_by len
decreasing_by have := erase_chunk_pos addr len; omega

def w25_erase (addr len : Nat) (d : Dev) : Bool × Dev :=
  if len = 0 ∨ addr % W25Q_SECTOR_SIZE ≠ 0 ∨ len % W25Q_SECTOR_SIZE ≠ 0 then (false, d)
  else if addr ≥ W25Q_CHIP_SIZE ∨ W25Q_CHIP_SIZE - addr < len then (false, d)
  else erase_loop addr len d

theorem w25_read_mem (addr len : Nat) (d : Dev) : (w25_read addr len d).2.mem = d.mem := by
  unfold w25_read
  split_ifs
  · rfl
  · rfl
  · exact read_mem d addr len

theorem w25_read_some {addr len : Nat} {d : Dev} {bytes : List UInt8}
    (got : (w25_read addr len d).1 = some bytes) : bytes = bytesAt d.mem addr len := by
  unfold w25_read at got
  split_ifs at got with empty outside
  · subst empty; exact (Option.some.inj got).symm
  · exact read_some got

theorem w25_read_working {addr len : Nat} {d : Dev} (on : d.power = true) (working : d.fates = [])
    (inside : addr + len ≤ W25Q_CHIP_SIZE) : w25_read addr len d = (some (bytesAt d.mem addr len), d) := by
  unfold w25_read
  split_ifs with empty outside
  · subst empty; rfl
  · unfold W25Q_CHIP_SIZE at *; omega
  · exact read_working on working addr len

/-- A read that succeeds returns what it would return were there no faults. -/
theorem w25_read_sound {addr len : Nat} {d d' : Dev} {bytes : List UInt8}
    (got : w25_read addr len d = (some bytes, d')) :
    w25_read addr len d.sound = (some bytes, d.sound) ∧ d'.sound = d.sound := by
  have mem := w25_read_mem addr len d
  have read := @w25_read_some addr len d bytes (by rw [got])
  rw [got] at mem
  refine ⟨?_, congrArg (fun m => Dev.sound ⟨m, [], true⟩) mem⟩
  unfold w25_read at got ⊢
  split_ifs at got ⊢ with empty outside
  · cases got; rfl
  · cases got
  · rw [@read_working d.sound rfl rfl, read]
    rfl

/-- A page program that keeps to its page is issued as it stands. -/
theorem w25_write_eq {addr : Nat} {buf : List UInt8} (some_ : 0 < buf.length)
    (page : addr % W25Q_PAGE_SIZE + buf.length ≤ W25Q_PAGE_SIZE) (inside : addr + buf.length ≤ W25Q_CHIP_SIZE)
    (d : Dev) : w25_write addr buf d = d.program addr buf := by
  unfold w25_write W25Q_PAGE_SIZE W25Q_CHIP_SIZE at *
  rw [if_neg (by omega), if_neg (by omega), if_neg (by omega), if_neg (by omega)]

theorem w25_write_done {addr : Nat} {buf : List UInt8} {d : Dev} (done : (w25_write addr buf d).1 = true) :
    (w25_write addr buf d).2.mem = programmed addr buf d.mem := by
  unfold w25_write at done ⊢
  split_ifs at done ⊢ with empty
  · rw [List.length_eq_zero_iff.mp empty, programmed_nil]
  · exact (operate_done (Prod.ext done rfl)).2.1

theorem w25_write_outside {addr a : Nat} {buf : List UInt8} {d : Dev}
    (outside : a < addr ∨ addr + buf.length ≤ a) : (w25_write addr buf d).2.mem a = d.mem a := by
  unfold w25_write
  split_ifs
  · rfl
  · rfl
  · rfl
  · rfl
  · exact program_outside outside

theorem erased_split (addr first len : Nat) (le : first ≤ len) (m : Mem) :
    erased (addr + first) (len - first) (erased addr first m) = erased addr len m := by
  funext a
  simp only [erased]
  split_ifs <;> first | rfl | omega

/-- An erase command never reaches past the range that is left. -/
theorem erase_chunk_le {addr len : Nat} (some_ : 0 < len) (whole : len % W25Q_SECTOR_SIZE = 0) :
    erase_chunk addr len ≤ len ∧ (len - erase_chunk addr len) % W25Q_SECTOR_SIZE = 0 := by
  unfold erase_chunk W25Q_SECTOR_SIZE at *
  split_ifs <;> omega

theorem erase_loop_done {addr len : Nat} {d : Dev} (whole : len % W25Q_SECTOR_SIZE = 0)
    (done : (erase_loop addr len d).1 = true) : (erase_loop addr len d).2.mem = erased addr len d.mem := by
  fun_induction erase_loop addr len d with
  | case1 addr d =>
    funext a
    exact (erased_outside d.mem (by omega)).symm
  | case2 addr len d more d' erased_ ih =>
    obtain ⟨fits, rest⟩ := @erase_chunk_le addr len (Nat.pos_of_ne_zero more) whole
    rw [ih rest done, (operate_done erased_).2.1, erased_split addr _ len fits]
  | case3 => simp at done

theorem erase_loop_outside {addr len a : Nat} {d : Dev} (whole : len % W25Q_SECTOR_SIZE = 0)
    (outside : a < addr ∨ addr + len ≤ a) : (erase_loop addr len d).2.mem a = d.mem a := by
  fun_induction erase_loop addr len d with
  | case1 addr d => rfl
  | case2 addr len d more d' erased_ ih =>
    obtain ⟨fits, rest⟩ := @erase_chunk_le addr len (Nat.pos_of_ne_zero more) whole
    have kept := @erase_outside d addr (erase_chunk addr len) a (by omega)
    rw [ih rest (by omega), ← kept, erased_]
  | case3 addr len d more d' failed =>
    obtain ⟨fits, _⟩ := @erase_chunk_le addr len (Nat.pos_of_ne_zero more) whole
    have kept := @erase_outside d addr (erase_chunk addr len) a (by omega)
    rw [← kept, failed]

theorem erase_loop_working {addr len : Nat} {d : Dev} (on : d.power = true) (working : d.fates = [])
    (whole : len % W25Q_SECTOR_SIZE = 0) : erase_loop addr len d = (true, { d with mem := erased addr len d.mem }) := by
  fun_induction erase_loop addr len d with
  | case1 addr d =>
    have same : erased addr 0 d.mem = d.mem := funext fun a => erased_outside d.mem (by omega)
    rw [same]
  | case2 addr len d more d' erased_ ih =>
    obtain ⟨fits, rest⟩ := @erase_chunk_le addr len (Nat.pos_of_ne_zero more) whole
    rw [Dev.erase, operate_working on working] at erased_
    obtain rfl : _ = d' := congrArg Prod.snd erased_
    rw [ih on working rest, erased_split addr _ len fits]
  | case3 addr len d more d' failed =>
    rw [Dev.erase, operate_working on working] at failed
    simp at failed

section
variable {addr len : Nat} {d : Dev}

theorem w25_erase_done (done : (w25_erase addr len d).1 = true) :
    (w25_erase addr len d).2.mem = erased addr len d.mem := by
  unfold w25_erase at done ⊢
  split_ifs at done ⊢ with refused
  have whole : len % W25Q_SECTOR_SIZE = 0 := by omega
  exact erase_loop_done whole done

theorem w25_erase_outside {a : Nat} (outside : a < addr ∨ addr + len ≤ a) :
    (w25_erase addr len d).2.mem a = d.mem a := by
  unfold w25_erase
  split_ifs with refused
  · rfl
  · rfl
  · exact erase_loop_outside (by omega) outside

theorem w25_erase_working (on : d.power = true) (working : d.fates = []) (some_ : 0 < len)
    (start : addr % W25Q_SECTOR_SIZE = 0) (whole : len % W25Q_SECTOR_SIZE = 0)
    (inside : addr + len ≤ W25Q_CHIP_SIZE) :
    w25_erase addr len d = (true, { d with mem := erased addr len d.mem }) := by
  unfold w25_erase
  rw [if_neg (by omega), if_neg (by omega), erase_loop_working on working whole]

end

end IoEdgeHub.W25qxx
