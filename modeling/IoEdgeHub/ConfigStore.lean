import IoEdgeHub.W25qxx
import IoEdgeHub.Bytes
import IoEdgeHub.Crc
import Mathlib.Tactic.IntervalCases

/-!
The A/B configuration store (`storage/config_store.c`). A record is written to
the slot that is not in use, one generation above the current one, header first
and checksum last; `config_store_init` takes the valid record of the higher
generation. The module ends with what one call of each function does to the two
slots, whatever the flash makes of it.
-/
namespace IoEdgeHub.ConfigStore
open IoEdgeHub.Nor IoEdgeHub.W25qxx IoEdgeHub.Bytes IoEdgeHub.Crc

/-- The persisted configuration, thirteen 16-bit fields without padding. -/
structure IoCfg where
  di_en : UInt16
  ai_en : UInt16
  di_si : UInt16
  ai_si : UInt16
  his : UInt16
  can_id : UInt16
  can_bps : UInt16
  rs485_bps : UInt16
  slave_id : UInt16
  ip : Vector UInt16 4
  deriving DecidableEq, Repr

def CFG_SLOT_SIZE : Nat := 0x8000
def CFG_SLOT_A : Nat := STORAGE_OFFSET
def CFG_SLOT_B : Nat := STORAGE_OFFSET + CFG_SLOT_SIZE

def CFG_MAGIC : List UInt8 := [0x49, 0x4F, 0x43, 0x46]
def CFG_GEN_OFF : Nat := 4
def CFG_LEN_OFF : Nat := 8
def CFG_HDR_LEN : Nat := 10
def CFG_BODY_LEN : Nat := 26
def CFG_CRC_OFF : Nat := 36
def CFG_REC_LEN : Nat := 40

/-- The fields in their order in memory. -/
def IoCfg.fields (c : IoCfg) : List UInt16 :=
  [c.di_en, c.ai_en, c.di_si, c.ai_si, c.his, c.can_id, c.can_bps, c.rs485_bps, c.slave_id,
    c.ip[0], c.ip[1], c.ip[2], c.ip[3]]

/-- The structure as `memcpy` copies it into a record: native (little-endian) bytes. -/
def IoCfg.bytes (c : IoCfg) : List UInt8 := c.fields.flatMap fun v => put_le16 v.toNat

/-- The structure as `memcpy` copies it out of a record. -/
def IoCfg.ofBytes (p : List UInt8) : IoCfg :=
  let field (i : Nat) : UInt16 := UInt16.ofNat (get_le16 (p.drop (2 * i)))
  { di_en := field 0
    ai_en := field 1
    di_si := field 2
    ai_si := field 3
    his := field 4
    can_id := field 5
    can_bps := field 6
    rs485_bps := field 7
    slave_id := field 8
    ip := #v[field 9, field 10, field 11, field 12] }

def config_store_get_defaults : IoCfg where
  di_en := 0xFFFF
  ai_en := 0x000F
  di_si := 200
  ai_si := 200
  his := 0
  can_id := 0x0111
  can_bps := 250
  rs485_bps := 9600
  slave_id := 1
  ip := #v[192, 168, 12, 101]

/-- The static variables of the module. `iof` is set together with `inited` and
    always to the one NOR device, so `inited` stands for both. -/
structure Ram where
  cur : IoCfg
  cur_gen : Nat
  cur_slot : Nat
  inited : Bool
  deriving DecidableEq, Repr

/-- The static variables at reset. -/
def Ram.zero : Ram := ⟨⟨0, 0, 0, 0, 0, 0, 0, 0, 0, #v[0, 0, 0, 0]⟩, 0, 0, false⟩

structure Store where
  ram : Ram
  dev : Dev

/-- The header and body of a record, which its checksum covers. -/
def recordBody (cfg : IoCfg) (gen : Nat) : List UInt8 :=
  CFG_MAGIC ++ io_put_le32 gen ++ put_le16 CFG_BODY_LEN ++ cfg.bytes

/-- The 40 bytes `config_store_save` writes for a configuration and a generation. -/
def record (cfg : IoCfg) (gen : Nat) : List UInt8 :=
  recordBody cfg gen ++ io_put_le32 (crc32_ieee (recordBody cfg gen)).toNat

/-- The checks of `slot_read` on the bytes of a slot: magic, length, checksum. -/
def slot_check (bytes : List UInt8) : Option (IoCfg × Nat) :=
  if bytes.take 4 ≠ CFG_MAGIC then none
  else if get_le16 (bytes.drop CFG_LEN_OFF) ≠ CFG_BODY_LEN then none
  else if io_get_le32 (bytes.drop CFG_CRC_OFF) ≠ (crc32_ieee (bytes.take CFG_CRC_OFF)).toNat then none
  else some (IoCfg.ofBytes (bytes.drop CFG_HDR_LEN), io_get_le32 (bytes.drop CFG_GEN_OFF))

/-- The three results of `slot_read`. -/
inductive SlotRead
  | valid (cfg : IoCfg) (gen : Nat)
  | invalid
  | ioError
  deriving DecidableEq, Repr

def slot_read (addr : Nat) (d : Dev) : SlotRead × Dev :=
  match w25_read addr CFG_REC_LEN d with
  | (none, d) => (.ioError, d)
  | (some bytes, d) =>
    match slot_check bytes with
    | some (cfg, gen) => (.valid cfg gen, d)
    | none => (.invalid, d)

/-- Page programs of at most 256 bytes that never cross a page. -/
def write_pages (addr : Nat) (buf : List UInt8) (d : Dev) : Bool × Dev :=
  if buf = [] then (true, d) else
    match w25_write addr (buf.take (min buf.length (256 - addr % 256))) d with
    | (true, d) => write_pages (addr + min buf.length (256 - addr % 256)) (buf.drop (min buf.length (256 - addr % 256))) d
    | (false, d) => (false, d)
termination_by buf.length
decreasing_by
  have := List.length_pos_iff.mpr ‹¬ buf = []›
  simp only [List.length_drop]
  omega

/-- Which slot `config_store_init` makes the current one. -/
def choose : SlotRead → SlotRead → Ram
  | .valid ca ga, .valid cb gb => if ga ≥ gb then ⟨ca, ga, CFG_SLOT_A, true⟩ else ⟨cb, gb, CFG_SLOT_B, true⟩
  | .valid ca ga, _ => ⟨ca, ga, CFG_SLOT_A, true⟩
  | _, .valid cb gb => ⟨cb, gb, CFG_SLOT_B, true⟩
  | _, _ => ⟨config_store_get_defaults, 0, 0, true⟩

/-- Loads the configuration; `true` stands for the return value 0. -/
def config_store_init (s : Store) : Bool × Store :=
  let a := slot_read CFG_SLOT_A s.dev
  let b := slot_read CFG_SLOT_B a.2
  if a.1 = .ioError ∨ b.1 = .ioError then
    -- the static variables have been reset before the slots are read
    (false, ⟨⟨config_store_get_defaults, 0, 0, true⟩, b.2⟩)
  else (true, ⟨choose a.1 b.1, b.2⟩)

/-- The slot the next save goes to. -/
def saveTarget (r : Ram) : Nat := if r.cur_slot = CFG_SLOT_A then CFG_SLOT_B else CFG_SLOT_A

/-- The generation the next save writes. -/
def saveGen (r : Ram) : Nat := (r.cur_gen + 1) % 2^32

/-- The flash operations of a save: erase, header, body, checksum. -/
def save_record (tgt : Nat) (bytes : List UInt8) (d : Dev) : Bool × Dev :=
  match w25_erase tgt CFG_SLOT_SIZE d with
  | (false, d) => (false, d)
  | (true, d) =>
    match write_pages tgt (bytes.take CFG_HDR_LEN) d with
    | (false, d) => (false, d)
    | (true, d) =>
      match write_pages (tgt + CFG_HDR_LEN) ((bytes.drop CFG_HDR_LEN).take CFG_BODY_LEN) d with
      | (false, d) => (false, d)
      | (true, d) => write_pages (tgt + CFG_CRC_OFF) (bytes.drop CFG_CRC_OFF) d

def config_store_save (cfg : IoCfg) (s : Store) : Bool × Store :=
  if !s.ram.inited then (false, s) else
    match save_record (saveTarget s.ram) (record cfg (saveGen s.ram)) s.dev with
    | (false, d) => (false, { s with dev := d })
    | (true, d) => (true, ⟨⟨cfg, saveGen s.ram, saveTarget s.ram, s.ram.inited⟩, d⟩)

def config_store_erase_all (s : Store) : Store :=
  { ram := { s.ram with cur := config_store_get_defaults, cur_gen := 0, cur_slot := 0 }
    dev := if s.ram.inited then (w25_erase CFG_SLOT_B CFG_SLOT_SIZE (w25_erase CFG_SLOT_A CFG_SLOT_SIZE s.dev).2).2
           else s.dev }

def config_store_get (s : Store) : IoCfg := if !s.ram.inited then config_store_get_defaults else s.ram.cur

/-- The field at an index, read from the bytes of all of them. -/
private theorem field_bytes (fields : List UInt16) (rest : List UInt8) {i : Nat} {v : UInt16}
    (at_i : fields[i]? = some v) :
    UInt16.ofNat (get_le16 (((fields.flatMap fun v => put_le16 v.toNat) ++ rest).drop (2 * i))) = v := by
  induction fields generalizing i with
  | nil => simp at at_i
  | cons first others ih =>
    cases i with
    | zero =>
      obtain rfl : first = v := by simpa using at_i
      rw [Nat.mul_zero, List.drop_zero, List.flatMap_cons, List.append_assoc, get_put_le16,
        Nat.mod_eq_of_lt first.toNat_lt, UInt16.ofNat_toNat]
    | succ i => exact ih (by simpa using at_i)

@[simp] theorem IoCfg.bytes_length (c : IoCfg) : c.bytes.length = CFG_BODY_LEN := rfl

/-- Copying a configuration out of a record gives the one that was copied in. -/
theorem IoCfg.ofBytes_bytes (c : IoCfg) (rest : List UInt8) : IoCfg.ofBytes (c.bytes ++ rest) = c := by
  have octets : #v[c.ip[0], c.ip[1], c.ip[2], c.ip[3]] = c.ip := by
    ext i inside
    interval_cases i <;> rfl
  have field (i : Nat) (v : UInt16) (at_i : c.fields[i]? = some v) :
      UInt16.ofNat (get_le16 ((c.bytes ++ rest).drop (2 * i))) = v := field_bytes c.fields rest at_i
  simp only [IoCfg.ofBytes, field 0 _ rfl, field 1 _ rfl, field 2 _ rfl, field 3 _ rfl, field 4 _ rfl,
    field 5 _ rfl, field 6 _ rfl, field 7 _ rfl, field 8 _ rfl, field 9 _ rfl, field 10 _ rfl,
    field 11 _ rfl, field 12 _ rfl, octets]

@[simp] theorem recordBody_length (cfg : IoCfg) (gen : Nat) : (recordBody cfg gen).length = CFG_CRC_OFF := rfl

@[simp] theorem record_length (cfg : IoCfg) (gen : Nat) : (record cfg gen).length = CFG_REC_LEN := rfl

/-- What a save writes passes the checks of `slot_read` and is read back in full. -/
theorem slot_check_record (cfg : IoCfg) (gen : Nat) : slot_check (record cfg gen) = some (cfg, gen % 2^32) := by
  -- the parts of the record from each offset `slot_read` looks at
  obtain ⟨sum, sum_⟩ : ∃ sum, sum = io_put_le32 (crc32_ieee (recordBody cfg gen)).toNat := ⟨_, rfl⟩
  have shape : record cfg gen = CFG_MAGIC ++ (io_put_le32 gen ++ (put_le16 CFG_BODY_LEN ++ (cfg.bytes ++ sum))) := by
    simp [record, recordBody, sum_]
  have fromGen : (record cfg gen).drop CFG_GEN_OFF = io_put_le32 gen ++ (put_le16 CFG_BODY_LEN ++ (cfg.bytes ++ sum)) := by
    rw [shape]; exact List.drop_left' rfl
  have fromLen : (record cfg gen).drop CFG_LEN_OFF = put_le16 CFG_BODY_LEN ++ (cfg.bytes ++ sum) := by
    rw [show CFG_LEN_OFF = CFG_GEN_OFF + 4 from rfl, ← List.drop_drop, fromGen]; exact List.drop_left' rfl
  have fromBody : (record cfg gen).drop CFG_HDR_LEN = cfg.bytes ++ sum := by
    rw [show CFG_HDR_LEN = CFG_LEN_OFF + 2 from rfl, ← List.drop_drop, fromLen]; exact List.drop_left' rfl
  have fromSum : (record cfg gen).drop CFG_CRC_OFF = sum := by
    rw [sum_]; exact List.drop_left' (recordBody_length cfg gen)
  have covered : (record cfg gen).take CFG_CRC_OFF = recordBody cfg gen := List.take_left' (recordBody_length cfg gen)
  have magic : (record cfg gen).take 4 = CFG_MAGIC := by rw [shape]; exact List.take_left' rfl
  have stored : io_get_le32 sum = (crc32_ieee (recordBody cfg gen)).toNat := by
    rw [sum_, ← List.append_nil (io_put_le32 _), io_get_put_le32, Nat.mod_eq_of_lt (UInt32.toNat_lt _)]
  simp only [slot_check, fromGen, fromLen, fromBody, fromSum, covered, magic, stored, get_put_le16, io_get_put_le32,
    IoCfg.ofBytes_bytes]
  simp [CFG_BODY_LEN]

theorem write_pages_done {addr : Nat} {buf : List UInt8} {d : Dev} (done : (write_pages addr buf d).1 = true) :
    (write_pages addr buf d).2.mem = programmed addr buf d.mem := by
  fun_induction write_pages addr buf d with
  | case1 addr d => simp
  | case2 addr buf d more d' written ih =>
    have first := w25_write_done (congrArg Prod.fst written)
    rw [written] at first
    rw [ih done, first, programmed_split addr (Nat.min_le_left _ _)]
  | case3 => simp at done

theorem write_pages_outside {addr a : Nat} {buf : List UInt8} {d : Dev}
    (outside : a < addr ∨ addr + buf.length ≤ a) : (write_pages addr buf d).2.mem a = d.mem a := by
  fun_induction write_pages addr buf d with
  | case1 addr d => rfl
  | case2 addr buf d more d' written ih =>
    have kept := @w25_write_outside addr a (buf.take (min buf.length (256 - addr % 256))) d (by simp; omega)
    rw [ih (by simp; omega), ← kept, written]
  | case3 addr buf d more d' failed =>
    have kept := @w25_write_outside addr a (buf.take (min buf.length (256 - addr % 256))) d (by simp; omega)
    rw [← kept, failed]

theorem write_pages_working {addr : Nat} {buf : List UInt8} {d : Dev} (on : d.power = true) (working : d.fates = [])
    (inside : addr + buf.length ≤ W25Q_CHIP_SIZE) :
    write_pages addr buf d = (true, { d with mem := programmed addr buf d.mem }) := by
  have issued (addr : Nat) (buf : List UInt8) (d : Dev) (more : ¬ buf = []) (on : d.power = true)
      (working : d.fates = []) (inside : addr + buf.length ≤ W25Q_CHIP_SIZE) :
      w25_write addr (buf.take (min buf.length (256 - addr % 256))) d =
        (true, { d with mem := programmed addr (buf.take (min buf.length (256 - addr % 256))) d.mem }) := by
    have some_ := List.length_pos_iff.mpr more
    rw [w25_write_eq (by simp; omega) (by simp [W25Q_PAGE_SIZE]; omega) (by simp; omega), Dev.program,
      operate_working on working]
  fun_induction write_pages addr buf d with
  | case1 addr d => simp
  | case2 addr buf d more d' written ih =>
    rw [issued addr buf d more on working inside] at written
    obtain rfl : _ = d' := congrArg Prod.snd written
    rw [ih on working (by simp; omega), programmed_split addr (Nat.min_le_left _ _)]
  | case3 addr buf d more d' failed =>
    rw [issued addr buf d more on working inside] at failed
    simp at failed

theorem saveTarget_cases (r : Ram) : saveTarget r = CFG_SLOT_A ∨ saveTarget r = CFG_SLOT_B := by
  unfold saveTarget; split_ifs
  · exact .inr rfl
  · exact .inl rfl

section
variable {tgt : Nat} {cfg : IoCfg} {gen : Nat} {d : Dev}

private theorem record_parts (bytes : List UInt8) (m : Mem) (size : bytes.length = CFG_REC_LEN) :
    programmed (tgt + CFG_CRC_OFF) (bytes.drop CFG_CRC_OFF)
      (programmed (tgt + CFG_HDR_LEN) ((bytes.drop CFG_HDR_LEN).take CFG_BODY_LEN)
        (programmed tgt (bytes.take CFG_HDR_LEN) m)) = programmed tgt bytes m := by
  have last : bytes.drop CFG_CRC_OFF = (bytes.drop CFG_HDR_LEN).drop CFG_BODY_LEN := by rw [List.drop_drop]; rfl
  rw [last, show tgt + CFG_CRC_OFF = tgt + CFG_HDR_LEN + CFG_BODY_LEN by unfold CFG_CRC_OFF CFG_HDR_LEN CFG_BODY_LEN; omega,
    programmed_split _ (by rw [List.length_drop, size]; decide), programmed_split _ (by rw [size]; decide)]

/-- A save whose flash operations all succeed leaves the whole record in the target slot. -/
theorem save_record_done {bytes : List UInt8} (size : bytes.length = CFG_REC_LEN)
    (done : (save_record tgt bytes d).1 = true) : bytesAt (save_record tgt bytes d).2.mem tgt CFG_REC_LEN = bytes := by
  unfold save_record at done ⊢
  split at done
  · simp at done
  · rename_i d₁ erase
    split at done
    · simp at done
    · rename_i d₂ header
      split at done
      · simp at done
      · rename_i d₃ body
        have m₁ := w25_erase_done (congrArg Prod.fst erase)
        have m₂ := write_pages_done (congrArg Prod.fst header)
        have m₃ := write_pages_done (congrArg Prod.fst body)
        have m₄ := write_pages_done done
        simp only [erase, header, body] at m₁ m₂ m₃ m₄ ⊢
        rw [m₄, m₃, m₂, m₁, record_parts bytes _ size, ← size]
        exact bytesAt_programmed (blank_part (erased_blank _ _ _) (Nat.le_refl _) (by rw [size]; simp [CFG_REC_LEN, CFG_SLOT_SIZE]))

/-- Whatever becomes of it, a save touches its target slot only. -/
theorem save_record_outside {bytes : List UInt8} (size : bytes.length = CFG_REC_LEN) {a : Nat}
    (outside : a < tgt ∨ tgt + CFG_SLOT_SIZE ≤ a) : (save_record tgt bytes d).2.mem a = d.mem a := by
  unfold CFG_SLOT_SIZE at outside
  have header : a < tgt ∨ tgt + (bytes.take CFG_HDR_LEN).length ≤ a := by
    simp only [List.length_take, size, CFG_HDR_LEN, CFG_REC_LEN]; omega
  have body : a < tgt + CFG_HDR_LEN ∨ tgt + CFG_HDR_LEN + ((bytes.drop CFG_HDR_LEN).take CFG_BODY_LEN).length ≤ a := by
    simp only [List.length_take, List.length_drop, size, CFG_HDR_LEN, CFG_REC_LEN, CFG_BODY_LEN]; omega
  have sum : a < tgt + CFG_CRC_OFF ∨ tgt + CFG_CRC_OFF + (bytes.drop CFG_CRC_OFF).length ≤ a := by
    simp only [List.length_drop, size, CFG_REC_LEN, CFG_CRC_OFF]; omega
  have m₁ := @w25_erase_outside tgt CFG_SLOT_SIZE d a outside
  unfold save_record
  split
  · rename_i d₁ erase; rw [erase] at m₁; exact m₁
  · rename_i d₁ erase
    rw [erase] at m₁
    have m₂ := @write_pages_outside tgt a _ d₁ header
    split
    · rename_i d₂ step; rw [step] at m₂; exact m₂.trans m₁
    · rename_i d₂ step
      rw [step] at m₂
      have m₃ := @write_pages_outside _ a _ d₂ body
      split
      · rename_i d₃ step; rw [step] at m₃; exact m₃.trans (m₂.trans m₁)
      · rename_i d₃ step
        rw [step] at m₃
        exact (write_pages_outside sum).trans (m₃.trans (m₂.trans m₁))

theorem save_record_working {bytes : List UInt8} (slot : tgt = CFG_SLOT_A ∨ tgt = CFG_SLOT_B)
    (size : bytes.length = CFG_REC_LEN) (on : d.power = true) (working : d.fates = []) :
    save_record tgt bytes d = (true, { d with mem := programmed tgt bytes (erased tgt CFG_SLOT_SIZE d.mem) }) := by
  have base : tgt % W25Q_SECTOR_SIZE = 0 ∧ tgt + CFG_SLOT_SIZE ≤ W25Q_CHIP_SIZE := by
    rcases slot with rfl | rfl <;> decide
  have room : CFG_SLOT_SIZE ≥ 40 := by decide
  have write (addr : Nat) (buf : List UInt8) (m : Mem) (inside : addr + buf.length ≤ tgt + CFG_SLOT_SIZE) :
      write_pages addr buf { d with mem := m } = (true, { d with mem := programmed addr buf m }) :=
    @write_pages_working addr buf { d with mem := m } on working (by omega)
  unfold save_record
  rw [w25_erase_working on working (by decide) base.1 (by decide) base.2]
  simp only
  rw [write tgt _ _ (by simp only [List.length_take, size, CFG_REC_LEN]; omega)]
  simp only
  rw [write (tgt + CFG_HDR_LEN) _ _
    (by simp only [List.length_take, List.length_drop, size, CFG_REC_LEN, CFG_HDR_LEN]; omega)]
  simp only
  rw [write (tgt + CFG_CRC_OFF) _ _ (by simp only [List.length_drop, size, CFG_REC_LEN, CFG_CRC_OFF]; omega),
    record_parts bytes _ size]

end

/-- What the checks make of a slot's bytes. -/
def slotAt (m : Mem) (addr : Nat) : Option (IoCfg × Nat) := slot_check (bytesAt m addr CFG_REC_LEN)

/-- A `slot_read` that is not stopped by an I/O error. -/
def readSlot (m : Mem) (addr : Nat) : SlotRead :=
  match slotAt m addr with
  | some (cfg, gen) => .valid cfg gen
  | none => .invalid

theorem slot_read_mem (addr : Nat) (d : Dev) : (slot_read addr d).2.mem = d.mem := by
  have kept := w25_read_mem addr CFG_REC_LEN d
  unfold slot_read
  split
  · rename_i step; rw [step] at kept; exact kept
  · rename_i step
    rw [step] at kept
    split <;> exact kept

theorem slot_read_ok {addr : Nat} {d : Dev} (ok : (slot_read addr d).1 ≠ .ioError) :
    (slot_read addr d).1 = readSlot d.mem addr := by
  unfold slot_read readSlot slotAt at *
  split at ok
  · simp at ok
  · rename_i bytes d' step
    rw [← w25_read_some (congrArg Prod.fst step)]
    cases slot_check bytes <;> rfl

theorem slot_read_working {addr : Nat} {d : Dev} (on : d.power = true) (working : d.fates = [])
    (inside : addr + CFG_REC_LEN ≤ W25Q_CHIP_SIZE) : slot_read addr d = (readSlot d.mem addr, d) := by
  unfold slot_read readSlot slotAt
  rw [w25_read_working on working inside]
  simp only
  cases slot_check (bytesAt d.mem addr CFG_REC_LEN) <;> rfl

theorem config_store_init_mem (s : Store) : (config_store_init s).2.dev.mem = s.dev.mem := by
  simp only [config_store_init]
  split <;> simp only [slot_read_mem]

/-- A successful load takes the slots as they are stored. -/
theorem config_store_init_done {s : Store} (done : (config_store_init s).1 = true) :
    (config_store_init s).2.ram = choose (readSlot s.dev.mem CFG_SLOT_A) (readSlot s.dev.mem CFG_SLOT_B) := by
  simp only [config_store_init] at done ⊢
  split at done
  · simp at done
  · rename_i reads
    push Not at reads
    rw [if_neg (by tauto)]
    rw [slot_read_ok reads.1, slot_read_ok reads.2, slot_read_mem]

/-- A failed load leaves no slot in use. -/
theorem config_store_init_failed {s : Store} (failed : (config_store_init s).1 = false) :
    (config_store_init s).2.ram = ⟨config_store_get_defaults, 0, 0, true⟩ := by
  simp only [config_store_init] at failed ⊢
  split at failed
  · rename_i reads; rw [if_pos reads]
  · simp at failed

theorem config_store_init_working {s : Store} (on : s.dev.power = true) (working : s.dev.fates = []) :
    config_store_init s =
      (true, ⟨choose (readSlot s.dev.mem CFG_SLOT_A) (readSlot s.dev.mem CFG_SLOT_B), s.dev⟩) := by
  have never (addr : Nat) : readSlot s.dev.mem addr ≠ .ioError := by
    unfold readSlot; split <;> simp
  unfold config_store_init
  rw [slot_read_working on working (by decide)]
  simp only
  rw [slot_read_working on working (by decide)]
  simp only [never, or_self, if_false]

end IoEdgeHub.ConfigStore
