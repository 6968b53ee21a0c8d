import IoEdgeHub.FwImage
import IoEdgeHub.ShiftRegister
import IoEdgeHub.UpgradeTool
import IoEdgeHub.WsUpgrade

/-!
The CRC16 of an image, as the upgrade session reads it back (`fw/fw_upg.c`), as the WebSocket
channel sums up its frames (`web/ws.c`) and as the tool of the host computes it
(`tools/firmware_upgrade.py`). Each takes a byte in one go, with a few shifts of the byte and
its nibbles; all of them divide the image, bit by bit and the lowest bit of a byte first, by
the reflected CCITT polynomial.
-/
namespace IoEdgeHub.UpgradeChecksums
open IoEdgeHub.Nor IoEdgeHub.Crc IoEdgeHub.W25qxx IoEdgeHub.FwUpg IoEdgeHub.WsUpgrade IoEdgeHub.ShiftRegister

/-- The CCITT polynomial, reflected. -/
def ccitt_poly : BitVec 16 := 0x8408#16

/-- The bits of an image, byte by byte. -/
def image_bits (data : List UInt8) : List Bool := data.flatMap fun b => bits b.toBitVec

/-- The register after all bits of an image have been shifted through it. -/
def serial_crc (seed : UInt16) (data : List UInt8) : UInt16 := UInt16.ofBitVec (run ccitt_poly seed.toBitVec (image_bits data))

/-- What a byte in the register leaves behind when it has been shifted out. -/
def spread (e : UInt8) : UInt16 :=
  let f : UInt8 := e ^^^ (e <<< 4)
  (f.toUInt16 <<< 8) ^^^ (f.toUInt16 <<< 3) ^^^ (f >>> 4).toUInt16

theorem crc16_ccitt_byte_spread (seed : UInt16) (b : UInt8) :
    crc16_ccitt_byte seed b = (seed >>> 8) ^^^ spread (seed.toUInt8 ^^^ b) := by
  simp only [crc16_ccitt_byte, spread, UInt16.xor_assoc]

/-- The eight conditional additions for each byte come to its nibbles in three places. -/
theorem iterate_shift_byte (e : UInt8) :
    (shift ccitt_poly)^[8] (e.toBitVec.setWidth 16) = (spread e).toBitVec := by
  have all : ∀ v < 256, (shift ccitt_poly)^[8] ((UInt8.ofNat v).toBitVec.setWidth 16) = (spread (UInt8.ofNat v)).toBitVec := by
    decide +kernel
  have byte := all e.toNat e.toNat_lt
  rw [UInt8.ofNat_toNat] at byte
  exact byte

/-- The low byte of a register and the rest. -/
theorem low_high (x : BitVec 16) : x = (x.setWidth 8).setWidth 16 ^^^ ((x >>> 8) <<< 8) := by
  apply BitVec.eq_of_getLsbD_eq
  intro i inside
  by_cases low : i < 8
  · simp [low, inside]
  · simp [low, inside, Nat.add_sub_cancel' (Nat.not_lt.mp low)]

/-- The low byte is divided out, and the high byte comes down whole. -/
theorem iterate_shift_eight (x : BitVec 16) :
    (shift ccitt_poly)^[8] x = (shift ccitt_poly)^[8] ((x.setWidth 8).setWidth 16) ^^^ (x >>> 8) := by
  have clear : ∀ i < 8, ((x >>> 8) <<< 8).getLsbD i = false := by
    intro i low
    simp [low]
  have down : ((x >>> 8) <<< 8) >>> 8 = x >>> 8 := by
    apply BitVec.eq_of_getLsbD_eq
    intro i inside
    by_cases low : 8 + i < 16
    · simp [low]
    · simp [low, BitVec.getLsbD_of_ge x (8 + i) (Nat.not_lt.mp low)]
  conv_lhs => rw [low_high x]
  rw [iterate_shift_xor, iterate_shift_clear clear, down]

theorem crc16_ccitt_byte_eq (seed : UInt16) (b : UInt8) :
    (crc16_ccitt_byte seed b).toBitVec = run ccitt_poly seed.toBitVec (bits b.toBitVec) := by
  have low : (seed.toBitVec ^^^ b.toBitVec.setWidth 16).setWidth 8 = (seed.toUInt8 ^^^ b).toBitVec := by
    rw [BitVec.setWidth_xor, BitVec.setWidth_setWidth_of_le _ (by decide), BitVec.setWidth_eq]
    rfl
  have high : (seed.toBitVec ^^^ b.toBitVec.setWidth 16) >>> 8 = (seed >>> 8).toBitVec := by
    have none_ : b.toBitVec.setWidth 16 >>> 8 = 0#16 := by
      apply BitVec.eq_of_getLsbD_eq
      intro i _
      simp
    rw [BitVec.ushiftRight_xor_distrib, none_, BitVec.xor_zero]
    rfl
  rw [run_bits _ _ (by decide), iterate_shift_eight, low, high, iterate_shift_byte, crc16_ccitt_byte_spread,
    UInt16.toBitVec_xor, BitVec.xor_comm]

theorem crc16_ccitt_serial (seed : UInt16) (data : List UInt8) : crc16_ccitt seed data = serial_crc seed data := by
  apply UInt16.toBitVec_inj.mp
  induction data generalizing seed with
  | nil => rfl
  | cons b data ih =>
    have first : crc16_ccitt seed (b :: data) = crc16_ccitt (crc16_ccitt_byte seed b) data := rfl
    have later : image_bits (b :: data) = bits b.toBitVec ++ image_bits data := rfl
    rw [first, ih]
    simp only [serial_crc]
    rw [crc16_ccitt_byte_eq, later, run_append]

/-- One round of `crc16_ccitt` of the tool, with numbers of any size that it masks. -/
def tool_crc16_byte (seed : Nat) (b : UInt8) : Nat :=
  let e := (seed ^^^ b.toNat) &&& 0xFF
  let f := (e ^^^ (e <<< 4)) &&& 0xFF
  ((seed >>> 8) ^^^ (f <<< 8) ^^^ (f <<< 3) ^^^ (f >>> 4)) &&& 0xFFFF

/-- `crc16_ccitt` of the tool -/
def tool_crc16_ccitt (data : List UInt8) : Nat := data.foldl tool_crc16_byte 0

theorem tool_crc16_byte_eq (seed : UInt16) (b : UInt8) :
    tool_crc16_byte seed.toNat b = (crc16_ccitt_byte seed b).toNat := by
  have low (x : Nat) : x &&& 0xFF = x % 2^8 := Nat.and_two_pow_sub_one_eq_mod x 8
  have word (x : Nat) : x &&& 0xFFFF = x % 2^16 := Nat.and_two_pow_sub_one_eq_mod x 16
  have e : (seed.toNat ^^^ b.toNat) % 2^8 = (seed.toUInt8 ^^^ b).toNat := by
    rw [UInt8.toNat_xor, UInt16.toNat_toUInt8, Nat.xor_mod_two_pow, Nat.mod_eq_of_lt b.toNat_lt]
  have f (e : UInt8) : (e.toNat ^^^ e.toNat <<< 4) % 2^8 = (e ^^^ (e <<< 4)).toNat := by
    rw [UInt8.toNat_xor, UInt8.toNat_shiftLeft, Nat.xor_mod_two_pow, Nat.mod_eq_of_lt e.toNat_lt]
    rfl
  have sum (f : UInt8) : (seed.toNat >>> 8 ^^^ f.toNat <<< 8 ^^^ f.toNat <<< 3 ^^^ f.toNat >>> 4) % 2^16 =
      ((seed >>> 8) ^^^ (f.toUInt16 <<< 8) ^^^ (f.toUInt16 <<< 3) ^^^ (f >>> 4).toUInt16).toNat := by
    have high : seed.toNat >>> 8 < 2^16 := Nat.lt_of_le_of_lt (Nat.shiftRight_le _ _) seed.toNat_lt
    have nibble : f.toNat >>> 4 < 2^16 := Nat.lt_of_le_of_lt (Nat.shiftRight_le _ _) (Nat.lt_trans f.toNat_lt (by decide))
    rw [Nat.xor_mod_two_pow, Nat.xor_mod_two_pow, Nat.xor_mod_two_pow, Nat.mod_eq_of_lt high, Nat.mod_eq_of_lt nibble]
    rfl
  rw [tool_crc16_byte, low, low, word, e, f, sum]
  rfl

theorem tool_crc16_ccitt_eq (data : List UInt8) : tool_crc16_ccitt data = (crc16_ccitt 0 data).toNat := by
  suffices ∀ seed : UInt16, data.foldl tool_crc16_byte seed.toNat = (crc16_ccitt seed data).toNat from this 0
  induction data with
  | nil => exact fun _ => rfl
  | cons b data ih =>
    intro seed
    rw [List.foldl_cons, tool_crc16_byte_eq, ih]
    rfl

/-- The checksum of the pieces one after another. -/
theorem foldl_crc16_ccitt (seed : UInt16) (pieces : List (List UInt8)) :
    pieces.foldl crc16_ccitt seed = crc16_ccitt seed pieces.flatten := by
  induction pieces generalizing seed with
  | nil => rfl
  | cons piece rest ih => rw [List.foldl_cons, ih, List.flatten_cons, crc16_ccitt_append]

/-- The read back stops where a block cannot be read, and otherwise gives the checksum of what is stored. -/
theorem crc_read_back_stored (total : Nat) (d : Dev) :
    (crc_read_back 0 total 0 d).1 = none ∨
      (crc_read_back 0 total 0 d).1 = some (crc16_ccitt 0 (bytesAt d.mem SLOT1_OFFSET total)) := by
  cases read : (crc_read_back 0 total 0 d).1 with
  | none => exact .inl rfl
  | some c =>
    have stored := crc_read_back_some read
    rw [Nat.add_zero, Nat.sub_zero] at stored
    exact .inr (congrArg some stored)

/-- The session, the WebSocket channel and the tool compute one checksum: the bit-serial one with
    the reflected CCITT polynomial. In pieces it is that of the whole, so what is read back in
    blocks, what the frames sum up to and what the tool computes are the same for every image. -/
theorem upgrade_checksums_agree (seed : UInt16) (first second : List UInt8) (frames : List (List UInt8)) (total : Nat)
    (d : Dev) :
    crc16_ccitt seed first = serial_crc seed first ∧
      ws_crc16 seed first = serial_crc seed first ∧
      tool_crc16_ccitt first = (serial_crc 0 first).toNat ∧
      crc16_ccitt (crc16_ccitt seed first) second = crc16_ccitt seed (first ++ second) ∧
      ws_crc16 (ws_crc16 seed first) second = ws_crc16 seed (first ++ second) ∧
      (frames.foldl ws_crc16 0).toNat = tool_crc16_ccitt frames.flatten ∧
      ((crc_read_back 0 total 0 d).1 = none ∨
        ((crc_read_back 0 total 0 d).1.map UInt16.toNat = some (tool_crc16_ccitt (bytesAt d.mem SLOT1_OFFSET total)))) ∧
      (d.power = true → d.fates = [] → total ≤ SLOT1_SIZE → (crc_read_back 0 total 0 d).1 ≠ none) := by
  refine ⟨crc16_ccitt_serial seed first, crc16_ccitt_serial seed first, ?_, (crc16_ccitt_append ..).symm,
    (crc16_ccitt_append ..).symm, ?_, ?_, ?_⟩
  · rw [tool_crc16_ccitt_eq, crc16_ccitt_serial]
  · rw [tool_crc16_ccitt_eq, ← foldl_crc16_ccitt]
    rfl
  · rcases crc_read_back_stored total d with failed | stored
    · exact .inl failed
    · rw [stored, tool_crc16_ccitt_eq]
      exact .inr rfl
  · intro on working size
    obtain ⟨c, read⟩ := @crc_read_back_working 0 total 0 d on working size
    rw [read]
    exact Option.some_ne_none c

end IoEdgeHub.UpgradeChecksums
