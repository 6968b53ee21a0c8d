import IoEdgeHub.RtuFrames
import IoEdgeHub.ShiftRegister

/-!
What the CRC16 of an RTU frame finds (`util/io_crc.c`, `modbus/rtu_frame.c`). On the line a
frame is a stream of bits, each byte lowest bit first and the CRC16 low byte first, and
its checksum loop is a shift register over this stream: a frame is whole just when the
register ends at zero (`checked_iff`). An altered frame whose errors lie within 16 bits of
the stream is for that reason never taken for whole.
-/
namespace IoEdgeHub.RtuBursts
open IoEdgeHub.Bytes IoEdgeHub.Crc IoEdgeHub.MbServer IoEdgeHub.MbTransports IoEdgeHub.RtuFrames IoEdgeHub.ShiftRegister

def byte_bits (b : UInt8) : List Bool := (List.range 8).map b.toBitVec.getLsbD

/-- The bits of a frame in the order in which they are sent. -/
def wire (f : List UInt8) : List Bool := f.flatMap byte_bits

theorem length_byte_bits (b : UInt8) : (byte_bits b).length = 8 := rfl

theorem getD_byte_bits (b : UInt8) (i : Nat) : (byte_bits b).getD i false = b.toBitVec.getLsbD i := getD_bits b.toBitVec i

theorem word_byte_bits (b : UInt8) : (word (byte_bits b) : BitVec 16) = b.toUInt16.toBitVec := by
  rw [UInt8.toBitVec_toUInt16]
  exact word_bits b.toBitVec

theorem length_wire (f : List UInt8) : (wire f).length = 8 * f.length := by
  induction f with
  | nil => rfl
  | cons b f ih =>
    have next : wire (b :: f) = byte_bits b ++ wire f := rfl
    rw [next, List.length_append, length_byte_bits, ih, List.length_cons]
    omega

theorem wire_injective : Function.Injective wire := by
  intro f g same
  induction f generalizing g with
  | nil =>
    have length := congrArg List.length same
    rw [length_wire, length_wire, List.length_nil] at length
    exact (List.length_eq_zero_iff.mp (by omega)).symm
  | cons b f ih =>
    cases g with
    | nil =>
      have length := congrArg List.length same
      rw [length_wire, length_wire, List.length_cons, List.length_nil] at length
      omega
    | cons b' g =>
      obtain ⟨first, rest⟩ := List.append_inj same rfl
      have byte : b = b' := by
        apply UInt8.toBitVec_inj.mp
        apply BitVec.eq_of_getLsbD_eq
        intro i _
        rw [← getD_byte_bits, ← getD_byte_bits, first]
      rw [byte, ih rest]

/-- The polynomial of the Modbus CRC16. -/
def modbus_poly : BitVec 16 := 0xA001#16

theorem modbus_poly_top : modbus_poly.getLsbD (16 - 1) = true := rfl

theorem crc16_modbus_bit_eq (crc : UInt16) : (crc16_modbus_bit crc).toBitVec = shift modbus_poly crc.toBitVec := by
  have odd : crc &&& 1 ≠ 0 ↔ crc.toBitVec.getLsbD 0 = true := by
    rw [ne_eq, ← UInt16.toBitVec_inj, UInt16.toBitVec_and]
    constructor
    · intro some_
      by_contra even
      apply some_
      apply BitVec.eq_of_getLsbD_eq
      intro i inside
      rcases Nat.eq_zero_or_pos i with rfl | up
      · simpa using even
      · simp [BitVec.getLsbD_and, BitVec.getLsbD_one, Nat.ne_of_gt up]
    · intro odd none_
      have place := congrArg (BitVec.getLsbD · 0) none_
      simp only [BitVec.getLsbD_and, odd] at place
      cases place
  unfold crc16_modbus_bit shift
  by_cases bit : crc.toBitVec.getLsbD 0 = true
  · rw [if_pos (odd.mpr bit), if_pos bit]
    rfl
  · rw [if_neg (mt odd.mp bit), if_neg bit]
    rfl

theorem repeat_bit_eq (times : Nat) (crc : UInt16) :
    (Nat.repeat crc16_modbus_bit times crc).toBitVec = (shift modbus_poly)^[times] crc.toBitVec := by
  induction times with
  | zero => rfl
  | succ times ih => rw [Nat.repeat, crc16_modbus_bit_eq, ih, Function.iterate_succ_apply']

theorem crc16_modbus_byte_eq (crc : UInt16) (b : UInt8) :
    (crc16_modbus_byte crc b).toBitVec = run modbus_poly crc.toBitVec (byte_bits b) := by
  have fits : (byte_bits b).length ≤ 16 := Nat.le_of_ble_eq_true rfl
  rw [crc16_modbus_byte, repeat_bit_eq, UInt16.toBitVec_xor, run_eq_iterate _ fits, length_byte_bits, word_byte_bits]

/-- The checksum is the register after the stream of bits. -/
theorem crc16_modbus_eq (data : List UInt8) : (crc16_modbus data).toBitVec = run modbus_poly 0xFFFF#16 (wire data) := by
  suffices ∀ crc : UInt16,
      (data.foldl crc16_modbus_byte crc).toBitVec = run modbus_poly crc.toBitVec (wire data) from this 0xFFFF
  induction data with
  | nil => intro crc; rfl
  | cons b data ih =>
    intro crc
    have next : wire (b :: data) = byte_bits b ++ wire data := rfl
    rw [List.foldl_cons, ih, crc16_modbus_byte_eq, next, run_append]

/-- The two bytes of the CRC16, as they are sent. -/
theorem word_crc (lo hi : UInt8) :
    (word (wire [lo, hi]) : BitVec 16) = (UInt16.ofNat (get_le16 [lo, hi])).toBitVec := by
  apply BitVec.eq_of_getLsbD_eq
  intro i inside
  have sent : wire [lo, hi] = byte_bits lo ++ byte_bits hi := congrArg (byte_bits lo ++ ·) (List.append_nil _)
  have value : get_le16 [lo, hi] = 2^8 * hi.toNat + lo.toNat := by
    show lo.toNat + hi.toNat * 2^8 = _
    omega
  have right : (UInt16.ofNat (get_le16 [lo, hi])).toBitVec = BitVec.ofNat 16 (get_le16 [lo, hi]) := rfl
  rw [getLsbD_word, decide_eq_true inside, Bool.true_and, right, BitVec.getLsbD_ofNat, decide_eq_true inside,
    Bool.true_and, value, Nat.testBit_two_pow_mul_add _ lo.toNat_lt, sent]
  split
  · rename_i first
    rw [List.getD_append _ _ _ _ (by rwa [length_byte_bits]), getD_byte_bits]
    rfl
  · rename_i second
    rw [List.getD_append_right _ _ _ _ (by rw [length_byte_bits]; omega), length_byte_bits, getD_byte_bits]
    rfl

/-- A frame is whole just when the register ends at zero. -/
theorem checked_iff {f : List UInt8} (long : 2 ≤ f.length) : Checked f ↔ run modbus_poly 0xFFFF#16 (wire f) = 0#16 := by
  obtain ⟨lo, hi, last⟩ : ∃ lo hi, f.drop (f.length - 2) = [lo, hi] :=
    List.length_eq_two.mp (by rw [List.length_drop]; omega)
  have cut : wire f = wire (f.take (f.length - 2)) ++ wire [lo, hi] := by
    rw [← last, wire, wire, wire, ← List.flatMap_append, List.take_append_drop]
  have length : (wire [lo, hi]).length = 16 := rfl
  have zero : (shift modbus_poly)^[16] 0#16 = 0#16 := Function.iterate_fixed rfl 16
  unfold Checked crc_rx
  rw [← UInt16.toBitVec_inj, last, ← word_crc, crc16_modbus_eq, cut, run_append,
    @run_eq_iterate _ _ _ (wire [lo, hi]) (Nat.le_of_eq length), length]
  constructor
  · intro same
    rw [same, BitVec.xor_self]
    exact zero
  · intro ends
    have start := (shift_injective modbus_poly_top).iterate 16 (ends.trans zero.symm)
    exact (BitVec.xor_eq_zero_iff.mp start).symm

/-- A whole frame that is altered, but only within 16 bits as they are sent, is not whole. -/
theorem burst_unchecked {frame altered : List UInt8} (long : 2 ≤ frame.length) (checked : Checked frame) {p : Nat}
    (burst : Burst 16 p (wire frame) (wire altered)) (differ : altered ≠ frame) : ¬ Checked altered := by
  have length := burst.1
  rw [length_wire, length_wire] at length
  rw [checked_iff (by omega)]
  intro zero
  have same := (checked_iff long).mp checked
  exact run_ne modbus_poly_top burst (fun same => differ (wire_injective same).symm) _ (same.trans zero.symm)

/-- A silence after an altered frame, whatever pieces it came in: the frame is counted as one
    with a wrong CRC16, the decoder is not called, no register changes and nothing is sent. -/
theorem bursts_detected {frame altered : List UInt8} (sized : Sized frame) (checked : Checked frame) {p : Nat}
    (burst : Burst 16 p (wire frame) (wire altered)) (differ : altered ≠ frame) (r : Rtu) (s : Srv) (unit : UInt8)
    {feeds : List (List UInt8)} (arrives : feeds.flatten = altered) :
    let r := rtu_frame_bind unit r
    let fed := feeds.foldl rtu_rx_feed r
    let after := rtu_t35_expired fed s
    after =
        (rtu_reset fed, mb_server_diag_count .NO_RESP (mb_server_diag_count .CRC_ERR (mb_server_diag_count .BUS_MSG s))) ∧
      (expired_calling recorded counted fed (s, [])).2 = (after.2, []) ∧
      after.2.io = s.io ∧ after.1.transmitted = r.transmitted := by
  intro r fed after
  have length := burst.1
  rw [length_wire, length_wire] at length
  have sized' : Sized altered := ⟨by have := sized.1; omega, by have := sized.2; omega⟩
  have wrong : ¬ Checked altered := burst_unchecked (Nat.le_trans (by decide) sized.1) checked burst differ
  have refused : ¬ Accepted unit altered := fun accepted => wrong accepted.checked
  have some_ : altered ≠ [] := by
    rintro rfl
    exact absurd sized'.1 (by decide)
  have empty : Fed r [] := fed_reset _
  have kept := (@feeds_fed r [] feeds empty).2.2.2
  have counts : handled mb_server_process mb_server_diag_count unit altered s =
      (none, mb_server_diag_count .NO_RESP (mb_server_diag_count .CRC_ERR (mb_server_diag_count .BUS_MSG s))) := by
    rw [handled, if_neg refused, dropped, if_neg some_, if_pos ⟨sized', wrong⟩]
  have after_ : after = _ := (rtu_t35_expired_eq fed s).trans (expired_feeds _ _ empty rfl feeds s)
  have calls : expired_calling recorded counted fed (s, []) = _ := expired_feeds _ _ empty rfl feeds (s, [])
  have unit_ : r.srv_unit = unit := rfl
  rw [arrives, unit_, counts, Option.toList_none, List.append_nil] at after_
  rw [arrives, handled_recorded, unit_, counts, if_neg refused] at calls
  rw [after_, calls]
  refine ⟨Prod.ext ?_ rfl, rfl, rfl, rfl⟩
  rw [← kept]
  rfl

/-- A write request of the time, and the same with errors in the bits 36 and 51 and some between them. -/
theorem altered_write :
    Burst 16 36 (wire [1, 6, 0, 14, 104, 47, 134, 21]) (wire [1, 6, 0, 14, 120, 138, 142, 21]) := by
  refine ⟨by decide, fun i differ => ?_⟩
  have inside : i < 64 := by
    by_contra beyond
    exact differ (by rw [List.getElem?_eq_none (Nat.not_lt.mp beyond), List.getElem?_eq_none (Nat.not_lt.mp beyond)])
  have places : ∀ i < 64, (wire [1, 6, 0, 14, 104, 47, 134, 21])[i]? ≠ (wire [1, 6, 0, 14, 120, 138, 142, 21])[i]? →
      36 ≤ i ∧ i < 36 + 16 := by decide
  exact places i inside differ

theorem bursts_detected_write :
    let fed := [[1, 6, 0, 14, 120], [138, 142, 21]].foldl rtu_rx_feed (rtu_frame_bind 1 { srv_unit := 1 })
    (rtu_t35_expired fed fresh).2.io = fresh.io :=
  (bursts_detected ⟨by decide, by decide⟩ (by decide +kernel) altered_write (by decide) _ _ _ rfl).2.2.1

end IoEdgeHub.RtuBursts
