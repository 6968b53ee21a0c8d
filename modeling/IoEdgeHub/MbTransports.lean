import IoEdgeHub.Crc
import IoEdgeHub.MbRequests

/-!
The two transports in front of the Modbus decoder: RTU frames on the serial line
(`modbus/rtu_frame.c`) and ADUs of a TCP connection (`modbus/mbtcp_adu.c`).

The two are written independently of each other. The same PDU to the same unit has
the same effect over either and is answered alike.
-/
namespace IoEdgeHub.MbTransports
open IoEdgeHub.Bytes IoEdgeHub.Crc IoEdgeHub.MbServer IoEdgeHub.MbRequests

def RTU_FRAME_MAX : Nat := 256
def RTU_FRAME_MIN : Nat := 4

/-- The framer: `rx_buf[0, rx_len)`, what it is bound to, and the frames it has
    transmitted. `kicks` counts how often the t3.5 timer was started. -/
structure Rtu where
  rx_buf : List UInt8 := []
  rx_overflow : Bool := false
  srv_unit : UInt8
  tx_cb : Bool := true
  transmitted : List (List UInt8) := []
  kicks : Nat := 0

def rtu_reset (r : Rtu) : Rtu := { r with rx_buf := [], rx_overflow := false }

/-- Binds the framer to a unit, with a function to transmit frames. -/
def rtu_frame_bind (unit : UInt8) (r : Rtu) : Rtu := rtu_reset { r with srv_unit := unit, tx_cb := true }

def rtu_t35_kick (r : Rtu) : Rtu := { r with kicks := r.kicks + 1 }

def rtu_rx_feed (r : Rtu) (bytes : List UInt8) : Rtu :=
  if bytes = [] then r
  else
    rtu_t35_kick <|
      if r.rx_overflow then r
      else
        let space := RTU_FRAME_MAX - r.rx_buf.length
        let take := if bytes.length ≤ space then bytes.length else space
        { r with rx_buf := r.rx_buf ++ bytes.take take, rx_overflow := take < bytes.length }

/-- A frame: the unit, the PDU, and the CRC16 of both with its low byte first. -/
def rtu_frame (unit : UInt8) (pdu : List UInt8) : List UInt8 :=
  let crc := crc16_modbus (unit :: pdu)
  unit :: (pdu ++ [crc.toUInt8, (crc >>> 8).toUInt8])

/-- The two bytes at the end of a frame, low byte first. -/
def crc_rx (frame : List UInt8) : UInt16 := UInt16.ofNat (get_le16 (frame.drop (frame.length - 2)))

/-- A frame that was received whole: what it does to the server, and what is transmitted for it. -/
def rtu_frame_process (srv_unit : UInt8) (frame : List UInt8) (s : Srv) : Option (List UInt8) × Srv :=
  let unit := frame.getD 0 0
  if crc_rx frame ≠ crc16_modbus (frame.take (frame.length - 2)) then
    (none, mb_server_diag_count .NO_RESP (mb_server_diag_count .CRC_ERR (mb_server_diag_count .BUS_MSG s)))
  else if unit ≠ 0 ∧ unit ≠ srv_unit then (none, mb_server_diag_count .NO_RESP (mb_server_diag_count .BUS_MSG s))
  else
    let (rsp, s) := mb_server_process ((frame.drop 1).take (frame.length - 3)) s
    match rsp with
    | none => (none, mb_server_diag_count .NO_RESP s)
    | some rsp_pdu => if unit = 0 then (none, mb_server_diag_count .NO_RESP s) else (some (rtu_frame unit rsp_pdu), s)

def rtu_t35_expired (r : Rtu) (s : Srv) : Rtu × Srv :=
  let frame := r.rx_buf
  let overflow := r.rx_overflow
  let r := { r with rx_buf := [], rx_overflow := false }
  if frame.length = 0 then (r, s)
  else if overflow ∨ frame.length < RTU_FRAME_MIN then
    (r, mb_server_diag_count .NO_RESP (mb_server_diag_count .BUS_MSG s))
  else
    match rtu_frame_process r.srv_unit frame s with
    | (none, s) => (r, s)
    | (some tx, s) => (if r.tx_cb then { r with transmitted := r.transmitted ++ [tx] } else r, s)

def MB_SERVER_PDU_MAX : Nat := 256
def MBTCP_ADU_TX_MAX : Nat := 7 + MB_SERVER_PDU_MAX
def MBTCP_MBAP_LEN_CLAMP : Nat := 256
def MB_EXC_SERVER_DEVICE_FAILURE : UInt8 := 0x04

/-- The MBAP header and the PDU behind it. -/
def mbap (trans_id proto_id length : Nat) (unit_id : UInt8) (pdu : List UInt8) : List UInt8 :=
  io_put_be16 trans_id ++ io_put_be16 proto_id ++ io_put_be16 length ++ unit_id :: pdu

/-- How many bytes of an ADU are its PDU, given its length field and its size. -/
def pdu_len (mbap_len in_len : Nat) : Nat :=
  let mbap_len := if mbap_len > MBTCP_MBAP_LEN_CLAMP then MBTCP_MBAP_LEN_CLAMP else mbap_len
  let len := if mbap_len ≥ 2 then mbap_len - 2 + 1 else 1
  if len > in_len - 7 then in_len - 7 else len

/-- The unit the server is bound to is not looked at. -/
def mbtcp_adu_process (out_cap : Nat) (_srv_unit : UInt8) (adu : List UInt8) (s : Srv) : Option (List UInt8) × Srv :=
  if adu.length < 8 then (none, s)
  else if out_cap < MBTCP_ADU_TX_MAX then (none, s)
  else
    let trans_id := io_get_be16 adu
    let proto_id := io_get_be16 (adu.drop 2)
    let mbap_len := io_get_be16 (adu.drop 4)
    let unit_id := adu.getD 6 0
    let fc := adu.getD 7 0
    if proto_id ≠ 0 then
      (some (mbap trans_id proto_id 3 unit_id [fc ||| 0x80, MB_EXC_SERVER_DEVICE_FAILURE]), s)
    else
      let (rsp, s) := mb_server_process ((adu.drop 7).take (pdu_len mbap_len adu.length)) s
      if unit_id = 0 then (none, mb_server_diag_count .NO_RESP s)
      else
        match rsp with
        | none => (none, mb_server_diag_count .NO_RESP s)
        | some rsp_pdu => (some (mbap trans_id 0 (rsp_pdu.length + 1) unit_id rsp_pdu), s)

section
variable {r : Rtu} {frame pdu : List UInt8} {unit : UInt8}

/-- The framer holds `frame` and nothing has been lost. -/
structure Holds (r : Rtu) (frame : List UInt8) : Prop where
  rx_buf : r.rx_buf = frame
  rx_overflow : r.rx_overflow = false

theorem rtu_rx_feed_holds {bytes : List UInt8} (holds : Holds r frame) (fits : frame.length + bytes.length ≤ RTU_FRAME_MAX) :
    Holds (rtu_rx_feed r bytes) (frame ++ bytes) := by
  unfold rtu_rx_feed
  by_cases none_ : bytes = []
  · rw [if_pos none_, none_, List.append_nil]
    exact holds
  · have space : bytes.length ≤ RTU_FRAME_MAX - r.rx_buf.length := by
      rw [holds.rx_buf]
      omega
    rw [if_neg none_]
    simp only [holds.rx_overflow, Bool.false_eq_true, if_false, if_pos space, List.take_length]
    constructor
    · simp only [rtu_t35_kick, holds.rx_buf]
    · simp [rtu_t35_kick]

/-- What feeding leaves alone. -/
theorem rtu_rx_feed_kept (r : Rtu) (bytes : List UInt8) :
    (rtu_rx_feed r bytes).srv_unit = r.srv_unit ∧ (rtu_rx_feed r bytes).tx_cb = r.tx_cb ∧
      (rtu_rx_feed r bytes).transmitted = r.transmitted := by
  unfold rtu_rx_feed rtu_t35_kick
  split_ifs <;> exact ⟨rfl, rfl, rfl⟩

/-- A frame arrives whole, whatever it is cut into. -/
theorem rtu_rx_feeds {feeds : List (List UInt8)} (holds : Holds r frame)
    (fits : frame.length + feeds.flatten.length ≤ RTU_FRAME_MAX) :
    Holds (feeds.foldl rtu_rx_feed r) (frame ++ feeds.flatten) ∧ (feeds.foldl rtu_rx_feed r).srv_unit = r.srv_unit ∧
      (feeds.foldl rtu_rx_feed r).tx_cb = r.tx_cb ∧ (feeds.foldl rtu_rx_feed r).transmitted = r.transmitted := by
  induction feeds generalizing r frame with
  | nil => exact ⟨by simpa using holds, rfl, rfl, rfl⟩
  | cons bytes rest ih =>
    obtain ⟨srv_unit, tx_cb, transmitted⟩ := rtu_rx_feed_kept r bytes
    simp only [List.flatten_cons, List.length_append] at fits
    have next := rtu_rx_feed_holds holds (show frame.length + bytes.length ≤ RTU_FRAME_MAX by omega)
    obtain ⟨held, kept⟩ := ih next (by simp only [List.length_append]; omega)
    rw [srv_unit, tx_cb, transmitted] at kept
    rw [List.foldl_cons, List.flatten_cons, ← List.append_assoc]
    exact ⟨held, kept⟩

theorem rtu_frame_length (unit : UInt8) (pdu : List UInt8) : (rtu_frame unit pdu).length = pdu.length + 3 := by
  simp [rtu_frame]

theorem rtu_frame_body (unit : UInt8) (pdu : List UInt8) :
    (rtu_frame unit pdu).take ((rtu_frame unit pdu).length - 2) = unit :: pdu := by
  rw [rtu_frame_length]
  show ((unit :: pdu) ++ _).take _ = _
  exact List.take_left' (by simp)

/-- A frame carries its own CRC16. -/
theorem rtu_frame_crc (unit : UInt8) (pdu : List UInt8) : crc_rx (rtu_frame unit pdu) = crc16_modbus (unit :: pdu) := by
  have tail (crc : UInt16) :
      ((unit :: pdu) ++ [crc.toUInt8, (crc >>> 8).toUInt8]).drop (pdu.length + 1) = [crc.toUInt8, (crc >>> 8).toUInt8] :=
    List.drop_left' (by simp)
  have word (crc : UInt16) : UInt16.ofNat (get_le16 [crc.toUInt8, (crc >>> 8).toUInt8]) = crc := by
    apply UInt16.toNat_inj.mp
    have lt := crc.toNat_lt
    simp only [get_le16, byteAt, List.getD_cons_zero, List.getD_cons_succ, UInt16.toNat_toUInt8, UInt16.toNat_shiftRight,
      UInt16.toNat_ofNat']
    have high : crc.toNat >>> ((8 : UInt16).toNat % 16) = crc.toNat / 2^8 := Nat.shiftRight_eq_div_pow _ _
    rw [high]
    omega
  rw [crc_rx, rtu_frame_length, show pdu.length + 3 - 2 = pdu.length + 1 by omega]
  exact (congrArg (fun l => UInt16.ofNat (get_le16 l)) (tail _)).trans (word _)

/-- A frame to the unit itself or to all of them goes to the decoder. -/
theorem rtu_frame_process_frame {srv_unit : UInt8} (addressed : unit = 0 ∨ unit = srv_unit) (s : Srv) :
    rtu_frame_process srv_unit (rtu_frame unit pdu) s =
      match mb_server_process pdu s with
      | (none, s) => (none, mb_server_diag_count .NO_RESP s)
      | (some rsp, s) => if unit = 0 then (none, mb_server_diag_count .NO_RESP s) else (some (rtu_frame unit rsp), s) := by
  have unit_ : (rtu_frame unit pdu).getD 0 0 = unit := rfl
  have inner : ((rtu_frame unit pdu).drop 1).take ((rtu_frame unit pdu).length - 3) = pdu := by
    rw [rtu_frame_length]
    exact List.take_left' (by simp)
  have ours : ¬ (unit ≠ 0 ∧ unit ≠ srv_unit) := by
    rintro ⟨not_all, not_us⟩
    exact addressed.elim not_all not_us
  simp only [rtu_frame_process, rtu_frame_crc, rtu_frame_body, unit_, inner, ne_eq, not_true_eq_false, if_false]
  rw [if_neg ours]
  rcases mb_server_process pdu s with ⟨_ | rsp, s⟩ <;> rfl

end

section
variable {trans_id proto_id : UInt16} {length : Nat} {unit : UInt8} {pdu : List UInt8}

/-- A PDU that fills its ADU goes to the decoder. -/
theorem mbtcp_adu_process_mbap {srv_unit : UInt8} (some_ : 1 ≤ pdu.length) (fits : pdu.length ≤ 253) (s : Srv) :
    mbtcp_adu_process MBTCP_ADU_TX_MAX srv_unit (mbap trans_id.toNat 0 (pdu.length + 1) unit pdu) s =
      match mb_server_process pdu s with
      | (none, s) => (none, mb_server_diag_count .NO_RESP s)
      | (some rsp, s) =>
        if unit = 0 then (none, mb_server_diag_count .NO_RESP s)
        else (some (mbap trans_id.toNat 0 (rsp.length + 1) unit rsp), s) := by
  obtain ⟨adu, adu_⟩ : ∃ adu, adu = mbap trans_id.toNat 0 (pdu.length + 1) unit pdu := ⟨_, rfl⟩
  have size : adu.length = pdu.length + 7 := by
    rw [adu_]
    simp [mbap, io_put_be16]
  have trans : io_get_be16 adu = trans_id.toNat := by
    rw [adu_, mbap, List.append_assoc, List.append_assoc, io_get_put_be16, Nat.mod_eq_of_lt trans_id.toNat_lt]
  have proto : io_get_be16 (adu.drop 2) = 0 := by
    rw [adu_]
    exact io_get_put_be16 0 _
  have len : io_get_be16 (adu.drop 4) = pdu.length + 1 := by
    rw [adu_]
    exact (io_get_put_be16 (pdu.length + 1) _).trans (Nat.mod_eq_of_lt (by omega))
  have unit_ : adu.getD 6 0 = unit := by
    rw [adu_]
    rfl
  have inner : (adu.drop 7).take (pdu_len (pdu.length + 1) (pdu.length + 7)) = pdu := by
    have all : pdu_len (pdu.length + 1) (pdu.length + 7) = pdu.length := by
      have unclamped : ¬ pdu.length + 1 > MBTCP_MBAP_LEN_CLAMP := by
        unfold MBTCP_MBAP_LEN_CLAMP
        omega
      simp only [pdu_len, if_neg unclamped]
      split_ifs <;> omega
    rw [all, adu_]
    exact List.take_length
  rw [← adu_]
  simp only [mbtcp_adu_process, size, trans, proto, len, unit_, inner, ne_eq, not_true_eq_false, if_false, lt_irrefl,
    if_neg (show ¬ pdu.length + 7 < 8 by omega)]
  rcases mb_server_process pdu s with ⟨_ | rsp, s⟩
  · exact ite_self _
  · rfl

/-- A PDU of 1 to 253 bytes, sent to the server's own unit or to all, has the same
    effect on the registers, the calls and the counters over either transport.
    Either both stay silent, or both answer with the same PDU. -/
theorem transports_agree (r : Rtu) (s : Srv) (srv_unit unit : UInt8) (trans_id : UInt16) (pdu : List UInt8)
    (feeds : List (List UInt8)) (some_ : 1 ≤ pdu.length) (fits : pdu.length ≤ 253) (addressed : unit = 0 ∨ unit = srv_unit)
    (fed : feeds.flatten = rtu_frame unit pdu) :
    let r := rtu_frame_bind srv_unit r
    let rtu := rtu_t35_expired (feeds.foldl rtu_rx_feed r) s
    let tcp := mbtcp_adu_process MBTCP_ADU_TX_MAX srv_unit (mbap trans_id.toNat 0 (pdu.length + 1) unit pdu) s
    rtu.2 = tcp.2 ∧
      (rtu.1.transmitted = r.transmitted ∧ tcp.1 = none ∨
        ∃ rsp, rsp.length ≤ 253 ∧ rtu.1.transmitted = r.transmitted ++ [rtu_frame unit rsp] ∧
          tcp.1 = some (mbap trans_id.toNat 0 (rsp.length + 1) unit rsp)) := by
  intro r rtu tcp
  have length := rtu_frame_length unit pdu
  obtain ⟨held, srv_unit_, tx_cb, transmitted⟩ := @rtu_rx_feeds r [] feeds ⟨rfl, rfl⟩
    (by rw [fed, length]; simp only [List.length_nil, RTU_FRAME_MAX]; omega)
  rw [fed, List.nil_append] at held
  have ran := @rtu_frame_process_frame pdu unit srv_unit addressed s
  have adu := @mbtcp_adu_process_mbap trans_id unit pdu srv_unit some_ fits s
  simp only [rtu, tcp, rtu_t35_expired, held.rx_buf, held.rx_overflow, srv_unit_, tx_cb, length, adu, RTU_FRAME_MIN,
    Bool.false_eq_true, false_or, if_neg (show ¬ pdu.length + 3 = 0 by omega), if_neg (show ¬ pdu.length + 3 < 4 by omega)]
  rw [show r.srv_unit = srv_unit from rfl, ran]
  cases decoded : mb_server_process pdu s with
  | mk rsp s' =>
    cases rsp with
    | none => exact ⟨rfl, .inl ⟨transmitted, rfl⟩⟩
    | some rsp =>
      by_cases all : unit = 0
      · simp only [if_pos all]
        exact ⟨trivial, .inl ⟨transmitted, trivial⟩⟩
      · simp only [if_neg all]
        refine ⟨trivial, .inr ⟨rsp, mb_server_process_length (congrArg Prod.fst decoded), ?_, rfl⟩⟩
        rw [show r.tx_cb = true from rfl, if_pos rfl, transmitted]

end

/-- A server as its static variables are initialised, over a blank flash. -/
def fresh : Srv :=
  { io :=
      { holding_reg := Regmap.holding_reg_init
        input_reg := Regmap.input_reg_init 0x1000
        epoch_cache := 0
        rtc_ready := false
        store := ⟨ConfigStore.Ram.zero, { mem := fun _ => 0xFF }⟩
        hooks := [] }
    diag_ctr := {} }

/-- All eight coils are read over both, the RTU frame in three parts. -/
theorem transports_agree_coils :
    let pdu := [0x01, 0x00, 0x00, 0x00, 0x08]
    let r := rtu_frame_bind 1 { srv_unit := 0 }
    let rtu := rtu_t35_expired ([[1], [1, 0, 0], [0, 8, 61, 204]].foldl rtu_rx_feed r) fresh
    let tcp := mbtcp_adu_process MBTCP_ADU_TX_MAX 1 (mbap 7 0 6 1 pdu) fresh
    rtu.2 = tcp.2 ∧ rtu.1.transmitted = [[1, 1, 1, 0, 81, 136]] ∧ tcp.1 = some [0, 7, 0, 0, 0, 4, 1, 1, 1, 0] := by
  refine ⟨(transports_agree { srv_unit := 0 } fresh 1 1 7 [0x01, 0x00, 0x00, 0x00, 0x08] [[1], [1, 0, 0], [0, 8, 61, 204]]
    (by decide) (by decide) (.inr rfl) (by decide +kernel)).1, by decide +kernel, by decide +kernel⟩

end IoEdgeHub.MbTransports
