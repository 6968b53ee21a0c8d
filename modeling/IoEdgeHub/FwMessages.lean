import IoEdgeHub.UdpTask

/-!
The queued commands of the UDP upgrade channel in memory (`struct fw_msg` of `fw/fw_udp.c`).
A command is copied to a field of `FW_V2_MAX` bytes whose other cells hold nothing, and the
worker reads cells of that field at offsets of its own. The sizes are those of the
source: what is copied is not what fits, but what each command's length check lets through.

Every cell that the worker reads has been copied, and then it does what the worker of
`FwUdp` does. The copy fits the field but for one command: END has no upper bound.
-/
namespace IoEdgeHub.FwMessages
open IoEdgeHub.Bytes IoEdgeHub.Calls IoEdgeHub.FwUpg IoEdgeHub.UdpTask
open IoEdgeHub.FwUdp (FW_DATA_MAX FW_V2_CHUNK FW_V2_MAX Peer FwMsg FwReply start_status start_keyhash)

theorem FW_V2_MAX_eq : FW_V2_MAX = 1404 := rfl

/-- `struct fw_msg`. A cell of `data` is none when nothing was copied to it. -/
structure Msg where
  cmd : UInt8
  dlen : UInt16
  peer : Peer
  /-- The number of bytes that were copied, wherever they went. -/
  copied : Nat
  data : Nat → Option UInt8

/-- The copy of `dlen` bytes behind the command byte of `rx`. -/
def memcpy (rx : List UInt8) (peer : Peer) (dlen : UInt16) : Msg where
  cmd := rx.getD 0 0
  dlen := dlen
  peer := peer
  copied := dlen.toNat
  data := fun i => if i < FW_V2_MAX ∧ i < dlen.toNat then rx[i + 1]? else none

def fw_udp_cmd (rx : List UInt8) (peer : Peer) : Option Msg :=
  let len := rx.length
  let cmd := rx.getD 0 0
  if len < 1 then none
  else if cmd = 0x01 then
    if len < 5 then none
    else some (memcpy rx peer (UInt16.ofNat (if len - 1 > FW_V2_MAX then FW_V2_MAX else len - 1)))
  else if cmd = 0x02 then
    if len < 2 ∨ len - 1 > FW_DATA_MAX then none else some (memcpy rx peer (UInt16.ofNat (len - 1)))
  else if cmd = 0x06 then
    if len < 6 ∨ len - 1 > FW_V2_MAX then none else some (memcpy rx peer (UInt16.ofNat (len - 1)))
  else if cmd = 0x03 then
    if len < 4 then none else some (memcpy rx peer (UInt16.ofNat (len - 1)))
  else none

/-- `n` cells from `off` on, if something was copied to all of them. -/
def Msg.read (m : Msg) (off n : Nat) : Option (List UInt8) :=
  if ∀ i < n, (m.data (off + i)).isSome then some ((List.range n).map fun i => (m.data (off + i)).getD 0) else none

/-- The write of a DATA_V2 command of 5 bytes or more. -/
def data_v2 (offset data : List UInt8) : Prog Call Unit := do
  let expected ← Prog.once .received
  if io_get_le32 offset = expected then
    let _ ← Prog.once (.write data)

/-- What the worker does with the cells that it reads; none when one of them was not copied. -/
def fw_task (m : Msg) : Option (Prog Call FwReply) :=
  if m.cmd = 0x01 then
    (m.read 0 4).bind fun total =>
      (if m.dlen.toNat ≥ 4 + 32 then (m.read 4 32).map some else some none).bind fun kh => some do
        let rc ← Prog.once (.start (io_get_le32 total) kh)
        return ⟨m.peer, 0x01 :: start_status rc :: put_le16 FW_V2_CHUNK⟩
  else if m.cmd = 0x02 then
    (m.read 0 m.dlen.toNat).bind fun data => some do
      let _ ← Prog.once (.write data)
      let got ← Prog.once .received
      return ⟨m.peer, 0x02 :: io_put_le32 got⟩
  else if m.cmd = 0x06 then
    if m.dlen.toNat ≥ 5 then
      (m.read 0 4).bind fun offset => (m.read 4 (m.dlen.toNat - 4)).bind fun data => some do
        data_v2 offset data
        let got ← Prog.once .received
        return ⟨m.peer, 0x06 :: io_put_le32 got⟩
    else some do
      let got ← Prog.once .received
      return ⟨m.peer, 0x06 :: io_put_le32 got⟩
  else
    (m.read 1 2).bind fun crc => (m.read 0 1).bind fun test => some do
      let rc ← Prog.once (.finish (UInt16.ofNat (get_le16 crc)) true)
      if rc = 0 then
        let done ← Prog.once (.set_pending (byteAt test 0 = 0))
        return ⟨m.peer, [0x03, if done then 1 else 0]⟩
      else return ⟨m.peer, [0x03, 0]⟩

/-- The copy fits the field, its length is noted, and the worker reads nothing else. -/
structure Fits (m : Msg) : Prop where
  inside : m.copied ≤ FW_V2_MAX
  length : m.dlen.toNat = m.copied
  written : (fw_task m).isSome

section
variable {cmd : UInt8} {body : List UInt8} {peer : Peer} {dlen : UInt16}

theorem memcpy_cmd : (memcpy (cmd :: body) peer dlen).cmd = cmd := rfl

theorem read_memcpy {off n : Nat} (field : off + n ≤ FW_V2_MAX) (copied : off + n ≤ dlen.toNat)
    (given : dlen.toNat ≤ body.length) :
    (memcpy (cmd :: body) peer dlen).read off n = some ((body.drop off).take n) := by
  have cell : ∀ i < n, (memcpy (cmd :: body) peer dlen).data (off + i) = body[off + i]? := by
    intro i inside
    exact if_pos ⟨by omega, by omega⟩
  have some_ : ∀ i < n, ((memcpy (cmd :: body) peer dlen).data (off + i)).isSome := by
    intro i inside
    rw [cell i inside, List.getElem?_eq_getElem (by omega)]
    rfl
  rw [Msg.read, if_pos some_]
  congr 1
  apply List.ext_getElem
  · simp only [List.length_map, List.length_range, List.length_take, List.length_drop]
    omega
  · intro i inside _
    have below : i < n := by simpa using inside
    rw [List.getElem_map, List.getElem_range, cell i below, List.getElem?_eq_getElem (by omega), List.getElem_take,
      List.getElem_drop]
    rfl

theorem io_get_le32_take (p : List UInt8) {n : Nat} (long : 4 ≤ n) : io_get_le32 (p.take n) = io_get_le32 p := by
  have cell : ∀ i < 4, byteAt (p.take n) i = byteAt p i := fun i inside => by
    rw [byteAt, byteAt, List.getD_eq_getElem?_getD, List.getD_eq_getElem?_getD, List.getElem?_take_of_lt (by omega)]
  rw [io_get_le32, io_get_le32, cell 0 (by decide), cell 1 (by decide), cell 2 (by decide), cell 3 (by decide)]

theorem start_task (long : 4 ≤ dlen.toNat) (field : dlen.toNat ≤ FW_V2_MAX) (given : dlen.toNat ≤ body.length) :
    fw_task (memcpy (0x01 :: body) peer dlen) = some (FwUdp.fw_task ⟨.START, peer, body.take dlen.toNat⟩) := by
  have total := @read_memcpy 0x01 body peer dlen 0 4 (by omega) (by omega) given
  have length : (body.take dlen.toNat).length = dlen.toNat := List.length_take_of_le given
  have kh : (if dlen.toNat ≥ 4 + 32 then ((memcpy (0x01 :: body) peer dlen).read 4 32).map some else some none) =
      some (start_keyhash (body.take dlen.toNat)) := by
    rw [start_keyhash, length]
    split
    · rename_i room
      rw [read_memcpy (by omega) (by omega) given, List.drop_take, List.take_take, Nat.min_eq_left (by omega)]
      rfl
    · rfl
  have first : fw_task (memcpy (0x01 :: body) peer dlen) =
      ((memcpy (0x01 :: body) peer dlen).read 0 4).bind fun total =>
        (if dlen.toNat ≥ 4 + 32 then ((memcpy (0x01 :: body) peer dlen).read 4 32).map some else some none).bind
          fun kh => some do
            let rc ← Prog.once (.start (io_get_le32 total) kh)
            return ⟨peer, 0x01 :: start_status rc :: put_le16 FW_V2_CHUNK⟩ := rfl
  rw [first, total, kh, Option.bind_some, Option.bind_some, List.drop_zero, io_get_le32_take _ (Nat.le_refl 4),
    ← @io_get_le32_take body dlen.toNat long]
  rfl

theorem data_task (field : body.length ≤ FW_V2_MAX) (given : dlen.toNat = body.length) :
    fw_task (memcpy (0x02 :: body) peer dlen) = some (FwUdp.fw_task ⟨.DATA, peer, body⟩) := by
  have data := @read_memcpy 0x02 body peer dlen 0 dlen.toNat (by omega) (by omega) (by omega)
  rw [List.drop_zero, List.take_of_length_le (by omega)] at data
  have first : fw_task (memcpy (0x02 :: body) peer dlen) =
      ((memcpy (0x02 :: body) peer dlen).read 0 dlen.toNat).bind fun data => some do
        let _ ← Prog.once (.write data)
        let got ← Prog.once .received
        return ⟨peer, 0x02 :: io_put_le32 got⟩ := rfl
  rw [first, data]
  rfl

theorem data_v2_task (long : 5 ≤ body.length) (field : body.length ≤ FW_V2_MAX) (given : dlen.toNat = body.length) :
    fw_task (memcpy (0x06 :: body) peer dlen) = some (FwUdp.fw_task ⟨.DATA_V2, peer, body⟩) := by
  have offset := @read_memcpy 0x06 body peer dlen 0 4 (by omega) (by omega) (by omega)
  have data := @read_memcpy 0x06 body peer dlen 4 (dlen.toNat - 4) (by omega) (by omega) (by omega)
  rw [List.take_of_length_le (by rw [List.length_drop]; omega)] at data
  have enough : (memcpy (0x06 :: body) peer dlen).dlen.toNat ≥ 5 := by
    show dlen.toNat ≥ 5
    omega
  have same : FwUdp.data_v2 body = data_v2 (body.take 4) (body.drop 4) := by
    rw [FwUdp.data_v2, if_pos long, data_v2, io_get_le32_take _ (Nat.le_refl 4)]
  rw [fw_task, memcpy_cmd, if_neg (by decide), if_neg (by decide), if_pos rfl, if_pos enough, offset]
  show ((memcpy (0x06 :: body) peer dlen).read 4 (dlen.toNat - 4)).bind _ = _
  rw [data, FwUdp.fw_task, same]
  rfl

theorem end_task (long : 3 ≤ body.length) (given : dlen.toNat = body.length) :
    fw_task (memcpy (0x03 :: body) peer dlen) = some (FwUdp.fw_task ⟨.END, peer, body⟩) := by
  have crc := @read_memcpy 0x03 body peer dlen 1 2 (by decide) (by omega) (by omega)
  have test := @read_memcpy 0x03 body peer dlen 0 1 (by decide) (by omega) (by omega)
  obtain ⟨a, b, c, rest, rfl⟩ : ∃ a b c rest, body = a :: b :: c :: rest := by
    match body, long with
    | a :: b :: c :: rest, _ => exact ⟨a, b, c, rest, rfl⟩
  rw [fw_task, memcpy_cmd, if_neg (by decide), if_neg (by decide), if_neg (by decide), crc, test]
  rfl

/-- A queued command is the one that the channel queues, and the worker does the same with it.
    Only END is copied at any length. -/
theorem fw_udp_cmd_copied {rx : List UInt8} {m : Msg} (short : rx.length ≤ RX_SIZE)
    (queued : fw_udp_cmd rx peer = some m) :
    m.dlen.toNat = m.copied ∧ (m.copied ≤ FW_V2_MAX ∨ rx.head? = some 0x03) ∧
      (rx.head? = some 0x03 → m.copied = rx.length - 1) ∧
      ∃ msg, FwUdp.fw_udp_cmd rx peer = some msg ∧ fw_task m = some (FwUdp.fw_task msg) := by
  cases rx with
  | nil => cases queued
  | cons cmd body =>
    unfold RX_SIZE at short
    rw [List.length_cons] at short
    have whole : (UInt16.ofNat body.length).toNat = body.length :=
      UInt16.toNat_ofNat_of_lt' (by rw [UInt16.size]; omega)
    have not_empty : ¬ (cmd :: body).length < 1 := by simp
    have first : (cmd :: body).getD 0 0 = cmd := rfl
    have rest : (cmd :: body).length - 1 = body.length := rfl
    simp only [fw_udp_cmd, if_neg not_empty, first, rest] at queued
    simp only [FwUdp.fw_udp_cmd, List.head?_cons, Option.some.injEq]
    by_cases start : cmd = 0x01
    · subst start
      rw [if_pos rfl] at queued
      split at queued
      · cases queued
      · rename_i long
        rw [List.length_cons] at long
        cases queued
        have clipped : (if body.length > FW_V2_MAX then FW_V2_MAX else body.length) = min body.length FW_V2_MAX := by
          split <;> omega
        have length : (UInt16.ofNat (min body.length FW_V2_MAX)).toNat = min body.length FW_V2_MAX :=
          UInt16.toNat_ofNat_of_lt' (by rw [UInt16.size]; omega)
        rw [clipped, if_pos rfl, if_neg (by omega)]
        refine ⟨rfl, .inl ?_, fun is_end => absurd is_end (by decide), _, rfl, ?_⟩
        · show (UInt16.ofNat _).toNat ≤ _
          omega
        · have clip : body.take (min body.length FW_V2_MAX) = body.take FW_V2_MAX := by
            rw [Nat.min_comm, ← List.take_take, List.take_length]
          have four : 4 ≤ FW_V2_MAX := by decide
          rw [start_task (by omega) (by omega) (by omega), length, clip]
    rw [if_neg start] at queued ⊢
    by_cases data : cmd = 0x02
    · subst data
      rw [if_pos rfl] at queued ⊢
      split at queued
      · cases queued
      · rename_i sized
        rw [List.length_cons] at sized
        have field : body.length ≤ FW_V2_MAX := Nat.le_trans (Nat.not_lt.mp (not_or.mp sized).2) (by decide)
        cases queued
        rw [if_neg (by omega)]
        exact ⟨rfl, .inl (Nat.le_trans (Nat.le_of_eq whole) field), fun is_end => absurd is_end (by decide), _, rfl, data_task field whole⟩
    rw [if_neg data] at queued ⊢
    by_cases v2 : cmd = 0x06
    · subst v2
      rw [if_pos rfl] at queued ⊢
      split at queued
      · cases queued
      · rename_i sized
        rw [List.length_cons] at sized
        have field : body.length ≤ FW_V2_MAX := Nat.not_lt.mp (not_or.mp sized).2
        cases queued
        rw [if_neg (by omega)]
        exact ⟨rfl, .inl (Nat.le_trans (Nat.le_of_eq whole) field), fun is_end => absurd is_end (by decide), _, rfl, data_v2_task (by omega) field whole⟩
    rw [if_neg v2] at queued ⊢
    by_cases end_ : cmd = 0x03
    · subst end_
      rw [if_pos rfl] at queued ⊢
      split at queued
      · cases queued
      · rename_i long
        rw [List.length_cons] at long
        cases queued
        rw [if_neg (by omega)]
        exact ⟨rfl, .inr rfl, fun _ => whole, _, rfl, end_task (by omega) whole⟩
    · rw [if_neg end_] at queued
      cases queued

end

/-- An END of at least the four bytes that it needs is queued, whatever its length. -/
theorem end_queued (body : List UInt8) (src : Peer) (long : 3 ≤ body.length) :
    fw_udp_cmd (0x03 :: body) src = some (memcpy (0x03 :: body) src (UInt16.ofNat body.length)) := by
  have not_empty : ¬ (0x03 :: body).length < 1 := by simp
  have first : (0x03 :: body).getD 0 0 = 0x03 := rfl
  have enough : ¬ (0x03 :: body).length < 4 := by
    rw [List.length_cons]
    omega
  simp only [fw_udp_cmd, if_neg not_empty, first, if_neg enough]
  rfl

/-- An END that is longer than the field is copied past its end. -/
theorem end_past {payload : List UInt8} {src : Peer} (end_ : payload.head? = some 0x03)
    (large : FW_V2_MAX + 1 < payload.length) :
    ∃ m, fw_udp_cmd (payload.take RX_SIZE) src = some m ∧ ¬ Fits m := by
  obtain ⟨body, rfl⟩ : ∃ body, payload = 0x03 :: body := by
    cases payload with
    | nil => cases end_
    | cons cmd body => exact ⟨body, by rw [Option.some.inj end_]⟩
  have length : (body.take 1407).length = min 1407 body.length := List.length_take
  rw [FW_V2_MAX_eq, List.length_cons] at large
  refine ⟨_, end_queued (body.take 1407) src (by omega), fun fits => ?_⟩
  have inside : (UInt16.ofNat (body.take 1407).length).toNat ≤ FW_V2_MAX := fits.inside
  rw [UInt16.toNat_ofNat_of_lt' (by rw [UInt16.size]; omega), length, FW_V2_MAX_eq] at inside
  omega

/-- A queued message fits its buffer, with its length noted and nothing else read, unless it is an
    END of more than 1405 bytes. In any case the worker reads what was copied, and does with it what
    the worker of the channel does. -/
theorem messages_fit (payload : List UInt8) (src : Peer) :
    ((∀ m, fw_udp_cmd (payload.take RX_SIZE) src = some m → Fits m) ↔
        ¬ (payload.head? = some 0x03 ∧ FW_V2_MAX + 1 < payload.length)) ∧
      ∀ m, fw_udp_cmd (payload.take RX_SIZE) src = some m →
        m.dlen.toNat = m.copied ∧
          ∃ msg, FwUdp.fw_udp_cmd (payload.take RX_SIZE) src = some msg ∧ fw_task m = some (FwUdp.fw_task msg) := by
  have short : (payload.take RX_SIZE).length ≤ RX_SIZE := List.length_take_le _ _
  have head : (payload.take RX_SIZE).head? = payload.head? := by
    rw [List.head?_take, if_neg (by decide)]
  refine ⟨⟨?_, ?_⟩, ?_⟩
  · rintro fits ⟨end_, large⟩
    obtain ⟨m, queued, past⟩ := @end_past payload src end_ large
    exact past (fits m queued)
  · intro small m queued
    obtain ⟨length, field, end_, msg, _, task⟩ := fw_udp_cmd_copied short queued
    refine ⟨?_, length, by rw [task]; rfl⟩
    rcases field with inside | is_end
    · exact inside
    · have copied := end_ is_end
      have upto : payload.length ≤ FW_V2_MAX + 1 := Nat.not_lt.mp fun large => small ⟨head ▸ is_end, large⟩
      rw [copied, List.length_take]
      omega
  · intro m queued
    obtain ⟨length, _, _, msg, same, task⟩ := fw_udp_cmd_copied short queued
    exact ⟨length, msg, same, task⟩

/-- An END with a body of 1405 bytes is copied one byte past the field. -/
theorem end_overruns :
    ¬ ∀ (payload : List UInt8) (src : Peer) (m : Msg), fw_udp_cmd (payload.take RX_SIZE) src = some m → Fits m := by
  intro always
  obtain ⟨m, queued, past⟩ := @end_past (0x03 :: List.replicate 1405 0) ⟨0, 0⟩ rfl
    (by rw [List.length_cons, List.length_replicate]; decide)
  exact past (always _ _ _ queued)

end IoEdgeHub.FwMessages
