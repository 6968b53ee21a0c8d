import IoEdgeHub.FwImage
import IoEdgeHub.Calls
import IoEdgeHub.Machine

/-!
The UDP upgrade channel (`fw/fw_udp.c`): which datagrams it takes, and the worker
that runs them against the upgrade core. The worker touches the core only
through the calls of `fw_upg.h` and through MCUboot's `boot_set_pending`, which is
not part of this repository and stays a parameter.

The channel's go-back-N transfer is safe under any delivery: whatever slices of
an image arrive, in whatever order, the core holds a prefix of the image and
every reply says how long it is.
-/
namespace IoEdgeHub.FwUpg
open IoEdgeHub.Nor

/-- The calls through which the channels reach the upgrade core and the boot
    loader's swap request. -/
inductive Call : Type → Type
  | start (total : Nat) (keyhash : Option (List UInt8)) : Call Int
  | write (data : List UInt8) : Call Int
  | abort : Call Unit
  | finish (crc_expect : UInt16) (check_crc : Bool) : Call Int
  | received : Call Nat
  | total : Call Nat
  | active : Call Bool
  /-- `boot_set_pending`: whether it returned 0. -/
  | set_pending (permanent : Bool) : Call Bool
  /-- `NVIC_SystemReset`. -/
  | reset : Call Unit

/-- What a call does. `boot_set_pending` writes to the flash that holds slot1. -/
def exec (fw_keyhash : List UInt8) (boot_set_pending : Bool → Dev → Bool × Dev) :
    {β : Type} → Call β → Upg → β × Upg
  | _, .start total keyhash, u => fw_upg_start fw_keyhash total keyhash u
  | _, .write data, u => fw_upg_write data u
  | _, .abort, u => ((), fw_upg_abort u)
  | _, .finish crc_expect check_crc, u => fw_upg_finish_ex fw_keyhash crc_expect check_crc u
  | _, .received, u => (fw_upg_received u, u)
  | _, .total, u => (fw_upg_total u, u)
  | _, .active, u => (fw_upg_active u, u)
  | _, .set_pending permanent, u => ((boot_set_pending permanent u.dev).1, ⟨u.s, (boot_set_pending permanent u.dev).2⟩)
  | _, .reset, u => ((), ⟨Session.zero, u.dev⟩)

end IoEdgeHub.FwUpg

namespace IoEdgeHub.FwUdp
open IoEdgeHub.Nor IoEdgeHub.W25qxx IoEdgeHub.Bytes IoEdgeHub.Crc IoEdgeHub.FwUpg IoEdgeHub.Calls

def FW_DATA_MAX : Nat := 511
def FW_V2_CHUNK : Nat := 1400
def FW_V2_MAX : Nat := 4 + FW_V2_CHUNK

inductive FwCmd
  | START
  | DATA
  | END
  | DATA_V2
  deriving DecidableEq, Repr

/-- Where a datagram came from and where its reply goes. -/
structure Peer where
  addr : Nat
  port : Nat
  deriving DecidableEq, Repr

/-- A queued command; `data` holds its `dlen` bytes. -/
structure FwMsg where
  cmd : FwCmd
  peer : Peer
  data : List UInt8
  deriving DecidableEq, Repr

structure FwReply where
  peer : Peer
  buf : List UInt8
  deriving DecidableEq, Repr

/-- The command that a datagram is queued as; `none` leaves it to the general
    command layer. END is taken at any length from 4 on. -/
def fw_udp_cmd (rx : List UInt8) (peer : Peer) : Option FwMsg :=
  match rx with
  | [] => none
  | cmd :: body =>
    if cmd = 0x01 then
      if body.length < 4 then none else some ⟨.START, peer, body.take FW_V2_MAX⟩
    else if cmd = 0x02 then
      if body.length < 1 ∨ body.length > FW_DATA_MAX then none else some ⟨.DATA, peer, body⟩
    else if cmd = 0x06 then
      if body.length < 5 ∨ body.length > FW_V2_MAX then none else some ⟨.DATA_V2, peer, body⟩
    else if cmd = 0x03 then
      if body.length < 3 then none else some ⟨.END, peer, body⟩
    else none

/-- The key hash of a START, when there is room for one behind the size. -/
def start_keyhash (data : List UInt8) : Option (List UInt8) :=
  if data.length ≥ 4 + 32 then some ((data.drop 4).take 32) else none

def start_status (rc : Int) : UInt8 := if rc = 0 then 1 else if rc = -2 then 2 else 0

/-- The write of a DATA_V2 command: only data that continues what has been received is taken. -/
def data_v2 (data : List UInt8) : Prog Call Unit := do
  if data.length ≥ 5 then
    let expected ← Prog.once .received
    if io_get_le32 data = expected then
      let _ ← Prog.once (.write (data.drop 4))

/-- The worker on one command. -/
def fw_task (m : FwMsg) : Prog Call FwReply := do
  match m.cmd with
  | .START =>
    let rc ← Prog.once (.start (io_get_le32 m.data) (start_keyhash m.data))
    return ⟨m.peer, 0x01 :: start_status rc :: put_le16 FW_V2_CHUNK⟩
  | .DATA =>
    let _ ← Prog.once (.write m.data)
    let got ← Prog.once .received
    return ⟨m.peer, 0x02 :: io_put_le32 got⟩
  | .DATA_V2 =>
    data_v2 m.data
    let got ← Prog.once .received
    return ⟨m.peer, 0x06 :: io_put_le32 got⟩
  | .END =>
    let rc ← Prog.once (.finish (UInt16.ofNat (get_le16 (m.data.drop 1))) true)
    if rc = 0 then
      let done ← Prog.once (.set_pending (byteAt m.data 0 = 0))
      return ⟨m.peer, [0x03, if done then 1 else 0]⟩
    else return ⟨m.peer, [0x03, 0]⟩

/-- One datagram, from its arrival to its reply. -/
def datagram (fw_keyhash : List UInt8) (boot_set_pending : Bool → Dev → Bool × Dev) (peer : Peer) (rx : List UInt8)
    (u : Upg) : Option FwReply × Upg :=
  match fw_udp_cmd rx peer with
  | none => (none, u)
  | some m =>
    match (fw_task m).run (exec fw_keyhash boot_set_pending) u with
    | (reply, u) => (some reply, u)

/-- The DATA_V2 datagram that carries `image[o, o + k)`. -/
def slice (image : List UInt8) (o k : Nat) : List UInt8 := 0x06 :: (io_put_le32 o ++ (image.drop o).take k)

/-- The slices of an image that the channel may carry. -/
structure Slice (image : List UInt8) (o k : Nat) : Prop where
  some_ : 1 ≤ k
  chunk : k ≤ FW_V2_CHUNK
  inside : o + k ≤ image.length

section
variable {fw_keyhash : List UInt8} {boot_set_pending : Bool → Dev → Bool × Dev} {peer : Peer}
variable {image : List UInt8} {o k : Nat} {u : Upg}

/-- The core after a slice has arrived. -/
def afterSlice (image : List UInt8) (o k : Nat) (u : Upg) : Upg :=
  if o % 2^32 = fw_upg_received u then (fw_upg_write ((image.drop o).take k) u).2 else u

/-- A slice is written when it continues what has been received, and dropped
    otherwise; the reply says how much has been received since. -/
theorem datagram_slice (valid : Slice image o k) :
    datagram fw_keyhash boot_set_pending peer (slice image o k) u =
      (some ⟨peer, 0x06 :: io_put_le32 (fw_upg_received (afterSlice image o k u))⟩, afterSlice image o k u) := by
  have length : ((image.drop o).take k).length = k := by
    have inside := valid.inside
    simp only [List.length_take, List.length_drop]
    omega
  have size : (io_put_le32 o ++ (image.drop o).take k).length = 4 + k := by simp [length]
  have taken : fw_udp_cmd (slice image o k) peer = some ⟨.DATA_V2, peer, io_put_le32 o ++ (image.drop o).take k⟩ := by
    have some_ := valid.some_
    have chunk := valid.chunk
    simp only [fw_udp_cmd, slice, size]
    rw [if_neg (by decide), if_neg (by decide), if_pos trivial, if_neg (by unfold FW_V2_MAX; omega)]
  have payload : (io_put_le32 o ++ (image.drop o).take k).drop 4 = (image.drop o).take k := rfl
  have some_ : 4 + k ≥ 5 := by have := valid.some_; omega
  simp only [datagram, taken, fw_task, data_v2, size, some_, if_true, ↓run_bind, ↓run_once, ↓run_pure, exec,
    io_get_put_le32, payload, afterSlice]
  by_cases next : o % 2^32 = fw_upg_received u
  · simp only [next, if_true, ↓run_bind, ↓run_once, ↓run_pure, exec]
  · simp only [next, if_false, ↓run_pure]

/-- Of an image, the core has taken the bytes up to `p` and works on. -/
structure Holds (image : List UInt8) (p : Nat) (u : Upg) : Prop where
  works : Working u
  acc : Accepted u (image.take p)
  total : u.s.total = image.length
  inside : p ≤ image.length

theorem Holds.received {p : Nat} (holds : Holds image p u) : fw_upg_received u = p := by
  rw [holds.acc.received, List.length_take, Nat.min_eq_left holds.inside]

/-- Whatever slice arrives, the core still holds a prefix, and no shorter one. -/
theorem slice_holds {p : Nat} (holds : Holds image p u) (valid : Slice image o k) :
    ∃ p', p ≤ p' ∧ Holds image p' (afterSlice image o k u) := by
  have inside := valid.inside
  unfold afterSlice
  rw [holds.received]
  split_ifs with next
  · have size := holds.acc.size
    rw [holds.total] at size
    unfold SLOT1_SIZE at size
    have same : o = p := by omega
    subst same
    have length : ((image.drop o).take k).length = k := by
      simp only [List.length_take, List.length_drop]
      omega
    have got : (image.take o).length = o := List.length_take_of_le (by omega)
    have extended : image.take o ++ (image.drop o).take k = image.take (o + k) := List.take_add.symm
    obtain ⟨done, works⟩ := @fw_upg_write_working u (image.take o) ((image.drop o).take k) holds.works holds.acc
      (by rw [length, got, holds.total]; exact inside)
    obtain ⟨total, _, taken | refused⟩ := @fw_upg_write_accepted u (image.take o) ((image.drop o).take k) holds.acc
      (by omega)
    · rw [extended] at taken
      exact ⟨o + k, by omega, works, taken.2, total.trans holds.total, inside⟩
    · exact absurd done refused.1
  · exact ⟨p, Nat.le_refl p, holds⟩

/-- The core after the given slices have arrived. -/
def deliver (fw_keyhash : List UInt8) (boot_set_pending : Bool → Dev → Bool × Dev) (peer : Peer) (image : List UInt8)
    (slices : List (Nat × Nat)) (u : Upg) : Upg :=
  slices.foldl (fun u s => (datagram fw_keyhash boot_set_pending peer (slice image s.1 s.2) u).2) u

/-- Every delivery of slices of an image after a start leaves a prefix of it in
    the core; one more slice never shortens it, its reply carries its length, and
    the session never fails. -/
theorem data_v2_delivery {keyhash : Option (List UInt8)} (works : Working u)
    (started : (fw_upg_start fw_keyhash image.length keyhash u).1 = 0) {delivered : List (Nat × Nat)}
    (slices : ∀ s ∈ delivered, Slice image s.1 s.2) (next : Slice image o k) :
    let before := deliver fw_keyhash boot_set_pending peer image delivered
      (fw_upg_start fw_keyhash image.length keyhash u).2
    let arrival := datagram fw_keyhash boot_set_pending peer (slice image o k) before
    ∃ p p', p ≤ p' ∧ p' ≤ image.length ∧
      Accepted before (image.take p) ∧ fw_upg_received before = p ∧
      Accepted arrival.2 (image.take p') ∧ fw_upg_received arrival.2 = p' ∧
      arrival.1 = some ⟨peer, 0x06 :: io_put_le32 p'⟩ ∧ fw_upg_failed arrival.2 = false := by
  intro before arrival
  have admitted : Admitted fw_keyhash image.length keyhash u := by
    by_contra refused
    exact (fw_upg_start_refused refused).1 started
  obtain ⟨acc, total⟩ := fw_upg_start_accepted started
  have first : ∃ p, Holds image p (fw_upg_start fw_keyhash image.length keyhash u).2 :=
    ⟨0, (fw_upg_start_working works admitted).2, by simpa using acc, total, Nat.zero_le _⟩
  obtain ⟨p, holds⟩ : ∃ p, Holds image p before := by
    refine @Machine.invariant _ _ _ _ (fun u => ∃ p, Holds image p u) ?_ _ first _
      (@Machine.meets_of_all _ _ _ (fun _ s => Slice image s.1 s.2) _ _ fun s member _ => slices s member)
    rintro u s ⟨p, holds⟩ valid
    obtain ⟨p', _, holds'⟩ := slice_holds holds valid
    rw [datagram_slice valid]
    exact ⟨p', holds'⟩
  obtain ⟨p', grown, holds'⟩ := slice_holds holds next
  have result : arrival = _ := datagram_slice next
  rw [result, holds'.received]
  exact ⟨p, p', grown, holds'.inside, holds.acc, holds.received, holds'.acc, rfl, rfl, holds'.acc.unfailed⟩

/-- A second slice that overlaps the first is dropped, and its reply asks for what comes next. -/
theorem data_v2_delivery_overlap :
    let image := smallImage smallHash
    let before := deliver smallHash (fun _ d => (true, d)) ⟨0, 8600⟩ image [(0, 400)]
      (fw_upg_start smallHash image.length (some smallHash) idle).2
    let arrival := datagram smallHash (fun _ d => (true, d)) ⟨0, 8600⟩ (slice image 100 452) before
    (∃ p', Accepted arrival.2 (image.take p') ∧ arrival.1 = some ⟨⟨0, 8600⟩, 0x06 :: io_put_le32 p'⟩) ∧
      arrival.1 = some ⟨⟨0, 8600⟩, [0x06, 0x90, 0x01, 0, 0]⟩ := by
  intro image before arrival
  obtain ⟨p, p', _, _, _, _, acc, _, reply, _⟩ := @data_v2_delivery smallHash (fun _ d => (true, d)) ⟨0, 8600⟩ image
    100 452 idle (some smallHash) ⟨rfl, rfl⟩ (by decide +kernel) [(0, 400)]
    (by intro s member; obtain rfl := List.mem_singleton.mp member; exact ⟨by decide, by decide, by decide +kernel⟩)
    ⟨by decide, by decide, by decide +kernel⟩
  exact ⟨⟨p', acc, reply⟩, by decide +kernel⟩

end

end IoEdgeHub.FwUdp
