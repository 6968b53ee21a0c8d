import IoEdgeHub.CanAgreement

/-!
The CAN upgrade tool of the host (`tools/firmware_upgrade_can.py`) on a bus that
loses frames: each way any frame may be lost, and a device that is busy loses
the frames that no longer fit into its receive queue. Nothing is doubled or
reordered.

The tool never compares the offset that an acknowledgement carries with what it
has sent, and CONFIRM carries no checksum. That it still knows what it has
installed is argued here for any device that keeps the protocol's rules: frames
are acknowledged at multiples of 512 bytes only, and the tool sends no more than
512 bytes ahead of an acknowledgement.
-/
namespace IoEdgeHub.CanTool
open IoEdgeHub.Bytes IoEdgeHub.FwUpg IoEdgeHub.CanProtocol
open IoEdgeHub.CanAgreement (replies)
open IoEdgeHub.BootCan (data_ack)

def ACK_INTERVAL_FRAMES : Nat := 64
def IMAGE_MAGIC : Nat := 0x96F3B83D

/-- The key hash TLV among the entries from `off` on. Reading past the image, or
    not finding one, ends the tool. -/
def keyhash_scan (img : List UInt8) (off stop : Nat) : Option (List UInt8) :=
  if off + 4 ≤ stop then
    if off + 4 > img.length then none
    else if get_le16 (img.drop off) = 0x0001 ∧ get_le16 (img.drop (off + 2)) = 32 then some ((img.drop (off + 4)).take 32)
    else keyhash_scan img (off + (4 + (get_le16 (img.drop (off + 2)) + 3)) / 4 * 4) stop
  else none
termination_by stop - off
decreasing_by omega

def keyhash_from_image (img : List UInt8) : Option (List UInt8) :=
  if img.length < 16 ∨ io_get_le32 img ≠ IMAGE_MAGIC then none
  else
    let tlv_off := get_le16 (img.drop 8) + io_get_le32 (img.drop 12)
    if img.length < tlv_off + 4 ∨ get_le16 (img.drop tlv_off) ≠ 0x6907 then none
    else keyhash_scan img (tlv_off + 4) (tlv_off + get_le16 (img.drop (tlv_off + 2)))

def keyhash_chunk (keyhash : List UInt8) (seq : Nat) : List UInt8 := (keyhash.drop (seq * 7)).take 7

def send_keyhash (keyhash : List UInt8) : List Frame :=
  (List.range 5).map fun seq =>
    ⟨CAN_ID_KEYHASH, UInt8.ofNat seq :: (keyhash_chunk keyhash seq ++ List.replicate (7 - (keyhash_chunk keyhash seq).length) 0)⟩

def rebootFrame : Frame := ⟨CAN_ID_CMD, io_put_le32 FW_CMD_REBOOT ++ io_put_le32 0⟩

/-- Which reply the tool waits for: the one to START, the one to the block of data
    that ends at `off`, the one to the tail of the image, the one to CONFIRM; or
    that it has seen the upgrade confirmed, or has given up. -/
inductive Phase
  | start
  | block (off : Nat)
  | tail
  | confirm
  | confirmed
  | stopped
  deriving DecidableEq, Repr

def waiting : Phase → Bool
  | .confirmed | .stopped => false
  | _ => true

/-- What the tool goes on with, and the frames it sends. -/
abbrev Move := Phase × List Frame

section
variable (img : List UInt8) (test reboots : Bool)

def confirm_arg : Nat := if test then 0 else 1

def confirm : Move := (.confirm, [confirmFrame (confirm_arg test)])

/-- The loop of `send_data` from `off` on, with `n_in_block` frames sent since the last reply. -/
def send_data (off n_in_block : Nat) : Move :=
  if off + 8 ≤ img.length then
    if n_in_block + 1 ≥ ACK_INTERVAL_FRAMES ∨ off + 8 ≥ img.length then
      (.block (off + 8), [dataFrame ((img.drop off).take 8)])
    else
      let r := send_data (off + 8) (n_in_block + 1)
      (r.1, dataFrame ((img.drop off).take 8) :: r.2)
  else if off < img.length then (.tail, [dataFrame (img.drop off)])
  else confirm test
termination_by img.length - off

/-- The tool on the code and the argument of a reply. -/
def replied (code arg : Nat) : Phase → Move
  | .start => if code ≠ FW_CODE_OFFSET ∨ arg ≠ 0 then (.stopped, []) else send_data img test 0 0
  | .block off =>
    if code = FW_CODE_UPDATE_SUCCESS then confirm test
    else if code ≠ FW_CODE_OFFSET then (.stopped, [])
    else send_data img test off 0
  | .tail => if code = FW_CODE_UPDATE_SUCCESS ∨ code = FW_CODE_OFFSET then confirm test else (.stopped, [])
  | .confirm =>
    if code ≠ FW_CODE_CONFIRM ∨ arg ≠ FW_CODE_CONFIRM_MAGIC then (.stopped, [])
    else (.confirmed, if reboots then [rebootFrame] else [])
  | p => (p, [])

/-- The tool on the next frame that reaches it. -/
def read (r : Frame) (p : Phase) : Move :=
  if r.id ≠ CAN_ID_REPLY then (p, [])
  else if r.data.length < 8 then (.stopped, [])
  else replied img test reboots (command r.data) (argument r.data) p

end

/-- The replies that end the tool. -/
def refusals : List Frame :=
  [fw_reply FW_CODE_FLASH_ERROR 0, fw_reply FW_CODE_TRANSFER_ERROR 0, fw_reply FW_CODE_KEYHASH_ERROR 0]

/-- The replies of a device that turns a frame down. -/
def Refused (out : List Frame) : Prop := ∃ r ∈ refusals, replies out = [r]

/-- A device that takes upgrades: what becomes of its receive queue when a frame
    arrives, how it handles a frame and which of the frames still queued it keeps
    behind that. `Open size got`: it has a session of `size` bytes and has stored
    `got`; `Shut`: it takes no more data; `Holds arg img`: it has installed the image. -/
structure Receiver (σ : Type) where
  arrive : List Frame → Frame → List Frame
  handle : Frame → σ → List Frame × σ
  drain : Frame → σ → List Frame → List Frame
  Open : Nat → List UInt8 → σ → Prop
  Shut : σ → Prop
  Holds : Nat → List UInt8 → σ → Prop
  arrive_loses : ∀ q m, (arrive q m).Sublist (q ++ [m])
  drain_loses : ∀ m s q, (drain m s q).Sublist q
  key : ∀ m s, m.id = CAN_ID_KEYHASH → replies (handle m s).1 = []
  start : ∀ size s, size < 2^32 →
    (replies (handle (startFrame size) s).1 = [fw_reply FW_CODE_OFFSET 0] ∧ Open size [] (handle (startFrame size) s).2) ∨
      Refused (handle (startFrame size) s).1
  data : ∀ size got d s, Open size got s → 1 ≤ d.length → d.length ≤ 8 → got.length + d.length ≤ size →
    (replies (handle (dataFrame d) s).1 = data_ack (got.length + d.length) size ∧
        Open size (got ++ d) (handle (dataFrame d) s).2) ∨
      (Refused (handle (dataFrame d) s).1 ∧ Shut (handle (dataFrame d) s).2)
  shut : ∀ d s, Shut s → Refused (handle (dataFrame d) s).1 ∧ Shut (handle (dataFrame d) s).2
  confirm : ∀ size got arg s, arg < 2^32 → Open size got s →
    (replies (handle (confirmFrame arg) s).1 = [fw_reply FW_CODE_CONFIRM FW_CODE_CONFIRM_MAGIC] ∧
        got.length = size ∧ Holds arg got (handle (confirmFrame arg) s).2) ∨
      Refused (handle (confirmFrame arg) s).1
  reboot : ∀ arg img s, Holds arg img s → Holds arg img (handle rebootFrame s).2

/-- `bus` and `back` are the frames on their way to the device and to the tool. -/
structure Sys (σ : Type) where
  phase : Phase
  bus : List Frame
  queue : List Frame := []
  dev : σ
  back : List Frame := []

/-- What happens: the oldest frame on the bus reaches the device's queue or is lost,
    the device handles the oldest frame of its queue, the oldest frame on its way
    back reaches the tool or is lost, or the time the tool waits is over. -/
inductive Event
  | arrive
  | lose
  | handle
  | read
  | loseBack
  | timeout
  deriving DecidableEq, Repr

section
variable {σ : Type} (R : Receiver σ) (img : List UInt8) (test reboots : Bool)

/-- The tool behind its first frames, if it gets that far. -/
def launch (dev : σ) : Sys σ :=
  match keyhash_from_image img with
  | none => { phase := .stopped, bus := [], dev := dev }
  | some kh =>
    if img.length < 2^32 then { phase := .start, bus := send_keyhash kh ++ [startFrame img.length], dev := dev }
    else { phase := .stopped, bus := send_keyhash kh, dev := dev }

def handled (m : Frame) (rest : List Frame) (s : Sys σ) : Sys σ :=
  { s with
    queue := R.drain m s.dev rest
    dev := (R.handle m s.dev).2
    back := s.back ++ (R.handle m s.dev).1 }

/-- The tool moves on. -/
def moved (m : Move) (s : Sys σ) : Sys σ := { s with phase := m.1, bus := s.bus ++ m.2 }

def step (s : Sys σ) : Event → Sys σ
  | .arrive =>
    match s.bus with
    | [] => s
    | m :: rest => { s with bus := rest, queue := R.arrive s.queue m }
  | .lose => { s with bus := s.bus.tail }
  | .handle =>
    match s.queue with
    | [] => s
    | m :: rest => handled R m rest s
  | .read =>
    match s.back with
    | [] => s
    | r :: rest => if waiting s.phase then moved (read img test reboots r s.phase) { s with back := rest } else s
  | .loseBack => { s with back := s.back.tail }
  | .timeout => if waiting s.phase then { s with phase := .stopped } else s

end

theorem replies_append (a b : List Frame) : replies (a ++ b) = replies a ++ replies b := List.filter_append a b

theorem replies_cons {r : Frame} (rest : List Frame) (isReply : r.id = CAN_ID_REPLY) :
    replies (r :: rest) = r :: replies rest := by
  rw [replies, List.filter_cons_of_pos (by simpa using isReply)]
  rfl

theorem replies_skip {r : Frame} (rest : List Frame) (other : ¬ r.id = CAN_ID_REPLY) :
    replies (r :: rest) = replies rest := by
  rw [replies, List.filter_cons_of_neg (by simpa using other)]
  rfl

theorem refusals_id : ∀ r ∈ refusals, r.id = CAN_ID_REPLY := by decide

section
variable {img : List UInt8} {test reboots : Bool}

theorem read_skip {r : Frame} (p : Phase) (other : ¬ r.id = CAN_ID_REPLY) : read img test reboots r p = (p, []) := by
  rw [read, if_pos other]

/-- The tool on a reply of the device. -/
theorem read_reply {code arg : Nat} (p : Phase) (word : code < 2^32) (word' : arg < 2^32) :
    read img test reboots (fw_reply code arg) p = replied img test reboots code arg p := by
  have first : command (fw_reply code arg).data = code := (io_get_put_le32 code _).trans (Nat.mod_eq_of_lt word)
  have second : argument (fw_reply code arg).data = arg := by
    have read := io_get_put_le32 arg []
    rw [List.append_nil, Nat.mod_eq_of_lt word'] at read
    exact read
  rw [read, if_neg (by simp [fw_reply]), if_neg (by simp [fw_reply]), first, second]

/-- A reply that turns something down ends a tool that waits. -/
theorem read_refused {r : Frame} {p : Phase} (refused : r ∈ refusals) (busy : waiting p = true) :
    read img test reboots r p = (.stopped, []) := by
  simp only [refusals, List.mem_cons, List.not_mem_nil, or_false] at refused
  rcases refused with rfl | rfl | rfl <;> rw [read_reply p (by decide) (by decide)] <;> cases p <;>
    first
      | rfl
      | cases busy

end

/-- The frames that the tool sends up to the next reply it waits for, from `off` on:
    up to the end of the image or of 512 bytes, whatever comes first. -/
structure Block (img : List UInt8) (off n_in_block stop : Nat) (chunks : List (List UInt8)) : Prop where
  sizes : ∀ c ∈ chunks, 1 ≤ c.length ∧ c.length ≤ 8
  bytes : img.take off ++ chunks.flatten = img.take stop
  more : off < stop
  high : stop ≤ img.length
  near : stop + 8 * n_in_block ≤ off + 512
  end_ : stop + 8 * n_in_block = off + 512 ∨ stop = img.length

/-- Where the data ends that the tool has sent. -/
def sent_to (img : List UInt8) : Phase → Nat
  | .block off => off
  | _ => img.length

/-- Whether the tool waits for the reply to data. -/
def Transferring : Phase → Prop
  | .block _ | .tail => True
  | _ => False

theorem take_slice (img : List UInt8) (off n : Nat) : img.take off ++ (img.drop off).take n = img.take (off + n) := by
  rw [List.take_add]

/-- Before the end of the image there is a block to send. -/
theorem send_data_block {img : List UInt8} {test : Bool} {off n_in_block : Nat} (more : off < img.length)
    (room : n_in_block < ACK_INTERVAL_FRAMES) :
    ∃ p chunks, send_data img test off n_in_block = (p, chunks.map dataFrame) ∧ Transferring p ∧
      Block img off n_in_block (sent_to img p) chunks := by
  unfold ACK_INTERVAL_FRAMES at room
  fun_induction send_data img test off n_in_block with
  | case1 off n_in_block fits last =>
    refine ⟨_, [(img.drop off).take 8], rfl, trivial, ?_⟩
    unfold ACK_INTERVAL_FRAMES at last
    refine ⟨by simp; omega, ?_, by simp [sent_to], fits, by simp only [sent_to]; omega, by simp only [sent_to]; omega⟩
    rw [List.flatten_cons, List.flatten_nil, List.append_nil, take_slice]
    rfl
  | case2 off n_in_block fits next r ih =>
    unfold ACK_INTERVAL_FRAMES at next
    obtain ⟨p, chunks, result, moving, block⟩ := ih (by omega) (by omega)
    obtain ⟨sizes, bytes, further, high, near, end_⟩ := block
    refine ⟨p, (img.drop off).take 8 :: chunks, ?_, moving, ⟨?_, ?_, by omega, high, by omega, by omega⟩⟩
    · simp only [r, result]
      rfl
    · refine List.forall_mem_cons.mpr ⟨?_, sizes⟩
      simp only [List.length_take, List.length_drop]
      omega
    · rw [List.flatten_cons, ← List.append_assoc, take_slice, bytes]
  | case3 off n_in_block short inside =>
    refine ⟨.tail, [img.drop off], rfl, trivial, ⟨by simp; omega, ?_, inside, Nat.le_refl _, ?_, .inr rfl⟩⟩
    · simp [sent_to]
    · simp only [sent_to]
      omega
  | case4 off n_in_block _ done => exact absurd more done

/-! ### What is under way -/

/-- The data between one reply and the next. -/
structure Window (img : List UInt8) (base stop : Nat) : Prop where
  aligned : base % ACK_INTERVAL = 0
  more : base < stop
  near : stop ≤ base + ACK_INTERVAL
  high : stop ≤ img.length
  end_ : stop = base + ACK_INTERVAL ∨ stop = img.length

section
variable {σ : Type} (R : Receiver σ) (img : List UInt8) (test : Bool)
variable (out ans : List Frame) (dev : σ)

/-- `out` are the frames that are still to reach the device's handler, in order, and
    `ans` the replies that are still to reach the tool. START is still to come, was
    lost, or has been answered. -/
def Starting : Prop :=
  (ans = [] ∧ ∃ ks, (∀ m ∈ ks, m.id = CAN_ID_KEYHASH) ∧ (out = ks ++ [startFrame img.length] ∨ out = ks)) ∨
    (out = [] ∧ ((ans.Sublist [fw_reply FW_CODE_OFFSET 0] ∧ R.Open img.length [] dev) ∨
      ∃ r ∈ refusals, ans.Sublist [r]))

/-- Either the device has stored what the tool has sent up to the frames under way;
    or some of the data since the last reply is lost, and the block will not be
    acknowledged; or the device has turned a frame down. -/
def Sending (base stop : Nat) : Prop :=
  ∃ chunks : List (List UInt8), out = chunks.map dataFrame ∧ (∀ c ∈ chunks, 1 ≤ c.length ∧ c.length ≤ 8) ∧
    ((∃ got, R.Open img.length got dev ∧ base ≤ got.length ∧
        (got ++ chunks.flatten = img.take stop ∨ got.length + chunks.flatten.length < stop) ∧
        ans.Sublist (if got.length = stop then data_ack stop img.length else [])) ∨
      (R.Shut dev ∧ ∀ r ∈ ans, r ∈ refusals))

/-- CONFIRM reaches a device that has all of the image, or is lost. -/
def Confirming : Prop :=
  (out = [confirmFrame (confirm_arg test)] ∧ ans = [] ∧ R.Open img.length img dev) ∨
    (out = [] ∧ ((ans.Sublist [fw_reply FW_CODE_CONFIRM FW_CODE_CONFIRM_MAGIC] ∧ R.Holds (confirm_arg test) img dev) ∨
      ∃ r ∈ refusals, ans.Sublist [r]))

/-- What the tool waits for fits what is under way and what the device has done. -/
structure Underway (p : Phase) : Prop where
  start : p = .start → Starting R img out ans dev
  data : Transferring p → ∃ base, Window img base (sent_to img p) ∧ Sending R img out ans dev base (sent_to img p)
  confirm : p = .confirm → Confirming R img test out ans dev
  confirmed : p = .confirmed → R.Holds (confirm_arg test) img dev ∧ ∀ m ∈ out, m = rebootFrame

end

section
variable {σ : Type} {R : Receiver σ} {img : List UInt8} {test reboots : Bool}
variable {out out' ans ans' : List Frame} {dev : σ} {p : Phase}

theorem underway_stopped : Underway R img test out ans dev .stopped :=
  ⟨by simp, fun moving => moving.elim, by simp, by simp⟩

theorem sublist_nil_or {α : Type} {xs : List α} {x : α} (le : xs.Sublist [x]) : xs = [] ∨ xs = [x] := by
  rcases List.sublist_singleton.mp le with rfl | rfl
  · exact .inl rfl
  · exact .inr rfl

theorem sublist_one {α : Type} {xs : List α} {x y : α} (le : (y :: xs).Sublist [x]) : y = x ∧ xs = [] := by
  rcases sublist_nil_or le with none_ | one
  · cases none_
  · exact List.cons_eq_cons.mp one

/-- Part of what is under way: all of it, or less. -/
theorem flatten_sublist {cs ds : List (List UInt8)} (part : ds.Sublist cs) (some_ : ∀ c ∈ cs, 1 ≤ c.length) :
    ds = cs ∨ ds.flatten.length < cs.flatten.length := by
  induction part with
  | slnil => exact .inl rfl
  | @cons ds cs c _ ih =>
    have here := some_ c (by simp)
    rcases ih fun d member => some_ d (by simp [member]) with rfl | less
    · exact .inr (by simp only [List.flatten_cons, List.length_append]; omega)
    · exact .inr (by simp only [List.flatten_cons, List.length_append]; omega)
  | @cons_cons ds cs c _ ih =>
    rcases ih fun d member => some_ d (by simp [member]) with rfl | less
    · exact .inl rfl
    · exact .inr (by simp only [List.flatten_cons, List.length_append]; omega)

private theorem starting_loses (inv : Starting R img out ans dev) (fewer : out'.Sublist out) (quieter : ans'.Sublist ans) :
    Starting R img out' ans' dev := by
  rcases inv with ⟨rfl, ks, keys, shape⟩ | ⟨rfl, answered⟩
  · refine .inl ⟨List.eq_nil_of_sublist_nil quieter, ?_⟩
    have among {ks' : List Frame} (part : ks'.Sublist ks) : ∀ m ∈ ks', m.id = CAN_ID_KEYHASH := fun m member =>
      keys m (part.subset member)
    rcases shape with rfl | rfl
    · obtain ⟨front, back, rfl, part, last⟩ := List.sublist_append_iff.mp fewer
      rcases sublist_nil_or last with rfl | rfl
      · exact ⟨front, among part, .inr (List.append_nil _)⟩
      · exact ⟨front, among part, .inl rfl⟩
    · exact ⟨out', among fewer, .inr rfl⟩
  · refine .inr ⟨List.eq_nil_of_sublist_nil fewer, ?_⟩
    rcases answered with ⟨ack, open_⟩ | ⟨r, refused, part⟩
    · exact .inl ⟨quieter.trans ack, open_⟩
    · exact .inr ⟨r, refused, quieter.trans part⟩

private theorem sending_loses {base stop : Nat} (inv : Sending R img out ans dev base stop) (fewer : out'.Sublist out)
    (quieter : ans'.Sublist ans) (inside : stop ≤ img.length) : Sending R img out' ans' dev base stop := by
  obtain ⟨chunks, rfl, sizes, state⟩ := inv
  obtain ⟨chunks', part, rfl⟩ := List.sublist_map_iff.mp fewer
  refine ⟨chunks', rfl, fun c member => sizes c (part.subset member), ?_⟩
  rcases state with ⟨got, open_, low, sent, acks⟩ | ⟨shut, refused⟩
  · refine .inl ⟨got, open_, low, ?_, quieter.trans acks⟩
    rcases flatten_sublist part fun c member => (sizes c member).1 with rfl | less
    · exact sent
    · right
      rcases sent with all | some_
      · have length := congrArg List.length all
        rw [List.length_append, List.length_take] at length
        omega
      · omega
  · exact .inr ⟨shut, fun r member => refused r (quieter.subset member)⟩

private theorem confirming_loses (inv : Confirming R img test out ans dev) (fewer : out'.Sublist out)
    (quieter : ans'.Sublist ans) : Confirming R img test out' ans' dev := by
  rcases inv with ⟨rfl, rfl, open_⟩ | ⟨rfl, answered⟩
  · obtain rfl := List.eq_nil_of_sublist_nil quieter
    rcases sublist_nil_or fewer with rfl | rfl
    · exact .inr ⟨rfl, .inr ⟨_, List.mem_cons_self, List.nil_sublist _⟩⟩
    · exact .inl ⟨rfl, rfl, open_⟩
  · refine .inr ⟨List.eq_nil_of_sublist_nil fewer, ?_⟩
    rcases answered with ⟨ack, holds⟩ | ⟨r, refused, part⟩
    · exact .inl ⟨quieter.trans ack, holds⟩
    · exact .inr ⟨r, refused, quieter.trans part⟩

/-- Frames that are lost, either way. -/
theorem underway_loses (inv : Underway R img test out ans dev p) (fewer : out'.Sublist out) (quieter : ans'.Sublist ans) :
    Underway R img test out' ans' dev p := by
  refine ⟨fun start => starting_loses (inv.start start) fewer quieter, fun moving => ?_,
    fun confirm => confirming_loses (inv.confirm confirm) fewer quieter, fun confirmed => ?_⟩
  · obtain ⟨base, window, sending⟩ := inv.data moving
    exact ⟨base, window, sending_loses sending fewer quieter window.high⟩
  · obtain ⟨holds, reboots⟩ := inv.confirmed confirmed
    exact ⟨holds, fun m member => reboots m (fewer.subset member)⟩

private theorem starting_handles {m : Frame} (small : img.length < 2^32) (inv : Starting R img (m :: out) ans dev) :
    Starting R img out (ans ++ replies (R.handle m dev).1) (R.handle m dev).2 := by
  rcases inv with ⟨rfl, ks, keys, shape⟩ | ⟨nothing, _⟩
  · have key {k : Frame} {ks : List Frame} (all : ∀ m ∈ k :: ks, m.id = CAN_ID_KEYHASH) :
        replies (R.handle k dev).1 = [] ∧ ∀ m ∈ ks, m.id = CAN_ID_KEYHASH :=
      ⟨R.key k dev (all k (by simp)), fun m member => all m (by simp [member])⟩
    cases ks with
    | nil =>
      rcases shape with last | none_
      · obtain ⟨rfl, rfl⟩ := List.cons_eq_cons.mp last
        refine .inr ⟨rfl, ?_⟩
        rcases R.start img.length dev small with ⟨ack, open_⟩ | ⟨r, refused, reply⟩
        · exact .inl ⟨by rw [ack]; exact List.Sublist.refl _, open_⟩
        · exact .inr ⟨r, refused, by rw [reply]; exact List.Sublist.refl _⟩
      · cases none_
    | cons k ks =>
      obtain ⟨silent, others⟩ := key keys
      rcases shape with shape | shape <;> obtain ⟨rfl, rfl⟩ := List.cons_eq_cons.mp shape <;> rw [silent]
      · exact .inl ⟨rfl, ks, others, .inl rfl⟩
      · exact .inl ⟨rfl, out, others, .inr rfl⟩
  · cases nothing

/-- Between two acknowledgements the device says nothing about the data it has taken. -/
theorem data_ack_between {base stop n size : Nat} (aligned : base % ACK_INTERVAL = 0) (after : base < n) (before : n < stop)
    (near : stop ≤ base + ACK_INTERVAL) (high : stop ≤ size) : data_ack n size = [] := by
  unfold ACK_INTERVAL at aligned near
  rw [data_ack, if_neg (by omega), if_neg (by unfold ACK_INTERVAL; omega)]

private theorem sending_handles {m : Frame} {base stop : Nat} (window : Window img base stop)
    (inv : Sending R img (m :: out) ans dev base stop) :
    Sending R img out (ans ++ replies (R.handle m dev).1) (R.handle m dev).2 base stop := by
  obtain ⟨chunks, shape, sizes, state⟩ := inv
  cases chunks with
  | nil => cases shape
  | cons c chunks =>
    obtain ⟨rfl, rfl⟩ := List.cons_eq_cons.mp shape
    obtain ⟨some_, short⟩ := sizes c (by simp)
    have high := window.high
    refine ⟨chunks, rfl, fun c member => sizes c (by simp [member]), ?_⟩
    have refuse {o : List Frame} (silent : ∀ r ∈ ans, r ∈ refusals) (refused : Refused o) :
        ∀ r ∈ ans ++ replies o, r ∈ refusals := by
      obtain ⟨r, among, reply⟩ := refused
      rw [reply]
      intro r' member
      rcases List.mem_append.mp member with old | new
      · exact silent r' old
      · exact List.mem_singleton.mp new ▸ among
    rcases state with ⟨got, open_, low, sent, acks⟩ | ⟨shut, refused⟩
    · rw [List.flatten_cons, List.length_append] at sent
      have short_of : got.length + c.length ≤ stop := by
        rcases sent with all | some_
        · have length := congrArg List.length all
          simp only [List.length_append, List.length_take] at length
          omega
        · omega
      rw [if_neg (by omega)] at acks
      obtain rfl := List.eq_nil_of_sublist_nil acks
      rw [List.nil_append]
      rcases R.data img.length got c dev open_ some_ short (by omega) with ⟨ack, next⟩ | ⟨declined, shut⟩
      · refine .inl ⟨got ++ c, next, by simp; omega, ?_, ?_⟩
        · rcases sent with all | less
          · exact .inl (by rw [← all, List.append_assoc])
          · exact .inr (by rw [List.length_append]; omega)
        · rw [ack, List.length_append]
          split_ifs with complete
          · rw [complete]
          · rw [data_ack_between window.aligned (by omega) (by omega) window.near high]
      · exact .inr ⟨shut, refuse (by simp) declined⟩
    · obtain ⟨declined, still⟩ := R.shut c dev shut
      exact .inr ⟨still, refuse refused declined⟩

private theorem confirming_handles {m : Frame} (inv : Confirming R img test (m :: out) ans dev) :
    Confirming R img test out (ans ++ replies (R.handle m dev).1) (R.handle m dev).2 := by
  rcases inv with ⟨shape, rfl, open_⟩ | ⟨nothing, _⟩
  · obtain ⟨rfl, rfl⟩ := List.cons_eq_cons.mp shape
    refine .inr ⟨rfl, ?_⟩
    rcases R.confirm img.length img (confirm_arg test) dev (by cases test <;> decide) open_ with ⟨reply, _, holds⟩ | ⟨r, refused, reply⟩
    · exact .inl ⟨by rw [reply]; exact List.Sublist.refl _, holds⟩
    · exact .inr ⟨r, refused, by rw [reply]; exact List.Sublist.refl _⟩
  · cases nothing

/-- The device handles a frame. -/
theorem underway_handles {m : Frame} (small : img.length < 2^32) (inv : Underway R img test (m :: out) ans dev p) :
    Underway R img test out (ans ++ replies (R.handle m dev).1) (R.handle m dev).2 p := by
  refine ⟨fun start => starting_handles small (inv.start start), fun moving => ?_,
    fun confirm => confirming_handles (inv.confirm confirm), fun confirmed => ?_⟩
  · obtain ⟨base, window, sending⟩ := inv.data moving
    exact ⟨base, window, sending_handles window sending⟩
  · obtain ⟨holds, reboots⟩ := inv.confirmed confirmed
    obtain rfl := reboots m (by simp)
    exact ⟨R.reboot _ _ _ holds, fun m member => reboots m (by simp [member])⟩

/-- The tool behind an acknowledgement of everything it has sent. -/
private theorem send_data_underway {off : Nat} (aligned : off % ACK_INTERVAL = 0) (more : off < img.length)
    (open_ : R.Open img.length (img.take off) dev) :
    Underway R img test (send_data img test off 0).2 [] dev (send_data img test off 0).1 := by
  obtain ⟨p, chunks, result, moving, block⟩ := @send_data_block img test off 0 more (by decide)
  have near := block.near
  have end_ := block.end_
  rw [result]
  refine ⟨?_, fun _ => ⟨off, ⟨aligned, block.more, near, block.high, end_⟩, chunks, rfl, block.sizes, .inl ?_⟩, ?_, ?_⟩
  · rintro rfl
    exact moving.elim
  · refine ⟨img.take off, open_, by rw [List.length_take]; omega, .inl block.bytes, List.nil_sublist _⟩
  · rintro rfl
    exact moving.elim
  · rintro rfl
    exact moving.elim

private theorem confirm_underway (open_ : R.Open img.length img dev) :
    Underway R img test (CanTool.confirm test).2 [] dev (CanTool.confirm test).1 :=
  ⟨by simp [CanTool.confirm], fun moving => moving.elim, fun _ => .inl ⟨rfl, rfl, open_⟩, by simp [CanTool.confirm]⟩

private theorem read_refused_underway {r : Frame} (refused : r ∈ refusals) (busy : waiting p = true) :
    Underway R img test (out ++ (read img test reboots r p).2) ans dev (read img test reboots r p).1 := by
  rw [read_refused refused busy]
  exact underway_stopped

private theorem starting_reads {r : Frame} (long : 0 < img.length) (inv : Starting R img out (r :: ans) dev) :
    Underway R img test (out ++ (read img test reboots r .start).2) ans dev (read img test reboots r .start).1 := by
  rcases inv with ⟨silent, _⟩ | ⟨rfl, ⟨ack, open_⟩ | ⟨r', refused, reply⟩⟩
  · cases silent
  · obtain ⟨rfl, rfl⟩ := sublist_one ack
    rw [read_reply _ (by decide) (by decide)]
    exact send_data_underway (by decide) long open_
  · obtain ⟨rfl, rfl⟩ := sublist_one reply
    exact read_refused_underway refused rfl

private theorem sending_reads {r : Frame} {base : Nat} (moving : Transferring p) (small : img.length < 2^32)
    (window : Window img base (sent_to img p)) (inv : Sending R img out (r :: ans) dev base (sent_to img p)) :
    Underway R img test (out ++ (read img test reboots r p).2) ans dev (read img test reboots r p).1 := by
  have busy : waiting p = true := by cases p <;> first | rfl | exact moving.elim
  obtain ⟨chunks, rfl, sizes, ⟨got, open_, low, sent, acks⟩ | ⟨_, refused⟩⟩ := inv
  · split_ifs at acks with complete
    · have all : got ++ chunks.flatten = img.take (sent_to img p) := by
        rcases sent with all | less
        · exact all
        · omega
      have none_ : chunks = [] := by
        cases chunks with
        | nil => rfl
        | cons c rest =>
          have some_ := (sizes c (by simp)).1
          have length := congrArg List.length all
          have high := window.high
          simp only [List.flatten_cons, List.length_append, List.length_take] at length
          omega
      subst none_
      rw [List.flatten_nil, List.append_nil] at all
      have high := window.high
      rw [List.map_nil, List.nil_append]
      unfold data_ack at acks
      split_ifs at acks with last aligned
      · -- the whole image is stored
        obtain ⟨rfl, rfl⟩ := sublist_one acks
        rw [last, List.take_length] at all
        rw [all] at open_
        rw [read_reply _ (by decide) small]
        cases p with
        | block off => exact confirm_underway open_
        | tail => exact confirm_underway open_
        | _ => exact moving.elim
      · obtain ⟨rfl, rfl⟩ := sublist_one acks
        rw [read_reply _ (by decide) (by omega)]
        cases p with
        | block off => exact send_data_underway aligned (by simp only [sent_to] at *; omega) (all ▸ open_)
        | tail => exact absurd rfl last
        | _ => exact moving.elim
      · cases acks
    · cases acks
  · exact read_refused_underway (refused r (by simp)) busy

private theorem confirming_reads {r : Frame} (inv : Confirming R img test out (r :: ans) dev) :
    Underway R img test (out ++ (read img test reboots r .confirm).2) ans dev (read img test reboots r .confirm).1 := by
  rcases inv with ⟨_, silent, _⟩ | ⟨rfl, ⟨reply, holds⟩ | ⟨r', refused, reply⟩⟩
  · cases silent
  · obtain ⟨rfl, rfl⟩ := sublist_one reply
    rw [read_reply _ (by decide) (by decide)]
    refine ⟨by simp [replied], fun moving => moving.elim, by simp [replied], fun _ => ⟨holds, ?_⟩⟩
    cases reboots <;> simp [replied]
  · obtain ⟨rfl, rfl⟩ := sublist_one reply
    exact read_refused_underway refused rfl

/-- The tool takes a reply. -/
theorem underway_reads {r : Frame} (long : 0 < img.length) (small : img.length < 2^32) (busy : waiting p = true)
    (inv : Underway R img test out (r :: ans) dev p) :
    Underway R img test (out ++ (read img test reboots r p).2) ans dev (read img test reboots r p).1 := by
  cases p with
  | start => exact starting_reads long (inv.start rfl)
  | block off =>
    obtain ⟨base, window, sending⟩ := inv.data trivial
    exact sending_reads trivial small window sending
  | tail =>
    obtain ⟨base, window, sending⟩ := inv.data trivial
    exact sending_reads trivial small window sending
  | confirm => exact confirming_reads (inv.confirm rfl)
  | confirmed => cases busy
  | stopped => cases busy

end

/-! ### Runs -/

/-- The frames that are still to reach the device's handler, in order. -/
def Sys.out {σ : Type} (s : Sys σ) : List Frame := s.queue ++ s.bus

/-- A tool that has not given up has an image of a size that START can announce. -/
structure Inv {σ : Type} (R : Receiver σ) (img : List UInt8) (test : Bool) (s : Sys σ) : Prop where
  underway : Underway R img test s.out (replies s.back) s.dev s.phase
  sized : s.phase ≠ .stopped → 0 < img.length ∧ img.length < 2^32

section
variable {σ : Type} {R : Receiver σ} {img : List UInt8} {test reboots : Bool}

theorem keyhash_from_image_long {kh : List UInt8} (found : keyhash_from_image img = some kh) : 0 < img.length := by
  unfold keyhash_from_image at found
  split_ifs at found with short
  omega

theorem send_keyhash_id (kh : List UInt8) : ∀ m ∈ send_keyhash kh, m.id = CAN_ID_KEYHASH := by
  intro m member
  obtain ⟨seq, _, rfl⟩ := List.mem_map.mp member
  rfl

theorem launch_inv (dev : σ) : Inv R img test (launch img dev) := by
  unfold launch
  split
  · exact ⟨underway_stopped, fun going => absurd rfl going⟩
  · rename_i kh found
    split_ifs with small
    · refine ⟨⟨fun _ => .inl ⟨rfl, send_keyhash kh, send_keyhash_id kh, .inl rfl⟩, fun moving => moving.elim, by simp,
        by simp⟩, fun _ => ⟨keyhash_from_image_long found, small⟩⟩
    · exact ⟨underway_stopped, fun going => absurd rfl going⟩

theorem busy_going {p : Phase} (busy : waiting p = true) : p ≠ .stopped := by
  rintro rfl
  cases busy

private theorem handled_inv {s : Sys σ} {m : Frame} {rest : List Frame} (shape : s.queue = m :: rest)
    (inv : Inv R img test s) : Inv R img test (handled R m rest s) := by
  obtain ⟨underway, sized⟩ := inv
  refine ⟨?_, sized⟩
  rw [Sys.out, shape] at underway
  simp only [handled, Sys.out, replies_append]
  by_cases going : s.phase = .stopped
  · rw [going]
    exact underway_stopped
  · have next := underway_handles (sized going).2 underway
    exact underway_loses next ((R.drain_loses m s.dev rest).append_right _) (List.Sublist.refl _)

private theorem read_inv {s : Sys σ} {r : Frame} {rest : List Frame} (shape : s.back = r :: rest)
    (busy : waiting s.phase = true) (inv : Inv R img test s) :
    Inv R img test (moved (read img test reboots r s.phase) { s with back := rest }) := by
  obtain ⟨underway, sized⟩ := inv
  obtain ⟨long, small⟩ := sized (busy_going busy)
  refine ⟨?_, fun _ => ⟨long, small⟩⟩
  rw [shape] at underway
  simp only [moved, Sys.out]
  rw [← List.append_assoc]
  by_cases isReply : r.id = CAN_ID_REPLY
  · rw [replies_cons rest isReply] at underway
    exact underway_reads long small busy underway
  · rw [replies_skip rest isReply] at underway
    rw [read_skip _ isReply, List.append_nil]
    exact underway

theorem step_inv {s : Sys σ} (e : Event) (inv : Inv R img test s) : Inv R img test (step R img test reboots s e) := by
  have ⟨underway, sized⟩ := inv
  cases e with
  | arrive =>
    simp only [step]
    split <;> rename_i shape
    · exact inv
    · rename_i m rest
      refine ⟨underway_loses underway ?_ (List.Sublist.refl _), sized⟩
      simp only [Sys.out, shape]
      have part := (R.arrive_loses s.queue m).append_right rest
      rwa [List.append_assoc] at part
  | lose => exact ⟨underway_loses underway ((List.tail_sublist _).append_left _) (List.Sublist.refl _), sized⟩
  | handle =>
    simp only [step]
    split <;> rename_i shape
    · exact inv
    · exact handled_inv shape inv
  | read =>
    simp only [step]
    split <;> rename_i shape
    · exact inv
    · split_ifs with busy
      · exact read_inv shape busy inv
      · exact inv
  | loseBack => exact ⟨underway_loses underway (List.Sublist.refl _) ((List.tail_sublist _).filter _), sized⟩
  | timeout =>
    simp only [step]
    split_ifs
    · exact ⟨underway_stopped, fun going => absurd rfl going⟩
    · exact inv

/-- Whatever the bus loses, a tool that reports the upgrade confirmed is right about the device. -/
theorem confirmed_holds {dev : σ} (es : List Event) :
    let s := es.foldl (step R img test reboots) (launch img dev)
    s.phase = .confirmed → R.Holds (confirm_arg test) img s.dev := by
  intro s confirmed
  have inv : Inv R img test s := by
    refine @Machine.invariant _ _ (step R img test reboots) (fun _ _ => True) (Inv R img test)
      (fun s e inv _ => step_inv e inv) _ (launch_inv dev) es ?_
    exact Machine.meets_of_all fun _ _ _ => trivial
  exact (inv.underway.confirmed confirmed).1

end

end IoEdgeHub.CanTool
