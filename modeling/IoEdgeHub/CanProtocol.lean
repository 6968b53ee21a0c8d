import IoEdgeHub.Bytes
import IoEdgeHub.FwUpg

/-!
The CAN upgrade protocol as far as application (`fw/fw_can.c`) and boot loader
(`boot/boot_can.c`) share it: frame identifiers, command and reply codes, and the
key hash that is put together from five frames. Both sources carry their own copy
of these; the copies are the same.
-/
namespace IoEdgeHub.CanProtocol
open IoEdgeHub.Bytes IoEdgeHub.FwUpg

def CAN_ID_CMD : Nat := 0x101
def CAN_ID_REPLY : Nat := 0x102
def CAN_ID_DATA : Nat := 0x103
def CAN_ID_KEYHASH : Nat := 0x104
def CAN_ID_VERSION : Nat := 0x105

def FW_CMD_START : Nat := 0
def FW_CMD_CONFIRM : Nat := 1
def FW_CMD_VERSION : Nat := 2
def FW_CMD_REBOOT : Nat := 3

def FW_CODE_OFFSET : Nat := 0
def FW_CODE_UPDATE_SUCCESS : Nat := 1
def FW_CODE_VERSION : Nat := 2
def FW_CODE_CONFIRM : Nat := 3
def FW_CODE_FLASH_ERROR : Nat := 4
def FW_CODE_TRANSFER_ERROR : Nat := 5
def FW_CODE_KEYHASH_ERROR : Nat := 6

def FW_CODE_CONFIRM_MAGIC : Nat := 0x55AA55AA

def KEYHASH_CHUNK : Nat := 7
def KEYHASH_CHUNKS : Nat := (FW_KEYHASH_LEN + KEYHASH_CHUNK - 1) / KEYHASH_CHUNK
def KEYHASH_FULL_MASK : Nat := 2^KEYHASH_CHUNKS - 1
def ACK_INTERVAL : Nat := 512

/-- A frame on the bus. Its data is at most 8 bytes long, and its length is the
    dlc of the source. -/
structure Frame where
  id : Nat
  data : List UInt8
  deriving DecidableEq, Repr

/-- The reply frame with the given code and argument. -/
def fw_reply (code arg : Nat) : Frame := ⟨CAN_ID_REPLY, io_put_le32 code ++ io_put_le32 arg⟩

theorem fw_reply_inj {code arg code' arg' : Nat} (same : fw_reply code arg = fw_reply code' arg') :
    code % 2^32 = code' % 2^32 ∧ arg % 2^32 = arg' % 2^32 := by
  have data : io_put_le32 code ++ io_put_le32 arg = io_put_le32 code' ++ io_put_le32 arg' := congrArg Frame.data same
  obtain ⟨first, second⟩ := List.append_inj data rfl
  constructor
  · rw [← io_get_put_le32 code [], first, io_get_put_le32]
  · rw [← io_get_put_le32 arg [], second, io_get_put_le32]

/-- The command word of a 0x101 frame, and its argument. -/
def command (data : List UInt8) : Nat := io_get_le32 data
def argument (data : List UInt8) : Nat := io_get_le32 (data.drop 4)

/-- The frames that a host sends. -/
def startFrame (size : Nat) : Frame := ⟨CAN_ID_CMD, io_put_le32 FW_CMD_START ++ io_put_le32 size⟩
def confirmFrame (arg : Nat) : Frame := ⟨CAN_ID_CMD, io_put_le32 FW_CMD_CONFIRM ++ io_put_le32 arg⟩
def dataFrame (data : List UInt8) : Frame := ⟨CAN_ID_DATA, data⟩

theorem startFrame_command (size : Nat) : command (startFrame size).data = FW_CMD_START :=
  io_get_put_le32 FW_CMD_START _

theorem confirmFrame_command (arg : Nat) : command (confirmFrame arg).data = FW_CMD_CONFIRM :=
  io_get_put_le32 FW_CMD_CONFIRM _

theorem startFrame_argument {size : Nat} (small : size < 2^32) : argument (startFrame size).data = size := by
  have read := io_get_put_le32 size []
  rw [List.append_nil, Nat.mod_eq_of_lt small] at read
  exact read

/-- The version text in frames of a sequence number and 7 characters each. -/
def version_frames (seq : Nat) (text : List UInt8) : List Frame :=
  if text = [] then []
  else
    ⟨CAN_ID_VERSION, UInt8.ofNat seq :: (text.take 7 ++ List.replicate (7 - text.length) 0)⟩ ::
      version_frames (seq + 1) (text.drop 7)
termination_by text.length
decreasing_by
  have := List.length_pos_iff.mpr ‹¬ text = []›
  simp only [List.length_drop]
  omega

theorem version_frames_id {seq : Nat} {text : List UInt8} {f : Frame} (member : f ∈ version_frames seq text) :
    f.id = CAN_ID_VERSION := by
  fun_induction version_frames seq text with
  | case1 => simp at member
  | case2 seq text more ih =>
    rcases List.mem_cons.mp member with rfl | rest
    · rfl
    · exact ih rest

theorem blank_keybuf : (List.replicate FW_KEYHASH_LEN (0 : UInt8)).length = FW_KEYHASH_LEN := List.length_replicate

/-- The key hash received so far and which of its frames have arrived. -/
structure Keys where
  keybuf : List UInt8 := List.replicate FW_KEYHASH_LEN 0
  key_mask : Nat := 0
  whole : keybuf.length = FW_KEYHASH_LEN := by exact IoEdgeHub.CanProtocol.blank_keybuf
  deriving DecidableEq, Repr

/-- How many bytes the frame with the given sequence number carries. -/
def key_chunk (seq : Nat) : Nat := min (FW_KEYHASH_LEN - seq * KEYHASH_CHUNK) KEYHASH_CHUNK

/-- Bytes copied over a buffer from `off` on. -/
def overwrite (off : Nat) (bytes buf : List UInt8) : List UInt8 :=
  buf.take off ++ bytes ++ buf.drop (off + bytes.length)

theorem overwrite_length {off : Nat} {bytes buf : List UInt8} (fits : off + bytes.length ≤ buf.length) :
    (overwrite off bytes buf).length = buf.length := by
  simp only [overwrite, List.length_append, List.length_take, List.length_drop]
  omega

/-- The part of a frame lies within the buffer. -/
theorem key_chunk_fits {seq : Nat} {bytes : List UInt8} (k : Keys) (low : seq < KEYHASH_CHUNKS) :
    seq * KEYHASH_CHUNK + (bytes.take (key_chunk seq)).length ≤ k.keybuf.length := by
  have five : KEYHASH_CHUNKS = 5 := by decide
  rw [k.whole, List.length_take]
  simp only [key_chunk, KEYHASH_CHUNK, FW_KEYHASH_LEN]
  omega

def keyhash_frame (data : List UInt8) (k : Keys) : Keys :=
  let seq := byteAt data 0
  if invalid : seq ≥ KEYHASH_CHUNKS ∨ data.length < 1 + key_chunk seq then k
  else
    { keybuf := overwrite (seq * KEYHASH_CHUNK) ((data.drop 1).take (key_chunk seq)) k.keybuf
      key_mask := k.key_mask ||| 2^seq
      whole := (overwrite_length (key_chunk_fits k (Nat.lt_of_not_le fun high => invalid (.inl high)))).trans k.whole }

/-- The key hash that a START checks: the one received, if all of its frames
    have arrived; it is used up then. -/
def offered (k : Keys) : Option (List UInt8) × Keys :=
  if k.key_mask &&& KEYHASH_FULL_MASK = KEYHASH_FULL_MASK then (some k.keybuf, { k with key_mask := 0 })
  else (none, k)

/-- The frame carries the given part of a key hash. -/
structure KeyFrame (hash : List UInt8) (seq : Nat) (m : Frame) : Prop where
  id : m.id = CAN_ID_KEYHASH
  number : byteAt m.data 0 = seq
  long : 1 + key_chunk seq ≤ m.data.length
  chunk : (m.data.drop 1).take (key_chunk seq) = (hash.drop (seq * KEYHASH_CHUNK)).take (key_chunk seq)

/-- All five frames of a key hash, in any order. -/
def AllFive (hash : List UInt8) (ms : List Frame) : Prop :=
  ∃ order : List Nat, order.Perm (List.range KEYHASH_CHUNKS) ∧ List.Forall₂ (KeyFrame hash) order ms

/-- The parts `seen` of a key hash have arrived, whatever was there before. -/
structure Seen (hash : List UInt8) (seen : List Nat) (k : Keys) : Prop where
  bits : ∀ j ∈ seen, k.key_mask.testBit j = true
  bytes : ∀ i, i < FW_KEYHASH_LEN → i / KEYHASH_CHUNK ∈ seen → k.keybuf[i]? = hash[i]?

theorem overwrite_getElem? {off : Nat} {bytes buf : List UInt8} (fits : off + bytes.length ≤ buf.length) (i : Nat) :
    (overwrite off bytes buf)[i]? = if off ≤ i ∧ i < off + bytes.length then bytes[i - off]? else buf[i]? := by
  have front : (buf.take off).length = off := List.length_take_of_le (by omega)
  unfold overwrite
  split_ifs with inside
  · rw [List.append_assoc, List.getElem?_append_right (by omega), front, List.getElem?_append_left (by omega)]
  · by_cases low : i < off
    · rw [List.append_assoc, List.getElem?_append_left (by omega), List.getElem?_take_of_lt low]
    · rw [List.append_assoc, List.getElem?_append_right (by omega), front, List.getElem?_append_right (by omega),
        List.getElem?_drop]
      congr 1
      omega

/-- One more part of the key hash. -/
theorem keyhash_frame_seen {hash : List UInt8} {seen : List Nat} {k : Keys} {seq : Nat} {m : Frame}
    (whole : hash.length = FW_KEYHASH_LEN) (before : Seen hash seen k) (low : seq < KEYHASH_CHUNKS)
    (frame : KeyFrame hash seq m) : Seen hash (seq :: seen) (keyhash_frame m.data k) := by
  have five : KEYHASH_CHUNKS = 5 := by decide
  have long := frame.long
  unfold FW_KEYHASH_LEN at whole
  have part : ((hash.drop (seq * KEYHASH_CHUNK)).take (key_chunk seq)).length = key_chunk seq := by
    simp only [List.length_take, List.length_drop, key_chunk, KEYHASH_CHUNK, FW_KEYHASH_LEN]
    omega
  have fits := @key_chunk_fits seq (hash.drop (seq * KEYHASH_CHUNK)) k low
  have valid : ¬ (byteAt m.data 0 ≥ KEYHASH_CHUNKS ∨ m.data.length < 1 + key_chunk (byteAt m.data 0)) := by
    rw [frame.number]
    omega
  have mask : (keyhash_frame m.data k).key_mask = k.key_mask ||| 2^seq := by
    rw [keyhash_frame, dif_neg valid]
    simp only [frame.number]
  have buf : (keyhash_frame m.data k).keybuf =
      overwrite (seq * KEYHASH_CHUNK) ((hash.drop (seq * KEYHASH_CHUNK)).take (key_chunk seq)) k.keybuf := by
    rw [keyhash_frame, dif_neg valid]
    simp only [frame.number, frame.chunk]
  refine ⟨fun j member => ?_, fun i inside member => ?_⟩
  · rw [mask, Nat.testBit_or, Nat.testBit_two_pow]
    rcases List.mem_cons.mp member with rfl | earlier
    · simp
    · simp [before.bits j earlier]
  · have covers : (seq * KEYHASH_CHUNK ≤ i ∧ i < seq * KEYHASH_CHUNK + key_chunk seq) ↔ i / KEYHASH_CHUNK = seq := by
      simp only [key_chunk, KEYHASH_CHUNK, FW_KEYHASH_LEN] at inside ⊢
      omega
    rw [buf, overwrite_getElem? fits, part]
    by_cases here : i / KEYHASH_CHUNK = seq
    · have range := covers.mpr here
      rw [if_pos range, List.getElem?_take_of_lt (by omega), List.getElem?_drop, Nat.add_sub_of_le range.1]
    · rw [if_neg (mt covers.mp here)]
      rcases List.mem_cons.mp member with same | member
      · exact absurd same here
      · exact before.bytes i inside member

/-- The frames of a key hash one after another. -/
theorem keyhash_frames_seen {hash : List UInt8} {seen order : List Nat} {ms : List Frame} {k : Keys}
    (whole : hash.length = FW_KEYHASH_LEN) (before : Seen hash seen k) (low : ∀ seq ∈ order, seq < KEYHASH_CHUNKS)
    (frames : List.Forall₂ (KeyFrame hash) order ms) :
    Seen hash (order.reverse ++ seen) (ms.foldl (fun k m => keyhash_frame m.data k) k) := by
  induction frames generalizing k seen with
  | nil => exact before
  | @cons seq m order ms frame _ ih =>
    have next := keyhash_frame_seen whole before (low seq (by simp)) frame
    have rest := ih next fun s inside => low s (by simp [inside])
    simpa using rest

/-- All five frames leave the key hash for the next START, which uses them up. -/
theorem offered_all_five {hash : List UInt8} {ms : List Frame} {k : Keys} (whole : hash.length = FW_KEYHASH_LEN)
    (five : AllFive hash ms) :
    (offered (ms.foldl (fun k m => keyhash_frame m.data k) k)).1 = some hash ∧
      (offered (ms.foldl (fun k m => keyhash_frame m.data k) k)).2.key_mask = 0 := by
  obtain ⟨order, perm, frames⟩ := five
  have among (seq : Nat) : seq ∈ order ↔ seq < KEYHASH_CHUNKS := by rw [perm.mem_iff, List.mem_range]
  have nothing : Seen hash [] k := ⟨by simp, by simp⟩
  obtain ⟨bits, bytes⟩ := keyhash_frames_seen whole nothing (fun seq => (among seq).mp) frames
  generalize ms.foldl (fun k m => keyhash_frame m.data k) k = k' at bits bytes
  have size := k'.whole
  have full : k'.key_mask &&& KEYHASH_FULL_MASK = KEYHASH_FULL_MASK := by
    apply Nat.eq_of_testBit_eq
    intro j
    rw [Nat.testBit_and, KEYHASH_FULL_MASK, Nat.testBit_two_pow_sub_one]
    by_cases inside : j < KEYHASH_CHUNKS
    · simp [bits j (by simp [among, inside])]
    · simp [inside]
  have same : k'.keybuf = hash := by
    apply List.ext_getElem?
    intro i
    by_cases inside : i < FW_KEYHASH_LEN
    · refine bytes i inside ?_
      have part : i / KEYHASH_CHUNK < KEYHASH_CHUNKS := by
        unfold KEYHASH_CHUNKS KEYHASH_CHUNK FW_KEYHASH_LEN at *
        omega
      simp [among, part]
    · rw [List.getElem?_eq_none (by omega), List.getElem?_eq_none (by omega)]
  rw [offered, if_pos full]
  exact ⟨congrArg some same, rfl⟩

/-- Without a frame since the last START there is no key hash to check. -/
theorem offered_none {k : Keys} (empty : k.key_mask = 0) : offered k = (none, k) := by
  rw [offered, empty, if_neg (by decide)]

end IoEdgeHub.CanProtocol
