import IoEdgeHub.CanProtocol
import IoEdgeHub.FwImage
import IoEdgeHub.IntFlash
import IoEdgeHub.Machine

/-!
The CAN upgrade handlers of the boot loader (`boot/boot_can.c`), which write an
image straight into slot0. The loader drops the frames that are still queued when
a CONFIRM is handled; a frame of the model is one that is handled.

A START that is refused does not end the session before it, so a CONFIRM may
install an image behind a refused START, over a slot0 that the START may have
begun to erase. In a run in which every START that meets an open session is
accepted, an installed image is what was sent since the last START.
-/
namespace IoEdgeHub.BootCan
open IoEdgeHub.Nor IoEdgeHub.W25qxx IoEdgeHub.IntFlash IoEdgeHub.Bytes IoEdgeHub.FwUpg IoEdgeHub.CanProtocol

def CAN_ID_TRACE : Nat := 0x108
def TRACE_FW_START : UInt8 := 6

/-- The session of the boot loader, and the flash it writes. -/
structure Boot where
  active : Bool := false
  total : Nat := 0
  written : Nat := 0
  confirmed : Bool := false
  installed : Bool := false
  keys : Keys := {}
  dev : Dev

section
variable (version fw_keyhash : List UInt8)

/-- The key hash that a START offers is not the loader's own. -/
def foreign_key (k : Keys) : Bool := (offered k).1.any (· ≠ fw_keyhash)

/-- What a START is answered with, given whether its key hash is foreign. -/
def start_reply (foreign : Bool) (arg : Nat) (b : Boot) : Frame × Boot :=
  if foreign then (fw_reply FW_CODE_KEYHASH_ERROR 0, b)
  else if arg < 64 ∨ arg > SLOT0_SIZE then (fw_reply FW_CODE_FLASH_ERROR 0, b)
  else
    match intflash_erase SLOT0_ADDR (round_4k arg) b.dev with
    | (false, d) => (fw_reply FW_CODE_FLASH_ERROR 0, { b with dev := d })
    | (true, d) => (fw_reply FW_CODE_OFFSET 0, { b with active := true, total := arg, written := 0, dev := d })

def start (arg : Nat) (b : Boot) : List Frame × Boot :=
  let r := start_reply (foreign_key fw_keyhash b.keys) arg { b with keys := (offered b.keys).2 }
  ([⟨CAN_ID_TRACE, [TRACE_FW_START]⟩, r.1], r.2)

def confirm (b : Boot) : List Frame × Boot :=
  if !b.active then ([fw_reply FW_CODE_TRANSFER_ERROR 0], b)
  else if b.written ≠ b.total then ([fw_reply FW_CODE_TRANSFER_ERROR 0], { b with active := false })
  else
    ([fw_reply FW_CODE_CONFIRM FW_CODE_CONFIRM_MAGIC],
      { b with active := false, installed := true, confirmed := true })

def handle_cmd (data : List UInt8) (b : Boot) : List Frame × Boot :=
  if data.length ≠ 8 then ([fw_reply FW_CODE_FLASH_ERROR 0], b)
  else if command data = FW_CMD_START then start fw_keyhash (argument data) b
  else if command data = FW_CMD_CONFIRM then confirm b
  else if command data = FW_CMD_VERSION then
    (fw_reply FW_CODE_VERSION version.length :: version_frames 0 version, b)
  else if command data = FW_CMD_REBOOT then ([], { b with confirmed := true })
  else ([], b)

/-- How a data frame is acknowledged that brings the session to `written` bytes. -/
def data_ack (written total : Nat) : List Frame :=
  if written = total then [fw_reply FW_CODE_UPDATE_SUCCESS total]
  else if written % ACK_INTERVAL = 0 then [fw_reply FW_CODE_OFFSET written]
  else []

def handle_data (data : List UInt8) (b : Boot) : List Frame × Boot :=
  if !b.active then ([fw_reply FW_CODE_TRANSFER_ERROR 0], b)
  else if data.length = 0 ∨ b.written + data.length > b.total then
    ([fw_reply FW_CODE_TRANSFER_ERROR 0], { b with active := false })
  else
    match intflash_write (SLOT0_ADDR + b.written) data b.dev with
    | (false, d) => ([fw_reply FW_CODE_FLASH_ERROR 0], { b with active := false, dev := d })
    | (true, d) =>
      (data_ack (b.written + data.length) b.total, { b with written := b.written + data.length, dev := d })

def handle_keyhash (data : List UInt8) (k : Keys) : Keys := keyhash_frame data k

/-- One frame, with the frames it is answered with. -/
def handle_frame (m : Frame) (b : Boot) : List Frame × Boot :=
  if m.id = CAN_ID_CMD then
    if m.data.length ≥ 4 then handle_cmd version fw_keyhash m.data b else ([], b)
  else if m.id = CAN_ID_DATA then handle_data m.data b
  else if m.id = CAN_ID_KEYHASH then
    if m.data.length ≥ 1 then ([], { b with keys := handle_keyhash m.data b.keys }) else ([], b)
  else ([], b)

end

section
variable {version fw_keyhash : List UInt8} (b : Boot)

theorem handle_frame_start {size : Nat} (small : size < 2^32) :
    handle_frame version fw_keyhash (startFrame size) b = start fw_keyhash size b := by
  rw [handle_frame, if_pos (by rfl), if_pos (by simp [startFrame]), handle_cmd, if_neg (by simp [startFrame]),
    if_pos (startFrame_command size), startFrame_argument small]

theorem handle_frame_confirm (arg : Nat) : handle_frame version fw_keyhash (confirmFrame arg) b = confirm b := by
  have other : ¬ command (confirmFrame arg).data = FW_CMD_START := by rw [confirmFrame_command]; decide
  rw [handle_frame, if_pos (by rfl), if_pos (by simp [confirmFrame]), handle_cmd, if_neg (by simp [confirmFrame]),
    if_neg other, if_pos (confirmFrame_command arg)]

theorem handle_frame_data (data : List UInt8) :
    handle_frame version fw_keyhash (dataFrame data) b = handle_data data b := by
  rw [handle_frame, if_neg (by simp [dataFrame, CAN_ID_DATA, CAN_ID_CMD]), if_pos (by rfl)]
  rfl

end

/-- The frame is a START. -/
def isStart (m : Frame) : Bool := m.id = CAN_ID_CMD ∧ m.data.length = 8 ∧ command m.data = FW_CMD_START

/-- What the bus has seen: the size of the last START, if it was accepted, and the
    data accepted since. -/
structure Sent where
  start : Option Nat := none
  data : List UInt8 := []
  deriving DecidableEq, Repr

/-- The reply to a data frame that was not taken. -/
def declined (out : List Frame) : Bool :=
  fw_reply FW_CODE_TRANSFER_ERROR 0 ∈ out ∨ fw_reply FW_CODE_FLASH_ERROR 0 ∈ out

/-- A frame and the replies to it. A START is accepted when it is answered with offset 0. -/
def observe (m : Frame) (out : List Frame) (sent : Sent) : Sent :=
  if isStart m then
    if fw_reply FW_CODE_OFFSET 0 ∈ out then ⟨some (argument m.data), []⟩ else {}
  else if m.id = CAN_ID_DATA ∧ !declined out then ⟨sent.start, sent.data ++ m.data⟩
  else sent

/-- A START that passes its checks and whose erase succeeds. -/
def Accepts (foreign : Bool) (arg : Nat) (d : Dev) : Prop :=
  foreign = false ∧ 64 ≤ arg ∧ arg ≤ SLOT0_SIZE ∧ (intflash_erase SLOT0_ADDR (round_4k arg) d).1 = true

/-- The boot loader and what the bus has seen. -/
structure Watched where
  b : Boot
  sent : Sent := {}

section
variable (version fw_keyhash : List UInt8)

def watch (s : Watched) (m : Frame) : Watched :=
  let r := handle_frame version fw_keyhash m s.b
  ⟨r.2, observe m r.1 s.sent⟩

/-- A START that meets an open session is accepted. -/
def Allowed (s : Watched) (m : Frame) : Prop :=
  isStart m = true → s.b.active = true →
    Accepts (foreign_key fw_keyhash s.b.keys) (argument m.data) s.b.dev

end

/-- An open session has stored exactly what was sent since the last START, and
    slot0 is blank behind it. -/
structure Receiving (s : Watched) : Prop where
  started : s.sent.start = some s.b.total
  stored : bytesAt s.b.dev.mem SLOT0_ADDR s.b.written = s.sent.data
  fits : s.b.written ≤ s.b.total
  room : s.b.total ≤ SLOT0_SIZE
  blank : Blank s.b.dev.mem (SLOT0_ADDR + s.b.written) (s.b.total - s.b.written)

section
variable {version fw_keyhash : List UInt8}

/-- A START that is refused leaves the session variables as they are. -/
theorem start_reply_refused {foreign : Bool} {arg : Nat} {b : Boot} (refused : ¬ Accepts foreign arg b.dev) :
    (start_reply foreign arg b).1 ≠ fw_reply FW_CODE_OFFSET 0 ∧ (start_reply foreign arg b).2.active = b.active := by
  have keyhash_error : fw_reply FW_CODE_KEYHASH_ERROR 0 ≠ fw_reply FW_CODE_OFFSET 0 := by decide
  have flash_error : fw_reply FW_CODE_FLASH_ERROR 0 ≠ fw_reply FW_CODE_OFFSET 0 := by decide
  unfold start_reply
  split_ifs with key size
  · exact ⟨keyhash_error, rfl⟩
  · exact ⟨flash_error, rfl⟩
  · split <;> rename_i erased_
    · exact ⟨flash_error, rfl⟩
    · exact absurd ⟨by simpa using key, by omega, by omega, by rw [erased_]⟩ refused

/-- A START that is accepted opens a session over blank flash. -/
private theorem start_reply_accepted {foreign : Bool} {arg : Nat} {b b' : Boot} {reply : Frame}
    (accepts : Accepts foreign arg b.dev) (result : start_reply foreign arg b = (reply, b')) :
    reply = fw_reply FW_CODE_OFFSET 0 ∧ b'.total = arg ∧ b'.written = 0 ∧ arg ≤ SLOT0_SIZE ∧
      Blank b'.dev.mem SLOT0_ADDR arg := by
  obtain ⟨own, low, high, done⟩ := accepts
  have bound : arg ≤ round_4k arg ∧ round_4k arg ≤ arg + 0xFFF := by
    unfold SLOT0_SIZE at high
    unfold round_4k
    omega
  have blank := intflash_erase_done done (by unfold SLOT0_SIZE at high; unfold SLOT0_ADDR; omega)
  rw [start_reply, own, if_neg (by decide), if_neg (by omega)] at result
  split at result <;> rename_i erased_ <;> rw [erased_] at done blank
  · simp at done
  · obtain ⟨rfl, rfl⟩ := Prod.mk.inj result
    exact ⟨rfl, rfl, rfl, high, blank_part blank (Nat.le_refl _) (by omega)⟩

/-- A session as a START leaves it: fresh if it was accepted, else as it was. -/
private theorem start_receiving {m reply : Frame} {sent : Sent} {foreign : Bool} {b b' : Boot} (isStart_ : isStart m = true)
    (allowed : b.active = true → Accepts foreign (argument m.data) b.dev)
    (result : start_reply foreign (argument m.data) b = (reply, b')) (open_ : b'.active = true) :
    Receiving ⟨b', observe m [⟨CAN_ID_TRACE, [TRACE_FW_START]⟩, reply] sent⟩ := by
  by_cases accepts : Accepts foreign (argument m.data) b.dev
  · obtain ⟨rfl, total, written, room, blank⟩ := start_reply_accepted accepts result
    rw [observe, if_pos isStart_, if_pos (by simp)]
    refine ⟨congrArg some total.symm, ?_, ?_, total ▸ room, ?_⟩
    · simp only [written, bytesAt_zero]
    · simp only [written]
      exact Nat.zero_le _
    · simp only [written, total, Nat.add_zero, Nat.sub_zero]
      exact blank
  · have active := (start_reply_refused accepts).2
    rw [result] at active
    exact absurd (allowed (active.symm.trans open_)) accepts

/-- A data frame that leaves the session open has been written and is acknowledged. -/
private theorem handle_data_open {data : List UInt8} {b : Boot} (open_ : (handle_data data b).2.active = true) :
    b.active = true ∧ b.written + data.length ≤ b.total ∧
      (intflash_write (SLOT0_ADDR + b.written) data b.dev).1 = true ∧
      handle_data data b = (data_ack (b.written + data.length) b.total,
        { b with written := b.written + data.length, dev := (intflash_write (SLOT0_ADDR + b.written) data b.dev).2 }) := by
  by_cases active : b.active = true
  · by_cases bad : data.length = 0 ∨ b.written + data.length > b.total
    · rw [handle_data, if_neg (by simp [active]), if_pos bad] at open_
      simp at open_
    · cases wrote : intflash_write (SLOT0_ADDR + b.written) data b.dev with
      | mk done d =>
        rw [handle_data, if_neg (by simp [active]), if_neg bad, wrote] at open_ ⊢
        cases done with
        | false => simp at open_
        | true => exact ⟨active, by omega, rfl, rfl⟩
  · rw [handle_data, if_pos (by simpa using active)] at open_
    exact absurd open_ active

private theorem data_ack_taken (written total : Nat) : declined (data_ack written total) = false := by
  have distinct {code arg : Nat} (error : code = FW_CODE_TRANSFER_ERROR ∨ code = FW_CODE_FLASH_ERROR)
      (code' : Nat) (ack : code' = FW_CODE_UPDATE_SUCCESS ∨ code' = FW_CODE_OFFSET) (arg' : Nat) :
      fw_reply code arg ≠ fw_reply code' arg' := by
    intro same
    have codes := (fw_reply_inj same).1
    rcases error with rfl | rfl <;> rcases ack with rfl | rfl <;> revert codes <;> decide
  unfold data_ack
  split_ifs <;> simp [declined, distinct]

/-- What a data frame does to an open session that stays open: its bytes are stored. -/
private theorem data_receiving {s : Watched} {m : Frame} (isData : m.id = CAN_ID_DATA)
    (inv : s.b.active = true → Receiving s) (open_ : (handle_data m.data s.b).2.active = true) :
    Receiving ⟨(handle_data m.data s.b).2, observe m (handle_data m.data s.b).1 s.sent⟩ := by
  obtain ⟨active, room, wrote, result⟩ := handle_data_open open_
  obtain ⟨started, stored, fits, image, blank⟩ := inv active
  have size : s.sent.data.length = s.b.written := by rw [← stored, bytesAt_length]
  have seen : observe m (data_ack (s.b.written + m.data.length) s.b.total) s.sent =
      ⟨s.sent.start, s.sent.data ++ m.data⟩ := by
    have other : isStart m = false := by simp [isStart, isData, CAN_ID_DATA, CAN_ID_CMD]
    rw [observe, if_neg (by simp [other]), if_pos ⟨isData, by simp [data_ack_taken]⟩]
  have unwrapped : SLOT0_ADDR + s.b.written + m.data.length < 2^32 := by
    unfold SLOT0_SIZE at image
    unfold SLOT0_ADDR
    omega
  have mem := intflash_write_done unwrapped wrote
  have extended := @bytesAt_extend s.b.dev.mem SLOT0_ADDR s.sent.data m.data (by rw [size]; exact stored)
    (by rw [size]; exact blank_part blank (Nat.le_refl _) (by omega))
  rw [size, List.length_append, size] at extended
  rw [result, seen]
  refine ⟨started, ?_, room, image, ?_⟩
  · simp only [mem]
    exact extended
  · simp only [mem]
    exact blank_programmed (blank_part blank (by omega) (by omega)) (.inr (by omega))

private theorem other_code {code : Nat} (other : code % 2^32 ≠ FW_CODE_CONFIRM % 2^32) (arg : Nat) :
    fw_reply FW_CODE_CONFIRM FW_CODE_CONFIRM_MAGIC ≠ fw_reply code arg :=
  fun same => other (fw_reply_inj same).1.symm

private theorem start_not_confirmed (arg : Nat) (b : Boot) :
    fw_reply FW_CODE_CONFIRM FW_CODE_CONFIRM_MAGIC ∉ (start fw_keyhash arg b).1 := by
  have reply (foreign : Bool) (b : Boot) :
      fw_reply FW_CODE_CONFIRM FW_CODE_CONFIRM_MAGIC ≠ (start_reply foreign arg b).1 := by
    unfold start_reply
    split_ifs
    · exact other_code (by decide) 0
    · exact other_code (by decide) 0
    · split
      · exact other_code (by decide) 0
      · exact other_code (by decide) 0
  intro member
  rcases List.mem_cons.mp member with trace | member
  · exact absurd (congrArg Frame.id trace) (by decide)
  · exact reply _ _ (List.mem_singleton.mp member)

private theorem data_not_confirmed (data : List UInt8) (b : Boot) :
    fw_reply FW_CODE_CONFIRM FW_CODE_CONFIRM_MAGIC ∉ (handle_data data b).1 := by
  unfold handle_data
  split_ifs
  · simpa using other_code (by decide) 0
  · simpa using other_code (by decide) 0
  · split
    · simpa using other_code (by decide) 0
    · simp only [data_ack]
      split_ifs
      · simpa using other_code (by decide) b.total
      · simpa using other_code (by decide) (b.written + data.length)
      · simp

/-- Only a CONFIRM that finds its session complete is answered with the magic. -/
private theorem confirm_answered {m : Frame} {b : Boot}
    (answered : fw_reply FW_CODE_CONFIRM FW_CODE_CONFIRM_MAGIC ∈ (handle_frame version fw_keyhash m b).1) :
    b.active = true ∧ b.written = b.total ∧ (handle_frame version fw_keyhash m b).2.dev = b.dev ∧
      (handle_frame version fw_keyhash m b).2.installed = true := by
  unfold handle_frame at answered ⊢
  split_ifs at answered ⊢ with cmd long data key some_
  · unfold handle_cmd at answered ⊢
    split_ifs at answered ⊢ with short start_ confirm_ version_ reboot
    · exact absurd (List.mem_singleton.mp answered) (other_code (by decide) 0)
    · exact absurd answered (start_not_confirmed _ _)
    · unfold confirm at answered ⊢
      split_ifs at answered ⊢ with idle partial_
      · exact absurd (List.mem_singleton.mp answered) (other_code (by decide) 0)
      · exact absurd (List.mem_singleton.mp answered) (other_code (by decide) 0)
      · exact ⟨by simpa using idle, not_ne_iff.mp partial_, rfl, rfl⟩
    · rcases List.mem_cons.mp answered with same | member
      · exact absurd same (other_code (by decide) _)
      · exact absurd (version_frames_id member) (by decide)
    · simp at answered
    · simp at answered
  · simp at answered
  · exact absurd answered (data_not_confirmed _ _)
  · simp at answered
  · simp at answered
  · simp at answered

/-- A frame that is neither a START nor data, and touches nothing that a session needs. -/
private theorem idle_receiving {s : Watched} {m : Frame} {out : List Frame} {b : Boot} (inv : Receiving s)
    (other : isStart m = false) (noData : m.id ≠ CAN_ID_DATA) (total : b.total = s.b.total)
    (written : b.written = s.b.written) (dev : b.dev = s.b.dev) : Receiving ⟨b, observe m out s.sent⟩ := by
  rw [observe, if_neg (by simp [other]), if_neg (by simp [noData])]
  refine ⟨?_, ?_, ?_, ?_, ?_⟩ <;> simp only [total, written, dev]
  · exact inv.started
  · exact inv.stored
  · exact inv.fits
  · exact inv.room
  · exact inv.blank

private theorem cmd_receiving {s : Watched} {m : Frame} (inv : s.b.active = true → Receiving s)
    (allowed : Allowed fw_keyhash s m) (cmd : m.id = CAN_ID_CMD)
    (open_ : (handle_cmd version fw_keyhash m.data s.b).2.active = true) :
    Receiving ⟨(handle_cmd version fw_keyhash m.data s.b).2,
      observe m (handle_cmd version fw_keyhash m.data s.b).1 s.sent⟩ := by
  have noData : m.id ≠ CAN_ID_DATA := by rw [cmd]; decide
  unfold handle_cmd at open_ ⊢
  by_cases short : m.data.length ≠ 8
  · rw [if_pos short] at open_ ⊢
    exact idle_receiving (inv open_) (by simp [isStart, short]) noData rfl rfl rfl
  · rw [if_neg short] at open_ ⊢
    have eight := not_ne_iff.mp short
    by_cases start_ : command m.data = FW_CMD_START
    · have isStart_ : isStart m = true := by simp [isStart, cmd, eight, start_]
      rw [if_pos start_] at open_ ⊢
      exact @start_receiving m _ s.sent (foreign_key fw_keyhash s.b.keys) { s.b with keys := (offered s.b.keys).2 } _
        isStart_ (allowed isStart_) (Prod.eta _).symm open_
    · have other : isStart m = false := by simp [isStart, start_]
      rw [if_neg start_] at open_ ⊢
      split_ifs at open_ ⊢ with confirm_ version_ reboot
      · -- a CONFIRM never leaves a session open
        unfold confirm at open_
        split_ifs at open_ with idle partial_
        have active : s.b.active = true := open_
        simp [active] at idle
      · exact idle_receiving (inv open_) other noData rfl rfl rfl
      · exact idle_receiving (inv open_) other noData rfl rfl rfl
      · exact idle_receiving (inv open_) other noData rfl rfl rfl

private theorem watch_receiving {s : Watched} {m : Frame} (inv : s.b.active = true → Receiving s)
    (allowed : Allowed fw_keyhash s m) (open_ : (watch version fw_keyhash s m).b.active = true) :
    Receiving (watch version fw_keyhash s m) := by
  simp only [watch] at open_ ⊢
  unfold handle_frame at open_ ⊢
  by_cases cmd : m.id = CAN_ID_CMD
  · rw [if_pos cmd] at open_ ⊢
    by_cases long : m.data.length ≥ 4
    · rw [if_pos long] at open_ ⊢
      exact cmd_receiving inv allowed cmd open_
    · rw [if_neg long] at open_ ⊢
      exact idle_receiving (inv open_) (by simp [isStart]; omega) (by rw [cmd]; decide) rfl rfl rfl
  · rw [if_neg cmd] at open_ ⊢
    by_cases data : m.id = CAN_ID_DATA
    · rw [if_pos data] at open_ ⊢
      exact data_receiving data inv open_
    · rw [if_neg data] at open_ ⊢
      have other : isStart m = false := by simp [isStart, cmd]
      split_ifs at open_ ⊢
      · exact idle_receiving (inv open_) other data rfl rfl rfl
      · exact idle_receiving (inv open_) other data rfl rfl rfl
      · exact idle_receiving (inv open_) other data rfl rfl rfl

/-- In a run in which every START that meets an open session is accepted, an image
    is only installed behind an accepted START, and slot0 holds what was sent since. -/
theorem installed_as_sent {first : Watched} {ms before after : List Frame} {m : Frame} (reset : first.b.active = false)
    (meets : Machine.Meets (watch version fw_keyhash) (Allowed fw_keyhash) first ms) (split : ms = before ++ m :: after) :
    let s := before.foldl (watch version fw_keyhash) first
    fw_reply FW_CODE_CONFIRM FW_CODE_CONFIRM_MAGIC ∈ (handle_frame version fw_keyhash m s.b).1 →
      ∃ total, s.sent.start = some total ∧ s.sent.data.length = total ∧
        bytesAt (handle_frame version fw_keyhash m s.b).2.dev.mem SLOT0_ADDR total = s.sent.data ∧
        (handle_frame version fw_keyhash m s.b).2.installed = true := by
  intro s answered
  rw [split, Machine.meets_append] at meets
  have inv : s.b.active = true → Receiving s :=
    @Machine.invariant _ _ _ _ (fun s => s.b.active = true → Receiving s)
      (fun _ _ inv allowed open_ => watch_receiving inv allowed open_) _ (by simp [reset]) _ meets.1
  obtain ⟨active, complete, dev, installed⟩ := confirm_answered answered
  obtain ⟨started, stored, _, _, _⟩ := inv active
  have size : s.sent.data.length = s.b.written := by rw [← stored, bytesAt_length]
  rw [complete] at stored size
  rw [dev]
  exact ⟨s.b.total, started, size, stored, installed⟩

/-- The boot loader behind its reset, over flash full of zeros. -/
def booted : Watched := ⟨{ dev := { mem := fun _ => 0 } }, {}⟩

/-- An image of 64 bytes in frames of 8. -/
def smallUpload : List Frame := startFrame 64 :: List.replicate 8 (dataFrame [1, 2, 3, 4, 5, 6, 7, 8])

/-- An upload and its CONFIRM install what was sent. -/
theorem installed_as_sent_small :
    let s := smallUpload.foldl (watch [] smallHash) booted
    ∃ total, s.sent.start = some total ∧ s.sent.data.length = total ∧
      bytesAt (handle_frame [] smallHash (confirmFrame 0) s.b).2.dev.mem SLOT0_ADDR total = s.sent.data ∧
      (handle_frame [] smallHash (confirmFrame 0) s.b).2.installed = true := by
  refine @installed_as_sent [] smallHash booted (smallUpload ++ [confirmFrame 0]) smallUpload [] (confirmFrame 0) rfl
    ⟨fun _ open_ => ?_, Machine.meets_of_all fun m member s isStart_ => ?_⟩ rfl (by decide +kernel)
  · cases open_
  · have data : ∀ m ∈ List.replicate 8 (dataFrame [1, 2, 3, 4, 5, 6, 7, 8]) ++ [confirmFrame 0], isStart m = false := by
      decide
    simp [data m member] at isStart_

/-- A complete session, and then a START whose size is bad: the CONFIRM installs
    the image although the last START was refused. -/
theorem installed_behind_refused_start :
    let s := (smallUpload ++ [startFrame 10]).foldl (watch [] smallHash) booted
    s.sent.start = none ∧
      fw_reply FW_CODE_CONFIRM FW_CODE_CONFIRM_MAGIC ∈ (handle_frame [] smallHash (confirmFrame 0) s.b).1 ∧
      (handle_frame [] smallHash (confirmFrame 0) s.b).2.installed = true := by
  decide +kernel

end

end IoEdgeHub.BootCan
