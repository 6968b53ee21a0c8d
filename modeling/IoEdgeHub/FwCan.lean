import IoEdgeHub.CanProtocol
import IoEdgeHub.FwUdp

/-!
The CAN upgrade channel of the application (`fw/fw_can.c`). Its task drops the
frames that are still queued when a START or a CONFIRM is handled; a frame of the
model is one that the task does handle.
-/
namespace IoEdgeHub.FwCan
open IoEdgeHub.Bytes IoEdgeHub.FwUpg IoEdgeHub.Calls IoEdgeHub.CanProtocol

/-- What a handler sends, and the key hash it leaves. -/
abbrev Outcome := List Frame × Keys

/-- START reopens the session whatever state it is in. -/
def start_update (arg : Nat) (k : Keys) : Prog Call Outcome := do
  let _ ← Prog.once .abort
  let rc ← Prog.once (.start arg (offered k).1)
  if rc = -2 then return ([fw_reply FW_CODE_KEYHASH_ERROR 0], (offered k).2)
  else if rc ≠ 0 then return ([fw_reply FW_CODE_FLASH_ERROR 0], (offered k).2)
  else return ([fw_reply FW_CODE_OFFSET 0], (offered k).2)

def confirm (arg : Nat) (k : Keys) : Prog Call Outcome := do
  let active ← Prog.once .active
  if !active then return ([fw_reply FW_CODE_TRANSFER_ERROR 0], k)
  else
    let rc ← Prog.once (.finish 0 false)
    if rc ≠ 0 then return ([fw_reply FW_CODE_TRANSFER_ERROR 0], k)
    else
      let done ← Prog.once (.set_pending (arg ≠ 0))
      if !done then return ([fw_reply FW_CODE_TRANSFER_ERROR 0], k)
      else return ([fw_reply FW_CODE_CONFIRM FW_CODE_CONFIRM_MAGIC], k)

/-- The length that a VERSION reply announces. -/
def version_length (version : List UInt8) : Nat := if version.length > 63 then 0 else version.length

section
variable (version : List UInt8)

def handle_platform_rx (data : List UInt8) (k : Keys) : Prog Call Outcome :=
  if data.length ≠ 8 then return ([fw_reply FW_CODE_FLASH_ERROR 0], k)
  else if command data = FW_CMD_START then start_update (argument data) k
  else if command data = FW_CMD_CONFIRM then confirm (argument data) k
  else if command data = FW_CMD_VERSION then
    return (fw_reply FW_CODE_VERSION (version_length version) ::
      version_frames 0 (version.take (version_length version)), k)
  else if command data = FW_CMD_REBOOT then do
    let _ ← Prog.once .reset
    return ([], {})
  else return ([], k)

def handle_fw_data (data : List UInt8) (k : Keys) : Prog Call Outcome := do
  let active ← Prog.once .active
  if !active then return ([fw_reply FW_CODE_TRANSFER_ERROR 0], k)
  else
    let rc ← Prog.once (.write data)
    if rc ≠ 0 then return ([fw_reply FW_CODE_FLASH_ERROR 0], k)
    else
      let got ← Prog.once .received
      let total ← Prog.once .total
      if got = total then return ([fw_reply FW_CODE_UPDATE_SUCCESS got], k)
      else if got % ACK_INTERVAL = 0 then return ([fw_reply FW_CODE_OFFSET got], k)
      else return ([], k)

def handle_keyhash (data : List UInt8) (k : Keys) : Keys := keyhash_frame data k

/-- The task on one frame. -/
def fw_task (m : Frame) (k : Keys) : Prog Call Outcome :=
  if m.id = CAN_ID_CMD then handle_platform_rx version m.data k
  else if m.id = CAN_ID_DATA then handle_fw_data m.data k
  else if m.id = CAN_ID_KEYHASH then return ([], handle_keyhash m.data k)
  else return ([], k)

variable {version} (k : Keys)

theorem fw_task_start {size : Nat} (small : size < 2^32) : fw_task version (startFrame size) k = start_update size k := by
  rw [fw_task, if_pos (by rfl), handle_platform_rx, if_neg (by simp [startFrame]), if_pos (startFrame_command size),
    startFrame_argument small]

theorem fw_task_confirm (arg : Nat) :
    fw_task version (confirmFrame arg) k = confirm (argument (confirmFrame arg).data) k := by
  have other : ¬ command (confirmFrame arg).data = FW_CMD_START := by rw [confirmFrame_command]; decide
  rw [fw_task, if_pos (by rfl), handle_platform_rx, if_neg (by simp [confirmFrame]), if_neg other,
    if_pos (confirmFrame_command arg)]

theorem fw_task_data (data : List UInt8) : fw_task version (dataFrame data) k = handle_fw_data data k := by
  rw [fw_task, if_neg (by simp [dataFrame, CAN_ID_DATA, CAN_ID_CMD]), if_pos (by rfl)]
  rfl

end

end IoEdgeHub.FwCan
