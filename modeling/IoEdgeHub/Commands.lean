import IoEdgeHub.MbServer

/-!
The other paths to the registers: the configuration commands over UDP
(`net/udp_cfg.c`), the commands of the web interface (`web/web_cmds.c`) and the
link monitor (`net/w5500.c`).
-/
namespace IoEdgeHub.Commands
open IoEdgeHub.Bytes IoEdgeHub.ConfigStore IoEdgeHub.Regmap IoEdgeHub.MbServer

def UDP_CMD_GET_VERSION : UInt8 := 0x04
def UDP_CMD_REBOOT : UInt8 := 0x05
def UDP_CMD_SET_IP : UInt8 := 0x10
def UDP_CMD_GET_IP : UInt8 := 0x11
def UDP_CMD_SET_MODBUS : UInt8 := 0x12
def UDP_CMD_GET_MODBUS : UInt8 := 0x13
def UDP_CMD_SET_TIME : UInt8 := 0x14
def UDP_CMD_FACTORY_RESET : UInt8 := 0x19

/-- The static variables of the command layer. -/
structure UdpCfg where
  factory_reset_pending_ms : Nat := 0
  factory_reset_confirmed : Bool := false
  factory_reset_reboot_pending : Bool := false
  reboot_reboot_pending : Bool := false
  deriving DecidableEq, Repr

def udp_cfg_reboot_pending (u : UdpCfg) : Bool := u.factory_reset_reboot_pending || u.reboot_reboot_pending

/-- The firmware's version, as the build fills it in: three digits and the six characters of the commit. -/
structure FwVersion where
  major : UInt8
  minor : UInt8
  patch : UInt8
  git : Vector UInt8 6

/-- A reply, empty for silence. -/
def reply_ok (cap : Nat) (cmd ok : UInt8) : List UInt8 := if cap < 2 then [] else [cmd, ok]

/-- A register as the low byte of a reply. -/
def reg8 (addr : Nat) (s : Io) : UInt8 := (get_holding_reg addr s).toUInt8

/-- An update whose result the source does not look at. -/
def update (addr : Nat) (reg : UInt16) (s : Io) : Io := (update_holding_reg addr reg s).getD s

theorem update_eq {addr : Nat} (inside : addr < 18) (reg : UInt16) (s : Io) : update addr reg s = s.put addr reg := by
  have done : update_holding_reg addr reg s = some (s.put addr reg) := if_neg (Nat.not_le.mpr inside)
  rw [update, done, Option.getD_some]

def udp_factory_reset (cap now : Nat) (cmd : UInt8) (u : UdpCfg) (s : Io) : List UInt8 × UdpCfg × Io :=
  if u.factory_reset_confirmed = false ∧ (now + 2^32 - u.factory_reset_pending_ms) % 2^32 > 5000 then
    (reply_ok cap cmd 0, { u with factory_reset_pending_ms := now }, s)
  else
    (reply_ok cap cmd 1, { u with factory_reset_confirmed := false, factory_reset_reboot_pending := true },
      { s with store := config_store_erase_all s.store })

def get_version (v : FwVersion) (cap : Nat) (cmd : UInt8) : List UInt8 :=
  -- what is left of the buffer is compared in 16 bits
  let room (pos : Nat) : Nat := (cap + 2^16 - pos) % 2^16
  if cap < 2 then []
  else if room 2 < 1 then []
  else if room 4 < 1 then []
  else if room 6 < 1 then []
  else if room 8 < 6 then []
  else [cmd, 118, 48 + v.major, 46, 48 + v.minor, 46, 48 + v.patch, 95] ++ v.git.toList

def udp_app_cmd (v : FwVersion) (cap now : Nat) (cmd : UInt8) (data : List UInt8) (u : UdpCfg) (s : Io) :
    List UInt8 × UdpCfg × Io :=
  if cmd = UDP_CMD_SET_IP then
    if data.length ≥ 4 ∧ ip_addr_valid (data.getD 0 0) (data.getD 1 0) (data.getD 2 0) (data.getD 3 0) then
      let s := update HOLDING_IP_OCTET1_IDX (data.getD 0 0).toUInt16 s
      let s := update HOLDING_IP_OCTET2_IDX (data.getD 1 0).toUInt16 s
      let s := update HOLDING_IP_OCTET3_IDX (data.getD 2 0).toUInt16 s
      let s := update HOLDING_IP_OCTET4_IDX (data.getD 3 0).toUInt16 s
      (reply_ok cap cmd 1, u, holding_reg_save s)
    else (reply_ok cap cmd 0, u, s)
  else if cmd = UDP_CMD_GET_IP then
    (if cap < 5 then []
      else [cmd, reg8 HOLDING_IP_OCTET1_IDX s, reg8 HOLDING_IP_OCTET2_IDX s, reg8 HOLDING_IP_OCTET3_IDX s,
        reg8 HOLDING_IP_OCTET4_IDX s], u, s)
  else if cmd = UDP_CMD_SET_MODBUS then
    if data.length ≥ 3 then
      let s := update HOLDING_SLAVE_ID_IDX (data.getD 0 0).toUInt16 s
      let s := update HOLDING_RS485_BAUDRATE_IDX (UInt16.ofNat (io_get_be16 (data.drop 1))) s
      (reply_ok cap cmd 1, u, holding_reg_save s)
    else (reply_ok cap cmd 0, u, s)
  else if cmd = UDP_CMD_GET_MODBUS then
    (if cap < 4 then []
      else [cmd, reg8 HOLDING_SLAVE_ID_IDX s] ++ io_put_be16 (get_holding_reg HOLDING_RS485_BAUDRATE_IDX s).toNat, u, s)
  else if cmd = UDP_CMD_SET_TIME then
    if data.length ≥ 4 then
      let (ok, s) := set_timestamp (io_get_be32 data) s
      (reply_ok cap cmd (if ok then 1 else 0), u, s)
    else (reply_ok cap cmd 0, u, s)
  else if cmd = UDP_CMD_GET_VERSION then (get_version v cap cmd, u, s)
  else if cmd = UDP_CMD_REBOOT then (reply_ok cap cmd 1, { u with reboot_reboot_pending := true }, s)
  else if cmd = UDP_CMD_FACTORY_RESET then udp_factory_reset cap now cmd u s
  else ([], u, s)

def udp_cmd_bcast_allowed (cmd : UInt8) : Bool := cmd = UDP_CMD_GET_IP

def web_cmd_exec_do (index value : Int) (s : Io) : Option Io :=
  if index < 0 ∨ index ≥ DO_NUM then none else io_write_do_bit index.toNat (value ≠ 0) s

/-- A write of the reset register only asks for a reset, so that the reply still goes out. -/
def web_cmd_exec_reg (addr value : Int) (s : Io) : Option Io :=
  if addr < 0 ∨ addr ≥ MODBUS_HOLDING_REGISTER_NUMBERS ∨ value < 0 ∨ value > 0xFFFF then none
  else if addr = HOLDING_REBOOT_IDX then some (if value ≠ 0 then set_reboot_status true s else s)
  else io_write_holding addr.toNat (UInt16.ofNat value.toNat) s

/-- One round of the task: `prev_up` is its local variable, `up` is what it finds. -/
def net_mon_task (up : Bool) (prev_up : Bool) (s : Io) : Bool × Io :=
  (up, if !up && prev_up then mb_set_do 0 (update HOLDING_DO_IDX 0 s) else s)

end IoEdgeHub.Commands
