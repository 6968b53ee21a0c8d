import IoEdgeHub.Commands
import IoEdgeHub.Downloads
import IoEdgeHub.Json

/-!
The commands of the web interface that carry JSON: the configuration (`web_cmd_exec_cfg` in
`web/web_cmds.c`), the POST routes of `dispatch` in `web/httpd.c`, and the text commands of
`ws_handle_cmd` in `web/ws.c`. A text is the first `len` bytes of the memory `mem`.
-/
namespace IoEdgeHub.WebCmds
open IoEdgeHub.CStrings IoEdgeHub.Json IoEdgeHub.ConfigStore IoEdgeHub.Regmap IoEdgeHub.Commands IoEdgeHub.Httpd
open IoEdgeHub.Ws (WS_RX_MAX)
open IoEdgeHub.Downloads (history_web_name_valid)

/-- What a field asks for: nothing if it is not there, and the registers with their values if it is valid. -/
inductive Asked
  | absent
  | refused (err : String)
  | writes (regs : List (Nat × UInt16))

/-- The loop over the octets of an address, with as many as are still to come. -/
def octets : Nat → List UInt8 → Option (List UInt8)
  | 0, _ => some []
  | left + 1, p =>
    match strtoul p with
    | none => none
    | some (v, e) =>
      if v > 255 ∨ (0 < left ∧ e.head? ≠ some 46) then none
      else (octets left e.tail).map fun rest => UInt8.ofNat v :: rest

section
variable (mem : List UInt8) (len : Nat)

def ip_field : Asked :=
  let ip_str := json_get_str mem len (ascii "ip") 16
  if ip_str.1 then
    match octets 4 ip_str.2 with
    | some [a, b, c, d] =>
      if ip_addr_valid a b c d then
        .writes [(HOLDING_IP_OCTET1_IDX, a.toUInt16), (HOLDING_IP_OCTET2_IDX, b.toUInt16),
          (HOLDING_IP_OCTET3_IDX, c.toUInt16), (HOLDING_IP_OCTET4_IDX, d.toUInt16)]
      else .refused "invalid ip"
    | _ => .refused "invalid ip"
  else .absent

/-- A field with a number and the register that it goes to. -/
def number_field (key err : String) (valid : Int → Bool) (addr : Nat) : Asked :=
  match json_get_i32 mem len (ascii key) with
  | none => .absent
  | some v => if valid v then .writes [(addr, UInt16.ofNat v.toNat)] else .refused err

def rs485_field : Asked :=
  number_field mem len "rs485" "invalid rs485 baud" (fun v => 1200 ≤ v ∧ v ≤ 115200) HOLDING_RS485_BAUDRATE_IDX

def sid_field : Asked :=
  number_field mem len "sid" "invalid slave id" (fun v => 1 ≤ v ∧ v ≤ 247) HOLDING_SLAVE_ID_IDX

def can_bps_field : Asked :=
  number_field mem len "can_bps" "invalid can baud" (fun v => v ∈ [50, 100, 125, 250, 500, 800, 1000])
    HOLDING_CAN_BAUDRATE_IDX

def can_id_field : Asked :=
  number_field mem len "can_id" "invalid can id" (fun v => 1 ≤ v ∧ v ≤ 0x7FF) HOLDING_CAN_ID_IDX

/-- The result of a write is not looked at. -/
def write_holding (s : Io) (r : Nat × UInt16) : Io := (io_write_holding r.1 r.2 s).getD s

/-- The fields one after the other: each is checked and written before the next one is looked at. -/
def exec_fields : List Asked → Io → Option String × Io
  | [], s => (none, s)
  | .absent :: rest, s => exec_fields rest s
  | .refused err :: _, s => (some err, s)
  | .writes regs :: rest, s => exec_fields rest (regs.foldl write_holding s)

/-- The order in which the fields are looked at. -/
def cfg_fields : List Asked :=
  [ip_field mem len, rs485_field mem len, sid_field mem len, can_bps_field mem len, can_id_field mem len]

/-- The text of the error with which it returns -1, nothing if it returns 0. -/
def web_cmd_exec_cfg (s : Io) : Option String × Io := exec_fields (cfg_fields mem len) s

end

def JSON_OK : List UInt8 := ascii "\x7b\"ok\":true\x7d"

def respond_json_ok : Route := .mem (ascii "200 OK") (ascii "application/json") [] JSON_OK

def json_err_route (status err : String) : Route := .mem (ascii status) (ascii "application/json") [] (json_err err)

def bad_request (err : String) : Route := json_err_route "400 Bad Request" err

/-- The answer to a command that may fail without an effect. -/
def done_or (err : String) (s : Io) : Option Io → Route × Io
  | some s' => (respond_json_ok, s')
  | none => (bad_request err, s)

section
variable (mem : List UInt8) (len : Nat) (s : Io)

def post_do : Route × Io :=
  done_or "invalid index/value" s <|
    (json_get_i32 mem len (ascii "index")).bind fun index =>
      (json_get_i32 mem len (ascii "value")).bind fun value => web_cmd_exec_do index value s

def post_reg : Route × Io :=
  done_or "invalid addr/value" s <|
    (json_get_i32 mem len (ascii "addr")).bind fun addr =>
      (json_get_i32 mem len (ascii "value")).bind fun value => web_cmd_exec_reg addr value s

def post_time : Route × Io :=
  match json_get_i32 mem len (ascii "ts") with
  | none => (bad_request "invalid timestamp", s)
  | some ts =>
    let set := set_timestamp ts s
    (if set.1 then respond_json_ok else bad_request "invalid timestamp", set.2)

def post_cfg : Route × Io :=
  let result := web_cmd_exec_cfg mem len s
  (result.1.elim respond_json_ok bad_request, result.2)

end

def known_paths : List String :=
  ["/", "/api/info", "/api/io", "/api/regs", "/api/history", "/api/history/download", "/ws", "/api/do", "/api/reg",
    "/api/time", "/api/cfg", "/api/save", "/api/reboot", "/api/history/delete"]

section
variable {ω : Type} (history_web_remove : List UInt8 → ω → Bool × ω)

/-- A command that concerns the registers only. -/
def registers (r : Route × Io) (w : ω) : Route × Io × ω := (r.1, r.2, w)

/-- What `dispatch` does with a POST request; `ω` are the files of the history. -/
def dispatch_post (path : List UInt8) (mem : List UInt8) (len : Nat) (s : Io) (w : ω) : Route × Io × ω :=
  if path = ascii "/api/do" then registers (post_do mem len s) w
  else if path = ascii "/api/reg" then registers (post_reg mem len s) w
  else if path = ascii "/api/time" then registers (post_time mem len s) w
  else if path = ascii "/api/save" then registers (respond_json_ok, holding_reg_save s) w
  else if path = ascii "/api/reboot" then registers (respond_json_ok, set_reboot_status true s) w
  else if path = ascii "/api/cfg" then registers (post_cfg mem len s) w
  else if path = ascii "/api/history/delete" then
    let name := json_get_str mem len (ascii "name") 32
    if name.1 ∧ history_web_name_valid name.2 then
      let removed := history_web_remove name.2 w
      (if removed.1 then respond_json_ok else bad_request "delete failed", s, removed.2)
    else (bad_request "delete failed", s, w)
  else if path ∈ known_paths.map ascii then (json_err_route "405 Method Not Allowed" "method not allowed", s, w)
  else (json_err_route "404 Not Found" "not found", s, w)

end

section
variable (web_build_io_json : Io → List UInt8) (fw_cmd : List UInt8 → Nat → Io → Option (List UInt8) × Io)

/-- `cmd` is the memory from the value of the command on. `fw_cmd` are the two commands of an upgrade, which the worker
    answers. -/
def ws_handle_cmd (cmd : List UInt8) (len : Nat) (s : Io) : Option (List UInt8) × Io :=
  let number (key : String) := json_get_i32 cmd len (ascii key)
  let is (name : String) : Bool := cmd.take (name.length + 2) = 34 :: (ascii name ++ [34])
  if is "do" ∧ (number "index").isSome ∧ (number "value").isSome then
    match web_cmd_exec_do ((number "index").getD 0) ((number "value").getD 0) s with
    | some s => (some (web_build_io_json s), s)
    | none => (some (json_err "bad index"), s)
  else if is "reg" ∧ (number "addr").isSome ∧ (number "value").isSome then
    match web_cmd_exec_reg ((number "addr").getD 0) ((number "value").getD 0) s with
    | some s => (some JSON_OK, s)
    | none => (some (ascii "\x7b\"ok\":false\x7d"), s)
  else if is "time" ∧ (number "ts").isSome then
    let set := set_timestamp ((number "ts").getD 0) s
    (some (if set.1 then JSON_OK else ascii "\x7b\"ok\":false\x7d"), set.2)
  else if is "cfg" then
    let result := web_cmd_exec_cfg cmd len s
    (some (result.1.elim JSON_OK json_err), result.2)
  else if is "save" then (some JSON_OK, holding_reg_save s)
  else if is "factory_reset" then
    (some JSON_OK, set_reboot_status true { s with store := config_store_erase_all s.store })
  else if is "fw_start" ∨ is "fw_end" then fw_cmd cmd len s
  else (some (json_err "unknown cmd"), s)

/-- A text frame: a zero is put behind it, before what an earlier frame has left. -/
def ws_text (payload stale : List UInt8) (s : Io) : Option (List UInt8) × Io :=
  if payload.length < WS_RX_MAX then
    let mem := payload ++ 0 :: stale
    match json_find_value mem payload.length (ascii "cmd") with
    | none => (none, s)
    | some cmd => ws_handle_cmd web_build_io_json fw_cmd (mem.drop cmd) (payload.length - cmd) s
  else (none, s)

end

end IoEdgeHub.WebCmds
