import IoEdgeHub.FwUdp

/-!
The WebSocket upgrade channel (`web/ws.c`): the `fw_start` and `fw_end` commands
and the binary frames of the TCP/IP thread, and the worker that starts and ends
a session for it. A command is modelled behind its JSON text, with the fields
that the JSON accessors found in it.
-/
namespace IoEdgeHub.WsUpgrade
open IoEdgeHub.Bytes IoEdgeHub.Crc IoEdgeHub.FwUpg IoEdgeHub.Calls

def b64_val (ch : UInt8) : Option Nat :=
  if 65 ≤ ch ∧ ch ≤ 90 then some (ch.toNat - 65)
  else if 97 ≤ ch ∧ ch ≤ 122 then some (ch.toNat - 97 + 26)
  else if 48 ≤ ch ∧ ch ≤ 57 then some (ch.toNat - 48 + 52)
  else if ch = 43 then some 62
  else if ch = 47 then some 63
  else none

/-- The padding and the white space that the decoder skips. -/
def b64_skip (ch : UInt8) : Bool := ch = 61 ∨ ch = 32 ∨ ch = 13 ∨ ch = 10

/-- The loop of `b64_decode` with its accumulator, its bit count and its output. -/
def b64_loop (dst_max : Nat) : List UInt8 → Nat → Nat → List UInt8 → Option (List UInt8)
  | [], _, _, dst => some dst
  | ch :: src, acc, nbits, dst =>
    match b64_val ch with
    | none => if b64_skip ch then b64_loop dst_max src acc nbits dst else none
    | some v =>
      if nbits + 6 ≥ 8 then
        if dst.length ≥ dst_max then none
        else b64_loop dst_max src ((acc * 2^6 + v) % 2^32) (nbits + 6 - 8)
          (dst ++ [UInt8.ofNat ((acc * 2^6 + v) % 2^32 / 2^(nbits + 6 - 8))])
      else b64_loop dst_max src ((acc * 2^6 + v) % 2^32) (nbits + 6) dst

def b64_decode (src : List UInt8) (dst_max : Nat) : Option (List UInt8) := b64_loop dst_max src 0 0 []

/-- A queued operation. -/
inductive WsFwOp
  | START (total : Nat) (kh : Option (List UInt8))
  | END (crc : UInt16)
  deriving DecidableEq, Repr

/-- The texts that the channel answers with. -/
def okReply : String := "\x7b\"ok\":true\x7d"
def errReply (err : String) : String := "\x7b\"ok\":false,\"err\":\"" ++ err ++ "\"\x7d"

/-- What the worker does at the end of an operation. -/
structure Answer where
  json : String
  reboot : Bool := false
  deriving DecidableEq, Repr

def start_answer (rc : Int) : String :=
  if rc = 0 then okReply
  else if rc = -2 then errReply "keyhash mismatch"
  else if rc = -3 then errReply "already in progress"
  else errReply "erase/init"

def ws_fw_end (crc : UInt16) : Prog Call Answer := do
  let got ← Prog.once .received
  if got = 0 then
    let _ ← Prog.once .abort
    return ⟨errReply "no data", false⟩
  else
    let total ← Prog.once .total
    if got ≠ total then
      let _ ← Prog.once .abort
      return ⟨errReply "size mismatch", false⟩
    else
      let rc ← Prog.once (.finish crc true)
      if rc ≠ 0 then return ⟨errReply "crc mismatch", false⟩
      else
        let done ← Prog.once (.set_pending true)
        if !done then return ⟨errReply "boot_request", false⟩
        else return ⟨okReply, true⟩

/-- The worker on one operation. -/
def ws_fw_task : WsFwOp → Prog Call Answer
  | .START total kh => do
    let rc ← Prog.once (.start total kh)
    return ⟨start_answer rc, false⟩
  | .END crc => ws_fw_end crc

def ws_crc16 (seed : UInt16) (src : List UInt8) : UInt16 := crc16_ccitt seed src

/-- A message of the channel. -/
inductive WsMsg
  | fw_start (fw_size : Int) (keyhash : Option (List UInt8))
  | fw_end
  | binary (payload : List UInt8)
  deriving DecidableEq, Repr

/-- The operation that an `fw_start` command is queued as, or the text it is refused with. -/
def fw_start_op (fw_size : Int) (keyhash : Option (List UInt8)) : Except String WsFwOp :=
  if fw_size ≤ 0 then .error (errReply "bad size")
  else
    match keyhash with
    | none => .ok (.START fw_size.toNat none)
    | some b64 =>
      match b64_decode b64 FW_KEYHASH_LEN with
      | none => .error (errReply "keyhash mismatch")
      | some kh => if kh.length = FW_KEYHASH_LEN then .ok (.START fw_size.toNat (some kh)) else
          .error (errReply "keyhash mismatch")

/-- A binary frame is written to the session that is open, and counts towards
    the checksum of the connection when it was taken. -/
def ws_binary (payload : List UInt8) (fw_crc : UInt16) : Prog Call UInt16 := do
  let active ← Prog.once .active
  if active then
    let rc ← Prog.once (.write payload)
    if rc = 0 then return ws_crc16 fw_crc payload else return fw_crc
  else return fw_crc

/-- A message from its arrival to the end of the operation it queues, with the
    checksum of the connection. -/
def ws_message (fw_crc : UInt16) : WsMsg → Prog Call (Option Answer × UInt16)
  | .fw_start fw_size keyhash =>
    match fw_start_op fw_size keyhash with
    | .error json => return (some ⟨json, false⟩, fw_crc)
    | .ok op => do
      let answer ← ws_fw_task op
      return (some answer, fw_crc)
  | .fw_end => do
    let active ← Prog.once .active
    if !active then return (some ⟨errReply "not in progress", false⟩, fw_crc)
    else
      let answer ← ws_fw_task (.END fw_crc)
      return (some answer, fw_crc)
  | .binary payload => do
    let fw_crc ← ws_binary payload fw_crc
    return (none, fw_crc)

end IoEdgeHub.WsUpgrade
