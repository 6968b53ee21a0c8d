import IoEdgeHub.Calls
import IoEdgeHub.Ws

/-!
The web server (`web/httpd.c`) with the WebSocket session it hands a connection to
(`web/ws.c`). Everything runs in callbacks of the TCP/IP thread; the stack, the clock, the
routes, the commands and the files are reached through calls. The loops over requests and
over pieces of a file run for as many rounds as `fuel` says at most.
-/
namespace IoEdgeHub.Httpd
open IoEdgeHub.Bytes IoEdgeHub.Calls IoEdgeHub.CStrings IoEdgeHub.Ws

def HTTP_RX_BUF : Nat := 640
def HTTP_HDR_MAX : Nat := 256
def HTTP_DL_CHUNK : Nat := 512
def HTTP_RX_IDLE_MS : UInt32 := 5000
def HTTP_TX_STALL_MS : UInt32 := 10000
def HTTP_IDLE_MS : UInt32 := 60000
def WS_PUSH_MS : UInt32 := 1000
def WS_INFO_MS : UInt32 := 10000

/-- One of the two connections. -/
abbrev Slot := Fin 2

inductive RespKind | RESP_NONE | RESP_MEM | RESP_FILE
deriving DecidableEq

/-- `tail` is what follows `rx` in its buffer up to a zero byte: the zero is written behind what
    is received, and stays where it is when a request is taken off. -/
structure Conn where
  pcb : Bool := false
  is_ws : Bool := false
  rx : List UInt8 := []
  tail : List UInt8 := []
  hdr_done : Bool := false
  body_off : Nat := 0
  content_len : Nat := 0
  cli_close : Bool := false
  kind : RespKind := .RESP_NONE
  keep_alive : Bool := false
  rsp_total : Nat := 0
  written : Nat := 0
  acked : Nat := 0
  hdr : List UInt8 := []
  hdr_sent : Nat := 0
  body : List UInt8 := []
  body_sent : Nat := 0
  dl_size : Nat := 0
  dl_sent : Nat := 0
  dl_chunk : List UInt8 := []
  dl_chunk_off : Nat := 0
  t_rx : UInt32 := 0
  t_ack : UInt32 := 0
  t_idle : UInt32 := 0
deriving DecidableEq

/-- The WebSocket session. `pcb` is the connection it writes to. -/
structure Session where
  active : Bool := false
  pcb : Option Slot := none
  rx : Rx := {}
  t_push : UInt32 := 0
  t_info : UInt32 := 0
deriving DecidableEq

structure Web where
  conns : Slot → Conn := fun _ => {}
  ws : Session := {}
  ws_conn : Option Slot := none

def Web.set (w : Web) (i : Slot) (c : Conn) : Web := { w with conns := fun j => if j = i then c else w.conns j }

/-- Which of its calls of `tcp_write` and `tcp_sndbuf` the server makes. -/
inductive Site | pump | frame_header | frame_payload
deriving DecidableEq

inductive Err | ERR_OK | ERR_MEM | ERR_OTHER
deriving DecidableEq

/-- What a route answers: a body in memory, or a file of a size. -/
inductive Route
  | mem (status ctype extra body : List UInt8)
  | file (size : Nat) (extra : List UInt8)

/-- Calls to the stack, and to what lies behind the routes and the commands. `accepted` and
    `attached` are the log lines of a new connection and of a new session, with the bytes that
    `ws_attach` was given; a command comes with the connection that its answer goes to. -/
inductive Call : Type → Type
  | accepted (i : Slot) : Call Unit
  | attached (i : Slot) (pending : List UInt8) : Call Unit
  | tcp_sndbuf (site : Site) (i : Slot) : Call Nat
  | tcp_write (site : Site) (i : Slot) (bytes : List UInt8) : Call Err
  | tcp_output (i : Slot) : Call Unit
  | tcp_mss (i : Slot) : Call Nat
  | tcp_close (i : Slot) : Call Unit
  | tcp_abort : Call Unit
  | now_ms : Call UInt32
  | behind_rx (i : Slot) (size : Nat) : Call (List UInt8)
  | dispatch (method path : List UInt8) (query : Option (List UInt8)) (body : List UInt8) : Call Route
  | history_web_read (size : Nat) : Call (Option (List UInt8))
  | history_web_close : Call Unit
  | ws_handle_cmd (i : Option Slot) (text : List UInt8) : Call (Option (List UInt8))
  | fw_upg_write (payload : List UInt8) : Call Unit
  | web_build_io_json : Call (List UInt8)
  | web_build_regs_json : Call (List UInt8)
  | web_build_info_json : Call (List UInt8)

def call {β : Type} (c : Call β) : Prog Call β := .once c

/-- The header of a response, if it fits its buffer. -/
@[irreducible]
def rsp_begin (c : Conn) (now : UInt32) (status ctype : List UInt8) (clen : Nat) (keep : Bool) (extra : List UInt8) :
    Option Conn :=
  let text := ascii "HTTP/1.1 " ++ status ++ ascii "\r\nContent-Type: " ++ ctype ++ ascii "\r\nContent-Length: " ++
    decimal clen ++ ascii "\r\nConnection: " ++ ascii (if keep then "keep-alive" else "close") ++ ascii "\r\n" ++ extra ++
    ascii "\r\n"
  if text.length ≥ HTTP_HDR_MAX then none
  else some { c with hdr := text, hdr_sent := 0, body_sent := 0, written := 0, acked := 0,
                     keep_alive := keep && !c.cli_close, rsp_total := text.length + clen, t_ack := now }

def respond_mem (c : Conn) (status ctype body : List UInt8) (keep : Bool) (extra : List UInt8) : Prog Call Conn := do
  let now ← call .now_ms
  match rsp_begin c now status ctype body.length keep extra with
  | none => pure { c with kind := .RESP_NONE }
  | some c => pure { c with body, kind := .RESP_MEM }

def json_err (err : String) : List UInt8 := ascii "\x7b\"ok\":false,\"err\":\"" ++ ascii err ++ ascii "\"\x7d"

def respond_json_err (c : Conn) (status err : String) : Prog Call Conn :=
  respond_mem c (ascii status) (ascii "application/json") (json_err err) true []

/-- The response of a route. -/
def respond (c : Conn) : Route → Prog Call Conn
  | .mem status ctype extra body => respond_mem c status ctype body true extra
  | .file size extra => do
    let now ← call .now_ms
    match rsp_begin c now (ascii "200 OK") (ascii "application/octet-stream") size false extra with
    | some c => pure { c with dl_size := size, dl_sent := 0, dl_chunk := [], dl_chunk_off := 0, kind := .RESP_FILE }
    | none => do
      call .history_web_close
      respond_json_err c "500 Internal Server Error" "server error"

def ws_detach (w : Web) : Web := { w with ws := { w.ws with active := false, pcb := none } }

/-- The session is given up if it is this connection's. -/
def leave_ws (i : Slot) (w : Web) : Web :=
  if (w.conns i).is_ws then
    ws_detach { w.set i { w.conns i with is_ws := false } with
      ws_conn := if w.ws_conn = some i then none else w.ws_conn }
  else w

def conn_close (i : Slot) (w : Web) : Prog Call Web := do
  let w := leave_ws i w
  let c := w.conns i
  if c.pcb then call (.tcp_close i)
  if c.kind = .RESP_FILE then call .history_web_close
  pure (w.set i { c with pcb := false, kind := .RESP_NONE, rx := [], hdr_done := false })

def ws_closed_cb (w : Web) : Prog Call Web :=
  match w.ws_conn with
  | none => pure w
  | some i => conn_close i { w with ws_conn := none }

def ws_close_session (w : Web) : Prog Call Web :=
  if w.ws.active then ws_closed_cb (ws_detach w) else pure w

/-- A frame is written if there is room for all of it, its header first. -/
def ws_send (w : Web) (opcode : UInt8) (payload : List UInt8) : Prog Call Unit :=
  match (if w.ws.active then w.ws.pcb else none) with
  | none => pure ()
  | some i => do
    let snd ← call (.tcp_sndbuf .frame_header i)
    if snd < (ws_header opcode payload.length).length + payload.length then pure ()
    else do
      let e ← call (.tcp_write .frame_header i (ws_header opcode payload.length))
      if e ≠ .ERR_OK then pure ()
      else if payload = [] then call (.tcp_output i)
      else do
        let e ← call (.tcp_write .frame_payload i payload)
        if e = .ERR_OK then call (.tcp_output i) else pure ()

/-- A whole frame has arrived. -/
def ws_frame_done (w : Web) : Prog Call Web :=
  let rx := w.ws.rx
  if ¬ rx.fin then do
    ws_send w 0x8 []
    ws_close_session w
  else if rx.op = 0x1 then do
    if rx.payload.length < WS_RX_MAX then
      let answer ← call (.ws_handle_cmd w.ws.pcb rx.payload)
      match answer with
      | some json => ws_send w 0x1 json
      | none => pure ()
    pure w
  else if rx.op = 0x2 then do
    call (.fw_upg_write rx.payload)
    pure w
  else if rx.op = 0x8 then do
    ws_send w 0x8 []
    ws_close_session w
  else if rx.op = 0x9 then do
    ws_send w 0xA rx.payload
    pure w
  else if rx.op = 0xA then pure w
  else ws_close_session w

def Web.setRx (w : Web) (rx : Rx) : Web := { w with ws := { w.ws with rx } }

def ws_feed (w : Web) : List UInt8 → Prog Call Web
  | [] => pure w
  | b :: data =>
    if ¬ w.ws.active then pure w
    else
      match ws_byte w.ws.rx b with
      | (.next, rx) => ws_feed (w.setRx rx) data
      | (.close, rx) => ws_close_session (w.setRx rx)
      | (.frame_done, rx) => do
        let w ← ws_frame_done (w.setRx rx)
        if ¬ w.ws.active then pure w
        else ws_feed (w.setRx { w.ws.rx with state := .WS_HDR, hdr := [] }) data

/-- The state is pushed every `WS_PUSH_MS`. -/
def push_state (now : UInt32) (w : Web) : Prog Call Web :=
  if now - w.ws.t_push ≥ WS_PUSH_MS then do
    let io ← call .web_build_io_json
    ws_send w 0x1 io
    let regs ← call .web_build_regs_json
    ws_send w 0x1 regs
    pure { w with ws := { w.ws with t_push := now } }
  else pure w

/-- What the device says of itself, every `WS_INFO_MS`. -/
def push_info (now : UInt32) (w : Web) : Prog Call Web :=
  if now - w.ws.t_info ≥ WS_INFO_MS then do
    let info ← call .web_build_info_json
    ws_send w 0x1 info
    pure { w with ws := { w.ws with t_info := now } }
  else pure w

def ws_poll (w : Web) : Prog Call Web := do
  let now ← call .now_ms
  if ¬ w.ws.active then pure w
  else do
    let w ← push_state now w
    push_info now w

/-- The session begins on connection `i`, with what was received behind the request. -/
def ws_attach (i : Slot) (pending : List UInt8) (w : Web) : Prog Call Web :=
  if w.ws.active then pure w
  else do
    let now ← call .now_ms
    call (.attached i pending)
    ws_feed { w with ws := { active := true, pcb := some i, rx := { w.ws.rx with state := .WS_HDR, hdr := [], payload := [] },
                             t_push := now - WS_PUSH_MS + 500, t_info := now - WS_INFO_MS + 500 } } pending

/-- Bytes of the header or of the body were taken. -/
def Conn.advance (c : Conn) (n : Nat) : Conn :=
  if c.hdr_sent < c.hdr.length then { c with hdr_sent := c.hdr_sent + n, written := c.written + n }
  else { c with body_sent := c.body_sent + n, written := c.written + n }

/-- The rest of the header, or of the body when there is none. -/
def Conn.unsent (c : Conn) : List UInt8 :=
  if c.hdr_sent < c.hdr.length then c.hdr.drop c.hdr_sent else c.body.drop c.body_sent

/-- Writes what there is room for. Whether the connection can go on, and the connection. -/
def pump_mem (i : Slot) : Nat → Conn → Prog Call (Bool × Conn)
  | 0, c => pure (true, c)
  | fuel + 1, c =>
    if c.hdr_sent < c.hdr.length ∨ c.body_sent < c.body.length then do
      let snd ← call (.tcp_sndbuf .pump i)
      if snd = 0 then pure (true, c)
      else do
        let e ← call (.tcp_write .pump i (c.unsent.take snd))
        match e with
        | .ERR_OK => pump_mem i fuel (c.advance (c.unsent.take snd).length)
        | .ERR_MEM => pure (true, c)
        | .ERR_OTHER => pure (false, c)
    else pure (true, c)

/-- The header of a download. -/
def pump_file_hdr (i : Slot) : Nat → Conn → Prog Call (Bool × Conn)
  | 0, c => pure (true, c)
  | fuel + 1, c =>
    if c.hdr_sent < c.hdr.length then do
      let snd ← call (.tcp_sndbuf .pump i)
      if snd = 0 then pure (true, c)
      else do
        let e ← call (.tcp_write .pump i ((c.hdr.drop c.hdr_sent).take snd))
        match e with
        | .ERR_OK => pump_file_hdr i fuel (c.advance ((c.hdr.drop c.hdr_sent).take snd).length)
        | .ERR_MEM => pure (true, c)
        | .ERR_OTHER => pure (false, c)
    else pure (true, c)

/-- The next piece of the file, if the last one was written: whether there is something to write. -/
def next_chunk (c : Conn) : Prog Call (Option (Bool × Conn)) :=
  if c.dl_chunk_off ≠ c.dl_chunk.length then pure (some (true, c))
  else if c.dl_sent ≥ c.dl_size then pure (some (false, c))
  else do
    let read ← call (.history_web_read (min (c.dl_size - c.dl_sent) HTTP_DL_CHUNK))
    match read with
    | none => pure none
    | some bytes =>
      if bytes = [] then pure (some (false, { c with rsp_total := c.hdr.length + c.dl_sent, dl_size := c.dl_sent }))
      else pure (some (true, { c with dl_chunk := bytes, dl_chunk_off := 0, dl_sent := c.dl_sent + bytes.length }))

def pump_file_data (i : Slot) (mss : Nat) : Nat → Conn → Prog Call (Bool × Conn)
  | 0, c => pure (true, c)
  | fuel + 1, c =>
    if c.written - c.acked < 4 * mss then do
      let next ← next_chunk c
      match next with
      | none => pure (false, c)
      | some (false, c) => pure (true, c)
      | some (true, c) => do
        let snd ← call (.tcp_sndbuf .pump i)
        if snd = 0 then pure (true, c)
        else do
          let bytes := (c.dl_chunk.drop c.dl_chunk_off).take snd
          let e ← call (.tcp_write .pump i bytes)
          match e with
          | .ERR_OK =>
            pump_file_data i mss fuel { c with dl_chunk_off := c.dl_chunk_off + bytes.length, written := c.written + bytes.length }
          | .ERR_MEM => pure (true, c)
          | .ERR_OTHER => pure (false, c)
    else pure (true, c)

def pump_file (fuel : Nat) (i : Slot) (c : Conn) : Prog Call (Bool × Conn) := do
  let mss ← call (.tcp_mss i)
  let (good, c) ← pump_file_hdr i (c.hdr.length - c.hdr_sent) c
  if ¬ good ∨ c.hdr_sent < c.hdr.length then pure (good, c) else pump_file_data i mss fuel c

/-- What there is room for of the response. -/
def pump_response (fuel : Nat) (i : Slot) (c : Conn) : Prog Call (Bool × Conn) :=
  if c.kind = .RESP_FILE then pump_file fuel i c
  else pump_mem i (c.hdr.length - c.hdr_sent + (c.body.length - c.body_sent)) c

/-- All of the response is acknowledged: the connection is closed, or goes on with `process`. -/
def response_done (process : Web → Prog Call Web) (i : Slot) (w : Web) (c : Conn) : Prog Call Web := do
  if c.kind = .RESP_FILE then call .history_web_close
  if ¬ c.keep_alive then conn_close i (w.set i { c with kind := .RESP_NONE, hdr_done := false })
  else do
    let now ← call .now_ms
    let w := w.set i { c with kind := .RESP_NONE, hdr_done := false, t_idle := now }
    if c.rx ≠ [] then process w else pure w

def conn_pump (fuel : Nat) (process : Web → Prog Call Web) (i : Slot) (w : Web) : Prog Call Web :=
  if ¬ (w.conns i).pcb ∨ (w.conns i).kind = .RESP_NONE then pure w
  else do
    let (good, c) ← pump_response fuel i (w.conns i)
    if ¬ good then conn_close i (w.set i c)
    else do
      call (.tcp_output i)
      if c.written ≥ c.rsp_total ∧ c.acked ≥ c.rsp_total then response_done process i w c
      else pure (w.set i c)

/-- Where the empty line that ends the header begins. -/
def find_hdr_end (rx : List UInt8) : Option Nat :=
  (List.range (rx.length - 3)).find? fun i => (rx.drop i).take 4 = [13, 10, 13, 10]

def is_blank (c : UInt8) : Bool := c = 32 || c = 9 || c = 13 || c = 10

/-- The first two words of a request, cut to the buffers they are kept in. -/
def split_req_line (buf : List UInt8) : List UInt8 × List UInt8 :=
  let line := (cstr buf).dropWhile is_blank
  let rest := (line.dropWhile (!is_blank ·)).dropWhile is_blank
  ((line.takeWhile (!is_blank ·)).take 7, (rest.takeWhile (!is_blank ·)).take 95)

/-- The path and the query of a target. -/
def split_query (target : List UInt8) : List UInt8 × Option (List UInt8) :=
  match strchr 63 target with
  | some (path, query) => (path, some query)
  | none => (target, none)

/-- What is left of the buffer after a request. -/
def Conn.consume (c : Conn) (used : Nat) : Conn :=
  { c with rx := c.rx.drop used, tail := (c.rx ++ c.tail).drop (c.rx.length - used), hdr_done := false }

/-- A request that is refused: its error goes out as far as there is room, then the connection closes. -/
def refuse (pump : Web → Prog Call Web) (i : Slot) (w : Web) (c : Conn) (err : String) (keep : Bool) : Prog Call Web := do
  let c ← respond_json_err c "400 Bad Request" err
  let w ← pump (w.set i { c with keep_alive := keep && c.keep_alive })
  if (w.conns i).pcb then conn_close i w else pure w

/-- The key of an upgrade request, with what lies behind the buffer when it is cut short. -/
def read_key (i : Slot) (rx : List UInt8) (off : Nat) : Prog Call (List UInt8) := do
  let key := (rx.drop off).take 24
  if key.length = 24 then pure key
  else do
    let more ← call (.behind_rx i (24 - key.length))
    pure (key ++ more)

/-- The response to an upgrade request, if it can be granted. -/
def upgrade_response (i : Slot) (w : Web) (hdr_len : Nat) : Prog Call (Option (List UInt8)) :=
  if w.ws.active then pure none
  else
    match ws_key (w.conns i).rx hdr_len with
    | none => pure none
    | some off => do
      let key ← read_key i (w.conns i).rx off
      pure (ws_handshake key 160)

/-- The connection is handed to the session, which takes what follows the request before the
    response goes out. -/
def upgrade (pump : Web → Prog Call Web) (i : Slot) (w : Web) (resp : List UInt8) : Prog Call Web := do
  let now ← call .now_ms
  let c := w.conns i
  let pending := c.rx.drop c.body_off
  let c := { c with hdr := resp, hdr_sent := 0, body := [], body_sent := 0, written := 0, acked := 0,
                    rsp_total := resp.length, kind := .RESP_MEM, keep_alive := true, t_ack := now, is_ws := true, rx := pending }
  let w ← ws_attach i pending { w.set i c with ws_conn := some i }
  pump (w.set i { w.conns i with rx := [], hdr_done := false })

/-- A request that is answered. -/
def answer (pump : Web → Prog Call Web) (i : Slot) (w : Web) (c : Conn) (used : Nat) (again : Web → Prog Call Web) :
    Prog Call Web := do
  let w ← pump (w.set i (c.consume used))
  if (w.conns i).kind ≠ .RESP_NONE then pure w else again w

def http_process_rx : Nat → Slot → Web → Prog Call Web
  | 0, _, w => pure w
  | fuel + 1, i, w =>
    let c := w.conns i
    let pump := conn_pump fuel (http_process_rx fuel i) i
    let again := http_process_rx fuel i
    if c.kind ≠ .RESP_NONE then pure w
    else if ¬ c.hdr_done then
      match find_hdr_end c.rx with
      | none => if c.rx.length ≥ HTTP_RX_BUF - 1 then refuse pump i w c "header too large" false else pure w
      | some hdr_len =>
        let (method, target) := split_req_line (c.rx ++ c.tail)
        if method = [] ∨ target = [] then refuse pump i w c "bad request" true
        else
          let content_len := match hdr_find c.rx hdr_len (ascii "Content-Length:") with
            | some off => strtoul_value (cstr ((c.rx ++ c.tail).drop off)) % 2^16
            | none => 0
          let c := { c with content_len, cli_close := (hdr_find c.rx hdr_len (ascii "Connection: close")).isSome,
                            body_off := hdr_len + 4, hdr_done := true }
          if content_len > 128 then refuse pump i w c "body too large" true
          else if method ≠ ascii "GET" then again (w.set i c)
          else
            let (path, query) := split_query target
            if path = ascii "/ws" ∧ (hdr_find c.rx hdr_len (ascii "Upgrade: websocket")).isSome then do
              let resp ← upgrade_response i (w.set i c) hdr_len
              match resp with
              | some resp => upgrade pump i (w.set i c) resp
              | none => do
                let c ← respond_json_err c "503 Service Unavailable" "ws busy"
                answer pump i w c c.body_off again
            else do
              let route ← call (.dispatch method path query [])
              let c ← respond c route
              answer pump i w c c.body_off again
    else if (c.rx.length - c.body_off) ≥ c.content_len then do
      let (method, target) := split_req_line (c.rx ++ c.tail)
      let (path, query) := split_query target
      let route ← call (.dispatch method path query ((c.rx.drop c.body_off).take c.content_len))
      let c ← respond c route
      answer pump i w c (c.body_off + c.content_len) again
    else pure w

def http_recv_cb (fuel : Nat) (i : Slot) (p : Option (List UInt8)) (w : Web) : Prog Call Web :=
  match p with
  | none => conn_close i w
  | some p =>
    let c := w.conns i
    if ¬ c.pcb then pure w
    else if c.is_ws then ws_feed w p
    else if p.length > HTTP_RX_BUF - 1 - c.rx.length then
      refuse (conn_pump fuel (http_process_rx fuel i) i) i w c "request too large" false
    else do
      let now ← call .now_ms
      http_process_rx fuel i (w.set i { c with rx := c.rx ++ p, tail := [], t_rx := now })

def http_sent_cb (fuel : Nat) (i : Slot) (len : Nat) (w : Web) : Prog Call Web :=
  let c := w.conns i
  if ¬ c.pcb then pure w
  else do
    let now ← call .now_ms
    let w := w.set i { c with acked := c.acked + len, t_ack := now }
    if c.is_ws then pure w else conn_pump fuel (http_process_rx fuel i) i w

def http_poll_cb (i : Slot) (w : Web) : Prog Call Web := do
  let now ← call .now_ms
  let c := w.conns i
  if ¬ c.pcb then pure w
  else if c.is_ws then ws_poll w
  else if c.kind ≠ .RESP_NONE then (if now - c.t_ack > HTTP_TX_STALL_MS then conn_close i w else pure w)
  else if c.rx ≠ [] ∨ c.hdr_done then (if now - c.t_rx > HTTP_RX_IDLE_MS then conn_close i w else pure w)
  else if now - c.t_rx > HTTP_IDLE_MS then conn_close i w
  else pure w

/-- The stack has given up the connection. -/
def http_err_cb (i : Slot) (w : Web) : Prog Call Web := do
  let w := leave_ws i w
  let c := w.conns i
  if c.kind = .RESP_FILE then call .history_web_close
  pure (w.set i { c with pcb := false, kind := .RESP_NONE, rx := [], hdr_done := false })

/-- The fields behind the receive buffer keep their values. -/
def Conn.fresh (c : Conn) (now : UInt32) : Conn :=
  { c with pcb := true, is_ws := false, rx := [], hdr_done := false, body_off := 0, content_len := 0, cli_close := false,
           t_rx := now, t_ack := now, t_idle := now }

def http_accept_cb (w : Web) : Prog Call Web :=
  match [(0 : Slot), 1].find? fun i => !(w.conns i).pcb with
  | none => do
    call .tcp_abort
    pure w
  | some i => do
    let now ← call .now_ms
    call (.accepted i)
    pure (w.set i ((w.conns i).fresh now))

/-- The answer of the upgrade worker. -/
def ws_fw_reply_cb (json : List UInt8) (w : Web) : Prog Call Web := do
  ws_send w 0x1 json
  pure w

end IoEdgeHub.Httpd
