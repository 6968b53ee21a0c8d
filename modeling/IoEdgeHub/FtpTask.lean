import IoEdgeHub.Ftpd
import Mathlib.Data.List.DropRight

/-!
The task of the FTP server (`net/ftpd.c`): one thread that waits for the listening
socket and the control connections at once, reads a line where there is something to
read, and closes what has been idle for too long. A control connection is read byte
by byte; the sessions' buffers and their commands are those of `Ftpd`.

Beside the sessions the task keeps, for the results about it, what it has heard on
each connection and which lines it has handled, and why a connection has ended. Times
are milliseconds since the start.
-/
namespace IoEdgeHub.FtpTask
open IoEdgeHub.Calls IoEdgeHub.CStrings IoEdgeHub.Ftpd

def FTP_MAX_CLIENTS : Nat := 3

def FTP_SESSION_TIMEOUT_MS : Nat := 120 * 1000

def FTP_CTRL_TIMEOUT_MS : Nat := 10000

/-- What one byte is asked for with: the byte, and when it was taken; nothing within the receive
    timeout (`EWOULDBLOCK`); or the end of the connection, by the peer or an error. -/
inductive Item
  | data (byte : UInt8) (time : Nat)
  | would_block
  | closed
deriving DecidableEq, Repr

/-- The task's own calls. `lwip_select` returns the descriptors that can be read, none
    when it timed out or failed; `lwip_accept` a descriptor, and when the connection was
    taken. The task itself only reads the time with `now_ms`, and keeps 32 bits of it. -/
inductive LoopCall : Type → Type
  | lwip_select (fds : List Int) : LoopCall (List Int)
  | lwip_accept (serv : Int) : LoopCall (Int × Nat)
  | lwip_recv (fd : Int) : LoopCall Item
  | now_ms : LoopCall Nat

inductive TaskCall (β : Type)
  | ftp (c : Ftpd.Call β)
  | task (c : LoopCall β)

def ftp {α : Type} (p : Prog Ftpd.Call α) : Prog TaskCall α := p.lift .ftp

def task {β : Type} (c : LoopCall β) : Prog TaskCall β := .once (.task c)

/-- The line ends that are cut off. -/
def strip (buf : List UInt8) : List UInt8 := buf.rdropWhile fun c => c = 13 ∨ c = 10

/-- The loop of `recv_line`, with room for `room` more characters: its result, the line, and what it heard. -/
def recv_loop (fd : Int) : Nat → List UInt8 → List Item → Prog TaskCall (Int × List UInt8 × List Item)
  | 0, buf, heard => pure ((strip buf).length, strip buf, heard)
  | room + 1, buf, heard => do
    let n ← task (.lwip_recv fd)
    match n with
    | .would_block => pure (-1, buf, heard ++ [n])
    | .closed => pure (0, buf, heard ++ [n])
    | .data byte _ =>
      if byte = 10 then pure ((strip buf).length, strip buf, heard ++ [n])
      else recv_loop fd room (buf ++ [byte]) (heard ++ [n])

def recv_line (fd : Int) (maxlen : Nat) : Prog TaskCall (Int × List UInt8 × List Item) := recv_loop fd (maxlen - 1) [] []

/-- A session, and of its connection when it was taken, what was heard on it and which lines
    were handled. -/
structure Slot where
  session : Session
  last_activity : UInt32 := 0
  accepted : Nat := 0
  heard : List Item := []
  lines : List (List UInt8) := []
deriving DecidableEq

/-- A slot without a client. -/
def Slot.empty : Slot := { session := { ctrl := -1 } }

inductive Reason
  | quit
  | gone
  | idle (now : Nat)
deriving DecidableEq, Repr

/-- A connection that has ended. -/
structure Ended where
  reason : Reason
  accepted : Nat
  heard : List Item
  lines : List (List UInt8)
deriving DecidableEq, Repr

/-- The commands handled, each with the session as it was, and the connections ended. -/
structure Log where
  handled : List (Session × List UInt8) := []
  ended : List Ended := []
deriving DecidableEq

def Log.append (l l' : Log) : Log := ⟨l.handled ++ l'.handled, l.ended ++ l'.ended⟩

def close_session (s : Session) : Prog TaskCall Slot := do
  if s.ctrl ≥ 0 then ftp (sock (.lwip_close s.ctrl))
  if s.data_listen ≥ 0 then ftp (sock (.lwip_close s.data_listen))
  pure .empty

/-- A connection on which there is something to read. -/
def serve (fuel : Nat) (slot : Slot) : Prog TaskCall (Slot × Log) := do
  let (rl, line, items) ← recv_line slot.session.ctrl FTP_BUF_SIZE
  let heard := slot.heard ++ items
  if rl > 0 then do
    let now ← task .now_ms
    let s ← ftp (handle_command fuel slot.session line)
    let lines := slot.lines ++ [line]
    pure ({ slot with session := s, last_activity := .ofNat now, heard := heard, lines := lines },
      ⟨[(slot.session, line)], if s.ctrl < 0 then [⟨.quit, slot.accepted, heard, lines⟩] else []⟩)
  else if rl = 0 then do
    let closed ← close_session slot.session
    pure (closed, ⟨[], [⟨.gone, slot.accepted, heard, slot.lines⟩]⟩)
  else pure ({ slot with heard := heard }, {})

/-- The slots in turn. -/
def serve_all (fuel : Nat) (ready : List Int) : List Slot → Prog TaskCall (List Slot × Log)
  | [] => pure ([], {})
  | slot :: rest => do
    let (slot, log) ← if slot.session.ctrl ≥ 0 ∧ slot.session.ctrl ∈ ready then serve fuel slot else pure (slot, {})
    let (rest, log') ← serve_all fuel ready rest
    pure (slot :: rest, log.append log')

/-- A client takes the first slot without one. -/
def seat (c : Int) (accepted now : Nat) : List Slot → List Slot
  | [] => []
  | slot :: rest =>
    if slot.session.ctrl < 0 then
      { session := { ctrl := c }, last_activity := .ofNat now, accepted := accepted } :: rest
    else slot :: seat c accepted now rest

def accept_client (serv : Int) (slots : List Slot) : Prog TaskCall (List Slot) := do
  let (c, accepted) ← task (.lwip_accept serv)
  if c ≥ 0 then
    if ∃ slot ∈ slots, slot.session.ctrl < 0 then do
      let now ← task .now_ms
      ftp (sock (.set_sock_timeout c FTP_CTRL_TIMEOUT_MS))
      ftp (ftp_send c "220 io-edge-hub FTP service ready")
      pure (seat c accepted now slots)
    else do
      let _ ← ftp (sock (.lwip_send c (ascii "421 Too many users" ++ crlf)))
      ftp (sock (.lwip_close c))
      pure slots
  else pure slots

def expire (now : Nat) : List Slot → Prog TaskCall (List Slot × Log)
  | [] => pure ([], {})
  | slot :: rest => do
    let (slot, log) ←
      if slot.session.ctrl ≥ 0 ∧ (.ofNat now - slot.last_activity).toNat > FTP_SESSION_TIMEOUT_MS then do
        let closed ← close_session slot.session
        pure (closed, (⟨[], [⟨.idle now, slot.accepted, slot.heard, slot.lines⟩]⟩ : Log))
      else pure (slot, {})
    let (rest, log') ← expire now rest
    pure (slot :: rest, log.append log')

/-- One round of the task. -/
def ftp_round (fuel : Nat) (serv : Int) (slots : List Slot) : Prog TaskCall (List Slot × Log) := do
  let ready ← task (.lwip_select (serv :: (slots.filter (·.session.ctrl ≥ 0)).map (·.session.ctrl)))
  let (slots, log) ←
    if ready ≠ [] then do
      let slots ← if serv ∈ ready then accept_client serv slots else pure slots
      serve_all fuel ready slots
    else pure (slots, {})
  let now ← task .now_ms
  let (slots, log') ← expire now slots
  pure (slots, log.append log')

/-- As many rounds as `rounds` says. -/
def ftp_rounds (fuel : Nat) (serv : Int) : Nat → List Slot → Prog TaskCall (List Slot × Log)
  | 0, slots => pure (slots, {})
  | rounds + 1, slots => do
    let (slots, log) ← ftp_round fuel serv slots
    let (slots, log') ← ftp_rounds fuel serv rounds slots
    pure (slots, log.append log')

/-- The task up to some round: the listening socket, the slots and the log; nothing when it could not be set up. -/
def ftp_task (fuel rounds : Nat) : Prog TaskCall (Option (Int × List Slot × Log)) := do
  let serv ← ftp (sock .lwip_socket)
  if serv < 0 then pure none
  else
    let bound ← ftp (sock (.lwip_bind serv))
    let rc ← if bound < 0 then pure (-1) else ftp (sock (.lwip_listen serv FTP_MAX_CLIENTS))
    if rc < 0 then pure none
    else
      let r ← ftp_rounds fuel serv rounds (List.replicate FTP_MAX_CLIENTS Slot.empty)
      pure (some (serv, r))

end IoEdgeHub.FtpTask
