import IoEdgeHub.CBuffers

/-!
The log ring (`sys/log.c`) and the task that drains it. Tasks put lines into the ring, each
under one lock and whole or not at all. The logger task sleeps until it is notified, sends
what is in the ring piece by piece, and reports the lines that were refused in the meantime.
Between any two of its steps other tasks may put lines into the ring.
-/
namespace IoEdgeHub.Log
open IoEdgeHub.CBuffers

def LOG_RING_SIZE : UInt32 := 4096
def LOG_RING_MASK : UInt32 := LOG_RING_SIZE - 1

structure LogRing where
  log_ring : Vector UInt8 4096
  ring_head : UInt32
  ring_tail : UInt32
  log_dropped : UInt32 := 0

/-- `space` of `log_push` -/
def space (l : LogRing) : UInt32 := LOG_RING_SIZE - (l.ring_head - l.ring_tail)

/-- The copy into the ring, in one piece or two. -/
def copy (buf : List UInt8) (l : LogRing) : Option (Vector UInt8 4096) := do
  let off := l.ring_head &&& LOG_RING_MASK
  let first := min (LOG_RING_SIZE - off).toNat buf.length
  let ring ← poke off.toNat (buf.take first) l.log_ring
  if buf.length > first then poke 0 (buf.drop first) ring else some ring

/-- What is done under the lock; a write outside of the ring has no result. -/
def log_push (buf : List UInt8) (l : LogRing) : Option LogRing :=
  if buf.length = 0 then some l
  else if buf.length > (space l).toNat then some { l with log_dropped := l.log_dropped + 1 }
  else do
    let log_ring ← copy buf l
    some { l with log_ring, ring_head := l.ring_head + UInt32.ofNat buf.length }

/-- Where the task is, with its variables: asleep; before it reads the counters; with a piece to
    send, or one that it has sent; before it reads how many lines were refused; and with this
    number, before and after it sets the counter to 0. -/
inductive Place
  | asleep
  | draining
  | sending (tail chunk : UInt32)
  | sent (tail chunk : UInt32)
  | checking
  | clearing (d : UInt32)
  | reporting (d : UInt32)
  deriving DecidableEq

/-- The ring and the logger, with what came of the lines and what was handed to `log_emit`: the
    bytes from the ring, and the numbers of the reports between them. -/
structure System where
  log : LogRing
  notified : Bool := false
  place : Place := .asleep
  emitted : List UInt8 := []
  reports : List UInt32 := []
  accepted : List (List UInt8) := []
  rejected : List (List UInt8) := []

/-- One step of `log_task_fn`. -/
def log_task_fn (s : System) : Option System :=
  match s.place with
  | .asleep => some (if s.notified then { s with notified := false, place := .draining } else s)
  | .draining =>
    let tail := s.log.ring_tail
    let used := s.log.ring_head - tail
    if used = 0 then some { s with place := .checking }
    else
      let off := tail &&& LOG_RING_MASK
      let chunk := LOG_RING_SIZE - off
      some { s with place := .sending tail (if chunk > used then used else chunk) }
  | .sending tail chunk => do
    let bytes ← peek (tail &&& LOG_RING_MASK).toNat chunk.toUInt16.toNat s.log.log_ring
    some { s with emitted := s.emitted ++ bytes, place := .sent tail chunk }
  | .sent tail chunk => some { s with log := { s.log with ring_tail := tail + chunk }, place := .draining }
  | .checking => some { s with place := if s.log.log_dropped ≠ 0 then .clearing s.log.log_dropped else .asleep }
  | .clearing d => some { s with log := { s.log with log_dropped := 0 }, place := .reporting d }
  | .reporting d => some { s with reports := s.reports ++ [d], place := .asleep }

inductive Event
  /-- Some task puts a line into the ring and notifies the logger. -/
  | push (buf : List UInt8)
  /-- The logger runs up to the next access to what it shares. -/
  | logger

def step (s : System) : Event → Option System
  | .push buf => do
    let log ← log_push buf s.log
    let taken := buf.length ≤ (space s.log).toNat
    some { s with
      log
      notified := s.notified || buf ≠ []
      accepted := if taken then s.accepted ++ [buf] else s.accepted
      rejected := if taken then s.rejected else s.rejected ++ [buf] }
  | .logger => log_task_fn s

/-- A run ends with the first access outside of the ring. -/
def run_step (st : Option System) (e : Event) : Option System := st.bind fun s => step s e

/-- An empty ring, wherever the counters stand. -/
def start (log_ring : Vector UInt8 4096) (head : UInt32) : System := { log := { log_ring, ring_head := head, ring_tail := head } }

end IoEdgeHub.Log
