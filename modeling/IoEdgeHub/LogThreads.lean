import IoEdgeHub.LogQueue

/-!
The log ring (`sys/log.c`) with nothing taken as one step that is not one access: a task that
has the lock reads the counters, copies its line byte by byte and moves the head behind it,
the logger sends byte by byte out of the ring, and tasks that have given back the lock notify
the logger later. What the logger sees is the queue all the same, because a line belongs to
it from the moment on at which the head is moved.
-/
namespace IoEdgeHub.LogThreads
open IoEdgeHub.CBuffers IoEdgeHub.Ring IoEdgeHub.Log IoEdgeHub.LogQueue

/-- Where the task is that has `log_push_lock`, with its variables: before it reads the head and
    before it reads the tail; with so many bytes copied; before it reads and before it writes
    the count of lines dropped; and before it gives the lock back. -/
inductive Pusher
  | outside
  | entered (buf : List UInt8)
  | headed (buf : List UInt8) (head : UInt32)
  | copying (buf : List UInt8) (head : UInt32) (done : Nat)
  | dropping
  | counting (dropped : UInt32)
  | leaving
  deriving DecidableEq

/-- The line about which nothing is decided yet. -/
def Pusher.in_hand : Pusher → List (List UInt8)
  | .entered buf | .headed buf _ | .copying buf _ _ => [buf]
  | _ => []

/-- The ring with those who use it. `notifying`: how many tasks have left and will still notify the
    logger. `at_byte`: how much of the piece in hand the logger is done with. `passed`: the bytes that it
    is done with, and whether they were sent. `entered`: the lines whose tasks got the lock; `decided`:
    what became of them. -/
structure Threads where
  log : LogRing
  pusher : Pusher := .outside
  notifying : Nat := 0
  notified : Bool := false
  place : Place := .asleep
  at_byte : Nat := 0
  passed : List (UInt8 × Bool) := []
  reports : List UInt32 := []
  entered : List (List UInt8) := []
  decided : List (List UInt8 × Bool) := []

/-- The lines that were taken. -/
def Threads.accepted (s : Threads) : List (List UInt8) := (s.decided.filter (·.2)).map (·.1)

/-- Where the copy puts a byte: the first part lies before the end of the ring, the second one at its start. -/
def target (head : UInt32) (len k : Nat) : Nat :=
  let off := head &&& LOG_RING_MASK
  let first := min (LOG_RING_SIZE - off).toNat len
  if k < first then off.toNat + k else k - first

/-- The next access of the task that has the lock. -/
def log_push_step (s : Threads) : Option Threads :=
  match s.pusher with
  | .outside => some s
  | .entered buf => some { s with pusher := .headed buf s.log.ring_head }
  | .headed buf head =>
    let space := LOG_RING_SIZE - (head - s.log.ring_tail)
    some (if buf.length > space.toNat then { s with pusher := .dropping, decided := s.decided ++ [(buf, false)] }
      else { s with pusher := .copying buf head 0 })
  | .copying buf head done =>
    if done < buf.length then do
      let log_ring ← poke (target head buf.length done) [buf.getD done 0] s.log.log_ring
      some { s with log := { s.log with log_ring }, pusher := .copying buf head (done + 1) }
    else
      some { s with
        log := { s.log with ring_head := head + UInt32.ofNat buf.length }
        pusher := .leaving
        decided := s.decided ++ [(buf, true)] }
  | .dropping => some { s with pusher := .counting s.log.log_dropped }
  | .counting dropped => some { s with log := { s.log with log_dropped := dropped + 1 }, pusher := .leaving }
  | .leaving => some { s with pusher := .outside, notifying := s.notifying + 1 }

/-- `log_emit` reads some bytes of the piece in hand, and sends them or not. -/
def log_emit (tail : UInt32) (n : Nat) (sent : Bool) (s : Threads) : Option Threads := do
  let bytes ← peek ((tail &&& LOG_RING_MASK).toNat + s.at_byte) n s.log.log_ring
  some { s with passed := s.passed ++ bytes.map (·, sent), at_byte := s.at_byte + n }

/-- The next access of the logger. -/
def log_task_step (s : Threads) : Option Threads :=
  match s.place with
  | .asleep => some (if s.notified then { s with notified := false, place := .draining } else s)
  | .draining =>
    let tail := s.log.ring_tail
    let used := s.log.ring_head - tail
    if used = 0 then some { s with place := .checking }
    else
      let off := tail &&& LOG_RING_MASK
      let chunk := LOG_RING_SIZE - off
      some { s with place := .sending tail (if chunk > used then used else chunk), at_byte := 0 }
  | .sending tail chunk =>
    if s.at_byte < chunk.toUInt16.toNat then log_emit tail 1 true s else some { s with place := .sent tail chunk }
  | .sent tail chunk => some { s with log := { s.log with ring_tail := tail + chunk }, place := .draining }
  | .checking => some { s with place := if s.log.log_dropped ≠ 0 then .clearing s.log.log_dropped else .asleep }
  | .clearing d => some { s with log := { s.log with log_dropped := 0 }, place := .reporting d }
  | .reporting d => some { s with reports := s.reports ++ [d], place := .asleep }

/-- The time for the piece in hand is over: nothing more of it is sent. -/
def log_emit_timeout (s : Threads) : Option Threads :=
  match s.place with
  | .sending tail chunk => log_emit tail (chunk.toUInt16.toNat - s.at_byte) false s
  | _ => some s

/-- `enter`: a task with a line gets the lock, if nobody has it. `notify`: one of those who left notifies
    the logger. -/
inductive Event
  | enter (buf : List UInt8)
  | pusher
  | notify
  | logger
  | timeout

def step (s : Threads) : Event → Option Threads
  | .enter buf =>
    some (if buf ≠ [] ∧ s.pusher = .outside then
      { s with pusher := .entered buf, entered := s.entered ++ [buf] }
    else s)
  | .pusher => log_push_step s
  | .notify => some (if 0 < s.notifying then { s with notifying := s.notifying - 1, notified := true } else s)
  | .logger => log_task_step s
  | .timeout => log_emit_timeout s

/-- A run ends with the first access outside of the ring. -/
def run_step (st : Option Threads) (e : Event) : Option Threads := st.bind fun s => step s e

def start (log_ring : Vector UInt8 4096) (head : UInt32) : Threads :=
  { log := { log_ring, ring_head := head, ring_tail := head } }

/-- What the logger is done with of the piece in hand keeps its room. -/
def kept (s : Threads) : Nat :=
  match s.place with
  | .sending _ _ => s.at_byte
  | .sent _ chunk => chunk.toNat
  | _ => 0

/-- The queue without the lines that were refused. -/
def ring_queue (s : Threads) : Queue UInt8 where
  sent := s.passed.map (·.1)
  stored := stored s.log
  held := kept s
  accepted := s.accepted

/-- A line that is being copied has its room behind the head. -/
def Copied (l : LogRing) : Pusher → Prop
  | .entered buf => buf ≠ []
  | .headed buf head => buf ≠ [] ∧ head = l.ring_head
  | .copying buf head done =>
    buf ≠ [] ∧ head = l.ring_head ∧ done ≤ buf.length ∧ buf.length ≤ 4096 - used l ∧
      ∀ i < done, read l.log_ring ((head.toNat + i) % 4096) = buf.getD i 0
  | _ => True

structure Inv (s : Threads) : Prop where
  order : s.entered = s.decided.map (·.1) ++ s.pusher.in_hand
  lossless : (ring_queue s).Lossless 4096
  piece : InHand s.log s.place
  sent : ∀ tail chunk, s.place = .sending tail chunk → s.at_byte ≤ chunk.toNat
  copied : Copied s.log s.pusher
  awake : drained s.place = true → used s.log ≠ 0 → s.notified = true ∨ 0 < s.notifying ∨ s.pusher = .leaving

section
variable {s : Threads} {l : LogRing} {buf : List UInt8} {head : UInt32} {done : Nat}

theorem room_le (inv : Inv s) : used s.log ≤ 4096 := by
  have room := inv.lossless.room
  rw [ring_queue, stored, length_items] at room
  exact room

/-- The two parts of the copy are one line around the end of the ring. -/
theorem target_place (head : UInt32) {len k : Nat} (fits : len ≤ 4096) (inside : k < len) :
    target head len k = (head.toNat + k) % 4096 := by
  have low := Nat.mod_lt head.toNat (show 0 < 4096 by decide)
  have off := off_toNat head
  have rest : (LOG_RING_SIZE - (head &&& LOG_RING_MASK)).toNat = 4096 - head.toNat % 4096 := by
    rw [rest_toNat (by omega), off]
  simp only [target, rest, off]
  split <;> omega

/-- A byte behind the head is none of those that the ring holds. -/
theorem behind_head {i k : Nat} (stored_ : i < used l) (room : k < 4096 - used l) :
    (l.ring_tail.toNat + i) % 4096 ≠ (l.ring_head.toNat + k) % 4096 := by
  have head := head_place l
  omega

/-- A byte that is copied is not seen yet. -/
theorem copy_byte (inv : Inv s) (at_ : s.pusher = .copying buf head done) (more : done < buf.length) :
    ∃ s', step s .pusher = some s' ∧ Inv s' := by
  obtain ⟨order, lossless, piece, sent, copied, awake⟩ := inv
  rw [at_] at copied order
  obtain ⟨some_, rfl, -, fits, bytes⟩ := copied
  have place := target_place s.log.ring_head (show buf.length ≤ 4096 by omega) more
  obtain ⟨ring, wrote, new, others⟩ :=
    @poke_one 4096 (target s.log.ring_head buf.length done) s.log.log_ring (buf.getD done 0)
      (by rw [place]; exact Nat.mod_lt _ (by decide))
  have same : stored { s.log with log_ring := ring } = stored s.log := by
    refine items_kept fun i inside => ?_
    have apart := behind_head inside (show done < 4096 - used s.log by omega)
    exact others _ (Nat.mod_lt _ (by decide)) (by rw [place]; exact apart)
  refine ⟨_, by simp only [step, log_push_step, at_, if_pos more, wrote]; rfl, ?_⟩
  refine ⟨order, ?_, ?_, sent, ⟨some_, rfl, more, fits, ?_⟩, ?_⟩
  · have queue : ring_queue { s with
        log := { s.log with log_ring := ring }
        pusher := .copying buf s.log.ring_head (done + 1) } = ring_queue s := by
      simp only [ring_queue, same]
      rfl
    rw [queue]
    exact lossless
  · exact @in_hand_longer s.log { s.log with log_ring := ring } rfl (Nat.le_refl _) s.place piece
  · intro i inside
    by_cases last : i = done
    · rw [last, ← place]
      exact new
    · have apart : (s.log.ring_head.toNat + i) % 4096 ≠ target s.log.ring_head buf.length done := by
        rw [place]
        omega
      have before : i < done := by omega
      rw [others _ (Nat.mod_lt _ (by decide)) apart]
      exact bytes i before
  · intro behind some_used
    rcases awake behind some_used with up | coming | leaving
    · exact .inl up
    · exact .inr (.inl coming)
    · rw [at_] at leaving
      cases leaving

/-- The head behind a line that fits. -/
theorem used_longer (room : used l ≤ 4096) (fits : buf.length ≤ 4096 - used l) :
    used { l with ring_head := l.ring_head + UInt32.ofNat buf.length } = used l + buf.length := by
  have sum : l.ring_head + UInt32.ofNat buf.length - l.ring_tail =
      (l.ring_head - l.ring_tail) + UInt32.ofNat buf.length := by grind
  show (l.ring_head + UInt32.ofNat buf.length - l.ring_tail).toNat = used l + buf.length
  rw [sum, UInt32.toNat_add, UInt32.toNat_ofNat_of_lt' (show buf.length < 2^32 by omega)]
  exact Nat.mod_eq_of_lt (by show used l + buf.length < 2^32; omega)

/-- A line that lies behind the head belongs to the queue once the head is moved. -/
theorem stored_longer (room : used l ≤ 4096) (fits : buf.length ≤ 4096 - used l)
    (copied : ∀ i < buf.length, read l.log_ring ((l.ring_head.toNat + i) % 4096) = buf.getD i 0) :
    stored { l with ring_head := l.ring_head + UInt32.ofNat buf.length } = stored l ++ buf := by
  have line : items 4096 (read l.log_ring) (l.ring_tail.toNat + used l) buf.length = buf := by
    rw [← items_mod (head_place l)]
    exact items_line copied
  rw [stored, used_longer room fits, items_add, line]
  rfl

theorem accepted_more (decided : List (List UInt8 × Bool)) (taken : Bool) :
    ((decided ++ [(buf, taken)]).filter (·.2)).map (·.1) =
      (decided.filter (·.2)).map (·.1) ++ if taken then [buf] else [] := by
  rw [List.filter_append, List.map_append]
  cases taken <;> rfl

theorem decided_more (decided : List (List UInt8 × Bool)) (taken : Bool) :
    (decided ++ [(buf, taken)]).map (·.1) ++ [] = decided.map (·.1) ++ [buf] := by
  rw [List.append_nil, List.map_append]
  rfl

/-- The line is taken if there is room behind what the ring holds. -/
theorem compare_room (inv : Inv s) (at_ : s.pusher = .headed buf head) : ∃ s', step s .pusher = some s' ∧ Inv s' := by
  have room := room_le inv
  obtain ⟨order, lossless, piece, sent, copied, awake⟩ := inv
  rw [at_] at copied order
  obtain ⟨some_, rfl⟩ := copied
  have awake_ : drained s.place = true → used s.log ≠ 0 → s.notified = true ∨ 0 < s.notifying := by
    intro behind some_used
    rcases awake behind some_used with up | coming | leaving
    · exact .inl up
    · exact .inr coming
    · rw [at_] at leaving
      cases leaving
  have space_ := space_toNat room
  by_cases full : buf.length > (space s.log).toNat
  · refine ⟨{ s with pusher := .dropping, decided := s.decided ++ [(buf, false)] }, ?_, ?_⟩
    · simp only [step, log_push_step, at_]
      exact congrArg some (if_pos full)
    refine ⟨order.trans (decided_more s.decided false).symm, ?_, piece, sent, trivial, ?_⟩
    · have queue : ring_queue { s with pusher := .dropping, decided := s.decided ++ [(buf, false)] } = ring_queue s := by
        simp only [ring_queue, Threads.accepted, accepted_more, Bool.false_eq_true, if_false, List.append_nil]
        rfl
      rw [queue]
      exact lossless
    · exact fun behind some_used => (awake_ behind some_used).imp_right .inl
  · refine ⟨{ s with pusher := .copying buf s.log.ring_head 0 }, ?_, ?_⟩
    · simp only [step, log_push_step, at_]
      exact congrArg some (if_neg full)
    have fits : buf.length ≤ 4096 - used s.log := by omega
    refine ⟨order, lossless, piece, sent, ⟨some_, rfl, Nat.zero_le _, fits, ?_⟩, ?_⟩
    · exact fun i inside => absurd inside (Nat.not_lt_zero i)
    · exact fun behind some_used => (awake_ behind some_used).imp_right .inl

/-- With the head moved the whole line is there. -/
theorem move_head (inv : Inv s) (at_ : s.pusher = .copying buf head done) (copied_all : ¬ done < buf.length) :
    ∃ s', step s .pusher = some s' ∧ Inv s' := by
  have room := room_le inv
  obtain ⟨order, lossless, piece, sent, copied, awake⟩ := inv
  rw [at_] at copied order
  obtain ⟨some_, rfl, most, fits, bytes⟩ := copied
  have all : done = buf.length := by omega
  rw [all] at bytes
  have longer := used_longer room fits
  refine ⟨{ s with
    log := { s.log with ring_head := s.log.ring_head + UInt32.ofNat buf.length }
    pusher := .leaving
    decided := s.decided ++ [(buf, true)] }, ?_, ?_⟩
  · simp only [step, log_push_step, at_, if_neg copied_all]
  refine ⟨order.trans (decided_more s.decided true).symm, ?_, ?_, sent, trivial, fun _ _ => .inr (.inr rfl)⟩
  · have length : (ring_queue s).stored.length = used s.log := length_items ..
    have pushed := lossless_push lossless buf
    rw [Queue.push, if_pos (by rw [length]; exact fits)] at pushed
    have queue : ring_queue { s with
        log := { s.log with ring_head := s.log.ring_head + UInt32.ofNat buf.length }
        pusher := .leaving
        decided := s.decided ++ [(buf, true)] } =
        { ring_queue s with stored := (ring_queue s).stored ++ buf, accepted := (ring_queue s).accepted ++ [buf] } := by
      simp only [ring_queue, Threads.accepted, accepted_more, stored_longer room fits bytes]
      rfl
    rw [queue]
    exact pushed
  · refine in_hand_longer ?_ ?_ piece
    · rfl
    · rw [longer]
      exact Nat.le_add_right _ _

/-- Whatever the task with the lock does next. -/
theorem pusher_kept (inv : Inv s) : ∃ s', step s .pusher = some s' ∧ Inv s' := by
  cases at_ : s.pusher with
  | outside => exact ⟨s, by simp only [step, log_push_step, at_], inv⟩
  | entered buf =>
    obtain ⟨order, lossless, piece, sent, copied, awake⟩ := inv
    rw [at_] at copied order
    refine ⟨{ s with pusher := .headed buf s.log.ring_head }, by simp only [step, log_push_step, at_], ?_⟩
    refine ⟨order, lossless, piece, sent, ⟨copied, rfl⟩, ?_⟩
    intro behind some_used
    rcases awake behind some_used with up | coming | leaving
    · exact .inl up
    · exact .inr (.inl coming)
    · rw [at_] at leaving
      cases leaving
  | headed buf head => exact compare_room inv at_
  | copying buf head done =>
    by_cases more : done < buf.length
    · exact copy_byte inv at_ more
    · exact move_head inv at_ more
  | dropping =>
    obtain ⟨order, lossless, piece, sent, copied, awake⟩ := inv
    rw [at_] at order
    refine ⟨{ s with pusher := .counting s.log.log_dropped }, by simp only [step, log_push_step, at_], ?_⟩
    refine ⟨order, lossless, piece, sent, trivial, ?_⟩
    intro behind some_used
    rcases awake behind some_used with up | coming | leaving
    · exact .inl up
    · exact .inr (.inl coming)
    · rw [at_] at leaving
      cases leaving
  | counting dropped =>
    obtain ⟨order, lossless, piece, sent, copied, awake⟩ := inv
    rw [at_] at order
    refine ⟨{ s with log := { s.log with log_dropped := dropped + 1 }, pusher := .leaving },
      by simp only [step, log_push_step, at_], ?_⟩
    refine ⟨order, lossless, ?_, sent, trivial, fun _ _ => .inr (.inr rfl)⟩
    exact @in_hand_longer s.log { s.log with log_dropped := dropped + 1 } rfl (Nat.le_refl _) s.place piece
  | leaving =>
    obtain ⟨order, lossless, piece, sent, copied, awake⟩ := inv
    rw [at_] at order
    refine ⟨{ s with pusher := .outside, notifying := s.notifying + 1 }, by simp only [step, log_push_step, at_], ?_⟩
    exact ⟨order, lossless, piece, sent, trivial, fun _ _ => .inr (.inl (Nat.succ_pos _))⟩

/-- With the head where it is and no more of it in use, the room behind it is still there. -/
theorem copied_shorter {l' : LogRing} (same : l'.log_ring = l.log_ring) (head_ : l'.ring_head = l.ring_head)
    (shorter : used l' ≤ used l) {pusher : Pusher} (copied : Copied l pusher) : Copied l' pusher := by
  cases pusher with
  | entered buf => exact copied
  | headed buf head => exact ⟨copied.1, copied.2.trans head_.symm⟩
  | copying buf head done =>
    obtain ⟨some_, rfl, most, fits, bytes⟩ := copied
    refine ⟨some_, head_.symm, most, by omega, ?_⟩
    rw [same]
    exact bytes
  | outside => trivial
  | dropping => trivial
  | counting _ => trivial
  | leaving => trivial

/-- Any part of the piece in hand. -/
theorem peek_part {tail chunk : UInt32} (piece : Piece l tail chunk) {k n : Nat} (inside : k + n ≤ chunk.toNat) :
    peek ((tail &&& LOG_RING_MASK).toNat + k) n l.log_ring = some (((stored l).drop k).take n) := by
  have most := piece.inside
  have straight := piece.straight
  obtain rfl := piece.front
  have cut : used l = k + (n + (used l - k - n)) := by omega
  have part : ((stored l).drop k).take n = items 4096 (read l.log_ring) (l.ring_tail.toNat + k) n := by
    rw [stored, cut, items_add, List.drop_left' (length_items ..), items_add, List.take_left' (length_items ..)]
  rw [off_toNat, peek, if_pos (by omega), part]
  refine congrArg some (List.map_congr_left ?_)
  intro i member
  have below := List.mem_range.mp member
  have place : (l.ring_tail.toNat + k + i) % 4096 = l.ring_tail.toNat % 4096 + k + i := by omega
  rw [place]

theorem uncut {tail chunk : UInt32} (piece : Piece l tail chunk) : chunk.toUInt16.toNat = chunk.toNat := by
  have straight := piece.straight
  rw [UInt32.toNat_toUInt16]
  omega

/-- Bytes of the piece in hand are passed in their order, sent or not. -/
theorem log_emit_kept (inv : Inv s) {tail chunk : UInt32} (at_ : s.place = .sending tail chunk) {n : Nat}
    (inside : s.at_byte + n ≤ chunk.toNat) (sent_ : Bool) : ∃ s', log_emit tail n sent_ s = some s' ∧ Inv s' := by
  obtain ⟨order, lossless, piece, sent, copied, awake⟩ := inv
  rw [at_] at piece
  have bytes := peek_part piece inside
  have most := piece.inside
  refine ⟨{ s with
      passed := s.passed ++ (((stored s.log).drop s.at_byte).take n).map (·, sent_)
      at_byte := s.at_byte + n },
    by rw [log_emit, bytes]; rfl, ?_⟩
  refine ⟨order, ?_, by rw [at_]; exact piece, ?_, copied, ?_⟩
  · have held : (ring_queue s).held = s.at_byte := by simp only [ring_queue, kept, at_]
    have more := lossless_send_more lossless (show (ring_queue s).held + n ≤ (ring_queue s).stored.length by
      rw [held]
      show s.at_byte + n ≤ (stored s.log).length
      rw [stored, length_items]
      omega)
    have bytes_ : ((((stored s.log).drop s.at_byte).take n).map (·, sent_)).map (·.1) =
        ((stored s.log).drop s.at_byte).take n := by
      rw [List.map_map]
      exact List.map_id' _
    have queue : ring_queue { s with
        passed := s.passed ++ (((stored s.log).drop s.at_byte).take n).map (·, sent_)
        at_byte := s.at_byte + n } = (ring_queue s).send_more n := by
      simp only [ring_queue, Queue.send_more, kept, at_, List.map_append, bytes_]
      rfl
    rw [queue]
    exact more
  · intro tail' chunk' at_'
    rw [at_] at at_'
    cases at_'
    exact inside
  · intro behind
    rw [at_] at behind
    cases behind

/-- The logger in another place that keeps as much of the queue. -/
theorem inv_moved (inv : Inv s) {s' : Threads} (log : s'.log = s.log)
    (lines : s'.entered = s.entered ∧ s'.decided = s.decided ∧ s'.pusher = s.pusher ∧ s'.passed = s.passed)
    (held : kept s' = kept s) (piece : InHand s.log s'.place)
    (sent : ∀ tail chunk, s'.place = .sending tail chunk → s'.at_byte ≤ chunk.toNat)
    (awake : drained s'.place = true → used s.log ≠ 0 → s'.notified = true ∨ 0 < s'.notifying ∨ s'.pusher = .leaving) :
    Inv s' := by
  obtain ⟨entered, decided, pusher, passed⟩ := lines
  have queue : ring_queue s' = ring_queue s := by
    simp only [ring_queue, Threads.accepted, log, decided, passed, held]
  refine ⟨?_, ?_, ?_, sent, ?_, ?_⟩
  · rw [entered, decided, pusher]
    exact inv.order
  · rw [queue]
    exact inv.lossless
  · rw [log]
    exact piece
  · rw [log, pusher]
    exact inv.copied
  · rw [log]
    exact awake

/-- Behind a piece that was passed the queue goes on. -/
theorem release_kept (inv : Inv s) {tail chunk : UInt32} (at_ : s.place = .sent tail chunk) :
    ∃ s', step s .logger = some s' ∧ Inv s' := by
  obtain ⟨order, lossless, piece, sent, copied, awake⟩ := inv
  rw [at_] at piece
  refine ⟨{ s with log := { s.log with ring_tail := tail + chunk }, place := .draining },
    by simp only [step, log_task_step, at_], ?_⟩
  have rest := stored_released piece
  have queue : ring_queue { s with log := { s.log with ring_tail := tail + chunk }, place := .draining } =
      (ring_queue s).release := by
    simp only [ring_queue, Queue.release, kept, at_, rest]
    rfl
  have shorter : used { s.log with ring_tail := tail + chunk } ≤ used s.log := by
    have fewer : (stored { s.log with ring_tail := tail + chunk }).length = used s.log - chunk.toNat := by
      rw [rest, List.length_drop, stored, length_items]
    rw [stored, length_items] at fewer
    rw [fewer]
    exact Nat.sub_le _ _
  refine ⟨order, by rw [queue]; exact lossless_release lossless, trivial, ?_, ?_, ?_⟩
  · intro _ _ other
    cases other
  · exact @copied_shorter s.log { s.log with ring_tail := tail + chunk } rfl rfl shorter s.pusher copied
  · intro behind
    cases behind

/-- The count of lines dropped is no part of the queue. -/
theorem clear_kept (inv : Inv s) {d : UInt32} (at_ : s.place = .clearing d) :
    ∃ s', step s .logger = some s' ∧ Inv s' := by
  obtain ⟨order, lossless, piece, sent, copied, awake⟩ := inv
  have awake_ := awake (by rw [at_]; rfl)
  refine ⟨{ s with log := { s.log with log_dropped := 0 }, place := .reporting d },
    by simp only [step, log_task_step, at_], ?_⟩
  have queue : ring_queue { s with log := { s.log with log_dropped := 0 }, place := .reporting d } = ring_queue s := by
    simp only [ring_queue, kept, at_]
    rfl
  refine ⟨order, by rw [queue]; exact lossless, trivial, ?_, ?_, fun _ => awake_⟩
  · intro _ _ other
    cases other
  · exact @copied_shorter s.log { s.log with log_dropped := 0 } rfl rfl (Nat.le_refl _) s.pusher copied

/-- Whatever the logger does next. -/
theorem logger_kept (inv : Inv s) : ∃ s', step s .logger = some s' ∧ Inv s' := by
  cases at_ : s.place with
  | asleep =>
    cases up : s.notified with
    | false => exact ⟨s, by simp only [step, log_task_step, at_, up, Bool.false_eq_true, if_false], inv⟩
    | true =>
      refine ⟨{ s with notified := false, place := .draining }, by simp only [step, log_task_step, at_, up, if_true], ?_⟩
      refine inv_moved inv rfl ⟨rfl, rfl, rfl, rfl⟩ (by simp only [kept, at_]) trivial ?_ ?_
      · intro _ _ other
        cases other
      · intro behind
        cases behind
  | draining =>
    by_cases empty : s.log.ring_head - s.log.ring_tail = 0
    · refine ⟨{ s with place := .checking }, by simp only [step, log_task_step, at_, if_pos empty], ?_⟩
      refine inv_moved inv rfl ⟨rfl, rfl, rfl, rfl⟩ (by simp only [kept, at_]) trivial ?_ ?_
      · intro _ _ other
        cases other
      · exact fun _ some_used => absurd (congrArg UInt32.toNat empty) some_used
    · have taken := piece_taken s.log
      generalize chunk_ : (if LOG_RING_SIZE - (s.log.ring_tail &&& LOG_RING_MASK) > s.log.ring_head - s.log.ring_tail then
        s.log.ring_head - s.log.ring_tail else LOG_RING_SIZE - (s.log.ring_tail &&& LOG_RING_MASK)) = chunk at taken
      refine ⟨{ s with place := .sending s.log.ring_tail chunk, at_byte := 0 },
        by simp only [step, log_task_step, at_, if_neg empty, chunk_], ?_⟩
      refine inv_moved inv rfl ⟨rfl, rfl, rfl, rfl⟩ (by simp only [kept, at_]) taken (fun _ _ _ => Nat.zero_le _) ?_
      intro behind
      cases behind
  | sending tail chunk =>
    have piece := inv.piece
    rw [at_] at piece
    have whole := uncut piece
    by_cases more : s.at_byte < chunk.toUInt16.toNat
    · obtain ⟨s', emitted, inv'⟩ := log_emit_kept inv at_ (show s.at_byte + 1 ≤ chunk.toNat by omega) true
      refine ⟨s', ?_, inv'⟩
      simp only [step, log_task_step, at_, if_pos more]
      exact emitted
    · have most := inv.sent tail chunk at_
      have all : s.at_byte = chunk.toNat := by omega
      refine ⟨{ s with place := .sent tail chunk }, by simp only [step, log_task_step, at_, if_neg more], ?_⟩
      refine inv_moved inv rfl ⟨rfl, rfl, rfl, rfl⟩ (by simp only [kept, at_, all]) piece ?_ ?_
      · intro _ _ other
        cases other
      · intro behind
        cases behind
  | sent tail chunk => exact release_kept inv at_
  | checking =>
    have awake := inv.awake (by rw [at_]; rfl)
    by_cases dropped : s.log.log_dropped = 0
    · refine ⟨{ s with place := .asleep }, by simp only [step, log_task_step, at_, if_neg (not_not.mpr dropped)], ?_⟩
      refine inv_moved inv rfl ⟨rfl, rfl, rfl, rfl⟩ (by simp only [kept, at_]) trivial ?_ fun _ => awake
      intro _ _ other
      cases other
    · refine ⟨{ s with place := .clearing s.log.log_dropped }, by simp only [step, log_task_step, at_, if_pos dropped], ?_⟩
      refine inv_moved inv rfl ⟨rfl, rfl, rfl, rfl⟩ (by simp only [kept, at_]) trivial ?_ fun _ => awake
      intro _ _ other
      cases other
  | clearing d => exact clear_kept inv at_
  | reporting d =>
    have awake := inv.awake (by rw [at_]; rfl)
    refine ⟨{ s with reports := s.reports ++ [d], place := .asleep }, by simp only [step, log_task_step, at_], ?_⟩
    refine inv_moved inv rfl ⟨rfl, rfl, rfl, rfl⟩ (by simp only [kept, at_]) trivial ?_ fun _ => awake
    intro _ _ other
    cases other

theorem step_kept (inv : Inv s) (e : Event) : ∃ s', step s e = some s' ∧ Inv s' := by
  cases e with
  | enter buf =>
    by_cases free : buf ≠ [] ∧ s.pusher = .outside
    · obtain ⟨order, lossless, piece, sent, copied, awake⟩ := inv
      refine ⟨{ s with pusher := .entered buf, entered := s.entered ++ [buf] }, by simp only [step, if_pos free], ?_⟩
      refine ⟨?_, lossless, piece, sent, free.1, ?_⟩
      · have nobody : s.pusher.in_hand = [] := by
          rw [free.2]
          rfl
        rw [nobody, List.append_nil] at order
        rw [order]
        rfl
      · intro behind some_used
        rcases awake behind some_used with up | coming | leaving
        · exact .inl up
        · exact .inr (.inl coming)
        · rw [free.2] at leaving
          cases leaving
    · exact ⟨s, by simp only [step, if_neg free], inv⟩
  | pusher => exact pusher_kept inv
  | notify =>
    by_cases some_ : 0 < s.notifying
    · refine ⟨{ s with notifying := s.notifying - 1, notified := true }, by simp only [step, if_pos some_], ?_⟩
      exact inv_moved inv rfl ⟨rfl, rfl, rfl, rfl⟩ rfl inv.piece inv.sent fun _ _ => .inl rfl
    · exact ⟨s, by simp only [step, if_neg some_], inv⟩
  | logger => exact logger_kept inv
  | timeout =>
    cases at_ : s.place with
    | sending tail chunk =>
      have piece := inv.piece
      have most := inv.sent tail chunk at_
      rw [at_] at piece
      have whole := uncut piece
      obtain ⟨s', emitted, inv'⟩ :=
        log_emit_kept inv at_ (show s.at_byte + (chunk.toUInt16.toNat - s.at_byte) ≤ chunk.toNat by omega) false
      refine ⟨s', ?_, inv'⟩
      simp only [step, log_emit_timeout, at_]
      exact emitted
    | asleep => exact ⟨s, by simp only [step, log_emit_timeout, at_], inv⟩
    | draining => exact ⟨s, by simp only [step, log_emit_timeout, at_], inv⟩
    | sent _ _ => exact ⟨s, by simp only [step, log_emit_timeout, at_], inv⟩
    | checking => exact ⟨s, by simp only [step, log_emit_timeout, at_], inv⟩
    | clearing _ => exact ⟨s, by simp only [step, log_emit_timeout, at_], inv⟩
    | reporting _ => exact ⟨s, by simp only [step, log_emit_timeout, at_], inv⟩

theorem inv_start (log_ring : Vector UInt8 4096) (head : UInt32) : Inv (start log_ring head) := by
  have none_ : used (start log_ring head).log = 0 := by
    have same : head - head = 0 := UInt32.sub_self head
    rw [used, start, same]
    rfl
  have empty : ring_queue (start log_ring head) = {} := by
    simp only [ring_queue, stored, none_]
    rfl
  refine ⟨rfl, ?_, trivial, ?_, trivial, fun _ some_used => absurd none_ some_used⟩
  · rw [empty]
    exact lossless_empty
  · intro _ _ other
    cases other

/-- Only what a timeout cuts off is not sent. -/
theorem step_sent {s' : Threads} {e : Event} (stepped : step s e = some s') (in_time : e ≠ .timeout)
    (all : ∀ b ∈ s.passed, b.2 = true) : ∀ b ∈ s'.passed, b.2 = true := by
  cases e with
  | enter buf =>
    cases stepped
    split <;> exact all
  | pusher =>
    have same : s'.passed = s.passed := by
      cases at_ : s.pusher with
      | headed buf head =>
        simp only [step, log_push_step, at_, Option.some.injEq] at stepped
        rw [← stepped]
        split <;> rfl
      | copying buf head done =>
        by_cases more : done < buf.length
        · simp only [step, log_push_step, at_, if_pos more] at stepped
          obtain ⟨ring, _, rest⟩ := Option.bind_eq_some_iff.mp stepped
          cases rest
          rfl
        · simp only [step, log_push_step, at_, if_neg more, Option.some.injEq] at stepped
          rw [← stepped]
      | outside | entered _ | dropping | counting _ | leaving =>
        simp only [step, log_push_step, at_, Option.some.injEq] at stepped
        rw [← stepped]
    rw [same]
    exact all
  | notify =>
    cases stepped
    split <;> exact all
  | logger =>
    cases at_ : s.place with
    | sending tail chunk =>
      by_cases more : s.at_byte < chunk.toUInt16.toNat
      · simp only [step, log_task_step, at_, if_pos more] at stepped
        obtain ⟨bytes, _, rest⟩ := Option.bind_eq_some_iff.mp stepped
        cases rest
        intro b member
        rcases List.mem_append.mp member with before | now
        · exact all b before
        · obtain ⟨_, _, rfl⟩ := List.mem_map.mp now
          rfl
      · simp only [step, log_task_step, at_, if_neg more, Option.some.injEq] at stepped
        rw [← stepped]
        exact all
    | asleep | draining =>
      simp only [step, log_task_step, at_] at stepped
      split at stepped <;> cases stepped <;> exact all
    | sent _ _ | checking | clearing _ | reporting _ =>
      simp only [step, log_task_step, at_, Option.some.injEq] at stepped
      rw [← stepped]
      exact all
  | timeout => exact absurd rfl in_time

end

/-! ### Runs -/

theorem ran (log_ring : Vector UInt8 4096) (head : UInt32) (events : List Event) :
    ∃ s, events.foldl run_step (some (start log_ring head)) = some s ∧ Inv s ∧
      ((∀ e ∈ events, e ≠ .timeout) → ∀ b ∈ s.passed, b.2 = true) := by
  induction events using List.reverseRecOn with
  | nil =>
    refine ⟨_, rfl, inv_start log_ring head, ?_⟩
    intro _ b member
    cases member
  | append_singleton events e ih =>
    obtain ⟨s, run, inv, sent⟩ := ih
    obtain ⟨s', stepped, inv'⟩ := step_kept inv e
    refine ⟨s', ?_, inv', ?_⟩
    · rw [List.foldl_concat, run]
      exact stepped
    · intro in_time
      refine step_sent stepped (in_time e List.mem_concat_self) (sent ?_)
      exact fun e' member => in_time e' (List.mem_append_left _ member)

/-- Whatever accesses of the tasks with lines and of the logger follow one another, from an empty ring
    wherever the counters stand: none is outside of the ring; what becomes of the lines is decided in
    the order in which their tasks got the lock; the bytes that the logger is done with are the first
    ones of the lines taken, each in its turn, and all of them whenever the logger sleeps, nobody
    is with a line and every task has notified it; and all of these bytes were sent if no
    transmission ran out of time. -/
theorem log_lines_whole (log_ring : Vector UInt8 4096) (head : UInt32) (events : List Event) :
    ∃ s, events.foldl run_step (some (start log_ring head)) = some s ∧
      s.entered = s.decided.map (·.1) ++ s.pusher.in_hand ∧
      s.passed.map (·.1) <+: s.accepted.flatten ∧
      (s.place = .asleep → s.notified = false → s.notifying = 0 → s.pusher = .outside →
        s.passed.map (·.1) = s.accepted.flatten) ∧
      ((∀ e ∈ events, e ≠ .timeout) → ∀ b ∈ s.passed, b.2 = true) := by
  obtain ⟨s, run, inv, sent⟩ := ran log_ring head events
  have lines : s.passed.map (·.1) ++ (stored s.log).drop (kept s) = s.accepted.flatten := inv.lossless.lines
  refine ⟨s, run, inv.order, ⟨_, lines⟩, ?_, sent⟩
  intro asleep quiet told out
  have none_ : used s.log = 0 := by
    by_contra some_used
    rcases inv.awake (by rw [asleep]; rfl) some_used with up | coming | leaving
    · rw [quiet] at up
      cases up
    · rw [told] at coming
      exact Nat.lt_irrefl 0 coming
    · rw [out] at leaving
      cases leaving
  have empty : stored s.log = [] := by
    rw [stored, none_]
    rfl
  rw [empty, List.drop_nil, List.append_nil] at lines
  exact lines

end IoEdgeHub.LogThreads
