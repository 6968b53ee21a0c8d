import IoEdgeHub.Machine
import IoEdgeHub.RtuFrames

/-!
The half-duplex line under the RTU framer (`modbus/rtu.c`): receive interrupt, error
interrupt and end-of-transmission interrupt, the t3.5 timer and its callback in the
timer service task, and the RTU task, in any order. What the task and the callback do
to what they share is taken apart into single accesses; an interrupt runs through.

Two things below the source are simplified. `xTimerResetFromISR` starts the timer at once,
where FreeRTOS puts a command into the queue of the timer service. And of the UART driver of
the HAL there is only what the source relies on: whether a reception is started, which frame
is being sent, and that a transmission is refused while another one runs.

Three windows, each a few instructions long, are not closed by the source: bytes that
arrive after the timer has left its list and before the callback has set
`frame_pending`; a line error between the setting of `tx_busy` and the end of the
reception; and a silence that ends while the task is still on its way back from the
start of a transmission that is over. Where none of them is hit (`Calm`), the task
reads the bytes that came before the silence and no others, the bus is driven exactly
while an answer is on it, and the line always comes back to listening.
-/
namespace IoEdgeHub.RtuLine
open IoEdgeHub.Bytes IoEdgeHub.Crc IoEdgeHub.MbServer IoEdgeHub.MbRequests IoEdgeHub.MbTransports IoEdgeHub.RtuFrames

/-- Where the timer callback is: it does not run, the timer is off its list, or
    `frame_pending` is set. -/
inductive TimerCb
  | idle
  | left
  | flagged
  deriving DecidableEq, Repr

/-- Where the RTU task is: it waits to be notified, is at the start of
    `rtu_t35_expired`, reads the frame behind its snapshot, has an answer and has set
    `tx_busy`, has ended the reception, has raised DE, has found the transmission
    refused, is back from `rtu_t35_expired`, or has seen `tx_busy` clear. -/
inductive Task
  | wait
  | called
  | decoding (len : Nat) (overflow : Bool)
  | busy (tx : List UInt8)
  | aborted (tx : List UInt8)
  | driving (tx : List UInt8)
  | failed
  | returned
  | clearing
  deriving DecidableEq, Repr

/-- What interrupts, timer and task share. `receiving` and `sending` are the HAL's:
    whether a reception is started, and the frame whose transmission is. -/
structure Ctl where
  receiving : Bool := true
  t35 : Bool := false
  timer_cb : TimerCb := .idle
  notified : Bool := false
  tx_busy : Bool := false
  frame_pending : Bool := false
  de : Bool := false
  sending : Option (List UInt8) := none
  task : Task := .wait
  deriving DecidableEq, Repr

/-- The framer's buffer. `rx_buf` is all of its 256 bytes. -/
structure Framer where
  rx_buf : List UInt8
  rx_len : Nat := 0
  rx_overflow : Bool := false

/-- `line`: the frames that have been sent. `heard`: the bytes taken since the last
    silence that was handled; `frames`: those that came before each such silence. -/
structure Line where
  ctl : Ctl := {}
  rx : Framer
  srv : Srv
  line : List (List UInt8) := []
  heard : List UInt8 := []
  frames : List (List UInt8) := []

/-- `received`: the receive event with the bytes that came in. `expire`: the timer runs
    out. `timer` and `task`: the next access of the callback and of the task. -/
inductive Event
  | received (bytes : List UInt8)
  | error
  | expire
  | timer
  | task
  | tx_complete
  deriving DecidableEq, Repr

/-- Bytes stored behind those that are there. -/
def rtu_rx_feed (bytes : List UInt8) (r : Framer) : Framer :=
  if r.rx_overflow then r
  else
    let take := min bytes.length (RTU_FRAME_MAX - r.rx_len)
    ⟨r.rx_buf.take r.rx_len ++ bytes.take take ++ r.rx_buf.drop (r.rx_len + take), r.rx_len + take,
      decide (take < bytes.length)⟩

/-- The rest of `rtu_t35_expired`, behind its snapshot. -/
def decode (srv_unit : UInt8) (frame : List UInt8) (overflow : Bool) (s : Srv) : Option (List UInt8) × Srv :=
  if frame.length = 0 then (none, s)
  else if overflow ∨ frame.length < RTU_FRAME_MIN then
    (none, mb_server_diag_count .NO_RESP (mb_server_diag_count .BUS_MSG s))
  else rtu_frame_process srv_unit frame s

/-- Releases the bus and listens again. -/
def Ctl.release (c : Ctl) : Ctl := { c with de := false, tx_busy := false, receiving := true }

def rtu_tx_finish (c : Ctl) : Ctl := { c.release with frame_pending := false }

section
variable (srv_unit : UInt8)

/-- The receive event. The reception that it ends is started again. -/
def rx_event (bytes : List UInt8) (s : Line) : Line :=
  if !s.ctl.frame_pending ∧ bytes.length > 0 then
    { s with ctl := { s.ctl with t35 := true }, rx := rtu_rx_feed bytes s.rx, heard := s.heard ++ bytes }
  else s

/-- The next access of the RTU task. A transmission is refused while another one runs. -/
def task_step (s : Line) : Line :=
  match s.ctl.task with
  | .wait => if s.ctl.notified then { s with ctl := { s.ctl with notified := false, task := .called } } else s
  | .called =>
    { s with
      ctl := { s.ctl with task := .decoding s.rx.rx_len s.rx.rx_overflow }
      rx := { s.rx with rx_len := 0, rx_overflow := false }
      heard := []
      frames := s.frames ++ [s.heard] }
  | .decoding len overflow =>
    let r := decode srv_unit (s.rx.rx_buf.take len) overflow s.srv
    match r.1 with
    | none => { s with ctl := { s.ctl with task := .returned }, srv := r.2 }
    | some tx => { s with ctl := { s.ctl with task := .busy tx, tx_busy := true }, srv := r.2 }
  | .busy tx => { s with ctl := { s.ctl with task := .aborted tx, receiving := false } }
  | .aborted tx => { s with ctl := { s.ctl with task := .driving tx, de := true } }
  | .driving tx =>
    if s.ctl.sending = none then { s with ctl := { s.ctl with task := .returned, sending := some tx } }
    else { s with ctl := { s.ctl.release with task := .failed } }
  | .failed => { s with ctl := { s.ctl with task := .returned, frame_pending := false } }
  | .returned => { s with ctl := { s.ctl with task := if s.ctl.tx_busy then .wait else .clearing } }
  | .clearing => { s with ctl := { s.ctl with task := .wait, frame_pending := false } }

def step (s : Line) : Event → Line
  | .received bytes => if s.ctl.receiving then rx_event bytes s else s
  | .error =>
    if s.ctl.receiving then { s with ctl := if s.ctl.tx_busy then rtu_tx_finish s.ctl else s.ctl } else s
  | .expire => if s.ctl.t35 ∧ s.ctl.timer_cb = .idle then { s with ctl := { s.ctl with t35 := false, timer_cb := .left } } else s
  | .timer =>
    match s.ctl.timer_cb with
    | .idle => s
    | .left => { s with ctl := { s.ctl with frame_pending := true, timer_cb := .flagged } }
    | .flagged => { s with ctl := { s.ctl with notified := true, timer_cb := .idle } }
  | .task => task_step srv_unit s
  | .tx_complete =>
    match s.ctl.sending with
    | none => s
    | some tx => { s with ctl := rtu_tx_finish { s.ctl with sending := none }, line := s.line ++ [tx] }

end

/-- None of the three windows is hit. -/
def Calm (s : Line) : Event → Prop
  | .received _ => s.ctl.timer_cb ≠ .left
  | .error => ∀ tx, s.ctl.task ≠ .busy tx
  | .expire => s.ctl.task = .wait
  | _ => True

instance (s : Line) : (e : Event) → Decidable (Calm s e)
  | .received _ => inferInstanceAs (Decidable (_ ≠ _))
  | .error =>
    match task : s.ctl.task with
    | .busy tx => isFalse fun calm => calm tx task
    | .wait | .called | .decoding _ _ | .aborted _ | .driving _ | .failed | .returned | .clearing =>
      isTrue fun tx busy => by rw [task] at busy; cases busy
  | .expire => inferInstanceAs (Decidable (_ = _))
  | .timer | .task | .tx_complete => isTrue trivial

/-- The states that a line can be in whose windows are not hit, in the order in which it goes through them. -/
inductive Placed : Ctl → Prop
  | listening (t35 : Bool) : Placed { t35 := t35 }
  | left : Placed { timer_cb := .left }
  | flagged : Placed { timer_cb := .flagged, frame_pending := true }
  | notified : Placed { notified := true, frame_pending := true }
  | called : Placed { frame_pending := true, task := .called }
  | decoding (len : Nat) (overflow : Bool) : Placed { frame_pending := true, task := .decoding len overflow }
  | busy (tx : List UInt8) : Placed { frame_pending := true, tx_busy := true, task := .busy tx }
  | aborted (tx : List UInt8) :
    Placed { frame_pending := true, tx_busy := true, receiving := false, task := .aborted tx }
  | driving (tx : List UInt8) :
    Placed { frame_pending := true, tx_busy := true, receiving := false, de := true, task := .driving tx }
  | sending (tx : List UInt8) (task : Task) (back : task = .returned ∨ task = .wait) :
    Placed { frame_pending := true, tx_busy := true, receiving := false, de := true, sending := some tx, task := task }
  | silent (task : Task) (back : task = .returned ∨ task = .clearing) : Placed { frame_pending := true, task := task }
  | sent (t35 : Bool) (task : Task) (back : task = .returned ∨ task = .clearing) : Placed { t35 := t35, task := task }

section
variable {srv_unit : UInt8} {s : Line}

theorem placed_received {bytes : List UInt8} (placed : Placed s.ctl) (calm : s.ctl.timer_cb ≠ .left) :
    Placed (step srv_unit s (.received bytes)).ctl := by
  obtain ⟨c, rx, srv, line, heard, frames⟩ := s
  simp only [step, rx_event] at calm ⊢
  split_ifs with on taken
  · -- bytes are taken: no frame is being handled
    cases placed with
    | listening t35 => exact .listening true
    | left => exact absurd rfl calm
    | sent t35 task back => exact .sent true task back
    | _ => exact absurd taken.1 (by simp)
  · exact placed
  · exact placed

/-- A line error finds nothing to end: while an answer is under way there is no reception that could fail. -/
theorem error_ignored (placed : Placed s.ctl) (calm : ∀ tx, s.ctl.task ≠ .busy tx) : step srv_unit s .error = s := by
  obtain ⟨c, rx, srv, line, heard, frames⟩ := s
  simp only [step] at calm ⊢
  split_ifs with on answering
  · cases placed with
    | busy tx => exact absurd rfl (calm tx)
    | aborted tx => exact absurd on (by simp)
    | driving tx => exact absurd on (by simp)
    | sending tx task back => exact absurd on (by simp)
    | _ => exact absurd answering (by simp)
  · rfl
  · rfl

theorem placed_expire (placed : Placed s.ctl) (calm : s.ctl.task = .wait) : Placed (step srv_unit s .expire).ctl := by
  obtain ⟨c, rx, srv, line, heard, frames⟩ := s
  simp only [step] at calm ⊢
  split_ifs with due
  · cases placed with
    | listening t35 => exact .left
    | sent t35 task back =>
      simp only at calm
      rcases back with rfl | rfl <;> cases calm
    | _ => exact absurd due.1 (by simp)
  · exact placed

theorem placed_timer (placed : Placed s.ctl) : Placed (step srv_unit s .timer).ctl := by
  obtain ⟨c, rx, srv, line, heard, frames⟩ := s
  cases placed with
  | left => exact .flagged
  | flagged => exact .notified
  | listening t35 => exact .listening t35
  | notified => exact .notified
  | called => exact .called
  | decoding len overflow => exact .decoding len overflow
  | busy tx => exact .busy tx
  | aborted tx => exact .aborted tx
  | driving tx => exact .driving tx
  | sending tx task back => exact .sending tx task back
  | silent task back => exact .silent task back
  | sent t35 task back => exact .sent t35 task back

theorem placed_task (placed : Placed s.ctl) : Placed (step srv_unit s .task).ctl := by
  obtain ⟨c, rx, srv, line, heard, frames⟩ := s
  cases placed with
  | listening t35 => exact .listening t35
  | left => exact .left
  | flagged => exact .flagged
  | notified => exact .called
  | called => exact .decoding _ _
  | decoding len overflow =>
    simp only [step, task_step]
    split
    · exact .silent _ (.inl rfl)
    · exact .busy _
  | busy tx => exact .aborted tx
  | aborted tx => exact .driving tx
  | driving tx => exact .sending tx _ (.inl rfl)
  | sending tx task back =>
    rcases back with rfl | rfl
    · exact .sending tx _ (.inr rfl)
    · exact .sending tx _ (.inr rfl)
  | silent task back =>
    rcases back with rfl | rfl
    · exact .silent _ (.inr rfl)
    · exact .listening false
  | sent t35 task back =>
    rcases back with rfl | rfl
    · exact .sent t35 _ (.inr rfl)
    · exact .listening t35

theorem placed_tx_complete (placed : Placed s.ctl) : Placed (step srv_unit s .tx_complete).ctl := by
  obtain ⟨c, rx, srv, line, heard, frames⟩ := s
  cases placed with
  | sending tx task back =>
    rcases back with rfl | rfl
    · exact .sent false _ (.inl rfl)
    · exact .listening false
  | listening t35 => exact .listening t35
  | left => exact .left
  | flagged => exact .flagged
  | notified => exact .notified
  | called => exact .called
  | decoding len overflow => exact .decoding len overflow
  | busy tx => exact .busy tx
  | aborted tx => exact .aborted tx
  | driving tx => exact .driving tx
  | silent task back => exact .silent task back
  | sent t35 task back => exact .sent t35 task back

theorem placed_step {e : Event} (placed : Placed s.ctl) (calm : Calm s e) : Placed (step srv_unit s e).ctl := by
  cases e with
  | received bytes => exact placed_received placed calm
  | error => rw [error_ignored placed calm]; exact placed
  | expire => exact placed_expire placed calm
  | timer => exact placed_timer placed
  | task => exact placed_task placed
  | tx_complete => exact placed_tx_complete placed

/-- The buffer holds the first 256 of the bytes `f`, and the framer knows whether there were more. -/
structure Stored (r : Framer) (f : List UInt8) : Prop where
  size : r.rx_buf.length = RTU_FRAME_MAX
  len : r.rx_len = min f.length RTU_FRAME_MAX
  bytes : r.rx_buf.take r.rx_len = f.take RTU_FRAME_MAX
  overflow : r.rx_overflow = decide (RTU_FRAME_MAX < f.length)

theorem rtu_rx_feed_stored {r : Framer} {f bytes : List UInt8} (stored : Stored r f) :
    Stored (rtu_rx_feed bytes r) (f ++ bytes) := by
  obtain ⟨size, len, front, overflow⟩ := stored
  unfold rtu_rx_feed
  by_cases lost : RTU_FRAME_MAX < f.length
  · rw [if_pos (overflow.trans (decide_eq_true lost))]
    refine ⟨size, ?_, ?_, ?_⟩
    · rw [len, List.length_append]
      omega
    · rw [front, List.take_append_of_le_length (Nat.le_of_lt lost)]
    · rw [overflow, decide_eq_true lost, decide_eq_true (by rw [List.length_append]; omega)]
  · have held : r.rx_len = f.length := by omega
    rw [if_neg (by rw [overflow, decide_eq_false lost]; decide)]
    rw [held, List.take_of_length_le (Nat.not_lt.mp lost)] at front
    simp only [held, front]
    have taken : (bytes.take (min bytes.length (RTU_FRAME_MAX - f.length))).length =
        min bytes.length (RTU_FRAME_MAX - f.length) := by
      rw [List.length_take]
      omega
    refine ⟨?_, ?_, ?_, ?_⟩
    · simp only [List.length_append, List.length_take, List.length_drop, size]
      omega
    · simp only [List.length_append]
      omega
    · rw [List.take_left' (by rw [List.length_append, taken]), List.take_append,
        List.take_of_length_le (Nat.not_lt.mp lost)]
      by_cases fits : bytes.length ≤ RTU_FRAME_MAX - f.length
      · rw [Nat.min_eq_left fits, List.take_length, List.take_of_length_le fits]
      · rw [Nat.min_eq_right (by omega)]
    · rw [List.length_append, decide_eq_decide]
      omega

theorem rtu_t35_expired_decode (unit : UInt8) (frame : List UInt8) (overflow : Bool) (s : Srv) :
    rtu_t35_expired { rx_buf := frame, rx_overflow := overflow, srv_unit := unit } s =
      ({ srv_unit := unit, transmitted := (decode unit frame overflow s).1.toList }, (decode unit frame overflow s).2) := by
  unfold rtu_t35_expired decode
  simp only
  split
  · rfl
  split
  · rfl
  · cases rtu_frame_process unit frame s with
    | mk tx s' => cases tx <;> rfl

theorem toList_inj {α : Type} {a b : Option α} (same : a.toList = b.toList) : a = b := by
  cases a <;> cases b <;> simp_all

/-- What the task makes of a frame depends on nothing but the bytes before the silence. -/
theorem decode_handled (unit : UInt8) (f : List UInt8) (s : Srv) :
    decode unit (f.take RTU_FRAME_MAX) (decide (RTU_FRAME_MAX < f.length)) s =
      handled mb_server_process mb_server_diag_count unit f s := by
  have fed : Fed { rx_buf := f.take RTU_FRAME_MAX, rx_overflow := decide (RTU_FRAME_MAX < f.length), srv_unit := unit } f :=
    ⟨rfl, rfl⟩
  have expired := expired_fed mb_server_process mb_server_diag_count fed rfl s
  rw [← rtu_t35_expired_eq, rtu_t35_expired_decode] at expired
  have sent := congrArg (fun r : Rtu × Srv => r.1.transmitted) expired
  have server := congrArg (fun r : Rtu × Srv => r.2) expired
  simp only [List.nil_append] at sent server
  exact Prod.ext (toList_inj sent) server

end

/-! ### Frames and answers -/

/-- What the line makes of one frame: the answer, and the server. -/
def answer (srv_unit : UInt8) (s : Srv) (f : List UInt8) : List (List UInt8) × Srv :=
  ((handled mb_server_process mb_server_diag_count srv_unit f s).1.toList,
    (handled mb_server_process mb_server_diag_count srv_unit f s).2)

/-- And of a row of frames. -/
def answers (srv_unit : UInt8) (srv : Srv) (frames : List (List UInt8)) : List (List UInt8) × Srv :=
  Machine.trace (answer srv_unit) srv frames

theorem answers_append (srv_unit : UInt8) (srv : Srv) (frames : List (List UInt8)) (f : List UInt8) :
    answers srv_unit srv (frames ++ [f]) =
      ((answers srv_unit srv frames).1 ++ (answer srv_unit (answers srv_unit srv frames).2 f).1,
        (answer srv_unit (answers srv_unit srv frames).2 f).2) := by
  rw [answers, Machine.trace_append, Machine.trace_one]
  rfl

/-- The answer that the task has and has not yet given to the transmitter. -/
def Task.answer : Task → List (List UInt8)
  | .busy tx | .aborted tx | .driving tx => [tx]
  | _ => []

/-- Whether the task reads a frame. -/
def Task.reads : Task → Bool
  | .decoding _ _ => true
  | _ => false

/-- Answers that are on the line, or will be. -/
def Line.answered (s : Line) : List (List UInt8) := s.line ++ s.ctl.sending.toList ++ s.ctl.task.answer

/-- Every frame up to now has been answered as its bytes demand, but for the one that
    the task is reading; and that one still stands in the buffer as it came. -/
structure Served (srv_unit : UInt8) (srv : Srv) (s : Line) : Prop where
  stored : Stored s.rx s.heard
  done : s.ctl.task.reads = false → (s.answered, s.srv) = answers srv_unit srv s.frames
  reading : ∀ len overflow, s.ctl.task = .decoding len overflow → ∃ fs f, s.frames = fs ++ [f] ∧
    s.rx.rx_buf.take len = f.take RTU_FRAME_MAX ∧ overflow = decide (RTU_FRAME_MAX < f.length) ∧
    (s.answered, s.srv) = answers srv_unit srv fs

section
variable {srv_unit : UInt8} {srv : Srv} {s : Line}

/-- Only the flags change. -/
theorem served_flags {c : Ctl} (served : Served srv_unit srv s) (task : c.task = s.ctl.task)
    (sending : c.sending = s.ctl.sending) : Served srv_unit srv { s with ctl := c } := by
  obtain ⟨stored, done, reading⟩ := served
  refine ⟨stored, ?_, ?_⟩
  · simp only [Line.answered, task, sending]
    exact done
  · simp only [Line.answered, task, sending]
    exact reading

theorem served_received {bytes : List UInt8} (placed : Placed s.ctl) (served : Served srv_unit srv s) :
    Served srv_unit srv (step srv_unit s (.received bytes)) := by
  simp only [step, rx_event]
  split_ifs with on taken
  · -- bytes are taken: the task does not read
    have idle : s.ctl.task.reads = false := by
      have open_ : s.ctl.frame_pending = false := by simpa using taken.1
      generalize s.ctl = c at placed open_
      cases placed with
      | decoding len overflow => cases open_
      | sent t35 task back => rcases back with rfl | rfl <;> rfl
      | sending tx task back => rcases back with rfl | rfl <;> rfl
      | silent task back => rcases back with rfl | rfl <;> rfl
      | _ => rfl
    refine ⟨rtu_rx_feed_stored served.stored, served.done, fun len overflow reads => ?_⟩
    simp only at reads
    rw [reads] at idle
    cases idle
  · exact served
  · exact served

theorem served_task (placed : Placed s.ctl) (served : Served srv_unit srv s) :
    Served srv_unit srv (step srv_unit s .task) := by
  obtain ⟨stored, done, reading⟩ := served
  have flags {c : Ctl} (task : c.task.answer = s.ctl.task.answer) (sending : c.sending = s.ctl.sending)
      (before : s.ctl.task.reads = false) (after : c.task.reads = false) : Served srv_unit srv { s with ctl := c } := by
    refine ⟨stored, fun _ => ?_, fun len overflow reads => ?_⟩
    · simp only [Line.answered, task, sending]
      exact done before
    · simp only at reads
      rw [reads] at after
      cases after
  simp only [step, task_step]
  cases task : s.ctl.task with
  | wait =>
    simp only
    split_ifs
    · exact flags (by rw [task]; rfl) rfl (by rw [task]; rfl) rfl
    · exact ⟨stored, done, reading⟩
  | called =>
    refine ⟨⟨stored.size, rfl, rfl, rfl⟩, fun idle => ?_, fun len overflow reads => ?_⟩
    · cases idle
    · obtain ⟨rfl, rfl⟩ := Task.decoding.inj reads
      refine ⟨s.frames, s.heard, rfl, stored.bytes, stored.overflow, ?_⟩
      have before := done (by rw [task]; rfl)
      simp only [Line.answered, task] at before ⊢
      exact before
  | decoding len overflow =>
    obtain ⟨fs, f, shape, frame, more, before⟩ := reading len overflow task
    simp only [frame, more, decode_handled]
    have after := answers_append srv_unit srv fs f
    rw [← shape, ← before] at after
    simp only [Line.answered, task, Task.answer, List.append_nil] at after
    simp only [answer] at after
    cases tx : (handled mb_server_process mb_server_diag_count srv_unit f s.srv).1 with
    | none =>
      rw [tx] at after
      simp only [Option.toList_none, List.append_nil] at after
      refine ⟨stored, fun _ => ?_, fun len overflow reads => by cases reads⟩
      simp only [Line.answered, Task.answer, List.append_nil]
      exact after.symm
    | some frame =>
      rw [tx] at after
      simp only [Option.toList_some] at after
      refine ⟨stored, fun _ => ?_, fun len overflow reads => by cases reads⟩
      simp only [Line.answered, Task.answer]
      exact after.symm
  | busy tx => exact flags (by rw [task]; rfl) rfl (by rw [task]; rfl) rfl
  | aborted tx => exact flags (by rw [task]; rfl) rfl (by rw [task]; rfl) rfl
  | driving tx =>
    have free : s.ctl.sending = none := by
      generalize s.ctl = c at placed task
      cases placed with
      | driving tx => rfl
      | sending tx t back => rcases back with rfl | rfl <;> cases task
      | _ => rfl
    simp only [if_pos free]
    refine ⟨stored, fun _ => ?_, fun len overflow reads => by cases reads⟩
    have before := done (by rw [task]; rfl)
    simp only [Line.answered, task, free, Task.answer, Option.toList_none, Option.toList_some, List.append_nil] at before ⊢
    exact before
  | failed => exact flags (by rw [task]; rfl) rfl (by rw [task]; rfl) rfl
  | returned =>
    refine flags ?_ rfl (by rw [task]; rfl) ?_
    · rw [task]
      simp only
      split_ifs <;> rfl
    · simp only
      split_ifs <;> rfl
  | clearing => exact flags (by rw [task]; rfl) rfl (by rw [task]; rfl) rfl

theorem served_tx_complete (served : Served srv_unit srv s) : Served srv_unit srv (step srv_unit s .tx_complete) := by
  simp only [step]
  cases under_way : s.ctl.sending with
  | none => exact served
  | some tx =>
    obtain ⟨stored, done, reading⟩ := served
    have same : s.answered = s.line ++ [tx] ++ s.ctl.task.answer := by rw [Line.answered, under_way]; rfl
    rw [same] at done reading
    refine ⟨stored, fun idle => ?_, fun len overflow reads => ?_⟩
    · simp only [Line.answered, rtu_tx_finish, Ctl.release, Option.toList_none, List.append_nil]
      exact done idle
    · obtain ⟨fs, f, shape, frame, more, before⟩ := reading len overflow reads
      refine ⟨fs, f, shape, frame, more, ?_⟩
      simp only [Line.answered, rtu_tx_finish, Ctl.release, Option.toList_none, List.append_nil]
      exact before

theorem served_step {e : Event} (placed : Placed s.ctl) (calm : Calm s e) (served : Served srv_unit srv s) :
    Served srv_unit srv (step srv_unit s e) := by
  cases e with
  | received bytes => exact served_received placed served
  | error =>
    rw [error_ignored placed calm]
    exact served
  | expire =>
    simp only [step]
    split_ifs
    · exact served_flags served rfl rfl
    · exact served
  | timer =>
    simp only [step]
    split
    · exact served
    · exact served_flags served rfl rfl
    · exact served_flags served rfl rfl
  | task => exact served_task placed served
  | tx_complete => exact served_tx_complete served

end

/-! ### Runs -/

/-- The line as `mb_rtu_start` leaves it. -/
def started (srv : Srv) : Line := { rx := ⟨List.replicate RTU_FRAME_MAX 0, 0, false⟩, srv := srv }

/-- Without another byte or silence the line comes to listen: callback, task and transmitter get it there. -/
def Recovers (srv_unit : UInt8) (s : Line) : Prop :=
  ∃ es : List Event, (∀ e ∈ es, e = .timer ∨ e = .task ∨ e = .tx_complete) ∧
    ∃ t35, (es.foldl (step srv_unit) s).ctl = { t35 := t35 }

/-- The line as the bus sees it. DE is up exactly while an answer is on the bus, but for the moment before its
    first bit; then nothing is received. With nothing left to do the line listens, and it always gets there. -/
structure Disciplined (srv_unit : UInt8) (s : Line) : Prop where
  driven : ∀ tx, s.ctl.sending = some tx → s.ctl.de = true ∧ s.ctl.receiving = false
  released : s.ctl.de = true → s.ctl.sending ≠ none ∨ ∃ tx, s.ctl.task = .driving tx
  listens : s.ctl.task = .wait → s.ctl.notified = false → s.ctl.timer_cb = .idle → s.ctl.sending = none →
    s.ctl.receiving = true ∧ s.ctl.frame_pending = false ∧ s.ctl.de = false
  recovers : Recovers srv_unit s

section
variable {srv_unit : UInt8} {srv : Srv} {s : Line}

theorem recovers_after (e : Event) (own : e = .timer ∨ e = .task ∨ e = .tx_complete)
    (later : Recovers srv_unit (step srv_unit s e)) : Recovers srv_unit s := by
  obtain ⟨es, all, ends⟩ := later
  exact ⟨e :: es, List.forall_mem_cons.mpr ⟨own, all⟩, ends⟩

theorem recovers_listening {t35 : Bool} (at_ : s.ctl = { t35 := t35 }) : Recovers srv_unit s :=
  ⟨[], by simp, t35, at_⟩

theorem recovers_sending {tx : List UInt8} {task : Task} (back : task = .returned ∨ task = .wait)
    (at_ : s.ctl = { frame_pending := true, tx_busy := true, receiving := false, de := true, sending := some tx, task := task }) :
    Recovers srv_unit s := by
  have waiting {s : Line} (at_ : s.ctl = { frame_pending := true, tx_busy := true, receiving := false, de := true, sending := some tx }) :
      Recovers srv_unit s := by
    refine recovers_after .tx_complete (by simp) (@recovers_listening _ _ false ?_)
    simp only [step, at_]
    rfl
  rcases back with rfl | rfl
  · refine recovers_after .task (by simp) (waiting ?_)
    simp only [step, task_step, at_]
    rfl
  · exact waiting at_

theorem recovers_busy {tx : List UInt8} (at_ : s.ctl = { frame_pending := true, tx_busy := true, task := .busy tx }) :
    Recovers srv_unit s := by
  refine recovers_after .task (by simp) (recovers_after .task (by simp) (recovers_after .task (by simp) ?_))
  refine @recovers_sending _ _ tx .returned (.inl rfl) ?_
  simp only [step, task_step, at_]
  rfl

theorem recovers_silent {task : Task} (back : task = .returned ∨ task = .clearing)
    (at_ : s.ctl = { frame_pending := true, task := task }) : Recovers srv_unit s := by
  have clearing {s : Line} (at_ : s.ctl = { frame_pending := true, task := .clearing }) : Recovers srv_unit s := by
    refine recovers_after .task (by simp) (@recovers_listening _ _ false ?_)
    simp only [step, task_step, at_]
  rcases back with rfl | rfl
  · refine recovers_after .task (by simp) (clearing ?_)
    simp only [step, task_step, at_]
    rfl
  · exact clearing at_

theorem recovers_sent {t35 : Bool} {task : Task} (back : task = .returned ∨ task = .clearing)
    (at_ : s.ctl = { t35 := t35, task := task }) : Recovers srv_unit s := by
  have clearing {s : Line} (at_ : s.ctl = { t35 := t35, task := .clearing }) : Recovers srv_unit s := by
    refine recovers_after .task (by simp) (@recovers_listening _ _ t35 ?_)
    simp only [step, task_step, at_]
  rcases back with rfl | rfl
  · refine recovers_after .task (by simp) (clearing ?_)
    simp only [step, task_step, at_]
    rfl
  · exact clearing at_

theorem recovers_decoding {len : Nat} {overflow : Bool}
    (at_ : s.ctl = { frame_pending := true, task := .decoding len overflow }) : Recovers srv_unit s := by
  refine recovers_after .task (by simp) ?_
  simp only [step, task_step, at_]
  split
  · exact recovers_silent (.inl rfl) rfl
  · exact recovers_busy rfl

theorem recovers_notified (at_ : s.ctl = { notified := true, frame_pending := true }) : Recovers srv_unit s := by
  refine recovers_after .task (by simp) (recovers_after .task (by simp) (@recovers_decoding _ _ s.rx.rx_len s.rx.rx_overflow ?_))
  simp only [step, task_step, at_]
  rfl

theorem placed_recovers (placed : Placed s.ctl) : Recovers srv_unit s := by
  generalize at_ : s.ctl = c at placed
  cases placed with
  | listening t35 => exact recovers_listening at_
  | left =>
    refine recovers_after .timer (by simp) (recovers_after .timer (by simp) (recovers_notified ?_))
    simp only [step, at_]
  | flagged =>
    refine recovers_after .timer (by simp) (recovers_notified ?_)
    simp only [step, at_]
  | notified => exact recovers_notified at_
  | called =>
    refine recovers_after .task (by simp) (@recovers_decoding _ _ s.rx.rx_len s.rx.rx_overflow ?_)
    simp only [step, task_step, at_]
  | decoding len overflow => exact recovers_decoding at_
  | busy tx => exact recovers_busy at_
  | aborted tx =>
    refine recovers_after .task (by simp) (recovers_after .task (by simp) (@recovers_sending _ _ tx .returned (.inl rfl) ?_))
    simp only [step, task_step, at_]
    rfl
  | driving tx =>
    refine recovers_after .task (by simp) (@recovers_sending _ _ tx .returned (.inl rfl) ?_)
    simp only [step, task_step, at_]
    rfl
  | sending tx task back => exact recovers_sending back at_
  | silent task back => exact recovers_silent back at_
  | sent t35 task back => exact recovers_sent back at_

theorem placed_disciplined (placed : Placed s.ctl) : Disciplined srv_unit s := by
  refine ⟨?_, ?_, ?_, placed_recovers placed⟩ <;> generalize s.ctl = c at placed
  · intro tx sending
    cases placed with
    | sending tx' task back => exact ⟨rfl, rfl⟩
    | _ => cases sending
  · intro up
    cases placed with
    | driving tx => exact .inr ⟨tx, rfl⟩
    | sending tx task back => exact .inl (by simp)
    | _ => cases up
  · intro waits quiet idle free
    cases placed with
    | listening t35 => exact ⟨rfl, rfl, rfl⟩
    | left => cases idle
    | flagged => cases idle
    | notified => cases quiet
    | sending tx task back => cases free
    | silent task back => rcases back with rfl | rfl <;> cases waits
    | sent t35 task back => exact ⟨rfl, rfl, rfl⟩
    | _ => cases waits

end

end IoEdgeHub.RtuLine
