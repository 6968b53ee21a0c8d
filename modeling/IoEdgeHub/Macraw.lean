import IoEdgeHub.Bytes
import IoEdgeHub.Machine

/-!
The receive side of the network driver (`net/w5500_macraw.c`): the receive task, the
interrupt that wakes it, the thread that sends, and the chip, which takes in frames at any
time between two of their accesses. The chip and the library that talks to it are not
part of the source; they are a parameter, with what they do to the receive buffer.
-/
namespace IoEdgeHub.Macraw
open IoEdgeHub.Bytes IoEdgeHub.Machine

def MACRAW_MAX_FRAME : Nat := 1514

def MACRAW_RX_BURST : Nat := 32

abbrev Frame := List UInt8

/-- The receive side of socket 0: the bytes that the chip holds, how many of them were read
    since the last RECV command, and the RECV bit of `Sn_IR`. -/
structure Rx where
  held : List UInt8 := []
  read : Nat := 0
  recv : Bool := false

/-- A frame as the chip holds it: its length, that of the length included, and its bytes. -/
def packet (f : Frame) : List UInt8 := io_put_be16 (f.length + 2) ++ f

/-- What the driver asks of the chip and of the library, and what comes of it. A frame that comes
    in is held whole or not at all. -/
structure Chip (σ : Type) where
  rx : σ → Rx
  arrive : Frame → σ → σ
  getSn_RX_RSR : σ → Nat
  wiz_recv_data : Nat → σ → List UInt8 × σ
  wiz_recv_ignore : Nat → σ → σ
  cr_recv : σ → σ
  ir_clear : σ → σ
  reopen : σ → σ
  arrived : ∀ f s, rx (arrive f s) = { rx s with held := (rx s).held ++ packet f, recv := true } ∨ rx (arrive f s) = rx s
  received_size : ∀ s, getSn_RX_RSR s = (rx s).held.length
  data_bytes : ∀ n s, (wiz_recv_data n s).1 = ((rx s).held.drop (rx s).read).take n
  data_rx : ∀ n s, rx (wiz_recv_data n s).2 = { rx s with read := (rx s).read + n }
  ignore_rx : ∀ n s, rx (wiz_recv_ignore n s) = { rx s with read := (rx s).read + n }
  command_rx : ∀ s, rx (cr_recv s) = { rx s with held := (rx s).held.drop (rx s).read, read := 0 }
  clear_rx : ∀ s, rx (ir_clear s) = { rx s with recv := false }
  reopen_rx : ∀ s, rx (reopen s) = {}

/-- Who holds `spi_lock`. -/
inductive Holder
  | macraw_rx
  | tcpip
  deriving DecidableEq

/-- Where the receive task is. From `burst` to `input` it is in its loop, with so many rounds left,
    from `reading` to `unlocking` in `low_level_input` and under the lock. -/
inductive Task
  | taking
  | woken
  | burst (budget : Nat)
  | locking (budget : Nat)
  | reading (budget : Nat)
  | framing (budget : Nat) (hdr_buf : List UInt8)
  | reopening (budget : Nat)
  | allocating (budget : Nat) (framelen : Nat)
  | filling (budget : Nat) (framelen : Nat)
  | ignoring (budget : Nat) (framelen : Nat)
  | committing (budget : Nat) (p : Option Frame)
  | unlocking (budget : Nat) (p : Option Frame)
  | input (budget : Nat) (p : Frame)
  | relocking
  | clearing
  | rechecking
  | giving_back
  deriving DecidableEq

/-- The frame that the task has taken from the chip and not yet passed on. -/
def Task.in_hand : Task → List Frame
  | .unlocking _ (some p) | .input _ p => [p]
  | _ => []

/-- The driver. `exti`: the interrupt is pending. `stored`: the frames that the chip has taken in.
    `done`: those that the task is done with, and whether they went to the stack or were ignored
    for want of a buffer. -/
structure Driver (σ : Type) where
  chip : σ
  exti : Bool := false
  rx_sem : Nat := 0
  spi_lock : Option Holder := none
  task : Task := .taking
  macraw_rx_badhdr : Nat := 0
  stored : List Frame := []
  done : List (Frame × Bool) := []

/-- `arrive`: a frame comes in. `exti`: the interrupt handler runs. `task`: the next access of
    the receive task, with or without a buffer in the pool. `lock` and `unlock` are the sending
    thread's. -/
inductive Event
  | arrive (f : Frame)
  | exti
  | task (pbuf : Bool)
  | lock
  | unlock
  deriving DecidableEq

section
variable {σ : Type} (C : Chip σ)

/-- The count of `rx_sem` after a give. -/
def given (count : Nat) : Nat := if count < 0xFFFF then count + 1 else count

/-- The RECV bit pulls the interrupt line down; the handler is for the falling edge. -/
def arrive (f : Frame) (s : Driver σ) : Driver σ :=
  let before := C.rx s.chip
  let after := C.rx (C.arrive f s.chip)
  { s with
    chip := C.arrive f s.chip
    exti := s.exti || (!before.recv && after.recv)
    stored := if after.held.length = before.held.length then s.stored else s.stored ++ [f] }

/-- `framelen` of a header, in 16 bits. -/
def frame_length (hdr_buf : List UInt8) : Nat := (io_get_be16 hdr_buf + 65534) % 65536

/-- The next access of `macraw_rx_task`. It is woken after 10 ms too. -/
def task_step (pbuf : Bool) (s : Driver σ) : Driver σ :=
  match s.task with
  | .taking => { s with rx_sem := s.rx_sem - 1, task := .woken }
  | .woken => { s with task := if C.getSn_RX_RSR s.chip = 0 then .taking else .burst MACRAW_RX_BURST }
  | .burst 0 => { s with task := .relocking }
  | .burst (budget + 1) => { s with task := if C.getSn_RX_RSR s.chip < 2 then .relocking else .locking budget }
  | .locking budget => if s.spi_lock = none then { s with spi_lock := some .macraw_rx, task := .reading budget } else s
  | .reading budget =>
    let r := C.wiz_recv_data 2 s.chip
    { s with chip := r.2, task := .framing budget r.1 }
  | .framing budget hdr_buf =>
    let framelen := frame_length hdr_buf
    { s with
      chip := C.cr_recv s.chip
      task := if framelen = 0 ∨ framelen > MACRAW_MAX_FRAME then .reopening budget else .allocating budget framelen }
  | .reopening budget =>
    { s with chip := C.reopen s.chip, macraw_rx_badhdr := s.macraw_rx_badhdr + 1, task := .unlocking budget none }
  | .allocating budget framelen => { s with task := if pbuf then .filling budget framelen else .ignoring budget framelen }
  | .filling budget framelen =>
    let r := C.wiz_recv_data framelen s.chip
    { s with chip := r.2, task := .committing budget (some r.1) }
  | .ignoring budget framelen => { s with chip := C.wiz_recv_ignore framelen s.chip, task := .committing budget none }
  | .committing budget p =>
    let rx := C.rx s.chip
    { s with
      chip := C.cr_recv s.chip
      task := .unlocking budget p
      done := if p = none then s.done ++ [(rx.held.take rx.read, false)] else s.done }
  | .unlocking budget p =>
    match p with
    | none => { s with spi_lock := none, task := .relocking }
    | some p => { s with spi_lock := none, task := .input budget p }
  | .input budget p => { s with task := .burst budget, done := s.done ++ [(p, true)] }
  | .relocking => if s.spi_lock = none then { s with spi_lock := some .macraw_rx, task := .clearing } else s
  | .clearing => { s with chip := C.ir_clear s.chip, task := .rechecking }
  | .rechecking =>
    { s with rx_sem := if C.getSn_RX_RSR s.chip ≠ 0 then given s.rx_sem else s.rx_sem, task := .giving_back }
  | .giving_back => { s with spi_lock := none, task := .taking }

def step (s : Driver σ) : Event → Driver σ
  | .arrive f => arrive C f s
  | .exti => if s.exti then { s with exti := false, rx_sem := given s.rx_sem } else s
  | .task pbuf => task_step C pbuf s
  | .lock => if s.spi_lock = none then { s with spi_lock := some .tcpip } else s
  | .unlock => if s.spi_lock = some .tcpip then { s with spi_lock := none } else s

end

/-- A frame of a length that the driver takes. -/
def Fits (f : Frame) : Prop := 0 < f.length ∧ f.length ≤ MACRAW_MAX_FRAME

/-- How the buffer holds the frames that the task is not done with, depending on where it is. -/
def Placed (rx : Rx) (waiting : List Frame) : Task → Prop
  | .locking _ | .reading _ => waiting ≠ [] ∧ rx.held = waiting.flatMap packet ∧ rx.read = 0
  | .framing _ hdr_buf =>
    ∃ f rest, waiting = f :: rest ∧ rx.held = waiting.flatMap packet ∧ rx.read = 2 ∧ hdr_buf = io_put_be16 (f.length + 2)
  | .reopening _ => False
  | .allocating _ framelen | .filling _ framelen | .ignoring _ framelen =>
    ∃ f rest, waiting = f :: rest ∧ rx.held = f ++ rest.flatMap packet ∧ rx.read = 0 ∧ framelen = f.length
  | .committing _ p =>
    ∃ f rest, waiting = f :: rest ∧ rx.held = f ++ rest.flatMap packet ∧ rx.read = f.length ∧ ∀ g, p = some g → g = f
  | .burst budget => rx.held = waiting.flatMap packet ∧ rx.read = 0 ∧ (budget = MACRAW_RX_BURST → waiting ≠ [])
  | _ => rx.held = waiting.flatMap packet ∧ rx.read = 0

/-- Whether the task is between taking the lock and giving it back. -/
def Task.inside : Task → Bool
  | .reading _ | .framing .. | .reopening _ | .allocating .. | .filling .. | .ignoring .. | .committing .. | .unlocking ..
  | .clearing | .rechecking | .giving_back => true
  | _ => false

/-- How many rounds of its loop are left to the task, the one it is in included. -/
def Task.rounds : Task → Nat
  | .burst budget => budget
  | .locking budget | .reading budget | .framing budget _ | .reopening budget | .allocating budget _ | .filling budget _
  | .ignoring budget _ | .committing budget _ | .unlocking budget _ | .input budget _ => budget + 1
  | _ => 0

/-- That the task is `woken` where there is a frame that it will not see before it sleeps. Until
    it has asked the chip for frames, the RECV bit is only up where there is one. -/
def Alert (rx : Rx) (waiting : List Frame) (woken : Prop) : Task → Prop
  | .taking | .giving_back => (rx.recv = true → waiting ≠ []) ∧ (waiting ≠ [] → woken)
  | .woken => rx.recv = true → waiting ≠ []
  | .rechecking => (rx.recv = true → waiting ≠ []) ∧ (rx.recv = true → woken)
  | _ => True

/-- A wake-up of the task is counted, or the interrupt that counts one is pending. -/
def Driver.Woken {σ : Type} (s : Driver σ) : Prop := 0 < s.rx_sem ∨ s.exti = true

section
variable {σ : Type} {C : Chip σ} {s : Driver σ} {waiting : List Frame}

/-- What every step keeps while all frames fit: the frames that were stored are those that
    are done, the one in hand and those waiting; who has the lock; and that no wake-up is lost. -/
structure Inv (C : Chip σ) (s : Driver σ) (waiting : List Frame) : Prop where
  order : s.stored = s.done.map (·.1) ++ s.task.in_hand ++ waiting
  placed : Placed (C.rx s.chip) waiting s.task
  fits : ∀ f ∈ waiting, Fits f
  rounds : s.task.rounds ≤ MACRAW_RX_BURST
  locked : s.spi_lock = some .macraw_rx ↔ s.task.inside = true
  sane : s.macraw_rx_badhdr = 0
  alert : Alert (C.rx s.chip) waiting s.Woken s.task

theorem packet_length (f : Frame) : (packet f).length = f.length + 2 := by
  simp only [packet, io_put_be16, List.length_append, List.length_cons, List.length_nil]
  omega

theorem held_nil : waiting.flatMap packet = [] ↔ waiting = [] := by
  constructor
  · intro empty
    cases waiting with
    | nil => rfl
    | cons f rest => simp [packet, io_put_be16] at empty
  · rintro rfl
    rfl

theorem frame_length_packet {f : Frame} (fits : Fits f) : frame_length (io_put_be16 (f.length + 2)) = f.length := by
  have small : f.length ≤ 1514 := fits.2
  have header := io_get_put_be16 (f.length + 2) []
  rw [List.append_nil] at header
  rw [frame_length, header]
  omega

/-- What a frame that is stored adds comes behind all that is there. -/
theorem placed_arrive {rx : Rx} {task : Task} (placed : Placed rx waiting task) (f : Frame) :
    Placed { rx with held := rx.held ++ packet f, recv := true } (waiting ++ [f]) task := by
  have behind : (waiting ++ [f]).flatMap packet = waiting.flatMap packet ++ packet f := by simp
  cases task with
  | locking budget | reading budget =>
    obtain ⟨some_, held, unread⟩ := placed
    exact ⟨by simp, by rw [behind, ← held], unread⟩
  | framing budget hdr_buf =>
    obtain ⟨g, rest, rfl, held, read, header⟩ := placed
    exact ⟨g, rest ++ [f], rfl, by rw [behind, ← held], read, header⟩
  | reopening budget => exact placed
  | allocating budget framelen | filling budget framelen | ignoring budget framelen =>
    obtain ⟨g, rest, rfl, held, unread, length⟩ := placed
    exact ⟨g, rest ++ [f], rfl, by simp [held], unread, length⟩
  | committing budget p =>
    obtain ⟨g, rest, rfl, held, read, same⟩ := placed
    exact ⟨g, rest ++ [f], rfl, by simp [held], read, same⟩
  | burst budget =>
    obtain ⟨held, unread, -⟩ := placed
    exact ⟨by rw [behind, ← held], unread, fun _ => by simp⟩
  | _ =>
    obtain ⟨held, unread⟩ := placed
    exact ⟨by rw [behind, ← held], unread⟩

theorem given_pos (count : Nat) : 0 < given count := by
  unfold given
  split <;> omega

theorem alert_mono {rx : Rx} {woken woken' : Prop} {task : Task} (alert : Alert rx waiting woken task)
    (later : woken → woken') : Alert rx waiting woken' task := by
  cases task with
  | taking | giving_back => exact ⟨alert.1, fun some_ => later (alert.2 some_)⟩
  | rechecking => exact ⟨alert.1, fun up => later (alert.2 up)⟩
  | _ => exact alert

/-- A frame that is stored wakes the task, by the edge of the RECV bit unless it was up already. -/
theorem alert_arrive {rx : Rx} {woken woken' : Prop} {task : Task} (alert : Alert rx waiting woken task) (f : Frame)
    (later : woken → woken') (edge : rx.recv = false → woken') :
    Alert { rx with held := rx.held ++ packet f, recv := true } (waiting ++ [f]) woken' task := by
  have some_ : waiting ++ [f] ≠ [] := List.append_ne_nil_of_right_ne_nil _ (List.cons_ne_nil _ _)
  cases task with
  | taking | giving_back =>
    refine ⟨fun _ => some_, fun _ => ?_⟩
    cases up : rx.recv with
    | false => exact edge up
    | true => exact later (alert.2 (alert.1 up))
  | woken => exact fun _ => some_
  | rechecking =>
    refine ⟨fun _ => some_, fun _ => ?_⟩
    cases up : rx.recv with
    | false => exact edge up
    | true => exact later (alert.2 up)
  | _ => trivial

theorem arrive_inv (inv : Inv C s waiting) {f : Frame} (fits : Fits f) : ∃ waiting', Inv C (arrive C f s) waiting' := by
  rcases C.arrived f s.chip with taken | lost
  · refine ⟨waiting ++ [f], ?_⟩
    have longer : ¬ (C.rx (C.arrive f s.chip)).held.length = (C.rx s.chip).held.length := by
      rw [taken, List.length_append, packet_length]
      omega
    constructor
    case order => simp only [arrive, if_neg longer, inv.order, List.append_assoc]
    case placed =>
      simp only [arrive, taken]
      exact placed_arrive inv.placed f
    case fits =>
      intro g member
      rcases List.mem_append.mp member with old | new
      · exact inv.fits g old
      · rw [List.mem_singleton.mp new]
        exact fits
    case rounds => exact inv.rounds
    case locked => exact inv.locked
    case sane => exact inv.sane
    case alert =>
      have later (woken : s.Woken) : (arrive C f s).Woken := woken.imp_right fun pending => by simp [arrive, pending]
      have edge (down : (C.rx s.chip).recv = false) : (arrive C f s).Woken := .inr (by simp [arrive, taken, down])
      have alert := alert_arrive inv.alert f later edge
      rw [← taken] at alert
      exact alert
  · refine ⟨waiting, ?_⟩
    have same : arrive C f s = { s with chip := C.arrive f s.chip, exti := s.exti } := by simp [arrive, lost]
    rw [same]
    exact { inv with
      placed := by rw [lost]; exact inv.placed
      alert := by rw [lost]; exact inv.alert }

theorem rsr_zero {rx : Rx} {chip : σ} (at_ : C.rx chip = rx) (held : rx.held = waiting.flatMap packet) :
    C.getSn_RX_RSR chip = 0 ↔ waiting = [] := by
  rw [C.received_size, at_, held, List.length_eq_zero_iff, held_nil]

/-- There is no part of a frame in the buffer. -/
theorem rsr_small {rx : Rx} {chip : σ} (at_ : C.rx chip = rx) (held : rx.held = waiting.flatMap packet) :
    C.getSn_RX_RSR chip < 2 ↔ waiting = [] := by
  rw [C.received_size, at_, held]
  cases waiting with
  | nil => simp
  | cons f rest =>
    simp only [List.flatMap_cons, List.length_append, packet_length, reduceCtorEq, iff_false]
    omega

section
variable {chip : σ} {exti pbuf : Bool} {sem bad budget framelen : Nat} {lock : Option Holder} {stored : List Frame}
  {done : List (Frame × Bool)}

theorem unlocked {task : Task} (outside : task.inside = false) :
    (none : Option Holder) = some .macraw_rx ↔ task.inside = true := by
  simp [outside]

theorem taking_inv (inv : Inv C ⟨chip, exti, sem, lock, .taking, bad, stored, done⟩ waiting) :
    Inv C ⟨chip, exti, sem - 1, lock, .woken, bad, stored, done⟩ waiting :=
  ⟨inv.order, inv.placed, inv.fits, inv.rounds, inv.locked, inv.sane, inv.alert.1⟩

/-- The task goes back to sleep only where there is nothing. -/
theorem woken_inv (inv : Inv C ⟨chip, exti, sem, lock, .woken, bad, stored, done⟩ waiting) :
    Inv C (task_step C pbuf ⟨chip, exti, sem, lock, .woken, bad, stored, done⟩) waiting := by
  obtain ⟨order, ⟨held, unread⟩, fits, -, locked, sane, alert⟩ := inv
  have rsr : C.getSn_RX_RSR chip = 0 ↔ waiting = [] := rsr_zero rfl held
  by_cases empty : waiting = []
  · have next : task_step C pbuf ⟨chip, exti, sem, lock, .woken, bad, stored, done⟩ =
        ⟨chip, exti, sem, lock, .taking, bad, stored, done⟩ := by simp only [task_step, if_pos (rsr.mpr empty)]
    rw [next]
    exact ⟨order, ⟨held, unread⟩, fits, Nat.zero_le _, locked, sane, alert, fun some_ => absurd empty some_⟩
  · have next : task_step C pbuf ⟨chip, exti, sem, lock, .woken, bad, stored, done⟩ =
        ⟨chip, exti, sem, lock, .burst MACRAW_RX_BURST, bad, stored, done⟩ := by
      simp only [task_step, if_neg (mt rsr.mp empty)]
    rw [next]
    exact ⟨order, ⟨held, unread, fun _ => empty⟩, fits, Nat.le_refl _, locked, sane, trivial⟩

theorem burst_over_inv (inv : Inv C ⟨chip, exti, sem, lock, .burst budget, bad, stored, done⟩ waiting) :
    Inv C ⟨chip, exti, sem, lock, .relocking, bad, stored, done⟩ waiting := by
  obtain ⟨order, ⟨held, unread, -⟩, fits, -, locked, sane, -⟩ := inv
  exact ⟨order, ⟨held, unread⟩, fits, Nat.zero_le _, locked, sane, trivial⟩

theorem burst_inv (inv : Inv C ⟨chip, exti, sem, lock, .burst (budget + 1), bad, stored, done⟩ waiting) :
    Inv C (task_step C pbuf ⟨chip, exti, sem, lock, .burst (budget + 1), bad, stored, done⟩) waiting := by
  have rsr : C.getSn_RX_RSR chip < 2 ↔ waiting = [] := rsr_small rfl inv.placed.1
  by_cases empty : waiting = []
  · have next : task_step C pbuf ⟨chip, exti, sem, lock, .burst (budget + 1), bad, stored, done⟩ =
        ⟨chip, exti, sem, lock, .relocking, bad, stored, done⟩ := by simp only [task_step, if_pos (rsr.mpr empty)]
    rw [next]
    exact burst_over_inv inv
  · have next : task_step C pbuf ⟨chip, exti, sem, lock, .burst (budget + 1), bad, stored, done⟩ =
        ⟨chip, exti, sem, lock, .locking budget, bad, stored, done⟩ := by
      simp only [task_step, if_neg (mt rsr.mp empty)]
    obtain ⟨order, ⟨held, unread, -⟩, fits, rounds, locked, sane, -⟩ := inv
    rw [next]
    exact ⟨order, ⟨empty, held, unread⟩, fits, rounds, locked, sane, trivial⟩

theorem locking_inv (inv : Inv C ⟨chip, exti, sem, lock, .locking budget, bad, stored, done⟩ waiting) :
    Inv C (task_step C pbuf ⟨chip, exti, sem, lock, .locking budget, bad, stored, done⟩) waiting := by
  simp only [task_step]
  split
  · exact ⟨inv.order, inv.placed, inv.fits, inv.rounds, iff_of_true rfl rfl, inv.sane, trivial⟩
  · exact inv

theorem reading_inv (inv : Inv C ⟨chip, exti, sem, lock, .reading budget, bad, stored, done⟩ waiting) :
    Inv C ⟨(C.wiz_recv_data 2 chip).2, exti, sem, lock, .framing budget (C.wiz_recv_data 2 chip).1, bad, stored, done⟩
      waiting := by
  obtain ⟨order, ⟨some_, held, unread⟩, fits, rounds, locked, sane, -⟩ := inv
  obtain ⟨f, rest, rfl⟩ := List.exists_cons_of_ne_nil some_
  have header : (C.wiz_recv_data 2 chip).1 = io_put_be16 (f.length + 2) := by
    rw [C.data_bytes, held, unread]
    rfl
  have placed : Placed (C.rx (C.wiz_recv_data 2 chip).2) (f :: rest) (.framing budget (C.wiz_recv_data 2 chip).1) := by
    rw [C.data_rx]
    exact ⟨f, rest, rfl, held, congrArg (· + 2) unread, header⟩
  exact ⟨order, placed, fits, rounds, locked, sane, trivial⟩

/-- The header is that of a frame that was stored, so the driver is in step with the chip. -/
theorem framing_next {f : Frame} (fits : Fits f) :
    task_step C pbuf ⟨chip, exti, sem, lock, .framing budget (io_put_be16 (f.length + 2)), bad, stored, done⟩ =
      ⟨C.cr_recv chip, exti, sem, lock, .allocating budget f.length, bad, stored, done⟩ := by
  have good : ¬ (f.length = 0 ∨ f.length > MACRAW_MAX_FRAME) := by
    obtain ⟨some_, short⟩ := fits
    omega
  simp only [task_step, frame_length_packet fits, if_neg good]

theorem framing_inv {hdr_buf : List UInt8} (inv : Inv C ⟨chip, exti, sem, lock, .framing budget hdr_buf, bad, stored, done⟩ waiting) :
    Inv C (task_step C pbuf ⟨chip, exti, sem, lock, .framing budget hdr_buf, bad, stored, done⟩) waiting := by
  obtain ⟨order, ⟨f, rest, rfl, held, read, rfl⟩, fits, rounds, locked, sane, -⟩ := inv
  have placed : Placed (C.rx (C.cr_recv chip)) (f :: rest) (.allocating budget f.length) := by
    rw [C.command_rx, held, read]
    exact ⟨f, rest, rfl, rfl, rfl, rfl⟩
  rw [framing_next (fits f List.mem_cons_self)]
  exact ⟨order, placed, fits, rounds, locked, sane, trivial⟩

theorem allocating_inv (inv : Inv C ⟨chip, exti, sem, lock, .allocating budget framelen, bad, stored, done⟩ waiting) :
    Inv C (task_step C pbuf ⟨chip, exti, sem, lock, .allocating budget framelen, bad, stored, done⟩) waiting := by
  cases pbuf with
  | true => exact ⟨inv.order, inv.placed, inv.fits, inv.rounds, inv.locked, inv.sane, trivial⟩
  | false => exact ⟨inv.order, inv.placed, inv.fits, inv.rounds, inv.locked, inv.sane, trivial⟩

/-- What the task reads is the frame as it was stored. -/
theorem filling_inv (inv : Inv C ⟨chip, exti, sem, lock, .filling budget framelen, bad, stored, done⟩ waiting) :
    Inv C ⟨(C.wiz_recv_data framelen chip).2, exti, sem, lock, .committing budget (some (C.wiz_recv_data framelen chip).1),
      bad, stored, done⟩ waiting := by
  obtain ⟨order, ⟨f, rest, rfl, held, unread, rfl⟩, fits, rounds, locked, sane, -⟩ := inv
  have bytes : (C.wiz_recv_data f.length chip).1 = f := by
    rw [C.data_bytes, held, unread, List.drop_zero, List.take_left]
  have placed : Placed (C.rx (C.wiz_recv_data f.length chip).2) (f :: rest)
      (.committing budget (some (C.wiz_recv_data f.length chip).1)) := by
    rw [C.data_rx, unread, Nat.zero_add]
    refine ⟨f, rest, rfl, held, rfl, fun g same => ?_⟩
    rw [← Option.some.inj same, bytes]
  exact ⟨order, placed, fits, rounds, locked, sane, trivial⟩

theorem ignoring_inv (inv : Inv C ⟨chip, exti, sem, lock, .ignoring budget framelen, bad, stored, done⟩ waiting) :
    Inv C ⟨C.wiz_recv_ignore framelen chip, exti, sem, lock, .committing budget none, bad, stored, done⟩ waiting := by
  obtain ⟨order, ⟨f, rest, rfl, held, unread, rfl⟩, fits, rounds, locked, sane, -⟩ := inv
  have placed : Placed (C.rx (C.wiz_recv_ignore f.length chip)) (f :: rest) (.committing budget none) := by
    rw [C.ignore_rx, unread, Nat.zero_add]
    exact ⟨f, rest, rfl, held, rfl, fun g same => nomatch same⟩
  exact ⟨order, placed, fits, rounds, locked, sane, trivial⟩

/-- The frame at the front of the buffer is given back to the chip: it is in hand now, or done
    with if there was no buffer for it. -/
theorem committing_inv {p : Option Frame} (inv : Inv C ⟨chip, exti, sem, lock, .committing budget p, bad, stored, done⟩ waiting) :
    ∃ waiting', Inv C (task_step C pbuf ⟨chip, exti, sem, lock, .committing budget p, bad, stored, done⟩) waiting' := by
  obtain ⟨order, ⟨f, rest, rfl, held, read, same⟩, fits, rounds, locked, sane, -⟩ := inv
  have placed : Placed (C.rx (C.cr_recv chip)) rest (.unlocking budget p) := by
    rw [C.command_rx, held, read, List.drop_left]
    exact ⟨rfl, rfl⟩
  have fits_rest : ∀ g ∈ rest, Fits g := fun g member => fits g (List.mem_cons_of_mem f member)
  refine ⟨rest, ?_⟩
  cases p with
  | none =>
    have frame : (C.rx chip).held.take (C.rx chip).read = f := by rw [held, read, List.take_left]
    refine ⟨?_, placed, fits_rest, rounds, locked, sane, trivial⟩
    simp only [task_step, if_true, frame, Task.in_hand] at order ⊢
    rw [order, List.map_append]
    simp
  | some g =>
    obtain rfl := same g rfl
    refine ⟨?_, placed, fits_rest, rounds, locked, sane, trivial⟩
    simp only [task_step, reduceCtorEq, if_false, Task.in_hand] at order ⊢
    rw [order, List.append_nil, List.append_assoc]
    rfl

theorem unlocking_inv {p : Option Frame} (inv : Inv C ⟨chip, exti, sem, lock, .unlocking budget p, bad, stored, done⟩ waiting) :
    Inv C (task_step C pbuf ⟨chip, exti, sem, lock, .unlocking budget p, bad, stored, done⟩) waiting := by
  cases p with
  | none => exact ⟨inv.order, inv.placed, inv.fits, Nat.zero_le _, unlocked rfl, inv.sane, trivial⟩
  | some p => exact ⟨inv.order, inv.placed, inv.fits, inv.rounds, unlocked rfl, inv.sane, trivial⟩

theorem input_inv {p : Frame} (inv : Inv C ⟨chip, exti, sem, lock, .input budget p, bad, stored, done⟩ waiting) :
    Inv C ⟨chip, exti, sem, lock, .burst budget, bad, stored, done ++ [(p, true)]⟩ waiting := by
  obtain ⟨order, ⟨held, unread⟩, fits, rounds, locked, sane, -⟩ := inv
  have later : budget ≠ MACRAW_RX_BURST := Nat.ne_of_lt rounds
  refine ⟨?_, ⟨held, unread, fun first => absurd first later⟩, fits, Nat.le_of_succ_le rounds, locked, sane, trivial⟩
  simp only [Task.in_hand] at order ⊢
  rw [order, List.map_append, List.append_nil]
  rfl

theorem relocking_inv (inv : Inv C ⟨chip, exti, sem, lock, .relocking, bad, stored, done⟩ waiting) :
    Inv C (task_step C pbuf ⟨chip, exti, sem, lock, .relocking, bad, stored, done⟩) waiting := by
  simp only [task_step]
  split
  · exact ⟨inv.order, inv.placed, inv.fits, Nat.zero_le _, iff_of_true rfl rfl, inv.sane, trivial⟩
  · exact inv

theorem clearing_inv (inv : Inv C ⟨chip, exti, sem, lock, .clearing, bad, stored, done⟩ waiting) :
    Inv C ⟨C.ir_clear chip, exti, sem, lock, .rechecking, bad, stored, done⟩ waiting := by
  obtain ⟨order, placed, fits, rounds, locked, sane, -⟩ := inv
  have down : (C.rx (C.ir_clear chip)).recv = false := by rw [C.clear_rx]
  have placed' : Placed (C.rx (C.ir_clear chip)) waiting .rechecking := by
    rw [C.clear_rx]
    exact placed
  refine ⟨order, placed', fits, rounds, locked, sane, ?_, ?_⟩
  · exact fun up => absurd (down.symm.trans up) Bool.false_ne_true
  · exact fun up => absurd (down.symm.trans up) Bool.false_ne_true

/-- A frame that came in after the last look at the buffer wakes the task again. -/
theorem rechecking_inv (inv : Inv C ⟨chip, exti, sem, lock, .rechecking, bad, stored, done⟩ waiting) :
    Inv C (task_step C pbuf ⟨chip, exti, sem, lock, .rechecking, bad, stored, done⟩) waiting := by
  obtain ⟨order, ⟨held, unread⟩, fits, rounds, locked, sane, alert⟩ := inv
  have rsr : C.getSn_RX_RSR chip = 0 ↔ waiting = [] := rsr_zero rfl held
  by_cases empty : waiting = []
  · have next : task_step C pbuf ⟨chip, exti, sem, lock, .rechecking, bad, stored, done⟩ =
        ⟨chip, exti, sem, lock, .giving_back, bad, stored, done⟩ := by
      simp only [task_step, rsr.mpr empty, ne_eq, not_true, if_false]
    rw [next]
    exact ⟨order, ⟨held, unread⟩, fits, rounds, locked, sane, alert.1, fun some_ => absurd empty some_⟩
  · have next : task_step C pbuf ⟨chip, exti, sem, lock, .rechecking, bad, stored, done⟩ =
        ⟨chip, exti, given sem, lock, .giving_back, bad, stored, done⟩ := by
      simp only [task_step, if_pos (mt rsr.mp empty)]
    rw [next]
    exact ⟨order, ⟨held, unread⟩, fits, rounds, locked, sane, alert.1, fun _ => .inl (given_pos sem)⟩

theorem giving_back_inv (inv : Inv C ⟨chip, exti, sem, lock, .giving_back, bad, stored, done⟩ waiting) :
    Inv C ⟨chip, exti, sem, none, .taking, bad, stored, done⟩ waiting :=
  ⟨inv.order, inv.placed, inv.fits, inv.rounds, unlocked rfl, inv.sane, inv.alert⟩

end

/-- Every access of the task keeps the invariant. -/
theorem task_inv (inv : Inv C s waiting) (pbuf : Bool) : ∃ waiting', Inv C (task_step C pbuf s) waiting' := by
  obtain ⟨chip, exti, sem, lock, task, bad, stored, done⟩ := s
  cases task with
  | taking => exact ⟨waiting, taking_inv inv⟩
  | woken => exact ⟨waiting, woken_inv inv⟩
  | burst budget =>
    cases budget with
    | zero => exact ⟨waiting, burst_over_inv inv⟩
    | succ budget => exact ⟨waiting, burst_inv inv⟩
  | locking budget => exact ⟨waiting, locking_inv inv⟩
  | reading budget => exact ⟨waiting, reading_inv inv⟩
  | framing budget hdr_buf => exact ⟨waiting, framing_inv inv⟩
  | reopening budget => exact inv.placed.elim
  | allocating budget framelen => exact ⟨waiting, allocating_inv inv⟩
  | filling budget framelen => exact ⟨waiting, filling_inv inv⟩
  | ignoring budget framelen => exact ⟨waiting, ignoring_inv inv⟩
  | committing budget p => exact committing_inv inv
  | unlocking budget p => exact ⟨waiting, unlocking_inv inv⟩
  | input budget p => exact ⟨waiting, input_inv inv⟩
  | relocking => exact ⟨waiting, relocking_inv inv⟩
  | clearing => exact ⟨waiting, clearing_inv inv⟩
  | rechecking => exact ⟨waiting, rechecking_inv inv⟩
  | giving_back => exact ⟨waiting, giving_back_inv inv⟩

/-- The frames that come in are those of an Ethernet. -/
def Event.fits : Event → Prop
  | .arrive f => Fits f
  | _ => True

theorem step_inv (inv : Inv C s waiting) {e : Event} (fits : e.fits) : ∃ waiting', Inv C (step C s e) waiting' := by
  cases e with
  | arrive f => exact arrive_inv inv fits
  | exti =>
    refine ⟨waiting, ?_⟩
    simp only [step]
    split
    · exact { inv with alert := alert_mono inv.alert fun _ => .inl (given_pos s.rx_sem) }
    · exact inv
  | task pbuf => exact task_inv inv pbuf
  | lock =>
    refine ⟨waiting, ?_⟩
    simp only [step]
    split
    · have outside := inv.locked
      exact { inv with locked := by simp_all }
    · exact inv
  | unlock =>
    refine ⟨waiting, ?_⟩
    simp only [step]
    split
    · have outside := inv.locked
      exact { inv with locked := by simp_all }
    · exact inv

theorem init_inv {chip : σ} (fresh : C.rx chip = {}) : Inv C ({ chip := chip } : Driver σ) [] where
  order := rfl
  placed := by rw [fresh]; exact ⟨rfl, rfl⟩
  fits := by simp
  rounds := Nat.zero_le _
  locked := by simp [Task.inside]
  sane := rfl
  alert := ⟨fun up => by simp [fresh] at up, fun some_ => absurd rfl some_⟩

theorem run_inv {es : List Event} (fits : ∀ f, .arrive f ∈ es → Fits f) (inv : Inv C s waiting) :
    ∃ waiting', Inv C (es.foldl (step C) s) waiting' := by
  have all : Meets (step C) (fun _ e => e.fits) s es := by
    refine meets_of_all fun e member _ => ?_
    cases e with
    | arrive f => exact fits f member
    | _ => trivial
  have keep (s : Driver σ) (e : Event) (inv : ∃ waiting, Inv C s waiting) (fits : e.fits) :
      ∃ waiting, Inv C (step C s e) waiting := by
    obtain ⟨_, inv⟩ := inv
    exact step_inv inv fits
  exact invariant keep ⟨_, inv⟩ all

end

/-! ### Progress -/

section
variable {σ : Type} {C : Chip σ} {s : Driver σ} {waiting : List Frame}

/-- Whether an event takes the task on. It does not while somebody else has the lock, nor when
    only the time is up or nothing is there. -/
def works (C : Chip σ) (s : Driver σ) : Event → Bool
  | .task _ =>
    match s.task with
    | .taking => decide (0 < s.rx_sem)
    | .woken => decide (C.getSn_RX_RSR s.chip ≠ 0)
    | .locking _ | .relocking => decide (s.spi_lock = none)
    | _ => true
  | _ => false

/-- What is left to do where the task is, counted so that a frame given back to the chip pays
    for the rest of a round and a wake-up. -/
def Task.effort : Task → Nat
  | .taking | .woken => 40
  | .burst budget => if budget = MACRAW_RX_BURST then 39 else 49
  | .locking _ => 38
  | .reading _ => 37
  | .framing .. => 36
  | .reopening _ => 52
  | .allocating .. => 35
  | .filling .. | .ignoring .. => 34
  | .committing .. => 33
  | .unlocking .. => 51
  | .input .. => 50
  | .relocking => 48
  | .clearing => 47
  | .rechecking => 46
  | .giving_back => 41

/-- The frames that the task is not done with, the one in hand left out. -/
def Driver.left (s : Driver σ) : Nat := s.stored.length - s.done.length - s.task.in_hand.length

def effort (s : Driver σ) : Nat := 20 * s.left + 4 * (s.rx_sem + s.exti.toNat) + s.task.effort

theorem left_eq (inv : Inv C s waiting) : s.left = waiting.length := by
  simp only [Driver.left, inv.order, List.length_append, List.length_map]
  omega

theorem given_le (count : Nat) : given count ≤ count + 1 := by
  unfold given
  split <;> omega

/-- A frame given back to the chip is one that was left. -/
theorem left_pos {budget : Nat} {p : Option Frame} (inv : Inv C s waiting) (at_ : s.task = .committing budget p) :
    0 < s.left := by
  have placed := inv.placed
  rw [at_] at placed
  obtain ⟨f, rest, rfl, -⟩ := placed
  rw [left_eq inv]
  simp

/-- A step is paid for by less effort where the task is, when no frame and no wake-up is added. -/
theorem pays_of {s' : Driver σ} {n : Nat} (left : s'.left ≤ s.left)
    (wakes : s'.rx_sem + s'.exti.toNat ≤ s.rx_sem + s.exti.toNat) (task : n + s'.task.effort ≤ s.task.effort) :
    n + effort s' ≤ effort s := by
  unfold effort
  omega

theorem Task.effort_burst (budget : Nat) : 39 ≤ (Task.burst budget).effort ∧ (Task.burst budget).effort ≤ 49 := by
  simp only [Task.effort]
  split <;> omega

theorem Task.effort_burst_later {budget : Nat} (later : budget ≠ MACRAW_RX_BURST) : (Task.burst budget).effort = 49 := if_neg later

section
variable {chip : σ} {exti pbuf : Bool} {sem bad budget : Nat} {lock : Option Holder} {stored : List Frame}
  {done : List (Frame × Bool)}

/-- A wake-up is used up, unless the task only wakes because the time is up. -/
theorem taking_pays : (works C ⟨chip, exti, sem, lock, .taking, bad, stored, done⟩ (.task pbuf)).toNat +
    effort (task_step C pbuf ⟨chip, exti, sem, lock, .taking, bad, stored, done⟩) ≤
      effort ⟨chip, exti, sem, lock, .taking, bad, stored, done⟩ := by
  cases sem with
  | zero => exact pays_of (Nat.le_refl _) (Nat.le_refl _) (Nat.le_refl 40)
  | succ sem =>
    show 1 + effort ⟨chip, exti, sem, lock, .woken, bad, stored, done⟩ ≤ _
    simp only [effort, Driver.left, Task.in_hand, Task.effort]
    omega

theorem woken_pays : (works C ⟨chip, exti, sem, lock, .woken, bad, stored, done⟩ (.task pbuf)).toNat +
    effort (task_step C pbuf ⟨chip, exti, sem, lock, .woken, bad, stored, done⟩) ≤
      effort ⟨chip, exti, sem, lock, .woken, bad, stored, done⟩ := by
  by_cases empty : C.getSn_RX_RSR chip = 0
  · simp only [works, task_step, empty, ne_eq, not_true, decide_false, Bool.toNat_false, if_true]
    exact pays_of (Nat.le_refl _) (Nat.le_refl _) (Nat.le_refl 40)
  · simp only [works, task_step, empty, ne_eq, not_false_eq_true, decide_true, Bool.toNat_true, if_false]
    exact pays_of (Nat.le_refl _) (Nat.le_refl _) (Nat.le_refl 40)

/-- The first round of the loop finds the frame that the task was woken for. -/
theorem burst_pays (inv : Inv C ⟨chip, exti, sem, lock, .burst (budget + 1), bad, stored, done⟩ waiting) :
    1 + effort (task_step C pbuf ⟨chip, exti, sem, lock, .burst (budget + 1), bad, stored, done⟩) ≤
      effort ⟨chip, exti, sem, lock, .burst (budget + 1), bad, stored, done⟩ := by
  obtain ⟨held, unread, first⟩ := inv.placed
  have rsr : C.getSn_RX_RSR chip < 2 ↔ waiting = [] := rsr_small rfl held
  by_cases empty : waiting = []
  · have next : task_step C pbuf ⟨chip, exti, sem, lock, .burst (budget + 1), bad, stored, done⟩ =
        ⟨chip, exti, sem, lock, .relocking, bad, stored, done⟩ := by simp only [task_step, if_pos (rsr.mpr empty)]
    have later : (Task.burst (budget + 1)).effort = 49 := Task.effort_burst_later fun start => first start empty
    rw [next]
    exact pays_of (Nat.le_refl _) (Nat.le_refl _) (Nat.le_of_eq later.symm)
  · have next : task_step C pbuf ⟨chip, exti, sem, lock, .burst (budget + 1), bad, stored, done⟩ =
        ⟨chip, exti, sem, lock, .locking budget, bad, stored, done⟩ := by
      simp only [task_step, if_neg (mt rsr.mp empty)]
    rw [next]
    exact pays_of (Nat.le_refl _) (Nat.le_refl _) (Task.effort_burst (budget + 1)).1

theorem framing_pays {hdr_buf : List UInt8} (inv : Inv C ⟨chip, exti, sem, lock, .framing budget hdr_buf, bad, stored, done⟩ waiting) :
    1 + effort (task_step C pbuf ⟨chip, exti, sem, lock, .framing budget hdr_buf, bad, stored, done⟩) ≤
      effort ⟨chip, exti, sem, lock, .framing budget hdr_buf, bad, stored, done⟩ := by
  obtain ⟨f, rest, rfl, -, -, rfl⟩ := inv.placed
  rw [framing_next (inv.fits f List.mem_cons_self)]
  exact pays_of (Nat.le_refl _) (Nat.le_refl _) (Nat.le_refl 36)

/-- A frame given back to the chip is one left less. -/
theorem committing_pays {p : Option Frame} (inv : Inv C ⟨chip, exti, sem, lock, .committing budget p, bad, stored, done⟩ waiting) :
    1 + effort (task_step C pbuf ⟨chip, exti, sem, lock, .committing budget p, bad, stored, done⟩) ≤
      effort ⟨chip, exti, sem, lock, .committing budget p, bad, stored, done⟩ := by
  have some_ := left_pos inv rfl
  cases p with
  | none =>
    simp only [task_step, effort, Driver.left, Task.in_hand, Task.effort, if_true, List.length_append, List.length_cons,
      List.length_nil] at some_ ⊢
    omega
  | some g =>
    simp only [task_step, effort, Driver.left, Task.in_hand, Task.effort, reduceCtorEq, if_false, List.length_cons,
      List.length_nil] at some_ ⊢
    omega

theorem input_pays {p : Frame} : 1 + effort (⟨chip, exti, sem, lock, .burst budget, bad, stored, done ++ [(p, true)]⟩ : Driver σ) ≤
    effort (⟨chip, exti, sem, lock, .input budget p, bad, stored, done⟩ : Driver σ) := by
  have round := (Task.effort_burst budget).2
  refine pays_of ?_ (Nat.le_refl _) ?_
  · simp only [Driver.left, Task.in_hand, List.length_append, List.length_cons, List.length_nil]
    omega
  · show 1 + (Task.burst budget).effort ≤ 50
    omega

/-- While somebody else has the lock the task waits for it. -/
theorem lock_pays {task inside : Task} (takes : inside.effort + 1 ≤ task.effort) (hand : inside.in_hand = task.in_hand) :
    (decide (lock = none)).toNat + effort (if lock = none then (⟨chip, exti, sem, some .macraw_rx, inside, bad, stored, done⟩ : Driver σ)
      else ⟨chip, exti, sem, lock, task, bad, stored, done⟩) ≤ effort (⟨chip, exti, sem, lock, task, bad, stored, done⟩ : Driver σ) := by
  split
  · rename_i free
    rw [decide_eq_true free, Bool.toNat_true, Nat.add_comm]
    simp only [effort, Driver.left, hand]
    omega
  · rename_i taken
    rw [decide_eq_false taken]
    exact Nat.le_of_eq (Nat.zero_add _)

theorem rechecking_pays : 1 + effort (task_step C pbuf ⟨chip, exti, sem, lock, .rechecking, bad, stored, done⟩) ≤
    effort ⟨chip, exti, sem, lock, .rechecking, bad, stored, done⟩ := by
  have more := given_le sem
  simp only [task_step, effort, Driver.left, Task.in_hand, Task.effort]
  split <;> omega

end

/-- Every access of the task that takes it on is paid for. -/
theorem task_pays (inv : Inv C s waiting) (pbuf : Bool) :
    (works C s (.task pbuf)).toNat + effort (task_step C pbuf s) ≤ effort s := by
  obtain ⟨chip, exti, sem, lock, task, bad, stored, done⟩ := s
  have same := Nat.le_refl (Driver.left ⟨chip, exti, sem, lock, task, bad, stored, done⟩)
  cases task with
  | taking => exact taking_pays
  | woken => exact woken_pays
  | burst budget =>
    cases budget with
    | zero => exact pays_of same (Nat.le_refl _) (Nat.le_refl 49)
    | succ budget => exact burst_pays inv
  | locking budget => exact lock_pays (Nat.le_refl 38) rfl
  | reading budget => exact pays_of same (Nat.le_refl _) (Nat.le_refl 37)
  | framing budget hdr_buf => exact framing_pays inv
  | reopening budget => exact inv.placed.elim
  | allocating budget framelen =>
    cases pbuf with
    | true => exact pays_of same (Nat.le_refl _) (Nat.le_refl 35)
    | false => exact pays_of same (Nat.le_refl _) (Nat.le_refl 35)
  | filling budget framelen => exact pays_of same (Nat.le_refl _) (Nat.le_refl 34)
  | ignoring budget framelen => exact pays_of same (Nat.le_refl _) (Nat.le_refl 34)
  | committing budget p => exact committing_pays inv
  | unlocking budget p =>
    cases p with
    | none => exact pays_of same (Nat.le_refl _) (by decide : 1 + 48 ≤ 51)
    | some p => exact pays_of same (Nat.le_refl _) (Nat.le_refl 51)
  | input budget p => exact input_pays
  | relocking => exact lock_pays (Nat.le_refl 48) rfl
  | clearing => exact pays_of same (Nat.le_refl _) (Nat.le_refl 47)
  | rechecking => exact rechecking_pays
  | giving_back => exact pays_of same (Nat.le_refl _) (Nat.le_refl 41)

theorem step_pays (inv : Inv C s waiting) {e : Event} (idle : ∀ f, e ≠ .arrive f) :
    (works C s e).toNat + effort (step C s e) ≤ effort s := by
  cases e with
  | arrive f => exact absurd rfl (idle f)
  | exti =>
    simp only [works, step, Bool.toNat_false, Nat.zero_add]
    split
    · rename_i pending
      have more := given_le s.rx_sem
      simp only [effort, Driver.left, pending, Bool.toNat_true, Bool.toNat_false]
      omega
    · exact Nat.le_refl _
  | task pbuf => exact task_pays inv pbuf
  | lock =>
    simp only [works, step, Bool.toNat_false, Nat.zero_add]
    split <;> exact Nat.le_refl _
  | unlock =>
    simp only [works, step, Bool.toNat_false, Nat.zero_add]
    split <;> exact Nat.le_refl _

theorem task_effort_le (task : Task) : task.effort ≤ 52 := by
  cases task with
  | burst budget =>
    simp only [Task.effort]
    split <;> omega
  | _ => simp [Task.effort]

end

/-! ### Whole runs -/

section
variable {σ : Type} {C : Chip σ} {chip : σ}

/-- Whether there was a buffer, where an access of the task asks for one. -/
def answer (s : Driver σ) : Event → List Bool
  | .task pbuf => match s.task with
    | .allocating .. => [pbuf]
    | _ => []
  | _ => []

/-- What the pool has answered in a run. -/
def answers (C : Chip σ) (s : Driver σ) (es : List Event) : List Bool :=
  (trace (fun s e => (answer s e, step C s e)) s es).1

/-- The answer for the frame that the task is at. -/
def Task.answered : Task → List Bool
  | .filling .. | .input .. | .unlocking _ (some _) => [true]
  | .ignoring .. => [false]
  | .committing _ p => [p.isSome]
  | _ => []

theorem task_answers (s : Driver σ) (pbuf : Bool) :
    (task_step C pbuf s).done.map (·.2) ++ (task_step C pbuf s).task.answered =
      s.done.map (·.2) ++ s.task.answered ++ answer s (.task pbuf) := by
  obtain ⟨chip, exti, sem, lock, task, bad, stored, done⟩ := s
  cases task with
  | woken | locking | relocking | framing =>
    simp only [task_step]
    split <;> simp [Task.answered, answer]
  | burst budget =>
    cases budget with
    | zero => simp [task_step, Task.answered, answer]
    | succ budget =>
      simp only [task_step]
      split <;> simp [Task.answered, answer]
  | allocating budget framelen => cases pbuf <;> simp [task_step, Task.answered, answer]
  | committing budget p => cases p <;> simp [task_step, Task.answered, answer]
  | unlocking budget p => cases p <;> simp [task_step, Task.answered, answer]
  | _ => simp [task_step, Task.answered, answer]

/-- A frame that the task is done with went to the stack if there was a buffer for it. -/
theorem run_answers (s : Driver σ) (es : List Event) :
    (es.foldl (step C) s).done.map (·.2) ++ (es.foldl (step C) s).task.answered =
      s.done.map (·.2) ++ s.task.answered ++ answers C s es := by
  induction es generalizing s with
  | nil => simp [answers, trace]
  | cons e rest ih =>
    have one : (step C s e).done.map (·.2) ++ (step C s e).task.answered = s.done.map (·.2) ++ s.task.answered ++ answer s e := by
      cases e with
      | task pbuf => exact task_answers s pbuf
      | arrive f => simp [step, arrive, answer]
      | exti | lock | unlock =>
        simp only [step]
        split <;> simp [answer]
    rw [List.foldl_cons, ih, one, List.append_assoc]
    rfl

/-- A chip with a receive buffer of so many bytes. -/
def buffered (size : Nat) : Chip Rx where
  rx s := s
  arrive f s :=
    if s.held.length + (packet f).length ≤ size then { s with held := s.held ++ packet f, recv := true } else s
  getSn_RX_RSR s := s.held.length
  wiz_recv_data n s := ((s.held.drop s.read).take n, { s with read := s.read + n })
  wiz_recv_ignore n s := { s with read := s.read + n }
  cr_recv s := { s with held := s.held.drop s.read, read := 0 }
  ir_clear s := { s with recv := false }
  reopen _ := {}
  arrived f s := by split <;> simp
  received_size _ := rfl
  data_bytes _ _ := rfl
  data_rx _ _ := rfl
  ignore_rx _ _ := rfl
  command_rx _ := rfl
  clear_rx _ := rfl
  reopen_rx _ := rfl

/-- From any state on, as long as no frame comes in, the receive task makes a bounded number of
    steps that are not waiting, whatever the others do. -/
theorem frames_drained (fresh : C.rx chip = {}) {before es : List Event} (fits : ∀ f, .arrive f ∈ before → Fits f)
    (quiet : ∀ f, .arrive f ∉ es) :
    let s := before.foldl (step C) { chip := chip }
    count (step C) (works C) s es ≤ 20 * s.left + 4 * (s.rx_sem + 1) + 52 := by
  intro s
  obtain ⟨waiting, inv⟩ : ∃ waiting, Inv C s waiting := run_inv fits (init_inv fresh)
  have others : Meets (step C) (fun _ e => ∀ f, e ≠ .arrive f) s es :=
    meets_of_all fun e member _ f same => quiet f (same ▸ member)
  have keep (s : Driver σ) (e : Event) (inv : ∃ waiting, Inv C s waiting) (idle : ∀ f, e ≠ .arrive f) :
      ∃ waiting, Inv C (step C s e) waiting := by
    obtain ⟨_, inv⟩ := inv
    refine step_inv inv ?_
    cases e with
    | arrive f => exact absurd rfl (idle f)
    | _ => trivial
  have paid : count (step C) (works C) s es + effort (es.foldl (step C) s) ≤ effort s := by
    refine count_le_effort effort keep (fun s e inv idle => ?_) ⟨_, inv⟩ others
    obtain ⟨_, inv⟩ := inv
    exact step_pays inv idle
  have rest := task_effort_le s.task
  have pending := Bool.toNat_le s.exti
  simp only [effort] at paid
  omega

/-- A frame that came in before, with the interrupt still pending. -/
theorem frames_drained_one :
    count (step (buffered 16384)) (works (buffered 16384)) ([.arrive [1, 2, 3]].foldl (step (buffered 16384)) { chip := {} })
      [.exti, .task true, .task true, .lock, .task true, .task true, .unlock, .task true] ≤ 76 :=
  @frames_drained _ (buffered 16384) {} rfl [.arrive [1, 2, 3]] _ (by simp [Fits, MACRAW_MAX_FRAME]) (by simp)

end

end IoEdgeHub.Macraw
