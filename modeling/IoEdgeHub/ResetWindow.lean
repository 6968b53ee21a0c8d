import IoEdgeHub.Commands
import IoEdgeHub.Machine

/-!
The two commands of a factory reset over UDP (`udp_factory_reset` in `net/udp_cfg.c`)
against the true time. The window is measured with times of 32 bits, from the last command
that was refused or, without one, from power on; it opens again each time that the
counter has gone round once more, and a single command resets the device then.
-/
namespace IoEdgeHub.ResetWindow
open IoEdgeHub.ConfigStore IoEdgeHub.Regmap IoEdgeHub.Commands IoEdgeHub.Machine

/-- A command, so many milliseconds after the one before it or after power on. -/
structure Arrival where
  delay : Nat
  cmd : UInt8
  data : List UInt8 := []
  cap : Nat := 64
deriving DecidableEq

/-- The command layer with the true time: when the last command arrived, when the last command
    to reset did, and the point that the window is measured from. -/
structure Run where
  udp : UdpCfg := {}
  io : Io
  uptime : Nat := 0
  previous : Option Nat := none
  reference : Nat := 0

/-- The true time at which a command arrives. -/
def arrives (r : Run) (a : Arrival) : Nat := r.uptime + a.delay

/-- The command is taken for the second one. -/
def InWindow (r : Run) (a : Arrival) : Prop := (arrives r a - r.reference) % 2^32 ≤ 5000

instance (r : Run) (a : Arrival) : Decidable (InWindow r a) := Nat.decLe _ _

/-- `udp_app_cmd` sees the low 32 bits of the time. -/
def step (v : FwVersion) (r : Run) (a : Arrival) : Run :=
  let out := udp_app_cmd v a.cap (arrives r a % 2^32) a.cmd a.data r.udp r.io
  { udp := out.2.1, io := out.2.2, uptime := arrives r a,
    previous := if a.cmd = UDP_CMD_FACTORY_RESET then some (arrives r a) else r.previous,
    reference := if a.cmd = UDP_CMD_FACTORY_RESET ∧ ¬ InWindow r a then arrives r a else r.reference }

/-- The command erases the configuration, whatever it is. -/
def Erases (v : FwVersion) (r : Run) (a : Arrival) : Prop :=
  ∀ s : Io, (udp_app_cmd v a.cap (arrives r a % 2^32) a.cmd a.data r.udp s).2.2 =
    { s with store := config_store_erase_all s.store }

/-- A command to reset only erases if another one came at most 5000 ms before it, or in the
    first 5000 ms after power on. -/
def NeedsTwo (v : FwVersion) (r : Run) (a : Arrival) : Prop :=
  a.cmd = UDP_CMD_FACTORY_RESET → Erases v r a →
    (∃ previous ∈ r.previous, arrives r a ≤ previous + 5000) ∨ arrives r a ≤ 5000

/-- A command to reset that falls into the window after the counter has gone round. -/
def Aliased (r : Run) (a : Arrival) : Prop :=
  a.cmd = UDP_CMD_FACTORY_RESET ∧ 2^32 ≤ arrives r a - r.reference ∧ InWindow r a

instance (r : Run) (a : Arrival) : Decidable (Aliased r a) := inferInstanceAs (Decidable (_ ∧ _ ∧ _))

/-- What the command layer keeps of the true times, as long as no command was aliased. -/
structure Keeps (r : Run) : Prop where
  pending : r.udp.factory_reset_pending_ms = r.reference % 2^32
  unconfirmed : r.udp.factory_reset_confirmed = false
  past : r.reference ≤ r.uptime
  first : r.previous = none → r.reference = 0
  recent : ∀ previous ∈ r.previous, r.reference ≤ previous ∧ previous ≤ r.reference + 5000 ∧ previous ≤ r.uptime

section
variable {v : FwVersion} {r : Run} {a : Arrival}

/-- The difference that the code takes is the true one, up to the wraps of the counter. -/
theorem wrapped_difference (keeps : Keeps r) :
    (arrives r a % 2^32 + 2^32 - r.udp.factory_reset_pending_ms) % 2^32 = (arrives r a - r.reference) % 2^32 := by
  have past := keeps.past
  rw [keeps.pending]
  unfold arrives
  omega

theorem reset_refused (keeps : Keeps r) (reset : a.cmd = UDP_CMD_FACTORY_RESET) (late : ¬ InWindow r a) (s : Io) :
    udp_app_cmd v a.cap (arrives r a % 2^32) a.cmd a.data r.udp s =
      (reply_ok a.cap a.cmd 0, { r.udp with factory_reset_pending_ms := arrives r a % 2^32 }, s) := by
  have outside : r.udp.factory_reset_confirmed = false ∧
      (arrives r a % 2^32 + 2^32 - r.udp.factory_reset_pending_ms) % 2^32 > 5000 := by
    rw [wrapped_difference keeps]
    exact ⟨keeps.unconfirmed, Nat.not_le.mp late⟩
  rw [reset]
  exact if_pos outside

theorem reset_done (keeps : Keeps r) (reset : a.cmd = UDP_CMD_FACTORY_RESET) (inside : InWindow r a) (s : Io) :
    udp_app_cmd v a.cap (arrives r a % 2^32) a.cmd a.data r.udp s =
      (reply_ok a.cap a.cmd 1, { r.udp with factory_reset_confirmed := false, factory_reset_reboot_pending := true },
        { s with store := config_store_erase_all s.store }) := by
  have window : ¬ (r.udp.factory_reset_confirmed = false ∧
      (arrives r a % 2^32 + 2^32 - r.udp.factory_reset_pending_ms) % 2^32 > 5000) := by
    rw [wrapped_difference keeps]
    exact fun outside => Nat.not_lt.mpr inside outside.2
  rw [reset]
  exact if_neg window

theorem erases_iff (keeps : Keeps r) (reset : a.cmd = UDP_CMD_FACTORY_RESET) : Erases v r a ↔ InWindow r a := by
  constructor
  · intro erases
    by_contra late
    -- a store whose generation is not zero
    let s : Io := { r.io with store := { r.io.store with ram := { r.io.store.ram with cur_gen := 1 } } }
    have same := erases s
    rw [reset_refused keeps reset late s] at same
    have generation : (1 : Nat) = 0 := congrArg (fun s : Io => s.store.ram.cur_gen) same
    exact absurd generation (by decide)
  · intro inside s
    rw [reset_done keeps reset inside s]

/-- A command that is no command to reset leaves the window alone. -/
theorem other_command (v : FwVersion) (cap now : Nat) {cmd : UInt8} (other : cmd ≠ UDP_CMD_FACTORY_RESET) (data : List UInt8)
    (u : UdpCfg) (s : Io) :
    (udp_app_cmd v cap now cmd data u s).2.1.factory_reset_pending_ms = u.factory_reset_pending_ms ∧
      (udp_app_cmd v cap now cmd data u s).2.1.factory_reset_confirmed = u.factory_reset_confirmed := by
  unfold udp_app_cmd
  by_cases set_ip : cmd = UDP_CMD_SET_IP
  · rw [if_pos set_ip]
    split_ifs <;> exact ⟨rfl, rfl⟩
  rw [if_neg set_ip]
  by_cases get_ip : cmd = UDP_CMD_GET_IP
  · rw [if_pos get_ip]
    exact ⟨rfl, rfl⟩
  rw [if_neg get_ip]
  by_cases set_modbus : cmd = UDP_CMD_SET_MODBUS
  · rw [if_pos set_modbus]
    split_ifs <;> exact ⟨rfl, rfl⟩
  rw [if_neg set_modbus]
  by_cases get_modbus : cmd = UDP_CMD_GET_MODBUS
  · rw [if_pos get_modbus]
    exact ⟨rfl, rfl⟩
  rw [if_neg get_modbus]
  by_cases set_time : cmd = UDP_CMD_SET_TIME
  · rw [if_pos set_time]
    split_ifs <;> exact ⟨rfl, rfl⟩
  rw [if_neg set_time]
  by_cases get_version : cmd = UDP_CMD_GET_VERSION
  · rw [if_pos get_version]
    exact ⟨rfl, rfl⟩
  rw [if_neg get_version]
  by_cases reboot : cmd = UDP_CMD_REBOOT
  · rw [if_pos reboot]
    exact ⟨rfl, rfl⟩
  rw [if_neg reboot, if_neg other]
  exact ⟨rfl, rfl⟩

theorem step_keeps (keeps : Keeps r) (fresh : ¬ Aliased r a) : Keeps (step v r a) := by
  have later : r.uptime ≤ arrives r a := Nat.le_add_right _ _
  have past := keeps.past
  by_cases reset : a.cmd = UDP_CMD_FACTORY_RESET
  · by_cases inside : InWindow r a
    · -- the counter has not gone round since the reference, so that the true difference is small
      have near : arrives r a ≤ r.reference + 5000 := by
        have young : arrives r a - r.reference < 2^32 := Nat.not_le.mp fun old => fresh ⟨reset, old, inside⟩
        have small : (arrives r a - r.reference) % 2^32 ≤ 5000 := inside
        rw [Nat.mod_eq_of_lt young] at small
        omega
      have reference : (step v r a).reference = r.reference := if_neg fun late => late.2 inside
      have previous : (step v r a).previous = some (arrives r a) := if_pos reset
      have same : (step v r a).udp = { r.udp with factory_reset_confirmed := false, factory_reset_reboot_pending := true } :=
        congrArg (fun out => out.2.1) (reset_done keeps reset inside r.io)
      constructor
      · rw [same, reference]
        exact keeps.pending
      · rw [same]
      · rw [reference]
        exact past.trans later
      · rw [previous]
        rintro ⟨⟩
      · rw [previous, reference]
        rintro _ ⟨⟩
        exact ⟨past.trans later, near, le_rfl⟩
    · have reference : (step v r a).reference = arrives r a := if_pos ⟨reset, inside⟩
      have previous : (step v r a).previous = some (arrives r a) := if_pos reset
      have same : (step v r a).udp = { r.udp with factory_reset_pending_ms := arrives r a % 2^32 } :=
        congrArg (fun out => out.2.1) (reset_refused keeps reset inside r.io)
      constructor
      · rw [same, reference]
      · rw [same]
        exact keeps.unconfirmed
      · rw [reference]
        exact le_rfl
      · rw [previous]
        rintro ⟨⟩
      · rw [previous, reference]
        rintro _ ⟨⟩
        exact ⟨le_rfl, Nat.le_add_right _ _, le_rfl⟩
  · have reference : (step v r a).reference = r.reference := if_neg fun late => reset late.1
    have previous : (step v r a).previous = r.previous := if_neg reset
    obtain ⟨pending, confirmed⟩ := other_command v a.cap (arrives r a % 2^32) reset a.data r.udp r.io
    constructor
    · rw [reference]
      exact pending.trans keeps.pending
    · exact confirmed.trans keeps.unconfirmed
    · rw [reference]
      exact past.trans later
    · rw [previous, reference]
      exact keeps.first
    · rw [previous, reference]
      intro earlier member
      obtain ⟨after, near, before⟩ := keeps.recent earlier member
      exact ⟨after, near, before.trans later⟩

/-- One command needs a second one, unless it is aliased. -/
theorem needs_two_iff (keeps : Keeps r) : ¬ Aliased r a ↔ NeedsTwo v r a := by
  have past := keeps.past
  have later : r.uptime ≤ arrives r a := Nat.le_add_right _ _
  constructor
  · intro fresh reset erases
    have inside := (erases_iff keeps reset).mp erases
    have young : arrives r a - r.reference < 2^32 := Nat.not_le.mp fun old => fresh ⟨reset, old, inside⟩
    have small : (arrives r a - r.reference) % 2^32 ≤ 5000 := inside
    rw [Nat.mod_eq_of_lt young] at small
    cases known : r.previous with
    | none =>
      have start := keeps.first known
      right
      omega
    | some previous =>
      obtain ⟨after, _, _⟩ := keeps.recent previous known
      exact .inl ⟨previous, rfl, by omega⟩
  · rintro needs ⟨reset, old, inside⟩
    rcases needs reset ((erases_iff keeps reset).mpr inside) with ⟨previous, known, near⟩ | boot
    · obtain ⟨_, close, _⟩ := keeps.recent previous known
      omega
    · omega

/-- At power on no command was refused. -/
theorem keeps_start (s : Io) : Keeps { io := s } := by
  constructor
  · exact (Nat.zero_mod _).symm
  · rfl
  · exact Nat.le_refl 0
  · exact fun _ => rfl
  · rintro _ ⟨⟩

/-- In every sequence of commands each reset needed two commands, or came with the power, if
    and only if none was aliased. -/
theorem two_commands_iff (v : FwVersion) (s : Io) (arrivals : List Arrival) :
    Meets (step v) (NeedsTwo v) { io := s } arrivals ↔ Meets (step v) (fun r a => ¬ Aliased r a) { io := s } arrivals := by
  have same (r : Run) (a : Arrival) (keeps : Keeps r) : ¬ Aliased r a ↔ NeedsTwo v r a := needs_two_iff keeps
  exact (meets_iff (fun _ _ => step_keeps) same (keeps_start s)).symm

end

/-- A device with a blank flash. -/
def new_device : Io := boot_task 0x0100 0 true ⟨Ram.zero, { mem := fun _ => 0xFF }⟩

/-- After seven weeks and a second without any command, the first one resets the device. -/
theorem single_command_resets :
    ¬ Meets (step ⟨1, 0, 0, Vector.replicate 6 48⟩) (NeedsTwo ⟨1, 0, 0, Vector.replicate 6 48⟩) { io := new_device }
      [{ delay := 2^32 + 1000, cmd := UDP_CMD_FACTORY_RESET }] := by
  rintro ⟨needs, _⟩
  have inside : InWindow { io := new_device } { delay := 2^32 + 1000, cmd := UDP_CMD_FACTORY_RESET } := by
    unfold InWindow arrives
    norm_num
  rcases needs rfl ((erases_iff (keeps_start new_device) rfl).mpr inside) with ⟨_, ⟨⟩, _⟩ | boot
  exact absurd boot (by unfold arrives; norm_num)

end IoEdgeHub.ResetWindow
