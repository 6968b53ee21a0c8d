import IoEdgeHub.Commands
import IoEdgeHub.Machine
import IoEdgeHub.MbRequests

/-!
The digital outputs. Modbus, the web interface, the shell, UDP, the samplers and
the link monitor all act on the registers, some of them on the outputs as well.
In every state that any sequence of them leads to from boot, the outputs were last
set to the low byte of their register, and the two trigger registers read zero.
-/
namespace IoEdgeHub.Outputs
open IoEdgeHub.ConfigStore IoEdgeHub.Regmap IoEdgeHub.MbServer IoEdgeHub.Commands IoEdgeHub.MbRequests

/-- The value last passed to `mb_set_do`, 0 before the first call. -/
def driven (hooks : List Hook) : UInt16 :=
  hooks.foldl (fun val h => match h with | .mb_set_do val => val | _ => val) 0

/-- The registers and all that acts on them. -/
structure Board where
  srv : Srv
  udp : UdpCfg := {}
  prev_up : Bool := false

def Board.io (b : Board) : Io := b.srv.io

def Board.withIo (b : Board) (io : Io) : Board := { b with srv := { b.srv with io := io } }

@[simp] theorem withIo_io (b : Board) (io : Io) : (b.withIo io).io = io := rfl

/-- One operation on the registers. A request over Modbus is its PDU; web and shell
    writes of several registers are that many operations. -/
inductive Op
  | io_write_holding (addr : Nat) (reg : UInt16)
  | io_write_do_bit (bit : Nat) (state : Bool)
  | mb_server_process (pdu : List UInt8)
  | web_cmd_exec_do (index value : Int)
  | web_cmd_exec_reg (addr value : Int)
  | net_mon_task (up : Bool)
  | holding_reg_save
  | holding_reg_load
  | udp_app_cmd (v : FwVersion) (cap now : Nat) (cmd : UInt8) (data : List UInt8)
  | update_input_reg (addr : Nat) (reg : UInt16)
  | set_timestamp (t : Int)
  | tick

def step (b : Board) : Op → Board
  | .io_write_holding addr reg => b.withIo ((io_write_holding addr reg b.io).getD b.io)
  | .io_write_do_bit bit state => b.withIo ((io_write_do_bit bit state b.io).getD b.io)
  | .mb_server_process pdu => { b with srv := (mb_server_process pdu b.srv).2 }
  | .web_cmd_exec_do index value => b.withIo ((web_cmd_exec_do index value b.io).getD b.io)
  | .web_cmd_exec_reg addr value => b.withIo ((web_cmd_exec_reg addr value b.io).getD b.io)
  | .net_mon_task up => { b.withIo (net_mon_task up b.prev_up b.io).2 with prev_up := (net_mon_task up b.prev_up b.io).1 }
  | .holding_reg_save => b.withIo (holding_reg_save b.io)
  | .holding_reg_load => b.withIo (holding_reg_load b.io)
  | .udp_app_cmd v cap now cmd data =>
    let r := udp_app_cmd v cap now cmd data b.udp b.io
    { b.withIo r.2.2 with udp := r.2.1 }
  | .update_input_reg addr reg => b.withIo ((update_input_reg addr reg b.io).getD b.io)
  | .set_timestamp t => b.withIo (set_timestamp t b.io).2
  | .tick => b.withIo { b.io with epoch_cache := b.io.epoch_cache + 1 }

/-- The outputs are the low byte of their register, and no trigger is set. -/
structure Follows (s : Io) : Prop where
  outputs : driven s.hooks = get_holding_reg HOLDING_DO_IDX s &&& 0xFF
  save : get_holding_reg HOLDING_CONFIG_SAVE_IDX s = 0
  reboot : get_holding_reg HOLDING_REBOOT_IDX s = 0

section
variable {s : Io}

theorem driven_append (hooks : List Hook) (h : Hook) :
    driven (hooks ++ [h]) = match h with | .mb_set_do val => val | _ => driven hooks := by
  simp only [driven, List.foldl_append, List.foldl_cons, List.foldl_nil]

/-- A call that sets no output. -/
theorem follows_call {h : Hook} (other : ∀ val, h ≠ .mb_set_do val) (follows : Follows s) : Follows (s.call h) := by
  obtain ⟨outputs, save, reboot⟩ := follows
  refine ⟨?_, save, reboot⟩
  rw [call_hooks, driven_append]
  cases h with
  | mb_set_do val => exact absurd rfl (other val)
  | _ => exact outputs

/-- A register that is neither the outputs nor a trigger. -/
theorem follows_put {addr : Nat} (inside : addr < 18) (other : addr ≠ HOLDING_DO_IDX ∧ addr ≠ HOLDING_CONFIG_SAVE_IDX ∧
    addr ≠ HOLDING_REBOOT_IDX) (reg : UInt16) (follows : Follows s) : Follows (s.put addr reg) := by
  obtain ⟨outputs, save, reboot⟩ := follows
  obtain ⟨not_do, not_save, not_reboot⟩ := other
  constructor
  · rw [put_hooks, get_holding_reg_put inside, if_neg (Ne.symm not_do), outputs]
  · rw [get_holding_reg_put inside, if_neg (Ne.symm not_save), save]
  · rw [get_holding_reg_put inside, if_neg (Ne.symm not_reboot), reboot]

/-- What else changes does not matter. -/
theorem follows_congr {s' : Io} (hooks : s'.hooks = s.hooks) (holding : s'.holding_reg = s.holding_reg)
    (follows : Follows s) : Follows s' := by
  obtain ⟨outputs, save, reboot⟩ := follows
  constructor
  · rw [hooks, get_holding_reg_congr holding, outputs]
  · rw [get_holding_reg_congr holding, save]
  · rw [get_holding_reg_congr holding, reboot]

/-- The outputs and their register are set together, in either order. -/
theorem follows_set (val : UInt16) (follows : Follows s) : Follows (mb_set_do (val &&& 0xFF) (s.put HOLDING_DO_IDX val)) := by
  have regs (a : Nat) : get_holding_reg a (s.put HOLDING_DO_IDX val) = if a = HOLDING_DO_IDX then val else get_holding_reg a s :=
    get_holding_reg_put (by decide) val a s
  have last : driven (s.hooks ++ [.mb_set_do (val &&& 0xFF)]) = val &&& 0xFF := driven_append _ _
  constructor
  · show driven (s.hooks ++ [.mb_set_do (val &&& 0xFF)]) = get_holding_reg HOLDING_DO_IDX (s.put HOLDING_DO_IDX val) &&& 0xFF
    rw [last, regs, if_pos rfl]
  · exact (regs _).trans follows.save
  · exact (regs _).trans follows.reboot

theorem follows_set_timestamp (t : Int) (follows : Follows s) : Follows (set_timestamp t s).2 := by
  have called : Follows (s.call (.set_timestamp t)) := follows_call (fun _ => nofun) follows
  unfold set_timestamp
  simp only
  split_ifs
  · exact called
  · exact called
  · exact @follows_congr (s.call (.set_timestamp t)) _ rfl rfl called

theorem follows_save (follows : Follows s) : Follows (holding_reg_save s) := by
  have called : Follows (s.call (.config_store_save (exported s))) := follows_call (fun _ => nofun) follows
  exact @follows_congr (s.call (.config_store_save (exported s))) _ rfl rfl called

/-- Writing a trigger leaves it at zero. -/
theorem follows_trigger {addr : Nat} (trigger : addr = HOLDING_CONFIG_SAVE_IDX ∨ addr = HOLDING_REBOOT_IDX) (reg : UInt16)
    (follows : Follows s) : Follows ((s.put addr reg).put addr 0) := by
  have inside : addr < 18 := by
    rcases trigger with rfl | rfl <;> decide
  have regs (a : Nat) : get_holding_reg a ((s.put addr reg).put addr 0) = if a = addr then 0 else get_holding_reg a s := by
    rw [get_holding_reg_put inside, get_holding_reg_put inside]
    split_ifs <;> rfl
  have apart : HOLDING_DO_IDX ≠ addr := by
    rcases trigger with rfl | rfl <;> decide
  constructor
  · rw [put_hooks, put_hooks, regs, if_neg apart, follows.outputs]
  · rw [regs, follows.save, ite_self]
  · rw [regs, follows.reboot, ite_self]

theorem follows_io_write_holding {addr : Nat} {reg : UInt16} {s' : Io} (follows : Follows s)
    (written : io_write_holding addr reg s = some s') : Follows s' := by
  obtain ⟨inside, ⟨_, rfl⟩ | ⟨_, new⟩⟩ := io_write_holding_cases written
  · exact follows
  cases new with
  | output own =>
    subst own
    exact follows_set reg follows
  | history own =>
    subst own
    exact follows_call (fun _ => nofun) (follows_put inside (by decide) reg follows)
  | time own =>
    subst own
    exact follows_set_timestamp _ (follows_put inside (by decide) reg follows)
  | save own => exact follows_save (follows_trigger (.inl own) reg follows)
  | restart own _ =>
    have cleared := follows_trigger (.inr own) reg follows
    exact follows_call (fun _ => nofun) (follows_call (fun _ => nofun) cleared)
  | no_restart own _ => exact follows_trigger (.inr own) reg follows
  | plain others => exact follows_put inside others reg follows

theorem follows_io_write_do_bit {bit : Nat} {state : Bool} {s' : Io} (follows : Follows s)
    (written : io_write_do_bit bit state s = some s') : Follows s' := by
  unfold io_write_do_bit at written
  by_cases inside : bit ≥ DO_NUM
  · simp [inside] at written
  rw [if_neg inside] at written
  have result := Option.some.inj written
  subst result
  have set := follows_set (WRITE_BIT (get_holding_reg HOLDING_DO_IDX s) bit state &&& 0xFF) follows
  rwa [UInt16.and_assoc, UInt16.and_self] at set

theorem follows_update {addr : Nat} (inside : addr < 18) (other : addr ≠ HOLDING_DO_IDX ∧ addr ≠ HOLDING_CONFIG_SAVE_IDX ∧
    addr ≠ HOLDING_REBOOT_IDX) (reg : UInt16) (follows : Follows s) : Follows (update addr reg s) := by
  rw [update_eq inside]
  exact follows_put inside other reg follows

/-- None of the registers that a configuration is loaded into is an output or a trigger. -/
theorem follows_load (follows : Follows s) : Follows (holding_reg_load s) := by
  have puts (regs : List (Nat × UInt16)) (other : ∀ r ∈ regs, r.1 < 18 ∧ r.1 ≠ HOLDING_DO_IDX ∧
      r.1 ≠ HOLDING_CONFIG_SAVE_IDX ∧ r.1 ≠ HOLDING_REBOOT_IDX) {s : Io} (follows : Follows s) :
      Follows (regs.foldl (fun s r => s.put r.1 r.2) s) := by
    induction regs generalizing s with
    | nil => exact follows
    | cons r rest ih =>
      obtain ⟨inside, apart⟩ := other r (by simp)
      exact ih (fun r' member => other r' (by simp [member])) (follows_put inside apart r.2 follows)
  refine puts _ (fun r member => ?_) follows
  have between := loaded_addresses member
  simp only [HOLDING_DO_IDX, HOLDING_CONFIG_SAVE_IDX, HOLDING_REBOOT_IDX]
  omega

theorem follows_boot (version : UInt16) (epoch : UInt32) (rtc_ready : Bool) (store : Store) :
    Follows (boot_task version epoch rtc_ready store) := by
  have start : Follows
      { holding_reg := holding_reg_init, input_reg := input_reg_init version, epoch_cache := epoch, rtc_ready := rtc_ready,
        store := (config_store_init ⟨Ram.zero, store.dev⟩).2, hooks := [] } := by
    constructor
    · show (0 : UInt16) = 0 &&& 0xFF
      decide
    · rfl
    · rfl
  unfold boot_task
  refine follows_call (fun _ => nofun) ?_
  refine follows_put (by decide) (by decide) _ ?_
  refine follows_put (by decide) (by decide) _ ?_
  exact follows_load start

/-- An operation that may fail leaves the registers as they were. -/
theorem follows_getD {r : Option Io} (follows : Follows s) (done : ∀ s', r = some s' → Follows s') :
    Follows (r.getD s) := by
  cases r with
  | none => exact follows
  | some s' => exact done s' rfl

theorem follows_mb_server_process {srv : Srv} (pdu : List UInt8) (follows : Follows srv.io) :
    Follows (mb_server_process pdu srv).2.io :=
  mb_server_process_keeps (fun _ _ _ _ follows written => follows_io_write_do_bit follows written)
    (fun _ _ _ _ follows written => follows_io_write_holding follows written) pdu follows

theorem follows_web_cmd_exec_do {index value : Int} {s' : Io} (follows : Follows s)
    (done : web_cmd_exec_do index value s = some s') : Follows s' := by
  unfold web_cmd_exec_do at done
  split_ifs at done
  exact follows_io_write_do_bit follows done

theorem follows_web_cmd_exec_reg {addr value : Int} {s' : Io} (follows : Follows s)
    (done : web_cmd_exec_reg addr value s = some s') : Follows s' := by
  unfold web_cmd_exec_reg at done
  split_ifs at done
  · exact Option.some.inj done ▸ follows_call (fun _ => nofun) follows
  · exact Option.some.inj done ▸ follows
  · exact follows_io_write_holding follows done

/-- The link monitor clears the register and then the outputs. -/
theorem follows_net_mon_task (up prev_up : Bool) (follows : Follows s) : Follows (net_mon_task up prev_up s).2 := by
  simp only [net_mon_task]
  split_ifs
  · exact follows_set 0 follows
  · exact follows

theorem follows_udp_app_cmd (v : FwVersion) (cap now : Nat) (cmd : UInt8) (data : List UInt8) (u : UdpCfg)
    (follows : Follows s) : Follows (udp_app_cmd v cap now cmd data u s).2.2 := by
  unfold udp_app_cmd
  by_cases set_ip : cmd = UDP_CMD_SET_IP
  · rw [if_pos set_ip]
    split_ifs
    · refine follows_save ?_
      refine follows_update (by decide) (by decide) _ ?_
      refine follows_update (by decide) (by decide) _ ?_
      refine follows_update (by decide) (by decide) _ ?_
      exact follows_update (by decide) (by decide) _ follows
    · exact follows
  rw [if_neg set_ip]
  by_cases get_ip : cmd = UDP_CMD_GET_IP
  · rw [if_pos get_ip]
    exact follows
  rw [if_neg get_ip]
  by_cases set_modbus : cmd = UDP_CMD_SET_MODBUS
  · rw [if_pos set_modbus]
    split_ifs
    · refine follows_save ?_
      refine follows_update (by decide) (by decide) _ ?_
      exact follows_update (by decide) (by decide) _ follows
    · exact follows
  rw [if_neg set_modbus]
  by_cases get_modbus : cmd = UDP_CMD_GET_MODBUS
  · rw [if_pos get_modbus]
    exact follows
  rw [if_neg get_modbus]
  by_cases set_time : cmd = UDP_CMD_SET_TIME
  · rw [if_pos set_time]
    split_ifs
    · exact follows_set_timestamp _ follows
    · exact follows
  rw [if_neg set_time]
  unfold udp_factory_reset
  split_ifs
  · exact follows
  · exact follows
  · exact follows
  · exact @follows_congr s _ rfl rfl follows
  · exact follows

theorem follows_step (b : Board) (op : Op) (follows : Follows b.io) : Follows (step b op).io := by
  cases op with
  | io_write_holding addr reg => exact follows_getD follows fun _ => follows_io_write_holding follows
  | io_write_do_bit bit state => exact follows_getD follows fun _ => follows_io_write_do_bit follows
  | mb_server_process pdu => exact follows_mb_server_process pdu follows
  | web_cmd_exec_do index value => exact follows_getD follows fun _ => follows_web_cmd_exec_do follows
  | web_cmd_exec_reg addr value => exact follows_getD follows fun _ => follows_web_cmd_exec_reg follows
  | net_mon_task up => exact follows_net_mon_task up b.prev_up follows
  | holding_reg_save => exact follows_save follows
  | holding_reg_load =>
    rw [step, withIo_io]
    exact follows_load follows
  | udp_app_cmd v cap now cmd data =>
    show Follows (udp_app_cmd v cap now cmd data b.udp b.io).2.2
    exact follows_udp_app_cmd v cap now cmd data b.udp follows
  | update_input_reg addr reg =>
    refine follows_getD follows fun s' done => ?_
    unfold update_input_reg at done
    split_ifs at done
    exact Option.some.inj done ▸ @follows_congr b.io _ rfl rfl follows
  | set_timestamp t =>
    rw [step, withIo_io]
    exact follows_set_timestamp t follows
  | tick =>
    rw [step, withIo_io]
    exact @follows_congr b.io _ rfl rfl follows

theorem testBit_low (v : UInt16) {j : Nat} (low : j < 8) : (v &&& 0xFF).toNat.testBit j = v.toNat.testBit j := by
  have mask : (0xFF : Nat).testBit j = true := by
    interval_cases j <;> rfl
  rw [UInt16.toNat_and, Nat.testBit_and]
  show (v.toNat.testBit j && (0xFF : Nat).testBit j) = _
  rw [mask, Bool.and_true]

/-- A read of all coils gives the outputs. -/
theorem fc01_outputs {srv : Srv} (follows : Follows srv.io) :
    (mb_server_process [0x01, 0, 0, 0, 8] srv).1 = some [0x01, 1, (driven srv.io.hooks).toUInt8] := by
  have conforms := (@mb_server_process_conforms (fun _ => True) (fun _ _ _ _ _ _ => trivial)
    (fun _ _ _ _ _ _ => trivial) 0x01 [0, 0, 0, 8] srv).2.1
  have bits : BitPack.pack 8 (fun i => (get_holding_reg HOLDING_DO_IDX srv.io).toNat.testBit (0 + i)) =
      [(driven srv.io.hooks).toUInt8] := by
    have byte : (driven srv.io.hooks).toUInt8 =
        BitPack.byteOf fun j => (get_holding_reg HOLDING_DO_IDX srv.io).toNat.testBit j := by
      refine BitPack.eq_byteOf fun j low => ?_
      rw [follows.outputs, ← testBit_low _ low, UInt16.toBitVec_toUInt8, BitVec.getLsbD_setWidth, decide_eq_true low,
        Bool.true_and, ← BitVec.testBit_toNat]
      rfl
    simp only [byte, BitPack.pack_eight, Nat.zero_add]
  have outcome : reference 0x01 [0, 0, 0, 8] srv.io = .data [(driven srv.io.hooks).toUInt8] := by
    have words : address [0, 0, 0, 8] = 0 ∧ quantity [0, 0, 0, 8] = 8 := by decide
    rw [reference_bits _ _ (.inl rfl), words.1, words.2, if_neg (by decide), if_neg (by decide), if_pos (by decide), ← bits]
    rfl
  rw [outcome] at conforms
  exact conforms.1

/-- From boot on, whatever acts on the registers and in whatever order, the outputs
    were last set to the low byte of their register, a read of the coils gives
    exactly these eight bits, and the trigger registers read zero. -/
theorem outputs_follow_register (version : UInt16) (epoch : UInt32) (rtc_ready : Bool) (store : Store) (ops : List Op) :
    let b := ops.foldl step { srv := ⟨boot_task version epoch rtc_ready store, {}⟩ }
    driven b.io.hooks = get_holding_reg HOLDING_DO_IDX b.io &&& 0xFF ∧
      (mb_server_process [0x01, 0, 0, 0, 8] b.srv).1 = some [0x01, 1, (driven b.io.hooks).toUInt8] ∧
      (∀ i : Fin 8, io_coil_rd i b.io = some ((driven b.io.hooks).toNat.testBit i)) ∧
      get_holding_reg HOLDING_CONFIG_SAVE_IDX b.io = 0 ∧ get_holding_reg HOLDING_REBOOT_IDX b.io = 0 := by
  intro b
  have follows : Follows b.io := @Machine.invariant _ _ step (fun _ _ => True) (fun b => Follows b.io)
    (fun b op follows _ => follows_step b op follows) { srv := ⟨boot_task version epoch rtc_ready store, {}⟩ }
    (follows_boot version epoch rtc_ready store) ops (Machine.meets_of_all fun _ _ _ => trivial)
  refine ⟨follows.outputs, fc01_outputs follows, fun i => ?_, follows.save, follows.reboot⟩
  have inside : ¬ (i : Nat) ≥ DO_NUM := Nat.not_le.mpr i.2
  rw [io_coil_rd, if_neg inside, follows.outputs, testBit_low _ i.2]

end

end IoEdgeHub.Outputs
