import IoEdgeHub.Commands
import IoEdgeHub.ConfigHistory

/-!
What of the registers survives a reset. A save copies the registers into the
store, the next boot copies the store into the registers; both copy the address
only if its low bytes pass `ip_addr_valid`, but then as whole words. In any run
of writes, commands, saves and resets from blank slots, in which no address with
a word above 255 is saved that way, the persisted registers come back as they
were saved and the address is that of the last save with a valid one.
-/
namespace IoEdgeHub.Persistence
open IoEdgeHub.Nor IoEdgeHub.W25qxx IoEdgeHub.ConfigStore IoEdgeHub.ConfigHistory IoEdgeHub.Regmap
open IoEdgeHub.Commands IoEdgeHub.Machine

abbrev four_words (a b c d : UInt16) : Vector UInt16 4 := #v[a, b, c, d]

/-- The four address registers. -/
def address (s : Io) : Vector UInt16 4 :=
  four_words (get_holding_reg HOLDING_IP_OCTET1_IDX s) (get_holding_reg HOLDING_IP_OCTET2_IDX s)
    (get_holding_reg HOLDING_IP_OCTET3_IDX s) (get_holding_reg HOLDING_IP_OCTET4_IDX s)

/-- What save and load look at: the low bytes. -/
def low_bytes_valid (ip : Vector UInt16 4) : Bool := ip_words_valid ip

/-- Four octets. -/
def Octets (ip : Vector UInt16 4) : Prop := ∀ i : Fin 4, ip.get i ≤ 255

instance (ip : Vector UInt16 4) : Decidable (Octets ip) := inferInstanceAs (Decidable (∀ i : Fin 4, ip.get i ≤ 255))

/-- A valid address: four octets that `ip_addr_valid` accepts. -/
def ValidAddress (ip : Vector UInt16 4) : Prop := Octets ip ∧ low_bytes_valid ip = true

instance (ip : Vector UInt16 4) : Decidable (ValidAddress ip) := inferInstanceAs (Decidable (_ ∧ _))

theorem address_congr {s s' : Io} (same : ∀ a, 10 ≤ a ∧ a ≤ 13 → get_holding_reg a s' = get_holding_reg a s) :
    address s' = address s := by
  simp only [address, same HOLDING_IP_OCTET1_IDX (by decide), same HOLDING_IP_OCTET2_IDX (by decide),
    same HOLDING_IP_OCTET3_IDX (by decide), same HOLDING_IP_OCTET4_IDX (by decide)]

/-- The registers and their store, the command layer, and the last valid address
    that was persisted. -/
structure Device where
  io : Io
  udp : UdpCfg
  last : Vector UInt16 4

/-- What acts on the registers and the store. A Modbus request or a web configuration
    with several registers is that many writes. -/
inductive Act
  | io_write_holding (addr : Nat) (reg : UInt16)
  | web_cmd_exec_reg (addr value : Int)
  | udp_app_cmd (v : FwVersion) (cap now : Nat) (cmd : UInt8) (data : List UInt8)
  | holding_reg_save
  | config_store_erase_all
  | reboot (version : UInt16) (epoch : UInt32) (rtc_ready : Bool)

/-- Whether a command to set the address carries one. -/
def carries_address (data : List UInt8) : Bool :=
  data.length ≥ 4 ∧ ip_addr_valid (data.getD 0 0) (data.getD 1 0) (data.getD 2 0) (data.getD 3 0)

/-- The acts that save the registers. -/
def saves (d : Device) : Act → Bool
  | .io_write_holding addr reg => addr = HOLDING_CONFIG_SAVE_IDX ∧ get_holding_reg HOLDING_CONFIG_SAVE_IDX d.io ≠ reg
  | .web_cmd_exec_reg addr value =>
    addr = HOLDING_CONFIG_SAVE_IDX ∧ 0 ≤ value ∧ value ≤ 0xFFFF ∧
      get_holding_reg HOLDING_CONFIG_SAVE_IDX d.io ≠ UInt16.ofNat value.toNat
  | .udp_app_cmd _ _ _ cmd data => cmd = UDP_CMD_SET_IP ∧ carries_address data ∨ cmd = UDP_CMD_SET_MODBUS ∧ data.length ≥ 3
  | .holding_reg_save => true
  | .config_store_erase_all | .reboot .. => false

/-- The acts that erase the store: over UDP only the second of two commands does. -/
def resets (d : Device) : Act → Bool
  | .udp_app_cmd _ _ now cmd _ => cmd = UDP_CMD_FACTORY_RESET ∧
    ¬ (d.udp.factory_reset_confirmed = false ∧ (now + 2^32 - d.udp.factory_reset_pending_ms) % 2^32 > 5000)
  | .config_store_erase_all => true
  | _ => false

/-- The address registers at the time of the save. -/
def address_at_save (d : Device) : Act → Vector UInt16 4
  | .udp_app_cmd _ _ _ cmd data =>
    if cmd = UDP_CMD_SET_IP then
      #v[(data.getD 0 0).toUInt16, (data.getD 1 0).toUInt16, (data.getD 2 0).toUInt16, (data.getD 3 0).toUInt16]
    else address d.io
  | _ => address d.io

def last_after (d : Device) (act : Act) : Vector UInt16 4 :=
  if saves d act then if ValidAddress (address_at_save d act) then address_at_save d act else d.last
  else if resets d act then config_store_get_defaults.ip
  else d.last

def step (d : Device) (act : Act) : Device :=
  match act with
  | .io_write_holding addr reg =>
    { d with io := (io_write_holding addr reg d.io).getD d.io, last := last_after d act }
  | .web_cmd_exec_reg addr value =>
    { d with io := (web_cmd_exec_reg addr value d.io).getD d.io, last := last_after d act }
  | .udp_app_cmd v cap now cmd data =>
    let r := udp_app_cmd v cap now cmd data d.udp d.io
    { io := r.2.2, udp := r.2.1, last := last_after d act }
  | .holding_reg_save => { d with io := holding_reg_save d.io, last := last_after d act }
  | .config_store_erase_all =>
    { d with io := { d.io with store := config_store_erase_all d.io.store }, last := last_after d act }
  | .reboot version epoch rtc_ready => { d with io := boot_task version epoch rtc_ready d.io.store, udp := {} }

/-- The first boot. -/
def power_on (version : UInt16) (epoch : UInt32) (rtc_ready : Bool) (m : Mem) : Device :=
  ⟨boot_task version epoch rtc_ready (start m), {}, config_store_get_defaults.ip⟩

/-- No address is saved that has a word above 255 and yet passes the check, and
    the generation of the stored record has a successor. -/
def Allowed (d : Device) (act : Act) : Prop :=
  saves d act = true → (low_bytes_valid (address_at_save d act) = true → Octets (address_at_save d act)) ∧
    d.io.store.ram.cur_gen + 1 < 2^32

section
variable {s : Store}

/-- No fault is to come, and the store has been loaded. -/
structure Working (s : Store) : Prop where
  dev : s.dev = { mem := s.dev.mem }
  inited : s.ram.inited = true
  settled : ∃ past, Fresh s past ∨ Stored s past

theorem facing_working (dev : s.dev = { mem := s.dev.mem }) : Store.facing [] s = s := by
  rw [Store.facing, ← dev]

theorem coherent_of_working (working : Working s) : ∃ past, Coherent s past s.ram.cur_gen := by
  obtain ⟨past, settled⟩ := working.settled
  exact ⟨past, Nat.le_refl _, settled⟩

theorem save_eq_perform (working : Working s) (cfg : IoCfg) :
    (config_store_save cfg s).2 = (perform s (.save cfg) []).2 := by
  have on : s.dev.power = true := by rw [working.dev]
  have faultless : s.dev.fates = [] := by rw [working.dev]
  have run := @save_record_working (saveTarget s.ram) s.dev (record cfg (saveGen s.ram)) (saveTarget_cases s.ram) rfl on
    faultless
  have inited := working.inited
  rw [perform, facing_working working.dev]
  simp only [Call.body, config_store_save, inited, run, settle, on, faultless]
  rfl

/-- A save with working flash stores the configuration as the newest record. -/
theorem working_save (working : Working s) (room : s.ram.cur_gen + 1 < 2^32) (cfg : IoCfg) :
    Working (config_store_save cfg s).2 ∧ config_store_get (config_store_save cfg s).2 = cfg := by
  obtain ⟨past, coherent⟩ := coherent_of_working working
  obtain ⟨_, settled⟩ := coherent_save coherent room working.inited cfg
  obtain ⟨_, ram, _⟩ := perform_save_done (perform_save_working working.inited cfg)
  have inited : (perform s (.save cfg) []).2.ram.inited = true := by rw [ram]
  have dev : (perform s (.save cfg) []).2.dev = { mem := (perform s (.save cfg) []).2.dev.mem } := by
    simp only [perform, settle]
    split_ifs <;> rfl
  rw [save_eq_perform working]
  refine ⟨⟨dev, inited, _, settled⟩, ?_⟩
  simp only [config_store_get, ram]
  rfl

/-- A load with working flash gives what was current before the reset. -/
theorem working_init (working : Working s) :
    Working (config_store_init ⟨Ram.zero, s.dev⟩).2 ∧
      config_store_get (config_store_init ⟨Ram.zero, s.dev⟩).2 = config_store_get s := by
  have on : s.dev.power = true := by rw [working.dev]
  have faultless : s.dev.fates = [] := by rw [working.dev]
  have run : (config_store_init ⟨Ram.zero, s.dev⟩).2 = (perform s .init []).2 := by
    rw [@config_store_init_working ⟨Ram.zero, s.dev⟩ on faultless, perform_init_working]
    simp only
    rw [← working.dev]
  obtain ⟨past, coherent⟩ := coherent_of_working working
  obtain ⟨_, settled⟩ := coherent_init coherent
  have get : config_store_get (perform s .init []).2 = config_store_get s := by
    rw [perform_init_working, choose_get]
    rcases coherent.2 with fresh | stored
    · rw [readSlot_none fresh.slotA, readSlot_none fresh.slotB, fresh.get]
      rfl
    · rw [choose_newest stored.slot stored.held stored.older]
      simp [config_store_get, stored.inited]
  rw [run]
  refine ⟨⟨?_, ?_, past, settled⟩, get⟩
  · rw [perform_init_working]
  · rw [perform_init_working]
    exact choose_inited _ _

theorem slotAt_erased (m : Mem) {slot size : Nat} (whole : CFG_REC_LEN ≤ size) : slotAt (erased slot size m) slot = none :=
  slotAt_blank (blank_part (erased_blank m slot size) (Nat.le_refl _) (by omega))

/-- Erasing with working flash leaves nothing to load. -/
theorem working_erase (working : Working s) :
    Working (config_store_erase_all s) ∧ config_store_get (config_store_erase_all s) = config_store_get_defaults := by
  have run : (config_store_erase_all s).dev =
      { mem := erased CFG_SLOT_B CFG_SLOT_SIZE (erased CFG_SLOT_A CFG_SLOT_SIZE s.dev.mem) } := by
    have inited := working.inited
    simp only [config_store_erase_all, inited, if_true]
    rw [working.dev, w25_erase_slot (.inl rfl), w25_erase_slot (.inr rfl), Dev.erase, operate_working rfl rfl, Dev.erase,
      operate_working rfl rfl]
  have slotA : slotAt (erased CFG_SLOT_B CFG_SLOT_SIZE (erased CFG_SLOT_A CFG_SLOT_SIZE s.dev.mem)) CFG_SLOT_A = none := by
    rw [slotAt, bytesAt_erased_outside _ (.inl (by decide))]
    exact slotAt_erased _ (by decide)
  have get : config_store_get (config_store_erase_all s) = config_store_get_defaults := by
    simp only [config_store_get, config_store_erase_all]
    exact ite_self _
  refine ⟨⟨?_, working.inited, [], .inl ⟨rfl, rfl, get, ?_, ?_, rfl⟩⟩, get⟩
  · rw [run]
  · rw [run]
    exact slotA
  · rw [run]
    exact slotAt_erased _ (by decide)

end

theorem get_load (a : Nat) (s : Io) :
    get_holding_reg a (holding_reg_load s) =
      (loaded (config_store_get s.store)).foldl (fun v r => if a = r.1 then r.2 else v) (get_holding_reg a s) := by
  refine get_puts _ (fun r member => ?_) a s
  have between := loaded_addresses member
  omega

/-- The nine registers without the address, in the order of the configuration. -/
theorem load_fields {a : Nat} (nine : 1 ≤ a ∧ a ≤ 9) (s : Io) :
    get_holding_reg a (holding_reg_load s) = (config_store_get s.store).fields.getD (a - 1) 0 := by
  obtain ⟨low, high⟩ := nine
  rw [get_load, loaded]
  interval_cases a <;> split_ifs <;> rfl

theorem exported_fields {a : Nat} (nine : 1 ≤ a ∧ a ≤ 9) (s : Io) :
    (exported s).fields.getD (a - 1) 0 = get_holding_reg a s := by
  obtain ⟨low, high⟩ := nine
  interval_cases a <;> rfl

theorem vector_four (ip : Vector UInt16 4) : #v[ip.get 0, ip.get 1, ip.get 2, ip.get 3] = ip := by
  ext i inside
  interval_cases i <;> rfl

/-- The whole words of a stored address are loaded when its low bytes are valid. -/
theorem load_address {s : Io} (valid : low_bytes_valid (config_store_get s.store).ip = true) :
    address (holding_reg_load s) = (config_store_get s.store).ip := by
  have words := vector_four (config_store_get s.store).ip
  rw [low_bytes_valid, ip_words_valid] at valid
  simp only [address, get_load, loaded, valid, if_true]
  exact words

/-- The clock registers, which boot fills last, are not persisted. -/
theorem boot_loads (version : UInt16) (epoch : UInt32) (rtc_ready : Bool) (store : Store) :
    ∃ s : Io, s.store = (config_store_init ⟨Ram.zero, store.dev⟩).2 ∧
      ∀ a, 1 ≤ a ∧ a ≤ 13 →
        get_holding_reg a (boot_task version epoch rtc_ready store) = get_holding_reg a (holding_reg_load s) := by
  refine ⟨⟨holding_reg_init, input_reg_init version, epoch, rtc_ready, (config_store_init ⟨Ram.zero, store.dev⟩).2, []⟩, rfl,
    fun a ⟨_, high⟩ => ?_⟩
  have clock : a ≠ HOLDING_TIMESTAMP_HI_IDX ∧ a ≠ HOLDING_TIMESTAMP_LO_IDX := by
    simp only [HOLDING_TIMESTAMP_HI_IDX, HOLDING_TIMESTAMP_LO_IDX]
    omega
  simp only [boot_task]
  rw [history_enable_write, get_holding_reg_congr (call_holding_reg _ _), get_holding_reg_put (by decide), if_neg clock.2,
    get_holding_reg_put (by decide), if_neg clock.1]

theorem puts_store (regs : List (Nat × UInt16)) (s : Io) : (regs.foldl (fun s r => s.put r.1 r.2) s).store = s.store := by
  induction regs generalizing s with
  | nil => rfl
  | cons r rest ih => exact ih (s.put r.1 r.2)

theorem boot_store (version : UInt16) (epoch : UInt32) (rtc_ready : Bool) (store : Store) :
    (boot_task version epoch rtc_ready store).store = (config_store_init ⟨Ram.zero, store.dev⟩).2 := by
  have load (s : Io) : (holding_reg_load s).store = s.store := puts_store _ s
  have clock (a : Nat) (reg : UInt16) (s : Io) : (s.put a reg).store = s.store := rfl
  have call (h : Hook) (s : Io) : (s.call h).store = s.store := rfl
  simp only [boot_task, history_enable_write, call, clock, load]

section
variable {store : Store} (version : UInt16) (epoch : UInt32) (rtc_ready : Bool)

theorem boot_fields (working : Working store) {a : Nat} (nine : 1 ≤ a ∧ a ≤ 9) :
    get_holding_reg a (boot_task version epoch rtc_ready store) = (config_store_get store).fields.getD (a - 1) 0 := by
  obtain ⟨s, stored, loads⟩ := boot_loads version epoch rtc_ready store
  rw [loads a (by omega), load_fields nine, stored, (working_init working).2]

theorem boot_address (working : Working store) (valid : low_bytes_valid (config_store_get store).ip = true) :
    address (boot_task version epoch rtc_ready store) = (config_store_get store).ip := by
  obtain ⟨s, stored, loads⟩ := boot_loads version epoch rtc_ready store
  have get : config_store_get s.store = config_store_get store := by rw [stored, (working_init working).2]
  have load : address (holding_reg_load s) = (config_store_get store).ip := by
    rw [load_address (by rw [get, valid]), get]
  rw [← load]
  exact address_congr fun a between => loads a (by omega)

end

section
variable {d : Device}

theorem holding_reg_save_address (s : Io) : address (holding_reg_save s) = address s := rfl

theorem exported_ip (s : Io) :
    (exported s).ip = if low_bytes_valid (address s) then address s else (config_store_get s.store).ip := rfl

theorem address_put {a : Nat} (inside : a < 18) (other : a < HOLDING_IP_OCTET1_IDX ∨ HOLDING_IP_OCTET4_IDX < a) (reg : UInt16)
    (s : Io) : address (s.put a reg) = address s := by
  simp only [HOLDING_IP_OCTET1_IDX, HOLDING_IP_OCTET4_IDX] at other
  refine address_congr fun k between => ?_
  rw [get_holding_reg_put inside, if_neg (by omega)]

/-- A write saves the registers, or leaves the store alone. -/
theorem io_write_holding_store {addr : Nat} {reg : UInt16} {s s' : Io} (written : io_write_holding addr reg s = some s') :
    (addr = HOLDING_CONFIG_SAVE_IDX ∧ get_holding_reg addr s ≠ reg ∧
        ∃ mid, s' = holding_reg_save mid ∧ mid.store = s.store ∧ address mid = address s) ∨
      ¬ (addr = HOLDING_CONFIG_SAVE_IDX ∧ get_holding_reg addr s ≠ reg) ∧ s'.store = s.store := by
  obtain ⟨_, ⟨same, rfl⟩ | ⟨differs, new⟩⟩ := io_write_holding_cases written
  · exact .inr ⟨fun saves => saves.2 same, rfl⟩
  have quiet (other : addr ≠ HOLDING_CONFIG_SAVE_IDX) :
      ¬ (addr = HOLDING_CONFIG_SAVE_IDX ∧ get_holding_reg addr s ≠ reg) := fun saves => other saves.1
  cases new with
  | output own => exact .inr ⟨quiet (by rw [own]; decide), rfl⟩
  | history own => exact .inr ⟨quiet (by rw [own]; decide), rfl⟩
  | time own => exact .inr ⟨quiet (by rw [own]; decide), set_timestamp_store _ _⟩
  | save own =>
    subst own
    refine .inl ⟨rfl, differs, (s.put _ reg).put _ 0, rfl, rfl, ?_⟩
    rw [address_put (by decide) (by decide), address_put (by decide) (by decide)]
  | restart own _ => exact .inr ⟨quiet (by rw [own]; decide), rfl⟩
  | no_restart own _ => exact .inr ⟨quiet (by rw [own]; decide), rfl⟩
  | plain others => exact .inr ⟨quiet others.2.1, rfl⟩

/-- What an act other than a reset does to the store: it saves the registers, erases the store or
    leaves it alone. -/
inductive Effect (d : Device) (act : Act) (s' : Io) : Prop
  | saved (mid : Io) (saving : saves d act = true) (result : s' = holding_reg_save mid) (store : mid.store = d.io.store)
    (ip : address mid = address_at_save d act)
  | erased (quiet : saves d act = false) (resetting : resets d act = true)
    (store : s'.store = config_store_erase_all d.io.store)
  | kept (quiet : saves d act = false) (staying : resets d act = false) (store : s'.store = d.io.store)

theorem effect_io_write_holding (addr : Nat) (reg : UInt16) :
    Effect d (.io_write_holding addr reg) ((io_write_holding addr reg d.io).getD d.io) := by
  cases written : io_write_holding addr reg d.io with
  | none =>
    refine .kept ?_ rfl rfl
    refine decide_eq_false fun saving => ?_
    rw [saving.1, io_write_holding, if_neg (by decide), if_neg saving.2] at written
    cases written
  | some s' =>
    rcases io_write_holding_store written with ⟨save, other, mid, result, store, ip⟩ | ⟨quiet, store⟩
    · subst save
      exact .saved mid (decide_eq_true ⟨rfl, other⟩) result store ip
    · refine .kept (decide_eq_false fun saving => quiet ?_) rfl store
      rw [saving.1]
      exact ⟨rfl, saving.2⟩

theorem effect_web_cmd_exec_reg (addr value : Int) :
    Effect d (.web_cmd_exec_reg addr value) ((web_cmd_exec_reg addr value d.io).getD d.io) := by
  unfold web_cmd_exec_reg
  by_cases outside : addr < 0 ∨ addr ≥ MODBUS_HOLDING_REGISTER_NUMBERS ∨ value < 0 ∨ value > 0xFFFF
  · rw [if_pos outside]
    refine .kept (decide_eq_false fun saving => ?_) rfl rfl
    simp only [HOLDING_CONFIG_SAVE_IDX, MODBUS_HOLDING_REGISTER_NUMBERS] at saving outside
    omega
  rw [if_neg outside]
  by_cases reboot : addr = HOLDING_REBOOT_IDX
  · rw [if_pos reboot]
    refine .kept (decide_eq_false fun saving => ?_) rfl ?_
    · have save := saving.1
      simp only [HOLDING_CONFIG_SAVE_IDX, HOLDING_REBOOT_IDX] at save reboot
      omega
    · rw [Option.getD_some]
      split_ifs <;> rfl
  rw [if_neg reboot]
  have same : saves d (.web_cmd_exec_reg addr value) = saves d (.io_write_holding addr.toNat (UInt16.ofNat value.toNat)) := by
    simp only [saves]
    refine decide_eq_decide.mpr ⟨?_, ?_⟩
    · rintro ⟨save, _, _, other⟩
      exact ⟨by rw [save]; rfl, other⟩
    · rintro ⟨save, other⟩
      simp only [HOLDING_CONFIG_SAVE_IDX, MODBUS_HOLDING_REGISTER_NUMBERS] at save outside
      refine ⟨?_, by omega, by omega, other⟩
      simp only [HOLDING_CONFIG_SAVE_IDX]
      omega
  cases @effect_io_write_holding d addr.toNat (UInt16.ofNat value.toNat) with
  | saved mid saving result store ip => exact .saved mid (same.trans saving) result store ip
  | erased _ resetting _ => cases resetting
  | kept quiet _ store => exact .kept (same.trans quiet) rfl store

/-- The four updates of a command that sets the address. -/
theorem address_updates (a b c e : UInt16) (s : Io) :
    address (update HOLDING_IP_OCTET4_IDX e (update HOLDING_IP_OCTET3_IDX c (update HOLDING_IP_OCTET2_IDX b
      (update HOLDING_IP_OCTET1_IDX a s)))) = #v[a, b, c, e] := by
  rw [update_eq (by decide), update_eq (by decide), update_eq (by decide), update_eq (by decide)]
  have octet1 : HOLDING_IP_OCTET1_IDX < 18 := by decide
  have octet2 : HOLDING_IP_OCTET2_IDX < 18 := by decide
  have octet3 : HOLDING_IP_OCTET3_IDX < 18 := by decide
  have octet4 : HOLDING_IP_OCTET4_IDX < 18 := by decide
  simp only [address, get_holding_reg_put octet1, get_holding_reg_put octet2, get_holding_reg_put octet3,
    get_holding_reg_put octet4]
  rfl

theorem effect_udp_app_cmd (v : FwVersion) (cap now : Nat) (cmd : UInt8) (data : List UInt8) :
    Effect d (.udp_app_cmd v cap now cmd data) (udp_app_cmd v cap now cmd data d.udp d.io).2.2 := by
  unfold udp_app_cmd
  by_cases set_ip : cmd = UDP_CMD_SET_IP
  · subst set_ip
    rw [if_pos rfl]
    by_cases carries : data.length ≥ 4 ∧ ip_addr_valid (data.getD 0 0) (data.getD 1 0) (data.getD 2 0) (data.getD 3 0) = true
    · rw [if_pos carries]
      refine .saved _ (decide_eq_true (.inl ⟨rfl, decide_eq_true carries⟩)) rfl rfl ?_
      exact address_updates _ _ _ _ _
    · rw [if_neg carries]
      refine .kept (decide_eq_false ?_) rfl rfl
      rintro (⟨_, carried⟩ | ⟨other, _⟩)
      · exact carries (of_decide_eq_true carried)
      · cases other
  rw [if_neg set_ip]
  by_cases get_ip : cmd = UDP_CMD_GET_IP
  · subst get_ip
    exact .kept rfl rfl rfl
  rw [if_neg get_ip]
  by_cases set_modbus : cmd = UDP_CMD_SET_MODBUS
  · subst set_modbus
    rw [if_pos rfl]
    by_cases carries : data.length ≥ 3
    · rw [if_pos carries]
      refine .saved _ (decide_eq_true (.inr ⟨rfl, carries⟩)) rfl rfl ?_
      rw [update_eq (by decide), update_eq (by decide), address_put (by decide) (by decide),
        address_put (by decide) (by decide)]
      rfl
    · rw [if_neg carries]
      refine .kept (decide_eq_false ?_) rfl rfl
      rintro (⟨other, _⟩ | ⟨_, carried⟩)
      · cases other
      · exact carries carried
  rw [if_neg set_modbus]
  have quiet : saves d (.udp_app_cmd v cap now cmd data) = false := by
    refine decide_eq_false ?_
    rintro (⟨other, _⟩ | ⟨other, _⟩)
    · exact set_ip other
    · exact set_modbus other
  by_cases factory_reset : cmd = UDP_CMD_FACTORY_RESET
  · subst factory_reset
    by_cases first : d.udp.factory_reset_confirmed = false ∧ (now + 2^32 - d.udp.factory_reset_pending_ms) % 2^32 > 5000
    · refine .kept quiet (decide_eq_false fun resetting => resetting.2 first) ?_
      rw [udp_factory_reset, if_pos first]
      rfl
    · refine .erased quiet (decide_eq_true ⟨rfl, first⟩) ?_
      rw [udp_factory_reset, if_neg first]
      rfl
  refine .kept quiet (decide_eq_false fun resetting => factory_reset resetting.1) ?_
  by_cases set_time : cmd = UDP_CMD_SET_TIME
  · subst set_time
    rw [if_neg (by decide), if_pos rfl]
    split_ifs
    · exact set_timestamp_store _ _
    · rfl
  · rw [if_neg set_time, if_neg factory_reset]
    split_ifs <;> rfl

theorem effect_step {act : Act} (up : ∀ version epoch rtc_ready, act ≠ .reboot version epoch rtc_ready) :
    Effect d act (step d act).io := by
  cases act with
  | io_write_holding addr reg => exact effect_io_write_holding addr reg
  | web_cmd_exec_reg addr value => exact effect_web_cmd_exec_reg addr value
  | udp_app_cmd v cap now cmd data => exact effect_udp_app_cmd v cap now cmd data
  | holding_reg_save => exact .saved d.io rfl rfl rfl rfl
  | config_store_erase_all => exact .erased rfl rfl rfl
  | reboot version epoch rtc_ready => exact absurd rfl (up version epoch rtc_ready)

theorem step_last {act : Act} (up : ∀ version epoch rtc_ready, act ≠ .reboot version epoch rtc_ready) :
    (step d act).last = last_after d act := by
  cases act with
  | reboot version epoch rtc_ready => exact absurd rfl (up version epoch rtc_ready)
  | _ => rfl

/-! ### Runs -/

/-- The store is in order, and its address is the last valid one. -/
structure Persisted (d : Device) : Prop where
  working : Working d.io.store
  last : (config_store_get d.io.store).ip = d.last
  valid : ValidAddress d.last

theorem default_valid : ValidAddress config_store_get_defaults.ip := by decide

theorem persisted_start {m : Mem} (slotA : slotAt m CFG_SLOT_A = none) (slotB : slotAt m CFG_SLOT_B = none) (version : UInt16)
    (epoch : UInt32) (rtc_ready : Bool) : Persisted (power_on version epoch rtc_ready m) := by
  have init : (config_store_init ⟨Ram.zero, { mem := m }⟩).2 = ⟨⟨config_store_get_defaults, 0, 0, true⟩, { mem := m }⟩ := by
    rw [@config_store_init_working ⟨Ram.zero, { mem := m }⟩ rfl rfl, readSlot_none slotA, readSlot_none slotB]
    rfl
  have store : (power_on version epoch rtc_ready m).io.store = ⟨⟨config_store_get_defaults, 0, 0, true⟩, { mem := m }⟩ :=
    (boot_store version epoch rtc_ready (start m)).trans init
  constructor
  · rw [store]
    exact ⟨rfl, rfl, [], .inl ⟨rfl, rfl, rfl, slotA, slotB, rfl⟩⟩
  · rw [store]
    rfl
  · exact default_valid

/-- What a save puts into the store, for an address that is four octets whenever its low bytes are valid. -/
theorem exported_valid {s : Io} (plain : low_bytes_valid (address s) = true → Octets (address s)) :
    (exported s).ip = if ValidAddress (address s) then address s else (config_store_get s.store).ip := by
  rw [exported_ip]
  by_cases low : low_bytes_valid (address s) = true
  · rw [if_pos low, if_pos ⟨plain low, low⟩]
  · rw [if_neg low, if_neg fun valid => low valid.2]

theorem persisted_saved {mid : Io} (persisted : Persisted d) (store : mid.store = d.io.store)
    (plain : low_bytes_valid (address mid) = true → Octets (address mid)) (room : d.io.store.ram.cur_gen + 1 < 2^32) :
    Working (holding_reg_save mid).store ∧ config_store_get (holding_reg_save mid).store = exported mid ∧
      (exported mid).ip = (if ValidAddress (address mid) then address mid else d.last) ∧ ValidAddress (exported mid).ip := by
  obtain ⟨working, get⟩ := @working_save mid.store (store ▸ persisted.working) (store ▸ room) (exported mid)
  have ip : (exported mid).ip = if ValidAddress (address mid) then address mid else d.last := by
    rw [exported_valid plain, store, persisted.last]
  refine ⟨working, get, ip, ?_⟩
  rw [ip]
  split_ifs with valid
  · exact valid
  · exact persisted.valid

theorem step_reboot (version : UInt16) (epoch : UInt32) (rtc_ready : Bool) :
    step d (.reboot version epoch rtc_ready) = ⟨boot_task version epoch rtc_ready d.io.store, {}, d.last⟩ := rfl

theorem persisted_boot (persisted : Persisted d) (version : UInt16) (epoch : UInt32) (rtc_ready : Bool) (udp : UdpCfg) :
    Persisted ⟨boot_task version epoch rtc_ready d.io.store, udp, d.last⟩ := by
  obtain ⟨working, get⟩ := working_init persisted.working
  constructor
  · show Working (boot_task version epoch rtc_ready d.io.store).store
    rw [boot_store]
    exact working
  · show (config_store_get (boot_task version epoch rtc_ready d.io.store).store).ip = d.last
    rw [boot_store, get, persisted.last]
  · exact persisted.valid

theorem persisted_step (act : Act) (persisted : Persisted d) (allowed : Allowed d act) : Persisted (step d act) := by
  by_cases down : ∃ version epoch rtc_ready, act = .reboot version epoch rtc_ready
  · obtain ⟨version, epoch, rtc_ready, rfl⟩ := down
    rw [step_reboot]
    exact persisted_boot persisted version epoch rtc_ready {}
  have up : ∀ version epoch rtc_ready, act ≠ .reboot version epoch rtc_ready := fun v e r same => down ⟨v, e, r, same⟩
  have last := @step_last d act up
  rw [last_after] at last
  cases @effect_step d act up with
  | saved mid saving result store ip =>
    obtain ⟨plain, room⟩ := allowed saving
    rw [← ip] at plain
    obtain ⟨working, get, stored, valid⟩ := persisted_saved persisted store plain room
    have same : (step d act).last = (exported mid).ip := by rw [last, if_pos saving, stored, ip]
    refine ⟨?_, ?_, ?_⟩
    · rw [result]
      exact working
    · rw [result, get, same]
    · rw [same]
      exact valid
  | erased quiet resetting store =>
    obtain ⟨working, get⟩ := working_erase persisted.working
    have same : (step d act).last = config_store_get_defaults.ip := by rw [last, quiet, if_neg nofun, if_pos resetting]
    refine ⟨?_, ?_, ?_⟩
    · rw [store]
      exact working
    · rw [store, get, same]
    · rw [same]
      exact default_valid
  | kept quiet staying store =>
    have same : (step d act).last = d.last := by rw [last, quiet, if_neg nofun, staying, if_neg nofun]
    refine ⟨?_, ?_, ?_⟩
    · rw [store]
      exact persisted.working
    · rw [store, same, persisted.last]
    · rw [same]
      exact persisted.valid

theorem persisted_run {m : Mem} (slotA : slotAt m CFG_SLOT_A = none) (slotB : slotAt m CFG_SLOT_B = none) (version : UInt16)
    (epoch : UInt32) (rtc_ready : Bool) {acts : List Act} (meets : Meets step Allowed (power_on version epoch rtc_ready m) acts) :
    Persisted (acts.foldl step (power_on version epoch rtc_ready m)) :=
  invariant (fun _ act persisted allowed => persisted_step act persisted allowed)
    (persisted_start slotA slotB version epoch rtc_ready) meets

theorem reboot_address (persisted : Persisted d) (version : UInt16) (epoch : UInt32) (rtc_ready : Bool) :
    address (step d (.reboot version epoch rtc_ready)).io = d.last := by
  have low : low_bytes_valid (config_store_get d.io.store).ip = true := by
    rw [persisted.last]
    exact persisted.valid.2
  rw [← persisted.last, step_reboot]
  exact boot_address version epoch rtc_ready persisted.working low

end

/-- In every run from blank slots that saves no address with a word above 255 and valid low bytes: after any
    save and a reset, the nine registers without the address are as they were at the save; the address is
    that of the save if it was valid, and else the last valid one that was persisted; and no reset restores
    an address register above 255. -/
theorem config_round_trip {m : Mem} (slotA : slotAt m CFG_SLOT_A = none) (slotB : slotAt m CFG_SLOT_B = none)
    (version : UInt16) (epoch : UInt32) (rtc_ready : Bool) (acts : List Act)
    (meets : Meets step Allowed (power_on version epoch rtc_ready m) acts) :
    let d := acts.foldl step (power_on version epoch rtc_ready m)
    (∀ save, saves d save = true → Allowed d save → ∀ version epoch rtc_ready,
      let saved := (step d save).io
      let restored := (step (step d save) (.reboot version epoch rtc_ready)).io
      (∀ a, 1 ≤ a ∧ a ≤ 9 → get_holding_reg a restored = get_holding_reg a saved) ∧
        (ValidAddress (address saved) → address restored = address saved) ∧
        (¬ ValidAddress (address saved) → address restored = d.last)) ∧
    ∀ version epoch rtc_ready, Octets (address (step d (.reboot version epoch rtc_ready)).io) := by
  intro d
  have persisted : Persisted d := persisted_run slotA slotB version epoch rtc_ready meets
  constructor
  · intro save saving allowed version epoch rtc_ready saved restored
    have up : ∀ version epoch rtc_ready, save ≠ .reboot version epoch rtc_ready := by
      rintro v e r rfl
      cases saving
    have after : Persisted (step d save) := persisted_step save persisted allowed
    have restored_address : address restored = (step d save).last := reboot_address after version epoch rtc_ready
    cases @effect_step d save up with
    | erased quiet => rw [saving] at quiet; cases quiet
    | kept quiet => rw [saving] at quiet; cases quiet
    | saved mid _ result store ip =>
      have at_save : address saved = address_at_save d save := by
        rw [← ip]
        exact (congrArg address result).trans (holding_reg_save_address mid)
      have last : (step d save).last = if ValidAddress (address saved) then address saved else d.last := by
        rw [step_last up, last_after, if_pos saving, at_save]
      rw [restored_address, last]
      refine ⟨fun a nine => ?_, fun valid => if_pos valid, fun invalid => if_neg invalid⟩
      obtain ⟨plain, room⟩ := allowed saving
      obtain ⟨working, get, _⟩ := persisted_saved persisted store (by rw [ip]; exact plain) room
      have register : get_holding_reg a saved = get_holding_reg a mid :=
        (congrArg (get_holding_reg a) result).trans (get_holding_reg_congr rfl a)
      have fields := boot_fields version epoch rtc_ready after.working nine
      rw [register, ← exported_fields nine mid, ← get, ← result]
      exact fields
  · intro version epoch rtc_ready
    rw [reboot_address persisted]
    exact persisted.valid.1

/-- A device on which the address 10.168.12.101 was set and saved. -/
def addressed : Device :=
  ([.io_write_holding HOLDING_IP_OCTET1_IDX 10, .holding_reg_save] : List Act).foldl step (power_on 0 0 true erasedChip)

/-- A first octet of zero is not persisted: the address set before comes back, with the new slave id. -/
theorem config_round_trip_zero_octet :
    let d := ([.io_write_holding HOLDING_SLAVE_ID_IDX 5, .io_write_holding HOLDING_IP_OCTET1_IDX 0] : List Act).foldl step
      addressed
    let restored := (step (step d .holding_reg_save) (.reboot 0 0 true)).io
    get_holding_reg HOLDING_SLAVE_ID_IDX restored = 5 ∧ address restored = #v[10, 168, 12, 101] := by
  have trip := (config_round_trip (m := erasedChip) (by decide) (by decide) 0 0 true
    [.io_write_holding HOLDING_IP_OCTET1_IDX 10, .holding_reg_save, .io_write_holding HOLDING_SLAVE_ID_IDX 5,
      .io_write_holding HOLDING_IP_OCTET1_IDX 0]
    ⟨nofun, fun _ => ⟨by decide, by decide⟩, nofun, nofun, trivial⟩).1 .holding_reg_save rfl
    (fun _ => ⟨by decide +kernel, by decide +kernel⟩) 0 0 true
  refine ⟨(trip.1 HOLDING_SLAVE_ID_IDX (by decide)).trans (by decide), ?_⟩
  exact (trip.2.2 (by decide)).trans (by decide)

/-- The first octet set to 448 is saved and restored whole, because its low byte is valid, though the
    default address is the last valid one. -/
theorem overlarge_octet_restored :
    let d := step (power_on 0 0 true erasedChip) (.io_write_holding HOLDING_IP_OCTET1_IDX 448)
    let restored := (step (step d .holding_reg_save) (.reboot 0 0 true)).io
    saves d .holding_reg_save = true ∧ ¬ ValidAddress (address (step d .holding_reg_save).io) ∧
      d.last = #v[192, 168, 12, 101] ∧ address restored = #v[448, 168, 12, 101] ∧ ¬ Octets (address restored) := by
  decide +kernel

end IoEdgeHub.Persistence
