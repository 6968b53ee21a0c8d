import IoEdgeHub.ConfigStore

/-!
The register map (`modbus/regmap.c`) with what a write of a register does besides
(`io_hooks.h`), and how the registers get their values at boot (`boot_task`).

What leaves the module is kept as the list of the calls it made: the outputs, the
history, the clock, the configuration store and the reset. The clock and the
configuration store also change as these calls change them.
-/
namespace IoEdgeHub.Regmap
open IoEdgeHub.ConfigStore

def DI_NUM : Nat := 16
def DO_NUM : Nat := 8

def INPUT_AI0_IDX : Nat := 1
def INPUT_DI_IDX : Nat := 5

def HOLDING_DO_IDX : Nat := 0x00
def HOLDING_DI_ENABLE_IDX : Nat := 0x01
def HOLDING_AI_ENABLE_IDX : Nat := 0x02
def HOLDING_DI_SAMPLE_MS_IDX : Nat := 0x03
def HOLDING_AI_SAMPLE_MS_IDX : Nat := 0x04
def HOLDING_HISTORY_ENABLE_IDX : Nat := 0x05
def HOLDING_CAN_ID_IDX : Nat := 0x06
def HOLDING_CAN_BAUDRATE_IDX : Nat := 0x07
def HOLDING_RS485_BAUDRATE_IDX : Nat := 0x08
def HOLDING_SLAVE_ID_IDX : Nat := 0x09
def HOLDING_IP_OCTET1_IDX : Nat := 0x0A
def HOLDING_IP_OCTET2_IDX : Nat := 0x0B
def HOLDING_IP_OCTET3_IDX : Nat := 0x0C
def HOLDING_IP_OCTET4_IDX : Nat := 0x0D
def HOLDING_TIMESTAMP_HI_IDX : Nat := 0x0E
def HOLDING_TIMESTAMP_LO_IDX : Nat := 0x0F
def HOLDING_CONFIG_SAVE_IDX : Nat := 0x10
def HOLDING_REBOOT_IDX : Nat := 0x11

def MODBUS_HOLDING_REGISTER_NUMBERS : Nat := 18
def MODBUS_INPUT_REGISTER_NUMBERS : Nat := 6

/-- A call out of the register map. -/
inductive Hook
  | mb_set_do (val : UInt16)
  | history_enable_write (en : Bool)
  | history_sync
  | set_timestamp (t : Int)
  | config_store_save (cfg : IoCfg)
  | set_reboot_status (en : Bool)
  | io_reboot_cold
  deriving DecidableEq, Repr

/-- The registers, what they are backed by, and the calls made so far. `rtc_ready`
    also stands for the clock chip taking what it is set to. -/
structure Io where
  holding_reg : Vector UInt16 18
  input_reg : Vector UInt16 6
  epoch_cache : UInt32
  rtc_ready : Bool
  store : Store
  hooks : List Hook

/-- `holding_reg[addr] = reg`. -/
def Io.put (addr : Nat) (reg : UInt16) (s : Io) : Io :=
  { s with holding_reg := s.holding_reg.setIfInBounds addr reg }

def Io.call (h : Hook) (s : Io) : Io := { s with hooks := s.hooks ++ [h] }

@[simp] theorem put_hooks (addr : Nat) (reg : UInt16) (s : Io) : (s.put addr reg).hooks = s.hooks := rfl

@[simp] theorem call_hooks (h : Hook) (s : Io) : (s.call h).hooks = s.hooks ++ [h] := rfl

@[simp] theorem call_holding_reg (h : Hook) (s : Io) : (s.call h).holding_reg = s.holding_reg := rfl

def mb_set_do (val : UInt16) (s : Io) : Io := s.call (.mb_set_do val)

def history_enable_write (en : Bool) (s : Io) : Io := s.call (.history_enable_write en)

def history_sync (s : Io) : Io := s.call .history_sync

def set_reboot_status (en : Bool) (s : Io) : Io := s.call (.set_reboot_status en)

/-- On the device this call does not return; what follows it is the reset. -/
def io_reboot_cold (s : Io) : Io := s.call .io_reboot_cold

def TS_MIN : Int := 946684800
def TS_MAX : Int := 4102444800

def ts_in_range (t : Int) : Bool := t ≥ TS_MIN ∧ t < TS_MAX

def io_now_epoch (s : Io) : UInt32 := s.epoch_cache

def set_timestamp (t : Int) (s : Io) : Bool × Io :=
  let s := s.call (.set_timestamp t)
  if !s.rtc_ready then (false, s)
  else if !ts_in_range t then (false, s)
  else (true, { s with epoch_cache := UInt32.ofNat (t % 2^32).toNat })

theorem set_timestamp_hooks (t : Int) (io : Io) : (set_timestamp t io).2.hooks = io.hooks ++ [.set_timestamp t] := by
  unfold set_timestamp
  simp only
  split_ifs <;> rfl

theorem set_timestamp_regs (t : Int) (s : Io) : (set_timestamp t s).2.holding_reg = s.holding_reg := by
  unfold set_timestamp
  simp only
  split_ifs <;> rfl

theorem set_timestamp_store (t : Int) (s : Io) : (set_timestamp t s).2.store = s.store := by
  unfold set_timestamp
  simp only
  split_ifs <;> rfl

def get_holding_reg (addr : Nat) (s : Io) : UInt16 := if inside : addr < 18 then s.holding_reg[addr] else 0

def io_read_holding (addr : Nat) (s : Io) : UInt16 :=
  if addr = HOLDING_TIMESTAMP_HI_IDX then (io_now_epoch s >>> 16).toUInt16
  else if addr = HOLDING_TIMESTAMP_LO_IDX then (io_now_epoch s).toUInt16
  else get_holding_reg addr s

def update_holding_reg (addr : Nat) (reg : UInt16) (s : Io) : Option Io :=
  if addr ≥ MODBUS_HOLDING_REGISTER_NUMBERS then none else some (s.put addr reg)

def get_input_reg (addr : Nat) (s : Io) : UInt16 := if inside : addr < 6 then s.input_reg[addr] else 0

def update_input_reg (addr : Nat) (reg : UInt16) (s : Io) : Option Io :=
  if addr ≥ MODBUS_INPUT_REGISTER_NUMBERS then none
  else some { s with input_reg := s.input_reg.setIfInBounds addr reg }

theorem get_holding_reg_put {addr : Nat} (inside : addr < 18) (reg : UInt16) (a : Nat) (s : Io) :
    get_holding_reg a (s.put addr reg) = if a = addr then reg else get_holding_reg a s := by
  unfold get_holding_reg Io.put
  by_cases same : a = addr
  · subst same
    simp [inside]
  · simp only [if_neg same, Vector.getElem_setIfInBounds]
    split_ifs <;> first | rfl | omega

/-- The registers are written one after the other. -/
theorem get_puts (regs : List (Nat × UInt16)) (inside : ∀ r ∈ regs, r.1 < 18) (a : Nat) (s : Io) :
    get_holding_reg a (regs.foldl (fun s r => s.put r.1 r.2) s) =
      regs.foldl (fun v r => if a = r.1 then r.2 else v) (get_holding_reg a s) := by
  induction regs generalizing s with
  | nil => rfl
  | cons r rest ih =>
    rw [List.foldl_cons, ih (fun r' member => inside r' (by simp [member])), List.foldl_cons,
      get_holding_reg_put (inside r (by simp))]

theorem put_same {addr : Nat} {reg : UInt16} {s : Io} (inside : addr < 18) (same : get_holding_reg addr s = reg) :
    s.put addr reg = s := by
  have unchanged : s.holding_reg.setIfInBounds addr reg = s.holding_reg := by
    rw [get_holding_reg, dif_pos inside] at same
    ext i bound
    rw [Vector.getElem_setIfInBounds]
    split_ifs with here
    · subst here
      rw [same]
    · rfl
  rw [Io.put, unchanged]

/-- A register is read from the array, whatever else changes. -/
theorem get_holding_reg_congr {s s' : Io} (same : s'.holding_reg = s.holding_reg) (a : Nat) :
    get_holding_reg a s' = get_holding_reg a s := by
  simp only [get_holding_reg, same]

def ip_addr_valid (a _b _c d : UInt8) : Bool :=
  if d = 0 ∨ d = 0xFF then false
  else if a = 0 ∨ a = 127 ∨ a ≥ 224 then false
  else true

def ip_is_valid_for_export (s : Io) : Bool :=
  ip_addr_valid (get_holding_reg HOLDING_IP_OCTET1_IDX s).toUInt8 (get_holding_reg HOLDING_IP_OCTET2_IDX s).toUInt8
    (get_holding_reg HOLDING_IP_OCTET3_IDX s).toUInt8 (get_holding_reg HOLDING_IP_OCTET4_IDX s).toUInt8

/-- What `holding_reg_save` hands to the store. An invalid address leaves the stored one. -/
def exported (s : Io) : IoCfg :=
  { di_en := get_holding_reg HOLDING_DI_ENABLE_IDX s
    ai_en := get_holding_reg HOLDING_AI_ENABLE_IDX s
    di_si := get_holding_reg HOLDING_DI_SAMPLE_MS_IDX s
    ai_si := get_holding_reg HOLDING_AI_SAMPLE_MS_IDX s
    his := get_holding_reg HOLDING_HISTORY_ENABLE_IDX s
    can_id := get_holding_reg HOLDING_CAN_ID_IDX s
    can_bps := get_holding_reg HOLDING_CAN_BAUDRATE_IDX s
    rs485_bps := get_holding_reg HOLDING_RS485_BAUDRATE_IDX s
    slave_id := get_holding_reg HOLDING_SLAVE_ID_IDX s
    ip :=
      if ip_is_valid_for_export s then
        #v[get_holding_reg HOLDING_IP_OCTET1_IDX s, get_holding_reg HOLDING_IP_OCTET2_IDX s,
          get_holding_reg HOLDING_IP_OCTET3_IDX s, get_holding_reg HOLDING_IP_OCTET4_IDX s]
      else (config_store_get s.store).ip }

/-- Whether the flash took it is not looked at. -/
def holding_reg_save (s : Io) : Io :=
  let cfg := exported s
  { s.call (.config_store_save cfg) with store := (config_store_save cfg s.store).2 }

/-- Whether the low bytes of four words are an address. -/
def ip_words_valid (ip : Vector UInt16 4) : Bool :=
  ip_addr_valid (ip.get 0).toUInt8 (ip.get 1).toUInt8 (ip.get 2).toUInt8 (ip.get 3).toUInt8

/-- The registers a configuration is loaded into, in the source's order. -/
def loaded (cfg : IoCfg) : List (Nat × UInt16) :=
  [(HOLDING_DI_ENABLE_IDX, cfg.di_en), (HOLDING_AI_ENABLE_IDX, cfg.ai_en), (HOLDING_DI_SAMPLE_MS_IDX, cfg.di_si),
    (HOLDING_AI_SAMPLE_MS_IDX, cfg.ai_si), (HOLDING_HISTORY_ENABLE_IDX, cfg.his), (HOLDING_CAN_ID_IDX, cfg.can_id),
    (HOLDING_CAN_BAUDRATE_IDX, cfg.can_bps), (HOLDING_RS485_BAUDRATE_IDX, cfg.rs485_bps),
    (HOLDING_SLAVE_ID_IDX, cfg.slave_id)] ++
  if ip_addr_valid (cfg.ip.get 0).toUInt8 (cfg.ip.get 1).toUInt8 (cfg.ip.get 2).toUInt8 (cfg.ip.get 3).toUInt8 then
    [(HOLDING_IP_OCTET1_IDX, cfg.ip.get 0), (HOLDING_IP_OCTET2_IDX, cfg.ip.get 1), (HOLDING_IP_OCTET3_IDX, cfg.ip.get 2),
      (HOLDING_IP_OCTET4_IDX, cfg.ip.get 3)]
  else []

theorem loaded_addresses {cfg : IoCfg} {r : Nat × UInt16} (member : r ∈ loaded cfg) : 1 ≤ r.1 ∧ r.1 ≤ 13 := by
  have among : r.1 ∈ [1, 2, 3, 4, 5, 6, 7, 8, 9] ++ [10, 11, 12, 13] := by
    rcases List.mem_append.mp member with first | ip
    · exact List.mem_append_left _ (List.mem_map_of_mem first)
    · split_ifs at ip
      · exact List.mem_append_right _ (List.mem_map_of_mem ip)
      · cases ip
  simp only [List.mem_append, List.mem_cons, List.not_mem_nil, or_false] at among
  omega

def holding_reg_load (s : Io) : Io := (loaded (config_store_get s.store)).foldl (fun s r => s.put r.1 r.2) s

def io_write_holding (addr : Nat) (reg : UInt16) (s : Io) : Option Io :=
  if addr ≥ MODBUS_HOLDING_REGISTER_NUMBERS then none
  else if get_holding_reg addr s = reg then some s
  else
    let s := s.put addr reg
    some <|
      if addr = HOLDING_DO_IDX then mb_set_do (reg &&& 0xFF) s
      else if addr = HOLDING_HISTORY_ENABLE_IDX then history_enable_write (reg ≠ 0) s
      else if addr = HOLDING_TIMESTAMP_LO_IDX then
        (set_timestamp ((get_holding_reg HOLDING_TIMESTAMP_HI_IDX s).toNat * 2^16 + reg.toNat) s).2
      else if addr = HOLDING_CONFIG_SAVE_IDX then holding_reg_save (s.put addr 0)
      else if addr = HOLDING_REBOOT_IDX then
        let s := s.put addr 0
        if reg ≠ 0 then io_reboot_cold (history_sync s) else s
      else s

/-- What a new value in a register does, register by register. -/
inductive HoldingWrite (addr : Nat) (reg : UInt16) (s : Io) : Io → Prop
  | output (own : addr = HOLDING_DO_IDX) : HoldingWrite addr reg s (mb_set_do (reg &&& 0xFF) (s.put addr reg))
  | history (own : addr = HOLDING_HISTORY_ENABLE_IDX) :
      HoldingWrite addr reg s (history_enable_write (reg ≠ 0) (s.put addr reg))
  | time (own : addr = HOLDING_TIMESTAMP_LO_IDX) : HoldingWrite addr reg s
      (set_timestamp ((get_holding_reg HOLDING_TIMESTAMP_HI_IDX (s.put addr reg)).toNat * 2^16 + reg.toNat) (s.put addr reg)).2
  | save (own : addr = HOLDING_CONFIG_SAVE_IDX) : HoldingWrite addr reg s (holding_reg_save ((s.put addr reg).put addr 0))
  | restart (own : addr = HOLDING_REBOOT_IDX) (asked : reg ≠ 0) :
      HoldingWrite addr reg s (io_reboot_cold (history_sync ((s.put addr reg).put addr 0)))
  | no_restart (own : addr = HOLDING_REBOOT_IDX) (asked : reg = 0) : HoldingWrite addr reg s ((s.put addr reg).put addr 0)
  | plain (others : addr ≠ HOLDING_DO_IDX ∧ addr ≠ HOLDING_CONFIG_SAVE_IDX ∧ addr ≠ HOLDING_REBOOT_IDX) :
      HoldingWrite addr reg s (s.put addr reg)

/-- A value that is there already does nothing. -/
theorem io_write_holding_cases {addr : Nat} {reg : UInt16} {s s' : Io} (written : io_write_holding addr reg s = some s') :
    addr < 18 ∧ (get_holding_reg addr s = reg ∧ s' = s ∨ get_holding_reg addr s ≠ reg ∧ HoldingWrite addr reg s s') := by
  unfold io_write_holding at written
  by_cases outside : addr ≥ MODBUS_HOLDING_REGISTER_NUMBERS
  · rw [if_pos outside] at written
    cases written
  rw [if_neg outside] at written
  refine ⟨Nat.not_le.mp outside, ?_⟩
  by_cases same : get_holding_reg addr s = reg
  · rw [if_pos same] at written
    exact .inl ⟨same, (Option.some.inj written).symm⟩
  rw [if_neg same] at written
  refine .inr ⟨same, ?_⟩
  rw [← Option.some.inj written]
  split_ifs with output history time save reboot asked
  · exact .output output
  · exact .history history
  · exact .time time
  · exact .save save
  · exact .restart reboot asked
  · exact .no_restart reboot (not_not.mp asked)
  · exact .plain ⟨output, save, reboot⟩

/-- A write changes its own register only, and the triggers go back to zero. -/
theorem io_write_holding_regs {addr : Nat} {reg : UInt16} {s s' : Io} (written : io_write_holding addr reg s = some s') {a : Nat}
    (lasting : a ≠ HOLDING_CONFIG_SAVE_IDX ∧ a ≠ HOLDING_REBOOT_IDX) :
    get_holding_reg a s' = if a = addr then reg else get_holding_reg a s := by
  obtain ⟨inside, ⟨same, rfl⟩ | ⟨_, new⟩⟩ := io_write_holding_cases written
  · split_ifs with own
    · rw [own, same]
    · rfl
  have put : get_holding_reg a (s.put addr reg) = if a = addr then reg else get_holding_reg a s :=
    get_holding_reg_put inside reg a s
  have trigger (apart : a ≠ addr) :
      get_holding_reg a ((s.put addr reg).put addr 0) = if a = addr then reg else get_holding_reg a s := by
    rw [get_holding_reg_put inside, if_neg apart, put]
  cases new with
  | output _ => exact (get_holding_reg_congr rfl a).trans put
  | history _ => exact (get_holding_reg_congr rfl a).trans put
  | time _ => exact (get_holding_reg_congr (set_timestamp_regs _ _) a).trans put
  | save own => exact (get_holding_reg_congr rfl a).trans (trigger (own ▸ lasting.1))
  | restart own _ => exact (get_holding_reg_congr rfl a).trans (trigger (own ▸ lasting.2))
  | no_restart own _ => exact trigger (own ▸ lasting.2)
  | plain _ => exact put

/-- `WRITE_BIT` on a 16-bit variable. -/
def WRITE_BIT (var : UInt16) (bit : Nat) (set : Bool) : UInt16 :=
  if set then var ||| (1 <<< UInt16.ofNat bit) else var &&& ~~~(1 <<< UInt16.ofNat bit)

def io_write_do_bit (bit : Nat) (state : Bool) (s : Io) : Option Io :=
  if bit ≥ DO_NUM then none
  else
    let val := WRITE_BIT (get_holding_reg HOLDING_DO_IDX s) bit state
    some ((mb_set_do (val &&& 0xFF) s).put HOLDING_DO_IDX (val &&& 0xFF))

def io_coil_rd (addr : Nat) (s : Io) : Option Bool :=
  if addr ≥ DO_NUM then none else some ((get_holding_reg HOLDING_DO_IDX s).toNat.testBit addr)

def io_discrete_rd (addr : Nat) (s : Io) : Option Bool :=
  if addr ≥ DI_NUM then none else some ((get_input_reg INPUT_DI_IDX s).toNat.testBit addr)

/-- The initialisers of the two arrays. -/
def holding_reg_init : Vector UInt16 18 := #v[0, 0xFFFF, 0x000F, 200, 200, 0, 0x0111, 250, 9600, 1, 192, 168, 12, 101, 0, 0, 0, 0]

def input_reg_init (version : UInt16) : Vector UInt16 6 := #v[version, 0, 0, 0, 0, 0]

/-- The part of `boot_task` that fills the registers, from the store as it was left and the clock as it runs. -/
def boot_task (version : UInt16) (epoch : UInt32) (rtc_ready : Bool) (store : Store) : Io :=
  let s : Io :=
    { holding_reg := holding_reg_init
      input_reg := input_reg_init version
      epoch_cache := epoch
      rtc_ready := rtc_ready
      store := (config_store_init ⟨Ram.zero, store.dev⟩).2
      hooks := [] }
  let s := holding_reg_load s
  let s := s.put HOLDING_TIMESTAMP_HI_IDX (io_now_epoch s >>> 16).toUInt16
  let s := s.put HOLDING_TIMESTAMP_LO_IDX (io_now_epoch s).toUInt16
  history_enable_write (get_holding_reg HOLDING_HISTORY_ENABLE_IDX s ≠ 0) s

end IoEdgeHub.Regmap
