import IoEdgeHub.MultiWrites
import IoEdgeHub.WebSnapshots

/-!
The page of the web interface (`web/index.html`) behind its WebSocket: what it shows of the
texts that the device sends. Whatever happens to the registers while a text is put together,
the page shows for each of them what its read returned (`io_shown`, `regs_shown`,
`info_shown`). The time stands in two registers that are read one after the other, so it
can be shown 65536 s early, once.

A value that is missing or no number counts as 0 where bits are taken from it and as none where
it is shown, as in JavaScript as far as the page can be seen.
-/
namespace IoEdgeHub.WebPage
open IoEdgeHub.CStrings (ascii)
open IoEdgeHub.HistoryListing (Memory)
open IoEdgeHub.JsonValues IoEdgeHub.Regmap IoEdgeHub.WebSnapshots

def Is (s : List UInt8) : Option Value → Bool
  | some (.string t) => t = s
  | _ => false

def truthy : Option Value → Bool
  | none => false
  | some (.flag b) => b
  | some (.number n) => n ≠ 0
  | some (.string s) => s ≠ []
  | some (.array _) => true
  | some (.object _) => true

def number_of : Option Value → Option Nat
  | some (.number n) => some n
  | _ => none

/-- What `&` takes of a value. -/
def bits (v : Option Value) : Nat := (number_of v).getD 0 % 2^32

/-- `d.name[i]` -/
def element (name : List UInt8) (i : Nat) (d : Value) : Option Value := (d.get name).bind (Value.item i)

inductive Label | ON | OFF | disabled
deriving DecidableEq, Repr

structure Chip where
  on : Bool
  dis : Bool
  st : Label
deriving DecidableEq, Repr

/-- The digital inputs, the switches of the outputs, and the analog inputs in hundredths, where one that is not
    enabled shows `--`. -/
structure Panel where
  di : List Chip
  dout : List Bool
  ai : List (Option Nat)
deriving DecidableEq, Repr

def chip (enabled on : Bool) : Chip := { on, dis := !enabled, st := if enabled then (if on then .ON else .OFF) else .disabled }

def renderIo (d : Value) : Panel :=
  let diEn := bits (d.get (ascii "di_en"))
  let aiEn := bits (d.get (ascii "ai_en"))
  { di := (List.range 16).map fun i => chip (diEn.testBit i) (truthy (element (ascii "di") i d))
    dout := (List.range 8).map fun i => truthy (element (ascii "do") i d)
    ai := (List.range 4).map fun i => if aiEn.testBit i then number_of (element (ascii "ai") i d) else none }

/-- The seconds of a time that is shown as a date, nothing if it is not set. -/
def fmtTs (hi lo : Nat) : Option Nat :=
  let t := hi * 2^16 % 2^32 + lo % 2^16
  if t < 946684800 then none else some t

/-- A value, behind which there may be a time. -/
inductive Cell
  | plain (v : Option Value)
  | dated (v : Option Value) (time : Option Nat)

def regDisp (addr : Nat) (d : Option Value) : Cell :=
  let reg (a : Nat) := d.bind (Value.item a)
  if addr = 0x0E then .dated (reg 0x0E) (fmtTs (bits (reg 0x0E)) (bits (reg 0x0F))) else .plain (reg addr)

/-- The current values, of the holding registers and of the input registers. -/
structure Table where
  hr : List Cell
  ir : List (Option Value)

def renderRegs (d : Value) : Table :=
  { hr := (List.range 18).map fun a => regDisp a (d.get (ascii "holding"))
    ir := (List.range 6).map fun a => element (ascii "input") a d }

/-- What stands in a field: nothing, an integer, or another number. -/
inductive Entry
  | blank
  | integer (z : Int)
  | other
deriving DecidableEq, Repr

structure Form where
  cfIp1 : Entry
  cfIp2 : Entry
  cfIp3 : Entry
  cfIp4 : Entry
  cfRs : Entry
  cfSid : Entry
  cfCanB : Entry
  cfCanId : Entry
deriving DecidableEq, Repr

/-- A field for a number takes any number. -/
def shown (v : Option Value) : Entry := (number_of v).elim .blank fun n => .integer n

/-- A field with options takes one of them, and is blank otherwise. -/
def selected (options : List Nat) (v : Option Value) : Entry :=
  (number_of v).elim .blank fun n => if n ∈ options then .integer n else .blank

def RS485_OPTIONS : List Nat := [4800, 9600, 19200, 38400, 57600, 115200]
def CAN_OPTIONS : List Nat := [50, 100, 125, 250, 500, 800, 1000]

/-- The form as the registers are. -/
def filled (d : Value) : Form :=
  let h (a : Nat) := element (ascii "holding") a d
  { cfIp1 := shown (h 0x0A), cfIp2 := shown (h 0x0B), cfIp3 := shown (h 0x0C), cfIp4 := shown (h 0x0D)
    cfRs := selected RS485_OPTIONS (h 0x08), cfSid := shown (h 0x09)
    cfCanB := selected CAN_OPTIONS (h 0x07), cfCanId := shown (h 0x06) }

inductive Tab | ov | io | rg | hi | cf | fw
deriving DecidableEq

/-- What the last write of the configuration has come to. -/
inductive Toast
  | written
  | refused (err : List UInt8)
deriving DecidableEq

/-- `cfAckCb` is set while the answer to a configuration is waited for. -/
structure Page where
  curTab : Tab
  io : Option Panel
  table : Option Table
  info : Option Value
  regs : Option Value
  form : Form
  cfgDirty : Bool
  cfgWriting : Bool
  cfAckCb : Bool
  toast : Option Toast

/-- `setVal` changes no field while there is something that was entered or is being written. -/
def fillCfgForm (d : Value) (p : Page) : Page := if !p.cfgDirty && !p.cfgWriting then { p with form := filled d } else p

/-- The answer to a configuration. -/
def done (r : Value) (p : Page) : Page :=
  let p := { p with cfgWriting := false }
  match r.get (ascii "ok") with
  | some (.flag true) => { p with cfgDirty := false, toast := some .written }
  | _ =>
    match r.get (ascii "err") with
    | some (.string err) => { p with toast := some (.refused err) }
    | _ => { p with toast := some (.refused []) }

def onmessage (data : List UInt8) (p : Page) : Page :=
  match parse data with
  | none => p
  | some d =>
    let t := d.get (ascii "t")
    if t.isNone then (if p.cfAckCb then done d { p with cfAckCb := false } else p)
    else if Is (ascii "io") t then { p with io := some (renderIo d) }
    else if Is (ascii "regs") t then
      let p := { p with regs := some d }
      let p := if p.curTab = .rg then { p with table := some (renderRegs d) } else p
      if p.curTab = .cf then fillCfgForm d p else p
    else if Is (ascii "info") t then { p with info := some d }
    else p

theorem item_numbers (value : Nat → Nat) {count i : Nat} (inside : i < count) :
    Value.item i (.array (number_items value count)) = some (.number (value i)) := by
  rw [Value.item, number_items, List.getElem?_map, List.getElem?_range inside]
  rfl

section
variable {bufsz : Nat} {m : Memory} {v : Value} {built : Int × Memory}

/-- The page reads the value whose text is whole in the buffer. -/
theorem parse_sent (whole : Whole bufsz m (text v) built) (plain_ : Plain v) : parse (sent built) = some v := by
  rw [whole.sent, parse_text plain_]

end

theorem buffer_bounds {bufsz : Nat} (size : bufsz = HTTP_BODY_BUF ∨ bufsz = WS_TX_BUF) : 704 ≤ bufsz ∧ bufsz < 2^31 := by
  rcases size with rfl | rfl <;> decide

/-- The flags of a word are its bits. -/
theorem truthy_bit (w : UInt16) {i : Nat} (small : i < 16) :
    truthy (some (.number ((w >>> UInt16.ofNat i) &&& 1).toNat)) = w.toNat.testBit i := by
  have shift : (UInt16.ofNat i).toNat % 16 = i := by
    rw [UInt16.toNat_ofNat']
    omega
  have bit : ((w >>> UInt16.ofNat i) &&& 1).toNat = w.toNat / 2^i % 2 := by
    rw [UInt16.toNat_and, UInt16.toNat_shiftRight, shift, Nat.shiftRight_eq_div_pow]
    exact Nat.and_one_is_mod _
  rw [truthy, bit, Nat.testBit_eq_decide_div_mod_eq]
  rcases Nat.mod_two_eq_zero_or_one (w.toNat / 2^i) with zero | one
  · rw [zero]
    rfl
  · rw [one]
    rfl

theorem bits_word (w : UInt16) : bits (some (.number w.toNat)) = w.toNat := by
  have small := w.toNat_lt
  rw [bits, number_of, Option.getD_some]
  omega

section
variable (reads : Nat → Io)

/-- What the inputs and outputs were when they were read, and which of them were enabled. -/
def panel_read : Panel :=
  let di_en := (get_holding_reg HOLDING_DI_ENABLE_IDX (reads 2)).toNat
  let ai_en := (get_holding_reg HOLDING_AI_ENABLE_IDX (reads 3)).toNat
  { di := (List.range DI_NUM).map fun i =>
      chip (di_en.testBit i) ((get_input_reg INPUT_DI_IDX (reads 0)).toNat.testBit i)
    dout := (List.range DO_NUM).map fun i => (get_holding_reg HOLDING_DO_IDX (reads 1)).toNat.testBit i
    ai := (List.range AI_NUM).map fun i =>
      if ai_en.testBit i then some (get_input_reg (INPUT_AI0_IDX + i) (reads (4 + i))).toNat else none }

theorem renderIo_value (tick_ms : UInt32) : renderIo (io_value reads tick_ms) = panel_read reads := by
  have di_en : (io_value reads tick_ms).get (ascii "di_en") =
      some (.number (get_holding_reg HOLDING_DI_ENABLE_IDX (reads 2)).toNat) := rfl
  have ai_en : (io_value reads tick_ms).get (ascii "ai_en") =
      some (.number (get_holding_reg HOLDING_AI_ENABLE_IDX (reads 3)).toNat) := rfl
  have di {i : Nat} (inside : i < DI_NUM) := item_numbers
    (fun i => ((get_input_reg INPUT_DI_IDX (reads 0) >>> UInt16.ofNat i) &&& 1).toNat) inside
  have dout {i : Nat} (inside : i < DO_NUM) := item_numbers
    (fun i => ((get_holding_reg HOLDING_DO_IDX (reads 1) >>> UInt16.ofNat i) &&& 1).toNat) inside
  have ai {i : Nat} (inside : i < AI_NUM) := item_numbers
    (fun i => (get_input_reg (INPUT_AI0_IDX + i) (reads (4 + i))).toNat) inside
  rw [renderIo, panel_read, di_en, ai_en, bits_word, bits_word, Panel.mk.injEq]
  refine ⟨?_, ?_, ?_⟩ <;> refine List.map_congr_left ?_ <;> intro i member
  · have inside := List.mem_range.mp member
    have value : element (ascii "di") i (io_value reads tick_ms) = _ := di inside
    rw [value, truthy_bit _ inside]
  · have inside := List.mem_range.mp member
    have value : element (ascii "do") i (io_value reads tick_ms) = _ := dout inside
    rw [value, truthy_bit _ (Nat.lt_trans inside (by decide))]
  · have value : element (ascii "ai") i (io_value reads tick_ms) = _ := ai (List.mem_range.mp member)
    rw [value]
    rfl

/-- The snapshot of the inputs and outputs is put together within either buffer, whatever the registers do
    meanwhile, and the page shows what each read returned. -/
theorem io_shown {bufsz : Nat} (size : bufsz = HTTP_BODY_BUF ∨ bufsz = WS_TX_BUF) (tick_ms : UInt32) (m : Memory) (p : Page) :
    let built := web_build_io_json bufsz reads tick_ms m
    0 ≤ built.1 ∧ built.1 < bufsz ∧ (∀ a, bufsz ≤ a → built.2 a = m a) ∧
      onmessage (sent built) p = { p with io := some (panel_read reads) } := by
  intro built
  obtain ⟨large, object⟩ := buffer_bounds size
  have whole := io_printed object reads m (Nat.le_trans (by decide) large) tick_ms
  have type : (io_value reads tick_ms).get (ascii "t") = some (.string (ascii "io")) := rfl
  have is_io : Is (ascii "io") (some (.string (ascii "io"))) = true := rfl
  refine ⟨whole.within.1, whole.within.2, whole.behind, ?_⟩
  rw [onmessage, parse_sent whole (plain_io reads tick_ms)]
  simp only [type, Option.isNone_some, Bool.false_eq_true, if_false, is_io, if_true, renderIo_value]

end

def empty_form : Form :=
  { cfIp1 := .blank, cfIp2 := .blank, cfIp3 := .blank, cfIp4 := .blank, cfRs := .blank, cfSid := .blank, cfCanB := .blank,
    cfCanId := .blank }

def opened_page : Page where
  curTab := .rg
  io := none
  table := none
  info := none
  regs := none
  form := empty_form
  cfgDirty := false
  cfgWriting := false
  cfAckCb := false
  toast := none

/-- A device whose inputs change while they are read. -/
def changing (k : Nat) : Io :=
  { MultiWrites.timed.io with
    input_reg := #v[0, UInt16.ofNat (100 * k), 0, 0, 0, if k = 0 then 5 else 0], epoch_cache := UInt32.ofNat (1700003825 + k) }

theorem io_shown_changing :
    let built := web_build_io_json HTTP_BODY_BUF changing 7 fun _ => 0
    built.1 < HTTP_BODY_BUF ∧ (onmessage (sent built) opened_page).io = some (panel_read changing) := by
  obtain ⟨-, fits, -, page⟩ := io_shown changing (.inl rfl) 7 (fun _ => 0) opened_page
  exact ⟨fits, congrArg Page.io page⟩

section
variable (reads : Nat → Io)

/-- What is shown of a time. -/
def date (t : Nat) : Option Nat := if t < 946684800 then none else some t

/-- The time that the two halves make. -/
def time_read : Option Nat :=
  fmtTs (io_read_holding HOLDING_TIMESTAMP_HI_IDX (reads 14)).toNat (io_read_holding HOLDING_TIMESTAMP_LO_IDX (reads 15)).toNat

/-- What each register was when it was read. -/
def table_read : Table :=
  { hr := (List.range MODBUS_HOLDING_REGISTER_NUMBERS).map fun a =>
      let v : Option Value := some (.number (io_read_holding a (reads a)).toNat)
      if a = HOLDING_TIMESTAMP_HI_IDX then .dated v (time_read reads) else .plain v
    ir := (List.range MODBUS_INPUT_REGISTER_NUMBERS).map fun a =>
      some (.number (get_input_reg a (reads (MODBUS_HOLDING_REGISTER_NUMBERS + a))).toNat) }

theorem holding_value {a : Nat} (inside : a < MODBUS_HOLDING_REGISTER_NUMBERS) :
    element (ascii "holding") a (regs_value reads) = some (.number (io_read_holding a (reads a)).toNat) :=
  item_numbers (fun i => (io_read_holding i (reads i)).toNat) inside

theorem renderRegs_value : renderRegs (regs_value reads) = table_read reads := by
  have holding {a : Nat} (inside : a < MODBUS_HOLDING_REGISTER_NUMBERS) := holding_value reads inside
  have input {a : Nat} (inside : a < MODBUS_INPUT_REGISTER_NUMBERS) := item_numbers
    (fun i => (get_input_reg i (reads (MODBUS_HOLDING_REGISTER_NUMBERS + i))).toNat) inside
  rw [renderRegs, table_read, Table.mk.injEq]
  refine ⟨?_, ?_⟩ <;> refine List.map_congr_left ?_ <;> intro a member
  · have value : ((regs_value reads).get (ascii "holding")).bind (Value.item a) = _ := holding (List.mem_range.mp member)
    have hi : ((regs_value reads).get (ascii "holding")).bind (Value.item 14) = _ := holding (by decide)
    have lo : ((regs_value reads).get (ascii "holding")).bind (Value.item 15) = _ := holding (by decide)
    by_cases stamp : a = 14
    · subst stamp
      simp only [regDisp, if_true, hi, lo, bits_word, HOLDING_TIMESTAMP_HI_IDX]
      rfl
    · simp only [regDisp, stamp, if_false, value, HOLDING_TIMESTAMP_HI_IDX]
  · exact input (List.mem_range.mp member)

/-- The two halves are those of one time, or a multiple of 65536 s has come between them. -/
theorem time_shown (forward : io_now_epoch (reads 14) ≤ io_now_epoch (reads 15))
    (soon : (io_now_epoch (reads 15)).toNat < (io_now_epoch (reads 14)).toNat + 2^16) :
    time_read reads = date (if (io_now_epoch (reads 14)).toNat / 2^16 = (io_now_epoch (reads 15)).toNat / 2^16 then
      (io_now_epoch (reads 15)).toNat else (io_now_epoch (reads 15)).toNat - 2^16) := by
  have first := (io_now_epoch (reads 14)).toNat_lt
  have order := UInt32.le_iff_toNat_le.mp forward
  have hi : (io_read_holding HOLDING_TIMESTAMP_HI_IDX (reads 14)).toNat = (io_now_epoch (reads 14)).toNat / 2^16 := by
    have value : io_read_holding HOLDING_TIMESTAMP_HI_IDX (reads 14) = (io_now_epoch (reads 14) >>> 16).toUInt16 := rfl
    rw [value, UInt32.toNat_toUInt16, UInt32.toNat_shiftRight]
    have shift : (16 : UInt32).toNat % 32 = 16 := rfl
    rw [shift, Nat.shiftRight_eq_div_pow]
    omega
  have lo : (io_read_holding HOLDING_TIMESTAMP_LO_IDX (reads 15)).toNat = (io_now_epoch (reads 15)).toNat % 2^16 :=
    UInt32.toNat_toUInt16 _
  rw [time_read, fmtTs, hi, lo, date]
  have same : (io_now_epoch (reads 14)).toNat / 2^16 * 2^16 % 2^32 + (io_now_epoch (reads 15)).toNat % 2^16 % 2^16 =
      if (io_now_epoch (reads 14)).toNat / 2^16 = (io_now_epoch (reads 15)).toNat / 2^16 then (io_now_epoch (reads 15)).toNat
      else (io_now_epoch (reads 15)).toNat - 2^16 := by
    split <;> omega
  rw [same]

/-- The form as the registers were when they were read. -/
def form_read : Form :=
  let h (a : Nat) : Option Value := some (.number (io_read_holding a (reads a)).toNat)
  { cfIp1 := shown (h 0x0A), cfIp2 := shown (h 0x0B), cfIp3 := shown (h 0x0C), cfIp4 := shown (h 0x0D)
    cfRs := selected RS485_OPTIONS (h 0x08), cfSid := shown (h 0x09)
    cfCanB := selected CAN_OPTIONS (h 0x07), cfCanId := shown (h 0x06) }

theorem filled_value : filled (regs_value reads) = form_read reads := by
  have holding {a : Nat} (inside : a < MODBUS_HOLDING_REGISTER_NUMBERS) := holding_value reads inside
  rw [filled, form_read]
  simp only [holding (show 0x0A < MODBUS_HOLDING_REGISTER_NUMBERS by decide),
    holding (show 0x0B < MODBUS_HOLDING_REGISTER_NUMBERS by decide), holding (show 0x0C < MODBUS_HOLDING_REGISTER_NUMBERS by decide),
    holding (show 0x0D < MODBUS_HOLDING_REGISTER_NUMBERS by decide), holding (show 0x08 < MODBUS_HOLDING_REGISTER_NUMBERS by decide),
    holding (show 0x09 < MODBUS_HOLDING_REGISTER_NUMBERS by decide), holding (show 0x07 < MODBUS_HOLDING_REGISTER_NUMBERS by decide),
    holding (show 0x06 < MODBUS_HOLDING_REGISTER_NUMBERS by decide)]

/-- What the registers come to on the page. -/
def with_regs (p : Page) : Page :=
  let p := { p with regs := some (regs_value reads) }
  if p.curTab = .rg then { p with table := some (table_read reads) }
  else if p.curTab = .cf ∧ p.cfgDirty = false ∧ p.cfgWriting = false then { p with form := form_read reads }
  else p

theorem onmessage_regs {bufsz : Nat} {m : Memory} {built : Int × Memory} (whole : Whole bufsz m (text (regs_value reads)) built)
    (p : Page) : onmessage (sent built) p = with_regs reads p := by
  have type : (regs_value reads).get (ascii "t") = some (.string (ascii "regs")) := rfl
  have not_io : Is (ascii "io") (some (.string (ascii "regs"))) = false := rfl
  have is_regs : Is (ascii "regs") (some (.string (ascii "regs"))) = true := rfl
  rw [onmessage, parse_sent whole (plain_regs reads), with_regs]
  simp only [type, Option.isNone_some, Bool.false_eq_true, if_false, not_io, is_regs, if_true, renderRegs_value]
  cases tab : p.curTab with
  | cf =>
    simp only [fillCfgForm, filled_value, Bool.and_eq_true, Bool.not_eq_true', reduceCtorEq, if_false, if_true, true_and]
  | rg => rfl
  | ov | io | hi | fw => rfl

/-- The registers are put together within either buffer, and the page shows of each what its read returned. The time
    is that of the second half's read, as long as no multiple of 65536 s has come since the first half was read;
    if one has, it is 65536 s before that. -/
theorem regs_shown {bufsz : Nat} (size : bufsz = HTTP_BODY_BUF ∨ bufsz = WS_TX_BUF) (m : Memory) (p : Page) :
    let built := web_build_regs_json bufsz reads m
    let first := (io_now_epoch (reads 14)).toNat
    let second := (io_now_epoch (reads 15)).toNat
    0 ≤ built.1 ∧ built.1 < bufsz ∧ (∀ a, bufsz ≤ a → built.2 a = m a) ∧ onmessage (sent built) p = with_regs reads p ∧
      (first ≤ second ∧ second < first + 2^16 →
        time_read reads = date (if first / 2^16 = second / 2^16 then second else second - 2^16)) := by
  intro built first second
  obtain ⟨large, object⟩ := buffer_bounds size
  have whole := regs_printed object reads m (Nat.le_trans (by decide) large)
  refine ⟨whole.within.1, whole.within.2, whole.behind, onmessage_regs reads whole p, ?_⟩
  rintro ⟨forward, soon⟩
  exact time_shown reads (UInt32.le_iff_toNat_le.mpr forward) soon

/-- The second half is read one second after a multiple of 65536 s. -/
theorem regs_shown_changing :
    onmessage (sent (web_build_regs_json WS_TX_BUF changing fun _ => 0)) opened_page = with_regs changing opened_page ∧
      time_read changing = some 1699938304 := by
  obtain ⟨-, -, -, page, time⟩ := regs_shown changing (.inr rfl) (fun _ => 0) opened_page
  exact ⟨page, time (by decide)⟩

theorem info_type (build : Build) (around : Surroundings) :
    (info_value build reads around).get (ascii "t") = some (.string (ascii "info")) := by
  refine get_first ?_ _
  simp only [List.map_cons, List.map_nil]
  decide

/-- It is whole on the page if the version has at most 309 characters. -/
theorem info_shown {bufsz : Nat} (size : bufsz = HTTP_BODY_BUF ∨ bufsz = WS_TX_BUF) {build : Build}
    (short : build.version.length ≤ 309) (around : Surroundings) (m : Memory) (p : Page) :
    let built := web_build_info_json bufsz build reads around m
    0 ≤ built.1 ∧ built.1 < bufsz ∧ (∀ a, bufsz ≤ a → built.2 a = m a) ∧
      onmessage (sent built) p = { p with info := some (info_value build reads around) } := by
  intro built
  obtain ⟨large, object⟩ := buffer_bounds size
  have fits : 394 + build.version.length < bufsz := by omega
  have whole := info_printed object reads m fits around
  have type := info_type reads build around
  have not_io : Is (ascii "io") (some (.string (ascii "info"))) = false := rfl
  have not_regs : Is (ascii "regs") (some (.string (ascii "info"))) = false := rfl
  have is_info : Is (ascii "info") (some (.string (ascii "info"))) = true := rfl
  refine ⟨whole.within.1, whole.within.2, whole.behind, ?_⟩
  rw [onmessage, parse_sent whole (plain_info build reads around)]
  simp only [type, Option.isNone_some, Bool.false_eq_true, if_false, not_io, not_regs, is_info, if_true]

end

def first_build : Build where
  FW_VERSION_MAJOR := 0
  FW_VERSION_MINOR := 3
  FW_VERSION_PATCH := 0
  FW_GIT_VERSION := ascii "000000"
  date := ascii "Jan  1 2026"
  time := ascii "12:00:00"
  date_length := rfl
  time_length := rfl
  printable := by decide +kernel

def unplugged : Surroundings where
  mac := none
  link_up := false
  lfs_free := 0
  lfs_total := 0
  tick_ms := 0

theorem info_shown_first :
    (onmessage (sent (web_build_info_json HTTP_BODY_BUF first_build changing unplugged fun _ => 0)) opened_page).info =
      some (info_value first_build changing unplugged) := by
  have short : first_build.version.length ≤ 309 := by decide
  exact congrArg Page.info (info_shown changing (.inl rfl) short unplugged (fun _ => 0) opened_page).2.2.2

end IoEdgeHub.WebPage
