import IoEdgeHub.HistoryListing
import IoEdgeHub.JsonValues
import IoEdgeHub.Regmap

/-!
The JSON texts in which the web server shows the device (`web_build_io_json`,
`web_build_regs_json` and `web_build_info_json` in `web/web_cmds.c`). Registers are read one by
one while other tasks write them, so a text says what each read returned, and the reads may
be of different moments: `reads k` is the device when the read number `k` is made.

Each builder puts the text of a JSON value into its buffer, whole and within the buffer
(`io_printed`, `regs_printed`, `info_printed`); reading it gives the value back.
-/
namespace IoEdgeHub.WebSnapshots
open IoEdgeHub.CStrings (ascii decimal)
open IoEdgeHub.HistoryListing (Memory Out append Holds int_bufsz append_holds intercalate_concat)
open IoEdgeHub.JsonValues IoEdgeHub.Regmap

def AI_NUM : Nat := 4

/-- The body of a response of the HTTP server. -/
def HTTP_BODY_BUF : Nat := 704

/-- A frame to the WebSocket. -/
def WS_TX_BUF : Nat := 768

/-- What the build puts into the firmware: the version, and `__DATE__` and `__TIME__`. -/
structure Build where
  FW_VERSION_MAJOR : Nat
  FW_VERSION_MINOR : Nat
  FW_VERSION_PATCH : Nat
  FW_GIT_VERSION : List UInt8
  date : List UInt8
  time : List UInt8
  date_length : date.length = 11
  time_length : time.length = 8
  printable : ∀ c ∈ FW_GIT_VERSION ++ date ++ time, plain c = true

/-- What is read besides the registers: the address of the interface, the link, the file system and the tick
    counter. -/
structure Surroundings where
  mac : Option (Vector UInt8 6)
  link_up : Bool
  lfs_free : UInt64
  lfs_total : UInt64
  tick_ms : UInt32

/-- `v%d.%d.%d_%s` -/
def Build.version (build : Build) : List UInt8 :=
  ascii "v" ++ decimal build.FW_VERSION_MAJOR ++ ascii "." ++ decimal build.FW_VERSION_MINOR ++ ascii "." ++
    decimal build.FW_VERSION_PATCH ++ ascii "_" ++ build.FW_GIT_VERSION

/-- `%02x` -/
def hex_byte (b : UInt8) : List UInt8 :=
  [Nat.digitChar (b.toNat / 16), Nat.digitChar (b.toNat % 16)].map fun c => UInt8.ofNat c.toNat

def mac_str : Option (Vector UInt8 6) → List UInt8
  | none => ascii "00:00:00:00:00:00"
  | some mac => (ascii ":").intercalate (mac.toList.map hex_byte)

def boolean (b : Bool) : List UInt8 := ascii (if b then "true" else "false")

section
variable (bufsz : Nat)

/-- The loop that prints numbers, with a comma before each but the first. -/
def print_numbers (value : Nat → Nat) (count : Nat) (s : Out) : Out :=
  (List.range count).foldl (fun s i => append bufsz ((if i = 0 then [] else ascii ",") ++ decimal (value i)) s) s

/-- What is returned, and the memory. -/
def finish (s : Out) : Int × Memory := (if (s.n : Int) > int_bufsz bufsz then int_bufsz bufsz else s.n, s.mem)

def web_build_io_json (reads : Nat → Io) (tick_ms : UInt32) (m : Memory) : Int × Memory :=
  let di := get_input_reg INPUT_DI_IDX (reads 0)
  let do_v := get_holding_reg HOLDING_DO_IDX (reads 1)
  let di_en := get_holding_reg HOLDING_DI_ENABLE_IDX (reads 2)
  let ai_en := get_holding_reg HOLDING_AI_ENABLE_IDX (reads 3)
  let s := append bufsz (ascii "\x7b\"t\":\"io\",\"di\":[") ⟨0, m⟩
  let s := print_numbers bufsz (fun i => ((di >>> UInt16.ofNat i) &&& 1).toNat) DI_NUM s
  let s := append bufsz (ascii "],\"do\":[") s
  let s := print_numbers bufsz (fun i => ((do_v >>> UInt16.ofNat i) &&& 1).toNat) DO_NUM s
  let s := append bufsz (ascii "],\"ai\":[") s
  let s := print_numbers bufsz (fun i => (get_input_reg (INPUT_AI0_IDX + i) (reads (4 + i))).toNat) AI_NUM s
  finish bufsz <| append bufsz (ascii "],\"di_en\":" ++ decimal di_en.toNat ++ ascii ",\"ai_en\":" ++ decimal ai_en.toNat ++
    ascii ",\"ms\":" ++ decimal tick_ms.toNat ++ ascii "\x7d") s

def web_build_regs_json (reads : Nat → Io) (m : Memory) : Int × Memory :=
  let s := append bufsz (ascii "\x7b\"t\":\"regs\",\"holding\":[") ⟨0, m⟩
  let s := print_numbers bufsz (fun i => (io_read_holding i (reads i)).toNat) MODBUS_HOLDING_REGISTER_NUMBERS s
  let s := append bufsz (ascii "],\"input\":[") s
  let s := print_numbers bufsz (fun i => (get_input_reg i (reads (MODBUS_HOLDING_REGISTER_NUMBERS + i))).toNat)
    MODBUS_INPUT_REGISTER_NUMBERS s
  finish bufsz <| append bufsz (ascii "]\x7d") s

/-- The order in which the arguments of one call are read is not determined, and `reads` leaves it open. -/
def web_build_info_json (build : Build) (reads : Nat → Io) (around : Surroundings) (m : Memory) : Int × Memory :=
  let reg (k addr : Nat) : List UInt8 := decimal (get_holding_reg addr (reads k)).toNat
  finish bufsz <| append bufsz
    (ascii "\x7b\"t\":\"info\",\"version\":\"" ++ build.version ++
      ascii "\",\"build\":\"" ++ build.date ++ ascii " " ++ build.time ++
      ascii "\",\"board\":\"" ++ ascii "io_edge_f407vet6" ++
      ascii "\",\"hclk_mhz\":" ++ decimal 168 ++ ascii ",\"flash_kb\":" ++ decimal 512 ++ ascii ",\"sram_kb\":" ++ decimal 192 ++
      ascii ",\"mac\":\"" ++ mac_str around.mac ++
      ascii "\",\"ip\":\"" ++ reg 0 HOLDING_IP_OCTET1_IDX ++ ascii "." ++ reg 1 HOLDING_IP_OCTET2_IDX ++
      ascii "." ++ reg 2 HOLDING_IP_OCTET3_IDX ++ ascii "." ++ reg 3 HOLDING_IP_OCTET4_IDX ++
      ascii "\",\"slave_id\":" ++ reg 4 HOLDING_SLAVE_ID_IDX ++ ascii ",\"rs485_baud\":" ++ reg 5 HOLDING_RS485_BAUDRATE_IDX ++
      ascii ",\"can_id\":" ++ reg 6 HOLDING_CAN_ID_IDX ++ ascii ",\"can_baud\":" ++ reg 7 HOLDING_CAN_BAUDRATE_IDX ++
      ascii ",\"uptime_ms\":" ++ decimal around.tick_ms.toNat ++ ascii ",\"time\":" ++ decimal (io_now_epoch (reads 8)).toNat ++
      ascii ",\"hist_en\":" ++ decimal (if get_holding_reg HOLDING_HISTORY_ENABLE_IDX (reads 9) ≠ 0 then 1 else 0) ++
      ascii ",\"lfs_free\":" ++ decimal around.lfs_free.toUInt32.toNat ++
      ascii ",\"lfs_total\":" ++ decimal around.lfs_total.toUInt32.toNat ++
      ascii ",\"net_up\":" ++ boolean around.link_up ++
      ascii ",\"di_ms\":" ++ reg 10 HOLDING_DI_SAMPLE_MS_IDX ++ ascii ",\"ai_ms\":" ++ reg 11 HOLDING_AI_SAMPLE_MS_IDX ++
      ascii "\x7d") ⟨0, m⟩

end

/-- The bytes of a buffer that a builder's answer says are to be sent. -/
def sent (built : Int × Memory) : List UInt8 := (List.range built.1.toNat).map built.2

/-- The text so far stands at the start of the buffer, and the memory behind the buffer is as it was. -/
structure Printed (bufsz : Nat) (m : Memory) (text : List UInt8) (s : Out) : Prop where
  n : s.n = text.length
  holds : text = [] ∨ Holds s.mem text
  behind : ∀ a, bufsz ≤ a → s.mem a = m a

section
variable {bufsz : Nat} {m : Memory} {text more : List UInt8} {s : Out}

theorem printed_nil (bufsz : Nat) (m : Memory) : Printed bufsz m [] ⟨0, m⟩ := ⟨rfl, .inl rfl, fun _ _ => rfl⟩

theorem append_printed (object : bufsz < 2^31) (printed : Printed bufsz m text s) (fits : (text ++ more).length < bufsz) :
    Printed bufsz m (text ++ more) (append bufsz more s) := by
  obtain ⟨n, holds, behind⟩ := append_holds object (List.length_append ▸ fits) printed.n printed.holds
  exact ⟨n, .inr holds, fun a past => (behind a past).trans (printed.behind a past)⟩

/-- What fits as a whole fits in part. -/
theorem fits_before (fits : (text ++ more).length < bufsz) : text.length < bufsz := by
  rw [List.length_append] at fits
  omega

/-- Numbers with commas between them. -/
def numbers_text (value : Nat → Nat) (count : Nat) : List UInt8 := joined ((List.range count).map fun i => decimal (value i))

theorem numbers_text_succ (value : Nat → Nat) (count : Nat) :
    numbers_text value (count + 1) =
      numbers_text value count ++ ((if count = 0 then [] else ascii ",") ++ decimal (value count)) := by
  have comma : ascii "," = [44] := rfl
  have empty : ((List.range count).map fun i => decimal (value i)).isEmpty = decide (count = 0) := by
    cases count with
    | zero => rfl
    | succ count =>
      rw [List.range_succ_eq_map]
      rfl
  rw [numbers_text, List.range_succ, List.map_append, List.map_singleton, joined, intercalate_concat, empty, comma,
    numbers_text, joined]
  by_cases none_ : count = 0
  · rw [decide_eq_true none_, if_pos rfl, if_pos none_]
  · rw [decide_eq_false none_, if_neg Bool.false_ne_true, if_neg none_]

/-- Numbers of at most so many digits each. -/
theorem numbers_text_length {value : Nat → Nat} {digits : Nat} (count : Nat)
    (short : ∀ i < count, (decimal (value i)).length ≤ digits) :
    (numbers_text value count).length ≤ count * (digits + 1) := by
  induction count with
  | zero => exact Nat.zero_le _
  | succ count ih =>
    have before := ih fun i below => short i (Nat.lt_succ_of_lt below)
    have last := short count (Nat.lt_succ_self count)
    have comma : (if count = 0 then [] else ascii ",").length ≤ 1 := by split <;> decide
    rw [numbers_text_succ, List.length_append, List.length_append, Nat.succ_mul]
    omega

/-- The loop continues the text by its numbers. -/
theorem print_numbers_printed (object : bufsz < 2^31) (printed : Printed bufsz m text s) (value : Nat → Nat) (count : Nat)
    (fits : (text ++ numbers_text value count).length < bufsz) :
    Printed bufsz m (text ++ numbers_text value count) (print_numbers bufsz value count s) := by
  induction count with
  | zero =>
    have none_ : numbers_text value 0 = [] := rfl
    rw [none_, List.append_nil]
    exact printed
  | succ count ih =>
    rw [numbers_text_succ, ← List.append_assoc] at fits ⊢
    have before := ih (fits_before fits)
    have step : print_numbers bufsz value (count + 1) s =
        append bufsz ((if count = 0 then [] else ascii ",") ++ decimal (value count)) (print_numbers bufsz value count s) := by
      rw [print_numbers, List.range_succ, List.foldl_append]
      rfl
    rw [step]
    exact append_printed object before fits

end

theorem decimal_length {n digits : Nat} (some_ : 0 < digits) (small : n < 10^digits) : (decimal n).length ≤ digits := by
  rw [decimal, List.length_map]
  exact Nat.toDigits_length 10 _ digits some_ small

theorem word_length (w : UInt16) : (decimal w.toNat).length ≤ 5 :=
  decimal_length (by decide) (w.toNat_lt.trans (by decide))

theorem long_length (w : UInt32) : (decimal w.toNat).length ≤ 10 :=
  decimal_length (by decide) (w.toNat_lt.trans (by decide))

theorem bit_length (w : UInt16) (i : Nat) : (decimal ((w >>> UInt16.ofNat i) &&& 1).toNat).length ≤ 1 := by
  refine decimal_length (by decide) ?_
  have small : ((w >>> UInt16.ofNat i) &&& 1).toNat ≤ 1 := by
    rw [UInt16.toNat_and]
    exact Nat.and_le_right
  omega

section
variable {bufsz : Nat} {m : Memory} {text : List UInt8} {s : Out}

/-- A text that is whole in the buffer is what is sent, and nothing is written behind the buffer. -/
structure Whole (bufsz : Nat) (m : Memory) (text : List UInt8) (built : Int × Memory) : Prop where
  n : built.1 = text.length
  fits : text.length < bufsz
  sent : sent built = text
  behind : ∀ a, bufsz ≤ a → built.2 a = m a

theorem Whole.within {built : Int × Memory} (whole : Whole bufsz m text built) : 0 ≤ built.1 ∧ built.1 < bufsz := by
  rw [whole.n]
  exact ⟨Int.natCast_nonneg _, Int.ofNat_lt.mpr whole.fits⟩

theorem finish_whole (object : bufsz < 2^31) (printed : Printed bufsz m text s) (some_ : text ≠ []) (fits : text.length < bufsz) :
    Whole bufsz m text (finish bufsz s) := by
  have int : int_bufsz bufsz = (bufsz : Int) := if_pos object
  have below : ¬ (s.n : Int) > int_bufsz bufsz := by
    rw [int, printed.n]
    omega
  have n : (finish bufsz s).1 = text.length := by
    rw [finish, if_neg below, printed.n]
  have holds := printed.holds.resolve_left some_
  refine ⟨n, fits, ?_, printed.behind⟩
  rw [sent, n, Int.toNat_natCast]
  refine List.ext_getElem (by simp) ?_
  intro i _ inside
  rw [List.getElem_map, List.getElem_range]
  exact (holds.1 i inside).trans (List.getD_eq_getElem _ _ inside)

end

def number_items (value : Nat → Nat) (count : Nat) : List Value := (List.range count).map fun i => .number (value i)

theorem text_numbers (value : Nat → Nat) (count : Nat) :
    text (.array (number_items value count)) = 91 :: (numbers_text value count ++ [93]) := by
  rw [text_array, number_items, numbers_text, List.map_map]
  rfl

theorem plain_numbers (value : Nat → Nat) (count : Nat) : Plain (.array (number_items value count)) := by
  refine .array ?_
  intro v member
  obtain ⟨i, -, rfl⟩ := List.mem_map.mp member
  exact .number _

/-- What the reads say, as one value. -/
def io_value (reads : Nat → Io) (tick_ms : UInt32) : Value :=
  .object [(ascii "t", .string (ascii "io")),
    (ascii "di", .array (number_items (fun i => ((get_input_reg INPUT_DI_IDX (reads 0) >>> UInt16.ofNat i) &&& 1).toNat) DI_NUM)),
    (ascii "do", .array (number_items (fun i => ((get_holding_reg HOLDING_DO_IDX (reads 1) >>> UInt16.ofNat i) &&& 1).toNat)
      DO_NUM)),
    (ascii "ai", .array (number_items (fun i => (get_input_reg (INPUT_AI0_IDX + i) (reads (4 + i))).toNat) AI_NUM)),
    (ascii "di_en", .number (get_holding_reg HOLDING_DI_ENABLE_IDX (reads 2)).toNat),
    (ascii "ai_en", .number (get_holding_reg HOLDING_AI_ENABLE_IDX (reads 3)).toNat),
    (ascii "ms", .number tick_ms.toNat)]

def regs_value (reads : Nat → Io) : Value :=
  .object [(ascii "t", .string (ascii "regs")),
    (ascii "holding", .array (number_items (fun i => (io_read_holding i (reads i)).toNat) MODBUS_HOLDING_REGISTER_NUMBERS)),
    (ascii "input", .array (number_items
      (fun i => (get_input_reg i (reads (MODBUS_HOLDING_REGISTER_NUMBERS + i))).toNat) MODBUS_INPUT_REGISTER_NUMBERS))]

def info_value (build : Build) (reads : Nat → Io) (around : Surroundings) : Value :=
  let reg (k addr : Nat) : Value := .number (get_holding_reg addr (reads k)).toNat
  let octet (k addr : Nat) : List UInt8 := decimal (get_holding_reg addr (reads k)).toNat
  .object [(ascii "t", .string (ascii "info")),
    (ascii "version", .string build.version),
    (ascii "build", .string (build.date ++ ascii " " ++ build.time)),
    (ascii "board", .string (ascii "io_edge_f407vet6")),
    (ascii "hclk_mhz", .number 168), (ascii "flash_kb", .number 512), (ascii "sram_kb", .number 192),
    (ascii "mac", .string (mac_str around.mac)),
    (ascii "ip", .string (octet 0 HOLDING_IP_OCTET1_IDX ++ ascii "." ++ octet 1 HOLDING_IP_OCTET2_IDX ++ ascii "." ++
      octet 2 HOLDING_IP_OCTET3_IDX ++ ascii "." ++ octet 3 HOLDING_IP_OCTET4_IDX)),
    (ascii "slave_id", reg 4 HOLDING_SLAVE_ID_IDX), (ascii "rs485_baud", reg 5 HOLDING_RS485_BAUDRATE_IDX),
    (ascii "can_id", reg 6 HOLDING_CAN_ID_IDX), (ascii "can_baud", reg 7 HOLDING_CAN_BAUDRATE_IDX),
    (ascii "uptime_ms", .number around.tick_ms.toNat), (ascii "time", .number (io_now_epoch (reads 8)).toNat),
    (ascii "hist_en", .number (if get_holding_reg HOLDING_HISTORY_ENABLE_IDX (reads 9) ≠ 0 then 1 else 0)),
    (ascii "lfs_free", .number around.lfs_free.toUInt32.toNat), (ascii "lfs_total", .number around.lfs_total.toUInt32.toNat),
    (ascii "net_up", .flag around.link_up),
    (ascii "di_ms", reg 10 HOLDING_DI_SAMPLE_MS_IDX), (ascii "ai_ms", reg 11 HOLDING_AI_SAMPLE_MS_IDX)]

/-- The text that the builder puts together is that of the value. -/
theorem io_text (reads : Nat → Io) (tick_ms : UInt32) :
    text (io_value reads tick_ms) =
      ascii "\x7b\"t\":\"io\",\"di\":[" ++
        numbers_text (fun i => ((get_input_reg INPUT_DI_IDX (reads 0) >>> UInt16.ofNat i) &&& 1).toNat) DI_NUM ++
        ascii "],\"do\":[" ++
        numbers_text (fun i => ((get_holding_reg HOLDING_DO_IDX (reads 1) >>> UInt16.ofNat i) &&& 1).toNat) DO_NUM ++
        ascii "],\"ai\":[" ++ numbers_text (fun i => (get_input_reg (INPUT_AI0_IDX + i) (reads (4 + i))).toNat) AI_NUM ++
        (ascii "],\"di_en\":" ++ decimal (get_holding_reg HOLDING_DI_ENABLE_IDX (reads 2)).toNat ++ ascii ",\"ai_en\":" ++
          decimal (get_holding_reg HOLDING_AI_ENABLE_IDX (reads 3)).toNat ++ ascii ",\"ms\":" ++ decimal tick_ms.toNat ++
          ascii "\x7d") := by
  rw [io_value, text_object]
  simp only [List.map_cons, List.map_nil, field_text, text_numbers, text_string, text_number, joined_cons]
  generalize numbers_text _ DI_NUM = di, numbers_text _ DO_NUM = dout, numbers_text _ AI_NUM = ai
  simp [joined, quoted, ascii, List.intercalate]

theorem regs_text (reads : Nat → Io) :
    text (regs_value reads) =
      ascii "\x7b\"t\":\"regs\",\"holding\":[" ++
        numbers_text (fun i => (io_read_holding i (reads i)).toNat) MODBUS_HOLDING_REGISTER_NUMBERS ++ ascii "],\"input\":[" ++
        numbers_text (fun i => (get_input_reg i (reads (MODBUS_HOLDING_REGISTER_NUMBERS + i))).toNat)
          MODBUS_INPUT_REGISTER_NUMBERS ++ ascii "]\x7d" := by
  rw [regs_value, text_object]
  simp only [List.map_cons, List.map_nil, field_text, text_numbers, text_string, joined_cons]
  generalize numbers_text _ MODBUS_HOLDING_REGISTER_NUMBERS = holding, numbers_text _ MODBUS_INPUT_REGISTER_NUMBERS = input
  simp [joined, quoted, ascii, List.intercalate]

theorem text_flag (b : Bool) : text (.flag b) = boolean b := by
  cases b <;> rfl

set_option maxRecDepth 8192 in
theorem info_built (bufsz : Nat) (build : Build) (reads : Nat → Io) (around : Surroundings) (m : Memory) :
    web_build_info_json bufsz build reads around m =
      finish bufsz (append bufsz (text (info_value build reads around)) ⟨0, m⟩) := by
  refine congrArg (fun t => finish bufsz (append bufsz t ⟨0, m⟩)) ?_
  rw [info_value, text_object]
  simp only [List.map_cons, List.map_nil, field_text, text_string, text_number, text_flag, joined_cons]
  simp [joined, quoted, ascii, List.intercalate]

theorem intercalate_length (sep : UInt8) {size : Nat} {ts : List (List UInt8)} (each : ∀ t ∈ ts, t.length = size) :
    ([sep].intercalate ts).length = ts.length * (size + 1) - 1 := by
  induction ts with
  | nil => rw [List.length_nil, Nat.zero_mul]; rfl
  | cons t ts ih =>
    have first := each t List.mem_cons_self
    have rest := ih fun u member => each u (List.mem_cons_of_mem t member)
    cases ts with
    | nil =>
      have alone : [sep].intercalate [t] = t := List.append_nil t
      rw [alone, first, List.length_singleton]
      omega
    | cons u us =>
      rw [List.intercalate_cons_cons, List.length_append, List.length_append, rest, first]
      simp only [List.length_cons, List.length_nil, Nat.succ_mul]
      omega

theorem mac_length (mac : Option (Vector UInt8 6)) : (mac_str mac).length = 17 := by
  cases mac with
  | none => rfl
  | some mac =>
    have two : ∀ t ∈ mac.toList.map hex_byte, t.length = 2 := by
      intro t member
      obtain ⟨b, -, rfl⟩ := List.mem_map.mp member
      rfl
    have six : (mac.toList.map hex_byte).length = 6 := by rw [List.length_map, Vector.length_toList]
    have length := intercalate_length 58 two
    rw [six] at length
    exact length

set_option maxRecDepth 8192 in
/-- The longest text: 236 fixed characters, the version, and what the other fields take at most. -/
theorem info_length (build : Build) (reads : Nat → Io) (around : Surroundings) :
    (text (info_value build reads around)).length ≤ 394 + build.version.length := by
  have reg (k addr : Nat) := word_length (get_holding_reg addr (reads k))
  have octets := And.intro (reg 0 HOLDING_IP_OCTET1_IDX) (And.intro (reg 1 HOLDING_IP_OCTET2_IDX)
    (And.intro (reg 2 HOLDING_IP_OCTET3_IDX) (reg 3 HOLDING_IP_OCTET4_IDX)))
  have bus := And.intro (reg 4 HOLDING_SLAVE_ID_IDX) (And.intro (reg 5 HOLDING_RS485_BAUDRATE_IDX)
    (And.intro (reg 6 HOLDING_CAN_ID_IDX) (reg 7 HOLDING_CAN_BAUDRATE_IDX)))
  have sampling := And.intro (reg 10 HOLDING_DI_SAMPLE_MS_IDX) (reg 11 HOLDING_AI_SAMPLE_MS_IDX)
  have uptime := long_length around.tick_ms
  have epoch := long_length (io_now_epoch (reads 8))
  have free := long_length around.lfs_free.toUInt32
  have total := long_length around.lfs_total.toUInt32
  have en : (decimal (if get_holding_reg HOLDING_HISTORY_ENABLE_IDX (reads 9) ≠ 0 then 1 else 0)).length = 1 := by
    split <;> rfl
  have up : (boolean around.link_up).length ≤ 5 := by
    cases around.link_up <;> decide
  have fixed : (decimal 168).length = 3 ∧ (decimal 512).length = 3 ∧ (decimal 192).length = 3 := by decide
  have mac := mac_length around.mac
  have date := build.date_length
  have time := build.time_length
  rw [info_value, text_object]
  simp only [List.map_cons, List.map_nil, field_text, text_string, text_number, text_flag, joined_cons]
  generalize around.lfs_free.toUInt32.toNat = lfs_free, around.lfs_total.toUInt32.toNat = lfs_total,
    (if get_holding_reg HOLDING_HISTORY_ENABLE_IDX (reads 9) ≠ 0 then 1 else 0) = hist_en at *
  simp [joined, quoted, ascii, List.intercalate]
  omega

theorem plain_decimal (n : Nat) : ∀ c ∈ decimal n, plain c = true := by
  intro c member
  have bounds := CStrings.isdigit_bounds ((Numerals.decimal_digits n).1 c member)
  simp only [plain, Bool.and_eq_true, decide_eq_true_eq, UInt8.le_iff_toNat_le, UInt8.lt_iff_toNat_lt, ← UInt8.toNat_inj,
    ne_eq, UInt8.reduceToNat]
  omega

theorem plain_hex : ∀ b : UInt8, ∀ c ∈ hex_byte b, plain c = true := by
  have digits : ∀ d < 16, plain (UInt8.ofNat (Nat.digitChar d).toNat) = true := by decide
  intro b c member
  have high : b.toNat / 16 < 16 := by
    have small := b.toNat_lt
    omega
  simp only [hex_byte, List.map_cons, List.map_nil, List.mem_cons, List.not_mem_nil, or_false] at member
  rcases member with rfl | rfl
  · exact digits _ high
  · exact digits _ (Nat.mod_lt _ (by decide))

theorem plain_intercalate {sep : UInt8} (between : plain sep = true) {ts : List (List UInt8)}
    (each : ∀ t ∈ ts, ∀ c ∈ t, plain c = true) : ∀ c ∈ [sep].intercalate ts, plain c = true := by
  induction ts with
  | nil =>
    intro c member
    cases member
  | cons t ts ih =>
    have first := each t List.mem_cons_self
    have rest := ih fun u member => each u (List.mem_cons_of_mem t member)
    cases ts with
    | nil =>
      have alone : [sep].intercalate [t] = t := List.append_nil t
      rwa [alone]
    | cons u us =>
      rw [List.intercalate_cons_cons]
      simp only [List.forall_mem_append, List.forall_mem_singleton]
      exact ⟨⟨first, between⟩, rest⟩

theorem plain_mac (mac : Option (Vector UInt8 6)) : ∀ c ∈ mac_str mac, plain c = true := by
  cases mac with
  | none => decide
  | some mac =>
    refine plain_intercalate (by decide) ?_
    intro t member
    obtain ⟨b, -, rfl⟩ := List.mem_map.mp member
    exact plain_hex b

theorem plain_io (reads : Nat → Io) (tick_ms : UInt32) : Plain (io_value reads tick_ms) := by
  refine .object ?_ ?_
  · simp only [List.map_cons, List.map_nil]
    decide
  · simp only [List.forall_mem_cons]
    exact ⟨.string (by decide), plain_numbers _ _, plain_numbers _ _, plain_numbers _ _, .number _, .number _, .number _,
      fun _ none_ => by cases none_⟩

theorem plain_regs (reads : Nat → Io) : Plain (regs_value reads) := by
  refine .object ?_ ?_
  · simp only [List.map_cons, List.map_nil]
    decide
  · simp only [List.forall_mem_cons]
    exact ⟨.string (by decide), plain_numbers _ _, plain_numbers _ _, fun _ none_ => by cases none_⟩

theorem plain_info (build : Build) (reads : Nat → Io) (around : Surroundings) : Plain (info_value build reads around) := by
  have printable := build.printable
  simp only [List.forall_mem_append] at printable
  obtain ⟨⟨git, date⟩, time⟩ := printable
  have dot : ∀ c ∈ ascii ".", plain c = true := by decide
  have version : ∀ c ∈ build.version, plain c = true := by
    simp only [Build.version, List.forall_mem_append]
    exact ⟨⟨⟨⟨⟨⟨⟨by decide, plain_decimal _⟩, dot⟩, plain_decimal _⟩, dot⟩, plain_decimal _⟩, by decide⟩, git⟩
  refine .object ?_ ?_
  · simp only [List.map_cons, List.map_nil]
    decide
  · simp only [List.forall_mem_cons]
    refine ⟨.string (by decide), .string version, .string ?_, .string (by decide), .number _, .number _, .number _,
      .string (plain_mac _), .string ?_, .number _, .number _, .number _, .number _, .number _, .number _, .number _, .number _,
      .number _, .flag _, .number _, .number _, fun _ none_ => by cases none_⟩
    · simp only [List.forall_mem_append]
      exact ⟨⟨date, by decide⟩, time⟩
    · simp only [List.forall_mem_append]
      exact ⟨⟨⟨⟨⟨⟨plain_decimal _, dot⟩, plain_decimal _⟩, dot⟩, plain_decimal _⟩, dot⟩, plain_decimal _⟩

/-! ### The builders -/

section
variable {bufsz : Nat} (object : bufsz < 2^31) (reads : Nat → Io) (m : Memory)
include object

theorem io_printed (large : 192 ≤ bufsz) (tick_ms : UInt32) :
    Whole bufsz m (text (io_value reads tick_ms)) (web_build_io_json bufsz reads tick_ms m) := by
  have di := numbers_text_length DI_NUM fun i _ => bit_length (get_input_reg INPUT_DI_IDX (reads 0)) i
  have dout := numbers_text_length DO_NUM fun i _ => bit_length (get_holding_reg HOLDING_DO_IDX (reads 1)) i
  have ai := numbers_text_length AI_NUM fun i _ => word_length (get_input_reg (INPUT_AI0_IDX + i) (reads (4 + i)))
  have di_en := word_length (get_holding_reg HOLDING_DI_ENABLE_IDX (reads 2))
  have ai_en := word_length (get_holding_reg HOLDING_AI_ENABLE_IDX (reads 3))
  have ms := long_length tick_ms
  have literals : (ascii "\x7b\"t\":\"io\",\"di\":[").length = 16 ∧ (ascii "],\"do\":[").length = 8 ∧
      (ascii "],\"ai\":[").length = 8 ∧ (ascii "],\"di_en\":").length = 10 ∧ (ascii ",\"ai_en\":").length = 9 ∧
      (ascii ",\"ms\":").length = 6 ∧ (ascii "\x7d").length = 1 := by decide
  have counts : DI_NUM * (1 + 1) = 32 ∧ DO_NUM * (1 + 1) = 16 ∧ AI_NUM * (5 + 1) = 24 := by decide
  have some_ : text (io_value reads tick_ms) ≠ [] := List.cons_ne_nil _ _
  have fits : (text (io_value reads tick_ms)).length < bufsz := by
    rw [io_text]
    simp only [List.length_append]
    omega
  rw [io_text] at some_ fits ⊢
  have head := append_printed object (printed_nil bufsz m)
    (fits_before (fits_before (fits_before (fits_before (fits_before (fits_before fits))))))
  have inputs := print_numbers_printed object head _ DI_NUM
    (fits_before (fits_before (fits_before (fits_before (fits_before fits)))))
  have outputs := print_numbers_printed object
    (append_printed object inputs (fits_before (fits_before (fits_before (fits_before fits))))) _ DO_NUM
    (fits_before (fits_before (fits_before fits)))
  have analog := print_numbers_printed object (append_printed object outputs (fits_before (fits_before fits))) _ AI_NUM
    (fits_before fits)
  exact finish_whole object (append_printed object analog fits) some_ fits

theorem regs_printed (large : 192 ≤ bufsz) :
    Whole bufsz m (text (regs_value reads)) (web_build_regs_json bufsz reads m) := by
  have holding := numbers_text_length MODBUS_HOLDING_REGISTER_NUMBERS fun i _ => word_length (io_read_holding i (reads i))
  have input := numbers_text_length MODBUS_INPUT_REGISTER_NUMBERS
    fun i _ => word_length (get_input_reg i (reads (MODBUS_HOLDING_REGISTER_NUMBERS + i)))
  have literals : (ascii "\x7b\"t\":\"regs\",\"holding\":[").length = 23 ∧ (ascii "],\"input\":[").length = 11 ∧
      (ascii "]\x7d").length = 2 := by decide
  have counts : MODBUS_HOLDING_REGISTER_NUMBERS * (5 + 1) = 108 ∧ MODBUS_INPUT_REGISTER_NUMBERS * (5 + 1) = 36 := by decide
  have some_ : text (regs_value reads) ≠ [] := List.cons_ne_nil _ _
  have fits : (text (regs_value reads)).length < bufsz := by
    rw [regs_text]
    simp only [List.length_append]
    omega
  rw [regs_text] at some_ fits ⊢
  have head := append_printed object (printed_nil bufsz m) (fits_before (fits_before (fits_before (fits_before fits))))
  have first := print_numbers_printed object head _ MODBUS_HOLDING_REGISTER_NUMBERS
    (fits_before (fits_before (fits_before fits)))
  have second := print_numbers_printed object (append_printed object first (fits_before (fits_before fits))) _
    MODBUS_INPUT_REGISTER_NUMBERS (fits_before fits)
  exact finish_whole object (append_printed object second fits) some_ fits

theorem info_printed {build : Build} (large : 394 + build.version.length < bufsz) (around : Surroundings) :
    Whole bufsz m (text (info_value build reads around)) (web_build_info_json bufsz build reads around m) := by
  have fits : (text (info_value build reads around)).length < bufsz :=
    Nat.lt_of_le_of_lt (info_length build reads around) large
  rw [info_built]
  exact finish_whole object (append_printed object (printed_nil bufsz m) fits) (List.cons_ne_nil _ _) fits

end

end IoEdgeHub.WebSnapshots
