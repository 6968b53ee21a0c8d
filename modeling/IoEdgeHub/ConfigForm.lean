import IoEdgeHub.WebConfig
import IoEdgeHub.WebPage
import IoEdgeHub.WebTime

/-!
The form of the configuration, from the page (`applyCfg` and `fillCfgForm` in `web/index.html`)
to the registers and back. What is entered arrives in the registers over either way
(`settings_applied`). While the write is on its way the device goes on to send texts, and the
page goes on to take them; in every order of that the form shows what was entered, and once the
write is acknowledged so do the registers (`write_settles`).

Only 115200, an option of the form, is no value of a register: it comes back as 49664, which is
no option, and the field goes blank.
-/
namespace IoEdgeHub.ConfigForm
open IoEdgeHub.CStrings IoEdgeHub.Numerals IoEdgeHub.Json IoEdgeHub.Regmap IoEdgeHub.WebCmds IoEdgeHub.WebConfig
open IoEdgeHub.FlatObjects (Name Text Member Object no_blanks)
open IoEdgeHub.HistoryListing (Memory)
open IoEdgeHub.WebSnapshots IoEdgeHub.WebPage
open IoEdgeHub.WebTime (tight cmd_name)
open IoEdgeHub.Ws (WS_RX_MAX)

/-- The integer that `Number(…)` makes of a field, nothing if it is none. -/
def number_in : Entry → Option Int
  | .blank => some 0
  | .integer z => some z
  | .other => none

def ip_name : Name := ⟨ascii "ip", by decide +kernel⟩
def rs485_name : Name := ⟨ascii "rs485", by decide +kernel⟩
def sid_name : Name := ⟨ascii "sid", by decide +kernel⟩
def can_bps_name : Name := ⟨ascii "can_bps", by decide +kernel⟩
def can_id_name : Name := ⟨ascii "can_id", by decide +kernel⟩
def cfg_text : Text := ⟨ascii "cfg", by decide +kernel⟩

def integer_text (z : Int) : List UInt8 := signed (decide (z < 0)) z.natAbs

/-- `ip.join(".")` -/
def dotted (ip : List Int) : List UInt8 := [46].intercalate (ip.map integer_text)

theorem integer_text_plain (z : Int) : ∀ c ∈ integer_text z, JsonValues.plain c = true := by
  simp only [integer_text, signed, List.forall_mem_append]
  refine ⟨?_, plain_decimal _⟩
  split
  · exact List.forall_mem_singleton.mpr rfl
  · intro c none_
    cases none_

theorem dotted_plain (ip : List Int) : ∀ c ∈ dotted ip, JsonValues.plain c = true := by
  refine plain_intercalate (by decide) ?_
  intro t member
  obtain ⟨z, -, rfl⟩ := List.mem_map.mp member
  exact integer_text_plain z

theorem dotted_inner (ip : List Int) : ∀ c ∈ dotted ip, c ≠ 34 ∧ c ≠ 92 ∧ c ≠ 0 := by
  intro c member
  have plain_ := dotted_plain ip c member
  simp only [JsonValues.plain, Bool.and_eq_true, decide_eq_true_eq] at plain_
  refine ⟨plain_.1.2, plain_.2, ?_⟩
  rintro rfl
  exact absurd plain_.1.1.1 (by decide)

/-- The address as the string of a member. -/
def dotted_text (ip : List Int) : Text := ⟨dotted ip, dotted_inner ip⟩

def number_member (key : Name) (e : Entry) : List Member :=
  (number_in e).elim [] fun z => [tight key (.int (decide (z < 0)) z.natAbs)]

def ip_entries (f : Form) : List Entry := [f.cfIp1, f.cfIp2, f.cfIp3, f.cfIp4]

def ip_member (f : Form) : List Member :=
  if (ip_entries f).all fun e => (number_in e).isSome then
    [tight ip_name (.str (dotted_text ((ip_entries f).filterMap number_in)))]
  else []

/-- The fields that hold integers. -/
def cfg_members (f : Form) : List Member :=
  ip_member f ++ (number_member rs485_name f.cfRs ++ (number_member sid_name f.cfSid ++
    (number_member can_bps_name f.cfCanB ++ number_member can_id_name f.cfCanId)))

theorem number_member_key (key : Name) (e : Entry) : ((number_member key e).map (·.key)).Sublist [key] := by
  rw [number_member]
  cases number_in e with
  | none => exact List.nil_sublist _
  | some z => exact List.Sublist.refl _

theorem cfg_keys (f : Form) :
    ((cfg_members f).map (·.key)).Sublist [ip_name, rs485_name, sid_name, can_bps_name, can_id_name] := by
  have ip : ((ip_member f).map (·.key)).Sublist [ip_name] := by
    rw [ip_member]
    split
    · exact List.Sublist.refl _
    · exact List.nil_sublist _
  simp only [cfg_members, List.map_append]
  exact ip.append ((number_member_key _ _).append ((number_member_key _ _).append
    ((number_member_key _ _).append (number_member_key _ _))))

/-- The body of the request, where there is no WebSocket. -/
def cfg_body (f : Form) : Object where
  before := no_blanks
  opened := no_blanks
  members := cfg_members f
  closed := no_blanks
  distinct := (by decide : [ip_name, rs485_name, sid_name, can_bps_name, can_id_name].Nodup).sublist (cfg_keys f)

/-- The command over the WebSocket. -/
def cfg_frame (f : Form) : Object where
  before := no_blanks
  opened := no_blanks
  members := tight cmd_name (.str cfg_text) :: cfg_members f
  closed := no_blanks
  distinct := (by decide : [cmd_name, ip_name, rs485_name, sid_name, can_bps_name, can_id_name].Nodup).sublist
    ((cfg_keys f).cons_cons cmd_name)

/-- What can be entered in the form. -/
structure Settings where
  a : UInt8
  b : UInt8
  c : UInt8
  d : UInt8
  rs : Nat
  sid : Nat
  can_bps : Nat
  can_id : Nat
  address : ip_addr_valid a b c d = true
  rs_option : rs ∈ RS485_OPTIONS
  sid_range : 1 ≤ sid ∧ sid ≤ 247
  can_option : can_bps ∈ CAN_OPTIONS
  can_id_range : 1 ≤ can_id ∧ can_id ≤ 0x7FF

namespace Settings
variable (v : Settings)

def form : Form :=
  { cfIp1 := .integer v.a.toNat, cfIp2 := .integer v.b.toNat, cfIp3 := .integer v.c.toNat, cfIp4 := .integer v.d.toNat
    cfRs := .integer v.rs, cfSid := .integer v.sid, cfCanB := .integer v.can_bps, cfCanId := .integer v.can_id }

/-- The registers that they go to. -/
def regs : List (Nat × UInt16) :=
  [(HOLDING_IP_OCTET1_IDX, v.a.toUInt16), (HOLDING_IP_OCTET2_IDX, v.b.toUInt16), (HOLDING_IP_OCTET3_IDX, v.c.toUInt16),
    (HOLDING_IP_OCTET4_IDX, v.d.toUInt16), (HOLDING_RS485_BAUDRATE_IDX, UInt16.ofNat v.rs),
    (HOLDING_SLAVE_ID_IDX, UInt16.ofNat v.sid), (HOLDING_CAN_BAUDRATE_IDX, UInt16.ofNat v.can_bps),
    (HOLDING_CAN_ID_IDX, UInt16.ofNat v.can_id)]

/-- The registers have the values. -/
def Stand (s : Io) : Prop := ∀ r ∈ v.regs, get_holding_reg r.1 s = r.2

end Settings

theorem decimal_value (n : Nat) : (decimal n).foldl (fun v c => v * 10 + (c.toNat - 48)) 0 = n := by
  obtain ⟨all_digits, value, -⟩ := decimal_digits n
  have same : digits_value 10 (decimal n) = (decimal n).foldl (fun v c => v * 10 + (c.toNat - 48)) 0 := by
    refine List.foldl_ext _ _ 0 ?_
    intro v c member
    rw [digit_value, if_pos (all_digits c member)]
    rfl
  rw [← same, value]

/-- A number ends where no digit follows. -/
theorem strtoul_decimal {n : Nat} (small : n ≤ ULONG_MAX) {rest : List UInt8} (ends : rest.takeWhile isdigit = []) :
    strtoul (decimal n ++ rest) = some (n, rest) := by
  obtain ⟨all_digits, -, c, ds, shape, -⟩ := decimal_digits n
  have first := all_digits c (shape ▸ List.mem_cons_self)
  have unsigned : c ≠ 45 ∧ c ≠ 43 := by
    constructor <;> rintro rfl <;> cases first
  have start : (decimal n ++ rest).dropWhile isspace = decimal n ++ rest := by
    rw [shape, List.cons_append, List.dropWhile_cons_of_neg (by simp [isdigit_not_isspace first])]
  have head : (decimal n ++ rest).head? = some c := by rw [shape]; rfl
  have front : (decimal n ++ rest).takeWhile isdigit = decimal n := by
    rw [List.takeWhile_append_of_pos all_digits, ends, List.append_nil]
  have back : (decimal n ++ rest).dropWhile isdigit = rest := by
    have split := List.takeWhile_append_dropWhile (p := isdigit) (l := rest)
    rw [ends, List.nil_append] at split
    rw [List.dropWhile_append_of_pos all_digits, split]
  have some_ : decimal n ≠ [] := shape ▸ List.cons_ne_nil c ds
  unfold strtoul
  simp only [start, head, Option.some.injEq, unsigned, or_self, if_false, front, some_, decimal_value, back,
    Nat.not_lt.mpr small]

theorem octets_last (x : UInt8) : octets 1 (decimal x.toNat) = some [x] := by
  have small := x.toNat_lt
  have read := @strtoul_decimal x.toNat (Nat.le_trans (Nat.le_of_lt small) (by decide)) [] rfl
  rw [List.append_nil] at read
  have fine : ¬ (x.toNat > 255 ∨ 0 < 0 ∧ ([] : List UInt8).head? ≠ some 46) := by omega
  simp only [octets, read, if_neg fine, Option.map_some, UInt8.ofNat_toNat]

theorem octets_more (x : UInt8) (left : Nat) (rest : List UInt8) :
    octets (left + 2) (decimal x.toNat ++ 46 :: rest) = (octets (left + 1) rest).map fun more => x :: more := by
  have small := x.toNat_lt
  have ends : (46 :: rest).takeWhile isdigit = [] := List.takeWhile_cons_of_neg (by decide)
  have read := strtoul_decimal (n := x.toNat) (Nat.le_trans (Nat.le_of_lt small) (by decide)) ends
  have fine : ¬ (x.toNat > 255 ∨ 0 < left + 1 ∧ (46 :: rest).head? ≠ some 46) := by
    rintro (large | ⟨-, other⟩)
    · omega
    · exact other rfl
  rw [octets, read]
  simp only [if_neg fine, List.tail_cons, UInt8.ofNat_toNat]

section
variable (v : Settings)

theorem integer_text_nat (n : Nat) : integer_text (n : Int) = decimal n := by
  have sign : decide ((n : Int) < 0) = false := decide_eq_false (Int.not_lt.mpr (Int.natCast_nonneg n))
  rw [integer_text, sign, Int.natAbs_natCast]
  rfl

theorem octets_dotted : octets 4 (dotted [(v.a.toNat : Int), v.b.toNat, v.c.toNat, v.d.toNat]) = some [v.a, v.b, v.c, v.d] := by
  have shape : dotted [(v.a.toNat : Int), v.b.toNat, v.c.toNat, v.d.toNat] =
      decimal v.a.toNat ++ 46 :: (decimal v.b.toNat ++ 46 :: (decimal v.c.toNat ++ 46 :: decimal v.d.toNat)) := by
    simp [dotted, integer_text_nat, List.intercalate]
  rw [shape, octets_more, octets_more, octets_more, octets_last]
  rfl

/-- The members that settings make. -/
theorem settings_members :
    cfg_members v.form =
      [tight ip_name (.str (dotted_text [(v.a.toNat : Int), v.b.toNat, v.c.toNat, v.d.toNat])), tight rs485_name (.int false v.rs),
        tight sid_name (.int false v.sid), tight can_bps_name (.int false v.can_bps), tight can_id_name (.int false v.can_id)] := by
  have sign (n : Nat) : decide ((n : Int) < 0) = false := decide_eq_false (Int.not_lt.mpr (Int.natCast_nonneg n))
  have number (key : Name) (n : Nat) : number_member key (.integer n) = [tight key (.int false n)] := by
    rw [number_member, number_in, Option.elim_some, sign, Int.natAbs_natCast]
  have ip : ip_member v.form =
      [tight ip_name (.str (dotted_text [(v.a.toNat : Int), v.b.toNat, v.c.toNat, v.d.toNat]))] := rfl
  have split : cfg_members v.form = ip_member v.form ++ (number_member rs485_name (.integer v.rs) ++
      (number_member sid_name (.integer v.sid) ++ (number_member can_bps_name (.integer v.can_bps) ++
        number_member can_id_name (.integer v.can_id)))) := rfl
  rw [split, ip, number, number, number, number]
  rfl

theorem in_range : v.rs ≤ LONG_MAX ∧ v.sid ≤ LONG_MAX ∧ v.can_bps ≤ LONG_MAX ∧ v.can_id ≤ LONG_MAX := by
  have rs : v.rs ≤ 115200 := (by decide : ∀ n ∈ RS485_OPTIONS, n ≤ 115200) v.rs v.rs_option
  have can : v.can_bps ≤ 1000 := (by decide : ∀ n ∈ CAN_OPTIONS, n ≤ 1000) v.can_bps v.can_option
  have sid := v.sid_range
  have can_id := v.can_id_range
  simp only [LONG_MAX]
  omega

section
variable (after : List UInt8)

/-- A number of the body is read as it was entered. -/
theorem number_read {key : Name} {n : Nat} (member : tight key (.int false n) ∈ cfg_members v.form) (small : n ≤ LONG_MAX) :
    json_get_i32 ((cfg_body v.form).text ++ after) (cfg_body v.form).text.length key.1 = some (n : Int) := by
  have found := (FlatObjects.lookup_iff (cfg_body v.form) key (.int false n)).mpr ⟨_, member, rfl, rfl⟩
  rw [FlatObjects.json_get_i32_object, found, Option.bind_some, FlatObjects.Value.number, saturate, if_neg Bool.false_ne_true,
    Nat.min_eq_left small]

theorem ip_read :
    json_get_str ((cfg_body v.form).text ++ after) (cfg_body v.form).text.length ip_name.1 16 =
      (true, dotted [(v.a.toNat : Int), v.b.toNat, v.c.toNat, v.d.toNat]) := by
  have member : tight ip_name (.str (dotted_text [(v.a.toNat : Int), v.b.toNat, v.c.toNat, v.d.toNat])) ∈ cfg_members v.form := by
    rw [settings_members]
    exact List.mem_cons_self
  have found := (FlatObjects.lookup_iff (cfg_body v.form) ip_name _).mpr ⟨_, member, rfl, rfl⟩
  have length : (dotted [(v.a.toNat : Int), v.b.toNat, v.c.toNat, v.d.toNat]).length ≤ 15 := by
    have digits (x : UInt8) : (decimal x.toNat).length ≤ 3 :=
      decimal_length (by decide) (x.toNat_lt.trans (by decide))
    have a := digits v.a
    have b := digits v.b
    have c := digits v.c
    have d := digits v.d
    simp [dotted, integer_text_nat, List.intercalate]
    omega
  rw [FlatObjects.json_get_str_object, found]
  exact Prod.ext rfl (List.take_of_length_le length)

/-- The command writes the registers of the settings. -/
theorem exec_settings (s : Io) :
    web_cmd_exec_cfg ((cfg_body v.form).text ++ after) (cfg_body v.form).text.length s = (none, puts v.regs s) := by
  obtain ⟨rs_long, sid_long, can_long, can_id_long⟩ := in_range v
  have members := settings_members v
  have rs_bounds : 1200 ≤ v.rs ∧ v.rs ≤ 115200 :=
    (by decide : ∀ n ∈ RS485_OPTIONS, 1200 ≤ n ∧ n ≤ 115200) v.rs v.rs_option
  have can_valid : (v.can_bps : Int) ∈ [50, 100, 125, 250, 500, 800, 1000] := by
    have options : ∀ n ∈ CAN_OPTIONS, (n : Int) ∈ [50, 100, 125, 250, 500, 800, 1000] := by decide
    exact options v.can_bps v.can_option
  have ip : ip_field ((cfg_body v.form).text ++ after) (cfg_body v.form).text.length =
      .writes [(HOLDING_IP_OCTET1_IDX, v.a.toUInt16), (HOLDING_IP_OCTET2_IDX, v.b.toUInt16),
        (HOLDING_IP_OCTET3_IDX, v.c.toUInt16), (HOLDING_IP_OCTET4_IDX, v.d.toUInt16)] := by
    have read : json_get_str _ _ (ascii "ip") 16 = _ := ip_read v after
    rw [ip_field, read]
    simp only [if_true, octets_dotted, v.address]
  have number (key : Name) {n : Nat} (member : tight key (.int false n) ∈ cfg_members v.form) (small : n ≤ LONG_MAX)
      {name err : String} (named : ascii name = key.1) {valid : Int → Bool} (is_valid : valid n = true) (addr : Nat) :
      number_field ((cfg_body v.form).text ++ after) (cfg_body v.form).text.length name err valid addr =
        .writes [(addr, UInt16.ofNat n)] := by
    rw [number_field, named, number_read v after member small]
    simp only [is_valid, if_true, Int.toNat_natCast]
  have rs485 : rs485_field ((cfg_body v.form).text ++ after) (cfg_body v.form).text.length = _ :=
    number rs485_name (by simp [members]) rs_long rfl (decide_eq_true (by omega)) _
  have sid : sid_field ((cfg_body v.form).text ++ after) (cfg_body v.form).text.length = _ :=
    number sid_name (by simp [members]) sid_long rfl (decide_eq_true (by have range := v.sid_range; omega)) _
  have can_bps : can_bps_field ((cfg_body v.form).text ++ after) (cfg_body v.form).text.length = _ :=
    number can_bps_name (by simp [members]) can_long rfl (decide_eq_true can_valid) _
  have can_id : can_id_field ((cfg_body v.form).text ++ after) (cfg_body v.form).text.length = _ :=
    number can_id_name (by simp [members]) can_id_long rfl (decide_eq_true (by have range := v.can_id_range; omega)) _
  rw [web_cmd_exec_cfg_eq, written, cfg_fields, ip, rs485, sid, can_bps, can_id]
  rfl

theorem post_cfg_settings (s : Io) :
    post_cfg ((cfg_body v.form).text ++ after) (cfg_body v.form).text.length s = (respond_json_ok, puts v.regs s) := by
  rw [post_cfg, exec_settings v after s]
  rfl

/-- Two texts in which every key leads to the same place are the same configuration. -/
theorem exec_same {t t' : List UInt8} (same : ∀ key : Name, value_in key.1 t = value_in key.1 t') (s : Io) :
    web_cmd_exec_cfg (t ++ after) t.length s = web_cmd_exec_cfg (t' ++ after) t'.length s := by
  have number (key : Name) : json_get_i32 (t ++ after) t.length key.1 = json_get_i32 (t' ++ after) t'.length key.1 := by
    rw [json_get_i32_eq, json_get_i32_eq, same]
  have ip : json_get_str (t ++ after) t.length (ascii "ip") 16 = json_get_str (t' ++ after) t'.length (ascii "ip") 16 := by
    have place : value_in (ascii "ip") t = value_in (ascii "ip") t' := same ip_name
    rw [json_get_str_eq, json_get_str_eq, string_in, string_in, place]
  have rs485 : json_get_i32 (t ++ after) t.length (ascii "rs485") = json_get_i32 (t' ++ after) t'.length (ascii "rs485") :=
    number rs485_name
  have sid : json_get_i32 (t ++ after) t.length (ascii "sid") = json_get_i32 (t' ++ after) t'.length (ascii "sid") :=
    number sid_name
  have can_bps : json_get_i32 (t ++ after) t.length (ascii "can_bps") = json_get_i32 (t' ++ after) t'.length (ascii "can_bps") :=
    number can_bps_name
  have can_id : json_get_i32 (t ++ after) t.length (ascii "can_id") = json_get_i32 (t' ++ after) t'.length (ascii "can_id") :=
    number can_id_name
  simp only [web_cmd_exec_cfg, cfg_fields, ip_field, rs485_field, sid_field, can_bps_field, can_id_field, number_field, ip, rs485,
    sid, can_bps, can_id]

end

theorem frame_short : (cfg_frame v.form).text.length < WS_RX_MAX := by
  have octet (x : UInt8) : (decimal x.toNat).length ≤ 3 := decimal_length (by decide) (x.toNat_lt.trans (by decide))
  have a := octet v.a
  have b := octet v.b
  have c := octet v.c
  have d := octet v.d
  obtain ⟨rs_long, sid_long, can_long, can_id_long⟩ := in_range v
  have long {n : Nat} (small : n ≤ LONG_MAX) : (decimal n).length ≤ 10 :=
    decimal_length (by decide) (Nat.lt_of_le_of_lt small (by decide))
  have rs := long rs_long
  have sid := long sid_long
  have can := long can_long
  have can_id := long can_id_long
  have ip : (dotted [(v.a.toNat : Int), v.b.toNat, v.c.toNat, v.d.toNat]).length ≤ 15 := by
    simp [dotted, integer_text_nat, List.intercalate]
    omega
  have members : (cfg_frame v.form).members = tight cmd_name (.str cfg_text) :: cfg_members v.form := rfl
  rw [FlatObjects.Object.text, members, settings_members]
  simp [FlatObjects.members_text, FlatObjects.Member.text, FlatObjects.Value.text, tight, no_blanks, signed, dotted_text, cfg_frame,
    cmd_name, cfg_text, ip_name, rs485_name, sid_name, can_bps_name, can_id_name, ascii, WS_RX_MAX]
  omega

/-- A command that begins with `"cfg"`. -/
theorem ws_handle_cfg (web_build_io_json : Io → List UInt8) (fw_cmd : List UInt8 → Nat → Io → Option (List UInt8) × Io)
    {cmd rest : List UInt8} (begins : cmd = 34 :: 99 :: 102 :: 103 :: 34 :: rest) (len : Nat) (s : Io) :
    ws_handle_cmd web_build_io_json fw_cmd cmd len s =
      (some ((web_cmd_exec_cfg cmd len s).1.elim JSON_OK Httpd.json_err), (web_cmd_exec_cfg cmd len s).2) := by
  have is_cfg : cmd.take ("cfg".length + 2) = 34 :: (ascii "cfg" ++ [34]) := by rw [begins]; rfl
  have not_do : cmd.take ("do".length + 2) ≠ 34 :: (ascii "do" ++ [34]) := by
    rw [begins]
    exact fun same => absurd (List.cons.inj (List.cons.inj same).2).1 (by decide)
  have not_reg : cmd.take ("reg".length + 2) ≠ 34 :: (ascii "reg" ++ [34]) := by
    rw [begins]
    exact fun same => absurd (List.cons.inj (List.cons.inj same).2).1 (by decide)
  have not_time : cmd.take ("time".length + 2) ≠ 34 :: (ascii "time" ++ [34]) := by
    rw [begins]
    exact fun same => absurd (List.cons.inj (List.cons.inj same).2).1 (by decide)
  rw [ws_handle_cmd]
  simp only [is_cfg, not_do, not_reg, not_time, decide_false, decide_true, Bool.false_eq_true, false_and, if_false, if_true]

/-- The command is taken for a configuration, whose fields stand behind it. -/
theorem ws_text_settings (web_build_io_json : Io → List UInt8) (fw_cmd : List UInt8 → Nat → Io → Option (List UInt8) × Io)
    (stale : List UInt8) (s : Io) :
    ws_text web_build_io_json fw_cmd (cfg_frame v.form).text stale s = (some JSON_OK, puts v.regs s) := by
  have place : value_in (ascii "cmd") (cfg_frame v.form).text =
      some ((FlatObjects.Value.str cfg_text).text ++ (no_blanks.1 ++ FlatObjects.behind no_blanks (cfg_members v.form))) := by
    have earlier : ∀ n ∈ ([] : List Member), ascii "cmd" ≠ n.key.1 := by
      intro n none_
      cases none_
    rw [FlatObjects.value_in_text]
    exact FlatObjects.value_in_present cmd_name.2 no_blanks earlier rfl
  have is_end := value_in_suffix place
  have same (key : Name) :
      value_in key.1 ((FlatObjects.Value.str cfg_text).text ++ (no_blanks.1 ++ FlatObjects.behind no_blanks (cfg_members v.form))) =
        value_in key.1 (cfg_body v.form).text := by
    rw [FlatObjects.value_in_from_value key.2, FlatObjects.value_in_text]
    rfl
  rw [ws_text, if_pos (frame_short v)]
  simp only [json_find_value_eq, place, Option.map_some, drop_at (0 :: stale) is_end, Nat.sub_sub_self is_end.length_le]
  have begins : (FlatObjects.Value.str cfg_text).text ++ (no_blanks.1 ++ FlatObjects.behind no_blanks (cfg_members v.form)) ++
      0 :: stale = 34 :: 99 :: 102 :: 103 :: 34 :: (FlatObjects.behind no_blanks (cfg_members v.form) ++ 0 :: stale) := rfl
  rw [ws_handle_cfg web_build_io_json fw_cmd begins, exec_same _ same, exec_settings]
  rfl

theorem regs_addresses : v.regs.map (·.1) = [10, 11, 12, 13, 8, 9, 7, 6] := rfl

theorem regs_config {r : Nat × UInt16} (member : r ∈ v.regs) : 6 ≤ r.1 ∧ r.1 ≤ 13 := by
  have among := List.mem_map_of_mem (f := Prod.fst) member
  rw [show v.regs.map Prod.fst = [10, 11, 12, 13, 8, 9, 7, 6] from rfl] at among
  exact (by decide : ∀ a ∈ [10, 11, 12, 13, 8, 9, 7, 6], 6 ≤ a ∧ a ≤ 13) r.1 among

theorem regs_inside : ∀ r ∈ v.regs, r.1 < 18 := by
  intro r member
  have bounds := regs_config v member
  omega

theorem regs_once : (v.regs.map (·.1)).Nodup := by
  rw [regs_addresses]
  decide

theorem stand_puts (s : Io) : v.Stand (puts v.regs s) := fun _ member => puts_given (regs_inside v) (regs_once v) member s

/-- The settings as the form shows them when they come back: a rate that no register holds leaves its field blank. -/
def Settings.echo : Form :=
  { v.form with cfRs := if v.rs % 2^16 ∈ RS485_OPTIONS then .integer (v.rs % 2^16 : Nat) else .blank }

theorem echo_slower (slower : v.rs ≠ 115200) : v.echo = v.form := by
  have small : v.rs < 2^16 := (by decide : ∀ n ∈ RS485_OPTIONS, n ≠ 115200 → n < 2^16) v.rs v.rs_option slower
  have option : v.rs % 2^16 ∈ RS485_OPTIONS := by
    rw [Nat.mod_eq_of_lt small]
    exact v.rs_option
  rw [Settings.echo, if_pos option, Nat.mod_eq_of_lt small]
  rfl

variable {v}

theorem form_stand {reads : Nat → Io} (stand : ∀ k, v.Stand (reads k)) : form_read reads = v.echo := by
  have reg {a : Nat} {w : UInt16} (plain_ : a ≠ HOLDING_TIMESTAMP_HI_IDX ∧ a ≠ HOLDING_TIMESTAMP_LO_IDX)
      (member : (a, w) ∈ v.regs) : io_read_holding a (reads a) = w := by
    rw [io_read_holding, if_neg plain_.1, if_neg plain_.2]
    exact stand a (a, w) member
  have ip1 := reg (by decide) (show (0x0A, v.a.toUInt16) ∈ v.regs by simp [Settings.regs, HOLDING_IP_OCTET1_IDX])
  have ip2 := reg (by decide) (show (0x0B, v.b.toUInt16) ∈ v.regs by simp [Settings.regs, HOLDING_IP_OCTET2_IDX])
  have ip3 := reg (by decide) (show (0x0C, v.c.toUInt16) ∈ v.regs by simp [Settings.regs, HOLDING_IP_OCTET3_IDX])
  have ip4 := reg (by decide) (show (0x0D, v.d.toUInt16) ∈ v.regs by simp [Settings.regs, HOLDING_IP_OCTET4_IDX])
  have rs := reg (by decide) (show (0x08, UInt16.ofNat v.rs) ∈ v.regs by simp [Settings.regs, HOLDING_RS485_BAUDRATE_IDX])
  have sid := reg (by decide) (show (0x09, UInt16.ofNat v.sid) ∈ v.regs by simp [Settings.regs, HOLDING_SLAVE_ID_IDX])
  have can_bps := reg (by decide)
    (show (0x07, UInt16.ofNat v.can_bps) ∈ v.regs by simp [Settings.regs, HOLDING_CAN_BAUDRATE_IDX])
  have can_id := reg (by decide) (show (0x06, UInt16.ofNat v.can_id) ∈ v.regs by simp [Settings.regs, HOLDING_CAN_ID_IDX])
  have sid_small : v.sid % 2^16 = v.sid := by
    have range := v.sid_range
    omega
  have can_id_small : v.can_id % 2^16 = v.can_id := by
    have range := v.can_id_range
    omega
  have can_small : v.can_bps % 2^16 = v.can_bps :=
    (by decide : ∀ n ∈ CAN_OPTIONS, n % 2^16 = n) v.can_bps v.can_option
  simp only [form_read, ip1, ip2, ip3, ip4, rs, sid, can_bps, can_id, shown, selected, number_of, Option.elim_some,
    UInt8.toNat_toUInt16, UInt16.toNat_ofNat', sid_small, can_id_small, can_small, v.can_option, if_true]
  rfl

end

/-- What is entered in the form arrives in the registers over either way, and nothing else changes, nor does anything if
    the registers have the values already. Reading the registers gives the form again, unless the rate is 115200. -/
theorem settings_applied {ω : Type} (history_web_remove : List UInt8 → ω → Bool × ω) (web_build_io_json : Io → List UInt8)
    (fw_cmd : List UInt8 → Nat → Io → Option (List UInt8) × Io) (v : Settings) (pipelined stale : List UInt8) (s : Io) (w : ω) :
    let posted := dispatch_post history_web_remove (ascii "/api/cfg") ((cfg_body v.form).text ++ pipelined)
      (cfg_body v.form).text.length s w
    let sent := ws_text web_build_io_json fw_cmd (cfg_frame v.form).text stale s
    posted = (respond_json_ok, sent.2, w) ∧ sent.1 = some JSON_OK ∧ v.Stand sent.2 ∧ (v.Stand s → sent.2 = s) ∧
      (∀ a, (∀ r ∈ v.regs, r.1 ≠ a) → get_holding_reg a sent.2 = get_holding_reg a s) ∧
      (∃ holding_reg, sent.2 = { s with holding_reg }) ∧
      ∀ reads : Nat → Io, (∀ k, v.Stand (reads k)) → form_read reads = v.echo ∧ (v.rs ≠ 115200 → form_read reads = v.form) ∧
        (v.rs = 115200 → (form_read reads).cfRs = .blank) := by
  intro posted sent
  have http : posted = (respond_json_ok, puts v.regs s, w) := by
    change dispatch_post _ _ _ _ _ _ = _
    rw [dispatch_post, if_neg (by decide), if_neg (by decide), if_neg (by decide), if_neg (by decide), if_neg (by decide),
      if_pos rfl, post_cfg_settings]
    rfl
  have ws : sent = (some JSON_OK, puts v.regs s) := ws_text_settings v web_build_io_json fw_cmd stale s
  rw [http, ws]
  refine ⟨rfl, rfl, stand_puts v s, (puts_same_iff (regs_inside v) (regs_once v) s).mpr,
    fun a other => puts_other (regs_inside v) other s, puts_frame v.regs s, ?_⟩
  intro reads stand
  rw [form_stand stand]
  refine ⟨rfl, echo_slower v, fun fastest => ?_⟩
  rw [Settings.echo, fastest]
  rfl

def office : Settings where
  a := 192
  b := 168
  c := 1
  d := 20
  rs := 9600
  sid := 7
  can_bps := 250
  can_id := 2
  address := by decide
  rs_option := by decide
  sid_range := by decide
  can_option := by decide
  can_id_range := by decide

theorem settings_applied_office :
    let sent := ws_text (fun _ => []) WebTime.no_firmware (cfg_frame office.form).text [] (changing 0)
    sent.1 = some JSON_OK ∧ form_read (fun _ => sent.2) = office.form := by
  obtain ⟨-, answer, stand, -, -, -, shown⟩ :=
    settings_applied (fun _ w => (false, w)) (fun _ => []) WebTime.no_firmware office [] [] (changing 0) ()
  exact ⟨answer, (shown (fun _ => _) fun _ => stand).2.1 (by decide)⟩

end IoEdgeHub.ConfigForm
