import Mathlib.Data.List.Flatten
import Mathlib.Data.List.TakeWhile
import IoEdgeHub.MultiWrites
import IoEdgeHub.WebCmds

/-!
The configuration over the web. A field is written as soon as it has been checked, so a
request that is refused leaves the fields before the refused one behind (`refused_after_write`);
it is all or nothing exactly when these ask for what the registers hold already (`cfg_applied_iff`).
-/
namespace IoEdgeHub.WebConfig
open IoEdgeHub.CStrings IoEdgeHub.Json IoEdgeHub.Regmap IoEdgeHub.WebCmds

/-- The registers that a configuration over the web can reach are only stored. -/
theorem write_holding_config {r : Nat × UInt16} (config : 6 ≤ r.1 ∧ r.1 ≤ 13) (s : Io) :
    write_holding s r = s.put r.1 r.2 := by
  obtain ⟨low, high⟩ := config
  have inside : r.1 < 18 := by omega
  have exists_ : ¬ r.1 ≥ MODBUS_HOLDING_REGISTER_NUMBERS := Nat.not_le.mpr inside
  rw [write_holding, io_write_holding, if_neg exists_]
  by_cases same : get_holding_reg r.1 s = r.2
  · rw [if_pos same, put_same inside same]
    rfl
  · have plain : r.1 ≠ HOLDING_DO_IDX ∧ r.1 ≠ HOLDING_HISTORY_ENABLE_IDX ∧ r.1 ≠ HOLDING_TIMESTAMP_LO_IDX
        ∧ r.1 ≠ HOLDING_CONFIG_SAVE_IDX ∧ r.1 ≠ HOLDING_REBOOT_IDX := by
      simp only [HOLDING_DO_IDX, HOLDING_HISTORY_ENABLE_IDX, HOLDING_TIMESTAMP_LO_IDX, HOLDING_CONFIG_SAVE_IDX,
        HOLDING_REBOOT_IDX]
      omega
    simp only [if_neg same, plain, if_false, Option.getD_some]

/-- The registers one after the other. -/
def puts (regs : List (Nat × UInt16)) (s : Io) : Io := regs.foldl (fun s r => s.put r.1 r.2) s

section
variable {regs : List (Nat × UInt16)} (inside : ∀ r ∈ regs, r.1 < 18)

/-- Nothing but the registers changes. -/
theorem puts_frame (regs : List (Nat × UInt16)) (s : Io) : ∃ holding_reg, puts regs s = { s with holding_reg } := by
  induction regs generalizing s with
  | nil => exact ⟨s.holding_reg, rfl⟩
  | cons r regs ih => exact ih (s.put r.1 r.2)

include inside

theorem puts_other {a : Nat} (other : ∀ r ∈ regs, r.1 ≠ a) (s : Io) :
    get_holding_reg a (puts regs s) = get_holding_reg a s := by
  induction regs generalizing s with
  | nil => rfl
  | cons r regs ih =>
    have rest := ih (fun r' member => inside r' (List.mem_cons_of_mem r member))
      (fun r' member => other r' (List.mem_cons_of_mem r member)) (s.put r.1 r.2)
    have apart : a ≠ r.1 := fun same => other r List.mem_cons_self same.symm
    rwa [get_holding_reg_put (inside r List.mem_cons_self), if_neg apart] at rest

theorem puts_given (once : (regs.map (·.1)).Nodup) {r : Nat × UInt16} (given : r ∈ regs) (s : Io) :
    get_holding_reg r.1 (puts regs s) = r.2 := by
  induction regs generalizing s with
  | nil => cases given
  | cons r' regs ih =>
    rw [List.map_cons, List.nodup_cons] at once
    have inside_rest : ∀ r ∈ regs, r.1 < 18 := fun r member => inside r (List.mem_cons_of_mem r' member)
    rcases List.mem_cons.mp given with rfl | later
    · -- no later write has the same address
      have kept := @puts_other regs inside_rest r.1
        (fun r'' member same => once.1 (List.mem_map.mpr ⟨r'', member, same⟩)) (s.put r.1 r.2)
      rwa [get_holding_reg_put (inside r List.mem_cons_self), if_pos rfl] at kept
    · exact ih inside_rest once.2 later (s.put r'.1 r'.2)

/-- Registers with different addresses stay as they are iff they hold the values already. -/
theorem puts_same_iff (once : (regs.map (·.1)).Nodup) (s : Io) :
    puts regs s = s ↔ ∀ r ∈ regs, get_holding_reg r.1 s = r.2 := by
  constructor
  · intro same r given
    have holds := puts_given inside once given s
    rwa [same] at holds
  · intro held
    induction regs with
    | nil => rfl
    | cons r regs ih =>
      rw [List.map_cons, List.nodup_cons] at once
      have first : s.put r.1 r.2 = s := put_same (inside r List.mem_cons_self) (held r List.mem_cons_self)
      rw [puts, List.foldl_cons, first]
      exact ih (fun r' member => inside r' (List.mem_cons_of_mem r member)) once.2
        fun r' member => held r' (List.mem_cons_of_mem r member)

end

/-- The registers that a valid field asks for. -/
def asked_regs : Asked → List (Nat × UInt16)
  | .writes regs => regs
  | _ => []

def refusal : Asked → Option String
  | .refused err => some err
  | _ => none

def accepted (f : Asked) : Bool := (refusal f).isNone

/-- The first refused field decides, and the fields before it have been written. -/
theorem exec_fields_eq {fields : List Asked} (config : ∀ f ∈ fields, ∀ r ∈ asked_regs f, 6 ≤ r.1 ∧ r.1 ≤ 13) (s : Io) :
    exec_fields fields s = (fields.findSome? refusal, puts ((fields.takeWhile accepted).flatMap asked_regs) s) := by
  induction fields generalizing s with
  | nil => rfl
  | cons f fields ih =>
    have rest := fun s => ih (fun f' member => config f' (List.mem_cons_of_mem f member)) s
    cases f with
    | absent => exact rest s
    | refused err => rfl
    | writes regs =>
      have written : regs.foldl write_holding s = puts regs s := by
        have stored := config (.writes regs) List.mem_cons_self
        exact List.foldl_ext _ _ s fun s r member => write_holding_config (stored r member) s
      rw [exec_fields, rest, written, List.takeWhile_cons_of_pos rfl, List.flatMap_cons, puts, puts, puts,
        ← List.foldl_append]
      rfl

section
variable (mem : List UInt8) (len : Nat)

theorem number_field_cases (key err : String) (valid : Int → Bool) (addr : Nat) :
    (json_get_i32 mem len (ascii key) = none ∧ number_field mem len key err valid addr = .absent)
      ∨ ∃ v, json_get_i32 mem len (ascii key) = some v
        ∧ (valid v = true ∧ number_field mem len key err valid addr = .writes [(addr, UInt16.ofNat v.toNat)]
          ∨ number_field mem len key err valid addr = .refused err) := by
  rw [number_field]
  cases json_get_i32 mem len (ascii key) with
  | none => exact .inl ⟨rfl, rfl⟩
  | some v =>
    refine .inr ⟨v, rfl, ?_⟩
    cases is_valid : valid v with
    | true => exact .inl ⟨rfl, if_pos is_valid⟩
    | false => exact .inr (if_neg (Bool.not_eq_true _ ▸ is_valid))

theorem ip_field_cases :
    ((json_get_str mem len (ascii "ip") 16).1 = false ∧ ip_field mem len = .absent)
      ∨ (json_get_str mem len (ascii "ip") 16).1 = true
        ∧ (ip_field mem len = .refused "invalid ip"
          ∨ ∃ a b c d, octets 4 (json_get_str mem len (ascii "ip") 16).2 = some [a, b, c, d]
            ∧ ip_field mem len = .writes [(HOLDING_IP_OCTET1_IDX, a.toUInt16), (HOLDING_IP_OCTET2_IDX, b.toUInt16),
              (HOLDING_IP_OCTET3_IDX, c.toUInt16), (HOLDING_IP_OCTET4_IDX, d.toUInt16)]) := by
  rw [ip_field]
  generalize json_get_str mem len (ascii "ip") 16 = ip_str
  obtain ⟨present, text⟩ := ip_str
  cases present with
  | false => exact .inl ⟨rfl, rfl⟩
  | true =>
    refine .inr ⟨rfl, ?_⟩
    simp only [if_true]
    split
    case h_1 a b c d read =>
      split_ifs
      · exact .inr ⟨a, b, c, d, read, rfl⟩
      · exact .inl rfl
    case h_2 => exact .inl rfl

theorem number_field_address (key err : String) (valid : Int → Bool) (addr : Nat) :
    ((asked_regs (number_field mem len key err valid addr)).map (·.1)).Sublist [addr] := by
  rcases number_field_cases mem len key err valid addr with ⟨-, shape⟩ | ⟨v, -, ⟨-, shape⟩ | shape⟩ <;> rw [shape]
  · exact List.nil_sublist _
  · exact List.Sublist.refl _
  · exact List.nil_sublist _

theorem ip_field_addresses : ((asked_regs (ip_field mem len)).map (·.1)).Sublist [10, 11, 12, 13] := by
  rcases ip_field_cases mem len with ⟨-, shape⟩ | ⟨-, shape | ⟨a, b, c, d, -, shape⟩⟩ <;> rw [shape]
  · exact List.nil_sublist _
  · exact List.nil_sublist _
  · exact List.Sublist.refl _

/-- Every register is asked for at most once, and only those of the configuration. -/
theorem cfg_regs_addresses :
    (((cfg_fields mem len).flatMap asked_regs).map (·.1)).Sublist [10, 11, 12, 13, 8, 9, 7, 6] := by
  have rs485 : ((asked_regs (rs485_field mem len)).map (·.1)).Sublist [8] := number_field_address mem len _ _ _ _
  have sid : ((asked_regs (sid_field mem len)).map (·.1)).Sublist [9] := number_field_address mem len _ _ _ _
  have can_bps : ((asked_regs (can_bps_field mem len)).map (·.1)).Sublist [7] := number_field_address mem len _ _ _ _
  have can_id : ((asked_regs (can_id_field mem len)).map (·.1)).Sublist [6] := number_field_address mem len _ _ _ _
  simp only [cfg_fields, List.flatMap_cons, List.flatMap_nil, List.map_append, List.append_nil]
  exact (ip_field_addresses mem len).append (rs485.append (sid.append (can_bps.append can_id)))

theorem cfg_config {f : Asked} (member : f ∈ cfg_fields mem len) {r : Nat × UInt16} (asked : r ∈ asked_regs f) :
    6 ≤ r.1 ∧ r.1 ≤ 13 := by
  have among := (cfg_regs_addresses mem len).subset
    (List.mem_map_of_mem (List.mem_flatMap.mpr ⟨f, member, asked⟩))
  simp only [List.mem_cons, List.not_mem_nil, or_false] at among
  omega

/-- The registers that have been written when the first refused field is met. -/
def written (mem : List UInt8) (len : Nat) : List (Nat × UInt16) :=
  ((cfg_fields mem len).takeWhile accepted).flatMap asked_regs

theorem written_once : ((written mem len).map (·.1)).Nodup := by
  have some_of := ((List.takeWhile_sublist (l := cfg_fields mem len) accepted).flatMap asked_regs).map (·.1)
  exact (by decide : [10, 11, 12, 13, 8, 9, 7, 6].Nodup).sublist (some_of.trans (cfg_regs_addresses mem len))

theorem written_inside {r : Nat × UInt16} (asked : r ∈ written mem len) : r.1 < 18 := by
  obtain ⟨f, member, among⟩ := List.mem_flatMap.mp asked
  have between := cfg_config mem len ((List.takeWhile_sublist accepted).subset member) among
  omega

theorem web_cmd_exec_cfg_eq (s : Io) :
    web_cmd_exec_cfg mem len s = ((cfg_fields mem len).findSome? refusal, puts (written mem len) s) :=
  exec_fields_eq (fun _ member _ asked => cfg_config mem len member asked) s

end

/-- The text has a field for the register. -/
def Names (mem : List UInt8) (len : Nat) (a : Nat) : Prop :=
  ((json_get_str mem len (ascii "ip") 16).1 = true ∧ HOLDING_IP_OCTET1_IDX ≤ a ∧ a ≤ HOLDING_IP_OCTET4_IDX)
    ∨ ((json_get_i32 mem len (ascii "rs485")).isSome ∧ a = HOLDING_RS485_BAUDRATE_IDX)
    ∨ ((json_get_i32 mem len (ascii "sid")).isSome ∧ a = HOLDING_SLAVE_ID_IDX)
    ∨ ((json_get_i32 mem len (ascii "can_bps")).isSome ∧ a = HOLDING_CAN_BAUDRATE_IDX)
    ∨ ((json_get_i32 mem len (ascii "can_id")).isSome ∧ a = HOLDING_CAN_ID_IDX)

/-- Every field that is present stands in its registers, and nothing else has changed. -/
structure Applied (mem : List UInt8) (len : Nat) (s s' : Io) : Prop where
  ip : (json_get_str mem len (ascii "ip") 16).1 = true →
    ∃ a b c d, octets 4 (json_get_str mem len (ascii "ip") 16).2 = some [a, b, c, d]
      ∧ get_holding_reg HOLDING_IP_OCTET1_IDX s' = a.toUInt16 ∧ get_holding_reg HOLDING_IP_OCTET2_IDX s' = b.toUInt16
      ∧ get_holding_reg HOLDING_IP_OCTET3_IDX s' = c.toUInt16 ∧ get_holding_reg HOLDING_IP_OCTET4_IDX s' = d.toUInt16
  rs485 : ∀ v, json_get_i32 mem len (ascii "rs485") = some v →
    ((get_holding_reg HOLDING_RS485_BAUDRATE_IDX s').toNat : Int) = v % 2^16
  sid : ∀ v, json_get_i32 mem len (ascii "sid") = some v → ((get_holding_reg HOLDING_SLAVE_ID_IDX s').toNat : Int) = v
  can_bps : ∀ v, json_get_i32 mem len (ascii "can_bps") = some v →
    ((get_holding_reg HOLDING_CAN_BAUDRATE_IDX s').toNat : Int) = v
  can_id : ∀ v, json_get_i32 mem len (ascii "can_id") = some v →
    ((get_holding_reg HOLDING_CAN_ID_IDX s').toNat : Int) = v
  others : ∀ a, ¬ Names mem len a → get_holding_reg a s' = get_holding_reg a s
  rest : ∃ holding_reg, s' = { s with holding_reg }

section
variable {mem : List UInt8} {len : Nat}

/-- A number that a field gives stands in its register, modulo 2^16. -/
theorem number_applied {key err : String} {valid : Int → Bool} {addr : Nat}
    (member : number_field mem len key err valid addr ∈ cfg_fields mem len)
    (fine : refusal (number_field mem len key err valid addr) = none)
    (all : (cfg_fields mem len).takeWhile accepted = cfg_fields mem len)
    {v : Int} (given : json_get_i32 mem len (ascii key) = some v) (s : Io) :
    valid v = true ∧ get_holding_reg addr (puts (written mem len) s) = UInt16.ofNat v.toNat := by
  rcases number_field_cases mem len key err valid addr with ⟨absent, -⟩ | ⟨v', present, ⟨is_valid, shape⟩ | shape⟩
  · rw [absent] at given
    cases given
  · rw [present] at given
    obtain rfl := Option.some.inj given
    have asked : (addr, UInt16.ofNat v'.toNat) ∈ written mem len := by
      rw [written, all]
      exact List.mem_flatMap.mpr ⟨_, member, shape ▸ List.mem_singleton_self _⟩
    exact ⟨is_valid, puts_given (fun _ => written_inside mem len) (written_once mem len) asked s⟩
  · rw [shape] at fine
    cases fine

theorem number_named {key err : String} {valid : Int → Bool} {addr : Nat} {r : Nat × UInt16}
    (asked : r ∈ asked_regs (number_field mem len key err valid addr)) :
    (json_get_i32 mem len (ascii key)).isSome ∧ r.1 = addr := by
  rcases number_field_cases mem len key err valid addr with ⟨-, shape⟩ | ⟨v, present, ⟨-, shape⟩ | shape⟩ <;>
    rw [shape] at asked
  · cases asked
  · rw [List.mem_singleton.mp asked, present]
    exact ⟨rfl, rfl⟩
  · cases asked

/-- Only registers are written that the text has a field for. -/
theorem written_named {r : Nat × UInt16} (asked : r ∈ written mem len) : Names mem len r.1 := by
  obtain ⟨f, among, asked⟩ := List.mem_flatMap.mp asked
  have member := (List.takeWhile_sublist accepted).subset among
  simp only [cfg_fields, List.mem_cons, List.not_mem_nil, or_false] at member
  rcases member with rfl | rfl | rfl | rfl | rfl
  · have between := (ip_field_addresses mem len).subset (List.mem_map_of_mem asked)
    rcases ip_field_cases mem len with ⟨-, shape⟩ | ⟨present, -⟩
    · rw [shape] at asked
      cases asked
    · refine .inl ⟨present, ?_⟩
      simp only [List.mem_cons, List.not_mem_nil, or_false] at between
      simp only [HOLDING_IP_OCTET1_IDX, HOLDING_IP_OCTET4_IDX]
      omega
  · exact .inr (.inl (number_named asked))
  · exact .inr (.inr (.inl (number_named asked)))
  · exact .inr (.inr (.inr (.inl (number_named asked))))
  · exact .inr (.inr (.inr (.inr (number_named asked))))

/-- A 16-bit register holds a small number as it is. -/
theorem small_register {v : Int} (small : 0 ≤ v ∧ v < 2^16) : ((UInt16.ofNat v.toNat).toNat : Int) = v := by
  rw [UInt16.toNat_ofNat']
  omega

theorem applied (fine : ∀ f ∈ cfg_fields mem len, refusal f = none) (s : Io) :
    Applied mem len s (puts (written mem len) s) := by
  have all : (cfg_fields mem len).takeWhile accepted = cfg_fields mem len :=
    List.takeWhile_eq_self_iff.mpr fun f member => Option.isNone_iff_eq_none.mpr (fine f member)
  have second : rs485_field mem len ∈ cfg_fields mem len := by simp [cfg_fields]
  have third : sid_field mem len ∈ cfg_fields mem len := by simp [cfg_fields]
  have fourth : can_bps_field mem len ∈ cfg_fields mem len := by simp [cfg_fields]
  have fifth : can_id_field mem len ∈ cfg_fields mem len := by simp [cfg_fields]
  constructor
  case ip =>
    intro present
    have first : ip_field mem len ∈ cfg_fields mem len := List.mem_cons_self
    rcases ip_field_cases mem len with ⟨absent, -⟩ | ⟨-, shape | ⟨a, b, c, d, read, shape⟩⟩
    · rw [present] at absent
      cases absent
    · have refused := fine _ first
      rw [shape] at refused
      cases refused
    · have holds (r : Nat × UInt16) (asked : r ∈ asked_regs (ip_field mem len)) :
          get_holding_reg r.1 (puts (written mem len) s) = r.2 := by
        refine puts_given (fun _ => written_inside mem len) (written_once mem len) ?_ s
        rw [written, all]
        exact List.mem_flatMap.mpr ⟨_, first, asked⟩
      simp only [shape, asked_regs, List.forall_mem_cons] at holds
      obtain ⟨one, two, three, four, -⟩ := holds
      exact ⟨a, b, c, d, read, one, two, three, four⟩
  case rs485 =>
    intro v given
    obtain ⟨valid, holds⟩ := number_applied second (fine _ second) all given s
    have bounds := of_decide_eq_true valid
    rw [holds, UInt16.toNat_ofNat']
    omega
  case sid =>
    intro v given
    obtain ⟨valid, holds⟩ := number_applied third (fine _ third) all given s
    have bounds := of_decide_eq_true valid
    rw [holds, small_register (by omega)]
  case can_bps =>
    intro v given
    obtain ⟨valid, holds⟩ := number_applied fourth (fine _ fourth) all given s
    have among := of_decide_eq_true valid
    simp only [List.mem_cons, List.not_mem_nil, or_false] at among
    rw [holds, small_register (by omega)]
  case can_id =>
    intro v given
    obtain ⟨valid, holds⟩ := number_applied fifth (fine _ fifth) all given s
    have bounds := of_decide_eq_true valid
    rw [holds, small_register (by omega)]
  case others =>
    intro a unnamed
    refine puts_other (fun _ => written_inside mem len) (fun r asked same => ?_) s
    exact unnamed (same ▸ written_named asked)
  case rest => exact puts_frame (written mem len) s

/-- The configuration is applied as a whole or not at all iff no field is refused, or the fields before the first
    refused one ask for what the registers hold already. -/
theorem cfg_applied_iff (mem : List UInt8) (len : Nat) (s : Io) :
    ((∀ err, (web_cmd_exec_cfg mem len s).1 = some err → (web_cmd_exec_cfg mem len s).2 = s)
      ∧ ((web_cmd_exec_cfg mem len s).1 = none → Applied mem len s (web_cmd_exec_cfg mem len s).2))
      ↔ (∀ f ∈ cfg_fields mem len, refusal f = none)
        ∨ ∀ f ∈ (cfg_fields mem len).takeWhile accepted, ∀ r ∈ asked_regs f, get_holding_reg r.1 s = r.2 := by
  have kept : puts (written mem len) s = s
      ↔ ∀ f ∈ (cfg_fields mem len).takeWhile accepted, ∀ r ∈ asked_regs f, get_holding_reg r.1 s = r.2 := by
    rw [puts_same_iff (fun _ => written_inside mem len) (written_once mem len), written, List.forall_mem_flatMap]
  rw [web_cmd_exec_cfg_eq, ← kept]
  constructor
  · rintro ⟨refused, -⟩
    cases first : (cfg_fields mem len).findSome? refusal with
    | none => exact .inl (List.findSome?_eq_none_iff.mp first)
    | some err => exact .inr (refused err first)
  · intro condition
    constructor
    · intro err first
      rcases condition with fine | same
      · rw [List.findSome?_eq_none_iff.mpr fine] at first
        cases first
      · exact same
    · intro none_refused
      exact applied (List.findSome?_eq_none_iff.mp none_refused) s

end

def valid_then_refused : List UInt8 := ascii "\x7b\"sid\":5,\"can_id\":0\x7d"

/-- The slave id has been written when the CAN id is refused. -/
theorem refused_after_write :
    ¬ ∀ (mem : List UInt8) (len : Nat) (s : Io),
      (∀ err, (web_cmd_exec_cfg mem len s).1 = some err → (web_cmd_exec_cfg mem len s).2 = s)
        ∧ ((web_cmd_exec_cfg mem len s).1 = none → Applied mem len s (web_cmd_exec_cfg mem len s).2) := by
  intro always
  have refused : (web_cmd_exec_cfg valid_then_refused 20 MultiWrites.timed.io).1 = some "invalid can id" := by
    decide +kernel
  have same := (always valid_then_refused 20 MultiWrites.timed.io).1 _ refused
  have changed : get_holding_reg HOLDING_SLAVE_ID_IDX (web_cmd_exec_cfg valid_then_refused 20 MultiWrites.timed.io).2
      ≠ get_holding_reg HOLDING_SLAVE_ID_IDX MultiWrites.timed.io := by
    decide +kernel
  exact changed (congrArg (get_holding_reg HOLDING_SLAVE_ID_IDX) same)

end IoEdgeHub.WebConfig
