import Mathlib.Tactic.IntervalCases
import IoEdgeHub.Numerals
import IoEdgeHub.WebCmds

/-!
How far the access to a field looks. The search and the strings keep to the text; the numbers
are read by `strncmp` and `strtol`, which do not know where it ends. What they return depends on
the text alone iff the value does not break off at its end (`reads_confined`).
-/
namespace IoEdgeHub.JsonReads
open IoEdgeHub.CStrings IoEdgeHub.Json IoEdgeHub.Numerals IoEdgeHub.Regmap IoEdgeHub.Httpd IoEdgeHub.WebCmds

/-- The beginning of a word that is not the whole of it. -/
def Begun (word v : List UInt8) : Prop := v <+: word ∧ v ≠ word

/-- More characters could make another scalar of the value. -/
def BreaksOff (v : List UInt8) : Prop := Begun (ascii "true") v ∨ Begun (ascii "false") v ∨ Unfinished v

instance (word v : List UInt8) : Decidable (Begun word v) := inferInstanceAs (Decidable (_ ∧ _))

instance (v : List UInt8) : Decidable (BreaksOff v) := inferInstanceAs (Decidable (_ ∨ _ ∨ _))

section
variable {v word : List UInt8}

/-- A word that has not begun does not come with what follows. -/
theorem take_append_iff (not_begun : ¬ Begun word v) (after : List UInt8) :
    (v ++ after).take word.length = word ↔ v.take word.length = word := by
  have starts (l : List UInt8) : l.take word.length = word ↔ word <+: l := by
    rw [List.prefix_iff_eq_take, eq_comm]
  rw [starts, starts]
  constructor
  · intro whole
    rcases List.prefix_or_prefix_of_prefix whole (List.prefix_append v after) with inside | shorter
    · exact inside
    · by_cases same : v = word
      · exact same ▸ List.prefix_refl v
      · exact absurd ⟨shorter, same⟩ not_begun
  · intro inside
    exact inside.trans (List.prefix_append v after)

theorem scalar_append (settled : ¬ BreaksOff v) (after : List UInt8) : scalar (v ++ after) = scalar v := by
  simp only [BreaksOff, not_or] at settled
  obtain ⟨no_true, no_false, finished⟩ := settled
  have is_true := take_append_iff no_true after
  have is_false := take_append_iff no_false after
  rw [scalar, scalar, strtol_append finished]
  exact if_congr is_true rfl (if_congr is_false rfl rfl)

theorem begun_take (begun : Begun word v) : v = word.take v.length ∧ v.length < word.length := by
  obtain ⟨is_start, other⟩ := begun
  refine ⟨List.prefix_iff_eq_take.mp is_start, Nat.lt_of_le_of_ne is_start.length_le fun same => ?_⟩
  exact other (is_start.eq_of_length same)

theorem scalar_differs (some_ : v ≠ []) (breaks_off : BreaksOff v) : ∃ after, scalar (v ++ after) ≠ scalar v := by
  have positive := List.length_pos_iff.mpr some_
  rcases breaks_off with begun | begun | more
  · obtain ⟨start, short⟩ := begun_take begun
    have bound : v.length < 4 := short
    refine ⟨(ascii "true").drop v.length, ?_⟩
    generalize v.length = n at start positive bound
    subst start
    interval_cases n <;> decide
  · obtain ⟨start, short⟩ := begun_take begun
    have bound : v.length < 5 := short
    refine ⟨(ascii "false").drop v.length, ?_⟩
    generalize v.length = n at start positive bound
    subst start
    interval_cases n <;> decide
  · obtain ⟨c, s, rfl⟩ := List.exists_cons_of_ne_nil some_
    have other : c ≠ 116 ∧ c ≠ 102 := by
      constructor <;> rintro rfl <;> exact unfinished_none (by decide) (by decide) more
    have differs := strtol_one more
    rw [List.cons_append, ← scalar_other other, ← scalar_other other] at differs
    exact ⟨[49], differs⟩

end

/-- The value of the key does not break off at the end of the text. -/
def Settled (key buf : List UInt8) : Prop := ∀ v, value_in key buf = some v → v = [] ∨ ¬ BreaksOff v

theorem json_get_i32_settled {key buf : List UInt8} (settled : Settled key buf) (after after' : List UInt8) :
    json_get_i32 (buf ++ after) buf.length key = json_get_i32 (buf ++ after') buf.length key := by
  rw [json_get_i32_eq, json_get_i32_eq]
  cases found : value_in key buf with
  | none => rfl
  | some v =>
    rcases settled v found with rfl | whole
    · rfl
    · simp only [Option.bind_some, scalar_append whole]

theorem json_get_str_confined (key buf after after' : List UInt8) (outsz : Nat) :
    json_get_str (buf ++ after) buf.length key outsz = json_get_str (buf ++ after') buf.length key outsz := by
  rw [json_get_str_eq, json_get_str_eq]

/-- The keys whose numbers a POST route reads. -/
def number_keys (path : List UInt8) : List String :=
  if path = ascii "/api/do" then ["index", "value"]
  else if path = ascii "/api/reg" then ["addr", "value"]
  else if path = ascii "/api/time" then ["ts"]
  else if path = ascii "/api/cfg" then ["rs485", "sid", "can_bps", "can_id"]
  else []

section
variable {body : List UInt8} (after after' : List UInt8)

theorem number_field_settled {key : String} (settled : Settled (ascii key) body) (err : String) (valid : Int → Bool)
    (addr : Nat) :
    number_field (body ++ after) body.length key err valid addr
      = number_field (body ++ after') body.length key err valid addr := by
  rw [number_field, number_field, json_get_i32_settled settled after after']

/-- A POST request whose numbers do not break off means the same whatever comes behind its body. -/
theorem dispatch_post_settled {ω : Type} (history_web_remove : List UInt8 → ω → Bool × ω) {path : List UInt8}
    (settled : ∀ key ∈ number_keys path, Settled (ascii key) body) (s : Io) (w : ω) :
    dispatch_post history_web_remove path (body ++ after) body.length s w
      = dispatch_post history_web_remove path (body ++ after') body.length s w := by
  have number (key : String) (read : key ∈ number_keys path) := json_get_i32_settled (settled key read) after after'
  have field (key : String) (read : key ∈ number_keys path) :=
    number_field_settled after after' (settled key read)
  have string (key : String) (outsz : Nat) := json_get_str_confined (ascii key) body after after' outsz
  rw [dispatch_post, dispatch_post, string]
  refine ite_congr rfl (fun to_do => ?_) fun _ => ite_congr rfl (fun to_reg => ?_) fun _ =>
    ite_congr rfl (fun to_time => ?_) fun _ => ite_congr rfl (fun _ => rfl) fun _ => ite_congr rfl (fun _ => rfl) fun _ =>
      ite_congr rfl (fun to_cfg => ?_) fun _ => rfl
  · subst to_do
    rw [post_do, post_do, number "index" (by decide), number "value" (by decide)]
  · subst to_reg
    rw [post_reg, post_reg, number "addr" (by decide), number "value" (by decide)]
  · subst to_time
    rw [post_time, post_time, number "ts" (by decide)]
  · subst to_cfg
    rw [post_cfg, post_cfg, web_cmd_exec_cfg, web_cmd_exec_cfg, cfg_fields, cfg_fields, ip_field, ip_field, string,
      rs485_field, rs485_field, sid_field, sid_field, can_bps_field, can_bps_field, can_id_field, can_id_field,
      field "rs485" (by decide), field "sid" (by decide), field "can_bps" (by decide), field "can_id" (by decide)]

end

/-- Both accessors return the same for any two continuations of the memory iff the value of the key does not break
    off at the end of the text, and then so does a POST request with all its numbers. -/
theorem reads_confined (buf : List UInt8) :
    (∀ key, (∀ after after',
          json_get_i32 (buf ++ after) buf.length key = json_get_i32 (buf ++ after') buf.length key
            ∧ ∀ outsz, json_get_str (buf ++ after) buf.length key outsz
              = json_get_str (buf ++ after') buf.length key outsz)
        ↔ Settled key buf)
      ∧ ∀ (ω : Type) (history_web_remove : List UInt8 → ω → Bool × ω) (path : List UInt8),
        (∀ key ∈ number_keys path, Settled (ascii key) buf) → ∀ after after' s w,
          dispatch_post history_web_remove path (buf ++ after) buf.length s w
            = dispatch_post history_web_remove path (buf ++ after') buf.length s w := by
  constructor
  · intro key
    constructor
    · intro same v found
      by_contra open_
      rw [not_or, not_not] at open_
      obtain ⟨some_, breaks_off⟩ := open_
      obtain ⟨after, differs⟩ := scalar_differs some_ breaks_off
      have both := (same after []).1
      rw [json_get_i32_eq, json_get_i32_eq, found, Option.bind_some, Option.bind_some, if_neg some_, if_neg some_,
        List.append_nil] at both
      exact differs both
    · intro settled after after'
      exact ⟨json_get_i32_settled settled after after', json_get_str_confined key buf after after'⟩
  · intro ω history_web_remove path settled after after' s w
    exact dispatch_post_settled after after' history_web_remove settled s w

/-- The text of a request that sets the time. -/
def five : List UInt8 := ascii "\x7b\"ts\":5\x7d"

theorem five_settled : Settled (ascii "ts") five := by
  intro v found
  have place : value_in (ascii "ts") five = some [53, 125] := by decide
  rw [place] at found
  obtain rfl := Option.some.inj found
  exact .inr (by decide)

theorem reads_confined_five :
    json_get_i32 (five ++ [55]) five.length (ascii "ts") = json_get_i32 (five ++ []) five.length (ascii "ts") :=
  (((reads_confined five).1 (ascii "ts")).mpr five_settled [55] []).1

/-- Without its closing brace the number goes on into the next request. -/
theorem number_runs_on :
    ¬ ∀ buf key after after',
      json_get_i32 (buf ++ after) buf.length key = json_get_i32 (buf ++ after') buf.length key
        ∧ ∀ outsz, json_get_str (buf ++ after) buf.length key outsz
          = json_get_str (buf ++ after') buf.length key outsz := by
  intro always
  have same := (always (ascii "\x7b\"ts\":5") (ascii "ts") (ascii "7") []).1
  revert same
  decide +kernel

end IoEdgeHub.JsonReads
