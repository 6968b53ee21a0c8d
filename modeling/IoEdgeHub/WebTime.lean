import IoEdgeHub.FlatObjects
import IoEdgeHub.MultiWrites
import IoEdgeHub.WebCmds

/-!
The time over the web and over UDP. The web reads a `long` of 32 bits, which stops at
2147483647, so a later time is taken for this one, and the command reports success
(`web_time_iff`); over UDP the same 32 bits are taken as they are (`udp_time`).
-/
namespace IoEdgeHub.WebTime
open IoEdgeHub.Bytes IoEdgeHub.CStrings IoEdgeHub.Numerals IoEdgeHub.Json IoEdgeHub.FlatObjects IoEdgeHub.Regmap
open IoEdgeHub.Commands IoEdgeHub.Httpd IoEdgeHub.WebCmds
open IoEdgeHub.Ws (WS_RX_MAX)

/-- A command succeeds exactly for a time that the clock takes, and then the clock has been set to it. -/
def SetsTime (t : Int) (s : Io) (success : Prop) (s' : Io) : Prop :=
  (success ↔ TS_MIN ≤ t ∧ t < TS_MAX ∧ s.rtc_ready = true)
    ∧ (success → s'.hooks = s.hooks ++ [.set_timestamp t] ∧ ((io_now_epoch s').toNat : Int) = t)

/-- The time that a decimal number says. -/
def time_of (negative : Bool) (n : Nat) : Int := if negative then -n else n

theorem set_timestamp_iff (t : Int) (s : Io) :
    (set_timestamp t s).1 = true ↔ TS_MIN ≤ t ∧ t < TS_MAX ∧ s.rtc_ready = true := by
  rw [set_timestamp]
  cases ready : s.rtc_ready with
  | false => simp [Io.call, ready]
  | true =>
    by_cases in_range : ts_in_range t = true
    · have between := of_decide_eq_true in_range
      simp [Io.call, ready, in_range, between.1, between.2]
    · have outside : ¬ (t ≥ TS_MIN ∧ t < TS_MAX) := fun between => in_range (decide_eq_true between)
      rw [Bool.not_eq_true] at in_range
      simp only [Io.call, ready, in_range]
      refine iff_of_false Bool.false_ne_true fun all => outside ⟨all.1, all.2.1⟩

theorem set_timestamp_epoch {t : Int} {s : Io} (done : (set_timestamp t s).1 = true) :
    ((io_now_epoch (set_timestamp t s).2).toNat : Int) = t := by
  have between := (set_timestamp_iff t s).mp done
  have stored : io_now_epoch (set_timestamp t s).2 = UInt32.ofNat (t % 2^32).toNat := by
    rw [set_timestamp] at done ⊢
    split_ifs at done ⊢
    rfl
  simp only [TS_MIN, TS_MAX] at between
  rw [stored, UInt32.toNat_ofNat']
  omega

theorem set_timestamp_sets (t : Int) (s : Io) : SetsTime t s ((set_timestamp t s).1 = true) (set_timestamp t s).2 :=
  ⟨set_timestamp_iff t s, fun done => ⟨set_timestamp_hooks t s, set_timestamp_epoch done⟩⟩

theorem saturate_le (negative : Bool) (n : Nat) : saturate negative n ≤ 2147483647 := by
  cases negative with
  | true =>
    have held : saturate true n = -(min n 2147483648 : Nat) := rfl
    omega
  | false =>
    have held : saturate false n = (min n 2147483647 : Nat) := rfl
    omega

/-- A `long` holds every time but those beyond its ends. -/
theorem saturate_cases (negative : Bool) (n : Nat) :
    saturate negative n = time_of negative n
      ∨ saturate negative n = 2147483647 ∧ time_of negative n > 2147483647
      ∨ saturate negative n = -2147483648 ∧ time_of negative n < -2147483648 := by
  cases negative with
  | true =>
    have held : saturate true n = -(min n 2147483648 : Nat) := rfl
    have time : time_of true n = -n := rfl
    omega
  | false =>
    have held : saturate false n = (min n 2147483647 : Nat) := rfl
    have time : time_of false n = n := rfl
    omega

/-- Nothing succeeds as it should for a time that the clock does not take. -/
theorem refuses {t : Int} {s s' : Io} {success : Prop} (refused : ¬ success)
    (never : ¬ (TS_MIN ≤ t ∧ t < TS_MAX ∧ s.rtc_ready = true)) : SetsTime t s success s' :=
  ⟨iff_of_false refused never, fun done => absurd done refused⟩

/-- What a `long` holds of a number sets the clock as the number should iff this is not too large or nothing can. -/
theorem saturate_sets_iff (negative : Bool) (n : Nat) (s : Io) :
    SetsTime (time_of negative n) s ((set_timestamp (saturate negative n) s).1 = true)
        (set_timestamp (saturate negative n) s).2
      ↔ s.rtc_ready = false ∨ time_of negative n ≤ 2147483647 := by
  constructor
  · intro sets
    by_contra late
    rw [not_or, Bool.not_eq_false, Int.not_le] at late
    obtain ⟨ready, late⟩ := late
    rcases saturate_cases negative n with same | ⟨last, -⟩ | ⟨-, early⟩
    · have between := saturate_le negative n
      omega
    · -- the last time that a `long` holds is one that the clock takes
      have done : (set_timestamp (saturate negative n) s).1 = true := by
        rw [set_timestamp_iff, last]
        exact ⟨by decide, by decide, ready⟩
      have other := (sets.2 done).2
      rw [set_timestamp_epoch done, last] at other
      omega
    · omega
  · rintro (never | early)
    · refine refuses ?_ fun all => ?_
      · rw [set_timestamp_iff, never]
        exact fun all => Bool.false_ne_true all.2.2
      · rw [never] at all
        exact Bool.false_ne_true all.2.2
    · rcases saturate_cases negative n with same | ⟨-, late⟩ | ⟨first, before⟩
      · rw [same]
        exact set_timestamp_sets _ s
      · omega
      · refine refuses ?_ fun all => ?_
        · rw [set_timestamp_iff, first]
          exact fun all => absurd all.1 (by decide)
        · have least := all.1
          simp only [TS_MIN] at least
          omega

def ts_name : Name := ⟨ascii "ts", by decide +kernel⟩

def cmd_name : Name := ⟨ascii "cmd", by decide +kernel⟩

def time_text : Text := ⟨ascii "time", by decide +kernel⟩

/-- The body of a request that sets the time: a flat object with the number. -/
def PostsTime (o : Object) (negative : Bool) (n : Nat) : Prop :=
  ∃ m ∈ o.members, m.key = ts_name ∧ m.value = .int negative n

/-- A time command over the WebSocket: a flat object with the number behind the command. -/
def SendsTime (o : Object) (negative : Bool) (n : Nat) : Prop :=
  ∃ pre m post, o.members = pre ++ m :: post ∧ m.key = cmd_name ∧ m.value = .str time_text
    ∧ ∃ m' ∈ post, m'.key = ts_name ∧ m'.value = .int negative n

def refused_json : List UInt8 := ascii "\x7b\"ok\":false\x7d"

section
variable {o : Object} {negative : Bool} {n : Nat}

theorem post_time_posts (posts : PostsTime o negative n) (after : List UInt8) (s : Io) :
    post_time (o.text ++ after) o.text.length s
      = (if (set_timestamp (saturate negative n) s).1 then respond_json_ok else bad_request "invalid timestamp",
        (set_timestamp (saturate negative n) s).2) := by
  have number : json_get_i32 (o.text ++ after) o.text.length (ascii "ts") = some (saturate negative n) := by
    rw [show ascii "ts" = ts_name.1 from rfl, json_get_i32_object, (lookup_iff o ts_name _).mpr posts]
    rfl
  rw [post_time, number]

/-- The members before one have other names. -/
theorem earlier_other {ms pre post : List Member} {m : Member} (distinct : (ms.map (·.key)).Nodup)
    (split : ms = pre ++ m :: post) : ∀ m' ∈ pre, m.key.1 ≠ m'.key.1 := by
  intro m' member same
  rw [split, List.map_append, List.nodup_append] at distinct
  exact distinct.2.2 m'.key (List.mem_map_of_mem member) m.key (List.mem_map_of_mem List.mem_cons_self)
    (Subtype.ext same.symm)

/-- The time command is taken for one, and its number is read behind it. -/
theorem ws_handle_cmd_time (web_build_io_json : Io → List UInt8)
    (fw_cmd : List UInt8 → Nat → Io → Option (List UInt8) × Io) {cmd rest : List UInt8}
    (begins : cmd = (Value.str time_text).text ++ rest) {len : Nat} {ts : Int}
    (number : json_get_i32 cmd len (ascii "ts") = some ts) (s : Io) :
    ws_handle_cmd web_build_io_json fw_cmd cmd len s
      = (some (if (set_timestamp ts s).1 then JSON_OK else refused_json), (set_timestamp ts s).2) := by
  have first : cmd = 34 :: 116 :: 105 :: 109 :: 101 :: 34 :: rest := begins
  have is_time : cmd.take ("time".length + 2) = 34 :: (ascii "time" ++ [34]) := by rw [first]; rfl
  have not_do : cmd.take ("do".length + 2) ≠ 34 :: (ascii "do" ++ [34]) := by
    rw [first]
    exact fun same => absurd (List.cons.inj (List.cons.inj same).2).1 (by decide)
  have not_reg : cmd.take ("reg".length + 2) ≠ 34 :: (ascii "reg" ++ [34]) := by
    rw [first]
    exact fun same => absurd (List.cons.inj (List.cons.inj same).2).1 (by decide)
  rw [ws_handle_cmd]
  simp only [is_time, not_do, not_reg, number, decide_false, decide_true, Bool.false_eq_true, false_and, if_false,
    true_and, Option.isSome_some, if_true, Option.getD_some]
  rfl

theorem ws_text_sends (sends : SendsTime o negative n) (fits : o.text.length < WS_RX_MAX) (stale : List UInt8)
    (web_build_io_json : Io → List UInt8) (fw_cmd : List UInt8 → Nat → Io → Option (List UInt8) × Io) (s : Io) :
    ws_text web_build_io_json fw_cmd o.text stale s
      = (some (if (set_timestamp (saturate negative n) s).1 then JSON_OK else refused_json),
        (set_timestamp (saturate negative n) s).2) := by
  obtain ⟨pre, m, post, split, command, time, m', member, here, value⟩ := sends
  obtain ⟨before, after, split'⟩ := List.append_of_mem member
  have later : (post.map (·.key)).Nodup := by
    have distinct := o.distinct
    rw [split, List.map_append, List.map_cons, List.nodup_append] at distinct
    exact (List.nodup_cons.mp distinct.2.1).2
  -- where the search for the command ends, and where that for the number ends behind it
  have place : value_in (ascii "cmd") o.text
      = some (m.value.text ++ (m.after_value.1 ++ behind o.closed post)) := by
    have named : ascii "cmd" = m.key.1 := congrArg Subtype.val command.symm
    rw [value_in_text, split, named, value_in_present m.key.2 o.closed (earlier_other o.distinct split) rfl]
  have place' : value_in (ascii "ts") (m.value.text ++ (m.after_value.1 ++ behind o.closed post))
      = some (m'.value.text ++ (m'.after_value.1 ++ behind o.closed after)) := by
    have named : ascii "ts" = m'.key.1 := congrArg Subtype.val here.symm
    rw [named, value_in_from_value m'.key.2, split',
      value_in_present m'.key.2 o.closed (earlier_other later split') rfl]
  have number := json_get_i32_found place' (member_delimited m'.after_value o.closed after) (0 :: stale)
  rw [value] at number
  have is_end := value_in_suffix place
  have length := is_end.length_le
  rw [ws_text, if_pos fits]
  simp only [json_find_value_eq, place, Option.map_some, drop_at (0 :: stale) is_end, Nat.sub_sub_self length]
  have begins : m.value.text ++ (m.after_value.1 ++ behind o.closed post) ++ 0 :: stale
      = (Value.str time_text).text ++ ((m.after_value.1 ++ behind o.closed post) ++ 0 :: stale) := by
    rw [time, List.append_assoc]
  exact ws_handle_cmd_time web_build_io_json fw_cmd begins number s

end

theorem sets_congr {t : Int} {s s' : Io} {success success' : Prop} (same : success ↔ success') :
    SetsTime t s success s' ↔ SetsTime t s success' s' := by
  rw [propext same]

theorem answer_iff {α : Type} {yes no : α} (differ : no ≠ yes) (b : Bool) :
    (if b then yes else no) = yes ↔ b = true := by
  cases b with
  | true => exact iff_of_true rfl rfl
  | false => exact iff_of_false differ Bool.false_ne_true

theorem bad_request_ne (err : String) : bad_request err ≠ respond_json_ok := by
  intro same
  exact absurd (Route.mem.inj same).1 (by decide)

/-- Over UDP every time is set as it should be. -/
theorem udp_sets (v : FwVersion) {cap : Nat} (room : 2 ≤ cap) (now : Nat) {data : List UInt8} (four : 4 ≤ data.length)
    (u : UdpCfg) (s : Io) :
    SetsTime (io_get_be32 data) s ((udp_app_cmd v cap now UDP_CMD_SET_TIME data u s).1 = [UDP_CMD_SET_TIME, 1])
      (udp_app_cmd v cap now UDP_CMD_SET_TIME data u s).2.2 := by
  have answer : udp_app_cmd v cap now UDP_CMD_SET_TIME data u s
      = (reply_ok cap UDP_CMD_SET_TIME (if (set_timestamp (io_get_be32 data) s).1 then 1 else 0), u,
        (set_timestamp (io_get_be32 data) s).2) := by
    rw [udp_app_cmd, if_neg (by decide), if_neg (by decide), if_neg (by decide), if_neg (by decide), if_pos rfl,
      if_pos four]
  have success : reply_ok cap UDP_CMD_SET_TIME (if (set_timestamp (io_get_be32 data) s).1 then 1 else 0)
      = [UDP_CMD_SET_TIME, 1] ↔ (set_timestamp (io_get_be32 data) s).1 = true := by
    rw [reply_ok, if_neg (Nat.not_lt.mpr room)]
    cases (set_timestamp (io_get_be32 data) s).1 <;> decide
  rw [answer]
  exact (sets_congr success).mpr (set_timestamp_sets _ s)

/-- The two time commands of the web set the time that the number says iff it is at most 2147483647 or there is no
    clock to set. Over UDP the same 32 bits set the time in any case. -/
theorem web_time_iff {ω : Type} (history_web_remove : List UInt8 → ω → Bool × ω) (web_build_io_json : Io → List UInt8)
    (fw_cmd : List UInt8 → Nat → Io → Option (List UInt8) × Io) (negative : Bool) (n : Nat) (s : Io) (w : ω)
    {body : Object} (posts : PostsTime body negative n) (pipelined : List UInt8)
    {frame : Object} (sends : SendsTime frame negative n) (fits : frame.text.length < WS_RX_MAX) (stale : List UInt8) :
    let posted := dispatch_post history_web_remove (ascii "/api/time") (body.text ++ pipelined) body.text.length s w
    let sent := ws_text web_build_io_json fw_cmd frame.text stale s
    (SetsTime (time_of negative n) s (posted.1 = respond_json_ok) posted.2.1
        ∧ SetsTime (time_of negative n) s (sent.1 = some JSON_OK) sent.2
      ↔ s.rtc_ready = false ∨ time_of negative n ≤ 2147483647)
      ∧ ∀ (v : FwVersion) (cap now : Nat) (data : List UInt8) (u : UdpCfg),
        2 ≤ cap → 4 ≤ data.length → (io_get_be32 data : Int) = time_of negative n →
          let answered := udp_app_cmd v cap now UDP_CMD_SET_TIME data u s
          SetsTime (time_of negative n) s (answered.1 = [UDP_CMD_SET_TIME, 1]) answered.2.2 := by
  intro posted sent
  have http : posted = registers (if (set_timestamp (saturate negative n) s).1 then respond_json_ok
      else bad_request "invalid timestamp", (set_timestamp (saturate negative n) s).2) w := by
    rw [← post_time_posts posts pipelined s]
    change dispatch_post _ _ _ _ _ _ = _
    rw [dispatch_post, if_neg (by decide), if_neg (by decide), if_pos rfl]
  have ws : sent = (some (if (set_timestamp (saturate negative n) s).1 then JSON_OK else refused_json),
      (set_timestamp (saturate negative n) s).2) :=
    ws_text_sends sends fits stale web_build_io_json fw_cmd s
  have http_success : posted.1 = respond_json_ok ↔ (set_timestamp (saturate negative n) s).1 = true := by
    rw [http]
    exact answer_iff (bad_request_ne _) _
  have ws_success : sent.1 = some JSON_OK ↔ (set_timestamp (saturate negative n) s).1 = true := by
    rw [ws, Option.some.injEq]
    exact answer_iff (by decide) _
  constructor
  · rw [sets_congr http_success, sets_congr ws_success, http, ws]
    exact (and_self_iff).trans (saturate_sets_iff negative n s)
  · intro v cap now data u room four same answered
    rw [← same]
    exact udp_sets v room now four u s

/-! A request with the body `{"ts":n}`, and a frame `{"cmd":"time","ts":n}`. -/

def tight (key : Name) (value : Value) : Member where
  before := no_blanks
  key
  after_key := no_blanks
  before_value := no_blanks
  value
  after_value := no_blanks

def body_at (n : Nat) : Object where
  before := no_blanks
  opened := no_blanks
  members := [tight ts_name (.int false n)]
  closed := no_blanks
  distinct := List.nodup_singleton _

def frame_at (n : Nat) : Object where
  before := no_blanks
  opened := no_blanks
  members := [tight cmd_name (.str time_text), tight ts_name (.int false n)]
  closed := no_blanks
  distinct := by
    have differ : cmd_name ≠ ts_name := by decide
    exact List.nodup_cons.mpr ⟨fun same => differ (List.mem_singleton.mp same), List.nodup_singleton _⟩

theorem body_posts (n : Nat) : PostsTime (body_at n) false n :=
  ⟨tight ts_name (.int false n), List.mem_singleton_self _, rfl, rfl⟩

theorem frame_sends (n : Nat) : SendsTime (frame_at n) false n :=
  ⟨[], tight cmd_name (.str time_text), [tight ts_name (.int false n)], rfl, rfl, rfl,
    tight ts_name (.int false n), List.mem_singleton_self _, rfl, rfl⟩

def keep_files (_ : List UInt8) (w : Unit) : Bool × Unit := (false, w)

def no_firmware (_ : List UInt8) (_ : Nat) (s : Io) : Option (List UInt8) × Io := (none, s)

/-- A time of the year 2001 is set both ways. -/
theorem web_time_2001 :
    (dispatch_post keep_files (ascii "/api/time") ((body_at 1000000000).text ++ []) (body_at 1000000000).text.length
        MultiWrites.timed.io ()).1 = respond_json_ok
      ∧ (ws_text (fun _ => []) no_firmware (frame_at 1000000000).text [] MultiWrites.timed.io).1 = some JSON_OK := by
  have both := (web_time_iff keep_files (fun _ => []) no_firmware false 1000000000 MultiWrites.timed.io ()
    (body_posts 1000000000) [] (frame_sends 1000000000) (by decide) []).1.mpr (.inr (by decide))
  have taken : TS_MIN ≤ time_of false 1000000000 ∧ time_of false 1000000000 < TS_MAX
      ∧ MultiWrites.timed.io.rtc_ready = true := by decide
  exact ⟨both.1.1.mpr taken, both.2.1.mpr taken⟩

/-- A time of the year 2096 is acknowledged, and the clock stands in 2038. -/
theorem late_time_taken :
    ¬ ∀ (s : Io) (o : Object) (negative : Bool) (n : Nat), PostsTime o negative n →
      SetsTime (time_of negative n) s
        ((dispatch_post keep_files (ascii "/api/time") (o.text ++ []) o.text.length s ()).1 = respond_json_ok)
        (dispatch_post keep_files (ascii "/api/time") (o.text ++ []) o.text.length s ()).2.1 := by
  intro always
  have sets := always MultiWrites.timed.io (body_at 4000000000) false 4000000000 (body_posts 4000000000)
  have accepted : TS_MIN ≤ time_of false 4000000000 ∧ time_of false 4000000000 < TS_MAX
      ∧ MultiWrites.timed.io.rtc_ready = true := by decide
  have clock := (sets.2 (sets.1.mpr accepted)).2
  revert clock
  decide +kernel

end IoEdgeHub.WebTime
