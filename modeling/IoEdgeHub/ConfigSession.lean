import IoEdgeHub.ConfigForm
import IoEdgeHub.Machine

/-!
A write of the configuration over the WebSocket, from the button on. The page goes on to take
what the device goes on to send, in the order it was sent, and the other tasks of the device
go on to work; the answer comes somewhere between. Texts from before the write do not undo
what was entered, and those from after it show it (`write_settles`). A frame that the send
buffer has no room for is dropped as a whole (`ws_send`): a push comes again in the next period,
but if it was the acknowledgement, the page waits for it for good.

Nobody else writes these registers meanwhile, and neither a field nor a tab nor another button
of the page is used: its acknowledgements do not say what they are for.
-/
namespace IoEdgeHub.ConfigSession
open IoEdgeHub.CStrings (ascii)
open IoEdgeHub.HistoryListing (Memory)
open IoEdgeHub.JsonValues IoEdgeHub.Regmap IoEdgeHub.WebCmds IoEdgeHub.WebConfig IoEdgeHub.WebSnapshots IoEdgeHub.WebPage
open IoEdgeHub.ConfigForm

/-- The device, the page, and the texts on their way in the two directions. -/
structure System where
  io : Io
  page : Page
  up : List (List UInt8)
  down : List (List UInt8)

inductive Event
  | push_io (reads : Nat → Io) (tick_ms : UInt32) (m : Memory)
  | push_regs (reads : Nat → Io) (m : Memory)
  | push_info (reads : Nat → Io) (around : Surroundings) (m : Memory)
  | works (io : Io)
  | handle (stale : List UInt8) (room : Bool)
  | deliver

/-- The answer, if this is the handling of a text, finds room in the send buffer. -/
def Event.heard : Event → Bool
  | .handle _ room => room
  | _ => true

section
variable (build : Build) (web_build_io_json : Io → List UInt8) (fw_cmd : List UInt8 → Nat → Io → Option (List UInt8) × Io)

/-- The device sends its state, another of its tasks works, it handles the next text of the page, or the page takes the
    next one of the device. A push that is dropped is none. -/
def step (s : System) : Event → System
  | .push_io reads tick_ms m => { s with down := s.down ++ [sent (WebSnapshots.web_build_io_json WS_TX_BUF reads tick_ms m)] }
  | .push_regs reads m => { s with down := s.down ++ [sent (web_build_regs_json WS_TX_BUF reads m)] }
  | .push_info reads around m => { s with down := s.down ++ [sent (web_build_info_json WS_TX_BUF build reads around m)] }
  | .works io => { s with io }
  | .handle stale room =>
    match s.up with
    | [] => s
    | text :: rest =>
      let answer := ws_text web_build_io_json fw_cmd text stale s.io
      { s with io := answer.2, up := rest, down := s.down ++ if room then answer.1.toList else [] }
  | .deliver =>
    match s.down with
    | [] => s
    | text :: rest => { s with page := onmessage text s.page, down := rest }

end

/-- The button that writes the configuration (`applyCfg`). -/
def applyCfg (s : System) : System :=
  { s with page := { s.page with cfgWriting := true, cfAckCb := true }, up := s.up ++ [(cfg_frame s.page.form).text] }

/-- The registers of the configuration are the same. -/
def SameConfig (io io' : Io) : Prop := ∀ a, 6 ≤ a → a ≤ 13 → get_holding_reg a io = get_holding_reg a io'

/-- Nobody else writes the configuration. -/
def Calm (s : System) : Event → Prop
  | .push_regs reads _ => ∀ k, SameConfig (reads k) s.io
  | .works io => SameConfig io s.io
  | _ => True

/-- A text that is no acknowledgement. -/
def Typed (data : List UInt8) : Prop := ∃ d, parse data = some d ∧ (d.get (ascii "t")).isSome = true

/-- A text that shows the settings if it shows registers. -/
def Fresh (v : Settings) (data : List UInt8) : Prop :=
  ∃ d, parse data = some d ∧ (d.get (ascii "t")).isSome = true ∧ (Is (ascii "regs") (d.get (ascii "t")) = true → filled d = v.echo)

section
variable {v : Settings} {data : List UInt8} {p : Page}

theorem fresh_typed (fresh : Fresh v data) : Typed data := by
  obtain ⟨d, read, type, -⟩ := fresh
  exact ⟨d, read, type⟩

theorem stand_same {io io' : Io} (same : SameConfig io' io) (stand : v.Stand io) : v.Stand io' := by
  intro r member
  have bounds := regs_config v member
  rw [same r.1 bounds.1 bounds.2]
  exact stand r member

theorem pushed_io (reads : Nat → Io) (tick_ms : UInt32) (m : Memory) :
    Fresh v (sent (WebSnapshots.web_build_io_json WS_TX_BUF reads tick_ms m)) := by
  have whole := io_printed (by decide : WS_TX_BUF < 2^31) reads m (by decide) tick_ms
  refine ⟨_, parse_sent whole (plain_io reads tick_ms), rfl, fun regs => ?_⟩
  cases regs

theorem pushed_regs_typed (reads : Nat → Io) (m : Memory) : Typed (sent (web_build_regs_json WS_TX_BUF reads m)) := by
  have whole := regs_printed (by decide : WS_TX_BUF < 2^31) reads m (by decide)
  exact ⟨_, parse_sent whole (plain_regs reads), rfl⟩

theorem pushed_regs {reads : Nat → Io} (stand : ∀ k, v.Stand (reads k)) (m : Memory) :
    Fresh v (sent (web_build_regs_json WS_TX_BUF reads m)) := by
  have whole := regs_printed (by decide : WS_TX_BUF < 2^31) reads m (by decide)
  refine ⟨_, parse_sent whole (plain_regs reads), rfl, fun _ => ?_⟩
  rw [filled_value, form_stand stand]

theorem pushed_info {build : Build} (short : build.version.length ≤ 309) (reads : Nat → Io) (around : Surroundings) (m : Memory) :
    Fresh v (sent (web_build_info_json WS_TX_BUF build reads around m)) := by
  have fits : 394 + build.version.length < WS_TX_BUF := Nat.lt_of_le_of_lt (Nat.add_le_add_left short 394) (by decide)
  have whole := info_printed (by decide : WS_TX_BUF < 2^31) reads m fits around
  have type := info_type reads build around
  refine ⟨_, parse_sent whole (plain_info build reads around), ?_, ?_⟩
  · rw [type]
    rfl
  · rw [type]
    intro regs
    cases regs

/-- The page is as it was, but for what it shows outside of the form. -/
structure Untouched (p p' : Page) : Prop where
  dirty : p'.cfgDirty = p.cfgDirty
  writing : p'.cfgWriting = p.cfgWriting
  waiting : p'.cfAckCb = p.cfAckCb
  toast : p'.toast = p.toast

/-- A text that is no acknowledgement changes nothing in the form but by filling it with registers. -/
theorem onmessage_typed {d : Value} (read : parse data = some d) (type : (d.get (ascii "t")).isSome = true) (p : Page) :
    Untouched p (onmessage data p) ∧ ((onmessage data p).form = p.form ∨
      Is (ascii "regs") (d.get (ascii "t")) = true ∧ p.cfgWriting = false ∧ (onmessage data p).form = filled d) := by
  have some_ : (d.get (ascii "t")).isNone = false := by rw [Option.isNone_eq_false_iff, type]
  have fills {q : Page} (same : Untouched p q) (form : q.form = p.form) :
      Untouched p (if q.curTab = .cf then fillCfgForm d q else q) ∧
        ((if q.curTab = .cf then fillCfgForm d q else q).form = p.form ∨
          p.cfgWriting = false ∧ (if q.curTab = .cf then fillCfgForm d q else q).form = filled d) := by
    split
    · rw [fillCfgForm]
      split
      case isTrue clean =>
        rw [Bool.and_eq_true, Bool.not_eq_true', Bool.not_eq_true'] at clean
        exact ⟨⟨same.dirty, same.writing, same.waiting, same.toast⟩, .inr ⟨same.writing.symm.trans clean.2, rfl⟩⟩
      case isFalse => exact ⟨same, .inl form⟩
    · exact ⟨same, .inl form⟩
  rw [onmessage, read]
  simp only [some_, Bool.false_eq_true, if_false]
  split
  · exact ⟨⟨rfl, rfl, rfl, rfl⟩, .inl rfl⟩
  · split
    case isTrue regs =>
      simp only [regs, true_and]
      refine fills ?_ ?_
      · split <;> exact ⟨rfl, rfl, rfl, rfl⟩
      · split <;> rfl
    case isFalse =>
      split <;> exact ⟨⟨rfl, rfl, rfl, rfl⟩, .inl rfl⟩

/-- While the write is under way nothing touches the form. -/
theorem onmessage_writing (typed : Typed data) (writing : p.cfgWriting = true) :
    Untouched p (onmessage data p) ∧ (onmessage data p).form = p.form := by
  obtain ⟨d, read, type⟩ := typed
  obtain ⟨untouched, kept | ⟨-, idle, -⟩⟩ := onmessage_typed read type p
  · exact ⟨untouched, kept⟩
  · rw [writing] at idle
    cases idle

theorem onmessage_fresh (fresh : Fresh v data) (p : Page) :
    Untouched p (onmessage data p) ∧ ((onmessage data p).form = p.form ∨ (onmessage data p).form = v.echo) := by
  obtain ⟨d, read, type, shows⟩ := fresh
  obtain ⟨untouched, kept | ⟨regs, -, form⟩⟩ := onmessage_typed read type p
  · exact ⟨untouched, .inl kept⟩
  · exact ⟨untouched, .inr (form.trans (shows regs))⟩

theorem onmessage_ok (waiting : p.cfAckCb = true) :
    onmessage JSON_OK p =
      { p with cfAckCb := false, cfgWriting := false, cfgDirty := false, toast := some .written } := by
  have plain_ : Plain (.object [(ascii "ok", .flag true)]) := by
    refine .object (by decide) ?_
    simp only [List.forall_mem_cons]
    exact ⟨.flag true, fun _ none_ => by cases none_⟩
  have read : parse JSON_OK = some (.object [(ascii "ok", .flag true)]) := parse_text plain_
  have no_type : Value.get (ascii "t") (.object [(ascii "ok", .flag true)]) = none := rfl
  have ok : Value.get (ascii "ok") (.object [(ascii "ok", .flag true)]) = some (.flag true) := rfl
  rw [onmessage, read]
  simp only [no_type, Option.isNone_none, if_true, waiting, done, ok]

end

/-- The command is on its way; it has been handled, and the acknowledgement is on its way, behind older texts and before
    newer ones; or it was dropped, which is no phase where each is `heard`; or the page has it. -/
inductive Write (v : Settings) (heard : Bool) (s : System) : Prop
  | asked (up : s.up = [(cfg_frame v.form).text]) (down : ∀ t ∈ s.down, Typed t) (writing : s.page.cfgWriting = true)
    (waiting : s.page.cfAckCb = true) (form : s.page.form = v.form)
  | answered (old new : List (List UInt8)) (up : s.up = []) (stand : v.Stand s.io) (down : s.down = old ++ JSON_OK :: new)
    (olds : ∀ t ∈ old, Typed t) (news : ∀ t ∈ new, Fresh v t) (writing : s.page.cfgWriting = true)
    (waiting : s.page.cfAckCb = true) (form : s.page.form = v.form)
  | unheard (dropped : heard = false) (up : s.up = []) (stand : v.Stand s.io) (down : ∀ t ∈ s.down, Typed t)
    (writing : s.page.cfgWriting = true) (waiting : s.page.cfAckCb = true) (form : s.page.form = v.form)
  | settled (up : s.up = []) (stand : v.Stand s.io) (down : ∀ t ∈ s.down, Fresh v t) (writing : s.page.cfgWriting = false)
    (dirty : s.page.cfgDirty = false) (waiting : s.page.cfAckCb = false) (toast : s.page.toast = some .written)
    (form : s.page.form = v.form ∨ s.page.form = v.echo)

section
variable {v : Settings} {heard : Bool} {s : System}

/-- A text that the device sends now, typed in any case and fresh if the registers have the settings. -/
theorem write_push {data : List UInt8} (typed : Typed data) (fresh : v.Stand s.io → Fresh v data) (write : Write v heard s) :
    Write v heard { s with down := s.down ++ [data] } := by
  cases write with
  | asked up down writing waiting form =>
    refine .asked up ?_ writing waiting form
    simp only [List.forall_mem_append, List.forall_mem_singleton]
    exact ⟨down, typed⟩
  | answered old new up stand down olds news writing waiting form =>
    refine .answered old (new ++ [data]) up stand ?_ olds ?_ writing waiting form
    · simp only [down, List.append_assoc, List.cons_append]
    · simp only [List.forall_mem_append, List.forall_mem_singleton]
      exact ⟨news, fresh stand⟩
  | unheard dropped up stand down writing waiting form =>
    refine .unheard dropped up stand ?_ writing waiting form
    simp only [List.forall_mem_append, List.forall_mem_singleton]
    exact ⟨down, typed⟩
  | settled up stand down writing dirty waiting toast form =>
    refine .settled up stand ?_ writing dirty waiting toast form
    simp only [List.forall_mem_append, List.forall_mem_singleton]
    exact ⟨down, fresh stand⟩

theorem write_works {io : Io} (same : SameConfig io s.io) (write : Write v heard s) : Write v heard { s with io } := by
  cases write with
  | asked up down writing waiting form => exact .asked up down writing waiting form
  | answered old new up stand down olds news writing waiting form =>
    exact .answered old new up (stand_same same stand) down olds news writing waiting form
  | unheard dropped up stand down writing waiting form =>
    exact .unheard dropped up (stand_same same stand) down writing waiting form
  | settled up stand down writing dirty waiting toast form =>
    exact .settled up (stand_same same stand) down writing dirty waiting toast form

/-- The page takes the first of the texts on their way. -/
theorem write_deliver {data : List UInt8} {rest : List (List UInt8)} (first : s.down = data :: rest) (write : Write v heard s) :
    Write v heard { s with page := onmessage data s.page, down := rest } := by
  cases write with
  | asked up down writing waiting form =>
    rw [first, List.forall_mem_cons] at down
    obtain ⟨untouched, kept⟩ := onmessage_writing down.1 writing
    exact .asked up down.2 (untouched.writing.trans writing) (untouched.waiting.trans waiting) (kept.trans form)
  | answered old new up stand down olds news writing waiting form =>
    rw [first] at down
    cases old with
    | nil =>
      obtain ⟨rfl, rfl⟩ := List.cons.inj down
      have page := onmessage_ok waiting
      refine .settled up stand news ?_ ?_ ?_ ?_ (.inl ?_) <;> rw [page]
      exact form
    | cons earlier old =>
      obtain ⟨rfl, rfl⟩ := List.cons.inj down
      rw [List.forall_mem_cons] at olds
      obtain ⟨untouched, kept⟩ := onmessage_writing olds.1 writing
      exact .answered old new up stand rfl olds.2 news (untouched.writing.trans writing) (untouched.waiting.trans waiting)
        (kept.trans form)
  | unheard dropped up stand down writing waiting form =>
    rw [first, List.forall_mem_cons] at down
    obtain ⟨untouched, kept⟩ := onmessage_writing down.1 writing
    exact .unheard dropped up stand down.2 (untouched.writing.trans writing) (untouched.waiting.trans waiting) (kept.trans form)
  | settled up stand down writing dirty waiting toast form =>
    rw [first, List.forall_mem_cons] at down
    obtain ⟨untouched, shows⟩ := onmessage_fresh down.1 s.page
    refine .settled up stand down.2 (untouched.writing.trans writing) (untouched.dirty.trans dirty)
      (untouched.waiting.trans waiting) (untouched.toast.trans toast) ?_
    rcases shows with kept | echo
    · rw [kept]
      exact form
    · exact .inr echo

variable {build : Build} {web_build_io_json : Io → List UInt8} {fw_cmd : List UInt8 → Nat → Io → Option (List UInt8) × Io}

theorem write_handle (stale : List UInt8) {room : Bool} (sends : heard = true → room = true) (write : Write v heard s) :
    Write v heard (step build web_build_io_json fw_cmd s (.handle stale room)) := by
  cases write with
  | asked up down writing waiting form =>
    have answer := ws_text_settings v web_build_io_json fw_cmd stale s.io
    rw [step, up]
    simp only [answer]
    cases room with
    | true => exact .answered s.down [] rfl (stand_puts v s.io) rfl down (fun _ none_ => by cases none_) writing waiting form
    | false =>
      have dropped : heard = false := Bool.eq_false_iff.mpr fun all => Bool.false_ne_true (sends all)
      refine .unheard dropped rfl (stand_puts v s.io) ?_ writing waiting form
      simp only [Bool.false_eq_true, if_false, List.append_nil]
      exact down
  | answered old new up stand down olds news writing waiting form =>
    rw [step, up]
    exact .answered old new up stand down olds news writing waiting form
  | unheard dropped up stand down writing waiting form =>
    rw [step, up]
    exact .unheard dropped up stand down writing waiting form
  | settled up stand down writing dirty waiting toast form =>
    rw [step, up]
    exact .settled up stand down writing dirty waiting toast form

theorem write_step (short : build.version.length ≤ 309) (s : System) (e : Event) (write : Write v heard s)
    (calm : Calm s e ∧ (heard = true → e.heard = true)) : Write v heard (step build web_build_io_json fw_cmd s e) := by
  obtain ⟨calm, sends⟩ := calm
  cases e with
  | push_io reads tick_ms m =>
    have fresh : Fresh v _ := pushed_io reads tick_ms m
    exact write_push (fresh_typed fresh) (fun _ => fresh) write
  | push_regs reads m =>
    exact write_push (pushed_regs_typed reads m)
      (fun stand => pushed_regs (fun k => stand_same (calm k) stand) m) write
  | push_info reads around m =>
    have fresh : Fresh v _ := pushed_info short reads around m
    exact write_push (fresh_typed fresh) (fun _ => fresh) write
  | works io => exact write_works calm write
  | handle stale room => exact write_handle stale sends write
  | deliver =>
    rw [step]
    split
    · exact write
    · rename_i data rest first
      exact write_deliver first write

theorem write_run (short : build.version.length ≤ 309) (idle : s.up = []) (texts : ∀ t ∈ s.down, Typed t)
    (entered : s.page.form = v.form) {es : List Event}
    (calm : Machine.Meets (step build web_build_io_json fw_cmd) Calm (applyCfg s) es)
    (sends : heard = true → ∀ e ∈ es, e.heard = true) :
    Write v heard (es.foldl (step build web_build_io_json fw_cmd) (applyCfg s)) := by
  have start : Write v heard (applyCfg s) := by
    refine .asked ?_ texts rfl rfl entered
    rw [applyCfg, idle, entered]
    rfl
  refine Machine.invariant (write_step short) start (Machine.meets_imp ?_ (Machine.meets_at calm))
  rintro now e ⟨fine, before, after, split, -⟩
  exact ⟨fine, fun all => sends all e (split ▸ List.mem_append_right before List.mem_cons_self)⟩

theorem write_shows (write : Write v heard s) :
    (s.page.form = v.form ∨ s.page.form = v.echo ∧ s.page.cfgWriting = false) ∧
      (s.page.cfgWriting = false → v.Stand s.io ∧ s.page.cfgDirty = false ∧ s.page.toast = some .written) ∧
      (s.up = [] → v.Stand s.io) := by
  cases write with
  | asked up down writing waiting form =>
    refine ⟨.inl form, fun done_ => ?_, fun none_ => ?_⟩
    · rw [writing] at done_
      cases done_
    · rw [up] at none_
      cases none_
  | answered old new up stand down olds news writing waiting form =>
    refine ⟨.inl form, fun done_ => ?_, fun _ => stand⟩
    rw [writing] at done_
    cases done_
  | unheard dropped up stand down writing waiting form =>
    refine ⟨.inl form, fun done_ => ?_, fun _ => stand⟩
    rw [writing] at done_
    cases done_
  | settled up stand down writing dirty waiting toast form =>
    refine ⟨?_, fun _ => ⟨stand, dirty, toast⟩, fun _ => stand⟩
    rcases form with entered | echo
    · exact .inl entered
    · exact .inr ⟨echo, writing⟩

/-- With nothing on its way either way, the page has the acknowledgement. -/
theorem write_heard (write : Write v true s) (none_up : s.up = []) (none_down : s.down = []) : s.page.cfgWriting = false := by
  cases write with
  | asked up down writing waiting form =>
    rw [up] at none_up
    cases none_up
  | answered old new up stand down olds news writing waiting form =>
    rw [down] at none_down
    cases old <;> cases none_down
  | unheard dropped up stand down writing waiting form => cases dropped
  | settled up stand down writing dirty waiting toast form => exact writing

/-- From the button on, in every order of the steps, the form shows what was entered, or after the acknowledgement what
    the registers make of it, which differs for 115200 only. Once the command is handled the registers have the
    settings, and the page says so only then. If the answer finds room in the send buffer, it does say so when no text is
    on its way. -/
theorem write_settles (short : build.version.length ≤ 309) (idle : s.up = []) (texts : ∀ t ∈ s.down, Typed t)
    (entered : s.page.form = v.form) {es : List Event}
    (calm : Machine.Meets (step build web_build_io_json fw_cmd) Calm (applyCfg s) es) :
    let now := es.foldl (step build web_build_io_json fw_cmd) (applyCfg s)
    (now.page.form = v.form ∨ now.page.form = v.echo ∧ now.page.cfgWriting = false) ∧
      (v.rs ≠ 115200 → now.page.form = v.form) ∧
      (now.page.cfgWriting = false → v.Stand now.io ∧ now.page.cfgDirty = false ∧ now.page.toast = some .written) ∧
      (now.up = [] → v.Stand now.io) ∧
      ((∀ e ∈ es, e.heard = true) → now.up = [] → now.down = [] → now.page.cfgWriting = false) := by
  intro now
  have write : Write v false now := write_run short idle texts entered calm fun all => absurd all Bool.false_ne_true
  obtain ⟨form, written, stands⟩ := write_shows write
  refine ⟨form, fun slower => ?_, written, stands, fun sends none_up none_down => ?_⟩
  · rcases form with entered | ⟨echo, -⟩
    · exact entered
    · rw [echo, echo_slower v slower]
  · have heard : Write v true now := write_run short idle texts entered calm fun _ => sends
    exact write_heard heard none_up none_down

end

def before_write : System where
  io := changing 0
  page := { opened_page with curTab := .cf, form := office.form, cfgDirty := true }
  up := []
  down := []

/-- Registers from before the write come to the page behind the button, and registers from after it behind the
    acknowledgement. -/
def around_write : List Event :=
  [.push_regs (fun _ => changing 0) fun _ => 0, .handle [] true, .deliver,
    .push_regs (fun _ => puts office.regs (changing 0)) fun _ => 0, .deliver, .deliver]

theorem write_settles_office :
    let now := around_write.foldl (step first_build (fun _ => []) WebTime.no_firmware) (applyCfg before_write)
    now.page.form = office.form ∧ (now.up = [] → now.down = [] → now.page.cfgWriting = false) := by
  have short : first_build.version.length ≤ 309 := by decide
  have texts : ∀ t ∈ before_write.down, Typed t := by
    intro t none_
    cases none_
  have handled : (step first_build (fun _ => []) WebTime.no_firmware
      (step first_build (fun _ => []) WebTime.no_firmware (applyCfg before_write) (.push_regs (fun _ => changing 0) fun _ => 0))
      (.handle [] true)).io = puts office.regs (changing 0) :=
    congrArg Prod.snd (ws_text_settings office (fun _ => []) WebTime.no_firmware [] (changing 0))
  have calm : Machine.Meets (step first_build (fun _ => []) WebTime.no_firmware) Calm (applyCfg before_write) around_write := by
    refine ⟨fun _ _ _ _ => rfl, trivial, trivial, ?_, trivial, trivial, trivial⟩
    intro k a _ _
    exact congrArg (get_holding_reg a) handled.symm
  obtain ⟨-, slower, -, -, acknowledged⟩ := write_settles short rfl texts rfl calm
  exact ⟨slower (by decide), acknowledged (by decide)⟩

end IoEdgeHub.ConfigSession
