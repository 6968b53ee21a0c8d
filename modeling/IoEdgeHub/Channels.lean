import IoEdgeHub.FwCan
import IoEdgeHub.WsUpgrade

/-!
The three upgrade channels over their one session (`fw_upg.h`: while a session is
active the other channels' starts are refused). The core keeps no record of who
opened the session, so the model does: `owner` is the channel whose START opened
it, until a message of that channel closes it again.

Not every message of another channel leaves the session alone. `Spares` says
which ones do, and in a run where all foreign messages are such the session is
its owner's alone.
-/
namespace IoEdgeHub.Channels
open IoEdgeHub.Nor IoEdgeHub.W25qxx IoEdgeHub.Bytes IoEdgeHub.FwUpg IoEdgeHub.Calls IoEdgeHub.CanProtocol
open IoEdgeHub.FwUdp (Peer FwMsg fw_udp_cmd datagram data_v2)
open IoEdgeHub.WsUpgrade (WsMsg ws_message)

inductive Channel
  | UDP
  | CAN
  | WS
  deriving DecidableEq, Repr

/-- A message as a channel receives it. -/
inductive Msg
  | udp (rx : List UInt8) (peer : Peer)
  | can (m : Frame)
  | ws (m : WsMsg)
  deriving DecidableEq, Repr

def Msg.channel : Msg → Channel
  | .udp _ _ => .UDP
  | .can _ => .CAN
  | .ws _ => .WS

/-- The core, what the channels keep of their own, and who owns the session. -/
structure Hub where
  u : Upg
  keys : Keys := {}
  fw_crc : UInt16 := 0
  owner : Option Channel := none

section
variable (version fw_keyhash : List UInt8) (boot_set_pending : Bool → Dev → Bool × Dev)

/-- One message, handled to its end. -/
def handle (h : Hub) : Msg → Hub
  | .udp rx peer => { h with u := (datagram fw_keyhash boot_set_pending peer rx h.u).2 }
  | .can m =>
    let r := (FwCan.fw_task version m h.keys).run (exec fw_keyhash boot_set_pending) h.u
    { h with u := r.2, keys := r.1.2 }
  | .ws m =>
    let r := (ws_message h.fw_crc m).run (exec fw_keyhash boot_set_pending) h.u
    { h with u := r.2, fw_crc := r.1.2 }

/-- The owner that a message leaves: a session that is open behind it is the
    sending channel's, unless it was another's before. -/
def owner_after (h : Hub) (e : Msg) (active : Bool) : Option Channel :=
  if h.owner = none ∨ h.owner = some e.channel then
    if active then some e.channel else none
  else h.owner

def step (h : Hub) (e : Msg) : Hub :=
  let h' := handle version fw_keyhash boot_set_pending h e
  { h' with owner := owner_after h e h'.u.s.active }

end

/-- The UDP commands that leave an open session alone. -/
def SparesUdp (u : Upg) (m : FwMsg) : Prop :=
  match m.cmd with
  | .START => True
  | .DATA => u.s.failed = true
  | .DATA_V2 => u.s.failed = true ∨ io_get_le32 m.data ≠ fw_upg_received u
  | .END => False

/-- The CAN frames that leave an open session alone. -/
def SparesCan (u : Upg) (m : Frame) : Prop :=
  (m.id = CAN_ID_CMD → m.data.length = 8 →
    command m.data ≠ FW_CMD_START ∧ command m.data ≠ FW_CMD_CONFIRM ∧ command m.data ≠ FW_CMD_REBOOT) ∧
  (m.id = CAN_ID_DATA → u.s.failed = true ∨ m.data = [])

/-- The WebSocket messages that leave an open session alone. -/
def SparesWs (u : Upg) : WsMsg → Prop
  | .fw_start _ _ => True
  | .fw_end => False
  | .binary payload => u.s.failed = true ∨ payload = []

/-- The messages that leave an open session alone. -/
def Spares (u : Upg) : Msg → Prop
  | .udp rx peer => ∀ m, fw_udp_cmd rx peer = some m → SparesUdp u m
  | .can m => SparesCan u m
  | .ws m => SparesWs u m

/-- What a message can carry: 8 bytes in a CAN frame, less than 2^31 anywhere. -/
def Sized : Msg → Prop
  | .udp rx _ => rx.length < 2^31
  | .can m => m.data.length ≤ 8
  | .ws (.binary payload) => payload.length < 2^31
  | .ws _ => True

/-- A message that is its owner's, comes while there is no owner, or spares the session. -/
def Allowed (h : Hub) (e : Msg) : Prop :=
  Sized e ∧ ∀ o, h.owner = some o → e.channel ≠ o → Spares h.u e

/-- An open session has not received more than it was opened for. -/
structure Bounded (u : Upg) : Prop where
  received : u.s.active = true → fw_upg_received u ≤ u.s.total
  size : u.s.active = true → u.s.total ≤ SLOT1_SIZE

section
variable {version fw_keyhash : List UInt8} {boot_set_pending : Bool → Dev → Bool × Dev} {u : Upg}

private theorem start_busy (total : Nat) (keyhash : Option (List UInt8)) (busy : u.s.active = true) :
    fw_upg_start fw_keyhash total keyhash u = (-3, u) := by
  rw [fw_upg_start, if_pos busy]

private theorem write_nothing (busy : u.s.active = true) (bounded : Bounded u) : (fw_upg_write [] u).2 = u := by
  have received := bounded.received busy
  have size := bounded.size busy
  unfold fw_upg_received at received
  unfold SLOT1_SIZE at size
  unfold fw_upg_write
  split_ifs with idle failed excess
  · rfl
  · rfl
  · rw [List.length_nil, Nat.add_zero, Nat.mod_eq_of_lt (by omega)] at excess
    omega
  · simp [write_loop]

private theorem write_spared {data : List UInt8} (busy : u.s.active = true) (bounded : Bounded u)
    (spared : u.s.failed = true ∨ data = []) : (fw_upg_write data u).2 = u := by
  rcases spared with failed | rfl
  · rw [fw_upg_write_failed failed]
  · exact write_nothing busy bounded

private theorem udp_spared {rx : List UInt8} {peer : Peer} (busy : u.s.active = true)
    (spares : ∀ m, fw_udp_cmd rx peer = some m → SparesUdp u m) :
    (datagram fw_keyhash boot_set_pending peer rx u).2 = u := by
  unfold datagram
  cases taken : fw_udp_cmd rx peer with
  | none => rfl
  | some m =>
    have spared := spares m taken
    unfold SparesUdp at spared
    obtain ⟨cmd, from_, data⟩ := m
    cases cmd with
    | START => simp only [FwUdp.fw_task, ↓run_bind, ↓run_once, ↓run_pure, exec, start_busy _ _ busy]
    | DATA => simp only [FwUdp.fw_task, ↓run_bind, ↓run_once, ↓run_pure, exec, fw_upg_write_failed spared]
    | DATA_V2 =>
      have kept : ((data_v2 data).run (exec fw_keyhash boot_set_pending) u).2 = u := by
        unfold data_v2
        split_ifs
        · simp only [↓run_bind, ↓run_once, ↓run_ite, ↓run_pure, exec]
          split_ifs with next
          · have failed := spared.resolve_right (fun other => other next)
            simp only [fw_upg_write_failed failed]
          · rfl
        · rfl
      simp only [FwUdp.fw_task, ↓run_bind, ↓run_once, ↓run_pure, exec, kept]
    | END => exact absurd spared id

private theorem can_spared {m : Frame} {k : Keys} (busy : u.s.active = true) (bounded : Bounded u)
    (spares : SparesCan u m) : ((FwCan.fw_task version m k).run (exec fw_keyhash boot_set_pending) u).2 = u := by
  unfold FwCan.fw_task
  split_ifs with cmd data key
  · unfold FwCan.handle_platform_rx
    split_ifs with short start confirm version_ reboot
    · rfl
    · exact absurd start (spares.1 cmd (not_ne_iff.mp short)).1
    · exact absurd confirm (spares.1 cmd (not_ne_iff.mp short)).2.1
    · rfl
    · exact absurd reboot (spares.1 cmd (not_ne_iff.mp short)).2.2
    · rfl
  · have kept := write_spared busy bounded (spares.2 data)
    simp only [FwCan.handle_fw_data, ↓run_bind, ↓run_once, ↓run_ite, ↓run_pure, exec, fw_upg_active, busy, Bool.not_true,
      Bool.false_eq_true, if_false]
    split_ifs <;> exact kept
  · rfl
  · rfl

private theorem ws_spared {m : WsMsg} {crc : UInt16} (busy : u.s.active = true) (bounded : Bounded u)
    (spares : SparesWs u m) : ((ws_message crc m).run (exec fw_keyhash boot_set_pending) u).2 = u := by
  cases m with
  | fw_start fw_size keyhash =>
    cases op : WsUpgrade.fw_start_op fw_size keyhash with
    | error json => simp only [ws_message, op, ↓run_pure]
    | ok queued =>
      have start : ∃ total kh, queued = .START total kh := by
        unfold WsUpgrade.fw_start_op at op
        split_ifs at op
        split at op
        · exact ⟨_, _, (Except.ok.inj op).symm⟩
        · split at op
          · cases op
          · split_ifs at op
            exact ⟨_, _, (Except.ok.inj op).symm⟩
      obtain ⟨total, kh, rfl⟩ := start
      simp only [ws_message, op, WsUpgrade.ws_fw_task, ↓run_bind, ↓run_once, ↓run_pure, exec, start_busy _ _ busy]
  | fw_end => exact absurd spares id
  | binary payload =>
    have kept := write_spared busy bounded spares
    simp only [ws_message, WsUpgrade.ws_binary, ↓run_bind, ↓run_once, ↓run_ite, ↓run_pure, exec, fw_upg_active, busy,
      if_true]
    split_ifs <;> exact kept

/-- A message that spares an open session changes nothing of it. -/
theorem handle_spared {h : Hub} {e : Msg} (busy : h.u.s.active = true) (bounded : Bounded h.u)
    (spares : Spares h.u e) : (handle version fw_keyhash boot_set_pending h e).u = h.u := by
  cases e with
  | udp rx peer => exact udp_spared busy spares
  | can m => exact can_spared busy bounded spares
  | ws m => exact ws_spared busy bounded spares

/-- A write that a channel can make. -/
def ShortWrite {β : Type} : Call β → Prop
  | .write data => data.length < 2^31
  | _ => True

/-- Every call keeps the session within its bound. -/
private theorem exec_bounded {β : Type} (c : Call β) (u : Upg) (short : ShortWrite c) (bounded : Bounded u) :
    Bounded (exec fw_keyhash boot_set_pending c u).2 := by
  cases c with
  | start total keyhash =>
    by_cases ok : Admitted fw_keyhash total keyhash u
    · simp only [exec]
      rw [fw_upg_start_admitted ok]
      split
      · exact ⟨fun busy => absurd busy (by simp [ok.idle]), fun busy => absurd busy (by simp [ok.idle])⟩
      · exact ⟨fun _ => Nat.zero_le _, fun _ => ok.high⟩
    · simp only [exec, (fw_upg_start_refused ok).2]
      exact bounded
  | write data =>
    by_cases busy : u.s.active = true
    · obtain ⟨total, active, received⟩ :=
        fw_upg_write_received data short u (bounded.size busy) (bounded.received busy)
      simp only [exec]
      exact ⟨fun _ => total ▸ received, fun _ => total ▸ bounded.size busy⟩
    · have same : (fw_upg_write data u).2 = u := by rw [fw_upg_write, if_pos (by simpa using busy)]
      simp only [exec, same]
      exact bounded
  | abort => exact ⟨by simp [exec, fw_upg_abort], by simp [exec, fw_upg_abort]⟩
  | finish crc check =>
    have closed := fw_upg_finish_ex_closed fw_keyhash crc check u
    exact ⟨by simp [exec, closed], by simp [exec, closed]⟩
  | received => exact bounded
  | total => exact bounded
  | active => exact bounded
  | set_pending permanent => exact ⟨bounded.received, bounded.size⟩
  | reset => exact ⟨by simp [exec, Session.zero], by simp [exec, Session.zero]⟩

private theorem fw_udp_cmd_short {rx : List UInt8} {peer : Peer} {m : FwMsg} (short : rx.length < 2^31)
    (taken : fw_udp_cmd rx peer = some m) : m.data.length < 2^31 := by
  unfold fw_udp_cmd at taken
  split at taken
  · cases taken
  · simp only [List.length_cons] at short
    split_ifs at taken <;> obtain rfl := Option.some.inj taken <;> simp only [List.length_take] <;> omega

private theorem udp_writes {m : FwMsg} (short : m.data.length < 2^31) : (FwUdp.fw_task m).All ShortWrite := by
  have rest : (m.data.drop 4).length < 2^31 := by simp only [List.length_drop]; omega
  obtain ⟨cmd, peer, data⟩ := m
  cases cmd with
  | START => simp [FwUdp.fw_task, ShortWrite]
  | DATA => simpa [FwUdp.fw_task, ShortWrite] using short
  | DATA_V2 =>
    refine all_bind ?_ fun _ => by simp [ShortWrite]
    simpa [data_v2, ShortWrite] using fun _ => rest
  | END => simp [FwUdp.fw_task, ShortWrite]

private theorem can_writes {m : Frame} {k : Keys} (short : m.data.length < 2^31) :
    (FwCan.fw_task version m k).All ShortWrite := by
  have start (arg : Nat) : (FwCan.start_update arg k).All ShortWrite := by simp [FwCan.start_update, ShortWrite]
  have confirm (arg : Nat) : (FwCan.confirm arg k).All ShortWrite := by simp [FwCan.confirm, ShortWrite]
  have data : (FwCan.handle_fw_data m.data k).All ShortWrite := by
    simpa [FwCan.handle_fw_data, ShortWrite] using short
  simp [FwCan.fw_task, FwCan.handle_platform_rx, start, confirm, data, ShortWrite]

private theorem ws_writes {m : WsMsg} {crc : UInt16} (sized : Sized (.ws m)) : (ws_message crc m).All ShortWrite := by
  have op_writes (op : WsUpgrade.WsFwOp) : (WsUpgrade.ws_fw_task op).All ShortWrite := by
    cases op <;> simp [WsUpgrade.ws_fw_task, WsUpgrade.ws_fw_end, ShortWrite]
  cases m with
  | fw_start fw_size keyhash =>
    simp only [ws_message]
    split
    · exact all_pure _
    · exact all_bind (op_writes _) fun _ => all_pure _
  | fw_end =>
    simp only [ws_message, all_once_bind, all_ite, all_pure, ShortWrite]
    exact ⟨trivial, fun _ => ⟨fun _ => trivial, fun _ => all_bind (op_writes _) fun _ => all_pure _⟩⟩
  | binary payload =>
    have short : payload.length < 2^31 := sized
    refine all_bind ?_ fun _ => all_pure _
    simpa [WsUpgrade.ws_binary, ShortWrite] using short

/-- Every message keeps the session within its bound. -/
theorem handle_bounded {h : Hub} {e : Msg} (sized : Sized e) (bounded : Bounded h.u) :
    Bounded (handle version fw_keyhash boot_set_pending h e).u := by
  cases e with
  | udp rx peer =>
    simp only [handle, datagram]
    cases taken : fw_udp_cmd rx peer with
    | none => exact bounded
    | some m => exact run_keeps exec_bounded (udp_writes (fw_udp_cmd_short sized taken)) bounded
  | can m => exact run_keeps exec_bounded (can_writes (Nat.lt_of_le_of_lt sized (by decide))) bounded
  | ws m => exact run_keeps exec_bounded (ws_writes sized) bounded

/-- There is an owner exactly while a session is open. -/
structure Owned (h : Hub) : Prop where
  bounded : Bounded h.u
  owner : h.owner.isSome = h.u.s.active

/-- A foreign message that is allowed changes nothing of the session. -/
private theorem foreign_spared {h : Hub} {e : Msg} {o : Channel} (owned : Owned h) (allowed : Allowed h e)
    (held : h.owner = some o) (foreign : e.channel ≠ o) :
    (handle version fw_keyhash boot_set_pending h e).u = h.u := by
  have busy : h.u.s.active = true := by rw [← owned.owner, held]; rfl
  exact handle_spared busy owned.bounded (allowed.2 o held foreign)

private theorem step_owned {h : Hub} {e : Msg} (owned : Owned h) (allowed : Allowed h e) :
    Owned (step version fw_keyhash boot_set_pending h e) := by
  refine ⟨handle_bounded allowed.1 owned.bounded, ?_⟩
  simp only [step, owner_after]
  by_cases own : h.owner = none ∨ h.owner = some e.channel
  · rw [if_pos own]
    cases (handle version fw_keyhash boot_set_pending h e).u.s.active <;> rfl
  · rw [if_neg own]
    obtain ⟨o, held⟩ := Option.ne_none_iff_exists'.mp (not_or.mp own).1
    have foreign : e.channel ≠ o := by
      rintro rfl
      exact own (.inr held)
    rw [foreign_spared owned allowed held foreign]
    exact owned.owner

/-- In a run whose foreign messages all spare the open session, no message of
    another channel changes the session or the flash. -/
theorem session_of_one_channel {start : Hub} {es before after : List Msg} {e : Msg} {o : Channel}
    (reset : start.u.s.active = false) (free : start.owner = none)
    (meets : Machine.Meets (step version fw_keyhash boot_set_pending) Allowed start es)
    (split : es = before ++ e :: after)
    (held : (before.foldl (step version fw_keyhash boot_set_pending) start).owner = some o) (foreign : e.channel ≠ o) :
    (step version fw_keyhash boot_set_pending (before.foldl (step version fw_keyhash boot_set_pending) start) e).u =
      (before.foldl (step version fw_keyhash boot_set_pending) start).u := by
  rw [split, Machine.meets_append] at meets
  have first : Owned start := ⟨⟨by simp [reset], by simp [reset]⟩, by simp [reset, free]⟩
  have owned := Machine.invariant (fun _ _ owned allowed => step_owned owned allowed) first meets.1
  exact foreign_spared owned meets.2.1 held foreign

/-- A UDP channel that has opened a session for 600 bytes and sent 300 of them. -/
def udpUpload : List Msg :=
  [.udp (0x01 :: io_put_le32 600) ⟨0, 8600⟩, .udp (0x02 :: List.replicate 300 0) ⟨0, 8600⟩]

/-- The hub after reset, driven by the given messages. -/
def driven (es : List Msg) : Hub := es.foldl (step [] smallHash fun _ d => (true, d)) ⟨idle, {}, 0, none⟩

/-- A CAN key hash frame in the middle of a UDP upload leaves it alone. -/
theorem session_of_one_channel_keyhash :
    let frame := Msg.can ⟨CAN_ID_KEYHASH, 0 :: smallHash.take 7⟩
    (driven udpUpload).owner = some .UDP ∧ (driven (udpUpload ++ [frame])).u = (driven udpUpload).u := by
  intro frame
  have held : (driven udpUpload).owner = some .UDP := by decide +kernel
  have opened : (driven (udpUpload.take 1)).owner = some .UDP := by decide +kernel
  refine ⟨held, @session_of_one_channel [] smallHash (fun _ d => (true, d)) ⟨idle, {}, 0, none⟩ (udpUpload ++ [frame])
    udpUpload [] frame .UDP rfl rfl ⟨⟨?_, ?_⟩, ⟨?_, ?_⟩, ⟨?_, ?_⟩, trivial⟩ rfl held (by decide)⟩
  · simp [Sized]
  · intro o none_
    cases none_
  · show (0x02 :: List.replicate 300 (0 : UInt8)).length < 2^31
    rw [List.length_cons, List.length_replicate]
    decide
  · intro o own foreign
    exact absurd (Option.some.inj (opened.symm.trans own)) foreign
  · show (0 :: smallHash.take 7).length ≤ 8
    decide
  · exact fun _ _ _ => ⟨by decide, by decide⟩

/-- A CAN START takes a UDP channel's open session away: it is not refused, slot1
    is erased, and what the UDP channel has sent is forgotten. -/
theorem session_taken_by_can_start :
    let start := Msg.can ⟨CAN_ID_CMD, io_put_le32 FW_CMD_START ++ io_put_le32 700⟩
    let h := driven udpUpload
    let h' := driven (udpUpload ++ [start])
    h.owner = some .UDP ∧ start.channel ≠ .UDP ∧
      h.u.s.total = 600 ∧ fw_upg_received h.u = 300 ∧ h.u.dev.mem SLOT1_OFFSET = 0 ∧
      h'.u.s.total = 700 ∧ fw_upg_received h'.u = 0 ∧ h'.u.dev.mem SLOT1_OFFSET = 0xFF := by
  decide +kernel

end

end IoEdgeHub.Channels
