import IoEdgeHub.FwCan
import IoEdgeHub.WsUpgrade

/-!
The upgrade workers between each other's calls: the tasks of the UDP, the CAN and
the WebSocket channel and the TCP/IP thread, which writes the WebSocket channel's
data. Each call of the core and each `boot_set_pending` is one atomic step, and
any of them may come between two calls of another worker.

Every worker that requests a swap has just finished a session with success, but
it lets go of the core in between. `verified` remembers the image that its finish
has checked, until the swap is requested; in a run in which no start is admitted
while another worker is in that window, slot1 still holds the image then.
-/
namespace IoEdgeHub.Workers
open IoEdgeHub.Nor IoEdgeHub.W25qxx IoEdgeHub.Bytes IoEdgeHub.FwUpg IoEdgeHub.Calls IoEdgeHub.CanProtocol
open IoEdgeHub.FwUdp (FwMsg)
open IoEdgeHub.WsUpgrade (WsFwOp)

inductive Worker
  | UDP
  | CAN
  | WS
  | TCPIP
  deriving DecidableEq, Repr

/-- What a worker keeps between messages. -/
structure Local where
  keys : Keys := {}
  fw_crc : UInt16 := 0
  deriving DecidableEq, Repr

/-- What a worker takes up. -/
inductive Job
  | udp (m : FwMsg)
  | can (m : Frame)
  | ws (op : WsFwOp)
  | binary (payload : List UInt8)
  deriving DecidableEq, Repr

def Job.worker : Job → Worker
  | .udp _ => .UDP
  | .can _ => .CAN
  | .ws _ => .WS
  | .binary _ => .TCPIP

/-- The program that a worker runs for a job. -/
def Job.prog (version : List UInt8) (l : Local) : Job → Prog Call Local
  | .udp m => do
    let _ ← FwUdp.fw_task m
    return l
  | .can m => do
    let outcome ← FwCan.fw_task version m l.keys
    return { l with keys := outcome.2 }
  | .ws op => do
    let _ ← WsUpgrade.ws_fw_task op
    return l
  | .binary payload => do
    let fw_crc ← WsUpgrade.ws_binary payload l.fw_crc
    return { l with fw_crc := fw_crc }

/-- The core, where every worker stands, and what its last finish has verified. -/
structure Sys where
  u : Upg
  thread : Worker → Prog Call Local := fun _ => .ret {}
  verified : Worker → Option (List UInt8) := fun _ => none

inductive Event
  | receive (j : Job)
  | call (w : Worker)
  deriving DecidableEq, Repr

/-- The image that a call has verified. -/
def verifies {β : Type} (u u' : Upg) : Call β → β → Option (List UInt8)
  | .finish _ _, rc => if rc = 0 then some (bytesAt u'.dev.mem SLOT1_OFFSET u.s.total) else none
  | _, _ => none

def resets {β : Type} : Call β → Bool
  | .reset => true
  | _ => false

section
variable (version fw_keyhash : List UInt8) (boot_set_pending : Bool → Dev → Bool × Dev)

/-- The worker `w` makes the call `c`. All workers start over when it resets the processor. -/
def perform (s : Sys) (w : Worker) {β : Type} (c : Call β) (next : β → Prog Call Local) : Sys :=
  let r := exec fw_keyhash boot_set_pending c s.u
  if resets c then { u := r.2 }
  else ⟨r.2, Function.update s.thread w (next r.1), Function.update s.verified w (verifies s.u r.2 c r.1)⟩

def step (s : Sys) : Event → Sys
  | .receive j =>
    match s.thread j.worker with
    | .ret l => { s with thread := Function.update s.thread j.worker (j.prog version l) }
    -- the job stays queued while its worker is busy
    | .call _ _ => s
  | .call w =>
    match s.thread w with
    | .ret _ => s
    | .call c next => perform fw_keyhash boot_set_pending s w c next

/-- The next call of the worker is a start that the core admits. -/
def Starts (s : Sys) (w : Worker) : Prop :=
  ∃ total keyhash next, s.thread w = .call (.start total keyhash) next ∧ Admitted fw_keyhash total keyhash s.u

/-- No start is admitted between another worker's finish and its swap request. -/
def Allowed (s : Sys) : Event → Prop
  | .receive _ => True
  | .call w => Starts fw_keyhash s w → ∀ w', w' ≠ w → s.verified w' = none

end

/-- The program's next call is `boot_set_pending`. -/
def requests {α : Type} : Prog Call α → Bool
  | .call (.set_pending _) _ => true
  | _ => false

/-- A swap is requested exactly when the call before it has verified an image. -/
def Permits (verified : Bool) {β : Type} : Call β → Prop
  | .set_pending _ => verified = true
  | _ => verified = false

def verifiedAfter (_ : Bool) {β : Type} : Call β → β → Bool
  | .finish _ _, rc => rc = 0
  | _, _ => false

/-- A program whose swap requests follow their finish at once. -/
abbrev Guarded {α : Type} (verified : Bool) (p : Prog Call α) : Prop :=
  p.Obeys Permits verifiedAfter (· = false) verified

section
variable {version fw_keyhash : List UInt8} {boot_set_pending : Bool → Dev → Bool × Dev}

private theorem udp_guarded (m : FwMsg) : Guarded false (FwUdp.fw_task m) := by
  obtain ⟨cmd, peer, data⟩ := m
  cases cmd with
  | START => simp [Guarded, FwUdp.fw_task, Permits, verifiedAfter]
  | DATA => simp [Guarded, FwUdp.fw_task, Permits, verifiedAfter]
  | DATA_V2 =>
    refine obeys_bind ?_ fun v _ done => ?_
    · simp [FwUdp.data_v2, Permits, verifiedAfter]
    · simp [Permits, verifiedAfter, done]
  | END => simp [Guarded, FwUdp.fw_task, Permits, verifiedAfter]

private theorem can_guarded (m : Frame) (k : Keys) : Guarded false (FwCan.fw_task version m k) := by
  simp [Guarded, FwCan.fw_task, FwCan.handle_platform_rx, FwCan.start_update, FwCan.confirm, FwCan.handle_fw_data,
    Permits, verifiedAfter]

private theorem ws_guarded (op : WsFwOp) : Guarded false (WsUpgrade.ws_fw_task op) := by
  cases op <;> simp [Guarded, WsUpgrade.ws_fw_task, WsUpgrade.ws_fw_end, Permits, verifiedAfter]

/-- Every program of every worker is guarded. -/
theorem prog_guarded (l : Local) (j : Job) : Guarded false (j.prog version l) := by
  cases j with
  | udp m => exact obeys_bind (udp_guarded m) fun _ _ done => done
  | can m => exact obeys_bind (can_guarded m l.keys) fun _ _ done => done
  | ws op => exact obeys_bind (ws_guarded op) fun _ _ done => done
  | binary payload =>
    refine obeys_bind ?_ fun _ _ done => done
    simp [WsUpgrade.ws_binary, Permits, verifiedAfter]

/-- At most one worker is about to request a swap, its image is in slot1, and no
    session is open meanwhile. -/
structure Windowed (s : Sys) : Prop where
  guarded : ∀ w, Guarded (s.verified w).isSome (s.thread w)
  closed : ∀ w, (s.verified w).isSome → s.u.s.active = false
  kept : ∀ w image, s.verified w = some image → bytesAt s.u.dev.mem SLOT1_OFFSET image.length = image
  alone : ∀ w w', (s.verified w).isSome → (s.verified w').isSome → w = w'

/-- The call is not a start that the core admits. -/
private def Refused (fw_keyhash : List UInt8) (u : Upg) {β : Type} : Call β → Prop
  | .start total keyhash => ¬ Admitted fw_keyhash total keyhash u
  | _ => True

/-- Without an open session only an admitted start and a swap request touch the
    flash, and only the start opens one. -/
private theorem exec_idle {β : Type} (c : Call β) {u : Upg} (idle : u.s.active = false)
    (refused : Refused fw_keyhash u c) (unasked : Permits false c) :
    (exec fw_keyhash boot_set_pending c u).2.dev.mem = u.dev.mem ∧
      (exec fw_keyhash boot_set_pending c u).2.s.active = false := by
  cases c with
  | start total keyhash =>
    have same := (fw_upg_start_refused refused).2
    simp only [exec, same]
    exact ⟨trivial, idle⟩
  | write data =>
    simp only [exec, fw_upg_write_idle idle]
    exact ⟨trivial, idle⟩
  | abort => exact ⟨rfl, rfl⟩
  | finish crc check =>
    simp only [exec, fw_upg_finish_ex_idle idle]
    exact ⟨trivial, idle⟩
  | received => exact ⟨rfl, idle⟩
  | total => exact ⟨rfl, idle⟩
  | active => exact ⟨rfl, idle⟩
  | set_pending permanent => cases unasked
  | reset => exact ⟨rfl, rfl⟩

/-- What a call is found to have verified: the image that is in slot1 behind it. -/
private theorem verifies_kept {β : Type} {u : Upg} {c : Call β} {image : List UInt8}
    (now : verifies u (exec fw_keyhash boot_set_pending c u).2 c (exec fw_keyhash boot_set_pending c u).1 = some image) :
    u.s.active = true ∧ (exec fw_keyhash boot_set_pending c u).2.s.active = false ∧
      bytesAt (exec fw_keyhash boot_set_pending c u).2.dev.mem SLOT1_OFFSET image.length = image := by
  cases c with
  | finish crc check =>
    simp only [verifies, exec] at now ⊢
    by_cases done : (fw_upg_finish_ex fw_keyhash crc check u).1 = 0
    · have busy : u.s.active = true := by
        by_contra idle
        rw [fw_upg_finish_ex_idle (by simpa using idle)] at done
        simp at done
      simp only [done, if_true, Option.some.injEq] at now
      subst now
      exact ⟨busy, fw_upg_finish_ex_closed fw_keyhash crc check u, by rw [bytesAt_length]⟩
    · simp [done] at now
  | _ => simp [verifies] at now

private theorem verifies_after {β : Type} (g : Bool) (u u' : Upg) (c : Call β) (r : β) :
    (verifies u u' c r).isSome = verifiedAfter g c r := by
  cases c with
  | finish crc check => by_cases done : r = 0 <;> simp [verifies, verifiedAfter, done]
  | _ => rfl

/-- A call that is allowed leaves the image of another worker's window in place. -/
private theorem window_kept {s : Sys} {w w' : Worker} {β : Type} {c : Call β} {next : β → Prog Call Local}
    (inv : Windowed s) (ahead : s.thread w = .call c next) (allowed : Allowed fw_keyhash s (.call w)) (other : w' ≠ w)
    (window : (s.verified w').isSome) :
    (exec fw_keyhash boot_set_pending c s.u).2.dev.mem = s.u.dev.mem ∧
      (exec fw_keyhash boot_set_pending c s.u).2.s.active = false := by
  have none_ : (s.verified w).isSome = false := by
    rw [← Bool.not_eq_true]
    exact fun both => other (inv.alone w' w window both)
  have guarded := inv.guarded w
  rw [ahead, none_] at guarded
  refine exec_idle c (inv.closed w' window) ?_ guarded.1
  cases c with
  | start total keyhash =>
    intro ok
    simp [allowed ⟨total, keyhash, next, ahead, ok⟩ w' other] at window
  | _ => trivial

private theorem perform_windowed {s : Sys} {w : Worker} {β : Type} {c : Call β} {next : β → Prog Call Local}
    (inv : Windowed s) (ahead : s.thread w = .call c next) (allowed : Allowed fw_keyhash s (.call w)) :
    Windowed (perform fw_keyhash boot_set_pending s w c next) := by
  have guarded := inv.guarded w
  rw [ahead] at guarded
  have foreign {w' : Worker} (other : w' ≠ w) (window : (s.verified w').isSome) :=
    @window_kept fw_keyhash boot_set_pending s w w' β c next inv ahead allowed other window
  unfold perform
  split_ifs with reset
  · exact ⟨fun _ => rfl, by simp, by simp, by simp⟩
  · refine ⟨fun w' => ?_, fun w' window => ?_, fun w' image now => ?_, fun w₁ w₂ first second => ?_⟩
    · by_cases same : w' = w
      · subst same
        simp only [Function.update_self, verifies_after (s.verified w').isSome]
        exact guarded.2 _
      · simp only [Function.update_of_ne same]
        exact inv.guarded w'
    · by_cases same : w' = w
      · subst same
        simp only [Function.update_self] at window
        obtain ⟨image, now⟩ := Option.isSome_iff_exists.mp window
        exact (verifies_kept now).2.1
      · simp only [Function.update_of_ne same] at window
        exact (foreign same window).2
    · by_cases same : w' = w
      · subst same
        simp only [Function.update_self] at now
        exact (verifies_kept now).2.2
      · simp only [Function.update_of_ne same] at now
        rw [(foreign same (by rw [now]; rfl)).1]
        exact inv.kept w' image now
    -- an image is verified in an open session only, and none is open in a window
    · have opened (window : (verifies s.u (exec fw_keyhash boot_set_pending c s.u).2 c
          (exec fw_keyhash boot_set_pending c s.u).1).isSome) {w' : Worker} (stale : (s.verified w').isSome) : False := by
        obtain ⟨image, now⟩ := Option.isSome_iff_exists.mp window
        have busy := (verifies_kept now).1
        simp [inv.closed w' stale] at busy
      by_cases same₁ : w₁ = w <;> by_cases same₂ : w₂ = w
      · rw [same₁, same₂]
      · subst same₁
        simp only [Function.update_self] at first
        simp only [Function.update_of_ne same₂] at second
        exact (opened first second).elim
      · subst same₂
        simp only [Function.update_self] at second
        simp only [Function.update_of_ne same₁] at first
        exact (opened second first).elim
      · simp only [Function.update_of_ne same₁] at first
        simp only [Function.update_of_ne same₂] at second
        exact inv.alone w₁ w₂ first second

private theorem step_windowed {s : Sys} {e : Event} (inv : Windowed s) (allowed : Allowed fw_keyhash s e) :
    Windowed (step version fw_keyhash boot_set_pending s e) := by
  cases e with
  | receive j =>
    simp only [step]
    cases ahead : s.thread j.worker with
    | ret l =>
      -- an idle worker has no window open
      have none_ := inv.guarded j.worker
      rw [ahead] at none_
      refine ⟨fun w => ?_, inv.closed, inv.kept, inv.alone⟩
      by_cases same : w = j.worker
      · subst same
        simp only [Function.update_self]
        rw [show (s.verified j.worker).isSome = false from none_]
        exact prog_guarded l j
      · simp only [Function.update_of_ne same]
        exact inv.guarded w
    | call c next => exact inv
  | call w =>
    simp only [step]
    cases ahead : s.thread w with
    | ret l => exact inv
    | call c next => exact perform_windowed inv ahead allowed

/-- In a run in which no start is admitted between another worker's finish and
    its swap request, slot1 holds the verified image whenever a swap is requested. -/
theorem swap_requests_verified {start : Sys} {es before after : List Event} {w : Worker}
    (idle : ∀ w, ∃ l, start.thread w = .ret l) (fresh : ∀ w, start.verified w = none)
    (meets : Machine.Meets (step version fw_keyhash boot_set_pending) (Allowed fw_keyhash) start es)
    (split : es = before ++ .call w :: after)
    (request : requests ((before.foldl (step version fw_keyhash boot_set_pending) start).thread w) = true) :
    ∃ image, (before.foldl (step version fw_keyhash boot_set_pending) start).verified w = some image ∧
      bytesAt (before.foldl (step version fw_keyhash boot_set_pending) start).u.dev.mem SLOT1_OFFSET image.length =
        image := by
  rw [split, Machine.meets_append] at meets
  have first : Windowed start := by
    refine ⟨fun w => ?_, by simp [fresh], by simp [fresh], by simp [fresh]⟩
    obtain ⟨l, ret⟩ := idle w
    rw [ret, fresh]
    rfl
  have inv := Machine.invariant (fun _ _ inv allowed => step_windowed inv allowed) first meets.1
  have guarded := inv.guarded w
  unfold requests at request
  split at request
  · rename_i ahead
    rw [ahead] at guarded
    obtain ⟨image, verified⟩ := Option.isSome_iff_exists.mp guarded.1
    exact ⟨image, verified, inv.kept w image verified⟩
  · cases request

/-- The program's next call is a start. -/
def starts {α : Type} : Prog Call α → Bool
  | .call (.start _ _) _ => true
  | _ => false

theorem not_starts {s : Sys} {w : Worker} (other : starts (s.thread w) = false) : ¬ Starts fw_keyhash s w := by
  rintro ⟨total, keyhash, next, ahead, -⟩
  rw [ahead] at other
  cases other

/-- The smallest image sent, to a core that has not finished it yet. -/
def uploaded : Sys := { u := (fw_upg_write (smallImage smallHash) (fw_upg_start smallHash 552 none FwUpg.idle).2).2 }

/-- A CAN CONFIRM up to its swap request. -/
def confirming : List Event :=
  [.receive (.can ⟨CAN_ID_CMD, io_put_le32 FW_CMD_CONFIRM ++ io_put_le32 1⟩), .call .CAN, .call .CAN]

/-- A UDP START for 64 bytes, carried out. -/
def udpStart : List Event := [.receive (.udp ⟨.START, ⟨0, 8600⟩, io_put_le32 64⟩), .call .UDP]

/-- A UDP block, and what the core is asked to do with it. -/
def udpData : List Event := [.receive (.udp ⟨.DATA, ⟨0, 8600⟩, [1, 2, 3]⟩), .call .UDP]

/-- A CONFIRM requests the swap of the image it has verified, also where a block of another
    upload has come in between. -/
theorem swap_requests_verified_between :
    let s := (confirming ++ udpData).foldl (step [] smallHash fun _ d => (true, d)) uploaded
    ∃ image, s.verified .CAN = some image ∧ bytesAt s.u.dev.mem SLOT1_OFFSET image.length = image := by
  refine @swap_requests_verified [] smallHash (fun _ d => (true, d)) uploaded
    (confirming ++ udpData ++ [Event.call .CAN]) (confirming ++ udpData) [] .CAN
    (fun _ => ⟨_, rfl⟩) (fun _ => rfl) ⟨trivial, ?_, ?_, trivial, ?_, ?_, trivial⟩ rfl (by decide +kernel)
  case refine_3 =>
    -- the other worker writes
    exact fun starting => absurd starting (not_starts (by decide +kernel))
  all_goals
    intro _ w' other
    cases w' with
    | CAN => exact absurd rfl other
    | _ => decide +kernel

/-- A UDP START between a CONFIRM's finish and its swap request: the swap is
    requested of an erased slot1. -/
theorem swap_requested_of_erased_slot :
    let s := (confirming ++ udpStart).foldl (step [] smallHash fun _ d => (true, d)) uploaded
    requests (s.thread .CAN) = true ∧
      (s.verified .CAN).any fun image => bytesAt s.u.dev.mem SLOT1_OFFSET image.length ≠ image := by
  decide +kernel

end

end IoEdgeHub.Workers
