import IoEdgeHub.Ws
import IoEdgeHub.WsUpgrade

/-!
The checksum of an upload over the WebSocket (`web/ws.c`). It is kept by the connection and
starts over with it, while the bytes it is to cover are kept by the upgrade session and start
over with that. The two stay in step as long as neither starts over without the other.
-/
namespace IoEdgeHub.WsChecksum
open IoEdgeHub.Nor IoEdgeHub.W25qxx IoEdgeHub.Crc IoEdgeHub.FwUpg IoEdgeHub.Calls IoEdgeHub.WsUpgrade

/-- The connection and the upgrade core. `got` are the bytes that `fw_upg_write` accepted since
    the last `fw_upg_start` that succeeded. -/
structure Link where
  upg : Upg
  attached : Bool := false
  fw_crc : UInt16 := 0
  got : List UInt8 := []

/-- Sessions that come and go, what they receive, and the device starting over. -/
inductive Event
  | attach
  | detach
  | fw_start (fw_size : Int) (keyhash : Option (List UInt8))
  | fw_end
  | binary (payload : List UInt8) (fits : payload.length ≤ Ws.WS_RX_MAX)
  | reboot

/-- What the core has accepted, after a call and what it returned. -/
def accepted (got : List UInt8) : {β : Type} → Call β → β → List UInt8
  | _, .start _ _, rc => if rc = 0 then [] else got
  | _, .write data, rc => if rc = 0 then got ++ data else got
  | _, _, _ => got

section
variable (fw_keyhash : List UInt8) (boot_set_pending : Bool → Dev → Bool × Dev)

/-- A message on an open session, handled to the end. -/
def deliver (l : Link) (m : WsMsg) : Link :=
  if l.attached then
    let r := (ws_message l.fw_crc m).run (observed @accepted (exec fw_keyhash boot_set_pending)) (l.upg, l.got)
    { l with upg := r.2.1, fw_crc := r.1.2, got := r.2.2 }
  else l

def step (l : Link) : Event → Link
  | .attach => if l.attached then l else { l with attached := true, fw_crc := 0 }
  | .detach => { l with attached := false }
  | .fw_start fw_size keyhash => deliver fw_keyhash boot_set_pending l (.fw_start fw_size keyhash)
  | .fw_end => deliver fw_keyhash boot_set_pending l .fw_end
  | .binary payload _ => deliver fw_keyhash boot_set_pending l (.binary payload)
  | .reboot => { upg := ⟨Session.zero, { l.upg.dev with power := true }⟩ }

/-- The events that keep the two in step: a start that succeeds finds the checksum of the connection
    at its initial value, and so does a new connection the checksum of the bytes accepted so far. -/
def Together (l : Link) : Event → Prop
  | .attach => l.attached = false → fw_upg_active l.upg = true → crc16_ccitt 0 l.got = 0
  | .fw_start fw_size keyhash => ∀ total kh, l.attached = true → fw_start_op fw_size keyhash = .ok (.START total kh) →
      (fw_upg_start fw_keyhash total kh l.upg).1 = 0 → l.fw_crc = 0
  | _ => True

end

/-- The checksum of the connection is that of the bytes accepted, and the core holds these. -/
structure InStep (l : Link) : Prop where
  crc : l.attached = true → l.upg.s.active = true → l.fw_crc = crc16_ccitt 0 l.got
  holds : l.upg.s.active = true → l.upg.s.failed = false → Accepted l.upg l.got

/-- The core holds the bytes accepted, unless one of its writes has failed. -/
def Holding (l : Link) : Prop := l.upg.s.active = true → l.upg.s.failed = false → Accepted l.upg l.got

section
variable {fw_keyhash : List UInt8} {boot_set_pending : Bool → Dev → Bool × Dev} {l : Link}

theorem inStep_idle (idle : l.upg.s.active = false) : InStep l where
  crc := by simp [idle]
  holds := by simp [idle]

theorem holding_idle (idle : l.upg.s.active = false) : Holding l := by
  intro active
  rw [idle] at active
  cases active

theorem fw_start_op_start {fw_size : Int} {keyhash : Option (List UInt8)} {op : WsFwOp}
    (queued : fw_start_op fw_size keyhash = .ok op) : ∃ total kh, op = .START total kh := by
  unfold fw_start_op at queued
  split at queued
  · simp at queued
  · split at queued
    · exact ⟨_, _, (Except.ok.inj queued).symm⟩
    · split at queued
      · simp at queued
      · split at queued
        · exact ⟨_, _, (Except.ok.inj queued).symm⟩
        · simp at queued

/-- A start that does not succeed leaves the core as it is, or without a session. -/
theorem fw_upg_start_failed {total : Nat} {keyhash : Option (List UInt8)} {u : Upg}
    (failed : (fw_upg_start fw_keyhash total keyhash u).1 ≠ 0) :
    (fw_upg_start fw_keyhash total keyhash u).2 = u ∨ (fw_upg_start fw_keyhash total keyhash u).2.s.active = false := by
  by_cases admitted : Admitted fw_keyhash total keyhash u
  · rw [fw_upg_start_admitted admitted] at failed ⊢
    split at failed
    · exact .inr admitted.idle
    · exact absurd rfl failed
  · exact .inl (fw_upg_start_refused admitted).2

/-- What an `fw_start` can come to: nothing, no session, or a session without bytes. -/
theorem deliver_start (fw_size : Int) (keyhash : Option (List UInt8)) :
    let l' := deliver fw_keyhash boot_set_pending l (.fw_start fw_size keyhash)
    l' = l ∨ l'.upg.s.active = false ∨
      ∃ total kh, l.attached = true ∧ fw_start_op fw_size keyhash = .ok (.START total kh) ∧
        (fw_upg_start fw_keyhash total kh l.upg).1 = 0 ∧
        l' = { l with upg := (fw_upg_start fw_keyhash total kh l.upg).2, got := [] } := by
  intro l'
  by_cases attached : l.attached = true
  · simp only [l', deliver, if_pos attached]
    cases op : fw_start_op fw_size keyhash with
    | error json =>
      simp only [ws_message, op, ↓run_pure]
      exact .inl trivial
    | ok op' =>
      obtain ⟨total, kh, rfl⟩ := fw_start_op_start op
      simp only [ws_message, op, ws_fw_task, ↓run_bind, ↓run_once, ↓run_pure, observed, exec, accepted]
      by_cases done : (fw_upg_start fw_keyhash total kh l.upg).1 = 0
      · simp only [done, if_true]
        exact .inr (.inr ⟨total, kh, attached, rfl, done, rfl⟩)
      · simp only [done, if_false]
        rcases fw_upg_start_failed done with same | idle
        · rw [same]
          exact .inl rfl
        · exact .inr (.inl idle)
  · exact .inl (if_neg attached)

/-- What a block can come to: nothing, a failed session, or a session with the block behind its bytes. -/
theorem deliver_binary {payload : List UInt8} (holding : Holding l) (fits : payload.length ≤ Ws.WS_RX_MAX) :
    let l' := deliver fw_keyhash boot_set_pending l (.binary payload)
    l' = l ∨ (l.attached = true ∧ l.upg.s.active = true) ∧ l'.attached = true ∧
      (l'.fw_crc = l.fw_crc ∧ l'.got = l.got ∧ l'.upg.s.failed = true ∨
        l'.fw_crc = ws_crc16 l.fw_crc payload ∧ l'.got = l.got ++ payload ∧ Accepted l'.upg l'.got) := by
  have short : payload.length < 2^31 := by
    unfold Ws.WS_RX_MAX at fits
    omega
  intro l'
  by_cases attached : l.attached = true
  · simp only [l', deliver, if_pos attached]
    simp only [ws_message, ws_binary, ↓run_bind, ↓run_once, ↓run_ite, ↓run_pure, observed, exec, accepted, fw_upg_active]
    cases active : l.upg.s.active with
    | false => exact .inl (by simp)
    | true =>
      cases failed : l.upg.s.failed with
      | true =>
        simp only [fw_upg_write_failed failed]
        exact .inl rfl
      | false =>
        obtain ⟨_, _, ⟨done, holds⟩ | ⟨refused, failed'⟩⟩ := fw_upg_write_accepted (holding active failed) short
        · simp only [done, if_true]
          exact .inr ⟨⟨attached, trivial⟩, attached, .inr ⟨trivial, trivial, holds⟩⟩
        · simp only [refused, if_true, if_false]
          exact .inr ⟨⟨attached, trivial⟩, attached, .inl ⟨trivial, trivial, failed'⟩⟩
  · exact .inl (if_neg attached)

/-- An `fw_end` in a session ends it. -/
theorem deliver_end :
    let l' := deliver fw_keyhash boot_set_pending l .fw_end
    l' = l ∨ l'.upg.s.active = false := by
  intro l'
  by_cases attached : l.attached = true
  · simp only [l', deliver, if_pos attached]
    cases active : l.upg.s.active with
    | false =>
      simp only [ws_message, ↓run_bind, ↓run_once, observed, exec, fw_upg_active, active, Bool.not_false, if_true,
        ↓run_pure, accepted]
      exact .inl trivial
    | true =>
      right
      have closed := fw_upg_finish_ex_closed fw_keyhash l.fw_crc true l.upg
      simp only [ws_message, ws_fw_task, ws_fw_end, ↓run_bind, ↓run_once, ↓run_ite, ↓run_pure, observed, exec,
        fw_upg_active, active, Bool.not_true, Bool.false_eq_true, if_false]
      split
      · rfl
      · split
        · rfl
        · split
          · exact closed
          · split <;> exact closed
  · exact .inl (if_neg attached)

theorem step_holding (l : Link) (e : Event) (holding : Holding l) : Holding (step fw_keyhash boot_set_pending l e) := by
  cases e with
  | attach =>
    rw [step]
    split <;> exact holding
  | detach => exact holding
  | fw_start fw_size keyhash =>
    rw [step]
    rcases @deliver_start fw_keyhash boot_set_pending l fw_size keyhash with same | idle | ⟨total, kh, -, -, done, started⟩
    · rw [same]
      exact holding
    · exact holding_idle idle
    · rw [started]
      exact fun _ _ => (fw_upg_start_accepted done).1
  | fw_end =>
    rw [step]
    rcases @deliver_end fw_keyhash boot_set_pending l with same | idle
    · rw [same]
      exact holding
    · exact holding_idle idle
  | binary payload fits =>
    rw [step]
    rcases @deliver_binary fw_keyhash boot_set_pending l payload holding fits with same | ⟨-, -, ⟨-, -, failed⟩ | ⟨-, -, holds⟩⟩
    · rw [same]
      exact holding
    · intro _ unfailed
      rw [failed] at unfailed
      cases unfailed
    · exact fun _ _ => holds
  | reboot => exact holding_idle rfl

theorem run_holding (dev : Dev) (events : List Event) :
    Holding (events.foldl (step fw_keyhash boot_set_pending) { upg := ⟨Session.zero, dev⟩ }) :=
  @Machine.invariant _ _ (step fw_keyhash boot_set_pending) (fun _ _ => True) Holding
    (fun l e holding _ => step_holding l e holding) _ (holding_idle rfl) events (Machine.meets_of_all fun _ _ _ => trivial)

theorem step_inStep (l : Link) (e : Event) (inv : InStep l) (together : Together fw_keyhash l e) :
    InStep (step fw_keyhash boot_set_pending l e) := by
  refine ⟨?_, step_holding l e inv.holds⟩
  cases e with
  | attach =>
    rw [step]
    split
    · exact inv.crc
    · rename_i detached
      exact fun _ active => (together (eq_false_of_ne_true detached) active).symm
  | detach =>
    intro attached
    cases attached
  | fw_start fw_size keyhash =>
    rw [step]
    rcases @deliver_start fw_keyhash boot_set_pending l fw_size keyhash with same | idle | ⟨total, kh, attached, op, done, started⟩
    · rw [same]
      exact inv.crc
    · exact (inStep_idle idle).crc
    · rw [started]
      exact fun _ _ => together total kh attached op done
  | fw_end =>
    rw [step]
    rcases @deliver_end fw_keyhash boot_set_pending l with same | idle
    · rw [same]
      exact inv.crc
    · exact (inStep_idle idle).crc
  | binary payload fits =>
    rw [step]
    rcases @deliver_binary fw_keyhash boot_set_pending l payload inv.holds fits with
      same | ⟨⟨attached, active⟩, -, ⟨crc, got, -⟩ | ⟨crc, got, -⟩⟩
    · rw [same]
      exact inv.crc
    · intro _ _
      rw [crc, got]
      exact inv.crc attached active
    · intro _ _
      rw [crc, got, inv.crc attached active, ws_crc16, crc16_ccitt_append]
  | reboot => exact (inStep_idle rfl).crc

theorem run_inStep (dev : Dev) {events : List Event}
    (together : Machine.Meets (step fw_keyhash boot_set_pending) (Together fw_keyhash) { upg := ⟨Session.zero, dev⟩ }
      events) :
    InStep (events.foldl (step fw_keyhash boot_set_pending) { upg := ⟨Session.zero, dev⟩ }) :=
  Machine.invariant step_inStep (inStep_idle rfl) together

/-- The checksum that `fw_upg_finish` reads back, if it gets that far. -/
def read_back (u : Upg) : Option UInt16 :=
  if u.s.failed then none
  else
    match page_flush u.s.page ⟨u.s.close, u.dev⟩ with
    | (false, _) => none
    | (true, u') =>
      if u'.s.written + u.s.page.length ≠ u'.s.total then none else (crc_read_back 0 u'.s.total 0 u'.dev).1

/-- `fw_upg_finish` only succeeds on the checksum that it reads back. -/
theorem read_back_finish {u : Upg} {crc : UInt16} (active : u.s.active = true) (done : (fw_upg_finish fw_keyhash crc u).1 = 0) :
    read_back u = some crc := by
  have passed : (finish_body fw_keyhash crc true ⟨u.s.close, u.dev⟩).1 = true := by
    by_contra failed
    simp only [fw_upg_finish, fw_upg_finish_ex, active, Bool.not_true, Bool.false_eq_true, if_false, failed] at done
    cases done
  have same : (Session.close u.s).failed = u.s.failed ∧ (Session.close u.s).page = u.s.page := ⟨rfl, rfl⟩
  rcases flushed : page_flush u.s.page ⟨u.s.close, u.dev⟩ with ⟨whole, u'⟩
  rw [finish_body, same.1, same.2, flushed] at passed
  rw [read_back, flushed]
  by_cases failed : u.s.failed = true
  · rw [if_pos failed] at passed
    cases passed
  · rw [if_neg failed] at passed ⊢
    cases whole with
    | false => cases passed
    | true =>
      simp only [finish_check] at passed ⊢
      split at passed
      · cases passed
      · rename_i complete
        rw [if_neg complete]
        simp only [image_check, if_true] at passed
        by_contra other
        rw [if_pos other] at passed
        cases passed

/-- What is read back is the checksum of the bytes accepted. -/
theorem read_back_accepted (holding : Holding l) (active : l.upg.s.active = true) {crc : UInt16}
    (read : read_back l.upg = some crc) : crc = crc16_ccitt 0 l.got := by
  unfold read_back at read
  split at read
  · simp at read
  · rename_i unfailed
    have holds := holding active (eq_false_of_ne_true unfailed)
    have tail := @page_flush_tail l.upg l.got ⟨l.upg.s.close, l.upg.dev⟩ holds rfl rfl
    obtain ⟨written, total⟩ := page_flush_session l.upg.s.page ⟨l.upg.s.close, l.upg.dev⟩
    split at read
    · simp at read
    · rename_i u' flushed
      rw [flushed] at tail written total
      split at read
      · simp at read
      · rename_i whole
        have length : u'.s.total = l.got.length := by
          rw [← holds.received, fw_upg_received, ← not_ne_iff.mp whole, written]
          rfl
        have sum := crc_read_back_some read
        rw [length, Nat.add_zero, Nat.sub_zero] at sum
        exact sum.trans (congrArg _ (tail rfl).1)

/-- The worker on a complete upload: it is not refused for its checksum. -/
theorem fw_end_answer {u : Upg} {got : List UInt8} (works : Working u) (holds : Accepted u got)
    (own : (tlv_keyhash_get (fw_upg_finish fw_keyhash (crc16_ccitt 0 got) u).2.dev.sound).1 = some fw_keyhash) :
    ((ws_fw_task (.END (crc16_ccitt 0 got))).run (exec fw_keyhash boot_set_pending) u).1.json ≠
      errReply "crc mismatch" := by
  have received := holds.received
  simp only [ws_fw_task, ws_fw_end, ↓run_bind, ↓run_once, ↓run_ite, ↓run_pure, exec]
  split
  · change errReply "no data" ≠ errReply "crc mismatch"
    decide
  · split
    · change errReply "size mismatch" ≠ errReply "crc mismatch"
      decide
    · rename_i complete
      have total : got.length = u.s.total := by
        rw [← received, not_ne_iff.mp complete, fw_upg_total, if_pos holds.active]
      have done := fw_upg_finish_ex_working works holds total (fun _ => rfl) own
      by_cases pending : (boot_set_pending true (fw_upg_finish_ex fw_keyhash (crc16_ccitt 0 got) true u).2.dev).1 = true
      · simp only [done, pending, ne_eq, not_true_eq_false, Bool.not_true, Bool.false_eq_true, if_false]
        decide
      · simp only [done, eq_false_of_ne_true pending, ne_eq, not_true_eq_false, Bool.not_false, if_false, if_true]
        decide

/-- A complete upload whose checksum is not the one that is read back. -/
theorem fw_end_refused {u : Upg} {crc : UInt16} (active : u.s.active = true) (some_ : fw_upg_received u ≠ 0)
    (whole : fw_upg_received u = fw_upg_total u) (other : read_back u ≠ some crc) :
    ((ws_fw_task (.END crc)).run (exec fw_keyhash boot_set_pending) u).1 = ⟨errReply "crc mismatch", false⟩ := by
  have failed : (fw_upg_finish_ex fw_keyhash crc true u).1 ≠ 0 := fun done => other (read_back_finish active done)
  rw [whole] at some_
  simp only [ws_fw_task, ws_fw_end, ↓run_bind, ↓run_once, ↓run_ite, ↓run_pure, exec, some_, whole, failed, if_false, ne_eq,
    not_true_eq_false, not_false_eq_true, if_true]

/-- An `fw_end` in an open session is queued with the checksum of the connection. -/
theorem fw_end_queued {u : Upg} (crc : UInt16) (active : fw_upg_active u = true) :
    (ws_message crc .fw_end).run (exec fw_keyhash boot_set_pending) u =
      ((some ((ws_fw_task (.END crc)).run (exec fw_keyhash boot_set_pending) u).1, crc),
        ((ws_fw_task (.END crc)).run (exec fw_keyhash boot_set_pending) u).2) := by
  simp only [ws_message, ↓run_bind, ↓run_once, exec, active, Bool.not_true, Bool.false_eq_true, if_false, ↓run_pure]

end

/-- The boot loader takes every request. -/
def willing (_ : Bool) (d : Dev) : Bool × Dev := (true, d)

/-- The smallest image, sent in one frame. -/
def image_frame : Event := .binary (smallImage smallHash) (by decide +kernel)

end IoEdgeHub.WsChecksum
