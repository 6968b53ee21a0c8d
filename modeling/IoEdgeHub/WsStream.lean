import IoEdgeHub.Httpd

/-!
What the server sends on an upgraded connection. An observer records for each connection
what `tcp_write` has accepted since the upgrade, and whether everything that the order of
these bytes rests on has gone well. The invariant ties the record to the owner of the
session; here every function of the session keeps it.
-/
namespace IoEdgeHub.WsStream
open IoEdgeHub.Calls IoEdgeHub.Ws IoEdgeHub.Httpd

/-- None of the frames that are complete in `data` is one that the session answers by itself:
    each is final, and neither a close nor a ping. -/
def quiet : Rx → List UInt8 → Bool
  | _, [] => true
  | rx, b :: data =>
    match ws_byte rx b with
    | (.next, rx) => quiet rx data
    | (.close, _) => true
    | (.frame_done, rx) =>
      rx.fin && rx.op ≠ 0x8 && rx.op ≠ 0x9 &&
        ((rx.op ≠ 0x1 && rx.op ≠ 0x2 && rx.op ≠ 0xA) || quiet { rx with state := .WS_HDR, hdr := [] } data)

/-- Machines that a header to come makes the same. -/
inductive Alike : Rx → Rx → Prop
  | same (rx : Rx) : Alike rx rx
  | header {a b : Rx} (begun : a.state = .WS_HDR) (begun' : b.state = .WS_HDR) (hdr : a.hdr = b.hdr) : Alike a b
  | length {a : Rx} (mask : List UInt8) (sizing : a.state = .WS_LEN16 ∨ a.state = .WS_LEN64) : Alike a { a with mask }

theorem ws_byte_alike {a b : Rx} (alike : Alike a b) (x : UInt8) :
    (ws_byte a x).1 = (ws_byte b x).1 ∧ ((ws_byte a x).1 ≠ .close → Alike (ws_byte a x).2 (ws_byte b x).2) ∧
      ((ws_byte a x).1 = .frame_done → (ws_byte a x).2 = (ws_byte b x).2) := by
  cases alike with
  | same => exact ⟨rfl, fun _ => .same _, fun _ => rfl⟩
  | header begun begun' hdr =>
    simp only [ws_byte, begun, begun', hdr]
    split
    · exact ⟨rfl, fun _ => .header rfl rfl rfl, by simp⟩
    · split
      · exact ⟨rfl, fun _ => .length b.mask (.inl rfl), by simp⟩
      · split
        · exact ⟨rfl, fun _ => .length b.mask (.inr rfl), by simp⟩
        · unfold Rx.sized
          split
          · simp
          · exact ⟨rfl, fun _ => .same _, by simp⟩
  | length mask sizing =>
    rcases sizing with sizing | sizing <;> simp only [ws_byte, sizing]
    all_goals
      split
      · unfold Rx.sized
        split
        · simp
        · exact ⟨rfl, fun _ => .same _, by simp⟩
      · exact ⟨rfl, fun _ => .length mask (by simp), by simp⟩

theorem quiet_alike {a b : Rx} (alike : Alike a b) (data : List UInt8) : quiet a data = quiet b data := by
  induction data generalizing a b with
  | nil => rfl
  | cons x data ih =>
    obtain ⟨event, next, frame⟩ := ws_byte_alike alike x
    unfold quiet
    generalize ws_byte a x = taken at event next frame ⊢
    generalize ws_byte b x = taken' at event next frame ⊢
    obtain ⟨e, rx⟩ := taken
    obtain ⟨e', rx'⟩ := taken'
    obtain rfl : e = e' := event
    cases e with
    | next => exact ih (next (by simp))
    | close => rfl
    | frame_done =>
      obtain rfl : rx = rx' := frame rfl
      rfl
/-- What was accepted on a connection since its upgrade, and whether the order was safe so far. -/
structure Stream where
  out : List UInt8 := []
  met : Bool := true
deriving DecidableEq

/-- The answer of `tcp_write`. The pump does not come back to what it could not write for want
    of memory, and nobody comes back to the payload of a frame. -/
def Stream.wrote (s : Stream) (site : Site) (bytes : List UInt8) (e : Err) : Stream :=
  if e = .ERR_OK then { s with out := s.out ++ bytes }
  else { s with met := s.met && !(site = .frame_payload || (site = .pump && e = .ERR_MEM)) }

/-- What becomes of the record of connection `i` with a call and its answer. -/
def stream_after (i : Slot) (s : Option Stream) : ∀ {β : Type}, Call β → β → Option Stream
  | _, .accepted j, _ => if j = i then none else s
  | _, .attached j pending, _ => if j = i then some { met := quiet {} pending } else s
  | _, .tcp_write site j bytes, e => if j = i then s.map (·.wrote site bytes e) else s
  | _, .tcp_sndbuf site j, n =>
    if j = i ∧ site = .pump ∧ n = 0 then s.map fun s => { s with met := false } else s
  | _, .ws_handle_cmd j _, answer =>
    if j = some i ∧ answer ≠ none then s.map fun s => { s with met := s.met && s.out ≠ [] } else s
  | _, _, _ => s

abbrev Record := Slot → Option Stream

def heard (g : Record) {β : Type} (c : Call β) (r : β) : Record := fun i => stream_after i (g i) c r

theorem heard_eq (g : Record) {β : Type} (c : Call β) (r : β) : heard g c r = fun i => stream_after i (g i) c r := rfl

def Header (hdr : List UInt8) : Prop := ∃ key, ws_handshake key 160 = some hdr

def Frame (f : List UInt8) : Prop := ∃ opcode payload, f = ws_header opcode payload.length ++ payload

/-- A response header and whole frames. -/
def Complete (out : List UInt8) : Prop :=
  ∃ (hdr : List UInt8) (frames : List (List UInt8)), Header hdr ∧ (∀ f ∈ frames, Frame f) ∧ out = hdr ++ frames.flatten

/-- The beginning of a response header and whole frames. -/
def WellFormed (out : List UInt8) : Prop := ∃ whole, Complete whole ∧ out <+: whole

theorem wellFormed_of_complete {out : List UInt8} (complete : Complete out) : WellFormed out :=
  ⟨out, complete, List.prefix_rfl⟩

theorem complete_of_header {hdr : List UInt8} (header : Header hdr) : Complete hdr :=
  ⟨hdr, [], header, by simp, by simp⟩

theorem complete_frame {out : List UInt8} (complete : Complete out) (opcode : UInt8) (payload : List UInt8) :
    Complete (out ++ ws_header opcode payload.length ++ payload) := by
  obtain ⟨hdr, frames, header, whole, rfl⟩ := complete
  refine ⟨hdr, frames ++ [ws_header opcode payload.length ++ payload], header, ?_, by simp⟩
  intro f member
  rcases List.mem_append.mp member with old | new
  · exact whole f old
  · exact ⟨opcode, payload, List.mem_singleton.mp new⟩

/-! ### The invariant -/

/-- The session belongs to `o`: every place that records the owner says so. -/
structure Owned (w : Web) (o : Option Slot) : Prop where
  active : w.ws.active = o.isSome
  pcb : w.ws.pcb = o
  conn : w.ws_conn = o
  is_ws : ∀ i, (w.conns i).is_ws = true ↔ o = some i
  live : ∀ i, o = some i → (w.conns i).pcb = true ∧ (w.conns i).kind ≠ .RESP_NONE
  idle : ∀ i, (w.conns i).pcb = false →
    (w.conns i).rx = [] ∧ (w.conns i).hdr_done = false ∧ (w.conns i).kind = .RESP_NONE

/-- The owner's stream satisfies `P` and the streams of ended sessions are well formed, as far
    as the record vouches for them. -/
structure Inv (P : List UInt8 → Prop) (w : Web) (g : Record) (o : Option Slot) : Prop extends Owned w o where
  owner : ∀ i, o = some i → ∃ s, g i = some s ∧ (s.met = true → P s.out)
  gone : ∀ i s, o ≠ some i → g i = some s → (w.conns i).pcb = false ∧ (s.met = true → WellFormed s.out)

section
variable {P Q : List UInt8 → Prop} {w : Web} {g : Record} {o : Option Slot} {i : Slot}

theorem inv_mono (weaker : ∀ out, P out → Q out) (inv : Inv P w g o) : Inv Q w g o where
  toOwned := inv.toOwned
  owner := fun i own => by
    obtain ⟨s, found, good⟩ := inv.owner i own
    exact ⟨s, found, fun met => weaker _ (good met)⟩
  gone := inv.gone

/-- The machine that receives and the timers are nobody's concern. -/
theorem inv_session {ws : Session} (active : ws.active = w.ws.active) (pcb : ws.pcb = w.ws.pcb) (inv : Inv P w g o) :
    Inv P { w with ws } g o where
  active := active.trans inv.active
  pcb := pcb.trans inv.pcb
  conn := inv.conn
  is_ws := inv.is_ws
  live := inv.live
  idle := inv.idle
  owner := inv.owner
  gone := inv.gone

theorem inv_setRx (rx : Rx) (inv : Inv P w g o) : Inv P (w.setRx rx) g o := inv_session rfl rfl inv

@[simp] theorem set_conns_self (c : Conn) : (w.set i c).conns i = c := by simp [Web.set]

theorem set_conns_other {j : Slot} (other : j ≠ i) (c : Conn) : (w.set i c).conns j = w.conns j := by
  simp [Web.set, other]

/-- A connection without the session can change as long as it does not open. -/
theorem inv_set (inv : Inv P w g o) (other : o ≠ some i) {c : Conn} (plain : c.is_ws = false)
    (opened : c.pcb = true → g i = none)
    (closed : c.pcb = false → c.rx = [] ∧ c.hdr_done = false ∧ c.kind = .RESP_NONE) : Inv P (w.set i c) g o where
  active := inv.active
  pcb := inv.pcb
  conn := inv.conn
  is_ws := fun j => by
    by_cases same : j = i
    · subst same
      simp [plain, other]
    · rw [set_conns_other same]
      exact inv.is_ws j
  live := fun j own => by
    have different : j ≠ i := fun same => other (same ▸ own)
    rw [set_conns_other different]
    exact inv.live j own
  idle := fun j => by
    by_cases same : j = i
    · subst same
      simpa using closed
    · rw [set_conns_other same]
      exact inv.idle j
  owner := inv.owner
  gone := fun j s lost found => by
    by_cases same : j = i
    · subst same
      obtain ⟨-, good⟩ := inv.gone j s lost found
      refine ⟨?_, good⟩
      cases state : c.pcb with
      | false => simpa using state
      | true => simp [opened state] at found
    · rw [set_conns_other same]
      exact inv.gone j s lost found

theorem open_unrecorded (inv : Inv P w g o) (other : o ≠ some i) (opened : (w.conns i).pcb = true) : g i = none := by
  cases found : g i with
  | none => rfl
  | some s =>
    have closed := (inv.gone i s other found).1
    simp [opened] at closed

theorem other_of_plain (inv : Inv P w g o) (plain : (w.conns i).is_ws = false) : o ≠ some i := by
  intro own
  have upgraded := (inv.is_ws i).mpr own
  simp [plain] at upgraded

/-- What is left of a connection. -/
def closed (i : Slot) (w : Web) : Web :=
  (leave_ws i w).set i
    { (leave_ws i w).conns i with pcb := false, kind := .RESP_NONE, rx := [], hdr_done := false }

@[simp] theorem ends_conn_close {post : Record → Web → Prop} :
    (conn_close i w).Ends @heard post g ↔ post g (closed i w) := by
  unfold conn_close
  by_cases opened : ((leave_ws i w).conns i).pcb <;> by_cases file : ((leave_ws i w).conns i).kind = .RESP_FILE <;>
    simp [opened, file, call, heard_eq, stream_after, closed]

@[simp] theorem ends_http_err_cb {post : Record → Web → Prop} :
    (http_err_cb i w).Ends @heard post g ↔ post g (closed i w) := by
  unfold http_err_cb
  by_cases file : ((leave_ws i w).conns i).kind = .RESP_FILE <;>
    simp [file, call, heard_eq, stream_after, closed]

theorem closed_conns_self : ((closed i w).conns i).pcb = false := by simp [closed]

theorem closed_conns_other {j : Slot} (other : j ≠ i) : (closed i w).conns j = w.conns j := by
  unfold closed leave_ws
  split <;> simp [ws_detach, Web.set, other]

theorem leave_ws_other (plain : (w.conns i).is_ws = false) : leave_ws i w = w := by simp [leave_ws, plain]

/-- Closing ends the session if it is the connection's, and changes nothing else. -/
theorem inv_closed (ends : ∀ out, P out → WellFormed out) (inv : Inv P w g o) :
    Inv P (closed i w) g (if o = some i then none else o) := by
  by_cases own : o = some i
  · have upgraded : (w.conns i).is_ws = true := (inv.is_ws i).mpr own
    rw [if_pos own]
    exact {
      active := by simp [closed, leave_ws, upgraded, ws_detach, Web.set]
      pcb := by simp [closed, leave_ws, upgraded, ws_detach, Web.set]
      conn := by simp [closed, leave_ws, upgraded, ws_detach, Web.set, inv.conn, own]
      is_ws := fun j => by
        by_cases same : j = i
        · subst same
          simp [closed, leave_ws, upgraded, ws_detach]
        · rw [closed_conns_other same]
          simp [inv.is_ws j, own, Ne.symm same]
      live := fun j none_is => by simp at none_is
      idle := fun j => by
        by_cases same : j = i
        · subst same
          simp [closed]
        · rw [closed_conns_other same]
          exact inv.idle j
      owner := fun j none_is => by simp at none_is
      gone := fun j s _ found => by
        by_cases same : j = i
        · subst same
          obtain ⟨s', found', good⟩ := inv.owner j own
          obtain rfl : s' = s := by simpa [found'] using found
          exact ⟨closed_conns_self, fun met => ends _ (good met)⟩
        · rw [closed_conns_other same]
          exact inv.gone j s (by simpa [own] using Ne.symm same) found }
  · have plain : (w.conns i).is_ws = false := by simpa [own] using inv.is_ws i
    rw [if_neg own]
    unfold closed
    rw [leave_ws_other plain]
    exact inv_set inv own plain (by simp) (by simp)

theorem closed_detached (own : Owned w (some i)) : closed i { ws_detach w with ws_conn := none } = closed i w := by
  have upgraded : (w.conns i).is_ws = true := (own.is_ws i).mpr rfl
  simp [closed, leave_ws, ws_detach, upgraded, own.conn, Web.set]

theorem ends_ws_close_session (ends : ∀ out, P out → WellFormed out) (inv : Inv P w g o) :
    (ws_close_session w).Ends @heard (fun g' w' => Inv P w' g' none) g := by
  unfold ws_close_session
  cases o with
  | none => simpa [inv.active] using inv
  | some i =>
    have owner : (ws_detach w).ws_conn = some i := inv.conn
    simp only [inv.active, Option.isSome_some, if_true, ws_closed_cb, owner, ends_conn_close, closed_detached inv.toOwned]
    simpa using inv_closed (i := i) ends inv

/-- Whole frames can be added. -/
def Sends (P : List UInt8 → Prop) : Prop :=
  ∀ out opcode (payload : List UInt8), P out → P (out ++ ws_header opcode payload.length ++ payload)

theorem inv_record (inv : Inv P w g (some i)) {s : Stream} (good : s.met = true → Q s.out) {g' : Record}
    (own : g' i = some s) (others : ∀ j, j ≠ i → g' j = g j) : Inv Q w g' (some i) where
  toOwned := inv.toOwned
  owner := fun j own' => by
    obtain rfl : i = j := by simpa using own'
    exact ⟨s, own, good⟩
  gone := fun j s' lost found => by
    have different : j ≠ i := fun same => lost (by rw [same])
    rw [others j different] at found
    exact inv.gone j s' lost found

theorem heard_write_other {j : Slot} (other : j ≠ i) (site : Site) (bytes : List UInt8) (e : Err) :
    heard g (.tcp_write site i bytes) e j = g j := by
  simp [heard_eq, stream_after, Ne.symm other]

theorem heard_write_self {s : Stream} (found : g i = some s) (site : Site) (bytes : List UInt8) (e : Err) :
    heard g (.tcp_write site i bytes) e i = some (s.wrote site bytes e) := by
  simp [heard_eq, stream_after, found]

@[simp] theorem heard_frame_sndbuf (n : Nat) : heard g (.tcp_sndbuf .frame_header i) n = g := by
  simp [heard_eq, stream_after]

@[simp] theorem heard_output (r : Unit) : heard g (.tcp_output i) r = g := rfl

/-- A frame goes out whole, or not at all, or the record no longer vouches for the stream. -/
theorem ends_ws_send (sends : Sends P) (inv : Inv P w g o) (opcode : UInt8) (payload : List UInt8) :
    (ws_send w opcode payload).Ends @heard (fun g' _ => Inv P w g' o) g := by
  unfold ws_send
  cases o with
  | none => simpa [inv.active] using inv
  | some i =>
    obtain ⟨s, found, good⟩ := inv.owner i rfl
    simp only [inv.active, Option.isSome_some, if_true, inv.pcb]
    simp only [call, ends_bind, ends_once, heard_frame_sndbuf, ends_ite, ends_pure, heard_output]
    intro snd
    refine ⟨fun _ => inv, fun _ e => ?_⟩
    have first := heard_write_self found .frame_header (ws_header opcode payload.length) e
    have others := fun j (other : j ≠ i) => heard_write_other (g := g) other .frame_header (ws_header opcode payload.length) e
    constructor
    · intro refused
      refine inv_record inv ?_ first others
      simpa [Stream.wrote, refused] using good
    intro accepted
    obtain rfl : e = .ERR_OK := not_not.mp accepted
    constructor
    · intro empty _
      refine inv_record inv ?_ first others
      intro met
      simpa [Stream.wrote, empty] using sends s.out opcode payload (good met)
    · intro _ e'
      have second := heard_write_self first .frame_payload payload e'
      have others' := fun j (other : j ≠ i) =>
        (heard_write_other other .frame_payload payload e').trans (others j other)
      have written : (((s.wrote .frame_header (ws_header opcode payload.length) .ERR_OK).wrote .frame_payload payload e').met =
          true → P ((s.wrote .frame_header (ws_header opcode payload.length) .ERR_OK).wrote .frame_payload payload e').out) := by
        by_cases done : e' = .ERR_OK
        · subst done
          intro met
          simpa [Stream.wrote] using sends s.out opcode payload (good met)
        · simp [Stream.wrote, done]
      exact ⟨fun _ _ => inv_record inv written second others', fun _ => inv_record inv written second others'⟩

/-- A text that is built and pushed. -/
theorem ends_push {c : Call (List UInt8)} (ignored : ∀ g r, heard g c r = g) (sends : Sends P) (inv : Inv P w g o)
    {rest : Prog Call Web} {post : Record → Web → Prop} (after : ∀ g', Inv P w g' o → rest.Ends @heard post g') :
    (do
      let json ← call c
      ws_send w 0x1 json
      rest : Prog Call Web).Ends @heard post g := by
  simp only [call, ends_bind, ends_once, ignored]
  intro json
  exact ends_mono (ends_ws_send sends inv 0x1 json) fun g' _ inv' => after g' inv'

theorem ends_push_state (sends : Sends P) (inv : Inv P w g o) (now : UInt32) :
    (push_state now w).Ends @heard (fun g' w' => Inv P w' g' o) g := by
  unfold push_state
  rw [ends_ite]
  refine ⟨fun _ => ?_, fun _ => inv⟩
  refine ends_push (fun _ _ => rfl) sends inv fun g' inv' => ?_
  exact ends_push (fun _ _ => rfl) sends inv' fun g'' inv'' => inv_session rfl rfl inv''

theorem ends_push_info (sends : Sends P) (inv : Inv P w g o) (now : UInt32) :
    (push_info now w).Ends @heard (fun g' w' => Inv P w' g' o) g := by
  unfold push_info
  rw [ends_ite]
  exact ⟨fun _ => ends_push (fun _ _ => rfl) sends inv fun g' inv' => inv_session rfl rfl inv', fun _ => inv⟩

/-- What is pushed goes out in whole frames. -/
theorem ends_ws_poll (sends : Sends P) (inv : Inv P w g o) :
    (ws_poll w).Ends @heard (fun g' w' => Inv P w' g' o) g := by
  unfold ws_poll
  simp only [call, ends_bind, ends_once, ends_ite, ends_pure]
  intro now
  refine ⟨fun _ => inv, fun _ => ?_⟩
  exact ends_mono (ends_push_state sends inv now) fun _ _ inv' => ends_push_info sends inv' now

/-- The session goes on and the connections are as they were, or it has ended. -/
def Fed (P : List UInt8 → Prop) (w : Web) (o : Option Slot) (g' : Record) (w' : Web) : Prop :=
  (Inv P w' g' o ∧ w'.conns = w.conns) ∨ Inv P w' g' none

/-- An answer can only cost the stream its soundness. -/
theorem inv_cmd (inv : Inv P w g o) (text : List UInt8) (answer : Option (List UInt8)) :
    Inv P w (heard g (.ws_handle_cmd w.ws.pcb text) answer) o := by
  cases o with
  | none => simpa [heard_eq, stream_after, inv.pcb] using inv
  | some i =>
    obtain ⟨s, found, good⟩ := inv.owner i rfl
    by_cases silent : answer = none
    · simpa [heard_eq, stream_after, silent] using inv
    · refine inv_record inv (s := { s with met := s.met && s.out ≠ [] }) ?_ ?_ ?_
      · intro met
        have before : s.met = true := by
          simp only [Bool.and_eq_true] at met
          exact met.1
        exact good before
      · simp [heard_eq, stream_after, inv.pcb, silent, found]
      · intro j other
        simp [heard_eq, stream_after, inv.pcb, Ne.symm other]

theorem ends_send_close (sends : Sends P) (ends : ∀ out, P out → WellFormed out) (inv : Inv P w g o) :
    (ws_send w 0x8 [] >>= fun _ => ws_close_session w).Ends @heard (Fed P w o) g := by
  rw [ends_bind]
  refine ends_mono (ends_ws_send sends inv 0x8 []) ?_
  intro g' _ inv'
  exact ends_mono (ends_ws_close_session ends inv') fun _ _ gone => .inr gone

theorem ends_send_on (sends : Sends P) (inv : Inv P w g o) (opcode : UInt8) (payload : List UInt8) :
    (ws_send w opcode payload >>= fun _ => pure w).Ends @heard (Fed P w o) g := by
  rw [ends_bind]
  exact ends_mono (ends_ws_send sends inv opcode payload) fun _ _ inv' => .inl ⟨inv', rfl⟩

theorem ends_text (sends : Sends P) (inv : Inv P w g o) (text : List UInt8) :
    (do
      let answer ← call (.ws_handle_cmd w.ws.pcb text)
      match answer with
      | some json => ws_send w 0x1 json
      | none => pure ()
      pure w : Prog Call Web).Ends @heard (Fed P w o) g := by
  simp only [call, ends_bind, ends_once]
  intro answer
  have heard_inv := inv_cmd inv text answer
  cases answer with
  | none => exact .inl ⟨heard_inv, rfl⟩
  | some json => exact ends_send_on sends heard_inv 0x1 json

/-- Every frame is answered with whole frames only. -/
theorem ends_ws_frame_done (sends : Sends P) (ends : ∀ out, P out → WellFormed out) (inv : Inv P w g o) :
    (ws_frame_done w).Ends @heard (Fed P w o) g := by
  unfold ws_frame_done
  have stays : Fed P w o g w := .inl ⟨inv, rfl⟩
  simp only [ends_ite]
  refine ⟨fun _ => ends_send_close sends ends inv, fun _ => ⟨fun _ => ?_, fun _ => ⟨fun _ => ?_, fun _ =>
    ⟨fun _ => ends_send_close sends ends inv, fun _ => ⟨fun _ => ends_send_on sends inv _ _, fun _ =>
      ⟨fun _ => stays, fun _ => ?_⟩⟩⟩⟩⟩⟩
  · exact ⟨fun _ => ends_text sends inv _, fun _ => stays⟩
  · intro r
    exact stays
  · exact ends_mono (ends_ws_close_session ends inv) fun _ _ gone => .inr gone

/-- The loop after a frame. -/
def feed_on (data : List UInt8) (w : Web) : Prog Call Web :=
  if ¬ w.ws.active then pure w else ws_feed (w.setRx { w.ws.rx with state := .WS_HDR, hdr := [] }) data

theorem ends_feed_on {data : List UInt8} {g' : Record} {w' : Web}
    (feed : ∀ {w : Web} {g : Record}, Inv P w g o → (ws_feed w data).Ends @heard (Fed P w o) g)
    (fed : Fed P w o g' w') : (feed_on data w').Ends @heard (Fed P w o) g' := by
  unfold feed_on
  rcases fed with ⟨inv, same⟩ | gone
  · rw [ends_ite]
    refine ⟨fun _ => .inl ⟨inv, same⟩, fun _ => ?_⟩
    refine ends_mono (feed (inv_setRx _ inv)) ?_
    rintro g'' w'' (⟨inv', same'⟩ | gone)
    · exact .inl ⟨inv', same'.trans same⟩
    · exact .inr gone
  · simpa [gone.active] using .inr gone

/-- So is everything that is received. -/
theorem ends_ws_feed (sends : Sends P) (ends : ∀ out, P out → WellFormed out) (data : List UInt8) {w : Web}
    {g : Record} (inv : Inv P w g o) : (ws_feed w data).Ends @heard (Fed P w o) g := by
  induction data generalizing w g with
  | nil => exact .inl ⟨inv, rfl⟩
  | cons b data ih =>
    unfold ws_feed
    rw [ends_ite]
    refine ⟨fun _ => .inl ⟨inv, rfl⟩, fun _ => ?_⟩
    rcases ws_byte w.ws.rx b with ⟨event, rx⟩
    cases event with
    | next => exact ih (inv_setRx rx inv)
    | close => exact ends_mono (ends_ws_close_session ends (inv_setRx rx inv)) fun _ _ gone => .inr gone
    | frame_done =>
      simp only [ends_bind]
      refine ends_mono (ends_ws_frame_done sends ends (inv_setRx rx inv)) ?_
      intro g' w' fed
      exact ends_feed_on ih fed

/-! ### What was received before the response -/

/-- Nothing is said of a stream that the record does not vouch for. -/
theorem inv_unsound {s : Stream} (inv : Inv P w g (some i)) (found : g i = some s) (unsound : s.met = false) :
    Inv (fun _ => False) w g (some i) :=
  inv_record inv (by simp [unsound]) found fun _ _ => rfl

theorem fed_mono (weaker : ∀ out, P out → Q out) {g' : Record} {w' : Web} (fed : Fed P w o g' w') : Fed Q w o g' w' :=
  fed.imp (And.imp_left (inv_mono weaker)) (inv_mono weaker)

theorem ends_unsound_feed {s : Stream} {data : List UInt8} (inv : Inv P w g (some i)) (found : g i = some s)
    (unsound : s.met = false) : (ws_feed w data).Ends @heard (Fed P w (some i)) g :=
  ends_mono (ends_ws_feed (fun _ _ _ => False.elim) (fun _ => False.elim) data (inv_unsound inv found unsound))
    fun _ _ => fed_mono fun _ => False.elim

/-- A command that is answered before the response costs the record its soundness. -/
theorem ends_early_answer {s : Stream} {data : List UInt8} (inv : Inv (· = []) w g (some i)) (found : g i = some s)
    (met : s.met = true) (text json : List UInt8) :
    (ws_send w 0x1 json >>= fun _ => feed_on data w).Ends @heard (Fed (· = []) w (some i))
      (heard g (.ws_handle_cmd w.ws.pcb text) (some json)) := by
  obtain ⟨s', found', empty⟩ := inv.owner i rfl
  obtain rfl : s' = s := by simpa [found'] using found
  have upset : heard g (.ws_handle_cmd w.ws.pcb text) (some json) i = some { s' with met := false } := by
    simp [heard_eq, stream_after, inv.pcb, found', empty met]
  have unsound := inv_unsound (inv_cmd inv text (some json)) upset rfl
  have sends : Sends fun _ => False := fun _ _ _ => False.elim
  rw [ends_bind]
  refine ends_mono (ends_ws_send sends unsound 0x1 json) ?_
  intro g' _ inv'
  refine ends_mono (ends_feed_on (ends_ws_feed sends (fun _ => False.elim) data) (.inl ⟨inv', rfl⟩)) ?_
  exact fun _ _ => fed_mono fun _ => False.elim

/-- A quiet frame is not answered: the loop goes on if its opcode is known, and else the session ends. -/
theorem ends_quiet_frame (start : WellFormed []) {s : Stream} {data : List UInt8} (inv : Inv (· = []) w g (some i))
    (found : g i = some s) (met : s.met = true) (final : w.ws.rx.fin = true) (not_close : w.ws.rx.op ≠ 0x8)
    (not_ping : w.ws.rx.op ≠ 0x9)
    (on : w.ws.rx.op = 0x1 ∨ w.ws.rx.op = 0x2 ∨ w.ws.rx.op = 0xA →
      (feed_on data w).Ends @heard (Fed (· = []) w (some i)) g) :
    (ws_frame_done w >>= feed_on data).Ends @heard (Fed (· = []) w (some i)) g := by
  rw [ends_bind]
  unfold ws_frame_done
  simp only [ends_ite]
  refine ⟨fun fragment => absurd final fragment, fun _ => ⟨fun text => ⟨fun _ => ?_, fun _ => on (.inl text)⟩,
    fun _ => ⟨fun binary r => on (.inr (.inl binary)), fun _ => ⟨fun is_close => absurd is_close not_close, fun _ =>
      ⟨fun is_ping => absurd is_ping not_ping, fun _ => ⟨fun pong => on (.inr (.inr pong)), fun _ => ?_⟩⟩⟩⟩⟩⟩
  · simp only [call, ends_bind, ends_once]
    intro answer
    cases answer with
    | none => simpa [heard_eq, stream_after] using on (.inl text)
    | some json => simpa only [ends_bind, ends_pure] using ends_early_answer inv found met w.ws.rx.payload json
  · refine ends_mono (ends_ws_close_session ?_ inv) ?_
    · rintro out rfl
      exact start
    · intro g' w' gone
      unfold feed_on
      simpa [gone.active] using .inr gone

/-- Quiet frames leave the stream empty. -/
theorem ends_quiet_feed (start : WellFormed []) (data : List UInt8) {w : Web} {g : Record}
    (inv : Inv (· = []) w g (some i))
    (still : ∀ s, g i = some s → s.met = true → quiet w.ws.rx data = true) :
    (ws_feed w data).Ends @heard (Fed (· = []) w (some i)) g := by
  induction data generalizing w g with
  | nil => exact .inl ⟨inv, rfl⟩
  | cons b data ih =>
    obtain ⟨s, found, -⟩ := inv.owner i rfl
    cases met : s.met with
    | false => exact ends_unsound_feed inv found met
    | true =>
      have sound := still s found met
      unfold quiet at sound
      unfold ws_feed
      rw [ends_ite]
      refine ⟨fun _ => .inl ⟨inv, rfl⟩, fun _ => ?_⟩
      generalize ws_byte w.ws.rx b = taken at sound ⊢
      obtain ⟨event, rx⟩ := taken
      have inv' := inv_setRx rx inv
      cases event with
      | next => exact ih inv' fun _ _ _ => sound
      | close =>
        refine ends_mono (ends_ws_close_session ?_ inv') fun _ _ gone => .inr gone
        rintro out rfl
        exact start
      | frame_done =>
        simp only [Bool.and_eq_true, Bool.or_eq_true, decide_eq_true_eq] at sound
        obtain ⟨⟨⟨final, not_close⟩, not_ping⟩, rest⟩ := sound
        refine ends_quiet_frame start inv' found met final not_close not_ping ?_
        intro known
        unfold feed_on
        rw [ends_ite]
        refine ⟨fun _ => .inl ⟨inv', rfl⟩, fun _ => ?_⟩
        have quiet_rest : quiet { rx with state := .WS_HDR, hdr := [] } data = true := by
          refine rest.resolve_left ?_
          rintro ⟨⟨not_text, not_binary⟩, not_pong⟩
          simp only [Web.setRx, not_text, not_binary, not_pong, or_self] at known
        exact ih (inv_setRx { rx with state := .WS_HDR, hdr := [] } inv') fun _ _ _ => quiet_rest

theorem inv_attached {c : Conn} (ws : Session) (pending : List UInt8) (inv : Inv P w g none) (upgraded : c.is_ws = true)
    (opened : c.pcb = true) (busy : c.kind ≠ .RESP_NONE) (active : ws.active = true) (pcb : ws.pcb = some i) :
    Inv (· = []) { w.set i c with ws, ws_conn := some i } (heard g (.attached i pending) ()) (some i) where
  active := active
  pcb := pcb
  conn := rfl
  is_ws := fun j => by
    by_cases same : j = i
    · subst same
      simp [Web.set, upgraded]
    · have plain := inv.is_ws j
      simpa [Web.set, same, Ne.symm same] using plain
  live := fun j own => by
    obtain rfl : i = j := by simpa using own
    simp [Web.set, opened, busy]
  idle := fun j => by
    by_cases same : j = i
    · subst same
      simp [Web.set, opened]
    · simpa [Web.set, same] using inv.idle j
  owner := fun j own => by
    obtain rfl : i = j := by simpa using own
    exact ⟨{ met := quiet {} pending }, by simp [heard_eq, stream_after], fun _ => rfl⟩
  gone := fun j s lost found => by
    have different : j ≠ i := fun same => lost (by rw [same])
    have found' : g j = some s := by simpa [heard_eq, stream_after, Ne.symm different] using found
    simpa [Web.set, different] using inv.gone j s (by simp) found'

/-- The session begins with an empty stream, or has ended already. -/
theorem ends_ws_attach {c : Conn} (start : WellFormed []) (pending : List UInt8) (inv : Inv P w g none)
    (upgraded : c.is_ws = true) (opened : c.pcb = true) (busy : c.kind ≠ .RESP_NONE) :
    (ws_attach i pending { w.set i c with ws_conn := some i }).Ends @heard (Fed (· = []) (w.set i c) (some i)) g := by
  have idle : w.ws.active = false := inv.active
  unfold ws_attach
  simp only [Web.set, idle, Bool.false_eq_true, if_false, call, ends_bind, ends_once]
  intro now r
  have begun := inv_attached
    { active := true, pcb := some i, rx := { w.ws.rx with state := .WS_HDR, hdr := [], payload := [] },
      t_push := now - WS_PUSH_MS + 500, t_info := now - WS_INFO_MS + 500 } pending inv upgraded opened busy rfl rfl
  refine ends_quiet_feed start pending begun ?_
  intro s found met
  obtain rfl : s = { met := quiet {} pending } := by simpa [heard_eq, stream_after] using found.symm
  refine (quiet_alike ?_ pending).trans met
  exact .header rfl rfl rfl

end

end IoEdgeHub.WsStream
