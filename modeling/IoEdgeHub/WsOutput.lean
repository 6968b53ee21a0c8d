import IoEdgeHub.WsStream
import IoEdgeHub.HttpTurns
import IoEdgeHub.Machine

/-!
The bytes on an upgraded connection over whole runs of the web server: the response to the
upgrade request, then whole frames. The record of `WsStream` is kept through the pump, the
requests and the callbacks, with both connections in play.
-/
namespace IoEdgeHub.WsOutput
open IoEdgeHub.Calls IoEdgeHub.Ws IoEdgeHub.Httpd IoEdgeHub.WsStream
open IoEdgeHub.HttpTurns (Keeps Moved mem_response respond_mem_eq respond_file_eq moved_pump_response maybe_headed used take_turn
  take_advance http_process_rx_turn)

section
variable {P Q : List UInt8 → Prop} {w : Web} {g : Record} {o : Option Slot} {i : Slot} {c : Conn} {fuel : Nat}

/-- The record is as it was, and the connection as far as the session is concerned. -/
structure Kept (g : Record) (c : Conn) (g' : Record) (c' : Conn) : Prop where
  record : g' = g
  pcb : c'.pcb = c.pcb
  is_ws : c'.is_ws = c.is_ws

theorem kept_refl (g : Record) (c : Conn) : Kept g c g c := ⟨rfl, rfl, rfl⟩

theorem kept_trans {c c' c'' : Conn} {g' g'' : Record} (first : Kept g c g' c') (second : Kept g' c' g'' c'') :
    Kept g c g'' c'' :=
  ⟨second.record.trans first.record, second.pcb.trans first.pcb, second.is_ws.trans first.is_ws⟩

theorem heard_plain_write (unrecorded : g i = none) (site : Site) (bytes : List UInt8) (e : Err) :
    heard g (.tcp_write site i bytes) e = g := by
  funext j
  by_cases same : i = j
  · subst same
    simp [heard_eq, stream_after, unrecorded]
  · simp [heard_eq, stream_after, same]

theorem heard_plain_sndbuf (unrecorded : g i = none) (site : Site) (n : Nat) :
    heard g (.tcp_sndbuf site i) n = g := by
  funext j
  by_cases same : i = j
  · subst same
    simp [heard_eq, stream_after, unrecorded]
  · simp [heard_eq, stream_after, same]

/-- The pump of a connection without a record goes unrecorded. -/
theorem keeps_plain (i : Slot) : Keeps @heard i fun g g' => g i = none → g' = g where
  refl := fun _ _ => rfl
  trans := fun first second unrecorded => by
    obtain rfl := first unrecorded
    exact second unrecorded
  sndbuf := fun _ n unrecorded => heard_plain_sndbuf unrecorded .pump n
  write := fun _ bytes e unrecorded => heard_plain_write unrecorded .pump bytes e
  mss := fun _ _ _ => rfl
  output := fun _ _ _ => rfl

theorem ends_plain_response (unrecorded : g i = none) :
    (pump_response fuel i c).Ends @heard (fun g' r => Kept g c g' r.2) g := by
  refine ends_mono (moved_pump_response (keeps_plain i) (fun _ _ _ _ _ => rfl) g) ?_
  intro g' r moved
  exact ⟨moved.seen unrecorded, moved.frame.pcb, moved.frame.is_ws⟩

theorem kept_mem_response (g : Record) (c : Conn) (now : UInt32) (status ctype body : List UInt8) (keep : Bool)
    (extra : List UInt8) : Kept g c g (mem_response c now status ctype body keep extra) := by
  unfold mem_response
  split <;> exact ⟨rfl, rfl, rfl⟩

theorem ends_respond_mem (status ctype body extra : List UInt8) (keep : Bool) :
    (respond_mem c status ctype body keep extra).Ends @heard (Kept g c) g := by
  rw [respond_mem_eq]
  intro now
  exact kept_mem_response g c now status ctype body keep extra

theorem ends_respond_json_err (status err : String) : (respond_json_err c status err).Ends @heard (Kept g c) g :=
  ends_respond_mem _ _ _ _ _

theorem ends_respond (route : Route) : (respond c route).Ends @heard (Kept g c) g := by
  cases route with
  | mem status ctype extra body => exact ends_respond_mem status ctype body extra true
  | file size extra =>
    rw [respond_file_eq]
    simp only [call, ends_bind, ends_once, ends_ite, ends_pure]
    exact fun now => ⟨fun _ _ => ends_respond_json_err _ _, fun _ => ⟨rfl, rfl, rfl⟩⟩

theorem header_response {hdr : List UInt8} (header : Header hdr) : ∃ accept, hdr = ws_response accept := by
  obtain ⟨key, answered⟩ := header
  simp only [ws_handshake] at answered
  split at answered
  · simp at answered
  · split at answered
    · simp at answered
    · exact ⟨_, (Option.some.inj answered).symm⟩

theorem header_head {hdr : List UInt8} (header : Header hdr) : hdr.head? = some 72 := by
  obtain ⟨accept, rfl⟩ := header_response header
  rfl

theorem header_length_pos {hdr : List UInt8} (header : Header hdr) : 0 < hdr.length := by
  have first := header_head header
  cases hdr with
  | nil => simp at first
  | cons => simp

theorem wellFormed_take {hdr : List UInt8} (header : Header hdr) (n : Nat) : WellFormed (hdr.take n) :=
  ⟨hdr, complete_of_header header, List.take_prefix n hdr⟩

/-- What the pump makes of the response: it is out as far as `hdr_sent` says, and all of it is
    if the connection goes on. -/
structure Pumped (w : Web) (i : Slot) (c : Conn) (g' : Record) (r : Bool × Conn) : Prop where
  conn : ∃ sent written, r.2 = { c with hdr_sent := sent, written }
  begun : Inv (· = c.hdr.take r.2.hdr_sent) w g' (some i)
  whole : r.1 = true → Inv (· = c.hdr) w g' (some i)

theorem pumped_all (inv : Inv (· = c.hdr.take c.hdr_sent) w g (some i)) (done : c.hdr.length ≤ c.hdr_sent) :
    Pumped w i c g (true, c) where
  conn := ⟨c.hdr_sent, c.written, rfl⟩
  begun := inv
  whole := fun _ => by rwa [List.take_of_length_le done] at inv

/-- The pump stopped for want of room, and the record says so. -/
theorem pumped_unsound {s : Stream} (good : Bool) (inv : Inv (· = c.hdr.take c.hdr_sent) w g (some i)) {g' : Record}
    (found : g' i = some s) (unsound : s.met = false) (others : ∀ j, j ≠ i → g' j = g j) :
    Pumped w i c g' (good, c) where
  conn := ⟨c.hdr_sent, c.written, rfl⟩
  begun := inv_record inv (by simp [unsound]) found others
  whole := fun _ => inv_record inv (by simp [unsound]) found others

theorem ends_pump_response (no_body : c.body = []) (room : c.hdr.length - c.hdr_sent ≤ fuel)
    (inv : Inv (· = c.hdr.take c.hdr_sent) w g (some i)) : (pump_mem i fuel c).Ends @heard (Pumped w i c) g := by
  induction fuel generalizing c g with
  | zero => exact pumped_all inv (by omega)
  | succ fuel ih =>
    obtain ⟨s, found, good⟩ := inv.owner i rfl
    unfold pump_mem
    simp only [no_body, List.length_nil, Nat.not_lt_zero, or_false, call, ends_ite, ends_bind, ends_once, ends_pure]
    refine ⟨fun more snd => ⟨fun full => ?_, fun _ e => ?_⟩, fun done => pumped_all inv (by omega)⟩
    · refine @pumped_unsound _ _ _ _ { s with met := false } true inv _ ?_ rfl ?_
      · simp [heard_eq, stream_after, full, found]
      · intro j other
        simp [heard_eq, stream_after, Ne.symm other]
    have roomy : heard g (.tcp_sndbuf .pump i) snd = g := by simp [heard_eq, stream_after, *]
    have unsent : c.unsent = c.hdr.drop c.hdr_sent := if_pos more
    rw [roomy, unsent]
    have wrote := heard_write_self found .pump ((c.hdr.drop c.hdr_sent).take snd) e
    have others := fun j (other : j ≠ i) => heard_write_other (g := g) other .pump ((c.hdr.drop c.hdr_sent).take snd) e
    cases e with
    | ERR_OK =>
      have advanced : c.advance ((c.hdr.drop c.hdr_sent).take snd).length =
          { c with hdr_sent := c.hdr_sent + ((c.hdr.drop c.hdr_sent).take snd).length,
                   written := c.written + ((c.hdr.drop c.hdr_sent).take snd).length } := if_pos more
      rw [advanced]
      refine ends_mono (ih no_body ?_ (inv_record inv ?_ wrote others)) ?_
      · simp only [List.length_take, List.length_drop]
        omega
      · intro met
        simp only [Stream.wrote, if_true] at met ⊢
        rw [good met, take_advance]
      · rintro g' r ⟨⟨sent, written, conn⟩, begun, whole⟩
        exact ⟨⟨sent, written, conn⟩, begun, whole⟩
    | ERR_MEM => exact pumped_unsound true inv wrote (by simp [Stream.wrote]) others
    | ERR_OTHER =>
      refine ⟨⟨c.hdr_sent, c.written, rfl⟩, inv_record inv ?_ wrote others, by simp⟩
      simpa [Stream.wrote] using good

theorem inv_set_owner (inv : Inv P w g (some i)) (upgraded : c.is_ws = true) (opened : c.pcb = true)
    (busy : c.kind ≠ .RESP_NONE) : Inv P (w.set i c) g (some i) where
  active := inv.active
  pcb := inv.pcb
  conn := inv.conn
  is_ws := fun j => by
    by_cases same : j = i
    · subst same
      simp [upgraded]
    · rw [set_conns_other same]
      exact inv.is_ws j
  live := fun j own => by
    obtain rfl : i = j := by simpa using own
    simp [opened, busy]
  idle := fun j => by
    by_cases same : j = i
    · subst same
      simp [opened]
    · rw [set_conns_other same]
      exact inv.idle j
  owner := inv.owner
  gone := fun j s lost found => by
    have different : j ≠ i := fun same => lost (by rw [same])
    rw [set_conns_other different]
    exact inv.gone j s lost found

/-- What holds between callbacks. -/
def Good (g : Record) (w : Web) : Prop := ∃ o, Inv Complete w g o

theorem sends_complete : Sends Complete := fun _ opcode payload complete => complete_frame complete opcode payload

theorem good_closed (ends : ∀ out, P out → WellFormed out) (inv : Inv P w g (some i)) : Good g (closed i w) := by
  have gone := inv_closed (i := i) ends inv
  rw [if_pos rfl] at gone
  exact ⟨none, gone.toOwned, fun j none_is => by simp at none_is, gone.gone⟩

/-- A connection that has just been upgraded, with its response still to be sent. -/
structure Upgraded (c : Conn) : Prop where
  header : Header c.hdr
  unsent : c.hdr_sent = 0
  no_body : c.body = []
  unacked : c.acked = 0
  total : c.rsp_total = c.hdr.length
  kind : c.kind = .RESP_MEM

theorem ends_pump_upgraded {process : Web → Prog Call Web} (upgraded : Upgraded (w.conns i))
    (inv : Inv (· = []) w g (some i)) : (conn_pump fuel process i w).Ends @heard Good g := by
  obtain ⟨opened, busy⟩ := inv.live i rfl
  have is_ws : (w.conns i).is_ws = true := (inv.is_ws i).mpr rfl
  have start : Inv (· = (w.conns i).hdr.take (w.conns i).hdr_sent) w g (some i) := by
    rwa [upgraded.unsent, List.take_zero]
  unfold conn_pump pump_response
  simp only [opened, upgraded.kind, reduceCtorEq, not_true_eq_false, or_false, if_false, ends_bind]
  refine ends_mono (ends_pump_response upgraded.no_body (Nat.le_add_right _ _) start) ?_
  rintro g' ⟨good, c'⟩ ⟨⟨sent, written, rfl⟩, begun, whole⟩
  simp only [ends_ite, ends_bind, call, ends_once, ends_pure, ends_conn_close, heard_output]
  constructor
  · intro _
    refine good_closed ?_ (inv_set_owner begun is_ws opened busy)
    rintro out rfl
    exact wellFormed_take upgraded.header sent
  · intro good _
    refine ⟨fun complete => ?_, fun _ => ⟨some i, ?_⟩⟩
    · have pos := header_length_pos upgraded.header
      have acked := complete.2
      simp only [upgraded.unacked, upgraded.total] at acked
      omega
    · refine inv_set_owner (inv_mono ?_ (whole (not_not.mp good))) is_ws opened busy
      rintro out rfl
      exact complete_of_header upgraded.header

section
variable {process : Web → Prog Call Web}
  (on : ∀ {w : Web} {g : Record} {o : Option Slot}, Inv Complete w g o → (process w).Ends @heard Good g)
include on

theorem ends_response_done (inv : Inv Complete w g o) (other : o ≠ some i) (unrecorded : g i = none)
    (plain : c.is_ws = false) (opened : c.pcb = true) : (response_done process i w c).Ends @heard Good g := by
  have done (c' : Conn) (kept : Kept g c g c') : Inv Complete (w.set i c') g o :=
    inv_set inv other (kept.is_ws.trans plain) (fun _ => unrecorded) (by simp [kept.pcb, opened])
  have ended : (if ¬ c.keep_alive then conn_close i (w.set i { c with kind := .RESP_NONE, hdr_done := false })
      else do
        let now ← call .now_ms
        let w := w.set i { c with kind := .RESP_NONE, hdr_done := false, t_idle := now }
        if c.rx ≠ [] then process w else pure w : Prog Call Web).Ends @heard Good g := by
    simp only [call, ends_ite, ends_bind, ends_once, ends_pure, ends_conn_close]
    constructor
    · intro _
      exact ⟨_, inv_closed (fun _ => wellFormed_of_complete) (done _ ⟨rfl, rfl, rfl⟩)⟩
    · intro _ now
      have inv' : Inv Complete (w.set i { c with kind := .RESP_NONE, hdr_done := false, t_idle := now }) g o :=
        done _ ⟨rfl, rfl, rfl⟩
      exact ⟨fun _ => on inv', fun _ => ⟨o, inv'⟩⟩
  unfold response_done
  rw [ends_ite]
  exact ⟨fun _ r => ended, fun _ => ended⟩

theorem ends_conn_pump (inv : Inv Complete w g o) (other : o ≠ some i) :
    (conn_pump fuel process i w).Ends @heard Good g := by
  unfold conn_pump
  rw [ends_ite]
  refine ⟨fun _ => ⟨o, inv⟩, fun running => ?_⟩
  have opened : (w.conns i).pcb = true := by simpa using (not_or.mp running).1
  have unrecorded := open_unrecorded inv other opened
  have plain : (w.conns i).is_ws = false := by simpa [other] using inv.is_ws i
  rw [ends_bind]
  refine ends_mono (ends_plain_response unrecorded) ?_
  rintro g' ⟨good, c⟩ kept
  obtain rfl := kept.record
  have plain' : c.is_ws = false := kept.is_ws.trans plain
  have opened' : c.pcb = true := kept.pcb.trans opened
  have inv' : Inv Complete (w.set i c) g' o := inv_set inv other plain' (fun _ => unrecorded) (by simp [opened'])
  simp only [call, ends_ite, ends_bind, ends_once, ends_pure, ends_conn_close, heard_output]
  refine ⟨fun _ => ⟨_, inv_closed (fun _ => wellFormed_of_complete) inv'⟩, fun _ _ => ⟨fun _ => ?_, fun _ => ⟨o, inv'⟩⟩⟩
  exact ends_response_done @on inv other unrecorded plain' opened'

/-- A connection that is open and not upgraded. -/
structure Plain (w : Web) (g : Record) (o : Option Slot) (i : Slot) : Prop where
  inv : Inv Complete w g o
  other : o ≠ some i
  opened : (w.conns i).pcb = true

omit on in
theorem plain_of_is_ws (inv : Inv Complete w g o) (not_ws : (w.conns i).is_ws = false) (opened : (w.conns i).pcb = true) :
    Plain w g o i := ⟨inv, other_of_plain inv not_ws, opened⟩

omit on in
theorem plain_set (plain : Plain w g o i) {c : Conn} (kept : Kept g (w.conns i) g c) : Plain (w.set i c) g o i where
  inv := by
    have not_ws : (w.conns i).is_ws = false := by simpa [plain.other] using plain.inv.is_ws i
    have unrecorded := open_unrecorded plain.inv plain.other plain.opened
    exact inv_set plain.inv plain.other (kept.is_ws.trans not_ws) (fun _ => unrecorded) (by simp [kept.pcb, plain.opened])
  other := plain.other
  opened := by simp [kept.pcb, plain.opened]

theorem ends_refuse (plain : Plain w g o i) {c : Conn} (kept : Kept g (w.conns i) g c) (err : String) (keep : Bool) :
    (refuse (conn_pump fuel process i) i w c err keep).Ends @heard Good g := by
  unfold refuse
  simp only [ends_bind]
  refine ends_mono (ends_respond_json_err _ _) ?_
  intro g' c' kept'
  obtain rfl := kept'.record
  have ready := plain_set plain (c := { c' with keep_alive := keep && c'.keep_alive })
    (kept_trans kept (kept_trans kept' ⟨rfl, rfl, rfl⟩))
  refine ends_mono (ends_conn_pump @on ready.inv ready.other) ?_
  rintro g'' w' ⟨o', inv'⟩
  simp only [ends_ite, ends_conn_close, ends_pure]
  exact ⟨fun _ => ⟨_, inv_closed (fun _ => wellFormed_of_complete) inv'⟩, fun _ => ⟨o', inv'⟩⟩

theorem ends_answer (plain : Plain w g o i) {c : Conn} (kept : Kept g (w.conns i) g c) (used : Nat) :
    (answer (conn_pump fuel process i) i w c used process).Ends @heard Good g := by
  unfold answer
  have ready := plain_set plain (c := c.consume used) (kept_trans kept ⟨rfl, rfl, rfl⟩)
  rw [ends_bind]
  refine ends_mono (ends_conn_pump @on ready.inv ready.other) ?_
  rintro g' w' ⟨o', inv'⟩
  rw [ends_ite]
  exact ⟨fun _ => ⟨o', inv'⟩, fun _ => on inv'⟩

theorem ends_route (plain : Plain w g o i) {c : Conn} (kept : Kept g (w.conns i) g c) (method path : List UInt8)
    (query : Option (List UInt8)) (body : List UInt8) (used : Conn → Nat) :
    (do
      let route ← call (.dispatch method path query body)
      let c ← respond c route
      answer (conn_pump fuel process i) i w c (used c) process : Prog Call Web).Ends @heard Good g := by
  simp only [call, ends_bind, ends_once]
  intro route
  refine ends_mono (ends_respond route) ?_
  intro g' c' kept'
  obtain rfl := kept'.record
  exact ends_answer @on plain (kept_trans kept kept') _

theorem ends_error (plain : Plain w g o i) {c : Conn} (kept : Kept g (w.conns i) g c) (status err : String) :
    (do
      let c ← respond_json_err c status err
      answer (conn_pump fuel process i) i w c c.body_off process : Prog Call Web).Ends @heard Good g := by
  rw [ends_bind]
  refine ends_mono (ends_respond_json_err status err) ?_
  intro g' c' kept'
  obtain rfl := kept'.record
  exact ends_answer @on plain (kept_trans kept kept') _

omit on in
theorem ends_upgrade_response (hdr_len : Nat) :
    (upgrade_response i w hdr_len).Ends @heard
      (fun g' r => g' = g ∧ ∀ resp, r = some resp → w.ws.active = false ∧ Header resp) g := by
  unfold upgrade_response
  rw [ends_ite]
  refine ⟨fun _ => ⟨rfl, by simp⟩, fun idle => ?_⟩
  have answered (key : List UInt8) : ∀ resp, ws_handshake key 160 = some resp → w.ws.active = false ∧ Header resp := by
    intro resp handshake
    exact ⟨by simpa using idle, key, handshake⟩
  split
  · exact ⟨rfl, by simp⟩
  · unfold read_key
    simp only [call, ends_bind, ends_ite, ends_once, ends_pure]
    exact ⟨fun _ => ⟨trivial, answered _⟩, fun _ more => ⟨rfl, answered _⟩⟩

/-- The upgrade: from here on the record speaks of the connection. -/
theorem ends_upgrade (plain : Plain w g none i) {resp : List UInt8} (header : Header resp) :
    (upgrade (conn_pump fuel process i) i w resp).Ends @heard Good g := by
  unfold upgrade
  simp only [call, ends_bind, ends_once]
  intro now
  have start : WellFormed [] := wellFormed_take header 0
  refine ends_mono (ends_ws_attach start _ plain.inv rfl plain.opened (by simp)) ?_
  rintro g' w' (⟨inv, same⟩ | gone)
  · rw [same, set_conns_self]
    refine ends_pump_upgraded ?_ (inv_set_owner inv rfl plain.opened (by simp))
    rw [set_conns_self]
    exact ⟨header, rfl, rfl, rfl, rfl, rfl⟩
  · have inv : Inv Complete w' g' none := ⟨gone.toOwned, fun j none_is => by simp at none_is, gone.gone⟩
    have not_ws : (w'.conns i).is_ws = false := by simpa using inv.is_ws i
    have inv' := inv_set inv (by simp) (i := i) (c := { w'.conns i with rx := [], hdr_done := false }) not_ws
      (open_unrecorded inv (by simp)) (fun closed => ⟨rfl, rfl, (inv.idle i closed).2.2⟩)
    exact ends_conn_pump @on inv' (by simp)

/-- What a round does, whatever its turn, keeps the record. -/
theorem ends_round (plain : Plain w g o i) (t : HttpTurns.Turn) :
    (take_turn (conn_pump fuel process i) process i w t).Ends @heard Good g := by
  have kept (h : Option HttpTurns.Head) : Kept g (w.conns i) g (maybe_headed (w.conns i) h) := by
    cases h <;> exact ⟨rfl, rfl, rfl⟩
  cases t with
  | wait => exact ⟨o, plain.inv⟩
  | refuse h err keep => exact ends_refuse @on plain (kept h) err keep
  | body h => exact on (plain_set plain (kept (some h))).inv
  | upgrade h =>
    have ready := plain_set plain (kept (some h))
    simp only [take_turn]
    rw [ends_bind]
    refine ends_mono (ends_upgrade_response _) ?_
    rintro g' resp ⟨rfl, granted⟩
    cases resp with
    | none => exact ends_error @on plain (kept (some h)) _ _
    | some resp =>
      obtain ⟨unowned, header⟩ := granted resp rfl
      obtain rfl : o = none := by
        have idle : (w.set i (maybe_headed (w.conns i) (some h))).ws.active = false := unowned
        simpa [ready.inv.active] using idle
      exact ends_upgrade @on ready header
  | dispatch h method path query body => exact ends_route @on plain (kept h) method path query body (used h)

end

theorem plain_of_idle (inv : Inv Complete w g o) (idle : (w.conns i).kind = .RESP_NONE) (opened : (w.conns i).pcb = true) :
    Plain w g o i where
  inv := inv
  other := fun own => (inv.live i own).2 idle
  opened := opened

/-- Requests, whatever they are, keep the record. -/
theorem ends_http_process_rx (fuel : Nat) {w : Web} {g : Record} {o : Option Slot} (inv : Inv Complete w g o) :
    (http_process_rx fuel i w).Ends @heard Good g := by
  induction fuel generalizing w g o with
  | zero => exact ⟨o, inv⟩
  | succ fuel ih =>
    rw [http_process_rx_turn, ends_ite]
    refine ⟨fun _ => ⟨o, inv⟩, fun idle => ?_⟩
    have idle : (w.conns i).kind = .RESP_NONE := not_not.mp idle
    by_cases opened : (w.conns i).pcb = true
    · exact ends_round @ih (plain_of_idle inv idle opened) _
    · obtain ⟨empty, fresh, -⟩ := inv.idle i (by simpa using opened)
      simpa [HttpTurns.turn, empty, fresh, find_hdr_end, HTTP_RX_BUF, take_turn] using ⟨o, inv⟩

theorem ends_http_recv_cb (inv : Inv Complete w g o) (p : Option (List UInt8)) :
    (http_recv_cb fuel i p w).Ends @heard Good g := by
  unfold http_recv_cb
  cases p with
  | none => simpa using ⟨_, inv_closed (i := i) (fun _ => wellFormed_of_complete) inv⟩
  | some p =>
    simp only [ends_ite]
    refine ⟨fun _ => ⟨o, inv⟩, fun opened => ⟨fun _ => ?_, fun not_ws => ?_⟩⟩
    · refine ends_mono (ends_ws_feed sends_complete
        (fun _ => wellFormed_of_complete) p inv) ?_
      rintro g' w' (⟨inv', -⟩ | gone)
      · exact ⟨o, inv'⟩
      · exact ⟨none, gone⟩
    · have plain := plain_of_is_ws inv (by simpa using not_ws) (not_not.mp opened)
      refine ⟨fun _ => ends_refuse (ends_http_process_rx fuel) plain (kept_refl g _) _ _, fun _ => ?_⟩
      simp only [call, ends_bind, ends_once]
      intro now
      have received := plain_set plain (c := { w.conns i with rx := (w.conns i).rx ++ p, tail := [], t_rx := now })
        ⟨rfl, rfl, rfl⟩
      exact ends_http_process_rx fuel received.inv

theorem ends_http_sent_cb (inv : Inv Complete w g o) (len : Nat) :
    (http_sent_cb fuel i len w).Ends @heard Good g := by
  unfold http_sent_cb
  simp only [call, ends_ite, ends_bind, ends_once, ends_pure]
  refine ⟨fun _ => ⟨o, inv⟩, fun opened now => ⟨fun is_ws => ?_, fun not_ws => ?_⟩⟩
  · obtain rfl : o = some i := (inv.is_ws i).mp is_ws
    exact ⟨some i, inv_set_owner inv is_ws (not_not.mp opened) (inv.live i rfl).2⟩
  · have plain := plain_of_is_ws inv (by simpa using not_ws) (not_not.mp opened)
    have acked := plain_set plain (c := { w.conns i with acked := (w.conns i).acked + len, t_ack := now }) ⟨rfl, rfl, rfl⟩
    exact ends_conn_pump (ends_http_process_rx fuel) acked.inv acked.other

theorem ends_http_poll_cb (inv : Inv Complete w g o) : (http_poll_cb i w).Ends @heard Good g := by
  unfold http_poll_cb
  have stays : Good g w := ⟨o, inv⟩
  have closes : Good g (closed i w) := ⟨_, inv_closed (fun _ => wellFormed_of_complete) inv⟩
  simp only [call, ends_bind, ends_once, ends_ite, ends_pure, ends_conn_close]
  intro now
  refine ⟨fun _ => stays, fun _ => ⟨fun _ => ?_, fun _ => ⟨fun _ => ⟨fun _ => closes, fun _ => stays⟩, fun _ =>
    ⟨fun _ => ⟨fun _ => closes, fun _ => stays⟩, fun _ => ⟨fun _ => closes, fun _ => stays⟩⟩⟩⟩⟩
  refine ends_mono (ends_ws_poll sends_complete inv) ?_
  exact fun g' w' inv' => ⟨o, inv'⟩

theorem other_of_closed (inv : Inv P w g o) (closed : (w.conns i).pcb = false) : o ≠ some i := by
  intro own
  have opened := (inv.live i own).1
  simp [closed] at opened

/-- A new connection has no record. -/
theorem inv_accepted (inv : Inv P w g o) (closed : (w.conns i).pcb = false) (r : Unit) :
    Inv P w (heard g (.accepted i) r) o where
  toOwned := inv.toOwned
  owner := fun j own => by
    have different : i ≠ j := fun same => other_of_closed inv closed (same ▸ own)
    simpa [heard_eq, stream_after, different] using inv.owner j own
  gone := fun j s lost found => by
    have different : i ≠ j := by
      rintro rfl
      simp [heard_eq, stream_after] at found
    exact inv.gone j s lost (by simpa [heard_eq, stream_after, different] using found)

theorem ends_http_accept_cb (inv : Inv Complete w g o) : (http_accept_cb w).Ends @heard Good g := by
  unfold http_accept_cb
  split
  · simp only [call, ends_bind, ends_once, ends_pure]
    intro r
    exact ⟨o, inv⟩
  · rename_i i free
    have closed : (w.conns i).pcb = false := by simpa using List.find?_some free
    simp only [call, ends_bind, ends_once, ends_pure]
    intro now r
    refine ⟨o, inv_set (inv_accepted inv closed r) (other_of_closed inv closed) rfl ?_ ?_⟩
    · intro _
      simp [heard_eq, stream_after]
    · simp [Conn.fresh]

theorem ends_ws_fw_reply_cb (inv : Inv Complete w g o) (json : List UInt8) :
    (ws_fw_reply_cb json w).Ends @heard Good g := by
  unfold ws_fw_reply_cb
  rw [ends_bind]
  refine ends_mono (ends_ws_send sends_complete inv 0x1 json) ?_
  exact fun g' _ inv' => ⟨o, inv'⟩
end

/-! ### Runs -/

/-- What the stack calls back with, and the answers of the upgrade worker. -/
inductive Event
  | accept
  | recv (i : Slot) (p : Option (List UInt8))
  | sent (i : Slot) (len : Nat)
  | poll (i : Slot)
  | err (i : Slot)
  | fw_reply (json : List UInt8)

def callback (fuel : Nat) : Event → Web → Prog Call Web
  | .accept => http_accept_cb
  | .recv i p => http_recv_cb fuel i p
  | .sent i len => http_sent_cb fuel i len
  | .poll i => http_poll_cb i
  | .err i => http_err_cb i
  | .fw_reply json => ws_fw_reply_cb json

/-- The server, the world that answers its calls, and the record of what it sent. -/
structure Server (ω : Type) where
  web : Web := {}
  world : ω
  streams : Record := fun _ => none

section
variable {ω : Type} (exec : ∀ {β : Type}, Call β → ω → β × ω) (fuel : Nat)

def step (s : Server ω) (e : Event) : Server ω :=
  let done := (callback fuel e s.web).run (observed @heard @exec) (s.world, s.streams)
  { web := done.1, world := done.2.1, streams := done.2.2 }

theorem ends_callback {w : Web} {g : Record} (good : Good g w) (e : Event) :
    (callback fuel e w).Ends @heard Good g := by
  obtain ⟨o, inv⟩ := good
  cases e with
  | accept => exact ends_http_accept_cb inv
  | recv i p => exact ends_http_recv_cb inv p
  | sent i len => exact ends_http_sent_cb inv len
  | poll i => exact ends_http_poll_cb inv
  | err i => exact ends_http_err_cb.mpr ⟨_, inv_closed (fun _ => wellFormed_of_complete) inv⟩
  | fw_reply json => exact ends_ws_fw_reply_cb inv json

theorem good_start : Good (fun _ => none) {} := by
  refine ⟨none, ⟨rfl, rfl, rfl, ?_, ?_, ?_⟩, ?_, ?_⟩ <;> simp

theorem good_run (world : ω) (events : List Event) :
    Good (events.foldl (step @exec fuel) { world }).streams (events.foldl (step @exec fuel) { world }).web := by
  have keep : ∀ (s : Server ω) (e : Event), Good s.streams s.web → True →
      Good (step @exec fuel s e).streams (step @exec fuel s e).web :=
    fun s e good _ => run_ends (ends_callback fuel good e) s.world
  exact @Machine.invariant _ _ _ (fun _ _ => True) (fun s : Server ω => Good s.streams s.web) keep _ good_start _
    (Machine.meets_of_all fun _ _ _ => trivial)

/-- Between callbacks the four places that record the owner of the session agree: the session
    is active iff there is a `ws_conn`, iff exactly one connection is upgraded, and then it is
    that connection, which is open and the one the session writes to. -/
theorem session_owned (world : ω) (events : List Event) :
    let s := (events.foldl (step @exec fuel) { world }).web
    (s.ws.active = true ↔ s.ws_conn ≠ none) ∧
      (s.ws.active = true ↔ ∃! i, (s.conns i).is_ws = true) ∧
      ∀ i, (s.conns i).is_ws = true → s.ws_conn = some i ∧ s.ws.pcb = some i ∧ (s.conns i).pcb = true := by
  intro s
  obtain ⟨o, inv⟩ := good_run @exec fuel world events
  have owned : Owned s o := inv.toOwned
  refine ⟨?_, ?_, ?_⟩
  · rw [owned.active, owned.conn]
    exact Option.isSome_iff_ne_none
  · rw [owned.active, Option.isSome_iff_exists]
    simp only [owned.is_ws]
    constructor
    · rintro ⟨i, rfl⟩
      exact ⟨i, rfl, fun j same => (Option.some.inj same).symm⟩
    · rintro ⟨i, own, -⟩
      exact ⟨i, own⟩
  · intro i is_ws
    have own : o = some i := (owned.is_ws i).mp is_ws
    exact ⟨owned.conn.trans own, owned.pcb.trans own, (owned.live i own).1⟩

theorem good_wellFormed {w : Web} {g : Record} (good : Good g w) {i : Slot} {s : Stream} (found : g i = some s)
    (met : s.met = true) : WellFormed s.out := by
  obtain ⟨o, inv⟩ := good
  by_cases own : o = some i
  · obtain ⟨s', found', complete⟩ := inv.owner i own
    obtain rfl : s' = s := by simpa [found'] using found
    exact wellFormed_of_complete (complete met)
  · exact (inv.gone i s own found).2 met

/-- On every upgraded connection, as long as the record vouches for it, what was accepted is the
    beginning of the response and of whole frames. -/
theorem stream_wellFormed (world : ω) (events : List Event) (i : Slot) (s : Stream)
    (found : (events.foldl (step @exec fuel) { world }).streams i = some s) (met : s.met = true) : WellFormed s.out :=
  good_wellFormed (good_run @exec fuel world events) found met

end

/-- A stack that has room for everything. -/
def roomy : ∀ {β : Type}, Call β → Unit → β × Unit
  | _, .accepted _, s => ((), s)
  | _, .attached _ _, s => ((), s)
  | _, .tcp_sndbuf _ _, s => (5840, s)
  | _, .tcp_write _ _ _, s => (.ERR_OK, s)
  | _, .tcp_output _, s => ((), s)
  | _, .tcp_mss _, s => (1460, s)
  | _, .tcp_close _, s => ((), s)
  | _, .tcp_abort, s => ((), s)
  | _, .now_ms, s => (0, s)
  | _, .behind_rx _ _, s => ([], s)
  | _, .dispatch _ _ _ _, s => (.mem [] [] [] [], s)
  | _, .history_web_read _, s => (none, s)
  | _, .history_web_close, s => ((), s)
  | _, .ws_handle_cmd _ _, s => (none, s)
  | _, .fw_upg_write _, s => ((), s)
  | _, .web_build_io_json, s => ([], s)
  | _, .web_build_regs_json, s => ([], s)
  | _, .web_build_info_json, s => ([], s)

def upgrade_request : List UInt8 :=
  CStrings.ascii "GET /ws HTTP/1.1\r\nUpgrade: websocket\r\nSec-WebSocket-Key: dGhlIHNhbXBsZSBub25jZQ==\r\n\r\n"

def ping : List UInt8 := [0x89, 0x81, 0, 0, 0, 0, 42]

/-- A ping after the response is answered after the response. -/
theorem stream_wellFormed_ping :
    ∃ s : Stream, ([.accept, .recv 0 (some upgrade_request), .recv 0 (some ping)].foldl (step @roomy 3)
      { world := () }).streams 0 = some s ∧ s.met = true ∧ s.out.drop 129 = [0x8A, 1, 42] ∧ WellFormed s.out := by
  have sent : (([.accept, .recv 0 (some upgrade_request), .recv 0 (some ping)].foldl (step @roomy 3)
      { world := () }).streams 0).map (fun s => (s.met, s.out.drop 129)) = some (true, [0x8A, 1, 42]) := by decide +kernel
  obtain ⟨s, found, looks⟩ := Option.map_eq_some_iff.mp sent
  obtain ⟨met, pong⟩ := Prod.mk.inj looks
  exact ⟨s, found, met, pong, stream_wellFormed @roomy 3 () _ 0 s found met⟩

theorem wellFormed_head {out : List UInt8} (wellFormed : WellFormed out) {b : UInt8} (first : out.head? = some b) : b = 72 := by
  obtain ⟨whole, ⟨hdr, frames, header, -, rfl⟩, rest, whole⟩ := wellFormed
  have same : (out ++ rest).head? = (hdr ++ frames.flatten).head? := by rw [whole]
  simpa [first, header_head header] using same

/-- A ping behind the request is answered before the response. -/
theorem pong_before_response :
    ∃ s : Stream, ([.accept, .recv 0 (some (upgrade_request ++ ping))].foldl (step @roomy 3)
      { world := () }).streams 0 = some s ∧ ¬ WellFormed s.out := by
  have sent : (([.accept, .recv 0 (some (upgrade_request ++ ping))].foldl (step @roomy 3)
      { world := () }).streams 0).map (fun s => s.out.head?) = some (some 0x8A) := by decide +kernel
  obtain ⟨s, found, first⟩ := Option.map_eq_some_iff.mp sent
  refine ⟨s, found, fun wellFormed => ?_⟩
  exact absurd (wellFormed_head wellFormed first) (by decide)

end IoEdgeHub.WsOutput
