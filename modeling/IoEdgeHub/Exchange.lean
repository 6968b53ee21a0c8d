import IoEdgeHub.Responses
import IoEdgeHub.WsOutput

/-!
Requests and responses on one connection, callback after callback. What may be in the receive
buffer is a `Reading`; whatever it is, a request is dispatched only when the responses before it
were accepted and acknowledged, what was accepted is the responses in order, and a connection that
is open either sends a response or waits for the rest of a request.
-/
namespace IoEdgeHub.Exchange
open IoEdgeHub.Calls IoEdgeHub.CStrings IoEdgeHub.Ws IoEdgeHub.Httpd IoEdgeHub.HttpTurns IoEdgeHub.Responses
open IoEdgeHub.WsStream (closed set_conns_self leave_ws_other)

/-- The connection after a request was taken off its buffer. -/
def taken (c : Conn) (h : Option Head) : Conn := (maybe_headed c h).consume (used h (maybe_headed c h))

/-- What may be in the buffer of a connection that has received and asked this much, given by
    what its turns do to it. `refused` and `closing` say when a request may be refused and when
    the last request asks to close the connection. -/
structure Reading where
  ok : List UInt8 → List Asked → Conn → Prop
  refused : List Asked → String → Prop
  closing : List Asked → Prop
  /-- Every request takes up a part of the buffer. -/
  live : Prop
  congr : ∀ {received asked c c'}, ok received asked c → SameRx c c' → ok received asked c'
  upgrade : ∀ {received asked c h}, ok received asked c → turn c ≠ .upgrade h
  refuse : ∀ {received asked c h err keep}, ok received asked c → turn c = .refuse h err keep → refused asked err
  body : ∀ {received asked c h}, ok received asked c → turn c = .body h → ok received asked (headed c h)
  dispatch : ∀ {received asked c h method path query body} route out acked, ok received asked c →
    turn c = .dispatch h method path query body →
      ok received (asked ++ [.mk method path query body route out acked]) (taken c h)
  close : ∀ {received asked c h method path query body} route out acked, ok received asked c →
    turn c = .dispatch h method path query body → (maybe_headed c h).cli_close = true →
      closing (asked ++ [.mk method path query body route out acked])
  progress : ∀ {received asked c h method path query body}, live → ok received asked c →
    turn c = .dispatch h method path query body → (taken c h).rx.length < c.rx.length

theorem turn_empty {c : Conn} (rx : c.rx = []) (hdr_done : c.hdr_done = false) : turn c = .wait := by
  simp [turn, rx, hdr_done, find_hdr_end, HTTP_RX_BUF]

/-- None of the requests that are complete in the buffer is an upgrade. -/
inductive UpgradeFree : Conn → Prop
  | wait {c : Conn} (t : turn c = .wait) : UpgradeFree c
  | refuse {c : Conn} {h : Option Head} {err : String} {keep : Bool} (t : turn c = .refuse h err keep) : UpgradeFree c
  | body {c : Conn} {h : Head} (t : turn c = .body h) (rest : UpgradeFree (headed c h)) : UpgradeFree c
  | dispatch {c : Conn} {h : Option Head} {method path body : List UInt8} {query : Option (List UInt8)}
      (t : turn c = .dispatch h method path query body) (rest : UpgradeFree (taken c h)) : UpgradeFree c

/-- One of the requests that are complete in the buffer is refused, when its turn comes. -/
inductive Refuses : Conn → String → Prop
  | now {c : Conn} {h : Option Head} {err : String} {keep : Bool} (t : turn c = .refuse h err keep) : Refuses c err
  | body {c : Conn} {h : Head} {err : String} (t : turn c = .body h) (rest : Refuses (headed c h) err) : Refuses c err
  | dispatch {c : Conn} {h : Option Head} {method path body : List UInt8} {query : Option (List UInt8)} {err : String}
      (t : turn c = .dispatch h method path query body) (rest : Refuses (taken c h) err) : Refuses c err

section
variable {c c' : Conn}

theorem sameRx_headed (same : SameRx c c') (h : Option Head) : SameRx (maybe_headed c h) (maybe_headed c' h) := by
  cases h with
  | none => exact same
  | some h => exact ⟨same.rx, same.tail, rfl, rfl, rfl, rfl⟩

theorem sameRx_consume (same : SameRx c c') (h : Option Head) : SameRx (c.consume (used h c)) (c'.consume (used h c')) := by
  have consumed : used h c' = used h c := by
    cases h <;> simp [used, same.body_off, same.content_len]
  refine ⟨?_, ?_, rfl, same.body_off, same.content_len, same.cli_close⟩ <;> simp [Conn.consume, consumed, same.rx, same.tail]

theorem sameRx_taken (same : SameRx c c') (h : Option Head) : SameRx (taken c h) (taken c' h) :=
  sameRx_consume (sameRx_headed same h) h

theorem upgradeFree_congr (free : UpgradeFree c) (same : SameRx c c') : UpgradeFree c' := by
  induction free generalizing c' with
  | wait t => exact .wait ((turn_congr same).trans t)
  | refuse t => exact .refuse ((turn_congr same).trans t)
  | @body c h t _ ih => exact .body ((turn_congr same).trans t) (ih (sameRx_headed same (some h)))
  | @dispatch c h _ _ _ _ t _ ih => exact .dispatch ((turn_congr same).trans t) (ih (sameRx_taken same h))

theorem refuses_congr {err : String} (refuses : Refuses c err) (same : SameRx c c') : Refuses c' err := by
  induction refuses generalizing c' with
  | now t => exact .now ((turn_congr same).trans t)
  | @body c h _ t _ ih => exact .body ((turn_congr same).trans t) (ih (sameRx_headed same (some h)))
  | @dispatch c h _ _ _ _ _ t _ ih => exact .dispatch ((turn_congr same).trans t) (ih (sameRx_taken same h))

theorem sameRx_symm (same : SameRx c c') : SameRx c' c :=
  ⟨same.rx.symm, same.tail.symm, same.hdr_done.symm, same.body_off.symm, same.content_len.symm, same.cli_close.symm⟩

/-- Any requests but upgrades. Those that are refused are `doomed`. -/
def upgrade_free (doomed : String → Prop) : Reading where
  ok := fun _ _ c => UpgradeFree c ∧ ∀ err, Refuses c err → doomed err
  refused := fun _ err => doomed err
  closing := fun _ => True
  live := False
  congr := fun ⟨free, known⟩ same =>
    ⟨upgradeFree_congr free same, fun err refuses => known err (refuses_congr refuses (sameRx_symm same))⟩
  upgrade := fun ⟨free, _⟩ t => by cases free <;> simp_all
  refuse := fun ⟨_, known⟩ t => known _ (.now t)
  body := fun ⟨free, known⟩ t => by
    refine ⟨?_, fun err refuses => known err (.body t refuses)⟩
    cases free with
    | body t' rest => exact Turn.body.inj (t'.symm.trans t) ▸ rest
    | wait t' => simp [t'] at t
    | refuse t' => simp [t'] at t
    | dispatch t' => simp [t'] at t
  dispatch := fun _ _ _ ⟨free, known⟩ t => by
    refine ⟨?_, fun err refuses => known err (.dispatch t refuses)⟩
    cases free with
    | dispatch t' rest => exact (Turn.dispatch.inj (t'.symm.trans t)).1 ▸ rest
    | wait t' => simp [t'] at t
    | refuse t' => simp [t'] at t
    | body t' => simp [t'] at t
  close := fun _ _ _ _ _ _ => trivial
  progress := fun live => live.elim

end

/-! ### Where a connection stands -/

/-- At every dispatch the responses to the requests before were all accepted and acknowledged. -/
def Timely (asked : List Asked) : Prop :=
  ∀ earlier e later, asked = earlier ++ e :: later →
    (∀ x ∈ earlier, Settled x.route) ∧ e.out = texts [] earlier ∧ e.acked = (texts [] earlier).length

/-- Nothing of a file is in the log, and everything is out and acknowledged. -/
structure AllSent (g : Log) : Prop where
  reads : g.reads = []
  settled : ∀ e ∈ g.asked, Settled e.route
  out : g.out = texts [] g.asked
  acked : g.acked = g.out.length

/-- The connection sends the response of a route. -/
inductive Answers (c : Conn) (route : Route) : Prop
  | mem (kind : c.kind = .RESP_MEM) (settled : Settled route) (text : response [] route = c.hdr ++ c.body)
  | file (kind : c.kind = .RESP_FILE) (size : Nat) (extra : List UInt8) (route_eq : route = .file size extra)
      (fits : (file_header size extra).length < HTTP_HDR_MAX) (text : c.hdr = file_header size extra) (bound : c.dl_size ≤ size)

/-- The connection sends the response to `e`. -/
structure Busy (g : Log) (c : Conn) (earlier : List Asked) (e : Asked) : Prop where
  asked : g.asked = earlier ++ [e]
  settled : ∀ x ∈ earlier, Settled x.route
  sending : Sending (texts [] earlier) g c
  acked : g.acked = (texts [] earlier).length + c.acked
  answers : Answers c e.route
  fresh : c.hdr_done = false

/-- The connection is closed after the last response: its request says so, or it is a download. -/
def Last (R : Reading) (asked : List Asked) : Prop :=
  R.closing asked ∨ ∃ earlier e size extra, asked = earlier ++ [e] ∧ e.route = .file size extra

/-- A connection that is over: everything was sent, or the last request was refused, or there was
    an error. -/
inductive Over (R : Reading) (g : Log) : Prop
  | done (out : g.out = texts g.reads g.asked) (acked : g.acked = g.out.length) (last : Last R g.asked)
  | refused (err : String) (reason : R.refused g.asked err) (acked : g.acked = (texts g.reads g.asked).length)
      (all : texts g.reads g.asked <+: g.out)
      (rest : g.out <+: texts g.reads g.asked ++ error_text "400 Bad Request" err)
      (whole : g.pressed = false → g.out = texts g.reads g.asked ++ error_text "400 Bad Request" err)
  | broken (failed : g.failed = true)

/-- Where an open or closed connection stands. -/
inductive Stands (R : Reading) (g : Log) (c : Conn) : Prop
  | idle (opened : c.pcb = true) (kind : c.kind = .RESP_NONE) (sent : AllSent g) (reading : R.ok g.received g.asked c)
      (waits : R.live → turn c = .wait)
  | busy (opened : c.pcb = true) (earlier : List Asked) (e : Asked) (busy : Busy g c earlier e)
      (reading : R.ok g.received g.asked c) (last : c.keep_alive = false → Last R g.asked)
  | gone (closed : c.pcb = false) (reading : ∃ c', R.ok g.received g.asked c') (ended : Over R g)

/-- What holds of the connection between callbacks. -/
structure Inv (R : Reading) (g : Log) (c : Conn) : Prop where
  plain : c.is_ws = false
  timely : Timely g.asked
  bound : g.acked ≤ g.out.length
  size : c.rx.length ≤ HTTP_RX_BUF - 1
  stands : Stands R g c

section
variable {R : Reading} {i : Slot} {g g' : Log} {c c' : Conn} {before : List UInt8} {fuel : Nat} {w : Web}

theorem timely_append {asked : List Asked} {e : Asked} (timely : Timely asked) (settled : ∀ x ∈ asked, Settled x.route)
    (out : e.out = texts [] asked) (acked : e.acked = (texts [] asked).length) : Timely (asked ++ [e]) := by
  intro earlier x later split
  rcases List.eq_nil_or_concat later with rfl | ⟨rest, y, rfl⟩
  · obtain ⟨rfl, same⟩ := List.append_inj' split rfl
    obtain rfl : e = x := by simpa using same
    exact ⟨settled, out, acked⟩
  · refine timely earlier x rest ?_
    have same : asked ++ [e] = (earlier ++ x :: rest) ++ [y] := by simpa using split
    exact (List.append_inj' same rfl).1

theorem answers_whole (sending : Sending before g c) {route : Route} (answers : Answers c route) :
    whole g c = response g.reads route := by
  cases answers with
  | mem kind settled text =>
    rw [settled g.reads, text]
    simp [whole, kind]
  | file kind size extra route_eq fits text bound =>
    cases sending with
    | mem kind' => simp [kind] at kind'
    | file _ sent file =>
      have size_eq := file.size
      have within := file.bound
      subst route_eq
      rw [response, if_neg (Nat.not_le.mpr fits), List.take_of_length_le (by omega)]
      simp [whole, kind, text]

theorem answers_pumped {route : Route} (answers : Answers c route) (pumped : Pumped g c g' c') : Answers c' route := by
  cases answers with
  | mem kind settled text => exact .mem (pumped.kind.trans kind) settled (by rw [text, pumped.hdr, pumped.body])
  | file kind size extra route_eq fits text bound =>
    exact .file (pumped.kind.trans kind) size extra route_eq fits (pumped.hdr.trans text) (Nat.le_trans pumped.dl_size bound)

theorem busy_pumped {earlier : List Asked} {e : Asked} (busy : Busy g c earlier e) (sending : Sending (texts [] earlier) g' c')
    (pumped : Pumped g c g' c') : Busy g' c' earlier e where
  asked := pumped.asked.trans busy.asked
  settled := busy.settled
  sending := sending
  acked := by rw [pumped.acks, busy.acked, pumped.acked]
  answers := answers_pumped busy.answers pumped
  fresh := pumped.hdr_done.trans busy.fresh

/-- Both connections are equally far with the same response. -/
structure SameResponse (c c' : Conn) : Prop where
  kind : c'.kind = c.kind
  keep_alive : c'.keep_alive = c.keep_alive
  rsp_total : c'.rsp_total = c.rsp_total
  written : c'.written = c.written
  hdr : c'.hdr = c.hdr
  hdr_sent : c'.hdr_sent = c.hdr_sent
  body : c'.body = c.body
  body_sent : c'.body_sent = c.body_sent
  dl_size : c'.dl_size = c.dl_size
  dl_sent : c'.dl_sent = c.dl_sent
  dl_chunk : c'.dl_chunk = c.dl_chunk
  dl_chunk_off : c'.dl_chunk_off = c.dl_chunk_off

theorem sending_congr (sending : Sending before g c) (same : SameResponse c c') (reads : g'.reads = g.reads)
    (out : g'.out = g.out) : Sending before g' c' := by
  cases c
  cases c'
  obtain ⟨rfl, rfl, rfl, rfl, rfl, rfl, rfl, rfl, rfl, rfl, rfl, rfl⟩ := same
  cases sending with
  | mem kind sent none_read =>
    refine .mem kind ?_ (reads.trans none_read)
    rw [out]
    exact ⟨sent.out, sent.hdr, sent.body, sent.order, sent.written, sent.total⟩
  | file kind sent file last =>
    refine .file kind sent ?_ last
    rw [reads, out]
    exact ⟨file.reads, file.out, file.hdr, file.order, file.chunk, file.written, file.size, file.bound, file.total⟩

theorem answers_congr {route : Route} (answers : Answers c route) (same : SameResponse c c') : Answers c' route := by
  cases answers with
  | mem kind settled text => exact .mem (same.kind.trans kind) settled (by rw [text, same.hdr, same.body])
  | file kind size extra route_eq fits text bound =>
    exact .file (same.kind.trans kind) size extra route_eq fits (same.hdr.trans text) (by rwa [same.dl_size])

theorem sameResponse_consume (c : Conn) (n : Nat) : SameResponse c (c.consume n) :=
  ⟨rfl, rfl, rfl, rfl, rfl, rfl, rfl, rfl, rfl, rfl, rfl, rfl⟩

/-- What was accepted of the responses while the last is on its way. -/
theorem busy_texts {earlier : List Asked} {e : Asked} (busy : Busy g c earlier e) :
    texts g.reads g.asked = texts [] earlier ++ whole g c := by
  rw [busy.asked, texts_append, texts_one, texts_settled busy.settled, answers_whole busy.sending busy.answers]

/-- What the callbacks keep. -/
def Good (R : Reading) (i : Slot) (g : Log) (w : Web) : Prop := g.fair = true → Inv R g (w.conns i)

theorem ends_conn_close {post : Log → Web → Prop} :
    (conn_close i w).Ends (@logged i) post g ↔ post g (closed i w) := by
  unfold conn_close
  by_cases opened : ((leave_ws i w).conns i).pcb <;> by_cases file : ((leave_ws i w).conns i).kind = .RESP_FILE <;>
    simp [opened, file, call, closed, logged]

/-- A connection that was closed. -/
theorem inv_closed (plain : (w.conns i).is_ws = false) (timely : Timely g.asked) (bound : g.acked ≤ g.out.length)
    (reading : ∃ c, R.ok g.received g.asked c) (ended : Over R g) : Inv R g ((closed i w).conns i) := by
  unfold closed
  rw [leave_ws_other plain, set_conns_self]
  exact ⟨plain, timely, bound, Nat.zero_le _, .gone rfl reading ended⟩

/-- A connection that begins a response. -/
structure Began (c c' : Conn) : Prop extends SameRx c c' where
  pcb : c'.pcb = c.pcb
  is_ws : c'.is_ws = c.is_ws
  acked : c'.acked = 0
  header : 0 < c'.hdr.length

/-- A connection that has no response to send. -/
structure Skipped (c c' : Conn) : Prop extends SameRx c c' where
  pcb : c'.pcb = c.pcb
  is_ws : c'.is_ws = c.is_ws
  kind : c'.kind = .RESP_NONE

/-- A response from memory is begun, unless its header does not fit. -/
inductive Opens (g : Log) (text : List UInt8) (keep : Bool) (c c' : Conn) : Prop
  | none (empty : text = []) (skipped : Skipped c c')
  | mem (began : Began c c') (kind : c'.kind = .RESP_MEM) (sending : Sending g.out g c') (written : c'.hdr ++ c'.body = text)
      (keep_alive : c'.keep_alive = (keep && !c.cli_close))

theorem mem_response_opens (reads : g.reads = []) (now : UInt32) (status ctype body : List UInt8) (keep : Bool)
    (extra : List UInt8) :
    Opens g (mem_text status ctype body keep extra) keep c (mem_response c now status ctype body keep extra) := by
  unfold mem_text mem_response
  by_cases long : (header status ctype body.length keep extra).length ≥ HTTP_HDR_MAX
  · rw [if_pos long, if_pos long]
    exact .none rfl ⟨⟨rfl, rfl, rfl, rfl, rfl, rfl⟩, rfl, rfl, rfl⟩
  · rw [if_neg long, if_neg long]
    refine .mem ⟨⟨rfl, rfl, rfl, rfl, rfl, rfl⟩, rfl, rfl, rfl, header_length_pos _ _ _ _ _⟩ rfl ?_ rfl rfl
    refine .mem rfl ⟨?_, Nat.zero_le _, Nat.zero_le _, fun _ => rfl, rfl, rfl⟩ reads
    simp [begun]

theorem ends_respond_mem (reads : g.reads = []) (c : Conn) (status ctype body extra : List UInt8) (keep : Bool) :
    (respond_mem c status ctype body keep extra).Ends (@logged i)
      (fun g' c' => g' = g ∧ Opens g (mem_text status ctype body keep extra) keep c c') g := by
  rw [respond_mem_eq]
  exact fun now => ⟨rfl, mem_response_opens reads now status ctype body keep extra⟩

/-- The first turn of the pump for a response cannot be its last: nothing of it is acknowledged.
    It goes on, or the connection is closed. -/
theorem ends_pump_begun {process : Web → Prog Call Web} (opened : (w.conns i).pcb = true)
    (sending : Sending before g (w.conns i)) (unacked : (w.conns i).acked = 0) (some_header : 0 < (w.conns i).hdr.length) :
    (conn_pump fuel process i w).Ends (@logged i)
      (fun g' w' => g'.fair = true → ∃ c', Pumped g (w.conns i) g' c' ∧
        (w' = w.set i c' ∧ Goes before g' c' ∨ g'.failed = true ∧ w' = closed i (w.set i c'))) g := by
  unfold conn_pump
  simp only [opened, sending_busy sending, not_true_eq_false, or_self, if_false, ends_bind]
  refine ends_mono (ends_pump_response sending) ?_
  rintro g' ⟨good, c'⟩ later
  refine ends_if_fair fun fair => ?_
  obtain ⟨pumped, goes, failed⟩ := later fair
  simp only [call, ends_ite, ends_bind, ends_once, ends_pure, ends_conn_close]
  refine ⟨fun bad _ => ⟨c', pumped, .inr ⟨failed (by simpa using bad), rfl⟩⟩, fun fine _ => ⟨fun complete => ?_, fun _ _ => ?_⟩⟩
  · have goes := goes (by simpa using fine)
    have total : 0 < c'.rsp_total := sending_total_pos goes.sending (by rw [pumped.hdr]; exact some_header)
    have none_acked : c'.acked = 0 := pumped.acked.trans unacked
    omega
  · exact ⟨c', pumped, .inl ⟨rfl, goes (by simpa using fine)⟩⟩

/-- A connection that is open and takes the next request, with everything sent. -/
structure Ready (R : Reading) (g : Log) (c : Conn) : Prop where
  opened : c.pcb = true
  plain : c.is_ws = false
  kind : c.kind = .RESP_NONE
  timely : Timely g.asked
  sent : AllSent g
  size : c.rx.length ≤ HTTP_RX_BUF - 1
  reading : R.ok g.received g.asked c

theorem ready_inv (ready : Ready R g c) (waits : R.live → turn c = .wait) : Inv R g c where
  plain := ready.plain
  timely := ready.timely
  bound := Nat.le_of_eq ready.sent.acked
  size := ready.size
  stands := .idle ready.opened ready.kind ready.sent ready.reading waits

theorem pumped_bound (bound : g.acked ≤ g.out.length) (pumped : Pumped g c g' c') : g'.acked ≤ g'.out.length := by
  rw [pumped.acks]
  exact Nat.le_trans bound pumped.grown

theorem pumped_reading (reading : R.ok g.received g.asked c) (pumped : Pumped g c g' c') : R.ok g'.received g'.asked c' := by
  rw [pumped.received, pumped.asked]
  exact R.congr reading pumped.toSameRx

theorem over_refused {err : String} (ready : Ready R g c) (reason : R.refused g.asked err)
    (asked : g'.asked = g.asked) (acks : g'.acked = g.acked) (reads : g'.reads = []) (all : g.out <+: g'.out)
    (rest : g'.out <+: g.out ++ error_text "400 Bad Request" err)
    (whole : g'.pressed = false → g'.out = g.out ++ error_text "400 Bad Request" err) : Over R g' := by
  have everything : texts g'.reads g'.asked = g.out := by rw [reads, asked, ready.sent.out]
  refine .refused err ?_ ?_ ?_ ?_ ?_
  · rwa [asked]
  · rw [everything, acks, ready.sent.acked]
  · rwa [everything]
  · rwa [everything]
  · rwa [everything]

theorem sending_keep (sending : Sending before g c) (kind : c.kind = .RESP_MEM) (keep : Bool) :
    Sending before g { c with keep_alive := keep } := by
  cases sending with
  | mem _ sent reads => exact .mem kind ⟨sent.out, sent.hdr, sent.body, sent.order, sent.written, sent.total⟩ reads
  | file kind' => simp [kind] at kind'

/-- A request that is refused is answered as far as there is room, and the connection is closed. -/
theorem ends_refuse {process : Web → Prog Call Web} (ready : Ready R g (w.conns i)) {c : Conn} (pcb : c.pcb = true)
    (plain : c.is_ws = false) {err : String} (reason : R.refused g.asked err) (keep : Bool) :
    (refuse (conn_pump fuel process i) i w c err keep).Ends (@logged i) (Good R i) g := by
  have sent := ready.sent
  unfold refuse respond_json_err
  simp only [ends_bind]
  refine ends_mono (ends_respond_mem sent.reads c _ _ _ _ _) ?_
  rintro g c' ⟨rfl, ⟨empty, skipped⟩ | ⟨began, kind, sending, text⟩⟩
  · unfold conn_pump
    simp only [set_conns_self, skipped.kind, or_true, if_true, ends_pure, ends_ite, ends_conn_close]
    refine ⟨fun _ _ => inv_closed ?_ ready.timely (Nat.le_of_eq sent.acked) ⟨_, ready.reading⟩ ?_, fun closed => ?_⟩
    · simpa using skipped.is_ws.trans plain
    · refine over_refused ready reason rfl rfl sent.reads List.prefix_rfl (List.prefix_append _ _) fun _ => ?_
      rw [error_text, empty, List.append_nil]
    · simp [skipped.pcb, pcb] at closed
  · have started : Sending g.out g ((w.set i { c' with keep_alive := keep && c'.keep_alive }).conns i) := by
      rw [set_conns_self]
      exact sending_keep sending kind _
    refine ends_mono (ends_pump_begun (by simpa [began.pcb] using pcb) started (by simpa using began.acked)
      (by simpa using began.header)) ?_
    intro g' w' later
    refine ends_if_fair fun fair => ?_
    obtain ⟨c'', pumped, went⟩ := later fair
    rw [set_conns_self] at pumped
    have plain' : ((w.set i { c' with keep_alive := keep && c'.keep_alive }).set i c'').conns i = c'' := set_conns_self c''
    have is_ws : c''.is_ws = false := pumped.is_ws.trans (began.is_ws.trans plain)
    have timely : Timely g'.asked := pumped.asked ▸ ready.timely
    have bound : g'.acked ≤ g'.out.length := pumped_bound (Nat.le_of_eq sent.acked) pumped
    have reading : ∃ c, R.ok g'.received g'.asked c := ⟨w.conns i, by
      rw [pumped.received, pumped.asked]
      exact ready.reading⟩
    rcases went with ⟨rfl, goes⟩ | ⟨failed, rfl⟩
    · have opened : c''.pcb = true := pumped.pcb.trans (began.pcb.trans pcb)
      have mem : c''.kind = .RESP_MEM := pumped.kind.trans kind
      have whole_eq : whole g' c'' = error_text "400 Bad Request" err := by
        simp only [whole, mem, reduceCtorEq, if_false, pumped.hdr, pumped.body]
        exact text
      have reads : g'.reads = [] := by
        cases goes.sending with
        | mem _ _ reads => exact reads
        | file kind' => simp [mem] at kind'
      obtain ⟨all, rest⟩ := sending_out goes.sending
      have ended : Over R g' := by
        rw [whole_eq] at rest
        refine over_refused ready reason pumped.asked pumped.acks reads all rest fun unpressed => ?_
        rw [sending_whole goes.sending mem (goes.whole mem unpressed), whole_eq]
      simp only [ends_ite, ends_pure, ends_conn_close, set_conns_self, opened, not_true_eq_false, false_implies, and_true,
        true_implies]
      exact fun _ => inv_closed (by rwa [set_conns_self]) timely bound reading ended
    · have shut : Good R i g' (closed i ((w.set i { c' with keep_alive := keep && c'.keep_alive }).set i c'')) :=
        fun _ => inv_closed (by rwa [plain']) timely bound reading (.broken failed)
      rw [ends_ite]
      refine ⟨fun opened => ?_, fun _ => shut⟩
      simp [closed] at opened

/-- A route has no response, or its response is begun. -/
inductive Routed (g : Log) (route : Route) (c c' : Conn) : Prop
  | none (settled : Settled route) (silent : response [] route = []) (skipped : Skipped c c')
  | some (began : Began c c') (sending : Sending g.out g c') (answers : Answers c' route)
      (last : c'.keep_alive = false → c.cli_close = true ∨ ∃ size extra, route = .file size extra)

theorem routed_opens {route : Route} {text : List UInt8} (settled : Settled route) (text_eq : response [] route = text)
    (opens : Opens g text true c c') : Routed g route c c' := by
  cases opens with
  | none empty skipped => exact .none settled (text_eq.trans empty) skipped
  | mem began kind sending written keep_alive =>
    refine .some began sending (.mem kind settled (text_eq.trans written.symm)) fun closes => .inl ?_
    simpa [keep_alive] using closes

theorem ends_respond (reads : g.reads = []) (c : Conn) (route : Route) :
    (respond c route).Ends (@logged i) (fun g' c' => g' = g ∧ Routed g route c c') g := by
  cases route with
  | mem status ctype extra body =>
    refine ends_mono (ends_respond_mem reads c status ctype body extra true) ?_
    rintro g c' ⟨rfl, opens⟩
    exact ⟨rfl, routed_opens (fun _ => rfl) rfl opens⟩
  | file size extra =>
    rw [respond_file_eq]
    simp only [call, ends_bind, ends_once, ends_ite, ends_pure, logged_now, logged_close]
    refine fun now => ⟨fun long _ => ?_, fun fits => ⟨trivial, .some ?_ ?_ ?_ fun _ => .inr ⟨size, extra, rfl⟩⟩⟩
    · have text (reads : List UInt8) : response reads (.file size extra) = error_text "500 Internal Server Error" "server error" :=
        if_pos long
      refine ends_mono (ends_respond_mem reads c _ _ _ _ _) ?_
      rintro g c' ⟨rfl, opens⟩
      exact ⟨rfl, routed_opens (fun reads => (text reads).trans (text []).symm) (text []) opens⟩
    · exact ⟨⟨rfl, rfl, rfl, rfl, rfl, rfl⟩, rfl, rfl, rfl, header_length_pos _ _ _ _ _⟩
    · refine .file rfl [] ⟨by simp [file_response, reads], ?_, Nat.zero_le _, fun _ => reads, Nat.zero_le _, rfl,
        by simp [file_response, reads], Nat.zero_le _, rfl⟩ rfl
      simp [file_response, begun]
    · exact .file rfl size extra rfl (Nat.not_le.mp fits) rfl (Nat.le_refl _)

/-- A request whose route has no response. -/
theorem allSent_ask (sent : AllSent g) {route : Route} (settled : Settled route) (silent : response [] route = [])
    (method path : List UInt8) (query : Option (List UInt8)) (body : List UInt8) :
    AllSent (g.ask method path query body route) where
  reads := sent.reads
  settled := fun e member => by
    rcases List.mem_append.mp member with old | new
    · exact sent.settled e old
    · rw [List.mem_singleton.mp new]
      exact settled
  out := by
    show g.out = texts [] (g.asked ++ _)
    rw [texts_append, texts_one]
    simp only [silent, List.append_nil]
    exact sent.out
  acked := sent.acked

theorem timely_ask (ready : Ready R g c) (method path : List UInt8) (query : Option (List UInt8)) (body : List UInt8)
    (route : Route) : Timely (g.ask method path query body route).asked := by
  refine timely_append ready.timely ready.sent.settled ready.sent.out ?_
  show g.acked = _
  rw [ready.sent.acked, ready.sent.out]

theorem taken_size (c : Conn) (h : Option Head) : (taken c h).rx.length ≤ c.rx.length := by
  unfold taken Conn.consume
  rw [List.length_drop]
  cases h <;> exact Nat.sub_le _ _

theorem turn_body {h : Head} (t : turn c = .body h) : c.hdr_done = false := by
  cases done : c.hdr_done with
  | false => rfl
  | true =>
    unfold turn at t
    rw [if_neg (not_not.mpr done)] at t
    split at t <;> simp at t

/-- There are enough rounds for everything that is in the buffer. -/
def Enough (R : Reading) (fuel : Nat) (c : Conn) : Prop :=
  R.live → 2 * c.rx.length + (if c.hdr_done then 0 else 1) < fuel

theorem process_empty (kind : (w.conns i).kind = .RESP_NONE) (rx : (w.conns i).rx = []) (hdr_done : (w.conns i).hdr_done = false) :
    http_process_rx fuel i w = pure w := by
  cases fuel with
  | zero => rfl
  | succ fuel =>
    rw [http_process_rx_turn, turn_empty rx hdr_done, if_neg (not_not.mpr kind)]
    rfl

theorem closed_conn (plain : (w.conns i).is_ws = false) :
    (closed i w).conns i = { w.conns i with pcb := false, kind := .RESP_NONE, rx := [], hdr_done := false } := by
  unfold closed
  rw [leave_ws_other plain, set_conns_self]

section
variable {h : Option Head} {method path : List UInt8} {query : Option (List UInt8)} {body : List UInt8} {route : Route}

theorem headed_opened (ready : Ready R g c) (h : Option Head) :
    (maybe_headed c h).pcb = true ∧ (maybe_headed c h).is_ws = false := by
  cases h <;> exact ⟨ready.opened, ready.plain⟩

theorem size_ask (ready : Ready R g c) (same : SameRx (maybe_headed c h) c') :
    (c'.consume (used h c')).rx.length ≤ HTTP_RX_BUF - 1 := by
  rw [(sameRx_consume same h).rx]
  exact Nat.le_trans (taken_size c h) ready.size

variable (t : turn c = .dispatch h method path query body)
include t

theorem reading_ask (ready : Ready R g c) (same : SameRx (maybe_headed c h) c') :
    R.ok (g.ask method path query body route).received (g.ask method path query body route).asked (c'.consume (used h c')) :=
  R.congr (R.dispatch route g.out g.acked ready.reading t) (sameRx_consume same h)

/-- After a request whose route has no response the next one is taken. -/
theorem ready_silent (ready : Ready R g c) (settled : Settled route) (silent : response [] route = [])
    (skipped : Skipped (maybe_headed c h) c') : Ready R (g.ask method path query body route) (c'.consume (used h c')) where
  opened := skipped.pcb.trans (headed_opened ready h).1
  plain := skipped.is_ws.trans (headed_opened ready h).2
  kind := skipped.kind
  timely := timely_ask ready method path query body route
  sent := allSent_ask ready.sent settled silent method path query body
  size := size_ask ready skipped.toSameRx
  reading := reading_ask t ready skipped.toSameRx

theorem enough_silent (ready : Ready R g c) (enough : Enough R (fuel + 1) c) (same : SameRx (maybe_headed c h) c') :
    Enough R fuel (c'.consume (used h c')) := by
  intro live
  have before := enough live
  have less := R.progress live ready.reading t
  have shorter : (c'.consume (used h c')).rx = (taken c h).rx := (sameRx_consume same h).rx
  rw [← shorter] at less
  split <;> split at before <;> omega

/-- A request whose response is under way. -/
theorem inv_begun {c'' : Conn} (ready : Ready R g c) (began : Began (maybe_headed c h) c') (answers : Answers c' route)
    (last : c'.keep_alive = false → (maybe_headed c h).cli_close = true ∨ ∃ size extra, route = .file size extra)
    (goes : Goes g.out g' c'') (pumped : Pumped (g.ask method path query body route) (c'.consume (used h c')) g' c'') :
    Inv R g' c'' := by
  have busy : Busy g' c'' g.asked (.mk method path query body route g.out g.acked) := by
    refine ⟨pumped.asked, ready.sent.settled, ?_, ?_, ?_, pumped.hdr_done⟩
    · rw [← ready.sent.out]
      exact goes.sending
    · have unacked : c''.acked = 0 := pumped.acked.trans began.acked
      rw [pumped.acks, unacked, ← ready.sent.out, Nat.add_zero]
      exact ready.sent.acked
    · exact answers_pumped (answers_congr answers (sameResponse_consume c' _)) pumped
  have closes : c''.keep_alive = false → Last R g'.asked := by
    intro off
    rw [pumped.asked]
    rcases last (pumped.keep_alive.symm.trans off) with asks | ⟨size, extra, file⟩
    · exact .inl (R.close route g.out g.acked ready.reading t asks)
    · exact .inr ⟨g.asked, _, size, extra, rfl, file⟩
  have reading : R.ok g'.received g'.asked c'' := pumped_reading (reading_ask t ready began.toSameRx) pumped
  constructor
  · exact pumped.is_ws.trans (began.is_ws.trans (headed_opened ready h).2)
  · exact pumped.asked ▸ timely_ask ready method path query body route
  · exact @pumped_bound (g.ask method path query body route) _ _ _ (Nat.le_of_eq ready.sent.acked) pumped
  · rw [pumped.rx]
    exact size_ask ready began.toSameRx
  · exact .busy (pumped.pcb.trans (began.pcb.trans (headed_opened ready h).1)) g.asked _ busy reading closes

/-- A connection that was closed for an error while the response began. -/
theorem inv_begun_broken {c'' : Conn} (ready : Ready R g c) (began : Began (maybe_headed c h) c') (failed : g'.failed = true)
    (pumped : Pumped (g.ask method path query body route) (c'.consume (used h c')) g' c'') :
    Inv R g' ((closed i (w.set i c'')).conns i) := by
  have reading : R.ok g'.received g'.asked c'' := pumped_reading (reading_ask t ready began.toSameRx) pumped
  refine inv_closed ?_ ?_ ?_ ⟨c'', reading⟩ (.broken failed)
  · rw [set_conns_self]
    exact pumped.is_ws.trans (began.is_ws.trans (headed_opened ready h).2)
  · exact pumped.asked ▸ timely_ask ready method path query body route
  · exact @pumped_bound (g.ask method path query body route) _ _ _ (Nat.le_of_eq ready.sent.acked) pumped

end

/-- A request that is dispatched: its response goes out as far as there is room, or there is none
    and the next request follows. -/
theorem ends_dispatch {process : Web → Prog Call Web}
    (on : ∀ {w : Web} {g : Log}, Ready R g (w.conns i) → Enough R fuel (w.conns i) →
      (process w).Ends (@logged i) (Good R i) g)
    (off : ∀ {w : Web}, (w.conns i).kind = .RESP_NONE → (w.conns i).rx = [] → (w.conns i).hdr_done = false →
      process w = pure w)
    (ready : Ready R g (w.conns i)) (enough : Enough R (fuel + 1) (w.conns i)) {h : Option Head} {method path : List UInt8}
    {query : Option (List UInt8)} {body : List UInt8} (t : turn (w.conns i) = .dispatch h method path query body) :
    (take_turn (conn_pump fuel process i) process i w (.dispatch h method path query body)).Ends (@logged i)
      (Good R i) g := by
  unfold take_turn answer
  simp only [call, ends_bind, ends_once]
  intro route
  show (respond _ route).Ends (@logged i) _ (g.ask method path query body route)
  refine ends_mono (@ends_respond i (g.ask method path query body route) ready.sent.reads _ route) ?_
  rintro _ c' ⟨rfl, ⟨settled, silent, skipped⟩ | ⟨began, sending, answers, last⟩⟩
  · have next : Ready R (g.ask method path query body route) (c'.consume (used h c')) :=
      ready_silent t ready settled silent skipped
    have shorter := enough_silent t ready enough skipped.toSameRx
    unfold conn_pump
    simp only [set_conns_self, next.kind, or_true, if_true, ends_pure, ends_ite, ne_eq, not_true_eq_false, false_implies,
      true_and, not_false_eq_true, true_implies]
    exact on (by rwa [set_conns_self]) (by rwa [set_conns_self])
  · have opened : (c'.consume (used h c')).pcb = true := began.pcb.trans (headed_opened ready h).1
    have started : Sending g.out (g.ask method path query body route) ((w.set i (c'.consume (used h c'))).conns i) := by
      rw [set_conns_self]
      exact sending_congr sending (sameResponse_consume c' _) rfl rfl
    refine ends_mono (ends_pump_begun (by rwa [set_conns_self]) started (by rw [set_conns_self]; exact began.acked)
      (by rw [set_conns_self]; exact began.header)) ?_
    intro g' w' later
    refine ends_if_fair fun fair => ?_
    obtain ⟨c'', pumped, ⟨rfl, goes⟩ | ⟨failed, rfl⟩⟩ := later fair
    · rw [set_conns_self] at pumped
      have inv := inv_begun t ready began answers last goes pumped
      rw [if_pos (by rw [set_conns_self]; exact sending_busy goes.sending)]
      intro _
      rwa [set_conns_self]
    · rw [set_conns_self] at pumped
      have inv := @inv_begun_broken R i g g' _ c' (w.set i (c'.consume (used h c'))) _ _ _ _ _ route t c'' ready began failed pumped
      have shut := @closed_conn i ((w.set i (c'.consume (used h c'))).set i c'') (by
        rw [set_conns_self]
        exact pumped.is_ws.trans (began.is_ws.trans (headed_opened ready h).2))
      have kind : ((closed i ((w.set i (c'.consume (used h c'))).set i c'')).conns i).kind = .RESP_NONE := by rw [shut]
      rw [if_neg (not_not.mpr kind), off kind (by rw [shut]) (by rw [shut])]
      exact fun _ => inv

/-- Requests, as long as there are any. -/
theorem ends_http_process_rx (fuel : Nat) {w : Web} {g : Log} (ready : Ready R g (w.conns i))
    (enough : Enough R fuel (w.conns i)) : (http_process_rx fuel i w).Ends (@logged i) (Good R i) g := by
  induction fuel generalizing w g with
  | zero => exact fun _ => ready_inv ready fun live => absurd (enough live) (Nat.not_lt_zero _)
  | succ fuel ih =>
    rw [http_process_rx_turn, if_neg (not_not.mpr ready.kind)]
    cases t : turn (w.conns i) with
    | wait => exact fun _ => ready_inv ready fun _ => t
    | refuse h err keep =>
      obtain ⟨opened, plain⟩ := headed_opened ready h
      exact ends_refuse ready opened plain (R.refuse ready.reading t) keep
    | body h =>
      refine ih ?_ ?_
      · rw [set_conns_self]
        exact ⟨ready.opened, ready.plain, ready.kind, ready.timely, ready.sent, ready.size, R.body ready.reading t⟩
      · rw [set_conns_self]
        intro live
        have before := enough live
        have fresh := turn_body t
        simp only [fresh, Bool.false_eq_true, if_false] at before
        simp only [headed, if_true]
        omega
    | upgrade h => exact absurd t (R.upgrade ready.reading)
    | dispatch h method path query body => exact ends_dispatch @ih process_empty ready enough t

theorem enough_size (rounds : R.live → 2 * HTTP_RX_BUF ≤ fuel) (size : c.rx.length ≤ HTTP_RX_BUF - 1) : Enough R fuel c := by
  intro live
  have rounds := rounds live
  unfold HTTP_RX_BUF at *
  split <;> omega

/-- A response that is all out and acknowledged. -/
theorem busy_done {earlier : List Asked} {e : Asked} (busy : Busy g c earlier e) (bound : g.acked ≤ g.out.length)
    (written : c.rsp_total ≤ c.written) (acked : c.rsp_total ≤ c.acked) :
    g.out = texts g.reads g.asked ∧ g.acked = g.out.length := by
  obtain ⟨out, total⟩ := sending_done busy.sending written
  have all := busy_texts busy
  refine ⟨out.trans all.symm, ?_⟩
  have acks := busy.acked
  rw [out, List.length_append] at bound ⊢
  omega

/-- With a response from memory everything is sent. -/
theorem allSent_of_mem {earlier : List Asked} {e : Asked} (busy : Busy g c earlier e) (mem : c.kind ≠ .RESP_FILE)
    (out : g.out = texts g.reads g.asked) (acked : g.acked = g.out.length) : AllSent g := by
  have reads : g.reads = [] := by
    cases busy.sending with
    | mem _ _ reads => exact reads
    | file kind => exact absurd kind mem
  have settled : Settled e.route := by
    cases busy.answers with
    | mem _ settled => exact settled
    | file kind => exact absurd kind mem
  refine ⟨reads, fun x member => ?_, by rwa [reads] at out, acked⟩
  rw [busy.asked] at member
  rcases List.mem_append.mp member with old | new
  · exact busy.settled x old
  · rw [List.mem_singleton.mp new]
    exact settled

/-- A response that is over: the connection is closed, or takes the next request. -/
theorem ends_response_done {earlier : List Asked} {e : Asked} (rounds : R.live → 2 * HTTP_RX_BUF ≤ fuel)
    (opened : c.pcb = true) (plain : c.is_ws = false) (timely : Timely g.asked) (size : c.rx.length ≤ HTTP_RX_BUF - 1)
    (busy : Busy g c earlier e) (reading : R.ok g.received g.asked c) (last : c.keep_alive = false → Last R g.asked)
    (out : g.out = texts g.reads g.asked) (acked : g.acked = g.out.length) :
    (response_done (http_process_rx fuel i) i w c).Ends (@logged i) (Good R i) g := by
  have closes (off : c.keep_alive = false) : Good R i g (closed i (w.set i { c with kind := .RESP_NONE, hdr_done := false })) := by
    intro _
    exact inv_closed (by simpa using plain) timely (Nat.le_of_eq acked) ⟨c, reading⟩ (.done out acked (last off))
  unfold response_done
  simp only [call, ends_ite, ends_bind, ends_once, ends_pure, ends_conn_close, logged_now, logged_close]
  constructor
  · intro file _
    have off : c.keep_alive = false := by
      cases busy.sending with
      | mem kind => simp [file] at kind
      | file _ _ _ off => exact off
    exact ⟨fun _ => closes off, fun keep => absurd off (by simpa using keep)⟩
  · intro mem
    refine ⟨fun off => closes (by simpa using off), fun _ now => ?_⟩
    have ready : Ready R g { c with kind := .RESP_NONE, hdr_done := false, t_idle := now } :=
      ⟨opened, plain, rfl, timely, allSent_of_mem busy mem out acked, size,
        R.congr reading ⟨rfl, rfl, busy.fresh.symm, rfl, rfl, rfl⟩⟩
    refine ⟨fun _ => ends_http_process_rx fuel (by rwa [set_conns_self]) ?_, fun empty _ => ?_⟩
    · rw [set_conns_self]
      exact enough_size rounds size
    · rw [set_conns_self]
      exact ready_inv ready fun _ => turn_empty (not_not.mp empty) rfl

/-- The pump after an acknowledgement: the response goes on, or it is over and the next request
    is taken, or the connection is closed. -/
theorem ends_conn_pump {earlier : List Asked} {e : Asked} (rounds : R.live → 2 * HTTP_RX_BUF ≤ fuel)
    (opened : (w.conns i).pcb = true) (inv : Inv R g (w.conns i)) (busy : Busy g (w.conns i) earlier e)
    (reading : R.ok g.received g.asked (w.conns i)) (last : (w.conns i).keep_alive = false → Last R g.asked) :
    (conn_pump fuel (http_process_rx fuel i) i w).Ends (@logged i) (Good R i) g := by
  unfold conn_pump
  simp only [opened, sending_busy busy.sending, not_true_eq_false, or_self, if_false, ends_bind]
  refine ends_mono (ends_pump_response busy.sending) ?_
  rintro g' ⟨good, c⟩ later
  refine ends_if_fair fun fair => ?_
  obtain ⟨pumped, goes, failed⟩ := later fair
  have pumped : Pumped g (w.conns i) g' c := pumped
  have timely' : Timely g'.asked := pumped.asked ▸ inv.timely
  have bound' : g'.acked ≤ g'.out.length := pumped_bound inv.bound pumped
  have reading' : R.ok g'.received g'.asked c := pumped_reading reading pumped
  have opened' : c.pcb = true := pumped.pcb.trans opened
  have plain' : c.is_ws = false := pumped.is_ws.trans inv.plain
  have size' : c.rx.length ≤ HTTP_RX_BUF - 1 := by
    rw [pumped.rx]
    exact inv.size
  have last' : c.keep_alive = false → Last R g'.asked := by
    rw [pumped.asked, pumped.keep_alive]
    exact last
  simp only [call, ends_ite, ends_bind, ends_once, ends_pure, ends_conn_close]
  refine ⟨fun bad _ => ?_, fun fine _ => ?_⟩
  · exact inv_closed (by rwa [set_conns_self]) timely' bound' ⟨c, reading'⟩ (.broken (failed (by simpa using bad)))
  · have goes : Goes (texts [] earlier) g' c := goes (by simpa using fine)
    have busy' : Busy g' c earlier e := busy_pumped busy goes.sending pumped
    refine ⟨fun complete => ?_, fun _ _ => ?_⟩
    · obtain ⟨out, acked⟩ := busy_done busy' bound' complete.1 complete.2
      exact ends_response_done rounds opened' plain' timely' size' busy' reading' last' out acked
    · rw [set_conns_self]
      exact ⟨plain', timely', bound', size', .busy opened' earlier e busy' reading' last'⟩

theorem process_busy (busy : (w.conns i).kind ≠ .RESP_NONE) : http_process_rx fuel i w = pure w := by
  cases fuel with
  | zero => rfl
  | succ fuel => rw [http_process_rx_turn, if_pos busy]

theorem busy_recv {earlier : List Asked} {e : Asked} (busy : Busy g c earlier e) (p : List UInt8) (now : UInt32) :
    Busy (g.input (.recv p)) { c with rx := c.rx ++ p, tail := [], t_rx := now } earlier e where
  asked := busy.asked
  settled := busy.settled
  sending := sending_congr busy.sending ⟨rfl, rfl, rfl, rfl, rfl, rfl, rfl, rfl, rfl, rfl, rfl, rfl⟩ rfl rfl
  acked := busy.acked
  answers := answers_congr busy.answers ⟨rfl, rfl, rfl, rfl, rfl, rfl, rfl, rfl, rfl, rfl, rfl, rfl⟩
  fresh := busy.fresh

theorem busy_sent {earlier : List Asked} {e : Asked} (busy : Busy g c earlier e) (n : Nat) (now : UInt32) :
    Busy (g.input (.sent n)) { c with acked := c.acked + n, t_ack := now } earlier e where
  asked := busy.asked
  settled := busy.settled
  sending := sending_congr busy.sending ⟨rfl, rfl, rfl, rfl, rfl, rfl, rfl, rfl, rfl, rfl, rfl, rfl⟩ rfl rfl
  acked := by
    show g.acked + n = _
    rw [busy.acked, Nat.add_assoc]
  answers := answers_congr busy.answers ⟨rfl, rfl, rfl, rfl, rfl, rfl, rfl, rfl, rfl, rfl, rfl, rfl⟩
  fresh := busy.fresh

theorem ends_http_recv_cb {p : List UInt8} (rounds : R.live → 2 * HTTP_RX_BUF ≤ fuel) (inv : Inv R g (w.conns i))
    (opened : (w.conns i).pcb = true) (room : p.length ≤ HTTP_RX_BUF - 1 - (w.conns i).rx.length)
    (more : R.ok (g.received ++ p) g.asked { w.conns i with rx := (w.conns i).rx ++ p, tail := [] }) :
    (http_recv_cb fuel i (some p) w).Ends (@logged i) (Good R i) (g.input (.recv p)) := by
  have size : ((w.conns i).rx ++ p).length ≤ HTTP_RX_BUF - 1 := by
    have before := inv.size
    rw [List.length_append]
    omega
  unfold http_recv_cb
  simp only [ends_ite]
  refine ⟨fun shut => absurd opened shut, fun _ => ⟨fun is_ws => ?_, fun _ => ⟨fun large => absurd room (Nat.not_le.mpr large), fun _ => ?_⟩⟩⟩
  · simp [inv.plain] at is_ws
  simp only [call, ends_bind, ends_once]
  intro now
  have reading : R.ok (g.input (.recv p)).received (g.input (.recv p)).asked
      { w.conns i with rx := (w.conns i).rx ++ p, tail := [], t_rx := now } := R.congr more ⟨rfl, rfl, rfl, rfl, rfl, rfl⟩
  cases inv.stands with
  | gone closed => simp [closed] at opened
  | idle _ kind sent =>
    refine ends_http_process_rx fuel ?_ ?_
    · rw [set_conns_self]
      exact ⟨opened, inv.plain, kind, inv.timely, ⟨sent.reads, sent.settled, sent.out, sent.acked⟩, size, reading⟩
    · rw [set_conns_self]
      exact enough_size rounds size
  | busy _ earlier e busy _ last =>
    have busy' := busy_recv busy p now
    rw [process_busy (by rw [set_conns_self]; exact sending_busy busy'.sending)]
    intro _
    rw [set_conns_self]
    exact ⟨inv.plain, inv.timely, inv.bound, size, .busy opened earlier e busy' reading last⟩

theorem ends_http_sent_cb {n : Nat} (rounds : R.live → 2 * HTTP_RX_BUF ≤ fuel) (inv : Inv R g (w.conns i))
    (opened : (w.conns i).pcb = true) (bound : g.acked + n ≤ g.out.length) :
    (http_sent_cb fuel i n w).Ends (@logged i) (Good R i) (g.input (.sent n)) := by
  unfold http_sent_cb
  simp only [call, ends_ite, ends_bind, ends_once, ends_pure]
  refine ⟨fun shut => absurd opened shut, fun _ now => ⟨fun is_ws => ?_, fun _ => ?_⟩⟩
  · simp [inv.plain] at is_ws
  cases inv.stands with
  | gone closed => simp [closed] at opened
  | idle _ kind sent reading waits =>
    have all : g.acked + n = g.out.length := by
      have acked := sent.acked
      omega
    have inv' : Inv R (g.input (.sent n)) { w.conns i with acked := (w.conns i).acked + n, t_ack := now } :=
      ⟨inv.plain, inv.timely, bound, inv.size,
        .idle opened kind ⟨sent.reads, sent.settled, sent.out, all⟩ (R.congr reading ⟨rfl, rfl, rfl, rfl, rfl, rfl⟩)
          fun live => (turn_congr ⟨rfl, rfl, rfl, rfl, rfl, rfl⟩).trans (waits live)⟩
    unfold conn_pump
    rw [ends_ite]
    refine ⟨fun _ _ => ?_, fun running => absurd (.inr ?_) running⟩
    · rwa [set_conns_self]
    · rw [set_conns_self]
      exact kind
  | busy _ earlier e busy reading last =>
    have busy' := busy_sent busy n now
    have reading' : R.ok (g.input (.sent n)).received (g.input (.sent n)).asked
        { w.conns i with acked := (w.conns i).acked + n, t_ack := now } := R.congr reading ⟨rfl, rfl, rfl, rfl, rfl, rfl⟩
    refine ends_conn_pump rounds ?_ ?_ (?_ : Busy _ _ earlier e) ?_ ?_
    · rwa [set_conns_self]
    · rw [set_conns_self]
      exact ⟨inv.plain, inv.timely, bound, inv.size, .busy opened earlier e busy' reading' last⟩
    · rwa [set_conns_self]
    · rwa [set_conns_self]
    · rw [set_conns_self]
      exact last

theorem inv_poll (inv : Inv R g c) (opened : c.pcb = true) : Inv R (g.input .poll) c where
  plain := inv.plain
  timely := inv.timely
  bound := inv.bound
  size := inv.size
  stands := by
    cases inv.stands with
    | gone closed => simp [closed] at opened
    | idle opened kind sent reading waits =>
      exact .idle opened kind ⟨sent.reads, sent.settled, sent.out, sent.acked⟩ reading waits
    | busy opened earlier e busy reading last =>
      refine .busy opened earlier e ⟨busy.asked, busy.settled, ?_, busy.acked, busy.answers, busy.fresh⟩ reading last
      exact sending_congr busy.sending ⟨rfl, rfl, rfl, rfl, rfl, rfl, rfl, rfl, rfl, rfl, rfl, rfl⟩ rfl rfl

/-- A poll leaves everything as it was, or closes a connection that was open. -/
def Polled (i : Slot) (g : Log) (w : Web) (g' : Log) (w' : Web) : Prop := g' = g ∧ (w' = w ∨ (w'.conns i).pcb = false)

theorem ends_http_poll_cb (plain : (w.conns i).is_ws = false) : (http_poll_cb i w).Ends (@logged i) (Polled i g w) g := by
  have stays : Polled i g w g w := ⟨rfl, .inl rfl⟩
  have shut : Polled i g w g (closed i w) := ⟨rfl, .inr (by simp [closed])⟩
  unfold http_poll_cb
  simp only [call, ends_bind, ends_once, ends_ite, ends_pure, ends_conn_close, logged_now]
  intro now
  refine ⟨fun _ => stays, fun _ => ⟨fun is_ws => ?_, fun _ => ?_⟩⟩
  · simp [plain] at is_ws
  exact ⟨fun _ => ⟨fun _ => shut, fun _ => stays⟩, fun _ =>
    ⟨fun _ => ⟨fun _ => shut, fun _ => stays⟩, fun _ => ⟨fun _ => shut, fun _ => stays⟩⟩⟩

end

/-- The server with the world that answers its calls, and the log of one connection. -/
structure Peer (ω : Type) where
  web : Web
  world : ω
  log : Log := {}

def callback (fuel : Nat) (i : Slot) : Input → Web → Prog Call Web
  | .recv p => http_recv_cb fuel i (some p)
  | .sent n => http_sent_cb fuel i n
  | .poll => http_poll_cb i

/-- The connection with a segment that has arrived. -/
def arrived (c : Conn) (p : List UInt8) : Conn := { c with rx := c.rx ++ p, tail := [] }

/-- A connection that was just accepted. -/
structure Accepted (c : Conn) : Prop where
  opened : c.pcb = true
  plain : c.is_ws = false
  kind : c.kind = .RESP_NONE
  rx : c.rx = []
  hdr_done : c.hdr_done = false

section
variable {ω : Type} (exec : ∀ {β : Type}, Call β → ω → β × ω) (fuel : Nat) (i : Slot)

def step (s : Peer ω) (e : Input) : Peer ω :=
  let done := (callback fuel i e s.web).run (observed (@logged i) @exec) (s.world, s.log.input e)
  { web := done.1, world := done.2.1, log := done.2.2 }

/-- The callbacks of a connection that is open: there is room for a segment, which is one that
    `may` arrive; only what was accepted is acknowledged; and no poll closes the connection. -/
def Allowed (may : Log → Conn → List UInt8 → Prop) (s : Peer ω) (e : Input) : Prop :=
  (s.web.conns i).pcb = true ∧
    match e with
    | .recv p => p.length ≤ HTTP_RX_BUF - 1 - (s.web.conns i).rx.length ∧ may s.log (s.web.conns i) p
    | .sent n => s.log.acked + n ≤ s.log.out.length
    | .poll => ((step @exec fuel i s .poll).web.conns i).pcb = true

variable {exec fuel i} {R : Reading} {may : Log → Conn → List UInt8 → Prop}

theorem step_good (rounds : R.live → 2 * HTTP_RX_BUF ≤ fuel)
    (more : ∀ {g c p}, R.ok g.received g.asked c → p.length ≤ HTTP_RX_BUF - 1 - c.rx.length → may g c p →
      R.ok (g.received ++ p) g.asked (arrived c p))
    {s : Peer ω} (good : Good R i s.log s.web) {e : Input} (allowed : Allowed @exec fuel i may s e) :
    Good R i (step @exec fuel i s e).log (step @exec fuel i s e).web := by
  cases fair : s.log.fair with
  | false =>
    intro later
    have unfair : (s.log.input e).fair = false := by cases e <;> exact fair
    have still : (step @exec fuel i s e).log.fair = false :=
      run_ends (@ends_unfair i _ _ unfair (callback fuel i e s.web)) s.world
    simp [still] at later
  | true =>
    have inv := good fair
    obtain ⟨opened, allowed⟩ := allowed
    cases e with
    | recv p =>
      have reading : R.ok s.log.received s.log.asked (s.web.conns i) := by
        cases inv.stands with
        | idle _ _ _ reading => exact reading
        | busy _ _ _ _ reading => exact reading
        | gone closed => simp [closed] at opened
      exact run_ends (ends_http_recv_cb rounds inv opened allowed.1 (more reading allowed.1 allowed.2)) s.world
    | sent n => exact run_ends (ends_http_sent_cb rounds inv opened allowed) s.world
    | poll =>
      have polled := @run_ends _ _ _ @exec _ _ _ _ _ (@ends_http_poll_cb i (s.log.input .poll) s.web inv.plain) s.world
      obtain ⟨same, unchanged | shut⟩ := polled
      · intro _
        have log : (step @exec fuel i s .poll).log = s.log.input .poll := same
        have web : (step @exec fuel i s .poll).web = s.web := unchanged
        rw [log, web]
        exact inv_poll inv opened
      · have gone : ((step @exec fuel i s .poll).web.conns i).pcb = false := shut
        simp [allowed] at gone

theorem good_start {w : Web} (accepted : Accepted (w.conns i)) (start : R.ok [] [] (w.conns i)) : Good R i {} w := by
  intro _
  refine ⟨accepted.plain, ?_, Nat.le_refl _, by simp [accepted.rx], ?_⟩
  · intro earlier e later split
    simp at split
  · exact .idle accepted.opened accepted.kind ⟨rfl, by simp, rfl, rfl⟩ start fun _ => turn_empty accepted.rx accepted.hdr_done

/-- What holds after every run. -/
theorem run_good (rounds : R.live → 2 * HTTP_RX_BUF ≤ fuel)
    (more : ∀ {g c p}, R.ok g.received g.asked c → p.length ≤ HTTP_RX_BUF - 1 - c.rx.length → may g c p →
      R.ok (g.received ++ p) g.asked (arrived c p))
    {w : Web} (accepted : Accepted (w.conns i)) (start : R.ok [] [] (w.conns i)) {world : ω} {inputs : List Input}
    (allowed : Machine.Meets (step @exec fuel i) (Allowed @exec fuel i may) { web := w, world } inputs) :
    Good R i (inputs.foldl (step @exec fuel i) { web := w, world }).log (inputs.foldl (step @exec fuel i) { web := w, world }).web :=
  @Machine.invariant _ _ _ _ (fun s : Peer ω => Good R i s.log s.web)
    (fun _ _ good allowed => step_good rounds more good allowed) _ (good_start accepted start) _ allowed

/-! ### Exact responses -/

/-- What was accepted where no request was refused: all responses but for the end of the last.
    A connection that sends nothing has sent all of them. -/
structure Exact (g : Log) (c : Conn) : Prop where
  before : texts g.reads g.asked.dropLast <+: g.out
  within : g.out <+: texts g.reads g.asked
  all : c.kind = .RESP_NONE → g.out = texts g.reads g.asked ∧ g.acked = g.out.length

/-- A request was refused and with it the connection closed: all responses before were accepted and
    acknowledged, and of the refusal as much as there was room for. -/
structure Refused (g : Log) (c : Conn) (err : String) : Prop where
  closed : c.pcb = false
  acked : g.acked = (texts g.reads g.asked).length
  before : texts g.reads g.asked <+: g.out
  within : g.out <+: texts g.reads g.asked ++ error_text "400 Bad Request" err

theorem stands_exact {g : Log} {c : Conn} (unbroken : g.failed = false) (stands : Stands R g c) :
    Exact g c ∨ ∃ err, R.refused g.asked err ∧ Refused g c err := by
  have shorter (reads : List UInt8) (asked : List Asked) : texts reads asked.dropLast <+: texts reads asked := by
    obtain ⟨last, all⟩ := List.dropLast_prefix asked
    nth_rewrite 2 [← all]
    rw [texts_append]
    exact List.prefix_append _ _
  cases stands with
  | idle _ _ sent =>
    have out : g.out = texts g.reads g.asked := by rw [sent.reads, sent.out]
    exact .inl ⟨out ▸ shorter _ _, ⟨[], by rw [List.append_nil, out]⟩, fun _ => ⟨out, sent.acked⟩⟩
  | busy _ earlier e busy =>
    obtain ⟨before, within⟩ := sending_out busy.sending
    refine .inl ⟨?_, by rwa [busy_texts busy], fun kind => absurd kind (sending_busy busy.sending)⟩
    rw [busy.asked, List.dropLast_concat, texts_settled busy.settled]
    exact before
  | gone closed _ ended =>
    cases ended with
    | done out acked => exact .inl ⟨out ▸ shorter _ _, ⟨[], by rw [List.append_nil, out]⟩, fun _ => ⟨out, acked⟩⟩
    | refused err reason acked all rest => exact .inr ⟨err, reason, closed, acked, all, rest⟩
    | broken failed => simp [unbroken] at failed

variable (exec fuel i)

/-- A segment of the run has completed a request that is refused with this error. -/
def Doomed (s : Peer ω) (inputs : List Input) (err : String) : Prop :=
  ∃ before p after, inputs = before ++ .recv p :: after ∧
    Refuses (arrived ((before.foldl (step @exec fuel i) s).web.conns i) p) err

/-- On one connection, whatever the stack has room for and whenever it acknowledges: what was
    accepted is the responses to the requests in order, the last possibly cut short, and a
    connection is idle or closed only when all of it was accepted and acknowledged, unless a
    request was refused; even then all responses before it were accepted and acknowledged. So
    they were at every dispatch. -/
theorem responses_exact (w : Web) (accepted : Accepted (w.conns i)) (world : ω) (inputs : List Input)
    (allowed : Machine.Meets (step @exec fuel i) (Allowed @exec fuel i fun _ c p => UpgradeFree (arrived c p))
      { web := w, world } inputs)
    (fair : (inputs.foldl (step @exec fuel i) { web := w, world }).log.fair = true)
    (unbroken : (inputs.foldl (step @exec fuel i) { web := w, world }).log.failed = false) :
    let s := inputs.foldl (step @exec fuel i) { web := w, world }
    (Exact s.log (s.web.conns i) ∨
      ∃ err, Doomed @exec fuel i { web := w, world } inputs err ∧ Refused s.log (s.web.conns i) err) ∧
    (∀ earlier e later, s.log.asked = earlier ++ e :: later →
      e.out = texts s.log.reads earlier ∧ e.acked = (texts s.log.reads earlier).length) := by
  intro s
  let doomed := Doomed @exec fuel i { web := w, world } inputs
  have empty : turn (w.conns i) = .wait := turn_empty accepted.rx accepted.hdr_done
  have start : (upgrade_free doomed).ok [] [] (w.conns i) := by
    refine ⟨.wait empty, fun err refuses => ?_⟩
    cases refuses with
    | now t => simp [empty] at t
    | body t => simp [empty] at t
    | dispatch t => simp [empty] at t
  have known : Machine.Meets (step @exec fuel i)
      (Allowed @exec fuel i fun _ c p => UpgradeFree (arrived c p) ∧ ∀ err, Refuses (arrived c p) err → doomed err)
      { web := w, world } inputs := by
    refine Machine.meets_imp ?_ (Machine.meets_at allowed)
    rintro _ e ⟨⟨opened, may⟩, before, after, split, rfl⟩
    refine ⟨opened, ?_⟩
    cases e with
    | recv p => exact ⟨may.1, may.2, fun err refuses => ⟨before, p, after, split, refuses⟩⟩
    | sent n => exact may
    | poll => exact may
  have inv : Inv (upgrade_free doomed) s.log (s.web.conns i) :=
    @run_good _ @exec fuel i (upgrade_free doomed) _ (fun live => live.elim) (fun _ _ may => may) w accepted start world
      inputs known fair
  refine ⟨stands_exact unbroken inv.stands, fun earlier e later split => ?_⟩
  obtain ⟨settled, out, acked⟩ := inv.timely earlier e later split
  rw [texts_settled settled]
  exact ⟨out, acked⟩

end

def accepted_web : Web := Web.set {} ⟨0, Nat.zero_lt_two⟩ { pcb := true }

def index_request : List UInt8 := ascii "GET / HTTP/1.1\r\n\r\n"

/-- A request whose response is acknowledged in two parts. -/
theorem responses_exact_acknowledged :
    let s := [.recv index_request, .sent 20, .poll, .sent 52].foldl (step @WsOutput.roomy 2 0) { web := accepted_web, world := () }
    s.log.asked.length = 1 ∧ s.log.out = texts s.log.reads s.log.asked ∧ s.log.acked = s.log.out.length := by
  intro s
  have free : UpgradeFree { pcb := true, rx := index_request } :=
    @UpgradeFree.dispatch _ (some { content_len := 0, cli_close := false, body_off := 18 }) (ascii "GET") (ascii "/") [] none
      (by decide) (.wait (by decide))
  have allowed : Machine.Meets (step @WsOutput.roomy 2 0)
      (Allowed @WsOutput.roomy 2 0 fun _ c p => UpgradeFree (arrived c p)) { web := accepted_web, world := () }
      [.recv index_request, .sent 20, .poll, .sent 52] := by
    refine ⟨⟨rfl, by decide, free⟩, ?_, ?_, ?_, trivial⟩
    all_goals
      unfold Allowed
      decide +kernel
  have facts : (s.log.fair = true ∧ s.log.failed = false) ∧ s.log.asked.length = 1 ∧ (s.web.conns 0).kind = .RESP_NONE ∧
      (s.web.conns 0).pcb = true := by
    decide +kernel
  obtain ⟨⟨fair, unbroken⟩, one, idle, opened⟩ := facts
  rcases (responses_exact @WsOutput.roomy 2 0 accepted_web ⟨rfl, rfl, rfl, rfl, rfl⟩ () _ allowed fair unbroken).1 with
    exact_ | ⟨_, -, refused⟩
  · exact ⟨one, exact_.all idle⟩
  · have shut : (s.web.conns 0).pcb = false := refused.closed
    simp [opened] at shut

end IoEdgeHub.Exchange
