import IoEdgeHub.HttpTurns

/-!
What the web server sends on one connection that is not upgraded. A log of the calls keeps
the requests that were dispatched with their routes, what was read of a file, and what
`tcp_write` has accepted. Here are the responses as they should be, and how far the pump has
got with one: whatever room the stack has, what was accepted is the beginning of it.
-/
namespace IoEdgeHub.Responses
open IoEdgeHub.Calls IoEdgeHub.CStrings IoEdgeHub.Ws IoEdgeHub.Httpd IoEdgeHub.HttpTurns

/-- A request that was dispatched, its route, and what was accepted and acknowledged by then. -/
structure Asked where
  method : List UInt8
  path : List UInt8
  query : Option (List UInt8)
  body : List UInt8
  route : Route
  out : List UInt8
  acked : Nat

/-- What a connection has received and done. It is `pressed` when the stack had no room since
    the callback began, `failed` when a write or a read has failed with an error that closes the
    connection, and `fair` as long as no read has returned more than it was asked for. -/
structure Log where
  received : List UInt8 := []
  asked : List Asked := []
  reads : List UInt8 := []
  out : List UInt8 := []
  acked : Nat := 0
  pressed : Bool := false
  failed : Bool := false
  fair : Bool := true

/-- What happens to the connection: a segment arrives, bytes are acknowledged, or it is polled. -/
inductive Input
  | recv (p : List UInt8)
  | sent (n : Nat)
  | poll

def Log.input (g : Log) : Input → Log
  | .recv p => { g with received := g.received ++ p, pressed := false }
  | .sent n => { g with acked := g.acked + n, pressed := false }
  | .poll => { g with pressed := false }

def Log.wrote (g : Log) (bytes : List UInt8) : Err → Log
  | .ERR_OK => { g with out := g.out ++ bytes }
  | .ERR_MEM => { g with pressed := true }
  | .ERR_OTHER => { g with failed := true }

def Log.read (g : Log) (size : Nat) : Option (List UInt8) → Log
  | none => { g with failed := true }
  | some bytes => { g with reads := g.reads ++ bytes, fair := g.fair && bytes.length ≤ size }

/-- A request is dispatched. -/
def Log.ask (g : Log) (method path : List UInt8) (query : Option (List UInt8)) (body : List UInt8) (route : Route) : Log :=
  { g with asked := g.asked ++ [{ method, path, query, body, route, out := g.out, acked := g.acked }] }

def logged (i : Slot) (g : Log) : ∀ {β : Type}, Call β → β → Log
  | _, .dispatch method path query body, route => g.ask method path query body route
  | _, .tcp_sndbuf site j, n => if j = i ∧ site = .pump ∧ n = 0 then { g with pressed := true } else g
  | _, .tcp_write site j bytes, e => if j = i ∧ site = .pump then g.wrote bytes e else g
  | _, .history_web_read size, bytes => g.read size bytes
  | _, _, _ => g

/-- A response from memory. There is none if its header does not fit. -/
def mem_text (status ctype body : List UInt8) (keep : Bool) (extra : List UInt8) : List UInt8 :=
  if (header status ctype body.length keep extra).length ≥ HTTP_HDR_MAX then []
  else header status ctype body.length keep extra ++ body

def error_text (status err : String) : List UInt8 :=
  mem_text (ascii status) (ascii "application/json") (json_err err) true []

/-- The response of a route; a download goes on with what was read, up to its size. -/
def response (reads : List UInt8) : Route → List UInt8
  | .mem status ctype extra body => mem_text status ctype body true extra
  | .file size extra =>
    if (file_header size extra).length ≥ HTTP_HDR_MAX then error_text "500 Internal Server Error" "server error"
    else file_header size extra ++ reads.take size

/-- The responses to requests, one after the other. -/
def texts (reads : List UInt8) (asked : List Asked) : List UInt8 := (asked.map fun e => response reads e.route).flatten

/-- A route that needs nothing from the file. -/
def Settled (route : Route) : Prop := ∀ reads, response reads route = response [] route

theorem texts_settled {asked : List Asked} (settled : ∀ e ∈ asked, Settled e.route) (reads : List UInt8) :
    texts reads asked = texts [] asked := by
  unfold texts
  rw [List.map_congr_left fun e member => settled e member reads]

theorem texts_append (reads : List UInt8) (first second : List Asked) :
    texts reads (first ++ second) = texts reads first ++ texts reads second := by
  simp [texts]

theorem texts_one (reads : List UInt8) (e : Asked) : texts reads [e] = response reads e.route := by simp [texts]

/-- A response from memory that follows on `before`, with this much accepted. -/
structure MemSent (before accepted : List UInt8) (c : Conn) : Prop where
  out : accepted = before ++ (c.hdr.take c.hdr_sent ++ c.body.take c.body_sent)
  hdr : c.hdr_sent ≤ c.hdr.length
  body : c.body_sent ≤ c.body.length
  order : c.hdr_sent < c.hdr.length → c.body_sent = 0
  written : c.written = c.hdr_sent + c.body_sent
  total : c.rsp_total = c.hdr.length + c.body.length

/-- A download that follows on `before`: `sent` is accepted, and the rest of the `data` that was read
    waits in the chunk. -/
structure FileSent (before sent data accepted : List UInt8) (c : Conn) : Prop where
  reads : data = sent ++ c.dl_chunk.drop c.dl_chunk_off
  out : accepted = before ++ (c.hdr.take c.hdr_sent ++ sent)
  hdr : c.hdr_sent ≤ c.hdr.length
  order : c.hdr_sent < c.hdr.length → data = []
  chunk : c.dl_chunk_off ≤ c.dl_chunk.length
  written : c.written = c.hdr_sent + sent.length
  size : c.dl_sent = data.length
  bound : c.dl_sent ≤ c.dl_size
  total : c.rsp_total = c.hdr.length + c.dl_size

section
variable {i : Slot} {g g' : Log} {c c' : Conn} {before sent out reads : List UInt8} {fuel mss : Nat} {α : Type}

theorem logged_unfair {β : Type} (unfair : g.fair = false) (c : Call β) (r : β) : (logged i g c r).fair = false := by
  cases c with
  | tcp_sndbuf site j =>
    simp only [logged]
    split <;> exact unfair
  | tcp_write site j bytes =>
    simp only [logged]
    split
    · cases r <;> exact unfair
    · exact unfair
  | history_web_read size =>
    simp only [logged]
    cases r <;> simp [Log.read, unfair]
  | _ => exact unfair

theorem ends_unfair (unfair : g.fair = false) (p : Prog Call α) : p.Ends (@logged i) (fun g' _ => g'.fair = false) g := by
  induction p generalizing g with
  | ret a => exact unfair
  | call c next ih => exact fun r => ih r (logged_unfair unfair c r)

/-- Nothing is to be shown once a read was not fair. -/
theorem ends_if_fair {p : Prog Call α} {post : Log → α → Prop}
    (fair : g.fair = true → p.Ends (@logged i) (fun g' a => g'.fair = true → post g' a) g) :
    p.Ends (@logged i) (fun g' a => g'.fair = true → post g' a) g := by
  cases state : g.fair with
  | true => exact fair state
  | false =>
    refine ends_mono (ends_unfair state p) fun g' a unfair met => ?_
    simp [unfair] at met

@[simp] theorem logged_now (now : UInt32) : logged i g .now_ms now = g := rfl

@[simp] theorem logged_output (r : Unit) : logged i g (.tcp_output i) r = g := rfl

@[simp] theorem logged_close (r : Unit) : logged i g .history_web_close r = g := rfl

@[simp] theorem logged_write (bytes : List UInt8) (e : Err) : logged i g (.tcp_write .pump i bytes) e = g.wrote bytes e := by
  simp [logged]

theorem logged_room {n : Nat} (room : n ≠ 0) : logged i g (.tcp_sndbuf .pump i) n = g := by simp [logged, room]

/-- The pump has gone on with the response. -/
structure Pumped (g : Log) (c : Conn) (g' : Log) (c' : Conn) : Prop extends Frame c c' where
  received : g'.received = g.received
  asked : g'.asked = g.asked
  acks : g'.acked = g.acked
  hdr : c'.hdr = c.hdr
  body : c'.body = c.body
  dl_size : c'.dl_size ≤ c.dl_size
  grown : g.out.length ≤ g'.out.length

theorem pumped_refl (g : Log) (c : Conn) : Pumped g c g c :=
  ⟨frame_refl c, rfl, rfl, rfl, rfl, rfl, Nat.le_refl _, Nat.le_refl _⟩

theorem pumped_trans {g'' : Log} {c'' : Conn} (first : Pumped g c g' c') (second : Pumped g' c' g'' c'') :
    Pumped g c g'' c'' where
  toFrame := frame_trans first.toFrame second.toFrame
  received := second.received.trans first.received
  asked := second.asked.trans first.asked
  acks := second.acks.trans first.acks
  hdr := second.hdr.trans first.hdr
  body := second.body.trans first.body
  dl_size := Nat.le_trans second.dl_size first.dl_size
  grown := Nat.le_trans first.grown second.grown

/-- What becomes of a response: the pump has gone on with it so that `X` holds, or it has failed. -/
def Outcome (g : Log) (c : Conn) (X : Log → Conn → Prop) (g' : Log) (r : Bool × Conn) : Prop :=
  g'.fair = true → Pumped g c g' r.2 ∧ (r.1 = true → X g' r.2) ∧ (r.1 = false → g'.failed = true)

theorem outcome_stays {X : Log → Conn → Prop} (holds : X g c) : Outcome g c X g (true, c) :=
  fun _ => ⟨pumped_refl g c, fun _ => holds, by simp⟩

theorem outcome_trans {X : Log → Conn → Prop} {r : Bool × Conn} (first : Pumped g c g' c') {g'' : Log}
    (second : Outcome g' c' X g'' r) : Outcome g c X g'' r := by
  intro fair
  obtain ⟨pumped, holds, failed⟩ := second fair
  exact ⟨pumped_trans first pumped, holds, failed⟩

/-- A round of a sending loop. -/
theorem outcome_offer {data : List UInt8} {on : List UInt8 → Prog Call (Bool × Conn)} {X : Log → Conn → Prop}
    (full : X { g with pressed := true } c)
    (accepted : ∀ n, n ≠ 0 → (on (data.take n)).Ends (@logged i) (Outcome g c X) { g with out := g.out ++ data.take n }) :
    (offer i data c on).Ends (@logged i) (Outcome g c X) g := by
  have stopped : Outcome g c X { g with pressed := true } (true, c) :=
    fun _ => ⟨⟨frame_refl c, rfl, rfl, rfl, rfl, rfl, Nat.le_refl _, Nat.le_refl _⟩, fun _ => full, by simp⟩
  refine ends_offer ?_ ?_ ?_ ?_
  · simpa [logged] using stopped
  · intro n bytes room
    rw [logged_room room, logged_write]
    exact stopped
  · intro n bytes room
    rw [logged_room room, logged_write]
    exact fun _ => ⟨⟨frame_refl c, rfl, rfl, rfl, rfl, rfl, Nat.le_refl _, Nat.le_refl _⟩, by simp, fun _ => rfl⟩
  · intro n room
    rw [logged_room room, logged_write]
    exact accepted n room

theorem piece_length (data : List UInt8) (off n : Nat) : ((data.drop off).take n).length ≤ data.length - off := by
  rw [List.length_take, List.length_drop]
  exact Nat.min_le_right n _

/-- Something of a response from memory is left. -/
def Unsent (c : Conn) : Prop := c.hdr_sent < c.hdr.length ∨ c.body_sent < c.body.length

/-- How much that is. -/
def left (c : Conn) : Nat := c.hdr.length - c.hdr_sent + (c.body.length - c.body_sent)

theorem memSent_advance (sent : MemSent before out c) (more : Unsent c) (n : Nat) :
    MemSent before (out ++ c.unsent.take n) (c.advance (c.unsent.take n).length) := by
  by_cases in_header : c.hdr_sent < c.hdr.length
  · have unsent : c.unsent = c.hdr.drop c.hdr_sent := if_pos in_header
    have none_of_body := sent.order in_header
    have fits : ((c.hdr.drop c.hdr_sent).take n).length ≤ c.hdr.length - c.hdr_sent := piece_length _ _ _
    rw [unsent, Conn.advance, if_pos in_header]
    refine ⟨?_, ?_, sent.body, fun _ => none_of_body, ?_, sent.total⟩
    · simp only [sent.out, none_of_body, List.take_zero, List.append_nil, List.append_assoc, take_advance]
    · simp only
      omega
    · have written := sent.written
      simp only
      omega
  · have unsent : c.unsent = c.body.drop c.body_sent := if_neg in_header
    have fits : ((c.body.drop c.body_sent).take n).length ≤ c.body.length - c.body_sent := piece_length _ _ _
    have written := sent.written
    have room := more.resolve_left in_header
    rw [unsent, Conn.advance, if_neg in_header]
    refine ⟨?_, sent.hdr, ?_, fun contra => absurd contra in_header, ?_, sent.total⟩
    · simp only [sent.out, List.append_assoc, take_advance]
    · simp only
      omega
    · simp only
      omega

theorem left_advance (more : Unsent c) {n : Nat} (some_room : n ≠ 0) :
    left (c.advance (c.unsent.take n).length) < left c := by
  unfold Conn.advance Conn.unsent left
  by_cases in_header : c.hdr_sent < c.hdr.length
  · simp only [in_header, if_true, List.length_take, List.length_drop]
    omega
  · have in_body := more.resolve_left in_header
    simp only [in_header, if_false, List.length_take, List.length_drop]
    omega

theorem pumped_advance (g : Log) (c : Conn) (bytes : List UInt8) (n : Nat) :
    Pumped g c { g with out := g.out ++ bytes } (c.advance n) := by
  refine ⟨frame_advance c n, rfl, rfl, rfl, ?_, ?_, ?_, by simp⟩ <;> unfold Conn.advance <;> split <;> simp

/-- What the pump makes of a response from memory. It stops early only when there is no room. -/
structure MemPumped (before data : List UInt8) (g : Log) (c : Conn) : Prop where
  sent : MemSent before g.out c
  reads : g.reads = data
  whole : g.pressed = false → ¬ Unsent c

theorem ends_pump_mem (sent : MemSent before g.out c) (room : left c ≤ fuel) :
    (pump_mem i fuel c).Ends (@logged i) (Outcome g c (MemPumped before g.reads)) g := by
  induction fuel generalizing g c with
  | zero =>
    have done : ¬ Unsent c := by
      unfold Unsent
      unfold left at room
      omega
    exact outcome_stays ⟨sent, rfl, fun _ => done⟩
  | succ fuel ih =>
    rw [pump_mem_succ, ends_ite]
    refine ⟨fun more => ?_, fun done => outcome_stays ⟨sent, rfl, fun _ => done⟩⟩
    refine outcome_offer ⟨sent, rfl, by simp⟩ fun n some_room => ?_
    have shorter := left_advance more some_room
    refine ends_mono (ih (memSent_advance sent more n) (by omega)) fun g' r later => ?_
    exact outcome_trans (pumped_advance g c _ _) later

theorem fileSent_header (file : FileSent before sent reads out c) (more : c.hdr_sent < c.hdr.length) (n : Nat) :
    FileSent before sent reads (out ++ (c.hdr.drop c.hdr_sent).take n)
      (c.advance ((c.hdr.drop c.hdr_sent).take n).length) := by
  have nothing := file.order more
  obtain ⟨rfl, pending⟩ : sent = [] ∧ c.dl_chunk.drop c.dl_chunk_off = [] := by
    have parts := file.reads
    rw [nothing] at parts
    exact List.append_eq_nil_iff.mp parts.symm
  have fits : ((c.hdr.drop c.hdr_sent).take n).length ≤ c.hdr.length - c.hdr_sent := piece_length _ _ _
  have written := file.written
  rw [Conn.advance, if_pos more]
  refine ⟨file.reads, ?_, ?_, fun _ => nothing, file.chunk, ?_, file.size, file.bound, file.total⟩
  · simp only [file.out, List.append_nil, List.append_assoc, take_advance]
  · simp only
    omega
  · simp only [List.length_nil, Nat.add_zero] at written ⊢
    omega

theorem ends_pump_file_hdr (file : FileSent before sent g.reads g.out c) :
    (pump_file_hdr i fuel c).Ends (@logged i) (Outcome g c fun g' c' => FileSent before sent g'.reads g'.out c') g := by
  induction fuel generalizing g c with
  | zero => exact outcome_stays file
  | succ fuel ih =>
    rw [pump_file_hdr_succ, ends_ite]
    refine ⟨fun more => ?_, fun _ => outcome_stays file⟩
    refine outcome_offer file fun n _ => ?_
    refine ends_mono (ih (fileSent_header file more n)) fun g' r later => ?_
    exact outcome_trans (pumped_advance g c _ _) later

/-- What the next piece of the file makes of a download whose header is out. -/
def Chunked (before sent : List UInt8) (g : Log) (c : Conn) (g' : Log) (next : Option (Bool × Conn)) : Prop :=
  match next with
  | none => g'.failed = true ∧ Pumped g c g' c
  | some (more, c') => FileSent before sent g'.reads g'.out c' ∧ Pumped g c g' c' ∧ (more = true → c'.hdr.length ≤ c'.hdr_sent)

theorem ends_next_chunk (file : FileSent before sent g.reads g.out c) (header_out : c.hdr.length ≤ c.hdr_sent) :
    (next_chunk c).Ends (@logged i) (fun g' next => g'.fair = true → Chunked before sent g c g' next) g := by
  unfold next_chunk
  simp only [call, ends_ite, ends_bind, ends_once, ends_pure]
  refine ⟨fun _ _ => ⟨file, pumped_refl g c, fun _ => header_out⟩, fun emptied => ⟨fun _ _ => ⟨file, pumped_refl g c, by simp⟩,
    fun unread bytes => ?_⟩⟩
  have emptied : c.dl_chunk_off = c.dl_chunk.length := not_not.mp emptied
  have all_sent : g.reads = sent := by
    have all := file.reads
    rwa [emptied, List.drop_length, List.append_nil] at all
  have size := file.size
  have bound := file.bound
  cases bytes with
  | none => exact fun _ => ⟨rfl, ⟨frame_refl c, rfl, rfl, rfl, rfl, rfl, Nat.le_refl _, Nat.le_refl _⟩⟩
  | some bytes =>
    simp only [ends_ite, ends_pure]
    constructor
    · rintro rfl _
      have same : (logged i g (.history_web_read (min (c.dl_size - c.dl_sent) HTTP_DL_CHUNK)) (some [])).reads = g.reads :=
        List.append_nil _
      refine ⟨?_, ⟨⟨⟨rfl, rfl, rfl, rfl, rfl, rfl⟩, rfl, rfl, rfl, rfl, rfl⟩, rfl, rfl, rfl, rfl, rfl, bound, Nat.le_refl _⟩, by simp⟩
      rw [same]
      exact ⟨file.reads, file.out, file.hdr, file.order, file.chunk, file.written, size, Nat.le_refl _, rfl⟩
    · intro _ fair
      have within : bytes.length ≤ min (c.dl_size - c.dl_sent) HTTP_DL_CHUNK := by
        simp only [logged, Log.read, Bool.and_eq_true, decide_eq_true_eq] at fair
        exact fair.2
      refine ⟨?_, ⟨⟨⟨rfl, rfl, rfl, rfl, rfl, rfl⟩, rfl, rfl, rfl, rfl, rfl⟩, rfl, rfl, rfl, rfl, rfl, Nat.le_refl _, Nat.le_refl _⟩,
        fun _ => header_out⟩
      refine ⟨?_, file.out, file.hdr, fun more => absurd more (by simp only; omega), Nat.zero_le _, file.written, ?_, ?_, file.total⟩
      · simp [logged, Log.read, all_sent]
      · simp [logged, Log.read, size]
      · simp only
        omega

theorem fileSent_taken (file : FileSent before sent reads out c) (header_out : c.hdr.length ≤ c.hdr_sent) (n : Nat) :
    FileSent before (sent ++ (c.dl_chunk.drop c.dl_chunk_off).take n) reads
      (out ++ (c.dl_chunk.drop c.dl_chunk_off).take n)
      (chunk_taken c ((c.dl_chunk.drop c.dl_chunk_off).take n).length) := by
  have written := file.written
  have chunk := file.chunk
  have fits : ((c.dl_chunk.drop c.dl_chunk_off).take n).length ≤ c.dl_chunk.length - c.dl_chunk_off := piece_length _ _ _
  refine ⟨?_, ?_, file.hdr, fun more => absurd more (by simp only [chunk_taken]; omega), ?_, ?_, file.size, file.bound, file.total⟩
  · simp only [chunk_taken, file.reads, List.append_assoc]
    rw [← List.drop_drop]
    generalize c.dl_chunk.drop c.dl_chunk_off = pending
    rw [List.length_take, List.take_eq_take_min, List.take_append_drop]
  · simp only [file.out, chunk_taken, List.append_assoc]
  · simp only [chunk_taken]
    omega
  · simp only [chunk_taken, List.length_append]
    omega

theorem ends_pump_file_data (file : FileSent before sent g.reads g.out c) (header_out : c.hdr.length ≤ c.hdr_sent) :
    (pump_file_data i mss fuel c).Ends (@logged i)
      (Outcome g c fun g' c' => ∃ sent, FileSent before sent g'.reads g'.out c') g := by
  induction fuel generalizing g c sent with
  | zero => exact outcome_stays ⟨sent, file⟩
  | succ fuel ih =>
    rw [pump_file_data_succ, ends_ite, ends_bind]
    refine ⟨fun _ => ends_mono (ends_next_chunk file header_out) ?_, fun _ => outcome_stays ⟨sent, file⟩⟩
    intro g' next chunked
    refine ends_if_fair fun fair => ?_
    have chunked := chunked fair
    rcases next with _ | ⟨_ | _, c'⟩
    · exact fun _ => ⟨chunked.2, by simp, fun _ => chunked.1⟩
    · exact fun _ => ⟨chunked.2.1, fun _ => ⟨sent, chunked.1⟩, by simp⟩
    · obtain ⟨file', pumped, header_out'⟩ := chunked
      have header_out' := header_out' rfl
      refine ends_mono (outcome_offer (X := fun g' c' => ∃ sent, FileSent before sent g'.reads g'.out c')
        ⟨sent, file'⟩ fun n _ => ?_) fun g'' r later => outcome_trans pumped later
      refine ends_mono (ih (fileSent_taken file' header_out' n) header_out') fun g'' r later => outcome_trans ?_ later
      exact ⟨frame_chunk_taken c' _, rfl, rfl, rfl, rfl, rfl, Nat.le_refl _, by simp⟩

theorem ends_pump_file (file : FileSent before sent g.reads g.out c) :
    (pump_file fuel i c).Ends (@logged i) (Outcome g c fun g' c' => ∃ sent, FileSent before sent g'.reads g'.out c') g := by
  unfold pump_file
  simp only [call, ends_bind, ends_once]
  intro mss
  refine ends_mono (ends_pump_file_hdr file) ?_
  rintro g' ⟨good, c'⟩ later
  refine ends_if_fair fun fair => ?_
  obtain ⟨pumped, holds, failed⟩ := later fair
  simp only [ends_ite, ends_pure]
  refine ⟨fun _ _ => ⟨pumped, fun good => ⟨sent, holds good⟩, failed⟩, fun out => ?_⟩
  have header_out : good = true ∧ c'.hdr.length ≤ c'.hdr_sent := by simpa using out
  exact ends_mono (ends_pump_file_data (holds header_out.1) header_out.2) fun g'' r later' => outcome_trans pumped later'

/-- The connection sends a response that follows on `before`. After a download it closes. -/
inductive Sending (before : List UInt8) (g : Log) (c : Conn) : Prop
  | mem (kind : c.kind = .RESP_MEM) (sent : MemSent before g.out c) (reads : g.reads = [])
  | file (kind : c.kind = .RESP_FILE) (sent : List UInt8) (file : FileSent before sent g.reads g.out c)
      (last : c.keep_alive = false)

/-- All of the response, as far as it was read. -/
def whole (g : Log) (c : Conn) : List UInt8 := if c.kind = .RESP_FILE then c.hdr ++ g.reads else c.hdr ++ c.body

theorem sending_busy (sending : Sending before g c) : c.kind ≠ .RESP_NONE := by
  cases sending with
  | mem kind => simp [kind]
  | file kind => simp [kind]

theorem sending_out (sending : Sending before g c) : before <+: g.out ∧ g.out <+: before ++ whole g c := by
  cases sending with
  | mem kind sent =>
    simp only [whole, kind, reduceCtorEq, if_false, sent.out]
    refine ⟨List.prefix_append _ _, (List.prefix_append_right_inj before).mpr ?_⟩
    by_cases more : c.hdr_sent < c.hdr.length
    · rw [sent.order more, List.take_zero, List.append_nil]
      exact (List.take_prefix _ _).trans (List.prefix_append _ _)
    · rw [List.take_of_length_le (Nat.not_lt.mp more)]
      exact (List.prefix_append_right_inj _).mpr (List.take_prefix _ _)
  | file kind sent file =>
    simp only [whole, kind, if_true, file.out]
    refine ⟨List.prefix_append _ _, (List.prefix_append_right_inj before).mpr ?_⟩
    by_cases more : c.hdr_sent < c.hdr.length
    · have nothing := file.order more
      rw [file.reads] at nothing
      rw [(List.append_eq_nil_iff.mp nothing).1, List.append_nil]
      exact (List.take_prefix _ _).trans (List.prefix_append _ _)
    · rw [List.take_of_length_le (Nat.not_lt.mp more), file.reads]
      exact (List.prefix_append_right_inj _).mpr (List.prefix_append _ _)

/-- All of a response is out when as much was written as there is. -/
theorem sending_done (sending : Sending before g c) (all : c.rsp_total ≤ c.written) :
    g.out = before ++ whole g c ∧ c.rsp_total = (whole g c).length := by
  cases sending with
  | mem kind sent =>
    have hdr := sent.hdr
    have body := sent.body
    have written := sent.written
    have total := sent.total
    simp only [whole, kind, reduceCtorEq, if_false, sent.out, List.length_append]
    rw [List.take_of_length_le (by omega), List.take_of_length_le (by omega)]
    exact ⟨rfl, total⟩
  | file kind sent file =>
    have hdr := file.hdr
    have written := file.written
    have total := file.total
    have size := file.size
    have bound := file.bound
    have parts := congrArg List.length file.reads
    rw [List.length_append] at parts
    have no_rest : c.dl_chunk.drop c.dl_chunk_off = [] := List.eq_nil_of_length_eq_zero (by omega)
    simp only [whole, kind, if_true, file.out, List.length_append]
    rw [List.take_of_length_le (by omega), file.reads, no_rest, List.append_nil]
    refine ⟨rfl, ?_⟩
    rw [no_rest, List.length_nil] at parts
    omega

theorem sending_total_pos (sending : Sending before g c) (some_header : 0 < c.hdr.length) : 0 < c.rsp_total := by
  cases sending with
  | mem _ sent =>
    have total := sent.total
    omega
  | file _ _ file =>
    have total := file.total
    omega

/-- A response from memory of which nothing is left is out. -/
theorem sending_whole (sending : Sending before g c) (mem : c.kind = .RESP_MEM) (all : ¬ Unsent c) :
    g.out = before ++ whole g c := by
  refine (sending_done sending ?_).1
  cases sending with
  | mem _ sent =>
    have written := sent.written
    have total := sent.total
    unfold Unsent at all
    omega
  | file kind => simp [mem] at kind

/-- How the pump goes on with a response. -/
structure Goes (before : List UInt8) (g : Log) (c : Conn) : Prop where
  sending : Sending before g c
  whole : c.kind = .RESP_MEM → g.pressed = false → ¬ Unsent c

theorem ends_pump_response (sending : Sending before g c) :
    (pump_response fuel i c).Ends (@logged i) (Outcome g c (Goes before)) g := by
  unfold pump_response
  cases sending with
  | mem kind sent reads =>
    simp only [kind, reduceCtorEq, if_false]
    refine ends_mono (ends_pump_mem sent (Nat.le_refl _)) fun g' r later fair => ?_
    obtain ⟨pumped, holds, failed⟩ := later fair
    refine ⟨pumped, fun good => ?_, failed⟩
    obtain ⟨sent', same, whole⟩ := holds good
    exact ⟨.mem (pumped.kind.trans kind) sent' (same.trans reads), fun _ => whole⟩
  | file kind sent file last =>
    simp only [kind, if_true]
    refine ends_mono (ends_pump_file file) fun g' r later fair => ?_
    obtain ⟨pumped, holds, failed⟩ := later fair
    refine ⟨pumped, fun good => ?_, failed⟩
    obtain ⟨sent', file'⟩ := holds good
    have still : r.2.kind = .RESP_FILE := pumped.kind.trans kind
    exact ⟨.file still sent' file' (pumped.keep_alive.trans last), by simp [still]⟩

end

end IoEdgeHub.Responses
