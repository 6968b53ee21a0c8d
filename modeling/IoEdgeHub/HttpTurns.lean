import IoEdgeHub.Httpd

/-!
The web server's loop over requests, said once for all results about it. What a round of
`http_process_rx` does is read off the receive buffer (`turn`); a response is a header that
fits its buffer and a body; and the pump changes only how far a response has got, whoever
observes its calls.
-/
namespace IoEdgeHub.HttpTurns
open IoEdgeHub.Calls IoEdgeHub.CStrings IoEdgeHub.Ws IoEdgeHub.Httpd

/-- What the header of a request says. -/
structure Head where
  content_len : Nat
  cli_close : Bool
  body_off : Nat
deriving DecidableEq

/-- What a round does with what was received. The header of a request that is refused or
    answered at once is read in the same round. -/
inductive Turn
  | wait
  | refuse (h : Option Head) (err : String) (keep : Bool)
  | body (h : Head)
  | upgrade (h : Head)
  | dispatch (h : Option Head) (method path : List UInt8) (query : Option (List UInt8)) (body : List UInt8)
deriving DecidableEq

/-- The header of the request at the front of the buffer. -/
def read_head (c : Conn) (hdr_len : Nat) : Head where
  content_len := match hdr_find c.rx hdr_len (ascii "Content-Length:") with
    | some off => strtoul_value (cstr ((c.rx ++ c.tail).drop off)) % 2^16
    | none => 0
  cli_close := (hdr_find c.rx hdr_len (ascii "Connection: close")).isSome
  body_off := hdr_len + 4

/-- The turn of a request whose header ends at `hdr_len`. -/
def head_turn (c : Conn) (hdr_len : Nat) : Turn :=
  let (method, target) := split_req_line (c.rx ++ c.tail)
  if method = [] ∨ target = [] then .refuse none "bad request" true
  else if (read_head c hdr_len).content_len > 128 then .refuse (some (read_head c hdr_len)) "body too large" true
  else if method ≠ ascii "GET" then .body (read_head c hdr_len)
  else
    let (path, query) := split_query target
    if path = ascii "/ws" ∧ (hdr_find c.rx hdr_len (ascii "Upgrade: websocket")).isSome then .upgrade (read_head c hdr_len)
    else .dispatch (some (read_head c hdr_len)) method path query []

def turn (c : Conn) : Turn :=
  if ¬ c.hdr_done then
    match find_hdr_end c.rx with
    | none => if c.rx.length ≥ HTTP_RX_BUF - 1 then .refuse none "header too large" false else .wait
    | some hdr_len => head_turn c hdr_len
  else if c.rx.length - c.body_off ≥ c.content_len then
    let (method, target) := split_req_line (c.rx ++ c.tail)
    let (path, query) := split_query target
    .dispatch none method path query ((c.rx.drop c.body_off).take c.content_len)
  else .wait

/-- The connection with a header that was read. -/
def headed (c : Conn) (h : Head) : Conn :=
  { c with content_len := h.content_len, cli_close := h.cli_close, body_off := h.body_off, hdr_done := true }

def maybe_headed (c : Conn) (h : Option Head) : Conn := h.elim c (headed c)

/-- What a request takes up of the buffer. The body of a request that is answered with its
    header is not part of it. -/
def used (h : Option Head) (c : Conn) : Nat :=
  match h with
  | some _ => c.body_off
  | none => c.body_off + c.content_len

/-- A round, by its turn. -/
def take_turn (pump again : Web → Prog Call Web) (i : Slot) (w : Web) : Turn → Prog Call Web
  | .wait => pure w
  | .refuse h err keep => refuse pump i w (maybe_headed (w.conns i) h) err keep
  | .body h => again (w.set i (headed (w.conns i) h))
  | .upgrade h => do
    let resp ← upgrade_response i (w.set i (headed (w.conns i) h)) (h.body_off - 4)
    match resp with
    | some resp => upgrade pump i (w.set i (headed (w.conns i) h)) resp
    | none => do
      let c ← respond_json_err (headed (w.conns i) h) "503 Service Unavailable" "ws busy"
      answer pump i w c c.body_off again
  | .dispatch h method path query body => do
    let route ← call (.dispatch method path query body)
    let c ← respond (maybe_headed (w.conns i) h) route
    answer pump i w c (used h c) again

theorem http_process_rx_turn (fuel : Nat) (i : Slot) (w : Web) :
    http_process_rx (fuel + 1) i w =
      if (w.conns i).kind ≠ .RESP_NONE then pure w
      else take_turn (conn_pump fuel (http_process_rx fuel i) i) (http_process_rx fuel i) i w (turn (w.conns i)) := by
  rw [http_process_rx]
  by_cases busy : (w.conns i).kind ≠ .RESP_NONE
  · rw [if_pos busy, if_pos busy]
  rw [if_neg busy, if_neg busy, turn]
  by_cases fresh : ¬ (w.conns i).hdr_done
  · rw [if_pos fresh, if_pos fresh]
    cases find_hdr_end (w.conns i).rx with
    | none =>
      simp only
      split <;> rfl
    | some hdr_len =>
      unfold head_turn
      simp only
      rw [apply_ite (take_turn _ _ i w), apply_ite (take_turn _ _ i w), apply_ite (take_turn _ _ i w), apply_ite (take_turn _ _ i w)]
      rfl
  · rw [if_neg fresh, if_neg fresh]
    split <;> rfl

/-- The same requests are read off both connections. -/
structure SameRx (c c' : Conn) : Prop where
  rx : c'.rx = c.rx
  tail : c'.tail = c.tail
  hdr_done : c'.hdr_done = c.hdr_done
  body_off : c'.body_off = c.body_off
  content_len : c'.content_len = c.content_len
  cli_close : c'.cli_close = c.cli_close

theorem turn_congr {c c' : Conn} (same : SameRx c c') : turn c' = turn c := by
  obtain ⟨rx, tail, hdr_done, body_off, content_len, -⟩ := same
  cases c
  cases c'
  simp only at rx tail hdr_done body_off content_len
  subst rx tail hdr_done body_off content_len
  rfl

/-- The header of a response. -/
def header (status ctype : List UInt8) (clen : Nat) (keep : Bool) (extra : List UInt8) : List UInt8 :=
  ascii "HTTP/1.1 " ++ status ++ ascii "\r\nContent-Type: " ++ ctype ++ ascii "\r\nContent-Length: " ++
    decimal clen ++ ascii "\r\nConnection: " ++ ascii (if keep then "keep-alive" else "close") ++ ascii "\r\n" ++ extra ++
    ascii "\r\n"

theorem header_length_pos (status ctype extra : List UInt8) (clen : Nat) (keep : Bool) :
    0 < (header status ctype clen keep extra).length := by
  simp only [header, List.length_append]
  have last : 0 < (ascii "\r\n").length := by decide
  omega

/-- A connection that begins a response. -/
def begun (c : Conn) (now : UInt32) (text : List UInt8) (clen : Nat) (keep : Bool) : Conn :=
  { c with hdr := text, hdr_sent := 0, body_sent := 0, written := 0, acked := 0,
           keep_alive := keep && !c.cli_close, rsp_total := text.length + clen, t_ack := now }

theorem rsp_begin_eq (c : Conn) (now : UInt32) (status ctype : List UInt8) (clen : Nat) (keep : Bool) (extra : List UInt8) :
    rsp_begin c now status ctype clen keep extra =
      if (header status ctype clen keep extra).length ≥ HTTP_HDR_MAX then none
      else some (begun c now (header status ctype clen keep extra) clen keep) := by
  unfold rsp_begin
  rfl

/-- The connection after `respond_mem`. -/
def mem_response (c : Conn) (now : UInt32) (status ctype body : List UInt8) (keep : Bool) (extra : List UInt8) : Conn :=
  if (header status ctype body.length keep extra).length ≥ HTTP_HDR_MAX then { c with kind := .RESP_NONE }
  else { begun c now (header status ctype body.length keep extra) body.length keep with body, kind := .RESP_MEM }

theorem respond_mem_eq (c : Conn) (status ctype body : List UInt8) (keep : Bool) (extra : List UInt8) :
    respond_mem c status ctype body keep extra =
      call .now_ms >>= fun now => pure (mem_response c now status ctype body keep extra) := by
  unfold respond_mem mem_response
  refine congrArg _ (funext fun now => ?_)
  rw [rsp_begin_eq]
  by_cases long : (header status ctype body.length keep extra).length ≥ HTTP_HDR_MAX
  · rw [if_pos long, if_pos long]
  · rw [if_neg long, if_neg long]

/-- The connection that begins a download. -/
def file_response (c : Conn) (now : UInt32) (text : List UInt8) (size : Nat) : Conn :=
  { begun c now text size false with dl_size := size, dl_sent := 0, dl_chunk := [], dl_chunk_off := 0, kind := .RESP_FILE }

/-- The header of a download. -/
def file_header (size : Nat) (extra : List UInt8) : List UInt8 :=
  header (ascii "200 OK") (ascii "application/octet-stream") size false extra

theorem respond_file_eq (c : Conn) (size : Nat) (extra : List UInt8) :
    respond c (.file size extra) =
      call .now_ms >>= fun now =>
        if (file_header size extra).length ≥ HTTP_HDR_MAX then do
          call .history_web_close
          respond_json_err c "500 Internal Server Error" "server error"
        else pure (file_response c now (file_header size extra) size) := by
  simp only [respond]
  refine congrArg _ (funext fun now => ?_)
  have built := rsp_begin_eq c now (ascii "200 OK") (ascii "application/octet-stream") size false extra
  rw [← file_header] at built
  rw [built]
  by_cases long : (file_header size extra).length ≥ HTTP_HDR_MAX
  · rw [if_pos long, if_pos long]
  · rw [if_neg long, if_neg long]
    rfl

theorem take_advance (data : List UInt8) (sent n : Nat) :
    data.take sent ++ (data.drop sent).take n = data.take (sent + ((data.drop sent).take n).length) := by
  rw [List.take_add, List.length_take, ← List.take_eq_take_min]

/-- A round of a sending loop: as much of `data` as there is room for is offered to the stack,
    and the loop goes on with what was accepted. -/
def offer (i : Slot) (data : List UInt8) (c : Conn) (on : List UInt8 → Prog Call (Bool × Conn)) : Prog Call (Bool × Conn) := do
  let snd ← call (.tcp_sndbuf .pump i)
  if snd = 0 then pure (true, c)
  else do
    let e ← call (.tcp_write .pump i (data.take snd))
    match e with
    | .ERR_OK => on (data.take snd)
    | .ERR_MEM => pure (true, c)
    | .ERR_OTHER => pure (false, c)

/-- A piece of the file was taken. -/
def chunk_taken (c : Conn) (n : Nat) : Conn := { c with dl_chunk_off := c.dl_chunk_off + n, written := c.written + n }

theorem pump_mem_succ (i : Slot) (fuel : Nat) (c : Conn) :
    pump_mem i (fuel + 1) c =
      if c.hdr_sent < c.hdr.length ∨ c.body_sent < c.body.length then
        offer i c.unsent c fun bytes => pump_mem i fuel (c.advance bytes.length)
      else pure (true, c) := rfl

theorem pump_file_hdr_succ (i : Slot) (fuel : Nat) (c : Conn) :
    pump_file_hdr i (fuel + 1) c =
      if c.hdr_sent < c.hdr.length then
        offer i (c.hdr.drop c.hdr_sent) c fun bytes => pump_file_hdr i fuel (c.advance bytes.length)
      else pure (true, c) := rfl

theorem pump_file_data_succ (i : Slot) (mss fuel : Nat) (c : Conn) :
    pump_file_data i mss (fuel + 1) c =
      if c.written - c.acked < 4 * mss then
        next_chunk c >>= fun next =>
          match next with
          | none => pure (false, c)
          | some (false, c) => pure (true, c)
          | some (true, c) =>
            offer i (c.dl_chunk.drop c.dl_chunk_off) c fun bytes => pump_file_data i mss fuel (chunk_taken c bytes.length)
      else pure (true, c) := rfl

/-- What the pump leaves of a connection. -/
structure Frame (c c' : Conn) : Prop extends SameRx c c' where
  pcb : c'.pcb = c.pcb
  is_ws : c'.is_ws = c.is_ws
  kind : c'.kind = c.kind
  keep_alive : c'.keep_alive = c.keep_alive
  acked : c'.acked = c.acked

theorem frame_refl (c : Conn) : Frame c c := ⟨⟨rfl, rfl, rfl, rfl, rfl, rfl⟩, rfl, rfl, rfl, rfl, rfl⟩

theorem frame_trans {c c' c'' : Conn} (first : Frame c c') (second : Frame c' c'') : Frame c c'' where
  rx := second.rx.trans first.rx
  tail := second.tail.trans first.tail
  hdr_done := second.hdr_done.trans first.hdr_done
  body_off := second.body_off.trans first.body_off
  content_len := second.content_len.trans first.content_len
  cli_close := second.cli_close.trans first.cli_close
  pcb := second.pcb.trans first.pcb
  is_ws := second.is_ws.trans first.is_ws
  kind := second.kind.trans first.kind
  keep_alive := second.keep_alive.trans first.keep_alive
  acked := second.acked.trans first.acked

theorem frame_advance (c : Conn) (n : Nat) : Frame c (c.advance n) := by
  unfold Conn.advance
  split <;> exact ⟨⟨rfl, rfl, rfl, rfl, rfl, rfl⟩, rfl, rfl, rfl, rfl, rfl⟩

theorem frame_chunk_taken (c : Conn) (n : Nat) : Frame c (chunk_taken c n) :=
  ⟨⟨rfl, rfl, rfl, rfl, rfl, rfl⟩, rfl, rfl, rfl, rfl, rfl⟩

/-- An observer to whom nothing relevant happens, in the sense of `R`, while connection `i` is
    pumped. -/
structure Keeps {γ : Type} (after : γ → ∀ {β : Type}, Call β → β → γ) (i : Slot) (R : γ → γ → Prop) : Prop where
  refl : ∀ g, R g g
  trans : ∀ {g g' g''}, R g g' → R g' g'' → R g g''
  sndbuf : ∀ g n, R g (after g (.tcp_sndbuf .pump i) n)
  write : ∀ g bytes e, R g (after g (.tcp_write .pump i bytes) e)
  mss : ∀ g n, R g (after g (.tcp_mss i) n)
  output : ∀ g r, R g (after g (.tcp_output i) r)

section
variable {γ : Type} {after : γ → ∀ {β : Type}, Call β → β → γ} {i : Slot} {R : γ → γ → Prop} {g g' g'' : γ}
  {c c' c'' : Conn} {fuel mss : Nat}

theorem ends_offer {data : List UInt8} {on : List UInt8 → Prog Call (Bool × Conn)} {post : γ → Bool × Conn → Prop}
    (full : post (after g (.tcp_sndbuf .pump i) 0) (true, c))
    (refused : ∀ n bytes, n ≠ 0 → post (after (after g (.tcp_sndbuf .pump i) n) (.tcp_write .pump i bytes) .ERR_MEM) (true, c))
    (failed : ∀ n bytes, n ≠ 0 → post (after (after g (.tcp_sndbuf .pump i) n) (.tcp_write .pump i bytes) .ERR_OTHER) (false, c))
    (accepted : ∀ n, n ≠ 0 →
      (on (data.take n)).Ends @after post (after (after g (.tcp_sndbuf .pump i) n) (.tcp_write .pump i (data.take n)) .ERR_OK)) :
    (offer i data c on).Ends @after post g := by
  unfold offer
  simp only [call, ends_bind, ends_once, ends_ite, ends_pure]
  refine fun n => ⟨fun none_left => by rw [none_left]; exact full, fun some_room e => ?_⟩
  cases e with
  | ERR_OK => exact accepted n some_room
  | ERR_MEM => exact refused n _ some_room
  | ERR_OTHER => exact failed n _ some_room

/-- Nothing relevant was seen, and the connection is as it was but for how far its response is. -/
structure Moved (R : γ → γ → Prop) (g : γ) (c : Conn) (g' : γ) (c' : Conn) : Prop where
  seen : R g g'
  frame : Frame c c'

section
variable (keeps : Keeps @after i R)
include keeps

theorem moved_refl (g : γ) (c : Conn) : Moved R g c g c := ⟨keeps.refl g, frame_refl c⟩

theorem moved_trans (first : Moved R g c g' c') (second : Moved R g' c' g'' c'') : Moved R g c g'' c'' :=
  ⟨keeps.trans first.seen second.seen, frame_trans first.frame second.frame⟩

theorem seen_write (n : Nat) (bytes : List UInt8) (e : Err) :
    R g (after (after g (.tcp_sndbuf .pump i) n) (.tcp_write .pump i bytes) e) :=
  keeps.trans (keeps.sndbuf g n) (keeps.write _ bytes e)

theorem moved_offer {data : List UInt8} {on : List UInt8 → Prog Call (Bool × Conn)} (first : Moved R g c g' c')
    (accepted : ∀ g'' bytes, R g' g'' → (on bytes).Ends @after (fun g r => Moved R g'' c' g r.2) g'') :
    (offer i data c' on).Ends @after (fun g' r => Moved R g c g' r.2) g' := by
  refine ends_offer ?_ ?_ ?_ ?_
  · exact moved_trans keeps first ⟨keeps.sndbuf g' 0, frame_refl c'⟩
  · exact fun n bytes _ => moved_trans keeps first ⟨seen_write keeps n bytes _, frame_refl c'⟩
  · exact fun n bytes _ => moved_trans keeps first ⟨seen_write keeps n bytes _, frame_refl c'⟩
  · intro n _
    have seen := seen_write keeps (g := g') n (data.take n) .ERR_OK
    refine ends_mono (accepted _ _ seen) fun _ _ moved => ?_
    exact moved_trans keeps first (moved_trans keeps ⟨seen, frame_refl c'⟩ moved)

theorem moved_pump_mem (g : γ) (c : Conn) : (pump_mem i fuel c).Ends @after (fun g' r => Moved R g c g' r.2) g := by
  induction fuel generalizing g c with
  | zero => exact moved_refl keeps g c
  | succ fuel ih =>
    rw [pump_mem_succ, ends_ite]
    refine ⟨fun _ => moved_offer keeps (moved_refl keeps g c) fun g' bytes _ => ?_, fun _ => moved_refl keeps g c⟩
    refine ends_mono (ih g' _) fun _ _ moved => ?_
    exact moved_trans keeps ⟨keeps.refl g', frame_advance c bytes.length⟩ moved

theorem moved_pump_file_hdr (g : γ) (c : Conn) :
    (pump_file_hdr i fuel c).Ends @after (fun g' r => Moved R g c g' r.2) g := by
  induction fuel generalizing g c with
  | zero => exact moved_refl keeps g c
  | succ fuel ih =>
    rw [pump_file_hdr_succ, ends_ite]
    refine ⟨fun _ => moved_offer keeps (moved_refl keeps g c) fun g' bytes _ => ?_, fun _ => moved_refl keeps g c⟩
    refine ends_mono (ih g' _) fun _ _ moved => ?_
    exact moved_trans keeps ⟨keeps.refl g', frame_advance c bytes.length⟩ moved

section
variable (read : ∀ g n r, R g (after g (.history_web_read n) r))
include read

theorem moved_next_chunk (g : γ) (c : Conn) :
    (next_chunk c).Ends @after (fun g' r => Moved R g c g' ((r.map Prod.snd).getD c)) g := by
  unfold next_chunk
  simp only [call, ends_ite, ends_bind, ends_once, ends_pure]
  refine ⟨fun _ => moved_refl keeps g c, fun _ => ⟨fun _ => moved_refl keeps g c, fun _ bytes => ?_⟩⟩
  cases bytes with
  | none => exact ⟨read g _ _, frame_refl c⟩
  | some bytes =>
    simp only [ends_ite, ends_pure]
    exact ⟨fun _ => ⟨read g _ _, ⟨⟨rfl, rfl, rfl, rfl, rfl, rfl⟩, rfl, rfl, rfl, rfl, rfl⟩⟩,
      fun _ => ⟨read g _ _, ⟨⟨rfl, rfl, rfl, rfl, rfl, rfl⟩, rfl, rfl, rfl, rfl, rfl⟩⟩⟩

theorem moved_pump_file_data (g : γ) (c : Conn) :
    (pump_file_data i mss fuel c).Ends @after (fun g' r => Moved R g c g' r.2) g := by
  induction fuel generalizing g c with
  | zero => exact moved_refl keeps g c
  | succ fuel ih =>
    rw [pump_file_data_succ, ends_ite, ends_bind]
    refine ⟨fun _ => ends_mono (moved_next_chunk keeps read g c) ?_, fun _ => moved_refl keeps g c⟩
    intro g' next moved
    rcases next with _ | ⟨_ | _, c'⟩
    · exact moved
    · exact moved
    · refine moved_offer keeps moved fun g'' bytes _ => ?_
      refine ends_mono (ih g'' _) fun _ _ moved' => ?_
      exact ⟨moved'.seen, frame_trans (frame_chunk_taken c' bytes.length) moved'.frame⟩

theorem moved_pump_file (g : γ) (c : Conn) : (pump_file fuel i c).Ends @after (fun g' r => Moved R g c g' r.2) g := by
  unfold pump_file
  simp only [call, ends_bind, ends_once]
  intro mss
  have first : Moved R g c (after g (.tcp_mss i) mss) c := ⟨keeps.mss g mss, frame_refl c⟩
  refine ends_mono (moved_pump_file_hdr keeps _ c) ?_
  rintro g' ⟨good, c'⟩ moved
  have so_far := moved_trans keeps first moved
  simp only [ends_ite, ends_pure]
  exact ⟨fun _ => so_far, fun _ => ends_mono (moved_pump_file_data keeps read g' c') fun _ _ => moved_trans keeps so_far⟩

end

/-- Pumping a response. Only a download reads from the file. -/
theorem moved_pump_response (read : c.kind = .RESP_FILE → ∀ g n r, R g (after g (.history_web_read n) r)) (g : γ) :
    (pump_response fuel i c).Ends @after (fun g' r => Moved R g c g' r.2) g := by
  unfold pump_response
  rw [ends_ite]
  exact ⟨fun file => moved_pump_file keeps (read file) g c, fun _ => moved_pump_mem keeps g c⟩

end

end

end IoEdgeHub.HttpTurns
