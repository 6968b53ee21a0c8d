import IoEdgeHub.Exchange
import IoEdgeHub.HttpRequests
import Mathlib.Data.List.Forall2

/-!
The requests of a stream, however it is cut into segments and however the responses go out. As
long as the server reads every request as it is meant, it dispatches them in order, each with its
own body, and refuses the first whose body is too large.
-/
namespace IoEdgeHub.HttpFraming
open IoEdgeHub.CStrings IoEdgeHub.Ws IoEdgeHub.Httpd IoEdgeHub.HttpTurns IoEdgeHub.Responses IoEdgeHub.Exchange
open IoEdgeHub.HttpRequests

def stream (requests : List Request) : List UInt8 := requests.flatMap Request.bytes

theorem stream_append (first second : List Request) : stream (first ++ second) = stream first ++ stream second := by
  simp [stream]

theorem stream_cons (r : Request) (rest : List Request) : stream (r :: rest) = r.bytes ++ stream rest := by simp [stream]

/-- A request is dispatched with its words and its body. -/
structure Asks (r : Request) (e : Asked) : Prop where
  method : e.method = r.method
  path : e.path = (split_query r.target).1
  query : e.query = (split_query r.target).2
  body : e.body = r.body

/-- Why a request may be refused. -/
def Refusal (r : Request) (err : String) : Prop :=
  err = "body too large" ∧ 128 < r.body.length ∨ err = "header too large" ∧ HTTP_RX_BUF ≤ r.head.length + 4

/-- The header of a request with a body was read. -/
structure HeaderRead (r : Request) (c : Conn) : Prop where
  off : c.body_off = r.head.length + 4
  len : c.content_len = r.body.length
  small : r.body.length ≤ 128
  close : c.cli_close = r.closes
  rx : r.head ++ blank_line <+: c.rx

/-- The requests `done` were dispatched, and the buffer has the beginning of the others. -/
structure Reads (requests : List Request) (received : List UInt8) (asked : List Asked) (c : Conn) (done rest : List Request) :
    Prop where
  split : requests = done ++ rest
  asked : List.Forall₂ Asks done asked
  small : ∀ r ∈ done, r.body.length ≤ 128
  received : received = stream done ++ c.rx
  rx : c.rx <+: stream rest
  header : c.hdr_done = true → ∃ r later, rest = r :: later ∧ HeaderRead r c

/-- None of the requests to come can be taken yet. -/
def Unfinished (rx : List UInt8) (rest : List Request) : Prop :=
  ∀ r later, rest = r :: later → ¬ r.bytes <+: rx ∧ (r.head ++ blank_line <+: rx → r.body.length ≤ 128)

/-- What the next round does. -/
inductive Next (c : Conn) (rest : List Request) : Prop
  | wait (t : turn c = .wait) (unfinished : Unfinished c.rx rest)
  | refuse (r : Request) (later : List Request) (next : rest = r :: later) (h : Option Head) (err : String) (keep : Bool)
      (t : turn c = .refuse h err keep) (reason : Refusal r err)
  | body (r : Request) (later : List Request) (next : rest = r :: later) (small : r.body.length ≤ 128)
      (rx : r.head ++ blank_line <+: c.rx) (t : turn c = .body r.read)
  | dispatch (r : Request) (later : List Request) (next : rest = r :: later) (small : r.body.length ≤ 128) (more : List UInt8)
      (rx : c.rx = r.bytes ++ more) (h : Option Head) (taken : used h (maybe_headed c h) = r.bytes.length)
      (close : (maybe_headed c h).cli_close = r.closes)
      (t : turn c = .dispatch h r.method (split_query r.target).1 (split_query r.target).2 r.body)

section
variable {requests done rest : List Request} {received : List UInt8} {asked : List Asked} {c c' : Conn}

/-- The header of the next request is there, or only a part of it. -/
theorem front {r : Request} {later : List Request} {rx : List UInt8} (within : rx <+: stream (r :: later)) :
    (rx <+: r.head ++ blank_line ∧ rx.length < r.head.length + 4) ∨
      ∃ more, rx = r.head ++ (blank_line ++ more) ∧ more <+: r.body ++ stream later := by
  have bytes : stream (r :: later) = (r.head ++ blank_line) ++ (r.body ++ stream later) := by
    simp [stream_cons, Request.bytes]
  rw [bytes] at within
  have size : (r.head ++ blank_line).length = r.head.length + 4 := by simp [blank_line]
  by_cases short : rx.length < r.head.length + 4
  · refine .inl ⟨List.prefix_of_prefix_length_le within (List.prefix_append _ _) ?_, short⟩
    omega
  · obtain ⟨more, rfl⟩ := List.prefix_of_prefix_length_le (List.prefix_append _ _) within (by omega)
    exact .inr ⟨more, by simp, (List.prefix_append_right_inj _).mp within⟩

theorem bytes_length (r : Request) : r.bytes.length = r.head.length + 4 + r.body.length := by
  simp only [Request.bytes, blank_line, List.length_append, List.length_cons, List.length_nil]
  omega

/-- A request whose header has arrived. -/
theorem next_header {r : Request} {later : List Request} {more : List UInt8} (plain : Plain r)
    (rx : c.rx = r.head ++ (blank_line ++ more)) (t : turn c = r.turn) : Next c (r :: later) := by
  unfold Request.turn at t
  by_cases large : 128 < r.body.length
  · rw [if_pos large] at t
    exact .refuse r later rfl _ _ _ t (.inl ⟨rfl, large⟩)
  rw [if_neg large] at t
  have small : r.body.length ≤ 128 := Nat.not_lt.mp large
  by_cases other : r.method ≠ ascii "GET"
  · rw [if_pos other] at t
    exact .body r later rfl small ⟨more, by rw [rx, List.append_assoc]⟩ t
  · rw [if_neg other] at t
    have empty : r.body = [] := plain.get (not_not.mp other) small
    have bytes : r.bytes = r.head ++ blank_line := by rw [Request.bytes, empty, List.append_nil]
    refine .dispatch r later rfl small more (by rw [rx, bytes, List.append_assoc]) (some r.read) ?_ rfl (by rw [t, empty])
    rw [bytes_length, empty]
    rfl

variable (formed : ∀ r ∈ requests, WellFormed r) (plain : ∀ r ∈ requests, Plain r) (dispatched : ∀ r ∈ requests, ¬ r.Upgrades)
include formed plain dispatched

theorem next_round (reads : Reads requests received asked c done rest) : Next c rest := by
  cases rest with
  | nil =>
    have empty : c.rx = [] := List.prefix_nil.mp reads.rx
    have fresh : c.hdr_done = false := by
      cases state : c.hdr_done with
      | false => rfl
      | true =>
        obtain ⟨r, later, contra, -⟩ := reads.header state
        simp at contra
    exact .wait (turn_empty empty fresh) fun r later contra => by simp at contra
  | cons r later =>
    have member : r ∈ requests := by simp [reads.split]
    have formed := formed r member
    cases state : c.hdr_done with
    | false =>
      rcases front reads.rx with ⟨part, short⟩ | ⟨more, rx, -⟩
      · have unfinished : Unfinished c.rx (r :: later) := by
          rintro r' later' ⟨⟩
          constructor
          · intro whole
            have size := whole.length_le
            simp only [Request.bytes, List.length_append, blank_line, List.length_cons] at size
            omega
          · intro complete
            have size := complete.length_le
            simp only [List.length_append, blank_line, List.length_cons, List.length_nil] at size
            omega
        rcases turn_partial formed state part short with t | ⟨t, large⟩
        · exact .wait t unfinished
        · exact .refuse r later rfl _ _ _ t (.inr ⟨rfl, large⟩)
      · exact next_header (plain r member) rx (turn_request formed (plain r member) (dispatched r member) state rx)
    | true =>
      obtain ⟨r', later', same, read⟩ := reads.header state
      obtain ⟨rfl, rfl⟩ : r = r' ∧ later = later' := by simpa using same
      obtain ⟨more, rx⟩ := read.rx
      have rx : c.rx = r.head ++ (blank_line ++ more) := by rw [← rx, List.append_assoc]
      have t := turn_body_request formed state read.off read.len rx
      by_cases complete : r.body.length ≤ more.length
      · have within : more <+: r.body ++ stream later := by
          have whole := reads.rx
          rw [rx, stream_cons, Request.bytes, List.append_assoc, List.append_assoc, List.prefix_append_right_inj,
            List.prefix_append_right_inj] at whole
          exact whole
        obtain ⟨behind, rfl⟩ := List.prefix_of_prefix_length_le (List.prefix_append _ _) within complete
        rw [if_pos complete, List.take_left] at t
        refine .dispatch r later rfl read.small behind (by rw [rx]; simp [Request.bytes]) none ?_ read.close t
        rw [bytes_length]
        show c.body_off + c.content_len = _
        rw [read.off, read.len]
      · rw [if_neg complete] at t
        refine .wait t ?_
        rintro r' later' ⟨⟩
        refine ⟨fun whole => ?_, fun _ => read.small⟩
        have size := whole.length_le
        simp only [rx, Request.bytes, List.length_append] at size
        omega

omit formed plain dispatched

theorem reads_congr (reads : Reads requests received asked c done rest) (same : SameRx c c') :
    Reads requests received asked c' done rest where
  split := reads.split
  asked := reads.asked
  small := reads.small
  received := by rw [same.rx, reads.received]
  rx := by rw [same.rx]; exact reads.rx
  header := fun state => by
    obtain ⟨r, later, next, read⟩ := reads.header (same.hdr_done.symm.trans state)
    exact ⟨r, later, next, same.body_off.trans read.off, same.content_len.trans read.len, read.small,
      same.cli_close.trans read.close, by rw [same.rx]; exact read.rx⟩

/-- A segment of the stream arrives. -/
theorem reads_arrived (reads : Reads requests received asked c done rest) {p : List UInt8}
    (within : received ++ p <+: stream requests) : Reads requests (received ++ p) asked (arrived c p) done rest where
  split := reads.split
  asked := reads.asked
  small := reads.small
  received := by simp [arrived, reads.received]
  rx := by
    rw [reads.received, reads.split, stream_append, List.append_assoc, List.prefix_append_right_inj] at within
    exact within
  header := fun state => by
    obtain ⟨r, later, next, read⟩ := reads.header state
    exact ⟨r, later, next, read.off, read.len, read.small, read.close, read.rx.trans (List.prefix_append _ _)⟩

/-- The next request is taken off the buffer. -/
theorem reads_taken {r : Request} {later : List Request} {e : Asked} {more : List UInt8}
    (reads : Reads requests received asked c done (r :: later)) (small : r.body.length ≤ 128) (asks : Asks r e)
    (rx : c.rx = r.bytes ++ more) (rest_rx : c'.rx = more) (fresh : c'.hdr_done = false) :
    Reads requests received (asked ++ [e]) c' (done ++ [r]) later where
  split := by simp [reads.split]
  asked := List.rel_append reads.asked (.cons asks .nil)
  small := by
    intro r' member
    rcases List.mem_append.mp member with old | new
    · exact reads.small r' old
    · rw [List.mem_singleton.mp new]
      exact small
  received := by
    rw [reads.received, rx, rest_rx, stream_append, stream_cons]
    simp [stream]
  rx := by
    have within := reads.rx
    rw [rx, stream_cons, List.prefix_append_right_inj] at within
    rwa [rest_rx]
  header := fun state => by simp [fresh] at state

theorem reads_body {r : Request} {later : List Request} (reads : Reads requests received asked c done (r :: later))
    (small : r.body.length ≤ 128) (rx : r.head ++ blank_line <+: c.rx) :
    Reads requests received asked (headed c r.read) done (r :: later) where
  split := reads.split
  asked := reads.asked
  small := reads.small
  received := reads.received
  rx := reads.rx
  header := fun _ => by
    refine ⟨r, later, rfl, rfl, ?_, small, rfl, rx⟩
    show min r.body.length ULONG_MAX % 2^16 = r.body.length
    unfold ULONG_MAX
    omega

end

section
variable {requests done rest : List Request} {received : List UInt8} {asked : List Asked} {c : Conn} {h : Option Head}
  {method path body : List UInt8} {query : Option (List UInt8)} (formed : ∀ r ∈ requests, WellFormed r)
  (plain : ∀ r ∈ requests, Plain r) (dispatched : ∀ r ∈ requests, ¬ r.Upgrades)

/-- The request that is dispatched. -/
structure Takes (c : Conn) (h : Option Head) (rest : List Request) (r : Request) (later : List Request) : Prop where
  next : rest = r :: later
  small : r.body.length ≤ 128
  rx : c.rx = r.bytes ++ (taken c h).rx
  close : (maybe_headed c h).cli_close = r.closes

theorem taken_rx {r : Request} {more : List UInt8} (rx : c.rx = r.bytes ++ more)
    (used_all : used h (maybe_headed c h) = r.bytes.length) : (taken c h).rx = more := by
  have same : (maybe_headed c h).rx = c.rx := by cases h <;> rfl
  unfold taken Conn.consume
  rw [used_all, same, rx, List.drop_left]

include formed plain dispatched

theorem dispatch_request (reads : Reads requests received asked c done rest)
    (t : turn c = .dispatch h method path query body) :
    ∃ r later, Takes c h rest r later ∧ ∀ route out acked, Asks r (.mk method path query body route out acked) := by
  cases next_round formed plain dispatched reads with
  | dispatch r later next small more rx h taken close t' =>
    obtain ⟨rfl, rfl, rfl, rfl, rfl⟩ := Turn.dispatch.inj (t'.symm.trans t)
    refine ⟨r, later, ⟨next, small, ?_, close⟩, fun _ _ _ => ⟨rfl, rfl, rfl, rfl⟩⟩
    rwa [taken_rx rx taken]
  | wait t' => simp [t'] at t
  | refuse _ _ _ _ _ _ t' => simp [t'] at t
  | body _ _ _ _ _ t' => simp [t'] at t

end

section
variable (requests : List Request) (formed : ∀ r ∈ requests, WellFormed r) (plain : ∀ r ∈ requests, Plain r)
  (dispatched : ∀ r ∈ requests, ¬ r.Upgrades)

/-- The requests of a stream, which are taken one after the other. -/
def framing : Reading where
  ok := fun received asked c => ∃ done rest, Reads requests received asked c done rest
  refused := fun asked err => ∃ done r later, requests = done ++ r :: later ∧ asked.length = done.length ∧ Refusal r err
  closing := fun asked => ∃ done r later, requests = done ++ r :: later ∧ asked.length = done.length + 1 ∧ r.closes = true
  live := True
  congr := fun ⟨done, rest, reads⟩ same => ⟨done, rest, reads_congr reads same⟩
  upgrade := fun ⟨_, _, reads⟩ t => by
    cases next_round formed plain dispatched reads <;> simp_all
  refuse := fun ⟨done, rest, reads⟩ t => by
    cases next_round formed plain dispatched reads with
    | refuse r later next h err keep t' reason =>
      obtain ⟨-, rfl, -⟩ := Turn.refuse.inj (t'.symm.trans t)
      exact ⟨done, r, later, next ▸ reads.split, reads.asked.length_eq.symm, reason⟩
    | wait t' => simp [t'] at t
    | body _ _ _ _ _ t' => simp [t'] at t
    | dispatch _ _ _ _ _ _ _ _ _ t' => simp [t'] at t
  body := fun ⟨done, rest, reads⟩ t => by
    cases next_round formed plain dispatched reads with
    | body r later next small rx t' =>
      subst next
      obtain rfl := Turn.body.inj (t'.symm.trans t)
      exact ⟨done, r :: later, reads_body reads small rx⟩
    | wait t' => simp [t'] at t
    | refuse _ _ _ _ _ _ t' => simp [t'] at t
    | dispatch _ _ _ _ _ _ _ _ _ t' => simp [t'] at t
  dispatch := fun route out acked ⟨done, rest, reads⟩ t => by
    obtain ⟨r, later, takes, asks⟩ := dispatch_request formed plain dispatched reads t
    exact ⟨done ++ [r], later, reads_taken (takes.next ▸ reads) takes.small (asks route out acked) takes.rx rfl rfl⟩
  close := fun route out acked ⟨done, rest, reads⟩ t closes => by
    obtain ⟨r, later, takes, -⟩ := dispatch_request formed plain dispatched reads t
    refine ⟨done, r, later, takes.next ▸ reads.split, ?_, takes.close.symm.trans closes⟩
    rw [List.length_append, ← reads.asked.length_eq]
    rfl
  progress := fun _ ⟨done, rest, reads⟩ t => by
    obtain ⟨r, later, takes, -⟩ := dispatch_request formed plain dispatched reads t
    have bytes := congrArg List.length takes.rx
    rw [List.length_append, bytes_length] at bytes
    omega

end

/-! ### Framing -/

/-- What must be so for all requests of a stream to be taken: each header fits the buffer, only the
    last request closes the connection or is answered with a download, and neither a write nor a
    read fails. -/
structure Orderly (requests : List Request) (g : Log) : Prop where
  fits : ∀ r ∈ requests, r.head.length + 4 < HTTP_RX_BUF
  closes : ∀ before r later, requests = before ++ r :: later → r.closes = true → later = []
  download : ∀ before e later size extra, g.asked = before ++ e :: later → e.route = .file size extra →
    before.length + 1 = requests.length
  unbroken : g.failed = false

/-- The body of the request is too large: it was answered with a 400, which went out as far as the
    stack had room, and the connection was closed. -/
structure TooLarge (g : Log) (c : Conn) (r : Request) : Prop where
  large : 128 < r.body.length
  closed : c.pcb = false
  before : texts g.reads g.asked <+: g.out
  within : g.out <+: texts g.reads g.asked ++ error_text "400 Bad Request" "body too large"
  whole : g.pressed = false → g.out = texts g.reads g.asked ++ error_text "400 Bad Request" "body too large"

/-- The requests `done` were dispatched, each once, in order and with its own body. A connection that
    sends no response has dispatched every request that has arrived, or it was closed with the
    refusal of the next one; and it was closed for nothing else, unless no request is left. -/
structure FramedAt (requests : List Request) (g : Log) (c : Conn) (done rest : List Request) : Prop where
  split : requests = done ++ rest
  asked : List.Forall₂ Asks done g.asked
  small : ∀ r ∈ done, r.body.length ≤ 128
  received : stream done <+: g.received
  next : c.kind = .RESP_NONE → (∃ rx, g.received = stream done ++ rx ∧ Unfinished rx rest) ∨
    ∃ r later, rest = r :: later ∧ TooLarge g c r
  closed : c.pcb = false → rest = [] ∨ ∃ r later, rest = r :: later ∧ TooLarge g c r

def Framed (requests : List Request) (g : Log) (c : Conn) : Prop := ∃ done rest, FramedAt requests g c done rest

section
variable {requests : List Request} (formed : ∀ r ∈ requests, WellFormed r) (plain : ∀ r ∈ requests, Plain r)
  (dispatched : ∀ r ∈ requests, ¬ r.Upgrades) {g : Log} {c : Conn}

/-- A connection that is closed has no request left, or the next one was refused. -/
theorem ended_over {done rest : List Request} {c' : Conn} (orderly : Orderly requests g)
    (reads : Reads requests g.received g.asked c' done rest) (shut : c.pcb = false)
    (ended : Over (framing requests formed plain dispatched) g) :
    rest = [] ∨ ∃ r later, rest = r :: later ∧ TooLarge g c r := by
  have count := reads.asked.length_eq
  cases ended with
  | done out acked last =>
    left
    rcases last with ⟨earlier, r, later, split, length, closes⟩ | ⟨earlier, e, size, extra, asked, file⟩
    · have none_later := orderly.closes earlier r later split closes
      have all := congrArg List.length (reads.split.symm.trans split)
      rw [none_later] at all
      simp only [List.length_append, List.length_singleton] at all
      exact List.length_eq_zero_iff.mp (by omega)
    · have all := orderly.download earlier e [] size extra asked file
      have last := congrArg List.length asked
      have split := congrArg List.length reads.split
      simp only [List.length_append, List.length_singleton] at last split
      exact List.length_eq_zero_iff.mp (by omega)
  | refused err reason acked before within whole =>
    obtain ⟨earlier, r, later, split, length, reason⟩ := reason
    have split' : done ++ rest = earlier ++ r :: later := by rw [← reads.split, split]
    have next : rest = r :: later := (List.append_inj split' (by omega)).2
    have fits := orderly.fits r (by simp [split])
    rcases reason with ⟨rfl, large⟩ | ⟨_, long⟩
    · exact .inr ⟨r, later, next, large, shut, before, within, whole⟩
    · omega
  | broken failed => simp [orderly.unbroken] at failed

theorem framed_inv (orderly : Orderly requests g) (inv : Inv (framing requests formed plain dispatched) g c) :
    Framed requests g c := by
  cases inv.stands with
  | idle opened kind sent reading waits =>
    obtain ⟨done, rest, reads⟩ := reading
    refine ⟨done, rest, reads.split, reads.asked, reads.small, ⟨c.rx, reads.received.symm⟩, fun _ => ?_, ?_⟩
    · have t := waits trivial
      refine .inl ⟨c.rx, reads.received, ?_⟩
      cases next_round formed plain dispatched reads with
      | wait _ unfinished => exact unfinished
      | refuse _ _ _ _ _ _ t' => simp [t] at t'
      | body _ _ _ _ _ t' => simp [t] at t'
      | dispatch _ _ _ _ _ _ _ _ _ t' => simp [t] at t'
    · simp [opened]
  | busy opened earlier e busy reading =>
    obtain ⟨done, rest, reads⟩ := reading
    refine ⟨done, rest, reads.split, reads.asked, reads.small, ⟨c.rx, reads.received.symm⟩, fun kind => ?_, ?_⟩
    · exact absurd kind (sending_busy busy.sending)
    · simp [opened]
  | gone closed reading ended =>
    obtain ⟨c', done, rest, reads⟩ := reading
    have last := ended_over formed plain dispatched orderly reads closed ended
    refine ⟨done, rest, reads.split, reads.asked, reads.small, ⟨c'.rx, reads.received.symm⟩, fun _ => ?_, fun _ => last⟩
    rcases last with rfl | refused
    · exact .inl ⟨c'.rx, reads.received, fun r later contra => by simp at contra⟩
    · exact .inr refused

end

/-- Whatever the segments of the stream and whenever responses are acknowledged: if every request
    is read as it is meant and only the last one ends the connection, every request that has
    arrived is dispatched, in order, once and with its own body, as soon as the responses before
    it are acknowledged, up to the first whose body is too large, which is refused. -/
theorem requests_framed {ω : Type} (exec : ∀ {β : Type}, Call β → ω → β × ω) (fuel : Nat) (i : Slot)
    (rounds : 2 * HTTP_RX_BUF ≤ fuel) (requests : List Request) (formed : ∀ r ∈ requests, WellFormed r)
    (dispatched : ∀ r ∈ requests, ¬ r.Upgrades) (plain : ∀ r ∈ requests, Plain r) (w : Web) (accepted : Accepted (w.conns i))
    (world : ω) (inputs : List Input)
    (allowed : Machine.Meets (step @exec fuel i) (Allowed @exec fuel i fun g _ p => g.received ++ p <+: stream requests)
      { web := w, world } inputs)
    (fair : (inputs.foldl (step @exec fuel i) { web := w, world }).log.fair = true)
    (orderly : Orderly requests (inputs.foldl (step @exec fuel i) { web := w, world }).log) :
    let s := inputs.foldl (step @exec fuel i) { web := w, world }
    Framed requests s.log (s.web.conns i) := by
  intro s
  have start : (framing requests formed plain dispatched).ok [] [] (w.conns i) :=
    ⟨[], requests, rfl, .nil, by simp, by simp [stream, accepted.rx], by simp [accepted.rx], by simp [accepted.hdr_done]⟩
  have inv : Inv (framing requests formed plain dispatched) s.log (s.web.conns i) :=
    @run_good _ @exec fuel i (framing requests formed plain dispatched) _ (fun _ => rounds)
      (fun ⟨done, rest, reads⟩ _ within => ⟨done, rest, reads_arrived reads within⟩) w accepted start world inputs allowed fair
  exact framed_inv formed plain dispatched orderly inv

/-- A connection on which there is always room. -/
def roomy_run (inputs : List Input) : Peer Unit :=
  inputs.foldl (step @WsOutput.roomy (2 * HTTP_RX_BUF) ⟨0, Nat.zero_lt_two⟩) { web := accepted_web, world := () }

def save : Request where
  line := ascii "POST /api/save HTTP/1.1"
  fields := [{ name := ascii "Content-Length", value := ascii " 2" }]
  body := [123, 125]

def index : Request where
  line := ascii "GET / HTTP/1.1"
  fields := []
  body := []

theorem save_formed : WellFormed save where
  line := by decide
  name := by decide
  value := by decide
  length := .inr ⟨[], _, [], rfl, by decide, ⟨[32], [50], [], by decide, by decide, by decide, by decide, by decide, by decide⟩,
    by simp⟩
  method := by decide
  target := by decide

theorem save_plain : Plain save where
  get := by decide
  large := by decide
  first := by
    intro k here
    refine ⟨25, ⟨[], _, [], rfl, by decide, by decide⟩, Nat.not_lt.mp fun before => ?_⟩
    have none_before : ∀ k < 25, ((save.head.drop k).take length_key.length).map tolower ≠ length_key.map tolower := by
      decide
    exact none_before k before here.2

theorem index_formed : WellFormed index :=
  ⟨by decide, by decide, by decide, .inl ⟨by decide, rfl⟩, by decide, by decide⟩

theorem index_plain : Plain index where
  get := by decide
  large := by decide
  first := fun k here => absurd here.1 (Nat.not_lt.mpr (Nat.le_trans (by decide) (Nat.zero_le k)))

/-- The response is not a download. -/
def Asked.from_memory (e : Asked) : Bool :=
  match e.route with
  | .mem .. => true
  | .file .. => false

/-- Requests that all leave the connection open. -/
theorem orderly_kept {requests : List Request} {g : Log}
    (open_ : ∀ r ∈ requests, r.head.length + 4 < HTTP_RX_BUF ∧ r.closes = false)
    (no_file : g.asked.all Asked.from_memory = true) (unbroken : g.failed = false) : Orderly requests g where
  fits := fun r member => (open_ r member).1
  closes := fun before r later split closes => by
    rw [(open_ r (by simp [split])).2] at closes
    cases closes
  download := fun before e later size extra split file => by
    have mem := List.all_eq_true.mp no_file e (by simp [split])
    simp [Asked.from_memory, file] at mem
  unbroken := unbroken

/-- Two requests in two segments, of which the first ends in the header of the first request. -/
theorem requests_framed_segments :
    let s := roomy_run [.recv ((stream [save, index]).take 30), .recv ((stream [save, index]).drop 30), .sent 72, .sent 72]
    Framed [save, index] s.log (s.web.conns 0) ∧ s.log.asked.map Asked.body = [[123, 125], []] := by
  intro s
  have allowed : Machine.Meets (step @WsOutput.roomy (2 * HTTP_RX_BUF) 0)
      (Allowed @WsOutput.roomy (2 * HTTP_RX_BUF) 0 fun g _ p => g.received ++ p <+: stream [save, index])
      { web := accepted_web, world := () }
      [.recv ((stream [save, index]).take 30), .recv ((stream [save, index]).drop 30), .sent 72, .sent 72] := by
    refine ⟨?_, ?_, ?_, ?_, trivial⟩
    all_goals
      unfold Allowed
      decide +kernel
  have facts : (s.log.fair = true ∧ s.log.failed = false) ∧ s.log.asked.map Asked.body = [[123, 125], []] ∧
      s.log.asked.all Asked.from_memory = true := by decide +kernel
  obtain ⟨⟨fair, unbroken⟩, bodies, no_file⟩ := facts
  have orderly : Orderly [save, index] s.log := orderly_kept (by decide) no_file unbroken
  refine ⟨?_, bodies⟩
  refine requests_framed @WsOutput.roomy (2 * HTTP_RX_BUF) 0 (Nat.le_refl _) [save, index] ?_ ?_ ?_ accepted_web
    ⟨rfl, rfl, rfl, rfl, rfl⟩ () _ allowed fair orderly
  · simpa using ⟨save_formed, index_formed⟩
  · simp only [List.mem_cons, List.not_mem_nil, or_false, forall_eq_or_imp, forall_eq]
    unfold Request.Upgrades
    decide
  · simpa using ⟨save_plain, index_plain⟩

/-- The connection does not keep to the requests of a stream, none of which ends it. -/
structure Misframes (requests : List Request) (inputs : List Input) : Prop where
  formed : ∀ r ∈ requests, WellFormed r
  dispatched : ∀ r ∈ requests, ¬ r.Upgrades
  allowed : Machine.Meets (step @WsOutput.roomy (2 * HTTP_RX_BUF) 0)
    (Allowed @WsOutput.roomy (2 * HTTP_RX_BUF) 0 fun g _ p => g.received ++ p <+: stream requests)
    { web := accepted_web, world := () } inputs
  fair : (roomy_run inputs).log.fair = true
  orderly : Orderly requests (roomy_run inputs).log
  misread : ¬ Framed requests (roomy_run inputs).log ((roomy_run inputs).web.conns 0)

/-- The length of this body is 5 in 16 bits. -/
def truncated : Request where
  line := ascii "POST /api/do HTTP/1.1"
  fields := [{ name := ascii "Content-Length", value := ascii " 65541" }]
  body := List.replicate 65541 65

/-- The body is a request. -/
def smuggling : Request where
  line := ascii "GET / HTTP/1.1"
  fields := [{ name := ascii "Content-Length", value := ascii " 18" }]
  body := index_request

/-- No length is given, but the key is part of another name. -/
def renamed : Request where
  line := ascii "POST /api/save HTTP/1.1"
  fields := [{ name := ascii "X-Content-Length", value := ascii " 18" }]
  body := []

theorem asked_le {requests : List Request} {g : Log} {c : Conn} {done rest : List Request}
    (framed : FramedAt requests g c done rest) : g.asked.length ≤ requests.length := by
  rw [← framed.asked.length_eq, framed.split, List.length_append]
  exact Nat.le_add_right _ _

theorem truncated_formed : WellFormed truncated where
  line := by decide
  name := by decide
  value := by decide
  length := by
    refine .inr ⟨[], _, [], rfl, by decide, ⟨[32], ascii "65541", [], by decide, by decide, by decide, by decide, by decide, ?_⟩,
      by simp⟩
    rw [truncated, List.length_replicate]
    decide
  method := by decide
  target := by decide

/-- The request is dispatched, though its body is too large. -/
theorem truncated_misframes : Misframes [truncated] [.recv (truncated.head ++ (blank_line ++ List.replicate 5 65))] := by
  have dispatched : (roomy_run [.recv (truncated.head ++ (blank_line ++ List.replicate 5 65))]).log.asked.length = 1 := by
    decide +kernel
  refine ⟨by simpa using truncated_formed, ?_, ⟨⟨rfl, by decide +kernel, ?_⟩, trivial⟩, by decide +kernel,
    orderly_kept (by decide +kernel) (by decide +kernel) (by decide +kernel), ?_⟩
  · simp only [List.mem_singleton, forall_eq]
    unfold Request.Upgrades
    decide
  · refine ⟨List.replicate 65536 65, ?_⟩
    show truncated.head ++ (blank_line ++ List.replicate 5 65) ++ List.replicate 65536 65 = stream [truncated]
    rw [stream_cons, Request.bytes, List.append_assoc, List.append_assoc, List.replicate_append_replicate]
    exact (List.append_nil _).symm
  · rintro ⟨done, rest, framed⟩
    have count := framed.asked.length_eq
    rw [dispatched] at count
    obtain ⟨r, rfl⟩ := List.length_eq_one_iff.mp count
    obtain rfl : truncated = r := (List.cons.inj framed.split).1
    have small := framed.small truncated (by simp)
    have size : truncated.body.length = 65541 := List.length_replicate
    omega

theorem smuggling_formed : WellFormed smuggling where
  line := by decide
  name := by decide
  value := by decide
  length := .inr ⟨[], _, [], rfl, by decide, ⟨[32], ascii "18", [], by decide, by decide, by decide, by decide, by decide, by decide⟩,
    by simp⟩
  method := by decide
  target := by decide

/-- The body is dispatched as another request. -/
theorem smuggling_misframes : Misframes [smuggling] [.recv smuggling.bytes, .sent 72] := by
  have dispatched : (roomy_run [.recv smuggling.bytes, .sent 72]).log.asked.length = 2 := by decide +kernel
  refine ⟨by simpa using smuggling_formed, ?_, ⟨⟨rfl, by decide +kernel, ?_⟩, ?_, trivial⟩, by decide +kernel,
    orderly_kept (by decide +kernel) (by decide +kernel) (by decide +kernel), ?_⟩
  · simp only [List.mem_singleton, forall_eq]
    unfold Request.Upgrades
    decide
  · exact ⟨[], by simp [stream]⟩
  · unfold Allowed
    decide +kernel
  · rintro ⟨done, rest, framed⟩
    have count := asked_le framed
    rw [dispatched] at count
    simp at count

theorem renamed_formed : WellFormed renamed :=
  ⟨by decide, by decide, by decide, .inl ⟨by decide, rfl⟩, by decide, by decide⟩

/-- The next request is dispatched as the body of this one. -/
theorem renamed_misframes : Misframes [renamed, index] [.recv (stream [renamed, index])] := by
  have dispatched : (roomy_run [.recv (stream [renamed, index])]).log.asked.map Asked.body = [index_request] := by decide +kernel
  refine ⟨by simpa using ⟨renamed_formed, index_formed⟩, ?_, ⟨⟨rfl, by decide +kernel, ?_⟩, trivial⟩, by decide +kernel,
    orderly_kept (by decide +kernel) (by decide +kernel) (by decide +kernel), ?_⟩
  · simp only [List.mem_cons, List.not_mem_nil, or_false, forall_eq_or_imp, forall_eq]
    unfold Request.Upgrades
    decide
  · exact List.prefix_rfl
  · rintro ⟨done, rest, framed⟩
    have asked := framed.asked
    obtain ⟨e, log, body⟩ := List.map_eq_singleton_iff.mp dispatched
    rw [log] at asked
    cases asked with
    | @cons r _ done _ asks _ =>
      obtain rfl : renamed = r := (List.cons.inj framed.split).1
      have empty := asks.body
      rw [body] at empty
      simp [renamed, index_request, ascii] at empty

/-- A length that loses its upper bits, a body that is left in the buffer, and a key in the name
    of another field. -/
theorem lengths_misread :
    Misframes [truncated] [.recv (truncated.head ++ (blank_line ++ List.replicate 5 65))] ∧
      Misframes [smuggling] [.recv smuggling.bytes, .sent 72] ∧
      Misframes [renamed, index] [.recv (stream [renamed, index])] :=
  ⟨truncated_misframes, smuggling_misframes, renamed_misframes⟩

end IoEdgeHub.HttpFraming
