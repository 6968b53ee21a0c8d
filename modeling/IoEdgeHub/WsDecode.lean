import IoEdgeHub.Httpd
import Mathlib.Data.List.TakeWhile

/-!
What the receive machine of the WebSocket session makes of the frames of a client. The
loop of `ws_feed` is taken over any way of handling a finished frame, so that the frames
it finishes can be recorded. Frames with a payload come out one by one, however the stream
is cut; a frame without one is never finished, and swallows what follows.
-/
namespace IoEdgeHub.WsDecode
open IoEdgeHub.Bytes IoEdgeHub.Calls IoEdgeHub.Ws IoEdgeHub.Httpd
universe u

section
variable {m : Type → Type u} [Monad m] (done close : Web → m Web)

/-- The loop of `ws_feed` with `done` for `ws_frame_done` and `close` for `ws_close_session`. -/
def feed_loop (w : Web) : List UInt8 → m Web
  | [] => pure w
  | b :: data =>
    if ¬ w.ws.active then pure w
    else
      match ws_byte w.ws.rx b with
      | (.next, rx) => feed_loop (w.setRx rx) data
      | (.close, rx) => close (w.setRx rx)
      | (.frame_done, rx) => do
        let w ← done (w.setRx rx)
        if ¬ w.ws.active then pure w
        else feed_loop (w.setRx { w.ws.rx with state := .WS_HDR, hdr := [] }) data

end

theorem ws_feed_eq (w : Web) (data : List UInt8) :
    ws_feed w data = feed_loop ws_frame_done ws_close_session w data := by
  induction data generalizing w with
  | nil => rfl
  | cons b data ih =>
    rw [ws_feed, feed_loop]
    refine if_congr Iff.rfl rfl ?_
    rcases ws_byte w.ws.rx b with ⟨event, rx⟩
    cases event with
    | next => exact ih _
    | close => rfl
    | frame_done => simp only [ih]

/-- The calls of `ws_frame_done`, by the opcode and the payload they find. -/
abbrev Log := List (UInt8 × List UInt8)

/-- `ws_frame_done`, written down before it runs. -/
def record (w : Web) : StateT Log (Prog Call) Web := do
  modify (· ++ [(w.ws.rx.op, w.ws.rx.payload)])
  ws_frame_done w

def shut (w : Web) : StateT Log (Prog Call) Web := ws_close_session w

/-- `ws_feed` for each of the pieces, with the calls of `ws_frame_done` written down. -/
def feed_pieces (w : Web) (pieces : List (List UInt8)) : StateT Log (Prog Call) Web :=
  pieces.foldlM (feed_loop record shut) w

/-- The calls of `ws_frame_done` while the session is fed the given pieces, one after the other. -/
def invocations {σ : Type} (exec : ∀ {β : Type}, Call β → σ → β × σ) (s : σ) (w : Web)
    (pieces : List (List UInt8)) : Log :=
  (((feed_pieces w pieces).run []).run @exec s).1.2

/-! ### The frames of a client -/

/-- The width of the length field. -/
inductive LenEnc | bits7 | bits16 | bits64

/-- A final frame: text, binary, ping or pong. -/
structure ClientFrame where
  opcode : UInt8
  known : opcode = 0x1 ∨ opcode = 0x2 ∨ opcode = 0x9 ∨ opcode = 0xA
  enc : LenEnc
  key : Option { k : List UInt8 // k.length = 4 }
  payload : List UInt8
  fits : payload.length ≤ WS_RX_MAX
  legal : enc = .bits7 → payload.length < 126

namespace ClientFrame
variable (f : ClientFrame)

/-- The length as the second byte gives it. -/
def len7 : Nat :=
  match f.enc with
  | .bits7 => f.payload.length
  | .bits16 => 126
  | .bits64 => 127

/-- The length behind the second byte. -/
def extended : List UInt8 :=
  match f.enc with
  | .bits7 => []
  | .bits16 => io_put_be16 f.payload.length
  | .bits64 => (List.range 8).map fun i => UInt8.ofNat (f.payload.length / 2^(56 - 8 * i))

def keyBytes : List UInt8 := (f.key.map Subtype.val).getD []

/-- A byte of the payload with its mask. -/
def masked (i : Nat) (b : UInt8) : UInt8 := if f.key.isSome then b ^^^ f.keyBytes.getD (i % 4) 0 else b

def first : UInt8 := 0x80 ||| f.opcode

def second : UInt8 := UInt8.ofNat ((if f.key.isSome then 128 else 0) + f.len7)

def bytes : List UInt8 := f.first :: f.second :: (f.extended ++ f.keyBytes ++ f.payload.mapIdx f.masked)

/-- The machine behind the length. -/
def sized : Rx :=
  { state := if f.key.isSome then .WS_MASK else .WS_PAYLOAD, hdr := [], op := f.opcode, fin := true,
    masked := f.key.isSome, mask := [], plen := f.payload.length, payload := [] }

/-- The machine with the given part of the payload. -/
def reading (got : List UInt8) : Rx :=
  { state := .WS_PAYLOAD, hdr := [], op := f.opcode, fin := true, masked := f.key.isSome, mask := f.keyBytes,
    plen := f.payload.length, payload := got }

end ClientFrame

/-- The machine takes the bytes one by one and finishes nothing. -/
def Takes : Rx → List UInt8 → Rx → Prop
  | rx, [], rx' => rx = rx'
  | rx, b :: data, rx' => ∃ next, ws_byte rx b = (.next, next) ∧ Takes next data rx'

theorem takes_append {rx rx' rx'' : Rx} {first second : List UInt8} (one : Takes rx first rx')
    (two : Takes rx' second rx'') : Takes rx (first ++ second) rx'' := by
  induction first generalizing rx with
  | nil =>
    obtain rfl : rx = rx' := one
    exact two
  | cons b data ih =>
    obtain ⟨next, byte, rest⟩ := one
    exact ⟨next, byte, ih rest⟩

/-- Between two frames. -/
def Boundary (rx : Rx) : Prop := rx.state = .WS_HDR ∧ rx.hdr = []

section
variable (f : ClientFrame)

theorem len7_le : f.len7 ≤ 127 := by
  unfold ClientFrame.len7
  cases enc : f.enc with
  | bits7 =>
    have short := f.legal enc
    simp only
    omega
  | bits16 => simp
  | bits64 => simp

theorem first_byte : 128 ≤ f.first.toNat ∧ UInt8.ofNat (f.first.toNat % 16) = f.opcode := by
  unfold ClientFrame.first
  rcases f.known with known | known | known | known <;> rw [known] <;> decide

theorem second_byte : (128 ≤ f.second.toNat ↔ f.key.isSome = true) ∧ f.second.toNat % 128 = f.len7 := by
  have short := len7_le f
  unfold ClientFrame.second
  rw [UInt8.toNat_ofNat']
  cases f.key.isSome <;> simp <;> omega

/-- The machine behind the first two bytes, before the length is looked at. -/
def opened (rx : Rx) : Rx :=
  { rx with fin := true, op := f.opcode, masked := f.key.isSome, plen := f.len7, payload := [], hdr := [] }

/-- The first two bytes. -/
theorem ws_byte_opened {rx : Rx} (boundary : Boundary rx) :
    ws_byte rx f.first = (.next, { rx with hdr := [f.first] }) ∧
      ws_byte { rx with hdr := [f.first] } f.second =
        if f.len7 = 126 then (.next, { opened f rx with state := .WS_LEN16 })
        else if f.len7 = 127 then (.next, { opened f rx with state := .WS_LEN64 })
        else (opened f rx).sized f.len7 := by
  obtain ⟨state, hdr⟩ := boundary
  obtain ⟨final, opcode⟩ := first_byte f
  obtain ⟨masked, plen⟩ := second_byte f
  constructor
  · simp [ws_byte, state, hdr]
  · simp only [ws_byte, state, byteAt, List.cons_append, List.nil_append, List.length_cons, List.length_nil,
      List.getD_cons_zero, List.getD_cons_succ, Nat.lt_irrefl, if_false, opcode, masked, plen, final, opened,
      decide_true, Bool.decide_eq_true]

theorem opened_sized (rx : Rx) (state : RxState) (hdr : List UInt8) :
    ({ opened f rx with state, hdr } : Rx).sized f.payload.length = (.next, f.sized) := by
  have fits := f.fits
  unfold Rx.sized
  rw [if_neg (by omega)]
  rfl

theorem takes_len16 {rx rx' : Rx} (state : rx.state = .WS_LEN16) (hdr : rx.hdr = []) {a b : UInt8}
    (sized : ({ rx with hdr := [a] } : Rx).sized (io_get_be16 [a, b]) = (.next, rx')) : Takes rx [a, b] rx' := by
  refine ⟨{ rx with hdr := [a] }, by simp [ws_byte, state, hdr], rx', ?_, rfl⟩
  simpa [ws_byte, state] using sized

/-- All but the last byte of a 64 bit length. -/
theorem takes_collect {rx : Rx} (state : rx.state = .WS_LEN64) {part : List UInt8}
    (short : (rx.hdr ++ part).length < 8) : Takes rx part { rx with hdr := rx.hdr ++ part } := by
  induction part generalizing rx with
  | nil => simp [Takes]
  | cons b part ih =>
    have more : ¬ (rx.hdr ++ [b]).length = 8 := by
      simp only [List.length_append, List.length_cons, List.length_nil] at short ⊢
      omega
    refine ⟨{ rx with hdr := rx.hdr ++ [b] }, by simp only [ws_byte, state, if_neg more], ?_⟩
    simpa using @ih { rx with hdr := rx.hdr ++ [b] } state (by simpa using short)

theorem takes_len64 {rx rx' : Rx} (state : rx.state = .WS_LEN64) (hdr : rx.hdr = []) {part : List UInt8} {b : UInt8}
    (seven : part.length = 7)
    (sized : ({ rx with hdr := part } : Rx).sized (io_get_be64 (part ++ [b])) = (.next, rx')) :
    Takes rx (part ++ [b]) rx' := by
  have first := @takes_collect _ state part (by simp [hdr, seven])
  rw [hdr, List.nil_append] at first
  refine takes_append first ⟨rx', ?_, rfl⟩
  simpa [ws_byte, state, seven] using sized

/-- The low word of a number out of its bytes. -/
theorem four_bytes (n : Nat) :
    n / 2^24 % 2^8 * 2^24 + n / 2^16 % 2^8 * 2^16 + n / 2^8 % 2^8 * 2^8 + n % 2^8 = n % 2^32 := by
  omega

theorem io_get_put_be64 {n : Nat} (small : n < 2^64) :
    io_get_be64 ((List.range 8).map fun i => UInt8.ofNat (n / 2^(56 - 8 * i))) = n := by
  have whole : n / 2^32 % 2^32 * 2^32 + n % 2^32 = n := by omega
  have high := four_bytes (n / 2^32)
  have low := four_bytes n
  simp only [Nat.div_div_eq_div_mul, Nat.reducePow, Nat.reduceMul] at high low
  simp only [io_get_be64, io_get_be32, byteAt, List.range, List.range.loop, List.map, List.drop, List.getD_cons_zero,
    List.getD_cons_succ, UInt8.toNat_ofNat', Nat.reducePow, Nat.reduceMul, Nat.reduceSub, Nat.div_one, high, low]
  exact whole

/-- The length field, whatever its width. -/
theorem takes_length {rx : Rx} (boundary : Boundary rx) : Takes rx (f.first :: f.second :: f.extended) f.sized := by
  obtain ⟨first, second⟩ := ws_byte_opened f boundary
  have fits := f.fits
  cases enc : f.enc with
  | bits7 =>
    have short := f.legal enc
    have len7 : f.len7 = f.payload.length := by simp [ClientFrame.len7, enc]
    have none_ : f.extended = [] := by simp [ClientFrame.extended, enc]
    rw [len7, if_neg (by omega), if_neg (by omega)] at second
    rw [none_]
    exact ⟨_, first, _, second.trans (opened_sized f rx rx.state []), rfl⟩
  | bits16 =>
    have len7 : f.len7 = 126 := by simp [ClientFrame.len7, enc]
    have two : f.extended = io_put_be16 f.payload.length := by simp [ClientFrame.extended, enc]
    have whole := io_get_put_be16 f.payload.length []
    rw [List.append_nil, Nat.mod_eq_of_lt (by unfold WS_RX_MAX at fits; omega)] at whole
    rw [len7, if_pos rfl] at second
    rw [two]
    refine ⟨_, first, _, second, takes_len16 rfl rfl ?_⟩
    rw [← io_put_be16, whole]
    exact opened_sized f rx _ _
  | bits64 =>
    have len7 : f.len7 = 127 := by simp [ClientFrame.len7, enc]
    have eight : f.extended = (List.range 7).map (fun i => UInt8.ofNat (f.payload.length / 2^(56 - 8 * i))) ++
        [UInt8.ofNat f.payload.length] := by
      simp [ClientFrame.extended, enc, List.range_succ]
    have whole := @io_get_put_be64 f.payload.length (by unfold WS_RX_MAX at fits; omega)
    have last : f.extended = (List.range 8).map fun i => UInt8.ofNat (f.payload.length / 2^(56 - 8 * i)) := by
      simp [ClientFrame.extended, enc]
    rw [← last, eight] at whole
    rw [len7, if_neg (by decide), if_pos rfl] at second
    rw [eight]
    refine ⟨_, first, _, second, takes_len64 rfl rfl (by simp) ?_⟩
    rw [whole]
    exact opened_sized f rx _ _

/-- The masking key, if there is one. -/
theorem takes_key : Takes f.sized f.keyBytes (f.reading []) := by
  cases key : f.key with
  | none =>
    have none_ : f.keyBytes = [] := by simp [ClientFrame.keyBytes, key]
    rw [none_]
    simp [Takes, ClientFrame.sized, ClientFrame.reading, key, none_]
  | some k =>
    obtain ⟨k, four⟩ := k
    have some_ : f.keyBytes = k := by simp [ClientFrame.keyBytes, key]
    obtain ⟨a, b, c, d, rfl⟩ : ∃ a b c d, k = [a, b, c, d] := by
      match k, four with
      | [a, b, c, d], _ => exact ⟨a, b, c, d, rfl⟩
    rw [some_]
    simp [Takes, ws_byte, ClientFrame.sized, ClientFrame.reading, key, some_]

/-- A byte of the payload. -/
theorem ws_byte_payload {got : List UInt8} {b : UInt8} (room : got.length < WS_RX_MAX) :
    ws_byte (f.reading got) (f.masked got.length b) =
      (if got.length + 1 = f.payload.length then .frame_done else .next, f.reading (got ++ [b])) := by
  have plain : (if (f.reading got).masked then
      f.masked got.length b ^^^ (f.reading got).mask.getD ((f.reading got).payload.length % 4) 0
      else f.masked got.length b) = b := by
    change (if f.key.isSome then f.masked got.length b ^^^ f.keyBytes.getD (got.length % 4) 0
      else f.masked got.length b) = b
    unfold ClientFrame.masked
    split
    · rw [UInt8.xor_assoc, UInt8.xor_self, UInt8.xor_zero]
    · rfl
  have open_ : ¬ (f.reading got).payload.length ≥ WS_RX_MAX := by
    change ¬ got.length ≥ WS_RX_MAX
    omega
  have state : (f.reading got).state = .WS_PAYLOAD := rfl
  simp only [ws_byte, state]
  rw [if_neg open_, plain]
  simp only [ClientFrame.reading, List.length_append, List.length_singleton]

/-- All of the payload but its last byte. -/
theorem takes_payload (got part : List UInt8) (short : got.length + part.length < f.payload.length) :
    Takes (f.reading got) (part.mapIdx fun i b => f.masked (got.length + i) b) (f.reading (got ++ part)) := by
  have fits := f.fits
  induction part generalizing got with
  | nil => simp [Takes]
  | cons b part ih =>
    rw [List.length_cons] at short
    rw [List.mapIdx_cons]
    refine ⟨f.reading (got ++ [b]), ?_, ?_⟩
    · rw [Nat.add_zero, ws_byte_payload f (by omega), if_neg (by omega)]
    · have rest := ih (got ++ [b]) (by simp; omega)
      simpa [Nat.add_assoc, Nat.add_comm 1] using rest

/-- A frame with a payload: its last byte finishes it. -/
theorem takes_frame {rx : Rx} (boundary : Boundary rx) (full : f.payload ≠ []) :
    ∃ front last rx', f.bytes = front ++ [last] ∧ Takes rx front rx' ∧
      ws_byte rx' last = (.frame_done, f.reading f.payload) := by
  obtain ⟨part, b, split⟩ := List.eq_nil_or_concat f.payload |>.resolve_left full
  have fits := f.fits
  rw [List.concat_eq_append] at split
  have size : f.payload.length = part.length + 1 := by simp [split]
  have body := takes_payload f [] part (by simp [size])
  simp only [List.length_nil, Nat.zero_add, List.nil_append] at body
  refine ⟨f.first :: f.second :: (f.extended ++ f.keyBytes ++ part.mapIdx f.masked), f.masked part.length b,
    f.reading part, ?_, ?_, ?_⟩
  · simp [ClientFrame.bytes, split, List.mapIdx_append]
  · exact takes_append (takes_append (takes_length f boundary) (takes_key f)) body
  · rw [ws_byte_payload f (by omega), if_pos (by omega), ← split]

/-- A frame without a payload: the machine waits for a first byte of it. -/
theorem takes_empty {rx : Rx} (boundary : Boundary rx) (empty : f.payload = []) : Takes rx f.bytes (f.reading []) := by
  have front := takes_append (takes_length f boundary) (takes_key f)
  simpa [ClientFrame.bytes, empty] using front

end

section
variable {m : Type → Type u} [Monad m] {done close : Web → m Web} {w : Web}

@[simp] theorem setRx_active (rx : Rx) : (w.setRx rx).ws.active = w.ws.active := rfl

@[simp] theorem setRx_rx (rx : Rx) : (w.setRx rx).ws.rx = rx := rfl

@[simp] theorem setRx_setRx (rx rx' : Rx) : (w.setRx rx).setRx rx' = w.setRx rx' := rfl

theorem feed_inactive (shut : w.ws.active = false) (data : List UInt8) : feed_loop done close w data = pure w := by
  cases data with
  | nil => rfl
  | cons b data => simp [feed_loop, shut]

theorem feed_takes (active : w.ws.active = true) {data : List UInt8} {rx' : Rx} (takes : Takes w.ws.rx data rx')
    (rest : List UInt8) : feed_loop done close w (data ++ rest) = feed_loop done close (w.setRx rx') rest := by
  induction data generalizing w with
  | nil =>
    obtain rfl : w.ws.rx = rx' := takes
    rfl
  | cons b data ih =>
    obtain ⟨next, byte, takes⟩ := takes
    have step := @ih (w.setRx next) active takes
    simp only [List.cons_append, feed_loop, active, not_true_eq_false, if_false, byte]
    exact step

theorem feed_done (active : w.ws.active = true) {b : UInt8} {rx' : Rx} (byte : ws_byte w.ws.rx b = (.frame_done, rx'))
    (rest : List UInt8) :
    feed_loop done close w (b :: rest) = (do
      let w ← done (w.setRx rx')
      if ¬ w.ws.active then pure w
      else feed_loop done close (w.setRx { w.ws.rx with state := .WS_HDR, hdr := [] }) rest) := by
  simp only [feed_loop, active, not_true_eq_false, if_false, byte]

end

/-! ### Runs -/

section
variable {σ : Type} (exec : ∀ {β : Type}, Call β → σ → β × σ)

/-- The session, the log and the world behind the calls, after one `ws_feed`. -/
def fed (w : Web) (log : Log) (s : σ) (data : List UInt8) : (Web × Log) × σ :=
  ((feed_loop record shut w data).run log).run @exec s

/-- Ready for the next frame. -/
def ready (w : Web) : Web := w.setRx { w.ws.rx with state := .WS_HDR, hdr := [] }

variable {exec} {w : Web} {log : Log} {s : σ}

theorem run_record : ((record w).run log).run @exec s =
    ((((ws_frame_done w).run @exec s).1, log ++ [(w.ws.rx.op, w.ws.rx.payload)]),
      ((ws_frame_done w).run @exec s).2) := by
  simp [record]

theorem run_shut : ((shut w).run log).run @exec s =
    ((((ws_close_session w).run @exec s).1, log), ((ws_close_session w).run @exec s).2) := by
  simp [shut]

theorem leave_inactive (i : Slot) (inactive : w.ws.active = false) : (leave_ws i w).ws.active = false := by
  unfold leave_ws
  split
  · rfl
  · exact inactive

theorem conn_close_inactive (i : Slot) (inactive : w.ws.active = false) :
    (conn_close i w).Wp (fun _ => True) fun w' => w'.ws.active = false := by
  have left := leave_inactive i inactive
  simp [conn_close, call, Web.set, left]

theorem close_session_wp : (ws_close_session w).Wp (fun _ => True) fun w' => w'.ws.active = false := by
  unfold ws_close_session ws_closed_cb
  split
  · split
    · rfl
    · exact conn_close_inactive _ rfl
  · rename_i inactive
    exact eq_false_of_ne_true inactive

/-- Once closed, the session is not active. -/
theorem close_session_inactive : ((ws_close_session w).run @exec s).1.ws.active = false :=
  run_wp close_session_wp s

theorem fed_inactive (inactive : w.ws.active = false) (data : List UInt8) : fed @exec w log s data = ((w, log), s) := by
  simp [fed, feed_inactive inactive]

theorem fed_takes (active : w.ws.active = true) {data : List UInt8} {rx' : Rx} (takes : Takes w.ws.rx data rx')
    (rest : List UInt8) : fed @exec w log s (data ++ rest) = fed @exec (w.setRx rx') log s rest := by
  unfold fed
  rw [feed_takes active takes]

theorem fed_done (active : w.ws.active = true) {b : UInt8} {rx : Rx} (byte : ws_byte w.ws.rx b = (.frame_done, rx))
    (data : List UInt8) :
    fed @exec w log s (b :: data) =
      let w' := ((ws_frame_done (w.setRx rx)).run @exec s).1
      let s' := ((ws_frame_done (w.setRx rx)).run @exec s).2
      if w'.ws.active then fed @exec (ready w') (log ++ [(rx.op, rx.payload)]) s' data
      else ((w', log ++ [(rx.op, rx.payload)]), s') := by
  unfold fed
  rw [feed_done active byte]
  simp only [StateT.run_bind, run_bind, run_record, setRx_rx]
  split <;> simp [ready, *]

theorem fed_next (active : w.ws.active = true) {b : UInt8} {rx : Rx} (byte : ws_byte w.ws.rx b = (.next, rx))
    (data : List UInt8) : fed @exec w log s (b :: data) = fed @exec (w.setRx rx) log s data := by
  simp only [fed, feed_loop, active, not_true_eq_false, if_false, byte]

theorem fed_close (active : w.ws.active = true) {b : UInt8} {rx : Rx} (byte : ws_byte w.ws.rx b = (.close, rx))
    (data : List UInt8) :
    fed @exec w log s (b :: data) =
      ((((ws_close_session (w.setRx rx)).run @exec s).1, log), ((ws_close_session (w.setRx rx)).run @exec s).2) := by
  simp only [fed, feed_loop, active, not_true_eq_false, if_false, byte, run_shut]

/-- Without the log it is `ws_feed`. -/
theorem fed_ws_feed (data : List UInt8) :
    (ws_feed w data).run @exec s = ((fed @exec w log s data).1.1, (fed @exec w log s data).2) := by
  rw [ws_feed_eq]
  induction data generalizing w log s with
  | nil => rfl
  | cons b data ih =>
    cases active : w.ws.active with
    | false => simp [fed_inactive active, feed_inactive active]
    | true =>
      rcases byte : ws_byte w.ws.rx b with ⟨event, rx⟩
      cases event with
      | next =>
        rw [fed_next active byte, ← ih]
        simp only [feed_loop, active, not_true_eq_false, if_false, byte]
      | close =>
        rw [fed_close active byte]
        simp only [feed_loop, active, not_true_eq_false, if_false, byte]
      | frame_done =>
        rw [fed_done active byte, feed_done active byte, run_bind]
        by_cases going : ((ws_frame_done (w.setRx rx)).run @exec s).1.ws.active = true
        · rw [if_neg (not_not.mpr going), if_pos going]
          exact ih
        · rw [if_pos going, if_neg going]
          rfl

/-- A whole piece and its two parts. -/
theorem fed_append (first second : List UInt8) :
    fed @exec w log s (first ++ second) =
      fed @exec (fed @exec w log s first).1.1 (fed @exec w log s first).1.2 (fed @exec w log s first).2 second := by
  induction first generalizing w log s with
  | nil => rfl
  | cons b first ih =>
    cases active : w.ws.active with
    | false => simp only [fed_inactive active]
    | true =>
      rcases byte : ws_byte w.ws.rx b with ⟨event, rx⟩
      cases event with
      | next =>
        rw [List.cons_append, fed_next active byte, fed_next active byte]
        exact ih
      | close =>
        rw [List.cons_append, fed_close active byte, fed_close active byte]
        rw [fed_inactive close_session_inactive]
      | frame_done =>
        rw [List.cons_append, fed_done active byte, fed_done active byte]
        dsimp only
        split
        · exact ih
        · rename_i inactive
          rw [fed_inactive (eq_false_of_ne_true inactive)]

theorem run_feed_pieces (pieces : List (List UInt8)) :
    ((feed_pieces w pieces).run log).run @exec s = fed @exec w log s pieces.flatten := by
  induction pieces generalizing w log s with
  | nil => rfl
  | cons data pieces ih =>
    rw [List.flatten_cons, fed_append, ← ih]
    simp [feed_pieces, fed]

/-- Without the log the pieces are given to `ws_feed`. -/
theorem run_ws_feed (pieces : List (List UInt8)) :
    (pieces.foldlM ws_feed w).run @exec s =
      (let run := ((feed_pieces w pieces).run log).run @exec s; (run.1.1, run.2)) := by
  induction pieces generalizing w log s with
  | nil => rfl
  | cons data pieces ih =>
    have first := @fed_ws_feed _ @exec w log s data
    have rest := @ih (fed @exec w log s data).1.1 (fed @exec w log s data).1.2 (fed @exec w log s data).2
    rw [List.foldlM_cons, run_bind, first, rest]
    simp only [run_feed_pieces, List.flatten_cons, fed_append]

/-- A frame of one of the four kinds leaves the session as it is. -/
theorem frame_done_keeps (final : w.ws.rx.fin = true)
    (known : w.ws.rx.op = 0x1 ∨ w.ws.rx.op = 0x2 ∨ w.ws.rx.op = 0x9 ∨ w.ws.rx.op = 0xA) :
    ((ws_frame_done w).run @exec s).1 = w := by
  unfold ws_frame_done
  rcases known with op | op | op | op
  · simp only [final, op, not_true_eq_false, if_false, if_true]
    split
    · rw [run_bind]
      split <;> simp
    · rfl
  all_goals simp [final, op]

/-- A frame with a payload is reported, and the session is ready for the next. -/
theorem fed_frame (f : ClientFrame) (active : w.ws.active = true) (boundary : Boundary w.ws.rx)
    (full : f.payload ≠ []) :
    ∃ w' s', w'.ws.active = true ∧ Boundary w'.ws.rx ∧
      ∀ rest, fed @exec w log s (f.bytes ++ rest) = fed @exec w' (log ++ [(f.opcode, f.payload)]) s' rest := by
  obtain ⟨front, last, rx', split, takes, byte⟩ := takes_frame f boundary full
  have kept : ((ws_frame_done (w.setRx (f.reading f.payload))).run @exec s).1 = w.setRx (f.reading f.payload) :=
    frame_done_keeps rfl f.known
  refine ⟨ready (w.setRx (f.reading f.payload)), ((ws_frame_done (w.setRx (f.reading f.payload))).run @exec s).2,
    active, ⟨rfl, rfl⟩, fun rest => ?_⟩
  rw [split, List.append_assoc, fed_takes active takes, List.singleton_append]
  rw [fed_done (w := w.setRx rx') active byte]
  simp only [setRx_setRx, kept, setRx_active, active, if_true]
  rfl

/-- Behind a frame without a payload nothing is reported any more. -/
theorem fed_stuck (payload : w.ws.rx.state = .WS_PAYLOAD) (empty : w.ws.rx.plen = 0) (data : List UInt8) :
    (fed @exec w log s data).1.2 = log := by
  induction data generalizing w with
  | nil => rfl
  | cons b data ih =>
    cases active : w.ws.active with
    | false => rw [fed_inactive active]
    | true =>
      by_cases room : w.ws.rx.payload.length ≥ WS_RX_MAX
      · have byte : ws_byte w.ws.rx b = (.close, w.ws.rx) := by simp only [ws_byte, payload, if_pos room]
        rw [fed_close active byte]
      · obtain ⟨rx, byte, same⟩ :
            ∃ rx, ws_byte w.ws.rx b = (.next, rx) ∧ rx.state = .WS_PAYLOAD ∧ rx.plen = 0 := by
          simp only [ws_byte, payload, if_neg room, empty, List.length_append, List.length_singleton]
          exact ⟨_, rfl, rfl, rfl⟩
        rw [fed_next active byte]
        exact @ih (w.setRx rx) same.1 same.2

/-- What is reported of a stream of frames: those before the first without a payload. -/
theorem fed_frames (frames : List ClientFrame) (active : w.ws.active = true) (boundary : Boundary w.ws.rx) :
    (fed @exec w log s (frames.flatMap ClientFrame.bytes)).1.2 =
      log ++ (frames.takeWhile (fun f => f.payload ≠ [])).map fun f => (f.opcode, f.payload) := by
  induction frames generalizing w log s with
  | nil => exact (List.append_nil log).symm
  | cons f frames ih =>
    rw [List.flatMap_cons]
    by_cases empty : f.payload = []
    · rw [fed_takes active (takes_empty f boundary empty)]
      rw [fed_stuck rfl (by simp [ClientFrame.reading, empty])]
      simp [empty]
    · obtain ⟨w', s', active', boundary', step⟩ := @fed_frame _ @exec w log s f active boundary empty
      rw [step, ih active' boundary']
      simp [empty]

end

theorem takeWhile_map_eq {α β : Type} {p : α → Bool} {f : α → β} {l : List α} :
    (l.takeWhile p).map f = l.map f ↔ ∀ a ∈ l, p a := by
  constructor
  · intro same
    have length := congrArg List.length same
    rw [List.length_map, List.length_map] at length
    exact List.takeWhile_eq_self_iff.mp ((List.takeWhile_prefix p).eq_of_length length)
  · intro all
    rw [List.takeWhile_eq_self_iff.mpr all]

/-- However the frames are cut, `ws_frame_done` is called for each of them, in order and with its
    payload, exactly when none of them is empty. The calls are those that `ws_feed` makes of the
    pieces: but for the list of them it comes to the same session and world. -/
theorem invocations_eq_iff {σ : Type} (exec : ∀ {β : Type}, Call β → σ → β × σ) (s : σ) (w : Web)
    (active : w.ws.active = true) (boundary : Boundary w.ws.rx) (frames : List ClientFrame) (pieces : List (List UInt8))
    (cut : pieces.flatten = frames.flatMap ClientFrame.bytes) :
    (invocations @exec s w pieces = frames.map (fun f => (f.opcode, f.payload)) ↔ ∀ f ∈ frames, f.payload ≠ []) ∧
      (pieces.foldlM ws_feed w).run @exec s =
        (let run := ((feed_pieces w pieces).run []).run @exec s; (run.1.1, run.2)) := by
  refine ⟨?_, run_ws_feed pieces⟩
  unfold invocations
  rw [run_feed_pieces, cut, fed_frames frames active boundary, List.nil_append, takeWhile_map_eq]
  simp

/-- A world without a clock, without routes and without room to send. -/
def deaf {β : Type} (c : Call β) (s : Unit) : β × Unit :=
  (match c with
   | .accepted .. | .attached .. | .tcp_output .. | .tcp_close .. | .tcp_abort => ()
   | .history_web_close | .fw_upg_write .. => ()
   | .tcp_sndbuf .. | .tcp_mss .. => 0
   | .tcp_write .. => .ERR_MEM
   | .now_ms => 0
   | .behind_rx .. | .web_build_io_json | .web_build_regs_json | .web_build_info_json => []
   | .dispatch .. => .mem [] [] [] []
   | .history_web_read .. | .ws_handle_cmd .. => none, s)

/-- A session on the first connection. -/
def session : Web :=
  let first : Slot := ⟨0, Nat.zero_lt_two⟩
  { conns := fun i => if i = first then { pcb := true, is_ws := true } else {},
    ws := { active := true, pcb := some first }, ws_conn := some first }

def ping (payload : List UInt8) (short : payload.length < 126) : ClientFrame :=
  { opcode := 0x9, known := by decide, enc := .bits7, key := some ⟨[1, 2, 3, 4], rfl⟩, payload,
    fits := by unfold WS_RX_MAX; omega, legal := fun _ => short }

theorem invocations_ping :
    invocations @deaf () session [[0x89], [0x82, 1, 2], [3, 4, 0x69, 0x6B]] = [(0x9, [0x68, 0x69])] :=
  (invocations_eq_iff @deaf () session rfl ⟨rfl, rfl⟩ [ping [0x68, 0x69] (by decide)]
    [[0x89], [0x82, 1, 2], [3, 4, 0x69, 0x6B]] (by decide)).1.mpr (by decide)

/-- A ping without a payload is not reported, nor is the ping behind it. -/
theorem empty_ping_unreported :
    ¬ ∀ (frames : List ClientFrame) (pieces : List (List UInt8)),
      pieces.flatten = frames.flatMap ClientFrame.bytes →
      invocations @deaf () session pieces = frames.map fun f => (f.opcode, f.payload) := by
  intro claim
  have reported := claim [ping [] (by decide), ping [0x68, 0x69] (by decide)]
    [[0x89, 0x80, 1, 2, 3, 4], [0x89, 0x82, 1, 2, 3, 4, 0x69, 0x6B]] (by decide)
  exact absurd reported (by decide)

end IoEdgeHub.WsDecode
