import IoEdgeHub.Bytes
import IoEdgeHub.Framing
import IoEdgeHub.Machine

/-!
The Modbus TCP connection (`modbus/tcp.c`): the callbacks that lwIP makes for it,
and the loop that cuts what arrives into ADUs. What an ADU does and is answered
with (`mbtcp_adu_process`) is a parameter here, over any server state.

However the stream arrives, the server is given its ADUs one by one; whatever the
stream holds, the receive buffer is never overrun and the loop comes to an end.
-/
namespace IoEdgeHub.ModbusTcp
open IoEdgeHub.Bytes IoEdgeHub.Framing

def MBTCP_ADU_RX_MAX : Nat := 6 + 256
def MB_TCP_FRAME_TMO_MS : Nat := 500

/-- The results of lwIP's functions that the source tells apart. -/
inductive Err
  | OK
  | MEM
  | other
  deriving DecidableEq, Repr

/-- A connection and the server behind it. `rx` holds `rx[0, rx_len)` and `tx_pending` the
    reply that is kept back, if any. Which ADUs the server was given, which
    replies went out, and what comes of the next calls of `tcp_write` (they all
    succeed once the list is used up) is kept beside. -/
structure Conn (β : Type) where
  pcb : Bool := true
  rx : List UInt8 := []
  tx_pending : List UInt8 := []
  t_last_ms : Nat := 0
  server : β
  adus : List (List UInt8) := []
  sent : List (List UInt8) := []
  writes : List Err := []

section
variable {β : Type} (mbtcp_adu_process : List UInt8 → β → Option (List UInt8) × β)

def frame_need (rx : List UInt8) : Nat := 6 + min (io_get_be16 (rx.drop 4)) 256

def mb_conn_close (c : Conn β) : Conn β := { c with pcb := false, rx := [], tx_pending := [] }

/-- A call of `tcp_write`: its result, and the connection after it. -/
def tcp_write (tx : List UInt8) (c : Conn β) : Err × Conn β :=
  match c.writes with
  | [] => (.OK, { c with sent := c.sent ++ [tx] })
  | .OK :: rest => (.OK, { c with sent := c.sent ++ [tx], writes := rest })
  | e :: rest => (e, { c with writes := rest })

/-- One ADU, and whether the connection is still there after it. -/
def process_frame (c : Conn β) : Bool × Conn β :=
  let r := mbtcp_adu_process c.rx c.server
  let c := { c with rx := [], server := r.2, adus := c.adus ++ [c.rx] }
  match r.1 with
  | none => (true, c)
  | some tx =>
    match tcp_write tx c with
    | (.OK, c) => (true, c)
    | (.MEM, c) => (true, { c with tx_pending := tx })
    | (.other, c) => (false, mb_conn_close c)

/-- How long the buffer is to become before it is looked at again. -/
def want (rx : List UInt8) : Nat := if rx.length < 8 then 8 else frame_need rx

/-- How much the source takes the buffer to have room for, in 16 bits. -/
def room (rx : List UInt8) : Nat := (want rx + 2^16 - rx.length % 2^16) % 2^16

/-- How many bytes one round of the loop copies. -/
def copied (rx src : List UInt8) : Nat := min src.length (room rx)

/-- The buffer holds a whole ADU. -/
def complete (rx : List UInt8) : Bool := rx.length ≥ 8 ∧ rx.length ≥ frame_need rx

/-- One round of the loop over a pbuf. -/
def rx_round (now : Nat) (src : List UInt8) (c : Conn β) : Bool × Conn β :=
  let c := { c with rx := c.rx ++ src.take (copied c.rx src), t_last_ms := now }
  if complete c.rx then process_frame mbtcp_adu_process c else (true, c)

/-- Whatever becomes of the reply, the ADU goes to the server and the buffer is empty. -/
theorem process_frame_done (c : Conn β) :
    (process_frame mbtcp_adu_process c).2.rx = [] ∧
      (process_frame mbtcp_adu_process c).2.adus = c.adus ++ [c.rx] ∧
      (process_frame mbtcp_adu_process c).2.server = (mbtcp_adu_process c.rx c.server).2 := by
  unfold process_frame tcp_write
  simp only
  split
  · exact ⟨rfl, rfl, rfl⟩
  · split <;> rename_i written <;> split at written <;> obtain ⟨_, rfl⟩ := Prod.mk.inj written <;> exact ⟨rfl, rfl, rfl⟩

theorem copied_nil {src : List UInt8} (more : src ≠ []) : 0 < copied [] src := by
  have some_ := List.length_pos_iff.mpr more
  exact Nat.lt_min.mpr ⟨some_, by decide⟩

/-- A round without progress finds a whole ADU, which empties the buffer. -/
theorem complete_of_copied_zero {rx src : List UInt8} (more : src ≠ []) (none_ : copied rx src = 0) :
    complete rx = true := by
  have some_ := List.length_pos_iff.mpr more
  simp only [copied, room, want, frame_need] at none_
  refine decide_eq_true ?_
  unfold frame_need
  split_ifs at none_ <;> omega

/-- The loop over a pbuf, and whether the connection is still there after it. -/
def rx_loop (now : Nat) (src : List UInt8) (c : Conn β) : Bool × Conn β :=
  if src = [] then (true, c)
  else
    match _ran : rx_round mbtcp_adu_process now src c with
    | (true, c') => rx_loop now (src.drop (copied c.rx src)) c'
    | (false, c') => (false, c')
termination_by 2 * src.length + if copied c.rx src = 0 then 1 else 0
decreasing_by
  rename_i more
  by_cases none_ : copied c.rx src = 0
  · have emptied : c'.rx = [] := by
      have after := (process_frame_done mbtcp_adu_process { c with rx := c.rx ++ [], t_last_ms := now }).1
      have whole := complete_of_copied_zero more none_
      simp only [rx_round, none_, List.take_zero, List.append_nil, whole, if_true] at _ran after
      rwa [_ran] at after
    have progress := copied_nil more
    rw [none_, List.drop_zero, if_pos rfl, emptied, if_neg (by omega)]
    omega
  · have some_ := List.length_pos_iff.mpr more
    simp only [List.length_drop, none_, if_false]
    split_ifs <;> omega

/-- The pbufs of one callback. -/
def rx_chain (now : Nat) : List (List UInt8) → Conn β → Conn β
  | [], c => c
  | q :: rest, c =>
    match rx_loop mbtcp_adu_process now q c with
    | (true, c) => rx_chain now rest c
    | (false, c) => c

/-- No pbuf at all is the end of the stream. -/
def mb_recv_cb (now : Nat) (p : Option (List (List UInt8))) (err : Err) (c : Conn β) : Conn β :=
  match p with
  | none => mb_conn_close c
  | some chain => if err ≠ .OK then c else rx_chain mbtcp_adu_process now chain c

/-- The reply that was kept back is tried again. -/
def poll_pending (c : Conn β) : Conn β :=
  if c.tx_pending = [] then c
  else
    match tcp_write c.tx_pending c with
    | (.OK, c) => { c with tx_pending := [] }
    | (.MEM, c) => c
    | (.other, c) => mb_conn_close c

/-- Part of an ADU has been waiting for too long. -/
def half_frame (now : Nat) (c : Conn β) : Bool :=
  c.rx.length > 0 ∧ (now + 2^32 - c.t_last_ms) % 2^32 > MB_TCP_FRAME_TMO_MS

def mb_poll_cb (now : Nat) (c : Conn β) : Conn β :=
  let c := poll_pending c
  if half_frame now c then mb_conn_close c else c

def mb_err_cb (c : Conn β) : Conn β := { c with pcb := false, rx := [], tx_pending := [] }

/-- What lwIP tells a connection. -/
inductive Event
  | recv (now : Nat) (p : Option (List (List UInt8))) (err : Err)
  | poll (now : Nat)
  | err

/-- A connection that is closed gets no more callbacks. -/
def callback (c : Conn β) (e : Event) : Conn β :=
  if !c.pcb then c
  else
    match e with
    | .recv now p err => mb_recv_cb mbtcp_adu_process now p err c
    | .poll now => mb_poll_cb now c
    | .err => mb_err_cb c

end

section
variable {rx src : List UInt8}

/-- The buffer is short of what it is to become exactly as long as it holds no whole ADU. -/
theorem lt_want_iff : rx.length < want rx ↔ complete rx = false := by
  simp only [complete, want, decide_eq_false_iff_not]
  split_ifs <;> omega

theorem want_le (rx : List UInt8) : want rx ≤ MBTCP_ADU_RX_MAX := by
  unfold want frame_need MBTCP_ADU_RX_MAX
  split_ifs <;> omega

theorem room_eq (framed : rx.length < want rx) : room rx = want rx - rx.length := by
  have le := want_le rx
  unfold MBTCP_ADU_RX_MAX at le
  unfold room
  omega

/-- The length field is where it was once it has been received. -/
theorem frame_need_append (more : List UInt8) (header : 6 ≤ rx.length) : frame_need (rx ++ more) = frame_need rx := by
  have same (i : Nat) (low : i < 2) : byteAt ((rx ++ more).drop 4) i = byteAt (rx.drop 4) i := by
    simp only [byteAt, List.getD_eq_getElem?_getD, List.getElem?_drop]
    rw [List.getElem?_append_left (by omega)]
  rw [frame_need, frame_need, io_get_be16, io_get_be16, same 0 (by decide), same 1 (by decide)]

/-- Nothing is complete before the wanted length has been reached. -/
theorem incomplete_below_want {more : List UInt8} (short : rx.length + more.length < want rx) :
    complete (rx ++ more) = false := by
  simp only [complete, decide_eq_false_iff_not, List.length_append]
  unfold want at short
  split_ifs at short with header
  · omega
  · rw [frame_need_append more (by omega)]
    omega

/-- A round copies at least one byte and stays inside the buffer. -/
theorem copied_bounds (framed : rx.length < want rx) (more : src ≠ []) :
    0 < copied rx src ∧ copied rx src ≤ src.length ∧ rx.length + copied rx src ≤ want rx := by
  have some_ := List.length_pos_iff.mpr more
  unfold copied
  rw [room_eq framed]
  omega

end

section
variable {β : Type} {mbtcp_adu_process : List UInt8 → β → Option (List UInt8) × β} {now : Nat} {src : List UInt8}
variable {c : Conn β}

/-- A round feeds the bytes it copies to the framer of whole ADUs. -/
theorem rx_round_feeds (framed : c.rx.length < want c.rx) (more : src ≠ []) :
    feedAll complete ⟨c.rx, c.adus⟩ (src.take (copied c.rx src)) =
      ⟨(rx_round mbtcp_adu_process now src c).2.rx, (rx_round mbtcp_adu_process now src c).2.adus⟩ := by
  obtain ⟨pos, le, inside⟩ := copied_bounds framed more
  have length : (src.take (copied c.rx src)).length = copied c.rx src := List.length_take_of_le le
  have quiet (k : Nat) (low : k < copied c.rx src) :
      complete (c.rx ++ (src.take (copied c.rx src)).take k) = false := by
    refine incomplete_below_want ?_
    simp only [List.length_take]
    omega
  simp only [rx_round]
  by_cases whole : complete (c.rx ++ src.take (copied c.rx src)) = true
  · obtain ⟨rx, adus, _⟩ := process_frame_done mbtcp_adu_process
      { c with rx := c.rx ++ src.take (copied c.rx src), t_last_ms := now }
    rw [if_pos whole, rx, adus]
    exact feedAll_complete (List.ne_nil_of_length_pos (by omega)) (fun k _ low => quiet k (by omega)) whole
  · rw [if_neg whole]
    refine feedAll_collect fun k _ low => ?_
    by_cases last : k < copied c.rx src
    · exact quiet k last
    · rw [List.take_of_length_le (by omega)]
      simpa using whole

/-- Between rounds the buffer is short of what it is to become. -/
theorem rx_round_framed (now : Nat) (src : List UInt8) (c : Conn β) :
    (rx_round mbtcp_adu_process now src c).2.rx.length < want (rx_round mbtcp_adu_process now src c).2.rx := by
  rw [lt_want_iff]
  simp only [rx_round]
  split_ifs with whole
  · rw [(process_frame_done _ _).1]
    decide
  · simpa using whole

/-- What every round keeps, the loop keeps. -/
theorem rx_loop_keeps {inv : Conn β → Prop} (round : ∀ src c, inv c → inv (rx_round mbtcp_adu_process now src c).2)
    (before : inv c) : inv (rx_loop mbtcp_adu_process now src c).2 := by
  fun_induction rx_loop mbtcp_adu_process now src c with
  | case1 c => exact before
  | case2 src c more c' ran ih =>
    have after := round src c before
    rw [ran] at after
    exact ih after
  | case3 src c more c' ran =>
    have after := round src c before
    rwa [ran] at after

/-- The loop feeds all of a pbuf to the framer, unless the connection is closed over it. -/
theorem rx_loop_feeds (framed : c.rx.length < want c.rx) (open_ : (rx_loop mbtcp_adu_process now src c).1 = true) :
    feedAll complete ⟨c.rx, c.adus⟩ src =
      ⟨(rx_loop mbtcp_adu_process now src c).2.rx, (rx_loop mbtcp_adu_process now src c).2.adus⟩ := by
  fun_induction rx_loop mbtcp_adu_process now src c with
  | case1 c => rfl
  | case2 src c more c' ran ih =>
    have round := @rx_round_feeds _ mbtcp_adu_process now src c framed more
    have framed' := @rx_round_framed _ mbtcp_adu_process now src c
    rw [ran] at round framed'
    rw [← ih framed' open_, ← round, ← feedAll_append, List.take_append_drop]
  | case3 src c more c' ran => cases open_

/-- The heads of the rounds over a pbuf: what is left of it and the connection, after `k` rounds. -/
inductive Rounds (mbtcp_adu_process : List UInt8 → β → Option (List UInt8) × β) (now : Nat) (src : List UInt8)
    (c : Conn β) : Nat → List UInt8 → Conn β → Prop
  | first : Rounds mbtcp_adu_process now src c 0 src c
  | next {k : Nat} {rest : List UInt8} {c' c'' : Conn β} (before : Rounds mbtcp_adu_process now src c k rest c')
      (more : rest ≠ []) (ran : rx_round mbtcp_adu_process now rest c' = (true, c'')) :
      Rounds mbtcp_adu_process now src c (k + 1) (rest.drop (copied c'.rx rest)) c''

/-- At the head of every round the buffer is short of what it is to become, and
    every round so far has used up a part of the pbuf. -/
theorem rounds_framed (framed : c.rx.length < want c.rx) {k : Nat} {rest : List UInt8} {c' : Conn β}
    (rounds : Rounds mbtcp_adu_process now src c k rest c') :
    c'.rx.length < want c'.rx ∧ k + rest.length ≤ src.length := by
  induction rounds with
  | first => exact ⟨framed, by omega⟩
  | @next k rest c' c'' before more ran ih =>
    have framed' := @rx_round_framed _ mbtcp_adu_process now rest c'
    rw [ran] at framed'
    obtain ⟨pos, le, _⟩ := copied_bounds ih.1 more
    refine ⟨framed', ?_⟩
    simp only [List.length_drop]
    omega

/-- The loop ends at the head of a round, with the pbuf used up, or with a round that closes the connection. -/
theorem rx_loop_rounds {first : List UInt8} {start : Conn β} {k : Nat}
    (before : Rounds mbtcp_adu_process now first start k src c) :
    ∃ k' rest c', Rounds mbtcp_adu_process now first start k' rest c' ∧
      (rest = [] ∧ rx_loop mbtcp_adu_process now src c = (true, c') ∨
        rest ≠ [] ∧ rx_loop mbtcp_adu_process now src c = (false, (rx_round mbtcp_adu_process now rest c').2)) := by
  fun_induction rx_loop mbtcp_adu_process now src c generalizing k with
  | case1 c => exact ⟨k, [], c, before, .inl ⟨rfl, rfl⟩⟩
  | case2 src c more c' ran ih => exact ih (before.next more ran)
  | case3 src c more c' ran => exact ⟨k, src, c, before, .inr ⟨more, by rw [ran]⟩⟩

/-- The connection is there, and no call of `tcp_write` to come ends it. -/
structure Steady (c : Conn β) : Prop where
  pcb : c.pcb = true
  writes : ∀ w ∈ c.writes, w ≠ .other

theorem tcp_write_kept (tx : List UInt8) (c : Conn β) :
    ∃ sent writes, (tcp_write tx c).2 = { c with sent := sent, writes := writes } := by
  unfold tcp_write
  split <;> exact ⟨_, _, rfl⟩

theorem tcp_write_steady (steady : Steady c) (tx : List UInt8) :
    (tcp_write tx c).1 ≠ .other ∧ Steady (tcp_write tx c).2 := by
  obtain ⟨pcb, writes⟩ := steady
  unfold tcp_write
  split <;> rename_i ahead
  · exact ⟨by simp, pcb, writes⟩
  · exact ⟨by simp, pcb, fun w member => writes w (by simp [ahead, member])⟩
  · exact ⟨writes _ (by simp [ahead]), pcb, fun w member => writes w (by simp [ahead, member])⟩

theorem process_frame_steady (steady : Steady c) :
    (process_frame mbtcp_adu_process c).1 = true ∧ Steady (process_frame mbtcp_adu_process c).2 := by
  unfold process_frame
  simp only
  split
  · exact ⟨rfl, steady.pcb, steady.writes⟩
  · rename_i tx _
    have written := @tcp_write_steady β
      { c with rx := [], server := (mbtcp_adu_process c.rx c.server).2, adus := c.adus ++ [c.rx] }
      ⟨steady.pcb, steady.writes⟩ tx
    split <;> rename_i outcome <;> rw [outcome] at written
    · exact ⟨rfl, written.2⟩
    · exact ⟨rfl, written.2.pcb, written.2.writes⟩
    · exact absurd rfl written.1

theorem rx_round_steady (steady : Steady c) :
    (rx_round mbtcp_adu_process now src c).1 = true ∧ Steady (rx_round mbtcp_adu_process now src c).2 := by
  simp only [rx_round]
  split_ifs
  · exact process_frame_steady ⟨steady.pcb, steady.writes⟩
  · exact ⟨rfl, steady.pcb, steady.writes⟩

theorem rx_loop_steady (steady : Steady c) :
    (rx_loop mbtcp_adu_process now src c).1 = true ∧ Steady (rx_loop mbtcp_adu_process now src c).2 := by
  fun_induction rx_loop mbtcp_adu_process now src c with
  | case1 c => exact ⟨rfl, steady⟩
  | case2 src c more c' ran ih =>
    have after := (@rx_round_steady _ mbtcp_adu_process now src c steady).2
    rw [ran] at after
    exact ih after
  | case3 src c more c' ran =>
    have after := (@rx_round_steady _ mbtcp_adu_process now src c steady).1
    simp [ran] at after

/-- A chain of pbufs feeds all of its bytes. -/
theorem rx_chain_feeds {chain : List (List UInt8)} (framed : c.rx.length < want c.rx) (steady : Steady c) :
    feedAll complete ⟨c.rx, c.adus⟩ chain.flatten =
        ⟨(rx_chain mbtcp_adu_process now chain c).rx, (rx_chain mbtcp_adu_process now chain c).adus⟩ ∧
      Steady (rx_chain mbtcp_adu_process now chain c) := by
  induction chain generalizing c with
  | nil => exact ⟨rfl, steady⟩
  | cons q rest ih =>
    obtain ⟨open_, steady'⟩ := @rx_loop_steady _ mbtcp_adu_process now q c steady
    have first := rx_loop_feeds framed open_
    have framed' := @rx_loop_keeps _ mbtcp_adu_process now q c (fun c => c.rx.length < want c.rx)
      (fun src c _ => rx_round_framed now src c) framed
    rw [List.flatten_cons, feedAll_append, first, rx_chain]
    split <;> rename_i ran <;> rw [ran] at open_ steady' framed'
    · rw [ran]
      exact ih framed' steady'
    · cases open_

theorem poll_pending_steady (steady : Steady c) :
    (poll_pending c).rx = c.rx ∧ (poll_pending c).adus = c.adus ∧ Steady (poll_pending c) := by
  obtain ⟨sent, writes, kept⟩ := tcp_write_kept c.tx_pending c
  have written := tcp_write_steady steady c.tx_pending
  unfold poll_pending
  split_ifs
  · exact ⟨rfl, rfl, steady⟩
  · split <;> rename_i outcome <;> rw [outcome] at written kept <;> simp only at kept <;> subst kept
    · exact ⟨rfl, rfl, written.2.pcb, written.2.writes⟩
    · exact ⟨rfl, rfl, written.2⟩
    · exact absurd rfl written.1

/-- The bytes that a callback brings. -/
def received : Event → List UInt8
  | .recv _ (some chain) .OK => chain.flatten
  | _ => []

/-- The callback brings bytes, or is a poll that finds no half frame. -/
def Timely (c : Conn β) : Event → Prop
  | .recv _ p err => p.isSome ∧ err = .OK
  | .poll now => half_frame now (poll_pending c) = false
  | .err => False

theorem callback_feeds {e : Event} (framed : c.rx.length < want c.rx) (steady : Steady c) (timely : Timely c e) :
    feedAll complete ⟨c.rx, c.adus⟩ (received e) =
        ⟨(callback mbtcp_adu_process c e).rx, (callback mbtcp_adu_process c e).adus⟩ ∧
      Steady (callback mbtcp_adu_process c e) := by
  unfold callback
  rw [steady.pcb, if_neg (by decide)]
  cases e with
  | recv now p err =>
    obtain ⟨chain, rfl⟩ := Option.isSome_iff_exists.mp timely.1
    obtain rfl := timely.2
    exact rx_chain_feeds framed steady
  | poll now =>
    obtain ⟨rx, adus, steady'⟩ := poll_pending_steady steady
    have calm : half_frame now (poll_pending c) = false := timely
    simp only [mb_poll_cb, calm, Bool.false_eq_true, if_false, rx, adus]
    exact ⟨rfl, steady'⟩
  | err => exact timely.elim

/-- What every round, every write and a closing connection keep, every callback keeps. -/
theorem callback_keeps {inv : Conn β → Prop} {e : Event}
    (round : ∀ now src c, inv c → inv (rx_round mbtcp_adu_process now src c).2)
    (write : ∀ c pending sent writes, inv c → inv { c with tx_pending := pending, sent := sent, writes := writes })
    (close : ∀ c, inv c → inv (mb_conn_close c)) (before : inv c) : inv (callback mbtcp_adu_process c e) := by
  have chain_keeps (now : Nat) (chain : List (List UInt8)) (c : Conn β) (before : inv c) :
      inv (rx_chain mbtcp_adu_process now chain c) := by
    induction chain generalizing c with
    | nil => exact before
    | cons q rest ih =>
      have after := @rx_loop_keeps _ mbtcp_adu_process now q c inv (round now) before
      rw [rx_chain]
      split <;> rename_i ran <;> rw [ran] at after
      · exact ih _ after
      · exact after
  have poll_keeps : inv (poll_pending c) := by
    obtain ⟨sent, writes, kept⟩ := tcp_write_kept c.tx_pending c
    unfold poll_pending
    split_ifs
    · exact before
    · split <;> rename_i outcome <;> rw [outcome] at kept <;> simp only at kept <;> subst kept
      · exact write c [] sent writes before
      · exact write c c.tx_pending sent writes before
      · exact close _ (write c c.tx_pending sent writes before)
  unfold callback
  split_ifs
  · exact before
  · cases e with
    | recv now p err =>
      simp only [mb_recv_cb]
      split
      · exact close _ before
      · split_ifs
        · exact before
        · exact chain_keeps _ _ _ before
    | poll now =>
      simp only [mb_poll_cb]
      split_ifs
      · exact close _ poll_keeps
      · exact poll_keeps
    | err => exact close _ before

theorem callback_framed {e : Event} (framed : c.rx.length < want c.rx) :
    (callback mbtcp_adu_process c e).rx.length < want (callback mbtcp_adu_process c e).rx :=
  @callback_keeps β mbtcp_adu_process c (fun c => c.rx.length < want c.rx) e (fun now src c _ => rx_round_framed now src c)
    (fun _ _ _ _ framed => framed) (fun _ _ => (by decide : [].length < want [])) framed

/-- The server has been given exactly the recorded ADUs. -/
def Served (mbtcp_adu_process : List UInt8 → β → Option (List UInt8) × β) (first : β) (c : Conn β) : Prop :=
  c.server = c.adus.foldl (fun server adu => (mbtcp_adu_process adu server).2) first

theorem callback_served {first : β} {e : Event} (served : Served mbtcp_adu_process first c) :
    Served mbtcp_adu_process first (callback mbtcp_adu_process c e) := by
  refine callback_keeps (fun now src c served => ?_) (fun _ _ _ _ served => served) (fun _ served => served) served
  simp only [rx_round, Served] at served ⊢
  split_ifs
  · obtain ⟨_, adus, server⟩ := process_frame_done mbtcp_adu_process
      { c with rx := c.rx ++ src.take (copied c.rx src), t_last_ms := now }
    rw [server, adus, List.foldl_append, ← served]
    rfl
  · exact served

/-- An ADU as a master sends it. -/
structure Adu (adu : List UInt8) : Prop where
  low : 2 ≤ io_get_be16 (adu.drop 4)
  high : io_get_be16 (adu.drop 4) ≤ 256
  size : adu.length = 6 + io_get_be16 (adu.drop 4)

theorem adu_delimits {adu : List UInt8} (valid : Adu adu) : Delimits complete adu := by
  obtain ⟨low, high, size⟩ := valid
  have need : frame_need adu = adu.length := by
    unfold frame_need
    omega
  refine ⟨List.ne_nil_of_length_pos (by omega), ?_, fun k _ short => ?_⟩
  · simp only [complete, decide_eq_true_eq]
    omega
  · have length : (adu.take k).length = k := List.length_take_of_le (by omega)
    simp only [complete, decide_eq_false_iff_not, length]
    intro both
    have same := @frame_need_append (adu.take k) (adu.drop k) (by omega)
    rw [List.take_append_drop] at same
    omega

/-- What a run of timely callbacks brings is fed to the framer, whatever it is cut into. -/
theorem run_feeds {es : List Event} (framed : c.rx.length < want c.rx) (steady : Steady c)
    (timely : Machine.Meets (callback mbtcp_adu_process) Timely c es) :
    feedAll complete ⟨c.rx, c.adus⟩ (es.flatMap received) =
        ⟨(es.foldl (callback mbtcp_adu_process) c).rx, (es.foldl (callback mbtcp_adu_process) c).adus⟩ ∧
      Steady (es.foldl (callback mbtcp_adu_process) c) := by
  induction es generalizing c with
  | nil => exact ⟨rfl, steady⟩
  | cons e rest ih =>
    obtain ⟨one, steady'⟩ := @callback_feeds _ mbtcp_adu_process c e framed steady timely.1
    rw [List.flatMap_cons, feedAll_append, one, List.foldl_cons]
    exact ih (callback_framed framed) steady' timely.2

variable (mbtcp_adu_process) in
/-- A stream of ADUs, however it is cut into callbacks and pbufs, gives the server
    each of them once and in order. Whatever a connection receives and whatever
    comes of its replies, between two rounds of the loop the buffer is short of
    what it is to become, the next copy stays inside it, and the loop is over
    after at most one round for each byte. -/
theorem adu_framing (first : β) (t_last_ms : Nat) (writes : List Err) :
    let c : Conn β := { server := first, t_last_ms := t_last_ms, writes := writes }
    (∀ (adus : List (List UInt8)) (es : List Event), (∀ adu ∈ adus, Adu adu) → es.flatMap received = adus.flatten →
      (∀ w ∈ writes, w ≠ .other) → Machine.Meets (callback mbtcp_adu_process) Timely c es →
      let c' := es.foldl (callback mbtcp_adu_process) c
      c'.adus = adus ∧ c'.rx = [] ∧ c'.server = adus.foldl (fun server adu => (mbtcp_adu_process adu server).2) first) ∧
    (∀ (es : List Event) (now : Nat) (src : List UInt8),
      let c' := es.foldl (callback mbtcp_adu_process) c
      (∀ k rest c'', Rounds mbtcp_adu_process now src c' k rest c'' →
        c''.rx.length < want c''.rx ∧ c''.rx.length + copied c''.rx rest ≤ MBTCP_ADU_RX_MAX ∧ k ≤ src.length) ∧
      ∃ k rest c'', Rounds mbtcp_adu_process now src c' k rest c'' ∧
        (rest = [] ∧ rx_loop mbtcp_adu_process now src c' = (true, c'') ∨
          rest ≠ [] ∧ rx_loop mbtcp_adu_process now src c' = (false, (rx_round mbtcp_adu_process now rest c'').2))) := by
  intro c
  have empty : c.rx.length < want c.rx := by simp only [c]; decide
  refine ⟨fun adus es valid stream noError timely => ?_, fun es now src => ⟨fun k rest c'' rounds => ?_, ?_⟩⟩
  · have fed := (@run_feeds _ mbtcp_adu_process c es empty ⟨rfl, noError⟩ timely).1
    have frames := feedAll_frames (fun adu member => adu_delimits (valid adu member)) []
    rw [stream, frames] at fed
    have served := @Machine.invariant _ _ (callback mbtcp_adu_process) (fun _ _ => True)
      (Served mbtcp_adu_process first) (fun _ _ served _ => callback_served served) c rfl es
      (Machine.meets_of_all fun _ _ _ => trivial)
    have adus_ : (es.foldl (callback mbtcp_adu_process) c).adus = adus := (congrArg Framer.frames fed).symm
    refine ⟨adus_, (congrArg Framer.buf fed).symm, ?_⟩
    rw [← adus_]
    exact served
  · have framed := @Machine.invariant _ _ (callback mbtcp_adu_process) (fun _ _ => True)
      (fun c => c.rx.length < want c.rx) (fun _ _ framed _ => callback_framed framed) c empty es
      (Machine.meets_of_all fun _ _ _ => trivial)
    obtain ⟨framed', used⟩ := rounds_framed framed rounds
    have le := want_le c''.rx
    have inside : copied c''.rx rest ≤ want c''.rx - c''.rx.length := by
      unfold copied
      rw [room_eq framed']
      omega
    exact ⟨framed', by omega, by omega⟩
  · exact rx_loop_rounds .first

/-- A server that sends every ADU back and counts them. -/
def echo (adu : List UInt8) (n : Nat) : Option (List UInt8) × Nat := (some adu, n + 1)

/-- Two requests, cut within the header of the first, behind its length field and within the second. -/
def pipelined : List Event :=
  [.recv 0 (some [[0, 1, 0], [], [0, 0]]) .OK, .recv 10 (some [[6], [1, 3, 0, 0, 0, 2, 0, 2, 0, 0, 0]]) .OK, .poll 20,
    .recv 30 (some [[2, 1, 7]]) .OK]

/-- The server is given both requests, although the first reply is kept back. -/
theorem adu_framing_pipelined :
    let adus : List (List UInt8) := [[0, 1, 0, 0, 0, 6, 1, 3, 0, 0, 0, 2], [0, 2, 0, 0, 0, 2, 1, 7]]
    let c := pipelined.foldl (callback echo) { server := 0, writes := [.MEM] }
    c.adus = adus ∧ c.rx = [] ∧ c.server = 2 := by
  intro adus
  refine (adu_framing echo 0 0 [.MEM]).1 adus pipelined ?_ (by decide) (by decide) ?_
  · intro adu member
    rcases List.mem_cons.mp member with rfl | member
    · exact ⟨by decide, by decide, by decide⟩
    · obtain rfl := List.mem_singleton.mp member
      exact ⟨by decide, by decide, by decide⟩
  · refine ⟨⟨rfl, rfl⟩, ⟨rfl, rfl⟩, ?_, ⟨rfl, rfl⟩, trivial⟩
    simp only [Timely]
    decide +kernel

end

end IoEdgeHub.ModbusTcp
