import IoEdgeHub.MbTransports
import IoEdgeHub.ModbusTcp

/-!
The replies of a Modbus TCP connection. The connection keeps back one reply that
`tcp_write` had no memory for, and the poll callback tries it again. A further
reply goes past the one that waits, or takes its place.

As long as no ADU is answered while a reply waits, the replies go out in the
order of their requests and each once, whatever comes of the writes.
-/
namespace IoEdgeHub.MbReplies
open IoEdgeHub.ModbusTcp

section
variable {β : Type} (mbtcp_adu_process : List UInt8 → β → Option (List UInt8) × β)

/-- The replies of a server to ADUs, in the order of their requests. -/
def replies (server : β) : List (List UInt8) → List (List UInt8)
  | [] => []
  | adu :: rest => (mbtcp_adu_process adu server).1.toList ++ replies (mbtcp_adu_process adu server).2 rest

/-- The next round of the loop over a pbuf completes no ADU that is answered while a reply waits. -/
def NoneWaits (rest : List UInt8) (c : Conn β) : Prop :=
  let rx := c.rx ++ rest.take (copied c.rx rest)
  complete rx = true → (mbtcp_adu_process rx c.server).1 ≠ none → c.tx_pending = []

/-- So it is in every round over the pbufs of a callback. -/
def NoneWaitsChain (now : Nat) : List (List UInt8) → Conn β → Prop
  | [], _ => True
  | q :: rest, c =>
    (∀ k left c', Rounds mbtcp_adu_process now q c k left c' → left ≠ [] → NoneWaits mbtcp_adu_process left c') ∧
      NoneWaitsChain now rest (rx_loop mbtcp_adu_process now q c).2

/-- So it is in every round of a callback. -/
def Unhurried (c : Conn β) : Event → Prop
  | .recv now (some chain) .OK => c.pcb = true → NoneWaitsChain mbtcp_adu_process now chain c
  | _ => True

/-- What has been accepted is the replies to the ADUs so far, from the first one
    on and each once; and all of them, if the connection is there and none waits. -/
structure InOrder (first : β) (c : Conn β) : Prop where
  once : c.sent <+: replies mbtcp_adu_process first c.adus
  bytes : c.sent.flatten <+: (replies mbtcp_adu_process first c.adus).flatten
  all : c.pcb = true → c.tx_pending = [] → c.sent = replies mbtcp_adu_process first c.adus

end

section
variable {β : Type} {mbtcp_adu_process : List UInt8 → β → Option (List UInt8) × β} {first : β} {c : Conn β}

theorem replies_append (first : β) (adus more : List (List UInt8)) :
    replies mbtcp_adu_process first (adus ++ more) =
      replies mbtcp_adu_process first adus ++
        replies mbtcp_adu_process (adus.foldl (fun server adu => (mbtcp_adu_process adu server).2) first) more := by
  induction adus generalizing first with
  | nil => rfl
  | cons adu rest ih => simp only [List.cons_append, replies, ih, List.append_assoc, List.foldl_cons]

/-- The reply that is kept back, if any. -/
def waiting (c : Conn β) : List (List UInt8) := if c.tx_pending = [] then [] else [c.tx_pending]

/-- The replies so far are those that were accepted and the one that waits. -/
structure Accounted (mbtcp_adu_process : List UInt8 → β → Option (List UInt8) × β) (first : β) (c : Conn β) : Prop where
  served : Served mbtcp_adu_process first c
  writes : ∀ w ∈ c.writes, w ≠ .other
  once : c.sent <+: replies mbtcp_adu_process first c.adus
  kept : c.pcb = true → c.sent ++ waiting c = replies mbtcp_adu_process first c.adus

theorem accounted_inOrder (accounted : Accounted mbtcp_adu_process first c) : InOrder mbtcp_adu_process first c := by
  refine ⟨accounted.once, ?_, fun open_ none_ => ?_⟩
  · obtain ⟨rest, whole⟩ := accounted.once
    rw [← whole, List.flatten_append]
    exact List.prefix_append _ _
  · have all := accounted.kept open_
    rwa [waiting, if_pos none_, List.append_nil] at all

theorem accounted_close (accounted : Accounted mbtcp_adu_process first c) :
    Accounted mbtcp_adu_process first (mb_conn_close c) :=
  ⟨accounted.served, accounted.writes, accounted.once, fun open_ => by cases open_⟩

/-- The results of one call of `tcp_write`, when none is an error but the lack of memory. -/
theorem tcp_write_results (writes : ∀ w ∈ c.writes, w ≠ .other) (tx : List UInt8) :
    ∃ rest, (∀ w ∈ rest, w ≠ .other) ∧
      (tcp_write tx c = (.OK, { c with sent := c.sent ++ [tx], writes := rest }) ∨
        tcp_write tx c = (.MEM, { c with writes := rest })) := by
  unfold tcp_write
  cases ahead : c.writes with
  | nil => exact ⟨[], by simp, .inl rfl⟩
  | cons w rest =>
    have rest_ : ∀ w ∈ rest, w ≠ .other := fun w member => writes w (by simp [ahead, member])
    cases w with
    | OK => exact ⟨rest, rest_, .inl rfl⟩
    | MEM => exact ⟨rest, rest_, .inr rfl⟩
    | other => exact absurd rfl (writes .other (by simp [ahead]))

/-- An ADU that is answered while no reply waits is accounted for. -/
theorem process_frame_accounted (answers : ∀ adu server, (mbtcp_adu_process adu server).1 ≠ some [])
    (accounted : Accounted mbtcp_adu_process first c) (open_ : c.pcb = true)
    (free : (mbtcp_adu_process c.rx c.server).1 ≠ none → c.tx_pending = []) :
    Accounted mbtcp_adu_process first (process_frame mbtcp_adu_process c).2 := by
  have kept := accounted.kept open_
  have more : replies mbtcp_adu_process first (c.adus ++ [c.rx]) =
      replies mbtcp_adu_process first c.adus ++ (mbtcp_adu_process c.rx c.server).1.toList := by
    rw [replies_append, ← accounted.served]
    simp [replies]
  have served : (mbtcp_adu_process c.rx c.server).2 =
      (c.adus ++ [c.rx]).foldl (fun server adu => (mbtcp_adu_process adu server).2) first := by
    rw [List.foldl_append, ← accounted.served]
    rfl
  unfold process_frame
  simp only
  cases answer : (mbtcp_adu_process c.rx c.server).1 with
  | none =>
    rw [answer, Option.toList_none, List.append_nil] at more
    exact ⟨served, accounted.writes, by rw [more]; exact accounted.once, fun _ => by rw [more]; exact kept⟩
  | some tx =>
    rw [answer, Option.toList_some] at more
    have none_ : c.tx_pending = [] := free (by simp [answer])
    have some_ : tx ≠ [] := fun empty => answers c.rx c.server (by rw [answer, empty])
    rw [waiting, if_pos none_, List.append_nil] at kept
    have whole : c.sent ++ [tx] = replies mbtcp_adu_process first (c.adus ++ [c.rx]) := by rw [more, kept]
    obtain ⟨rest, rest_, written | written⟩ := @tcp_write_results β
      { c with rx := [], server := (mbtcp_adu_process c.rx c.server).2, adus := c.adus ++ [c.rx] } accounted.writes tx
    · simp only [written]
      refine ⟨served, rest_, whole ▸ List.prefix_rfl, fun _ => ?_⟩
      simp only [waiting, if_pos none_, List.append_nil]
      exact whole
    · simp only [written]
      refine ⟨served, rest_, whole ▸ List.prefix_append _ _, fun _ => ?_⟩
      simp only [waiting, if_neg some_]
      exact whole

theorem rx_round_accounted (answers : ∀ adu server, (mbtcp_adu_process adu server).1 ≠ some []) {now : Nat}
    {src : List UInt8} (accounted : Accounted mbtcp_adu_process first c) (open_ : c.pcb = true)
    (free : NoneWaits mbtcp_adu_process src c) : Accounted mbtcp_adu_process first (rx_round mbtcp_adu_process now src c).2 := by
  simp only [rx_round]
  by_cases whole : complete (c.rx ++ src.take (copied c.rx src)) = true
  · rw [if_pos whole]
    exact process_frame_accounted answers ⟨accounted.served, accounted.writes, accounted.once, accounted.kept⟩ open_
      (free whole)
  · rw [if_neg whole]
    exact ⟨accounted.served, accounted.writes, accounted.once, accounted.kept⟩

/-- At the head of every round over a pbuf the replies are accounted for. -/
theorem rounds_accounted (answers : ∀ adu server, (mbtcp_adu_process adu server).1 ≠ some []) {now : Nat}
    {src : List UInt8} (accounted : Accounted mbtcp_adu_process first c) (open_ : c.pcb = true)
    (free : ∀ k left c', Rounds mbtcp_adu_process now src c k left c' → left ≠ [] → NoneWaits mbtcp_adu_process left c')
    {k : Nat} {left : List UInt8} {c' : Conn β} (rounds : Rounds mbtcp_adu_process now src c k left c') :
    Accounted mbtcp_adu_process first c' ∧ Steady c' := by
  induction rounds with
  | first => exact ⟨accounted, open_, accounted.writes⟩
  | @next k left c' c'' before more ran ih =>
    have after := @rx_round_accounted β mbtcp_adu_process first c' answers now left ih.1 ih.2.pcb (free _ _ _ before more)
    have steady := (@rx_round_steady β mbtcp_adu_process now left c' ih.2).2
    rw [ran] at after steady
    exact ⟨after, steady⟩

theorem rx_chain_accounted (answers : ∀ adu server, (mbtcp_adu_process adu server).1 ≠ some []) {now : Nat}
    {chain : List (List UInt8)} (accounted : Accounted mbtcp_adu_process first c) (open_ : c.pcb = true)
    (free : NoneWaitsChain mbtcp_adu_process now chain c) :
    Accounted mbtcp_adu_process first (rx_chain mbtcp_adu_process now chain c) := by
  induction chain generalizing c with
  | nil => exact accounted
  | cons q rest ih =>
    obtain ⟨quiet, quiet'⟩ := free
    have steady := @rx_loop_steady β mbtcp_adu_process now q c ⟨open_, accounted.writes⟩
    obtain ⟨k, left, c', rounds, done | closed⟩ := @rx_loop_rounds β mbtcp_adu_process now q c q c 0 .first
    · obtain ⟨after, _⟩ := rounds_accounted answers accounted open_ quiet rounds
      rw [done.2] at steady quiet'
      rw [rx_chain, done.2]
      exact ih after steady.2.pcb quiet'
    · rw [closed.2] at steady
      cases steady.1

theorem poll_pending_accounted (accounted : Accounted mbtcp_adu_process first c) (open_ : c.pcb = true) :
    Accounted mbtcp_adu_process first (poll_pending c) := by
  unfold poll_pending
  by_cases none_ : c.tx_pending = []
  · rw [if_pos none_]
    exact accounted
  · rw [if_neg none_]
    have kept := accounted.kept open_
    rw [waiting, if_neg none_] at kept
    obtain ⟨rest, rest_, written | written⟩ := tcp_write_results accounted.writes c.tx_pending
    · simp only [written]
      refine ⟨accounted.served, rest_, kept ▸ List.prefix_rfl, fun _ => ?_⟩
      simp only [waiting, if_true, List.append_nil]
      exact kept
    · simp only [written]
      exact ⟨accounted.served, rest_, accounted.once, accounted.kept⟩

/-- Every callback keeps account of the replies. -/
theorem callback_accounted (answers : ∀ adu server, (mbtcp_adu_process adu server).1 ≠ some []) {e : Event}
    (accounted : Accounted mbtcp_adu_process first c) (unhurried : Unhurried mbtcp_adu_process c e) :
    Accounted mbtcp_adu_process first (callback mbtcp_adu_process c e) := by
  unfold callback
  cases open_ : c.pcb with
  | false => exact accounted
  | true =>
    rw [Bool.not_true, if_neg (by decide)]
    cases e with
    | recv now p err =>
      cases p with
      | none => exact accounted_close accounted
      | some chain =>
        simp only [mb_recv_cb]
        by_cases ok : err = .OK
        · subst ok
          rw [if_neg (by simp)]
          exact rx_chain_accounted answers accounted open_ (unhurried open_)
        · rw [if_pos ok]
          exact accounted
    | poll now =>
      have polled := poll_pending_accounted accounted open_
      simp only [mb_poll_cb]
      by_cases half : half_frame now (poll_pending c) = true
      · rw [if_pos half]
        exact accounted_close polled
      · rw [if_neg half]
        exact polled
    | err => exact accounted_close accounted

/-- Within one ADU, nothing is answered before its last byte. -/
theorem rounds_adu {now : Nat} {adu : List UInt8} (valid : Adu adu) (empty : c.rx = []) (none_ : c.tx_pending = [])
    {k : Nat} {left : List UInt8} {c' : Conn β} (rounds : Rounds mbtcp_adu_process now adu c k left c') (more : left ≠ []) :
    c'.tx_pending = [] ∧ c'.rx ++ left = adu := by
  obtain ⟨_, _, proper⟩ := adu_delimits valid
  induction rounds with
  | first => exact ⟨none_, by rw [empty, List.nil_append]⟩
  | @next k left c' c'' before more' ran ih =>
    obtain ⟨waits, whole⟩ := ih more'
    have size : copied c'.rx left < left.length := by
      by_contra all
      exact more (List.drop_of_length_le (by omega))
    have part : c'.rx ++ left.take (copied c'.rx left) = adu.take (c'.rx.length + copied c'.rx left) := by
      rw [← whole, List.take_length_add_append]
    have short : c'.rx.length + copied c'.rx left < adu.length := by
      rw [← whole, List.length_append]
      omega
    have quiet : complete (c'.rx ++ left.take (copied c'.rx left)) = false := by
      by_cases none_ : c'.rx.length + copied c'.rx left = 0
      · rw [part, none_]
        rfl
      · rw [part]
        exact proper _ (by omega) short
    simp only [rx_round, quiet, Bool.false_eq_true, if_false, Prod.mk.injEq, true_and] at ran
    subst ran
    exact ⟨waits, by rw [List.append_assoc, List.take_append_drop, whole]⟩

/-- A request that comes alone, after all replies have gone out, is answered while none waits. -/
theorem unhurried_adu {now : Nat} {adu : List UInt8} (valid : Adu adu) (empty : c.rx = []) (none_ : c.tx_pending = []) :
    Unhurried mbtcp_adu_process c (.recv now (some [adu]) .OK) :=
  fun _ => ⟨fun _ _ _ rounds more _ _ => (rounds_adu valid empty none_ rounds more).1, trivial⟩

end

/-- The decoder's ADUs are never empty. -/
theorem mbtcp_adu_process_answers (out_cap : Nat) (srv_unit : UInt8) (adu : List UInt8) (s : MbServer.Srv) :
    (MbTransports.mbtcp_adu_process out_cap srv_unit adu s).1 ≠ some [] := by
  have header (t p l : Nat) (u : UInt8) (pdu : List UInt8) : MbTransports.mbap t p l u pdu ≠ [] := by
    simp [MbTransports.mbap]
  unfold MbTransports.mbtcp_adu_process
  simp only
  split_ifs
  · simp
  · simp
  · simp [header]
  · simp
  · split
    · simp
    · simp [header]

/-- The connection in front of the decoder. -/
abbrev serve (srv_unit : UInt8) : List UInt8 → MbServer.Srv → Option (List UInt8) × MbServer.Srv :=
  MbTransports.mbtcp_adu_process MbTransports.MBTCP_ADU_TX_MAX srv_unit

/-- Whatever a connection receives and whichever writes lack memory: as long as no
    ADU is answered while a reply waits, the replies go out in the order of their
    requests and each once, and all are out whenever none waits. -/
theorem replies_in_order (srv_unit : UInt8) (first : MbServer.Srv) (t_last_ms : Nat) (writes : List Err) (es : List Event)
    (noError : ∀ w ∈ writes, w ≠ .other) :
    let c : Conn MbServer.Srv := { server := first, t_last_ms := t_last_ms, writes := writes }
    Machine.Meets (callback (serve srv_unit)) (Unhurried (serve srv_unit)) c es →
      InOrder (serve srv_unit) first (es.foldl (callback (serve srv_unit)) c) := by
  intro c unhurried
  have start : Accounted (serve srv_unit) first c := ⟨rfl, noError, List.prefix_refl _, fun _ => rfl⟩
  exact accounted_inOrder (Machine.invariant (fun _ _ accounted allowed =>
    callback_accounted (mbtcp_adu_process_answers _ srv_unit) accounted allowed) start unhurried)

/-- A request to read the coils. -/
def request (trans_id : UInt8) : List UInt8 := [0, trans_id, 0, 0, 0, 6, 1, 1, 0, 0, 0, 8]

/-- Of two requests that come one after the other, the first reply goes out with a poll. -/
theorem replies_in_order_polled :
    let es : List Event := [.recv 0 (some [request 1]) .OK, .poll 10, .recv 20 (some [request 2]) .OK]
    let c := es.foldl (callback (serve 1)) { server := MbTransports.fresh, writes := [.MEM] }
    InOrder (serve 1) MbTransports.fresh c ∧
      c.sent = [[0, 1, 0, 0, 0, 4, 1, 1, 1, 0], [0, 2, 0, 0, 0, 4, 1, 1, 1, 0]] := by
  have valid (i : UInt8) : Adu (request i) := by
    have field : Bytes.io_get_be16 ((request i).drop 4) = 6 := by simp [request, Bytes.io_get_be16, Bytes.byteAt]
    refine ⟨?_, ?_, ?_⟩ <;> rw [field]
    · omega
    · omega
    · rfl
  refine ⟨replies_in_order 1 MbTransports.fresh 0 [.MEM] _ (by decide) ?_, by decide +kernel⟩
  exact ⟨unhurried_adu (valid 1) rfl rfl, trivial,
    unhurried_adu (valid 2) (by decide +kernel) (by decide +kernel), trivial⟩

/-- Of two requests that come together, the second reply goes past the first one,
    or takes its place. -/
theorem replies_out_of_order :
    let es : List Event := [.recv 0 (some [request 1 ++ request 2]) .OK, .poll 10]
    let past := es.foldl (callback (serve 1)) { server := MbTransports.fresh, writes := [.MEM, .OK] }
    let lost := es.foldl (callback (serve 1)) { server := MbTransports.fresh, writes := [.MEM, .MEM] }
    ¬ past.sent.flatten <+: (replies (serve 1) MbTransports.fresh past.adus).flatten ∧
      past.sent = [[0, 2, 0, 0, 0, 4, 1, 1, 1, 0], [0, 1, 0, 0, 0, 4, 1, 1, 1, 0]] ∧
      lost.pcb = true ∧ lost.tx_pending = [] ∧ lost.adus = [request 1, request 2] ∧
      lost.sent = [[0, 2, 0, 0, 0, 4, 1, 1, 1, 0]] := by
  decide +kernel

end IoEdgeHub.MbReplies
