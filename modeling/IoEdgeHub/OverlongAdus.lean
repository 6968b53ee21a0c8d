import IoEdgeHub.MbReplies
import IoEdgeHub.MultiWrites

/-!
ADUs that declare more than 256 bytes. The connection and the ADU layer clamp the length to
256 each, so that 262 bytes of such an ADU are handed on as a request, and what follows of
it is taken for the next ADU. The module says exactly when nothing comes of this.
-/
namespace IoEdgeHub.OverlongAdus
open IoEdgeHub.Bytes IoEdgeHub.Framing IoEdgeHub.Regmap IoEdgeHub.MbServer IoEdgeHub.MbRequests IoEdgeHub.ModbusTcp
open IoEdgeHub.MultiWrites
open IoEdgeHub.MbTransports (mbtcp_adu_process pdu_len)
open IoEdgeHub.MbReplies (serve)

section
variable {β : Type} (process : List UInt8 → β → Option (List UInt8) × β)

/-- The bytes that a connection receives for as long as it is open. -/
def heard : Conn β → List Event → List UInt8
  | _, [] => []
  | c, e :: rest => if c.pcb then received e ++ heard (callback process c e) rest else []

/-- The server after ADUs. -/
def served (first : β) (adus : List (List UInt8)) : β := adus.foldl (fun server adu => (process adu server).2) first

/-- ADUs have come to those in `adus`, and the last one was to be answered. -/
def Answered (first : β) (adus : List (List UInt8)) (c : Conn β) : Prop :=
  ∃ more adu, c.adus = adus ++ more ++ [adu] ∧ (process adu (served process first (adus ++ more))).1 ≠ none

variable {process} {first : β} {c : Conn β} {now : Nat} {src : List UInt8}

/-- A connection that is closed over an ADU was to answer it. -/
theorem process_frame_cases (server : c.server = served process first c.adus) :
    (process_frame process c).1 = true ∧ (process_frame process c).2.pcb = c.pcb ∨
      (process_frame process c).1 = false ∧ (process_frame process c).2.pcb = false ∧
        Answered process first c.adus (process_frame process c).2 := by
  have adus := (process_frame_done process c).2.1
  cases answer : (process c.rx c.server).1 with
  | none =>
    left
    unfold process_frame
    simp only [answer]
    trivial
  | some tx =>
    have answered : Answered process first c.adus (process_frame process c).2 := by
      refine ⟨[], c.rx, ?_, ?_⟩
      · rw [adus, List.append_nil]
      · rw [List.append_nil, ← server, answer]
        nofun
    revert answered
    unfold process_frame
    simp only [answer]
    obtain ⟨sent, writes, kept⟩ := tcp_write_kept tx
      { c with rx := [], server := (process c.rx c.server).2, adus := c.adus ++ [c.rx] }
    have pcb := congrArg Conn.pcb kept
    split <;> rename_i outcome <;> rw [outcome] at pcb <;> intro answered
    · exact .inl ⟨rfl, pcb⟩
    · exact .inl ⟨rfl, pcb⟩
    · exact .inr ⟨rfl, rfl, answered⟩

theorem rx_round_cases (server : c.server = served process first c.adus) :
    (rx_round process now src c).1 = true ∧ (rx_round process now src c).2.pcb = c.pcb ∨
      (rx_round process now src c).1 = false ∧ (rx_round process now src c).2.pcb = false ∧
        Answered process first c.adus (rx_round process now src c).2 := by
  simp only [rx_round]
  split
  · exact @process_frame_cases β process first
      { c with rx := c.rx ++ src.take (copied c.rx src), t_last_ms := now } server
  · exact .inl ⟨rfl, rfl⟩

theorem rx_round_served (server : c.server = served process first c.adus) :
    (rx_round process now src c).2.server = served process first (rx_round process now src c).2.adus := by
  simp only [rx_round]
  split
  · obtain ⟨_, adus, after⟩ := process_frame_done process
      { c with rx := c.rx ++ src.take (copied c.rx src), t_last_ms := now }
    rw [after, adus, served, List.foldl_append]
    show (process _ c.server).2 = (process _ (served process first c.adus)).2
    rw [server]
  · exact server

/-- What becomes of bytes: they are all fed to the framer, or the connection is closed over an
    ADU that was to be answered. -/
structure Taken (process : List UInt8 → β → Option (List UInt8) × β) (first : β) (c : Conn β) (bytes : List UInt8)
    (c' : Conn β) : Prop where
  outcome : c'.pcb = true ∧ feedAll complete ⟨c.rx, c.adus⟩ bytes = ⟨c'.rx, c'.adus⟩ ∨
    c'.pcb = false ∧ Answered process first c.adus c' ∧ ∃ n, (feedAll complete ⟨c.rx, c.adus⟩ (bytes.take n)).frames = c'.adus
  framed : c'.rx.length < want c'.rx
  server : c'.server = served process first c'.adus

/-- ADUs that have come before do no harm. -/
theorem answered_later {c₁ c₂ : Conn β} {bytes : List UInt8}
    (fed : feedAll complete ⟨c.rx, c.adus⟩ bytes = ⟨c₁.rx, c₁.adus⟩) (answered : Answered process first c₁.adus c₂) :
    Answered process first c.adus c₂ := by
  obtain ⟨before, frames⟩ := @feedAll_keeps _ complete ⟨c.rx, c.adus⟩ bytes
  rw [fed] at frames
  obtain ⟨more, adu, adus, reply⟩ := answered
  have frames : c₁.adus = c.adus ++ before := frames
  refine ⟨before ++ more, adu, ?_, ?_⟩
  · rw [adus, frames, List.append_assoc c.adus]
  · rwa [← List.append_assoc, ← frames]

/-- First some bytes and then others. -/
theorem taken_append {c₁ c₂ : Conn β} {bytes more : List UInt8}
    (fed : feedAll complete ⟨c.rx, c.adus⟩ bytes = ⟨c₁.rx, c₁.adus⟩) (taken : Taken process first c₁ more c₂) :
    Taken process first c (bytes ++ more) c₂ := by
  refine ⟨?_, taken.framed, taken.server⟩
  rcases taken.outcome with ⟨opened, rest⟩ | ⟨closed, answered, n, rest⟩
  · left
    rw [feedAll_append, fed]
    exact ⟨opened, rest⟩
  · right
    refine ⟨closed, answered_later fed answered, bytes.length + n, ?_⟩
    rw [List.take_length_add_append, feedAll_append, fed]
    exact rest

theorem rx_loop_taken (opened : c.pcb = true) (framed : c.rx.length < want c.rx)
    (server : c.server = served process first c.adus) :
    (rx_loop process now src c).1 = (rx_loop process now src c).2.pcb ∧
      Taken process first c src (rx_loop process now src c).2 := by
  fun_induction rx_loop process now src c with
  | case1 c => exact ⟨opened.symm, .inl ⟨opened, rfl⟩, framed, server⟩
  | case2 src c more c' ran ih =>
    have round := @rx_round_feeds _ process now src c framed more
    have framed' := @rx_round_framed _ process now src c
    have server' := @rx_round_served _ process first c now src server
    have cases_ := @rx_round_cases _ process first c now src server
    rw [ran] at round framed' server' cases_
    have opened' : c'.pcb = true := by
      rcases cases_ with ⟨-, pcb⟩ | ⟨stopped, -⟩
      · exact pcb.trans opened
      · cases stopped
    obtain ⟨flag, taken⟩ := ih opened' framed' server'
    refine ⟨flag, ?_⟩
    have whole := taken_append round taken
    rwa [List.take_append_drop] at whole
  | case3 src c more c' ran =>
    have round := @rx_round_feeds _ process now src c framed more
    have framed' := @rx_round_framed _ process now src c
    have server' := @rx_round_served _ process first c now src server
    have cases_ := @rx_round_cases _ process first c now src server
    rw [ran] at round framed' server' cases_
    rcases cases_ with ⟨going, -⟩ | ⟨-, closed, answered⟩
    · cases going
    · exact ⟨closed.symm, .inr ⟨closed, answered, _, congrArg Framer.frames round⟩, framed', server'⟩

theorem rx_chain_taken {chain : List (List UInt8)} (opened : c.pcb = true) (framed : c.rx.length < want c.rx)
    (server : c.server = served process first c.adus) :
    Taken process first c chain.flatten (rx_chain process now chain c) := by
  induction chain generalizing c with
  | nil => exact ⟨.inl ⟨opened, rfl⟩, framed, server⟩
  | cons q rest ih =>
    obtain ⟨flag, taken⟩ := @rx_loop_taken _ process first c now q opened framed server
    rw [rx_chain, List.flatten_cons]
    cases ran : rx_loop process now q c with
    | mk going c' =>
      rw [ran] at flag taken
      rcases taken.outcome with ⟨opened', fed⟩ | ⟨closed, answered, n, fed⟩
      · obtain rfl : going = true := flag.trans opened'
        exact taken_append fed (ih opened' taken.framed taken.server)
      · obtain rfl : going = false := flag.trans closed
        refine ⟨.inr ⟨closed, answered, min n q.length, ?_⟩, taken.framed, taken.server⟩
        rw [List.take_append_of_le_length (Nat.min_le_right ..), ← List.take_take, List.take_length]
        exact fed

/-- A callback, of which the received bytes are taken. Any other way in which it closes the
    connection leaves the ADUs as they were. -/
theorem callback_taken {e : Event} (opened : c.pcb = true) (framed : c.rx.length < want c.rx)
    (server : c.server = served process first c.adus) :
    Taken process first c (received e) (callback process c e) ∨
      (callback process c e).pcb = false ∧ (callback process c e).adus = c.adus ∧ received e = [] := by
  unfold callback
  rw [opened, Bool.not_true, if_neg Bool.false_ne_true]
  cases e with
  | recv now p err =>
    cases p with
    | none => exact .inr ⟨rfl, rfl, rfl⟩
    | some chain =>
      left
      cases err with
      | OK => exact rx_chain_taken opened framed server
      | MEM => exact ⟨.inl ⟨opened, rfl⟩, framed, server⟩
      | other => exact ⟨.inl ⟨opened, rfl⟩, framed, server⟩
  | poll now =>
    obtain ⟨sent, writes, kept⟩ := tcp_write_kept c.tx_pending c
    have pending : (poll_pending c).pcb = true ∧ (poll_pending c).rx = c.rx ∧ (poll_pending c).adus = c.adus ∧
        (poll_pending c).server = c.server ∨ (poll_pending c).pcb = false ∧ (poll_pending c).adus = c.adus := by
      unfold poll_pending
      split
      · exact .inl ⟨opened, rfl, rfl, rfl⟩
      · split <;> rename_i outcome <;> rw [outcome] at kept <;> simp only at kept <;> subst kept
        · exact .inl ⟨opened, rfl, rfl, rfl⟩
        · exact .inl ⟨opened, rfl, rfl, rfl⟩
        · exact .inr ⟨rfl, rfl⟩
    simp only [mb_poll_cb]
    rcases pending with ⟨opened', rx, adus, server'⟩ | ⟨closed, adus⟩
    · split
      · exact .inr ⟨rfl, adus, rfl⟩
      · refine .inl ⟨.inl ⟨opened', ?_⟩, ?_, ?_⟩
        · rw [rx, adus]
          rfl
        · rw [rx]
          exact framed
        · rw [adus, server']
          exact server
    · split
      · exact .inr ⟨rfl, adus, rfl⟩
      · exact .inr ⟨closed, adus, rfl⟩
  | err => exact .inr ⟨rfl, rfl, rfl⟩

theorem closed_stays (closed : c.pcb = false) (es : List Event) :
    heard process c es = [] ∧ es.foldl (callback process) c = c := by
  induction es with
  | nil => exact ⟨rfl, rfl⟩
  | cons e rest ih =>
    have same : callback process c e = c := by
      unfold callback
      rw [closed]
      rfl
    rw [List.foldl_cons, same]
    refine ⟨?_, ih.2⟩
    rw [heard, closed]
    rfl

theorem rx_loop_round (more : src ≠ []) :
    rx_loop process now src c =
      match rx_round process now src c with
      | (true, c') => rx_loop process now (src.drop (copied c.rx src)) c'
      | (false, c') => (false, c') := by
  rw [rx_loop, if_neg more]
  split <;> rename_i ran <;> rw [ran]

/-- The loop over a pbuf takes its first byte as a round of its own would. -/
theorem rx_loop_cons (framed : c.rx.length < want c.rx) (byte : UInt8) :
    rx_loop process now (byte :: src) c =
      match rx_round process now [byte] c with
      | (true, c') => rx_loop process now src c'
      | (false, c') => (false, c') := by
  have more : byte :: src ≠ [] := List.cons_ne_nil _ _
  obtain ⟨pos, le, inside⟩ := copied_bounds framed more
  have one : copied c.rx [byte] = 1 := by
    obtain ⟨some_, single, -⟩ := copied_bounds framed (List.cons_ne_nil byte [])
    exact Nat.le_antisymm single some_
  rw [rx_loop_round more]
  by_cases alone : copied c.rx (byte :: src) = 1
  · -- the round is the same
    have same : rx_round process now (byte :: src) c = rx_round process now [byte] c := by
      simp only [rx_round, alone, one]
      rfl
    rw [same, alone]
    rfl
  · -- the buffer does not come to its wanted length with the byte, and the next round goes on from there
    obtain ⟨rx, is_rx⟩ : ∃ rx, rx = c.rx ++ [byte] := ⟨_, rfl⟩
    have length : rx.length = c.rx.length + 1 := by rw [is_rx, List.length_append]; rfl
    have wanted : want rx = want c.rx := by
      unfold want at inside ⊢
      by_cases header : c.rx.length < 8
      · rw [if_pos header] at inside ⊢
        rw [if_pos (by omega)]
      · rw [if_neg header, if_neg (by omega), is_rx, frame_need_append [byte] (by omega)]
    have first : rx_round process now [byte] c = (true, { c with rx := rx, t_last_ms := now }) := by
      have open_ : complete rx = false := lt_want_iff.mp (by omega)
      simp only [rx_round, one, List.take_succ_cons, List.take_zero, ← is_rx, open_, Bool.false_eq_true, if_false]
    have framed' : rx.length < want rx := by omega
    have rest : copied rx src + 1 = copied c.rx (byte :: src) := by
      unfold copied at alone pos ⊢
      rw [room_eq framed', room_eq framed, wanted, length, List.length_cons] at *
      omega
    have others : src ≠ [] := by
      rintro rfl
      exact alone one
    have next : rx_round process now src { c with rx := rx, t_last_ms := now } = rx_round process now (byte :: src) c := by
      simp only [rx_round, ← rest, List.take_succ_cons, is_rx, List.append_assoc, List.singleton_append]
    rw [first]
    simp only
    rw [rx_loop_round others, ← rest, List.drop_succ_cons, ← next]

/-- Bytes that come at once are taken as in two parts. -/
theorem rx_loop_append {first : List UInt8} (framed : c.rx.length < want c.rx) :
    rx_loop process now (first ++ src) c =
      match rx_loop process now first c with
      | (true, c') => rx_loop process now src c'
      | (false, c') => (false, c') := by
  induction first generalizing c with
  | nil =>
    rw [List.nil_append, rx_loop.eq_def process now [], if_pos rfl]
  | cons byte first ih =>
    have framed' := @rx_round_framed _ process now [byte] c
    rw [List.cons_append, rx_loop_cons framed, rx_loop_cons framed]
    cases round : rx_round process now [byte] c with
    | mk going c' =>
      rw [round] at framed'
      cases going with
      | true => exact ih framed'
      | false => rfl

theorem rx_chain_flatten {chain : List (List UInt8)} (framed : c.rx.length < want c.rx) :
    rx_chain process now chain c = (rx_loop process now chain.flatten c).2 := by
  induction chain generalizing c with
  | nil => rw [rx_chain, List.flatten_nil, rx_loop.eq_def, if_pos rfl]
  | cons q rest ih =>
    have framed' := @rx_loop_keeps _ process now q c (fun c => c.rx.length < want c.rx)
      (fun src c _ => rx_round_framed now src c) framed
    rw [rx_chain, List.flatten_cons, rx_loop_append framed]
    cases ran : rx_loop process now q c with
    | mk going c' =>
      rw [ran] at framed'
      cases going with
      | true => exact ih framed'
      | false => rfl

/-- A callback that delivers bytes, as two that deliver the first `k` of them and the others. -/
theorem callback_cut (opened : c.pcb = true) (framed : c.rx.length < want c.rx) (server : c.server = served process first c.adus)
    (chain : List (List UInt8)) (k : Nat) :
    callback process (callback process c (.recv now (some [chain.flatten.take k]) .OK))
      (.recv now (some [chain.flatten.drop k]) .OK) = callback process c (.recv now (some chain) .OK) := by
  have run (c : Conn β) (opened : c.pcb = true) (framed : c.rx.length < want c.rx) (chain : List (List UInt8)) :
      callback process c (.recv now (some chain) .OK) = (rx_loop process now chain.flatten c).2 := by
    unfold callback
    rw [opened, Bool.not_true, if_neg Bool.false_ne_true]
    exact rx_chain_flatten framed
  have whole := @rx_loop_append _ process c now (chain.flatten.drop k) (chain.flatten.take k) framed
  obtain ⟨flag, taken⟩ := @rx_loop_taken _ process first c now (chain.flatten.take k) opened framed server
  rw [run c opened framed, run c opened framed, List.flatten_singleton]
  rw [List.take_append_drop] at whole
  rw [whole]
  cases ran : rx_loop process now (chain.flatten.take k) c with
  | mk going c' =>
    rw [ran] at flag taken
    obtain rfl : going = c'.pcb := flag
    cases opened' : c'.pcb with
    | true =>
      rw [run c' opened' taken.framed, List.flatten_singleton]
    | false =>
      unfold callback
      rw [opened']
      rfl

/-- The moments of a run: before a callback, and between two of the bytes that one delivers. The
    callbacks that are still to come are given with the connection. -/
inductive Moment (process : List UInt8 → β → Option (List UInt8) × β) (start : Conn β) (run : List Event) :
    Conn β → List Event → Prop
  | start : Moment process start run start run
  | after {c : Conn β} {e : Event} {es : List Event} (before : Moment process start run c (e :: es)) :
      Moment process start run (callback process c e) es
  | inside {c : Conn β} {now : Nat} {chain : List (List UInt8)} {es : List Event} (k : Nat)
      (before : Moment process start run c (.recv now (some chain) .OK :: es)) :
      Moment process start run (callback process c (.recv now (some [chain.flatten.take k]) .OK))
        (.recv now (some [chain.flatten.drop k]) .OK :: es)

/-- At every moment the connection is one that callbacks lead to, and the others lead to where the
    run ends. -/
theorem moment_reached {start : Conn β} {run es : List Event} (moment : Moment process start run c es)
    (framed : start.rx.length < want start.rx) (server : start.server = served process first start.adus) :
    (∃ before : List Event, c = before.foldl (callback process) start) ∧ es.foldl (callback process) c = run.foldl (callback process) start := by
  induction moment with
  | start => exact ⟨⟨[], rfl⟩, rfl⟩
  | @after c e es before ih =>
    obtain ⟨⟨events, rfl⟩, same⟩ := ih
    refine ⟨⟨events ++ [e], ?_⟩, same⟩
    rw [List.foldl_append]
    rfl
  | @inside c now chain es k before ih =>
    obtain ⟨⟨events, rfl⟩, same⟩ := ih
    refine ⟨⟨events ++ [.recv now (some [chain.flatten.take k]) .OK], ?_⟩, ?_⟩
    · rw [List.foldl_append]
      rfl
    · rw [← same, List.foldl_cons, List.foldl_cons]
      cases opened : (events.foldl (callback process) start).pcb with
      | true =>
        have framed' := @Machine.invariant _ _ (callback process) (fun _ _ => True) (fun c => c.rx.length < want c.rx)
          (fun _ _ framed _ => callback_framed framed) start framed events (Machine.meets_of_all fun _ _ _ => trivial)
        have server' := @Machine.invariant _ _ (callback process) (fun _ _ => True) (Served process first)
          (fun _ _ kept _ => callback_served kept) start server events (Machine.meets_of_all fun _ _ _ => trivial)
        rw [callback_cut opened framed' server']
      | false =>
        have stays (e : Event) := (@closed_stays _ process _ opened [e]).2
        simp only [List.foldl_cons, List.foldl_nil] at stays
        rw [stays, stays, stays]

/-- The ADUs of a run are those of the received bytes, or the last one was to be answered and
    they are those of a part of the bytes. -/
theorem run_taken {es : List Event} (opened : c.pcb = true) (framed : c.rx.length < want c.rx)
    (server : c.server = served process first c.adus) :
    (feedAll complete ⟨c.rx, c.adus⟩ (heard process c es)).frames = (es.foldl (callback process) c).adus ∨
      Answered process first c.adus (es.foldl (callback process) c) ∧
        ∃ n, (feedAll complete ⟨c.rx, c.adus⟩ ((heard process c es).take n)).frames =
          (es.foldl (callback process) c).adus := by
  induction es generalizing c with
  | nil => exact .inl rfl
  | cons e rest ih =>
    rw [heard, if_pos opened, List.foldl_cons]
    rcases @callback_taken _ process first c e opened framed server with taken | ⟨closed, adus, nothing⟩
    · rcases taken.outcome with ⟨opened', fed⟩ | ⟨closed, answered, n, fed⟩
      · rcases ih opened' taken.framed taken.server with all | ⟨answered, n, some_⟩
        · left
          rw [feedAll_append, fed]
          exact all
        · refine .inr ⟨answered_later fed answered, (received e).length + n, ?_⟩
          rw [List.take_length_add_append, feedAll_append, fed]
          exact some_
      · obtain ⟨silence, same⟩ := @closed_stays _ process _ closed rest
        rw [silence, same, List.append_nil]
        exact .inr ⟨answered, n, fed⟩
    · obtain ⟨silence, same⟩ := @closed_stays _ process _ closed rest
      rw [silence, same, nothing]
      exact .inl adus.symm

end

/-- An ADU with protocol 0 that declares more than 256 bytes. -/
structure Overlong (bytes : List UInt8) : Prop where
  header : 6 ≤ bytes.length
  proto : io_get_be16 (bytes.drop 2) = 0
  long : 256 < io_get_be16 (bytes.drop 4)

section
variable {bytes rest : List UInt8}

/-- A buffer that holds an ADU still holds it with more behind it. -/
theorem complete_of_take {k : Nat} (whole : complete (rest.take k) = true) : complete rest = true := by
  simp only [complete, decide_eq_true_eq] at whole ⊢
  have le : (rest.take k).length ≤ rest.length := by
    rw [List.length_take]
    exact Nat.min_le_right ..
  have same := @frame_need_append (rest.take k) (rest.drop k) (by omega)
  rw [List.take_append_drop] at same
  omega

/-- Without an ADU in it, nothing comes out. -/
theorem no_frame (none_ : complete rest = false) (out : List (List UInt8)) :
    feedAll complete ⟨[], out⟩ rest = ⟨rest, out⟩ := by
  refine feedAll_collect fun k _ _ => ?_
  by_contra whole
  have all := complete_of_take (Bool.eq_true_of_not_eq_false whole)
  rw [none_] at all
  cases all

/-- A buffer that is not yet full is as good as its bytes ahead of the stream. -/
theorem feedAll_ahead {rx : List UInt8} (framed : rx.length < want rx) (out : List (List UInt8)) (stream : List UInt8) :
    feedAll complete ⟨rx, out⟩ stream = feedAll complete ⟨[], out⟩ (rx ++ stream) := by
  rw [feedAll_append, no_frame (lt_want_iff.mp framed)]

/-- With an ADU in it, something comes out. -/
theorem first_frame (whole : complete rest = true) (out : List (List UInt8)) :
    ∃ frame more, (feedAll complete ⟨[], out⟩ rest).frames = out ++ frame :: more := by
  have enough : 8 ≤ rest.length ∧ frame_need rest ≤ rest.length := of_decide_eq_true whole
  obtain ⟨k, k_⟩ : ∃ k, k = max 8 (frame_need rest) := ⟨_, rfl⟩
  have le : k ≤ rest.length := by omega
  have need (j : Nat) (six : 6 ≤ j) : frame_need (rest.take j) = frame_need rest := by
    have same := @frame_need_append (rest.take j) (rest.drop j) (by rw [List.length_take]; omega)
    rw [List.take_append_drop] at same
    exact same.symm
  have one : feedAll complete ⟨[], out⟩ (rest.take k) = ⟨[], out ++ [rest.take k]⟩ := by
    refine feedAll_complete (List.ne_nil_of_length_pos ?_) (fun j _ low => ?_) ?_
    · rw [List.length_take]
      omega
    · rw [List.length_take] at low
      simp only [complete, decide_eq_false_iff_not, List.nil_append, List.take_take, List.length_take]
      rintro ⟨eight, all⟩
      rw [need _ (by omega)] at all
      omega
    · simp only [complete, decide_eq_true_eq, List.nil_append, List.length_take]
      rw [need k (by omega)]
      omega
  obtain ⟨more, frames⟩ := feedAll_keeps ⟨[], out ++ [rest.take k]⟩ (rest.drop k)
  refine ⟨rest.take k, more, ?_⟩
  rw [← List.take_append_drop k rest, feedAll_append, one, List.take_append_drop, frames]
  simp

theorem overlong_need (overlong : Overlong bytes) : frame_need bytes = 262 := by
  have long := overlong.long
  unfold frame_need
  omega

theorem overlong_take (overlong : Overlong bytes) {n : Nat} (six : 6 ≤ n) : frame_need (bytes.take n) = 262 := by
  have header := overlong.header
  have same := @frame_need_append (bytes.take n) (bytes.drop n) (by rw [List.length_take]; omega)
  rw [List.take_append_drop, overlong_need overlong] at same
  exact same.symm

/-- Fewer than 262 bytes are no ADU. -/
theorem overlong_part (overlong : Overlong bytes) {n : Nat} (few : n < 262 ∨ bytes.length < 262) :
    complete (bytes.take n) = false := by
  simp only [complete, decide_eq_false_iff_not, List.length_take]
  rintro ⟨eight, all⟩
  rw [overlong_take overlong (by omega)] at all
  omega

/-- The first 262 bytes come out as an ADU, and the rest is what comes next. -/
theorem overlong_first (overlong : Overlong bytes) {n : Nat} (many : 262 ≤ n) (all : 262 ≤ bytes.length)
    (out : List (List UInt8)) :
    feedAll complete ⟨[], out⟩ (bytes.take n) =
      feedAll complete ⟨[], out ++ [bytes.take 262]⟩ ((bytes.drop 262).take (n - 262)) := by
  have one : feedAll complete ⟨[], out⟩ (bytes.take 262) = ⟨[], out ++ [bytes.take 262]⟩ := by
    refine feedAll_complete (List.ne_nil_of_length_pos ?_) (fun j _ low => ?_) ?_
    · rw [List.length_take]
      omega
    · rw [List.length_take] at low
      rw [List.nil_append, List.take_take]
      exact overlong_part overlong (.inl (by omega))
    · simp only [complete, decide_eq_true_eq, List.nil_append, List.length_take]
      rw [overlong_take overlong (by omega)]
      omega
  have split_ : bytes.take n = bytes.take 262 ++ (bytes.drop 262).take (n - 262) := by
    rw [← List.take_add, show 262 + (n - 262) = n by omega]
  rw [split_, feedAll_append, one]

end

/-! ### Writes that change something -/

section
variable {s s' : Io} {addr : Nat} {reg : UInt16}

/-- What a write of a register does: the others stay, calls are only added, and a new value
    shows in the register or in the calls. -/
structure Wrote (addr : Nat) (reg : UInt16) (s s' : Io) : Prop where
  others : ∀ a, a ≠ addr → get_holding_reg a s' = get_holding_reg a s
  calls : s.hooks.length ≤ s'.hooks.length
  shows_ : get_holding_reg addr s ≠ reg →
    s.hooks.length < s'.hooks.length ∨ get_holding_reg addr s' ≠ get_holding_reg addr s

theorem io_write_holding_wrote (written : io_write_holding addr reg s = some s') : Wrote addr reg s s' := by
  obtain ⟨inside, ⟨same, rfl⟩ | ⟨differs, new⟩⟩ := io_write_holding_cases written
  · exact ⟨fun _ _ => rfl, Nat.le_refl _, fun differs => absurd same differs⟩
  have put (a : Nat) : get_holding_reg a (s.put addr reg) = if a = addr then reg else get_holding_reg a s :=
    get_holding_reg_put inside reg a s
  have cleared (a : Nat) : get_holding_reg a ((s.put addr reg).put addr 0) = if a = addr then 0 else get_holding_reg a s := by
    rw [get_holding_reg_put inside, put]
    split <;> rfl
  -- the register keeps the value, or it is a switch and a call is made
  have plain (t : Io) (same : t.holding_reg = (s.put addr reg).holding_reg) (calls : s.hooks.length ≤ t.hooks.length) :
      Wrote addr reg s t := by
    refine ⟨fun a other => ?_, calls, fun _ => .inr ?_⟩
    · rw [get_holding_reg_congr same, put, if_neg other]
    · rw [get_holding_reg_congr same, put, if_pos rfl]
      exact fun same => differs same.symm
  have switch (t : Io) (same : t.holding_reg = ((s.put addr reg).put addr 0).holding_reg)
      (calls : s.hooks.length < t.hooks.length) : Wrote addr reg s t := by
    refine ⟨fun a other => ?_, Nat.le_of_lt calls, fun _ => .inl calls⟩
    rw [get_holding_reg_congr same, cleared, if_neg other]
  cases new with
  | output _ => exact plain _ rfl (by simp [mb_set_do])
  | history _ => exact plain _ rfl (by simp [history_enable_write])
  | time _ =>
    refine plain _ (set_timestamp_regs _ _) ?_
    rw [set_timestamp_hooks]
    simp
  | save _ => exact switch _ rfl (by simp [holding_reg_save])
  | restart _ _ => exact switch _ rfl (by simp [io_reboot_cold, history_sync])
  | no_restart _ asked =>
    refine ⟨fun a other => (cleared a).trans (if_neg other), Nat.le_refl _, fun _ => .inr ?_⟩
    rw [cleared, if_pos rfl]
    exact fun same => differs (same.symm.trans asked.symm)
  | plain _ => exact plain _ rfl (Nat.le_refl _)

/-- Writes from the address `a` on leave the registers before it, and only add calls. -/
theorem write_each_keeps {values : List UInt16} {a : Nat} :
    (∀ b, b < a → get_holding_reg b (write_each io_write_holding a values s).2 = get_holding_reg b s) ∧
      s.hooks.length ≤ (write_each io_write_holding a values s).2.hooks.length := by
  induction values generalizing a s with
  | nil => exact ⟨fun _ _ => rfl, Nat.le_refl _⟩
  | cons v rest ih =>
    rw [write_each]
    cases written : io_write_holding a v s with
    | none => exact ⟨fun _ _ => rfl, Nat.le_refl _⟩
    | some s₁ =>
      have wrote := io_write_holding_wrote written
      obtain ⟨regs, calls⟩ := @ih s₁ (a + 1)
      refine ⟨fun b low => ?_, wrote.calls.trans calls⟩
      rw [regs b (by omega), wrote.others b (by omega)]

/-- The values are those that the registers hold, as far as there are registers. -/
def Held (s : Io) (a : Nat) (values : List UInt16) : Prop :=
  ∀ i v, values[i]? = some v → a + i < MODBUS_HOLDING_REGISTER_NUMBERS → get_holding_reg (a + i) s = v

/-- Writes of registers leave everything as it was exactly if the registers hold the values. -/
theorem write_each_same {values : List UInt16} {a : Nat} :
    (write_each io_write_holding a values s).2 = s ↔ Held s a values := by
  induction values generalizing a with
  | nil => exact ⟨fun _ i v none_ => by simp at none_, fun _ => rfl⟩
  | cons v rest ih =>
    by_cases inside : a < MODBUS_HOLDING_REGISTER_NUMBERS
    · by_cases same : get_holding_reg a s = v
      · have written : io_write_holding a v s = some s := by
          rw [io_write_holding, if_neg (Nat.not_le.mpr inside), if_pos same]
        rw [write_each, written]
        simp only [ih]
        constructor
        · intro held i w at_ low
          cases i with
          | zero => exact same.trans (Option.some.inj at_)
          | succ i => simpa [Nat.add_assoc, Nat.add_comm 1] using held i w at_ (by omega)
        · intro held i w at_ low
          simpa [Nat.add_assoc, Nat.add_comm 1] using held (i + 1) w at_ (by omega)
      · obtain ⟨s₁, written⟩ : ∃ s₁, io_write_holding a v s = some s₁ := by
          rw [io_write_holding, if_neg (Nat.not_le.mpr inside), if_neg same]
          exact ⟨_, rfl⟩
        have wrote := io_write_holding_wrote written
        rw [write_each, written]
        obtain ⟨regs, calls⟩ := @write_each_keeps s₁ rest (a + 1)
        constructor
        · intro unchanged
          exfalso
          rcases wrote.shows_ same with more | differs
          · rw [unchanged] at calls
            omega
          · rw [← regs a (by omega), unchanged] at differs
            exact differs rfl
        · intro held
          exact absurd (held 0 v rfl inside) same
    · have written : io_write_holding a v s = none := by
        rw [io_write_holding, if_pos (Nat.not_lt.mp inside)]
      rw [write_each, written]
      refine ⟨fun _ i w _ low => absurd low (by omega), fun _ => rfl⟩

/-- Writes of coils leave everything as it was only if the first one does not exist. -/
theorem write_each_coils {states : List Bool} {a : Nat} (some_ : states ≠ []) :
    (write_each io_write_do_bit a states s).2 = s ↔ DO_NUM ≤ a := by
  have grows (states : List Bool) (a : Nat) (s : Io) :
      s.hooks.length ≤ (write_each io_write_do_bit a states s).2.hooks.length := by
    induction states generalizing a s with
    | nil => exact Nat.le_refl _
    | cons b rest ih =>
      rw [write_each]
      cases written : io_write_do_bit a b s with
      | none => exact Nat.le_refl _
      | some s₁ =>
        have calls : s₁.hooks.length = s.hooks.length + 1 := by
          unfold io_write_do_bit at written
          split at written
          · cases written
          · cases written
            simp [mb_set_do]
        have rest_ := ih (a + 1) s₁
        show _ ≤ (write_each io_write_do_bit (a + 1) rest s₁).2.hooks.length
        omega
  cases states with
  | nil => exact absurd rfl some_
  | cons b rest =>
    by_cases outside : DO_NUM ≤ a
    · have written : io_write_do_bit a b s = none := if_pos outside
      rw [write_each, written]
      exact ⟨fun _ => outside, fun _ => rfl⟩
    · obtain ⟨s₁, written, calls⟩ : ∃ s₁, io_write_do_bit a b s = some s₁ ∧ s₁.hooks.length = s.hooks.length + 1 :=
        ⟨_, if_neg outside, by simp [mb_set_do]⟩
      rw [write_each, written]
      refine ⟨fun unchanged => ?_, fun low => absurd low outside⟩
      have more := grows rest (a + 1) s₁
      simp only at unchanged
      rw [unchanged] at more
      omega

end

/-- The function codes that have a data part of four bytes and are silent on any other. -/
def silent_codes : List UInt8 := [1, 2, 3, 4, 5, 6, 8]

/-- A PDU of 255 bytes that writes a coil or changes a register. -/
def Moves (s : Io) (fc : UInt8) (d : List UInt8) : Prop :=
  fc = MB_FC15_COILS_WR ∧ byteCount d = 249 ∧ 1985 ≤ quantity d ∧ quantity d ≤ 1992 ∧ address d < DO_NUM ∨
    fc = MB_FC16_HOLDING_REGS_WR ∧ byteCount d = 249 ∧ 84 ≤ quantity d ∧ quantity d ≤ 124 ∧
      ¬ Held s (address d) (words d 5 (quantity d))

section
variable {fc : UInt8} {d : List UInt8} {s : Srv}

theorem ended_answer (fc : UInt8) (start qty : Nat) (done : Bool × Io) (s : Srv) :
    (ended fc start qty done s).1 ≠ none ∧ (ended fc start qty done s).2.io = done.2 := by
  unfold ended
  split <;> exact ⟨nofun, rfl⟩

/-- The quantities of which 249 bytes are two bytes each, in the reckoning of the decoder. -/
theorem ratio_iff {q : Nat} (some_ : 0 < q) : 249 / q = 2 ↔ 84 ≤ q ∧ q ≤ 124 := by
  rw [Nat.div_eq_iff some_]
  omega

theorem coils_moves (length : d.length = 254) (s : Srv) :
    ∃ a, fc15_coils_write d s = some a ∧ a.1 ≠ none ∧ (a.2.io = s.io ↔ ¬ Moves s.io MB_FC15_COILS_WR d) := by
  obtain ⟨a, ran, conforms, -⟩ := @fc15_coils_write_conforms d s (fun _ => True) fun _ _ _ _ _ _ => trivial
  have moves : Moves s.io MB_FC15_COILS_WR d ↔
      byteCount d = 249 ∧ 1985 ≤ quantity d ∧ quantity d ≤ 1992 ∧ address d < DO_NUM := by
    simp [Moves, MB_FC15_COILS_WR, MB_FC16_HOLDING_REGS_WR]
  rw [if_neg (by omega)] at conforms
  by_cases good : byteCount d = 249 ∧ 1985 ≤ quantity d ∧ quantity d ≤ 1992
  · have written := @fc15_written d s (by omega) (by omega) (by omega) (by omega)
    obtain ⟨answered, io⟩ := ended_answer MB_FC15_COILS_WR (address d) (quantity d)
      (write_each io_write_do_bit (address d) (states (d.drop 5) 0 (quantity d)) s.io) s
    refine ⟨_, written, answered, ?_⟩
    have some_ : states (d.drop 5) 0 (quantity d) ≠ [] := by
      refine List.ne_nil_of_length_pos ?_
      rw [states, List.length_map, List.length_range]
      omega
    rw [io, write_each_coils some_, moves]
    omega
  · have refused : Conforms 15 s.io (.exception 0x03) a := by
      split_ifs at conforms <;> first | exact conforms | omega
    refine ⟨a, ran, ?_, ?_⟩
    · rw [refused.1]
      exact Option.some_ne_none _
    · rw [moves]
      exact ⟨fun _ => by omega, fun _ => refused.2⟩

theorem registers_moves (length : d.length = 254) (s : Srv) :
    ∃ a, fc16_hregs_write d s = some a ∧ a.1 ≠ none ∧ (a.2.io = s.io ↔ ¬ Moves s.io MB_FC16_HOLDING_REGS_WR d) := by
  obtain ⟨a, ran, conforms, -⟩ := @fc16_hregs_write_conforms d s (fun _ => True) fun _ _ _ _ _ _ => trivial
  have moves : Moves s.io MB_FC16_HOLDING_REGS_WR d ↔ byteCount d = 249 ∧ 84 ≤ quantity d ∧ quantity d ≤ 124 ∧
      ¬ Held s.io (address d) (words d 5 (quantity d)) := by
    simp [Moves, MB_FC15_COILS_WR, MB_FC16_HOLDING_REGS_WR]
  rw [if_neg (by omega)] at conforms
  by_cases good : byteCount d = 249 ∧ 84 ≤ quantity d ∧ quantity d ≤ 124 ∧ address d < MB_FP_EXTENSIONS_ADDR
  · obtain ⟨count, least, most, low⟩ := good
    have ratio : byteCount d / quantity d = 2 := by
      rw [count]
      exact (ratio_iff (by omega)).mpr ⟨least, most⟩
    have written := @fc16_written d s (by omega) (by omega) low ratio (by omega)
    obtain ⟨answered, io⟩ := ended_answer MB_FC16_HOLDING_REGS_WR (address d) (quantity d)
      (write_each io_write_holding (address d) (words d 5 (quantity d)) s.io) s
    refine ⟨_, written, answered, ?_⟩
    rw [io, write_each_same, moves]
    constructor
    · rintro held ⟨_, _, _, differs⟩
      exact differs held
    · intro still
      by_contra differs
      exact still ⟨count, least, most, differs⟩
  · have refused : ∃ code, Conforms 16 s.io (.exception code) a := by
      split_ifs at conforms with bad extension uneven
      · exact ⟨_, conforms⟩
      · exact ⟨_, conforms⟩
      · exact ⟨_, conforms⟩
      · obtain ⟨two, size⟩ := not_or.mp uneven
        have count : byteCount d = 249 := by omega
        have two : 249 / quantity d = 2 := by
          rw [← count]
          exact not_not.mp two
        have bounds := (ratio_iff (by omega)).mp two
        exact absurd ⟨count, bounds.1, bounds.2, Nat.not_le.mp extension⟩ good
    obtain ⟨code, refused⟩ := refused
    refine ⟨a, ran, ?_, ?_⟩
    · rw [refused.1]
      exact Option.some_ne_none _
    · rw [moves]
      refine ⟨fun _ => ?_, fun _ => refused.2⟩
      rintro ⟨count, least, most, differs⟩
      -- with no register at the address there is none that does not hold its value
      refine differs fun i v _ inside => ?_
      unfold MODBUS_HOLDING_REGISTER_NUMBERS at inside
      unfold MB_FP_EXTENSIONS_ADDR at good
      omega

/-- The decoder on a PDU of 255 bytes. -/
theorem decoder_moves (length : d.length = 254) (s : Srv) :
    if fc ∈ silent_codes then (mb_server_process (fc :: d) s).1 = none ∧ (mb_server_process (fc :: d) s).2.io = s.io
    else (mb_server_process (fc :: d) s).1 ≠ none ∧ ((mb_server_process (fc :: d) s).2.io = s.io ↔ ¬ Moves s.io fc d) := by
  obtain ⟨total, conforms, -⟩ := @mb_server_process_conforms (fun _ => True) (fun _ _ _ _ _ _ => trivial)
    (fun _ _ _ _ _ _ => trivial) fc d s
  split
  · rename_i silent
    have bad : BadLength fc d := .inl ⟨silent, by omega⟩
    rw [reference, if_pos bad] at conforms
    exact conforms
  · rename_i heard
    have ran : dispatch fc d (mb_server_diag_count .SRV_MSG (mb_server_diag_count .BUS_MSG s)) =
        some (mb_server_process (fc :: d) s) := total
    by_cases coils : fc = MB_FC15_COILS_WR
    · subst coils
      obtain ⟨a, ran', answered⟩ := coils_moves length (mb_server_diag_count .SRV_MSG (mb_server_diag_count .BUS_MSG s))
      obtain rfl : a = mb_server_process (MB_FC15_COILS_WR :: d) s := Option.some.inj (ran'.symm.trans ran)
      exact answered
    by_cases registers : fc = MB_FC16_HOLDING_REGS_WR
    · subst registers
      obtain ⟨a, ran', answered⟩ := registers_moves length (mb_server_diag_count .SRV_MSG (mb_server_diag_count .BUS_MSG s))
      obtain rfl : a = mb_server_process (MB_FC16_HOLDING_REGS_WR :: d) s := Option.some.inj (ran'.symm.trans ran)
      exact answered
    have unknown : fc ∉ [1, 2, 3, 4, 5, 6, 8, 15, 16] := by
      simp only [silent_codes, List.mem_cons, List.not_mem_nil, or_false, not_or] at heard ⊢
      exact ⟨heard.1, heard.2.1, heard.2.2.1, heard.2.2.2.1, heard.2.2.2.2.1, heard.2.2.2.2.2.1, heard.2.2.2.2.2.2, coils,
        registers⟩
    rw [reference_unknown d s.io unknown] at conforms
    refine ⟨?_, ?_⟩
    · rw [conforms.1]
      exact Option.some_ne_none _
    · refine ⟨fun _ => ?_, fun _ => conforms.2⟩
      rintro (⟨is15, -⟩ | ⟨is16, -⟩)
      · exact coils is15
      · exact registers is16

end

/-- The first 262 bytes are a request without a reply and without an effect: of a function code
    that is silent on them, or to all units without a write that changes anything. -/
def Quiet (s : Io) (adu : List UInt8) : Prop :=
  adu.getD 7 0 ∈ silent_codes ∨ adu.getD 6 0 = 0 ∧ ¬ Moves s (adu.getD 7 0) (adu.drop 8)

/-- What is sent and counted when the decoder has answered the PDU of an ADU. -/
def answered (adu : List UInt8) (answer : Answer) : Option (List UInt8) × Srv :=
  let (rsp, s) := answer
  if adu.getD 6 0 = 0 then (none, mb_server_diag_count .NO_RESP s)
  else
    match rsp with
    | none => (none, mb_server_diag_count .NO_RESP s)
    | some rsp_pdu => (some (MbTransports.mbap (io_get_be16 adu) 0 (rsp_pdu.length + 1) (adu.getD 6 0) rsp_pdu), s)

theorem quiet_iff {adu : List UInt8} (overlong : Overlong adu) (length : adu.length = 262) (srv_unit : UInt8) (s : Srv) :
    (serve srv_unit adu s).1 = none ∧ (serve srv_unit adu s).2.io = s.io ↔ Quiet s.io adu := by
  have long := overlong.long
  have pdu_len_ : pdu_len (io_get_be16 (adu.drop 4)) 262 = 255 := by
    simp [pdu_len, MbTransports.MBTCP_MBAP_LEN_CLAMP, long]
  have pdu : (adu.drop 7).take 255 = adu.getD 7 0 :: adu.drop 8 := by
    rw [List.take_of_length_le (by rw [List.length_drop]; omega), List.drop_eq_getElem_cons (by omega),
      List.getD_eq_getElem?_getD, List.getElem?_eq_getElem (by omega)]
    rfl
  have decoded := @decoder_moves (adu.getD 7 0) (adu.drop 8) (by rw [List.length_drop]; omega) s
  have ran : serve srv_unit adu s = answered adu (mb_server_process (adu.getD 7 0 :: adu.drop 8) s) := by
    simp only [serve, mbtcp_adu_process, length, overlong.proto, pdu_len_, pdu, ne_eq, not_true_eq_false, if_false,
      Nat.lt_irrefl, if_neg (show ¬ 262 < 8 by decide)]
    rfl
  rw [ran, answered.eq_def]
  unfold Quiet
  split at decoded
  · rename_i silent
    obtain ⟨none_, still⟩ := decoded
    refine iff_of_true ?_ (.inl silent)
    simp only [none_]
    split <;> exact ⟨rfl, still⟩
  · rename_i heard
    obtain ⟨some_, still⟩ := decoded
    obtain ⟨rsp, rsp_⟩ := Option.ne_none_iff_exists'.mp some_
    simp only [rsp_, heard, false_or]
    by_cases all : adu.getD 6 0 = 0
    · simp only [all, if_true, true_and]
      exact still
    · simp only [all, false_and, iff_false]
      rintro ⟨sent, _⟩
      cases sent

/-! ### Runs -/

/-- What is asked of an over-long ADU: the first of the ADUs that the server was given has no reply
    and no effect, and every other begins behind all the bytes that the over-long one declares. -/
structure Ignored (srv_unit : UInt8) (s : Srv) (bytes : List UInt8) (given : List (List UInt8)) : Prop where
  silent : ∀ adu, given.head? = some adu → (serve srv_unit adu s).1 = none
  unmoved : ∀ adu, given.head? = some adu → (serve srv_unit adu s).2.io = s.io
  behind : ∀ k, 0 < k → k < given.length → 6 + io_get_be16 (bytes.drop 4) ≤ (given.take k).flatten.length

/-- Less than 262 bytes arrive, or they have no reply and no effect and what follows them is no ADU. -/
def Harmless (s : Io) (bytes : List UInt8) : Prop :=
  bytes.length < 262 ∨ Quiet s (bytes.take 262) ∧ complete (bytes.drop 262) = false

theorem overlong_header {bytes : List UInt8} (overlong : Overlong bytes) (all : 262 ≤ bytes.length) :
    Overlong (bytes.take 262) ∧ (bytes.take 262).length = 262 := by
  have at_ (i : Nat) (low : i < 6) : byteAt ((bytes.take 262).drop (i / 2 * 2)) (i % 2) = byteAt (bytes.drop (i / 2 * 2)) (i % 2) := by
    simp only [byteAt, List.getD_eq_getElem?_getD, List.getElem?_drop]
    rw [List.getElem?_take_of_lt (by omega)]
  have length : (bytes.take 262).length = 262 := List.length_take_of_le all
  refine ⟨⟨by omega, ?_, ?_⟩, length⟩
  · have proto := overlong.proto
    have first := at_ 2 (by decide)
    have second := at_ 3 (by decide)
    unfold io_get_be16 at proto ⊢
    rw [first, second]
    exact proto
  · have long := overlong.long
    have first := at_ 4 (by decide)
    have second := at_ 5 (by decide)
    unfold io_get_be16 at long ⊢
    rw [first, second]
    exact long

/-- The ADUs of a part of the bytes. -/
theorem given_of_part {bytes : List UInt8} (overlong : Overlong bytes) {n : Nat} {out adus : List (List UInt8)}
    (fed : (feedAll complete ⟨[], out⟩ (bytes.take n)).frames = adus) :
    (n < 262 ∨ bytes.length < 262) ∧ adus.drop out.length = [] ∨
      262 ≤ n ∧ 262 ≤ bytes.length ∧ ∃ more, adus.drop out.length = bytes.take 262 :: more ∧
        (complete (bytes.drop 262) = false → more = []) := by
  by_cases few : n < 262 ∨ bytes.length < 262
  · left
    rw [no_frame (overlong_part overlong few)] at fed
    refine ⟨few, ?_⟩
    rw [← fed, List.drop_length]
  · right
    have many : 262 ≤ n ∧ 262 ≤ bytes.length := by omega
    rw [overlong_first overlong many.1 many.2] at fed
    obtain ⟨more, frames⟩ := @feedAll_keeps _ complete ⟨[], out ++ [bytes.take 262]⟩ ((bytes.drop 262).take (n - 262))
    refine ⟨many.1, many.2, more, ?_, fun none_ => ?_⟩
    · rw [← fed, frames, List.append_assoc, List.drop_left]
      rfl
    · have rest : complete ((bytes.drop 262).take (n - 262)) = false := by
        by_contra whole
        rw [complete_of_take (Bool.eq_true_of_not_eq_false whole)] at none_
        cases none_
      rw [no_frame rest] at frames
      exact List.self_eq_append_right.mp frames

/-- With an ADU given to the server, only this one may be given. -/
theorem ignored_iff {bytes : List UInt8} (overlong : Overlong bytes) (all : 262 ≤ bytes.length) (srv_unit : UInt8)
    (s : Srv) (more : List (List UInt8)) :
    Ignored srv_unit s bytes (bytes.take 262 :: more) ↔ Quiet s.io (bytes.take 262) ∧ more = [] := by
  obtain ⟨overlong', length⟩ := overlong_header overlong all
  constructor
  · intro ignored
    refine ⟨(quiet_iff overlong' length srv_unit s).mp ⟨ignored.silent _ rfl, ignored.unmoved _ rfl⟩, ?_⟩
    by_contra others
    have some_ := List.length_pos_iff.mpr others
    have behind := ignored.behind 1 (by decide) (by rw [List.length_cons]; omega)
    have long := overlong.long
    rw [List.take_succ_cons, List.take_zero, List.flatten_cons, List.flatten_nil, List.append_nil, length] at behind
    omega
  · rintro ⟨quiet, rfl⟩
    obtain ⟨silent, unmoved⟩ := (quiet_iff overlong' length srv_unit s).mpr quiet
    refine ⟨?_, ?_, ?_⟩
    · rintro adu ⟨⟩
      exact silent
    · rintro adu ⟨⟩
      exact unmoved
    · intro k pos low
      rw [List.length_singleton] at low
      omega

/-- With all bytes fed, nothing is given after the ADU exactly if what follows it is no ADU. -/
theorem alone_iff {bytes : List UInt8} (overlong : Overlong bytes) (all : 262 ≤ bytes.length) {out adus more : List (List UInt8)}
    (fed : (feedAll complete ⟨[], out⟩ (bytes.take bytes.length)).frames = adus)
    (given : adus.drop out.length = bytes.take 262 :: more) (rest : complete (bytes.drop 262) = false → more = []) :
    more = [] ↔ complete (bytes.drop 262) = false := by
  refine ⟨fun none_ => ?_, rest⟩
  by_contra whole
  obtain ⟨frame, others, frames⟩ := first_frame (Bool.eq_true_of_not_eq_false whole) (out ++ [bytes.take 262])
  have behind : (bytes.drop 262).take (bytes.length - 262) = bytes.drop 262 :=
    List.take_of_length_le (Nat.le_of_eq List.length_drop)
  rw [overlong_first overlong all all, behind, frames] at fed
  rw [← fed, List.append_assoc, List.drop_left, none_] at given
  cases given

/-- If the last ADU given is answered, the over-long one is not alone and of no consequence. -/
theorem answered_heard {bytes : List UInt8} (overlong : Overlong bytes) (all : 262 ≤ bytes.length) (srv_unit : UInt8) {s : Srv}
    {more others : List (List UInt8)} {adu : List UInt8} (given : bytes.take 262 :: more = others ++ [adu])
    (reply : others = [] → (serve srv_unit adu s).1 ≠ none) : ¬ (Quiet s.io (bytes.take 262) ∧ more = []) := by
  rintro ⟨quiet, rfl⟩
  obtain ⟨rfl, same⟩ : others = [] ∧ bytes.take 262 = adu := by
    cases others with
    | nil => exact ⟨rfl, (List.cons.inj given).1⟩
    | cons f rest => simp at given
  obtain ⟨overlong', length⟩ := overlong_header overlong all
  rw [← same] at reply
  exact reply rfl ((quiet_iff overlong' length srv_unit s).mpr quiet).1

/-- At any moment of any run: of an over-long ADU whose first byte is the next that is expected
    nothing comes exactly if fewer than 262 bytes of it arrive, or if these are of no consequence
    and what follows them is no ADU. -/
theorem overlong_ignored_iff (srv_unit : UInt8) (first : Srv) (t_last_ms : Nat) (writes : List Err) (run : List Event)
    (c : Conn Srv) (es : List Event)
    (moment : Moment (serve srv_unit) { server := first, t_last_ms := t_last_ms, writes := writes } run c es) :
    let start : Conn Srv := { server := first, t_last_ms := t_last_ms, writes := writes }
    let bytes := c.rx ++ heard (serve srv_unit) c es
    let given := (run.foldl (callback (serve srv_unit)) start).adus.drop c.adus.length
    c.pcb = true → Overlong bytes → (Ignored srv_unit c.server bytes given ↔ Harmless c.server.io bytes) := by
  intro start bytes given opened overlong
  obtain ⟨⟨before, reached⟩, ends⟩ := @moment_reached _ (serve srv_unit) first c start run es moment (by decide : [].length < want []) rfl
  have framed : c.rx.length < want c.rx := reached ▸ @Machine.invariant _ _ (callback (serve srv_unit)) (fun _ _ => True)
    (fun c => c.rx.length < want c.rx) (fun _ _ framed _ => callback_framed framed) _ (by decide : [].length < want []) before
    (Machine.meets_of_all fun _ _ _ => trivial)
  have server : c.server = served (serve srv_unit) first c.adus := reached ▸ @Machine.invariant _ _ (callback (serve srv_unit))
    (fun _ _ => True) (Served (serve srv_unit) first) (fun _ _ kept _ => callback_served kept) start rfl before
    (Machine.meets_of_all fun _ _ _ => trivial)
  have is_given : given = (es.foldl (callback (serve srv_unit)) c).adus.drop c.adus.length := by rw [ends]
  have part (n : Nat) : c.rx ++ (heard (serve srv_unit) c es).take n = bytes.take (c.rx.length + n) :=
    (List.take_length_add_append n).symm
  rcases @run_taken _ (serve srv_unit) first c es opened framed server with fed | ⟨answered, n, fed⟩
  · rw [feedAll_ahead framed] at fed
    have fed' : (feedAll complete ⟨[], c.adus⟩ (bytes.take bytes.length)).frames =
        (es.foldl (callback (serve srv_unit)) c).adus := by
      rw [List.take_length]
      exact fed
    rcases given_of_part overlong fed' with ⟨few, none_⟩ | ⟨-, all, more, given_, rest⟩
    · have given_ : given = [] := is_given.trans none_
      rw [given_]
      exact ⟨fun _ => .inl (by omega), fun _ => ⟨nofun, nofun, fun k _ low => absurd low (Nat.not_lt_zero k)⟩⟩
    · have last := alone_iff overlong all fed' given_ rest
      have given_' : given = _ := is_given.trans given_
      rw [given_', ignored_iff overlong all, last]
      exact ⟨.inr, fun harmless => harmless.resolve_left (Nat.not_lt.mpr all)⟩
  · rw [feedAll_ahead framed, part] at fed
    obtain ⟨others, adu, adus, reply⟩ := answered
    have given_ : given = others ++ [adu] := by
      rw [is_given, adus, List.append_assoc, List.drop_left]
    rcases given_of_part overlong fed with ⟨-, none_⟩ | ⟨-, all, more, given_', rest⟩
    · have none_ : given = [] := is_given.trans none_
      rw [given_] at none_
      simp at none_
    · have given_' : given = bytes.take 262 :: more := is_given.trans given_'
      have answered : ¬ (Quiet c.server.io (bytes.take 262) ∧ more = []) := by
        refine answered_heard overlong all srv_unit (given_'.symm.trans given_) fun first_ => ?_
        rwa [first_, List.append_nil, ← server] at reply
      rw [given_', ignored_iff overlong all]
      refine iff_of_false answered ?_
      rintro (few | ⟨quiet, none_⟩)
      · omega
      · exact answered ⟨quiet, rest none_⟩

/-- A request to read registers that declares 268 bytes, and of which 12 are a request to switch on
    the first output. -/
def smuggling : List UInt8 :=
  MbTransports.mbap 1 0 268 1 (0x03 :: List.replicate 254 0) ++ MbTransports.mbap 2 0 6 1 [0x06, 0, 0, 0, 1]

/-- All of the smuggling ADU arrives, and the output is switched on and the request for it answered. -/
theorem overlong_switches_output :
    let c := callback (serve 1) { server := MbTransports.fresh } (.recv 0 (some [smuggling]) .OK)
    smuggling.length = 6 + io_get_be16 (smuggling.drop 4) ∧ Overlong smuggling ∧
      c.server.io.hooks = [.mb_set_do 1] ∧ c.sent = [[0, 2, 0, 0, 0, 6, 1, 6, 0, 0, 0, 1]] ∧
      ¬ Ignored 1 MbTransports.fresh smuggling c.adus := by
  intro c
  have ran : smuggling.length = 274 ∧ 6 + io_get_be16 (smuggling.drop 4) = 274 ∧ c.server.io.hooks = [.mb_set_do 1] ∧
      c.sent = [[0, 2, 0, 0, 0, 6, 1, 6, 0, 0, 0, 1]] ∧ c.adus.length = 2 ∧ (c.adus.take 1).flatten.length = 262 := by
    decide +kernel
  obtain ⟨length, declared, hooks, sent, two, first⟩ := ran
  refine ⟨length.trans declared.symm, ⟨by omega, by decide, by omega⟩, hooks, sent, ?_⟩
  intro ignored
  have behind := ignored.behind 1 (by decide) (by omega)
  omega

/-- A request to read an output, and with it the first bytes of the smuggling ADU, of which only the
    first 262 and one more arrive. -/
theorem overlong_ignored_cut :
    let read := MbTransports.mbap 9 0 6 1 [0x01, 0, 0, 0, 1]
    let run : List Event := [.recv 0 (some [read ++ smuggling.take 5]) .OK, .recv 1 (some [(smuggling.take 263).drop 5]) .OK]
    let c := run.foldl (callback (serve 1)) { server := MbTransports.fresh }
    let s := callback (serve 1) { server := MbTransports.fresh } (.recv 0 (some [read]) .OK)
    s.adus = [read] ∧ Ignored 1 s.server (smuggling.take 263) (c.adus.drop 1) ∧ c.rx = [0] := by
  intro read run c s
  have begun : s.adus = [read] := by decide +kernel
  have moment : Moment (serve 1) { server := MbTransports.fresh } run s
      [.recv 0 (some [smuggling.take 5]) .OK, .recv 1 (some [(smuggling.take 263).drop 5]) .OK] :=
    .inside 12 .start
  have heard_ : s.rx ++ heard (serve 1) s [.recv 0 (some [smuggling.take 5]) .OK, .recv 1 (some [(smuggling.take 263).drop 5]) .OK] =
      smuggling.take 263 := by decide +kernel
  have iff_ := overlong_ignored_iff 1 MbTransports.fresh 0 [] run s _ moment (by decide +kernel)
    (by rw [heard_]; exact ⟨by decide +kernel, by decide +kernel, by decide +kernel⟩)
  rw [heard_, begun] at iff_
  refine ⟨begun, iff_.mpr (.inr ⟨.inl ?_, ?_⟩), ?_⟩
  · decide
  · decide
  · decide +kernel

end IoEdgeHub.OverlongAdus
