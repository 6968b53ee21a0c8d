import IoEdgeHub.RtuFrames

/-!
The diagnostic counters. They are counted up in the decoder and on every way out of the
two transports, and cleared by a request that is itself counted. `tally` says what they
are meant to be, by counting in the log of all frames and ADUs from the last clear on; the
module proves that they are this, and that a request for a counter is answered with it.
-/
namespace IoEdgeHub.Diagnostics
open IoEdgeHub.Bytes IoEdgeHub.MbServer IoEdgeHub.MbRequests IoEdgeHub.MbTransports IoEdgeHub.RtuFrames

/-- What comes to the server: the bytes before a silence on the serial line, or an ADU. -/
inductive Traffic
  | rtu (feeds : List (List UInt8))
  | tcp (adu : List UInt8)

/-- The PDU that is handed to the decoder, if there is one. -/
def handed (srv_unit : UInt8) : Traffic → Option (List UInt8)
  | .rtu feeds => if Accepted srv_unit feeds.flatten then some (pdu_of feeds.flatten) else none
  | .tcp adu =>
    if io_get_be16 (adu.drop 2) = 0 then some ((adu.drop 7).take (pdu_len (io_get_be16 (adu.drop 4)) adu.length)) else none

/-- What was seen of a frame or an ADU: the PDU handed to the decoder, the reply it built, and the reply that was sent. -/
structure Seen where
  traffic : Traffic
  handed : Option (List UInt8)
  built : Option (List UInt8)
  sent : Option (List UInt8)

/-- The server behind both transports, and the log of what was seen. -/
structure Device where
  rtu : Rtu
  srv : Srv
  log : List Seen := []

/-- A frame or an ADU through the code: the framer and the server after it, and the reply that was sent. -/
def receive (d : Device) : Traffic → (Rtu × Srv) × Option (List UInt8)
  | .rtu feeds =>
    let after := rtu_t35_expired (feeds.foldl rtu_rx_feed d.rtu) d.srv
    (after, (after.1.transmitted.drop d.rtu.transmitted.length).head?)
  | .tcp adu =>
    let (rsp, s) := mbtcp_adu_process MBTCP_ADU_TX_MAX d.rtu.srv_unit adu d.srv
    ((d.rtu, s), rsp)

/-- What is seen of it. -/
def Device.sees (d : Device) (t : Traffic) : Seen :=
  { traffic := t
    handed := handed d.rtu.srv_unit t
    built := (handed d.rtu.srv_unit t).bind fun pdu => (mb_server_process pdu d.srv).1
    sent := (receive d t).2 }

def step (d : Device) (t : Traffic) : Device :=
  { rtu := (receive d t).1.1, srv := (receive d t).1.2, log := d.log ++ [d.sees t] }

/-- The PDU is the request to clear the counters. -/
def clears (pdu : List UInt8) : Bool := pdu.length = 5 ∧ pdu.take 3 = [0x08, 0x00, 0x0A]

/-- The reply to the PDU is an exception. -/
def excepts (pdu rsp : List UInt8) : Bool := rsp.head? = pdu.head?.map (· ||| 0x80)

namespace Seen
variable (o : Seen)

/-- A frame of at least one byte, or an ADU with protocol 0. -/
def message : Bool :=
  match o.traffic with
  | .rtu feeds => feeds.flatten ≠ []
  | .tcp adu => io_get_be16 (adu.drop 2) = 0

/-- A frame of an acceptable length with a wrong CRC16. -/
def crc_error : Bool :=
  match o.traffic with
  | .rtu feeds => Sized feeds.flatten ∧ ¬ Checked feeds.flatten
  | .tcp _ => false

/-- A clear that was executed. -/
def clear : Bool := o.handed.any clears

/-- The decoder built an exception. -/
def exception : Bool := o.handed.any fun pdu => o.built.any fun rsp => excepts pdu rsp

/-- No reply was sent. -/
def unanswered : Bool := o.message && o.sent.isNone

end Seen

/-- The log from the last clear on. -/
def fromClear (log : List Seen) : List Seen := log.foldl (fun kept o => if o.clear then [o] else kept ++ [o]) []

/-- What the counters are meant to be. Of the clear itself, what was counted before it was executed is erased. -/
def tally (log : List Seen) : Diag :=
  { bus_msg := UInt16.ofNat ((fromClear log).countP fun o => o.message && !o.clear)
    crc_err := UInt16.ofNat ((fromClear log).countP Seen.crc_error)
    exc := UInt16.ofNat ((fromClear log).countP Seen.exception)
    srv_msg := UInt16.ofNat ((fromClear log).countP fun o => o.handed.isSome && !o.clear)
    no_resp := UInt16.ofNat ((fromClear log).countP Seen.unanswered) }

/-- The counter that is asked for with a diagnostic function. -/
def Diag.asked (c : Diag) (sfunc : UInt8) : UInt16 :=
  if sfunc = 0x0B then c.bus_msg else if sfunc = 0x0C then c.crc_err else if sfunc = 0x0D then c.exc
  else if sfunc = 0x0E then c.srv_msg else c.no_resp

/-! ### The decoder -/

section
variable {fc : UInt8} {d : List UInt8} {s : Srv} {c : Diag} {a : Answer}

/-- The counters after an answer: an exception has been counted. -/
def Accounts (fc : UInt8) (c : Diag) (a : Answer) : Prop :=
  a.2.diag_ctr = if a.1.any fun rsp => rsp.head? = some (fc ||| 0x80) then c.count .EXC else c

theorem accounts_silent (s : Srv) : Accounts fc s.diag_ctr (none, s) := rfl

theorem accounts_exception (code : UInt8) (s : Srv) : Accounts fc s.diag_ctr (exc_rsp fc code s) := by
  simp [Accounts, exc_rsp, mb_server_diag_count]

/-- A reply that starts with the function code is no exception. -/
theorem accounts_reply (plain : fc ≠ fc ||| 0x80) (rsp : List UInt8) {s : Srv} (same : s.diag_ctr = c) :
    Accounts fc c (some (fc :: rsp), s) := by
  simp [Accounts, plain, same]

theorem bits_read_accounts {limit : Nat} {rd : Regmap.Io → Nat → Option Bool} (plain : fc ≠ fc ||| 0x80)
    (ran : bits_read fc limit rd d s = some a) : Accounts fc s.diag_ctr a := by
  unfold bits_read at ran
  split at ran
  · cases ran
    exact accounts_silent s
  obtain ⟨addr, -, ran⟩ := Option.bind_eq_some_iff.mp ran
  obtain ⟨qty, -, ran⟩ := Option.bind_eq_some_iff.mp ran
  split at ran
  · cases ran
    exact accounts_exception _ s
  simp only at ran
  split at ran <;> cases ran
  · exact accounts_exception _ s
  · exact accounts_reply plain _ rfl

theorem regs_read_accounts {limit : Nat} {rd : Regmap.Io → Nat → Option UInt16} (plain : fc ≠ fc ||| 0x80)
    (ran : regs_read fc limit rd d s = some a) : Accounts fc s.diag_ctr a := by
  unfold regs_read at ran
  split at ran
  · cases ran
    exact accounts_silent s
  obtain ⟨addr, -, ran⟩ := Option.bind_eq_some_iff.mp ran
  obtain ⟨qty, -, ran⟩ := Option.bind_eq_some_iff.mp ran
  split at ran
  · cases ran
    exact accounts_exception _ s
  simp only at ran
  split at ran
  · cases ran
    exact accounts_exception _ s
  split at ran <;> cases ran
  · exact accounts_exception _ s
  · exact accounts_reply plain _ rfl

theorem fc05_accounts (ran : fc05_coil_write d s = some a) : Accounts 5 s.diag_ctr a := by
  unfold fc05_coil_write at ran
  split at ran
  · cases ran
    exact accounts_silent s
  obtain ⟨addr, -, ran⟩ := Option.bind_eq_some_iff.mp ran
  obtain ⟨val, -, ran⟩ := Option.bind_eq_some_iff.mp ran
  simp only at ran
  split at ran <;> cases ran
  · exact accounts_exception _ s
  · exact accounts_reply (by decide) _ rfl

theorem fc06_accounts (ran : fc06_hreg_write d s = some a) : Accounts 6 s.diag_ctr a := by
  unfold fc06_hreg_write at ran
  split at ran
  · cases ran
    exact accounts_silent s
  obtain ⟨addr, -, ran⟩ := Option.bind_eq_some_iff.mp ran
  obtain ⟨val, -, ran⟩ := Option.bind_eq_some_iff.mp ran
  split at ran <;> cases ran
  · exact accounts_exception _ s
  · exact accounts_reply (by decide) _ rfl

theorem fc15_accounts (ran : fc15_coils_write d s = some a) : Accounts 15 s.diag_ctr a := by
  unfold fc15_coils_write at ran
  split at ran
  · cases ran
    exact accounts_silent s
  obtain ⟨addr, -, ran⟩ := Option.bind_eq_some_iff.mp ran
  obtain ⟨qty, -, ran⟩ := Option.bind_eq_some_iff.mp ran
  obtain ⟨count, -, ran⟩ := Option.bind_eq_some_iff.mp ran
  simp only at ran
  split at ran
  · cases ran
    exact accounts_exception _ s
  split at ran
  · cases ran
    exact accounts_exception _ s
  obtain ⟨⟨ok, io⟩, -, ran⟩ := Option.bind_eq_some_iff.mp ran
  cases ok <;> cases ran
  · exact accounts_exception _ { s with io := io }
  · exact accounts_reply (by decide) _ rfl

theorem fc16_accounts (ran : fc16_hregs_write d s = some a) : Accounts 16 s.diag_ctr a := by
  unfold fc16_hregs_write at ran
  split at ran
  · cases ran
    exact accounts_silent s
  obtain ⟨addr, -, ran⟩ := Option.bind_eq_some_iff.mp ran
  obtain ⟨qty, -, ran⟩ := Option.bind_eq_some_iff.mp ran
  obtain ⟨count, -, ran⟩ := Option.bind_eq_some_iff.mp ran
  simp only at ran
  split at ran
  · cases ran
    exact accounts_exception _ s
  split at ran
  · cases ran
    exact accounts_exception _ s
  split at ran
  · cases ran
    exact accounts_exception _ s
  split at ran
  · cases ran
    exact accounts_exception _ s
  obtain ⟨⟨ok, io⟩, -, ran⟩ := Option.bind_eq_some_iff.mp ran
  cases ok <;> cases ran
  · exact accounts_exception _ { s with io := io }
  · exact accounts_reply (by decide) _ rfl

theorem clears_iff (fc : UInt8) (d : List UInt8) :
    clears (fc :: d) = true ↔ fc = 8 ∧ d.length = 4 ∧ address d = MB_FC08_SUBF_CLR_CTR := by
  rcases d with _ | ⟨a, _ | ⟨b, rest⟩⟩
  · simp [clears]
  · simp [clears]
  have word : address (a :: b :: rest) = a.toNat * 2^8 + b.toNat := rfl
  have low := b.toNat_lt
  rw [word]
  simp only [clears, List.length_cons, List.take_succ_cons, List.take_zero, List.cons.injEq, and_true, decide_eq_true_eq,
    MB_FC08_SUBF_CLR_CTR]
  constructor
  · rintro ⟨length, rfl, rfl, rfl⟩
    exact ⟨rfl, by omega, rfl⟩
  · rintro ⟨rfl, length, value⟩
    have high : a.toNat = 0 := by omega
    exact ⟨by omega, rfl, UInt8.toNat_inj.mp high, UInt8.toNat_inj.mp (by rw [high] at value; simpa using value)⟩

/-- A diagnostic function that does not clear the counters. -/
theorem fc08_accounts (kept : ¬ clears (8 :: d)) (ran : fc08_diagnostics d s = some a) : Accounts 8 s.diag_ctr a := by
  by_cases four : d.length ≠ 4
  · simp only [fc08_diagnostics, if_pos four] at ran
    cases ran
    exact accounts_silent s
  rw [not_not] at four
  obtain ⟨addr, data⟩ := words_of_four four
  have other : address d ≠ MB_FC08_SUBF_CLR_CTR := fun same => kept ((clears_iff 8 d).mpr ⟨rfl, four, same⟩)
  simp only [fc08_diagnostics, four, addr, data, ne_eq, not_true_eq_false, if_false, Option.bind_eq_bind, Option.bind_some,
    if_neg other] at ran
  split_ifs at ran <;> cases ran
  all_goals first | exact accounts_reply (by decide) _ rfl | exact accounts_exception _ s

/-- The request that clears the counters. -/
theorem fc08_clears (clear : clears (8 :: d) = true) (ran : fc08_diagnostics d s = some a) :
    a.2.diag_ctr = {} ∧ a.1.any (excepts (8 :: d)) = false := by
  obtain ⟨-, four, which⟩ := (clears_iff 8 d).mp clear
  obtain ⟨addr, data⟩ := words_of_four four
  simp only [fc08_diagnostics, four, addr, data, which, ne_eq, not_true_eq_false, if_false, Option.bind_eq_bind,
    Option.bind_some] at ran
  cases ran
  exact ⟨rfl, rfl⟩

/-- A request for a counter. -/
theorem fc08_asks {sfunc x y : UInt8} (counter : sfunc ∈ [0x0B, 0x0C, 0x0D, 0x0E, 0x0F]) :
    fc08_diagnostics [0, sfunc, x, y] s =
      some (echo_rsp MB_FC08_DIAGNOSTICS sfunc.toNat (Diag.asked s.diag_ctr sfunc).toNat s) := by
  have first : be16 [0, sfunc, x, y] 0 = some sfunc.toNat := by simp [be16, u8]
  have second : be16 [0, sfunc, x, y] 2 = some (x.toNat * 2^8 + y.toNat) := by simp [be16, u8]
  simp only [fc08_diagnostics, first, second, List.length_cons, List.length_nil, Option.bind_eq_bind, Option.bind_some]
  simp only [List.mem_cons, List.not_mem_nil, or_false] at counter
  rcases counter with rfl | rfl | rfl | rfl | rfl <;>
    simp [Diag.asked, MB_FC08_SUBF_QUERY, MB_FC08_SUBF_CLR_CTR, MB_FC08_SUBF_BUS_MSG_CTR, MB_FC08_SUBF_BUS_CRC_CTR,
      MB_FC08_SUBF_BUS_EXCEPT_CTR, MB_FC08_SUBF_SERVER_MSG_CTR, MB_FC08_SUBF_SERVER_NO_RESP_CTR]

theorem dispatch_accounts (kept : ¬ clears (fc :: d)) (ran : dispatch fc d s = some a) : Accounts fc s.diag_ctr a := by
  refine dispatch_cases (P := fun fc r => ¬ clears (fc :: d) → r = some a → Accounts fc s.diag_ctr a)
    ?coil_read ?di_read ?hreg_read ?inreg_read ?coil_write ?hreg_write ?diagnostics ?coils_write ?hregs_write ?unknown fc
    kept ran
  case coil_read => exact fun _ => bits_read_accounts (by decide)
  case di_read => exact fun _ => bits_read_accounts (by decide)
  case hreg_read => exact fun _ => regs_read_accounts (by decide)
  case inreg_read => exact fun _ => regs_read_accounts (by decide)
  case coil_write => exact fun _ => fc05_accounts
  case hreg_write => exact fun _ => fc06_accounts
  case diagnostics => exact fc08_accounts
  case coils_write => exact fun _ => fc15_accounts
  case hregs_write => exact fun _ => fc16_accounts
  case unknown =>
    rintro fc _ _ ⟨⟩
    exact accounts_exception _ s

end

/-- What a PDU that was handed to the decoder, and was answered with `rsp`, does to the counters. -/
def decoded (pdu : List UInt8) (rsp : Option (List UInt8)) (c : Diag) : Diag :=
  if clears pdu then {}
  else if rsp.any (excepts pdu) then ((c.count .BUS_MSG).count .SRV_MSG).count .EXC
  else (c.count .BUS_MSG).count .SRV_MSG

theorem mb_server_process_counts {pdu : List UInt8} (some_ : pdu ≠ []) (s : Srv) :
    (mb_server_process pdu s).2.diag_ctr = decoded pdu (mb_server_process pdu s).1 s.diag_ctr ∧
      (clears pdu = true → (mb_server_process pdu s).1.any (excepts pdu) = false) := by
  cases pdu with
  | nil => exact absurd rfl some_
  | cons fc d =>
    have ran : dispatch fc d (mb_server_diag_count .SRV_MSG (mb_server_diag_count .BUS_MSG s)) =
        some (mb_server_process (fc :: d) s) :=
      (@mb_server_process_conforms (fun _ => True) (fun _ _ _ _ _ _ => trivial) (fun _ _ _ _ _ _ => trivial) fc d s).1
    unfold decoded
    by_cases clear : clears (fc :: d) = true
    · obtain ⟨rfl, -⟩ := (clears_iff fc d).mp clear
      obtain ⟨zero, plain⟩ := fc08_clears clear ran
      rw [if_pos clear]
      exact ⟨zero, fun _ => plain⟩
    · rw [if_neg clear]
      exact ⟨dispatch_accounts clear ran, fun cleared => absurd cleared clear⟩

/-- The reply to a request for a counter counts the request. -/
theorem mb_server_process_asks {sfunc x y : UInt8} (counter : sfunc ∈ [0x0B, 0x0C, 0x0D, 0x0E, 0x0F]) (s : Srv) :
    (mb_server_process [8, 0, sfunc, x, y] s).1 =
      some (8 :: (io_put_be16 sfunc.toNat ++
        io_put_be16 (Diag.asked ((s.diag_ctr.count .BUS_MSG).count .SRV_MSG) sfunc).toNat)) := by
  have ran : decode [8, 0, sfunc, x, y] s = _ :=
    @fc08_asks (mb_server_diag_count .SRV_MSG (mb_server_diag_count .BUS_MSG s)) sfunc x y counter
  rw [mb_server_process, ran]
  rfl

/-- What a frame or an ADU does to the counters. -/
def Seen.counts (o : Seen) (c : Diag) : Diag :=
  let c :=
    match o.handed with
    | some pdu => decoded pdu o.built c
    | none => if o.crc_error then (c.count .BUS_MSG).count .CRC_ERR else if o.message then c.count .BUS_MSG else c
  if o.unanswered then c.count .NO_RESP else c

/-- What holds between the parts of what is seen. -/
structure Seen.Sound (o : Seen) : Prop where
  handed_message : o.handed.isSome = true → o.message = true
  crc_error_message : o.crc_error = true → o.handed = none ∧ o.message = true
  clear_plain : o.clear = true → o.exception = false

section
variable {d : Device}

/-- The framer is bound and has nothing in its buffer. -/
structure Ready (d : Device) : Prop where
  empty : Fed d.rtu []
  bound : d.rtu.tx_cb = true

/-- The counters, the framer and the log after a frame or an ADU. -/
structure Counted (d : Device) (t : Traffic) : Prop where
  counts : (step d t).srv.diag_ctr = (d.sees t).counts d.srv.diag_ctr
  sound : (d.sees t).Sound
  ready : Ready (step d t)
  srv_unit : (step d t).rtu.srv_unit = d.rtu.srv_unit

/-- A PDU that clears the counters is not answered with an exception. -/
theorem clear_plain_of {o : Seen} {s : Srv} (filled : ∀ pdu, o.handed = some pdu → pdu ≠ [])
    (built : o.built = o.handed.bind fun pdu => (mb_server_process pdu s).1) (clear : o.clear = true) :
    o.exception = false := by
  unfold Seen.clear Seen.exception at *
  rw [built]
  cases at_ : o.handed with
  | none => rfl
  | some pdu =>
    rw [at_] at clear
    exact (mb_server_process_counts (filled pdu at_) s).2 clear

theorem accepted_filled {srv_unit : UInt8} {f : List UInt8} (accepted : Accepted srv_unit f) : f ≠ [] ∧ pdu_of f ≠ [] := by
  have long : 4 ≤ f.length := accepted.sized.1
  constructor
  · rintro rfl
    exact absurd long (by decide)
  · apply List.ne_nil_of_length_pos
    rw [pdu_of, List.length_take, List.length_drop]
    omega

/-- What is counted for a frame. -/
theorem handled_counts {srv_unit : UInt8} {f : List UInt8} {s : Srv} {o : Seen}
    (handed : o.handed = if Accepted srv_unit f then some (pdu_of f) else none)
    (built : o.built = o.handed.bind fun pdu => (mb_server_process pdu s).1)
    (sent : o.sent = (handled mb_server_process mb_server_diag_count srv_unit f s).1) (message : o.message = decide (f ≠ []))
    (crc_error : o.crc_error = decide (Sized f ∧ ¬ Checked f)) :
    (handled mb_server_process mb_server_diag_count srv_unit f s).2.diag_ctr = o.counts s.diag_ctr := by
  unfold Seen.counts Seen.unanswered
  by_cases accepted : Accepted srv_unit f
  · obtain ⟨filled, pdu_filled⟩ := accepted_filled accepted
    have counts := (mb_server_process_counts pdu_filled s).1
    rw [if_pos accepted] at handed
    rw [handed, Option.bind_some] at built
    rw [handed, built, sent, message, decide_eq_true filled]
    simp only [handled, if_pos accepted]
    cases at_ : mb_server_process (pdu_of f) s with
    | mk rsp s' =>
      rw [at_] at counts
      cases rsp with
      | none => exact congrArg (Diag.count .NO_RESP) counts
      | some rsp =>
        by_cases all : unit_of f = 0
        · simp only [if_pos all]
          exact congrArg (Diag.count .NO_RESP) counts
        · simp only [if_neg all]
          exact counts
  · rw [if_neg accepted] at handed
    rw [handed, sent, message, crc_error]
    simp only [handled, if_neg accepted, dropped, Option.isNone_none, Bool.and_true, decide_eq_true_eq]
    by_cases empty : f = []
    · have unsized : ¬ (Sized f ∧ ¬ Checked f) := by
        rintro ⟨sized, -⟩
        rw [empty] at sized
        exact absurd sized.1 (by decide)
      rw [if_pos empty, if_neg unsized, if_neg (not_not.mpr empty), if_neg (not_not.mpr empty)]
    · rw [if_neg empty, if_pos empty]
      split <;> rfl

theorem step_rtu (ready : Ready d) (feeds : List (List UInt8)) : Counted d (.rtu feeds) := by
  obtain ⟨h, h_⟩ : ∃ h, h = handled mb_server_process mb_server_diag_count d.rtu.srv_unit feeds.flatten d.srv := ⟨_, rfl⟩
  have after := (rtu_t35_expired_eq _ d.srv).trans
    (expired_feeds mb_server_process mb_server_diag_count ready.empty ready.bound feeds d.srv)
  obtain ⟨-, srv_unit, tx_cb, -⟩ := @feeds_fed d.rtu [] feeds ready.empty
  rw [← h_] at after
  have sent : (d.sees (.rtu feeds)).sent = h.1 := by
    show (List.drop _ (rtu_t35_expired _ d.srv).1.transmitted).head? = h.1
    rw [after]
    show (List.drop _ (d.rtu.transmitted ++ h.1.toList)).head? = h.1
    rw [List.drop_left]
    cases h.1 <;> rfl
  have rtu : (step d (.rtu feeds)).rtu = _ := congrArg Prod.fst after
  have srv : (step d (.rtu feeds)).srv = h.2 := congrArg Prod.snd after
  refine ⟨?_, ⟨?_, ?_, ?_⟩, ⟨?_, ?_⟩, ?_⟩
  · rw [srv, h_]
    exact handled_counts rfl rfl (sent.trans (congrArg Prod.fst h_)) rfl rfl
  · intro some_
    have accepted : Accepted d.rtu.srv_unit feeds.flatten := by
      by_contra refused
      simp [Device.sees, handed, refused] at some_
    exact decide_eq_true (accepted_filled accepted).1
  · intro wrong
    obtain ⟨sized, unchecked⟩ := of_decide_eq_true wrong
    refine ⟨if_neg fun accepted => unchecked accepted.checked, decide_eq_true ?_⟩
    intro empty
    rw [empty] at sized
    exact absurd sized.1 (by decide)
  · refine clear_plain_of ?_ rfl
    intro pdu at_
    simp only [Device.sees, handed] at at_
    split at at_
    · cases at_
      exact (accepted_filled ‹_›).2
    · cases at_
  · rw [rtu]
    exact ⟨rfl, rfl⟩
  · rw [rtu]
    exact tx_cb.trans ready.bound
  · rw [rtu]
    exact srv_unit

/-- An ADU has at least the function code for a PDU. -/
theorem adu_filled {adu : List UInt8} (long : 8 ≤ adu.length) (mbap_len : Nat) :
    (adu.drop 7).take (pdu_len mbap_len adu.length) ≠ [] := by
  have some_ : 1 ≤ pdu_len mbap_len adu.length := by
    grind [pdu_len]
  apply List.ne_nil_of_length_pos
  rw [List.length_take, List.length_drop]
  omega

theorem step_tcp (ready : Ready d) {adu : List UInt8} (long : 8 ≤ adu.length) : Counted d (.tcp adu) := by
  have short : ¬ adu.length < 8 := Nat.not_lt.mpr long
  refine ⟨?_, ⟨?_, ?_, ?_⟩, ⟨ready.empty, ready.bound⟩, rfl⟩
  · by_cases proto : io_get_be16 (adu.drop 2) = 0
    · have counts := (mb_server_process_counts (adu_filled long (io_get_be16 (adu.drop 4))) d.srv).1
      simp only [step, receive, Device.sees, Seen.counts, Seen.unanswered, Seen.message, handed, mbtcp_adu_process, if_neg short,
        Nat.lt_irrefl, if_false, proto, ne_eq, not_true_eq_false, if_true, Option.bind_some, decide_true, Bool.true_and]
      cases at_ : mb_server_process ((adu.drop 7).take (pdu_len (io_get_be16 (adu.drop 4)) adu.length)) d.srv with
      | mk rsp s' =>
        rw [at_] at counts
        by_cases all : adu.getD 6 0 = 0
        · simp only [if_pos all]
          exact congrArg (Diag.count .NO_RESP) counts
        · simp only [if_neg all]
          cases rsp with
          | none => exact congrArg (Diag.count .NO_RESP) counts
          | some rsp => simpa only [Option.isNone_some, Bool.false_eq_true, if_false] using counts
    · simp [step, receive, Device.sees, Seen.counts, Seen.unanswered, Seen.message, Seen.crc_error, handed, mbtcp_adu_process,
        short, proto]
  · intro some_
    refine decide_eq_true ?_
    by_contra other
    simp [Device.sees, handed, other] at some_
  · intro wrong
    cases wrong
  · refine clear_plain_of ?_ rfl
    intro pdu at_
    simp only [Device.sees, handed] at at_
    split at at_
    · cases at_
      exact adu_filled long _
    · cases at_

end

section
variable {log : List Seen} {o : Seen}

theorem fromClear_append (log : List Seen) (o : Seen) :
    fromClear (log ++ [o]) = if o.clear then [o] else fromClear log ++ [o] := by
  rw [fromClear, List.foldl_append]
  rfl

/-- One more in a count. -/
theorem countP_append (p : Seen → Bool) (log : List Seen) (o : Seen) :
    UInt16.ofNat ((log ++ [o]).countP p) = UInt16.ofNat (log.countP p) + if p o then 1 else 0 := by
  rw [List.countP_append, List.countP_singleton, UInt16.ofNat_add]
  split <;> rfl

/-- A frame or an ADU that does not clear the counters adds to each what it is counted in. -/
theorem counts_kept (sound : o.Sound) (kept : o.clear = false) (c : Diag) :
    o.counts c =
      { bus_msg := c.bus_msg + if o.message then 1 else 0
        crc_err := c.crc_err + if o.crc_error then 1 else 0
        exc := c.exc + if o.exception then 1 else 0
        srv_msg := c.srv_msg + if o.handed.isSome then 1 else 0
        no_resp := c.no_resp + if o.unanswered then 1 else 0 } := by
  unfold Seen.counts
  cases at_ : o.handed with
  | none =>
    have plain : o.exception = false := by
      unfold Seen.exception
      rw [at_]
      rfl
    have message := fun wrong => (sound.crc_error_message wrong).2
    rw [plain]
    cases wrong : o.crc_error with
    | true =>
      rw [message wrong]
      cases o.unanswered <;> simp [Diag.count]
    | false => cases o.message <;> cases o.unanswered <;> simp [Diag.count]
  | some pdu =>
    have message : o.message = true := sound.handed_message (by rw [at_]; rfl)
    have right : o.crc_error = false := by
      by_contra wrong
      have none_ := (sound.crc_error_message (Bool.eq_true_of_not_eq_false wrong)).1
      rw [at_] at none_
      cases none_
    have kept' : clears pdu = false := by
      unfold Seen.clear at kept
      rwa [at_] at kept
    have exception : o.exception = o.built.any (excepts pdu) := by
      unfold Seen.exception
      rw [at_]
      rfl
    rw [message, right, exception]
    simp only [decoded, kept']
    cases o.built.any (excepts pdu) <;> cases o.unanswered <;> simp [Diag.count]

/-- The counters go along with the log. -/
theorem tally_append (sound : o.Sound) : tally (log ++ [o]) = o.counts (tally log) := by
  cases clear : o.clear with
  | false =>
    rw [counts_kept sound clear]
    simp only [tally, fromClear_append, clear, Bool.false_eq_true, if_false, countP_append, Bool.not_false, Bool.and_true]
  | true =>
    have plain := sound.clear_plain clear
    obtain ⟨pdu, at_, cleared⟩ := (Option.any_eq_true ..).mp (show o.handed.any clears = true from clear)
    have right : o.crc_error = false := by
      by_contra wrong
      have none_ := (sound.crc_error_message (Bool.eq_true_of_not_eq_false wrong)).1
      rw [at_] at none_
      cases none_
    simp only [tally, fromClear_append, clear, if_true, List.countP_singleton, Bool.not_true, Bool.and_false, right, plain,
      Seen.counts, at_, decoded, cleared]
    cases o.unanswered <;> rfl

end

/-! ### Runs -/

/-- The device at the start: bound to a unit, with all counters at zero. -/
def started (r : Rtu) (s : Srv) (srv_unit : UInt8) : Device :=
  { rtu := rtu_frame_bind srv_unit r, srv := { s with diag_ctr := {} } }

/-- The counters are those of the log. -/
structure Tallied (srv_unit : UInt8) (d : Device) : Prop where
  counters : d.srv.diag_ctr = tally d.log
  ready : Ready d
  srv_unit : d.rtu.srv_unit = srv_unit

theorem run_tallied {srv_unit : UInt8} {traffic : List Traffic} {d : Device} (before : Tallied srv_unit d)
    (adus : ∀ adu, .tcp adu ∈ traffic → 8 ≤ adu.length) : Tallied srv_unit (traffic.foldl step d) := by
  induction traffic generalizing d with
  | nil => exact before
  | cons t rest ih =>
    have counted : Counted d t := by
      cases t with
      | rtu feeds => exact step_rtu before.ready feeds
      | tcp adu => exact step_tcp before.ready (adus adu (List.mem_cons_self ..))
    refine ih ⟨?_, counted.ready, counted.srv_unit.trans before.srv_unit⟩ fun adu member =>
      adus adu (List.mem_cons_of_mem _ member)
    rw [counted.counts, before.counters]
    exact (tally_append counted.sound).symm

/-- After any frames and ADUs the counters are what the log says, and a request for one of
    them is answered with what the log says and the request itself. -/
theorem counters_count (r : Rtu) (s : Srv) (srv_unit : UInt8) (traffic : List Traffic)
    (adus : ∀ adu, .tcp adu ∈ traffic → 8 ≤ adu.length) :
    let d := traffic.foldl step (started r s srv_unit)
    d.srv.diag_ctr = tally d.log ∧
      ∀ t sfunc x y, sfunc ∈ [0x0B, 0x0C, 0x0D, 0x0E, 0x0F] → (d.sees t).handed = some [0x08, 0x00, sfunc, x, y] →
        (d.sees t).built = some (0x08 :: (io_put_be16 sfunc.toNat ++
          io_put_be16 (Diag.asked (((tally d.log).count .BUS_MSG).count .SRV_MSG) sfunc).toNat)) := by
  intro d
  have tallied : Tallied srv_unit d := run_tallied ⟨rfl, ⟨fed_reset _, rfl⟩, rfl⟩ adus
  refine ⟨tallied.counters, ?_⟩
  intro t sfunc x y counter at_
  show ((d.sees t).handed.bind fun pdu => (mb_server_process pdu d.srv).1) = _
  rw [at_, Option.bind_some, mb_server_process_asks counter, tallied.counters]

/-- A frame with a wrong CRC16 and an ADU with an unknown function, after which the
    number of messages is asked for. -/
theorem counters_count_two :
    let d := [.rtu [[1, 2, 3], [4, 5]], .tcp (mbap 1 0 2 1 [0x55])].foldl step (started { srv_unit := 0 } fresh 1)
    (d.srv.diag_ctr = tally d.log ∧ tally d.log = { bus_msg := 2, crc_err := 1, exc := 1, srv_msg := 1, no_resp := 1 }) ∧
      (d.sees (.tcp (mbap 7 0 6 1 [8, 0, 0x0B, 0, 0]))).built = some [8, 0, 0x0B, 0, 3] := by
  intro d
  have counted := counters_count { srv_unit := 0 } fresh 1 [.rtu [[1, 2, 3], [4, 5]], .tcp (mbap 1 0 2 1 [0x55])]
    (by simp [mbap, io_put_be16])
  have tallied : tally d.log = { bus_msg := 2, crc_err := 1, exc := 1, srv_msg := 1, no_resp := 1 } := by decide +kernel
  refine ⟨⟨counted.1, tallied⟩, (counted.2 _ 0x0B 0 0 (by decide) (by decide)).trans ?_⟩
  rw [tallied]
  decide

end IoEdgeHub.Diagnostics
