import IoEdgeHub.MbTransports

/-!
What the RTU framer makes of a silence on the line (`modbus/rtu_frame.c`). The bytes
that came before it are one frame, whatever pieces they came in, and what happens to
the frame is decided by its bytes alone (`Accepted`).

`expired_calling` is `rtu_t35_expired` over any decoder. Over one that writes down
what it is called with (`recorded`) it shows how often the decoder is called.
-/
namespace IoEdgeHub.RtuFrames
open IoEdgeHub.Bytes IoEdgeHub.Crc IoEdgeHub.MbServer IoEdgeHub.MbRequests IoEdgeHub.MbTransports

section
variable (f : List UInt8)

/-- The first byte of a frame. -/
def unit_of : UInt8 := f.getD 0 0

/-- What stands between the unit and the CRC16. -/
def pdu_of : List UInt8 := (f.drop 1).take (f.length - 3)

/-- The length is one that a frame can have. -/
def Sized : Prop := RTU_FRAME_MIN ≤ f.length ∧ f.length ≤ RTU_FRAME_MAX

/-- The last two bytes are the CRC16 of the rest. -/
def Checked : Prop := crc_rx f = crc16_modbus (f.take (f.length - 2))

instance : Decidable (Sized f) := inferInstanceAs (Decidable (_ ∧ _))
instance : Decidable (Checked f) := inferInstanceAs (Decidable (_ = _))

end

/-- The frame is one for the decoder. -/
structure Accepted (srv_unit : UInt8) (f : List UInt8) : Prop where
  sized : Sized f
  checked : Checked f
  addressed : unit_of f = 0 ∨ unit_of f = srv_unit

theorem accepted_iff (srv_unit : UInt8) (f : List UInt8) :
    Accepted srv_unit f ↔ Sized f ∧ Checked f ∧ (unit_of f = 0 ∨ unit_of f = srv_unit) :=
  ⟨fun a => ⟨a.sized, a.checked, a.addressed⟩, fun ⟨sized, checked, addressed⟩ => ⟨sized, checked, addressed⟩⟩

instance (srv_unit : UInt8) (f : List UInt8) : Decidable (Accepted srv_unit f) :=
  decidable_of_iff _ (accepted_iff srv_unit f).symm

section
variable {r : Rtu} {f : List UInt8}

/-- The framer after the bytes `f`: it has the first 256 of them and knows whether there were more. -/
structure Fed (r : Rtu) (f : List UInt8) : Prop where
  rx_buf : r.rx_buf = f.take RTU_FRAME_MAX
  rx_overflow : r.rx_overflow = decide (RTU_FRAME_MAX < f.length)

theorem fed_reset (r : Rtu) : Fed (rtu_reset r) [] := ⟨rfl, rfl⟩

theorem rtu_rx_feed_fed (fed : Fed r f) (bytes : List UInt8) : Fed (rtu_rx_feed r bytes) (f ++ bytes) := by
  unfold rtu_rx_feed
  by_cases none_ : bytes = []
  · rw [if_pos none_, none_, List.append_nil]
    exact fed
  rw [if_neg none_]
  by_cases lost : RTU_FRAME_MAX < f.length
  · have overflow : r.rx_overflow = true := by simpa [lost] using fed.rx_overflow
    rw [if_pos overflow]
    constructor
    · rw [List.take_append_of_le_length (Nat.le_of_lt lost)]
      exact fed.rx_buf
    · have more : RTU_FRAME_MAX < (f ++ bytes).length := by
        rw [List.length_append]
        omega
      rw [decide_eq_true more]
      exact overflow
  · have whole : r.rx_buf = f := fed.rx_buf.trans (List.take_of_length_le (Nat.not_lt.mp lost))
    have overflow : r.rx_overflow = false := by simpa [lost] using fed.rx_overflow
    simp only [overflow, Bool.false_eq_true, if_false, whole]
    constructor
    · show f ++ bytes.take _ = _
      rw [List.take_append, List.take_of_length_le (Nat.not_lt.mp lost)]
      split
      · rename_i fits
        rw [List.take_length, List.take_of_length_le fits]
      · rfl
    · show decide _ = decide _
      rw [List.length_append]
      by_cases fits : bytes.length ≤ RTU_FRAME_MAX - f.length
      · rw [if_pos fits, decide_eq_false (Nat.lt_irrefl _), decide_eq_false (by omega)]
      · rw [if_neg fits, decide_eq_true (by omega), decide_eq_true (by omega)]

/-- Whatever pieces the bytes come in. -/
theorem feeds_fed {feeds : List (List UInt8)} (fed : Fed r f) :
    Fed (feeds.foldl rtu_rx_feed r) (f ++ feeds.flatten) ∧ (feeds.foldl rtu_rx_feed r).srv_unit = r.srv_unit ∧
      (feeds.foldl rtu_rx_feed r).tx_cb = r.tx_cb ∧ (feeds.foldl rtu_rx_feed r).transmitted = r.transmitted := by
  induction feeds generalizing r f with
  | nil => exact ⟨by simpa using fed, rfl, rfl, rfl⟩
  | cons bytes rest ih =>
    obtain ⟨srv_unit, tx_cb, transmitted⟩ := rtu_rx_feed_kept r bytes
    obtain ⟨after, kept⟩ := ih (rtu_rx_feed_fed fed bytes)
    rw [srv_unit, tx_cb, transmitted] at kept
    rw [List.foldl_cons, List.flatten_cons, ← List.append_assoc]
    exact ⟨after, kept⟩

end

section
variable {σ : Type} (process : List UInt8 → σ → Option (List UInt8) × σ) (count : MbDiagCounter → σ → σ)

/-- `rtu_t35_expired` with the decoder and the counters left open. -/
def expired_calling (r : Rtu) (s : σ) : Rtu × σ :=
  let frame := r.rx_buf
  let unit := frame.getD 0 0
  if frame.length = 0 then (rtu_reset r, s)
  else if r.rx_overflow ∨ frame.length < RTU_FRAME_MIN then (rtu_reset r, count .NO_RESP (count .BUS_MSG s))
  else if crc_rx frame ≠ crc16_modbus (frame.take (frame.length - 2)) then
    (rtu_reset r, count .NO_RESP (count .CRC_ERR (count .BUS_MSG s)))
  else if unit ≠ 0 ∧ unit ≠ r.srv_unit then (rtu_reset r, count .NO_RESP (count .BUS_MSG s))
  else
    match process ((frame.drop 1).take (frame.length - 3)) s with
    | (none, s) => (rtu_reset r, count .NO_RESP s)
    | (some rsp_pdu, s) =>
      if unit = 0 then (rtu_reset r, count .NO_RESP s)
      else (if r.tx_cb then { rtu_reset r with transmitted := r.transmitted ++ [rtu_frame unit rsp_pdu] } else rtu_reset r, s)

/-- What is counted for a frame that does not come to the decoder. -/
def dropped (f : List UInt8) (s : σ) : σ :=
  if f = [] then s
  else if Sized f ∧ ¬ Checked f then count .NO_RESP (count .CRC_ERR (count .BUS_MSG s))
  else count .NO_RESP (count .BUS_MSG s)

/-- What becomes of the frame `f`: the frame that is transmitted for it, and the state. -/
def handled (srv_unit : UInt8) (f : List UInt8) (s : σ) : Option (List UInt8) × σ :=
  if Accepted srv_unit f then
    match process (pdu_of f) s with
    | (some rsp, s) => if unit_of f = 0 then (none, count .NO_RESP s) else (some (rtu_frame (unit_of f) rsp), s)
    | (none, s) => (none, count .NO_RESP s)
  else (none, dropped count f s)

/-- A silence handles the bytes that came before it. -/
theorem expired_fed {r : Rtu} {f : List UInt8} (fed : Fed r f) (bound : r.tx_cb = true) (s : σ) :
    expired_calling process count r s =
      ({ rtu_reset r with transmitted := r.transmitted ++ (handled process count r.srv_unit f s).1.toList },
        (handled process count r.srv_unit f s).2) := by
  have silent : { rtu_reset r with transmitted := r.transmitted ++ (none : Option (List UInt8)).toList } = rtu_reset r := by
    rw [Option.toList_none, List.append_nil]
    rfl
  unfold expired_calling handled
  by_cases empty : f = []
  · subst empty
    have not_sized : ¬ Accepted r.srv_unit [] := fun a => absurd a.sized (by decide)
    rw [if_neg not_sized]
    simp only [fed.rx_buf, List.take_nil, List.length_nil, if_true, dropped, silent]
  have some_ : 0 < f.length := List.length_pos_iff.mpr empty
  by_cases large : RTU_FRAME_MAX < f.length
  · have not_sized : ¬ Sized f := fun sized => absurd sized.2 (Nat.not_le.mpr large)
    rw [if_neg fun a : Accepted r.srv_unit f => not_sized a.sized]
    have held : ¬ r.rx_buf.length = 0 := by
      rw [fed.rx_buf, List.length_take_of_le (Nat.le_of_lt large)]
      decide
    have overflow : r.rx_overflow = true := fed.rx_overflow.trans (decide_eq_true large)
    simp only [if_neg held, overflow, true_or, if_true, dropped, if_neg empty, silent, not_sized, false_and, if_false]
  have whole : r.rx_buf = f := fed.rx_buf.trans (List.take_of_length_le (Nat.not_lt.mp large))
  simp only [whole, fed.rx_overflow, large, decide_false, Bool.false_eq_true, false_or, if_neg (Nat.ne_of_gt some_)]
  by_cases short : f.length < RTU_FRAME_MIN
  · have not_sized : ¬ Sized f := fun sized => absurd sized.1 (Nat.not_le.mpr short)
    rw [if_neg fun a : Accepted r.srv_unit f => not_sized a.sized, if_pos short]
    simp only [dropped, if_neg empty, silent, not_sized, false_and, if_false]
  have sized : Sized f := ⟨Nat.not_lt.mp short, Nat.not_lt.mp large⟩
  rw [if_neg short]
  by_cases checked : Checked f
  · have right : ¬ crc_rx f ≠ crc16_modbus (f.take (f.length - 2)) := not_not.mpr checked
    rw [if_neg right]
    by_cases addressed : unit_of f = 0 ∨ unit_of f = r.srv_unit
    · have accepted : Accepted r.srv_unit f := ⟨sized, checked, addressed⟩
      have ours : ¬ (f.getD 0 0 ≠ 0 ∧ f.getD 0 0 ≠ r.srv_unit) := by
        rintro ⟨not_all, not_us⟩
        exact addressed.elim not_all not_us
      rw [if_neg ours, if_pos accepted]
      show _ = _
      unfold pdu_of
      rcases process ((f.drop 1).take (f.length - 3)) s with ⟨_ | rsp, s'⟩
      · simp only [silent]
      · by_cases all : unit_of f = 0
        · have all' : f.getD 0 0 = 0 := all
          simp only [if_pos all, if_pos all', silent]
        · have all' : ¬ f.getD 0 0 = 0 := all
          simp only [if_neg all, if_neg all', if_pos bound]
          rfl
    · have foreign : f.getD 0 0 ≠ 0 ∧ f.getD 0 0 ≠ r.srv_unit := not_or.mp addressed
      rw [if_pos foreign, if_neg fun a : Accepted r.srv_unit f => addressed a.addressed]
      simp only [dropped, if_neg empty, silent, checked, not_true_eq_false, and_false, if_false]
  · have wrong : crc_rx f ≠ crc16_modbus (f.take (f.length - 2)) := checked
    rw [if_pos wrong, if_neg fun a : Accepted r.srv_unit f => checked a.checked]
    simp only [dropped, if_neg empty, silent, sized, checked, not_false_eq_true, and_self, if_true]

/-- And the pieces that they came in do not matter. -/
theorem expired_feeds {r : Rtu} (empty : Fed r []) (bound : r.tx_cb = true) (feeds : List (List UInt8)) (s : σ) :
    expired_calling process count (feeds.foldl rtu_rx_feed r) s =
      ({ rtu_reset (feeds.foldl rtu_rx_feed r) with
          transmitted := r.transmitted ++ (handled process count r.srv_unit feeds.flatten s).1.toList },
        (handled process count r.srv_unit feeds.flatten s).2) := by
  obtain ⟨held, srv_unit, tx_cb, transmitted⟩ := @feeds_fed r [] feeds empty
  rw [List.nil_append] at held
  rw [expired_fed process count held (tx_cb.trans bound), srv_unit, transmitted]

end

theorem rtu_t35_expired_eq (r : Rtu) (s : Srv) :
    rtu_t35_expired r s = expired_calling mb_server_process mb_server_diag_count r s := by
  unfold rtu_t35_expired expired_calling rtu_frame_process
  simp only
  split
  · rfl
  split
  · rfl
  by_cases wrong : crc_rx r.rx_buf ≠ crc16_modbus (r.rx_buf.take (r.rx_buf.length - 2))
  · simp only [if_pos wrong]
    rfl
  simp only [if_neg wrong]
  by_cases foreign : r.rx_buf.getD 0 0 ≠ 0 ∧ r.rx_buf.getD 0 0 ≠ r.srv_unit
  · simp only [if_pos foreign]
    rfl
  simp only [if_neg foreign]
  rcases mb_server_process _ s with ⟨_ | rsp, s'⟩
  · rfl
  · by_cases all : r.rx_buf.getD 0 0 = 0
    · simp only [if_pos all]
      rfl
    · simp only [if_neg all]
      rfl

/-- The decoder with a list of the PDUs that it was called with. -/
def recorded (pdu : List UInt8) (s : Srv × List (List UInt8)) : Option (List UInt8) × Srv × List (List UInt8) :=
  ((mb_server_process pdu s.1).1, (mb_server_process pdu s.1).2, s.2 ++ [pdu])

def counted (c : MbDiagCounter) (s : Srv × List (List UInt8)) : Srv × List (List UInt8) :=
  (mb_server_diag_count c s.1, s.2)

section
variable {unit : UInt8} {f : List UInt8} {s : Srv}

/-- What becomes of a frame, with the calls of the decoder. -/
theorem handled_recorded (unit : UInt8) (f : List UInt8) (s : Srv) :
    handled recorded counted unit f (s, []) =
      ((handled mb_server_process mb_server_diag_count unit f s).1,
        (handled mb_server_process mb_server_diag_count unit f s).2, if Accepted unit f then [pdu_of f] else []) := by
  unfold handled
  by_cases accepted : Accepted unit f
  · simp only [if_pos accepted, recorded, List.nil_append]
    rcases mb_server_process (pdu_of f) s with ⟨_ | rsp, s'⟩
    · rfl
    · simp only
      split <;> rfl
  · simp only [if_neg accepted, dropped]
    split
    · rfl
    · split <;> rfl

/-- A frame that is not for the decoder is counted, and that is all. -/
theorem handled_dropped (refused : ¬ Accepted unit f) :
    (handled mb_server_process mb_server_diag_count unit f s).1 = none ∧
      (handled mb_server_process mb_server_diag_count unit f s).2.io = s.io := by
  simp only [handled, if_neg refused, dropped]
  split
  · exact ⟨trivial, rfl⟩
  · split <;> exact ⟨trivial, rfl⟩

/-- A frame for the decoder has the effect of its PDU. -/
theorem handled_accepted (accepted : Accepted unit f) :
    (handled mb_server_process mb_server_diag_count unit f s).1 =
        (if unit_of f = 0 then none else (mb_server_process (pdu_of f) s).1.map (rtu_frame (unit_of f))) ∧
      (handled mb_server_process mb_server_diag_count unit f s).2.io = (mb_server_process (pdu_of f) s).2.io := by
  simp only [handled, if_pos accepted]
  rcases mb_server_process (pdu_of f) s with ⟨_ | rsp, s'⟩
  · simp only [Option.map_none, ite_self]
    exact ⟨trivial, rfl⟩
  · by_cases all : unit_of f = 0
    · simp only [if_pos all]
      exact ⟨trivial, rfl⟩
    · simp only [if_neg all]
      exact ⟨rfl, trivial⟩

end

theorem pdu_of_rtu_frame (unit : UInt8) (pdu : List UInt8) : pdu_of (rtu_frame unit pdu) = pdu := by
  unfold pdu_of
  rw [rtu_frame_length]
  exact List.take_left' (by simp)

/-- A frame that is put together is one that a receiver takes for whole. -/
theorem checked_rtu_frame (unit : UInt8) (pdu : List UInt8) : Checked (rtu_frame unit pdu) := by
  unfold Checked
  rw [rtu_frame_crc, rtu_frame_body]

/-- A silence after the bytes `f`, in whatever pieces they came, does what the bytes say.
    The decoder is called once, with what is between unit and CRC16, if the frame is one
    for it, and else nothing but the counters changes. At most one frame is transmitted,
    and the framer is reset. -/
theorem frames_handled (r : Rtu) (s : Srv) (unit : UInt8) (feeds : List (List UInt8)) :
    let f := feeds.flatten
    let r := rtu_frame_bind unit r
    let fed := feeds.foldl rtu_rx_feed r
    let after := rtu_t35_expired fed s
    let whole := rtu_t35_expired (rtu_rx_feed r f) s
    let answer := mb_server_process (pdu_of f) s
    (after.2 = whole.2 ∧ after.1.transmitted = whole.1.transmitted) ∧
      expired_calling recorded counted fed (s, []) = (after.1, after.2, if Accepted unit f then [pdu_of f] else []) ∧
      after.2.io = (if Accepted unit f then answer.2.io else s.io) ∧
      (∃ tx : Option (List UInt8), after.1.transmitted = r.transmitted ++ tx.toList ∧
        (tx.isSome ↔ Accepted unit f ∧ answer.1.isSome ∧ unit_of f ≠ 0) ∧
        ∀ frame, tx = some frame →
          frame.length ≤ 256 ∧ unit_of frame = unit_of f ∧ answer.1 = some (pdu_of frame) ∧ Checked frame) ∧
      rtu_reset after.1 = after.1 ∧ after.1.srv_unit = unit := by
  intro f r fed after whole answer
  have empty : Fed r [] := fed_reset _
  have after_ : after = _ := (rtu_t35_expired_eq fed s).trans (expired_feeds _ _ empty rfl feeds s)
  have whole_ : whole = _ := (rtu_t35_expired_eq (rtu_rx_feed r f) s).trans (expired_feeds _ _ empty rfl [f] s)
  have calls : expired_calling recorded counted fed (s, []) = _ := expired_feeds _ _ empty rfl feeds (s, [])
  have unit_ : r.srv_unit = unit := rfl
  rw [show [f].flatten = f from List.append_nil f] at whole_
  rw [handled_recorded] at calls
  rw [after_, whole_]
  refine ⟨⟨rfl, rfl⟩, calls, ?_, ?_, rfl, (feeds_fed empty).2.1⟩
  · split
    · exact (handled_accepted ‹_›).2
    · exact (handled_dropped ‹_›).2
  · refine ⟨_, rfl, ?_, ?_⟩
    · by_cases accepted : Accepted unit f
      · rw [unit_, (handled_accepted accepted).1]
        by_cases all : unit_of f = 0
        · simp [all]
        · simp [all, accepted, answer]
      · rw [unit_, (handled_dropped accepted).1]
        simp [accepted]
    · intro frame sent
      by_cases accepted : Accepted unit f
      · rw [unit_, (handled_accepted accepted).1] at sent
        split at sent
        · cases sent
        · obtain ⟨rsp, answered, rfl⟩ := Option.map_eq_some_iff.mp sent
          refine ⟨?_, rfl, ?_, checked_rtu_frame _ _⟩
          · have short := mb_server_process_length answered
            rw [rtu_frame_length]
            omega
          · rw [pdu_of_rtu_frame]
            exact answered
      · rw [unit_, (handled_dropped accepted).1] at sent
        cases sent

end IoEdgeHub.RtuFrames
