import IoEdgeHub.MultiWrites

/-!
The clock over Modbus: the registers 0x0E and 0x0F, its high and its low half. A write of the
low half sets the clock to both halves as they stand in the register array, but a write of
what is there already does nothing. A read takes each half from the running clock,
which may go on, or be set, between the two.
-/
namespace IoEdgeHub.ClockRegisters
open IoEdgeHub.Bytes IoEdgeHub.Regmap IoEdgeHub.MbServer IoEdgeHub.MbRequests IoEdgeHub.MultiWrites

/-- A request to write one register. -/
def fc06 (addr reg : UInt16) : List UInt8 := MB_FC06_HOLDING_REG_WR :: (io_put_be16 addr.toNat ++ io_put_be16 reg.toNat)

section
variable {addr reg hi lo : UInt16} {s : Srv} {io io' : Io}

/-- A single write of a register that exists is carried out and answered with its own words. -/
theorem fc06_written (written : io_write_holding addr.toNat reg s.io = some io') :
    (mb_server_process (fc06 addr reg) s).2.io = io' ∧
      (mb_server_process (fc06 addr reg) s).1 = some (fc06 addr reg) := by
  have addr_ : be16 (io_put_be16 addr.toNat ++ io_put_be16 reg.toNat) 0 = some addr.toNat := by
    rw [be16_inside (by simp [io_put_be16]), List.drop_zero, io_get_put_be16, Nat.mod_eq_of_lt addr.toNat_lt]
  have reg_ : be16 (io_put_be16 addr.toNat ++ io_put_be16 reg.toNat) 2 = some reg.toNat := by
    rw [be16_inside (by simp [io_put_be16]), List.drop_left' (by simp [io_put_be16]),
      ← List.append_nil (io_put_be16 reg.toNat), io_get_put_be16, Nat.mod_eq_of_lt reg.toNat_lt]
  obtain ⟨s', s_⟩ : ∃ s', s' = mb_server_diag_count .SRV_MSG (mb_server_diag_count .BUS_MSG s) := ⟨_, rfl⟩
  have io_ : s'.io = s.io := by rw [s_]; rfl
  have ran : fc06_hreg_write (io_put_be16 addr.toNat ++ io_put_be16 reg.toNat) s' =
      some (echo_rsp MB_FC06_HOLDING_REG_WR addr.toNat reg.toNat { s' with io := io' }) := by
    rw [fc06_hreg_write, if_neg (by simp [io_put_be16])]
    simp only [addr_, reg_, Option.bind_eq_bind, Option.bind_some, holding_reg_wr_cb, UInt16.ofNat_toNat, io_, written]
    rfl
  have answer : mb_server_process (fc06 addr reg) s =
      echo_rsp MB_FC06_HOLDING_REG_WR addr.toNat reg.toNat { s' with io := io' } := by
    have decoded : decode (fc06 addr reg) s = fc06_hreg_write (io_put_be16 addr.toNat ++ io_put_be16 reg.toNat) s' := by
      rw [s_]
      rfl
    rw [mb_server_process, decoded, ran]
    rfl
  rw [answer]
  exact ⟨rfl, rfl⟩

/-- The registers hold the two halves. -/
def Holds (hi lo : UInt16) (io : Io) : Prop :=
  get_holding_reg HOLDING_TIMESTAMP_HI_IDX io = hi ∧ get_holding_reg HOLDING_TIMESTAMP_LO_IDX io = lo

/-- What a write of the low half asks of the clock: nothing when the register has it already. -/
def asked (hi lo : UInt16) (io : Io) : List Hook :=
  if get_holding_reg HOLDING_TIMESTAMP_LO_IDX io = lo then [] else [.set_timestamp (hi.toNat * 65536 + lo.toNat)]

/-- The high half is only put down. -/
theorem hi_written (hi : UInt16) (io : Io) :
    ∃ io', io_write_holding HOLDING_TIMESTAMP_HI_IDX hi io = some io' ∧ io'.hooks = io.hooks := by
  rw [io_write_holding, if_neg (by decide)]
  split
  · exact ⟨io, rfl, rfl⟩
  · exact ⟨_, rfl, rfl⟩

/-- The low half sets the clock, unless it is there already. -/
theorem lo_written (lo : UInt16) (io : Io) :
    ∃ io', io_write_holding HOLDING_TIMESTAMP_LO_IDX lo io = some io' ∧
      io'.hooks = io.hooks ++ asked (get_holding_reg HOLDING_TIMESTAMP_HI_IDX io) lo io := by
  rw [io_write_holding, if_neg (by decide), asked]
  split
  · exact ⟨io, rfl, (List.append_nil _).symm⟩
  · refine ⟨_, rfl, ?_⟩
    have hi_ : get_holding_reg HOLDING_TIMESTAMP_HI_IDX (io.put HOLDING_TIMESTAMP_LO_IDX lo) =
        get_holding_reg HOLDING_TIMESTAMP_HI_IDX io := by
      rw [get_holding_reg_put (by decide), if_neg (by decide)]
    rw [if_neg (by decide), if_neg (by decide), if_pos rfl, set_timestamp_hooks, hi_]
    rfl

/-- One half after the other, with whatever else happens to the device between the two. -/
theorem halves_written (first : io_write_holding HOLDING_TIMESTAMP_HI_IDX hi s.io = some io') {t : Io}
    (kept : t.holding_reg = io'.holding_reg) :
    ∃ t', io_write_holding HOLDING_TIMESTAMP_LO_IDX lo t = some t' ∧ t'.hooks = t.hooks ++ asked hi lo s.io ∧
      Holds hi lo t' := by
  obtain ⟨t', second, hooks⟩ := lo_written lo t
  have hi_ : get_holding_reg HOLDING_TIMESTAMP_HI_IDX t = hi := by
    rw [get_holding_reg_congr kept, io_write_holding_regs first (by decide), if_pos rfl]
  have lo_ : get_holding_reg HOLDING_TIMESTAMP_LO_IDX t = get_holding_reg HOLDING_TIMESTAMP_LO_IDX s.io := by
    rw [get_holding_reg_congr kept, io_write_holding_regs first (by decide), if_neg (by decide)]
  refine ⟨t', second, ?_, ?_, ?_⟩
  · rw [hooks, hi_, asked, asked, lo_]
  · rw [io_write_holding_regs second (by decide), if_neg (by decide), hi_]
  · rw [io_write_holding_regs second (by decide), if_pos rfl]

end

/-- Writing the high half and then the low one, as two requests or one, puts both down. The last
    that is asked of the clock is the time they make, unless the register of the low half already had
    that value: then nothing is asked, as of any write of the value that is there. -/
theorem clock_set (s : Srv) (hi lo : UInt16) :
    let first := mb_server_process (fc06 0x0E hi) s
    let both := mb_server_process (MultiWrite.registers 0x0E [hi, lo]).pdu s
    (first.2.io.hooks = s.io.hooks ∧ first.1 = some (fc06 0x0E hi) ∧
      ∀ t : Srv, t.io.holding_reg = first.2.io.holding_reg →
        let second := mb_server_process (fc06 0x0F lo) t
        second.2.io.hooks = t.io.hooks ++ asked hi lo s.io ∧ second.1 = some (fc06 0x0F lo) ∧ Holds hi lo second.2.io) ∧
      both.2.io.hooks = s.io.hooks ++ asked hi lo s.io ∧ both.1 = some (0x10 :: (io_put_be16 0x0E ++ io_put_be16 2)) ∧
      Holds hi lo both.2.io := by
  intro first both
  obtain ⟨io', written, quiet⟩ := hi_written hi s.io
  obtain ⟨first_io, first_reply⟩ := @fc06_written 0x0E hi s io' written
  refine ⟨⟨?_, first_reply, ?_⟩, ?_⟩
  · rw [first_io, quiet]
  · intro t kept second
    rw [first_io] at kept
    obtain ⟨t', written', hooks, holds⟩ := @halves_written hi lo s io' written t.io kept
    obtain ⟨second_io, second_reply⟩ := @fc06_written 0x0F lo t t' written'
    rw [second_io]
    exact ⟨hooks, second_reply, holds⟩
  · obtain ⟨t', written', hooks, holds⟩ := @halves_written hi lo s io' written io' rfl
    obtain ⟨effect, reply⟩ := multi_write_each (MultiWrite.registers 0x0E [hi, lo]) ⟨by decide, by simp, by simp⟩ s
    have each : (MultiWrite.registers 0x0E [hi, lo]).each s.io = (true, t') := by
      show write_each io_write_holding HOLDING_TIMESTAMP_HI_IDX [hi, lo] s.io = _
      have next : HOLDING_TIMESTAMP_HI_IDX + 1 = HOLDING_TIMESTAMP_LO_IDX := rfl
      simp only [write_each, written, next, written']
    rw [effect, reply, each]
    exact ⟨hooks.trans (by rw [quiet]), congrArg some (if_pos rfl), holds⟩

/-- A time that is set over two requests while the clock stands at another. -/
theorem clock_set_once :
    let s : Srv := { timed with io := { timed.io with epoch_cache := 0x6955B900 } }
    (mb_server_process (fc06 0x0F 0x1234) (mb_server_process (fc06 0x0E 0x6955) s).2).2.io.hooks =
      [.set_timestamp 0x69551234] := by
  intro s
  have set_ := (clock_set s 0x6955 0x1234).1.2.2 _ rfl
  rw [set_.1, (clock_set s 0x6955 0x1234).1.1]
  decide

/-- The state after a time has been written over two requests. -/
def written_time (hi lo : UInt16) (s : Srv) : Srv :=
  (mb_server_process (fc06 0x0F lo) (mb_server_process (fc06 0x0E hi) s).2).2

/-- A second time with the low half of the first is written, and the clock is not set to it. -/
theorem clock_not_set :
    ¬ ∀ (s : Srv) (hi lo : UInt16),
      (written_time hi lo s).io.hooks.getLast? = some (.set_timestamp (hi.toNat * 65536 + lo.toNat)) := by
  intro always
  have last := always (written_time 0x6955 0x1234 timed) 0x6956 0x1234
  revert last
  decide

/-- What changes the clock. -/
inductive ClockEvent
  | time_tick_cb
  | set_timestamp (t : Int)
  deriving DecidableEq

def happen (io : Io) : ClockEvent → Io
  | .time_tick_cb => { io with epoch_cache := io.epoch_cache + 1 }
  | .set_timestamp t => (set_timestamp t io).2

/-- The loop of FC03 on a clock that runs: before each register is read, the next of the given groups
    of events happens. -/
def regs_loop_live :
    (reg_qty reg_addr : Nat) → (out : List UInt8) → List (List ClockEvent) → Io → Option (List UInt8) × Io
  | 0, _, out, _, io => (some out, io)
  | reg_qty + 1, reg_addr, out, events, io =>
    let io := (events.headD []).foldl happen io
    match holding_reg_rd_cb io reg_addr with
    | none => (none, io)
    | some reg => regs_loop_live reg_qty ((reg_addr + 1) % 2^16) (out ++ io_put_be16 reg.toNat) events.tail io

def fc03_hreg_read_live (d : List UInt8) (events : List (List ClockEvent)) (s : Srv) : Option Answer := do
  if d.length ≠ 4 then return (none, s)
  let reg_addr ← be16 d 0
  let reg_qty ← be16 d 2
  if reg_qty = 0 ∨ reg_qty > 125 then return exc_rsp MB_FC03_HOLDING_REG_RD MB_EXC_ILLEGAL_DATA_VAL s
  let num_bytes := reg_qty * 2
  if reg_addr ≥ MB_FP_EXTENSIONS_ADDR then return exc_rsp MB_FC03_HOLDING_REG_RD MB_EXC_ILLEGAL_FC s
  match regs_loop_live reg_qty reg_addr [] events s.io with
  | (none, io) => return exc_rsp MB_FC03_HOLDING_REG_RD MB_EXC_ILLEGAL_DATA_ADDR { s with io := io }
  | (some bytes, io) => return (some (MB_FC03_HOLDING_REG_RD :: UInt8.ofNat num_bytes :: bytes), { s with io := io })

section
variable {events : List (List ClockEvent)} {io : Io}

/-- On a clock that stands still it is the loop of the decoder. -/
theorem regs_loop_still (reg_qty reg_addr : Nat) (out : List UInt8) (io : Io) :
    regs_loop_live reg_qty reg_addr out [] io = (regs_loop (holding_reg_rd_cb io) reg_qty reg_addr out, io) := by
  induction reg_qty generalizing reg_addr out with
  | zero => rfl
  | succ reg_qty ih =>
    rw [regs_loop_live, regs_loop]
    simp only [List.headD_nil, List.foldl_nil, List.tail_nil]
    cases holding_reg_rd_cb io reg_addr with
    | none => rfl
    | some reg => exact ih _ _

theorem fc03_hreg_read_still (d : List UInt8) (s : Srv) : fc03_hreg_read_live d [] s = fc03_hreg_read d s := by
  by_cases four : d.length ≠ 4
  · rw [fc03_hreg_read_live, fc03_hreg_read, regs_read, if_pos four, if_pos four]
  · obtain ⟨addr, qty⟩ := words_of_four (not_not.mp four)
    rw [fc03_hreg_read_live, fc03_hreg_read, regs_read, if_neg four, if_neg four]
    simp only [addr, qty, Option.bind_eq_bind, Option.bind_some, regs_loop_still]
    cases regs_loop (holding_reg_rd_cb s.io) (quantity d) (address d) [] with
    | none => rfl
    | some bytes => rfl

/-- The device when the register `i` of a request is read. -/
def at_read (events : List (List ClockEvent)) (io : Io) (i : Nat) : Io := (events.take (i + 1)).flatten.foldl happen io

theorem at_read_zero (events : List (List ClockEvent)) (io : Io) :
    at_read events io 0 = (events.headD []).foldl happen io := by
  unfold at_read
  cases events with
  | nil => rfl
  | cons group events => simp

theorem at_read_succ (events : List (List ClockEvent)) (io : Io) (i : Nat) :
    at_read events io (i + 1) = at_read events.tail ((events.headD []).foldl happen io) i := by
  unfold at_read
  cases events with
  | nil => simp
  | cons group events => simp

/-- Registers that are all there are put down as they are when they are read. -/
theorem regs_loop_live_inside {left addr : Nat} {out : List UInt8} (inside : addr + left ≤ 18) :
    (regs_loop_live left addr out events io).1 =
      some (out ++ ((List.range left).map fun i => io_read_holding (addr + i) (at_read events io i)).flatMap
        fun reg => io_put_be16 reg.toNat) := by
  induction left generalizing addr out events io with
  | zero => simp [regs_loop_live]
  | succ left ih =>
    have there : holding_reg_rd_cb (at_read events io 0) addr = some (io_read_holding addr (at_read events io 0)) :=
      if_neg (by unfold MODBUS_HOLDING_REGISTER_NUMBERS; omega)
    have next : (addr + 1) % 2^16 = addr + 1 := by omega
    have later : ∀ i, io_read_holding (addr + 1 + i) (at_read events.tail ((events.headD []).foldl happen io) i) =
        io_read_holding (addr + (i + 1)) (at_read events io (i + 1)) := by
      intro i
      rw [at_read_succ, show addr + 1 + i = addr + (i + 1) by omega]
    rw [at_read_zero] at there
    rw [regs_loop_live]
    simp only [there, next]
    rw [ih (by omega), List.range_succ_eq_map, List.map_cons, List.map_map, List.flatMap_cons, List.append_assoc,
      at_read_zero]
    simp only [later]
    rfl

/-- The first register that is not there ends the loop. -/
theorem regs_loop_live_outside {left addr : Nat} {out : List UInt8} (some_ : 0 < left) (outside : 18 < addr + left)
    (low : addr ≤ 18) : (regs_loop_live left addr out events io).1 = none := by
  induction left generalizing addr out events io with
  | zero => omega
  | succ left ih =>
    rw [regs_loop_live]
    by_cases last : addr ≥ 18
    · have gone (io : Io) : holding_reg_rd_cb io addr = none := if_pos last
      simp only [gone]
    · have there (io : Io) : holding_reg_rd_cb io addr = some (io_read_holding addr io) := if_neg last
      have next : (addr + 1) % 2^16 = addr + 1 := by omega
      simp only [there, next]
      exact @ih _ _ (addr + 1) _ (by omega) (by omega) (by omega)

/-- The clock has had this value while the first `qty` registers were read. -/
def Had (events : List (List ClockEvent)) (qty : Nat) (io : Io) (value : Nat) : Prop :=
  ∃ first later, (events.take qty).flatten = first ++ later ∧ (io_now_epoch (first.foldl happen io)).toNat = value

/-- What happens up to one read is a part of what happens up to a later one. -/
theorem events_part (events : List (List ClockEvent)) {i qty : Nat} (inside : i < qty) :
    (events.take qty).flatten = (events.take (i + 1)).flatten ++ ((events.take qty).drop (i + 1)).flatten := by
  have cut : events.take (i + 1) = (events.take qty).take (i + 1) := by
    rw [List.take_take, Nat.min_eq_left (by omega)]
  rw [cut, ← List.flatten_append, List.take_append_drop]

theorem had_at_read {qty i : Nat} (inside : i < qty) : Had events qty io (io_now_epoch (at_read events io i)).toNat :=
  ⟨_, _, events_part events inside, rfl⟩

/-- Ticks count the clock up. -/
theorem ticks_epoch {ticks : List ClockEvent} (only : ∀ e ∈ ticks, e = .time_tick_cb) (io : Io) :
    (io_now_epoch (ticks.foldl happen io)).toNat = ((io_now_epoch io).toNat + ticks.length) % 2^32 := by
  induction ticks generalizing io with
  | nil => exact (Nat.mod_eq_of_lt (io_now_epoch io).toNat_lt).symm
  | cons e ticks ih =>
    have first : e = .time_tick_cb := only e (by simp)
    have step : (io_now_epoch (happen io e)).toNat = ((io_now_epoch io).toNat + 1) % 2^32 := by
      rw [first]
      exact UInt32.toNat_add _ _
    rw [List.foldl_cons, ih (fun e member => only e (by simp [member])), step, List.length_cons]
    omega

/-- Two samples of a clock that only ticks, less than 2^16 times during the request: the high half of the
    first and the low half of the second make a time of the request just when the high half stayed. -/
theorem ticks_untorn {qty i j : Nat} (order : i ≤ j) (inside : j < qty)
    (only : ∀ e ∈ (events.take qty).flatten, e = .time_tick_cb) (few : (events.take qty).flatten.length < 2^16) :
    let e1 := (io_now_epoch (at_read events io i)).toNat
    let e2 := (io_now_epoch (at_read events io j)).toNat
    Had events qty io (e1 / 65536 * 65536 + e2 % 65536) → e1 / 65536 = e2 / 65536 := by
  intro e1 e2 had
  obtain ⟨first, later, whole, value⟩ := had
  have start := (io_now_epoch io).toNat_lt
  have part : ∀ ticks later, (events.take qty).flatten = ticks ++ later →
      (io_now_epoch (ticks.foldl happen io)).toNat = ((io_now_epoch io).toNat + ticks.length) % 2^32 ∧
        ticks.length < 2^16 := by
    intro ticks later whole
    rw [whole] at only few
    rw [List.length_append] at few
    exact ⟨ticks_epoch (fun e member => only e (List.mem_append_left _ member)) io, by omega⟩
  obtain ⟨moment, short⟩ := part first later whole
  obtain ⟨sample1, short1⟩ := part _ _ (events_part events (Nat.lt_of_le_of_lt order inside))
  obtain ⟨sample2, short2⟩ := part _ _ (events_part events inside)
  have longer : (events.take (i + 1)).flatten.length ≤ (events.take (j + 1)).flatten.length := by
    rw [events_part events (Nat.lt_succ_of_le order), List.length_append]
    exact Nat.le_add_right _ _
  have sample1 : e1 = _ := sample1
  have sample2 : e2 = _ := sample2
  rw [moment] at value
  omega

/-- The two words that a reply has of the clock, put together. -/
def clock_value (d reply : List UInt8) : Nat :=
  io_get_be16 (reply.drop (2 + 2 * (0x0E - address d))) * 65536 + io_get_be16 (reply.drop (2 + 2 * (0x0F - address d)))

/-- The words of a reply. -/
theorem word_at {regs : List UInt16} {i : Nat} (inside : i < regs.length) :
    io_get_be16 ((regs.flatMap fun reg => io_put_be16 reg.toNat).drop (2 * i)) = regs[i].toNat := by
  have words_ := @words_values (regs.flatMap fun reg => io_put_be16 reg.toNat) 0 regs rfl
  have word := congrArg (·[i]?) words_
  simp only [words, List.getElem?_map, List.getElem?_range inside, List.getElem?_eq_getElem inside, Option.map_some,
    Nat.zero_add, Option.some.injEq] at word
  rw [← word, UInt16.toNat_ofNat_of_lt' (by rw [UInt16.size]; exact io_get_be16_lt _)]

/-- The registers as they are when they are read. -/
def sampled (d : List UInt8) (events : List (List ClockEvent)) (io : Io) : List UInt16 :=
  (List.range (quantity d)).map fun i => io_read_holding (address d + i) (at_read events io i)

/-- A request is answered with the registers that it read, or with an exception if one of them does not exist. -/
theorem fc03_live_answer {d : List UInt8} (four : d.length = 4) (low : address d ≤ 18) (some_ : 0 < quantity d)
    (s : Srv) :
    ∃ reply s', fc03_hreg_read_live d events s = some (some reply, s') ∧
      (18 < address d + quantity d → reply.head? = some 0x83) ∧
      (address d + quantity d ≤ 18 → reply = MB_FC03_HOLDING_REG_RD :: UInt8.ofNat (quantity d * 2) ::
        (sampled d events s.io).flatMap fun reg => io_put_be16 reg.toNat) := by
  obtain ⟨addr, qty⟩ := words_of_four four
  have not_extension : ¬ address d ≥ MB_FP_EXTENSIONS_ADDR := by
    unfold MB_FP_EXTENSIONS_ADDR
    omega
  unfold fc03_hreg_read_live
  simp only [four, addr, qty, ne_eq, not_true_eq_false, if_false, Option.bind_eq_bind, Option.bind_some]
  by_cases many : quantity d = 0 ∨ quantity d > 125
  · rw [if_pos many]
    exact ⟨_, _, rfl, fun _ => rfl, fun inside => by omega⟩
  rw [if_neg many, if_neg not_extension]
  by_cases outside : 18 < address d + quantity d
  · have none_ := @regs_loop_live_outside events s.io (quantity d) (address d) [] some_ outside low
    generalize regs_loop_live (quantity d) (address d) [] events s.io = ran at none_ ⊢
    obtain ⟨bytes, io⟩ := ran
    obtain rfl : bytes = none := none_
    exact ⟨_, _, rfl, fun _ => rfl, fun inside => by omega⟩
  · have all := @regs_loop_live_inside events s.io (quantity d) (address d) [] (Nat.not_lt.mp outside)
    generalize regs_loop_live (quantity d) (address d) [] events s.io = ran at all ⊢
    obtain ⟨bytes, io⟩ := ran
    obtain rfl : bytes = some _ := all
    exact ⟨_, _, rfl, fun beyond => absurd beyond outside, fun _ => rfl⟩

theorem high_half (e : UInt32) : (e >>> 16).toUInt16.toNat = e.toNat / 65536 := by
  have bound := e.toNat_lt
  rw [UInt32.toNat_toUInt16, UInt32.toNat_shiftRight]
  show e.toNat >>> 16 % 65536 = _
  rw [Nat.shiftRight_eq_div_pow]
  omega

/-- The two words of the clock: its high half when the one register is read, its low half when the other is. -/
theorem clock_value_sampled {d : List UInt8} (low : address d ≤ 0x0E) (high : 0x10 ≤ address d + quantity d)
    (a b : UInt8) :
    clock_value d (a :: b :: (sampled d events io).flatMap fun reg => io_put_be16 reg.toNat) =
      (io_now_epoch (at_read events io (0x0E - address d))).toNat / 65536 * 65536 +
        (io_now_epoch (at_read events io (0x0F - address d))).toNat % 65536 := by
  have length : (sampled d events io).length = quantity d := by simp [sampled]
  have skip : ∀ (bytes : List UInt8) (i : Nat), (a :: b :: bytes).drop (2 + i) = bytes.drop i := by
    intro bytes i
    rw [Nat.add_comm]
    rfl
  have hi_at : address d + (0x0E - address d) = HOLDING_TIMESTAMP_HI_IDX := Nat.add_sub_cancel' low
  have lo_at : address d + (0x0F - address d) = HOLDING_TIMESTAMP_LO_IDX := Nat.add_sub_cancel' (Nat.le_succ_of_le low)
  have hi_in : 0x0E - address d < (sampled d events io).length := by omega
  have lo_in : 0x0F - address d < (sampled d events io).length := by omega
  have hi_reg : (sampled d events io)[0x0E - address d].toNat =
      (io_now_epoch (at_read events io (0x0E - address d))).toNat / 65536 := by
    simp only [sampled, List.getElem_map, List.getElem_range, hi_at]
    exact high_half _
  have lo_reg : (sampled d events io)[0x0F - address d].toNat =
      (io_now_epoch (at_read events io (0x0F - address d))).toNat % 65536 := by
    simp only [sampled, List.getElem_map, List.getElem_range, lo_at]
    exact UInt32.toNat_toUInt16 _
  rw [clock_value, skip, skip, word_at hi_in, word_at lo_in, hi_reg, lo_reg]

/-- A request for registers among which are the two of the clock is answered with an exception if one of them does
    not exist, and else with the high half of the clock at one moment and its low half at another. Unless
    the clock's high half and its low half both changed in between, the two make a time that the clock
    had. When it only ticks, and less than 2^16 times, they do so just when the high half stayed. -/
theorem clock_read {d : List UInt8} (four : d.length = 4) (low : address d ≤ 0x0E)
    (high : 0x10 ≤ address d + quantity d) (events : List (List ClockEvent)) (s : Srv) :
    ∃ reply s', fc03_hreg_read_live d events s = some (some reply, s') ∧
      (18 < address d + quantity d → reply.head? = some 0x83) ∧
      (address d + quantity d ≤ 18 →
        let e1 := (io_now_epoch (at_read events s.io (0x0E - address d))).toNat
        let e2 := (io_now_epoch (at_read events s.io (0x0F - address d))).toNat
        let during := (events.take (quantity d)).flatten
        clock_value d reply = e1 / 65536 * 65536 + e2 % 65536 ∧
          (e1 / 65536 = e2 / 65536 ∨ e1 % 65536 = e2 % 65536 → Had events (quantity d) s.io (clock_value d reply)) ∧
          ((∀ e ∈ during, e = .time_tick_cb) → during.length < 2^16 →
            (Had events (quantity d) s.io (clock_value d reply) ↔ e1 / 65536 = e2 / 65536))) := by
  obtain ⟨reply, s', ran, exception, answer⟩ := @fc03_live_answer events d four (by omega) (by omega) s
  refine ⟨reply, s', ran, exception, fun inside => ?_⟩
  intro e1 e2 during
  have value : clock_value d reply = e1 / 65536 * 65536 + e2 % 65536 := by
    rw [answer inside]
    exact clock_value_sampled low high _ _
  have had1 : Had events (quantity d) s.io e1 := had_at_read (by omega)
  have had2 : Had events (quantity d) s.io e2 := had_at_read (by omega)
  have kept : e1 / 65536 = e2 / 65536 → Had events (quantity d) s.io (e1 / 65536 * 65536 + e2 % 65536) := by
    intro same
    rw [same, Nat.div_add_mod']
    exact had2
  rw [value]
  refine ⟨rfl, ?_, ?_⟩
  · rintro (same | same)
    · exact kept same
    · rw [← same, Nat.div_add_mod']
      exact had1
  · intro only few
    exact ⟨ticks_untorn (by omega) (by omega) only few, kept⟩

end

/-- The clock is read over a tick that leaves its high half alone. -/
theorem clock_read_tick :
    ∃ reply s', fc03_hreg_read_live [0, 0x0E, 0, 2] [[], [.time_tick_cb]] timed = some (some reply, s') ∧
      Had [[], [.time_tick_cb]] 2 timed.io (clock_value [0, 0x0E, 0, 2] reply) := by
  obtain ⟨reply, s', ran, _, answer⟩ :=
    @clock_read [0, 0x0E, 0, 2] rfl (by decide) (by decide) [[], [.time_tick_cb]] timed
  exact ⟨reply, s', ran, (answer (by decide)).2.1 (by decide)⟩

/-- The clock ticks from 0x0000FFFF to 0x00010000 between the two halves: the master reads 0. -/
theorem clock_torn :
    ¬ ∀ (d : List UInt8) (events : List (List ClockEvent)) (s s' : Srv) (reply : List UInt8),
      address d ≤ 0x0E → 0x10 ≤ address d + quantity d → address d + quantity d ≤ 18 →
      fc03_hreg_read_live d events s = some (some reply, s') → Had events (quantity d) s.io (clock_value d reply) := by
  intro always
  obtain ⟨reply, s', ran, _, answer⟩ := @fc03_live_answer [[], [.time_tick_cb]] [0, 0x0E, 0, 2] rfl (by decide)
    (by decide) { timed with io := { timed.io with epoch_cache := 0xFFFF } }
  have had := always _ _ _ _ _ (by decide) (by decide) (by decide) ran
  rw [answer (by decide), clock_value_sampled (by decide) (by decide)] at had
  have same := ticks_untorn (Nat.zero_le 1) (by decide) (by decide) (by decide) had
  exact absurd same (by decide)

end IoEdgeHub.ClockRegisters
