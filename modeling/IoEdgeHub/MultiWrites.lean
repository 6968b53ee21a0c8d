import IoEdgeHub.MbTransports

/-!
The two requests that write more than one coil or register. Each is the single writes of
its values in their order, up to the first address that does not exist: `write_each` is
that sequence, and the loops of the decoder carry it out.
-/
namespace IoEdgeHub.MultiWrites
open IoEdgeHub.Bytes IoEdgeHub.Regmap IoEdgeHub.MbServer IoEdgeHub.MbRequests

/-- One write after the other, from the address `a` on. Whether every address was there, and the registers. -/
def write_each {α : Type} (write : Nat → α → Io → Option Io) : (a : Nat) → List α → Io → Bool × Io
  | _, [], s => (true, s)
  | a, v :: rest, s =>
    match write a v s with
    | none => (false, s)
    | some s => write_each write (a + 1) rest s

/-- A request to write registers, or `qty` coils whose states are packed into `data`. -/
inductive MultiWrite
  | registers (start : UInt16) (values : List UInt16)
  | coils (start : UInt16) (qty : Nat) (data : List UInt8)

namespace MultiWrite

def qty : MultiWrite → Nat
  | .registers _ values => values.length
  | .coils _ qty _ => qty

def fc : MultiWrite → UInt8
  | .registers .. => MB_FC16_HOLDING_REGS_WR
  | .coils .. => MB_FC15_COILS_WR

def start : MultiWrite → Nat
  | .registers start _ => start.toNat
  | .coils start .. => start.toNat

/-- The bytes of the values. -/
def payload : MultiWrite → List UInt8
  | .registers _ values => values.flatMap fun v => io_put_be16 v.toNat
  | .coils _ _ data => data

/-- What follows the function code. -/
def body (w : MultiWrite) : List UInt8 :=
  io_put_be16 w.start ++ io_put_be16 w.qty ++ UInt8.ofNat w.payload.length :: w.payload

def pdu (w : MultiWrite) : List UInt8 := w.fc :: w.body

/-- The quantity is one that the function code has, and the values are as many. -/
def WellFormed : MultiWrite → Prop
  | .registers start values => start.toNat < MB_FP_EXTENSIONS_ADDR ∧ 1 ≤ values.length ∧ values.length ≤ 125
  | .coils _ qty data => 1 ≤ qty ∧ qty ≤ 2000 ∧ data.length = (qty + 7) / 8

instance : ∀ w : MultiWrite, Decidable w.WellFormed
  | .registers .. => inferInstanceAs (Decidable (_ ∧ _))
  | .coils .. => inferInstanceAs (Decidable (_ ∧ _))

/-- The state of a coil, its byte's lowest bit first. -/
def coil (data : List UInt8) (i : Nat) : Bool := (byteAt data (i / 8)).testBit (i % 8)

/-- The single writes. -/
def each : MultiWrite → Io → Bool × Io
  | .registers start values => write_each io_write_holding start.toNat values
  | .coils start qty data => write_each io_write_do_bit start.toNat ((List.range qty).map (coil data))

end MultiWrite
open MultiWrite

/-- The words from `prx` on. -/
def words (d : List UInt8) (prx qty : Nat) : List UInt16 :=
  (List.range qty).map fun i => UInt16.ofNat (io_get_be16 (d.drop (prx + 2 * i)))

theorem words_succ (d : List UInt8) (prx qty : Nat) :
    words d prx (qty + 1) = UInt16.ofNat (io_get_be16 (d.drop prx)) :: words d (prx + 2) qty := by
  rw [words, List.range_succ_eq_map, List.map_cons, List.map_map]
  refine congrArg _ (List.map_congr_left fun i _ => ?_)
  rw [Function.comp_apply, show prx + 2 * i.succ = prx + 2 + 2 * i by omega]

/-- Values that were put down are the words. -/
theorem words_values {d : List UInt8} {prx : Nat} {values : List UInt16}
    (rest : d.drop prx = values.flatMap fun v => io_put_be16 v.toNat) : words d prx values.length = values := by
  induction values generalizing prx with
  | nil => rfl
  | cons v values ih =>
    rw [List.flatMap_cons] at rest
    have later : d.drop (prx + 2) = values.flatMap fun v => io_put_be16 v.toNat := by
      rw [← List.drop_drop, rest]
      rfl
    rw [List.length_cons, words_succ, ih later, rest, io_get_put_be16, Nat.mod_eq_of_lt v.toNat_lt, UInt16.ofNat_toNat]

/-- The loop of FC16 from the value at `prx` on. -/
theorem hregs_loop_each {d : List UInt8} {reg_addr left reg_cntr prx : Nat} {s : Io} (inside : prx + 2 * left ≤ d.length)
    (low : reg_addr + reg_cntr + left ≤ 2^16) :
    hregs_loop d reg_addr left reg_cntr prx s =
      some (write_each io_write_holding (reg_addr + reg_cntr) (words d prx left) s) := by
  induction left generalizing reg_cntr prx s with
  | zero => rfl
  | succ left ih =>
    rw [words_succ]
    simp only [hregs_loop, be16_inside (show prx + 1 < d.length by omega), Option.bind_eq_bind, Option.bind_some, write_each,
      holding_reg_wr_cb, Nat.mod_eq_of_lt (show reg_addr + reg_cntr < 2^16 by omega)]
    cases io_write_holding (reg_addr + reg_cntr) (UInt16.ofNat (io_get_be16 (d.drop prx))) s with
    | none => rfl
    | some s' => exact ih (by omega) (by omega)

/-- The states that are left, when `cntr` of them have been taken. -/
def states (data : List UInt8) (cntr left : Nat) : List Bool := (List.range left).map fun i => coil data (cntr + i)

theorem states_succ (data : List UInt8) (cntr left : Nat) :
    states data cntr (left + 1) = coil data cntr :: states data (cntr + 1) left := by
  rw [states, List.range_succ_eq_map, List.map_cons, List.map_map]
  refine congrArg _ (List.map_congr_left fun i _ => ?_)
  rw [Function.comp_apply, Nat.add_right_comm]
  rfl

/-- `temp` is the byte of the next coil, without the bits that have been taken. -/
def Shifted (data : List UInt8) (cntr : Nat) (temp : UInt8) : Prop := temp.toNat = byteAt data (cntr / 8) / 2^(cntr % 8)

theorem shifted_bit {data : List UInt8} {cntr : Nat} {temp : UInt8} (shifted : Shifted data cntr temp) :
    decide (temp &&& 0x01 ≠ 0) = coil data cntr := by
  have bit : (temp &&& 0x01).toNat = temp.toNat % 2 := by
    rw [UInt8.toNat_and]
    exact Nat.and_one_is_mod _
  have set_ : temp &&& 0x01 ≠ 0 ↔ byteAt data (cntr / 8) / 2^(cntr % 8) % 2 = 1 := by
    rw [ne_eq, ← UInt8.toNat_inj, bit, shifted]
    show ¬ _ = 0 ↔ _
    omega
  rw [decide_eq_decide.mpr set_]
  exact (Nat.testBit_eq_decide_div_mod_eq ..).symm

theorem shifted_next {data : List UInt8} {cntr : Nat} {temp : UInt8} (shifted : Shifted data cntr temp)
    (inside : (cntr + 1) % 8 ≠ 0) : Shifted data (cntr + 1) (temp >>> 1) := by
  have half : (temp >>> 1).toNat = temp.toNat / 2 := by
    rw [UInt8.toNat_shiftRight]
    exact Nat.shiftRight_eq_div_pow _ 1
  unfold Shifted
  rw [half, shifted, show (cntr + 1) / 8 = cntr / 8 by omega, show (cntr + 1) % 8 = cntr % 8 + 1 by omega, Nat.pow_succ,
    Nat.div_div_eq_div_mul]

/-- The loop of FC15 from the coil `coil_cntr` on. -/
theorem coils_loop_each {d data : List UInt8} {coil_addr left coil_cntr data_ix : Nat} {temp : UInt8} {s : Io}
    (rest : d.drop 5 = data) (at_ : data_ix = 5 + (coil_cntr + 7) / 8) (inside : (coil_cntr + left + 7) / 8 ≤ data.length)
    (short : d.length < 2^8) (shifted : coil_cntr % 8 ≠ 0 → Shifted data coil_cntr temp)
    (low : coil_addr + coil_cntr < 2^16) :
    coils_loop d coil_addr left coil_cntr temp data_ix s =
      some (write_each io_write_do_bit (coil_addr + coil_cntr) (states data coil_cntr left) s) := by
  induction left generalizing coil_cntr data_ix temp s with
  | zero => rfl
  | succ left ih =>
    have length : data.length + 5 = d.length := by
      have length := congrArg List.length rest
      rw [List.length_drop] at length
      omega
    obtain ⟨temp', data_ix', fetched, at_', shifted'⟩ : ∃ temp' data_ix',
        next_temp d coil_cntr temp data_ix = some (temp', data_ix') ∧ data_ix' = 5 + (coil_cntr + 1 + 7) / 8 ∧
          Shifted data coil_cntr temp' := by
      unfold next_temp
      by_cases first : coil_cntr % 8 = 0
      · refine ⟨d.getD data_ix 0, (data_ix + 1) % 2^8, ?_, by omega, ?_⟩
        · rw [if_pos first, u8_inside (by omega)]
          rfl
        · unfold Shifted byteAt
          rw [first, Nat.pow_zero, Nat.div_one, ← rest, List.getD_eq_getElem?_getD, List.getD_eq_getElem?_getD,
            List.getElem?_drop, show data_ix = 5 + coil_cntr / 8 by omega]
      · exact ⟨temp, data_ix, if_neg first, by omega, shifted first⟩
    rw [states_succ]
    simp only [coils_loop, fetched, Option.bind_eq_bind, Option.bind_some, shifted_bit shifted', coil_wr_cb, write_each,
      Nat.mod_eq_of_lt low]
    cases written : io_write_do_bit (coil_addr + coil_cntr) (coil data coil_cntr) s with
    | none => rfl
    | some s' =>
      -- a coil that was there is far below the end of the addresses
      have there : coil_addr + coil_cntr < DO_NUM := by
        by_contra outside
        rw [io_write_do_bit, if_pos (Nat.not_lt.mp outside)] at written
        cases written
      exact ih at_' (by omega) (shifted_next shifted') (by unfold DO_NUM at there; omega)

section
variable {d : List UInt8} {s : Srv}

/-- How a request that is carried out ends. -/
def ended (fc : UInt8) (start qty : Nat) (done : Bool × Io) (s : Srv) : Answer :=
  if done.1 then echo_rsp fc start qty { s with io := done.2 }
  else exc_rsp fc MB_EXC_ILLEGAL_DATA_ADDR { s with io := done.2 }

theorem fc15_written (some_ : 1 ≤ quantity d) (few : quantity d ≤ 2000) (packed : byteCount d = (quantity d + 7) / 8)
    (length : d.length = byteCount d + 5) :
    fc15_coils_write d s = some (ended MB_FC15_COILS_WR (address d) (quantity d)
      (write_each io_write_do_bit (address d) (states (d.drop 5) 0 (quantity d)) s.io) s) := by
  obtain ⟨addr, qty, count⟩ := words_of_six (show 6 ≤ d.length by omega)
  have bytes : (d.getD 4 0).toNat = byteCount d := rfl
  have low : address d < 2^16 := io_get_be16_lt d
  have ran := @coils_loop_each d (d.drop 5) (address d) (quantity d) 0 5 0 s.io rfl rfl
    (by rw [List.length_drop]; omega) (by omega) (fun off => absurd rfl off) (by omega)
  rw [Nat.add_zero] at ran
  rw [fc15_coils_write, if_neg (by omega)]
  simp only [addr, qty, count, bytes, ran, Option.bind_eq_bind, Option.bind_some]
  rw [if_neg (by omega), if_neg (by omega)]
  rcases write_each io_write_do_bit (address d) (states (d.drop 5) 0 (quantity d)) s.io with ⟨_ | _, io⟩ <;> rfl

theorem fc16_written (some_ : 1 ≤ quantity d) (few : quantity d ≤ 125) (low : address d < MB_FP_EXTENSIONS_ADDR)
    (ratio : byteCount d / quantity d = 2) (length : d.length = byteCount d + 5) :
    fc16_hregs_write d s = some (ended MB_FC16_HOLDING_REGS_WR (address d) (quantity d)
      (write_each io_write_holding (address d) (words d 5 (quantity d)) s.io) s) := by
  have room : 2 * quantity d ≤ byteCount d := by
    have product := Nat.div_mul_le_self (byteCount d) (quantity d)
    rwa [ratio] at product
  obtain ⟨addr, qty, count⟩ := words_of_six (show 6 ≤ d.length by omega)
  have bytes : (d.getD 4 0).toNat = byteCount d := rfl
  have ran := @hregs_loop_each d (address d) (quantity d) 0 5 s.io (by omega)
    (by unfold MB_FP_EXTENSIONS_ADDR at low; omega)
  rw [Nat.add_zero] at ran
  rw [fc16_hregs_write, if_neg (by omega)]
  simp only [addr, qty, count, bytes, ratio, ran, Option.bind_eq_bind, Option.bind_some, ne_eq, not_true_eq_false, if_false]
  rw [if_neg (by omega), if_neg (Nat.not_le.mpr low), if_neg (by omega)]
  rcases write_each io_write_holding (address d) (words d 5 (quantity d)) s.io with ⟨_ | _, io⟩ <;> rfl

end

section
variable {s : Srv}

theorem values_length (values : List UInt16) :
    (values.flatMap fun v => io_put_be16 v.toNat).length = 2 * values.length := by
  induction values with
  | nil => rfl
  | cons v rest ih =>
    rw [List.flatMap_cons, List.length_append, ih, List.length_cons]
    show 2 + _ = _
    omega

/-- What is read of a request. -/
theorem body_read (w : MultiWrite) (start : w.start < 2^16) (qty : w.qty < 2^16) (short : w.payload.length < 2^8) :
    address w.body = w.start ∧ quantity w.body = w.qty ∧ byteCount w.body = w.payload.length ∧
      w.body.length = w.payload.length + 5 ∧ w.body.drop 5 = w.payload := by
  refine ⟨?_, ?_, ?_, ?_, rfl⟩
  · rw [address, body, List.append_assoc, io_get_put_be16, Nat.mod_eq_of_lt start]
  · exact (io_get_put_be16 w.qty _).trans (Nat.mod_eq_of_lt qty)
  · show (UInt8.ofNat w.payload.length).toNat = _
    rw [UInt8.toNat_ofNat', Nat.mod_eq_of_lt short]
  · simp [body, io_put_be16]

theorem fc16_each {start : UInt16} {values : List UInt16} (well : (registers start values).WellFormed) :
    fc16_hregs_write (registers start values).body s =
      some (ended MB_FC16_HOLDING_REGS_WR start.toNat values.length ((registers start values).each s.io) s) := by
  obtain ⟨low, some_, few⟩ := well
  have twice : (registers start values).payload.length = 2 * values.length := values_length values
  obtain ⟨addr, qty, count, length, rest⟩ := body_read (registers start values) start.toNat_lt
    (show values.length < 2^16 by omega) (by omega)
  have qty' : quantity (registers start values).body = values.length := qty
  have ratio : byteCount (registers start values).body / quantity (registers start values).body = 2 := by
    rw [count, twice, qty']
    exact Nat.mul_div_cancel _ some_
  have ran := @fc16_written (registers start values).body s (by omega) (by omega) (by rw [addr]; exact low) ratio (by omega)
  rw [addr, qty', words_values rest] at ran
  exact ran

theorem fc15_each {start : UInt16} {qty : Nat} {data : List UInt8} (well : (coils start qty data).WellFormed) :
    fc15_coils_write (coils start qty data).body s =
      some (ended MB_FC15_COILS_WR start.toNat qty ((coils start qty data).each s.io) s) := by
  obtain ⟨some_, few, packed⟩ := well
  have payload_ : (coils start qty data).payload.length = data.length := rfl
  obtain ⟨addr, qty', count, length, rest⟩ := body_read (coils start qty data) start.toNat_lt
    (show qty < 2^16 by omega) (by omega)
  have qty' : quantity (coils start qty data).body = qty := qty'
  have all : states data 0 qty = (List.range qty).map (coil data) :=
    List.map_congr_left fun i _ => by rw [Nat.zero_add]
  have ran := @fc15_written (coils start qty data).body s (by omega) (by omega) (by omega) (by omega)
  rw [addr, qty', rest, show (coils start qty data).payload = data from rfl, all] at ran
  exact ran

/-- A request to write registers or coils does what the single writes do, in their order up
    to the first address that does not exist. It is answered with its start and its
    quantity, or with exception 0x02 if there is such an address. -/
theorem multi_write_each (w : MultiWrite) (well : w.WellFormed) (s : Srv) :
    let done := w.each s.io
    let answer := mb_server_process w.pdu s
    answer.2.io = done.2 ∧
      answer.1 = some (if done.1 then w.fc :: (io_put_be16 w.start ++ io_put_be16 w.qty) else [w.fc ||| 0x80, 0x02]) := by
  intro done answer
  obtain ⟨s', s_⟩ : ∃ s', s' = mb_server_diag_count .SRV_MSG (mb_server_diag_count .BUS_MSG s) := ⟨_, rfl⟩
  have ran : decode w.pdu s = some (ended w.fc w.start w.qty (w.each s.io) s') := by
    rw [s_]
    cases w with
    | registers start values => exact fc16_each well
    | coils start qty data => exact fc15_each well
  have answer_ : answer = ended w.fc w.start w.qty (w.each s.io) s' := by
    show (decode w.pdu s).getD _ = _
    rw [ran]
    rfl
  rw [answer_]
  unfold ended
  cases done.1 with
  | true => exact ⟨rfl, rfl⟩
  | false => exact ⟨rfl, rfl⟩

end

/-- The server of `fresh` with a clock. -/
def timed : Srv := { MbTransports.fresh with io := { MbTransports.fresh.io with rtc_ready := true } }

/-- The time in two registers, a switch that is left alone, the switch to reboot, and a register
    that does not exist. -/
theorem multi_write_each_past_the_end :
    let w := registers 0x0E [0x6000, 0x0001, 0, 1, 7]
    (mb_server_process w.pdu timed).2.io.hooks =
        [.set_timestamp 0x60000001, .history_sync, .io_reboot_cold] ∧
      (mb_server_process w.pdu timed).1 = some [0x90, 0x02] := by
  intro w
  obtain ⟨effect, reply⟩ := multi_write_each w (by decide) timed
  rw [effect, reply]
  decide

end IoEdgeHub.MultiWrites
