import IoEdgeHub.BitPack
import IoEdgeHub.Bytes
import IoEdgeHub.Regmap

/-!
The Modbus decoder (`modbus/mb_server.c`): what a PDU does to the registers and
what it is answered with.

The decoder is given a pointer and a length. Its model reads the PDU through
`u8` and `be16`, which fail outside of it, so that a decoder that comes to an end
has read nothing else. A reply is the list of its bytes; no reply is `none`.
-/
namespace IoEdgeHub.MbServer
open IoEdgeHub.Bytes IoEdgeHub.Regmap

def MB_FC01_COIL_RD : UInt8 := 0x01
def MB_FC02_DI_RD : UInt8 := 0x02
def MB_FC03_HOLDING_REG_RD : UInt8 := 0x03
def MB_FC04_IN_REG_RD : UInt8 := 0x04
def MB_FC05_COIL_WR : UInt8 := 0x05
def MB_FC06_HOLDING_REG_WR : UInt8 := 0x06
def MB_FC08_DIAGNOSTICS : UInt8 := 0x08
def MB_FC15_COILS_WR : UInt8 := 0x0F
def MB_FC16_HOLDING_REGS_WR : UInt8 := 0x10

def MB_FC08_SUBF_QUERY : Nat := 0x0000
def MB_FC08_SUBF_CLR_CTR : Nat := 0x000A
def MB_FC08_SUBF_BUS_MSG_CTR : Nat := 0x000B
def MB_FC08_SUBF_BUS_CRC_CTR : Nat := 0x000C
def MB_FC08_SUBF_BUS_EXCEPT_CTR : Nat := 0x000D
def MB_FC08_SUBF_SERVER_MSG_CTR : Nat := 0x000E
def MB_FC08_SUBF_SERVER_NO_RESP_CTR : Nat := 0x000F

def MB_EXC_ILLEGAL_FC : UInt8 := 0x01
def MB_EXC_ILLEGAL_DATA_ADDR : UInt8 := 0x02
def MB_EXC_ILLEGAL_DATA_VAL : UInt8 := 0x03

def MB_COIL_OFF_CODE : Nat := 0x0000
def MB_FP_EXTENSIONS_ADDR : Nat := 5000

/-- `diag_ctr`, one field for each `enum mb_diag_counter`. -/
structure Diag where
  bus_msg : UInt16 := 0
  crc_err : UInt16 := 0
  exc : UInt16 := 0
  srv_msg : UInt16 := 0
  no_resp : UInt16 := 0
  deriving DecidableEq, Repr

inductive MbDiagCounter
  | BUS_MSG
  | CRC_ERR
  | EXC
  | SRV_MSG
  | NO_RESP
  deriving DecidableEq, Repr

def Diag.count : MbDiagCounter → Diag → Diag
  | .BUS_MSG, c => { c with bus_msg := c.bus_msg + 1 }
  | .CRC_ERR, c => { c with crc_err := c.crc_err + 1 }
  | .EXC, c => { c with exc := c.exc + 1 }
  | .SRV_MSG, c => { c with srv_msg := c.srv_msg + 1 }
  | .NO_RESP, c => { c with no_resp := c.no_resp + 1 }

/-- The server: the registers and the counters. -/
structure Srv where
  io : Io
  diag_ctr : Diag

def mb_server_diag_count (c : MbDiagCounter) (s : Srv) : Srv := { s with diag_ctr := s.diag_ctr.count c }

/-- A byte of the PDU, which fails outside of it. -/
def u8 (d : List UInt8) (i : Nat) : Option UInt8 := d[i]?

/-- `io_get_be16` on the PDU. -/
def be16 (d : List UInt8) (i : Nat) : Option Nat := do
  let hi ← u8 d i
  let lo ← u8 d (i + 1)
  return hi.toNat * 2^8 + lo.toNat

def holding_reg_rd_cb (s : Io) (addr : Nat) : Option UInt16 :=
  if addr ≥ MODBUS_HOLDING_REGISTER_NUMBERS then none else some (io_read_holding addr s)

def input_reg_rd_cb (s : Io) (addr : Nat) : Option UInt16 :=
  if addr ≥ MODBUS_INPUT_REGISTER_NUMBERS then none else some (get_input_reg addr s)

def coil_rd_cb (s : Io) (addr : Nat) : Option Bool := io_coil_rd addr s

def discrete_input_rd_cb (s : Io) (addr : Nat) : Option Bool := io_discrete_rd addr s

def coil_wr_cb (addr : Nat) (state : Bool) (s : Io) : Option Io := io_write_do_bit addr state s

def holding_reg_wr_cb (addr : Nat) (reg : UInt16) (s : Io) : Option Io := io_write_holding addr reg s

/-- What a decoder ends with: a reply or none, and the server. -/
abbrev Answer := Option (List UInt8) × Srv

def exc_rsp (fc code : UInt8) (s : Srv) : Answer := (some [fc ||| 0x80, code], mb_server_diag_count .EXC s)

/-- The loop of FC01 and FC02. `presp` is where in `out` the next bit goes and `bit_mask` is its bit. -/
def bits_loop (rd : Nat → Option Bool) :
    (left addr cntr presp : Nat) → (bit_mask : UInt8) → (out : List UInt8) → Option (List UInt8)
  | 0, _, _, _, _, out => some out
  | left + 1, addr, cntr, presp, bit_mask, out =>
    match rd addr with
    | none => none
    | some state =>
      let out := if state then out.modify presp (· ||| bit_mask) else out
      if (cntr + 1) % 8 = 0 then bits_loop rd left ((addr + 1) % 2^16) (cntr + 1) (presp + 1) 1 out
      else bits_loop rd left ((addr + 1) % 2^16) (cntr + 1) presp (bit_mask <<< 1) out

/-- FC01 and FC02, which are alike up to what they read. -/
def bits_read (fc : UInt8) (limit : Nat) (rd : Io → Nat → Option Bool) (d : List UInt8) (s : Srv) : Option Answer := do
  if d.length ≠ 4 then return (none, s)
  let addr ← be16 d 0
  let qty ← be16 d 2
  if qty = 0 ∨ qty > limit then return exc_rsp fc MB_EXC_ILLEGAL_DATA_VAL s
  let num_bytes := (qty - 1) / 8 + 1
  match bits_loop (rd s.io) qty addr 0 0 1 (List.replicate num_bytes 0) with
  | none => return exc_rsp fc MB_EXC_ILLEGAL_DATA_ADDR s
  | some bytes => return (some (fc :: UInt8.ofNat num_bytes :: bytes), s)

def fc01_coil_read : List UInt8 → Srv → Option Answer := bits_read MB_FC01_COIL_RD 2000 coil_rd_cb

def fc02_di_read : List UInt8 → Srv → Option Answer := bits_read MB_FC02_DI_RD 2000 discrete_input_rd_cb

/-- The loop of FC03 and FC04. -/
def regs_loop (rd : Nat → Option UInt16) : (reg_qty reg_addr : Nat) → (out : List UInt8) → Option (List UInt8)
  | 0, _, out => some out
  | reg_qty + 1, reg_addr, out =>
    match rd reg_addr with
    | none => none
    | some reg => regs_loop rd reg_qty ((reg_addr + 1) % 2^16) (out ++ io_put_be16 reg.toNat)

/-- FC03 and FC04, which are alike up to what they read. -/
def regs_read (fc : UInt8) (limit : Nat) (rd : Io → Nat → Option UInt16) (d : List UInt8) (s : Srv) : Option Answer := do
  if d.length ≠ 4 then return (none, s)
  let reg_addr ← be16 d 0
  let reg_qty ← be16 d 2
  if reg_qty = 0 ∨ reg_qty > limit then return exc_rsp fc MB_EXC_ILLEGAL_DATA_VAL s
  let num_bytes := reg_qty * 2
  if reg_addr ≥ MB_FP_EXTENSIONS_ADDR then return exc_rsp fc MB_EXC_ILLEGAL_FC s
  match regs_loop (rd s.io) reg_qty reg_addr [] with
  | none => return exc_rsp fc MB_EXC_ILLEGAL_DATA_ADDR s
  | some bytes => return (some (fc :: UInt8.ofNat num_bytes :: bytes), s)

def fc03_hreg_read : List UInt8 → Srv → Option Answer := regs_read MB_FC03_HOLDING_REG_RD 125 holding_reg_rd_cb

def fc04_inreg_read : List UInt8 → Srv → Option Answer := regs_read MB_FC04_IN_REG_RD 125 input_reg_rd_cb

/-- The reply of a write: the function code and two words of the request. -/
def echo_rsp (fc : UInt8) (first second : Nat) (s : Srv) : Answer :=
  (some (fc :: (io_put_be16 first ++ io_put_be16 second)), s)

def fc05_coil_write (d : List UInt8) (s : Srv) : Option Answer := do
  if d.length ≠ 4 then return (none, s)
  let coil_addr ← be16 d 0
  let coil_val ← be16 d 2
  let coil_state : Bool := coil_val ≠ MB_COIL_OFF_CODE
  match coil_wr_cb coil_addr coil_state s.io with
  | none => return exc_rsp MB_FC05_COIL_WR MB_EXC_ILLEGAL_DATA_ADDR s
  | some io => return echo_rsp MB_FC05_COIL_WR coil_addr coil_val { s with io := io }

def fc06_hreg_write (d : List UInt8) (s : Srv) : Option Answer := do
  if d.length ≠ 4 then return (none, s)
  let reg_addr ← be16 d 0
  let reg_val ← be16 d 2
  match holding_reg_wr_cb reg_addr (UInt16.ofNat reg_val) s.io with
  | none => return exc_rsp MB_FC06_HOLDING_REG_WR MB_EXC_ILLEGAL_DATA_ADDR s
  | some io => return echo_rsp MB_FC06_HOLDING_REG_WR reg_addr reg_val { s with io := io }

def fc08_diagnostics (d : List UInt8) (s : Srv) : Option Answer := do
  if d.length ≠ 4 then return (none, s)
  let sfunc ← be16 d 0
  let data ← be16 d 2
  let rsp (data : Nat) (s : Srv) : Answer := echo_rsp MB_FC08_DIAGNOSTICS sfunc data s
  if sfunc = MB_FC08_SUBF_QUERY then return rsp data s
  else if sfunc = MB_FC08_SUBF_CLR_CTR then return rsp data { s with diag_ctr := {} }
  else if sfunc = MB_FC08_SUBF_BUS_MSG_CTR then return rsp s.diag_ctr.bus_msg.toNat s
  else if sfunc = MB_FC08_SUBF_BUS_CRC_CTR then return rsp s.diag_ctr.crc_err.toNat s
  else if sfunc = MB_FC08_SUBF_BUS_EXCEPT_CTR then return rsp s.diag_ctr.exc.toNat s
  else if sfunc = MB_FC08_SUBF_SERVER_MSG_CTR then return rsp s.diag_ctr.srv_msg.toNat s
  else if sfunc = MB_FC08_SUBF_SERVER_NO_RESP_CTR then return rsp s.diag_ctr.no_resp.toNat s
  else return exc_rsp MB_FC08_DIAGNOSTICS MB_EXC_ILLEGAL_FC s

/-- At every eighth coil FC15 takes the next byte of the PDU into `temp`. `data_ix` is an 8-bit variable. -/
def next_temp (d : List UInt8) (coil_cntr : Nat) (temp : UInt8) (data_ix : Nat) : Option (UInt8 × Nat) :=
  if coil_cntr % 8 = 0 then do
    let next ← u8 d data_ix
    return (next, (data_ix + 1) % 2^8)
  else some (temp, data_ix)

/-- The loop of FC15, and whether every coil was there. -/
def coils_loop (d : List UInt8) (coil_addr : Nat) :
    (left coil_cntr : Nat) → (temp : UInt8) → (data_ix : Nat) → Io → Option (Bool × Io)
  | 0, _, _, _, s => some (true, s)
  | left + 1, coil_cntr, temp, data_ix, s => do
    let (temp, data_ix) ← next_temp d coil_cntr temp data_ix
    match coil_wr_cb ((coil_addr + coil_cntr) % 2^16) (temp &&& 0x01 ≠ 0) s with
    | none => return (false, s)
    | some s => coils_loop d coil_addr left (coil_cntr + 1) (temp >>> 1) data_ix s

def fc15_coils_write (d : List UInt8) (s : Srv) : Option Answer := do
  if d.length < 6 then return (none, s)
  let coil_addr ← be16 d 0
  let coil_qty ← be16 d 2
  let num_bytes := (← u8 d 4).toNat
  if coil_qty = 0 ∨ coil_qty > 2000 then return exc_rsp MB_FC15_COILS_WR MB_EXC_ILLEGAL_DATA_VAL s
  if (coil_qty - 1) / 8 + 1 ≠ num_bytes ∨ d.length ≠ num_bytes + 5 then
    return exc_rsp MB_FC15_COILS_WR MB_EXC_ILLEGAL_DATA_VAL s
  let (ok, io) ← coils_loop d coil_addr coil_qty 0 0 5 s.io
  if ok then return echo_rsp MB_FC15_COILS_WR coil_addr coil_qty { s with io := io }
  else return exc_rsp MB_FC15_COILS_WR MB_EXC_ILLEGAL_DATA_ADDR { s with io := io }

/-- The loop of FC16, and whether every register was there. `prx` is where in the PDU the next value is. -/
def hregs_loop (d : List UInt8) (reg_addr : Nat) : (left reg_cntr prx : Nat) → Io → Option (Bool × Io)
  | 0, _, _, s => some (true, s)
  | left + 1, reg_cntr, prx, s => do
    let reg_val ← be16 d prx
    match holding_reg_wr_cb ((reg_addr + reg_cntr) % 2^16) (UInt16.ofNat reg_val) s with
    | none => return (false, s)
    | some s => hregs_loop d reg_addr left (reg_cntr + 1) (prx + 2) s

def fc16_hregs_write (d : List UInt8) (s : Srv) : Option Answer := do
  if d.length < 6 then return (none, s)
  let reg_addr ← be16 d 0
  let reg_qty ← be16 d 2
  let num_bytes := (← u8 d 4).toNat
  if reg_qty = 0 ∨ reg_qty > 125 then return exc_rsp MB_FC16_HOLDING_REGS_WR MB_EXC_ILLEGAL_DATA_VAL s
  if reg_addr ≥ MB_FP_EXTENSIONS_ADDR then return exc_rsp MB_FC16_HOLDING_REGS_WR MB_EXC_ILLEGAL_FC s
  if d.length - 5 ≠ num_bytes then return exc_rsp MB_FC16_HOLDING_REGS_WR MB_EXC_ILLEGAL_DATA_VAL s
  if num_bytes / reg_qty ≠ 2 then return exc_rsp MB_FC16_HOLDING_REGS_WR MB_EXC_ILLEGAL_DATA_VAL s
  let (ok, io) ← hregs_loop d reg_addr reg_qty 0 5 s.io
  if ok then return echo_rsp MB_FC16_HOLDING_REGS_WR reg_addr reg_qty { s with io := io }
  else return exc_rsp MB_FC16_HOLDING_REGS_WR MB_EXC_ILLEGAL_DATA_ADDR { s with io := io }

/-- A function code and its data. -/
def dispatch (fc : UInt8) (d : List UInt8) (s : Srv) : Option Answer :=
  if fc = MB_FC01_COIL_RD then fc01_coil_read d s
  else if fc = MB_FC02_DI_RD then fc02_di_read d s
  else if fc = MB_FC03_HOLDING_REG_RD then fc03_hreg_read d s
  else if fc = MB_FC04_IN_REG_RD then fc04_inreg_read d s
  else if fc = MB_FC05_COIL_WR then fc05_coil_write d s
  else if fc = MB_FC06_HOLDING_REG_WR then fc06_hreg_write d s
  else if fc = MB_FC08_DIAGNOSTICS then fc08_diagnostics d s
  else if fc = MB_FC15_COILS_WR then fc15_coils_write d s
  else if fc = MB_FC16_HOLDING_REGS_WR then fc16_hregs_write d s
  else some (exc_rsp fc MB_EXC_ILLEGAL_FC s)

/-- What the decoder does follows from the handler of each function code and the exception for the others. -/
theorem dispatch_cases {P : UInt8 → Option Answer → Prop} {d : List UInt8} {s : Srv}
    (coil_read : P 1 (fc01_coil_read d s)) (di_read : P 2 (fc02_di_read d s)) (hreg_read : P 3 (fc03_hreg_read d s))
    (inreg_read : P 4 (fc04_inreg_read d s)) (coil_write : P 5 (fc05_coil_write d s))
    (hreg_write : P 6 (fc06_hreg_write d s)) (diagnostics : P 8 (fc08_diagnostics d s))
    (coils_write : P 15 (fc15_coils_write d s)) (hregs_write : P 16 (fc16_hregs_write d s))
    (unknown : ∀ fc, fc ∉ [1, 2, 3, 4, 5, 6, 8, 15, 16] → P fc (some (exc_rsp fc MB_EXC_ILLEGAL_FC s))) (fc : UInt8) :
    P fc (dispatch fc d s) := by
  by_cases known : fc ∈ [1, 2, 3, 4, 5, 6, 8, 15, 16]
  · simp only [List.mem_cons, List.not_mem_nil, or_false] at known
    rcases known with rfl | rfl | rfl | rfl | rfl | rfl | rfl | rfl | rfl
    · exact coil_read
    · exact di_read
    · exact hreg_read
    · exact inreg_read
    · exact coil_write
    · exact hreg_write
    · exact diagnostics
    · exact coils_write
    · exact hregs_write
  · have refused : dispatch fc d s = some (exc_rsp fc MB_EXC_ILLEGAL_FC s) := by
      have other := known
      simp only [List.mem_cons, List.not_mem_nil, or_false, not_or] at other
      obtain ⟨h1, h2, h3, h4, h5, h6, h8, h15, h16⟩ := other
      exact (if_neg h1).trans <| (if_neg h2).trans <| (if_neg h3).trans <| (if_neg h4).trans <| (if_neg h5).trans <|
        (if_neg h6).trans <| (if_neg h8).trans <| (if_neg h15).trans <| if_neg h16
    rw [refused]
    exact unknown fc known

/-- The decoder with its reads checked: `none` if it reads outside of the PDU. -/
def decode (pdu : List UInt8) (s : Srv) : Option Answer :=
  match pdu with
  | [] => some (none, s)
  | fc :: d => dispatch fc d (mb_server_diag_count .SRV_MSG (mb_server_diag_count .BUS_MSG s))

/-- The decoder; it never reads outside of the PDU (`mb_server_process_conforms`). -/
def mb_server_process (pdu : List UInt8) (s : Srv) : Answer := (decode pdu s).getD (none, s)

theorem be16_inside {d : List UInt8} {i : Nat} (inside : i + 1 < d.length) :
    be16 d i = some (io_get_be16 (d.drop i)) := by
  have first : i < d.length := by omega
  simp only [be16, u8, io_get_be16, byteAt, List.getD_eq_getElem?_getD, List.getElem?_drop, Nat.add_zero,
    List.getElem?_eq_getElem first, List.getElem?_eq_getElem inside]
  rfl

theorem u8_inside {d : List UInt8} {i : Nat} (inside : i < d.length) : u8 d i = some (d.getD i 0) := by
  rw [u8, List.getD_eq_getElem?_getD, List.getElem?_eq_getElem inside]
  rfl

section
variable {size : Nat}

/-- Bits that are all there are packed. -/
theorem bits_loop_inside {rd : Nat → Option Bool} {f : Nat → Bool} (reads : ∀ a, rd a = if a ≥ size then none else some (f a))
    (small : size < 2^16) (n first : Nat) {left cntr : Nat} (inside : first + cntr + left ≤ size) :
    bits_loop rd left (first + cntr) cntr (cntr / 8) (BitPack.mask (cntr % 8))
        (BitPack.filled n cntr fun i => f (first + i)) =
      some (BitPack.filled n (cntr + left) fun i => f (first + i)) := by
  induction left generalizing cntr with
  | zero => rfl
  | succ left ih =>
    have there : rd (first + cntr) = some (f (first + cntr)) := by
      rw [reads, if_neg (by omega)]
    have next : (first + cntr + 1) % 2^16 = first + (cntr + 1) := by omega
    have after := @BitPack.filled_succ n cntr fun i => f (first + i)
    have rest := @ih (cntr + 1) (by omega)
    rw [show cntr + 1 + left = cntr + (left + 1) by omega] at rest
    rw [bits_loop]
    simp only [there, next, after]
    by_cases full : (cntr + 1) % 8 = 0
    · rw [if_pos full]
      rwa [full, BitPack.mask_zero, show (cntr + 1) / 8 = cntr / 8 + 1 by omega] at rest
    · rw [if_neg full, BitPack.mask_succ (by omega)]
      rwa [show (cntr + 1) % 8 = cntr % 8 + 1 by omega, show (cntr + 1) / 8 = cntr / 8 by omega] at rest

/-- The first bit that is not there ends the loop. -/
theorem bits_loop_outside {rd : Nat → Option Bool} {f : Nat → Bool} (reads : ∀ a, rd a = if a ≥ size then none else some (f a))
    (small : size < 2^16) {left addr cntr presp : Nat} {bit_mask : UInt8} {out : List UInt8} (some_ : 0 < left)
    (outside : size < addr + left) : bits_loop rd left addr cntr presp bit_mask out = none := by
  induction left generalizing addr cntr presp bit_mask out with
  | zero => omega
  | succ left ih =>
    rw [bits_loop, reads]
    by_cases there : addr ≥ size
    · rw [if_pos there]
    · have next : (addr + 1) % 2^16 = addr + 1 := by omega
      simp only [if_neg there, next]
      by_cases full : (cntr + 1) % 8 = 0
      · rw [if_pos full]
        exact ih (by omega) (by omega)
      · rw [if_neg full]
        exact ih (by omega) (by omega)

/-- Registers that are all there are put down in their order. -/
theorem regs_loop_inside {rd : Nat → Option UInt16} {f : Nat → UInt16}
    (reads : ∀ a, rd a = if a ≥ size then none else some (f a)) (small : size < 2^16) {left addr : Nat} {out : List UInt8}
    (inside : addr + left ≤ size) :
    regs_loop rd left addr out = some (out ++ (List.range left).flatMap fun i => io_put_be16 (f (addr + i)).toNat) := by
  induction left generalizing addr out with
  | zero => simp [regs_loop]
  | succ left ih =>
    have there : rd addr = some (f addr) := by
      rw [reads, if_neg (by omega)]
    have next : (addr + 1) % 2^16 = addr + 1 := by omega
    have order : (fun i => io_put_be16 (f (addr + 1 + i)).toNat) = fun i => io_put_be16 (f (addr + (i + 1))).toNat := by
      funext i
      rw [show addr + 1 + i = addr + (i + 1) by omega]
    rw [regs_loop, there]
    simp only [next]
    rw [ih (by omega), order, List.range_succ_eq_map, List.flatMap_cons, List.flatMap_map, List.append_assoc]
    rfl

/-- The first register that is not there ends the loop. -/
theorem regs_loop_outside {rd : Nat → Option UInt16} {f : Nat → UInt16}
    (reads : ∀ a, rd a = if a ≥ size then none else some (f a)) (small : size < 2^16) {left addr : Nat} {out : List UInt8}
    (some_ : 0 < left) (outside : size < addr + left) : regs_loop rd left addr out = none := by
  induction left generalizing addr out with
  | zero => omega
  | succ left ih =>
    rw [regs_loop, reads]
    by_cases there : addr ≥ size
    · rw [if_pos there]
    · have next : (addr + 1) % 2^16 = addr + 1 := by omega
      simp only [if_neg there, next]
      exact ih (by omega) (by omega)

end

/-- The loop of FC15 stays inside the PDU, and keeps what every write of a coil keeps. -/
theorem coils_loop_keeps {inv : Io → Prop}
    (write : ∀ addr state s s', inv s → coil_wr_cb addr state s = some s' → inv s') {d : List UInt8} {coil_addr : Nat}
    {left coil_cntr data_ix : Nat} {temp : UInt8} {s : Io} (at_ : data_ix = 5 + (coil_cntr + 7) / 8)
    (inside : 5 + (coil_cntr + left + 7) / 8 ≤ d.length) (short : d.length < 2^8) (before : inv s) :
    ∃ ok s', coils_loop d coil_addr left coil_cntr temp data_ix s = some (ok, s') ∧ inv s' := by
  induction left generalizing coil_cntr data_ix temp s with
  | zero => exact ⟨true, s, rfl, before⟩
  | succ left ih =>
    obtain ⟨temp', data_ix', fetched, at_'⟩ : ∃ temp' data_ix', next_temp d coil_cntr temp data_ix = some (temp', data_ix') ∧
        data_ix' = 5 + (coil_cntr + 1 + 7) / 8 := by
      unfold next_temp
      by_cases first : coil_cntr % 8 = 0
      · refine ⟨d.getD data_ix 0, (data_ix + 1) % 2^8, ?_, by omega⟩
        rw [if_pos first, u8_inside (by omega)]
        rfl
      · exact ⟨temp, data_ix, if_neg first, by omega⟩
    simp only [coils_loop, fetched, Option.bind_eq_bind, Option.bind_some]
    cases written : coil_wr_cb ((coil_addr + coil_cntr) % 2^16) (decide (temp' &&& 0x01 ≠ 0)) s with
    | none => exact ⟨false, s, rfl, before⟩
    | some s' =>
      obtain ⟨ok, s'', ran, after⟩ := @ih (coil_cntr + 1) data_ix' (temp' >>> 1) s' at_' (by omega)
        (write _ _ _ _ before written)
      exact ⟨ok, s'', ran, after⟩

/-- The loop of FC16 stays inside the PDU, and keeps what every write of a register keeps. -/
theorem hregs_loop_keeps {inv : Io → Prop}
    (write : ∀ addr reg s s', inv s → holding_reg_wr_cb addr reg s = some s' → inv s') {d : List UInt8} {reg_addr : Nat}
    {left reg_cntr prx : Nat} {s : Io} (inside : prx + 2 * left ≤ d.length) (before : inv s) :
    ∃ ok s', hregs_loop d reg_addr left reg_cntr prx s = some (ok, s') ∧ inv s' := by
  induction left generalizing reg_cntr prx s with
  | zero => exact ⟨true, s, rfl, before⟩
  | succ left ih =>
    simp only [hregs_loop, be16_inside (show prx + 1 < d.length by omega), Option.bind_eq_bind, Option.bind_some]
    cases written : holding_reg_wr_cb ((reg_addr + reg_cntr) % 2^16)
        (UInt16.ofNat (io_get_be16 (d.drop prx))) s with
    | none => exact ⟨false, s, rfl, before⟩
    | some s' =>
      obtain ⟨ok, s'', ran, after⟩ := @ih (reg_cntr + 1) (prx + 2) s' (by omega) (write _ _ _ _ before written)
      exact ⟨ok, s'', ran, after⟩

end IoEdgeHub.MbServer
