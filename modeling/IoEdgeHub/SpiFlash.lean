import IoEdgeHub.EraseTiling

/-!
The driver of the external flash (`storage/w25qxx.c`) over the chip itself. The chip works on a
program or erase command after the exchange that gave it, answers nothing but its status
until it is done, and knows nothing of failures; calls of the hardware layer may fail after
any number of their bytes, and the power may go at any of them.
-/
namespace IoEdgeHub.SpiFlash
open IoEdgeHub.Nor
open IoEdgeHub.W25qxx (W25Q_CHIP_SIZE W25Q_PAGE_SIZE W25Q_SECTOR_SIZE)
open IoEdgeHub.EraseTiling (W25Q_CMD_WRITE_EN W25Q_CMD_READ_SR1 W25Q_SR1_BUSY W25Q_CMD_SECTOR_ER command erase_block choose
  command_block)

def W25Q_CMD_PAGE_PROG : UInt8 := 0x02
def W25Q_CMD_READ_DATA : UInt8 := 0x03
def W25Q_TMO_PROG : Nat := 50

/-- The command that the chip is working on, and what the memory will be once it is done. -/
structure Work where
  cmd : UInt8
  mem : Mem

structure Chip where
  mem : Mem
  wel : Bool := false
  work : Option Work := none
  power : Bool := true

/-- The memory, with the work in hand done. -/
def Chip.rest (c : Chip) : Mem :=
  match c.work with
  | some work => work.mem
  | none => c.mem

def Chip.settle (c : Chip) : Chip := { c with mem := c.rest, work := none }

/-- Without power the work in hand stays half done. -/
def Chip.lose (part : Nat → Bool) (c : Chip) : Chip :=
  { mem := blend part c.rest c.mem, work := none, wel := false, power := false }

/-- The page buffer: behind its last byte comes the first one. -/
def latched : Nat → List UInt8 → List UInt8 → List UInt8
  | _, [], page => page
  | off, byte :: rest, page => latched ((off + 1) % W25Q_PAGE_SIZE) rest (page.set off byte)

def page_program (addr : Nat) (data : List UInt8) (m : Mem) : Mem :=
  programmed (addr / W25Q_PAGE_SIZE * W25Q_PAGE_SIZE)
    (latched (addr % W25Q_PAGE_SIZE) data (List.replicate W25Q_PAGE_SIZE 0xFF)) m

def address (exchange : List UInt8) : Nat :=
  (exchange.getD 1 0).toNat * 2^16 + (exchange.getD 2 0).toNat * 2^8 + (exchange.getD 3 0).toNat

/-- What an exchange commands the chip to do with the memory. -/
def order (exchange : List UInt8) : Option (Mem → Mem) :=
  if exchange.getD 0 0 = W25Q_CMD_PAGE_PROG then
    if 4 < exchange.length then some (page_program (address exchange) (exchange.drop 4)) else none
  else (erase_block exchange).map fun b => erased (b.start / b.size * b.size) b.size

/-- The end of an exchange. -/
def Chip.receive (exchange : List UInt8) (c : Chip) : Chip :=
  if c.power = false ∨ c.work.isSome then c
  else if exchange = [W25Q_CMD_WRITE_EN] then { c with wel := true }
  else
    match order exchange with
    | some effect => if c.wel then { c with wel := false, work := some ⟨exchange.getD 0 0, effect c.mem⟩ } else c
    | none => c

/-- What the chip sends after a command. `noise`: what is not determined by it. -/
def Chip.answer (noise : Nat → UInt8) (exchange : List UInt8) (n : Nat) (c : Chip) : List UInt8 :=
  (List.range n).map fun i =>
    if exchange = [W25Q_CMD_READ_SR1] then
      if c.work.isNone then noise i &&& ~~~W25Q_SR1_BUSY else noise i ||| W25Q_SR1_BUSY
    else if exchange.getD 0 0 = W25Q_CMD_READ_DATA ∧ exchange.length = 4 ∧ c.work.isNone then
      c.mem ((address exchange + i) % W25Q_CHIP_SIZE)
    else noise i

/-- What becomes of the calls of the hardware layer, by number: a transmission fails after so many
    bytes; a reception works or not; the chip is done with its work on a command when it is
    selected next; the power goes, with so much of the work done. -/
structure World where
  transmit : Nat → Option Nat
  receive : Nat → Bool
  ended : UInt8 → Nat → Bool
  outage : Nat → Option (Nat → Bool)
  noise : Nat → Nat → UInt8

/-- The chip, the number of calls so far and what was sent since the chip was selected. -/
structure Bus where
  chip : Chip
  calls : Nat := 0
  selected : List UInt8 := []

section
variable (w : World)

def cs_low (b : Bus) : Bus :=
  let ended := b.chip.work.any fun work => w.ended work.cmd b.calls
  { b with chip := if ended then b.chip.settle else b.chip, selected := [] }

def cs_high (b : Bus) : Bus := { b with chip := b.chip.receive b.selected, selected := [] }

/-- The chip at the next call, which may be the one at which the power goes. -/
def struck (b : Bus) : Chip :=
  match w.outage b.calls with
  | some part => b.chip.lose part
  | none => b.chip

def spi_tx (d : List UInt8) (b : Bus) : Bool × Bus :=
  let chip := struck w b
  if chip.power then
    match w.transmit b.calls with
    | none => (true, { chip, calls := b.calls + 1, selected := b.selected ++ d })
    | some sent => (false, { chip, calls := b.calls + 1, selected := b.selected ++ d.take sent })
  else (false, { b with chip, calls := b.calls + 1 })

def spi_rx (n : Nat) (b : Bus) : Option (List UInt8) × Bus :=
  let chip := struck w b
  (if chip.power ∧ w.receive b.calls then some (chip.answer (w.noise b.calls) b.selected n) else none,
    { b with chip, calls := b.calls + 1 })

def spi_cmd_addr (cmd : UInt8) (addr : UInt32) (b : Bus) : Bool × Bus := spi_tx w (command cmd addr) b

def wren (b : Bus) : Bool × Bus :=
  let r := spi_tx w [W25Q_CMD_WRITE_EN] (cs_low w b)
  (r.1, cs_high r.2)

/-- At most so many polls of the status register. -/
def wait_not_busy : Nat → Bus → Bool × Bus
  | 0, b => (false, b)
  | polls + 1, b =>
    let sent := spi_tx w [W25Q_CMD_READ_SR1] (cs_low w b)
    if sent.1 then
      let sr := spi_rx w 1 sent.2
      match sr.1 with
      | none => (false, cs_high sr.2)
      | some bytes =>
        if bytes.getD 0 W25Q_SR1_BUSY &&& W25Q_SR1_BUSY = 0 then (true, cs_high sr.2)
        else wait_not_busy polls (cs_high sr.2)
    else (false, cs_high sent.2)

/-- One pass of the loop of `w25_read`. -/
def read_piece (addr : UInt32) (n : Nat) (b : Bus) : Option (List UInt8) × Bus :=
  let sent := spi_cmd_addr w W25Q_CMD_READ_DATA addr (cs_low w b)
  if sent.1 then
    let got := spi_rx w n sent.2
    (got.1, cs_high got.2)
  else (none, cs_high sent.2)

/-- The loop over pieces of at most 65535 bytes, `none` when the fuel runs out. -/
def read_from : Nat → UInt32 → UInt32 → List UInt8 → Bus → Option (Option (List UInt8) × Bus)
  | 0, _, _, _, _ => none
  | fuel + 1, addr, len, buf, b =>
    if len = 0 then some (some buf, b)
    else
      let chunk := if len > 0xFFFF then 0xFFFF else len
      let got := read_piece w addr chunk.toUInt16.toNat b
      match got.1 with
      | none => some (none, got.2)
      | some bytes => read_from fuel (addr + chunk) (len - chunk) (buf ++ bytes) got.2

def w25_read (addr len : UInt32) (b : Bus) : Option (Option (List UInt8) × Bus) :=
  if len = 0 then some (some [], b)
  else if addr.toNat ≥ W25Q_CHIP_SIZE ∨ W25Q_CHIP_SIZE - addr.toNat < len.toNat then some (none, b)
  else read_from w (len.toNat + 1) addr len [] b

def w25_write (addr : UInt32) (buf : List UInt8) (b : Bus) : Bool × Bus :=
  if buf.length = 0 then (true, b)
  else if buf.length > W25Q_PAGE_SIZE then (false, b)
  else if addr.toNat % W25Q_PAGE_SIZE + buf.length > W25Q_PAGE_SIZE then (false, b)
  else if addr.toNat ≥ W25Q_CHIP_SIZE ∨ W25Q_CHIP_SIZE - addr.toNat < buf.length then (false, b)
  else
    let ready := wren w b
    if ready.1 then
      let cmd := spi_cmd_addr w W25Q_CMD_PAGE_PROG addr (cs_low w ready.2)
      if cmd.1 then
        let data := spi_tx w buf cmd.2
        if data.1 then wait_not_busy w (W25Q_TMO_PROG + 1) (cs_high data.2) else (false, cs_high data.2)
      else (false, cs_high cmd.2)
    else (false, ready.2)

def erase_one (addr : UInt32) (cmd : UInt8) (timeout_ms : Nat) (b : Bus) : Bool × Bus :=
  let ready := wren w b
  if ready.1 then
    let sent := spi_cmd_addr w cmd addr (cs_low w ready.2)
    if sent.1 then wait_not_busy w (timeout_ms + 1) (cs_high sent.2) else (false, cs_high sent.2)
  else (false, ready.2)

/-- The loop over the blocks, `none` when the fuel runs out. -/
def erase_from : Nat → UInt32 → UInt32 → Bus → Option (Bool × Bus)
  | 0, _, _, _ => none
  | fuel + 1, addr, len, b =>
    if len = 0 then some (true, b)
    else
      let c := choose addr len
      let r := erase_one w addr c.cmd c.tmo b
      if r.1 then erase_from fuel (addr + c.chunk) (len - c.chunk) r.2 else some (false, r.2)

def w25_erase (addr len : UInt32) (b : Bus) : Option (Bool × Bus) :=
  if len = 0 ∨ addr.toNat % W25Q_SECTOR_SIZE ≠ 0 ∨ len.toNat % W25Q_SECTOR_SIZE ≠ 0 then some (false, b)
  else if addr.toNat ≥ W25Q_CHIP_SIZE ∨ W25Q_CHIP_SIZE - addr.toNat < len.toNat then some (false, b)
  else erase_from w (len.toNat + 1) addr len b

end

inductive Call
  | read (addr len : UInt32)
  | write (addr : UInt32) (buf : List UInt8)
  | erase (addr len : UInt32)

/-- What a call returns, with the bytes that were read; `none` for an error. -/
abbrev Reply := Option (List UInt8)

def reply (done : Bool) : Reply := if done then some [] else none

/-- A call of the driver. -/
def drive (w : World) : Call → Bus → Option (Reply × Bus)
  | .read addr len, b => w25_read w addr len b
  | .write addr buf, b => let r := w25_write w addr buf b; some (reply r.1, r.2)
  | .erase addr len, b => (w25_erase w addr len b).map fun r => (reply r.1, r.2)

/-- The same call of the device that other components are built on. -/
def operate : Call → Dev → Reply × Dev
  | .read addr len, d => W25qxx.w25_read addr.toNat len.toNat d
  | .write addr buf, d => let r := W25qxx.w25_write addr.toNat buf d; (reply r.1, r.2)
  | .erase addr len, d => let r := W25qxx.w25_erase addr.toNat len.toNat d; (reply r.1, r.2)

/-- `pause`: nobody calls for as long as the chip may still be working. -/
inductive Event
  | call (c : Call)
  | pause

def run (w : World) : List Event → Bus → Option (List Reply × Bus)
  | [], b => some ([], b)
  | .pause :: events, b => run w events { b with chip := b.chip.settle }
  | .call c :: events, b => do
    let r ← drive w c b
    let rest ← run w events r.2
    some (r.1 :: rest.1, rest.2)

def run_device : List Event → Dev → List Reply × Dev
  | [], d => ([], d)
  | .pause :: events, d => run_device events d
  | .call c :: events, d =>
    let r := operate c d
    let rest := run_device events r.2
    (r.1 :: rest.1, rest.2)

/-- Every call finds the chip done with its work. -/
def Unhurried (w : World) : List Event → Bus → Prop
  | [], _ => True
  | .pause :: events, b => Unhurried w events { b with chip := b.chip.settle }
  | .call c :: events, b => b.chip.work = none ∧ ∀ r, drive w c b = some r → Unhurried w events r.2

theorem blend_same (part : Nat → Bool) (m : Mem) : blend part m m = m := funext fun _ => ite_self _

/-- Data that keeps to its page is in the page buffer where it belongs. -/
theorem latched_reads {data page : List UInt8} {off : Nat} (size : page.length = W25Q_PAGE_SIZE)
    (fits : off + data.length ≤ W25Q_PAGE_SIZE) :
    (latched off data page).length = W25Q_PAGE_SIZE ∧ ∀ k, (latched off data page).getD k 0xFF =
      if off ≤ k ∧ k < off + data.length then data.getD (k - off) 0xFF else page.getD k 0xFF := by
  induction data generalizing off page with
  | nil =>
    refine ⟨size, fun k => ?_⟩
    rw [if_neg (by simp only [List.length_nil]; omega)]
    rfl
  | cons byte data ih =>
    rw [List.length_cons] at fits
    have inside : off < page.length := by omega
    have set_ : ∀ k, (page.set off byte).getD k 0xFF = if k = off then byte else page.getD k 0xFF := by
      intro k
      by_cases here : k = off
      · rw [if_pos here, here, List.getD_eq_getElem _ _ (by rw [List.length_set]; exact inside), List.getElem_set_self]
      · rw [if_neg here, List.getD_eq_getElem?_getD, List.getElem?_set_ne (Ne.symm here), ← List.getD_eq_getElem?_getD]
    by_cases last : off + 1 = W25Q_PAGE_SIZE
    · obtain rfl : data = [] := List.length_eq_zero_iff.mp (by omega)
      refine ⟨(List.length_set ..).trans size, fun k => (set_ k).trans ?_⟩
      by_cases here : k = off
      · rw [if_pos here, here, if_pos ⟨Nat.le_refl _, Nat.lt_succ_self _⟩, Nat.sub_self]
        rfl
      · rw [if_neg here, if_neg (by simp only [List.length_cons, List.length_nil]; omega)]
    · have next : (off + 1) % W25Q_PAGE_SIZE = off + 1 := Nat.mod_eq_of_lt (by omega)
      obtain ⟨length, reads⟩ := @ih (page.set off byte) (off + 1) ((List.length_set ..).trans size) (by omega)
      have unfolded : latched off (byte :: data) page = latched (off + 1) data (page.set off byte) := by rw [latched, next]
      rw [unfolded]
      refine ⟨length, fun k => ?_⟩
      rw [reads k, set_ k, List.length_cons]
      by_cases here : k = off
      · rw [if_neg (by omega), if_pos here, if_pos (by omega), here, Nat.sub_self]
        rfl
      · by_cases later : off + 1 ≤ k ∧ k < off + 1 + data.length
        · have shifted : k - off = (k - (off + 1)) + 1 := by omega
          rw [if_pos later, if_pos (by omega), shifted, List.getD_cons_succ]
        · rw [if_neg later, if_neg here, if_neg (by omega)]

/-- A program command that keeps to its page programs its bytes. -/
theorem page_program_eq {addr : Nat} {data : List UInt8}
    (fits : addr % W25Q_PAGE_SIZE + data.length ≤ W25Q_PAGE_SIZE) (m : Mem) :
    page_program addr data m = programmed addr data m := by
  obtain ⟨length, reads⟩ := latched_reads (@List.length_replicate UInt8 W25Q_PAGE_SIZE 0xFF) fits
  have start : addr / W25Q_PAGE_SIZE * W25Q_PAGE_SIZE + addr % W25Q_PAGE_SIZE = addr := Nat.div_add_mod' _ _
  have blank (k : Nat) : (List.replicate W25Q_PAGE_SIZE (0xFF : UInt8)).getD k 0xFF = 0xFF := by
    rw [List.getD_eq_getElem?_getD, List.getElem?_replicate]
    split_ifs <;> rfl
  funext a
  rw [page_program, programmed, length, programmed, reads, blank]
  by_cases inside : addr ≤ a ∧ a < addr + data.length
  · have place : a - addr / W25Q_PAGE_SIZE * W25Q_PAGE_SIZE - addr % W25Q_PAGE_SIZE = a - addr := by omega
    rw [if_pos inside, if_pos (by omega), if_pos (by omega), place]
  · rw [if_neg inside]
    split_ifs with page data_
    · omega
    · exact UInt8.and_neg_one
    · rfl

theorem address_command (cmd : UInt8) {addr : UInt32} (inside : addr.toNat < W25Q_CHIP_SIZE) (data : List UInt8) :
    address (command cmd addr ++ data) = addr.toNat := by
  have block := @command_block W25Q_CMD_SECTOR_ER addr 0x1000 inside rfl
  exact congrArg Tiling.Block.start (Option.some.inj block)

section
variable {c : Chip} {exchange : List UInt8}

/-- An exchange that neither allows a write nor commands one. -/
theorem receive_nothing (enable : exchange ≠ [W25Q_CMD_WRITE_EN]) (nothing : order exchange = none) :
    c.receive exchange = c := by
  rw [Chip.receive, if_neg enable, nothing]
  exact ite_self c

theorem receive_order {effect : Mem → Mem} (on : c.power = true) (idle : c.work = none) (latch : c.wel = true)
    (enable : exchange ≠ [W25Q_CMD_WRITE_EN]) (orders : order exchange = some effect) :
    c.receive exchange = { c with wel := false, work := some ⟨exchange.getD 0 0, effect c.mem⟩ } := by
  have ready : ¬ (c.power = false ∨ c.work.isSome) := by simp [on, idle]
  rw [Chip.receive, if_neg ready, if_neg enable, orders]
  exact if_pos latch

/-- Without power nothing is received. -/
theorem receive_off (off : c.power = false) : c.receive exchange = c := if_pos (.inl off)

/-- A write enable, whole or cut short, changes at most the latch. -/
theorem receive_enable (idle : c.work = none) (sent : Nat) :
    (c.receive ([W25Q_CMD_WRITE_EN].take sent)).mem = c.mem ∧ (c.receive ([W25Q_CMD_WRITE_EN].take sent)).work = none ∧
      (c.receive ([W25Q_CMD_WRITE_EN].take sent)).power = c.power := by
  by_cases ready : c.power = false ∨ c.work.isSome
  · rw [Chip.receive, if_pos ready]
    exact ⟨rfl, idle, rfl⟩
  · cases sent with
    | zero =>
      have nothing : c.receive [] = c := receive_nothing (by decide) rfl
      rw [List.take_zero, nothing]
      exact ⟨rfl, idle, rfl⟩
    | succ n =>
      rw [List.take_of_length_le (Nat.le_add_left 1 n), Chip.receive, if_neg ready, if_pos rfl]
      exact ⟨rfl, idle, rfl⟩

theorem rest_idle (idle : c.work = none) : c.rest = c.mem := by
  rw [Chip.rest, idle]

/-- The chip answers that it is busy as long as it is. -/
theorem status_answer (noise : Nat → UInt8) (c : Chip) :
    ∃ sr, c.answer noise [W25Q_CMD_READ_SR1] 1 = [sr] ∧ (sr &&& W25Q_SR1_BUSY = 0 ↔ c.work = none) := by
  refine ⟨if c.work.isNone then noise 0 &&& ~~~W25Q_SR1_BUSY else noise 0 ||| W25Q_SR1_BUSY, rfl, ?_⟩
  rw [← Option.isNone_iff_eq_none]
  by_cases idle : c.work.isNone = true
  · have zero : noise 0 &&& ~~~W25Q_SR1_BUSY &&& W25Q_SR1_BUSY = 0 := by
      rw [UInt8.and_assoc]
      exact UInt8.and_zero
    rw [if_pos idle]
    exact ⟨fun _ => idle, fun _ => zero⟩
  · have absorbed : ∀ x y : Bool, ((x || y) && y) = y := by decide
    have one : (noise 0 ||| W25Q_SR1_BUSY) &&& W25Q_SR1_BUSY = W25Q_SR1_BUSY := by
      refine UInt8.eq_of_toBitVec_eq (BitVec.eq_of_getLsbD_eq fun i _ => ?_)
      rw [UInt8.toBitVec_and, UInt8.toBitVec_or, BitVec.getLsbD_and, BitVec.getLsbD_or]
      exact absorbed _ _
    rw [if_neg idle, one]
    exact ⟨fun zero => absurd zero (by decide), fun idle_ => absurd idle_ idle⟩

/-- A read command that keeps to the chip is answered with what is stored. -/
theorem read_answer (noise : Nat → UInt8) (idle : c.work = none) {addr : UInt32} {n : Nat}
    (inside : addr.toNat + n ≤ W25Q_CHIP_SIZE) :
    c.answer noise (command W25Q_CMD_READ_DATA addr) n = bytesAt c.mem addr.toNat n := by
  refine List.map_congr_left ?_
  intro i member
  have below := List.mem_range.mp member
  have place : address (command W25Q_CMD_READ_DATA addr) = addr.toNat := by
    have whole := address_command W25Q_CMD_READ_DATA (show addr.toNat < W25Q_CHIP_SIZE by omega) []
    rwa [List.append_nil] at whole
  have other : command W25Q_CMD_READ_DATA addr ≠ [W25Q_CMD_READ_SR1] := by
    intro same
    cases congrArg List.length same
  rw [if_neg other, if_pos ⟨rfl, rfl, Option.isNone_iff_eq_none.mpr idle⟩, place, Nat.mod_eq_of_lt (by omega)]

end

section
variable {w : World} {b : Bus}

/-- `after` is what an outage leaves of `c`. -/
structure Lost (c after : Chip) : Prop where
  off : after.power = false
  idle : after.work = none
  part : ∃ part, after.mem = blend part c.rest c.mem

/-- What can become of a transmission: it goes out, it stops half-way, or the power goes. -/
inductive Transmission (d : List UInt8) (b : Bus) : Bool × Bus → Prop
  | whole (on : b.chip.power = true) :
    Transmission d b (true, { b with calls := b.calls + 1, selected := b.selected ++ d })
  | stopped (on : b.chip.power = true) (sent : Nat) :
    Transmission d b (false, { b with calls := b.calls + 1, selected := b.selected ++ d.take sent })
  | dark (chip : Chip) (lost : Lost b.chip chip) : Transmission d b (false, { b with chip, calls := b.calls + 1 })

theorem struck_cases (w : World) (b : Bus) (fine : b.chip.power = true ∨ b.chip.work = none) :
    struck w b = b.chip ∧ b.chip.power = true ∨ (struck w b).power = false ∧ Lost b.chip (struck w b) := by
  unfold struck
  cases w.outage b.calls with
  | some part => exact .inr ⟨rfl, rfl, rfl, part, rfl⟩
  | none =>
    by_cases on : b.chip.power = true
    · exact .inl ⟨rfl, on⟩
    · have off := Bool.eq_false_iff.mpr on
      exact .inr ⟨off, off, fine.resolve_left on, fun _ => false, rfl⟩

theorem spi_tx_cases (d : List UInt8) (fine : b.chip.power = true ∨ b.chip.work = none) :
    Transmission d b (spi_tx w d b) := by
  unfold spi_tx
  rcases struck_cases w b fine with ⟨same, on⟩ | ⟨off, lost⟩
  · simp only [same, on, if_true]
    cases w.transmit b.calls with
    | none => exact .whole on
    | some sent => exact .stopped on sent
  · simp only [off, Bool.false_eq_true, if_false]
    exact .dark _ lost

/-- What can become of a reception. -/
inductive Reception (n : Nat) (b : Bus) : Option (List UInt8) × Bus → Prop
  | got (on : b.chip.power = true) (noise : Nat → UInt8) :
    Reception n b (some (b.chip.answer noise b.selected n), { b with calls := b.calls + 1 })
  | failed (on : b.chip.power = true) : Reception n b (none, { b with calls := b.calls + 1 })
  | dark (chip : Chip) (lost : Lost b.chip chip) : Reception n b (none, { b with chip, calls := b.calls + 1 })

theorem spi_rx_cases (n : Nat) (fine : b.chip.power = true ∨ b.chip.work = none) : Reception n b (spi_rx w n b) := by
  unfold spi_rx
  rcases struck_cases w b fine with ⟨same, on⟩ | ⟨off, lost⟩
  · simp only [same, on, true_and]
    cases w.receive b.calls with
    | true => exact .got on _
    | false => exact .failed on
  · simp only [off, Bool.false_eq_true, false_and, if_false]
    exact .dark _ lost

/-! ### Waiting -/

/-- What can come of waiting for the chip. -/
inductive Waited (c : Chip) : Bool → Chip → Prop
  | ended {after : Chip} (on : after.power = true) (idle : after.work = none) (mem : after.mem = c.rest) : Waited c true after
  | late {after : Chip} (on : after.power = true) (rest : after.rest = c.rest) : Waited c false after
  | dark {after : Chip} (lost : Lost c after) : Waited c false after

/-- The chip when it is selected has made progress at most. -/
theorem cs_low_chip (w : World) (b : Bus) :
    (cs_low w b).chip.power = b.chip.power ∧ (cs_low w b).chip.rest = b.chip.rest ∧
      ((cs_low w b).chip.mem = b.chip.mem ∨ (cs_low w b).chip.mem = b.chip.rest) ∧
      (b.chip.work = none → (cs_low w b).chip = b.chip) := by
  unfold cs_low
  by_cases ended : (b.chip.work.any fun work => w.ended work.cmd b.calls) = true
  · simp only [ended, if_true]
    refine ⟨rfl, rfl, .inr rfl, fun idle => ?_⟩
    rw [idle] at ended
    cases ended
  · simp only [ended, Bool.false_eq_true, if_false]
    exact ⟨trivial, trivial, .inl trivial, fun _ => trivial⟩

theorem lost_later {c later after : Chip} (rest : later.rest = c.rest) (mem : later.mem = c.mem ∨ later.mem = c.rest)
    (lost : Lost later after) : Lost c after := by
  obtain ⟨off, idle, part, after_⟩ := lost
  rw [rest] at after_
  rcases mem with same | done
  · rw [same] at after_
    exact ⟨off, idle, part, after_⟩
  · rw [done, blend_same] at after_
    exact ⟨off, idle, fun _ => true, after_⟩

theorem waited_later {c later after : Chip} {done : Bool} (rest : later.rest = c.rest)
    (mem : later.mem = c.mem ∨ later.mem = c.rest) (waited : Waited later done after) : Waited c done after := by
  cases waited with
  | ended on idle same => exact .ended on idle (same.trans rest)
  | late on same => exact .late on (same.trans rest)
  | dark lost => exact .dark (lost_later rest mem lost)

/-- An exchange about the status leaves the chip as it is. -/
theorem cs_high_status (sent : Nat) (status : b.selected = [W25Q_CMD_READ_SR1].take sent) : (cs_high b).chip = b.chip := by
  rw [cs_high, status]
  cases sent with
  | zero => exact receive_nothing (by decide) rfl
  | succ n =>
    rw [List.take_of_length_le (Nat.le_add_left 1 n)]
    exact receive_nothing (by decide) rfl

theorem cs_high_off (off : b.chip.power = false) : (cs_high b).chip = b.chip := receive_off off

theorem wait_not_busy_cases (polls : Nat) (on : b.chip.power = true) :
    Waited b.chip (wait_not_busy w polls b).1 (wait_not_busy w polls b).2.chip := by
  induction polls generalizing b with
  | zero => exact .late on rfl
  | succ polls ih =>
    obtain ⟨power, rest, mem, _⟩ := cs_low_chip w b
    have on_ : (cs_low w b).chip.power = true := power.trans on
    refine waited_later rest mem ?_
    have sends : Transmission [W25Q_CMD_READ_SR1] (cs_low w b) (spi_tx w [W25Q_CMD_READ_SR1] (cs_low w b)) :=
      spi_tx_cases _ (.inl on_)
    unfold wait_not_busy
    generalize spi_tx w [W25Q_CMD_READ_SR1] (cs_low w b) = sent at sends ⊢
    cases sends with
    | stopped _ n =>
      simp only [Bool.false_eq_true, if_false]
      rw [cs_high_status n rfl]
      exact .late on_ rfl
    | dark chip lost =>
      simp only [Bool.false_eq_true, if_false]
      rw [cs_high_off lost.off]
      exact .dark lost
    | whole _ =>
      simp only [if_true]
      have receives := @spi_rx_cases w { cs_low w b with
          calls := (cs_low w b).calls + 1
          selected := [W25Q_CMD_READ_SR1] } 1 (.inl on_)
      generalize got : spi_rx w 1 { cs_low w b with
          calls := (cs_low w b).calls + 1
          selected := [W25Q_CMD_READ_SR1] } = sr at receives
      have same : (cs_low w b).selected ++ [W25Q_CMD_READ_SR1] = [W25Q_CMD_READ_SR1] := rfl
      simp only [same, got]
      cases receives with
      | failed _ =>
        simp only
        rw [cs_high_status 1 rfl]
        exact .late on_ rfl
      | dark chip lost =>
        simp only
        rw [cs_high_off lost.off]
        exact .dark lost
      | got _ noise =>
        obtain ⟨sr, answer, busy⟩ := status_answer noise (cs_low w b).chip
        simp only [answer]
        split_ifs with free
        · have idle := busy.mp free
          rw [cs_high_status 1 rfl]
          exact .ended on_ idle (rest_idle idle).symm
        · have chip : (cs_high { cs_low w b with
              calls := (cs_low w b).calls + 1 + 1
              selected := [W25Q_CMD_READ_SR1] }).chip = (cs_low w b).chip := cs_high_status 1 rfl
          have later := @ih (cs_high { cs_low w b with
              calls := (cs_low w b).calls + 1 + 1
              selected := [W25Q_CMD_READ_SR1] }) (by rw [chip]; exact on_)
          rw [chip] at later
          exact later

end

end IoEdgeHub.SpiFlash
