import IoEdgeHub.Tiling
import IoEdgeHub.W25qxx

/-!
The erase commands that the driver of the external flash sends (`w25_erase` in
`storage/w25qxx.c`), down to the bytes of each exchange on the bus. Any call of the
hardware layer may report an error, after any number of its bytes has gone out.
-/
namespace IoEdgeHub.EraseTiling
open IoEdgeHub.Nor IoEdgeHub.Tiling
open IoEdgeHub.W25qxx (W25Q_CHIP_SIZE W25Q_SECTOR_SIZE erase_chunk erase_chunk_le)

def W25Q_CMD_WRITE_EN : UInt8 := 0x06
def W25Q_CMD_READ_SR1 : UInt8 := 0x05
def W25Q_CMD_SECTOR_ER : UInt8 := 0x20
def W25Q_CMD_BLOCK_ER32 : UInt8 := 0x52
def W25Q_CMD_BLOCK_ER64 : UInt8 := 0xD8
def W25Q_SR1_BUSY : UInt8 := 0x01

def W25Q_TMO_4K : Nat := 2000
def W25Q_TMO_32K : Nat := 8000
def W25Q_TMO_64K : Nat := 16000

/-- What becomes of the calls of the hardware layer, by number: a transmission succeeds or
    fails after so many bytes; a reception yields a byte or fails. -/
structure Hal where
  transmit : Nat → Option Nat
  receive : Nat → Option UInt8

/-- The calls so far, the bytes sent since the chip was selected, and the exchanges before. -/
structure Bus where
  calls : Nat := 0
  selected : List UInt8 := []
  exchanges : List (List UInt8) := []

def cs_low (b : Bus) : Bus := { b with selected := [] }

def cs_high (b : Bus) : Bus := { b with exchanges := b.exchanges ++ [b.selected], selected := [] }

section
variable (hal : Hal)

def spi_tx (d : List UInt8) (b : Bus) : Bool × Bus :=
  match hal.transmit b.calls with
  | none => (true, { b with calls := b.calls + 1, selected := b.selected ++ d })
  | some sent => (false, { b with calls := b.calls + 1, selected := b.selected ++ d.take sent })

def spi_rx (b : Bus) : Option UInt8 × Bus := (hal.receive b.calls, { b with calls := b.calls + 1 })

def spi_cmd_addr (cmd : UInt8) (addr : UInt32) (b : Bus) : Bool × Bus :=
  spi_tx hal [cmd, (addr >>> 16).toUInt8, (addr >>> 8).toUInt8, addr.toUInt8] b

def wren (b : Bus) : Bool × Bus :=
  let r := spi_tx hal [W25Q_CMD_WRITE_EN] (cs_low b)
  (r.1, cs_high r.2)

/-- At most so many polls of the status register. -/
def wait_not_busy : Nat → Bus → Bool × Bus
  | 0, b => (false, b)
  | polls + 1, b =>
    let r := spi_tx hal [W25Q_CMD_READ_SR1] (cs_low b)
    if r.1 then
      match (spi_rx hal r.2).1 with
      | none => (false, cs_high (spi_rx hal r.2).2)
      | some sr =>
        if sr &&& W25Q_SR1_BUSY = 0 then (true, cs_high (spi_rx hal r.2).2)
        else wait_not_busy polls (cs_high (spi_rx hal r.2).2)
    else (false, cs_high r.2)

def erase_one (addr : UInt32) (cmd : UInt8) (timeout_ms : Nat) (b : Bus) : Bool × Bus :=
  let r := wren hal b
  if r.1 then
    let r := spi_cmd_addr hal cmd addr (cs_low r.2)
    -- one poll a millisecond, the first of them at once
    if r.1 then wait_not_busy hal (timeout_ms + 1) (cs_high r.2) else (false, cs_high r.2)
  else (false, r.2)

/-- The block that is erased next, the command for it and the time it may take. -/
structure Choice where
  chunk : UInt32
  cmd : UInt8
  tmo : Nat

def choose (addr len : UInt32) : Choice :=
  if addr % 0x10000 = 0 ∧ len ≥ 0x10000 then ⟨0x10000, W25Q_CMD_BLOCK_ER64, W25Q_TMO_64K⟩
  else if addr % 0x8000 = 0 ∧ len ≥ 0x8000 then ⟨0x8000, W25Q_CMD_BLOCK_ER32, W25Q_TMO_32K⟩
  else ⟨0x1000, W25Q_CMD_SECTOR_ER, W25Q_TMO_4K⟩

/-- The loop, `none` when the fuel runs out. -/
def erase_from : Nat → UInt32 → UInt32 → Bus → Option (Bool × Bus)
  | 0, _, _, _ => none
  | fuel + 1, addr, len, b =>
    if len = 0 then some (true, b)
    else
      let c := choose addr len
      let r := erase_one hal addr c.cmd c.tmo b
      if r.1 then erase_from fuel (addr + c.chunk) (len - c.chunk) r.2 else some (false, r.2)

def w25_erase (fuel : Nat) (addr len : UInt32) (b : Bus) : Option (Bool × Bus) :=
  if len = 0 ∨ addr.toNat % W25Q_SECTOR_SIZE ≠ 0 ∨ len.toNat % W25Q_SECTOR_SIZE ≠ 0 then some (false, b)
  else if addr.toNat ≥ W25Q_CHIP_SIZE ∨ W25Q_CHIP_SIZE - addr.toNat < len.toNat then some (false, b)
  else erase_from hal fuel addr len b

/-- What the checks let through. -/
structure Accepted (addr len : UInt32) : Prop where
  some_ : len ≠ 0
  start : addr.toNat % W25Q_SECTOR_SIZE = 0
  whole : len.toNat % W25Q_SECTOR_SIZE = 0
  inside : addr.toNat < W25Q_CHIP_SIZE
  fits : len.toNat ≤ W25Q_CHIP_SIZE - addr.toNat

end

/-- How much an erase command erases. -/
def erase_size (cmd : UInt8) : Option Nat :=
  if cmd = W25Q_CMD_BLOCK_ER64 then some 0x10000
  else if cmd = W25Q_CMD_BLOCK_ER32 then some 0x8000
  else if cmd = W25Q_CMD_SECTOR_ER then some 0x1000
  else none

/-- The block that an exchange commands to erase: a command and three bytes of address. -/
def erase_block (exchange : List UInt8) : Option Block :=
  if exchange.length = 4 then
    (erase_size (exchange.getD 0 0)).map fun size =>
      ⟨(exchange.getD 1 0).toNat * 2^16 + (exchange.getD 2 0).toNat * 2^8 + (exchange.getD 3 0).toNat, size⟩
  else none

/-- The memory and the latch that allows one write. -/
structure Chip where
  wel : Bool := false
  mem : Mem

/-- The chip erases the whole block that the address lies in, wherever in it the address is. -/
def Chip.receive (c : Chip) (exchange : List UInt8) : Chip :=
  if exchange = [W25Q_CMD_WRITE_EN] then { c with wel := true }
  else
    match erase_block exchange with
    | some b => if c.wel then ⟨false, erased (b.start / b.size * b.size) b.size c.mem⟩ else c
    | none => c

/-! ### One exchange, and one erase -/

/-- The exchange that commands to erase a block. -/
def command (cmd : UInt8) (addr : UInt32) : List UInt8 := [cmd, (addr >>> 16).toUInt8, (addr >>> 8).toUInt8, addr.toUInt8]

/-- An exchange that neither allows a write nor erases. -/
def Quiet (exchange : List UInt8) : Prop := exchange ≠ [W25Q_CMD_WRITE_EN] ∧ erase_block exchange = none

/-- The exchanges of `erase_one`: it gives up at the write enable, in the command, or later. -/
inductive Sends (cmd : List UInt8) : Bool → List (List UInt8) → Prop
  | unready (sent : Nat) : Sends cmd false [[W25Q_CMD_WRITE_EN].take sent]
  | unsent (sent : Nat) : Sends cmd false [[W25Q_CMD_WRITE_EN], cmd.take sent]
  | polled (done : Bool) (polls : List (List UInt8)) (quiet : ∀ x ∈ polls, Quiet x) :
    Sends cmd done ([W25Q_CMD_WRITE_EN] :: cmd :: polls)

section
variable {hal : Hal}

theorem spi_tx_selected (hal : Hal) (d : List UInt8) (b : Bus) :
    (spi_tx hal d b).2.exchanges = b.exchanges ∧
      ((spi_tx hal d b).1 = true ∧ (spi_tx hal d b).2.selected = b.selected ++ d ∨
        (spi_tx hal d b).1 = false ∧ ∃ sent, (spi_tx hal d b).2.selected = b.selected ++ d.take sent) := by
  unfold spi_tx
  cases hal.transmit b.calls with
  | none => exact ⟨rfl, .inl ⟨rfl, rfl⟩⟩
  | some sent => exact ⟨rfl, .inr ⟨rfl, sent, rfl⟩⟩

/-- A poll is quiet, also when it is cut short. -/
theorem poll_quiet (sent : Nat) : Quiet ([W25Q_CMD_READ_SR1].take sent) := by
  cases sent with
  | zero => exact ⟨by decide, rfl⟩
  | succ n =>
    rw [List.take_of_length_le (Nat.le_add_left 1 n)]
    exact ⟨by decide, rfl⟩

theorem wait_not_busy_quiet (polls : Nat) (b : Bus) :
    ∃ sent, (wait_not_busy hal polls b).2.exchanges = b.exchanges ++ sent ∧ ∀ x ∈ sent, Quiet x := by
  induction polls generalizing b with
  | zero => exact ⟨[], (List.append_nil _).symm, by rintro _ ⟨⟩⟩
  | succ polls ih =>
    have whole : Quiet [W25Q_CMD_READ_SR1] := poll_quiet 1
    obtain ⟨before, ⟨went, selected⟩ | ⟨failed, sent, selected⟩⟩ := spi_tx_selected hal [W25Q_CMD_READ_SR1] (cs_low b)
    · -- the poll went out, and the answer decides
      have exchanged : (cs_high (spi_rx hal (spi_tx hal [W25Q_CMD_READ_SR1] (cs_low b)).2).2).exchanges =
          b.exchanges ++ [[W25Q_CMD_READ_SR1]] := congrArg₂ (fun xs x => xs ++ [x]) before selected
      unfold wait_not_busy
      simp only [went, if_true]
      split
      · exact ⟨_, exchanged, fun x member => List.mem_singleton.mp member ▸ whole⟩
      · split_ifs
        · exact ⟨_, exchanged, fun x member => List.mem_singleton.mp member ▸ whole⟩
        · obtain ⟨later, after, quiet⟩ := ih (cs_high (spi_rx hal (spi_tx hal [W25Q_CMD_READ_SR1] (cs_low b)).2).2)
          refine ⟨[W25Q_CMD_READ_SR1] :: later, ?_, ?_⟩
          · rw [after, exchanged, List.append_assoc, List.singleton_append]
          · intro x member
            rcases List.mem_cons.mp member with rfl | member
            · exact whole
            · exact quiet x member
    · have exchanged : (cs_high (spi_tx hal [W25Q_CMD_READ_SR1] (cs_low b)).2).exchanges =
          b.exchanges ++ [[W25Q_CMD_READ_SR1].take sent] := congrArg₂ (fun xs x => xs ++ [x]) before selected
      unfold wait_not_busy
      simp only [failed, Bool.false_eq_true, if_false]
      exact ⟨_, exchanged, fun x member => List.mem_singleton.mp member ▸ poll_quiet sent⟩

theorem erase_one_sends (addr : UInt32) (cmd : UInt8) (tmo : Nat) (b : Bus) :
    ∃ sent, (erase_one hal addr cmd tmo b).2.exchanges = b.exchanges ++ sent ∧
      Sends (command cmd addr) (erase_one hal addr cmd tmo b).1 sent := by
  obtain ⟨before, ⟨ready, selected⟩ | ⟨failed, sent, selected⟩⟩ := spi_tx_selected hal [W25Q_CMD_WRITE_EN] (cs_low b)
  · have enabled : (wren hal b).2.exchanges = b.exchanges ++ [[W25Q_CMD_WRITE_EN]] :=
      congrArg₂ (fun xs x => xs ++ [x]) before selected
    have done : (wren hal b).1 = true := ready
    obtain ⟨before, ⟨went, selected⟩ | ⟨failed, sent, selected⟩⟩ :=
      spi_tx_selected hal (command cmd addr) (cs_low (wren hal b).2)
    · have commanded : (cs_high (spi_cmd_addr hal cmd addr (cs_low (wren hal b).2)).2).exchanges =
          b.exchanges ++ [[W25Q_CMD_WRITE_EN], command cmd addr] := by
        refine (congrArg₂ (fun xs x => xs ++ [x]) (before.trans enabled) selected).trans ?_
        exact List.append_assoc _ _ _
      have went : (spi_cmd_addr hal cmd addr (cs_low (wren hal b).2)).1 = true := went
      obtain ⟨polls, after, quiet⟩ := @wait_not_busy_quiet hal (tmo + 1)
        (cs_high (spi_cmd_addr hal cmd addr (cs_low (wren hal b).2)).2)
      unfold erase_one
      simp only [done, went, if_true]
      refine ⟨_, ?_, .polled _ polls quiet⟩
      rw [after, commanded, List.append_assoc]
      rfl
    · have commanded : (cs_high (spi_cmd_addr hal cmd addr (cs_low (wren hal b).2)).2).exchanges =
          b.exchanges ++ [[W25Q_CMD_WRITE_EN], (command cmd addr).take sent] := by
        refine (congrArg₂ (fun xs x => xs ++ [x]) (before.trans enabled) selected).trans ?_
        exact List.append_assoc _ _ _
      have failed : (spi_cmd_addr hal cmd addr (cs_low (wren hal b).2)).1 = false := failed
      unfold erase_one
      simp only [done, failed, if_true, Bool.false_eq_true, if_false]
      exact ⟨_, commanded, .unsent sent⟩
  · have enabled : (wren hal b).2.exchanges = b.exchanges ++ [[W25Q_CMD_WRITE_EN].take sent] :=
      congrArg₂ (fun xs x => xs ++ [x]) before selected
    have failed : (wren hal b).1 = false := failed
    unfold erase_one
    simp only [failed, Bool.false_eq_true, if_false]
    exact ⟨_, enabled, .unready sent⟩

/-- Nothing fails on the bus, and the chip is ready again within two thousand polls. -/
structure Works (hal : Hal) : Prop where
  transmits : ∀ n, hal.transmit n = none
  receives : ∀ n, ∃ sr, hal.receive n = some sr
  idle : ∀ n, ∃ k ≤ W25Q_TMO_4K, ∀ sr ∈ hal.receive (n + 2 * k), sr &&& W25Q_SR1_BUSY = 0

theorem spi_tx_works (works : Works hal) (d : List UInt8) (b : Bus) :
    spi_tx hal d b = (true, { b with calls := b.calls + 1, selected := b.selected ++ d }) := by
  unfold spi_tx
  rw [works.transmits]

theorem wait_not_busy_done (works : Works hal) {k : Nat} :
    ∀ {polls : Nat} {b : Bus}, k < polls → (∀ sr ∈ hal.receive (b.calls + 1 + 2 * k), sr &&& W25Q_SR1_BUSY = 0) →
      (wait_not_busy hal polls b).1 = true := by
  induction k with
  | zero =>
    intro polls b below idle
    obtain ⟨polls, rfl⟩ := Nat.exists_eq_succ_of_ne_zero (Nat.ne_of_gt below)
    obtain ⟨sr, answer⟩ := works.receives (b.calls + 1)
    unfold wait_not_busy spi_rx
    simp only [spi_tx_works works, cs_low, if_true, answer, idle sr answer]
  | succ k ih =>
    intro polls b below idle
    obtain ⟨polls, rfl⟩ := Nat.exists_eq_succ_of_ne_zero (Nat.ne_of_gt (Nat.zero_lt_of_lt below))
    obtain ⟨sr, answer⟩ := works.receives (b.calls + 1)
    unfold wait_not_busy spi_rx
    simp only [spi_tx_works works, cs_low, if_true, answer]
    split_ifs
    · rfl
    · refine ih (Nat.lt_of_succ_lt_succ below) ?_
      have next : b.calls + 1 + 1 + 1 + 2 * k = b.calls + 1 + 2 * (k + 1) := by omega
      simp only [cs_high, next]
      exact idle

theorem choose_tmo (addr len : UInt32) : W25Q_TMO_4K ≤ (choose addr len).tmo := by
  unfold choose
  split_ifs <;> decide

theorem erase_one_done (works : Works hal) (addr : UInt32) (cmd : UInt8) {tmo : Nat} (long : W25Q_TMO_4K ≤ tmo) (b : Bus) :
    (erase_one hal addr cmd tmo b).1 = true := by
  have ready : (wren hal b).1 = true := congrArg Prod.fst (spi_tx_works works _ _)
  have went : (spi_cmd_addr hal cmd addr (cs_low (wren hal b).2)).1 = true := congrArg Prod.fst (spi_tx_works works _ _)
  unfold erase_one
  simp only [ready, went, if_true]
  obtain ⟨k, soon, idle⟩ :=
    works.idle ((cs_high (spi_cmd_addr hal cmd addr (cs_low (wren hal b).2)).2).calls + 1)
  exact wait_not_busy_done works (by omega) idle

end

/-- The erase commands among the exchanges. -/
def commanded (sent : List (List UInt8)) : List Block := sent.filterMap erase_block

/-- A block of one of the three sizes, at a multiple of its size. -/
def Natural (b : Block) : Prop := (b.size = 0x1000 ∨ b.size = 0x8000 ∨ b.size = 0x10000) ∧ b.size ∣ b.start

theorem receive_quiet {x : List UInt8} (quiet : Quiet x) (c : Chip) : c.receive x = c := by
  unfold Chip.receive
  rw [if_neg quiet.1, quiet.2]

theorem polls_nothing {polls : List (List UInt8)} (quiet : ∀ x ∈ polls, Quiet x) :
    commanded polls = [] ∧ ∀ c : Chip, polls.foldl Chip.receive c = c := by
  induction polls with
  | nil => exact ⟨rfl, fun c => rfl⟩
  | cons x rest ih =>
    obtain ⟨first, later⟩ := List.forall_mem_cons.mp quiet
    obtain ⟨none_, same⟩ := ih later
    refine ⟨?_, fun c => ?_⟩
    · exact (List.filterMap_cons_none first.2).trans none_
    · rw [List.foldl_cons, receive_quiet first, same]

/-- An exchange that is cut short is no command. -/
theorem cut_short {x : List UInt8} (short : x.length < 4) : erase_block x = none := if_neg (Nat.ne_of_lt short)

section
variable {cmd : List UInt8} {block : Block} {done : Bool} {sent : List (List UInt8)}

/-- One call of `erase_one` commands its block at most once, and erases nothing else. -/
theorem sends_block (orders : erase_block cmd = some block) (natural : Natural block) (sends : Sends cmd done sent) :
    (commanded sent = [] ∨ commanded sent = [block]) ∧ (done = true → commanded sent = [block]) ∧
      ∀ c : Chip, ((sent.foldl Chip.receive c).mem = c.mem ∨
          (sent.foldl Chip.receive c).mem = erased block.start block.size c.mem) ∧
        (done = true → (sent.foldl Chip.receive c).mem = erased block.start block.size c.mem) := by
  have size : cmd.length = 4 := by
    by_contra short
    rw [erase_block, if_neg short] at orders
    cases orders
  have other : cmd ≠ [W25Q_CMD_WRITE_EN] := by
    rintro rfl
    cases size
  have own : block.start / block.size * block.size = block.start := Nat.div_mul_cancel natural.2
  -- the command after the write enable erases the block
  have erases (c : Chip) : ([[W25Q_CMD_WRITE_EN], cmd].foldl Chip.receive c) = ⟨false, erased block.start block.size c.mem⟩ := by
    simp only [List.foldl_cons, List.foldl_nil, Chip.receive, if_true, if_neg other, orders, own]
  have enable : erase_block [W25Q_CMD_WRITE_EN] = none := rfl
  cases sends with
  | unready n =>
    have nothing : erase_block ([W25Q_CMD_WRITE_EN].take n) = none :=
      cut_short (Nat.lt_of_le_of_lt (List.length_take_le' _ _) (by decide))
    refine ⟨.inl (List.filterMap_cons_none nothing), by rintro ⟨⟩, fun c => ⟨.inl ?_, by rintro ⟨⟩⟩⟩
    rw [List.foldl_cons, List.foldl_nil, Chip.receive, nothing]
    split_ifs <;> rfl
  | unsent n =>
    by_cases whole : 4 ≤ n
    · rw [List.take_of_length_le (size ▸ whole)]
      refine ⟨.inr ?_, by rintro ⟨⟩, fun c => ⟨.inr ?_, by rintro ⟨⟩⟩⟩
      · simp only [commanded, List.filterMap_cons_none enable, List.filterMap_cons_some orders, List.filterMap_nil]
      · rw [erases]
    · have nothing : erase_block (cmd.take n) = none := by
        refine cut_short ?_
        rw [List.length_take]
        omega
      refine ⟨.inl ?_, by rintro ⟨⟩, fun c => ⟨.inl ?_, by rintro ⟨⟩⟩⟩
      · simp only [commanded, List.filterMap_cons_none enable, List.filterMap_cons_none nothing, List.filterMap_nil]
      · simp only [List.foldl_cons, List.foldl_nil, Chip.receive, if_true, nothing]
        split_ifs <;> rfl
  | polled done polls quiet =>
    obtain ⟨none_, same⟩ := polls_nothing quiet
    have orders_one : commanded ([W25Q_CMD_WRITE_EN] :: cmd :: polls) = [block] := by
      simp only [commanded, List.filterMap_cons_none enable, List.filterMap_cons_some orders]
      exact congrArg (block :: ·) none_
    have wipes (c : Chip) : (([W25Q_CMD_WRITE_EN] :: cmd :: polls).foldl Chip.receive c).mem =
        erased block.start block.size c.mem := by
      have whole := erases c
      rw [List.foldl_cons, List.foldl_cons, List.foldl_nil] at whole
      rw [List.foldl_cons, List.foldl_cons, whole, same]
    exact ⟨.inr orders_one, fun _ => orders_one, fun c => ⟨.inr (wipes c), fun _ => wipes c⟩⟩

end

theorem choose_chunk (addr len : UInt32) : (choose addr len).chunk.toNat = erase_chunk addr.toNat len.toNat := by
  have zero_iff (m : UInt32) : addr % m = 0 ↔ addr.toNat % m.toNat = 0 := by
    rw [← UInt32.toNat_inj, UInt32.toNat_mod]
    rfl
  have large : (addr % 0x10000 = 0 ∧ len ≥ 0x10000) ↔ (addr.toNat % 0x10000 = 0 ∧ len.toNat ≥ 0x10000) :=
    and_congr (zero_iff 0x10000) UInt32.le_iff_toNat_le
  have middle : (addr % 0x8000 = 0 ∧ len ≥ 0x8000) ↔ (addr.toNat % 0x8000 = 0 ∧ len.toNat ≥ 0x8000) :=
    and_congr (zero_iff 0x8000) UInt32.le_iff_toNat_le
  unfold choose erase_chunk
  simp only [large, middle]
  split_ifs <;> rfl

theorem choose_size (addr len : UInt32) : erase_size (choose addr len).cmd = some (choose addr len).chunk.toNat := by
  unfold choose
  split_ifs <;> rfl

theorem command_block {cmd : UInt8} {addr : UInt32} {size : Nat} (inside : addr.toNat < W25Q_CHIP_SIZE)
    (orders : erase_size cmd = some size) : erase_block (command cmd addr) = some ⟨addr.toNat, size⟩ := by
  have inside : addr.toNat < 2^24 := inside
  have high : ((addr >>> 16).toUInt8).toNat = addr.toNat / 2^16 := by
    have byte : addr.toNat / 2^16 < 2^8 := by omega
    rw [UInt32.toNat_toUInt8, UInt32.toNat_shiftRight, Nat.shiftRight_eq_div_pow]
    exact Nat.mod_eq_of_lt byte
  have middle : ((addr >>> 8).toUInt8).toNat = addr.toNat / 2^8 % 2^8 := by
    rw [UInt32.toNat_toUInt8, UInt32.toNat_shiftRight, Nat.shiftRight_eq_div_pow]
    rfl
  have low : (addr.toUInt8).toNat = addr.toNat % 2^8 := UInt32.toNat_toUInt8 addr
  have whole : addr.toNat / 2^16 * 2^16 + addr.toNat / 2^8 % 2^8 * 2^8 + addr.toNat % 2^8 = addr.toNat := by omega
  have block : erase_block (command cmd addr) = (erase_size cmd).map fun size =>
      ⟨((addr >>> 16).toUInt8).toNat * 2^16 + ((addr >>> 8).toUInt8).toNat * 2^8 + (addr.toUInt8).toNat, size⟩ := rfl
  rw [block, orders, high, middle, low, whole]
  rfl

/-- The block that is chosen starts at a multiple of its size. -/
theorem choose_natural {addr len : UInt32} (start : addr.toNat % W25Q_SECTOR_SIZE = 0) :
    Natural ⟨addr.toNat, (choose addr len).chunk.toNat⟩ := by
  have start : 0x1000 ∣ addr.toNat := Nat.dvd_of_mod_eq_zero start
  rw [choose_chunk]
  unfold erase_chunk
  split_ifs with big middle
  · exact ⟨.inr (.inr rfl), Nat.dvd_of_mod_eq_zero big.1⟩
  · exact ⟨.inr (.inl rfl), Nat.dvd_of_mod_eq_zero middle.1⟩
  · exact ⟨.inl rfl, start⟩

/-! ### The loop -/

/-- What a part of the loop sends for the range of `len` bytes at `addr`: blocks that lie end to
    end, all of the range if it succeeds. -/
structure Covers (addr len : Nat) (done : Bool) (sent : List (List UInt8)) : Prop where
  tiles : ∃ stop, Tiles addr (commanded sent) stop ∧ stop ≤ addr + len ∧ (done = true → stop = addr + len)
  natural : ∀ b ∈ commanded sent, Natural b
  outside : ∀ (c : Chip) (a : Nat), a < addr ∨ addr + len ≤ a → (sent.foldl Chip.receive c).mem a = c.mem a
  wiped : done = true → ∀ c : Chip, (sent.foldl Chip.receive c).mem = erased addr len c.mem

section
variable {addr chunk len : Nat} {done : Bool} {first later : List (List UInt8)}

theorem covers_nothing (addr : Nat) : Covers addr 0 true [] where
  tiles := ⟨addr, rfl, Nat.le_refl _, fun _ => rfl⟩
  natural := by rintro _ ⟨⟩
  outside := fun c a _ => rfl
  wiped := fun _ c => funext fun a => (erased_outside c.mem (by omega)).symm

theorem covers_one {cmd : List UInt8} (orders : erase_block cmd = some ⟨addr, chunk⟩) (natural : Natural ⟨addr, chunk⟩)
    (sends : Sends cmd done first) : Covers addr chunk done first := by
  obtain ⟨among, all, effect⟩ := sends_block orders natural sends
  constructor
  · cases done with
    | true => exact ⟨addr + chunk, by rw [all rfl]; exact ⟨rfl, rfl⟩, Nat.le_refl _, fun _ => rfl⟩
    | false =>
      rcases among with none_ | one
      · exact ⟨addr, by rw [none_]; rfl, Nat.le_add_right _ _, by rintro ⟨⟩⟩
      · exact ⟨addr + chunk, by rw [one]; exact ⟨rfl, rfl⟩, Nat.le_refl _, by rintro ⟨⟩⟩
  · intro b member
    rcases among with none_ | one
    · rw [none_] at member
      cases member
    · rw [one] at member
      exact List.mem_singleton.mp member ▸ natural
  · intro c a outside
    rcases (effect c).1 with same | wiped
    · rw [same]
    · rw [wiped]
      exact erased_outside c.mem outside
  · exact fun success c => (effect c).2 success

/-- A part that fails covers part of the longer range. -/
theorem covers_stop (fits : chunk ≤ len) (failed : Covers addr chunk false first) : Covers addr len false first := by
  obtain ⟨stop, tiles, high, _⟩ := failed.tiles
  constructor
  · exact ⟨stop, tiles, by omega, by rintro ⟨⟩⟩
  · exact failed.natural
  · exact fun c a outside => failed.outside c a (by omega)
  · rintro ⟨⟩

theorem covers_append (fits : chunk ≤ len) (one : Covers addr chunk true first)
    (rest : Covers (addr + chunk) (len - chunk) done later) : Covers addr len done (first ++ later) := by
  have end_ : addr + chunk + (len - chunk) = addr + len := by omega
  have both : commanded (first ++ later) = commanded first ++ commanded later := List.filterMap_append
  obtain ⟨_, front, _, reached⟩ := one.tiles
  obtain rfl := reached rfl
  obtain ⟨stop, back, high, whole⟩ := rest.tiles
  constructor
  · rw [both]
    exact ⟨stop, tiles_append.mpr ⟨_, front, back⟩, end_ ▸ high, fun success => end_ ▸ whole success⟩
  · rw [both]
    intro b member
    rcases List.mem_append.mp member with member | member
    · exact one.natural b member
    · exact rest.natural b member
  · intro c a outside
    rw [List.foldl_append, rest.outside _ a (by omega), one.outside c a (by omega)]
  · intro success c
    rw [List.foldl_append, rest.wiped success, one.wiped rfl]
    exact W25qxx.erased_split addr chunk len fits c.mem

end

section
variable {hal : Hal} {addr len : UInt32}

/-- Fuel for every sector of the range is enough. -/
theorem erase_from_covers {fuel : Nat} (start : addr.toNat % W25Q_SECTOR_SIZE = 0) (whole : len.toNat % W25Q_SECTOR_SIZE = 0)
    (inside : addr.toNat + len.toNat ≤ W25Q_CHIP_SIZE) (enough : len.toNat / W25Q_SECTOR_SIZE < fuel) (b : Bus) :
    ∃ done after sent, erase_from hal fuel addr len b = some (done, after) ∧ after.exchanges = b.exchanges ++ sent ∧
      Covers addr.toNat len.toNat done sent ∧ (Works hal → done = true) := by
  induction fuel generalizing addr len b with
  | zero => cases enough
  | succ fuel ih =>
    unfold erase_from
    by_cases end_ : len = 0
    · subst end_
      exact ⟨true, b, [], if_pos rfl, (List.append_nil _).symm, covers_nothing _, fun _ => rfl⟩
    rw [if_neg end_]
    have some_ : 0 < len.toNat := Nat.pos_of_ne_zero fun zero => end_ (UInt32.toNat_inj.mp zero)
    have chunk := choose_chunk addr len
    obtain ⟨fits, rest⟩ := @erase_chunk_le addr.toNat len.toNat some_ whole
    rw [← chunk] at fits rest
    have natural := @choose_natural addr len start
    have sector : W25Q_SECTOR_SIZE ∣ (choose addr len).chunk.toNat := by
      rcases natural.1 with size | size | size
      · exact ⟨1, size⟩
      · exact ⟨8, size⟩
      · exact ⟨16, size⟩
    have orders := command_block (show addr.toNat < W25Q_CHIP_SIZE by omega) (choose_size addr len)
    obtain ⟨first, after, sends⟩ := @erase_one_sends hal addr (choose addr len).cmd (choose addr len).tmo b
    have succeeds : Works hal → (erase_one hal addr (choose addr len).cmd (choose addr len).tmo b).1 = true :=
      fun works => erase_one_done works addr _ (choose_tmo addr len) b
    have one := covers_one orders natural sends
    cases result : (erase_one hal addr (choose addr len).cmd (choose addr len).tmo b).1 with
    | false =>
      rw [result] at one
      refine ⟨false, _, first, if_neg (by rw [result]; exact Bool.false_ne_true), after, covers_stop fits one, ?_⟩
      exact fun works => (result.symm.trans (succeeds works))
    | true =>
      rw [result] at one
      simp only [result, if_true]
      -- no wrap: the block lies inside the chip
      have next : (addr + (choose addr len).chunk).toNat = addr.toNat + (choose addr len).chunk.toNat := by
        rw [UInt32.toNat_add]
        unfold W25Q_CHIP_SIZE at inside
        exact Nat.mod_eq_of_lt (by omega)
      have left : (len - (choose addr len).chunk).toNat = len.toNat - (choose addr len).chunk.toNat :=
        UInt32.toNat_sub_of_le _ _ (UInt32.le_iff_toNat_le.mpr fits)
      have aligned : (addr + (choose addr len).chunk).toNat % W25Q_SECTOR_SIZE = 0 := by
        rw [next]
        exact Nat.mod_eq_zero_of_dvd (Nat.dvd_add (Nat.dvd_of_mod_eq_zero start) sector)
      have less : (len.toNat - (choose addr len).chunk.toNat) / W25Q_SECTOR_SIZE < fuel := by
        obtain ⟨n, size⟩ := sector
        have positive : 0 < (choose addr len).chunk.toNat := chunk ▸ W25qxx.erase_chunk_pos _ _
        unfold W25Q_SECTOR_SIZE at *
        omega
      obtain ⟨done, final, later, run, sent, covers, works⟩ := ih aligned (left ▸ rest) (by rw [next, left]; omega)
        (left ▸ less) (erase_one hal addr (choose addr len).cmd (choose addr len).tmo b).2
      refine ⟨done, final, first ++ later, run, ?_, ?_, works⟩
      · rw [sent, after, List.append_assoc]
      · rw [next, left] at covers
        exact covers_append fits one covers

/-- More fuel does not change what the loop does. -/
theorem erase_from_more {fuel : Nat} {b : Bus} {r : Bool × Bus} (ran : erase_from hal fuel addr len b = some r) :
    erase_from hal (fuel + 1) addr len b = some r := by
  induction fuel generalizing addr len b with
  | zero => cases ran
  | succ fuel ih =>
    unfold erase_from at ran ⊢
    by_cases end_ : len = 0
    · rw [if_pos end_] at ran ⊢
      exact ran
    rw [if_neg end_] at ran ⊢
    cases result : (erase_one hal addr (choose addr len).cmd (choose addr len).tmo b).1 with
    | false =>
      simp only [result, Bool.false_eq_true, if_false] at ran ⊢
      exact ran
    | true =>
      simp only [result, if_true] at ran ⊢
      exact ih ran

/-- What is refused sends nothing. -/
theorem w25_erase_refused (refused : ¬ Accepted addr len) (fuel : Nat) (b : Bus) :
    w25_erase hal fuel addr len b = some (false, b) := by
  unfold w25_erase
  split_ifs with checks range
  · rfl
  · rfl
  · refine absurd ?_ refused
    constructor
    · exact fun zero => checks (.inl zero)
    · exact not_not.mp fun start => checks (.inr (.inl start))
    · exact not_not.mp fun whole => checks (.inr (.inr whole))
    · exact Nat.not_le.mp fun outside => range (.inl outside)
    · exact Nat.not_lt.mp fun long => range (.inr long)

theorem w25_erase_accepted (accepted : Accepted addr len) (fuel : Nat) (b : Bus) :
    w25_erase hal fuel addr len b = erase_from hal fuel addr len b := by
  have checks : ¬ (len = 0 ∨ addr.toNat % W25Q_SECTOR_SIZE ≠ 0 ∨ len.toNat % W25Q_SECTOR_SIZE ≠ 0) := by
    rintro (zero | start | whole)
    · exact accepted.some_ zero
    · exact start accepted.start
    · exact whole accepted.whole
  have range : ¬ (addr.toNat ≥ W25Q_CHIP_SIZE ∨ W25Q_CHIP_SIZE - addr.toNat < len.toNat) := by
    rintro (outside | long)
    · exact Nat.not_le.mpr accepted.inside outside
    · exact Nat.not_lt.mpr accepted.fits long
  rw [w25_erase, if_neg checks, if_neg range]

/-- A run of `w25_erase`, whatever the bus does: the loop ends in one way for all the fuel that is enough. -/
theorem w25_erase_covers (accepted : Accepted addr len) (b : Bus) :
    ∃ done after sent, (∀ fuel > len.toNat / W25Q_SECTOR_SIZE, w25_erase hal fuel addr len b = some (done, after)) ∧
      after.exchanges = b.exchanges ++ sent ∧ Covers addr.toNat len.toNat done sent ∧ (Works hal → done = true) := by
  have inside : addr.toNat + len.toNat ≤ W25Q_CHIP_SIZE := by
    have below := accepted.inside
    have fits := accepted.fits
    omega
  obtain ⟨done, after, sent, run, exchanged, covers, works⟩ :=
    @erase_from_covers hal addr len _ accepted.start accepted.whole inside (Nat.lt_succ_self _) b
  refine ⟨done, after, sent, ?_, exchanged, covers, works⟩
  intro fuel enough
  rw [w25_erase_accepted accepted]
  induction fuel, enough using Nat.le_induction with
  | base => exact run
  | succ fuel _ ih => exact erase_from_more ih

/-- The erase commands for a range that is accepted lie at multiples of their sizes, one after
    the other and inside the range; if none fails they cover it. The chip keeps every byte
    outside the range, and the loop ends. -/
theorem w25_erase_tiles (hal : Hal) (b : Bus) (accepted : Accepted addr len) :
    ∃ done after sent, (∀ fuel > len.toNat / W25Q_SECTOR_SIZE, w25_erase hal fuel addr len b = some (done, after)) ∧
      after.exchanges = b.exchanges ++ sent ∧
      (∀ block ∈ commanded sent, Natural block ∧ block.places ⊆ Set.Ico addr.toNat (addr.toNat + len.toNat)) ∧
      (commanded sent).Pairwise (fun first second => Before first second ∧ first.places ∩ second.places = ∅) ∧
      (done = true → ⋃ block ∈ commanded sent, block.places = Set.Ico addr.toNat (addr.toNat + len.toNat)) ∧
      (∀ (c : Chip) (a : Nat), a ∉ Set.Ico addr.toNat (addr.toNat + len.toNat) →
        (sent.foldl Chip.receive c).mem a = c.mem a) ∧
      (done = true → ∀ c : Chip, (sent.foldl Chip.receive c).mem = erased addr.toNat len.toNat c.mem) ∧
      (Works hal → done = true) := by
  obtain ⟨done, after, sent, run, exchanged, covers, works⟩ := @w25_erase_covers hal addr len accepted b
  obtain ⟨stop, tiles, high, reached⟩ := covers.tiles
  refine ⟨done, after, sent, run, exchanged, ?_, ?_, ?_, ?_, covers.wiped, works⟩
  · intro block member
    obtain ⟨low, below⟩ := tiles_inside tiles block member
    exact ⟨covers.natural block member, Set.Ico_subset_Ico low (below.trans high)⟩
  · exact (tiles_ordered tiles).imp fun before => ⟨before, before_disjoint before⟩
  · intro success
    obtain rfl := reached success
    exact tiles_cover tiles
  · intro c a outside
    refine covers.outside c a ?_
    rw [Set.mem_Ico, not_and_or] at outside
    omega

/-- A bus on which nothing fails, with a chip that is never busy. -/
def idle_bus : Hal := ⟨fun _ => none, fun _ => some 0⟩

/-- A range for which a command of each size is sent. -/
theorem w25_erase_three_sizes :
    ∃ done after sent, (∀ fuel > 25, w25_erase idle_bus fuel 0xF000 0x19000 {} = some (done, after)) ∧
      after.exchanges = sent ∧ done = true ∧ ⋃ block ∈ commanded sent, block.places = Set.Ico 0xF000 0x28000 := by
  have accepted : Accepted 0xF000 0x19000 := ⟨by decide, by decide, by decide, by decide, by decide⟩
  have works : Works idle_bus := ⟨fun _ => rfl, fun _ => ⟨0, rfl⟩, fun _ => ⟨0, Nat.zero_le _, by rintro _ ⟨⟩; rfl⟩⟩
  obtain ⟨done, after, sent, run, exchanged, _, _, cover, _, _, succeeds⟩ := w25_erase_tiles idle_bus {} accepted
  exact ⟨done, after, sent, run, exchanged, succeeds works, cover (succeeds works)⟩

example : commanded (((w25_erase idle_bus 26 0xF000 0x19000 {}).map fun r => r.2.exchanges).getD []) =
    [⟨0xF000, 0x1000⟩, ⟨0x10000, 0x10000⟩, ⟨0x20000, 0x8000⟩] := by decide

/-- On success the chip holds what the operation of the device leaves. -/
theorem w25_erase_refines (hal : Hal) (b : Bus) (accepted : Accepted addr len) :
    ∃ done after sent, (∀ fuel > len.toNat / W25Q_SECTOR_SIZE, w25_erase hal fuel addr len b = some (done, after)) ∧
      after.exchanges = b.exchanges ++ sent ∧ (done = true → ∀ c : Chip,
        W25qxx.w25_erase addr.toNat len.toNat { mem := c.mem } = (true, { mem := (sent.foldl Chip.receive c).mem })) := by
  obtain ⟨done, after, sent, run, exchanged, covers, _⟩ := @w25_erase_covers hal addr len accepted b
  refine ⟨done, after, sent, run, exchanged, ?_⟩
  intro success c
  have below := accepted.inside
  have fits := accepted.fits
  have some_ : 0 < len.toNat := Nat.pos_of_ne_zero fun zero => accepted.some_ (UInt32.toNat_inj.mp zero)
  rw [covers.wiped success, W25qxx.w25_erase_working rfl rfl some_ accepted.start accepted.whole (by omega)]

end

end IoEdgeHub.EraseTiling
