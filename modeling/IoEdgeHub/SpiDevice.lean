import IoEdgeHub.SpiFlash

/-!
The driver of the external flash (`storage/w25qxx.c`) over the chip is the flash device that the
rest of the development builds on. Each exchange leaves the chip idle, working on the one
command that it gave, or without power, so that a call of the driver does all of its work,
something within its range, or part of its work; a chip that nobody hurries and hardware that
works give exactly the device without faults.
-/
namespace IoEdgeHub.SpiDevice
open IoEdgeHub.Nor IoEdgeHub.SpiFlash
open IoEdgeHub.W25qxx (W25Q_CHIP_SIZE W25Q_PAGE_SIZE W25Q_SECTOR_SIZE erase_chunk erase_chunk_le)
open IoEdgeHub.EraseTiling (W25Q_CMD_WRITE_EN W25Q_CMD_READ_SR1 command choose choose_chunk choose_size choose_natural
  command_block)

section
variable {w : World} {b : Bus}

/-- What can come of an operation on a range, whatever it is that gets in its way. -/
inductive Outcome (addr len : Nat) (effect : Mem → Mem) (c : Chip) : Bool → Chip → Prop
  | done {after : Chip} (was : c.power = true) (on : after.power = true) (idle : after.work = none)
      (mem : after.mem = effect c.mem) : Outcome addr len effect c true after
  | failed {after : Chip} (was : c.power = true) (on : after.power = true)
      (outside : ∀ a, a < addr ∨ addr + len ≤ a → after.rest a = c.mem a) : Outcome addr len effect c false after
  | dark {after : Chip} (off : after.power = false) (idle : after.work = none) (part : Nat → Bool)
      (mem : after.mem = blend (fun a => inRange addr len a && part a) (effect c.mem) c.mem)
      (was : c.power = false → after.mem = c.mem) : Outcome addr len effect c false after

/-- An operation that was not begun. -/
theorem outcome_nothing {addr len : Nat} {effect : Mem → Mem} {c after : Chip} (idle : after.work = none)
    (mem : after.mem = c.mem) (was : after.power = true → c.power = true) : Outcome addr len effect c false after := by
  cases on : after.power with
  | true =>
    refine .failed (was on) on fun a _ => ?_
    rw [rest_idle idle, mem]
  | false =>
    refine .dark on idle (fun _ => false) ?_ fun _ => mem
    rw [mem]
    exact funext fun a => by simp only [blend, Bool.and_false, Bool.false_eq_true, if_false]

/-- Once the chip has the command, it is a matter of waiting. -/
theorem outcome_waited {addr len : Nat} {effect : Mem → Mem} {c working after : Chip} {done : Bool}
    (frame : ∀ a, a < addr ∨ addr + len ≤ a → effect c.mem a = c.mem a) (was : c.power = true) (mem : working.mem = c.mem)
    (work : working.rest = effect c.mem) (waited : Waited working done after) : Outcome addr len effect c done after := by
  cases waited with
  | ended on idle same => exact .done was on idle (same.trans work)
  | late on rest =>
    refine .failed was on fun a outside => ?_
    rw [rest, work, frame a outside]
  | dark lost =>
    obtain ⟨off, idle, part, after_⟩ := lost
    rw [work, mem] at after_
    refine .dark off idle part (after_.trans (funext fun a => ?_)) fun off_ => absurd was (Bool.eq_false_iff.mp off_)
    by_cases inside : inRange addr len a = true
    · simp only [blend, inside, Bool.true_and]
    · have outside : a < addr ∨ addr + len ≤ a := by
        simp only [inRange, decide_eq_true_eq] at inside
        omega
      have out := Bool.eq_false_iff.mpr inside
      simp only [blend, out, Bool.false_and, Bool.false_eq_true, frame a outside, ite_self]

/-- What can come of the write enable. -/
inductive Ready (c : Chip) : Bool → Chip → Prop
  | ready {after : Chip} (was : c.power = true) (on : after.power = true) (idle : after.work = none)
      (latch : after.wel = true) (mem : after.mem = c.mem) : Ready c true after
  | unready {after : Chip} (idle : after.work = none) (mem : after.mem = c.mem)
      (was : after.power = true → c.power = true) : Ready c false after

theorem lost_idle {c after : Chip} (idle : c.work = none) (lost : Lost c after) : after.mem = c.mem := by
  obtain ⟨_, _, part, mem⟩ := lost
  rw [mem, rest_idle idle, blend_same]

theorem wren_cases (idle : b.chip.work = none) : Ready b.chip (wren w b).1 (wren w b).2.chip := by
  obtain ⟨_, _, _, same⟩ := cs_low_chip w b
  have chip := same idle
  have sends : Transmission [W25Q_CMD_WRITE_EN] (cs_low w b) (spi_tx w [W25Q_CMD_WRITE_EN] (cs_low w b)) :=
    spi_tx_cases _ (.inr (by rw [chip]; exact idle))
  unfold wren
  generalize spi_tx w [W25Q_CMD_WRITE_EN] (cs_low w b) = sent at sends ⊢
  cases sends with
  | whole on =>
    rw [chip] at on
    have busy : ¬ (b.chip.power = false ∨ b.chip.work.isSome) := by simp [on, idle]
    have enabled : (cs_low w b).chip.receive [W25Q_CMD_WRITE_EN] = { b.chip with wel := true } := by
      rw [chip, Chip.receive, if_neg busy, if_pos rfl]
    have after : (cs_high { cs_low w b with
        calls := (cs_low w b).calls + 1
        selected := (cs_low w b).selected ++ [W25Q_CMD_WRITE_EN] }).chip = { b.chip with wel := true } := enabled
    rw [after]
    exact .ready on on idle rfl rfl
  | stopped on n =>
    obtain ⟨mem, still, _⟩ := @receive_enable (cs_low w b).chip (by rw [chip]; exact idle) n
    rw [chip] at on
    exact .unready still (mem.trans (congrArg Chip.mem chip)) fun _ => on
  | dark after lost =>
    rw [cs_high_off lost.off]
    have mem := lost_idle (by rw [chip]; exact idle) lost
    exact .unready lost.idle (mem.trans (congrArg Chip.mem chip)) fun on => absurd on (Bool.eq_false_iff.mp lost.off)

theorem order_short {exchange : List UInt8} (short : exchange.length < 4) : order exchange = none := by
  unfold order
  rw [if_neg (show ¬ 4 < exchange.length by omega), EraseTiling.cut_short short]
  exact ite_self _

theorem order_program {addr : UInt32} (inside : addr.toNat < W25Q_CHIP_SIZE) (data : List UInt8) :
    order (command W25Q_CMD_PAGE_PROG addr ++ data) =
      if data = [] then none else some (page_program addr.toNat data) := by
  have length : (command W25Q_CMD_PAGE_PROG addr ++ data).length = 4 + data.length := List.length_append
  have program : (command W25Q_CMD_PAGE_PROG addr ++ data).getD 0 0 = W25Q_CMD_PAGE_PROG := rfl
  unfold order
  rw [if_pos program, address_command _ inside, length]
  by_cases none_ : data = []
  · rw [if_pos none_, none_]
    rfl
  · have some_ := List.length_pos_iff.mpr none_
    rw [if_neg none_, if_pos (by omega)]
    rfl

/-- A command that orders nothing, whole or cut short. -/
theorem command_cut {cmd : UInt8} {addr : UInt32} (other : cmd ≠ W25Q_CMD_WRITE_EN)
    (nothing : order (command cmd addr) = none) (sent : Nat) (c : Chip) : c.receive ((command cmd addr).take sent) = c := by
  have enable : (command cmd addr).take sent ≠ [W25Q_CMD_WRITE_EN] := by
    intro same
    cases sent with
    | zero => cases same
    | succ n => exact other (congrArg (List.getD · 0 0) same)
  refine receive_nothing enable ?_
  by_cases whole : 4 ≤ sent
  · rw [List.take_of_length_le (show (command cmd addr).length ≤ sent from whole)]
    exact nothing
  · refine order_short ?_
    rw [List.length_take]
    omega

/-- A program command without data is none. -/
theorem program_cut {addr : UInt32} (inside : addr.toNat < W25Q_CHIP_SIZE) (sent : Nat) (c : Chip) :
    c.receive ((command W25Q_CMD_PAGE_PROG addr).take sent) = c := by
  have orders := order_program inside []
  rw [List.append_nil, if_pos rfl] at orders
  exact command_cut (by decide) orders sent c

/-- The chip works on the data that came. -/
theorem receive_program {c : Chip} (on : c.power = true) (idle : c.work = none) (latch : c.wel = true) {addr : UInt32}
    (inside : addr.toNat < W25Q_CHIP_SIZE) {data : List UInt8}
    (fits : addr.toNat % W25Q_PAGE_SIZE + data.length ≤ W25Q_PAGE_SIZE) :
    (c.receive (command W25Q_CMD_PAGE_PROG addr ++ data)).power = true ∧
      (c.receive (command W25Q_CMD_PAGE_PROG addr ++ data)).mem = c.mem ∧
      (c.receive (command W25Q_CMD_PAGE_PROG addr ++ data)).rest = programmed addr.toNat data c.mem ∧
      ∀ work ∈ (c.receive (command W25Q_CMD_PAGE_PROG addr ++ data)).work, work.cmd = W25Q_CMD_PAGE_PROG := by
  have orders := order_program inside data
  by_cases none_ : data = []
  · rw [none_, List.append_nil]
    have nothing := @program_cut addr inside 4 c
    rw [List.take_of_length_le (show (command W25Q_CMD_PAGE_PROG addr).length ≤ 4 from Nat.le_refl 4)] at nothing
    rw [nothing, rest_idle idle, programmed_nil]
    refine ⟨on, rfl, rfl, fun work some_ => ?_⟩
    rw [idle] at some_
    cases some_
  · rw [if_neg none_] at orders
    have other : command W25Q_CMD_PAGE_PROG addr ++ data ≠ [W25Q_CMD_WRITE_EN] := by
      intro same
      cases congrArg List.length same
    rw [receive_order on idle latch other orders]
    refine ⟨on, rfl, page_program_eq fits c.mem, fun work some_ => ?_⟩
    cases some_
    rfl

theorem w25_write_cases {addr : UInt32} {buf : List UInt8} (some_ : 0 < buf.length)
    (page : addr.toNat % W25Q_PAGE_SIZE + buf.length ≤ W25Q_PAGE_SIZE) (inside : addr.toNat + buf.length ≤ W25Q_CHIP_SIZE)
    (idle : b.chip.work = none) :
    Outcome addr.toNat buf.length (programmed addr.toNat buf) b.chip (w25_write w addr buf b).1
      (w25_write w addr buf b).2.chip := by
  have within : addr.toNat < W25Q_CHIP_SIZE := by omega
  unfold w25_write
  rw [if_neg (by omega), if_neg (by omega), if_neg (by omega), if_neg (by omega)]
  have enabled := @wren_cases w b idle
  generalize wren w b = ready at enabled ⊢
  obtain ⟨ok, b₁⟩ := ready
  cases enabled with
  | unready still mem was =>
    simp only [Bool.false_eq_true, if_false]
    exact outcome_nothing still mem was
  | ready was on still latch mem =>
    simp only [if_true]
    obtain ⟨_, _, _, same⟩ := cs_low_chip w b₁
    have chip := same still
    have sends : Transmission (command W25Q_CMD_PAGE_PROG addr) (cs_low w b₁)
        (spi_cmd_addr w W25Q_CMD_PAGE_PROG addr (cs_low w b₁)) :=
      spi_tx_cases _ (.inl (by rw [chip]; exact on))
    generalize spi_cmd_addr w W25Q_CMD_PAGE_PROG addr (cs_low w b₁) = cmd at sends ⊢
    cases sends with
    | stopped _ n =>
      have nothing := @program_cut addr within n (cs_low w b₁).chip
      have after := nothing.trans chip
      simp only [Bool.false_eq_true, if_false]
      refine outcome_nothing ?_ ?_ fun _ => was
      · exact (congrArg Chip.work after).trans still
      · exact (congrArg Chip.mem after).trans mem
    | dark after lost =>
      simp only [Bool.false_eq_true, if_false]
      rw [cs_high_off lost.off]
      have kept := lost_idle (by rw [chip]; exact still) lost
      exact outcome_nothing lost.idle (kept.trans ((congrArg Chip.mem chip).trans mem)) fun _ => was
    | whole _ =>
      simp only [if_true]
      generalize before : (⟨(cs_low w b₁).chip, (cs_low w b₁).calls + 1,
        (cs_low w b₁).selected ++ command W25Q_CMD_PAGE_PROG addr⟩ : Bus) = b₂
      have chip₂ : b₂.chip = b₁.chip := by rw [← before, ← chip]
      have selected : b₂.selected = command W25Q_CMD_PAGE_PROG addr := by
        rw [← before]
        rfl
      have data : Transmission buf b₂ (spi_tx w buf b₂) := spi_tx_cases _ (.inl (by rw [chip₂]; exact on))
      generalize spi_tx w buf b₂ = out at data ⊢
      cases data with
      | whole _ =>
        simp only [if_true]
        obtain ⟨on₃, mem₃, rest₃, _⟩ := receive_program on still latch within page
        have chip₃ : (cs_high { b₂ with calls := b₂.calls + 1, selected := b₂.selected ++ buf }).chip =
            b₁.chip.receive (command W25Q_CMD_PAGE_PROG addr ++ buf) := by rw [cs_high, chip₂, selected]
        have waited := @wait_not_busy_cases w (cs_high { b₂ with calls := b₂.calls + 1, selected := b₂.selected ++ buf })
          (W25Q_TMO_PROG + 1) (by rw [chip₃]; exact on₃)
        rw [chip₃] at waited
        refine outcome_waited (fun a outside => programmed_outside _ outside) was (mem₃.trans mem) ?_ waited
        rw [rest₃, mem]
      | stopped _ k =>
        simp only [Bool.false_eq_true, if_false]
        have short : (buf.take k).length ≤ buf.length := List.length_take_le' k buf
        obtain ⟨on₃, mem₃, rest₃, _⟩ := @receive_program b₁.chip on still latch addr within (buf.take k) (by omega)
        have chip₃ : (cs_high { b₂ with calls := b₂.calls + 1, selected := b₂.selected ++ buf.take k }).chip =
            b₁.chip.receive (command W25Q_CMD_PAGE_PROG addr ++ buf.take k) := by rw [cs_high, chip₂, selected]
        rw [chip₃]
        refine .failed was on₃ fun a outside => ?_
        rw [rest₃, mem]
        exact programmed_outside _ (by omega)
      | dark after lost =>
        simp only [Bool.false_eq_true, if_false]
        rw [cs_high_off lost.off]
        have kept := lost_idle (by rw [chip₂]; exact still) lost
        exact outcome_nothing lost.idle (kept.trans ((congrArg Chip.mem chip₂).trans mem)) fun _ => was

section
variable {addr : UInt32} {cmd : UInt8} {size : Nat}

theorem order_erase (inside : addr.toNat < W25Q_CHIP_SIZE) (sized : EraseTiling.erase_size cmd = some size)
    (natural : size ∣ addr.toNat) : order (command cmd addr) = some (erased addr.toNat size) := by
  have other : ¬ (command cmd addr).getD 0 0 = W25Q_CMD_PAGE_PROG := by
    intro same
    have program : cmd = W25Q_CMD_PAGE_PROG := same
    rw [program] at sized
    cases sized
  have own : addr.toNat / size * size = addr.toNat := Nat.div_mul_cancel natural
  rw [order, if_neg other, command_block inside sized, Option.map_some, own]

/-- An erase command, whole or cut short. -/
theorem receive_erase {c : Chip} (on : c.power = true) (idle : c.work = none) (latch : c.wel = true)
    (inside : addr.toNat < W25Q_CHIP_SIZE) (sized : EraseTiling.erase_size cmd = some size) (natural : size ∣ addr.toNat) :
    c.receive (command cmd addr) = { c with wel := false, work := some ⟨cmd, erased addr.toNat size c.mem⟩ } ∧
      ∀ sent, c.receive ((command cmd addr).take sent) = c ∨
        c.receive ((command cmd addr).take sent) = c.receive (command cmd addr) := by
  have other : command cmd addr ≠ [W25Q_CMD_WRITE_EN] := by
    intro same
    cases congrArg List.length same
  refine ⟨receive_order on idle latch other (order_erase inside sized natural), fun sent => ?_⟩
  by_cases whole : 4 ≤ sent
  · rw [List.take_of_length_le (show (command cmd addr).length ≤ sent from whole)]
    exact .inr rfl
  · have short : ((command cmd addr).take sent).length < 4 := by
      rw [List.length_take]
      omega
    by_cases enable : (command cmd addr).take sent = [W25Q_CMD_WRITE_EN]
    · have first : cmd = W25Q_CMD_WRITE_EN := by
        cases sent with
        | zero => cases enable
        | succ n => exact congrArg (List.getD · 0 0) enable
      rw [first] at sized
      cases sized
    · exact .inl (receive_nothing enable (order_short short))

theorem erase_one_cases {tmo : Nat} (inside : addr.toNat < W25Q_CHIP_SIZE) (sized : EraseTiling.erase_size cmd = some size)
    (natural : size ∣ addr.toNat) (idle : b.chip.work = none) :
    Outcome addr.toNat size (erased addr.toNat size) b.chip (erase_one w addr cmd tmo b).1
      (erase_one w addr cmd tmo b).2.chip := by
  unfold erase_one
  have enabled := @wren_cases w b idle
  generalize wren w b = ready at enabled ⊢
  obtain ⟨ok, b₁⟩ := ready
  cases enabled with
  | unready still mem was =>
    simp only [Bool.false_eq_true, if_false]
    exact outcome_nothing still mem was
  | ready was on still latch mem =>
    simp only [if_true]
    obtain ⟨_, _, _, same⟩ := cs_low_chip w b₁
    have chip := same still
    obtain ⟨works, cut⟩ := receive_erase on still latch inside sized natural
    have sends : Transmission (command cmd addr) (cs_low w b₁) (spi_cmd_addr w cmd addr (cs_low w b₁)) :=
      spi_tx_cases _ (.inl (by rw [chip]; exact on))
    generalize spi_cmd_addr w cmd addr (cs_low w b₁) = sent at sends ⊢
    cases sends with
    | whole _ =>
      simp only [if_true]
      have chip₂ : (cs_high { cs_low w b₁ with
          calls := (cs_low w b₁).calls + 1
          selected := (cs_low w b₁).selected ++ command cmd addr }).chip = b₁.chip.receive (command cmd addr) := by
        rw [cs_high, ← chip]
        rfl
      rw [works] at chip₂
      have waited := @wait_not_busy_cases w (cs_high { cs_low w b₁ with
          calls := (cs_low w b₁).calls + 1
          selected := (cs_low w b₁).selected ++ command cmd addr }) (tmo + 1) (by rw [chip₂]; exact on)
      rw [chip₂] at waited
      refine outcome_waited (fun a outside => erased_outside _ outside) was ?_ ?_ waited
      · exact mem
      · show erased addr.toNat size b₁.chip.mem = _
        rw [mem]
    | stopped _ n =>
      simp only [Bool.false_eq_true, if_false]
      have chip₂ : (cs_high { cs_low w b₁ with
          calls := (cs_low w b₁).calls + 1
          selected := (cs_low w b₁).selected ++ (command cmd addr).take n }).chip =
            b₁.chip.receive ((command cmd addr).take n) := by
        rw [cs_high, ← chip]
        rfl
      rw [chip₂]
      rcases cut n with nothing | whole
      · rw [nothing]
        exact outcome_nothing still mem fun _ => was
      · rw [whole, works]
        refine .failed was on fun a outside => ?_
        show erased addr.toNat size b₁.chip.mem a = _
        rw [mem]
        exact erased_outside _ outside
    | dark after lost =>
      simp only [Bool.false_eq_true, if_false]
      rw [cs_high_off lost.off]
      have kept := lost_idle (by rw [chip]; exact still) lost
      exact outcome_nothing lost.idle (kept.trans ((congrArg Chip.mem chip).trans mem)) fun _ => was

end

/-! ### The device -/

/-- An operation of the driver is one of the device with a suitable fate. -/
theorem operate_outcome {addr len : Nat} {effect : Mem → Mem} {c after : Chip} {done : Bool}
    (outcome : Outcome addr len effect c done after) :
    ∃ fates, ∀ rest, Dev.operate addr len effect ⟨c.mem, fates ++ rest, c.power⟩ =
      (done, ⟨after.rest, rest, after.power⟩) := by
  cases outcome with
  | done was on idle mem =>
    refine ⟨[.ok], fun rest => ?_⟩
    rw [rest_idle idle, mem, was, on]
    rfl
  | failed was on outside =>
    refine ⟨[.fail after.rest], fun rest => ?_⟩
    have left : blend (inRange addr len) after.rest c.mem = after.rest := by
      funext a
      unfold blend
      split_ifs with inside
      · rfl
      · refine (outside a ?_).symm
        simp only [inRange, decide_eq_true_eq] at inside
        omega
    rw [was, on]
    exact congrArg (fun m => (false, Dev.mk m rest true)) left
  | dark off idle part mem was =>
    rw [rest_idle idle, off]
    cases on : c.power with
    | true =>
      rw [mem]
      exact ⟨[.cut part], fun rest => rfl⟩
    | false =>
      rw [was on]
      exact ⟨[], fun rest => rfl⟩

theorem outcome_idle {addr len : Nat} {effect : Mem → Mem} {c after : Chip}
    (outcome : Outcome addr len effect c true after) : after.work = none := by
  cases outcome with
  | done _ _ idle _ => exact idle

/-- The block that is erased next, and what is left behind it. -/
structure NextBlock (addr len : UInt32) (n : Nat) : Prop where
  sized : EraseTiling.erase_size (choose addr len).cmd = some n
  natural : n ∣ addr.toNat
  positive : 0 < n
  fits : n ≤ len.toNat
  next : (addr + (choose addr len).chunk).toNat = addr.toNat + n
  left : (len - (choose addr len).chunk).toNat = len.toNat - n
  start : (addr.toNat + n) % W25Q_SECTOR_SIZE = 0
  whole : (len.toNat - n) % W25Q_SECTOR_SIZE = 0

theorem next_block {addr len : UInt32} (some_ : len ≠ 0) (start : addr.toNat % W25Q_SECTOR_SIZE = 0)
    (whole : len.toNat % W25Q_SECTOR_SIZE = 0) (inside : addr.toNat + len.toNat ≤ W25Q_CHIP_SIZE) :
    NextBlock addr len (erase_chunk addr.toNat len.toNat) := by
  have longer : len.toNat ≠ 0 := fun zero => some_ (UInt32.toNat_inj.mp zero)
  have chunk := choose_chunk addr len
  have natural : erase_chunk addr.toNat len.toNat ∣ addr.toNat := chunk ▸ (@choose_natural addr len start).2
  obtain ⟨fits, rest⟩ := @erase_chunk_le addr.toNat len.toNat (Nat.pos_of_ne_zero longer) whole
  have limit : W25Q_CHIP_SIZE = 2^24 := rfl
  refine ⟨(choose_size addr len).trans (congrArg some chunk), natural, W25qxx.erase_chunk_pos _ _, fits, ?_, ?_, ?_, rest⟩
  · rw [UInt32.toNat_add, chunk]
    exact Nat.mod_eq_of_lt (by omega)
  · rw [UInt32.toNat_sub_of_le _ _ (UInt32.le_iff_toNat_le.mpr (by rw [chunk]; exact fits)), chunk]
  · unfold W25Q_SECTOR_SIZE at *
    omega

theorem erase_from_step (w : World) (fuel : Nat) {addr len : UInt32} (some_ : len ≠ 0) (b : Bus) :
    erase_from w (fuel + 1) addr len b =
      if (erase_one w addr (choose addr len).cmd (choose addr len).tmo b).1 then
        erase_from w fuel (addr + (choose addr len).chunk) (len - (choose addr len).chunk)
          (erase_one w addr (choose addr len).cmd (choose addr len).tmo b).2
      else some (false, (erase_one w addr (choose addr len).cmd (choose addr len).tmo b).2) := by
  rw [erase_from, if_neg some_]

/-- The loop over the blocks is that of the device. -/
theorem erase_from_device {fuel : Nat} {addr len : UInt32} (enough : len.toNat < fuel)
    (start : addr.toNat % W25Q_SECTOR_SIZE = 0) (whole : len.toNat % W25Q_SECTOR_SIZE = 0)
    (inside : addr.toNat + len.toNat ≤ W25Q_CHIP_SIZE) (idle : b.chip.work = none) :
    ∃ done b', erase_from w fuel addr len b = some (done, b') ∧ (done = true → b'.chip.work = none) ∧
      ∃ fates, ∀ rest, W25qxx.erase_loop addr.toNat len.toNat ⟨b.chip.mem, fates ++ rest, b.chip.power⟩ =
        (done, ⟨b'.chip.rest, rest, b'.chip.power⟩) := by
  induction fuel generalizing addr len b with
  | zero => exact absurd enough (Nat.not_lt_zero _)
  | succ fuel ih =>
    by_cases empty : len = 0
    · refine ⟨true, b, by rw [erase_from, if_pos empty], fun _ => idle, [], fun rest => ?_⟩
      rw [empty, rest_idle idle, W25qxx.erase_loop]
      rfl
    · have block := next_block empty start whole inside
      generalize size : erase_chunk addr.toNat len.toNat = n at block
      have fits := block.fits
      have positive := block.positive
      have next := block.next
      have left := block.left
      have some_ : len.toNat ≠ 0 := by omega
      have outcome := @erase_one_cases w b addr (choose addr len).cmd n (choose addr len).tmo (by omega) block.sized
        block.natural idle
      rw [erase_from_step w fuel empty b]
      generalize erase_one w addr (choose addr len).cmd (choose addr len).tmo b = r at outcome ⊢
      obtain ⟨done, b₁⟩ := r
      obtain ⟨fates, first⟩ := operate_outcome outcome
      have unfolded (rest : List Fate) : W25qxx.erase_loop addr.toNat len.toNat ⟨b.chip.mem, fates ++ rest, b.chip.power⟩ =
          if done then W25qxx.erase_loop (addr.toNat + n) (len.toNat - n) ⟨b₁.chip.rest, rest, b₁.chip.power⟩
          else (false, ⟨b₁.chip.rest, rest, b₁.chip.power⟩) := by
        rw [W25qxx.erase_loop, if_neg some_, size, Dev.erase, first rest]
        cases done <;> rfl
      cases done with
      | false => exact ⟨false, b₁, rfl, by rintro ⟨⟩, fates, unfolded⟩
      | true =>
        have idle₁ := outcome_idle outcome
        obtain ⟨done, b', ran, free, later, rest_⟩ := @ih b₁ (addr + (choose addr len).chunk) (len - (choose addr len).chunk)
          (by omega) (by rw [next]; exact block.start) (by rw [left]; exact block.whole) (by omega) idle₁
        rw [next, left] at rest_
        refine ⟨done, b', ran, free, fates ++ later, fun rest => ?_⟩
        rw [List.append_assoc, unfolded, if_pos rfl, rest_idle idle₁]
        exact rest_ rest

/-- What can come of reading a piece. -/
inductive Piece (addr n : Nat) (c : Chip) : Option (List UInt8) → Chip → Prop
  | got (on : c.power = true) : Piece addr n c (some (bytesAt c.mem addr n)) c
  | failed {after : Chip} (idle : after.work = none) (mem : after.mem = c.mem) (was : after.power = true → c.power = true) :
    Piece addr n c none after

theorem read_piece_cases {addr : UInt32} {n : Nat} (inside : addr.toNat + n ≤ W25Q_CHIP_SIZE) (idle : b.chip.work = none) :
    Piece addr.toNat n b.chip (read_piece w addr n b).1 (read_piece w addr n b).2.chip := by
  obtain ⟨_, _, _, same⟩ := cs_low_chip w b
  have chip := same idle
  have cut (sent : Nat) (c : Chip) : c.receive ((command W25Q_CMD_READ_DATA addr).take sent) = c :=
    command_cut (by decide) rfl sent c
  have whole (c : Chip) : c.receive (command W25Q_CMD_READ_DATA addr) = c := cut 4 c
  have sends : Transmission (command W25Q_CMD_READ_DATA addr) (cs_low w b)
      (spi_cmd_addr w W25Q_CMD_READ_DATA addr (cs_low w b)) :=
    spi_tx_cases _ (.inr (by rw [chip]; exact idle))
  unfold read_piece
  generalize spi_cmd_addr w W25Q_CMD_READ_DATA addr (cs_low w b) = sent at sends ⊢
  cases sends with
  | stopped on k =>
    simp only [Bool.false_eq_true, if_false]
    have after : (cs_high { cs_low w b with
        calls := (cs_low w b).calls + 1
        selected := (cs_low w b).selected ++ (command W25Q_CMD_READ_DATA addr).take k }).chip = b.chip := (cut k _).trans chip
    rw [after]
    rw [chip] at on
    exact .failed idle rfl fun _ => on
  | dark after lost =>
    simp only [Bool.false_eq_true, if_false]
    rw [cs_high_off lost.off]
    have kept := lost_idle (by rw [chip]; exact idle) lost
    exact .failed lost.idle (kept.trans (congrArg Chip.mem chip)) fun on => absurd on (Bool.eq_false_iff.mp lost.off)
  | whole on =>
    simp only [if_true]
    generalize before : (⟨(cs_low w b).chip, (cs_low w b).calls + 1,
      (cs_low w b).selected ++ command W25Q_CMD_READ_DATA addr⟩ : Bus) = b₂
    have chip₂ : b₂.chip = b.chip := by rw [← before, ← chip]
    have selected : b₂.selected = command W25Q_CMD_READ_DATA addr := by
      rw [← before]
      rfl
    rw [chip] at on
    have receives := @spi_rx_cases w b₂ n (.inl (by rw [chip₂]; exact on))
    have high : (cs_high { b₂ with calls := b₂.calls + 1 }).chip = b.chip := by
      rw [cs_high, selected, chip₂]
      exact whole _
    generalize spi_rx w n b₂ = got at receives ⊢
    cases receives with
    | got _ noise =>
      have answer : b₂.chip.answer noise b₂.selected n = bytesAt b.chip.mem addr.toNat n := by
        rw [chip₂, selected]
        exact read_answer noise idle inside
      simp only [answer, high]
      exact .got on
    | failed _ =>
      simp only [high]
      exact .failed idle rfl fun _ => on
    | dark after lost =>
      simp only
      rw [cs_high_off lost.off]
      have kept := lost_idle (by rw [chip₂]; exact idle) lost
      exact .failed lost.idle (kept.trans (congrArg Chip.mem chip₂)) fun _ => on

/-- A piece is as long as one call of the hardware layer may be. -/
theorem read_from_step {addr len : UInt32} (some_ : len ≠ 0) (inside : addr.toNat + len.toNat ≤ W25Q_CHIP_SIZE) :
    ∃ chunk : UInt32, 0 < chunk.toNat ∧ chunk.toNat ≤ len.toNat ∧ (addr + chunk).toNat = addr.toNat + chunk.toNat ∧
      (len - chunk).toNat = len.toNat - chunk.toNat ∧ ∀ fuel buf b, read_from w (fuel + 1) addr len buf b =
        (read_piece w addr chunk.toNat b).1.elim (some (none, (read_piece w addr chunk.toNat b).2)) fun bytes =>
          read_from w fuel (addr + chunk) (len - chunk) (buf ++ bytes) (read_piece w addr chunk.toNat b).2 := by
  have longer : len.toNat ≠ 0 := fun zero => some_ (UInt32.toNat_inj.mp zero)
  have limit : W25Q_CHIP_SIZE = 2^24 := rfl
  generalize piece : (if len > 0xFFFF then 0xFFFF else len) = chunk
  have fits : chunk.toNat ≤ len.toNat ∧ chunk.toNat ≤ 0xFFFF ∧ 0 < chunk.toNat := by
    have most : (0xFFFF : UInt32).toNat = 0xFFFF := rfl
    rw [← piece]
    split_ifs with long
    · have above := UInt32.lt_iff_toNat_lt.mp long
      omega
    · have below := mt UInt32.lt_iff_toNat_lt.mpr long
      omega
  have uncut : chunk.toUInt16.toNat = chunk.toNat := by
    rw [UInt32.toNat_toUInt16]
    omega
  refine ⟨chunk, fits.2.2, fits.1, ?_, ?_, fun fuel buf b => ?_⟩
  · rw [UInt32.toNat_add]
    exact Nat.mod_eq_of_lt (by omega)
  · exact UInt32.toNat_sub_of_le _ _ (UInt32.le_iff_toNat_le.mpr fits.1)
  · rw [read_from, if_neg some_, piece]
    simp only [uncut]
    cases (read_piece w addr chunk.toNat b).1 <;> rfl

/-- The loop over the pieces reads what is stored, or reports a failure. -/
theorem read_from_cases {fuel : Nat} {addr len : UInt32} {buf : List UInt8} (enough : len.toNat < fuel)
    (inside : addr.toNat + len.toNat ≤ W25Q_CHIP_SIZE) (idle : b.chip.work = none) (ready : b.chip.power = true ∨ len ≠ 0) :
    ∃ got b', read_from w fuel addr len buf b = some (got, b') ∧
      b'.chip.work = none ∧ b'.chip.mem = b.chip.mem ∧ (b'.chip.power = true → b.chip.power = true) ∧
      ∀ bytes ∈ got, bytes = buf ++ bytesAt b.chip.mem addr.toNat len.toNat ∧ b'.chip.power = true := by
  induction fuel generalizing addr len buf b with
  | zero => exact absurd enough (Nat.not_lt_zero _)
  | succ fuel ih =>
    by_cases empty : len = 0
    · have on := ready.resolve_right (not_not.mpr empty)
      refine ⟨some buf, b, by rw [read_from, if_pos empty], idle, rfl, id, ?_⟩
      intro bytes same
      cases same
      rw [empty]
      exact ⟨(List.append_nil buf).symm, on⟩
    · obtain ⟨chunk, positive, fits, next, left, stepped⟩ := @read_from_step w addr len empty inside
      have cases_ := @read_piece_cases w b addr chunk.toNat (by omega) idle
      rw [stepped]
      generalize read_piece w addr chunk.toNat b = r at cases_ ⊢
      obtain ⟨got, b₁⟩ := r
      generalize after : b₁.chip = c₁ at cases_
      cases cases_ with
      | failed still mem was =>
        refine ⟨none, b₁, rfl, ?_, ?_, ?_, by rintro _ ⟨⟩⟩
        · rw [after]
          exact still
        · rw [after]
          exact mem
        · rw [after]
          exact was
      | got on =>
        obtain ⟨got, b', ran, still, mem, was, bytes⟩ := @ih b₁ (addr + chunk) (len - chunk)
          (buf ++ bytesAt b.chip.mem addr.toNat chunk.toNat) (by omega) (by omega) (by rw [after]; exact idle)
          (.inl (by rw [after]; exact on))
        rw [after] at mem was bytes
        refine ⟨got, b', ran, still, mem, was, fun bytes_ same => ?_⟩
        obtain ⟨read, on_⟩ := bytes bytes_ same
        have cut : len.toNat = chunk.toNat + (len.toNat - chunk.toNat) := by omega
        rw [read, next, left, List.append_assoc, ← bytesAt_append, ← cut]
        exact ⟨rfl, on_⟩

/-- The calls for which the chip is needed. -/
def Accepted : Call → Prop
  | .read addr len => len ≠ 0 ∧ addr.toNat + len.toNat ≤ W25Q_CHIP_SIZE
  | .write addr buf =>
    0 < buf.length ∧ addr.toNat % W25Q_PAGE_SIZE + buf.length ≤ W25Q_PAGE_SIZE ∧ addr.toNat + buf.length ≤ W25Q_CHIP_SIZE
  | .erase addr len =>
    len ≠ 0 ∧ addr.toNat % W25Q_SECTOR_SIZE = 0 ∧ len.toNat % W25Q_SECTOR_SIZE = 0 ∧ addr.toNat + len.toNat ≤ W25Q_CHIP_SIZE

/-- Other calls are answered alike by both, at once. -/
theorem drive_refused (w : World) {c : Call} (refused : ¬ Accepted c) :
    ∃ r, (∀ b, drive w c b = some (r, b)) ∧ ∀ d, operate c d = (r, d) := by
  have zero (len : UInt32) : len = 0 ↔ len.toNat = 0 :=
    ⟨fun empty => by rw [empty]; rfl, fun empty => UInt32.toNat_inj.mp empty⟩
  have limit : W25Q_CHIP_SIZE = 2^24 := rfl
  cases c with
  | read addr len =>
    by_cases empty : len = 0
    · rw [empty]
      exact ⟨some [], fun _ => rfl, fun _ => rfl⟩
    · have some_ : len.toNat ≠ 0 := fun zero_ => empty ((zero len).mpr zero_)
      have outside : addr.toNat ≥ W25Q_CHIP_SIZE ∨ W25Q_CHIP_SIZE - addr.toNat < len.toNat := by
        by_contra inside
        exact refused ⟨empty, by omega⟩
      refine ⟨none, fun b => ?_, fun d => ?_⟩
      · rw [drive, w25_read, if_neg empty, if_pos outside]
      · rw [operate, W25qxx.w25_read, if_neg some_, if_pos outside]
  | write addr buf =>
    have same : ∃ done, (∀ b, w25_write w addr buf b = (done, b)) ∧ ∀ d, W25qxx.w25_write addr.toNat buf d = (done, d) := by
      unfold w25_write W25qxx.w25_write
      split_ifs with empty long page outside
      · exact ⟨true, fun _ => rfl, fun _ => rfl⟩
      · exact ⟨false, fun _ => rfl, fun _ => rfl⟩
      · exact ⟨false, fun _ => rfl, fun _ => rfl⟩
      · exact ⟨false, fun _ => rfl, fun _ => rfl⟩
      · exact absurd ⟨by omega, by omega, by omega⟩ refused
    obtain ⟨done, driver, device⟩ := same
    refine ⟨reply done, fun b => ?_, fun d => ?_⟩
    · rw [drive, driver]
    · rw [operate, device]
  | erase addr len =>
    refine ⟨none, fun b => ?_, fun d => ?_⟩
    · have refuses : w25_erase w addr len b = some (false, b) := by
        unfold w25_erase
        split_ifs with first second
        · rfl
        · rfl
        · exact absurd ⟨fun empty => first (.inl empty), by omega, by omega, by omega⟩ refused
      rw [drive, refuses]
      rfl
    · have refuses : W25qxx.w25_erase addr.toNat len.toNat d = (false, d) := by
        unfold W25qxx.w25_erase
        split_ifs with first second
        · rfl
        · rfl
        · exact absurd ⟨fun empty => first (.inl ((zero len).mp empty)), by omega, by omega, by omega⟩ refused
      rw [operate, refuses]
      rfl

theorem read_accepted (w : World) {addr len : UInt32} (accepted : Accepted (.read addr len)) (b : Bus) (d : Dev) :
    drive w (.read addr len) b = read_from w (len.toNat + 1) addr len [] b ∧
      operate (.read addr len) d = d.read addr.toNat len.toNat := by
  obtain ⟨some_, inside⟩ := accepted
  have longer : len.toNat ≠ 0 := fun zero => some_ (UInt32.toNat_inj.mp zero)
  have fits : ¬ (addr.toNat ≥ W25Q_CHIP_SIZE ∨ W25Q_CHIP_SIZE - addr.toNat < len.toNat) := by omega
  rw [drive, w25_read, if_neg some_, if_neg fits, operate, W25qxx.w25_read, if_neg longer, if_neg fits]
  exact ⟨rfl, rfl⟩

theorem erase_accepted (w : World) {addr len : UInt32} (accepted : Accepted (.erase addr len)) (b : Bus) (d : Dev) :
    w25_erase w addr len b = erase_from w (len.toNat + 1) addr len b ∧
      W25qxx.w25_erase addr.toNat len.toNat d = W25qxx.erase_loop addr.toNat len.toNat d := by
  obtain ⟨some_, start, whole, inside⟩ := accepted
  have longer : len.toNat ≠ 0 := fun zero => some_ (UInt32.toNat_inj.mp zero)
  have fits : ¬ (addr.toNat ≥ W25Q_CHIP_SIZE ∨ W25Q_CHIP_SIZE - addr.toNat < len.toNat) := by omega
  rw [w25_erase, if_neg (by simp [some_, start, whole]), if_neg fits, W25qxx.w25_erase,
    if_neg (by simp [longer, start, whole]), if_neg fits]
  exact ⟨rfl, rfl⟩

/-- A call that finds the chip idle is one of the device with suitable fates, and leaves the chip idle if it
    succeeds. -/
theorem drive_device (c : Call) (idle : b.chip.work = none) :
    ∃ r b', drive w c b = some (r, b') ∧ (r ≠ none → b'.chip.work = none) ∧
      ∃ fates, ∀ rest, operate c ⟨b.chip.mem, fates ++ rest, b.chip.power⟩ = (r, ⟨b'.chip.rest, rest, b'.chip.power⟩) := by
  by_cases accepted : Accepted c
  · cases c with
    | read addr len =>
      obtain ⟨got, b', ran, still, mem, was, bytes⟩ :=
        @read_from_cases w b (len.toNat + 1) addr len [] (Nat.lt_succ_self _) accepted.2 idle (.inr accepted.1)
      refine ⟨got, b', by rw [(read_accepted w accepted b ⟨b.chip.mem, [], true⟩).1, ran], fun _ => still, ?_⟩
      have outcome : Outcome addr.toNat 0 id b.chip got.isSome b'.chip := by
        cases got with
        | none => exact outcome_nothing still mem was
        | some bytes_ =>
          have on := (bytes bytes_ rfl).2
          exact .done (was on) on still mem
      obtain ⟨fates, device⟩ := operate_outcome outcome
      refine ⟨fates, fun rest => ?_⟩
      rw [(read_accepted w accepted b _).2, Dev.read, device rest]
      cases got with
      | none => rfl
      | some bytes_ =>
        have read := (bytes bytes_ rfl).1
        rw [List.nil_append] at read
        rw [read]
        rfl
    | write addr buf =>
      obtain ⟨some_, page, inside⟩ := accepted
      have outcome := @w25_write_cases w b addr buf some_ page inside idle
      obtain ⟨fates, device⟩ := operate_outcome outcome
      refine ⟨_, _, rfl, ?_, fates, fun rest => ?_⟩
      · intro succeeded
        cases done : (w25_write w addr buf b).1 with
        | true =>
          rw [done] at outcome
          exact outcome_idle outcome
        | false =>
          rw [done] at succeeded
          exact absurd rfl succeeded
      · rw [operate, W25qxx.w25_write_eq some_ page inside, Dev.program, device rest]
    | erase addr len =>
      obtain ⟨done, b', ran, free, fates, device⟩ :=
        @erase_from_device w b (len.toNat + 1) addr len (Nat.lt_succ_self _) accepted.2.1 accepted.2.2.1 accepted.2.2.2 idle
      refine ⟨reply done, b', ?_, ?_, fates, fun rest => ?_⟩
      · rw [drive, (erase_accepted w accepted b ⟨b.chip.mem, [], true⟩).1, ran]
        rfl
      · intro succeeded
        cases done with
        | true => exact free rfl
        | false => exact absurd rfl succeeded
      · rw [operate, (erase_accepted w accepted b _).2, device rest]
  · obtain ⟨r, driver, device⟩ := drive_refused w accepted
    refine ⟨r, b, driver b, fun _ => idle, [], fun rest => ?_⟩
    rw [device, rest_idle idle]
    rfl

/-- In every run in which each call finds the chip done with its work, whatever calls of the hardware layer
    fail and wherever the power goes, the driver over the chip does what the flash device does
    with suitable fates of its operations, reply by reply and byte by byte. -/
theorem driver_refines_device (w : World) (events : List Event) (b : Bus) (unhurried : Unhurried w events b) :
    ∃ replies b' fates, run w events b = some (replies, b') ∧
      run_device events ⟨b.chip.rest, fates, b.chip.power⟩ = (replies, ⟨b'.chip.rest, [], b'.chip.power⟩) := by
  induction events generalizing b with
  | nil => exact ⟨[], b, [], rfl, rfl⟩
  | cons e events ih =>
    cases e with
    | pause => exact ih { b with chip := b.chip.settle } unhurried
    | call c =>
      obtain ⟨idle, later⟩ := unhurried
      obtain ⟨r, b₁, called, _, fates, device⟩ := @drive_device w b c idle
      obtain ⟨replies, b', rest, ran, devices⟩ := ih b₁ (later _ called)
      refine ⟨r :: replies, b', fates ++ rest, ?_, ?_⟩
      · simp only [run, called, ran, Option.bind_eq_bind, Option.bind_some]
      · simp only [run_device, rest_idle idle, device rest, devices]

/-- A transmission that fails in the middle of a page, a pause and another try. -/
def retry : World where
  transmit := fun n => if n = 2 then some 1 else none
  receive := fun _ => true
  ended := fun _ _ => true
  outage := fun _ => none
  noise := fun _ _ => 0

def blank : Bus := { chip := { mem := fun _ => 0xFF } }

def retried : List Event :=
  [.call (.write 0x1FE [0x12, 0x34]), .pause, .call (.write 0x1FE [0x12, 0x34]), .call (.read 0x1FD 3)]

theorem driver_refines_device_retry :
    (run retry retried blank).map (·.1) = some [none, some [], some [0xFF, 0x12, 0x34]] ∧
      ∃ replies b' fates, run retry retried blank = some (replies, b') ∧
        run_device retried ⟨blank.chip.rest, fates, blank.chip.power⟩ = (replies, ⟨b'.chip.rest, [], b'.chip.power⟩) := by
  refine ⟨by decide +kernel, driver_refines_device retry retried blank ?_⟩
  refine ⟨rfl, fun r called => ?_⟩
  cases called
  refine ⟨rfl, fun r called => ?_⟩
  cases called
  refine ⟨rfl, fun r called => ?_⟩
  cases called
  trivial

/-! ### Hardware that works -/

/-- Nothing fails, and the chip is done with a command within the time that the driver gives it. -/
structure Works (w : World) : Prop where
  transmits : ∀ n, w.transmit n = none
  receives : ∀ n, w.receive n = true
  steady : ∀ n, w.outage n = none
  programs : ∀ n, ∃ k ≤ W25Q_TMO_PROG, w.ended W25Q_CMD_PAGE_PROG (n + 2 * k) = true
  erases : ∀ cmd, EraseTiling.erase_size cmd ≠ none → ∀ n, ∃ k ≤ EraseTiling.W25Q_TMO_4K, w.ended cmd (n + 2 * k) = true

theorem spi_tx_works (works : Works w) (on : b.chip.power = true) (d : List UInt8) :
    spi_tx w d b = (true, { b with calls := b.calls + 1, selected := b.selected ++ d }) := by
  simp only [spi_tx, struck, works.steady, works.transmits, on, if_true]

theorem spi_rx_works (works : Works w) (on : b.chip.power = true) (n : Nat) :
    spi_rx w n b = (some (b.chip.answer (w.noise b.calls) b.selected n), { b with calls := b.calls + 1 }) := by
  simp only [spi_rx, struck, works.steady, works.receives, on, and_self, if_true]

theorem cs_low_on (on : b.chip.power = true) : (cs_low w b).chip.power = true := (cs_low_chip w b).1.trans on

/-- What a poll finds. -/
theorem poll_works (works : Works w) (on : b.chip.power = true) (polls : Nat) :
    wait_not_busy w (polls + 1) b =
      if (cs_low w b).chip.work = none then (true, { cs_low w b with calls := b.calls + 2 })
      else wait_not_busy w polls { cs_low w b with calls := b.calls + 2 } := by
  have on_ : (cs_low w b).chip.power = true := cs_low_on on
  have sent := @spi_tx_works w (cs_low w b) works on_ [W25Q_CMD_READ_SR1]
  obtain ⟨sr, answer, busy⟩ := status_answer (w.noise (b.calls + 1)) (cs_low w b).chip
  have got := @spi_rx_works w { cs_low w b with calls := b.calls + 1, selected := [W25Q_CMD_READ_SR1] } works on_ 1
  have high : cs_high { cs_low w b with calls := b.calls + 1 + 1, selected := [W25Q_CMD_READ_SR1] } =
      { cs_low w b with calls := b.calls + 2 } := by
    have chip : (cs_low w b).chip.receive [W25Q_CMD_READ_SR1] = (cs_low w b).chip := receive_nothing (by decide) rfl
    rw [cs_high, chip]
    rfl
  have selected : (cs_low w b).selected ++ [W25Q_CMD_READ_SR1] = [W25Q_CMD_READ_SR1] := rfl
  have calls : (cs_low w b).calls = b.calls := rfl
  simp only [answer] at got
  rw [wait_not_busy]
  simp only [sent, selected, calls, got, if_true, high]
  exact if_congr busy rfl rfl

theorem wait_not_busy_done (works : Works w) {k polls : Nat} (on : b.chip.power = true) (below : k < polls)
    (ended : ∀ work ∈ b.chip.work, w.ended work.cmd (b.calls + 2 * k) = true) : (wait_not_busy w polls b).1 = true := by
  induction k generalizing b polls with
  | zero =>
    obtain ⟨polls, rfl⟩ := Nat.exists_eq_succ_of_ne_zero (Nat.ne_of_gt below)
    have free : (cs_low w b).chip.work = none := by
      cases at_ : b.chip.work with
      | none => rw [(cs_low_chip w b).2.2.2 at_, at_]
      | some work =>
        have done := ended work at_
        unfold cs_low
        simp only [at_, Option.any_some]
        rw [show w.ended work.cmd b.calls = true from done, if_pos rfl]
        rfl
    rw [poll_works works on, if_pos free]
  | succ k ih =>
    obtain ⟨polls, rfl⟩ := Nat.exists_eq_succ_of_ne_zero (Nat.ne_of_gt (Nat.zero_lt_of_lt below))
    rw [poll_works works on]
    split_ifs with free
    · rfl
    · refine ih (cs_low_on on) (Nat.lt_of_succ_lt_succ below) ?_
      intro work same
      have still : b.chip.work = some work := by
        unfold cs_low at same free
        by_cases done : (b.chip.work.any fun work => w.ended work.cmd b.calls) = true
        · simp only [done, if_true] at free
          exact absurd rfl free
        · simp only [done, Bool.false_eq_true, if_false] at same
          exact same
      have later := ended work still
      have count : b.calls + 2 + 2 * k = b.calls + 2 * (k + 1) := by omega
      show w.ended work.cmd (b.calls + 2 + 2 * k) = true
      rw [count]
      exact later

theorem wren_works (works : Works w) (on : b.chip.power = true) (idle : b.chip.work = none) :
    ∃ b', wren w b = (true, b') ∧ b'.chip.power = true ∧ b'.chip.work = none ∧ b'.chip.wel = true ∧
      b'.chip.mem = b.chip.mem := by
  have sent : (wren w b).1 = true := by
    unfold wren
    rw [spi_tx_works works (cs_low_on on)]
  have enabled := @wren_cases w b idle
  generalize wren w b = ready at enabled sent ⊢
  obtain ⟨ok, b'⟩ := ready
  cases sent
  generalize after : b'.chip = c at enabled
  cases enabled with
  | ready _ on_ still latch mem =>
    refine ⟨b', rfl, ?_⟩
    rw [after]
    exact ⟨on_, still, latch, mem⟩

theorem w25_write_works (works : Works w) {addr : UInt32} {buf : List UInt8} (some_ : 0 < buf.length)
    (page : addr.toNat % W25Q_PAGE_SIZE + buf.length ≤ W25Q_PAGE_SIZE) (inside : addr.toNat + buf.length ≤ W25Q_CHIP_SIZE)
    (on : b.chip.power = true) (idle : b.chip.work = none) : (w25_write w addr buf b).1 = true := by
  obtain ⟨b₁, ready, on₁, still, latch, _⟩ := wren_works works on idle
  have chip := (cs_low_chip w b₁).2.2.2 still
  have cmd := @spi_tx_works w (cs_low w b₁) works (cs_low_on on₁) (command W25Q_CMD_PAGE_PROG addr)
  generalize before : (⟨(cs_low w b₁).chip, (cs_low w b₁).calls + 1,
    (cs_low w b₁).selected ++ command W25Q_CMD_PAGE_PROG addr⟩ : Bus) = b₂ at cmd
  have chip₂ : b₂.chip = b₁.chip := by rw [← before, ← chip]
  have selected : b₂.selected = command W25Q_CMD_PAGE_PROG addr := by
    rw [← before]
    rfl
  have data := @spi_tx_works w b₂ works (by rw [chip₂]; exact on₁) buf
  obtain ⟨on₃, _, _, program⟩ := receive_program on₁ still latch (by omega) page
  have chip₃ : (cs_high { b₂ with calls := b₂.calls + 1, selected := b₂.selected ++ buf }).chip =
      b₁.chip.receive (command W25Q_CMD_PAGE_PROG addr ++ buf) := by rw [cs_high, chip₂, selected]
  unfold w25_write
  rw [if_neg (by omega), if_neg (by omega), if_neg (by omega), if_neg (by omega)]
  simp only [ready, spi_cmd_addr, cmd, data, if_true]
  obtain ⟨k, soon, ended⟩ := works.programs (cs_high { b₂ with calls := b₂.calls + 1, selected := b₂.selected ++ buf }).calls
  refine wait_not_busy_done works (by rw [chip₃]; exact on₃) (Nat.lt_succ_of_le soon) ?_
  rw [chip₃]
  intro work working
  rw [program work working]
  exact ended

theorem erase_one_works (works : Works w) {addr : UInt32} {cmd : UInt8} {size tmo : Nat}
    (inside : addr.toNat < W25Q_CHIP_SIZE) (sized : EraseTiling.erase_size cmd = some size) (natural : size ∣ addr.toNat)
    (long : EraseTiling.W25Q_TMO_4K ≤ tmo)
    (on : b.chip.power = true) (idle : b.chip.work = none) : (erase_one w addr cmd tmo b).1 = true := by
  obtain ⟨b₁, ready, on₁, still, latch, _⟩ := wren_works works on idle
  have chip := (cs_low_chip w b₁).2.2.2 still
  have sent := @spi_tx_works w (cs_low w b₁) works (cs_low_on on₁) (command cmd addr)
  obtain ⟨working, _⟩ := receive_erase on₁ still latch inside sized natural
  have chip₂ : (cs_high { cs_low w b₁ with
      calls := (cs_low w b₁).calls + 1
      selected := (cs_low w b₁).selected ++ command cmd addr }).chip = b₁.chip.receive (command cmd addr) := by
    rw [cs_high, ← chip]
    rfl
  unfold erase_one
  simp only [ready, spi_cmd_addr, sent, if_true]
  obtain ⟨k, soon, ended⟩ := works.erases cmd (by rw [sized]; exact Option.some_ne_none _) (cs_high { cs_low w b₁ with
      calls := (cs_low w b₁).calls + 1
      selected := (cs_low w b₁).selected ++ command cmd addr }).calls
  refine wait_not_busy_done works (by rw [chip₂, working]; exact on₁) (Nat.lt_succ_of_le (Nat.le_trans soon long)) ?_
  rw [chip₂, working]
  intro work same
  cases same
  exact ended

theorem erase_from_works (works : Works w) {fuel : Nat} {addr len : UInt32} (enough : len.toNat < fuel)
    (start : addr.toNat % W25Q_SECTOR_SIZE = 0) (whole : len.toNat % W25Q_SECTOR_SIZE = 0)
    (inside : addr.toNat + len.toNat ≤ W25Q_CHIP_SIZE) (on : b.chip.power = true) (idle : b.chip.work = none) :
    ∃ b', erase_from w fuel addr len b = some (true, b') ∧ b'.chip.power = true ∧ b'.chip.work = none ∧
      b'.chip.mem = erased addr.toNat len.toNat b.chip.mem := by
  induction fuel generalizing addr len b with
  | zero => exact absurd enough (Nat.not_lt_zero _)
  | succ fuel ih =>
    by_cases empty : len = 0
    · refine ⟨b, by rw [erase_from, if_pos empty], on, idle, ?_⟩
      rw [empty]
      exact funext fun a => (erased_outside _ (by show a < addr.toNat ∨ addr.toNat + 0 ≤ a; omega)).symm
    · have block := next_block empty start whole inside
      generalize erase_chunk addr.toNat len.toNat = n at block
      have fits := block.fits
      have positive := block.positive
      have next := block.next
      have left := block.left
      have outcome := @erase_one_cases w b addr (choose addr len).cmd n (choose addr len).tmo (by omega) block.sized
        block.natural idle
      have done := @erase_one_works w b works addr (choose addr len).cmd n (choose addr len).tmo (by omega) block.sized
        block.natural (EraseTiling.choose_tmo addr len) on idle
      rw [erase_from_step w fuel empty b]
      generalize erase_one w addr (choose addr len).cmd (choose addr len).tmo b = r at outcome done ⊢
      obtain ⟨ok, b₁⟩ := r
      cases done
      generalize after : b₁.chip = c₁ at outcome
      cases outcome with
      | done _ on₁ idle₁ mem₁ =>
        obtain ⟨b', ran, on', idle', mem'⟩ := @ih b₁ (addr + (choose addr len).chunk) (len - (choose addr len).chunk)
          (by omega) (by rw [next]; exact block.start) (by rw [left]; exact block.whole) (by omega) (by rw [after]; exact on₁)
          (by rw [after]; exact idle₁)
        refine ⟨b', ran, on', idle', ?_⟩
        rw [mem', next, left, after, mem₁, W25qxx.erased_split _ _ _ fits]

theorem read_piece_works (works : Works w) {addr : UInt32} {n : Nat} (on : b.chip.power = true) :
    (read_piece w addr n b).1 ≠ none := by
  have sent := @spi_tx_works w (cs_low w b) works (cs_low_on on) (command W25Q_CMD_READ_DATA addr)
  have got := @spi_rx_works w { cs_low w b with
      calls := (cs_low w b).calls + 1
      selected := (cs_low w b).selected ++ command W25Q_CMD_READ_DATA addr } works (cs_low_on on) n
  unfold read_piece
  simp only [spi_cmd_addr, sent, got, if_true]
  exact Option.some_ne_none _

theorem read_from_works (works : Works w) {fuel : Nat} {addr len : UInt32} {buf : List UInt8} (enough : len.toNat < fuel)
    (inside : addr.toNat + len.toNat ≤ W25Q_CHIP_SIZE) (on : b.chip.power = true) (idle : b.chip.work = none) :
    ∀ r ∈ read_from w fuel addr len buf b, r.1 ≠ none := by
  induction fuel generalizing addr len buf b with
  | zero => exact absurd enough (Nat.not_lt_zero _)
  | succ fuel ih =>
    by_cases empty : len = 0
    · intro r same
      rw [read_from, if_pos empty] at same
      cases same
      exact Option.some_ne_none _
    · obtain ⟨chunk, positive, fits, next, left, stepped⟩ := @read_from_step w addr len empty inside
      have cases_ := @read_piece_cases w b addr chunk.toNat (by omega) idle
      have got_ := @read_piece_works w b works addr chunk.toNat on
      rw [stepped]
      generalize read_piece w addr chunk.toNat b = r at cases_ got_ ⊢
      obtain ⟨got, b₁⟩ := r
      generalize after : b₁.chip = c₁ at cases_
      cases cases_ with
      | failed _ _ _ => exact absurd rfl got_
      | got _ => exact @ih b₁ _ _ _ (by omega) (by omega) (by rw [after]; exact on) (by rw [after]; exact idle)

/-- On hardware that works a call is one of the device without faults. -/
theorem drive_works (works : Works w) (c : Call) (on : b.chip.power = true) (idle : b.chip.work = none) :
    ∃ r b', drive w c b = some (r, b') ∧ b'.chip.power = true ∧ b'.chip.work = none ∧
      operate c ⟨b.chip.mem, [], true⟩ = (r, ⟨b'.chip.mem, [], true⟩) := by
  by_cases accepted : Accepted c
  · cases c with
    | read addr len =>
      obtain ⟨got, b', ran, still, mem, _, bytes⟩ :=
        @read_from_cases w b (len.toNat + 1) addr len [] (Nat.lt_succ_self _) accepted.2 idle (.inr accepted.1)
      have some_ := @read_from_works w b works (len.toNat + 1) addr len [] (Nat.lt_succ_self _) accepted.2 on idle _ ran
      obtain ⟨bytes_, rfl⟩ := Option.ne_none_iff_exists'.mp some_
      obtain ⟨read, on'⟩ := bytes bytes_ rfl
      refine ⟨some bytes_, b', by rw [(read_accepted w accepted b ⟨b.chip.mem, [], true⟩).1, ran], on', still, ?_⟩
      rw [(read_accepted w accepted b _).2, read_working rfl rfl, mem, read]
      rfl
    | write addr buf =>
      obtain ⟨some_, page, inside⟩ := accepted
      have outcome := @w25_write_cases w b addr buf some_ page inside idle
      have done := w25_write_works works some_ page inside on idle
      refine ⟨_, _, rfl, ?_⟩
      rw [operate, W25qxx.w25_write_eq some_ page inside, Dev.program, operate_working rfl rfl]
      generalize w25_write w addr buf b = r at outcome done ⊢
      obtain ⟨ok, b'⟩ := r
      cases done
      generalize after : b'.chip = c at outcome ⊢
      cases outcome with
      | done _ on' idle' mem =>
        rw [mem]
        exact ⟨on', idle', rfl⟩
    | erase addr len =>
      obtain ⟨some_, start, whole, inside⟩ := accepted
      obtain ⟨b', ran, on', idle', mem⟩ :=
        @erase_from_works w b works (len.toNat + 1) addr len (Nat.lt_succ_self _) start whole inside on idle
      have accepted : Accepted (.erase addr len) := ⟨some_, start, whole, inside⟩
      refine ⟨reply true, b', ?_, on', idle', ?_⟩
      · rw [drive, (erase_accepted w accepted b ⟨b.chip.mem, [], true⟩).1, ran]
        rfl
      · rw [operate, (erase_accepted w accepted b _).2, W25qxx.erase_loop_working rfl rfl whole, mem]
  · obtain ⟨r, driver, device⟩ := drive_refused w accepted
    exact ⟨r, b, driver b, on, idle, device _⟩

/-- On hardware that works, from an idle chip on, every run of the driver is that of the flash device
    without faults. -/
theorem driver_is_device (w : World) (works : Works w) (events : List Event) (b : Bus) (on : b.chip.power = true)
    (idle : b.chip.work = none) :
    ∃ replies b', run w events b = some (replies, b') ∧
      run_device events ⟨b.chip.mem, [], true⟩ = (replies, ⟨b'.chip.mem, [], true⟩) := by
  induction events generalizing b with
  | nil => exact ⟨[], b, rfl, rfl⟩
  | cons e events ih =>
    cases e with
    | pause =>
      obtain ⟨replies, b', ran, devices⟩ := ih { b with chip := b.chip.settle } on rfl
      refine ⟨replies, b', ran, ?_⟩
      have mem : b.chip.settle.mem = b.chip.mem := rest_idle idle
      rw [mem] at devices
      exact devices
    | call c =>
      obtain ⟨r, b₁, called, on₁, idle₁, device⟩ := drive_works works c on idle
      obtain ⟨replies, b', ran, devices⟩ := ih b₁ on₁ idle₁
      refine ⟨r :: replies, b', ?_, ?_⟩
      · simp only [run, called, ran, Option.bind_eq_bind, Option.bind_some]
      · simp only [run_device, device, devices]

/-- A chip that is done with a command at the first or at the second poll. -/
def prompt : World where
  transmit := fun _ => none
  receive := fun _ => true
  ended := fun _ n => decide (n % 4 < 2)
  outage := fun _ => none
  noise := fun _ _ => 0xAA

theorem prompt_works : Works prompt := by
  have soon (n : Nat) : ∃ k ≤ 1, decide ((n + 2 * k) % 4 < 2) = true := by
    by_cases now : n % 4 < 2
    · exact ⟨0, Nat.zero_le 1, decide_eq_true now⟩
    · exact ⟨1, Nat.le_refl 1, decide_eq_true (by omega)⟩
  refine ⟨fun _ => rfl, fun _ => rfl, fun _ => rfl, fun n => ?_, fun _ _ n => ?_⟩
  · obtain ⟨k, below, ended⟩ := soon n
    exact ⟨k, Nat.le_trans below (by decide), ended⟩
  · obtain ⟨k, below, ended⟩ := soon n
    exact ⟨k, Nat.le_trans below (by decide), ended⟩

def rewritten : List Event :=
  [.call (.write 0x1FFF [0]), .call (.erase 0x1000 0x1000), .call (.write 0x1FFE [0x12, 0x34]), .call (.read 0x1FFD 3)]

theorem driver_is_device_rewritten :
    (run prompt rewritten blank).map (·.1) = some [some [], some [], some [], some [0xFF, 0x12, 0x34]] ∧
      ∃ replies b', run prompt rewritten blank = some (replies, b') ∧
        run_device rewritten ⟨blank.chip.mem, [], true⟩ = (replies, ⟨b'.chip.mem, [], true⟩) :=
  ⟨by decide +kernel, driver_is_device prompt prompt_works rewritten blank rfl rfl⟩

end

end IoEdgeHub.SpiDevice
