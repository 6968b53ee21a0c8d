import IoEdgeHub.BootCan
import IoEdgeHub.Confinement

/-!
Where the boot loader erases and programs while it handles CAN frames (`boot/boot_can.c` over
`storage/intflash.c`). An open session never has more to write than slot0 holds, and the
sectors that a START erases are slot0's, so its own sectors are out of reach of the bus.
-/
namespace IoEdgeHub.BootConfined
open IoEdgeHub.Nor IoEdgeHub.W25qxx IoEdgeHub.IntFlash IoEdgeHub.Confinement IoEdgeHub.BootCan IoEdgeHub.CanProtocol

section
variable {E P : Nat → Prop} {d : Dev}

theorem hal_lock_confined (d : Dev) : Confined E P d (hal_lock d).2 := .idle 0 (.done _)

theorem locked_confined {d' : Dev} {done : Bool} (confined : Confined E P d d') :
    Confined E P d (locked (done, d')).2 := confined.trans (hal_lock_confined d')

/-- The sectors that reach into `[addr, stop)`. -/
def sectors_hit (addr stop : Nat) : List (Nat × Nat) :=
  f4_sector_tab.filter fun s => ¬ (s.1 + s.2 ≤ addr ∨ s.1 ≥ stop)

/-- Erases the given sectors one after the other, until one fails. -/
def erase_each : List (Nat × Nat) → Dev → Bool × Dev
  | [], d => (true, d)
  | (s_addr, size) :: rest, d =>
    match d.erase s_addr size with
    | (true, d) => erase_each rest d
    | (false, d) => (false, d)

theorem erase_sectors_eq (addr stop : Nat) (sectors : List (Nat × Nat)) (d : Dev) :
    erase_sectors addr stop sectors d =
      erase_each (sectors.filter fun s => ¬ (s.1 + s.2 ≤ addr ∨ s.1 ≥ stop)) d := by
  induction sectors generalizing d with
  | nil => rfl
  | cons sector rest ih =>
    obtain ⟨s_addr, size⟩ := sector
    simp only [erase_sectors, ih]
    split_ifs with apart
    · rw [List.filter_cons_of_neg (by simp [apart])]
    · rw [List.filter_cons_of_pos (by simp only [apart, not_false_eq_true, decide_true])]
      rfl

/-- An erase that succeeds has erased every sector that reaches into its range. -/
theorem intflash_erase_sectors {addr len : Nat} {d : Dev} (some_ : 0 < len)
    (done : (intflash_erase addr len d).1 = true) :
    ∃ d', erase_each (sectors_hit addr ((addr + round_4k len) % 2^32)) (hal_lock d).2 = (true, d') ∧
      (intflash_erase addr len d).2 = (hal_lock d').2 := by
  unfold intflash_erase at done ⊢
  split_ifs at done ⊢ with empty outside
  · omega
  · split at done <;> rename_i unlocked
    · simp at done
    · rename_i d₁
      have erased_ : (erase_sectors addr ((addr + round_4k len) % 2^32) f4_sector_tab d₁).1 = true := by
        simp only [locked, Bool.and_eq_true] at done
        exact done.1
      rw [erase_sectors_eq] at erased_
      rw [unlocked]
      refine ⟨(erase_each (sectors_hit addr ((addr + round_4k len) % 2^32)) d₁).2, Prod.ext erased_ rfl, ?_⟩
      simp only [locked]
      rw [erase_sectors_eq]
      rfl

/-- An erase touches the sectors that reach into its range, and nothing else. -/
theorem erase_sectors_confined {addr stop : Nat} (sectors : List (Nat × Nat)) (d : Dev)
    (inside : ∀ s ∈ sectors, ¬ (s.1 + s.2 ≤ addr ∨ s.1 ≥ stop) → ∀ a, Range s.1 s.2 a → E a) :
    Confined E P d (erase_sectors addr stop sectors d).2 := by
  induction sectors generalizing d with
  | nil => exact .done d
  | cons sector rest ih =>
    obtain ⟨s_addr, size⟩ := sector
    have others (d : Dev) := ih d fun s member => inside s (List.mem_cons_of_mem _ member)
    simp only [erase_sectors]
    split_ifs with apart
    · exact others d
    · have here := inside (s_addr, size) List.mem_cons_self apart
      split <;> rename_i erased_
      · refine .erase s_addr size here ?_
        rw [erased_]
        exact others _
      · refine .erase s_addr size here ?_
        rw [erased_]
        exact .done _

theorem intflash_erase_confined {addr len : Nat} (d : Dev)
    (inside : ∀ s ∈ sectors_hit addr ((addr + round_4k len) % 2^32), ∀ a, Range s.1 s.2 a → E a) :
    Confined E P d (intflash_erase addr len d).2 := by
  unfold intflash_erase
  split_ifs
  · exact .done d
  · exact .done d
  · have lock := @hal_lock_confined E P d
    split <;> rename_i unlocked <;> rw [unlocked] at lock
    · exact lock
    · refine lock.trans (locked_confined (erase_sectors_confined f4_sector_tab _ ?_))
      intro s member hit
      exact inside s (List.mem_filter.mpr ⟨member, decide_eq_true hit⟩)

private theorem program_loop_confined (addr : Nat) (buf : List UInt8) (d : Dev) (unwrapped : addr + buf.length < 2^32) :
    Confined E (Range addr buf.length) d (program_loop addr buf d).2 := by
  fun_induction program_loop addr buf d with
  | case1 addr d => exact .done d
  | case2 addr buf d more d' programmed_ ih =>
    have fits := @unit_size_le addr buf more
    have next : (addr + unit_size addr buf) % 2^32 = addr + unit_size addr buf := Nat.mod_eq_of_lt (by omega)
    rw [next] at ih ⊢
    refine .program addr (buf.take (unit_size addr buf)) ?_ ?_
    · intro a within
      simp only [Range, List.length_take] at within ⊢
      omega
    · rw [programmed_]
      refine (ih (by rw [List.length_drop]; omega)).mono (fun _ erase => erase) ?_
      intro a within
      simp only [Range, List.length_drop] at within ⊢
      omega
  | case3 addr buf d more d' failed =>
    refine .program addr (buf.take (unit_size addr buf)) ?_ ?_
    · intro a within
      simp only [Range, List.length_take] at within ⊢
      omega
    · rw [failed]
      exact .done d'

theorem intflash_write_confined (addr : Nat) (buf : List UInt8) (d : Dev) (unwrapped : addr + buf.length < 2^32) :
    Confined E (Range addr buf.length) d (intflash_write addr buf d).2 := by
  have lock := @hal_lock_confined E (Range addr buf.length) d
  unfold intflash_write
  split <;> rename_i unlocked <;> rw [unlocked] at lock
  · exact lock
  · exact lock.trans (locked_confined (program_loop_confined addr buf _ unwrapped))

end

/-- The addresses of slot0. -/
def Slot0 : Nat → Prop := Range SLOT0_ADDR SLOT0_SIZE

/-- A session that is open has room in slot0 for all of its image. -/
structure Within (b : Boot) : Prop where
  written : b.active = true → b.written ≤ b.total
  total : b.active = true → b.total ≤ SLOT0_SIZE

theorem within_closed {b : Boot} (closed : b.active = false) : Within b where
  written := by simp [closed]
  total := by simp [closed]

/-- The sectors that reach into a range from slot0's first address on are slot0's. -/
theorem sectors_hit_slot0 (stop : Nat) : ∀ s ∈ sectors_hit SLOT0_ADDR stop, ∀ a, Range s.1 s.2 a → Slot0 a := by
  intro s member a within
  obtain ⟨listed, hit⟩ := List.mem_filter.mp member
  have reach : ¬ (s.1 + s.2 ≤ SLOT0_ADDR ∨ s.1 ≥ stop) := of_decide_eq_true hit
  unfold SLOT0_ADDR at reach
  unfold Range at within
  unfold Slot0 Range SLOT0_ADDR SLOT0_SIZE
  simp only [f4_sector_tab, List.mem_cons, List.not_mem_nil, or_false] at listed
  rcases listed with rfl | rfl | rfl | rfl | rfl | rfl | rfl | rfl <;> simp only at reach within <;> omega

/-- Those that an erase for an image hits cover the image. -/
theorem sectors_hit_cover {size : Nat} (fits : size ≤ SLOT0_SIZE) {a : Nat} (within : Range SLOT0_ADDR size a) :
    ∃ s ∈ sectors_hit SLOT0_ADDR ((SLOT0_ADDR + round_4k (round_4k size)) % 2^32), Range s.1 s.2 a := by
  have small : size ≤ 0x70000 := fits
  unfold Range SLOT0_ADDR at within
  have low : 0x08000000 ≤ a := by omega
  have high : a < 0x08080000 := by omega
  obtain ⟨s, listed, inside⟩ := sector_of low high
  refine ⟨s, List.mem_filter.mpr ⟨listed, decide_eq_true ?_⟩, inside⟩
  unfold round_4k SLOT0_ADDR
  omega

section
variable {version fw_keyhash : List UInt8}

theorem start_reply_confined {foreign : Bool} {arg : Nat} {b : Boot} (inv : Within b) :
    Within (start_reply foreign arg b).2 ∧ Confined Slot0 Slot0 b.dev (start_reply foreign arg b).2.dev := by
  unfold start_reply
  split_ifs with key size
  · exact ⟨inv, .done _⟩
  · exact ⟨inv, .done _⟩
  · have fits : arg ≤ SLOT0_SIZE := by omega
    have erasing := @intflash_erase_confined Slot0 Slot0 SLOT0_ADDR (round_4k arg) b.dev (sectors_hit_slot0 _)
    split <;> rename_i erased_ <;> rw [erased_] at erasing
    · exact ⟨⟨inv.written, inv.total⟩, erasing⟩
    · exact ⟨⟨fun _ => Nat.zero_le arg, fun _ => fits⟩, erasing⟩

theorem confirm_confined {b : Boot} (inv : Within b) : Within (confirm b).2 ∧ (confirm b).2.dev = b.dev := by
  unfold confirm
  split_ifs
  · exact ⟨inv, rfl⟩
  · exact ⟨within_closed rfl, rfl⟩
  · exact ⟨within_closed rfl, rfl⟩

theorem handle_cmd_confined {data : List UInt8} {b : Boot} (inv : Within b) :
    Within (handle_cmd version fw_keyhash data b).2 ∧
      Confined Slot0 Slot0 b.dev (handle_cmd version fw_keyhash data b).2.dev := by
  unfold handle_cmd
  split_ifs
  · exact ⟨inv, .done _⟩
  · exact @start_reply_confined _ _ { b with keys := (offered b.keys).2 } ⟨inv.written, inv.total⟩
  · obtain ⟨within, same⟩ := confirm_confined inv
    rw [same]
    exact ⟨within, .done _⟩
  · exact ⟨inv, .done _⟩
  · exact ⟨⟨inv.written, inv.total⟩, .done _⟩
  · exact ⟨inv, .done _⟩

theorem handle_data_confined {data : List UInt8} {b : Boot} (inv : Within b) :
    Within (handle_data data b).2 ∧ Confined Slot0 Slot0 b.dev (handle_data data b).2.dev := by
  unfold handle_data
  split_ifs with closed bad
  · exact ⟨inv, .done _⟩
  · exact ⟨within_closed rfl, .done _⟩
  · have active : b.active = true := by simpa using closed
    have total := inv.total active
    have writing : Confined Slot0 Slot0 b.dev (intflash_write (SLOT0_ADDR + b.written) data b.dev).2 := by
      have unwrapped : SLOT0_ADDR + b.written + data.length < 2^32 := by
        unfold SLOT0_SIZE at total
        unfold SLOT0_ADDR
        omega
      refine (intflash_write_confined (SLOT0_ADDR + b.written) data b.dev unwrapped).mono (fun _ erase => erase) ?_
      intro a within
      unfold Range at within
      unfold Slot0 Range
      omega
    split <;> rename_i wrote <;> rw [wrote] at writing
    · exact ⟨within_closed rfl, writing⟩
    · exact ⟨⟨fun _ => by simp only; omega, fun _ => total⟩, writing⟩

/-- What one frame does to the flash, whatever it is. -/
theorem handle_frame_confined (m : Frame) {b : Boot} (inv : Within b) :
    Within (handle_frame version fw_keyhash m b).2 ∧
      Confined Slot0 Slot0 b.dev (handle_frame version fw_keyhash m b).2.dev := by
  unfold handle_frame
  split_ifs
  · exact handle_cmd_confined inv
  · exact ⟨inv, .done _⟩
  · exact handle_data_confined inv
  · exact ⟨⟨inv.written, inv.total⟩, .done _⟩
  · exact ⟨inv, .done _⟩
  · exact ⟨inv, .done _⟩

/-- The boot loader after the given frames, from the zeroed session. -/
def run (version fw_keyhash : List UInt8) (dev : Dev) (frames : List Frame) : Boot :=
  frames.foldl (fun b m => (handle_frame version fw_keyhash m b).2) { dev }

theorem run_confined (version fw_keyhash : List UInt8) (dev : Dev) (frames : List Frame) :
    Within (run version fw_keyhash dev frames) ∧ Confined Slot0 Slot0 dev (run version fw_keyhash dev frames).dev := by
  refine @Machine.invariant _ _ (fun b m => (handle_frame version fw_keyhash m b).2) (fun _ _ => True)
    (fun b => Within b ∧ Confined Slot0 Slot0 dev b.dev) ?_ _ ⟨within_closed rfl, .done _⟩ _
    (Machine.meets_of_all fun _ _ _ => trivial)
  rintro b m ⟨inv, confined⟩ -
  obtain ⟨inv', step⟩ := handle_frame_confined m inv
  exact ⟨inv', confined.trans step⟩

theorem start_reply_erases {foreign : Bool} {arg : Nat} {b : Boot}
    (accepted : (start_reply foreign arg b).1 = fw_reply FW_CODE_OFFSET 0) :
    Accepts foreign arg b.dev ∧
      (start_reply foreign arg b).2.dev = (intflash_erase SLOT0_ADDR (round_4k arg) b.dev).2 := by
  have accepts : Accepts foreign arg b.dev := by
    by_contra refused
    exact (start_reply_refused refused).1 accepted
  refine ⟨accepts, ?_⟩
  obtain ⟨own, low, high, _⟩ := accepts
  rw [start_reply, own, if_neg (by decide), if_neg (by omega)]
  split <;> rename_i erased_
  · exact (congrArg Prod.snd erased_).symm
  · exact (congrArg Prod.snd erased_).symm

theorem handle_frame_isStart {m : Frame} (b : Boot) (start_ : isStart m = true) :
    handle_frame version fw_keyhash m b = start fw_keyhash (argument m.data) b := by
  obtain ⟨id, length, cmd⟩ : m.id = CAN_ID_CMD ∧ m.data.length = 8 ∧ command m.data = FW_CMD_START := by
    simpa [isStart] using start_
  rw [handle_frame, if_pos id, if_pos (by omega), handle_cmd, if_neg (by omega), if_pos cmd]

/-- A START that is answered with offset 0 was accepted. -/
theorem start_accepts {m : Frame} {b : Boot} (start_ : isStart m = true)
    (accepted : fw_reply FW_CODE_OFFSET 0 ∈ (handle_frame version fw_keyhash m b).1) :
    Accepts (foreign_key fw_keyhash b.keys) (argument m.data) b.dev ∧
      (handle_frame version fw_keyhash m b).2.dev =
        (intflash_erase SLOT0_ADDR (round_4k (argument m.data)) b.dev).2 := by
  rw [handle_frame_isStart b start_] at accepted ⊢
  rcases List.mem_cons.mp accepted with same | rest
  · exact absurd (congrArg Frame.id same) (by decide)
  · exact start_reply_erases (List.mem_singleton.mp rest).symm

/-- Whatever frames arrive, only slot0 is erased and programmed, and a START that is accepted has
    erased sectors that cover its image. -/
theorem frames_confined (version fw_keyhash : List UInt8) (dev : Dev) (frames : List Frame) :
    let b := run version fw_keyhash dev frames
    Confined Slot0 Slot0 dev b.dev ∧
    (∀ a, ¬ Slot0 a → b.dev.mem a = dev.mem a) ∧
    ∀ m, isStart m = true → fw_reply FW_CODE_OFFSET 0 ∈ (handle_frame version fw_keyhash m b).1 →
      ∃ sectors d', erase_each sectors (hal_lock b.dev).2 = (true, d') ∧
        (handle_frame version fw_keyhash m b).2.dev = (hal_lock d').2 ∧
        ∀ a, Range SLOT0_ADDR (argument m.data) a → ∃ s ∈ sectors, Range s.1 s.2 a := by
  intro b
  obtain ⟨_, confined⟩ := run_confined version fw_keyhash dev frames
  refine ⟨confined, fun a outside => confined.outside outside outside, fun m start_ accepted => ?_⟩
  obtain ⟨⟨_, low, high, done⟩, result⟩ := start_accepts start_ accepted
  have some_ : 0 < round_4k (argument m.data) := by
    unfold SLOT0_SIZE at high
    unfold round_4k
    omega
  obtain ⟨d', erased_, dev_⟩ := intflash_erase_sectors some_ done
  exact ⟨_, d', erased_, result.trans dev_, fun a within => sectors_hit_cover high within⟩

end

/-- A START for 1 KB over flash full of zeros. -/
theorem frames_confined_start :
    let b := run [] [] { mem := fun _ => 0 } []
    ∃ sectors d', erase_each sectors (hal_lock b.dev).2 = (true, d') ∧
      (handle_frame [] [] (startFrame 1024) b).2.dev = (hal_lock d').2 ∧
      ∀ a, Range SLOT0_ADDR (argument (startFrame 1024).data) a → ∃ s ∈ sectors, Range s.1 s.2 a :=
  (frames_confined [] [] { mem := fun _ => 0 } []).2.2 (startFrame 1024) (by decide) (by decide)

end IoEdgeHub.BootConfined
