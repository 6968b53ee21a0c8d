import IoEdgeHub.Paging

/-!
The components that share the NOR flash: the upgrade core, the configuration store and the port
of littlefs. Whatever calls they make, in any order and on a chip with any faults, each of them
erases and programs addresses of its own partition only.
-/
namespace IoEdgeHub.Partitions
open IoEdgeHub.Nor IoEdgeHub.W25qxx IoEdgeHub.Confinement IoEdgeHub.FwUpg IoEdgeHub.ConfigStore IoEdgeHub.LfsPort
open IoEdgeHub.Paging (FwCall issued handed issue issue_confined cut_pages run_issued run_aligned w25_erase_confined
  w25_read_confined write_pages_issue page_loop_issue)

def STORAGE_SIZE : Nat := 0x00010000

inductive Component | upgrade | config | lfs
deriving DecidableEq

/-- The two slots of the configuration store. -/
def Slots : Nat → Prop := fun a => Range CFG_SLOT_A CFG_SLOT_SIZE a ∨ Range CFG_SLOT_B CFG_SLOT_SIZE a

/-- The addresses that are a component's own. -/
def Component.area : Component → Nat → Prop
  | .upgrade => Range SLOT1_OFFSET SLOT1_SIZE
  | .config => Slots
  | .lfs => Range LFS_OFFSET LFS_SIZE

theorem slots_storage {a : Nat} (slot : Slots a) : Range STORAGE_OFFSET STORAGE_SIZE a := by
  unfold Slots Range CFG_SLOT_B CFG_SLOT_A CFG_SLOT_SIZE at slot
  unfold Range STORAGE_SIZE
  omega

theorem area_disjoint {p q : Component} (other : p ≠ q) {a : Nat} (inside : p.area a) : ¬ q.area a := by
  cases p <;> cases q <;> first
    | exact absurd rfl other
    | (simp only [Component.area, Slots, Range, CFG_SLOT_B, CFG_SLOT_A, CFG_SLOT_SIZE, STORAGE_OFFSET, SLOT1_OFFSET,
        SLOT1_SIZE, LFS_OFFSET, LFS_SIZE] at inside ⊢
       omega)

/-- The chip, and what the components keep in memory. -/
structure Chip where
  s : Session := Session.zero
  ram : Ram := Ram.zero
  dev : Dev

/-- A call of one of the components, with data for the upgrade core of less than 2^31 bytes. -/
inductive Call
  | upgrade (c : FwCall) (short : ∀ data, c = .write data → data.length < 2^31)
  | config_store_init
  | config_store_save (cfg : IoCfg)
  | config_store_erase_all
  | lf_prog (block off : Nat) (buffer : List UInt8)
  | lf_read (block off size : Nat)
  | lf_erase (block : Nat)

def Call.component : Call → Component
  | .upgrade _ _ => .upgrade
  | .config_store_init | .config_store_save _ | .config_store_erase_all => .config
  | .lf_prog _ _ _ | .lf_read _ _ _ | .lf_erase _ => .lfs

/-- A call, or a restart with new faults ahead. -/
inductive Event
  | call (c : Call)
  | restart (fates : List Fate)

section
variable (fw_keyhash : List UInt8)

def perform (h : Chip) : Call → Chip
  | .upgrade c _ => { h with s := (c.run fw_keyhash ⟨h.s, h.dev⟩).s, dev := (c.run fw_keyhash ⟨h.s, h.dev⟩).dev }
  | .config_store_init =>
    { h with ram := (config_store_init ⟨h.ram, h.dev⟩).2.ram, dev := (config_store_init ⟨h.ram, h.dev⟩).2.dev }
  | .config_store_save cfg =>
    { h with ram := (config_store_save cfg ⟨h.ram, h.dev⟩).2.ram, dev := (config_store_save cfg ⟨h.ram, h.dev⟩).2.dev }
  | .config_store_erase_all =>
    { h with ram := (config_store_erase_all ⟨h.ram, h.dev⟩).ram, dev := (config_store_erase_all ⟨h.ram, h.dev⟩).dev }
  | .lf_prog block off buffer => { h with dev := (lf_prog block off buffer h.dev).2 }
  | .lf_read block off size => { h with dev := (lf_read block off size h.dev).2 }
  | .lf_erase block => { h with dev := (lf_erase block h.dev).2 }

def step (h : Chip) : Event → Chip
  | .call c => perform fw_keyhash h c
  | .restart fates => { dev := { mem := h.dev.mem, fates } }

end

/-- What a call may program: its component's area, and of slot1 only what its session was opened for. -/
def programs (h : Chip) : Call → Nat → Prop
  | .upgrade _ _ => fun a => h.s.active = true ∧ Range SLOT1_OFFSET h.s.total a
  | c => c.component.area

/-- An open session has not received more than it was opened for, and that fits slot1. -/
structure Fits (s : Session) : Prop where
  aligned : s.written % 256 = 0
  received : s.active = true → s.written + s.page.length ≤ s.total
  size : s.active = true → s.total ≤ SLOT1_SIZE

section
variable {fw_keyhash : List UInt8} {u : Upg} {c : FwCall}

theorem fits_closed {s : Session} (aligned : s.written % 256 = 0) (closed : s.active = false) : Fits s :=
  ⟨aligned, by simp [closed], by simp [closed]⟩

theorem run_fits (fits : Fits u.s) (short : ∀ data, c = .write data → data.length < 2^31) :
    Fits (c.run fw_keyhash u).s := by
  have aligned := @run_aligned fw_keyhash u c fits.aligned
  cases c with
  | start total keyhash =>
    by_cases done : (fw_upg_start fw_keyhash total keyhash u).1 = 0
    · have accepted := (fw_upg_start_accepted done).1
      have received := accepted.received
      exact ⟨aligned, fun _ => received.le.trans accepted.fits, fun _ => accepted.size⟩
    · rw [FwCall.run, Paging.start_kept done]
      exact fits
  | write data =>
    by_cases active : u.s.active = true
    · obtain ⟨total, same, received⟩ :=
        fw_upg_write_received data (short data rfl) u (fits.size active) (fits.received active)
      refine ⟨aligned, fun _ => ?_, fun _ => ?_⟩
      · rw [FwCall.run, total]
        exact received
      · rw [FwCall.run, total]
        exact fits.size active
    · rw [FwCall.run, fw_upg_write_idle (eq_false_of_ne_true active)]
      exact fits
  | finish crc check_crc => exact fits_closed aligned (fw_upg_finish_ex_closed fw_keyhash crc check_crc u)
  | abort => exact fits_closed aligned rfl

/-- What a call hands to the flash lies in the part of slot1 that the session was opened for. -/
theorem handed_inside (fits : Fits u.s) (short : ∀ data, c = .write data → data.length < 2^31) {a : Nat}
    (within : Range (SLOT1_OFFSET + u.s.written) (handed c u).length a) :
    u.s.active = true ∧ Range SLOT1_OFFSET u.s.total a := by
  unfold Range at within ⊢
  cases c with
  | start total keyhash =>
    simp only [handed, List.length_nil] at within
    omega
  | write data =>
    simp only [handed] at within
    split_ifs at within with taken
    · have received := fits.received taken.1
      have size := fits.size taken.1
      have bound := taken.2.2
      have small := short data rfl
      unfold SLOT1_SIZE at size
      rw [Nat.mod_eq_of_lt (by omega)] at bound
      simp only [Paging.stream, List.length_take, List.length_append] at within
      exact ⟨taken.1, by omega⟩
    · simp only [List.length_nil] at within
      omega
  | finish crc check_crc =>
    simp only [handed] at within
    split_ifs at within with open_
    · have received := fits.received open_.1
      exact ⟨open_.1, by omega⟩
    · simp only [List.length_nil] at within
      omega
  | abort =>
    simp only [handed, List.length_nil] at within
    omega

theorem upgrade_confined (fits : Fits u.s) (short : ∀ data, c = .write data → data.length < 2^31) :
    Confined (Range SLOT1_OFFSET SLOT1_SIZE) (fun a => u.s.active = true ∧ Range SLOT1_OFFSET u.s.total a) u.dev
      (c.run fw_keyhash u).dev := by
  have writing : Confined (Range SLOT1_OFFSET SLOT1_SIZE) _ u.dev (issue (issued c u) u.dev).2 :=
    issue_confined (cut_pages (SLOT1_OFFSET + u.s.written) (handed c u)) u.dev
  have rest := @run_issued fw_keyhash u c fits.aligned
  exact (writing.mono (fun _ erase => erase) fun a within => handed_inside fits short within).trans
    (rest.mono (fun _ erase => erase) fun a none_ => none_.elim)

end

section
variable {d : Dev} {store : Store}

theorem write_pages_confined {E P : Nat → Prop} {addr : Nat} {buf : List UInt8}
    (inside : ∀ a, Range addr buf.length a → P a) : Confined E P d (write_pages addr buf d).2 := by
  rw [write_pages_issue]
  exact (issue_confined (cut_pages addr buf) d).mono (fun _ erase => erase) inside

theorem save_record_confined {tgt : Nat} {bytes : List UInt8} (size : bytes.length = CFG_REC_LEN) :
    Confined (Range tgt CFG_SLOT_SIZE) (Range tgt CFG_SLOT_SIZE) d (save_record tgt bytes d).2 := by
  have part {P : Nat → Prop} {off : Nat} {buf : List UInt8} (d : Dev) (fits : off + buf.length ≤ CFG_REC_LEN) :
      Confined P (Range tgt CFG_SLOT_SIZE) d (write_pages (tgt + off) buf d).2 := by
    refine write_pages_confined fun a within => ?_
    unfold CFG_REC_LEN at fits
    unfold Range CFG_SLOT_SIZE at *
    omega
  have erasing : Confined (Range tgt CFG_SLOT_SIZE) (Range tgt CFG_SLOT_SIZE) d (w25_erase tgt CFG_SLOT_SIZE d).2 :=
    w25_erase_confined _ _ _
  unfold save_record
  split <;> rename_i d₁ erased_ <;> rw [erased_] at erasing
  · exact erasing
  · have header := @part (Range tgt CFG_SLOT_SIZE) 0 (bytes.take CFG_HDR_LEN) d₁
      (by rw [List.length_take, size]; decide)
    rw [Nat.add_zero] at header
    split <;> rename_i d₂ wrote <;> rw [wrote] at header
    · exact erasing.trans header
    · have body := @part (Range tgt CFG_SLOT_SIZE) CFG_HDR_LEN ((bytes.drop CFG_HDR_LEN).take CFG_BODY_LEN) d₂
        (by rw [List.length_take, List.length_drop, size]; decide)
      split <;> rename_i d₃ wrote <;> rw [wrote] at body
      · exact (erasing.trans header).trans body
      · have sum := @part (Range tgt CFG_SLOT_SIZE) CFG_CRC_OFF (bytes.drop CFG_CRC_OFF) d₃
          (by rw [List.length_drop, size]; decide)
        exact ((erasing.trans header).trans body).trans sum

theorem save_confined (cfg : IoCfg) : Confined Slots Slots store.dev (config_store_save cfg store).2.dev := by
  have target : ∀ a, Range (saveTarget store.ram) CFG_SLOT_SIZE a → Slots a := by
    intro a within
    unfold saveTarget at within
    split_ifs at within
    · exact .inr within
    · exact .inl within
  have saving := (@save_record_confined store.dev (saveTarget store.ram) (record cfg (saveGen store.ram))
    (record_length _ _)).mono target target
  unfold config_store_save
  split_ifs
  · exact .done _
  · split <;> rename_i saved <;> rw [saved] at saving <;> exact saving

theorem erase_all_confined : Confined Slots Slots store.dev (config_store_erase_all store).dev := by
  have first : Confined Slots Slots store.dev (w25_erase CFG_SLOT_A CFG_SLOT_SIZE store.dev).2 :=
    (w25_erase_confined _ _ _).mono (fun _ within => .inl within) fun _ program => program
  simp only [config_store_erase_all]
  split_ifs
  · refine first.trans ?_
    exact (w25_erase_confined _ _ _).mono (fun _ within => .inr within) fun _ program => program
  · exact .done _

theorem slot_read_confined {E P : Nat → Prop} (addr : Nat) (d : Dev) : Confined E P d (slot_read addr d).2 := by
  have reading : Confined E P d (w25_read addr CFG_REC_LEN d).2 := w25_read_confined _ _ _
  unfold slot_read
  split <;> rename_i read <;> rw [read] at reading
  · exact reading
  · split <;> exact reading

theorem init_confined {E P : Nat → Prop} : Confined E P store.dev (config_store_init store).2.dev := by
  have reading : Confined E P store.dev (slot_read CFG_SLOT_B (slot_read CFG_SLOT_A store.dev).2).2 :=
    (slot_read_confined CFG_SLOT_A store.dev).trans (slot_read_confined CFG_SLOT_B _)
  simp only [config_store_init]
  split_ifs <;> exact reading

end

section
variable {d : Dev}

theorem lf_prog_confined {E : Nat → Prop} (block off : Nat) (buffer : List UInt8) :
    Confined E (Range LFS_OFFSET LFS_SIZE) d (lf_prog block off buffer d).2 := by
  by_cases inside : InBlock block off buffer.length
  · obtain ⟨_, low, high⟩ := block_addr_eq inside
    rw [lf_prog, if_pos inside, page_loop_issue (by unfold W25Q_CHIP_SIZE at high; omega)]
    refine (issue_confined (cut_pages _ _) d).mono (fun _ erase => erase) fun a within => ?_
    unfold Range LFS_SIZE LFS_OFFSET W25Q_CHIP_SIZE at *
    omega
  · rw [lf_prog, if_neg inside]
    exact .done d

theorem lf_erase_confined {P : Nat → Prop} (block : Nat) :
    Confined (Range LFS_OFFSET LFS_SIZE) P d (lf_erase block d).2 := by
  unfold lf_erase
  split_ifs with outside
  · exact .done d
  · have inside : InBlock block 0 PORT_BLOCK_SIZE := by
      unfold InBlock
      omega
    obtain ⟨_, low, high⟩ := block_addr_eq inside
    refine (w25_erase_confined _ _ d).mono (fun a within => ?_) fun _ program => program
    unfold Range LFS_SIZE LFS_OFFSET W25Q_CHIP_SIZE at *
    omega

theorem lf_read_confined {E P : Nat → Prop} (block off size : Nat) : Confined E P d (lf_read block off size d).2 := by
  unfold lf_read
  split_ifs
  · exact w25_read_confined _ _ d
  · exact .done d

end

section
variable {fw_keyhash : List UInt8} {h : Chip}

theorem perform_confined (c : Call) (fits : Fits h.s) :
    Confined c.component.area (programs h c) h.dev (perform fw_keyhash h c).dev := by
  cases c with
  | upgrade c short => exact @upgrade_confined fw_keyhash ⟨h.s, h.dev⟩ c fits short
  | config_store_init => exact @init_confined ⟨h.ram, h.dev⟩ _ _
  | config_store_save cfg => exact @save_confined ⟨h.ram, h.dev⟩ cfg
  | config_store_erase_all => exact @erase_all_confined ⟨h.ram, h.dev⟩
  | lf_prog block off buffer => exact lf_prog_confined block off buffer
  | lf_read block off size => exact lf_read_confined block off size
  | lf_erase block => exact lf_erase_confined block

theorem step_fits (e : Event) (fits : Fits h.s) : Fits (step fw_keyhash h e).s := by
  cases e with
  | call c =>
    cases c with
    | upgrade c short => exact @run_fits fw_keyhash ⟨h.s, h.dev⟩ c fits short
    | _ => exact fits
  | restart fates => exact fits_closed rfl rfl

theorem run_fits_chip (dev : Dev) (events : List Event) : Fits (events.foldl (step fw_keyhash) { dev }).s :=
  @Machine.invariant _ _ (step fw_keyhash) (fun _ _ => True) (fun h => Fits h.s) (fun _ e fits _ => step_fits e fits) _
    (fits_closed rfl rfl) _ (Machine.meets_of_all fun _ _ _ => trivial)

theorem programs_area (c : Call) (fits : Fits h.s) {a : Nat} (inside : programs h c a) : c.component.area a := by
  cases c with
  | upgrade c short =>
    obtain ⟨active, within⟩ := inside
    have size := fits.size active
    simp only [Call.component, Component.area, Range] at within ⊢
    omega
  | _ => exact inside

/-- In every run of the components over one chip, whatever becomes of its operations, each call erases
    and programs addresses of its own component only, an upgrade session programs nothing behind its
    image, and what belongs to the others is left as it is. -/
theorem partitions_isolated (dev : Dev) (events : List Event) (c : Call) :
    let h := events.foldl (step fw_keyhash) { dev }
    let h' := step fw_keyhash h (.call c)
    Confined c.component.area (programs h c) h.dev h'.dev ∧ (∀ a, programs h c a → c.component.area a) ∧
      (∀ a, Component.config.area a → Range STORAGE_OFFSET STORAGE_SIZE a) ∧
      ∀ p, p ≠ c.component → ∀ a, p.area a → h'.dev.mem a = h.dev.mem a := by
  intro h h'
  have fits : Fits h.s := run_fits_chip dev events
  have confined := @perform_confined fw_keyhash h c fits
  refine ⟨confined, fun a inside => programs_area c fits inside, fun a slot => slots_storage slot, ?_⟩
  intro p other a own
  have outside := area_disjoint other own
  exact confined.outside outside fun inside => outside (programs_area c fits inside)

end

end IoEdgeHub.Partitions
