import IoEdgeHub.Calls
import IoEdgeHub.FwUpg

/-!
Where the search for the key hash of an image reads (`tlv_keyhash_get` of `fw/fw_upg.c`).
Here the function makes its reads as calls, its sums wrap at 32 bits and its loop has
fuel, so that a run shows every range that is asked for and that the loop comes to an
end. On flash that works the run is the one of `FwUpg.tlv_keyhash_get`.

The header of an entry is checked against the end of the TLV area, the 32 bytes behind it
are not, and the check of the area's own offset wraps. `Contained` says of the flash
when neither matters.
-/
namespace IoEdgeHub.TlvScan
open IoEdgeHub.Nor IoEdgeHub.W25qxx IoEdgeHub.Bytes IoEdgeHub.Calls
open IoEdgeHub.FwUpg (FW_KEYHASH_LEN)

/-- The buffers of the source that are read into. -/
inductive Buffer
  | hdr | info | ent | out
  deriving DecidableEq

/-- One read: the buffer, and the range that is asked for. -/
structure Access where
  into : Buffer
  addr : Nat
  len : Nat
  deriving DecidableEq

inductive Read : Type → Type
  | read (a : Access) : Read (Option (List UInt8))

/-- A read of the flash, with a list of what was asked for. -/
def exec : {β : Type} → Read β → Dev × List Access → β × Dev × List Access
  | _, .read a, (d, log) => ((w25_read a.addr a.len d).1, (w25_read a.addr a.len d).2, log ++ [a])

/-- The `for` loop over the entries. Nothing is returned when the fuel runs out. -/
def scan_loop : Nat → Nat → Nat → Prog Read (Option (Option (List UInt8)))
  | 0, _, _ => pure none
  | fuel + 1, off, tlv_end =>
    if (off + 4) % 2^32 ≤ tlv_end then do
      match ← Prog.once (.read ⟨.ent, (SLOT1_OFFSET + off) % 2^32, 4⟩) with
      | none => pure (some none)
      | some ent =>
        if get_le16 ent = 0x0001 ∧ get_le16 (ent.drop 2) = FW_KEYHASH_LEN then do
          let out ← Prog.once (.read ⟨.out, (SLOT1_OFFSET + off + 4) % 2^32, FW_KEYHASH_LEN⟩)
          pure (some out)
        else scan_loop fuel ((off + (4 + (get_le16 (ent.drop 2) + 3) / 4 * 4)) % 2^32) tlv_end
    else pure (some none)

/-- The TLV area at `tlv_off`. -/
def tlv_area (fuel tlv_off : Nat) : Prog Read (Option (Option (List UInt8))) :=
  if (tlv_off + 4) % 2^32 > SLOT1_SIZE ∨ tlv_off % 4 ≠ 0 then pure (some none)
  else do
    match ← Prog.once (.read ⟨.info, (SLOT1_OFFSET + tlv_off) % 2^32, 4⟩) with
    | none => pure (some none)
    | some info =>
      if get_le16 info ≠ 0x6907 ∨ get_le16 (info.drop 2) = 0 ∨
          (tlv_off + get_le16 (info.drop 2)) % 2^32 > SLOT1_SIZE then pure (some none)
      else scan_loop fuel ((tlv_off + 4) % 2^32) ((tlv_off + get_le16 (info.drop 2)) % 2^32)

def tlv_keyhash_get (fuel : Nat) : Prog Read (Option (Option (List UInt8))) := do
  match ← Prog.once (.read ⟨.hdr, SLOT1_OFFSET, 32⟩) with
  | none => pure (some none)
  | some hdr =>
    if io_get_le32 hdr ≠ 0x96F3B83D then pure (some none)
    else if get_le16 (hdr.drop 8) ≠ IMG_HDR_SIZE then pure (some none)
    else tlv_area fuel ((get_le16 (hdr.drop 8) + io_get_le32 (hdr.drop 12)) % 2^32)

section
variable (m : Mem)

/-- The two fields of a TLV header at an offset of slot1. -/
def tag (off : Nat) : Nat := get_le16 (bytesAt m (SLOT1_OFFSET + off) 4)

def size (off : Nat) : Nat := get_le16 ((bytesAt m (SLOT1_OFFSET + off) 4).drop 2)

/-- The header of an entry with a key hash. -/
def IsKeyhash (off : Nat) : Prop := tag m off = 0x0001 ∧ size m off = FW_KEYHASH_LEN

instance (off : Nat) : Decidable (IsKeyhash m off) := inferInstanceAs (Decidable (_ ∧ _))

/-- Where the entry behind the one at `off` begins. -/
def next (off : Nat) : Nat := off + (4 + (size m off + 3) / 4 * 4)

def header : List UInt8 := bytesAt m SLOT1_OFFSET 32

/-- The header is the one of an image. -/
def Image : Prop := io_get_le32 (header m) = 0x96F3B83D ∧ get_le16 ((header m).drop 8) = IMG_HDR_SIZE

def tlv_off : Nat := (get_le16 ((header m).drop 8) + io_get_le32 ((header m).drop 12)) % 2^32

def tlv_size : Nat := size m (tlv_off m)

/-- The TLV area that the image announces lies in slot1. -/
structure Area : Prop where
  image : Image m
  aligned : tlv_off m % 4 = 0
  magic : tag m (tlv_off m) = 0x6907
  some_ : tlv_size m ≠ 0
  low : tlv_off m + 4 ≤ SLOT1_SIZE
  high : tlv_off m + tlv_size m ≤ SLOT1_SIZE

instance : Decidable (Image m) := inferInstanceAs (Decidable (_ ∧ _))

theorem area_iff : Area m ↔ Image m ∧ tlv_off m % 4 = 0 ∧ tag m (tlv_off m) = 0x6907 ∧ tlv_size m ≠ 0 ∧
    tlv_off m + 4 ≤ SLOT1_SIZE ∧ tlv_off m + tlv_size m ≤ SLOT1_SIZE :=
  ⟨fun a => ⟨a.image, a.aligned, a.magic, a.some_, a.low, a.high⟩,
    fun ⟨image, aligned, magic, some_, low, high⟩ => ⟨image, aligned, magic, some_, low, high⟩⟩

instance : Decidable (Area m) := decidable_of_iff _ (area_iff m).symm

/-- From the entry header at the first offset, the one at the second is the next with a key hash. -/
inductive Finds (tlv_end : Nat) : Nat → Nat → Prop
  | here {off : Nat} (inside : off + 4 ≤ tlv_end) (keyhash : IsKeyhash m off) : Finds tlv_end off off
  | later {off found : Nat} (inside : off + 4 ≤ tlv_end) (other : ¬ IsKeyhash m off)
      (rest : Finds tlv_end (next m off) found) : Finds tlv_end off found

/-- The sum that the area's offset is checked by does not wrap, and the first entry with a
    key hash, if there is one, ends within the area. -/
def Contained : Prop :=
  (Image m → tlv_off m ≠ 0xFFFFFFFC) ∧
    (Area m → ∀ off, Finds m (tlv_off m + tlv_size m) (tlv_off m + 4) off →
      off + 4 + FW_KEYHASH_LEN ≤ tlv_off m + tlv_size m)

/-- What is read in the area from `off` on. -/
def scan_accesses (off tlv_end : Nat) : List Access :=
  if off + 4 ≤ tlv_end then
    if IsKeyhash m off then [⟨.ent, SLOT1_OFFSET + off, 4⟩, ⟨.out, SLOT1_OFFSET + off + 4, FW_KEYHASH_LEN⟩]
    else ⟨.ent, SLOT1_OFFSET + off, 4⟩ :: scan_accesses (next m off) tlv_end
  else []
termination_by tlv_end - off
decreasing_by unfold next; omega

/-- What is read of the area. -/
def area_accesses : List Access :=
  if tlv_off m % 4 = 0 ∧ (tlv_off m + 4 ≤ SLOT1_SIZE ∨ tlv_off m = 0xFFFFFFFC) then
    ⟨.info, SLOT1_OFFSET + tlv_off m, 4⟩ ::
      if Area m then scan_accesses m (tlv_off m + 4) (tlv_off m + tlv_size m) else []
  else []

/-- All that is read. -/
def accesses : List Access := ⟨.hdr, SLOT1_OFFSET, 32⟩ :: if Image m then area_accesses m else []

end

/-- Every range lies in slot1, and those of the entries and of the key hash in the TLV area. -/
structure Bounded (m : Mem) (reads : List Access) : Prop where
  slot : ∀ a ∈ reads, SLOT1_OFFSET ≤ a.addr ∧ a.addr + a.len ≤ SLOT1_OFFSET + SLOT1_SIZE
  area : ∀ a ∈ reads, a.into = .ent ∨ a.into = .out →
    SLOT1_OFFSET + tlv_off m ≤ a.addr ∧ a.addr + a.len ≤ SLOT1_OFFSET + (tlv_off m + tlv_size m)

section
variable {m : Mem}

theorem exec_inside {into : Buffer} {addr len : Nat} (inside : addr + len ≤ W25Q_CHIP_SIZE) (log : List Access) :
    exec (.read ⟨into, addr, len⟩) ({ mem := m }, log) =
      (some (bytesAt m addr len), { mem := m }, log ++ [⟨into, addr, len⟩]) := by
  simp only [exec, @w25_read_working addr len { mem := m } rfl rfl inside]

theorem size_lt (off : Nat) : size m off < 2^16 := by
  have low := byteAt_lt ((bytesAt m (SLOT1_OFFSET + off) 4).drop 2) 0
  have high := byteAt_lt ((bytesAt m (SLOT1_OFFSET + off) 4).drop 2) 1
  unfold size get_le16
  omega

/-- The loop comes to an end after as many entries as fit, returns what the search of the
    upgrade core returns, and reads what the flash says. -/
theorem scan_loop_run {fuel off tlv_end : Nat} (small : tlv_end ≤ SLOT1_SIZE) (near : off ≤ 2 * SLOT1_SIZE)
    (enough : tlv_end - off < 4 * fuel) (log : List Access) :
    (scan_loop fuel off tlv_end).run exec ({ mem := m }, log) =
      (some (FwUpg.tlv_scan off tlv_end { mem := m }).1, { mem := m }, log ++ scan_accesses m off tlv_end) := by
  induction fuel generalizing off log with
  | zero => omega
  | succ fuel ih =>
    unfold SLOT1_SIZE at small near
    have size_ := @size_lt m off
    rw [scan_loop, FwUpg.tlv_scan, scan_accesses, Nat.mod_eq_of_lt (by omega : off + 4 < 2^32)]
    by_cases more : off + 4 ≤ tlv_end
    · have inside : SLOT1_OFFSET + off + 4 ≤ W25Q_CHIP_SIZE := by
        unfold SLOT1_OFFSET W25Q_CHIP_SIZE
        omega
      have address : (SLOT1_OFFSET + off) % 2^32 = SLOT1_OFFSET + off := by
        unfold SLOT1_OFFSET
        omega
      have entry := @w25_read_working (SLOT1_OFFSET + off) 4 { mem := m } rfl rfl inside
      simp only [if_pos more, run_bind, run_once, address, exec_inside inside, entry]
      by_cases keyhash : IsKeyhash m off
      · have found : get_le16 (bytesAt m (SLOT1_OFFSET + off) 4) = 0x0001 ∧
            get_le16 ((bytesAt m (SLOT1_OFFSET + off) 4).drop 2) = FW_KEYHASH_LEN := keyhash
        have inside' : SLOT1_OFFSET + off + 4 + FW_KEYHASH_LEN ≤ W25Q_CHIP_SIZE := by
          unfold SLOT1_OFFSET W25Q_CHIP_SIZE FW_KEYHASH_LEN
          omega
        have address' : (SLOT1_OFFSET + off + 4) % 2^32 = SLOT1_OFFSET + off + 4 := by
          unfold SLOT1_OFFSET
          omega
        have hash := @w25_read_working (SLOT1_OFFSET + off + 4) FW_KEYHASH_LEN { mem := m } rfl rfl inside'
        simp only [if_pos found, if_pos keyhash, run_bind, run_once, address', exec_inside inside', hash, run_pure,
          List.append_assoc, List.cons_append, List.nil_append]
      · have other : ¬ (get_le16 (bytesAt m (SLOT1_OFFSET + off) 4) = 0x0001 ∧
            get_le16 ((bytesAt m (SLOT1_OFFSET + off) 4).drop 2) = FW_KEYHASH_LEN) := keyhash
        have step : (off + (4 + (size m off + 3) / 4 * 4)) % 2^32 = next m off := by
          unfold next
          omega
        have later := @ih (next m off) (by unfold next SLOT1_SIZE; omega) (by unfold next; omega)
          (log ++ [⟨.ent, SLOT1_OFFSET + off, 4⟩])
        rw [List.append_assoc, List.cons_append, List.nil_append] at later
        rw [if_neg other, if_neg keyhash]
        unfold size at step
        rw [step, later]
        simp only [if_neg other]
        rfl
    · rw [if_neg more, if_neg more, if_neg more, List.append_nil]
      rfl

theorem tlv_off_lt : tlv_off m < 2^32 := Nat.mod_lt _ (by decide)

/-- The check of the area's offset lets pass what it should, and one offset more. -/
theorem offset_checked :
    ¬ ((tlv_off m + 4) % 2^32 > SLOT1_SIZE ∨ tlv_off m % 4 ≠ 0) ↔
      tlv_off m % 4 = 0 ∧ (tlv_off m + 4 ≤ SLOT1_SIZE ∨ tlv_off m = 0xFFFFFFFC) := by
  have bound := @tlv_off_lt m
  unfold SLOT1_SIZE
  omega

/-- The search in the area that an image announces. -/
theorem tlv_area_run {fuel : Nat} (enough : SLOT1_SIZE < 4 * fuel) (image : Image m) (log : List Access) :
    (tlv_area fuel (tlv_off m)).run exec ({ mem := m }, log) =
      (some (FwUpg.tlv_area (tlv_off m) { mem := m }).1, { mem := m }, log ++ area_accesses m) := by
  have bound := @tlv_off_lt m
  have small : tlv_size m < 2^16 := size_lt _
  rw [tlv_area, FwUpg.tlv_area, area_accesses]
  by_cases checked : tlv_off m % 4 = 0 ∧ (tlv_off m + 4 ≤ SLOT1_SIZE ∨ tlv_off m = 0xFFFFFFFC)
  · have passed := offset_checked.mpr checked
    have address : (SLOT1_OFFSET + tlv_off m) % 2^32 = SLOT1_OFFSET + tlv_off m := by
      unfold SLOT1_OFFSET
      omega
    rw [if_neg passed, if_neg passed, if_pos checked, address, run_bind, run_once]
    rcases checked with ⟨aligned, low | wrapped⟩
    · unfold SLOT1_SIZE at low
      have inside : SLOT1_OFFSET + tlv_off m + 4 ≤ W25Q_CHIP_SIZE := by
        unfold SLOT1_OFFSET W25Q_CHIP_SIZE
        omega
      have read := @w25_read_working (SLOT1_OFFSET + tlv_off m) 4 { mem := m } rfl rfl inside
      have size_ : get_le16 ((bytesAt m (SLOT1_OFFSET + tlv_off m) 4).drop 2) = tlv_size m := rfl
      simp only [exec_inside inside, read, size_]
      rw [Nat.mod_eq_of_lt (by omega : tlv_off m + tlv_size m < 2^32),
        Nat.mod_eq_of_lt (by omega : tlv_off m + 4 < 2^32)]
      by_cases area : Area m
      · have right : ¬ (get_le16 (bytesAt m (SLOT1_OFFSET + tlv_off m) 4) ≠ 0x6907 ∨ tlv_size m = 0 ∨
            tlv_off m + tlv_size m > SLOT1_SIZE) := by
          rintro (magic | none_ | high)
          · exact magic area.magic
          · exact area.some_ none_
          · exact Nat.not_lt.mpr area.high high
        have scan := @scan_loop_run m fuel (tlv_off m + 4) (tlv_off m + tlv_size m) area.high
          (by unfold SLOT1_SIZE; omega) (by have := area.high; omega) (log ++ [⟨.info, SLOT1_OFFSET + tlv_off m, 4⟩])
        rw [if_neg right, if_pos area, scan, List.append_assoc, List.cons_append, List.nil_append, if_neg right]
      · have wrong : get_le16 (bytesAt m (SLOT1_OFFSET + tlv_off m) 4) ≠ 0x6907 ∨ tlv_size m = 0 ∨
            tlv_off m + tlv_size m > SLOT1_SIZE := by
          by_contra right
          simp only [not_or] at right
          exact area ⟨image, aligned, Classical.not_not.mp right.1, right.2.1, low, Nat.not_lt.mp right.2.2⟩
        rw [if_pos wrong, if_neg area, if_pos wrong]
        rfl
    · have outside : w25_read (SLOT1_OFFSET + tlv_off m) 4 { mem := m } = (none, { mem := m }) := by
        have beyond : SLOT1_OFFSET + tlv_off m ≥ W25Q_CHIP_SIZE := by
          unfold SLOT1_OFFSET W25Q_CHIP_SIZE
          omega
        rw [w25_read, if_neg (by decide), if_pos (.inl beyond)]
      have not_area : ¬ Area m := by
        intro area
        have low := area.low
        unfold SLOT1_SIZE at low
        omega
      have refused : exec (.read ⟨.info, SLOT1_OFFSET + tlv_off m, 4⟩) ({ mem := m }, log) =
          (none, { mem := m }, log ++ [⟨.info, SLOT1_OFFSET + tlv_off m, 4⟩]) := by
        rw [exec, outside]
      rw [refused, outside, if_neg not_area]
      rfl
  · have refused : (tlv_off m + 4) % 2^32 > SLOT1_SIZE ∨ tlv_off m % 4 ≠ 0 :=
      Classical.not_not.mp (mt offset_checked.mp checked)
    rw [if_pos refused, if_pos refused, if_neg checked, List.append_nil]
    rfl

/-- The search comes to an end, returns what the one of the upgrade core returns, and
    reads what the flash says. -/
theorem tlv_keyhash_get_run {fuel : Nat} (enough : SLOT1_SIZE < 4 * fuel) :
    (tlv_keyhash_get fuel).run exec ({ mem := m }, []) =
      (some (FwUpg.tlv_keyhash_get { mem := m }).1, { mem := m }, accesses m) := by
  have inside : SLOT1_OFFSET + 32 ≤ W25Q_CHIP_SIZE := by decide
  have read := @w25_read_working SLOT1_OFFSET 32 { mem := m } rfl rfl inside
  rw [tlv_keyhash_get, FwUpg.tlv_keyhash_get, accesses, read]
  simp only [run_bind, run_once, exec_inside inside, List.nil_append]
  by_cases image : Image m
  · have magic : ¬ io_get_le32 (bytesAt m SLOT1_OFFSET 32) ≠ 0x96F3B83D := not_not.mpr image.1
    have hdr_size : ¬ get_le16 ((bytesAt m SLOT1_OFFSET 32).drop 8) ≠ IMG_HDR_SIZE := not_not.mpr image.2
    have area := tlv_area_run enough image [⟨.hdr, SLOT1_OFFSET, 32⟩]
    rw [if_neg magic, if_neg hdr_size, if_neg magic, if_neg hdr_size, if_pos image]
    exact area
  · rw [if_neg image]
    by_cases magic : io_get_le32 (bytesAt m SLOT1_OFFSET 32) ≠ 0x96F3B83D
    · rw [if_pos magic, if_pos magic]
      rfl
    · have hdr_size : get_le16 ((bytesAt m SLOT1_OFFSET 32).drop 8) ≠ IMG_HDR_SIZE :=
        fun same => image ⟨Classical.not_not.mp magic, same⟩
      rw [if_neg magic, if_neg magic, if_pos hdr_size, if_pos hdr_size]
      rfl

theorem scan_accesses_low {tlv_end off : Nat} : ∀ a ∈ scan_accesses m off tlv_end, SLOT1_OFFSET + off ≤ a.addr := by
  fun_induction scan_accesses m off tlv_end with
  | case1 off inside keyhash =>
    simp only [List.mem_cons, List.not_mem_nil, or_false, forall_eq_or_imp, forall_eq]
    omega
  | case2 off inside other ih =>
    have forward : off ≤ next m off := Nat.le_add_right _ _
    rw [List.forall_mem_cons]
    refine ⟨Nat.le_refl _, fun a member => ?_⟩
    have low := ih a member
    omega
  | case3 off out => rintro a ⟨⟩

/-- What is read of the entries ends within the area just when the first key hash does. -/
theorem scan_accesses_high {tlv_end off : Nat} :
    (∀ a ∈ scan_accesses m off tlv_end, a.addr + a.len ≤ SLOT1_OFFSET + tlv_end) ↔
      ∀ found, Finds m tlv_end off found → found + 4 + FW_KEYHASH_LEN ≤ tlv_end := by
  fun_induction scan_accesses m off tlv_end with
  | case1 off inside keyhash =>
    simp only [List.mem_cons, List.not_mem_nil, or_false, forall_eq_or_imp, forall_eq]
    constructor
    · rintro ⟨_, last⟩ found (⟨_, _⟩ | ⟨_, other, _⟩)
      · omega
      · exact absurd keyhash other
    · intro ends
      have last := ends off (.here inside keyhash)
      omega
  | case2 off inside other ih =>
    rw [List.forall_mem_cons, ih]
    constructor
    · rintro ⟨_, rest⟩ found (⟨_, keyhash⟩ | ⟨_, _, later⟩)
      · exact absurd keyhash other
      · exact rest found later
    · intro ends
      exact ⟨by simp only; omega, fun found later => ends found (.later inside other later)⟩
  | case3 off out =>
    constructor
    · rintro _ found (⟨inside, _⟩ | ⟨inside, _, _⟩)
      · exact absurd inside out
      · exact absurd inside out
    · rintro _ a ⟨⟩

theorem scan_accesses_into {tlv_end off : Nat} :
    ∀ a ∈ scan_accesses m off tlv_end, a.into = .ent ∨ a.into = .out := by
  fun_induction scan_accesses m off tlv_end with
  | case1 off inside keyhash => simp
  | case2 off inside other ih =>
    rw [List.forall_mem_cons]
    exact ⟨.inl rfl, ih⟩
  | case3 off out => rintro a ⟨⟩

theorem info_read (image : Image m) (aligned : tlv_off m % 4 = 0)
    (passed : tlv_off m + 4 ≤ SLOT1_SIZE ∨ tlv_off m = 0xFFFFFFFC) :
    accesses m = ⟨.hdr, SLOT1_OFFSET, 32⟩ :: ⟨.info, SLOT1_OFFSET + tlv_off m, 4⟩ ::
      if Area m then scan_accesses m (tlv_off m + 4) (tlv_off m + tlv_size m) else [] := by
  rw [accesses, if_pos image, area_accesses, if_pos ⟨aligned, passed⟩]

theorem accesses_bounded : Bounded m (accesses m) ↔ Contained m := by
  constructor
  · intro bounded
    constructor
    · intro image wrapped
      have read := info_read image (by omega) (.inr wrapped)
      have slot := (bounded.slot ⟨.info, SLOT1_OFFSET + tlv_off m, 4⟩ (by rw [read]; simp)).2
      simp only at slot
      unfold SLOT1_SIZE at slot
      omega
    · intro area
      have read := info_read area.image area.aligned (.inl area.low)
      rw [if_pos area] at read
      rw [← scan_accesses_high]
      intro a member
      exact (bounded.area a (by rw [read]; exact .tail _ (.tail _ member)) (scan_accesses_into a member)).2
  · rintro ⟨unwrapped, ends⟩
    unfold accesses area_accesses
    split
    · rename_i image
      split
      · rename_i checked
        have low : tlv_off m + 4 ≤ SLOT1_SIZE := checked.2.resolve_right (unwrapped image)
        split
        · rename_i area
          have high := area.high
          have scan := scan_accesses_high.mpr (ends area)
          constructor
          · simp only [List.forall_mem_cons]
            refine ⟨by decide, ⟨Nat.le_add_right _ _, by omega⟩, fun a member => ?_⟩
            have last := scan a member
            exact ⟨Nat.zero_le _, by omega⟩
          · simp only [List.forall_mem_cons]
            refine ⟨by simp, by simp, fun a member _ => ⟨?_, scan a member⟩⟩
            have first := scan_accesses_low a member
            omega
        · constructor
          · simp only [List.forall_mem_cons]
            exact ⟨by decide, ⟨Nat.le_add_right _ _, by omega⟩, by simp⟩
          · simp
      · exact ⟨by simp only [List.forall_mem_cons]; exact ⟨by decide, by simp⟩, by simp⟩
    · exact ⟨by simp only [List.forall_mem_cons]; exact ⟨by decide, by simp⟩, by simp⟩

end

/-- The search comes to an end on every flash, with the answer that the upgrade core gets from
    it. What it reads on the way is in bounds just when the flash lets it be. -/
theorem tlv_reads (m : Mem) :
    ∃ (answer : Option (List UInt8)) (reads : List Access),
      (∀ fuel, SLOT1_SIZE < 4 * fuel →
        (tlv_keyhash_get fuel).run exec ({ mem := m }, []) = (some answer, { mem := m }, reads)) ∧
      answer = (FwUpg.tlv_keyhash_get { mem := m }).1 ∧ (Bounded m reads ↔ Contained m) :=
  ⟨_, _, fun _ enough => tlv_keyhash_get_run enough, rfl, accesses_bounded⟩

/-- An image whose TLV area is the last 8 bytes of slot1: its own header, and the header of a key hash. -/
def cut_image : Mem := fun a =>
  if a < 16 then [0x3D, 0xB8, 0xF3, 0x96, 0, 0, 0, 0, 0, 2, 0, 0, 0xF8, 0xFD, 6, 0].getD a 0
  else if a < 0x6FFF8 then 0
  else [7, 0x69, 8, 0, 1, 0, 32, 0].getD (a - 0x6FFF8) 0

/-- The key hash is read from behind slot1. -/
theorem keyhash_outside :
    ¬ ∀ (m : Mem) (fuel : Nat), SLOT1_SIZE < 4 * fuel →
      Bounded m ((tlv_keyhash_get fuel).run exec ({ mem := m }, [])).2.2 := by
  intro always
  have bounded := always cut_image SLOT1_SIZE (by decide)
  rw [tlv_keyhash_get_run (by decide), accesses_bounded] at bounded
  have offset : tlv_off cut_image = 0x6FFF8 := by decide
  have size_ : tlv_size cut_image = 8 := by rw [tlv_size, offset]; decide
  have area : Area cut_image := by
    rw [area_iff, size_, offset]
    decide
  have found : Finds cut_image (0x6FFF8 + 8) (0x6FFF8 + 4) (0x6FFF8 + 4) := .here (by decide) (by decide)
  have ends := bounded.2 area
  rw [size_, offset] at ends
  exact absurd (ends _ found) (by decide)

end IoEdgeHub.TlvScan
