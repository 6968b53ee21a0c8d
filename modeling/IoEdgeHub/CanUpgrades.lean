import IoEdgeHub.CanTool

/-!
The two devices that the CAN upgrade tool talks to: the application
(`fw/fw_can.c`), which keeps a queue of 32 frames and installs into slot1, and
the boot loader (`boot/boot_can.c`), which polls a FIFO of three frames and
installs into slot0. Both keep the rules that `CanTool` rests on.
-/
namespace IoEdgeHub.CanUpgrades
open IoEdgeHub.Nor IoEdgeHub.IntFlash IoEdgeHub.Bytes IoEdgeHub.FwUpg IoEdgeHub.Calls IoEdgeHub.W25qxx
open IoEdgeHub.CanProtocol IoEdgeHub.CanAgreement IoEdgeHub.CanTool
open IoEdgeHub.BootCan (Boot data_ack)

/-- The header is of the size that the device expects, and the TLV area is aligned,
    lies within the image and holds all of its key hash. -/
structure Sane (img : List UInt8) : Prop where
  header : get_le16 (img.drop 8) = IMG_HDR_SIZE
  aligned : (IMG_HDR_SIZE + io_get_le32 (img.drop 12)) % 4 = 0
  info : IMG_HDR_SIZE + io_get_le32 (img.drop 12) + 4 ≤ img.length
  area : IMG_HDR_SIZE + io_get_le32 (img.drop 12) +
    get_le16 (img.drop (IMG_HDR_SIZE + io_get_le32 (img.drop 12) + 2)) ≤ img.length
  whole : ∀ kh ∈ keyhash_from_image img, kh.length = FW_KEYHASH_LEN

section
variable {img : List UInt8} {m : Mem}

theorem byteAt_take {l : List UInt8} {i n : Nat} (inside : i < n) : byteAt (l.take n) i = byteAt l i := by
  rw [byteAt, byteAt, List.getD_eq_getElem?_getD, List.getD_eq_getElem?_getD, List.getElem?_take_of_lt inside]

theorem get_le16_take {l : List UInt8} {off n : Nat} (inside : off + 2 ≤ n) :
    get_le16 ((l.take n).drop off) = get_le16 (l.drop off) := by
  rw [get_le16, get_le16, List.drop_take, byteAt_take (by omega), byteAt_take (by omega)]

theorem io_get_le32_take {l : List UInt8} {off n : Nat} (inside : off + 4 ≤ n) :
    io_get_le32 ((l.take n).drop off) = io_get_le32 (l.drop off) := by
  rw [io_get_le32, io_get_le32, List.drop_take, byteAt_take (by omega), byteAt_take (by omega), byteAt_take (by omega),
    byteAt_take (by omega)]

/-- What the device reads of an image that slot1 holds. -/
theorem image_read {off n : Nat} (stored : bytesAt m SLOT1_OFFSET img.length = img) (high : img.length ≤ SLOT1_SIZE)
    (inside : off + n ≤ img.length) :
    w25_read (SLOT1_OFFSET + off) n { mem := m } = (some ((img.drop off).take n), { mem := m }) := by
  rw [w25_read_working rfl rfl (by unfold SLOT1_OFFSET W25Q_CHIP_SIZE; unfold SLOT1_SIZE at high; omega),
    bytesAt_slice m SLOT1_OFFSET inside, stored]

/-- A TLV entry as the device reads it. -/
theorem entry_read {off : Nat} (stored : bytesAt m SLOT1_OFFSET img.length = img) (high : img.length ≤ SLOT1_SIZE)
    (inside : off + 4 ≤ img.length) :
    ∃ ent, w25_read (SLOT1_OFFSET + off) 4 { mem := m } = (some ent, { mem := m }) ∧
      get_le16 ent = get_le16 (img.drop off) ∧ get_le16 (ent.drop 2) = get_le16 (img.drop (off + 2)) := by
  have first := @get_le16_take (img.drop off) 0 4 (by omega)
  have second := @get_le16_take (img.drop off) 2 4 (by omega)
  simp only [List.drop_zero, List.drop_drop] at first second
  exact ⟨_, image_read stored high inside, first, second⟩

/-- The device goes on behind an entry that is not the hash, as the tool does. -/
theorem tlv_scan_skip {off stop : Nat} (stored : bytesAt m SLOT1_OFFSET img.length = img) (high : img.length ≤ SLOT1_SIZE)
    (more : off + 4 ≤ stop) (inside : off + 4 ≤ img.length)
    (other : ¬ (get_le16 (img.drop off) = 1 ∧ get_le16 (img.drop (off + 2)) = 32)) :
    tlv_scan off stop { mem := m } = tlv_scan (off + (4 + (get_le16 (img.drop (off + 2)) + 3)) / 4 * 4) stop { mem := m } := by
  obtain ⟨ent, read, tag, length⟩ := entry_read stored high inside
  have next : off + (4 + (get_le16 (img.drop (off + 2)) + 3) / 4 * 4) =
      off + (4 + (get_le16 (img.drop (off + 2)) + 3)) / 4 * 4 := by omega
  rw [tlv_scan, if_pos more, read]
  simp only [tag, length, FW_KEYHASH_LEN]
  rw [if_neg other, next]

/-- A hash that the tool takes whole lies within the image. -/
theorem keyhash_scan_inside {off stop : Nat} {kh : List UInt8} (found : keyhash_scan img off stop = some kh)
    (whole : kh.length = FW_KEYHASH_LEN) : off + 4 + FW_KEYHASH_LEN ≤ img.length := by
  fun_induction keyhash_scan img off stop with
  | case1 off more past => cases found
  | case2 off more within entry =>
    obtain rfl := Option.some.inj found
    simp only [List.length_take, List.length_drop, FW_KEYHASH_LEN] at whole ⊢
    omega
  | case3 off more within other ih =>
    have later := ih found
    omega
  | case4 off done => cases found

/-- The device finds the hash that the tool finds, if that is whole. -/
theorem tlv_scan_whole {off stop : Nat} {kh : List UInt8} (stored : bytesAt m SLOT1_OFFSET img.length = img)
    (high : img.length ≤ SLOT1_SIZE) (found : keyhash_scan img off stop = some kh) (whole : kh.length = FW_KEYHASH_LEN) :
    tlv_scan off stop { mem := m } = (some kh, { mem := m }) := by
  fun_induction keyhash_scan img off stop with
  | case1 off more past => cases found
  | case2 off more within entry =>
    obtain rfl := Option.some.inj found
    have fits := whole
    simp only [List.length_take, List.length_drop, FW_KEYHASH_LEN] at fits
    obtain ⟨ent, read, tag, length⟩ := @entry_read img m off stored high (by omega)
    rw [tlv_scan, if_pos more, read]
    simp only [tag, length, FW_KEYHASH_LEN]
    rw [if_pos entry, Nat.add_assoc, image_read stored high (by omega)]
  | case3 off more within other ih =>
    rw [tlv_scan_skip stored high more (by omega) other, ih found]
  | case4 off done => cases found

theorem tlv_scan_found {off stop : Nat} (stored : bytesAt m SLOT1_OFFSET img.length = img) (high : img.length ≤ SLOT1_SIZE)
    (inside : stop ≤ img.length) (whole : ∀ kh ∈ keyhash_scan img off stop, kh.length = FW_KEYHASH_LEN) :
    tlv_scan off stop { mem := m } = (keyhash_scan img off stop, { mem := m }) := by
  cases found : keyhash_scan img off stop with
  | some kh => exact tlv_scan_whole stored high found (whole kh found)
  | none =>
    clear whole
    fun_induction keyhash_scan img off stop with
    | case1 off more past => omega
    | case2 off more within entry => cases found
    | case3 off more within other ih =>
      rw [tlv_scan_skip stored high more (by omega) other, ih found]
    | case4 off done => rw [tlv_scan, if_neg done]

/-- The TLV area as the tool reads it. -/
def host_area (img : List UInt8) (tlv_off : Nat) : Option (List UInt8) :=
  if img.length < tlv_off + 4 ∨ get_le16 (img.drop tlv_off) ≠ 0x6907 then none
  else keyhash_scan img (tlv_off + 4) (tlv_off + get_le16 (img.drop (tlv_off + 2)))

theorem tlv_area_found {tlv_off : Nat} (stored : bytesAt m SLOT1_OFFSET img.length = img) (high : img.length ≤ SLOT1_SIZE)
    (aligned : tlv_off % 4 = 0) (info : tlv_off + 4 ≤ img.length)
    (area : tlv_off + get_le16 (img.drop (tlv_off + 2)) ≤ img.length)
    (whole : ∀ kh ∈ host_area img tlv_off, kh.length = FW_KEYHASH_LEN) :
    (tlv_area tlv_off { mem := m }).1 = host_area img tlv_off := by
  have first := @get_le16_take (img.drop tlv_off) 0 4 (by omega)
  have second := @get_le16_take (img.drop tlv_off) 2 4 (by omega)
  simp only [List.drop_zero, List.drop_drop, Nat.add_zero] at first second
  have high' := high
  unfold SLOT1_SIZE at high'
  rw [tlv_area, if_neg (by unfold SLOT1_SIZE; omega), image_read stored high info]
  simp only
  rw [first, second]
  unfold host_area at whole ⊢
  by_cases marked : get_le16 (img.drop tlv_off) = 0x6907
  · have present : ¬ (img.length < tlv_off + 4 ∨ get_le16 (img.drop tlv_off) ≠ 0x6907) := by
      simp only [marked]
      omega
    rw [if_neg present] at whole ⊢
    by_cases empty : get_le16 (img.drop (tlv_off + 2)) = 0
    · rw [if_pos (.inr (.inl empty)), keyhash_scan, if_neg (by omega)]
    · rw [if_neg (by unfold SLOT1_SIZE; omega), tlv_scan_found stored high area whole]
  · rw [if_pos (.inl marked), if_pos (.inr marked)]

/-- The device may turn the TLV area down, but it finds no other hash in it than the tool. -/
theorem tlv_area_whole {tlv_off : Nat} {kh : List UInt8} (stored : bytesAt m SLOT1_OFFSET img.length = img)
    (high : img.length ≤ SLOT1_SIZE) (found : host_area img tlv_off = some kh) (whole : kh.length = FW_KEYHASH_LEN) :
    (tlv_area tlv_off { mem := m }).1 = none ∨ (tlv_area tlv_off { mem := m }).1 = some kh := by
  unfold host_area at found
  split_ifs at found with present
  obtain ⟨info, read, tag, length⟩ := @entry_read img m tlv_off stored high (by omega)
  unfold tlv_area
  split_ifs
  · exact .inl rfl
  · rw [read]
    simp only [length]
    split_ifs
    · exact .inl rfl
    · rw [tlv_scan_whole stored high found whole]
      exact .inr rfl

theorem keyhash_from_image_area (header : get_le16 (img.drop 8) = IMG_HDR_SIZE) (long : 16 ≤ img.length) :
    keyhash_from_image img =
      if io_get_le32 img ≠ IMAGE_MAGIC then none else host_area img (IMG_HDR_SIZE + io_get_le32 (img.drop 12)) := by
  unfold keyhash_from_image
  rw [header]
  by_cases known : io_get_le32 img = IMAGE_MAGIC
  · rw [if_neg (by simp only [known, ne_eq, not_true, or_false]; omega), if_neg (not_not.mpr known)]
    rfl
  · rw [if_pos (.inr known), if_pos known]

/-- Whatever the image is like, the device finds no other hash in slot1 than the tool has found in it. -/
theorem tlv_keyhash_whole {kh : List UInt8} (stored : bytesAt m SLOT1_OFFSET img.length = img)
    (high : img.length ≤ SLOT1_SIZE) (found : keyhash_from_image img = some kh) (whole : kh.length = FW_KEYHASH_LEN) :
    (tlv_keyhash_get { mem := m }).1 = none ∨ (tlv_keyhash_get { mem := m }).1 = some kh := by
  have long : 32 ≤ img.length := by
    simp only [keyhash_from_image] at found
    split_ifs at found
    have inside := keyhash_scan_inside found whole
    unfold FW_KEYHASH_LEN at inside
    omega
  have read := @image_read img m 0 32 stored high (by omega)
  rw [Nat.add_zero, List.drop_zero] at read
  have magic := @io_get_le32_take img 0 32 (by omega)
  have size := @get_le16_take img 8 32 (by omega)
  have length := @io_get_le32_take img 12 32 (by omega)
  rw [List.drop_zero, List.drop_zero] at magic
  rw [tlv_keyhash_get, read]
  simp only [magic, size, length]
  split_ifs with unknown header
  · exact .inl rfl
  · exact .inl rfl
  · rw [not_not] at header
    rw [keyhash_from_image_area header (by omega)] at found
    split_ifs at found
    have inside : IMG_HDR_SIZE + io_get_le32 (img.drop 12) + 4 ≤ img.length := by
      unfold host_area at found
      split_ifs at found with present
      omega
    rw [header, Nat.mod_eq_of_lt (by unfold SLOT1_SIZE at high; omega)]
    exact tlv_area_whole stored high found whole

/-- The device finds the key hash in slot1 that the tool has found in the image. -/
theorem tlv_keyhash_found (stored : bytesAt m SLOT1_OFFSET img.length = img) (high : img.length ≤ SLOT1_SIZE)
    (sane : Sane img) : (tlv_keyhash_get { mem := m }).1 = keyhash_from_image img := by
  obtain ⟨header, aligned, info, area, whole⟩ := sane
  have long : 32 ≤ img.length := by unfold IMG_HDR_SIZE at info; omega
  have read := @image_read img m 0 32 stored high (by omega)
  rw [Nat.add_zero, List.drop_zero] at read
  have magic := @io_get_le32_take img 0 32 (by omega)
  have size := @get_le16_take img 8 32 (by omega)
  have length := @io_get_le32_take img 12 32 (by omega)
  rw [List.drop_zero, List.drop_zero] at magic
  rw [keyhash_from_image_area header (by omega)] at whole ⊢
  rw [tlv_keyhash_get, read]
  simp only [magic, size, length, header, ne_eq, not_true, if_false]
  have small : IMG_HDR_SIZE + io_get_le32 (img.drop 12) < 2^32 := by unfold SLOT1_SIZE at high; omega
  unfold IMAGE_MAGIC at whole ⊢
  by_cases known : io_get_le32 img = 0x96F3B83D
  · rw [if_neg (not_not.mpr known)] at whole ⊢
    rw [if_neg (not_not.mpr known), Nat.mod_eq_of_lt small]
    exact tlv_area_found stored high aligned info area whole
  · rw [if_pos known, if_pos known]

end

def FW_Q_DEPTH : Nat := 32

/-- The receive interrupt. A queue that is full drops the frame. -/
def fw_can_frame_isr (q : List Frame) (m : Frame) : List Frame :=
  if m.data.length ≤ 8 ∧ q.length < FW_Q_DEPTH then q ++ [m] else q

section
variable (version fw_keyhash : List UInt8) (boot_set_pending : Bool → Dev → Bool × Dev)

def fw_can_handle (m : Frame) (a : App) : List Frame × App :=
  let r := (FwCan.fw_task version m a.keys).run (exec fw_keyhash boot_set_pending) a.u
  (r.1.1, ⟨r.2, r.1.2⟩)

/-- A START that opens a session and a CONFIRM that finds one drop what is queued behind them. -/
def fw_can_drain (m : Frame) (a : App) (q : List Frame) : List Frame :=
  if m.id = CAN_ID_CMD ∧ m.data.length = 8 ∧
      ((command m.data = FW_CMD_START ∧ (fw_can_handle version fw_keyhash boot_set_pending m a).1 = [fw_reply FW_CODE_OFFSET 0]) ∨
        (command m.data = FW_CMD_CONFIRM ∧ fw_upg_active a.u = true)) then []
  else q

/-- Slot1 held the image and the device's own key hash when the swap was asked for. -/
def Installed (permanent : Bool) (img : List UInt8) (a : App) : Prop :=
  img.length ≤ SLOT1_SIZE ∧ ∃ d : Dev, bytesAt d.mem SLOT1_OFFSET img.length = img ∧
    (tlv_keyhash_get d.sound).1 = some fw_keyhash ∧ boot_set_pending permanent d = (true, a.u.dev)

end

section
variable {version fw_keyhash : List UInt8} {boot_set_pending : Bool → Dev → Bool × Dev}

theorem replies_data_ack (written total : Nat) : replies (data_ack written total) = data_ack written total := by
  unfold data_ack
  split_ifs <;> rfl

theorem data_ack_brief (written total : Nat) : (data_ack written total).length ≤ 2 := by
  unfold data_ack
  split_ifs <;> simp

theorem replies_reply (code arg : Nat) : replies [fw_reply code arg] = [fw_reply code arg] := rfl

theorem fw_can_key {m : Frame} {a : App} (key : m.id = CAN_ID_KEYHASH) :
    fw_can_handle version fw_keyhash boot_set_pending m a = ([], ⟨a.u, keyhash_frame m.data a.keys⟩) := by
  simp only [fw_can_handle, FwCan.fw_task, key]
  rfl

theorem fw_can_start (size : Nat) (a : App) (small : size < 2^32) :
    let r := fw_can_handle version fw_keyhash boot_set_pending (startFrame size) a
    (replies r.1 = [fw_reply FW_CODE_OFFSET 0] ∧ Accepted r.2.u [] ∧ r.2.u.s.total = size) ∨ Refused r.1 := by
  simp only [fw_can_handle, FwCan.fw_task_start a.keys small]
  simp only [FwCan.start_update, ↓run_bind, ↓run_once, ↓run_ite, ↓run_pure, exec]
  by_cases foreign : (fw_upg_start fw_keyhash size (offered a.keys).1 (fw_upg_abort a.u)).1 = -2
  · simp only [if_pos foreign]
    exact .inr ⟨_, by simp [refusals], replies_reply _ _⟩
  · by_cases started : (fw_upg_start fw_keyhash size (offered a.keys).1 (fw_upg_abort a.u)).1 = 0
    · obtain ⟨acc, total⟩ := fw_upg_start_accepted started
      simp only [started, ne_eq, not_true, if_false]
      exact .inl ⟨replies_reply _ _, acc, total⟩
    · simp only [if_neg foreign, started, ne_eq, not_false_iff, if_true]
      exact .inr ⟨_, by simp [refusals], replies_reply _ _⟩

theorem fw_can_data {size : Nat} {got d : List UInt8} {a : App} (acc : Accepted a.u got) (total : a.u.s.total = size)
    (short : d.length ≤ 8) :
    let r := fw_can_handle version fw_keyhash boot_set_pending (dataFrame d) a
    (replies r.1 = data_ack (got.length + d.length) size ∧ Accepted r.2.u (got ++ d) ∧ r.2.u.s.total = size) ∨
      (Refused r.1 ∧ (r.2.u.s.active = false ∨ r.2.u.s.failed = true)) := by
  simp only [fw_can_handle, FwCan.fw_task_data]
  simp only [FwCan.handle_fw_data, ↓run_bind, ↓run_once, ↓run_ite, ↓run_pure, exec, fw_upg_active, acc.active,
    Bool.not_true, Bool.false_eq_true, if_false]
  obtain ⟨kept, active, ⟨done, next⟩ | ⟨failed, marked⟩⟩ := @fw_upg_write_accepted a.u got d acc (by omega)
  · left
    have received := next.received
    have wanted : fw_upg_total (fw_upg_write d a.u).2 = size := by rw [fw_upg_total, if_pos active, kept, total]
    rw [List.length_append] at received
    simp only [done, received, wanted, ne_eq, not_true, if_false, data_ack]
    split_ifs with complete block
    · exact ⟨by rw [complete]; rfl, next, kept.trans total⟩
    · exact ⟨rfl, next, kept.trans total⟩
    · exact ⟨rfl, next, kept.trans total⟩
  · rw [if_pos failed]
    exact .inr ⟨⟨_, by simp [refusals], replies_reply _ _⟩, .inr marked⟩

theorem fw_can_shut {d : List UInt8} {a : App} (shut : a.u.s.active = false ∨ a.u.s.failed = true) :
    let r := fw_can_handle version fw_keyhash boot_set_pending (dataFrame d) a
    Refused r.1 ∧ (r.2.u.s.active = false ∨ r.2.u.s.failed = true) := by
  simp only [fw_can_handle, FwCan.fw_task_data]
  simp only [FwCan.handle_fw_data, ↓run_bind, ↓run_once, ↓run_ite, ↓run_pure, exec, fw_upg_active]
  cases active : a.u.s.active with
  | false => exact ⟨⟨_, by simp [refusals], replies_reply _ _⟩, by simp [active]⟩
  | true =>
    have failed : a.u.s.failed = true := by simpa [active] using shut
    simp only [fw_upg_write_failed failed]
    exact ⟨⟨_, by simp [refusals], replies_reply _ _⟩, .inr failed⟩

theorem fw_can_confirm {size arg : Nat} {got : List UInt8} {a : App} (small : arg < 2^32) (acc : Accepted a.u got)
    (total : a.u.s.total = size) :
    let r := fw_can_handle version fw_keyhash boot_set_pending (confirmFrame arg) a
    (replies r.1 = [fw_reply FW_CODE_CONFIRM FW_CODE_CONFIRM_MAGIC] ∧ got.length = size ∧
        Installed fw_keyhash boot_set_pending (arg ≠ 0) got r.2) ∨
      Refused r.1 := by
  have argument_ : argument (confirmFrame arg).data = arg := startFrame_argument small
  simp only [fw_can_handle, FwCan.fw_task_confirm, argument_]
  simp only [FwCan.confirm, ↓run_bind, ↓run_once, ↓run_ite, ↓run_pure, exec, fw_upg_active, acc.active,
    Bool.not_true, Bool.false_eq_true, if_false]
  split_ifs with failed unset
  · exact .inr ⟨_, by simp [refusals], replies_reply _ _⟩
  · exact .inr ⟨_, by simp [refusals], replies_reply _ _⟩
  · obtain ⟨complete, stored, _, _, own⟩ := fw_upg_finish_ex_done acc (not_not.mp failed)
    refine .inl ⟨replies_reply _ _, complete.trans total, Nat.le_trans acc.fits acc.size, _, stored, own, ?_⟩
    rw [Prod.ext_iff]
    exact ⟨by simpa using unset, rfl⟩

/-- A REBOOT is not answered, and leaves the flash as it is. -/
theorem fw_can_reboot (a : App) :
    let r := fw_can_handle version fw_keyhash boot_set_pending rebootFrame a
    r.1 = [] ∧ r.2.u.dev = a.u.dev := by
  have notStart : ¬ command rebootFrame.data = FW_CMD_START := by decide
  have notConfirm : ¬ command rebootFrame.data = FW_CMD_CONFIRM := by decide
  have notVersion : ¬ command rebootFrame.data = FW_CMD_VERSION := by decide
  simp only [fw_can_handle]
  rw [FwCan.fw_task, if_pos (by rfl), FwCan.handle_platform_rx, if_neg (by decide), if_neg notStart, if_neg notConfirm,
    if_neg notVersion, if_pos (by decide)]
  exact ⟨rfl, rfl⟩

end

/-- The application takes upgrades. -/
def app (version fw_keyhash : List UInt8) (boot_set_pending : Bool → Dev → Bool × Dev) : Receiver App where
  arrive := fw_can_frame_isr
  handle := fw_can_handle version fw_keyhash boot_set_pending
  drain := fw_can_drain version fw_keyhash boot_set_pending
  Open size got a := Accepted a.u got ∧ a.u.s.total = size
  Shut a := a.u.s.active = false ∨ a.u.s.failed = true
  Holds arg img a := Installed fw_keyhash boot_set_pending (arg ≠ 0) img a
  arrive_loses q m := by
    unfold fw_can_frame_isr
    split_ifs
    · exact List.Sublist.refl _
    · exact List.sublist_append_left _ _
  drain_loses m a q := by
    unfold fw_can_drain
    split_ifs
    · exact List.nil_sublist _
    · exact List.Sublist.refl _
  key m a isKey := by
    rw [fw_can_key isKey]
    rfl
  start size a small := fw_can_start size a small
  data size got d a open_ _ short _ := fw_can_data open_.1 open_.2 short
  shut d a shut := fw_can_shut shut
  confirm size got arg a small open_ := fw_can_confirm small open_.1 open_.2
  reboot arg img a holds := by
    obtain ⟨high, d, stored, own, pending⟩ := holds
    exact ⟨high, d, stored, own, by rw [(fw_can_reboot a).2]; exact pending⟩

/-- The three frames that the controller holds. A frame that finds no room replaces the last one. -/
def fifo (q : List Frame) (m : Frame) : List Frame := if q.length < 3 then q ++ [m] else q.dropLast ++ [m]

/-- A CONFIRM that finds a session reads the FIFO until a read returns 0: it is empty, or a frame without data. -/
def boot_can_drain (m : Frame) (b : Boot) (q : List Frame) : List Frame :=
  if m.id = CAN_ID_CMD ∧ m.data.length = 8 ∧ command m.data = FW_CMD_CONFIRM ∧ b.active = true then
    (q.dropWhile fun f => f.data ≠ []).tail
  else q

/-- The session has stored what it has received in slot0, and the rest of the image's place is blank. -/
structure Storing (size : Nat) (got : List UInt8) (b : Boot) : Prop where
  active : b.active = true
  total : b.total = size
  written : b.written = got.length
  fits : got.length ≤ size
  room : size ≤ SLOT0_SIZE
  stored : bytesAt b.dev.mem SLOT0_ADDR got.length = got
  blank : Blank b.dev.mem (SLOT0_ADDR + got.length) (size - got.length)

section
variable {version fw_keyhash : List UInt8}

theorem boot_start_storing {arg : Nat} {foreign : Bool} {b : Boot} :
    ((BootCan.start_reply foreign arg b).1 = fw_reply FW_CODE_OFFSET 0 ∧
        Storing arg [] (BootCan.start_reply foreign arg b).2) ∨
      (BootCan.start_reply foreign arg b).1 ∈ refusals := by
  unfold BootCan.start_reply
  split_ifs with key size
  · exact .inr (by simp [refusals])
  · exact .inr (by simp [refusals])
  · have high : arg ≤ SLOT0_SIZE := by omega
    have bound : arg ≤ round_4k arg ∧ round_4k arg ≤ arg + 0xFFF := by
      unfold SLOT0_SIZE at high
      unfold round_4k
      omega
    split <;> rename_i erased_
    · exact .inr (by simp [refusals])
    · have blank := @intflash_erase_done SLOT0_ADDR (round_4k arg) b.dev (by rw [erased_])
        (by unfold SLOT0_SIZE at high; unfold SLOT0_ADDR; omega)
      rw [erased_] at blank
      refine .inl ⟨rfl, rfl, rfl, rfl, Nat.zero_le _, high, bytesAt_zero _ _, ?_⟩
      exact blank_part blank (Nat.le_refl _) (by simp only [List.length_nil]; omega)

theorem boot_start {size : Nat} {b : Boot} (small : size < 2^32) :
    let r := BootCan.handle_frame version fw_keyhash (startFrame size) b
    (replies r.1 = [fw_reply FW_CODE_OFFSET 0] ∧ Storing size [] r.2) ∨ Refused r.1 := by
  simp only [BootCan.handle_frame_start b small, BootCan.start]
  rcases @boot_start_storing size (BootCan.foreign_key fw_keyhash b.keys) { b with keys := (offered b.keys).2 } with
    ⟨ack, storing⟩ | refused
  · refine .inl ⟨?_, storing⟩
    rw [ack]
    rfl
  · have isReply := refusals_id _ refused
    exact .inr ⟨_, refused, by rw [replies_skip _ (by decide), replies_cons _ isReply]; rfl⟩

theorem boot_data {size : Nat} {got d : List UInt8} {b : Boot} (storing : Storing size got b) (some_ : 1 ≤ d.length)
    (fits : got.length + d.length ≤ size) :
    let r := BootCan.handle_frame version fw_keyhash (dataFrame d) b
    (replies r.1 = data_ack (got.length + d.length) size ∧ Storing size (got ++ d) r.2) ∨
      (Refused r.1 ∧ r.2.active = false) := by
  obtain ⟨active, total, written, _, room, stored, blank⟩ := storing
  simp only [BootCan.handle_frame_data]
  rw [BootCan.handle_data, if_neg (by simp [active]), if_neg (by omega)]
  have high : SLOT0_ADDR + b.written + d.length < 2^32 := by unfold SLOT0_SIZE at room; unfold SLOT0_ADDR; omega
  cases wrote : intflash_write (SLOT0_ADDR + b.written) d b.dev with
  | mk done dev =>
    cases done with
    | false => exact .inr ⟨⟨_, by simp [refusals], replies_reply _ _⟩, rfl⟩
    | true =>
      have mem := @intflash_write_done (SLOT0_ADDR + b.written) d b.dev high (by rw [wrote])
      rw [wrote, written] at mem
      simp only at mem
      refine .inl ⟨by simp only [written, total, replies_data_ack], active, total, by simp [written], by simpa using fits, room, ?_, ?_⟩
      · simp only [mem]
        exact bytesAt_extend stored (@blank_part _ _ _ _ _ blank (Nat.le_refl _) (by omega))
      · simp only [mem, List.length_append]
        exact blank_programmed (blank_part blank (by omega) (by omega)) (.inr (by omega))

theorem boot_shut {d : List UInt8} {b : Boot} (shut : b.active = false) :
    let r := BootCan.handle_frame version fw_keyhash (dataFrame d) b
    Refused r.1 ∧ r.2.active = false := by
  simp only [BootCan.handle_frame_data]
  rw [BootCan.handle_data, if_pos (by simp [shut])]
  exact ⟨⟨_, by simp [refusals], replies_reply _ _⟩, shut⟩

theorem boot_confirm {size arg : Nat} {got : List UInt8} {b : Boot} (storing : Storing size got b) :
    let r := BootCan.handle_frame version fw_keyhash (confirmFrame arg) b
    (replies r.1 = [fw_reply FW_CODE_CONFIRM FW_CODE_CONFIRM_MAGIC] ∧ got.length = size ∧
        bytesAt r.2.dev.mem SLOT0_ADDR got.length = got ∧ r.2.installed = true) ∨
      Refused r.1 := by
  obtain ⟨active, total, written, _, _, stored, _⟩ := storing
  simp only [BootCan.handle_frame_confirm]
  rw [BootCan.confirm, if_neg (by simp [active])]
  split_ifs with short
  · exact .inr ⟨_, by simp [refusals], replies_reply _ _⟩
  · exact .inl ⟨replies_reply _ _, by omega, stored, rfl⟩

theorem boot_reboot (b : Boot) :
    BootCan.handle_frame version fw_keyhash rebootFrame b = ([], { b with confirmed := true }) := by
  have notStart : ¬ command rebootFrame.data = FW_CMD_START := by decide
  have notConfirm : ¬ command rebootFrame.data = FW_CMD_CONFIRM := by decide
  have notVersion : ¬ command rebootFrame.data = FW_CMD_VERSION := by decide
  rw [BootCan.handle_frame, if_pos (by rfl), if_pos (by decide), BootCan.handle_cmd, if_neg (by decide), if_neg notStart,
    if_neg notConfirm, if_neg notVersion, if_pos (by decide)]

theorem boot_key {m : Frame} {b : Boot} (key : m.id = CAN_ID_KEYHASH) :
    (BootCan.handle_frame version fw_keyhash m b).1 = [] := by
  rw [BootCan.handle_frame, if_neg (by rw [key]; decide), if_neg (by rw [key]; decide), if_pos key]
  split_ifs <;> rfl

end

theorem fifo_loses (q : List Frame) (m : Frame) : (fifo q m).Sublist (q ++ [m]) := by
  unfold fifo
  split_ifs
  · exact List.Sublist.refl _
  · exact (List.dropLast_sublist q).append_right [m]

/-- The boot loader takes upgrades. -/
def boot (version fw_keyhash : List UInt8) : Receiver Boot where
  arrive := fifo
  handle := BootCan.handle_frame version fw_keyhash
  drain := boot_can_drain
  Open := Storing
  Shut b := b.active = false
  Holds _ img b := bytesAt b.dev.mem SLOT0_ADDR img.length = img ∧ b.installed = true
  arrive_loses := fifo_loses
  drain_loses m b q := by
    unfold boot_can_drain
    split_ifs
    · exact (List.tail_sublist _).trans (List.dropWhile_sublist _)
    · exact List.Sublist.refl _
  key m b isKey := by
    rw [boot_key isKey]
    rfl
  start size b small := boot_start small
  data size got d b storing some_ _ fits := boot_data storing some_ fits
  shut d b shut := boot_shut shut
  confirm size got arg b _ storing := boot_confirm storing
  reboot arg img b holds := by
    rw [boot_reboot]
    exact holds

end IoEdgeHub.CanUpgrades
