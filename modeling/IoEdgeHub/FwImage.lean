import IoEdgeHub.FwUpg

/-!
What a finished upgrade says about slot1. The read-back loop sees the stored
bytes whatever its block size, a key hash found with failing reads is the one a
faultless device would find, and a session that finishes with success has
stored exactly the bytes it was given.
-/
namespace IoEdgeHub.FwUpg
open IoEdgeHub.Nor IoEdgeHub.W25qxx IoEdgeHub.Bytes IoEdgeHub.Crc

section
variable {keeps : Dev → Prop}

private theorem crc_read_back_keeps (read : ∀ addr len d, keeps d → keeps (w25_read addr len d).2) {off total : Nat}
    {crc : UInt16} {d : Dev} (before : keeps d) : keeps (crc_read_back off total crc d).2 := by
  fun_induction crc_read_back off total crc d with
  | case1 off crc d more d' failed =>
    have after := read (SLOT1_OFFSET + off) (min (total - off) READ_CHUNK) d before
    rwa [failed] at after
  | case2 off crc d more buf d' block ih =>
    have after := read (SLOT1_OFFSET + off) (min (total - off) READ_CHUNK) d before
    rw [block] at after
    exact ih after
  | case3 off crc d all => exact before

private theorem tlv_scan_keeps (read : ∀ addr len d, keeps d → keeps (w25_read addr len d).2) {off tlv_end : Nat}
    {d : Dev} (before : keeps d) : keeps (tlv_scan off tlv_end d).2 := by
  fun_induction tlv_scan off tlv_end d with
  | case1 off d more d' failed =>
    have after := read (SLOT1_OFFSET + off) 4 d before
    rwa [failed] at after
  | case2 off d more ent d' entry found =>
    have after := read (SLOT1_OFFSET + off) 4 d before
    rw [entry] at after
    exact read _ _ _ after
  | case3 off d more ent d' entry other ih =>
    have after := read (SLOT1_OFFSET + off) 4 d before
    rw [entry] at after
    exact ih after
  | case4 off d all => exact before

private theorem tlv_keyhash_get_keeps (read : ∀ addr len d, keeps d → keeps (w25_read addr len d).2) {d : Dev}
    (before : keeps d) : keeps (tlv_keyhash_get d).2 := by
  have area {tlv_off : Nat} {d : Dev} (before : keeps d) : keeps (tlv_area tlv_off d).2 := by
    have after := read (SLOT1_OFFSET + tlv_off) 4 d before
    unfold tlv_area
    split_ifs
    · exact before
    · split <;> rename_i info <;> rw [info] at after
      · exact after
      · split_ifs
        · exact after
        · exact tlv_scan_keeps read after
  have after := read SLOT1_OFFSET 32 d before
  unfold tlv_keyhash_get
  split <;> rename_i header <;> rw [header] at after
  · exact after
  · split_ifs
    · exact after
    · exact after
    · exact area after

/-- What every read keeps, the checks on a stored image keep. -/
theorem image_check_keeps (read : ∀ addr len d, keeps d → keeps (w25_read addr len d).2)
    {fw_keyhash : List UInt8} {total : Nat} {crc : UInt16} {check_crc : Bool} {d : Dev} (before : keeps d) :
    keeps (image_check fw_keyhash total crc check_crc d).2 := by
  unfold image_check
  cases check_crc with
  | false =>
    simp only [Bool.false_eq_true, if_false, ne_eq, not_true]
    exact tlv_keyhash_get_keeps read before
  | true =>
    have after := @crc_read_back_keeps keeps read 0 total 0 d before
    simp only [if_true]
    split_ifs
    · exact after
    · exact tlv_keyhash_get_keeps read after

end

private theorem read_keeps_mem (m : Mem) (addr len : Nat) (d : Dev) (same : d.mem = m) :
    (w25_read addr len d).2.mem = m := (w25_read_mem addr len d).trans same

theorem image_check_mem (fw_keyhash : List UInt8) (total : Nat) (crc : UInt16) (check_crc : Bool) (d : Dev) :
    (image_check fw_keyhash total crc check_crc d).2.mem = d.mem :=
  image_check_keeps (read_keeps_mem d.mem) rfl

/-- On working flash the checks leave the device as it is. -/
theorem image_check_idle {d : Dev} (on : d.power = true) (working : d.fates = []) (fw_keyhash : List UInt8) (total : Nat)
    (crc : UInt16) (check_crc : Bool) : (image_check fw_keyhash total crc check_crc d).2 = d := by
  refine @image_check_keeps (· = d) (fun addr len d' same => ?_) _ _ _ _ _ rfl
  subst same
  unfold w25_read
  split_ifs
  · rfl
  · rfl
  · rw [read_working on working]

/-- One block and the checksum of the rest of the image behind it. -/
private theorem crc_block (m : Mem) (off total : Nat) (crc : UInt16) :
    crc16_ccitt (crc16_ccitt crc (bytesAt m (SLOT1_OFFSET + off) (min (total - off) READ_CHUNK)))
        (bytesAt m (SLOT1_OFFSET + (off + READ_CHUNK)) (total - (off + READ_CHUNK))) =
      crc16_ccitt crc (bytesAt m (SLOT1_OFFSET + off) (total - off)) := by
  rw [← crc16_ccitt_append]
  by_cases whole : total - off ≤ READ_CHUNK
  · rw [Nat.min_eq_left whole, show total - (off + READ_CHUNK) = 0 by omega, bytesAt_zero, List.append_nil]
  · have split : total - off = READ_CHUNK + (total - (off + READ_CHUNK)) := by omega
    rw [Nat.min_eq_right (by omega), ← Nat.add_assoc, ← bytesAt_append, ← split]

/-- The checksum read back is that of the stored bytes. -/
theorem crc_read_back_some {off total : Nat} {crc c : UInt16} {d : Dev}
    (read : (crc_read_back off total crc d).1 = some c) :
    c = crc16_ccitt crc (bytesAt d.mem (SLOT1_OFFSET + off) (total - off)) := by
  fun_induction crc_read_back off total crc d with
  | case1 => simp at read
  | case2 off crc d more buf d' block ih =>
    have mem := w25_read_mem (SLOT1_OFFSET + off) (min (total - off) READ_CHUNK) d
    have stored := @w25_read_some _ _ d buf (by rw [block])
    rw [block] at mem
    rw [ih read, mem, stored, crc_block]
  | case3 off crc d all =>
    rw [show total - off = 0 by omega]
    exact (Option.some.inj read).symm

theorem crc_read_back_working {off total : Nat} {crc : UInt16} {d : Dev} (on : d.power = true)
    (working : d.fates = []) (size : total ≤ SLOT1_SIZE) :
    ∃ c, crc_read_back off total crc d = (some c, d) := by
  have reads {off : Nat} (more : off < total) {d : Dev} (on : d.power = true) (working : d.fates = []) :=
    @w25_read_working (SLOT1_OFFSET + off) (min (total - off) READ_CHUNK) d on working
      (by unfold SLOT1_OFFSET W25Q_CHIP_SIZE; unfold SLOT1_SIZE at size; omega)
  fun_induction crc_read_back off total crc d with
  | case1 off crc d more d' failed => simp [reads more on working] at failed
  | case2 off crc d more buf d' block ih =>
    rw [reads more on working] at block
    obtain rfl : d = d' := congrArg Prod.snd block
    exact ih on working
  | case3 off crc d all => exact ⟨crc, rfl⟩

private theorem tlv_scan_sound {off tlv_end : Nat} {d : Dev} {kh : List UInt8}
    (found : (tlv_scan off tlv_end d).1 = some kh) : (tlv_scan off tlv_end d.sound).1 = some kh := by
  fun_induction tlv_scan off tlv_end d with
  | case1 => simp at found
  | case2 off d more ent d' read entry =>
    obtain ⟨again, same⟩ := w25_read_sound read
    obtain ⟨last, _⟩ := w25_read_sound (Prod.ext found rfl)
    rw [tlv_scan, if_pos more, again]
    simp only [entry, and_self, if_true]
    rw [← same, last]
  | case3 off d more ent d' read other ih =>
    obtain ⟨again, same⟩ := w25_read_sound read
    rw [tlv_scan, if_pos more, again]
    simp only [other, if_false]
    rw [← same]
    exact ih found
  | case4 => simp at found

private theorem tlv_area_sound {tlv_off : Nat} {d : Dev} {kh : List UInt8}
    (found : (tlv_area tlv_off d).1 = some kh) : (tlv_area tlv_off d.sound).1 = some kh := by
  unfold tlv_area at found ⊢
  split_ifs at found ⊢ with bounds
  split at found <;> rename_i read
  · simp at found
  · obtain ⟨again, same⟩ := w25_read_sound read
    rw [again]
    simp only
    split_ifs at found ⊢ with area
    rw [← same]
    exact tlv_scan_sound found

/-- A key hash found while reads may fail is the one the contents hold. -/
theorem tlv_keyhash_get_sound {d : Dev} {kh : List UInt8} (found : (tlv_keyhash_get d).1 = some kh) :
    (tlv_keyhash_get d.sound).1 = some kh := by
  unfold tlv_keyhash_get at found ⊢
  split at found <;> rename_i read
  · simp at found
  · obtain ⟨again, same⟩ := w25_read_sound read
    rw [again]
    simp only
    split_ifs at found ⊢ with magic header
    rw [← same]
    exact tlv_area_sound found

section
variable {fw_keyhash : List UInt8} {crc : UInt16} {check_crc : Bool}

/-- What the checks on a stored image establish. -/
theorem image_check_done {total : Nat} {d : Dev} (passed : (image_check fw_keyhash total crc check_crc d).1 = true) :
    (check_crc = true → crc16_ccitt 0 (bytesAt d.mem SLOT1_OFFSET total) = crc) ∧
      (tlv_keyhash_get d.sound).1 = some fw_keyhash := by
  unfold image_check at passed
  cases check_crc with
  | false =>
    simp only [Bool.false_eq_true, if_false, ne_eq, not_true, decide_eq_true_eq] at passed
    exact ⟨by simp, tlv_keyhash_get_sound passed⟩
  | true =>
    simp only [if_true] at passed
    split_ifs at passed with sum
    have read := crc_read_back_some (not_ne_iff.mp sum)
    have mem := @crc_read_back_keeps (·.mem = d.mem) (read_keeps_mem d.mem) 0 total 0 d rfl
    have found := tlv_keyhash_get_sound (of_decide_eq_true passed)
    rw [Dev.sound, mem] at found
    exact ⟨fun _ => read.symm, found⟩

/-- On working flash the checks pass when checksum and key hash are right. -/
theorem image_check_working {total : Nat} {d : Dev} (on : d.power = true) (working : d.fates = [])
    (size : total ≤ SLOT1_SIZE) (sum : check_crc = true → crc16_ccitt 0 (bytesAt d.mem SLOT1_OFFSET total) = crc)
    (own : (tlv_keyhash_get d.sound).1 = some fw_keyhash) :
    (image_check fw_keyhash total crc check_crc d).1 = true := by
  have same : d.sound = d := by cases d; simp_all [Dev.sound]
  rw [same] at own
  unfold image_check
  cases check_crc with
  | false => simpa using own
  | true =>
    obtain ⟨c, read⟩ := @crc_read_back_working 0 total 0 d on working size
    have right := @crc_read_back_some 0 total 0 c d (by rw [read])
    have expected : c = crc := right.trans (sum rfl)
    simp only [if_true, read, expected, ne_eq, not_true, if_false, own, decide_true]

variable {u : Upg} {got : List UInt8}

theorem fw_upg_finish_ex_idle (idle : u.s.active = false) : fw_upg_finish_ex fw_keyhash crc check_crc u = (-1, u) := by
  rw [fw_upg_finish_ex, if_pos (by simp [idle])]

theorem fw_upg_finish_ex_failed (failed : u.s.failed = true) :
    (fw_upg_finish_ex fw_keyhash crc check_crc u).1 = -1 := by
  have body : finish_body fw_keyhash crc check_crc ⟨u.s.close, u.dev⟩ = (false, ⟨u.s.close, u.dev⟩) := if_pos failed
  unfold fw_upg_finish_ex
  rw [body]
  split_ifs <;> rfl

theorem page_flush_session (page : List UInt8) (v : Upg) :
    (page_flush page v).2.s.written = v.s.written ∧ (page_flush page v).2.s.total = v.s.total := by
  simp only [page_flush]
  split_ifs <;> exact ⟨rfl, rfl⟩

/-- Finishing closes the session whatever comes of it. -/
theorem fw_upg_finish_ex_closed (fw_keyhash : List UInt8) (crc : UInt16) (check_crc : Bool) (u : Upg) :
    (fw_upg_finish_ex fw_keyhash crc check_crc u).2.s.active = false := by
  have flushed (page : List UInt8) (v : Upg) : (page_flush page v).2.s.active = v.s.active := by
    simp only [page_flush]
    split_ifs <;> rfl
  have body (v : Upg) (idle : v.s.active = false) :
      (finish_body fw_keyhash crc check_crc v).2.s.active = false := by
    have kept := flushed v.s.page v
    unfold finish_body
    split_ifs
    · exact idle
    · split <;> rename_i ran <;> rw [ran] at kept
      · exact kept.trans idle
      · unfold finish_check
        split_ifs <;> exact kept.trans idle
  unfold fw_upg_finish_ex
  split_ifs with idle
  · simpa using idle
  · exact body ⟨u.s.close, u.dev⟩ rfl

private theorem finish_check_outcome (tail : Nat) (v : Upg) :
    ((finish_check fw_keyhash crc check_crc tail v).1 = true ↔ v.s.written + tail = v.s.total ∧
      (image_check fw_keyhash v.s.total crc check_crc v.dev).1 = true) ∧
    (finish_check fw_keyhash crc check_crc tail v).2.dev.mem = v.dev.mem := by
  unfold finish_check
  split_ifs with short
  · exact ⟨by simp [short], rfl⟩
  · exact ⟨by simp [not_ne_iff.mp short], image_check_mem _ _ _ _ _⟩

/-- The outcome of finishing an unfailed session, by what the flush of its tail left. -/
private theorem finish_ex_flushed (acc : Accepted u got) {done : Bool} {t : Upg}
    (flushed : page_flush u.s.page ⟨u.s.close, u.dev⟩ = (done, t)) :
    ((fw_upg_finish_ex fw_keyhash crc check_crc u).1 = 0 ↔ done = true ∧ got.length = u.s.total ∧
      (image_check fw_keyhash u.s.total crc check_crc t.dev).1 = true) ∧
    (fw_upg_finish_ex fw_keyhash crc check_crc u).2.dev.mem = t.dev.mem := by
  obtain ⟨written, total⟩ := page_flush_session u.s.page ⟨u.s.close, u.dev⟩
  rw [flushed] at written total
  have received : u.s.written + u.s.page.length = got.length := acc.received
  have body : finish_body fw_keyhash crc check_crc ⟨u.s.close, u.dev⟩ =
      if done then finish_check fw_keyhash crc check_crc u.s.page.length t else (false, t) := by
    rw [finish_body, if_neg (by simp [Session.close, acc.unfailed])]
    simp only [Session.close] at flushed ⊢
    rw [flushed]
    cases done <;> rfl
  unfold fw_upg_finish_ex
  rw [acc.active, body]
  cases done with
  | false => simp
  | true =>
    obtain ⟨passed, mem⟩ := @finish_check_outcome fw_keyhash crc check_crc u.s.page.length t
    simp only at written total
    rw [written, total] at passed
    refine ⟨?_, mem⟩
    rw [← received]
    simpa [Session.close] using passed

/-- What a session that finishes with success leaves in slot1. -/
theorem fw_upg_finish_ex_done (acc : Accepted u got) (done : (fw_upg_finish_ex fw_keyhash crc check_crc u).1 = 0) :
    got.length = u.s.total ∧
      bytesAt (fw_upg_finish_ex fw_keyhash crc check_crc u).2.dev.mem SLOT1_OFFSET got.length = got ∧
      Blank (fw_upg_finish_ex fw_keyhash crc check_crc u).2.dev.mem (SLOT1_OFFSET + got.length)
        (SLOT1_SIZE - got.length) ∧
      (check_crc = true → crc16_ccitt 0 got = crc) ∧
      (tlv_keyhash_get (fw_upg_finish_ex fw_keyhash crc check_crc u).2.dev.sound).1 = some fw_keyhash := by
  obtain ⟨outcome, mem⟩ := @finish_ex_flushed fw_keyhash crc check_crc u got acc _ _ (Prod.eta _).symm
  obtain ⟨flushed, complete, passed⟩ := outcome.mp done
  obtain ⟨stored, blank⟩ := @page_flush_tail u got ⟨u.s.close, u.dev⟩ acc rfl rfl flushed
  obtain ⟨sum, own⟩ := image_check_done passed
  rw [← complete, stored] at sum
  rw [Dev.sound, mem]
  exact ⟨complete, stored, blank, sum, own⟩

/-- On working flash the tail is flushed, and the checks leave the device as it is. -/
private theorem finish_ex_tail (works : Working u) (acc : Accepted u got) :
    (page_flush u.s.page ⟨u.s.close, u.dev⟩).1 = true ∧ Working (page_flush u.s.page ⟨u.s.close, u.dev⟩).2 := by
  have received : u.s.written + u.s.page.length = got.length := acc.received
  have fits := acc.fits
  have size := acc.size
  exact @page_flush_working ⟨u.s.close, u.dev⟩ u.s.page ⟨works.on, works.faultless⟩ acc.aligned (Nat.le_of_lt u.s.room)
    (by simp only [Session.close]; omega)

theorem fw_upg_finish_ex_works (works : Working u) (acc : Accepted u got) :
    Working (fw_upg_finish_ex fw_keyhash crc check_crc u).2 := by
  obtain ⟨flushed, works'⟩ := finish_ex_tail works acc
  have body : Working (finish_body fw_keyhash crc check_crc ⟨u.s.close, u.dev⟩).2 := by
    rw [finish_body, if_neg (by simp [Session.close, acc.unfailed])]
    split <;> rename_i ran
    · simp only [Session.close] at ran flushed
      simp [ran] at flushed
    · simp only [Session.close] at ran works'
      rw [ran] at works'
      unfold finish_check
      split_ifs
      · exact ⟨works'.on, works'.faultless⟩
      · have same := image_check_idle works'.on works'.faultless fw_keyhash
        simp only [same]
        exact ⟨works'.on, works'.faultless⟩
  unfold fw_upg_finish_ex
  rw [acc.active]
  exact ⟨body.on, body.faultless⟩

/-- On working flash finishing stores all of what the session has received. -/
theorem fw_upg_finish_ex_stored (works : Working u) (acc : Accepted u got) :
    bytesAt (fw_upg_finish_ex fw_keyhash crc check_crc u).2.dev.mem SLOT1_OFFSET got.length = got ∧
      Blank (fw_upg_finish_ex fw_keyhash crc check_crc u).2.dev.mem (SLOT1_OFFSET + got.length)
        (SLOT1_SIZE - got.length) := by
  have flushed := (finish_ex_tail works acc).1
  rw [(@finish_ex_flushed fw_keyhash crc check_crc u got acc _ _ (Prod.eta _).symm).2]
  exact @page_flush_tail u got ⟨u.s.close, u.dev⟩ acc rfl rfl flushed

/-- On working flash a session that has received all of a good image finishes with success. -/
theorem fw_upg_finish_ex_working (works : Working u) (acc : Accepted u got) (complete : got.length = u.s.total)
    (sum : check_crc = true → crc16_ccitt 0 got = crc)
    (own : (tlv_keyhash_get (fw_upg_finish_ex fw_keyhash crc check_crc u).2.dev.sound).1 = some fw_keyhash) :
    (fw_upg_finish_ex fw_keyhash crc check_crc u).1 = 0 := by
  have size := acc.size
  obtain ⟨flushed, works'⟩ := finish_ex_tail works acc
  obtain ⟨stored, _⟩ := @page_flush_tail u got ⟨u.s.close, u.dev⟩ acc rfl rfl flushed
  obtain ⟨outcome, mem⟩ := @finish_ex_flushed fw_keyhash crc check_crc u got acc _ _ (Prod.eta _).symm
  rw [Dev.sound, mem] at own
  refine outcome.mpr ⟨flushed, complete, image_check_working works'.on works'.faultless size ?_ own⟩
  rwa [← complete, stored]

end

/-- The `fw_upg_write` calls of a session, with what each of them returned. -/
def write_all : List (List UInt8) → Upg → List Int × Upg
  | [], u => ([], u)
  | data :: rest, u =>
    match fw_upg_write data u with
    | (rc, u) =>
      match write_all rest u with
      | (rcs, u) => (rc :: rcs, u)

section
variable {fw_keyhash : List UInt8} {u : Upg} {got : List UInt8} {chunks : List (List UInt8)}

private theorem write_all_failed (failed : u.s.failed = true) : (write_all chunks u).2 = u := by
  induction chunks with
  | nil => rfl
  | cons data rest ih => simp only [write_all, fw_upg_write_failed failed, ih]

/-- After any writes the session either has accepted all of them or is failed. -/
theorem write_all_accepted (acc : Accepted u got) (short : ∀ c ∈ chunks, c.length < 2^31) :
    (write_all chunks u).2.s.total = u.s.total ∧
      (((∀ rc ∈ (write_all chunks u).1, rc = 0) ∧ Accepted (write_all chunks u).2 (got ++ chunks.flatten)) ∨
        (write_all chunks u).2.s.failed = true) := by
  induction chunks generalizing u got with
  | nil => exact ⟨rfl, .inl ⟨by simp [write_all], by simpa [write_all] using acc⟩⟩
  | cons data rest ih =>
    obtain ⟨total, _, taken | refused⟩ := @fw_upg_write_accepted u got data acc (short data (by simp))
    · obtain ⟨total', outcome⟩ := ih taken.2 fun c member => short c (by simp [member])
      refine ⟨total'.trans total, ?_⟩
      rcases outcome with ⟨zeros, acc'⟩ | failed
      · rw [List.append_assoc] at acc'
        exact .inl ⟨List.forall_mem_cons.mpr ⟨taken.1, zeros⟩, acc'⟩
      · exact .inr failed
    · have stuck := @write_all_failed (fw_upg_write data u).2 rest refused.2
      simp only [write_all, stuck]
      exact ⟨total, .inr refused.2⟩

/-- On working flash all writes that fit together are accepted. -/
theorem write_all_working (works : Working u) (acc : Accepted u got)
    (fits : got.length + chunks.flatten.length ≤ u.s.total) :
    Working (write_all chunks u).2 ∧ Accepted (write_all chunks u).2 (got ++ chunks.flatten) ∧
      (write_all chunks u).2.s.total = u.s.total := by
  induction chunks generalizing u got with
  | nil => exact ⟨works, by simpa [write_all] using acc, rfl⟩
  | cons data rest ih =>
    rw [List.flatten_cons, List.length_append] at fits
    have size := acc.size
    unfold SLOT1_SIZE at size
    obtain ⟨done, works'⟩ := fw_upg_write_working works acc (by omega : got.length + data.length ≤ u.s.total)
    obtain ⟨total, _, taken | refused⟩ := @fw_upg_write_accepted u got data acc (by omega)
    · have next := ih works' taken.2 (by rw [total, List.length_append]; omega)
      rw [List.append_assoc, total] at next
      exact next
    · exact absurd done refused.1

/-- The whole of an upgrade, over any flash and any cut of the image into writes.
    A finish that succeeds leaves exactly the written bytes in slot1, blank flash
    behind them, the checksum and the key hash it was to have; and on working
    flash every good image finishes so. -/
theorem fw_upg_image_integrity {total : Nat} {keyhash : Option (List UInt8)} {crc : UInt16}
    (started : (fw_upg_start fw_keyhash total keyhash u).1 = 0) (short : ∀ c ∈ chunks, c.length < 2^31) :
    let w := write_all chunks (fw_upg_start fw_keyhash total keyhash u).2
    let f := fw_upg_finish fw_keyhash crc w.2
    (f.1 = 0 →
      (∀ rc ∈ w.1, rc = 0) ∧ chunks.flatten.length = total ∧
      bytesAt f.2.dev.mem SLOT1_OFFSET total = chunks.flatten ∧
      Blank f.2.dev.mem (SLOT1_OFFSET + total) (SLOT1_SIZE - total) ∧
      crc16_ccitt 0 (bytesAt f.2.dev.mem SLOT1_OFFSET total) = crc ∧
      (tlv_keyhash_get f.2.dev.sound).1 = some fw_keyhash) ∧
    (Working u → chunks.flatten.length = total → crc16_ccitt 0 chunks.flatten = crc →
      (tlv_keyhash_get f.2.dev.sound).1 = some fw_keyhash → f.1 = 0) := by
  obtain ⟨acc, size⟩ := fw_upg_start_accepted started
  refine ⟨fun done => ?_, fun works complete sum own => ?_⟩
  · obtain ⟨total_, ⟨zeros, acc'⟩ | failed⟩ := write_all_accepted acc short
    · obtain ⟨complete, stored, blank, sum, own⟩ := fw_upg_finish_ex_done acc' done
      rw [List.nil_append, total_, size] at complete
      rw [List.nil_append, complete] at stored blank
      rw [List.nil_append] at sum
      refine ⟨zeros, complete, stored, blank, ?_, own⟩
      exact (congrArg (crc16_ccitt 0) stored).trans (sum rfl)
    · have refused := @fw_upg_finish_ex_failed fw_keyhash crc true _ failed
      exact absurd (refused.symm.trans done) (by decide)
  · have admitted : Admitted fw_keyhash total keyhash u := by
      by_contra refused
      exact (fw_upg_start_refused refused).1 started
    obtain ⟨works', acc', total_⟩ := write_all_working (fw_upg_start_working works admitted).2 acc
      (by rw [size, complete]; simp : [].length + chunks.flatten.length ≤ _)
    exact fw_upg_finish_ex_working works' acc' (by rw [total_, size]; exact complete) (fun _ => sum) own

/-- The smallest image there is: a header with an empty body and a key hash TLV. -/
def smallImage (keyhash : List UInt8) : List UInt8 :=
  io_put_le32 0x96F3B83D ++ List.replicate 4 0 ++ put_le16 IMG_HDR_SIZE ++ List.replicate 502 0 ++
    put_le16 0x6907 ++ put_le16 40 ++ put_le16 0x0001 ++ put_le16 FW_KEYHASH_LEN ++ keyhash

def smallHash : List UInt8 := List.replicate 32 0xA5

theorem small_length : (smallImage smallHash).length = 552 := by
  simp only [smallImage, List.length_append, List.length_replicate, smallHash]
  rfl

/-- An upgrade core after reset, over flash full of zeros. -/
def idle : Upg := ⟨Session.zero, { mem := fun _ => 0 }⟩

/-- The smallest image in three writes, one of them empty. -/
def smallWrites : List (List UInt8) := [(smallImage smallHash).take 300, [], (smallImage smallHash).drop 300]

theorem fw_upg_image_integrity_small :
    (fw_upg_finish smallHash (crc16_ccitt 0 smallWrites.flatten)
      (write_all smallWrites (fw_upg_start smallHash 552 (some smallHash) idle).2).2).1 = 0 := by
  have started : (fw_upg_start smallHash 552 (some smallHash) idle).1 = 0 := by decide +kernel
  have complete : smallWrites.flatten.length = 552 := by decide +kernel
  have integrity := @fw_upg_image_integrity smallHash idle smallWrites 552 (some smallHash)
    (crc16_ccitt 0 smallWrites.flatten) started (by decide +kernel)
  obtain ⟨acc, size⟩ := fw_upg_start_accepted started
  obtain ⟨_, acc', _⟩ := @write_all_working _ _ smallWrites
    (fw_upg_start_working ⟨rfl, rfl⟩ ⟨rfl, by decide, by decide, by simp⟩).2 acc (by rw [size, complete]; decide)
  refine integrity.2 ⟨rfl, rfl⟩ complete rfl ?_
  -- the key hash is looked up in the memory as the flush of the tail leaves it
  rw [fw_upg_finish, Dev.sound, (finish_ex_flushed acc' (Prod.eta _).symm).2]
  decide +kernel

end

end IoEdgeHub.FwUpg
