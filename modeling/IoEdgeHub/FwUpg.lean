import IoEdgeHub.W25qxx
import IoEdgeHub.Bytes
import IoEdgeHub.Crc

/-!
The firmware upgrade core (`fw/fw_upg.c`): one session that buffers an image in
256-byte pages, programs them into slot1 and, when it is finished, reads the
slot back and looks for the key hash of its signature. The three upgrade
channels share the session; every function here is one critical section of the
source.
-/
namespace IoEdgeHub.FwUpg
open IoEdgeHub.Nor IoEdgeHub.W25qxx IoEdgeHub.Bytes IoEdgeHub.Crc

def PAGE_SZ : Nat := 256
def READ_CHUNK : Nat := 64
def FW_KEYHASH_LEN : Nat := 32

theorem empty_room : ([] : List UInt8).length < PAGE_SZ := by decide

/-- The session. `page` holds the buffered bytes `page[0, page_len)`; between
    calls the buffer is never full. -/
structure Session where
  active : Bool
  failed : Bool
  total : Nat
  written : Nat
  page : List UInt8
  room : page.length < PAGE_SZ
  deriving DecidableEq, Repr

structure Upg where
  s : Session
  dev : Dev

def Session.zero : Session := ⟨false, false, 0, 0, [], empty_room⟩

/-- The session with `n` more bytes counted as written. -/
def Session.advance (s : Session) (n : Nat) : Session := ⟨s.active, s.failed, s.total, s.written + n, s.page, s.room⟩

/-- The session with the given bytes in its buffer. -/
def Session.buffer (s : Session) (page : List UInt8) (room : page.length < PAGE_SZ) : Session :=
  ⟨s.active, s.failed, s.total, s.written, page, room⟩

/-- The session marked failed. -/
def Session.fail (s : Session) : Session := ⟨s.active, true, s.total, s.written, s.page, s.room⟩

/-- The session as `fw_upg_finish_ex` closes it before its checks. -/
def Session.close (s : Session) : Session := ⟨false, s.failed, s.total, s.written, s.page, s.room⟩

/-- The session as `fw_upg_finish_ex` leaves it. -/
def Session.clear (s : Session) : Session := ⟨s.active, false, s.total, 0, s.page, s.room⟩

/-- The TLV entries from `off` on. The loop only gets here after a read at the
    start of the area succeeded, so no sum below can reach 2^32. -/
def tlv_scan (off tlv_end : Nat) (d : Dev) : Option (List UInt8) × Dev :=
  if off + 4 ≤ tlv_end then
    match w25_read (SLOT1_OFFSET + off) 4 d with
    | (none, d) => (none, d)
    | (some ent, d) =>
      if get_le16 ent = 0x0001 ∧ get_le16 (ent.drop 2) = FW_KEYHASH_LEN then
        w25_read (SLOT1_OFFSET + off + 4) FW_KEYHASH_LEN d
      else tlv_scan (off + (4 + (get_le16 (ent.drop 2) + 3) / 4 * 4)) tlv_end d
  else (none, d)
termination_by tlv_end - off

/-- The TLV area at `tlv_off`. -/
def tlv_area (tlv_off : Nat) (d : Dev) : Option (List UInt8) × Dev :=
  if (tlv_off + 4) % 2^32 > SLOT1_SIZE ∨ tlv_off % 4 ≠ 0 then (none, d)
  else
    match w25_read (SLOT1_OFFSET + tlv_off) 4 d with
    | (none, d) => (none, d)
    | (some info, d) =>
      if get_le16 info ≠ 0x6907 ∨ get_le16 (info.drop 2) = 0 ∨
          (tlv_off + get_le16 (info.drop 2)) % 2^32 > SLOT1_SIZE then (none, d)
      else tlv_scan (tlv_off + 4) (tlv_off + get_le16 (info.drop 2)) d

def tlv_keyhash_get (d : Dev) : Option (List UInt8) × Dev :=
  match w25_read SLOT1_OFFSET 32 d with
  | (none, d) => (none, d)
  | (some hdr, d) =>
    if io_get_le32 hdr ≠ 0x96F3B83D then (none, d)
    else if get_le16 (hdr.drop 8) ≠ IMG_HDR_SIZE then (none, d)
    else tlv_area ((get_le16 (hdr.drop 8) + io_get_le32 (hdr.drop 12)) % 2^32) d

/-- Programs the buffered bytes and empties the buffer, whatever comes of it. -/
def page_flush (page : List UInt8) (u : Upg) : Bool × Upg :=
  if page.length > 0 then
    let r := w25_write (SLOT1_OFFSET + u.s.written) page u.dev
    (r.1, ⟨u.s.buffer [] empty_room, r.2⟩)
  else (true, u)

/-- A flush of a full page, which counts it as written whatever comes of it. -/
def flush_full (page : List UInt8) (u : Upg) : Bool × Upg :=
  let r := page_flush page u
  (r.1, ⟨r.2.s.advance PAGE_SZ, r.2.dev⟩)

/-- How much of the data the buffer has room for. -/
def chunk (u : Upg) (data : List UInt8) : Nat := min (PAGE_SZ - u.s.page.length) data.length

/-- The buffer with that much of the data copied in. -/
def fill (u : Upg) (data : List UInt8) : List UInt8 := u.s.page ++ data.take (chunk u data)

theorem fill_length (u : Upg) (data : List UInt8) : (fill u data).length = u.s.page.length + chunk u data := by
  simp [fill, chunk]

theorem chunk_pos {u : Upg} {data : List UInt8} (more : ¬ data = []) : 0 < chunk u data ∧ chunk u data ≤ data.length := by
  have room := u.s.room
  have some_ := List.length_pos_iff.mpr more
  unfold chunk
  omega

theorem fill_lt {u : Upg} {data : List UInt8} (partial_ : ¬ (fill u data).length = PAGE_SZ) :
    (fill u data).length < PAGE_SZ := by
  have room := u.s.room
  rw [fill_length] at partial_ ⊢
  unfold chunk at partial_ ⊢
  omega

def write_loop (data : List UInt8) (u : Upg) : Bool × Upg :=
  if data = [] then (true, u)
  else if full : (fill u data).length = PAGE_SZ then
    match flush_full (fill u data) u with
    | (true, u') => write_loop (data.drop (chunk u data)) u'
    | (false, u') => (false, u')
  else
    write_loop (data.drop (chunk u data)) ⟨u.s.buffer (fill u data) (fill_lt full), u.dev⟩
termination_by data.length
decreasing_by
  all_goals
    have := @chunk_pos u data ‹_›
    simp only [List.length_drop]
    omega

section
variable (fw_keyhash : List UInt8)

def fw_upg_start (total : Nat) (keyhash : Option (List UInt8)) (u : Upg) : Int × Upg :=
  if u.s.active then (-3, u)
  else if total < 64 ∨ total > SLOT1_SIZE then (-1, u)
  else if keyhash.any (· ≠ fw_keyhash) then (-2, u)
  else
    match w25_erase SLOT1_OFFSET SLOT1_SIZE u.dev with
    | (false, d) => (-1, ⟨u.s, d⟩)
    | (true, d) => (0, ⟨⟨true, false, total, 0, [], empty_room⟩, d⟩)

def fw_upg_write (data : List UInt8) (u : Upg) : Int × Upg :=
  if !u.s.active then (-1, u)
  else if u.s.failed then (-1, u)
  else if (u.s.written + u.s.page.length + data.length) % 2^32 > u.s.total then
    (-1, ⟨u.s.fail, u.dev⟩)
  else
    match write_loop data u with
    | (true, u) => (0, u)
    | (false, u) => (-1, ⟨u.s.fail, u.dev⟩)

def fw_upg_abort (u : Upg) : Upg :=
  ⟨{ u.s with active := false, failed := false, page := [], written := 0, room := empty_room }, u.dev⟩

/-- The checksum of what slot1 holds from `off` on, read back in 64-byte blocks. -/
def crc_read_back (off total : Nat) (crc : UInt16) (d : Dev) : Option UInt16 × Dev :=
  if off < total then
    match w25_read (SLOT1_OFFSET + off) (min (total - off) READ_CHUNK) d with
    | (none, d) => (none, d)
    | (some buf, d) => crc_read_back (off + READ_CHUNK) total (crc16_ccitt crc buf) d
  else (some crc, d)
termination_by total - off
decreasing_by unfold READ_CHUNK; omega

/-- The checks of `fw_upg_finish_ex` on the stored image: checksum, then key hash. -/
def image_check (total : Nat) (crc_expect : UInt16) (check_crc : Bool) (d : Dev) : Bool × Dev :=
  let r := if check_crc then crc_read_back 0 total 0 d else (some crc_expect, d)
  if r.1 ≠ some crc_expect then (false, r.2)
  else
    let k := tlv_keyhash_get r.2
    (k.1 = some fw_keyhash, k.2)

/-- The checks of `fw_upg_finish_ex` behind the flush of a tail of `tail` bytes. -/
def finish_check (crc_expect : UInt16) (check_crc : Bool) (tail : Nat) (u : Upg) : Bool × Upg :=
  if u.s.written + tail ≠ u.s.total then (false, ⟨u.s.advance tail, u.dev⟩)
  else
    match image_check fw_keyhash u.s.total crc_expect check_crc u.dev with
    | (passed, d) => (passed, ⟨u.s.advance tail, d⟩)

/-- The body of `fw_upg_finish_ex` up to its exit. -/
def finish_body (crc_expect : UInt16) (check_crc : Bool) (u : Upg) : Bool × Upg :=
  if u.s.failed then (false, u)
  else
    match page_flush u.s.page u with
    | (false, u') => (false, u')
    -- the length before the flush: the buffer is empty now
    | (true, u') => finish_check fw_keyhash crc_expect check_crc u.s.page.length u'

def fw_upg_finish_ex (crc_expect : UInt16) (check_crc : Bool) (u : Upg) : Int × Upg :=
  if !u.s.active then (-1, u)
  else
    match finish_body fw_keyhash crc_expect check_crc ⟨u.s.close, u.dev⟩ with
    | (passed, u) => (if passed then 0 else -1, ⟨u.s.clear, u.dev⟩)

def fw_upg_finish (crc_expect : UInt16) (u : Upg) : Int × Upg := fw_upg_finish_ex fw_keyhash crc_expect true u

end

def fw_upg_received (u : Upg) : Nat := u.s.written + u.s.page.length

def fw_upg_total (u : Upg) : Nat := if u.s.active then u.s.total else 0

def fw_upg_active (u : Upg) : Bool := u.s.active

def fw_upg_failed (u : Upg) : Bool := u.s.failed

/-- An unfailed session that has accepted exactly the bytes `got`: whole pages of
    them are stored, the rest is buffered, and slot1 is blank behind them. -/
structure Accepted (u : Upg) (got : List UInt8) : Prop where
  active : u.s.active = true
  unfailed : u.s.failed = false
  aligned : u.s.written % PAGE_SZ = 0
  stored : bytesAt u.dev.mem SLOT1_OFFSET u.s.written ++ u.s.page = got
  fits : got.length ≤ u.s.total
  size : u.s.total ≤ SLOT1_SIZE
  blank : Blank u.dev.mem (SLOT1_OFFSET + u.s.written) (SLOT1_SIZE - u.s.written)

theorem Accepted.received {u : Upg} {got : List UInt8} (acc : Accepted u got) : fw_upg_received u = got.length := by
  rw [← acc.stored, List.length_append, bytesAt_length]
  rfl

section
variable {u : Upg} {got data : List UInt8}

/-- A page that is programmed extends what is stored. -/
private theorem stored_page {page : List UInt8} {m m' : Mem} {written : Nat}
    (stored : bytesAt m SLOT1_OFFSET written ++ page = got) (mem : m' = programmed (SLOT1_OFFSET + written) page m)
    (fits : written + page.length ≤ SLOT1_SIZE)
    (blank : Blank m (SLOT1_OFFSET + written) (SLOT1_SIZE - written)) :
    bytesAt m' SLOT1_OFFSET (written + page.length) = got ∧
      Blank m' (SLOT1_OFFSET + (written + page.length)) (SLOT1_SIZE - (written + page.length)) := by
  have size : (bytesAt m SLOT1_OFFSET written).length = written := bytesAt_length _ _ _
  have extend := @bytesAt_extend m SLOT1_OFFSET (bytesAt m SLOT1_OFFSET written) page (by rw [size])
    (by rw [size]; exact blank_part blank (Nat.le_refl _) (by omega))
  rw [size, List.length_append, size] at extend
  constructor
  · rw [mem, extend, stored]
  · rw [mem]
    exact blank_programmed (blank_part blank (by omega) (by omega)) (.inr (by omega))

/-- What a flush of a full page does, and what it leaves when it succeeds. -/
private theorem flush_full_accepted {page : List UInt8} (acc : Accepted u got) (full : page.length = PAGE_SZ)
    (more : bytesAt u.dev.mem SLOT1_OFFSET u.s.written ++ page = data) (fits : data.length ≤ u.s.total) :
    (flush_full page u).2.s.total = u.s.total ∧ (flush_full page u).2.s.active = true ∧
      ((flush_full page u).1 = true → Accepted (flush_full page u).2 data) := by
  have some_ : page.length > 0 := by rw [full]; decide
  have length : u.s.written + page.length = data.length := by rw [← more, List.length_append, bytesAt_length]
  simp only [flush_full, page_flush, some_, if_true, Session.advance, Session.buffer]
  refine ⟨trivial, acc.active, fun done => ?_⟩
  have mem := w25_write_done done
  obtain ⟨stored, blank⟩ := stored_page more mem (by have := acc.size; omega) acc.blank
  rw [full] at stored blank
  refine ⟨acc.active, acc.unfailed, ?_, by simpa using stored, fits, acc.size, blank⟩
  exact (Nat.add_mod_right _ _).trans acc.aligned

/-- The flush of the tail completes what is stored. -/
theorem page_flush_tail {v : Upg} (acc : Accepted u got) (written : v.s.written = u.s.written) (dev : v.dev = u.dev)
    (done : (page_flush u.s.page v).1 = true) :
    bytesAt (page_flush u.s.page v).2.dev.mem SLOT1_OFFSET got.length = got ∧
      Blank (page_flush u.s.page v).2.dev.mem (SLOT1_OFFSET + got.length) (SLOT1_SIZE - got.length) := by
  have length : u.s.written + u.s.page.length = got.length := acc.received
  have fits := acc.fits
  have size := acc.size
  have mem : (page_flush u.s.page v).2.dev.mem = programmed (SLOT1_OFFSET + u.s.written) u.s.page u.dev.mem := by
    simp only [page_flush] at done ⊢
    split_ifs at done ⊢ with some_
    · rw [← written, ← dev]
      exact w25_write_done done
    · have empty : u.s.page = [] := List.length_eq_zero_iff.mp (by omega)
      rw [empty, programmed_nil, dev]
  rw [← length]
  exact stored_page acc.stored mem (by omega) acc.blank

private theorem fill_stored (acc : Accepted u got) :
    bytesAt u.dev.mem SLOT1_OFFSET u.s.written ++ fill u data = got ++ data.take (chunk u data) := by
  rw [fill, ← List.append_assoc, acc.stored]

private theorem taken_length (more : ¬ data = []) :
    (got ++ data.take (chunk u data)).length + (data.drop (chunk u data)).length = got.length + data.length := by
  have le := (@chunk_pos u data more).2
  simp only [List.length_append, List.length_take, List.length_drop]
  omega

/-- The outcome of the loop of `fw_upg_write` over data that fits: all of it is
    accepted, unless a page program fails. -/
theorem write_loop_accepted (acc : Accepted u got) (fits : got.length + data.length ≤ u.s.total) :
    (write_loop data u).2.s.total = u.s.total ∧ (write_loop data u).2.s.active = true ∧
      ((write_loop data u).1 = true → Accepted (write_loop data u).2 (got ++ data)) := by
  fun_induction write_loop data u generalizing got with
  | case1 u => exact ⟨rfl, acc.active, fun _ => by simpa using acc⟩
  | case2 data u more full u' flushed ih =>
    have length := @taken_length u got data more
    obtain ⟨total, _, next⟩ := flush_full_accepted acc full (fill_stored acc) (by omega)
    rw [flushed] at total next
    have rest := ih (next rfl) (by simp only at total; omega)
    rw [List.append_assoc, List.take_append_drop] at rest
    exact ⟨rest.1.trans total, rest.2⟩
  | case3 data u more full u' failed =>
    have length := @taken_length u got data more
    obtain ⟨total, active, _⟩ := flush_full_accepted acc full (fill_stored acc) (by omega)
    rw [failed] at total active
    exact ⟨total, active, by simp⟩
  | case4 data u more partial_ ih =>
    have length := @taken_length u got data more
    have next : Accepted ⟨u.s.buffer (fill u data) (fill_lt partial_), u.dev⟩ (got ++ data.take (chunk u data)) :=
      ⟨acc.active, acc.unfailed, acc.aligned, fill_stored acc, by simp only [Session.buffer]; omega, acc.size, acc.blank⟩
    have rest := ih next (by simp only [Session.buffer]; omega)
    rwa [List.append_assoc, List.take_append_drop] at rest

/-- The checks that `fw_upg_start` makes before it erases slot1. -/
structure Admitted (fw_keyhash : List UInt8) (total : Nat) (keyhash : Option (List UInt8)) (u : Upg) : Prop where
  idle : u.s.active = false
  low : 64 ≤ total
  high : total ≤ SLOT1_SIZE
  own : ∀ k ∈ keyhash, k = fw_keyhash

section
variable {fw_keyhash : List UInt8} {total : Nat} {keyhash : Option (List UInt8)}

/-- A start that is not admitted is refused and does nothing. -/
theorem fw_upg_start_refused (refused : ¬ Admitted fw_keyhash total keyhash u) :
    (fw_upg_start fw_keyhash total keyhash u).1 ≠ 0 ∧ (fw_upg_start fw_keyhash total keyhash u).2 = u := by
  unfold fw_upg_start
  split_ifs with busy size foreign
  · exact ⟨by simp, rfl⟩
  · exact ⟨by simp, rfl⟩
  · exact ⟨by simp, rfl⟩
  · refine absurd ⟨by simpa using busy, by omega, by omega, ?_⟩ refused
    intro k given
    obtain rfl := Option.mem_def.mp given
    simpa using foreign

/-- A start that is admitted erases slot1, and opens a session when that succeeds. -/
theorem fw_upg_start_admitted (ok : Admitted fw_keyhash total keyhash u) :
    fw_upg_start fw_keyhash total keyhash u =
      match w25_erase SLOT1_OFFSET SLOT1_SIZE u.dev with
      | (false, d) => (-1, ⟨u.s, d⟩)
      | (true, d) => (0, ⟨⟨true, false, total, 0, [], empty_room⟩, d⟩) := by
  have own : keyhash.any (· ≠ fw_keyhash) = false := by
    cases keyhash with
    | none => rfl
    | some k => simp [ok.own k rfl]
  have low := ok.low
  have high := ok.high
  unfold fw_upg_start
  rw [ok.idle, if_neg (by decide), if_neg (by omega), own, if_neg (by decide)]

/-- A successful start opens a session that has accepted nothing yet. -/
theorem fw_upg_start_accepted (started : (fw_upg_start fw_keyhash total keyhash u).1 = 0) :
    Accepted (fw_upg_start fw_keyhash total keyhash u).2 [] ∧
      (fw_upg_start fw_keyhash total keyhash u).2.s.total = total := by
  by_cases ok : Admitted fw_keyhash total keyhash u
  · rw [fw_upg_start_admitted ok] at started ⊢
    split at started <;> rename_i erased_
    · simp at started
    · have mem := w25_erase_done (congrArg Prod.fst erased_)
      rw [erased_] at mem
      exact ⟨⟨rfl, rfl, rfl, rfl, Nat.zero_le _, ok.high, by rw [mem]; exact erased_blank _ _ _⟩, rfl⟩
  · exact absurd started (fw_upg_start_refused ok).1

end

/-- A session takes data that fits and stays as it was otherwise, but for being
    marked failed; either way it stays open. -/
theorem fw_upg_write_accepted (acc : Accepted u got) (short : data.length < 2^31) :
    (fw_upg_write data u).2.s.total = u.s.total ∧ (fw_upg_write data u).2.s.active = true ∧
      (((fw_upg_write data u).1 = 0 ∧ Accepted (fw_upg_write data u).2 (got ++ data)) ∨
        ((fw_upg_write data u).1 ≠ 0 ∧ (fw_upg_write data u).2.s.failed = true)) := by
  have received : u.s.written + u.s.page.length = got.length := acc.received
  have fits := acc.fits
  have size := acc.size
  unfold fw_upg_write
  simp only [acc.active, acc.unfailed, received, Bool.not_true, Bool.false_eq_true, if_false]
  split_ifs with excess
  · exact ⟨rfl, acc.active, .inr ⟨by simp, rfl⟩⟩
  · rw [Nat.mod_eq_of_lt (by unfold SLOT1_SIZE at size; omega)] at excess
    have loop := @write_loop_accepted u got data acc (by omega)
    split <;> rename_i done <;> rw [done] at loop
    · exact ⟨loop.1, loop.2.1, .inl ⟨rfl, loop.2.2 rfl⟩⟩
    · exact ⟨loop.1, loop.2.1, .inr ⟨by simp, rfl⟩⟩

/-- Without a session data is refused. -/
theorem fw_upg_write_idle (idle : u.s.active = false) : fw_upg_write data u = (-1, u) := by
  rw [fw_upg_write, if_pos (by simp [idle])]

/-- A failed session refuses data and does nothing. -/
theorem fw_upg_write_failed (failed : u.s.failed = true) : fw_upg_write data u = (-1, u) := by
  unfold fw_upg_write
  split_ifs <;> rfl

/-- The loop of `fw_upg_write` counts no more bytes than it is given. -/
theorem write_loop_received (data : List UInt8) (u : Upg) :
    (write_loop data u).2.s.total = u.s.total ∧ (write_loop data u).2.s.active = u.s.active ∧
      fw_upg_received (write_loop data u).2 ≤ fw_upg_received u + data.length := by
  have flushed_count {data : List UInt8} {u : Upg} (full : (fill u data).length = PAGE_SZ) :
      fw_upg_received (flush_full (fill u data) u).2 = fw_upg_received u + chunk u data := by
    have some_ : (fill u data).length > 0 := by rw [full]; decide
    have length := fill_length u data
    simp only [flush_full, page_flush, some_, if_true, fw_upg_received, Session.advance, Session.buffer, List.length_nil]
    omega
  have flushed_rest (page : List UInt8) (u : Upg) : (flush_full page u).2.s.total = u.s.total ∧
      (flush_full page u).2.s.active = u.s.active := by
    simp only [flush_full, page_flush]
    split_ifs <;> exact ⟨rfl, rfl⟩
  fun_induction write_loop data u with
  | case1 u => exact ⟨rfl, rfl, by simp⟩
  | case2 data u more full u' flushed ih =>
    have le := (@chunk_pos u data more).2
    have count := flushed_count full
    have rest := flushed_rest (fill u data) u
    rw [flushed] at count rest
    obtain ⟨total, active, received⟩ := ih
    refine ⟨total.trans rest.1, active.trans rest.2, ?_⟩
    simp only [List.length_drop] at received count
    omega
  | case3 data u more full u' failed =>
    have le := (@chunk_pos u data more).2
    have count := flushed_count full
    have rest := flushed_rest (fill u data) u
    rw [failed] at count rest
    exact ⟨rest.1, rest.2, by simp only at count ⊢; omega⟩
  | case4 data u more partial_ ih =>
    have le := (@chunk_pos u data more).2
    have length := fill_length u data
    obtain ⟨total, active, received⟩ := ih
    refine ⟨total, active, ?_⟩
    simp only [fw_upg_received, Session.buffer, List.length_drop] at received ⊢
    omega

/-- A write leaves a session open and takes no more than the session was opened for. -/
theorem fw_upg_write_received (data : List UInt8) (short : data.length < 2^31) (u : Upg) (small : u.s.total ≤ SLOT1_SIZE)
    (fits : fw_upg_received u ≤ u.s.total) :
    (fw_upg_write data u).2.s.total = u.s.total ∧ (fw_upg_write data u).2.s.active = u.s.active ∧
      fw_upg_received (fw_upg_write data u).2 ≤ u.s.total := by
  unfold SLOT1_SIZE at small
  unfold fw_upg_write
  split_ifs with idle failed excess
  · exact ⟨rfl, rfl, fits⟩
  · exact ⟨rfl, rfl, fits⟩
  · exact ⟨rfl, rfl, fits⟩
  · have loop := write_loop_received data u
    unfold fw_upg_received at fits
    rw [Nat.mod_eq_of_lt (by omega)] at excess
    have bound : fw_upg_received u + data.length ≤ u.s.total := by unfold fw_upg_received; omega
    split <;> rename_i ran <;> rw [ran] at loop
    · exact ⟨loop.1, loop.2.1, Nat.le_trans loop.2.2 bound⟩
    · exact ⟨loop.1, loop.2.1, Nat.le_trans loop.2.2 bound⟩

/-- Every flash operation from here on succeeds. -/
structure Working (u : Upg) : Prop where
  on : u.dev.power = true
  faultless : u.dev.fates = []

theorem page_flush_working {page : List UInt8} (works : Working u) (aligned : u.s.written % PAGE_SZ = 0)
    (one : page.length ≤ PAGE_SZ) (fits : u.s.written + page.length ≤ SLOT1_SIZE) :
    (page_flush page u).1 = true ∧ Working (page_flush page u).2 := by
  unfold PAGE_SZ at aligned one
  unfold SLOT1_SIZE at fits
  simp only [page_flush]
  split_ifs with some_
  · rw [w25_write_eq some_ (by unfold W25Q_PAGE_SIZE SLOT1_OFFSET; omega)
      (by unfold W25Q_CHIP_SIZE SLOT1_OFFSET; omega), Dev.program, operate_working works.on works.faultless]
    exact ⟨rfl, works.on, works.faultless⟩
  · exact ⟨rfl, works⟩

private theorem write_loop_working (works : Working u) (acc : Accepted u got)
    (fits : got.length + data.length ≤ u.s.total) :
    (write_loop data u).1 = true ∧ Working (write_loop data u).2 := by
  have flushes {data got : List UInt8} {u : Upg} (works : Working u) (acc : Accepted u got) (more : ¬ data = [])
      (full : (fill u data).length = PAGE_SZ) (fits : got.length + data.length ≤ u.s.total) :
      (flush_full (fill u data) u).1 = true ∧ Working (flush_full (fill u data) u).2 := by
    have length := congrArg List.length (@fill_stored u got data acc)
    have taken := @taken_length u got data more
    rw [List.length_append, bytesAt_length] at length
    obtain ⟨done, works'⟩ := page_flush_working works acc.aligned (Nat.le_of_eq full) (by have := acc.size; omega)
    exact ⟨done, works'.on, works'.faultless⟩
  fun_induction write_loop data u generalizing got with
  | case1 u => exact ⟨rfl, works⟩
  | case2 data u more full u' flushed ih =>
    have length := @taken_length u got data more
    obtain ⟨total, _, next⟩ := flush_full_accepted acc full (fill_stored acc) (by omega)
    have works' := (flushes works acc more full fits).2
    rw [flushed] at total next works'
    exact ih works' (next rfl) (by simp only at total; omega)
  | case3 data u more full u' failed =>
    have done := (flushes works acc more full fits).1
    simp [failed] at done
  | case4 data u more partial_ ih =>
    have length := @taken_length u got data more
    have next : Accepted ⟨u.s.buffer (fill u data) (fill_lt partial_), u.dev⟩ (got ++ data.take (chunk u data)) :=
      ⟨acc.active, acc.unfailed, acc.aligned, fill_stored acc, by simp only [Session.buffer]; omega, acc.size, acc.blank⟩
    exact ih ⟨works.on, works.faultless⟩ next (by simp only [Session.buffer]; omega)

/-- With working flash a session takes all data that fits. -/
theorem fw_upg_write_working (works : Working u) (acc : Accepted u got)
    (fits : got.length + data.length ≤ u.s.total) :
    (fw_upg_write data u).1 = 0 ∧ Working (fw_upg_write data u).2 := by
  have received : u.s.written + u.s.page.length = got.length := acc.received
  have size := acc.size
  obtain ⟨done, works'⟩ := write_loop_working works acc fits
  unfold fw_upg_write
  simp only [acc.active, acc.unfailed, received, Bool.not_true, Bool.false_eq_true, if_false]
  rw [Nat.mod_eq_of_lt (by unfold SLOT1_SIZE at size; omega), if_neg (by omega)]
  split <;> rename_i ran <;> rw [ran] at done works'
  · exact ⟨rfl, works'⟩
  · simp at done

/-- With working flash a start that is admitted succeeds. -/
theorem fw_upg_start_working {fw_keyhash : List UInt8} {total : Nat} {keyhash : Option (List UInt8)}
    (works : Working u) (ok : Admitted fw_keyhash total keyhash u) :
    (fw_upg_start fw_keyhash total keyhash u).1 = 0 ∧ Working (fw_upg_start fw_keyhash total keyhash u).2 := by
  rw [fw_upg_start_admitted ok,
    w25_erase_working works.on works.faultless (by decide) (by decide) (by decide) (by decide)]
  exact ⟨rfl, works.on, works.faultless⟩

end

end IoEdgeHub.FwUpg
