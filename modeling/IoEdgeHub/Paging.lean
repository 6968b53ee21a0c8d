import IoEdgeHub.ConfigStore
import IoEdgeHub.Confinement
import IoEdgeHub.FlashMap
import IoEdgeHub.FwImage
import IoEdgeHub.Machine

/-!
How the writers of the NOR flash keep to its pages. Each of them is shown to issue an explicit
list of `io_flash` writes, up to the first that fails; the list cuts the caller's bytes at the
pages. The upgrade core buffers its pages, and issues those of a session over several calls.
-/
namespace IoEdgeHub.Paging
open IoEdgeHub.Nor IoEdgeHub.W25qxx IoEdgeHub.Confinement IoEdgeHub.FwUpg IoEdgeHub.LfsPort IoEdgeHub.FlashMap

/-- Writes at addresses. -/
abbrev Writes := List (Nat × List UInt8)

/-- Issues the writes one after the other, until one fails. -/
def issue : Writes → Dev → Bool × Dev
  | [], d => (true, d)
  | (addr, buf) :: rest, d =>
    match w25_write addr buf d with
    | (true, d) => issue rest d
    | (false, d) => (false, d)

/-- The writes put the bytes at the address, one behind the other; none is empty or longer than
    a page, and none crosses one. -/
inductive Cut : Nat → List UInt8 → Writes → Prop
  | nil (addr : Nat) : Cut addr [] []
  | cons {addr : Nat} {buf rest : List UInt8} {writes : Writes} (some_ : 0 < buf.length) (short : buf.length ≤ 256)
      (page : addr % 256 + buf.length ≤ 256) (behind : Cut (addr + buf.length) rest writes) :
      Cut addr (buf ++ rest) ((addr, buf) :: writes)

/-- The bytes cut at the pages. -/
def pages (addr : Nat) (buf : List UInt8) : Writes :=
  if buf = [] then []
  else
    let n := min buf.length (256 - addr % 256)
    (addr, buf.take n) :: pages (addr + n) (buf.drop n)
termination_by buf.length
decreasing_by
  have := List.length_pos_iff.mpr ‹¬ buf = []›
  simp only [List.length_drop]
  omega

@[simp] theorem pages_nil (addr : Nat) : pages addr [] = [] := by rw [pages, if_pos rfl]

theorem cut_pages (addr : Nat) (buf : List UInt8) : Cut addr buf (pages addr buf) := by
  fun_induction pages addr buf with
  | case1 addr => exact .nil addr
  | case2 addr buf more n ih =>
    have some_ := List.length_pos_iff.mpr more
    have size : (buf.take n).length = n := List.length_take_of_le (Nat.min_le_left _ _)
    have step : Cut addr (buf.take n ++ buf.drop n) ((addr, buf.take n) :: pages (addr + n) (buf.drop n)) :=
      .cons (by omega) (by omega) (by omega) (by rw [size]; exact ih)
    rwa [List.take_append_drop] at step

section
variable {addr : Nat} {buf : List UInt8} {writes : Writes}

theorem cut_append {more : List UInt8} {behind : Writes} (first : Cut addr buf writes)
    (second : Cut (addr + buf.length) more behind) : Cut addr (buf ++ more) (writes ++ behind) := by
  induction first with
  | nil => simpa using second
  | cons some_ short page _ ih =>
    rw [List.append_assoc, List.cons_append]
    refine .cons some_ short page (ih ?_)
    rwa [List.length_append, ← Nat.add_assoc] at second

/-- The checks of `w25_write` on length and page let such writes through. -/
theorem w25_write_cut (cut : Cut addr buf writes) {w : Nat × List UInt8} (member : w ∈ writes) (d : Dev) :
    w25_write w.1 w.2 d =
      if w.1 ≥ W25Q_CHIP_SIZE ∨ W25Q_CHIP_SIZE - w.1 < w.2.length then (false, d) else d.program w.1 w.2 := by
  induction cut with
  | nil => simp at member
  | cons some_ short page _ ih =>
    rcases List.mem_cons.mp member with rfl | member
    · simp only [w25_write, W25Q_PAGE_SIZE]
      rw [if_neg (by omega), if_neg (by omega), if_neg (by omega)]
    · exact ih member

end

section
variable {E P : Nat → Prop} {d : Dev}

theorem w25_read_confined (addr len : Nat) (d : Dev) : Confined E P d (w25_read addr len d).2 := by
  unfold w25_read
  split_ifs
  · exact .done d
  · exact .done d
  · exact confined_read addr len

theorem w25_write_confined (addr : Nat) (buf : List UInt8) (d : Dev) :
    Confined E (Range addr buf.length) d (w25_write addr buf d).2 := by
  unfold w25_write
  split_ifs
  · exact .done d
  · exact .done d
  · exact .done d
  · exact .done d
  · exact confined_program addr buf

private theorem erase_loop_confined {addr len : Nat} (whole : len % W25Q_SECTOR_SIZE = 0) :
    Confined (Range addr len) P d (erase_loop addr len d).2 := by
  fun_induction erase_loop addr len d with
  | case1 addr d => exact .done d
  | case2 addr len d more d' erased_ ih =>
    obtain ⟨fits, rest⟩ := @erase_chunk_le addr len (Nat.pos_of_ne_zero more) whole
    refine .erase addr (erase_chunk addr len) ?_ ?_
    · intro a within
      unfold Range at within ⊢
      omega
    · rw [erased_]
      refine (ih rest).mono ?_ fun _ program => program
      intro a within
      unfold Range at within ⊢
      omega
  | case3 addr len d more d' failed =>
    obtain ⟨fits, _⟩ := @erase_chunk_le addr len (Nat.pos_of_ne_zero more) whole
    refine .erase addr (erase_chunk addr len) ?_ ?_
    · intro a within
      unfold Range at within ⊢
      omega
    · rw [failed]
      exact .done d'

theorem w25_erase_confined (addr len : Nat) (d : Dev) : Confined (Range addr len) P d (w25_erase addr len d).2 := by
  unfold w25_erase
  split_ifs with refused
  · exact .done d
  · exact .done d
  · exact erase_loop_confined (by omega)

end

theorem issue_confined {E : Nat → Prop} {addr : Nat} {buf : List UInt8} {writes : Writes} (cut : Cut addr buf writes)
    (d : Dev) : Confined E (Range addr buf.length) d (issue writes d).2 := by
  induction cut generalizing d with
  | nil => exact .done d
  | @cons addr buf rest writes _ _ _ _ ih =>
    have first : Confined E (Range addr (buf ++ rest).length) d (w25_write addr buf d).2 := by
      refine (w25_write_confined addr buf d).mono (fun _ erase => erase) fun a within => ?_
      simp only [Range, List.length_append] at within ⊢
      omega
    rw [issue]
    split <;> rename_i wrote <;> rw [wrote] at first
    · refine first.trans ((ih _).mono (fun _ erase => erase) fun a within => ?_)
      simp only [Range, List.length_append] at within ⊢
      omega
    · exact first

theorem write_pages_issue (addr : Nat) (buf : List UInt8) (d : Dev) :
    ConfigStore.write_pages addr buf d = issue (pages addr buf) d := by
  fun_induction ConfigStore.write_pages addr buf d with
  | case1 addr d => simp [issue]
  | case2 addr buf d more d' written ih =>
    rw [pages, if_neg more, issue, written]
    exact ih
  | case3 addr buf d more d' failed => rw [pages, if_neg more, issue, failed]

theorem page_loop_issue {addr : Nat} {p : List UInt8} {d : Dev} (inside : addr + p.length < 2^32) :
    page_loop addr p d = issue (pages addr p) d := by
  fun_induction page_loop addr p d with
  | case1 addr d => simp [issue]
  | case2 addr p d more d' written ih =>
    have some_ := List.length_pos_iff.mpr more
    have below : (addr + min (256 - addr % 256) p.length) % 2^32 = addr + min (256 - addr % 256) p.length :=
      Nat.mod_eq_of_lt (by omega)
    rw [below] at ih ⊢
    rw [pages, if_neg more, issue, Nat.min_comm p.length, written]
    exact ih (by rw [List.length_drop]; omega)
  | case3 addr p d more d' failed => rw [pages, if_neg more, issue, Nat.min_comm p.length, failed]

theorem lf_prog_issue {block off : Nat} {buffer : List UInt8} (inside : InBlock block off buffer.length) (d : Dev) :
    lf_prog block off buffer d = issue (pages (LFS_OFFSET + block * PORT_BLOCK_SIZE + off) buffer) d := by
  obtain ⟨addr, _, high⟩ := block_addr_eq inside
  rw [lf_prog, if_pos inside, page_loop_issue (by unfold W25Q_CHIP_SIZE at high; omega), addr]

/-- A write to an area of the NOR flash that reaches into it is refused, or issued at its address. -/
theorem flash_area_write_issue {id : AreaId} (nor : (areas id).fa_device_id = .nor) {off : Nat} {src : List UInt8}
    (unwrapped : off + src.length < 2^32) (f : Flash) :
    flash_area_write (areas id) off src f =
      if off + src.length > (areas id).fa_size then (false, f)
      else
        ((issue (pages ((areas id).fa_off + off) src) f.nor).1,
          { f with nor := (issue (pages ((areas id).fa_off + off) src) f.nor).2 }) := by
  have small : (areas id).fa_off + (areas id).fa_size < 2^32 := by cases id <;> decide
  unfold flash_area_write
  rw [Nat.mod_eq_of_lt unwrapped]
  split_ifs with outside
  · rfl
  · rw [nor, Nat.mod_eq_of_lt (by omega), page_loop_issue (by omega)]

theorem pages_full {addr : Nat} (aligned : addr % 256 = 0) {buf : List UInt8} (long : 256 ≤ buf.length) :
    pages addr buf = (addr, buf.take 256) :: pages (addr + 256) (buf.drop 256) := by
  have more : ¬ buf = [] := by
    rintro rfl
    simp at long
  rw [pages, if_neg more, aligned, Nat.sub_zero, Nat.min_eq_right long]

section
variable {u : Upg} {data : List UInt8}

/-- What the buffer holds and what is to come. -/
def stream (u : Upg) (data : List UInt8) : List UInt8 := u.s.page ++ data

/-- The bytes of the stream that fill whole pages. -/
def full (u : Upg) (data : List UInt8) : Nat := (stream u data).length / 256 * 256

theorem fill_full (whole : (fill u data).length = PAGE_SZ) :
    fill u data = (stream u data).take 256 ∧ data.drop (chunk u data) = (stream u data).drop 256 := by
  have size : u.s.page.length + chunk u data = 256 := by rw [← fill_length, whole]; rfl
  constructor
  · rw [fill, stream, ← size, List.take_append, List.take_of_length_le (Nat.le_add_right _ _), Nat.add_sub_cancel_left]
  · rw [stream, ← size, List.drop_append, List.drop_eq_nil_of_le (Nat.le_add_right _ _), Nat.add_sub_cancel_left,
      List.nil_append]

theorem fill_partial (partial_ : ¬ (fill u data).length = PAGE_SZ) :
    fill u data = stream u data ∧ data.drop (chunk u data) = [] ∧ (stream u data).length < 256 := by
  have room := fill_lt partial_
  rw [fill_length] at room
  unfold PAGE_SZ at room
  have all : chunk u data = data.length := by
    unfold chunk PAGE_SZ at *
    omega
  rw [all] at room
  refine ⟨by rw [fill, all, List.take_length]; rfl, by rw [all, List.drop_length], ?_⟩
  rw [stream, List.length_append]
  exact room

/-- A flush of a full page is one write. -/
theorem flush_full_eq {page : List UInt8} (some_ : page.length > 0) :
    flush_full page u = ((w25_write (SLOT1_OFFSET + u.s.written) page u.dev).1,
      ⟨(u.s.buffer [] empty_room).advance PAGE_SZ, (w25_write (SLOT1_OFFSET + u.s.written) page u.dev).2⟩) := by
  simp only [flush_full, page_flush, some_, if_true]

/-- What the loop of `fw_upg_write` leaves when every write succeeds. -/
structure Buffered (u : Upg) (data : List UInt8) (u' : Upg) : Prop where
  written : u'.s.written = u.s.written + full u data
  page : u'.s.page = (stream u data).drop (full u data)

/-- The writes of a stream that fills a page begin with that page. -/
theorem pages_stream (aligned : u.s.written % 256 = 0) (whole : (fill u data).length = PAGE_SZ) :
    256 ≤ full u data ∧
      pages (SLOT1_OFFSET + u.s.written) ((stream u data).take (full u data)) =
        (SLOT1_OFFSET + u.s.written, fill u data) ::
          pages (SLOT1_OFFSET + u.s.written + 256) (((stream u data).drop 256).take (full u data - 256)) := by
  obtain ⟨filled, _⟩ := fill_full whole
  have long : 256 ≤ (stream u data).length := by
    have size := congrArg List.length filled
    rw [whole, List.length_take] at size
    unfold PAGE_SZ at size
    omega
  have some_ : 256 ≤ full u data := by
    unfold full
    omega
  have fits : full u data ≤ (stream u data).length := by
    unfold full
    omega
  refine ⟨some_, ?_⟩
  rw [pages_full (by unfold SLOT1_OFFSET; omega) (by rw [List.length_take]; omega), List.take_take,
    Nat.min_eq_left some_, ← filled, List.drop_take]

/-- The loop of `fw_upg_write` issues the whole pages of the stream and keeps the rest. -/
theorem write_loop_issue (aligned : u.s.written % 256 = 0) :
    let r := issue (pages (SLOT1_OFFSET + u.s.written) ((stream u data).take (full u data))) u.dev
    (write_loop data u).1 = r.1 ∧ (write_loop data u).2.dev = r.2 ∧
      (r.1 = true → Buffered u data (write_loop data u).2) := by
  fun_induction write_loop data u with
  | case1 u =>
    have room := u.s.room
    have none_ : full u [] = 0 := by
      simp only [full, stream, List.append_nil]
      unfold PAGE_SZ at room
      omega
    rw [none_]
    refine ⟨by simp [issue], by simp [issue], fun _ => ⟨by simp [none_], by simp [none_, stream]⟩⟩
  | case2 data u more whole u' flushed ih =>
    obtain ⟨filled, behind⟩ := fill_full whole
    obtain ⟨some_, first⟩ := pages_stream aligned whole
    rw [flush_full_eq (by rw [whole]; decide)] at flushed
    obtain ⟨done, same⟩ := Prod.mk.inj flushed
    have written' : u'.s.written = u.s.written + 256 := by rw [← same]; rfl
    have page' : u'.s.page = [] := by rw [← same]; rfl
    have wrote : w25_write (SLOT1_OFFSET + u.s.written) (fill u data) u.dev = (true, u'.dev) := by
      rw [← same]
      exact Prod.ext done rfl
    have later : stream u' (data.drop (chunk u data)) = (stream u data).drop 256 := by
      rw [stream, page', List.nil_append, behind]
    have left : full u' (data.drop (chunk u data)) = full u data - 256 := by
      rw [full, later, List.length_drop, full]
      omega
    have next := ih (by rw [written']; omega)
    rw [later, left, written', ← Nat.add_assoc] at next
    rw [first, issue, wrote]
    obtain ⟨same_, dev, buffered⟩ := next
    refine ⟨same_, dev, fun all => ?_⟩
    obtain ⟨written, page⟩ := buffered all
    constructor
    · rw [written, left, written']
      omega
    · have split : (stream u data).drop (256 + (full u data - 256)) = (stream u data).drop (full u data) :=
        congrArg (fun n => (stream u data).drop n) (by omega)
      rw [page, later, left, List.drop_drop, split]
  | case3 data u more whole u' failed =>
    obtain ⟨_, first⟩ := pages_stream aligned whole
    rw [flush_full_eq (by rw [whole]; decide)] at failed
    obtain ⟨refused, rfl⟩ := Prod.mk.inj failed
    have wrote : w25_write (SLOT1_OFFSET + u.s.written) (fill u data) u.dev =
        (false, (w25_write (SLOT1_OFFSET + u.s.written) (fill u data) u.dev).2) := Prod.ext refused rfl
    rw [first, issue, wrote]
    exact ⟨rfl, rfl, by simp⟩
  | case4 data u more partial_ ih =>
    obtain ⟨filled, rest, short⟩ := fill_partial partial_
    have none_ : full u data = 0 := by
      unfold full
      omega
    have done (v : Upg) : write_loop [] v = (true, v) := by rw [write_loop, if_pos rfl]
    rw [rest, done, none_]
    refine ⟨by simp [issue], by simp [issue], fun _ => ⟨by simp [none_, Session.buffer], ?_⟩⟩
    simp [none_, Session.buffer, filled]

theorem write_loop_aligned (aligned : u.s.written % 256 = 0) : (write_loop data u).2.s.written % 256 = 0 := by
  have flushed {page : List UInt8} {v : Upg} (aligned : v.s.written % 256 = 0) :
      (flush_full page v).2.s.written % 256 = 0 := by
    have same := (page_flush_session page v).1
    simp only [flush_full, Session.advance, PAGE_SZ, same]
    omega
  fun_induction write_loop data u with
  | case1 u => exact aligned
  | case2 data u more whole u' done ih =>
    have step := @flushed (fill u data) u aligned
    rw [done] at step
    exact ih step
  | case3 data u more whole u' failed =>
    have step := @flushed (fill u data) u aligned
    rwa [failed] at step
  | case4 data u more partial_ ih => exact ih aligned

end

/-! ### Whole sessions -/

/-- A call of the upgrade core. -/
inductive FwCall
  | start (total : Nat) (keyhash : Option (List UInt8))
  | write (data : List UInt8)
  | finish (crc_expect : UInt16) (check_crc : Bool)
  | abort

def FwCall.run (fw_keyhash : List UInt8) : FwCall → Upg → Upg
  | .start total keyhash, u => (fw_upg_start fw_keyhash total keyhash u).2
  | .write data, u => (fw_upg_write data u).2
  | .finish crc_expect check_crc, u => (fw_upg_finish_ex fw_keyhash crc_expect check_crc u).2
  | .abort, u => fw_upg_abort u

/-- The checks of `fw_upg_write` let the data through. -/
def Taken (u : Upg) (data : List UInt8) : Prop :=
  u.s.active = true ∧ u.s.failed = false ∧ ¬ (u.s.written + u.s.page.length + data.length) % 2^32 > u.s.total

instance (u : Upg) (data : List UInt8) : Decidable (Taken u data) := by unfold Taken; infer_instance

/-- The bytes that a call hands to the flash: whole pages, or at the end what is left. -/
def handed : FwCall → Upg → List UInt8
  | .write data, u => if Taken u data then (stream u data).take (full u data) else []
  | .finish _ _, u => if u.s.active = true ∧ u.s.failed = false then u.s.page else []
  | _, _ => []

/-- The writes that a call issues, up to the first that fails. -/
def issued (c : FwCall) (u : Upg) : Writes := pages (SLOT1_OFFSET + u.s.written) (handed c u)

/-- The writes of a list that are issued: up to the first that fails, with that one. -/
def attempted : Writes → Dev → Writes
  | [], _ => []
  | (addr, buf) :: rest, d =>
    (addr, buf) ::
      match w25_write addr buf d with
      | (true, d) => attempted rest d
      | (false, _) => []

theorem cut_attempted {addr : Nat} {buf : List UInt8} {writes : Writes} (cut : Cut addr buf writes) (d : Dev) :
    ∃ done rest, buf = done ++ rest ∧ Cut addr done (attempted writes d) ∧ ((issue writes d).1 = true → rest = []) := by
  induction cut generalizing d with
  | nil addr => exact ⟨[], [], rfl, .nil addr, fun _ => rfl⟩
  | @cons addr buf behind writes some_ short page _ ih =>
    rcases wrote : w25_write addr buf d with ⟨ok, d'⟩
    cases ok with
    | true =>
      obtain ⟨done, rest, split, cut, all⟩ := ih d'
      refine ⟨buf ++ done, rest, by rw [split, List.append_assoc], ?_, ?_⟩
      · rw [attempted, wrote]
        exact .cons some_ short page cut
      · rw [issue, wrote]
        exact all
    | false =>
      refine ⟨buf, behind, rfl, ?_, ?_⟩
      · rw [attempted, wrote]
        simpa using Cut.cons some_ short page (.nil (addr + buf.length))
      · rw [issue, wrote]
        simp

/-- The core, the bytes that its session was given, and the writes issued for them. -/
structure Logged where
  upg : Upg
  got : List UInt8 := []
  log : Writes := []

section
variable (fw_keyhash : List UInt8)

def got_after (l : Logged) : FwCall → List UInt8
  | .start total keyhash => if (fw_upg_start fw_keyhash total keyhash l.upg).1 = 0 then [] else l.got
  | .write data => if Taken l.upg data then l.got ++ data else l.got
  | _ => l.got

def log_after (l : Logged) : FwCall → Writes
  | .start total keyhash => if (fw_upg_start fw_keyhash total keyhash l.upg).1 = 0 then [] else l.log
  | c => l.log ++ attempted (issued c l.upg) l.upg.dev

def step (l : Logged) (c : FwCall) : Logged :=
  { upg := c.run fw_keyhash l.upg, got := got_after fw_keyhash l c, log := log_after fw_keyhash l c }

end

/-- The writes of the session cut the bytes it was given, up to those in the buffer. -/
structure Paged (l : Logged) : Prop where
  aligned : l.upg.s.written % 256 = 0
  cut : ∃ stored rest, l.got = stored ++ rest ∧ Cut SLOT1_OFFSET stored l.log ∧
    (l.upg.s.active = true → l.upg.s.failed = false → rest = l.upg.s.page ∧ stored.length = l.upg.s.written)

section
variable {fw_keyhash : List UInt8} {u : Upg} {data : List UInt8} {l : Logged}

theorem write_untaken (refused : ¬ Taken u data) :
    (fw_upg_write data u).2 = u ∨ (fw_upg_write data u).2 = ⟨u.s.fail, u.dev⟩ := by
  unfold fw_upg_write
  split_ifs with idle failed excess
  · exact .inl rfl
  · exact .inl rfl
  · exact .inr rfl
  · exact absurd ⟨by simpa using idle, by simpa using failed, excess⟩ refused

theorem write_taken (taken : Taken u data) :
    (fw_upg_write data u).2 =
      if (write_loop data u).1 then (write_loop data u).2
      else ⟨(write_loop data u).2.s.fail, (write_loop data u).2.dev⟩ := by
  obtain ⟨active, unfailed, fits⟩ := taken
  unfold fw_upg_write
  rw [active, unfailed, if_neg (by simp), if_neg (by simp), if_neg fits]
  split <;> rename_i done <;> rw [done] <;> rfl

theorem pages_short {addr : Nat} (aligned : addr % 256 = 0) {buf : List UInt8} (some_ : 0 < buf.length)
    (short : buf.length < 256) : pages addr buf = [(addr, buf)] := by
  have more : ¬ buf = [] := List.length_pos_iff.mp some_
  rw [pages, if_neg more, aligned, Nat.sub_zero, Nat.min_eq_left (by omega)]
  simp

theorem issue_one (addr : Nat) (buf : List UInt8) (d : Dev) : issue [(addr, buf)] d = w25_write addr buf d := by
  rcases wrote : w25_write addr buf d with ⟨ok, d'⟩
  cases ok <;> simp [issue, wrote]

/-- The flush at the end of a session is one write, if there is anything to flush. -/
theorem page_flush_issue (aligned : u.s.written % 256 = 0) :
    page_flush u.s.page ⟨u.s.close, u.dev⟩ =
      ((issue (pages (SLOT1_OFFSET + u.s.written) u.s.page) u.dev).1,
        ⟨u.s.close.buffer [] empty_room, (issue (pages (SLOT1_OFFSET + u.s.written) u.s.page) u.dev).2⟩) := by
  have room := u.s.room
  unfold PAGE_SZ at room
  have from_ : (SLOT1_OFFSET + u.s.written) % 256 = 0 := by
    unfold SLOT1_OFFSET
    omega
  unfold page_flush
  split_ifs with some_
  · rw [pages_short from_ some_ room, issue_one]
    rfl
  · have empty : u.s.page = [] := List.length_eq_zero_iff.mp (by omega)
    have same : u.s.close = u.s.close.buffer [] empty_room := by
      cases session : u.s
      simp only [session] at empty
      simp [Session.close, Session.buffer, empty]
    rw [empty, ← same]
    simp [issue]

/-- Behind the flush a finish only reads. -/
theorem finish_reads {crc : UInt16} {check_crc : Bool} (open_ : u.s.active = true ∧ u.s.failed = false)
    {E P : Nat → Prop} :
    Confined E P (page_flush u.s.page ⟨u.s.close, u.dev⟩).2.dev
      (fw_upg_finish_ex fw_keyhash crc check_crc u).2.dev := by
  have body : Confined E P (page_flush u.s.page ⟨u.s.close, u.dev⟩).2.dev
      (finish_body fw_keyhash crc check_crc ⟨u.s.close, u.dev⟩).2.dev := by
    rw [finish_body, if_neg (by simp [Session.close, open_.2])]
    have page : (⟨u.s.close, u.dev⟩ : Upg).s.page = u.s.page := rfl
    rw [page]
    split <;> rename_i u' flushed <;> rw [flushed]
    · exact .done _
    · unfold finish_check
      split_ifs
      · exact .done _
      · exact @image_check_keeps (Confined E P u'.dev)
          (fun addr len d before => before.trans (w25_read_confined addr len d)) _ _ _ _ _ (.done _)
  unfold fw_upg_finish_ex
  rw [open_.1]
  exact body

theorem finish_unopened {crc : UInt16} {check_crc : Bool} (closed : ¬ (u.s.active = true ∧ u.s.failed = false)) :
    (fw_upg_finish_ex fw_keyhash crc check_crc u).2.dev = u.dev := by
  unfold fw_upg_finish_ex
  split_ifs with idle
  · rfl
  · have failed : u.s.failed = true := by
      by_contra unfailed
      exact closed ⟨by simpa using idle, by simpa using unfailed⟩
    have closed_ : (⟨u.s.close, u.dev⟩ : Upg).s.failed = true := failed
    rw [finish_body, if_pos closed_]

/-- What a call does to the flash besides the writes it issues: it erases slot1, or reads. -/
theorem run_issued (c : FwCall) (aligned : u.s.written % 256 = 0) :
    Confined (Range SLOT1_OFFSET SLOT1_SIZE) Nowhere (issue (issued c u) u.dev).2 (c.run fw_keyhash u).dev := by
  cases c with
  | start total keyhash =>
    have nothing : issued (.start total keyhash) u = [] := by simp [issued, handed]
    have erasing : Confined (Range SLOT1_OFFSET SLOT1_SIZE) Nowhere u.dev (w25_erase SLOT1_OFFSET SLOT1_SIZE u.dev).2 :=
      w25_erase_confined _ _ _
    rw [nothing]
    simp only [issue, FwCall.run, fw_upg_start]
    split_ifs
    · exact .done _
    · exact .done _
    · exact .done _
    · split <;> rename_i erased_ <;> rw [erased_] at erasing <;> exact erasing
  | write data =>
    by_cases taken : Taken u data
    · have same : (issue (issued (.write data) u) u.dev).2 = (fw_upg_write data u).2.dev := by
        rw [issued, handed, if_pos taken, ← (write_loop_issue aligned).2.1, write_taken taken]
        split <;> rfl
      rw [same]
      exact .done _
    · have nothing : issued (.write data) u = [] := by simp [issued, handed, taken]
      rw [nothing]
      simp only [issue, FwCall.run]
      rcases @write_untaken u data taken with same | same <;> rw [same] <;> exact .done _
  | finish crc check_crc =>
    by_cases open_ : u.s.active = true ∧ u.s.failed = false
    · have flush := @page_flush_issue u aligned
      have reads := @finish_reads fw_keyhash u crc check_crc open_ (Range SLOT1_OFFSET SLOT1_SIZE) Nowhere
      rw [flush] at reads
      rw [issued, handed, if_pos open_]
      exact reads
    · have nothing : issued (.finish crc check_crc) u = [] := by rw [issued, handed, if_neg open_, pages_nil]
      rw [nothing]
      simp only [issue, FwCall.run]
      rw [finish_unopened open_]
      exact .done _
  | abort =>
    have nothing : issued .abort u = [] := by simp [issued, handed]
    rw [nothing]
    exact .done _

theorem start_kept {total : Nat} {keyhash : Option (List UInt8)}
    (failed : (fw_upg_start fw_keyhash total keyhash u).1 ≠ 0) :
    (fw_upg_start fw_keyhash total keyhash u).2.s = u.s := by
  by_cases admitted : Admitted fw_keyhash total keyhash u
  · rw [fw_upg_start_admitted admitted] at failed ⊢
    split at failed
    · rfl
    · exact absurd rfl failed
  · rw [(fw_upg_start_refused admitted).2]

/-- The count of written bytes stays a multiple of the page size. -/
theorem run_aligned (c : FwCall) (aligned : u.s.written % 256 = 0) : (c.run fw_keyhash u).s.written % 256 = 0 := by
  cases c with
  | start total keyhash =>
    by_cases done : (fw_upg_start fw_keyhash total keyhash u).1 = 0
    · exact (fw_upg_start_accepted done).1.aligned
    · rw [FwCall.run, start_kept done]
      exact aligned
  | write data =>
    by_cases taken : Taken u data
    · rw [FwCall.run, write_taken taken]
      split <;> exact write_loop_aligned aligned
    · rcases @write_untaken u data taken with same | same <;> rw [FwCall.run, same] <;> exact aligned
  | finish crc check_crc =>
    simp only [FwCall.run, fw_upg_finish_ex]
    split_ifs
    · exact aligned
    · rfl
    · rfl
  | abort => rfl

theorem start_paged {total : Nat} {keyhash : Option (List UInt8)} (inv : Paged l) :
    Paged (step fw_keyhash l (.start total keyhash)) := by
  by_cases done : (fw_upg_start fw_keyhash total keyhash l.upg).1 = 0
  · have fresh := (fw_upg_start_accepted done).1.received
    have written : (fw_upg_start fw_keyhash total keyhash l.upg).2.s.written = 0 := by
      rw [fw_upg_received, List.length_nil] at fresh
      omega
    have page : (fw_upg_start fw_keyhash total keyhash l.upg).2.s.page = [] := by
      rw [fw_upg_received, List.length_nil] at fresh
      exact List.length_eq_zero_iff.mp (by omega)
    refine ⟨run_aligned _ inv.aligned, [], [], by simp [step, got_after, done], ?_, ?_⟩
    · simpa [step, log_after, done] using Cut.nil SLOT1_OFFSET
    · intro _ _
      exact ⟨page.symm, written.symm⟩
  · have same := start_kept done
    have kept : step fw_keyhash l (.start total keyhash) =
        ⟨(fw_upg_start fw_keyhash total keyhash l.upg).2, l.got, l.log⟩ := by
      simp [step, FwCall.run, got_after, log_after, done]
    rw [kept]
    exact ⟨by rw [same]; exact inv.aligned, by rw [same]; exact inv.cut⟩

theorem write_paged (inv : Paged l) : Paged (step fw_keyhash l (.write data)) := by
  obtain ⟨stored, rest, split, cut, buffer⟩ := inv.cut
  have aligned := inv.aligned
  by_cases taken : Taken l.upg data
  · obtain ⟨page, length⟩ := buffer taken.1 taken.2.1
    have got : l.got ++ data = stored ++ stream l.upg data := by rw [split, page, stream, List.append_assoc]
    have issued_ : issued (.write data) l.upg =
        pages (SLOT1_OFFSET + l.upg.s.written) ((stream l.upg data).take (full l.upg data)) := by
      rw [issued, handed, if_pos taken]
    obtain ⟨same, dev, buffered⟩ := @write_loop_issue l.upg data aligned
    have whole := cut_pages (SLOT1_OFFSET + l.upg.s.written) ((stream l.upg data).take (full l.upg data))
    obtain ⟨done, left, parts, attempt, all⟩ := cut_attempted whole l.upg.dev
    have log : Cut SLOT1_OFFSET (stored ++ done) (step fw_keyhash l (.write data)).log := by
      simp only [step, log_after]
      rw [issued_]
      exact cut_append cut (by rw [length]; exact attempt)
    have bytes : (step fw_keyhash l (.write data)).got =
        (stored ++ done) ++ (left ++ (stream l.upg data).drop (full l.upg data)) := by
      simp only [step, got_after, if_pos taken]
      rw [got, List.append_assoc, ← List.append_assoc done, ← parts, List.take_append_drop]
    have result : (step fw_keyhash l (.write data)).upg = _ := @write_taken l.upg data taken
    refine ⟨run_aligned _ aligned, stored ++ done, left ++ (stream l.upg data).drop (full l.upg data), bytes, log, ?_⟩
    rw [result, same]
    split
    · rename_i ok
      obtain ⟨written, page'⟩ := buffered ok
      have nothing := all ok
      intro _ _
      rw [nothing, List.append_nil] at parts
      refine ⟨by rw [nothing, page']; rfl, ?_⟩
      have fits : full l.upg data ≤ (stream l.upg data).length := by
        unfold full
        omega
      rw [written, ← parts, List.length_append, length, List.length_take, Nat.min_eq_left fits]
    · intro _ unfailed
      simp [Session.fail] at unfailed
  · have kept : step fw_keyhash l (.write data) = ⟨(fw_upg_write data l.upg).2, l.got, l.log⟩ := by
      simp [step, FwCall.run, got_after, log_after, issued, handed, taken, attempted]
    rw [kept]
    rcases @write_untaken l.upg data taken with same | same
    · rw [same]
      exact inv
    · rw [same]
      exact ⟨aligned, stored, rest, split, cut, fun _ unfailed => by simp [Session.fail] at unfailed⟩

/-- The writes of the tail, behind those of the session. -/
theorem finish_log {crc : UInt16} {check_crc : Bool} (inv : Paged l) :
    ∃ stored rest, l.got = stored ++ rest ∧ Cut SLOT1_OFFSET stored (step fw_keyhash l (.finish crc check_crc)).log ∧
      (l.upg.s.active = true → l.upg.s.failed = false →
        (issue (issued (.finish crc check_crc) l.upg) l.upg.dev).1 = true → rest = []) := by
  obtain ⟨stored, rest, split, cut, buffer⟩ := inv.cut
  by_cases open_ : l.upg.s.active = true ∧ l.upg.s.failed = false
  · obtain ⟨page, length⟩ := buffer open_.1 open_.2
    have issued_ : issued (.finish crc check_crc) l.upg = pages (SLOT1_OFFSET + l.upg.s.written) l.upg.s.page := by
      rw [issued, handed, if_pos open_]
    obtain ⟨done, left, parts, attempt, all⟩ :=
      cut_attempted (cut_pages (SLOT1_OFFSET + l.upg.s.written) l.upg.s.page) l.upg.dev
    refine ⟨stored ++ done, left, by rw [split, page, parts, List.append_assoc], ?_, fun _ _ => ?_⟩
    · simp only [step, log_after]
      rw [issued_]
      exact cut_append cut (by rw [length]; exact attempt)
    · rw [issued_]
      exact all
  · refine ⟨stored, rest, split, ?_, fun active unfailed => absurd ⟨active, unfailed⟩ open_⟩
    have nothing : issued (.finish crc check_crc) l.upg = [] := by rw [issued, handed, if_neg open_, pages_nil]
    simp only [step, log_after]
    rw [nothing, attempted, List.append_nil]
    exact cut

theorem finish_paged {crc : UInt16} {check_crc : Bool} (inv : Paged l) :
    Paged (step fw_keyhash l (.finish crc check_crc)) := by
  obtain ⟨stored, rest, split, cut, _⟩ := @finish_log fw_keyhash l crc check_crc inv
  have closed := fw_upg_finish_ex_closed fw_keyhash crc check_crc l.upg
  refine ⟨run_aligned _ inv.aligned, stored, rest, split, cut, fun active => ?_⟩
  exact absurd (active.symm.trans closed) (by decide)

theorem step_paged (c : FwCall) (inv : Paged l) : Paged (step fw_keyhash l c) := by
  cases c with
  | start total keyhash => exact start_paged inv
  | write data => exact write_paged inv
  | finish crc check_crc => exact finish_paged inv
  | abort =>
    obtain ⟨stored, rest, split, cut, _⟩ := inv.cut
    refine ⟨rfl, stored, rest, split, ?_, fun active => ?_⟩
    · simpa [step, log_after, issued, handed, attempted] using cut
    · simp [step, FwCall.run, fw_upg_abort] at active

theorem run_paged (dev : Dev) (calls : List FwCall) :
    Paged (calls.foldl (step fw_keyhash) { upg := ⟨Session.zero, dev⟩ }) := by
  refine @Machine.invariant _ _ (step fw_keyhash) (fun _ _ => True) Paged (fun l c inv _ => step_paged c inv) _ ?_ _
    (Machine.meets_of_all fun _ _ _ => trivial)
  exact ⟨rfl, [], [], rfl, .nil _, fun active => by simp [Session.zero] at active⟩

/-- A finish that succeeds has issued all its writes. -/
theorem finish_issued {crc : UInt16} {check_crc : Bool} (aligned : u.s.written % 256 = 0)
    (done : (fw_upg_finish_ex fw_keyhash crc check_crc u).1 = 0) :
    u.s.active = true ∧ u.s.failed = false ∧ (issue (issued (.finish crc check_crc) u) u.dev).1 = true := by
  have active : u.s.active = true := by
    by_contra idle
    rw [fw_upg_finish_ex_idle (eq_false_of_ne_true idle)] at done
    simp at done
  have unfailed : u.s.failed = false := by
    by_contra failed
    rw [fw_upg_finish_ex_failed (by simpa using failed)] at done
    simp at done
  refine ⟨active, unfailed, ?_⟩
  have flush := @page_flush_issue u aligned
  rw [issued, handed, if_pos ⟨active, unfailed⟩]
  by_contra failed
  have body : (finish_body fw_keyhash crc check_crc ⟨u.s.close, u.dev⟩).1 = false := by
    have page : (⟨u.s.close, u.dev⟩ : Upg).s.page = u.s.page := rfl
    rw [finish_body, if_neg (by simp [Session.close, unfailed]), page, flush, eq_false_of_ne_true failed]
  unfold fw_upg_finish_ex at done
  rw [active] at done
  simp [body] at done

theorem finish_cut {crc : UInt16} {check_crc : Bool} (inv : Paged l)
    (done : (fw_upg_finish_ex fw_keyhash crc check_crc l.upg).1 = 0) :
    Cut SLOT1_OFFSET l.got (step fw_keyhash l (.finish crc check_crc)).log := by
  obtain ⟨stored, rest, split, cut, all⟩ := @finish_log fw_keyhash l crc check_crc inv
  obtain ⟨active, unfailed, issued_⟩ := finish_issued inv.aligned done
  rw [split, all active unfailed issued_, List.append_nil]
  exact cut

end

/-- What is asked of the writers. -/
structure PageContract (fw_keyhash : List UInt8) : Prop where
  /-- `pages` cuts the bytes as it should. -/
  cut (addr : Nat) (buf : List UInt8) : Cut addr buf (pages addr buf)
  /-- The checks of `w25_write` on length and page refuse no write of a cut. -/
  unrefused {addr : Nat} {buf : List UInt8} {writes : Writes} (cut : Cut addr buf writes) (w : Nat × List UInt8)
    (member : w ∈ writes) (d : Dev) :
    w25_write w.1 w.2 d =
      if w.1 ≥ W25Q_CHIP_SIZE ∨ W25Q_CHIP_SIZE - w.1 < w.2.length then (false, d) else d.program w.1 w.2
  write_pages (addr : Nat) (buf : List UInt8) (d : Dev) :
    ConfigStore.write_pages addr buf d = issue (pages addr buf) d
  lf_prog (block off : Nat) (buffer : List UInt8) (d : Dev) (inside : InBlock block off buffer.length) :
    LfsPort.lf_prog block off buffer d = issue (pages (LFS_OFFSET + block * PORT_BLOCK_SIZE + off) buffer) d
  flash_area_write (id : AreaId) (off : Nat) (src : List UInt8) (f : Flash) (nor : (areas id).fa_device_id = .nor)
    (unwrapped : off + src.length < 2^32) :
    FlashMap.flash_area_write (areas id) off src f =
      if off + src.length > (areas id).fa_size then (false, f)
      else
        ((issue (pages ((areas id).fa_off + off) src) f.nor).1,
          { f with nor := (issue (pages ((areas id).fa_off + off) src) f.nor).2 })
  /-- In any run of the upgrade core: a call programs only what it issues, -/
  fw_upg_call (dev : Dev) (calls : List FwCall) (c : FwCall) :
    let u := (calls.foldl (step fw_keyhash) { upg := ⟨Session.zero, dev⟩ }).upg
    Cut (SLOT1_OFFSET + u.s.written) (handed c u) (issued c u) ∧
      Confined (Range SLOT1_OFFSET SLOT1_SIZE) Nowhere (issue (issued c u) u.dev).2 (c.run fw_keyhash u).dev
  /-- the writes of a session cut what it was given, from slot1's first address on, -/
  fw_upg_session (dev : Dev) (calls : List FwCall) :
    Paged (calls.foldl (step fw_keyhash) { upg := ⟨Session.zero, dev⟩ })
  /-- and all of it when the session is finished. -/
  fw_upg_finish (dev : Dev) (calls : List FwCall) (crc : UInt16) (check_crc : Bool) :
    let l := calls.foldl (step fw_keyhash) { upg := ⟨Session.zero, dev⟩ }
    (fw_upg_finish_ex fw_keyhash crc check_crc l.upg).1 = 0 →
      Cut SLOT1_OFFSET l.got (step fw_keyhash l (.finish crc check_crc)).log

/-- Every writer of the NOR flash keeps to its pages. -/
theorem writers_keep_pages (fw_keyhash : List UInt8) : PageContract fw_keyhash where
  cut := cut_pages
  unrefused cut _ member d := w25_write_cut cut member d
  write_pages := write_pages_issue
  lf_prog _ _ _ d inside := lf_prog_issue inside d
  flash_area_write _ _ _ f nor unwrapped := flash_area_write_issue nor unwrapped f
  fw_upg_call dev calls c := ⟨cut_pages _ _, run_issued c (run_paged dev calls).aligned⟩
  fw_upg_session := run_paged
  fw_upg_finish dev calls _ _ done := finish_cut (run_paged dev calls) done

end IoEdgeHub.Paging
