import IoEdgeHub.FlashMap
import IoEdgeHub.Footprint

/-!
What a request to a flash area reaches (`boot/mcuboot/flash_map_backend.c` over
`storage/intflash.c` and `storage/w25qxx.c`). The range is checked with a sum of 32 bits: a
request whose sum wraps passes, and is carried out wherever the flash behind the area does
not refuse it.
-/
namespace IoEdgeHub.AreaConfined
open IoEdgeHub.Nor IoEdgeHub.W25qxx IoEdgeHub.IntFlash IoEdgeHub.LfsPort IoEdgeHub.FlashMap IoEdgeHub.Footprint
universe u
variable {α : Type u}

def Flash.on (f : Flash) : FlashDevice → Dev
  | .internal => f.internal
  | .nor => f.nor

/-- The bytes of an area, on each of the devices. -/
def own (fap : FlashArea) (device : FlashDevice) : Set Nat :=
  { a | device = fap.fa_device_id ∧ fap.fa_off ≤ a ∧ a < fap.fa_off + fap.fa_size }

/-- A request changes no byte outside the area, and the bytes there have no influence on what
    it answers and does. -/
structure KeepsTo (fap : FlashArea) (op : Flash → α × Flash) : Prop where
  keeps : ∀ f device a, a ∉ own fap device → (Flash.on (op f).2 device).mem a = (Flash.on f device).mem a
  blind : ∀ f g, (∀ device, Alike (own fap device) (Flash.on f device) (Flash.on g device)) →
    (op f).1 = (op g).1 ∧ ∀ device, Alike (own fap device) (Flash.on (op f).2 device) (Flash.on (op g).2 device)

/-- A request keeps to the area and, unless its range is inside, is refused with no operation at all. -/
structure Safe (fap : FlashArea) (off len : Nat) (refused : α) (op : Flash → α × Flash) : Prop where
  inside : KeepsTo fap op
  outside : fap.fa_size < off + len → ∀ f, op f = (refused, f)

/-- The address that a request is passed on with. -/
def address (fap : FlashArea) (off : Nat) : Nat := (fap.fa_off + off) % 2^32

/-- The sum wraps, and then passes the check. -/
def Wraps (fap : FlashArea) (off len : Nat) : Prop := 2^32 ≤ off + len ∧ off + len - 2^32 ≤ fap.fa_size

/-- The flash behind the area takes a read: the chip's own always does. -/
def TakesRead (fap : FlashArea) (off len : Nat) : Prop :=
  fap.fa_device_id = .nor → address fap off + len ≤ W25Q_CHIP_SIZE

/-- It takes a write, or the first page of it. -/
def TakesWrite (fap : FlashArea) (off : Nat) : Prop := fap.fa_device_id = .nor → address fap off < W25Q_CHIP_SIZE

/-- It takes an erase: the chip's own one that seems to lie inside it. -/
def TakesErase (fap : FlashArea) (off len : Nat) : Prop :=
  match fap.fa_device_id with
  | .internal => 0x08000000 ≤ address fap off ∧ (address fap off + round_4k len) % 2^32 ≤ 0x08080000
  | .nor => address fap off % W25Q_SECTOR_SIZE = 0 ∧ len % W25Q_SECTOR_SIZE = 0 ∧ address fap off + len ≤ W25Q_CHIP_SIZE

section
variable {S : Set Nat} {addr len : Nat} {buf : List UInt8}

theorem w25_read_within (inside : ∀ i < len, addr + i ∈ S) : Within S (w25_read addr len) := by
  refine .ite (fun _ => .done (some [])) fun _ => ?_
  exact .ite (fun _ => .done none) fun _ => within_read inside

theorem w25_write_within (inside : ∀ i < buf.length, addr + i ∈ S) : Within S (w25_write addr buf) := by
  refine .ite (fun _ => .done true) fun _ => ?_
  refine .ite (fun _ => .done false) fun _ => ?_
  refine .ite (fun _ => .done false) fun _ => ?_
  exact .ite (fun _ => .done false) fun _ => within_program inside

theorem erase_loop_within (whole : len % W25Q_SECTOR_SIZE = 0) (inside : ∀ i < len, addr + i ∈ S) :
    Within S (erase_loop addr len) := by
  induction len using Nat.strong_induction_on generalizing addr with
  | _ len ih =>
    by_cases end_ : len = 0
    · refine (Within.done true).of_eq fun d => ?_
      rw [erase_loop, if_pos end_]
    · obtain ⟨fits, rest⟩ := @erase_chunk_le addr len (Nat.pos_of_ne_zero end_) whole
      have some_ := erase_chunk_pos addr len
      have first : Within S fun d => d.erase addr (erase_chunk addr len) := within_erase fun i below => inside i (by omega)
      have others : Within S (erase_loop (addr + erase_chunk addr len) (len - erase_chunk addr len)) := by
        refine ih _ (by omega) rest fun i below => ?_
        rw [Nat.add_assoc]
        exact inside _ (by omega)
      refine (first.attempt others).of_eq fun d => ?_
      rw [erase_loop, if_neg end_, attempt]
      cases erased_ : d.erase addr (erase_chunk addr len) with
      | mk done d' => cases done <;> rfl

theorem w25_erase_within (inside : ∀ i < len, addr + i ∈ S) : Within S (W25qxx.w25_erase addr len) := by
  refine .ite (fun _ => .done false) fun checks => ?_
  refine .ite (fun _ => .done false) fun _ => ?_
  exact erase_loop_within (by omega) inside

/-- A loop that hands a buffer on in chunks, up to the first that fails. -/
structure Chunked (loop : Nat → List UInt8 → Dev → Bool × Dev) (size : Nat → List UInt8 → Nat)
    (one : Nat → List UInt8 → Dev → Bool × Dev) : Prop where
  end_ : ∀ addr d, loop addr [] d = (true, d)
  some_ : ∀ {addr buf}, buf ≠ [] → 0 < size addr buf ∧ size addr buf ≤ buf.length
  round : ∀ {addr buf}, buf ≠ [] → ∀ d, loop addr buf d =
    attempt (one addr (buf.take (size addr buf))) (loop ((addr + size addr buf) % 2^32) (buf.drop (size addr buf))) d

theorem chunked_within {loop : Nat → List UInt8 → Dev → Bool × Dev} {size : Nat → List UInt8 → Nat}
    {one : Nat → List UInt8 → Dev → Bool × Dev} (chunked : Chunked loop size one)
    (each : ∀ {addr buf}, (∀ i < buf.length, addr + i ∈ S) → Within S (one addr buf))
    (unwrapped : addr + buf.length < 2^32) (inside : ∀ i < buf.length, addr + i ∈ S) : Within S (loop addr buf) := by
  induction length : buf.length using Nat.strong_induction_on generalizing addr buf with
  | _ length' ih =>
    subst length
    by_cases end_ : buf = []
    · subst end_
      exact (Within.done true).of_eq (chunked.end_ addr)
    · obtain ⟨some_, fits⟩ := @Chunked.some_ _ _ _ chunked addr buf end_
      have next : (addr + size addr buf) % 2^32 = addr + size addr buf := Nat.mod_eq_of_lt (by omega)
      have first : Within S (one addr (buf.take (size addr buf))) := by
        refine each fun i below => inside i ?_
        rw [List.length_take] at below
        omega
      have others : Within S (loop (addr + size addr buf) (buf.drop (size addr buf))) := by
        refine ih _ ?_ ?_ (fun i below => ?_) rfl
        · rw [List.length_drop]
          omega
        · rw [List.length_drop]
          omega
        · rw [List.length_drop] at below
          rw [Nat.add_assoc]
          exact inside _ (by omega)
      refine (first.attempt others).of_eq fun d => ?_
      rw [chunked.round end_, next]

theorem page_loop_chunked : Chunked page_loop (fun addr buf => min (256 - addr % 256) buf.length) w25_write where
  end_ := fun addr d => by rw [page_loop, if_pos rfl]
  some_ := fun some_ => by
    have length := List.length_pos_iff.mpr some_
    omega
  round := fun {addr buf} some_ d => by
    rw [page_loop, if_neg some_, attempt]
    cases wrote : w25_write addr (buf.take (min (256 - addr % 256) buf.length)) d with
    | mk done d' => cases done <;> rfl

theorem page_loop_within (unwrapped : addr + buf.length < 2^32) (inside : ∀ i < buf.length, addr + i ∈ S) :
    Within S (page_loop addr buf) :=
  chunked_within page_loop_chunked w25_write_within unwrapped inside

theorem hal_lock_within : Within S hal_lock := within_idle 0

theorem locked_within {p : Dev → Bool × Dev} (within : Within S p) :
    Within S (attempt hal_lock fun d => locked (p d)) := by
  refine hal_lock_within.attempt ?_
  have lock (done : Bool) : Within S fun d => (done && (hal_lock d).1, (hal_lock d).2) :=
    hal_lock_within.bind fun locked => .done (done && locked)
  exact within.bind lock

theorem erase_sectors_within {stop : Nat} {sectors : List (Nat × Nat)}
    (inside : ∀ s ∈ sectors, ¬ (s.1 + s.2 ≤ addr ∨ s.1 ≥ stop) → ∀ i < s.2, s.1 + i ∈ S) :
    Within S (erase_sectors addr stop sectors) := by
  induction sectors with
  | nil => exact .done true
  | cons sector rest ih =>
    have others := ih fun s member => inside s (List.mem_cons_of_mem _ member)
    refine .ite (fun _ => others) fun hit => ?_
    have first : Within S fun d => d.erase sector.1 sector.2 := within_erase (inside sector List.mem_cons_self hit)
    refine (first.attempt others).of_eq fun d => ?_
    rw [attempt]
    cases erased_ : d.erase sector.1 sector.2 with
    | mk done d' => cases done <;> rfl

theorem intflash_erase_within
    (inside : ∀ s ∈ f4_sector_tab, ¬ (s.1 + s.2 ≤ addr ∨ s.1 ≥ (addr + round_4k len) % 2^32) → ∀ i < s.2, s.1 + i ∈ S) :
    Within S (intflash_erase addr len) := by
  refine .ite (fun _ => .done true) fun _ => ?_
  refine .ite (fun _ => .done false) fun _ => ?_
  refine (locked_within (erase_sectors_within inside)).of_eq fun d => ?_
  rw [attempt]
  cases unlocked : hal_lock d with
  | mk done d' => cases done <;> rfl

theorem program_loop_chunked : Chunked program_loop unit_size fun addr buf d => d.program addr buf where
  end_ := fun addr d => by rw [program_loop, if_pos rfl]
  some_ := fun {addr buf} some_ => by
    have step : 0 < unit_size addr buf := by
      unfold unit_size
      split_ifs <;> decide
    exact ⟨step, unit_size_le some_⟩
  round := fun {addr buf} some_ d => by
    rw [program_loop, if_neg some_, attempt]
    cases wrote : d.program addr (buf.take (unit_size addr buf)) with
    | mk done d' => cases done <;> rfl

theorem program_loop_within (unwrapped : addr + buf.length < 2^32) (inside : ∀ i < buf.length, addr + i ∈ S) :
    Within S (program_loop addr buf) :=
  chunked_within program_loop_chunked within_program unwrapped inside

theorem intflash_write_within (unwrapped : addr + buf.length < 2^32) (inside : ∀ i < buf.length, addr + i ∈ S) :
    Within S (intflash_write addr buf) := by
  refine (locked_within (program_loop_within unwrapped inside)).of_eq fun d => ?_
  rw [intflash_write, attempt]
  cases unlocked : hal_lock d with
  | mk done d' => cases done <;> rfl

end

/-- A program that one of the devices is given to. -/
def Flash.run (device : FlashDevice) (p : Dev → α × Dev) (f : Flash) : α × Flash :=
  match device with
  | .internal => ((p f.internal).1, { f with internal := (p f.internal).2 })
  | .nor => ((p f.nor).1, { f with nor := (p f.nor).2 })

section
variable {fap : FlashArea} {off len : Nat}

/-- The bytes that an area has on its device. -/
def span (fap : FlashArea) : Set Nat := { a | fap.fa_off ≤ a ∧ a < fap.fa_off + fap.fa_size }

theorem own_same {device : FlashDevice} (same : fap.fa_device_id = device) : own fap device = span fap := by
  ext a
  constructor
  · exact fun member => member.2
  · exact fun member => ⟨same.symm, member⟩

theorem keeps_to_run {device : FlashDevice} (same : fap.fa_device_id = device) {p : Dev → α × Dev}
    (within : Within (span fap) p) : KeepsTo fap (Flash.run device p) := by
  constructor
  · intro f other a foreign
    cases device <;> cases other
    · rw [own_same same] at foreign
      exact within.keeps f.internal foreign
    · rfl
    · rfl
    · rw [own_same same] at foreign
      exact within.keeps f.nor foreign
  · intro f g alike
    have here := alike device
    rw [own_same same] at here
    cases device with
    | internal =>
      obtain ⟨result, after⟩ := within.alike here
      refine ⟨result, fun other => ?_⟩
      cases other with
      | internal => rw [own_same same]; exact after
      | nor => exact alike .nor
    | nor =>
      obtain ⟨result, after⟩ := within.alike here
      refine ⟨result, fun other => ?_⟩
      cases other with
      | internal => exact alike .internal
      | nor => rw [own_same same]; exact after

theorem run_idle {device : FlashDevice} {p : Dev → α × Dev} {d : Dev} {x : α}
    (idle : Flash.run device p ⟨d, d⟩ = (x, ⟨d, d⟩)) : p d = (x, d) := by
  cases device with
  | internal => exact Prod.ext (congrArg (fun r => r.1) idle :) (congrArg (fun r => r.2.internal) idle :)
  | nor => exact Prod.ext (congrArg (fun r => r.1) idle :) (congrArg (fun r => r.2.nor) idle :)

/-- A request that is refused on the spot is safe, whatever its range. -/
theorem safe_refused {op : Flash → α × Flash} {refused : α} (refuses : ∀ f, op f = (refused, f)) :
    Safe fap off len refused op := by
  constructor
  · constructor
    · intro f device a _
      rw [refuses]
    · intro f g alike
      rw [refuses, refuses]
      exact ⟨rfl, alike⟩
  · exact fun _ => refuses

/-- A request inside the area is safe if it keeps to it. -/
theorem safe_inside {op : Flash → α × Flash} {refused : α} (inside : off + len ≤ fap.fa_size) (keeps : KeepsTo fap op) :
    Safe fap off len refused op :=
  ⟨keeps, fun outside => absurd inside (Nat.not_le.mpr outside)⟩

/-- A request outside the area is not safe if there is a flash on which it does anything. -/
theorem unsafe_taken {op : Flash → α × Flash} {refused : α} (outside : fap.fa_size < off + len) (f : Flash)
    (taken : op f ≠ (refused, f)) : ¬ Safe fap off len refused op :=
  fun safe => taken (safe.outside outside f)

end

/-- An area of the table lies in its device. -/
theorem area_bounds (id : AreaId) : (areas id).fa_size = 0x70000 ∧ (areas id).fa_off + (areas id).fa_size ≤ 0x08080000 ∧
    ((areas id).fa_device_id = .nor → (areas id).fa_off + (areas id).fa_size ≤ W25Q_CHIP_SIZE ∧
      (areas id).fa_off % W25Q_SECTOR_SIZE = 0) ∧
    ((areas id).fa_device_id = .internal → (areas id).fa_off = 0x08010000) := by
  cases id <;> decide

/-- How a request is split by the check of its range. -/
theorem check_cases (id : AreaId) (off len : UInt32) :
    ((off.toNat + len.toNat) % 2^32 > (areas id).fa_size ∧ ¬ Wraps (areas id) off.toNat len.toNat) ∨
    (¬ (off.toNat + len.toNat) % 2^32 > (areas id).fa_size ∧ Wraps (areas id) off.toNat len.toNat ∧
      (areas id).fa_size < off.toNat + len.toNat) ∨
    (¬ (off.toNat + len.toNat) % 2^32 > (areas id).fa_size ∧ ¬ Wraps (areas id) off.toNat len.toNat ∧
      off.toNat + len.toNat ≤ (areas id).fa_size ∧ address (areas id) off.toNat = (areas id).fa_off + off.toNat) := by
  obtain ⟨size, bound, _, _⟩ := area_bounds id
  have off_lt := off.toNat_lt
  have len_lt := len.toNat_lt
  unfold Wraps address
  omega

/-- The addresses of a request inside its area. -/
theorem inside_span {fap : FlashArea} {off len : Nat} (inside : off + len ≤ fap.fa_size)
    (same : address fap off = fap.fa_off + off) : ∀ i < len, address fap off + i ∈ span fap := by
  intro i below
  rw [same]
  exact ⟨by omega, by omega⟩

section
variable {id : AreaId} {off len : UInt32}

/-- When a request is safe: its range is checked, and it is then given to the device of its area, which
    takes it or refuses it on the spot. -/
theorem safe_iff {op : Flash → α × Flash} {p : Dev → α × Dev} {refused : α} {takes : Prop}
    (refuses : (off.toNat + len.toNat) % 2^32 > (areas id).fa_size → ∀ f, op f = (refused, f))
    (given : ¬ (off.toNat + len.toNat) % 2^32 > (areas id).fa_size → op = Flash.run (areas id).fa_device_id p)
    (untaken : len.toNat ≠ 0 → ¬ takes → ∀ d, p d = (refused, d))
    (taken : len.toNat ≠ 0 → takes → ∃ d, p d ≠ (refused, d))
    (within : address (areas id) off.toNat + len.toNat < 2^32 →
      (∀ i < len.toNat, address (areas id) off.toNat + i ∈ span (areas id)) → Within (span (areas id)) p) :
    Safe (areas id) off.toNat len.toNat refused op ↔ ¬ (Wraps (areas id) off.toNat len.toNat ∧ takes) := by
  rcases check_cases id off len with ⟨fails, unwrapped⟩ | ⟨passed, wraps, outside⟩ | ⟨passed, unwrapped, inside, same⟩
  · exact iff_of_true (safe_refused (refuses fails)) fun slips => unwrapped slips.1
  · have some_ : len.toNat ≠ 0 := by
      have off_lt := off.toNat_lt
      obtain ⟨past, _⟩ := wraps
      omega
    rw [given passed]
    by_cases takes_ : takes
    · obtain ⟨d, acts⟩ := taken some_ takes_
      refine iff_of_false (unsafe_taken outside ⟨d, d⟩ ?_) fun safe => safe ⟨wraps, takes_⟩
      exact fun idle => acts (run_idle idle)
    · refine iff_of_true (safe_refused fun f => ?_) fun slips => takes_ slips.2
      unfold Flash.run
      split
      · rw [untaken some_ takes_]
      · rw [untaken some_ takes_]
  · rw [given passed]
    refine iff_of_true (safe_inside inside (keeps_to_run rfl (within ?_ (inside_span inside same)))) fun slips => unwrapped slips.1
    obtain ⟨size, bound, _, _⟩ := area_bounds id
    omega

/-- What becomes of a read that passes the check. -/
def device_read (device : FlashDevice) (addr len : Nat) : Dev → Option (List UInt8) × Dev :=
  match device with
  | .internal => fun d => (some (bytesAt (mapped d.mem) addr len), d)
  | .nor => w25_read addr len

def device_write (device : FlashDevice) (addr : Nat) (src : List UInt8) : Dev → Bool × Dev :=
  match device with
  | .internal => intflash_write addr src
  | .nor => page_loop addr src

def device_erase (device : FlashDevice) (addr len : Nat) : Dev → Bool × Dev :=
  match device with
  | .internal => intflash_erase addr len
  | .nor => W25qxx.w25_erase addr len

theorem read_safe_iff : Safe (areas id) off.toNat len.toNat none (flash_area_read (areas id) off.toNat len.toNat) ↔
    ¬ (Wraps (areas id) off.toNat len.toNat ∧ TakesRead (areas id) off.toNat len.toNat) := by
  refine @safe_iff _ _ _ _ _ (device_read (areas id).fa_device_id (address (areas id) off.toNat) len.toNat) _ _ ?_ ?_ ?_ ?_ ?_
  · exact fun fails f => if_pos fails
  · intro passed
    funext f
    rw [flash_area_read, if_neg passed]
    cases (areas id).fa_device_id <;> rfl
  · intro some_ untaken
    unfold TakesRead at untaken
    cases device : (areas id).fa_device_id with
    | internal => exact absurd (fun nor => by rw [device] at nor; cases nor) untaken
    | nor =>
      intro d
      have range : address (areas id) off.toNat ≥ W25Q_CHIP_SIZE ∨ W25Q_CHIP_SIZE - address (areas id) off.toNat < len.toNat := by
        by_contra inside
        exact untaken fun _ => by omega
      exact (if_neg some_).trans (if_pos range)
  · intro some_ taken
    refine ⟨{ mem := fun _ => 0 }, ?_⟩
    cases device : (areas id).fa_device_id with
    | internal => rintro ⟨⟩
    | nor =>
      have done := @w25_read_working _ len.toNat { mem := fun _ => 0 } rfl rfl (taken device)
      intro refused
      cases done.symm.trans refused
  · intro unwrapped addresses
    cases (areas id).fa_device_id with
    | internal =>
      refine (Within.look _ _ addresses fun bytes => .done (some bytes)).of_eq fun d => ?_
      have straight : bytesAt (mapped d.mem) (address (areas id) off.toNat) len.toNat =
          bytesAt d.mem (address (areas id) off.toNat) len.toNat :=
        bytesAt_congr fun a _ high => congrArg d.mem (Nat.mod_eq_of_lt (by omega))
      exact congrArg (fun bytes => (some bytes, d)) straight
    | nor => exact w25_read_within addresses

/-- A write that starts outside the chip is refused with its first page. -/
theorem page_loop_refused {addr : Nat} {src : List UInt8} (some_ : src ≠ []) (outside : addr ≥ W25Q_CHIP_SIZE) (d : Dev) :
    page_loop addr src d = (false, d) := by
  have more := List.length_pos_iff.mpr some_
  have empty : ¬ (src.take (min (256 - addr % 256) src.length)).length = 0 := by
    rw [List.length_take]
    omega
  have first : w25_write addr (src.take (min (256 - addr % 256) src.length)) d = (false, d) := by
    rw [w25_write, if_neg empty, if_pos (c := addr ≥ W25Q_CHIP_SIZE ∨ _) (.inl outside), ite_self, ite_self]
  rw [page_loop, if_neg some_, first]

/-- The first page of a write that starts inside the chip is programmed, or fails to be. -/
theorem page_loop_acts {addr : Nat} {src : List UInt8} (some_ : src ≠ []) (inside : addr < W25Q_CHIP_SIZE) :
    ∃ d, page_loop addr src d ≠ (false, d) := by
  -- the first page program fails
  let d : Dev := { mem := fun _ => 0, fates := [.fail fun _ => 0] }
  have more := List.length_pos_iff.mpr some_
  have page : (src.take (min (256 - addr % 256) src.length)).length = min (256 - addr % 256) src.length := by
    rw [List.length_take]
    omega
  have first := @w25_write_eq addr (src.take (min (256 - addr % 256) src.length)) (by omega)
    (by unfold W25Q_PAGE_SIZE; omega) (by unfold W25Q_CHIP_SIZE at *; omega) d
  have ends : page_loop addr src d = (false, (d.program addr (src.take (min (256 - addr % 256) src.length))).2) := by
    rw [page_loop, if_neg some_, first]
    rfl
  refine ⟨d, fun idle => ?_⟩
  have fates := congrArg (fun r => r.2.fates) (ends.symm.trans idle)
  cases fates

theorem write_safe_iff {src : List UInt8} (size : src.length = len.toNat) :
    Safe (areas id) off.toNat len.toNat false (flash_area_write (areas id) off.toNat src) ↔
      ¬ (Wraps (areas id) off.toNat len.toNat ∧ TakesWrite (areas id) off.toNat) := by
  refine @safe_iff _ _ _ _ _ (device_write (areas id).fa_device_id (address (areas id) off.toNat) src) _ _ ?_ ?_ ?_ ?_ ?_
  · intro fails f
    rw [← size] at fails
    exact if_pos fails
  · intro passed
    rw [← size] at passed
    funext f
    rw [flash_area_write, if_neg passed]
    cases (areas id).fa_device_id <;> rfl
  · intro some_ untaken
    unfold TakesWrite at untaken
    cases device : (areas id).fa_device_id with
    | internal => exact absurd (fun nor => by rw [device] at nor; cases nor) untaken
    | nor =>
      intro d
      have outside : address (areas id) off.toNat ≥ W25Q_CHIP_SIZE := Nat.not_lt.mp fun inside => untaken fun _ => inside
      have more : src ≠ [] := by
        rintro rfl
        exact some_ size.symm
      exact page_loop_refused more outside d
  · intro some_ taken
    have more : src ≠ [] := by
      rintro rfl
      exact some_ size.symm
    cases device : (areas id).fa_device_id with
    | internal =>
      obtain ⟨m, done⟩ := @intflash_write_working { mem := fun _ => 0 } (address (areas id) off.toNat) src rfl rfl
      refine ⟨{ mem := fun _ => 0 }, fun refused => ?_⟩
      cases done.symm.trans refused
    | nor => exact page_loop_acts more (taken device)
  · intro unwrapped addresses
    rw [← size] at unwrapped addresses
    cases (areas id).fa_device_id with
    | internal => exact intflash_write_within unwrapped addresses
    | nor => exact page_loop_within unwrapped addresses

/-- The sectors that reach into a range from the slot's first address on lie in the slot. -/
theorem sectors_inside {addr stop : Nat} (low : 0x08010000 ≤ addr) :
    ∀ s ∈ f4_sector_tab, ¬ (s.1 + s.2 ≤ addr ∨ s.1 ≥ stop) → ∀ i < s.2, 0x08010000 ≤ s.1 + i ∧ s.1 + i < 0x08080000 := by
  intro s member hit i below
  simp only [f4_sector_tab, List.mem_cons, List.not_mem_nil, or_false] at member
  rcases member with rfl | rfl | rfl | rfl | rfl | rfl | rfl | rfl <;> simp only at hit below ⊢ <;> omega

theorem erase_safe_iff : Safe (areas id) off.toNat len.toNat false (flash_area_erase (areas id) off.toNat len.toNat) ↔
    ¬ (Wraps (areas id) off.toNat len.toNat ∧ TakesErase (areas id) off.toNat len.toNat) := by
  obtain ⟨size, bound, _, internal⟩ := area_bounds id
  refine @safe_iff _ _ _ _ _ (device_erase (areas id).fa_device_id (address (areas id) off.toNat) len.toNat) _ _ ?_ ?_ ?_ ?_ ?_
  · exact fun fails f => if_pos fails
  · intro passed
    funext f
    rw [flash_area_erase, if_neg passed]
    cases (areas id).fa_device_id <;> rfl
  · intro some_ untaken
    unfold TakesErase at untaken
    cases device : (areas id).fa_device_id with
    | internal =>
      rw [device] at untaken
      intro d
      have range : address (areas id) off.toNat < 0x08000000 ∨
          (address (areas id) off.toNat + round_4k len.toNat) % 2^32 > 0x08080000 := by
        by_contra inside
        exact untaken (by omega)
      exact (if_neg some_).trans (if_pos range)
    | nor =>
      rw [device] at untaken
      intro d
      by_cases aligned : len.toNat = 0 ∨ address (areas id) off.toNat % W25Q_SECTOR_SIZE ≠ 0 ∨ len.toNat % W25Q_SECTOR_SIZE ≠ 0
      · exact if_pos aligned
      · have range : address (areas id) off.toNat ≥ W25Q_CHIP_SIZE ∨
            W25Q_CHIP_SIZE - address (areas id) off.toNat < len.toNat := by
          by_contra inside
          exact untaken (by omega)
        exact (if_neg aligned).trans (if_pos range)
  · intro some_ taken
    refine ⟨{ mem := fun _ => 0 }, ?_⟩
    unfold TakesErase at taken
    cases device : (areas id).fa_device_id with
    | internal =>
      rw [device] at taken
      obtain ⟨m, done⟩ := @intflash_erase_passed { mem := fun _ => 0 } (address (areas id) off.toNat) len.toNat rfl rfl
        taken.1 taken.2
      intro refused
      cases done.symm.trans refused
    | nor =>
      rw [device] at taken
      have done := @w25_erase_working (address (areas id) off.toNat) len.toNat { mem := fun _ => 0 } rfl rfl
        (Nat.pos_of_ne_zero some_) taken.1 taken.2.1 taken.2.2
      intro refused
      cases done.symm.trans refused
  · intro unwrapped addresses
    cases device : (areas id).fa_device_id with
    | internal =>
      by_cases empty : len.toNat = 0
      · exact (Within.done true).of_eq fun d => if_pos empty
      · have start : (areas id).fa_off = 0x08010000 := internal device
        have first := addresses 0 (Nat.pos_of_ne_zero empty)
        have low : 0x08010000 ≤ address (areas id) off.toNat := start ▸ first.1
        refine intflash_erase_within fun s member hit i below => ?_
        obtain ⟨above, under⟩ := sectors_inside low s member hit i below
        exact ⟨start ▸ above, by rw [start, size]; exact under⟩
    | nor => exact w25_erase_within addresses

end

/-- A request of 32-bit offset and length is safe unless the sum wraps, the wrapped sum passes the
    check and the flash behind the area takes what it is given. -/
theorem areas_confined_iff (id : AreaId) (off len : UInt32) :
    (Safe (areas id) off.toNat len.toNat none (flash_area_read (areas id) off.toNat len.toNat) ↔
      ¬ (Wraps (areas id) off.toNat len.toNat ∧ TakesRead (areas id) off.toNat len.toNat)) ∧
    ((∀ src : List UInt8, src.length = len.toNat →
        Safe (areas id) off.toNat len.toNat false (flash_area_write (areas id) off.toNat src)) ↔
      ¬ (Wraps (areas id) off.toNat len.toNat ∧ TakesWrite (areas id) off.toNat)) ∧
    (Safe (areas id) off.toNat len.toNat false (flash_area_erase (areas id) off.toNat len.toNat) ↔
      ¬ (Wraps (areas id) off.toNat len.toNat ∧ TakesErase (areas id) off.toNat len.toNat)) := by
  refine ⟨read_safe_iff, ⟨?_, ?_⟩, erase_safe_iff⟩
  · intro all
    have size : (List.replicate len.toNat (0 : UInt8)).length = len.toNat := List.length_replicate
    exact (write_safe_iff size).mp (all _ size)
  · intro fine src size
    exact (write_safe_iff size).mpr fine

/-- An erase at offset 0xFFFF0000 of slot0, 64 KB long, erases the boot loader in front of it. -/
theorem boot_loader_erased :
    let f : Flash := ⟨{ mem := fun _ => 0 }, { mem := fun _ => 0xFF }⟩
    let r := flash_area_erase (areas .PRIMARY_ID) 0xFFFF0000 0x10000 f
    r.1 = true ∧ f.internal.mem 0x08000000 = 0 ∧ r.2.internal.mem 0x08000000 = 0xFF ∧
      ¬ Safe (areas .PRIMARY_ID) 0xFFFF0000 0x10000 false (flash_area_erase (areas .PRIMARY_ID) 0xFFFF0000 0x10000) := by
  refine ⟨by decide, rfl, by decide, ?_⟩
  refine unsafe_taken (by decide) ⟨{ mem := fun _ => 0 }, { mem := fun _ => 0xFF }⟩ ?_
  intro refused
  have result := congrArg Prod.fst refused
  exact absurd result (by decide)

end IoEdgeHub.AreaConfined
