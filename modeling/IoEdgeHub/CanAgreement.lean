import IoEdgeHub.BootCan
import IoEdgeHub.FwCan
import Mathlib.Data.List.Forall2

/-!
Application and boot loader speak the same CAN upgrade protocol
(`docs/KNOWN_DEVIATIONS.md`). The application buffers pages in a session that the
channels share and programs them into slot1; the boot loader programs each frame
into slot0. Over whole sequences of sessions, finished or abandoned, the host
sees the same replies from both, and both store the same image, but for the
trailer that a confirmed upgrade leaves at the end of slot1.
-/
namespace IoEdgeHub.CanAgreement
open IoEdgeHub.Nor IoEdgeHub.W25qxx IoEdgeHub.IntFlash IoEdgeHub.Bytes IoEdgeHub.FwUpg IoEdgeHub.Calls
open IoEdgeHub.CanProtocol IoEdgeHub.BootCan

/-- The application's side: the upgrade core and the key hash received so far. -/
structure App where
  u : Upg
  keys : Keys := {}

/-- The frames that a host takes for replies. -/
def replies (out : List Frame) : List Frame := out.filter fun f => f.id = CAN_ID_REPLY

section
variable (version fw_keyhash : List UInt8) (boot_set_pending : Bool → Dev → Bool × Dev)

def app_step (a : App) (m : Frame) : List Frame × App :=
  let r := (FwCan.fw_task version m a.keys).run (exec fw_keyhash boot_set_pending) a.u
  (replies r.1.1, ⟨r.2, r.1.2⟩)

def boot_step (b : Boot) (m : Frame) : List Frame × Boot :=
  let r := handle_frame version fw_keyhash m b
  (replies r.1, r.2)

end

/-- An upgrade as a host runs it. Without a CONFIRM it is abandoned. -/
structure Upgrade where
  keys : List Frame
  size : Nat
  data : List (List UInt8)
  confirm : Option Nat

/-- The frames of an upgrade up to its CONFIRM, and all of them. -/
def Upgrade.opening (s : Upgrade) : List Frame := s.keys ++ startFrame s.size :: s.data.map dataFrame

def Upgrade.frames (s : Upgrade) : List Frame := s.opening ++ s.confirm.toList.map confirmFrame

/-- The image carries the given key hash, whatever is stored behind slot1. -/
def Carries (hash image : List UInt8) : Prop :=
  ∀ m : Mem, bytesAt m SLOT1_OFFSET image.length = image →
    Blank m (SLOT1_OFFSET + image.length) (SLOT1_SIZE - image.length) →
    (tlv_keyhash_get { mem := m }).1 = some hash

structure Upgrade.Valid (fw_keyhash : List UInt8) (s : Upgrade) : Prop where
  keys : s.keys = [] ∨ AllFive fw_keyhash s.keys
  low : 64 ≤ s.size
  high : s.size ≤ SLOT1_SIZE
  chunks : ∀ c ∈ s.data, 1 ≤ c.length ∧ c.length ≤ 8
  fits : s.data.flatten.length ≤ s.size
  signed : s.data.flatten.length = s.size → Carries fw_keyhash s.data.flatten

/-- `boot_set_pending` succeeds on working flash and leaves it working. -/
def Succeeds (boot_set_pending : Bool → Dev → Bool × Dev) : Prop :=
  ∀ permanent d, d.power = true → d.fates = [] →
    (boot_set_pending permanent d).1 = true ∧ (boot_set_pending permanent d).2.power = true ∧
      (boot_set_pending permanent d).2.fates = []

/-- What MCUboot writes of a trailer with entries aligned to 8 bytes. -/
def TRAILER_SIZE : Nat := 40

/-- The part of an image of the given size that lies before the trailer of slot1. -/
def before_trailer (size : Nat) : Nat := min size (SLOT1_SIZE - TRAILER_SIZE)

/-- When `boot_set_pending` succeeds, it has written nothing of slot1 but the trailer. -/
def WritesTrailer (boot_set_pending : Bool → Dev → Bool × Dev) : Prop :=
  ∀ permanent d, (boot_set_pending permanent d).1 = true →
    bytesAt (boot_set_pending permanent d).2.mem SLOT1_OFFSET (SLOT1_SIZE - TRAILER_SIZE) =
      bytesAt d.mem SLOT1_OFFSET (SLOT1_SIZE - TRAILER_SIZE)

/-- Both sides with working flash and no part of a key hash received. -/
structure Ready (a : App) (b : Boot) : Prop where
  works : Working a.u
  on : b.dev.power = true
  faultless : b.dev.fates = []
  appKeys : a.keys.key_mask = 0
  bootKeys : b.keys.key_mask = 0

/-- Both sides within an upgrade of `size` bytes of which they have received `got`. -/
structure Midway (size : Nat) (got : List UInt8) (a : App) (b : Boot) : Prop extends Ready a b where
  acc : Accepted a.u got
  appTotal : a.u.s.total = size
  active : b.active = true
  bootTotal : b.total = size
  written : b.written = got.length
  stored : bytesAt b.dev.mem SLOT0_ADDR got.length = got
  blank : Blank b.dev.mem (SLOT0_ADDR + got.length) (size - got.length)

/-- Application and boot loader put out the same replies to the given frames. -/
def Agree (version fw_keyhash : List UInt8) (boot_set_pending : Bool → Dev → Bool × Dev) (ms : List Frame) (a : App)
    (b : Boot) (post : App → Boot → Prop) : Prop :=
  Machine.Agree (app_step version fw_keyhash boot_set_pending) (boot_step version fw_keyhash) ms a b post

section
variable {version fw_keyhash : List UInt8} {boot_set_pending : Bool → Dev → Bool × Dev}
variable {a : App} {b : Boot} {size : Nat} {got : List UInt8}

private theorem app_keys {ms : List Frame} (frames : ∀ m ∈ ms, m.id = CAN_ID_KEYHASH) :
    Machine.trace (app_step version fw_keyhash boot_set_pending) a ms =
      ([], ⟨a.u, ms.foldl (fun k m => keyhash_frame m.data k) a.keys⟩) := by
  induction ms generalizing a with
  | nil => rfl
  | cons m ms ih =>
    have key := frames m (by simp)
    have one : app_step version fw_keyhash boot_set_pending a m = ([], ⟨a.u, keyhash_frame m.data a.keys⟩) := by
      simp only [app_step, FwCan.fw_task, key]
      rfl
    rw [Machine.trace, one, ih fun m' member => frames m' (by simp [member])]
    rfl

private theorem boot_keys {ms : List Frame} (frames : ∀ m ∈ ms, m.id = CAN_ID_KEYHASH ∧ 1 ≤ m.data.length) :
    Machine.trace (boot_step version fw_keyhash) b ms =
      ([], { b with keys := ms.foldl (fun k m => keyhash_frame m.data k) b.keys }) := by
  induction ms generalizing b with
  | nil => rfl
  | cons m ms ih =>
    obtain ⟨key, some_⟩ := frames m (by simp)
    have one : boot_step version fw_keyhash b m = ([], { b with keys := keyhash_frame m.data b.keys }) := by
      simp only [boot_step, handle_frame, key]
      rw [if_neg (by decide), if_neg (by decide), if_pos trivial, if_pos some_]
      rfl
    rw [Machine.trace, one, ih fun m' member => frames m' (by simp [member])]
    rfl

/-- A START finds no key hash or the right one, and leaves none behind. -/
private def Offers (hash : List UInt8) (k : Keys) : Prop :=
  (∀ h ∈ (offered k).1, h = hash) ∧ (offered k).2.key_mask = 0

private theorem keys_offer {ms : List Frame} {k : Keys} (whole : fw_keyhash.length = FW_KEYHASH_LEN)
    (empty : k.key_mask = 0) (valid : ms = [] ∨ AllFive fw_keyhash ms) :
    Offers fw_keyhash (ms.foldl (fun k m => keyhash_frame m.data k) k) := by
  rcases valid with rfl | five
  · rw [List.foldl_nil, Offers, offered_none empty]
    exact ⟨by simp, empty⟩
  · obtain ⟨some_, rest⟩ := @offered_all_five _ _ k whole five
    rw [Offers, some_]
    exact ⟨by simp, rest⟩

private theorem key_frames {ms : List Frame} (valid : ms = [] ∨ AllFive fw_keyhash ms) :
    ∀ m ∈ ms, m.id = CAN_ID_KEYHASH ∧ 1 ≤ m.data.length := by
  rcases valid with rfl | ⟨order, _, frames⟩
  · simp
  · clear * - frames
    induction frames with
    | nil => simp
    | cons frame _ ih => exact List.forall_mem_cons.mpr ⟨⟨frame.id, by have := frame.long; omega⟩, ih⟩

private theorem app_start (works : Working a.u) (offers : Offers fw_keyhash a.keys) (low : 64 ≤ size)
    (high : size ≤ SLOT1_SIZE) :
    ∃ u, app_step version fw_keyhash boot_set_pending a (startFrame size) =
        ([fw_reply FW_CODE_OFFSET 0], ⟨u, (offered a.keys).2⟩) ∧
      Working u ∧ Accepted u [] ∧ u.s.total = size := by
  have admitted : Admitted fw_keyhash size (offered a.keys).1 (fw_upg_abort a.u) := ⟨rfl, low, high, offers.1⟩
  have idle : Working (fw_upg_abort a.u) := ⟨works.on, works.faultless⟩
  obtain ⟨done, works'⟩ := fw_upg_start_working idle admitted
  obtain ⟨acc, total⟩ := fw_upg_start_accepted done
  refine ⟨_, ?_, works', acc, total⟩
  rw [app_step, FwCan.fw_task_start a.keys (by unfold SLOT1_SIZE at high; omega)]
  simp only [FwCan.start_update, ↓run_bind, ↓run_once, ↓run_ite, ↓run_pure, exec, done]
  rfl

private theorem boot_start (on : b.dev.power = true) (faultless : b.dev.fates = []) (offers : Offers fw_keyhash b.keys)
    (low : 64 ≤ size) (high : size ≤ SLOT1_SIZE) :
    ∃ d, boot_step version fw_keyhash b (startFrame size) =
        ([fw_reply FW_CODE_OFFSET 0],
          ⟨true, size, 0, b.confirmed, b.installed, (offered b.keys).2, d⟩) ∧
      d.power = true ∧ d.fates = [] ∧ Blank d.mem SLOT0_ADDR size := by
  have own : foreign_key fw_keyhash b.keys = false := by
    have right := offers.1
    unfold foreign_key
    cases given : (offered b.keys).1 with
    | none => rfl
    | some h => simp [right h given]
  unfold SLOT1_SIZE at high
  have bound : size ≤ round_4k size ∧ round_4k (round_4k size) ≤ 0x70000 := by
    unfold round_4k
    omega
  obtain ⟨m, erased_⟩ := @intflash_erase_working b.dev SLOT0_ADDR (round_4k size) on faultless (by decide)
    (by unfold SLOT0_ADDR; omega)
  have blank := @intflash_erase_done SLOT0_ADDR (round_4k size) b.dev (by rw [erased_])
    (by unfold SLOT0_ADDR round_4k; omega)
  rw [erased_] at blank
  refine ⟨{ b.dev with mem := m }, ?_, on, faultless, blank_part blank (Nat.le_refl _) (by omega)⟩
  rw [boot_step, handle_frame_start b (by omega), start, own, start_reply, if_neg (by decide),
    if_neg (by unfold SLOT0_SIZE; omega)]
  simp only [erased_]
  rfl

/-- A START and the key hash before it open an upgrade on both sides. -/
private theorem opened {keys : List Frame} (whole : fw_keyhash.length = FW_KEYHASH_LEN) (ready : Ready a b)
    (valid : keys = [] ∨ AllFive fw_keyhash keys) (low : 64 ≤ size) (high : size ≤ SLOT1_SIZE) :
    Agree version fw_keyhash boot_set_pending (keys ++ [startFrame size]) a b (Midway size []) := by
  have frames := key_frames valid
  have appOffers := keys_offer whole ready.appKeys valid
  have bootOffers := keys_offer whole ready.bootKeys valid
  have appKeys := @app_keys version fw_keyhash boot_set_pending a keys fun m member => (frames m member).1
  have bootKeys := @boot_keys version fw_keyhash b keys frames
  generalize keys.foldl (fun k m => keyhash_frame m.data k) a.keys = k at appOffers appKeys
  generalize keys.foldl (fun k m => keyhash_frame m.data k) b.keys = k' at bootOffers bootKeys
  obtain ⟨u, appStart, works, acc, appTotal⟩ := @app_start version fw_keyhash boot_set_pending ⟨a.u, k⟩ size
    ready.works appOffers low high
  obtain ⟨d, bootStart, on, faultless, blank⟩ := @boot_start version fw_keyhash { b with keys := k' } size
    ready.on ready.faultless bootOffers low high
  have collected : Agree version fw_keyhash boot_set_pending keys a b
      fun a' b' => a' = ⟨a.u, k⟩ ∧ b' = { b with keys := k' } := by
    rw [Agree, Machine.Agree, appKeys, bootKeys]
    exact ⟨rfl, rfl, rfl⟩
  refine Machine.agree_append collected ?_
  rintro _ _ ⟨rfl, rfl⟩
  refine Machine.agree_one appStart bootStart ?_
  exact ⟨⟨works, on, faultless, appOffers.2, bootOffers.2⟩, acc, appTotal, rfl, rfl, rfl, rfl, blank⟩

private theorem replies_data_ack (written total : Nat) : replies (data_ack written total) = data_ack written total := by
  unfold data_ack
  split_ifs <;> rfl

/-- A data frame that fits is stored and acknowledged in the same way on both sides. -/
private theorem data_agree {data : List UInt8} (mid : Midway size got a b) (some_ : 1 ≤ data.length)
    (fits : got.length + data.length ≤ size) :
    Agree version fw_keyhash boot_set_pending [dataFrame data] a b (Midway size (got ++ data)) := by
  have appTotal := mid.appTotal
  have high := mid.acc.size
  unfold SLOT1_SIZE at high
  obtain ⟨done, works⟩ := fw_upg_write_working mid.works mid.acc (by rw [appTotal]; exact fits)
  obtain ⟨total, active, taken | refused⟩ := @fw_upg_write_accepted a.u got data mid.acc (by omega)
  · obtain ⟨m, wrote⟩ := @intflash_write_working b.dev (SLOT0_ADDR + b.written) data mid.on mid.faultless
    have unwrapped : SLOT0_ADDR + b.written + data.length < 2^32 := by
      rw [mid.written]
      unfold SLOT0_ADDR
      omega
    have mem := @intflash_write_done (SLOT0_ADDR + b.written) data b.dev unwrapped (by rw [wrote])
    rw [wrote, mid.written] at mem
    have stored := @bytesAt_extend b.dev.mem SLOT0_ADDR got data mid.stored
      (blank_part mid.blank (Nat.le_refl _) (by omega))
    have blank : Blank m (SLOT0_ADDR + (got ++ data).length) (size - (got ++ data).length) := by
      rw [List.length_append]
      simp only at mem
      rw [mem]
      exact blank_programmed (blank_part mid.blank (by omega) (by omega)) (.inr (by omega))
    refine @Machine.agree_one _ _ _ _ _ _ _ _ ⟨(fw_upg_write data a.u).2, a.keys⟩ _
      { b with written := b.written + data.length, dev := { b.dev with mem := m } }
      (data_ack (got ++ data).length size) _ ?_ ?_ ?_
    · have received := taken.2.received
      have wanted : fw_upg_total (fw_upg_write data a.u).2 = size := by
        rw [fw_upg_total, if_pos active, total, appTotal]
      rw [app_step, FwCan.fw_task_data]
      simp only [FwCan.handle_fw_data, ↓run_bind, ↓run_once, ↓run_ite, ↓run_pure, exec, fw_upg_active, mid.acc.active,
        done, received, wanted, data_ack, Bool.not_true, Bool.false_eq_true, if_false, ne_eq, not_true]
      split_ifs with complete block
      · simp only [complete]
        rfl
      · rfl
      · rfl
    · have length : b.written + data.length = (got ++ data).length := by rw [mid.written, List.length_append]
      rw [boot_step, handle_frame_data, handle_data, if_neg (by simp [mid.active]),
        if_neg (by rw [mid.written, mid.bootTotal]; omega), wrote]
      simp only [length, mid.bootTotal, replies_data_ack]
    · exact ⟨⟨works, mid.on, mid.faultless, mid.appKeys, mid.bootKeys⟩, taken.2, total.trans appTotal, mid.active,
        mid.bootTotal, by rw [List.length_append, ← mid.written], by simp only at mem; rw [mem]; exact stored, blank⟩
  · exact absurd done refused.1

/-- The data frames of an upgrade, one after another. -/
private theorem data_frames_agree {chunks : List (List UInt8)} (mid : Midway size got a b)
    (some_ : ∀ c ∈ chunks, 1 ≤ c.length) (fits : got.length + chunks.flatten.length ≤ size) :
    Agree version fw_keyhash boot_set_pending (chunks.map dataFrame) a b
      (Midway size (got ++ chunks.flatten)) := by
  induction chunks generalizing a b got with
  | nil => exact ⟨rfl, by simpa [Machine.trace] using mid⟩
  | cons data rest ih =>
    rw [List.flatten_cons, List.length_append] at fits
    rw [List.flatten_cons, ← List.append_assoc]
    refine Machine.agree_append (data_agree mid (some_ data (by simp)) (by omega)) fun a' b' mid' => ?_
    exact ih mid' (fun c member => some_ c (by simp [member])) (by rw [List.length_append]; omega)

/-- Both sides after the frames of an upgrade up to its CONFIRM. -/
private theorem opening_agree {s : Upgrade} (whole : fw_keyhash.length = FW_KEYHASH_LEN) (ready : Ready a b)
    (valid : s.Valid fw_keyhash) :
    Agree version fw_keyhash boot_set_pending s.opening a b (Midway s.size s.data.flatten) := by
  have split : s.opening = (s.keys ++ [startFrame s.size]) ++ s.data.map dataFrame := by
    rw [List.append_assoc]
    rfl
  rw [split]
  refine Machine.agree_append (opened whole ready valid.keys valid.low valid.high) fun a' b' mid => ?_
  have data := @data_frames_agree version fw_keyhash boot_set_pending a' b' s.size [] s.data mid
    (fun c member => (valid.chunks c member).1) (by simpa using valid.fits)
  rw [List.nil_append] at data
  exact data

/-- The application's checks pass for exactly the complete images. -/
private theorem finish_outcome (mid : Midway size got a b)
    (signed : got.length = size → Carries fw_keyhash got) :
    (fw_upg_finish_ex fw_keyhash 0 false a.u).1 = 0 ↔ got.length = size := by
  constructor
  · intro done
    rw [(fw_upg_finish_ex_done mid.acc done).1, mid.appTotal]
  · intro complete
    obtain ⟨stored, blank⟩ := @fw_upg_finish_ex_stored fw_keyhash 0 false a.u got mid.works mid.acc
    exact fw_upg_finish_ex_working mid.works mid.acc (complete.trans mid.appTotal.symm) (by simp)
      (signed complete _ stored blank)

/-- The reply to the CONFIRM of a session that has received `got` of `size` bytes. -/
private def confirm_reply (got size : Nat) : List Frame :=
  if got = size then [fw_reply FW_CODE_CONFIRM FW_CODE_CONFIRM_MAGIC] else [fw_reply FW_CODE_TRANSFER_ERROR 0]

private theorem app_confirm (arg : Nat) (mid : Midway size got a b) (succeeds : Succeeds boot_set_pending)
    (signed : got.length = size → Carries fw_keyhash got) :
    ∃ u, app_step version fw_keyhash boot_set_pending a (confirmFrame arg) =
        (confirm_reply got.length size, ⟨u, a.keys⟩) ∧ Working u ∧
      (got.length = size → ∃ d, bytesAt d.mem SLOT1_OFFSET size = got ∧
        boot_set_pending (argument (confirmFrame arg).data ≠ 0) d = (true, u.dev)) := by
  have outcome := finish_outcome mid signed
  have works := @fw_upg_finish_ex_works fw_keyhash 0 false a.u got mid.works mid.acc
  obtain ⟨stored, _⟩ := @fw_upg_finish_ex_stored fw_keyhash 0 false a.u got mid.works mid.acc
  rw [app_step, FwCan.fw_task_confirm]
  simp only [FwCan.confirm, ↓run_bind, ↓run_once, ↓run_ite, ↓run_pure, exec, fw_upg_active, mid.acc.active,
    Bool.not_true, Bool.false_eq_true, if_false, confirm_reply]
  generalize fw_upg_finish_ex fw_keyhash 0 false a.u = finished at outcome works stored
  by_cases complete : got.length = size
  · obtain ⟨pending, on, faultless⟩ := succeeds (argument (confirmFrame arg).data ≠ 0) finished.2.dev works.on
      works.faultless
    simp only [outcome.mpr complete, ne_eq, not_true, if_false, complete, if_true]
    simp only [ne_eq] at pending
    rw [if_neg (by rw [pending]; decide)]
    refine ⟨_, rfl, ⟨on, faultless⟩, fun _ => ⟨finished.2.dev, ?_, Prod.ext pending rfl⟩⟩
    rwa [complete] at stored
  · simp only [ne_eq, outcome, complete, not_false_iff, if_true, if_false]
    exact ⟨_, rfl, works, by simp⟩

private theorem boot_confirm (arg : Nat) (mid : Midway size got a b) :
    ∃ b', boot_step version fw_keyhash b (confirmFrame arg) = (confirm_reply got.length size, b') ∧
      b'.keys = b.keys ∧ b'.dev = b.dev := by
  rw [boot_step, handle_frame_confirm, BootCan.confirm, if_neg (by simp [mid.active]), confirm_reply, mid.written,
    mid.bootTotal]
  by_cases complete : got.length = size
  · rw [if_neg (by simp [complete]), if_pos complete]
    exact ⟨_, rfl, rfl, rfl⟩
  · rw [if_pos complete, if_neg complete]
    exact ⟨_, rfl, rfl, rfl⟩

/-- Both sides answer a CONFIRM alike. When it succeeds, slot0 holds the image, and so did slot1
    before its trailer was written. -/
private theorem confirm_agree (arg : Nat) (mid : Midway size got a b) (succeeds : Succeeds boot_set_pending)
    (signed : got.length = size → Carries fw_keyhash got) :
    (app_step version fw_keyhash boot_set_pending a (confirmFrame arg)).1 = confirm_reply got.length size ∧
      Agree version fw_keyhash boot_set_pending [confirmFrame arg] a b fun a' b' => Ready a' b' ∧
        (got.length = size → bytesAt b'.dev.mem SLOT0_ADDR size = got ∧ ∃ d, bytesAt d.mem SLOT1_OFFSET size = got ∧
          boot_set_pending (argument (confirmFrame arg).data ≠ 0) d = (true, a'.u.dev)) := by
  obtain ⟨u, appStep, works, stored⟩ := @app_confirm version fw_keyhash boot_set_pending a b size got arg mid succeeds
    signed
  obtain ⟨b', bootStep, keys, dev⟩ := @boot_confirm version fw_keyhash a b size got arg mid
  refine ⟨congrArg Prod.fst appStep, Machine.agree_one appStep bootStep ⟨?_, fun complete => ⟨?_, stored complete⟩⟩⟩
  · exact ⟨works, by rw [dev]; exact mid.on, by rw [dev]; exact mid.faultless, mid.appKeys, by rw [keys]; exact mid.bootKeys⟩
  · have bootStored := mid.stored
    rw [complete] at bootStored
    rw [dev, bootStored]

/-- A whole upgrade, whether or not it is confirmed, leaves both sides ready for the next one. -/
private theorem upgrade_agree {s : Upgrade} (whole : fw_keyhash.length = FW_KEYHASH_LEN) (ready : Ready a b)
    (valid : s.Valid fw_keyhash) (succeeds : Succeeds boot_set_pending) :
    Agree version fw_keyhash boot_set_pending s.frames a b (Ready) := by
  refine Machine.agree_append (opening_agree whole ready valid) fun a' b' mid => ?_
  cases s.confirm with
  | none => exact ⟨rfl, mid.toReady⟩
  | some arg =>
    have confirmed := (@confirm_agree version fw_keyhash boot_set_pending a' b' _ _ arg mid succeeds valid.signed).2
    exact ⟨confirmed.1, confirmed.2.1⟩

private theorem upgrades_agree {sessions : List Upgrade} (whole : fw_keyhash.length = FW_KEYHASH_LEN)
    (ready : Ready a b) (valid : ∀ s ∈ sessions, s.Valid fw_keyhash) (succeeds : Succeeds boot_set_pending) :
    Agree version fw_keyhash boot_set_pending (sessions.flatMap Upgrade.frames) a b (Ready) := by
  induction sessions generalizing a b with
  | nil => exact ⟨rfl, ready⟩
  | cons s rest ih =>
    refine Machine.agree_append (upgrade_agree whole ready (valid s (by simp)) succeeds) fun a' b' ready' => ?_
    exact ih ready' fun s' member => valid s' (by simp [member])

/-- After a CONFIRM that is answered with success, slot0 holds the image, and slot1 what
    `boot_set_pending` made of it. -/
private theorem confirmed_images {sessions : List Upgrade} {s : Upgrade} {arg : Nat} (whole : fw_keyhash.length = FW_KEYHASH_LEN)
    (ready : Ready a b) (earlier : ∀ s ∈ sessions, s.Valid fw_keyhash) (valid : s.Valid fw_keyhash)
    (succeeds : Succeeds boot_set_pending) :
    let app := app_step version fw_keyhash boot_set_pending
    let boot := boot_step version fw_keyhash
    let a' := app (Machine.trace app a (sessions.flatMap Upgrade.frames ++ s.opening)).2 (confirmFrame arg)
    let b' := boot (Machine.trace boot b (sessions.flatMap Upgrade.frames ++ s.opening)).2 (confirmFrame arg)
    a'.1 = confirm_reply s.data.flatten.length s.size ∧ a'.1 = b'.1 ∧
      (s.data.flatten.length = s.size → bytesAt b'.2.dev.mem SLOT0_ADDR s.size = s.data.flatten ∧
        ∃ d, bytesAt d.mem SLOT1_OFFSET s.size = s.data.flatten ∧
          boot_set_pending (argument (confirmFrame arg).data ≠ 0) d = (true, a'.2.u.dev)) := by
  intro app boot a' b'
  have before := @upgrades_agree version fw_keyhash boot_set_pending a b sessions whole ready earlier succeeds
  have mid := (Machine.agree_append before fun a b ready =>
    @opening_agree version fw_keyhash boot_set_pending a b s whole ready valid).2
  obtain ⟨reply, same, _, stored⟩ := @confirm_agree version _ _ _ _ _ _ arg mid succeeds valid.signed
  rw [Machine.trace_one, Machine.trace_one] at same stored
  simp only [a', b', app, boot]
  exact ⟨reply, same, stored⟩

/-- Over every sequence of upgrades application and boot loader send the same replies, and a
    CONFIRM that succeeds leaves the same image in slot1 and slot0, up to the trailer of slot1. -/
theorem can_handlers_agree {sessions : List Upgrade} (whole : fw_keyhash.length = FW_KEYHASH_LEN)
    (ready : Ready a b) (valid : ∀ s ∈ sessions, s.Valid fw_keyhash) (succeeds : Succeeds boot_set_pending)
    (trailer : WritesTrailer boot_set_pending) :
    let app := app_step version fw_keyhash boot_set_pending
    let boot := boot_step version fw_keyhash
    (Machine.trace app a (sessions.flatMap Upgrade.frames)).1 = (Machine.trace boot b (sessions.flatMap Upgrade.frames)).1 ∧
      ∀ before s after arg, sessions = before ++ s :: after → s.confirm = some arg →
        let a' := app (Machine.trace app a (before.flatMap Upgrade.frames ++ s.opening)).2 (confirmFrame arg)
        let b' := boot (Machine.trace boot b (before.flatMap Upgrade.frames ++ s.opening)).2 (confirmFrame arg)
        fw_reply FW_CODE_CONFIRM FW_CODE_CONFIRM_MAGIC ∈ a'.1 →
          bytesAt a'.2.u.dev.mem SLOT1_OFFSET (before_trailer s.size) =
            bytesAt b'.2.dev.mem SLOT0_ADDR (before_trailer s.size) := by
  intro app boot
  refine ⟨(upgrades_agree whole ready valid succeeds).1, ?_⟩
  intro before s after arg split _ a' b' answered
  subst split
  obtain ⟨reply, -, stored⟩ := @confirmed_images version fw_keyhash boot_set_pending a b before s arg whole ready
    (fun s' member => valid s' (by simp [member])) (valid s (by simp)) succeeds
  have complete : s.data.flatten.length = s.size := by
    by_contra short
    have answered' : _ ∈ confirm_reply s.data.flatten.length s.size := reply ▸ answered
    rw [confirm_reply, if_neg short] at answered'
    exact absurd answered' (by decide)
  obtain ⟨slot0, d, slot1, pending⟩ := stored complete
  have kept := trailer _ d (congrArg Prod.fst pending)
  rw [pending] at kept
  -- neither side has changed the part of the image before the trailer
  have inside : before_trailer s.size ≤ s.size := Nat.min_le_left _ _
  have front := congrArg (·.take (before_trailer s.size)) kept
  simp only [bytesAt_take _ _ (show before_trailer s.size ≤ SLOT1_SIZE - TRAILER_SIZE from Nat.min_le_right _ _)] at front
  simp only [a', b', app, boot]
  rw [front, ← bytesAt_take _ _ inside, ← bytesAt_take _ _ inside, slot0, slot1]

/-- The smallest image is signed, and so is a longer file that starts with it. -/
private theorem padded_carries (pad : List UInt8) : Carries smallHash (smallImage smallHash ++ pad) := by
  intro m image _
  have length := small_length
  have stored : bytesAt m SLOT1_OFFSET 552 = smallImage smallHash := by
    have front := congrArg (·.take 552) image
    rwa [List.length_append, length, bytesAt_take _ _ (Nat.le_add_right _ _), List.take_left' length] at front
  have read (off n : Nat) (inside : off + n ≤ 552) :
      w25_read (SLOT1_OFFSET + off) n { mem := m } = (some (((smallImage smallHash).drop off).take n), { mem := m }) := by
    rw [w25_read_working rfl rfl (by unfold SLOT1_OFFSET W25Q_CHIP_SIZE; omega), bytesAt_slice m SLOT1_OFFSET inside,
      stored]
  have header := read 0 32 (by decide)
  have info := read 512 4 (by decide)
  have entry := read 516 4 (by decide)
  have hash := read (516 + 4) FW_KEYHASH_LEN (by decide)
  have scan : (tlv_scan 516 552 { mem := m }).1 = some smallHash := by
    rw [tlv_scan, if_pos (by decide), entry]
    simp only
    have found : ((smallImage smallHash).drop (516 + 4)).take FW_KEYHASH_LEN = smallHash := by decide +kernel
    rw [if_pos (by decide +kernel), Nat.add_assoc, hash, found]
  have area : (tlv_area 512 { mem := m }).1 = some smallHash := by
    rw [tlv_area, if_neg (by decide), info]
    simp only
    have stop : 512 + get_le16 ((((smallImage smallHash).drop 512).take 4).drop 2) = 552 := by decide +kernel
    rw [if_neg (by decide +kernel), stop]
    exact scan
  rw [Nat.add_zero] at header
  rw [tlv_keyhash_get, header]
  simp only
  have tlv_off : (get_le16 ((((smallImage smallHash).drop 0).take 32).drop 8) +
      io_get_le32 ((((smallImage smallHash).drop 0).take 32).drop 12)) % 2^32 = 512 := by decide
  rw [if_neg (by decide), if_neg (by decide), tlv_off]
  exact area

/-- The image in frames of eight bytes, with a key hash before it. -/
def smallUpgrade : Upgrade where
  keys := [0, 3, 1, 4, 2].map fun seq => ⟨CAN_ID_KEYHASH, UInt8.ofNat seq :: (smallHash.drop (seq * 7)).take 7⟩
  size := 552
  data := (List.range 69).map fun i => ((smallImage smallHash).drop (8 * i)).take 8
  confirm := some 1

/-- What MCUboot writes into a blank trailer of slot1 for a swap: the kind of swap, `image_ok` and the magic. -/
def trailer (permanent : Bool) : List UInt8 :=
  (if permanent then 3 else 2) :: List.replicate 15 0xFF ++ (if permanent then 1 else 0xFF) :: List.replicate 7 0xFF ++
    io_put_le32 0xF395C277 ++ io_put_le32 0x7FEFD260 ++ io_put_le32 0x0F505235 ++ io_put_le32 0x8079B62C

def writeTrailer (permanent : Bool) (d : Dev) : Bool × Dev :=
  d.program (SLOT1_OFFSET + SLOT1_SIZE - TRAILER_SIZE) (trailer permanent)

/-- The writer of the trailer succeeds on working flash. -/
theorem writeTrailer_succeeds : Succeeds writeTrailer := by
  intro permanent d on faultless
  rw [writeTrailer, Dev.program, operate_working on faultless]
  exact ⟨rfl, on, faultless⟩

private theorem writeTrailer_writes : WritesTrailer writeTrailer := by
  intro permanent d _
  refine bytesAt_congr fun a low high => program_outside (.inl ?_)
  unfold SLOT1_OFFSET SLOT1_SIZE TRAILER_SIZE at *
  omega

private theorem small_flatten : smallUpgrade.data.flatten = smallImage smallHash := by decide +kernel

private theorem small_chunks : ∀ c ∈ smallUpgrade.data, 1 ≤ c.length ∧ c.length ≤ 8 := by
  intro c member
  obtain ⟨i, inside, rfl⟩ := List.mem_map.mp member
  have low := List.mem_range.mp inside
  simp only [List.length_take, List.length_drop, small_length]
  omega

private theorem small_keys : AllFive smallHash smallUpgrade.keys := by
  refine ⟨[0, 3, 1, 4, 2], by decide, ?_⟩
  refine List.forall₂_map_right_iff.mpr (List.forall₂_same.mpr fun seq member => ⟨rfl, ?_, ?_, ?_⟩)
  · revert seq
    decide
  · revert seq
    decide
  · revert seq
    decide

/-- The small image and as many blank bytes behind it as slot1 has room for. -/
def fullUpgrade : Upgrade :=
  { smallUpgrade with size := SLOT1_SIZE, data := smallUpgrade.data ++ List.replicate 57275 (List.replicate 8 0xFF) }

private theorem full_flatten : fullUpgrade.data.flatten = smallImage smallHash ++ List.replicate 458200 0xFF := by
  rw [fullUpgrade, List.flatten_append, small_flatten, List.flatten_replicate_replicate]

private theorem full_whole : fullUpgrade.data.flatten.length = fullUpgrade.size := by
  rw [full_flatten, List.length_append, small_length, List.length_replicate]
  rfl

private theorem full_valid : fullUpgrade.Valid smallHash where
  keys := .inr small_keys
  low := by decide
  high := Nat.le_refl _
  chunks := by
    intro c member
    rcases List.mem_append.mp member with image | blank
    · exact small_chunks c image
    · rw [List.eq_of_mem_replicate blank]
      decide
  fits := Nat.le_of_eq full_whole
  signed := fun _ => full_flatten ▸ padded_carries _

private theorem idle_ready : Ready ⟨idle, {}⟩ { dev := { mem := fun _ => 0 } } := ⟨⟨rfl, rfl⟩, rfl, rfl, rfl, rfl⟩

/-- Two upgrades, the first of which is abandoned before its last frame. -/
theorem can_handlers_agree_small :
    let sessions : List Upgrade := [⟨[], 552, smallUpgrade.data.take 68, none⟩, smallUpgrade]
    let b : Boot := { dev := { mem := fun _ => 0 } }
    (Machine.trace (app_step [] smallHash writeTrailer) ⟨idle, {}⟩ (sessions.flatMap Upgrade.frames)).1 =
      (Machine.trace (boot_step [] smallHash) b (sessions.flatMap Upgrade.frames)).1 := by
  intro sessions b
  have part : (smallUpgrade.data.take 68).flatten.length = 544 := by decide +kernel
  refine (@can_handlers_agree [] smallHash writeTrailer ⟨idle, {}⟩ b sessions (by decide) idle_ready ?_
    writeTrailer_succeeds writeTrailer_writes).1
  intro s member
  rcases List.mem_cons.mp member with rfl | member
  · exact ⟨.inl rfl, by decide, by decide, fun c inside => small_chunks c (List.mem_of_mem_take inside), by rw [part]; decide,
      fun complete => absurd (part.symm.trans complete) (by decide)⟩
  · obtain rfl := List.mem_singleton.mp member
    refine ⟨.inr small_keys, by decide, by decide, small_chunks, ?_, fun _ => ?_⟩
    · rw [small_flatten, small_length]
      decide
    · rw [small_flatten, ← List.append_nil (smallImage smallHash)]
      exact padded_carries []

/-- An image that fills the slot is confirmed by both, and then the trailer lies over the end of it in slot1. -/
theorem full_slot_differs :
    let app := app_step [] smallHash writeTrailer
    let boot := boot_step [] smallHash
    let b : Boot := { dev := { mem := fun _ => 0 } }
    let a' := app (Machine.trace app ⟨idle, {}⟩ fullUpgrade.opening).2 (confirmFrame 1)
    let b' := boot (Machine.trace boot b fullUpgrade.opening).2 (confirmFrame 1)
    fullUpgrade.Valid smallHash ∧ Succeeds writeTrailer ∧ fw_reply FW_CODE_CONFIRM FW_CODE_CONFIRM_MAGIC ∈ a'.1 ∧
      a'.1 = b'.1 ∧
      bytesAt a'.2.u.dev.mem SLOT1_OFFSET fullUpgrade.size ≠ bytesAt b'.2.dev.mem SLOT0_ADDR fullUpgrade.size := by
  intro app boot b a' b'
  obtain ⟨reply, same, stored⟩ := @confirmed_images [] smallHash writeTrailer ⟨idle, {}⟩ b [] fullUpgrade 1 (by decide)
    idle_ready (by simp) full_valid writeTrailer_succeeds
  simp only [List.flatMap_nil, List.nil_append] at reply same stored
  simp only [a', b', app, boot]
  refine ⟨full_valid, writeTrailer_succeeds, ?_, same, fun equal => ?_⟩
  · rw [reply, confirm_reply, if_pos full_whole]
    exact List.mem_singleton_self _
  · obtain ⟨slot0, d, slot1, pending⟩ := stored full_whole
    -- the first byte of the trailer is blank in the image
    have inside : SLOT1_SIZE - TRAILER_SIZE < fullUpgrade.size := by decide
    have last : fullUpgrade.data.flatten[SLOT1_SIZE - TRAILER_SIZE]? = some 0xFF := by
      rw [full_flatten, List.getElem?_append_right (by rw [small_length]; decide), List.getElem?_replicate_of_lt]
      rw [small_length]
      decide
    rw [slot0] at equal
    have written := congrArg (·[SLOT1_SIZE - TRAILER_SIZE]?) equal
    have blank := congrArg (·[SLOT1_SIZE - TRAILER_SIZE]?) slot1
    simp only [last, bytesAt_getElem? _ _ inside, Option.some.injEq] at written blank
    rw [(operate_done pending).2.1, show argument (confirmFrame 1).data = 1 by decide] at written
    have first : SLOT1_OFFSET + (SLOT1_SIZE - TRAILER_SIZE) < SLOT1_OFFSET + SLOT1_SIZE - TRAILER_SIZE + 40 := by decide
    simp only [programmed] at written
    rw [if_pos ⟨by decide, first⟩, blank] at written
    exact absurd written (by decide)

end

end IoEdgeHub.CanAgreement
