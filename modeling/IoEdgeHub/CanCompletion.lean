import IoEdgeHub.CanUpgrades

/-!
The CAN upgrade tool when nothing goes wrong: no frame is lost, no reply comes too
late and the flash works. Then the tool gets to the end, in a number of steps that
is known beforehand, however the steps of tool, bus and device are interleaved.
-/
namespace IoEdgeHub.CanCompletion
open IoEdgeHub.Nor IoEdgeHub.W25qxx IoEdgeHub.IntFlash IoEdgeHub.Bytes IoEdgeHub.FwUpg IoEdgeHub.Calls
open IoEdgeHub.CanProtocol IoEdgeHub.CanTool IoEdgeHub.CanUpgrades
open IoEdgeHub.CanAgreement (App replies Carries Succeeds)
open IoEdgeHub.BootCan (Boot data_ack)

/-- `Ready seen`: no session yet, and the frames `seen` of the key hash have been
    handled; `Works`: nothing that the device does from here on fails. -/
structure Faultless {σ : Type} (R : Receiver σ) (kh img : List UInt8) where
  Ready : List Frame → σ → Prop
  Works : σ → Prop
  room : ∀ m, m.data.length ≤ 8 → R.arrive [] m = [m]
  keeps : ∀ m s q, m.id ≠ CAN_ID_CMD → R.drain m s q = q
  key : ∀ seen m s, m ∈ send_keyhash kh → Ready seen s →
    (R.handle m s).1 = [] ∧ Ready (seen ++ [m]) (R.handle m s).2
  start : ∀ s, Ready (send_keyhash kh) s →
    let r := R.handle (startFrame img.length) s
    replies r.1 = [fw_reply FW_CODE_OFFSET 0] ∧ r.1.length ≤ 2 ∧ R.Open img.length [] r.2 ∧ Works r.2
  data : ∀ got d s, Works s → R.Open img.length got s → 1 ≤ d.length → d.length ≤ 8 →
    got.length + d.length ≤ img.length →
    let r := R.handle (dataFrame d) s
    replies r.1 = data_ack (got.length + d.length) img.length ∧ r.1.length ≤ 2 ∧
      R.Open img.length (got ++ d) r.2 ∧ Works r.2
  confirm : ∀ arg s, arg < 2^32 → Works s → R.Open img.length img s →
    let r := R.handle (confirmFrame arg) s
    replies r.1 = [fw_reply FW_CODE_CONFIRM FW_CODE_CONFIRM_MAGIC] ∧ r.1.length ≤ 2
  reboot : ∀ s, (R.handle rebootFrame s).1.length ≤ 2

section
variable {σ : Type} (R : Receiver σ)

/-- An event that loses nothing and moves something. -/
def Moves (s : Sys σ) : Event → Prop
  | .arrive => ∃ m rest, s.bus = m :: rest ∧ R.arrive s.queue m = s.queue ++ [m]
  | .handle => s.queue ≠ []
  | .read => s.back ≠ [] ∧ waiting s.phase = true
  | _ => False

end

section
variable {σ : Type} {R : Receiver σ} {kh img : List UInt8} (F : Faultless R kh img) (test : Bool)
variable (out ans : List Frame) (dev : σ)

/-- The device has stored what the tool has sent up to the frames under way. -/
def Flowing (base stop : Nat) : Prop :=
  ∃ (chunks : List (List UInt8)) (got : List UInt8), out = chunks.map dataFrame ∧
    (∀ c ∈ chunks, 1 ≤ c.length ∧ c.length ≤ 8) ∧ R.Open img.length got dev ∧ F.Works dev ∧ base ≤ got.length ∧
    got ++ chunks.flatten = img.take stop ∧ ans = if got.length = stop then data_ack stop img.length else []

/-- Nothing of what was sent is missing. -/
structure Smooth (p : Phase) : Prop where
  start : p = .start →
    (ans = [] ∧ ∃ pre ks, pre ++ ks = send_keyhash kh ∧ out = ks ++ [startFrame img.length] ∧ F.Ready pre dev) ∨
      (out = [] ∧ ans = [fw_reply FW_CODE_OFFSET 0] ∧ R.Open img.length [] dev ∧ F.Works dev)
  data : Transferring p → ∃ base, Window img base (sent_to img p) ∧ Flowing F out ans dev base (sent_to img p)
  confirm : p = .confirm →
    (out = [confirmFrame (confirm_arg test)] ∧ ans = [] ∧ R.Open img.length img dev ∧ F.Works dev) ∨
      (out = [] ∧ ans = [fw_reply FW_CODE_CONFIRM FW_CODE_CONFIRM_MAGIC])
  confirmed : p = .confirmed → ∀ m ∈ out, m = rebootFrame
  going : p ≠ .stopped

end

section
variable {σ : Type} {R : Receiver σ} {kh img : List UInt8} {F : Faultless R kh img} {test reboots : Bool}
variable {out ans : List Frame} {dev : σ} {p : Phase}

/-- What the tool sends fits into a frame. -/
theorem smooth_short (inv : Smooth F test out ans dev p) : ∀ m ∈ out, m.data.length ≤ 8 := by
  have keys : ∀ m ∈ send_keyhash kh, m.data.length ≤ 8 := by
    intro m member
    obtain ⟨seq, _, rfl⟩ := List.mem_map.mp member
    simp only [List.length_cons, List.length_append, List.length_replicate, keyhash_chunk, List.length_take,
      List.length_drop]
    omega
  have transfers (moving : Transferring p) : ∀ m ∈ out, m.data.length ≤ 8 := by
    obtain ⟨_, _, chunks, _, rfl, sizes, _⟩ := inv.data moving
    intro m member
    obtain ⟨c, inside, rfl⟩ := List.mem_map.mp member
    exact (sizes c inside).2
  intro m member
  cases p with
  | start =>
    rcases inv.start rfl with ⟨_, pre, ks, all, rfl, _⟩ | ⟨rfl, _⟩
    · rcases List.mem_append.mp member with key | last
      · exact keys m (all ▸ List.mem_append_right pre key)
      · obtain rfl := List.mem_singleton.mp last
        simp [startFrame]
    · cases member
  | block off => exact transfers trivial m member
  | tail => exact transfers trivial m member
  | confirm =>
    rcases inv.confirm rfl with ⟨rfl, _⟩ | ⟨rfl, _⟩
    · obtain rfl := List.mem_singleton.mp member
      simp [confirmFrame]
    · cases member
  | confirmed =>
    rw [inv.confirmed rfl m member]
    decide
  | stopped => exact absurd rfl inv.going

private theorem smooth_sending {base : Nat} (moving : Transferring p) (window : Window img base (sent_to img p))
    (flowing : Flowing F out ans dev base (sent_to img p)) : Smooth F test out ans dev p := by
  refine ⟨?_, fun _ => ⟨base, window, flowing⟩, ?_, ?_, ?_⟩ <;> rintro rfl <;> exact moving.elim

/-- The device handles a frame of the image. -/
theorem smooth_data {m : Frame} (inv : Smooth F test (m :: out) ans dev p) (moving : Transferring p) :
    Smooth F test out (ans ++ replies (R.handle m dev).1) (R.handle m dev).2 p ∧ (R.handle m dev).1.length ≤ 2 ∧
      m.id ≠ CAN_ID_CMD := by
  obtain ⟨base, window, chunks, got, shape, sizes, open_, works, low, all, silent⟩ := inv.data moving
  cases chunks with
  | nil => cases shape
  | cons c chunks =>
    obtain ⟨rfl, rfl⟩ := List.cons_eq_cons.mp shape
    obtain ⟨some_, short⟩ := sizes c (by simp)
    have high := window.high
    have length := congrArg List.length all
    simp only [List.flatten_cons, List.length_append, List.length_take] at length
    obtain ⟨ack, brief, open', works'⟩ := F.data got c dev works open_ some_ short (by omega)
    refine ⟨smooth_sending moving window ⟨chunks, got ++ c, rfl, fun c member => sizes c (by simp [member]), open',
      works', by simp; omega, by rw [← all, List.flatten_cons, List.append_assoc], ?_⟩, brief, ?_⟩
    swap
    · simp [dataFrame, CAN_ID_DATA, CAN_ID_CMD]
    rw [silent, if_neg (by omega), List.nil_append, ack, List.length_append]
    split_ifs with complete
    · rw [complete]
    · rw [data_ack_between window.aligned (by omega) (by omega) window.near high]

/-- The device handles a frame: its answer is short, and it drops nothing that matters. -/
theorem smooth_handles {m : Frame} (inv : Smooth F test (m :: out) ans dev p) :
    Smooth F test out (ans ++ replies (R.handle m dev).1) (R.handle m dev).2 p ∧ (R.handle m dev).1.length ≤ 2 ∧
      (m.id ≠ CAN_ID_CMD ∨ out = [] ∨ p = .confirmed) := by
  cases p with
  | start =>
    rcases inv.start rfl with ⟨rfl, pre, ks, all, shape, ready⟩ | ⟨nothing, _⟩
    · cases ks with
      | nil =>
        obtain ⟨rfl, rfl⟩ := List.cons_eq_cons.mp shape
        rw [List.append_nil] at all
        obtain ⟨ack, brief, open_, works⟩ := F.start dev (all ▸ ready)
        refine ⟨⟨fun _ => .inr ⟨rfl, ack, open_, works⟩, fun moving => moving.elim, by simp, by simp, by simp⟩, brief,
          .inr (.inl rfl)⟩
      | cons k ks =>
        obtain ⟨rfl, rfl⟩ := List.cons_eq_cons.mp shape
        have member : m ∈ send_keyhash kh := by rw [← all]; simp
        obtain ⟨silent, ready'⟩ := F.key pre m dev member ready
        rw [silent]
        refine ⟨⟨fun _ => .inl ⟨rfl, pre ++ [m], ks, by simpa using all, rfl, ready'⟩, fun moving => moving.elim, by simp,
          by simp, by simp⟩, by simp, .inl ?_⟩
        rw [send_keyhash_id kh m member]
        decide
    · cases nothing
  | block off =>
    obtain ⟨next, brief, other⟩ := smooth_data inv trivial
    exact ⟨next, brief, .inl other⟩
  | tail =>
    obtain ⟨next, brief, other⟩ := smooth_data inv trivial
    exact ⟨next, brief, .inl other⟩
  | confirm =>
    rcases inv.confirm rfl with ⟨shape, rfl, open_, works⟩ | ⟨nothing, _⟩
    · obtain ⟨rfl, rfl⟩ := List.cons_eq_cons.mp shape
      obtain ⟨reply, brief⟩ := F.confirm (confirm_arg test) dev (by cases test <;> decide) works open_
      exact ⟨⟨by simp, fun moving => moving.elim, fun _ => .inr ⟨rfl, reply⟩, by simp, by simp⟩, brief, .inr (.inl rfl)⟩
    · cases nothing
  | confirmed =>
    have reboots := inv.confirmed rfl
    obtain rfl := reboots m (by simp)
    refine ⟨⟨by simp, fun moving => moving.elim, by simp, fun _ m member => reboots m (by simp [member]), by simp⟩,
      F.reboot dev, .inr (.inr rfl)⟩
  | stopped => exact absurd rfl inv.going

private theorem smooth_send_data {off : Nat} (aligned : off % ACK_INTERVAL = 0) (more : off < img.length)
    (open_ : R.Open img.length (img.take off) dev) (works : F.Works dev) :
    Smooth F test (send_data img test off 0).2 [] dev (send_data img test off 0).1 := by
  obtain ⟨p, chunks, result, moving, block⟩ := @send_data_block img test off 0 more (by decide)
  obtain ⟨sizes, bytes, further, high, near, end_⟩ := block
  simp only [result]
  have length : (img.take off).length = off := by rw [List.length_take]; omega
  refine smooth_sending moving ⟨aligned, further, near, high, end_⟩
    ⟨chunks, img.take off, rfl, sizes, open_, works, by omega, bytes, ?_⟩
  rw [length, if_neg (by omega)]

private theorem smooth_confirm (open_ : R.Open img.length img dev) (works : F.Works dev) :
    Smooth F test (CanTool.confirm test).2 [] dev (CanTool.confirm test).1 :=
  ⟨by simp [CanTool.confirm], fun moving => moving.elim, fun _ => .inl ⟨rfl, rfl, open_, works⟩, by simp [CanTool.confirm],
    by simp [CanTool.confirm]⟩

private theorem smooth_transfer_reads {r : Frame} (moving : Transferring p) (small : img.length < 2^32)
    (inv : Smooth F test out (r :: ans) dev p) :
    Smooth F test (out ++ (read img test reboots r p).2) ans dev (read img test reboots r p).1 := by
  obtain ⟨base, window, chunks, got, rfl, sizes, open_, works, low, all, acks⟩ := inv.data moving
  have high := window.high
  split_ifs at acks with complete
  have none_ : chunks = [] := by
    cases chunks with
    | nil => rfl
    | cons c rest =>
      have some_ := (sizes c (by simp)).1
      have length := congrArg List.length all
      simp only [List.flatten_cons, List.length_append, List.length_take] at length
      omega
  subst none_
  rw [List.flatten_nil, List.append_nil] at all
  rw [List.map_nil, List.nil_append]
  unfold data_ack at acks
  split_ifs at acks with last aligned
  · obtain ⟨rfl, rfl⟩ := List.cons_eq_cons.mp acks
    rw [last, List.take_length] at all
    rw [all] at open_
    rw [read_reply _ (by decide) small]
    cases p with
    | block off => exact smooth_confirm open_ works
    | tail => exact smooth_confirm open_ works
    | _ => exact moving.elim
  · obtain ⟨rfl, rfl⟩ := List.cons_eq_cons.mp acks
    rw [read_reply _ (by decide) (by omega)]
    cases p with
    | block off => exact smooth_send_data aligned (by simp only [sent_to] at *; omega) (all ▸ open_) works
    | tail => exact absurd rfl last
    | _ => exact moving.elim

/-- The tool takes a reply, and goes on. -/
theorem smooth_reads {r : Frame} (long : 0 < img.length) (small : img.length < 2^32) (busy : waiting p = true)
    (inv : Smooth F test out (r :: ans) dev p) :
    Smooth F test (out ++ (read img test reboots r p).2) ans dev (read img test reboots r p).1 := by
  cases p with
  | start =>
    rcases inv.start rfl with ⟨silent, _⟩ | ⟨rfl, ack, open_, works⟩
    · cases silent
    · obtain ⟨rfl, rfl⟩ := List.cons_eq_cons.mp ack
      rw [read_reply _ (by decide) (by decide)]
      exact smooth_send_data (by decide) long open_ works
  | block off => exact smooth_transfer_reads trivial small inv
  | tail => exact smooth_transfer_reads trivial small inv
  | confirm =>
    rcases inv.confirm rfl with ⟨_, silent, _⟩ | ⟨rfl, reply⟩
    · cases silent
    · obtain ⟨rfl, rfl⟩ := List.cons_eq_cons.mp reply
      rw [read_reply _ (by decide) (by decide)]
      refine ⟨by simp [replied], fun moving => moving.elim, by simp [replied], fun _ => ?_, by simp [replied]⟩
      cases reboots <;> simp [replied]
  | confirmed => cases busy
  | stopped => cases busy

/-- The frames of data from `off` on. -/
def todo (img : List UInt8) (off : Nat) : Nat := (img.length - off + 7) / 8

/-- The frames that the tool will still send, at most. -/
def ahead (img : List UInt8) : Phase → Nat
  | .start => todo img 0 + 2
  | .block off => todo img off + 2
  | .tail => 2
  | .confirm => 1
  | _ => 0

/-- The moves that are left, at most. -/
def effort (img : List UInt8) (s : Sys σ) : Nat :=
  4 * ahead img s.phase + 4 * s.bus.length + 3 * s.queue.length + s.back.length

theorem send_data_ahead (off n_in_block : Nat) :
    (send_data img test off n_in_block).2.length + ahead img (send_data img test off n_in_block).1 ≤ todo img off + 2 := by
  fun_induction send_data img test off n_in_block with
  | case1 off n_in_block fits last =>
    simp only [List.length_singleton, ahead, todo]
    omega
  | case2 off n_in_block fits next r ih =>
    simp only [List.length_cons, r, todo] at ih ⊢
    omega
  | case3 off n_in_block short inside =>
    simp only [List.length_singleton, ahead, todo]
    omega
  | case4 off n_in_block short done =>
    simp only [CanTool.confirm, List.length_singleton, ahead]
    omega

/-- What the tool sends when it takes a frame was still ahead of it. -/
theorem read_ahead (r : Frame) (busy : waiting p = true) :
    (read img test reboots r p).2.length + ahead img (read img test reboots r p).1 ≤ ahead img p := by
  unfold CanTool.read
  split_ifs
  · simp
  · simp [ahead]
  · cases p with
    | start =>
      simp only [replied]
      split_ifs
      · simp [ahead]
      · exact send_data_ahead 0 0
    | block off =>
      simp only [replied]
      split_ifs
      · simp [CanTool.confirm, ahead]
      · simp [ahead]
      · exact send_data_ahead off 0
    | tail =>
      simp only [replied]
      split_ifs <;> simp [CanTool.confirm, ahead]
    | confirm =>
      simp only [replied]
      split_ifs <;> simp [ahead]
    | confirmed => cases busy
    | stopped => cases busy

/-! ### Runs -/

/-- The frames under way are what is still to come, and what the tool waits for can arrive. -/
structure Inv {σ : Type} {R : Receiver σ} {kh img : List UInt8} (F : Faultless R kh img) (test : Bool) (s : Sys σ) : Prop where
  smooth : Smooth F test s.out (replies s.back) s.dev s.phase
  long : 0 < img.length
  small : img.length < 2^32

theorem launch_smooth {dev : σ} (found : keyhash_from_image img = some kh) (small : img.length < 2^32)
    (ready : F.Ready [] dev) : Inv F test (launch img dev) := by
  refine ⟨?_, keyhash_from_image_long found, small⟩
  unfold launch
  simp only [found, if_pos small]
  refine ⟨fun _ => .inl ⟨rfl, [], send_keyhash kh, rfl, rfl, ready⟩, fun moving => moving.elim, by simp, by simp, by simp⟩

/-- A frame that the device handles. -/
private theorem handled_smooth {s : Sys σ} {m : Frame} {rest : List Frame} (shape : s.queue = m :: rest)
    (inv : Inv F test s) : Inv F test (handled R m rest s) ∧ effort img (handled R m rest s) < effort img s := by
  obtain ⟨smooth, long, small⟩ := inv
  rw [Sys.out, shape, List.cons_append] at smooth
  obtain ⟨next, brief, kept⟩ := smooth_handles smooth
  have fewer := (R.drain_loses m s.dev rest).length_le
  refine ⟨⟨?_, long, small⟩, ?_⟩
  · simp only [handled, Sys.out, replies_append]
    rcases kept with other | nothing | confirmed
    · rw [F.keeps m s.dev rest other]
      exact next
    · obtain ⟨rfl, none_⟩ := List.append_eq_nil_iff.mp nothing
      rw [List.eq_nil_of_sublist_nil (R.drain_loses m s.dev [])]
      exact next
    · have reboots := next.confirmed confirmed
      rw [confirmed]
      refine ⟨by simp, fun moving => moving.elim, by simp, fun _ m' member => ?_, by simp⟩
      exact reboots m' (((R.drain_loses m s.dev rest).append_right _).subset member)
  · simp only [handled, effort, shape, List.length_cons, List.length_append]
    omega

private theorem read_smooth {s : Sys σ} {r : Frame} {rest : List Frame} (shape : s.back = r :: rest)
    (busy : waiting s.phase = true) (inv : Inv F test s) :
    let s' := moved (CanTool.read img test reboots r s.phase) { s with back := rest }
    Inv F test s' ∧ effort img s' < effort img s := by
  obtain ⟨smooth, long, small⟩ := inv
  have less := @read_ahead img test reboots s.phase r busy
  refine ⟨⟨?_, long, small⟩, ?_⟩
  · rw [shape] at smooth
    simp only [moved, Sys.out]
    rw [← List.append_assoc]
    by_cases isReply : r.id = CAN_ID_REPLY
    · rw [replies_cons rest isReply] at smooth
      exact smooth_reads long small busy smooth
    · rw [replies_skip rest isReply] at smooth
      rw [read_skip _ isReply, List.append_nil]
      exact smooth
  · simp only [moved, effort, shape, List.length_cons, List.length_append]
    omega

/-- Each move keeps the upgrade going and takes a step towards its end. -/
theorem step_smooth {s : Sys σ} {e : Event} (inv : Inv F test s) (moves : Moves R s e) :
    Inv F test (step R img test reboots s e) ∧ effort img (step R img test reboots s e) < effort img s := by
  cases e with
  | arrive =>
    obtain ⟨m, rest, shape, room⟩ := moves
    simp only [step, shape]
    obtain ⟨smooth, long, small⟩ := inv
    refine ⟨⟨?_, long, small⟩, ?_⟩
    · simpa [Sys.out, room, shape] using smooth
    · simp only [effort, shape, room, List.length_cons, List.length_append, List.length_nil]
      omega
  | handle =>
    cases shape : s.queue with
    | nil => exact absurd shape moves
    | cons m rest =>
      simp only [step, shape]
      exact handled_smooth shape inv
  | read =>
    obtain ⟨some_, busy⟩ := moves
    cases shape : s.back with
    | nil => exact absurd shape some_
    | cons r rest =>
      simp only [step, shape, if_pos busy]
      exact read_smooth shape busy inv
  | lose => exact moves.elim
  | loseBack => exact moves.elim
  | timeout => exact moves.elim

theorem run_smooth {s : Sys σ} {es : List Event} (inv : Inv F test s)
    (moves : Machine.Meets (step R img test reboots) (Moves R) s es) :
    Inv F test (es.foldl (step R img test reboots) s) ∧
      es.length + effort img (es.foldl (step R img test reboots) s) ≤ effort img s := by
  induction es generalizing s with
  | nil => exact ⟨inv, by simp⟩
  | cons e es ih =>
    obtain ⟨now, later⟩ := moves
    obtain ⟨next, less⟩ := @step_smooth _ _ _ _ F test reboots s e inv now
    obtain ⟨last, bound⟩ := ih next later
    refine ⟨last, ?_⟩
    simp only [List.length_cons, List.foldl_cons]
    omega

/-- Moves can be made until none is left. -/
theorem exists_still {s : Sys σ} (inv : Inv F test s) :
    ∃ es, Machine.Meets (step R img test reboots) (Moves R) s es ∧
      ∀ e, ¬ Moves R (es.foldl (step R img test reboots) s) e := by
  induction left : effort img s using Nat.strongRecOn generalizing s with
  | ind n ih =>
    by_cases still : ∃ e, Moves R s e
    · obtain ⟨e, moves⟩ := still
      obtain ⟨next, less⟩ := @step_smooth _ _ _ _ F test reboots s e inv moves
      obtain ⟨es, later, last⟩ := ih _ (left ▸ less) next rfl
      exact ⟨e :: es, ⟨moves, later⟩, last⟩
    · exact ⟨[], trivial, not_exists.mp still⟩

/-- Where nothing moves any more, the upgrade is confirmed. -/
theorem still_confirmed {s : Sys σ} (inv : Inv F test s) (still : ∀ e, ¬ Moves R s e) : s.phase = .confirmed := by
  have queue : s.queue = [] := not_not.mp (still .handle)
  have bus : s.bus = [] := by
    cases shape : s.bus with
    | nil => rfl
    | cons m rest =>
      have short := smooth_short inv.smooth m (by simp [Sys.out, shape])
      exact absurd ⟨m, rest, shape, by rw [queue]; exact F.room m short⟩ (still .arrive)
  have out : s.out = [] := by rw [Sys.out, queue, bus]; rfl
  have silent (busy : waiting s.phase = true) : replies s.back = [] := by
    have back : s.back = [] := not_not.mp fun some_ => still .read ⟨some_, busy⟩
    rw [back]
    rfl
  have smooth := inv.smooth
  rw [out] at smooth
  have transfers (moving : Transferring s.phase) (busy : waiting s.phase = true) : False := by
    obtain ⟨base, window, chunks, got, shape, _, _, _, _, all, acks⟩ := smooth.data moving
    obtain rfl := List.map_eq_nil_iff.mp shape.symm
    have length := congrArg List.length all
    have high := window.high
    have aligned := window.aligned
    simp only [List.flatten_nil, List.append_nil, List.length_take] at length
    rw [silent busy, if_pos (by omega), data_ack] at acks
    split_ifs at acks with complete block
    rcases window.end_ with full | last
    · unfold ACK_INTERVAL at full aligned block
      omega
    · exact complete last
  cases phase : s.phase with
  | start =>
    rcases smooth.start phase with ⟨_, _, ks, _, shape, _⟩ | ⟨_, ack, _⟩
    · simp at shape
    · rw [silent (by rw [phase]; rfl)] at ack
      cases ack
  | block off => exact (transfers (by rw [phase]; trivial) (by rw [phase]; rfl)).elim
  | tail => exact (transfers (by rw [phase]; trivial) (by rw [phase]; rfl)).elim
  | confirm =>
    rcases smooth.confirm phase with ⟨shape, _⟩ | ⟨_, reply⟩
    · cases shape
    · rw [silent (by rw [phase]; rfl)] at reply
      cases reply
  | confirmed => rfl
  | stopped => exact absurd phase smooth.going

/-- Without losses the tool never gives up, no run is longer than the image demands,
    and a run that cannot go on has confirmed the upgrade. -/
theorem completes {dev : σ} {es : List Event} (found : keyhash_from_image img = some kh) (small : img.length < 2^32)
    (ready : F.Ready [] dev) (moves : Machine.Meets (step R img test reboots) (Moves R) (launch img dev) es) :
    let s := es.foldl (step R img test reboots) (launch img dev)
    s.phase ≠ .stopped ∧ es.length ≤ 32 + 4 * ((img.length + 7) / 8) ∧ ((∀ e, ¬ Moves R s e) → s.phase = .confirmed) := by
  obtain ⟨inv, bound⟩ := run_smooth (@launch_smooth _ _ _ _ F test _ found small ready) moves
  refine ⟨inv.smooth.going, ?_, still_confirmed inv⟩
  have first : effort img (launch img dev) = 32 + 4 * ((img.length + 7) / 8) := by
    unfold launch
    simp only [found, if_pos small, effort, ahead, todo, send_keyhash, List.length_append, List.length_map,
      List.length_range, List.length_singleton, List.length_nil]
    omega
  omega

end

section
variable {version fw_keyhash : List UInt8} {boot_set_pending : Bool → Dev → Bool × Dev} {img : List UInt8}

/-- The key hash as far as the frames `seen` carry it, over what was left of an earlier one. -/
def Collected (seen : List Frame) (k : Keys) : Prop := ∃ left, k = seen.foldl (fun k m => keyhash_frame m.data k) left

theorem collected_next {seen : List Frame} {m : Frame} {k : Keys} (before : Collected seen k) :
    Collected (seen ++ [m]) (keyhash_frame m.data k) := by
  obtain ⟨left, rfl⟩ := before
  exact ⟨left, by rw [List.foldl_append]; rfl⟩

/-- The tool sends all of the key hash. -/
theorem send_keyhash_five (whole : fw_keyhash.length = FW_KEYHASH_LEN) : AllFive fw_keyhash (send_keyhash fw_keyhash) := by
  refine ⟨List.range 5, List.Perm.refl _, ?_⟩
  refine List.forall₂_map_right_iff.mpr (List.forall₂_same.mpr fun seq member => ?_)
  have low := List.mem_range.mp member
  unfold FW_KEYHASH_LEN at whole
  have length : (keyhash_chunk fw_keyhash seq).length = key_chunk seq := by
    simp only [keyhash_chunk, List.length_take, List.length_drop, key_chunk, KEYHASH_CHUNK, FW_KEYHASH_LEN]
    omega
  have most : key_chunk seq ≤ 7 := Nat.min_le_right _ _
  refine ⟨rfl, ?_, ?_, ?_⟩
  · have small : (UInt8.ofNat seq).toNat = seq := Nat.mod_eq_of_lt (by omega)
    exact small
  · simp only [List.length_cons, List.length_append, List.length_replicate]
    omega
  · rw [List.drop_one, List.tail_cons, List.take_append_of_le_length (by omega)]
    rw [keyhash_chunk, List.take_take, Nat.min_eq_left most]
    rfl

theorem collected_offers {k : Keys} (whole : fw_keyhash.length = FW_KEYHASH_LEN)
    (all : Collected (send_keyhash fw_keyhash) k) : (offered k).1 = some fw_keyhash := by
  obtain ⟨left, rfl⟩ := all
  exact (@offered_all_five _ _ left whole (send_keyhash_five whole)).1

theorem app_start_works {a : App} (works : Working a.u) (whole : fw_keyhash.length = FW_KEYHASH_LEN)
    (all : Collected (send_keyhash fw_keyhash) a.keys) (low : 64 ≤ img.length) (high : img.length ≤ SLOT1_SIZE) :
    let r := fw_can_handle version fw_keyhash boot_set_pending (startFrame img.length) a
    r.1 = [fw_reply FW_CODE_OFFSET 0] ∧ Accepted r.2.u [] ∧ r.2.u.s.total = img.length ∧ Working r.2.u := by
  have own := collected_offers whole all
  have admitted : Admitted fw_keyhash img.length (offered a.keys).1 (fw_upg_abort a.u) := by
    refine ⟨rfl, low, high, ?_⟩
    rw [own]
    simp
  have idle : Working (fw_upg_abort a.u) := ⟨works.on, works.faultless⟩
  obtain ⟨done, works'⟩ := fw_upg_start_working idle admitted
  obtain ⟨acc, total⟩ := fw_upg_start_accepted done
  simp only [fw_can_handle, FwCan.fw_task_start a.keys (show img.length < 2^32 by unfold SLOT1_SIZE at high; omega)]
  simp only [FwCan.start_update, ↓run_bind, ↓run_once, ↓run_ite, ↓run_pure, exec, done]
  exact ⟨rfl, acc, total, works'⟩

theorem app_data_works {a : App} {got d : List UInt8} (works : Working a.u) (acc : Accepted a.u got)
    (total : a.u.s.total = img.length) (fits : got.length + d.length ≤ img.length) :
    let r := fw_can_handle version fw_keyhash boot_set_pending (dataFrame d) a
    r.1 = data_ack (got.length + d.length) img.length ∧ Accepted r.2.u (got ++ d) ∧ r.2.u.s.total = img.length ∧
      Working r.2.u := by
  have size := acc.size
  unfold SLOT1_SIZE at size
  obtain ⟨done, works'⟩ := fw_upg_write_working works acc (by rw [total]; exact fits)
  obtain ⟨kept, active, ⟨_, next⟩ | ⟨failed, _⟩⟩ := @fw_upg_write_accepted a.u got d acc (by omega)
  · have received := next.received
    have wanted : fw_upg_total (fw_upg_write d a.u).2 = img.length := by rw [fw_upg_total, if_pos active, kept, total]
    rw [List.length_append] at received
    simp only [fw_can_handle, FwCan.fw_task_data]
    simp only [FwCan.handle_fw_data, ↓run_bind, ↓run_once, ↓run_ite, ↓run_pure, exec, fw_upg_active, acc.active,
      Bool.not_true, Bool.false_eq_true, if_false, done, received, wanted, ne_eq, not_true, data_ack]
    split_ifs with complete block
    · exact ⟨by rw [complete], next, kept.trans total, works'⟩
    · exact ⟨rfl, next, kept.trans total, works'⟩
    · exact ⟨rfl, next, kept.trans total, works'⟩
  · exact absurd done failed

theorem app_confirm_works {a : App} {arg : Nat} (works : Working a.u) (acc : Accepted a.u img)
    (total : a.u.s.total = img.length) (carries : Carries fw_keyhash img) (succeeds : Succeeds boot_set_pending) :
    (fw_can_handle version fw_keyhash boot_set_pending (confirmFrame arg) a).1 =
      [fw_reply FW_CODE_CONFIRM FW_CODE_CONFIRM_MAGIC] := by
  obtain ⟨stored, blank⟩ := @fw_upg_finish_ex_stored fw_keyhash 0 false a.u img works acc
  have passed : (fw_upg_finish_ex fw_keyhash 0 false a.u).1 = 0 :=
    fw_upg_finish_ex_working works acc total.symm (by simp) (carries _ stored blank)
  have after := @fw_upg_finish_ex_works fw_keyhash 0 false a.u img works acc
  obtain ⟨pending, _⟩ := succeeds (argument (confirmFrame arg).data ≠ 0) (fw_upg_finish_ex fw_keyhash 0 false a.u).2.dev
    after.on after.faultless
  simp only [ne_eq] at pending
  simp only [fw_can_handle, FwCan.fw_task_confirm]
  simp only [FwCan.confirm, ↓run_bind, ↓run_once, ↓run_ite, ↓run_pure, exec, fw_upg_active, acc.active,
    Bool.not_true, Bool.false_eq_true, if_false, passed, ne_eq, not_true, pending]

/-- The application refuses nothing of an image of its own. -/
def app_faultless (whole : fw_keyhash.length = FW_KEYHASH_LEN) (low : 64 ≤ img.length) (high : img.length ≤ SLOT1_SIZE)
    (carries : Carries fw_keyhash img) (succeeds : Succeeds boot_set_pending) :
    Faultless (app version fw_keyhash boot_set_pending) fw_keyhash img where
  Ready seen a := Working a.u ∧ Collected seen a.keys
  Works a := Working a.u
  room m short := by simp [app, fw_can_frame_isr, short, FW_Q_DEPTH]
  keeps m a q other := if_neg fun drained => other drained.1
  key seen m a member ready := by
    have handled := @fw_can_key version fw_keyhash boot_set_pending m a (send_keyhash_id _ m member)
    simp only [app, handled]
    exact ⟨trivial, ready.1, collected_next ready.2⟩
  start a ready := by
    obtain ⟨reply, acc, total, works⟩ := @app_start_works version fw_keyhash boot_set_pending img a ready.1 whole ready.2
      low high
    simp only [app, reply]
    exact ⟨rfl, by simp, ⟨acc, total⟩, works⟩
  data got d a works open_ some_ short fits := by
    obtain ⟨acks, acc, total, works'⟩ := @app_data_works version fw_keyhash boot_set_pending img a got d works open_.1
      open_.2 fits
    simp only [app, acks]
    refine ⟨replies_data_ack _ _, data_ack_brief _ _, ⟨acc, total⟩, works'⟩
  confirm arg a _ works open_ := by
    simp only [app, app_confirm_works works open_.1 open_.2 carries succeeds]
    exact ⟨rfl, by simp⟩
  reboot a := by
    simp only [app, (fw_can_reboot a).1]
    simp

theorem boot_start_works {b : Boot} (on : b.dev.power = true) (faultless : b.dev.fates = [])
    (whole : fw_keyhash.length = FW_KEYHASH_LEN) (all : Collected (send_keyhash fw_keyhash) b.keys)
    (low : 64 ≤ img.length) (high : img.length ≤ SLOT0_SIZE) :
    let r := BootCan.handle_frame version fw_keyhash (startFrame img.length) b
    replies r.1 = [fw_reply FW_CODE_OFFSET 0] ∧ r.1.length = 2 ∧ Storing img.length [] r.2 ∧ r.2.dev.power = true ∧
      r.2.dev.fates = [] := by
  have own : BootCan.foreign_key fw_keyhash b.keys = false := by simp [BootCan.foreign_key, collected_offers whole all]
  have room : round_4k (round_4k img.length) ≤ 0x70000 := by
    unfold SLOT0_SIZE at high
    unfold round_4k
    omega
  obtain ⟨m, erased_⟩ := @intflash_erase_working b.dev SLOT0_ADDR (round_4k img.length) on faultless (by decide)
    (by unfold SLOT0_ADDR; omega)
  have accepted : BootCan.start_reply false img.length { b with keys := (offered b.keys).2 } =
      (fw_reply FW_CODE_OFFSET 0, ⟨true, img.length, 0, b.confirmed, b.installed, (offered b.keys).2, { b.dev with mem := m }⟩) := by
    rw [BootCan.start_reply, if_neg (by decide), if_neg (by omega), erased_]
  have storing := @boot_start_storing img.length false { b with keys := (offered b.keys).2 }
  rw [accepted] at storing
  simp only [BootCan.handle_frame_start b (show img.length < 2^32 by unfold SLOT0_SIZE at high; omega), BootCan.start,
    own, accepted]
  rcases storing with ⟨_, storing⟩ | refused
  · exact ⟨rfl, rfl, storing, on, faultless⟩
  · exact absurd refused (show fw_reply FW_CODE_OFFSET 0 ∉ refusals by decide)

theorem boot_data_works {b : Boot} {got d : List UInt8} (on : b.dev.power = true) (faultless : b.dev.fates = [])
    (storing : Storing img.length got b) (some_ : 1 ≤ d.length) (fits : got.length + d.length ≤ img.length) :
    let r := BootCan.handle_frame version fw_keyhash (dataFrame d) b
    r.1 = data_ack (got.length + d.length) img.length ∧ Storing img.length (got ++ d) r.2 ∧ r.2.dev.power = true ∧
      r.2.dev.fates = [] := by
  obtain ⟨m, wrote⟩ := @intflash_write_working b.dev (SLOT0_ADDR + b.written) d on faultless
  have handled : BootCan.handle_frame version fw_keyhash (dataFrame d) b =
      (data_ack (b.written + d.length) b.total, { b with written := b.written + d.length, dev := { b.dev with mem := m } }) := by
    rw [BootCan.handle_frame_data, BootCan.handle_data, if_neg (by simp [storing.active]),
      if_neg (by rw [storing.written, storing.total]; omega), wrote]
  have next := @boot_data version fw_keyhash img.length got d b storing some_ fits
  rw [handled] at next ⊢
  simp only [storing.written, storing.total] at next ⊢
  rcases next with ⟨_, next⟩ | ⟨_, idle⟩
  · exact ⟨trivial, next, on, faultless⟩
  · rw [storing.active] at idle
    cases idle

/-- The boot loader refuses nothing of an image of its own. -/
def boot_faultless (whole : fw_keyhash.length = FW_KEYHASH_LEN) (low : 64 ≤ img.length) (high : img.length ≤ SLOT0_SIZE) :
    Faultless (boot version fw_keyhash) fw_keyhash img where
  Ready seen b := b.dev.power = true ∧ b.dev.fates = [] ∧ Collected seen b.keys
  Works b := b.dev.power = true ∧ b.dev.fates = []
  room m _ := by simp [boot, fifo]
  keeps m b q other := if_neg fun drained => other drained.1
  key seen m b member ready := by
    obtain ⟨on, faultless, before⟩ := ready
    have isKey := send_keyhash_id _ m member
    have carried : 1 ≤ m.data.length := by
      obtain ⟨seq, _, rfl⟩ := List.mem_map.mp member
      simp
    have handled : BootCan.handle_frame version fw_keyhash m b = ([], { b with keys := keyhash_frame m.data b.keys }) := by
      rw [BootCan.handle_frame, if_neg (by rw [isKey]; decide), if_neg (by rw [isKey]; decide), if_pos isKey, if_pos carried]
      rfl
    simp only [boot, handled]
    exact ⟨trivial, on, faultless, collected_next before⟩
  start b ready := by
    obtain ⟨on, faultless, all⟩ := ready
    obtain ⟨reply, two, storing, works⟩ := @boot_start_works version fw_keyhash img b on faultless whole all low high
    simp only [boot, reply, two]
    exact ⟨trivial, Nat.le_refl 2, storing, works⟩
  data got d b works storing some_ _ fits := by
    obtain ⟨acks, next, works'⟩ := @boot_data_works version fw_keyhash img b got d works.1 works.2 storing some_ fits
    simp only [boot, acks]
    exact ⟨replies_data_ack _ _, data_ack_brief _ _, next, works'⟩
  confirm arg b _ works storing := by
    have handled : (BootCan.handle_frame version fw_keyhash (confirmFrame arg) b).1 =
        [fw_reply FW_CODE_CONFIRM FW_CODE_CONFIRM_MAGIC] := by
      rw [BootCan.handle_frame_confirm, BootCan.confirm, if_neg (by simp [storing.active]),
        if_neg (by rw [storing.written, storing.total]; simp)]
    simp only [boot, handled]
    exact ⟨rfl, by simp⟩
  reboot b := by
    simp only [boot, boot_reboot]
    simp

/-! ### Upgrades -/

/-- An image of the device's own that is laid out as the device expects carries its key hash. -/
theorem sane_carries (found : keyhash_from_image img = some fw_keyhash) (sane : Sane img) (high : img.length ≤ SLOT1_SIZE) :
    Carries fw_keyhash img := fun _ stored _ => (tlv_keyhash_found stored high sane).trans found

private theorem small_size : (smallImage smallHash).length < 2^32 := by rw [small_length]; decide

private theorem small_found : keyhash_from_image (smallImage smallHash) = some smallHash := by
  have tlv_off : get_le16 ((smallImage smallHash).drop 8) + io_get_le32 ((smallImage smallHash).drop 12) = 512 := by
    decide
  have stop : get_le16 ((smallImage smallHash).drop (512 + 2)) = 40 := by decide +kernel
  rw [keyhash_from_image, if_neg (by decide +kernel), tlv_off]
  simp only
  rw [if_neg (by decide +kernel), stop, keyhash_scan, if_pos (by decide), if_neg (by rw [small_length]; decide),
    if_pos (by decide +kernel)]
  decide +kernel

private theorem small_sane : Sane (smallImage smallHash) := by
  have size : io_get_le32 ((smallImage smallHash).drop 12) = 0 := by decide
  refine ⟨by decide +kernel, by rw [size]; decide, by rw [size, small_length]; decide, by rw [size]; decide +kernel, ?_⟩
  rw [small_found]
  intro kh found
  obtain rfl := Option.some.inj found
  decide

/-- A run that loses nothing and cannot go on, of the smallest image. -/
private theorem small_run {σ : Type} {R : Receiver σ} (F : Faultless R smallHash (smallImage smallHash)) (reboots : Bool)
    {dev : σ} (ready : F.Ready [] dev) :
    ∃ es, Machine.Meets (step R (smallImage smallHash) false reboots) (Moves R) (launch (smallImage smallHash) dev) es ∧
      (∀ e, ¬ Moves R (es.foldl (step R (smallImage smallHash) false reboots) (launch (smallImage smallHash) dev)) e) ∧
      (es.foldl (step R (smallImage smallHash) false reboots) (launch (smallImage smallHash) dev)).phase = .confirmed := by
  have inv := @launch_smooth _ _ _ _ F false dev small_found small_size ready
  obtain ⟨es, moves, still⟩ := @exists_still _ _ _ _ F false reboots _ inv
  exact ⟨es, moves, still, still_confirmed (run_smooth inv moves).1 still⟩

private def small_app (version : List UInt8) :
    Faultless (app version smallHash CanAgreement.writeTrailer) smallHash (smallImage smallHash) :=
  app_faultless (by decide) (by rw [small_length]; decide) (by rw [small_length]; decide)
    (sane_carries small_found small_sane (by rw [small_length]; decide)) CanAgreement.writeTrailer_succeeds

private theorem small_ready (version : List UInt8) : (small_app version).Ready [] ⟨idle, {}⟩ :=
  ⟨⟨rfl, rfl⟩, {}, rfl⟩

/-- Whatever frames the bus and a busy device lose: when the tool reports the upgrade of the
    application confirmed, slot1 held exactly the image when the swap was asked for, with the
    device's own key hash, and the swap is the kind that the tool's user wanted. -/
theorem can_upgrade_confirmed {test : Bool} (a : App) (es : List Event) :
    let s := es.foldl (step (app version fw_keyhash boot_set_pending) img test true) (launch img a)
    s.phase = .confirmed → ∃ d : Dev, bytesAt d.mem SLOT1_OFFSET img.length = img ∧
      (tlv_keyhash_get d.sound).1 = some fw_keyhash ∧ boot_set_pending (!test) d = (true, s.dev.u.dev) := by
  intro s confirmed
  obtain ⟨-, d, stored, own, pending⟩ := @confirmed_holds _ (app version fw_keyhash boot_set_pending) img test true a es confirmed
  refine ⟨d, stored, own, ?_⟩
  rw [← pending]
  cases test <;> rfl

theorem can_upgrade_confirmed_small :
    ∃ (a : App) (d : Dev), bytesAt d.mem SLOT1_OFFSET (smallImage smallHash).length = smallImage smallHash ∧
      (tlv_keyhash_get d.sound).1 = some smallHash ∧ CanAgreement.writeTrailer true d = (true, a.u.dev) := by
  obtain ⟨es, _, _, confirmed⟩ := small_run (small_app []) true (small_ready [])
  obtain ⟨d, holds⟩ := @can_upgrade_confirmed [] smallHash CanAgreement.writeTrailer (smallImage smallHash) false ⟨idle, {}⟩
    es confirmed
  exact ⟨_, d, holds⟩

/-- When the tool reports the rescue of a device in its boot loader confirmed, slot0 holds exactly the image. -/
theorem can_rescue_confirmed {test : Bool} (b : Boot) (es : List Event) :
    let s := es.foldl (step (boot version fw_keyhash) img test false) (launch img b)
    s.phase = .confirmed → bytesAt s.dev.dev.mem SLOT0_ADDR img.length = img ∧ s.dev.installed = true := by
  intro s confirmed
  exact @confirmed_holds _ (boot version fw_keyhash) img test false b es confirmed

theorem can_rescue_confirmed_small :
    ∃ b : Boot, bytesAt b.dev.mem SLOT0_ADDR (smallImage smallHash).length = smallImage smallHash ∧ b.installed = true := by
  obtain ⟨es, _, _, confirmed⟩ := @small_run Boot (boot [] smallHash)
    (boot_faultless (by decide) (by rw [small_length]; decide) (by rw [small_length]; decide)) false
    { dev := { mem := fun _ => 0 } } ⟨rfl, rfl, {}, rfl⟩
  exact ⟨_, @can_rescue_confirmed [] smallHash (smallImage smallHash) false { dev := { mem := fun _ => 0 } } es confirmed⟩

/-- A tool with an image of another device never reports its upgrade confirmed, whatever the
    bus loses: not even when it loses frames of the key hash, so that START checks none. -/
theorem can_upgrade_foreign {kh : List UInt8} {test : Bool} (found : keyhash_from_image img = some kh)
    (whole : kh.length = FW_KEYHASH_LEN) (foreign : kh ≠ fw_keyhash) (a : App) (es : List Event) :
    (es.foldl (step (app version fw_keyhash boot_set_pending) img test true) (launch img a)).phase ≠ .confirmed := by
  intro confirmed
  obtain ⟨high, d, stored, own, _⟩ := @confirmed_holds _ (app version fw_keyhash boot_set_pending) img test true a es confirmed
  rcases @tlv_keyhash_whole img d.mem kh stored high found whole with turned_down | same
  · cases turned_down.symm.trans own
  · exact foreign (Option.some.inj (same.symm.trans own))

/-- The smallest image and a device of another key, with the bus, the device and the tool taking turns. -/
theorem can_upgrade_foreign_small :
    ((List.replicate 200 [Event.arrive, .handle, .read]).flatten.foldl
      (step (app [] (List.replicate 32 0) CanAgreement.writeTrailer) (smallImage smallHash) false true)
      (launch (smallImage smallHash) ⟨idle, {}⟩)).phase ≠ .confirmed :=
  can_upgrade_foreign small_found (by decide) (by decide) _ _

end

end IoEdgeHub.CanCompletion
