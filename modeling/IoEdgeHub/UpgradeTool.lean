import IoEdgeHub.FwUdp

/-!
The upgrade tool of the host (`tools/firmware_upgrade.py`) and the device, over a
network that loses, delays, duplicates and reorders datagrams as it likes: every
copy of a datagram that was ever sent may arrive at any time, or never.

The tool takes the next datagram of its socket for the answer to FW_END, so a
late answer to something else can tell it that the device has accepted an image,
or refused one. In a run in which the FW_END exchange gets the device's first
answer to FW_END, tool and device agree.
-/
namespace IoEdgeHub.UpgradeTool
open IoEdgeHub.Nor IoEdgeHub.Bytes IoEdgeHub.Crc IoEdgeHub.FwUpg IoEdgeHub.FwUdp IoEdgeHub.Calls

def CHUNK : Nat := 511
def V2_WINDOW : Nat := 8
def V2_MAX_RETRIES : Nat := 8

/-- The key hash TLV among the entries from `off` on. Reading past the image, or
    not finding one, ends the tool. -/
def keyhash_scan (img : List UInt8) (off stop : Nat) : Option (List UInt8) :=
  if off + 4 ≤ stop then
    if off + 4 > img.length then none
    else if get_le16 (img.drop off) = 0x01 then some ((img.drop (off + 4)).take (get_le16 (img.drop (off + 2))))
    else keyhash_scan img (off + (4 + (get_le16 (img.drop (off + 2)) + 3) / 4 * 4)) stop
  else none
termination_by stop - off

def keyhash_from_image (img : List UInt8) : Option (List UInt8) :=
  if img.length < 16 then none
  else
    let off := get_le16 (img.drop 8) + io_get_le32 (img.drop 12)
    if img.length < off + 4 ∨ get_le16 (img.drop off) ≠ 0x6907 then none
    else keyhash_scan img (off + 4) (off + get_le16 (img.drop (off + 2)))

/-- Where the tool is: waiting for the answer to FW_START, within a window, waiting for
    the answer to a legacy chunk, waiting for the answer to FW_END, or done: the
    FW_END check passed, it reported that the end was rejected, or it left
    in another way. -/
inductive Phase
  | start
  | v2 (chunk off confirmed retries : Nat)
  | legacy (off : Nat)
  | finish
  | passed
  | rejected
  | stopped
  deriving DecidableEq, Repr

/-- What the tool goes on with, and the datagrams it sends. -/
abbrev Move := Phase × List (List UInt8)

section
variable (img : List UInt8) (legacy test : Bool)

def fw_start (kh : List UInt8) : List UInt8 := 0x01 :: (io_put_le32 img.length ++ kh)

def fw_end : List UInt8 := 0x03 :: (if test then 1 else 0) :: put_le16 (crc16_ccitt 0 img).toNat

/-- Behind the transfer: FW_END, if all of the image is confirmed. -/
def transferred (off : Nat) : Move := if off ≠ img.length then (.stopped, []) else (.finish, [fw_end img test])

/-- The frames of a window. The chunk size is 512 at least where this is used. -/
def window (chunk w win_end : Nat) : List (List UInt8) :=
  if w < win_end ∧ 0 < min chunk (img.length - w) then
    slice img w (min chunk (img.length - w)) :: window chunk (w + min chunk (img.length - w)) win_end
  else []
termination_by win_end - w

def win_end (chunk off : Nat) : Nat := min (off + V2_WINDOW * chunk) img.length

/-- The outer loop of `send_v2`: the next window. -/
def send_v2 (chunk off retries : Nat) : Move :=
  if off < img.length then (.v2 chunk off off retries, window img chunk off (win_end img chunk off))
  else transferred img test off

/-- The inner loop of `send_v2` on one datagram: only answers to DATA_V2 that confirm more count. -/
def v2_read (chunk off confirmed retries : Nat) (r : List UInt8) : Move :=
  if r.length ≥ 5 ∧ byteAt r 0 = 0x06 ∧ io_get_le32 (r.drop 1) > confirmed then
    let confirmed := min (io_get_le32 (r.drop 1)) img.length
    if confirmed < win_end img chunk off then (.v2 chunk off confirmed 0, [])
    else send_v2 img test chunk confirmed 0
  else (.v2 chunk off confirmed retries, [])

/-- The window's time is over: go back to what is confirmed. -/
def v2_timeout (chunk confirmed retries : Nat) : Move :=
  if retries + 1 > V2_MAX_RETRIES then (.stopped, []) else send_v2 img test chunk confirmed (retries + 1)

/-- The next chunk of `send_legacy`. -/
def send_legacy (off : Nat) : Move :=
  if off < img.length then (.legacy off, [0x02 :: (img.drop off).take CHUNK]) else transferred img test off

def legacy_read (off : Nat) (r : List UInt8) : Move :=
  if r.length < 5 ∨ io_get_le32 (r.drop 1) ≠ off + min CHUNK (img.length - off) then (.stopped, [])
  else send_legacy img test (off + min CHUNK (img.length - off))

/-- The answer to FW_START, as far as the tool looks at it. -/
def start_read (r : List UInt8) : Move :=
  if r.length < 4 ∨ byteAt r 1 ≠ 1 then (.stopped, [])
  else if get_le16 (r.drop 2) ≥ 512 ∧ !legacy then send_v2 img test (get_le16 (r.drop 2)) 0 0
  else send_legacy img test 0

/-- The answer to FW_END, as far as the tool looks at it. -/
def end_read (r : List UInt8) : Phase :=
  if r.length < 2 then .stopped else if byteAt r 1 ≠ 1 then .rejected else .passed

/-- The tool on the next datagram of its socket. -/
def read (r : List UInt8) : Phase → Move
  | .start => start_read img legacy test r
  | .v2 chunk off confirmed retries => v2_read img test chunk off confirmed retries r
  | .legacy off => legacy_read img test off r
  | .finish => (end_read r, [])
  | p => (p, [])

/-- Whether the tool is waiting for a datagram. -/
def waiting : Phase → Bool
  | .passed | .rejected | .stopped => false
  | _ => true

/-- Time is over. A socket that has a datagram does not run into its timeout; a window does. -/
def timeout (socket : List (List UInt8)) : Phase → Move
  | .v2 chunk _ confirmed retries => v2_timeout img test chunk confirmed retries
  | p => if waiting p ∧ socket = [] then (.stopped, []) else (p, [])

end

/-- `sent` and `replies` are all datagrams that tool and device ever sent. `late`: the
    FW_END exchange's time is over; `inTime`: an answer to FW_END that says ok has
    reached the tool's host before. -/
structure Sys where
  phase : Phase
  socket : List (List UInt8) := []
  sent : List (List UInt8)
  u : Upg
  replies : List (List UInt8) := []
  late : Bool := false
  inTime : Bool := false

/-- What happens: a copy of the tool's i-th datagram reaches the device, a copy of the
    device's i-th reply reaches the tool's socket, the tool takes the oldest
    datagram of its socket, or the time the tool waits is over. -/
inductive Event
  | arrive (i : Nat)
  | deliver (i : Nat)
  | read
  | timeout
  deriving DecidableEq, Repr

section
variable (fw_keyhash : List UInt8) (boot_set_pending : Bool → Dev → Bool × Dev) (peer : Peer)
variable (img : List UInt8) (legacy test : Bool)

/-- The tool at its first datagram, if it gets that far. -/
def launch (u : Upg) : Sys :=
  match keyhash_from_image img with
  | none => { phase := .stopped, sent := [], u := u }
  | some kh =>
    if img.length < 2^32 then { phase := .start, sent := [fw_start img kh], u := u }
    else { phase := .stopped, sent := [], u := u }

/-- A datagram that reaches the device, and its reply. -/
def arrived (rx : List UInt8) (s : Sys) : Sys :=
  let r := datagram fw_keyhash boot_set_pending peer rx s.u
  { s with u := r.2, replies := s.replies ++ (r.1.map FwReply.buf).toList }

/-- The answer that says ok. -/
def fw_end_ok : List UInt8 := [0x03, 1]

def delivered (r : List UInt8) (s : Sys) : Sys :=
  { s with socket := s.socket ++ [r], inTime := s.inTime || (!s.late && r = fw_end_ok) }

/-- The tool moves on. -/
def moved (m : Move) (s : Sys) : Sys := { s with phase := m.1, sent := s.sent ++ m.2 }

def step (s : Sys) : Event → Sys
  | .arrive i =>
    match s.sent[i]? with
    | none => s
    | some rx => arrived fw_keyhash boot_set_pending peer rx s
  | .deliver i =>
    match s.replies[i]? with
    | none => s
    | some r => delivered r s
  | .read =>
    match s.socket with
    | [] => s
    | r :: rest => if waiting s.phase then moved (read img legacy test r s.phase) { s with socket := rest } else s
  | .timeout =>
    moved (timeout img test s.socket s.phase)
      { s with late := s.late || s.phase = .finish || s.phase = .passed || s.phase = .rejected }

end

/-- A tool that has passed its FW_END check has the device's ok, and no tool reports a
    rejected end although the device's ok has arrived in time. -/
def Agrees (s : Sys) : Prop :=
  (s.phase = .passed → fw_end_ok ∈ s.replies) ∧ (s.inTime = true → s.phase ≠ .rejected)

/-- The datagram belongs to the given command. -/
def isFor (cmd : UInt8) (r : List UInt8) : Bool := r.head? = some cmd

/-- The answer that says no. -/
def fw_end_no : List UInt8 := [0x03, 0]

/-- The device's first answer to FW_END. -/
def firstEnd (s : Sys) : Option (List UInt8) := s.replies.find? (isFor 0x03)

/-- What the FW_END exchange takes from the socket is the device's first answer to
    FW_END, and no copy of FW_START reaches a device that has refused FW_END. -/
def Allowed (s : Sys) : Event → Prop
  | .read => s.phase = .finish → ∀ r ∈ s.socket.head?, firstEnd s = some r
  | .arrive i => ∀ rx ∈ s.sent[i]?, isFor 0x01 rx = true → firstEnd s ≠ some fw_end_no
  | _ => True

section
variable {fw_keyhash : List UInt8} {boot_set_pending : Bool → Dev → Bool × Dev} {peer : Peer}

/-- Only a datagram of FW_START is taken for one. -/
private theorem start_taken {rx : List UInt8} {m : FwMsg} (taken : fw_udp_cmd rx peer = some m)
    (start : m.cmd = .START) : isFor 0x01 rx = true := by
  unfold fw_udp_cmd at taken
  split at taken
  · cases taken
  · rename_i cmd body
    split_ifs at taken with first <;> obtain rfl := Option.some.inj taken <;> simp at start
    simp [isFor, first]

/-- The worker on any command: which answers look like one to FW_END, and what they say about the session. -/
private theorem fw_task_end (m : FwMsg) (u : Upg) :
    let r := (FwUdp.fw_task m).run (exec fw_keyhash boot_set_pending) u
    (isFor 0x03 r.1.buf = true → (r.1.buf = fw_end_no ∨ r.1.buf = fw_end_ok) ∧ r.2.s.active = false) ∧
      (u.s.active = false → m.cmd ≠ .START →
        r.2.s.active = false ∧ (isFor 0x03 r.1.buf = true → r.1.buf = fw_end_no)) := by
  obtain ⟨cmd, from_, data⟩ := m
  cases cmd with
  | START => exact ⟨fun answer => absurd answer (by simp [FwUdp.fw_task, isFor]), fun _ other => absurd rfl other⟩
  | DATA =>
    refine ⟨fun answer => absurd answer (by simp [FwUdp.fw_task, isFor]), fun idle _ => ?_⟩
    simp only [FwUdp.fw_task, ↓run_bind, ↓run_once, ↓run_pure, exec, fw_upg_write_idle idle]
    exact ⟨idle, by simp [isFor]⟩
  | DATA_V2 =>
    refine ⟨fun answer => absurd answer (by simp [FwUdp.fw_task, isFor]), fun idle _ => ?_⟩
    have kept : ((data_v2 data).run (exec fw_keyhash boot_set_pending) u).2 = u := by
      simp only [data_v2, ↓run_bind, ↓run_once, ↓run_pure, ↓run_ite, exec, fw_upg_write_idle idle]
      split_ifs <;> rfl
    simp only [FwUdp.fw_task, ↓run_bind, ↓run_once, ↓run_pure, exec, kept]
    exact ⟨idle, by simp [isFor]⟩
  | END =>
    simp only [FwUdp.fw_task, ↓run_bind, ↓run_once, ↓run_pure, ↓run_ite, exec]
    refine ⟨fun _ => ?_, fun idle _ => ?_⟩
    · have closed := fw_upg_finish_ex_closed fw_keyhash (UInt16.ofNat (get_le16 (data.drop 1))) true u
      split_ifs with ok done
      · exact ⟨.inr (by simp only [done, if_true, fw_end_ok]), closed⟩
      · exact ⟨.inl (by simp only [done, Bool.false_eq_true, if_false, fw_end_no]), closed⟩
      · exact ⟨.inl rfl, closed⟩
    · simp only [fw_upg_finish_ex_idle idle]
      exact ⟨idle, fun _ => rfl⟩

/-- The same for whatever reaches the device. -/
private theorem datagram_end (rx : List UInt8) (u : Upg) :
    let r := datagram fw_keyhash boot_set_pending peer rx u
    (∀ reply, r.1 = some reply → isFor 0x03 reply.buf = true →
      (reply.buf = fw_end_no ∨ reply.buf = fw_end_ok) ∧ r.2.s.active = false) ∧
    (u.s.active = false → isFor 0x01 rx = false →
      r.2.s.active = false ∧ ∀ reply, r.1 = some reply → isFor 0x03 reply.buf = true → reply.buf = fw_end_no) := by
  simp only [datagram]
  cases taken : fw_udp_cmd rx peer with
  | none => exact ⟨by simp, fun idle _ => ⟨idle, by simp⟩⟩
  | some m =>
    obtain ⟨any, idle⟩ := @fw_task_end fw_keyhash boot_set_pending m u
    refine ⟨fun reply sent answer => ?_, fun closed other => ?_⟩
    · obtain rfl := Option.some.inj sent
      exact any answer
    · have started : m.cmd ≠ .START := fun start => by simp [start_taken taken start] at other
      obtain ⟨still, no⟩ := idle closed started
      refine ⟨still, fun reply sent answer => ?_⟩
      obtain rfl := Option.some.inj sent
      exact no answer

/-! ### Runs -/

/-- The device has only ever given FW_END one of its two answers; after a first no it
    has no session and has said nothing but no; and the tool knows what the device has said. -/
structure Inv (s : Sys) : Prop where
  answers : ∀ r ∈ s.replies, isFor 0x03 r = true → r = fw_end_no ∨ r = fw_end_ok
  refused : firstEnd s = some fw_end_no →
    s.u.s.active = false ∧ ∀ r ∈ s.replies, isFor 0x03 r = true → r = fw_end_no
  passed : s.phase = .passed → fw_end_ok ∈ s.replies
  rejected : s.phase = .rejected → firstEnd s = some fw_end_no
  inTime : s.inTime = true → fw_end_ok ∈ s.replies

theorem Inv.agrees {s : Sys} (inv : Inv s) : Agrees s := by
  refine ⟨inv.passed, fun arrived rejected => ?_⟩
  have no := (inv.refused (inv.rejected rejected)).2 fw_end_ok (inv.inTime arrived) rfl
  exact absurd no (by decide)

variable {img : List UInt8} {legacy test : Bool}

/-- The tool is still under way, or has left before its FW_END check. -/
private def Unjudged (p : Phase) : Prop := p ≠ .passed ∧ p ≠ .rejected

private theorem transferred_unjudged (off : Nat) : Unjudged (transferred img test off).1 := by
  unfold transferred
  split_ifs <;> exact ⟨by simp, by simp⟩

private theorem send_v2_unjudged (chunk off retries : Nat) : Unjudged (send_v2 img test chunk off retries).1 := by
  unfold send_v2
  split_ifs
  · exact ⟨by simp, by simp⟩
  · exact transferred_unjudged off

private theorem send_legacy_unjudged (off : Nat) : Unjudged (send_legacy img test off).1 := by
  unfold send_legacy
  split_ifs
  · exact ⟨by simp, by simp⟩
  · exact transferred_unjudged off

/-- Only the answer to FW_END makes the tool judge. -/
private theorem read_unjudged {p : Phase} (busy : waiting p = true) (other : p ≠ .finish) (r : List UInt8) :
    Unjudged (read img legacy test r p).1 := by
  cases p with
  | start =>
    simp only [read, start_read]
    split_ifs
    · exact ⟨by simp, by simp⟩
    · exact send_v2_unjudged _ _ _
    · exact send_legacy_unjudged _
  | v2 chunk off confirmed retries =>
    simp only [read, v2_read]
    split_ifs
    · exact ⟨by simp, by simp⟩
    · exact send_v2_unjudged _ _ _
    · exact ⟨by simp, by simp⟩
  | legacy off =>
    simp only [read, legacy_read]
    split_ifs
    · exact ⟨by simp, by simp⟩
    · exact send_legacy_unjudged _
  | finish => exact absurd rfl other
  | _ => cases busy

private theorem timeout_unjudged (socket : List (List UInt8)) (p : Phase) :
    (timeout img test socket p).1 = p ∨ Unjudged (timeout img test socket p).1 := by
  cases p with
  | v2 chunk off confirmed retries =>
    simp only [timeout, v2_timeout]
    split_ifs
    · exact .inr ⟨by simp, by simp⟩
    · exact .inr (send_v2_unjudged _ _ _)
  | _ =>
    simp only [timeout]
    split_ifs
    · exact .inr ⟨by simp, by simp⟩
    · exact .inl rfl

/-- The tool and what it knows after a move that judges nothing. -/
private theorem moved_inv {s : Sys} {m : Move} (inv : Inv s) (unjudged : m.1 = s.phase ∨ Unjudged m.1) :
    Inv (moved m s) := by
  refine ⟨inv.answers, inv.refused, fun passed => ?_, fun rejected => ?_, inv.inTime⟩
  · rcases unjudged with same | unjudged
    · exact inv.passed (same.symm.trans passed)
    · exact absurd passed unjudged.1
  · rcases unjudged with same | unjudged
    · exact inv.rejected (same.symm.trans rejected)
    · exact absurd rejected unjudged.2

/-- A datagram that the device is allowed to get. -/
private theorem arrived_inv {s : Sys} {rx : List UInt8} (inv : Inv s)
    (allowed : isFor 0x01 rx = true → firstEnd s ≠ some fw_end_no) :
    Inv (arrived fw_keyhash boot_set_pending peer rx s) := by
  obtain ⟨any, idle⟩ := @datagram_end fw_keyhash boot_set_pending peer rx s.u
  simp only [arrived]
  generalize datagram fw_keyhash boot_set_pending peer rx s.u = r at any idle
  have new {x : List UInt8} (member : x ∈ s.replies ++ (r.1.map FwReply.buf).toList) :
      x ∈ s.replies ∨ ∃ reply, r.1 = some reply ∧ x = reply.buf := by
    rcases List.mem_append.mp member with old | new
    · exact .inl old
    · cases sent : r.1 with
      | none => simp [sent] at new
      | some reply => exact .inr ⟨reply, rfl, by simpa [sent] using new⟩
  have kept {x : List UInt8} (member : x ∈ s.replies) : x ∈ s.replies ++ (r.1.map FwReply.buf).toList := by
    simp [member]
  refine ⟨fun x member answer => ?_, fun first => ?_, fun passed => kept (inv.passed passed), fun rejected => ?_,
    fun inTime => kept (inv.inTime inTime)⟩
  · rcases new member with old | ⟨reply, sent, rfl⟩
    · exact inv.answers x old answer
    · exact (any reply sent answer).1
  · simp only [firstEnd, List.find?_append] at first
    cases earlier : s.replies.find? (isFor 0x03) with
    | some x =>
      -- the device had said no before, and has no session to say anything else about
      rw [earlier, Option.some_or] at first
      have no : firstEnd s = some fw_end_no := earlier.trans first
      obtain ⟨closed, all⟩ := inv.refused no
      obtain ⟨still, again⟩ := idle closed (by simpa using mt allowed (not_not_intro no))
      refine ⟨still, fun x member answer => ?_⟩
      rcases new member with old | ⟨reply, sent, rfl⟩
      · exact all x old answer
      · exact again reply sent answer
    | none =>
      rw [earlier, Option.none_or] at first
      cases sent : r.1 with
      | none => simp [sent] at first
      | some reply =>
        have same : reply.buf = fw_end_no := by
          have member := List.mem_of_find?_eq_some first
          simpa [sent, eq_comm] using member
        refine ⟨(any reply sent (by rw [same]; rfl)).2, fun x member answer => ?_⟩
        rw [← sent] at member
        rcases new member with old | ⟨reply', sent', rfl⟩
        · exact absurd answer (List.find?_eq_none.mp earlier x old)
        · rw [← Option.some.inj (sent.symm.trans sent'), same]
  · have before := inv.rejected rejected
    simp only [firstEnd] at before ⊢
    rw [List.find?_append, before, Option.some_or]

private theorem step_inv {s : Sys} {e : Event} (inv : Inv s) (allowed : Allowed s e) :
    Inv (step fw_keyhash boot_set_pending peer img legacy test s e) := by
  cases e with
  | arrive i =>
    simp only [step]
    cases sent : s.sent[i]? with
    | none => exact inv
    | some rx => exact arrived_inv inv (allowed rx sent)
  | deliver i =>
    simp only [step]
    cases reply : s.replies[i]? with
    | none => exact inv
    | some r =>
      have member : r ∈ s.replies := List.mem_of_getElem? reply
      refine ⟨inv.answers, inv.refused, inv.passed, inv.rejected, fun inTime => ?_⟩
      simp only [delivered, Bool.or_eq_true, Bool.and_eq_true, decide_eq_true_eq] at inTime
      rcases inTime with before | ⟨_, rfl⟩
      · exact inv.inTime before
      · exact member
  | read =>
    simp only [step]
    cases socket : s.socket with
    | nil => exact inv
    | cons r rest =>
      simp only
      split_ifs with busy
      · by_cases judging : s.phase = .finish
        · have first : firstEnd s = some r := allowed judging r (by rw [socket]; rfl)
          have member : r ∈ s.replies := List.mem_of_find?_eq_some first
          have answer : isFor 0x03 r = true := List.find?_some first
          rw [judging]
          rcases inv.answers r member answer with rfl | rfl
          · exact ⟨inv.answers, inv.refused, (fun passed => by cases passed), fun _ => first, inv.inTime⟩
          · exact ⟨inv.answers, inv.refused, fun _ => member, (fun rejected => by cases rejected), inv.inTime⟩
        · exact moved_inv ⟨inv.answers, inv.refused, inv.passed, inv.rejected, inv.inTime⟩
            (.inr (read_unjudged busy judging r))
      · exact inv
  | timeout =>
    exact moved_inv ⟨inv.answers, inv.refused, inv.passed, inv.rejected, inv.inTime⟩ (timeout_unjudged s.socket s.phase)

private theorem launch_inv (u : Upg) : Inv (launch img u) := by
  unfold launch
  split
  · exact ⟨by simp, by simp [firstEnd], by simp, by simp, by simp⟩
  · split_ifs <;> exact ⟨by simp, by simp [firstEnd], by simp, by simp, by simp⟩

/-- Whatever the network does: while the FW_END exchange only ever takes the
    device's first answer to FW_END, and no FW_START reaches the device behind a
    refused FW_END, tool and device agree in every state they get to. -/
theorem tool_and_device_agree {u : Upg} {es before after : List Event}
    (meets : Machine.Meets (step fw_keyhash boot_set_pending peer img legacy test) Allowed (launch img u) es)
    (split : es = before ++ after) :
    Agrees (before.foldl (step fw_keyhash boot_set_pending peer img legacy test) (launch img u)) := by
  rw [split, Machine.meets_append] at meets
  exact (Machine.invariant (fun _ _ inv allowed => step_inv inv allowed) (launch_inv u) meets.1).agrees

/-- A run of the tool with the given image, against a device after its reset. -/
def ranWith (img : List UInt8) (es : List Event) : Sys :=
  es.foldl (step smallHash (fun _ d => (true, d)) ⟨0, 8600⟩ img false false) (launch img idle)

/-- An image with a key hash but not with a header that the device would boot. -/
def headless : List UInt8 :=
  List.replicate 8 0 ++ put_le16 20 ++ List.replicate 10 0 ++ put_le16 0x6907 ++ put_le16 40 ++ put_le16 0x0001 ++
    put_le16 32 ++ smallHash ++ List.replicate 4 0

/-- A run without losses: the device refuses the image, and the tool reports that. -/
theorem tool_and_device_agree_headless :
    let s := ranWith headless [.arrive 0, .deliver 0, .read, .arrive 1, .deliver 1, .read, .arrive 2, .deliver 2, .read]
    s.phase = .rejected ∧ Agrees s := by
  refine ⟨by decide +kernel, ?_⟩
  refine tool_and_device_agree ?_ (List.append_nil _).symm
  refine ⟨?_, trivial, ?_, ?_, trivial, ?_, ?_, trivial, ?_, trivial⟩
  all_goals
    simp only [Allowed]
    decide +kernel

/-- An image of 769 bytes whose last confirmation is delivered twice: the tool takes
    the second copy for the answer to an FW_END that has not reached the device. -/
theorem tool_passes_on_stale_confirmation :
    let s := ranWith (smallImage smallHash ++ List.replicate 217 0)
      [.arrive 0, .deliver 0, .read, .arrive 1, .deliver 1, .deliver 1, .read, .read]
    s.phase = .passed ∧ s.replies = [[0x01, 1, 0x78, 0x05], [0x06, 0x01, 0x03, 0, 0]] ∧ ¬ Agrees s := by
  have passed : (ranWith (smallImage smallHash ++ List.replicate 217 0)
      [.arrive 0, .deliver 0, .read, .arrive 1, .deliver 1, .deliver 1, .read, .read]).phase = .passed := by
    decide +kernel
  have replies : (ranWith (smallImage smallHash ++ List.replicate 217 0)
      [.arrive 0, .deliver 0, .read, .arrive 1, .deliver 1, .deliver 1, .read, .read]).replies =
        [[0x01, 1, 0x78, 0x05], [0x06, 0x01, 0x03, 0, 0]] := by
    decide +kernel
  refine ⟨passed, replies, fun agrees => ?_⟩
  have answered := agrees.1 passed
  rw [replies] at answered
  exact absurd answered (by decide)

end

end IoEdgeHub.UpgradeTool
