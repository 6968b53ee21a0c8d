import IoEdgeHub.HistoryLog

/-!
The recording task (`history/history.c`) between the sampling tasks that send it records,
the callers that switch recording on and off, and the other users of the file system.
All of them take turns in any order; what two of them share is read and written in steps
of its own, and the recorder's files are only touched under `hist_lock`.
-/
namespace IoEdgeHub.HistoryTask
open IoEdgeHub.Directory IoEdgeHub.HistoryFile IoEdgeHub.HistoryLog IoEdgeHub.Machine

def HIST_QUEUE_DEPTH : Nat := 16

/-- Who holds `hist_lock`. -/
inductive Holder
  | hist_task
  | other
  deriving DecidableEq

/-- Where the recording task is: it waits for a record or has waited in vain, takes the lock
    with a record in hand or to close the file, or holds the lock. -/
inductive Task
  | receiving
  | timed_out
  | locking (d : HisData)
  | relocking
  | writing (d : HisData)
  | draining
  | checking
  | closing
  | clearing
  | unlocking
  deriving DecidableEq

/-- The record that the task has taken from the queue and not yet written. -/
def Task.in_hand : Task → List HisData
  | .locking d | .writing d => [d]
  | _ => []

/-- Whether the task is between taking the lock and giving it back. -/
def Task.inside : Task → Bool
  | .receiving | .timed_out | .locking _ | .relocking => false
  | _ => true

/-- Whether the task will look whether recording is off, or close the file, before it gives the lock back. -/
def Task.settles : Task → Bool
  | .writing _ | .draining | .checking | .closing => true
  | _ => false

/-- The shell. `checked`: the records whose senders have found recording on and have not yet
    come to the queue. `disabling`: the callers of `history_enable_write` that have switched
    recording off and have not yet asked for the file to be closed. `accepted`: the records
    that went into the queue. `handled`: those the task tried to write, and whether it could. -/
structure Shell where
  history_enabled : Bool := false
  hist_close_req : Bool := false
  hist_lfs : Bool
  hist_lock : Option Holder := none
  hist_queue : List HisData := []
  drop_cnt : UInt32 := 0
  warnings : List UInt32 := []
  his : His
  task : Task := .receiving
  checked : List HisData := []
  disabling : Nat := 0
  accepted : List HisData := []
  handled : List (HisData × Bool) := []

/-- `check` and `send`: the two halves of `send_history_data`, the second by the sender of the
    record numbered so. `enable` and `request`: the two stores of `history_enable_write`. `task`:
    the next step of the task, at a time and with so much room left. The others are for who else
    takes the lock; `change` is what its file operations make of the files. -/
inductive Event
  | check (d : HisData)
  | send (i : Nat)
  | enable (en : Bool)
  | request
  | task (now : Int) (room : Nat)
  | lock
  | unlock
  | sync
  | change (files : Dir Name (List UInt8))

def history_init (lfs : Bool) (s : His) : Shell := { hist_lfs := lfs, his := hist_file_init lfs s }

/-- The end of `send_history_data`. Every fourth record that is dropped is reported. -/
def queue_send (d : HisData) (s : Shell) : Shell :=
  if s.hist_queue.length < HIST_QUEUE_DEPTH then
    { s with hist_queue := s.hist_queue ++ [d], accepted := s.accepted ++ [d] }
  else
    { s with
      drop_cnt := s.drop_cnt + 1
      warnings := if s.drop_cnt % 4 = 0 then s.warnings ++ [s.drop_cnt + 1] else s.warnings }

/-- The next step of `hist_task`. -/
def task_step (now : Int) (room : Nat) (s : Shell) : Shell :=
  match s.task with
  | .receiving =>
    match s.hist_queue with
    | d :: rest => { s with hist_queue := rest, task := .locking d }
    | [] => { s with task := .timed_out }
  | .timed_out => { s with task := if s.hist_close_req then .relocking else .receiving }
  | .locking d => if s.hist_lock = none then { s with hist_lock := some .hist_task, task := .writing d } else s
  | .relocking => if s.hist_lock = none then { s with hist_lock := some .hist_task, task := .closing } else s
  | .writing d =>
    let r := hist_file_write now room d s.his
    { s with
      his := r.2
      handled := s.handled ++ [(d, decide (r.1 = 0))]
      task := if r.1 = 0 then .draining else .checking }
  | .draining =>
    match s.hist_queue with
    | d :: rest => { s with hist_queue := rest, task := .writing d }
    | [] => { s with task := .checking }
  | .checking => { s with task := if s.history_enabled then .unlocking else .closing }
  | .closing => { s with his := hist_file_close s.his, task := .clearing }
  | .clearing => { s with hist_close_req := false, task := .unlocking }
  | .unlocking => { s with hist_lock := none, task := .receiving }

def step (s : Shell) : Event → Shell
  | .check d => if s.history_enabled ∧ s.hist_lfs then { s with checked := s.checked ++ [d] } else s
  | .send i =>
    match s.checked[i]? with
    | some d => queue_send d { s with checked := s.checked.eraseIdx i }
    | none => s
  | .enable en => { s with history_enabled := en, disabling := if en then s.disabling else s.disabling + 1 }
  | .request => if 0 < s.disabling then { s with hist_close_req := true, disabling := s.disabling - 1 } else s
  | .task now room => task_step now room s
  | .lock => if s.hist_lock = none then { s with hist_lock := some .other } else s
  | .unlock => if s.hist_lock = some .other then { s with hist_lock := none } else s
  | .sync => if s.hist_lock = some .other then { s with his := hist_file_sync s.his } else s
  | .change files => if s.hist_lock = some .other then { s with his := { s.his with files } } else s

/-- Whoever acts when an event happens. -/
def Event.actor : Event → Holder
  | .task .. => .hist_task
  | _ => .other

/-- What every step keeps. -/
structure Inv (s : Shell) : Prop where
  order : s.accepted = s.handled.map (·.1) ++ s.task.in_hand ++ s.hist_queue
  bounded : s.hist_queue.length ≤ HIST_QUEUE_DEPTH
  locked : s.hist_lock = some .hist_task ↔ s.task.inside = true
  shut : s.task = .clearing → s.his.his_fp = none
  wanted : s.his.his_fp ≠ none → s.history_enabled = true ∨ 0 < s.disabling ∨ s.hist_close_req = true ∨ s.task.settles = true

section
variable {s : Shell}

theorem init_inv (lfs : Bool) (his : His) : Inv (history_init lfs his) where
  order := rfl
  bounded := Nat.zero_le _
  locked := by simp [history_init, Task.inside]
  shut := fun clearing => nomatch clearing
  wanted := fun opened => absurd rfl opened

theorem queue_send_inv (inv : Inv s) (d : HisData) : Inv (queue_send d s) := by
  unfold queue_send
  split
  · rename_i room
    refine { inv with order := ?_, bounded := ?_ }
    · simp only [inv.order, List.append_assoc]
    · rw [List.length_append]
      exact room
  · exact { inv with }

/-- A task that takes the lock finds that nobody has it. -/
theorem task_inv (inv : Inv s) (now : Int) (room : Nat) : Inv (task_step now room s) := by
  obtain ⟨en, req, lfs, lock, queue, cnt, warnings, his, task, checked, disabling, accepted, handled⟩ := s
  obtain ⟨order, bounded, locked, shut, wanted⟩ := inv
  cases task with
  | receiving =>
    cases queue with
    | nil => constructor <;> simp_all [task_step, Task.in_hand, Task.inside, Task.settles]
    | cons d rest =>
      constructor
      case bounded => exact Nat.le_of_succ_le bounded
      all_goals simp_all [task_step, Task.in_hand, Task.inside, Task.settles]
  | timed_out => cases req <;> constructor <;> simp_all [task_step, Task.in_hand, Task.inside, Task.settles]
  | locking d =>
    simp only [task_step]
    split <;> constructor <;> simp_all [Task.in_hand, Task.inside, Task.settles]
  | relocking =>
    simp only [task_step]
    split <;> constructor <;> simp_all [Task.in_hand, Task.inside, Task.settles]
  | writing d =>
    simp only [task_step]
    split <;> constructor <;> simp_all [Task.in_hand, Task.inside, Task.settles]
  | draining =>
    cases queue with
    | nil => constructor <;> simp_all [task_step, Task.in_hand, Task.inside, Task.settles]
    | cons d rest =>
      constructor
      case bounded => exact Nat.le_of_succ_le bounded
      all_goals simp_all [task_step, Task.in_hand, Task.inside, Task.settles]
  | checking => cases en <;> constructor <;> simp_all [task_step, Task.in_hand, Task.inside, Task.settles]
  | closing =>
    constructor <;>
      simp_all [task_step, Task.in_hand, Task.inside, Task.settles, hist_file_close, close_cur_file]
  | clearing => constructor <;> simp_all [task_step, Task.in_hand, Task.inside, Task.settles]
  | unlocking => constructor <;> simp_all [task_step, Task.in_hand, Task.inside, Task.settles]

theorem step_inv (inv : Inv s) (e : Event) : Inv (step s e) := by
  cases e with
  | check d =>
    simp only [step]
    split
    · exact { inv with }
    · exact inv
  | send i =>
    simp only [step]
    split
    · exact queue_send_inv (s := { s with checked := s.checked.eraseIdx i }) { inv with } _
    · exact inv
  | enable en =>
    refine { inv with wanted := fun opened => ?_ }
    cases en with
    | true => exact .inl rfl
    | false => exact .inr (.inl (Nat.succ_pos _))
  | request =>
    simp only [step]
    split
    · exact { inv with wanted := fun _ => .inr (.inr (.inl rfl)) }
    · exact inv
  | task now room => exact task_inv inv now room
  | lock =>
    simp only [step]
    split
    · rename_i free
      refine { inv with locked := ?_ }
      have outside := inv.locked
      simp_all
    · exact inv
  | unlock =>
    simp only [step]
    split
    · rename_i held
      refine { inv with locked := ?_ }
      have outside := inv.locked
      simp_all
    · exact inv
  | sync =>
    simp only [step, hist_file_sync]
    split <;> exact inv
  | change files =>
    simp only [step]
    split
    · exact { inv with shut := inv.shut, wanted := inv.wanted }
    · exact inv

/-- Nobody but who holds the lock does anything to the recorder and its files. -/
theorem holder_writes (inv : Inv s) (e : Event) (touched : (step s e).his ≠ s.his) : s.hist_lock = some e.actor := by
  cases e with
  | task now room =>
    refine inv.locked.mpr ?_
    simp only [step, task_step] at touched
    cases at_ : s.task with
    | receiving =>
      rw [at_] at touched
      cases queue : s.hist_queue <;> simp [queue] at touched
    | locking d =>
      rw [at_] at touched
      by_cases free : s.hist_lock = none <;> simp [free] at touched
    | relocking =>
      rw [at_] at touched
      by_cases free : s.hist_lock = none <;> simp [free] at touched
    | timed_out => simp [at_] at touched
    | _ => rfl
  | check d =>
    simp only [step] at touched
    split at touched <;> exact absurd rfl touched
  | send i =>
    simp only [step, queue_send] at touched
    split at touched
    · split at touched <;> exact absurd rfl touched
    · exact absurd rfl touched
  | enable en => exact absurd rfl touched
  | request =>
    simp only [step] at touched
    split at touched <;> exact absurd rfl touched
  | lock =>
    simp only [step] at touched
    split at touched <;> exact absurd rfl touched
  | unlock =>
    simp only [step] at touched
    split at touched <;> exact absurd rfl touched
  | sync => exact absurd (by simp only [step, hist_file_sync]; split <;> rfl) touched
  | change files =>
    simp only [step] at touched
    split at touched
    · assumption
    · exact absurd rfl touched

end

/-! ### What the files hold -/

/-- The writes of the task succeed and get new names, and nobody else touches the data files. -/
def Undisturbed (s : Shell) : Event → Prop
  | .task now room =>
    match s.task with
    | .writing d => Fresh s.his (.hist_file_write now room d)
    | _ => True
  | .change files => files.part is_data = s.his.data_files
  | _ => True

instance (s : Shell) : (e : Event) → Decidable (Undisturbed s e)
  | .task now room =>
    match at_ : s.task with
    | .writing d => decidable_of_iff (Fresh s.his (.hist_file_write now room d)) (by simp [Undisturbed, at_])
    | .receiving | .timed_out | .locking _ | .relocking | .draining | .checking | .closing | .clearing | .unlocking =>
      isTrue (by simp [Undisturbed, at_])
  | .change _ => inferInstanceAs (Decidable (_ = _))
  | .check _ | .send _ | .enable _ | .request | .lock | .unlock | .sync => isTrue trivial

/-- The data files hold what was `kept` at first and the records that were handled since. -/
structure Kept (kept : List (List HisData)) (s : Shell) : Prop where
  recording : Recording s.his ((s.handled.map (·.1)).foldl file_record kept)
  written : ∀ r ∈ s.handled, r.2 = true

section
variable {s : Shell} {before : List (List HisData)}

theorem init_kept {his : His} (recording : Recording his before) : Kept before (history_init true his) := by
  have fine : Fresh his .reboot := trivial
  have restarted := step_recording recording fine
  exact ⟨restarted, fun r none_there => nomatch none_there⟩

theorem hist_file_write_ok {his : His} {now : Int} {room : Nat} {d : HisData} (bound : his.his_lfs = true)
    (enough : d.len ≤ room) : (hist_file_write now room d his).1 = 0 := by
  obtain ⟨his', -, eq⟩ := hist_file_write_spec now room d bound
  rw [eq]
  exact if_pos enough

/-- A record that is written is the next of those that were handled. -/
theorem writing_kept {now : Int} {room : Nat} {d : HisData} (kept : Kept before s) (at_ : s.task = .writing d)
    (fresh : Fresh s.his (.hist_file_write now room d)) : Kept before (task_step now room s) := by
  have ok : (hist_file_write now room d s.his).1 = 0 := hist_file_write_ok kept.recording.bound fresh.1
  have written := step_recording kept.recording fresh
  simp only [HistoryLog.step, records, List.filterMap_cons, List.filterMap_nil, ← List.foldl_append] at written
  simp only [task_step, at_]
  constructor
  · simpa using written
  · intro r member
    rcases List.mem_append.mp member with earlier | now_
    · exact kept.written r earlier
    · rw [List.mem_singleton.mp now_]
      exact decide_eq_true ok

theorem task_kept {now : Int} {room : Nat} (kept : Kept before s) (undisturbed : Undisturbed s (.task now room)) :
    Kept before (task_step now room s) := by
  cases at_ : s.task with
  | writing d =>
    refine writing_kept kept at_ ?_
    simpa only [Undisturbed, at_] using undisturbed
  | receiving =>
    simp only [task_step, at_]
    split <;> exact ⟨kept.recording, kept.written⟩
  | draining =>
    simp only [task_step, at_]
    split <;> exact ⟨kept.recording, kept.written⟩
  | locking d =>
    simp only [task_step, at_]
    split <;> exact ⟨kept.recording, kept.written⟩
  | relocking =>
    simp only [task_step, at_]
    split <;> exact ⟨kept.recording, kept.written⟩
  | closing =>
    simp only [task_step, at_]
    exact ⟨recording_closed kept.recording, kept.written⟩
  | timed_out => simpa only [task_step, at_] using ⟨kept.recording, kept.written⟩
  | checking => simpa only [task_step, at_] using ⟨kept.recording, kept.written⟩
  | clearing => simpa only [task_step, at_] using ⟨kept.recording, kept.written⟩
  | unlocking => simpa only [task_step, at_] using ⟨kept.recording, kept.written⟩

/-- Files of other names may come and go. -/
theorem recording_change {his : His} {files : Dir Name (List UInt8)} (recording : Recording his before)
    (same : files.part is_data = his.data_files) : Recording { his with files } before where
  bound := recording.bound
  holds := by simpa only [His.data_files, same] using recording.holds
  few := by simpa only [His.data_files, same] using recording.few
  small := by simpa only [His.data_files, same] using recording.small
  short := by simpa only [ShortNames, His.data_files, same] using recording.short
  current := by simpa only [His.data_files, same] using recording.current
  opened := recording.opened

theorem step_kept {e : Event} (kept : Kept before s) (undisturbed : Undisturbed s e) : Kept before (step s e) := by
  cases e with
  | task now room => exact task_kept kept undisturbed
  | change files =>
    simp only [step]
    split
    · exact ⟨recording_change kept.recording undisturbed, kept.written⟩
    · exact kept
  | check d =>
    simp only [step]
    split <;> exact ⟨kept.recording, kept.written⟩
  | send i =>
    simp only [step, queue_send]
    split
    · split <;> exact ⟨kept.recording, kept.written⟩
    · exact kept
  | enable en => exact ⟨kept.recording, kept.written⟩
  | request =>
    simp only [step]
    split <;> exact ⟨kept.recording, kept.written⟩
  | lock =>
    simp only [step]
    split <;> exact ⟨kept.recording, kept.written⟩
  | unlock =>
    simp only [step]
    split <;> exact ⟨kept.recording, kept.written⟩
  | sync =>
    simp only [step, hist_file_sync]
    split <;> exact kept

end

/-! ### Switching off -/

/-- Whether a step takes the task on. It does not while somebody else has the lock, nor
    while there is neither a record nor a request. -/
def Shell.busy (s : Shell) : Bool :=
  match s.task with
  | .receiving => decide (s.hist_queue ≠ []) || s.hist_close_req
  | .timed_out => s.hist_close_req
  | .locking _ | .relocking => decide (s.hist_lock = none)
  | _ => true

def works (s : Shell) : Event → Bool
  | .task .. => s.busy
  | _ => false

/-- The steps that are left to a task at most before it comes to rest; a request is taken off
    where the task is on its way to close the file. -/
def Task.effort (req : Bool) : Task → Nat
  | .receiving => 1 + 10 * req.toNat
  | .timed_out => 1 + 9 * req.toNat
  | .locking _ => 8 + 10 * req.toNat
  | .writing _ => 7 + 10 * req.toNat
  | .draining => 6 + 10 * req.toNat
  | .checking => 5 + 10 * req.toNat
  | .relocking => 5
  | .closing => 4
  | .clearing => 3
  | .unlocking => 2 + 10 * req.toNat

def effort (s : Shell) : Nat :=
  10 * (s.checked.length + s.hist_queue.length + s.disabling) + s.task.effort s.hist_close_req

section
variable {s : Shell}

theorem task_pays (now : Int) (room : Nat) (off : s.history_enabled = false) :
    (works s (.task now room)).toNat + effort (task_step now room s) ≤ effort s := by
  obtain ⟨en, req, lfs, lock, queue, cnt, warnings, his, task, checked, disabling, accepted, handled⟩ := s
  cases task with
  | receiving =>
    cases queue with
    | nil =>
      cases req
      · simp [works, Shell.busy, effort, task_step, Task.effort]
      · simp [works, Shell.busy, effort, task_step, Task.effort]
        omega
    | cons d rest => simp [works, Shell.busy, effort, task_step, Task.effort]; omega
  | timed_out =>
    cases req
    · simp [works, Shell.busy, effort, task_step, Task.effort]
    · simp [works, Shell.busy, effort, task_step, Task.effort]
      omega
  | locking d =>
    cases lock
    · simp [works, Shell.busy, effort, task_step, Task.effort]
      omega
    · simp [works, Shell.busy, effort, task_step, Task.effort]
  | relocking =>
    cases lock
    · simp [works, Shell.busy, effort, task_step, Task.effort]
      omega
    · simp [works, Shell.busy, effort, task_step, Task.effort]
  | writing d =>
    by_cases ok : (hist_file_write now room d his).1 = 0
    · simp [works, Shell.busy, effort, task_step, ok, Task.effort]
      omega
    · simp [works, Shell.busy, effort, task_step, ok, Task.effort]
      omega
  | draining => cases queue <;> (simp [works, Shell.busy, effort, task_step, Task.effort]; omega)
  | checking =>
    cases off
    simp [works, Shell.busy, effort, task_step, Task.effort]
    omega
  | closing => simp [works, Shell.busy, effort, task_step, Task.effort]; omega
  | clearing => simp [works, Shell.busy, effort, task_step, Task.effort]; omega
  | unlocking => simp [works, Shell.busy, effort, task_step, Task.effort]; omega

/-- A request costs the task no more than the caller that was about to make it. -/
theorem effort_request (task : Task) (req : Bool) : task.effort true ≤ task.effort req + 10 := by
  cases task <;> cases req <;> simp [Task.effort]

/-- Recording stays off, and nothing but the callers that are under way already gives the task more to do. -/
theorem step_pays {e : Event} (off : s.history_enabled = false) (stays : ∀ en, e ≠ .enable en) :
    (works s e).toNat + effort (step s e) ≤ effort s := by
  cases e with
  | task now room => exact task_pays now room off
  | enable en => exact absurd rfl (stays en)
  | check d => simp [works, step, off]
  | send i =>
    simp only [works, step, Bool.toNat_false, Nat.zero_add]
    cases record : s.checked[i]? with
    | none => exact Nat.le_refl _
    | some d =>
      obtain ⟨inside, -⟩ := List.getElem?_eq_some_iff.mp record
      have fewer := List.length_eraseIdx_of_lt inside
      simp only [queue_send]
      split <;> simp only [effort, fewer, List.length_append, List.length_singleton] <;> omega
  | request =>
    simp only [works, step, Bool.toNat_false, Nat.zero_add]
    split
    · have more := effort_request s.task s.hist_close_req
      simp only [effort]
      omega
    · exact Nat.le_refl _
  | lock =>
    simp only [works, step, Bool.toNat_false, Nat.zero_add]
    split <;> exact Nat.le_refl _
  | unlock =>
    simp only [works, step, Bool.toNat_false, Nat.zero_add]
    split <;> exact Nat.le_refl _
  | sync =>
    simp only [works, step, Bool.toNat_false, Nat.zero_add]
    split <;> exact Nat.le_refl _
  | change files =>
    simp only [works, step, Bool.toNat_false, Nat.zero_add]
    split <;> exact Nat.le_refl _

theorem task_enabled (now : Int) (room : Nat) : (task_step now room s).history_enabled = s.history_enabled := by
  simp only [task_step]
  split
  · split <;> rfl
  · rfl
  · split <;> rfl
  · split <;> rfl
  · rfl
  · split <;> rfl
  · rfl
  · rfl
  · rfl
  · rfl

theorem step_off {e : Event} (off : s.history_enabled = false) (stays : ∀ en, e ≠ .enable en) :
    (step s e).history_enabled = false := by
  cases e with
  | task now room => exact (task_enabled now room).trans off
  | enable en => exact absurd rfl (stays en)
  | send i =>
    simp only [step, queue_send]
    split
    · split <;> exact off
    · exact off
  | check d => simp only [step]; split <;> exact off
  | request => simp only [step]; split <;> exact off
  | lock => simp only [step]; split <;> exact off
  | unlock => simp only [step]; split <;> exact off
  | sync => simp only [step]; split <;> exact off
  | change files => simp only [step]; split <;> exact off

theorem effort_bound (inv : Inv s) : effort s ≤ 10 * (s.checked.length + HIST_QUEUE_DEPTH + s.disabling) + 18 := by
  have few := inv.bounded
  have pc : s.task.effort s.hist_close_req ≤ 18 := by
    cases s.task <;> cases s.hist_close_req <;> simp [Task.effort]
  simp only [effort]
  omega

/-- A task at rest, with recording off and nobody about to ask for it, has closed the file. -/
theorem rest_closed (inv : Inv s) (off : s.history_enabled = false) (rest : s.task = .receiving)
    (idle : s.busy = false) (done : s.disabling = 0) : s.his.his_fp = none ∧ s.accepted = s.handled.map (·.1) := by
  have none_left := idle
  simp only [Shell.busy, rest, Bool.or_eq_false_iff, decide_eq_false_iff_not, not_not] at none_left
  constructor
  · by_contra opened
    rcases inv.wanted opened with on | calling | asked | settling
    · rw [off] at on
      cases on
    · omega
    · rw [none_left.2] at asked
      cases asked
    · rw [rest] at settling
      cases settling
  · have order := inv.order
    rw [rest, none_left.1] at order
    simpa [Task.in_hand] using order

end

theorem run_inv {s : Shell} (inv : Inv s) (es : List Event) : Inv (es.foldl step s) := by
  induction es generalizing s with
  | nil => exact inv
  | cons e rest ih => exact ih (step_inv inv e)

/-- In every order of steps of the sampling tasks, of those that switch recording on and off, of
    the other users of the file system and of the recording task, from a recorder whose data
    files hold the records `before`: nobody touches the recorder's files without the lock; the
    records that went into the queue are those that the task has handled, the one it has in hand
    and those in the queue, in that order; and unless a write fails, names run backwards or
    somebody else touches the data files, all that were handled were written, and the files hold
    what filing them one after the other leaves of all records: the last of them, and all unless
    there are ten files, each of at most a record more than the limit. -/
theorem records_in_order {his : His} {before : List (List HisData)} (recording : Recording his before)
    (es : List Event) :
    let s := es.foldl step (history_init true his)
    let kept := (s.handled.map (·.1)).foldl file_record before
    (∀ e, (step s e).his ≠ s.his → s.hist_lock = some e.actor) ∧
      s.accepted = s.handled.map (·.1) ++ s.task.in_hand ++ s.hist_queue ∧
      (Meets step Undisturbed (history_init true his) es →
        (∀ r ∈ s.handled, r.2 = true) ∧ Holds s.his.data_files kept ∧
          (∃ dropped, before.reverse.flatten ++ s.handled.map (·.1) = dropped ++ kept.reverse.flatten ∧
            s.his.data_files.flatMap (·.2) = images kept.reverse.flatten ∧
            (dropped ≠ [] → s.his.data_files.length = HIST_MAX_FILES)) ∧
          s.his.data_files.length ≤ HIST_MAX_FILES ∧ ∀ e ∈ s.his.data_files, e.2.length < HIST_FILE_MAX + 16) := by
  intro s kept
  have inv : Inv s := run_inv (init_inv true his) es
  refine ⟨holder_writes inv, inv.order, fun meets => ?_⟩
  have all : Kept before s := invariant (fun _ _ kept fine => step_kept kept fine) (init_kept recording) meets
  obtain ⟨dropped, split, ten, -⟩ := filed_suffix (holds_count recording.holds ▸ recording.few) (s.handled.map (·.1))
  have holds : Holds s.his.data_files kept := all.recording.holds
  refine ⟨all.written, holds, ⟨dropped, split, holds_bytes holds, fun some_gone => ?_⟩, all.recording.few, all.recording.small⟩
  rw [holds_count holds]
  exact ten some_gone

/-- A sample is sent and taken while another user of the file system has the lock; the task writes
    it after that, finds recording switched off meanwhile, and closes the file. -/
theorem records_in_order_contended :
    let es := [.enable true, .check ⟨DI_TYPE, 1, 2, 3, 4, 5, 6⟩, .send 0, .lock, .task 0 16, .task 0 16,
      .change ⟨[([1], [2])], by simp⟩, .unlock, .task 0 16, .enable false, .task 0 16, .request, .task 0 16, .task 0 16,
      .task 0 16]
    (es.foldl step (history_init true (boot ⟨[], .nil⟩))).his.data_files.map (·.2) =
      [images [⟨DI_TYPE, 1, 2, 3, 4, 5, 6⟩]] := by
  intro es
  have holds := ((records_in_order (@boot_recording ⟨[], .nil⟩ (by decide)) es).2.2 (by decide)).2.1
  exact holds.trans (by decide)

/-- From any state of any run in which recording is off, as long as nobody switches it on or off
    again: however the others take turns with it, the task goes on for a bounded number of
    steps, and where it comes to rest, and the last caller has made its request, the file is
    closed and every record that went into the queue has been handled. -/
theorem switched_off_closes {lfs : Bool} {his : His} {before es : List Event}
    (off : (before.foldl step (history_init lfs his)).history_enabled = false) (stays : ∀ en, Event.enable en ∉ es) :
    let s := before.foldl step (history_init lfs his)
    let t := es.foldl step s
    count step works s es ≤ 10 * (s.checked.length + HIST_QUEUE_DEPTH + s.disabling) + 18 ∧
      (t.task = .receiving → t.busy = false → t.disabling = 0 → t.his.his_fp = none ∧ t.accepted = t.handled.map (·.1)) := by
  intro s t
  have inv : Inv s := run_inv (init_inv lfs his) before
  have others : Meets step (fun _ e => ∀ en, e ≠ .enable en) s es :=
    meets_of_all fun e member _ en same => stays en (same ▸ member)
  have keep (s : Shell) (e : Event) (off : s.history_enabled = false) (stays : ∀ en, e ≠ .enable en) :
      (step s e).history_enabled = false := step_off off stays
  have paid : count step works s es + effort t ≤ effort s :=
    count_le_effort effort keep (fun _ _ off stays => step_pays off stays) off others
  refine ⟨?_, fun rest idle done => ?_⟩
  · have bound := effort_bound inv
    omega
  · exact rest_closed (run_inv inv es) (invariant keep off others) rest idle done

/-- Switched off with a sample in the queue: the sample is written and the file closed. -/
theorem switched_off_closes_queued :
    let before := [.enable true, .check ⟨DI_TYPE, 1, 2, 3, 4, 5, 6⟩, .send 0, .enable false]
    let s := before.foldl step (history_init true (boot ⟨[], .nil⟩))
    let t := [.task 0 16, .task 0 16, .request, .task 0 16, .task 0 16, .task 0 16, .task 0 16, .task 0 16, .task 0 16].foldl step s
    t.his.his_fp = none ∧ t.accepted = t.handled.map (·.1) := by
  intro before s t
  have off : (before.foldl step (history_init true (boot ⟨[], .nil⟩))).history_enabled = false := by decide
  exact (switched_off_closes off (by simp)).2 (by decide) (by decide) (by decide)

end IoEdgeHub.HistoryTask
