import IoEdgeHub.FwUdp

/-!
How an upgrade session ends (`fw/fw_upg.c`). `fw_upg.h` promises that an abort and a finish
reset the session whatever they return, so that there is nothing received when there is no
session. `fw_upg_finish_ex` leaves its body early when the session has failed, and what
is buffered then stays counted (`Residue`).
-/
namespace IoEdgeHub.SessionEnds
open IoEdgeHub.Nor IoEdgeHub.Bytes IoEdgeHub.Calls IoEdgeHub.FwUpg IoEdgeHub.FwUdp IoEdgeHub.Machine

/-- The calls that change a session. -/
inductive Op
  | start (total : Nat) (keyhash : Option (List UInt8))
  | write (data : List UInt8)
  | finish (crc_expect : UInt16)
  | finish_ex (crc_expect : UInt16) (check_crc : Bool)
  | abort

def step (fw_keyhash : List UInt8) (u : Upg) : Op → Upg
  | .start total keyhash => (fw_upg_start fw_keyhash total keyhash u).2
  | .write data => (fw_upg_write data u).2
  | .finish crc_expect => (fw_upg_finish fw_keyhash crc_expect u).2
  | .finish_ex crc_expect check_crc => (fw_upg_finish_ex fw_keyhash crc_expect check_crc u).2
  | .abort => fw_upg_abort u

/-- The call is a finish. -/
def Op.Finishes : Op → Prop
  | .finish _ | .finish_ex _ _ => True
  | _ => False

/-- The call is one that ends a session. -/
def Op.Ends (op : Op) : Prop := op.Finishes ∨ op = .abort

/-- As the device is when there is no session. -/
structure Reset (u : Upg) : Prop where
  active : fw_upg_active u = false
  failed : fw_upg_failed u = false
  received : fw_upg_received u = 0
  total : fw_upg_total u = 0

/-- An open session that has failed with bytes in its buffer. -/
def Residue (u : Upg) : Prop := u.s.active = true ∧ u.s.failed = true ∧ u.s.page ≠ []

/-- Without a session nothing is left of one. -/
def Idle (u : Upg) : Prop := u.s.active = false → u.s.failed = false ∧ u.s.written = 0 ∧ u.s.page = []

section
variable {fw_keyhash : List UInt8} {u : Upg}

theorem Idle.reset (idle : Idle u) (closed : u.s.active = false) : Reset u := by
  obtain ⟨failed, written, page⟩ := idle closed
  refine ⟨closed, failed, ?_, ?_⟩
  · rw [fw_upg_received, written, page]
    rfl
  · rw [fw_upg_total, closed]
    rfl

theorem Reset.idle (reset : Reset u) : Idle u := by
  intro _
  have received : u.s.written + u.s.page.length = 0 := reset.received
  exact ⟨reset.failed, by omega, List.length_eq_zero_iff.mp (by omega)⟩

theorem fw_upg_abort_reset (u : Upg) : Reset (fw_upg_abort u) := ⟨rfl, rfl, rfl, rfl⟩

/-- A flush empties the buffer. -/
theorem page_flush_page (v : Upg) : (page_flush v.s.page v).2.s.page = [] := by
  rw [page_flush]
  split
  · rfl
  · rename_i none_
    exact List.eq_nil_of_length_eq_zero (Nat.eq_zero_of_not_pos none_)

/-- The body of a finish leaves the buffer alone when the session has failed, and else empties it. -/
theorem finish_body_page (crc_expect : UInt16) (check_crc : Bool) (v : Upg) :
    (finish_body fw_keyhash crc_expect check_crc v).2.s.page = if v.s.failed then v.s.page else [] := by
  unfold finish_body
  split
  · rfl
  · have empty := page_flush_page v
    split <;> rename_i flushed <;> rw [flushed] at empty
    · exact empty
    · unfold finish_check
      split
      · exact empty
      · exact empty

/-- A finish of an open session. -/
theorem fw_upg_finish_open (crc_expect : UInt16) (check_crc : Bool) (open_ : u.s.active = true) :
    let after := (fw_upg_finish_ex fw_keyhash crc_expect check_crc u).2
    after.s.failed = false ∧ after.s.written = 0 ∧ after.s.page = if u.s.failed then u.s.page else [] := by
  have body := @finish_body_page fw_keyhash crc_expect check_crc ⟨u.s.close, u.dev⟩
  intro after
  have opened : after = (fw_upg_finish_ex fw_keyhash crc_expect check_crc u).2 := rfl
  rw [fw_upg_finish_ex, if_neg (by simp [open_])] at opened
  rw [opened]
  exact ⟨rfl, rfl, body⟩

theorem fw_upg_finish_reset (crc_expect : UInt16) (check_crc : Bool) (idle : Idle u) :
    Reset (fw_upg_finish_ex fw_keyhash crc_expect check_crc u).2 ↔ ¬ Residue u := by
  by_cases open_ : u.s.active = true
  · obtain ⟨failed, written, page⟩ := @fw_upg_finish_open fw_keyhash u crc_expect check_crc open_
    have closed := fw_upg_finish_ex_closed fw_keyhash crc_expect check_crc u
    constructor
    · rintro reset ⟨_, broken, some_⟩
      rw [if_pos broken] at page
      exact some_ (page.symm.trans (reset.idle closed).2.2)
    · intro clean
      refine Idle.reset (fun _ => ⟨failed, written, page.trans ?_⟩) closed
      split
      · rename_i broken
        exact Classical.byContradiction fun some_ => clean ⟨open_, broken, some_⟩
      · rfl
  · have closed : u.s.active = false := Bool.not_eq_true _ ▸ open_
    rw [fw_upg_finish_ex_idle closed]
    exact ⟨fun _ residue => open_ residue.1, fun _ => idle.reset closed⟩

/-- What is asked of the state before a call: it does not finish a session that has failed with
    bytes in its buffer. -/
def Clean (u : Upg) (op : Op) : Prop := op.Finishes → ¬ Residue u

/-- What an abort and a finish do: afterwards there is no session, and nothing left of one. -/
def Resets (fw_keyhash : List UInt8) (u : Upg) (op : Op) : Prop := op.Ends → Reset (step fw_keyhash u op)

theorem clean_iff_resets (op : Op) (idle : Idle u) : Clean u op ↔ Resets fw_keyhash u op := by
  unfold Clean Resets Op.Ends
  cases op with
  | start total keyhash => simp [Op.Finishes]
  | write data => simp [Op.Finishes]
  | finish crc_expect => simpa [Op.Finishes, step, fw_upg_finish] using (fw_upg_finish_reset crc_expect true idle).symm
  | finish_ex crc_expect check_crc =>
    simpa [Op.Finishes, step] using (fw_upg_finish_reset crc_expect check_crc idle).symm
  | abort => simpa [Op.Finishes, step] using fw_upg_abort_reset u

theorem fw_upg_start_idle (total : Nat) (keyhash : Option (List UInt8)) (idle : Idle u) :
    Idle (fw_upg_start fw_keyhash total keyhash u).2 := by
  by_cases admitted : Admitted fw_keyhash total keyhash u
  · rw [fw_upg_start_admitted admitted]
    split
    · exact idle
    · exact nofun
  · rw [(fw_upg_start_refused admitted).2]
    exact idle

theorem fw_upg_write_keeps_idle (data : List UInt8) (idle : Idle u) : Idle (fw_upg_write data u).2 := by
  by_cases closed : u.s.active = false
  · rw [fw_upg_write_idle closed]
    exact idle
  · have open_ : u.s.active = true := by simpa using closed
    have stays : (fw_upg_write data u).2.s.active = true := by
      have loop := (write_loop_received data u).2.1
      unfold fw_upg_write
      split_ifs
      · exact open_
      · exact open_
      · exact open_
      · split <;> rename_i ran <;> rw [ran] at loop
        · exact loop.trans open_
        · exact loop.trans open_
    intro now
    rw [stays] at now
    cases now

theorem step_idle (op : Op) (idle : Idle u) (clean : Clean u op) : Idle (step fw_keyhash u op) := by
  cases op with
  | start total keyhash => exact fw_upg_start_idle total keyhash idle
  | write data => exact fw_upg_write_keeps_idle data idle
  | finish crc_expect => exact ((clean_iff_resets _ idle).mp clean (.inl trivial)).idle
  | finish_ex crc_expect check_crc => exact ((clean_iff_resets _ idle).mp clean (.inl trivial)).idle
  | abort => exact (fw_upg_abort_reset u).idle

/-- Without a session, and with nothing left of one, the replies to data say that nothing was received. -/
theorem data_reply_zero (boot_set_pending : Bool → Dev → Bool × Dev) (m : FwMsg)
    (data : m.cmd = .DATA ∨ m.cmd = .DATA_V2) (idle : Idle u) (closed : u.s.active = false) :
    ((fw_task m).run (exec fw_keyhash boot_set_pending) u).1.buf.tail = io_put_le32 0 := by
  have received := (idle.reset closed).received
  obtain ⟨cmd, peer, body⟩ := m
  rcases data with rfl | rfl
  · simp only [fw_task, ↓run_bind, ↓run_once, ↓run_pure, exec, fw_upg_write_idle closed, received, List.tail_cons]
  · have still : ((data_v2 body).run (exec fw_keyhash boot_set_pending) u).2 = u := by
      simp only [data_v2, ↓run_ite, ↓run_bind, ↓run_once, ↓run_pure, exec, fw_upg_write_idle closed, ite_self]
    simp only [fw_task, ↓run_bind, ↓run_once, ↓run_pure, still, exec, received, List.tail_cons]

end

/-- The device before the first call. -/
def boot (d : Dev) : Upg := ⟨Session.zero, d⟩

theorem boot_idle (d : Dev) : Idle (boot d) := fun _ => ⟨rfl, rfl, rfl⟩

/-- In every history of calls, with any arguments and on any flash: each abort and each finish resets the
    session just when no finish comes upon a session that has failed with bytes in its buffer, and then
    data that comes without a session is always answered with offset 0. -/
theorem sessions_reset (fw_keyhash : List UInt8) (boot_set_pending : Bool → Dev → Bool × Dev) (d : Dev)
    (ops : List Op) :
    (Meets (step fw_keyhash) Clean (boot d) ops ↔ Meets (step fw_keyhash) (Resets fw_keyhash) (boot d) ops) ∧
      (Meets (step fw_keyhash) Clean (boot d) ops →
        ∀ before after, ops = before ++ after →
          let u := before.foldl (step fw_keyhash) (boot d)
          fw_upg_active u = false →
          ∀ m, m.cmd = .DATA ∨ m.cmd = .DATA_V2 →
            ((fw_task m).run (exec fw_keyhash boot_set_pending) u).1.buf.tail = io_put_le32 0) := by
  have keep : ∀ u op, Idle u → Clean u op → Idle (step fw_keyhash u op) := fun _ op => step_idle op
  have same : ∀ u op, Idle u → (Clean u op ↔ Resets fw_keyhash u op) := fun _ op => clean_iff_resets op
  refine ⟨meets_iff keep same (boot_idle d), ?_⟩
  rintro clean before after rfl u closed m data
  have first := ((meets_append _ _ _ _ _).mp clean).1
  exact data_reply_zero boot_set_pending m data (invariant keep (boot_idle d) first) closed

/-- More data than was announced fails the session, and the buffer stays as it is. -/
theorem excess_residue {u : Upg} {got data : List UInt8} (acc : Accepted u got) (buffered : u.s.page ≠ [])
    (excess : u.s.total < (got.length + data.length) % 2^32) : Residue (fw_upg_write data u).2 := by
  have received : u.s.written + u.s.page.length = got.length := acc.received
  rw [fw_upg_write, if_neg (by simp [acc.active]), if_neg (by simp [acc.unfailed]), received, if_pos excess]
  exact ⟨acc.active, rfl, buffered⟩

/-- A session for 64 bytes that is given 3 of them, and then too many. -/
def overfed : List Op := [.start 64 none, .write [1, 2, 3], .write (List.replicate 62 0)]

theorem overfed_residue (m : Mem) : Residue (overfed.foldl (step []) (boot { mem := m })) := by
  have admitted : Admitted [] 64 none (boot { mem := m }) := ⟨rfl, by decide, by decide, nofun⟩
  obtain ⟨started, works⟩ := @fw_upg_start_working (boot { mem := m }) [] 64 none ⟨rfl, rfl⟩ admitted
  obtain ⟨empty, total⟩ := fw_upg_start_accepted started
  obtain ⟨total', _, ⟨_, taken⟩ | ⟨refused, _⟩⟩ := @fw_upg_write_accepted _ [] [1, 2, 3] empty (by decide)
  · have buffered : (fw_upg_write [1, 2, 3] (fw_upg_start [] 64 none (boot { mem := m })).2).2.s.page ≠ [] := by
      intro none_
      have stored := congrArg List.length taken.stored
      have aligned := taken.aligned
      rw [none_, List.append_nil, bytesAt_length] at stored
      rw [stored] at aligned
      cases aligned
    have excess : (fw_upg_write [1, 2, 3] (fw_upg_start [] 64 none (boot { mem := m })).2).2.s.total <
        (([] ++ [1, 2, 3] : List UInt8).length + (List.replicate 62 (0 : UInt8)).length) % 2^32 := by
      rw [total', total]
      decide
    exact excess_residue taken buffered excess
  · exact absurd (fw_upg_write_working works empty (by rw [total]; decide)).1 refused

/-- Finished after that, the session is over and still says that it has received 3 bytes. -/
theorem finish_leaves_residue :
    ¬ ∀ (fw_keyhash : List UInt8) (d : Dev) (ops : List Op),
      Meets (step fw_keyhash) (Resets fw_keyhash) (boot d) ops := by
  intro always
  have resets := always [] { mem := fun _ => 0xFF } (overfed ++ [.finish 0])
  have residue := overfed_residue fun _ => 0xFF
  have idle : Idle (overfed.foldl (step []) (boot { mem := fun _ => 0xFF })) := by
    intro closed
    rw [residue.1] at closed
    cases closed
  rw [meets_append] at resets
  have reset := resets.2.1 (.inl trivial)
  exact (fw_upg_finish_reset 0 true idle).mp reset residue

end IoEdgeHub.SessionEnds
