import IoEdgeHub.FtpPaths

/-!
The restart position of an FTP session. `REST` sets it for the next transfer. A transfer
that runs takes it away, but one that is refused leaves it in place, and so does an upload
whose file cannot be opened: the position then strikes a later transfer.
-/
namespace IoEdgeHub.FtpRest
open IoEdgeHub.Calls IoEdgeHub.CStrings IoEdgeHub.Ftpd IoEdgeHub.FtpAuth IoEdgeHub.FtpCommands IoEdgeHub.FtpPaths
  IoEdgeHub.Machine

/-- The offset that is meant for the next transfer after a line. -/
def next_offset (offset : Nat) (line : List UInt8) : Nat :=
  match cmd_of line with
  | some .REST => strtoul_value (arg_of line)
  | some .RETR | some .STOR | some .APPE => 0
  | _ => offset

/-- A transfer starts at the offset that is meant for it, without one at the start of the file,
    and an upload then empties the old file. -/
def StartsRight (fuel : Nat) (s : Session) (offset : Nat) (line : List UInt8) : Prop :=
  (handle_command fuel s line).All (StartsAt offset)

theorem core_rest {s s' : Session} (same : core s' = core s) : s'.rest = s.rest :=
  have fields : (core s').rest = (core s).rest := congrArg Session.rest same
  fields

section
variable {ω : Type} (exec : ∀ {β : Type}, Call β → ω → β × ω) (fuel : Nat)

/-- Whether the file of an upload can be opened. -/
def opens (s : Session) (w : ω) (line : List UInt8) (is_appe : Bool) : Bool :=
  ((mounted none (.lfs_file_open (fs_path s.cwd (arg_of line))
    (.LFS_O_WRONLY true is_appe (!is_appe && s.rest == 0)))).run @exec w).1.isSome

/-- An upload is allowed and its file opens. -/
def Stores (s : Session) (w : ω) (line : List UInt8) (is_appe : Bool) : Prop :=
  s.authed = true ∧ s.anon = false ∧ opens @exec s w line is_appe = true

/-- No transfer with an offset is refused, nor does the file of an upload with one fail to open. -/
def Clears (s : Session) (w : ω) (line : List UInt8) : Prop :=
  s.rest = 0 ∨ (cmd_of line = some .RETR → s.authed = true) ∧ (cmd_of line = some .STOR → Stores @exec s w line false) ∧
    (cmd_of line = some .APPE → Stores @exec s w line true)

instance (s : Session) (w : ω) (line : List UInt8) (is_appe : Bool) : Decidable (Stores @exec s w line is_appe) :=
  inferInstanceAs (Decidable (_ ∧ _ ∧ _))

instance (s : Session) (w : ω) (line : List UInt8) : Decidable (Clears @exec s w line) :=
  inferInstanceAs (Decidable (_ ∨ (_ → _) ∧ (_ → _) ∧ (_ → _)))

/-- One line handled, and the offset meant for the next transfer after it. -/
def rest_step (st : (Session × ω) × Nat) (line : List UInt8) : (Session × ω) × Nat :=
  (step @exec fuel st.1 line, next_offset st.2 line)

variable {exec fuel}

theorem open_stor_isSome {s : Session} {w : ω} {line : List UInt8} {is_appe : Bool} :
    ((open_stor (fs_path s.cwd (arg_of line)) s.rest is_appe).run @exec w).1.isSome = opens @exec s w line is_appe := by
  unfold open_stor opens
  rw [run_bind]
  cases ((mounted none (.lfs_file_open (fs_path s.cwd (arg_of line))
    (.LFS_O_WRONLY true is_appe (!is_appe && s.rest == 0)))).run @exec w).1 with
  | none => rfl
  | some fp =>
    simp only [run_ite, run_bind, run_pure]
    split
    · rfl
    · split <;> rfl

/-- A refused upload changes the data connection only. -/
theorem refused_rest {s : Session} {w : ω} (msg : String) :
    ((do ftp_send s.ctrl msg; drop_data_listen s : Prog Call Session).run @exec w).1.rest = s.rest := by
  have kept : (do ftp_send s.ctrl msg; drop_data_listen s : Prog Call Session).Wp (fun _ => True)
      fun s' => core s' = core s :=
    wp_bind.mpr (wp_ftp_send (fun _ _ => trivial) (core_drop_data_listen (fun _ => trivial) rfl))
  exact core_rest (run_wp kept w)

theorem store_to_rest {s : Session} {w : ω} {fp : Nat} : ((store_to fuel s fp).run @exec w).1.rest = 0 := by
  have cleared : (store_to fuel s fp).Wp (fun _ => True) fun s' => ∃ pending_cr, core s' = core { s with rest := 0, pending_cr } :=
    core_store_to (fun _ => trivial) (fun _ _ => trivial)
  obtain ⟨pending_cr, same⟩ := run_wp cleared w
  exact core_rest same

/-- An upload takes the offset away when it is allowed and its file opens, and only then. -/
theorem cmd_stor_rest {s : Session} {w : ω} {line : List UInt8} {is_appe : Bool} :
    ((cmd_stor fuel s (arg_of line) is_appe).run @exec w).1.rest = if Stores @exec s w line is_appe then 0 else s.rest := by
  by_cases refused : ¬ s.authed ∨ s.anon
  · have other : ¬ Stores @exec s w line is_appe := by
      rintro ⟨authed, anon, -⟩
      simp [authed, anon] at refused
    rw [if_neg other, cmd_stor, if_pos refused]
    exact refused_rest _
  · have full : s.authed = true ∧ s.anon = false := by simpa using refused
    have same := @open_stor_isSome _ @exec s w line is_appe
    rw [cmd_stor, if_neg refused, run_bind]
    generalize (open_stor (fs_path s.cwd (arg_of line)) s.rest is_appe).run @exec w = opened at same
    obtain ⟨file, w'⟩ := opened
    cases file with
    | none =>
      have other : ¬ Stores @exec s w line is_appe := by
        rintro ⟨-, -, found⟩
        rw [← same] at found
        cases found
      rw [if_neg other]
      exact refused_rest _
    | some fp =>
      rw [if_pos ⟨full.1, full.2, same.symm⟩]
      exact @store_to_rest _ @exec fuel s w' fp

theorem settled_rest (s : Session) (line : List UInt8) :
    (settled s line).rest = if cmd_of line = some .REST then strtoul_value (arg_of line)
      else if cmd_of line = some .RETR ∧ s.authed = true then 0 else s.rest := by
  unfold settled
  rcases cmd_of line with - | cmd
  · rfl
  cases cmd with
  | RETR => by_cases authed : s.authed = true <;> simp [authed]
  | _ => rfl

/-- One line, unless it leaves an offset behind. -/
theorem step_rest {st : Session × ω} {line : List UInt8} (clears : Clears @exec st.1 st.2 line) :
    (step @exec fuel st line).1.rest = next_offset st.1.rest line := by
  obtain ⟨s, w⟩ := st
  have upload {is_appe : Bool} (stores : s.rest = 0 ∨ Stores @exec s w line is_appe) :
      ((cmd_stor fuel s (arg_of line) is_appe).run @exec w).1.rest = 0 := by
    rw [cmd_stor_rest]
    rcases stores with zero | stores
    · split
      · rfl
      · exact zero
    · exact if_pos stores
  by_cases stor : cmd_of line = some .STOR
  · have run : (step @exec fuel (s, w) line).1 = ((cmd_stor fuel s (arg_of line) false).run @exec w).1 := by
      unfold step handle_command
      rw [stor]
    rw [run, next_offset, stor]
    exact upload (clears.imp id fun all => all.2.1 stor)
  by_cases appe : cmd_of line = some .APPE
  · have run : (step @exec fuel (s, w) line).1 = ((cmd_stor fuel s (arg_of line) true).run @exec w).1 := by
      unfold step handle_command
      rw [appe]
    rw [run, next_offset, appe]
    exact upload (clears.imp id fun all => all.2.2 appe)
  rcases @step_after _ @exec fuel (s, w) line with same | ⟨rnfr, same⟩ | ⟨command, -⟩
  · rw [core_rest same, settled_rest]
    by_cases set : cmd_of line = some .REST
    · rw [if_pos set, next_offset, set]
    rw [if_neg set]
    by_cases retr : cmd_of line = some .RETR
    · rw [next_offset, retr]
      rcases clears with zero | ⟨download, -⟩
      · simp only [true_and]
        split
        · rfl
        · exact zero
      · rw [if_pos ⟨rfl, download retr⟩]
    · rw [if_neg fun both => retr both.1]
      unfold next_offset
      split <;> first | rfl | contradiction
  · rw [core_rest same, next_offset, rnfr]
    rfl
  · exact absurd command (not_or.mpr ⟨stor, appe⟩)

theorem starts_right {s : Session} {line : List UInt8} : StartsRight fuel s s.rest line :=
  all_of_wp (wp_mono (fun _ makes => makes.starts) (fun _ kept => kept) (handle_command_makes fuel s line))

end

/-- In every run of a session in which no transfer with an offset is refused and no upload with
    one fails to open its file, whatever else the calls return, an offset set by `REST` is used
    by the next transfer alone. -/
theorem offset_used_once {ω : Type} (exec : ∀ {β : Type}, Call β → ω → β × ω) (w : ω) (fuel : Nat) (c : Int)
    (lines : List (List UInt8))
    (clears : Meets (rest_step @exec fuel) (fun st line => Clears @exec st.1.1 st.1.2 line) ((accepted c, w), 0) lines) :
    Meets (rest_step @exec fuel) (fun st line => StartsRight fuel st.1.1 st.2 line) ((accepted c, w), 0) lines := by
  refine @meets_good _ _ (rest_step @exec fuel) _ _ (fun st => st.1.1.rest = st.2) ?_ ?_ _ rfl lines clears
  · intro st line same clears
    rw [rest_step, ← same]
    exact step_rest clears
  · intro st line same _
    rw [← same]
    exact starts_right

/-- A download with an offset, and an upload after it. -/
theorem download_then_upload : Meets (rest_step (world_exec @idle_sock @flat_fs) 0)
    (fun st line => StartsRight 0 st.1.1 st.2 line) ((accepted 3, { net := (), files := [] }), 0)
    [ascii "USER admin", ascii "PASS admin", ascii "REST 5", ascii "RETR a", ascii "STOR b"] :=
  offset_used_once (world_exec @idle_sock @flat_fs) _ 0 3 _ (by decide)

theorem stor_truncates {fuel : Nat} {s : Session} {offset : Nat} {line : List UInt8} (command : cmd_of line = some .STOR)
    (full : s.authed = true ∧ s.anon = false) (right : StartsRight fuel s offset line) : (s.rest == 0) = (offset == 0) := by
  have stores : handle_command fuel s line = cmd_stor fuel s (arg_of line) false := by
    unfold handle_command
    rw [command]
  rw [StartsRight, stores, cmd_stor, if_neg (by simp [full])] at right
  have opened := (right.2 true).1
  exact opened

/-- An upload that was refused leaves its offset to the next one, which keeps the old file. -/
theorem refused_upload_leaves_offset : ¬ ∀ lines, Meets (rest_step (world_exec @idle_sock @flat_fs) 0)
    (fun st line => StartsRight 0 st.1.1 st.2 line) ((accepted 3, { net := (), files := [] }), 0) lines := by
  intro claim
  obtain ⟨-, -, -, -, right, -⟩ :=
    claim [ascii "REST 5", ascii "STOR a", ascii "USER admin", ascii "PASS admin", ascii "STOR b"]
  have same := stor_truncates (by decide) (by decide) right
  revert same
  decide

end IoEdgeHub.FtpRest
