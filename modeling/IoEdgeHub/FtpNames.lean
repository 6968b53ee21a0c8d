import IoEdgeHub.FtpPaths

/-!
Which file a command of the FTP server acts on. Beside a session runs what the client has
named: the directory that its `CWD` and `CDUP` lead to, and the file that the last
successful `RNFR` named, both without limits. As long as no limit is exceeded the paths
that the server uses are the named ones.
-/
namespace IoEdgeHub.FtpNames
open IoEdgeHub.Calls IoEdgeHub.CStrings IoEdgeHub.Ftpd IoEdgeHub.FtpAuth IoEdgeHub.FtpCommands IoEdgeHub.FtpPaths
  IoEdgeHub.Machine IoEdgeHub.PathNames

/-- What a text names in a directory. -/
abbrev resolved (dir : List (List UInt8)) (text : List UInt8) : List (List UInt8) :=
  resolve slash (ascii ".") (ascii "..") dir text

/-- From `dir` on no name is too long, and there are never more than 16 levels. -/
def Shallow : List (List UInt8) → List (List UInt8) → Prop
  | _, [] => True
  | dir, name :: more =>
    name.length ≤ 47 ∧ (go (ascii ".") (ascii "..") dir name).length ≤ 16 ∧ Shallow (go (ascii ".") (ascii "..") dir name) more

instance decidableShallow : ∀ dir names, Decidable (Shallow dir names)
  | _, [] => isTrue trivial
  | dir, name :: more =>
    @instDecidableAnd _ _ _ (@instDecidableAnd _ _ _ (decidableShallow (go (ascii ".") (ascii "..") dir name) more))

/-- A text that can be resolved in `dir` without exceeding a limit, to a path of at most `limit` characters. -/
structure Fits (limit : Nat) (dir : List (List UInt8)) (text : List UInt8) : Prop where
  scratch : (if text.head? = some slash then [] else path_text slash dir).length + 1 + text.length ≤ 159
  names : Shallow (if text.head? = some slash then [] else dir) (parts slash text)
  room : (path_text slash (resolved dir text)).length ≤ limit

instance (limit : Nat) (dir : List (List UInt8)) (text : List UInt8) : Decidable (Fits limit dir text) :=
  decidable_of_iff (_ ∧ _ ∧ _) ⟨fun all => ⟨all.1, all.2.1, all.2.2⟩, fun fits => ⟨fits.scratch, fits.names, fits.room⟩⟩

/-- A directory that the session can keep. -/
structure Sound (dir : List (List UInt8)) : Prop where
  proper : ∀ name ∈ dir, Name name
  short : ∀ name ∈ dir, name.length ≤ 47
  levels : dir.length ≤ 16
  room : (path_text slash dir).length ≤ 62

theorem path_part_go {dir : List (List UInt8)} {name : List UInt8} (short : name.length ≤ 47)
    (levels : (go (ascii ".") (ascii "..") dir name).length ≤ 16) :
    path_part dir name = go (ascii ".") (ascii "..") dir name := by
  unfold path_part
  unfold go at levels ⊢
  split
  · rfl
  rename_i not_here
  rw [if_neg not_here] at levels
  split
  · rfl
  rename_i not_up
  rw [if_neg not_up, List.length_append, List.length_singleton] at levels
  rw [if_pos (by omega), List.take_of_length_le short]

theorem foldl_path_part_go {dir names : List (List UInt8)} (shallow : Shallow dir names) :
    names.foldl path_part dir = names.foldl (go (ascii ".") (ascii "..")) dir := by
  induction names generalizing dir with
  | nil => rfl
  | cons name more ih =>
    obtain ⟨short, levels, later⟩ := shallow
    rw [List.foldl_cons, List.foldl_cons, path_part_go short levels]
    exact ih later

/-- The names of a directory are pushed one after the other. -/
theorem foldl_path_part_dir {before dir : List (List UInt8)} (proper : ∀ name ∈ dir, Name name)
    (short : ∀ name ∈ dir, name.length ≤ 47) (levels : before.length + dir.length ≤ 16) :
    dir.foldl path_part before = before ++ dir := by
  induction dir generalizing before with
  | nil => simp
  | cons name more ih =>
    have here := proper name (by simp)
    have push : path_part before name = before ++ [name] := by
      rw [path_part, if_neg here.not_here, if_neg here.not_up, if_pos (by simp at levels; omega),
        List.take_of_length_le (short name (by simp))]
    rw [List.foldl_cons, push, ih (fun other member => proper other (by simp [member]))
      (fun other member => short other (by simp [member])) (by simp at levels ⊢; omega), List.append_assoc]
    rfl

theorem foldl_go_kept {dir names : List (List UInt8)} (short : ∀ name ∈ dir, name.length ≤ 47) (levels : dir.length ≤ 16)
    (shallow : Shallow dir names) :
    (∀ name ∈ names.foldl (go (ascii ".") (ascii "..")) dir, name.length ≤ 47) ∧
      (names.foldl (go (ascii ".") (ascii "..")) dir).length ≤ 16 := by
  induction names generalizing dir with
  | nil => exact ⟨short, levels⟩
  | cons name more ih =>
    obtain ⟨name_short, levels', later⟩ := shallow
    refine ih ?_ levels' later
    intro other member
    unfold go at member
    split at member
    · exact short other member
    split at member
    · exact short other ((List.dropLast_sublist dir).mem member)
    · rcases List.mem_append.mp member with old | new
      · exact short other old
      · rw [List.mem_singleton.mp new]
        exact name_short

theorem resolved_sound {dir : List (List UInt8)} {text : List UInt8} (sound : Sound dir) (fits : Fits 62 dir text) :
    Sound (resolved dir text) := by
  have kept : (∀ name ∈ resolved dir text, name.length ≤ 47) ∧ (resolved dir text).length ≤ 16 := by
    refine foldl_go_kept ?_ ?_ fits.names
    · split
      · simp
      · exact sound.short
    · split
      · exact Nat.zero_le 16
      · exact sound.levels
  exact ⟨resolve_proper sound.proper, kept.1, kept.2, fits.room⟩

/-- Within the limits the stack holds the names of the resolved path. -/
theorem stack_resolved {limit : Nat} {dir : List (List UInt8)} {text : List UInt8} (sound : Sound dir)
    (fits : Fits limit dir text) : stack (path_text slash dir) text = resolved dir text := by
  obtain ⟨scratch, names, -⟩ := fits
  unfold stack resolved resolve clip
  rw [List.take_of_length_le (by simp only [List.length_append, List.length_singleton]; omega)]
  by_cases absolute : text.head? = some slash
  · rw [if_pos absolute] at names
    rw [if_pos absolute, if_pos absolute, List.nil_append, List.singleton_append, parts_sep]
    exact foldl_path_part_go names
  · rw [if_neg absolute] at names
    have pushed : dir.foldl path_part [] = dir :=
      foldl_path_part_dir sound.proper sound.short (by simpa using sound.levels)
    rw [if_neg absolute, if_neg absolute, List.append_assoc, List.singleton_append, parts_append,
      parts_path_text fun name member => ⟨(sound.proper name member).filled, (sound.proper name member).free⟩,
      List.foldl_append, pushed]
    exact foldl_path_part_go names

/-- Within the limits the result is the path that was named. -/
theorem norm_path_resolved {outlen limit : Nat} {dir : List (List UInt8)} {text : List UInt8} (sound : Sound dir)
    (fits : Fits limit dir text) (enough : limit + 1 < outlen) :
    norm_path outlen (path_text slash dir) text = path_text slash (resolved dir text) := by
  have room := fits.room
  have length : ([slash] ++ (resolved dir text).flatMap (· ++ [slash])).length < outlen := by
    have closed := congrArg List.length (closed_text (resolved dir text))
    split at closed
    · rw [List.length_dropLast] at closed
      omega
    · omega
  rw [norm_path_eq, stack_resolved sound fits, put_parts_all length]
  exact closed_text _

theorem path_above {dir : List (List UInt8)} : (path_text slash dir.dropLast).length ≤ (path_text slash dir).length := by
  rcases List.eq_nil_or_concat dir with rfl | ⟨first, name, rfl⟩
  · rfl
  · rw [List.concat_eq_append, List.dropLast_concat]
    cases first with
    | nil => simp [path_text]
    | cons other more =>
      rw [path_text_cons, List.cons_append, path_text_cons, ← List.cons_append, List.flatMap_append, List.length_append]
      exact Nat.le_add_right _ _

/-- The way up is always within the limits. -/
theorem up_fits {dir : List (List UInt8)} (sound : Sound dir) : Fits 62 dir (ascii "..") := by
  have relative : (ascii "..").head? ≠ some slash := by decide
  have one : parts slash (ascii "..") = [ascii ".."] := by decide
  have above : go (ascii ".") (ascii "..") dir (ascii "..") = dir.dropLast := by
    rw [go, if_neg (by decide), if_pos rfl]
  have room := sound.room
  have levels := sound.levels
  have fewer : dir.dropLast.length ≤ 16 := by
    rw [List.length_dropLast]
    omega
  refine ⟨?_, ?_, ?_⟩
  · rw [if_neg relative, show (ascii "..").length = 2 from by decide]
    omega
  · rw [if_neg relative, one]
    exact ⟨by decide, by rwa [above], trivial⟩
  · rw [resolved, resolve, if_neg relative, one, List.foldl_cons, List.foldl_nil, above]
    exact path_above.trans room

/-- The current directory, and the file that the last successful `RNFR` named. -/
structure Names where
  dir : List (List UInt8) := []
  source : List (List UInt8) := []
deriving DecidableEq

/-- The path that the argument of a line names. -/
def named_path (names : Names) (line : List UInt8) : List UInt8 := path_text slash (resolved names.dir (arg_of line))

/-- The paths that a line names. -/
def named_operands (names : Names) (line : List UInt8) : List (List UInt8) :=
  if cmd_of line = some .RNTO then [path_text slash names.source, named_path names line] else [named_path names line]

def Lists (cmd : Option Cmd) : Prop := cmd = some .LIST ∨ cmd = some .NLST

instance (cmd : Option Cmd) : Decidable (Lists cmd) := instDecidableOr

/-- How long the path of a command may become. -/
def limit : Option Cmd → Nat
  | some .CWD => 62
  | some .RNFR => 127
  | _ => 510

/-- No limit is exceeded by a line that changes the current directory or acts on a file. -/
def Within (s : Session) (names : Names) (line : List UInt8) : Prop :=
  cmd_of line = some .CWD ∨ acts s (cmd_of line) = true ∧ ¬ Lists (cmd_of line) →
    Fits (limit (cmd_of line)) names.dir (arg_of line)

instance (s : Session) (names : Names) (line : List UInt8) : Decidable (Within s names line) :=
  inferInstanceAs (Decidable (_ → _))

/-- Every call of a line that names a file names what the client has named; listings apart. -/
def ActsOnNamed (fuel : Nat) (s : Session) (names : Names) (line : List UInt8) : Prop :=
  ¬ Lists (cmd_of line) → (handle_command fuel s line).All fun c => paths c = [] ∨ paths c = named_operands names line

/-- The session keeps what the client has named. -/
structure Tracks (s : Session) (names : Names) : Prop where
  cwd : s.cwd = path_text slash names.dir
  sound : Sound names.dir
  source : s.rename_pending = true → s.rename_from = path_text slash names.source

section
variable {s : Session} {names : Names} {line : List UInt8}

theorem fs_path_named (tracks : Tracks s names) {most : Nat} (fits : Fits most names.dir (arg_of line)) (few : most ≤ 510) :
    fs_path s.cwd (arg_of line) = named_path names line := by
  rw [tracks.cwd]
  exact norm_path_resolved tracks.sound fits (by simp only [FTP_BUF_SIZE]; omega)

theorem limit_few (cmd : Option Cmd) : limit cmd ≤ 510 := by
  unfold limit
  split <;> decide

theorem operands_named (tracks : Tracks s names) (fits : Fits (limit (cmd_of line)) names.dir (arg_of line))
    (acting : acts s (cmd_of line) = true) : operands s line = named_operands names line := by
  have own := fs_path_named tracks fits (limit_few _)
  unfold operands named_operands
  split
  · rename_i rename
    rw [rename] at acting
    have pending : s.rename_pending = true := by
      simp only [acts, Bool.and_eq_true] at acting
      exact acting.2
    rw [own, tracks.source pending]
  · rw [own]

/-- One line. -/
theorem acts_on_named {fuel : Nat} (tracks : Tracks s names) (within : Within s names line) :
    ActsOnNamed fuel s names line := by
  intro other
  refine all_of_wp (wp_mono (fun c makes => ?_) (fun _ kept => kept) (handle_command_makes fuel s line))
  rcases makes.uses with none_ | ⟨acting, same⟩
  · exact .inl none_
  · exact .inr (same.trans (operands_named tracks (within (.inr ⟨acting, other⟩)) acting))

/-- Only `RNFR` keeps a file to rename. -/
theorem after_source {s' : Session} (after : After s line s') (other : cmd_of line ≠ some .RNFR) :
    s'.rename_from = s.rename_from ∧ (s'.rename_pending = true → s.rename_pending = true) := by
  have fields {t : Session} (same : core s' = core t) : s'.rename_from = t.rename_from ∧ s'.rename_pending = t.rename_pending :=
    ⟨(congrArg Session.rename_from same : (core s').rename_from = (core t).rename_from),
      (congrArg Session.rename_pending same : (core s').rename_pending = (core t).rename_pending)⟩
  rcases after with same | ⟨command, -⟩ | ⟨-, rest, pending_cr, same⟩
  · obtain ⟨from_, pending⟩ := fields same
    rw [from_, pending]
    unfold settled
    rcases cmd_of line with - | cmd
    · exact ⟨rfl, id⟩
    cases cmd with
    | USER | RNTO => exact ⟨rfl, fun absurd_ => Bool.noConfusion absurd_⟩
    | RETR => by_cases authed : s.authed = true <;> simp [authed]
    | _ => exact ⟨rfl, id⟩
  · exact absurd command other
  · obtain ⟨from_, pending⟩ := fields same
    rw [from_, pending]
    exact ⟨rfl, id⟩

end

section
variable {ω : Type} (exec : ∀ {β : Type}, Call β → ω → β × ω) (fuel : Nat)

/-- Whether a session with a full login finds a file to rename. -/
def finds (s : Session) (w : ω) (path : List UInt8) : Bool :=
  s.authed && !s.anon && ((mounted none (.lfs_stat path)).run @exec w).1.isSome

/-- What the client has named after a line. -/
def name_step (s : Session) (w : ω) (names : Names) (line : List UInt8) : Names :=
  match cmd_of line with
  | some .CWD => { names with dir := resolved names.dir (arg_of line) }
  | some .CDUP => { names with dir := resolved names.dir (ascii "..") }
  | some .RNFR =>
    if finds @exec s w (named_path names line) then { names with source := resolved names.dir (arg_of line) } else names
  | _ => names

/-- One line handled, and what the client has named after it. -/
def named_step (st : (Session × ω) × Names) (line : List UInt8) : (Session × ω) × Names :=
  (step @exec fuel st.1 line, name_step @exec st.1.1 st.1.2 st.2 line)

variable {exec fuel}

theorem step_rnfr {st : Session × ω} {line : List UInt8} (command : cmd_of line = some .RNFR) :
    (step @exec fuel st line).1 =
      if finds @exec st.1 st.2 (fs_path st.1.cwd (arg_of line)) then with_source st.1 line else st.1 := by
  obtain ⟨s, w⟩ := st
  have answer (st : Option Info) (w : ω) : ((if st.isSome then (do
        ftp_send s.ctrl "350 Ready for RNTO"
        pure (with_source s line) : Prog Call Session)
      else say s "550 No such file").run @exec w).1 = if st.isSome = true then with_source s line else s := by
    rw [run_ite]
    split
    · rw [run_bind, run_pure]
    · rw [say, run_bind, run_pure]
  have run : (step @exec fuel (s, w) line).1 = ((cmd_rnfr s (arg_of line)).run @exec w).1 := by
    unfold step handle_command
    rw [command]
  rw [run]
  by_cases full : s.authed = true ∧ ¬ s.anon = true
  · have known : finds @exec s w (fs_path s.cwd (arg_of line)) =
        ((mounted none (.lfs_stat (fs_path s.cwd (arg_of line)))).run @exec w).1.isSome := by
      simp [finds, full]
    rw [cmd_rnfr, if_pos full, run_bind, known]
    exact answer _ _
  · have unknown : finds @exec s w (fs_path s.cwd (arg_of line)) = false := by
      rw [finds]
      cases authed : s.authed <;> cases anon : s.anon <;> simp_all
    rw [cmd_rnfr, if_neg full, run_bind, run_pure, unknown]
    exact answer none w

theorem step_source {st : (Session × ω) × Names} {line : List UInt8} (tracks : Tracks st.1.1 st.2)
    (within : Within st.1.1 st.2 line) :
    (step @exec fuel st.1 line).1.rename_pending = true →
      (step @exec fuel st.1 line).1.rename_from = path_text slash (name_step @exec st.1.1 st.1.2 st.2 line).source := by
  intro pending
  by_cases command : cmd_of line = some .RNFR
  · have names : name_step @exec st.1.1 st.1.2 st.2 line =
        if finds @exec st.1.1 st.1.2 (named_path st.2 line) then
          { st.2 with source := resolved st.2.dir (arg_of line) } else st.2 := by
      rw [name_step, command]
    rw [step_rnfr command] at pending ⊢
    rw [names]
    by_cases full : acts st.1.1 (cmd_of line) = true
    · have fits := within (.inr ⟨full, by rw [command]; decide⟩)
      have same := fs_path_named tracks fits (limit_few _)
      rw [same] at pending ⊢
      split
      · have room : (named_path st.2 line).length ≤ 127 := by
          have most := fits.room
          rwa [command] at most
        rw [with_source, same]
        exact List.take_of_length_le room
      · rename_i missing
        rw [if_neg missing] at pending
        exact tracks.source pending
    · have lost (path : List UInt8) : finds @exec st.1.1 st.1.2 path = false := by
        rw [command] at full
        rw [finds, show (st.1.1.authed && !st.1.1.anon) = false from Bool.eq_false_iff.mpr full, Bool.false_and]
      rw [lost] at pending ⊢
      rw [lost]
      exact tracks.source pending
  · obtain ⟨from_, before⟩ := after_source (step_after st.1 line) command
    have names : (name_step @exec st.1.1 st.1.2 st.2 line).source = st.2.source := by
      unfold name_step
      split
      · rfl
      · rfl
      · rename_i rnfr
        exact absurd rnfr command
      · rfl
    rw [from_, names]
    exact tracks.source (before pending)

theorem step_tracks {st : (Session × ω) × Names} {line : List UInt8} (tracks : Tracks st.1.1 st.2)
    (within : Within st.1.1 st.2 line) :
    Tracks (named_step @exec fuel st line).1.1 (named_step @exec fuel st line).2 := by
  have dir : (name_step @exec st.1.1 st.1.2 st.2 line).dir =
      if cmd_of line = some .CWD then resolved st.2.dir (arg_of line)
      else if cmd_of line = some .CDUP then resolved st.2.dir (ascii "..") else st.2.dir := by
    unfold name_step
    rcases cmd_of line with - | cmd
    · rfl
    cases cmd with
    | RNFR => by_cases found : finds @exec st.1.1 st.1.2 (named_path st.2 line) = true <;> simp [found]
    | _ => rfl
  have cwd := after_cwd (@step_after _ @exec fuel st.1 line)
  have kept : (step @exec fuel st.1 line).1.cwd = path_text slash (name_step @exec st.1.1 st.1.2 st.2 line).dir ∧
      Sound (name_step @exec st.1.1 st.1.2 st.2 line).dir := by
    rw [cwd, dir, tracks.cwd]
    by_cases change : cmd_of line = some .CWD
    · have fits : Fits 62 st.2.dir (arg_of line) := by
        have most := within (.inl change)
        rwa [change] at most
      rw [if_pos change, if_pos change]
      exact ⟨norm_path_resolved tracks.sound fits (by decide), resolved_sound tracks.sound fits⟩
    rw [if_neg change, if_neg change]
    by_cases up : cmd_of line = some .CDUP
    · have fits := up_fits tracks.sound
      rw [if_pos up, if_pos up]
      exact ⟨norm_path_resolved tracks.sound fits (by decide), resolved_sound tracks.sound fits⟩
    · rw [if_neg up, if_neg up]
      exact ⟨rfl, tracks.sound⟩
  exact ⟨kept.1, kept.2, step_source tracks within⟩

theorem accepted_tracks (c : Int) : Tracks (accepted c) {} := by
  refine ⟨?_, ⟨by simp, by simp, by simp, by decide⟩, fun pending => Bool.noConfusion pending⟩
  have root : ascii "/" = path_text slash [] := by decide
  exact root

end

/-- In every run of a session in which no line exceeds a limit, whatever its calls return, the
    commands act on the files that the client has named. -/
theorem acts_on_named_files {ω : Type} (exec : ∀ {β : Type}, Call β → ω → β × ω) (w : ω) (fuel : Nat) (c : Int)
    (lines : List (List UInt8))
    (within : Meets (named_step @exec fuel) (fun st line => Within st.1.1 st.2 line) ((accepted c, w), {}) lines) :
    Meets (named_step @exec fuel) (fun st line => ActsOnNamed fuel st.1.1 st.2 line) ((accepted c, w), {}) lines :=
  @meets_good _ _ (named_step @exec fuel) (fun st line => Within st.1.1 st.2 line)
    (fun st line => ActsOnNamed fuel st.1.1 st.2 line) (fun st => Tracks st.1.1 st.2)
    (fun _ _ tracks within => step_tracks tracks within) (fun _ _ tracks within => acts_on_named tracks within)
    ((accepted c, w), {}) (accepted_tracks c) lines within

/-- A file above the current directory is removed. -/
theorem removes_named_file : Meets (named_step (world_exec @idle_sock @flat_fs) 0)
    (fun st line => ActsOnNamed 0 st.1.1 st.2 line) ((accepted 3, { net := (), files := [(ascii "/b", [1])] }), {})
    [ascii "USER admin", ascii "PASS admin", ascii "CWD a", ascii "DELE ../b"] :=
  acts_on_named_files (world_exec @idle_sock @flat_fs) _ 0 3 _ (by decide)

theorem dele_path {fuel : Nat} {s : Session} {names : Names} {line : List UInt8} (command : cmd_of line = some .DELE)
    (full : s.authed = true ∧ s.anon = false) (named : ActsOnNamed fuel s names line) :
    fs_path s.cwd (arg_of line) = named_path names line := by
  have all := named (by rw [command]; decide)
  have removes : handle_command fuel s line = (do
      let rc ← mounted (-1) (.lfs_remove (fs_path s.cwd (arg_of line)))
      ftp_result s.ctrl rc "250 Delete OK" "550 Delete failed"
      pure s) := by
    unfold handle_command
    rw [command]
    simp only [privileged, full, Bool.false_eq_true, not_false_eq_true, and_self, if_true]
  rw [removes] at all
  have removed := (all.2 true).1
  rw [named_operands, command] at removed
  simpa [paths] using removed

/-- A name of 48 characters stands for the file of its first 47. -/
theorem long_name_cut : ¬ ∀ lines, Meets (named_step (world_exec @idle_sock @flat_fs) 0)
    (fun st line => ActsOnNamed 0 st.1.1 st.2 line) ((accepted 3, { net := (), files := [] }), {}) lines := by
  intro claim
  obtain ⟨-, -, named, -⟩ := claim [ascii "USER admin", ascii "PASS admin", ascii "DELE " ++ List.replicate 48 97]
  have same := dele_path (by decide) (by decide) named
  revert same
  decide

end IoEdgeHub.FtpNames
