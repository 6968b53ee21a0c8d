import IoEdgeHub.FtpAuth

/-!
What the commands of the FTP server call and what they leave alone. A session changes in
its data connection by whatever the sockets answer; what else a line makes of it follows
from the line, but for the few commands that depend on a file. The paths that a line
uses are the one its argument is turned into and, to rename, the one kept before.
-/
namespace IoEdgeHub.FtpCommands
open IoEdgeHub.Calls IoEdgeHub.CStrings IoEdgeHub.Ftpd IoEdgeHub.FtpAuth

/-- A session without its data connection. -/
def core (s : Session) : Session := { s with data_listen := -1, data_is_port := false, port_addr := {} }

/-- Calls on open files and directories, and those that name no file at all. -/
def OnOpen : ∀ {β : Type}, FsCall β → Prop
  | _, .history_sync => True
  | _, .history_fs => True
  | _, .lfs_dir_read _ => True
  | _, .lfs_dir_close _ => True
  | _, .lfs_file_size _ => True
  | _, .lfs_file_read .. => True
  | _, .lfs_file_write .. => True
  | _, .lfs_file_close _ => True
  | _, _ => False

/-- What an upload does once its file is open. -/
def store_to (fuel : Nat) (s : Session) (fp : Nat) : Prog Call Session := do
  ftp_send s.ctrl "150 Ok to send data"
  let (data, s) ← open_data s
  if data < 0 then do
    fs (.lfs_file_close fp)
    ftp_send s.ctrl "425 No data connection"
    pure { s with rest := 0 }
  else do
    let pending_cr ← receive_file s.type_ascii data fp fuel false
    fs (.lfs_file_close fp)
    sock (.lwip_close data)
    ftp_send s.ctrl "226 Transfer complete"
    pure { s with rest := 0, pending_cr }

section
variable {ok : ∀ {β : Type}, Call β → Prop} {s : Session}

-- sockets may be used, and so may files that are open
variable (socks : ∀ {β : Type} (c : SockCall β), ok (.sock c)) (on_open : ∀ {β : Type} (c : FsCall β), OnOpen c → ok (.fs c))

section
include socks

theorem core_drop_data_listen {s' : Session} (same : core s' = core s) :
    (drop_data_listen s').Wp @ok fun s'' => core s'' = core s := by
  rw [← same]
  simp [drop_data_listen, socks, core]

theorem core_data_listen_open : (data_listen_open s).Wp @ok fun r => core r.2 = core s := by
  simp [data_listen_open, socks, core]

theorem core_open_data : (open_data s).Wp @ok fun r => core r.2 = core s := by
  simp [open_data, socks, core]

theorem core_say {s' : Session} {msg : String} (same : core s' = core s) :
    (say s' msg).Wp @ok fun s'' => core s'' = core s :=
  wp_say (fun c _ => socks c) same

theorem core_cmd_pasv : (cmd_pasv s).Wp @ok fun s' => core s' = core s := by
  refine wp_bind.mpr (wp_mono (fun _ call => call) ?_ (core_data_listen_open @socks))
  rintro ⟨rc, s'⟩ same
  cases rc <;> simp [ftp_send, ftp_sendf, socks, same]

theorem core_cmd_epsv : (cmd_epsv s).Wp @ok fun s' => core s' = core s := by
  refine wp_bind.mpr (wp_mono (fun _ call => call) ?_ (core_data_listen_open @socks))
  rintro ⟨rc, s'⟩ same
  cases rc <;> simp [ftp_send, ftp_sendf, socks, same]

theorem core_set_port {peer : SockAddr} {msg : String} : (set_port s peer msg).Wp @ok fun s' => core s' = core s := by
  simp [set_port, ftp_send, socks, core]

theorem core_cmd_port {arg : List UInt8} : (cmd_port s arg).Wp @ok fun s' => core s' = core s := by
  unfold cmd_port
  split
  · exact core_say @socks rfl
  · exact core_set_port @socks

theorem core_cmd_eprt {arg : List UInt8} : (cmd_eprt s arg).Wp @ok fun s' => core s' = core s := by
  unfold cmd_eprt
  split
  · exact core_say @socks rfl
  · refine wp_bind.mpr (wp_sock.mpr ⟨socks _, fun addr => ?_⟩)
    cases addr with
    | none => exact core_say @socks rfl
    | some addr => exact core_set_port @socks

end

include socks on_open

theorem open_list_entries {long_fmt : Bool} {data : Int} {dir fuel : Nat} {post : Unit → Prop} (results : post ()) :
    (list_entries long_fmt data dir fuel).Wp @ok post := by
  have talk {β : Type} (c : SockCall β) (_ : ¬ OpensOrCloses c) : ok (.sock c) := socks c
  induction fuel with
  | zero => exact results
  | succ fuel ih =>
    refine wp_bind.mpr (wp_fs.mpr ⟨on_open _ trivial, fun entry => ?_⟩)
    cases entry with
    | none => exact results
    | some info =>
      refine wp_ite.mpr ⟨fun _ => ih, fun _ => wp_bind.mpr (wp_ls_line @talk fun line => wp_bind.mpr ?_)⟩
      exact wp_send_line @talk fun rc => wp_ite.mpr ⟨fun _ => results, fun _ => ih⟩

theorem open_send_file {type_ascii : Bool} {data : Int} {fp fuel : Nat} {post : Unit → Prop} (results : post ()) :
    (send_file type_ascii data fp fuel).Wp @ok post := by
  have talk {β : Type} (c : SockCall β) (_ : ¬ OpensOrCloses c) : ok (.sock c) := socks c
  induction fuel with
  | zero => exact results
  | succ fuel ih =>
    refine wp_bind.mpr (wp_mounted (on_open _ trivial) (on_open _ trivial) fun bytes => ?_)
    refine wp_ite.mpr ⟨fun _ => results, fun _ => wp_bind.mpr (wp_send_all @talk fun rc => ?_)⟩
    exact wp_ite.mpr ⟨fun _ => results, fun _ => ih⟩

theorem open_receive_file {type_ascii : Bool} {data : Int} {fp fuel : Nat} {pending_cr : Bool} {post : Bool → Prop}
    (results : ∀ pending_cr, post pending_cr) : (receive_file type_ascii data fp fuel pending_cr).Wp @ok post := by
  induction fuel generalizing pending_cr with
  | zero => exact results _
  | succ fuel ih =>
    refine wp_bind.mpr (wp_sock.mpr ⟨socks _, fun piece => wp_ite.mpr ⟨fun _ => results _, fun _ => ?_⟩⟩)
    refine wp_ite.mpr ⟨fun _ => ih, fun _ => wp_bind.mpr ?_⟩
    exact wp_mounted (on_open _ trivial) (on_open _ trivial) fun wr => wp_ite.mpr ⟨fun _ => results _, fun _ => ih⟩

theorem core_cmd_list {fuel : Nat} {path : List UInt8} {long_fmt : Bool} (stat : ok (.fs (.lfs_stat (fs_path s.cwd path))))
    (dir_open : ok (.fs (.lfs_dir_open (fs_path s.cwd path)))) :
    (cmd_list fuel s path long_fmt).Wp @ok fun s' => core s' = core s := by
  have talk {β : Type} (c : SockCall β) (_ : ¬ OpensOrCloses c) : ok (.sock c) := socks c
  refine wp_bind.mpr (wp_mounted (on_open _ trivial) stat fun st => ?_)
  cases st with
  | none => exact wp_bind.mpr (wp_ftp_send @talk (core_drop_data_listen @socks rfl))
  | some st =>
    refine wp_bind.mpr (wp_mono (fun _ call => call) ?_ (core_open_data @socks))
    rintro ⟨data, s'⟩ same
    refine wp_ite.mpr ⟨fun _ => wp_bind.mpr (wp_ftp_send @talk same), fun _ => wp_ite.mpr ⟨fun _ => ?_, fun _ => ?_⟩⟩
    · refine wp_bind.mpr (wp_ftp_send @talk (wp_bind.mpr (wp_ls_line @talk fun line => wp_bind.mpr ?_)))
      refine wp_send_line @talk fun _ => wp_bind.mpr (wp_sock.mpr ⟨socks _, fun _ => ?_⟩)
      exact wp_bind.mpr (wp_ftp_send @talk same)
    · have finish : (do sock (.lwip_close data); ftp_send s'.ctrl "226 Directory send OK"; pure s' : Prog Call Session).Wp
          @ok fun s'' => core s'' = core s :=
        wp_bind.mpr (wp_sock.mpr ⟨socks _, fun _ => wp_bind.mpr (wp_ftp_send @talk same)⟩)
      refine wp_bind.mpr (wp_ftp_send @talk (wp_bind.mpr (wp_mounted (on_open _ trivial) dir_open fun dir => ?_)))
      cases dir with
      | none => exact wp_bind.mpr finish
      | some dir =>
        refine wp_bind.mpr (open_list_entries @socks @on_open (wp_bind.mpr ?_))
        exact wp_fs.mpr ⟨on_open _ trivial, fun _ => finish⟩

omit socks in
theorem wp_open_retr_calls {fspath : List UInt8} {rest : Nat} (opens : ok (.fs (.lfs_file_open fspath .LFS_O_RDONLY)))
    (seeks : ∀ fp, rest > 0 → ok (.fs (.lfs_file_seek fp (Int.bmod rest (2^32)) false))) {post : Option Nat → Prop}
    (results : ∀ r, post r) : (open_retr fspath rest).Wp @ok post := by
  refine wp_bind.mpr (wp_mounted (on_open _ trivial) opens fun fp => ?_)
  cases fp with
  | none => exact results none
  | some fp =>
    refine wp_bind.mpr (wp_fs.mpr ⟨on_open _ trivial, fun size => wp_ite.mpr ⟨fun _ => ?_, fun _ => wp_ite.mpr ⟨?_, ?_⟩⟩⟩)
    · exact wp_bind.mpr (wp_fs.mpr ⟨on_open _ trivial, fun _ => results none⟩)
    · intro restart
      refine wp_bind.mpr (wp_fs.mpr ⟨seeks fp restart, fun off => wp_ite.mpr ⟨fun _ => ?_, fun _ => results _⟩⟩)
      exact wp_bind.mpr (wp_fs.mpr ⟨on_open _ trivial, fun _ => results none⟩)
    · exact fun _ => results _

/-- A download leaves no restart position behind unless it is refused. -/
theorem core_cmd_retr {fuel : Nat} {path : List UInt8}
    (opens : s.authed = true → ok (.fs (.lfs_file_open (fs_path s.cwd path) .LFS_O_RDONLY)))
    (seeks : s.authed = true → ∀ fp, s.rest > 0 → ok (.fs (.lfs_file_seek fp (Int.bmod s.rest (2^32)) false))) :
    (cmd_retr fuel s path).Wp @ok fun s' => core s' = core (if s.authed then { s with rest := 0 } else s) := by
  have talk {β : Type} (c : SockCall β) (_ : ¬ OpensOrCloses c) : ok (.sock c) := socks c
  refine wp_ite.mpr ⟨fun out => ?_, fun logged_in => wp_bind.mpr ?_⟩
  · rw [if_neg out]
    exact wp_bind.mpr (wp_ftp_send @talk (core_drop_data_listen @socks rfl))
  have authed : s.authed = true := not_not.mp logged_in
  rw [if_pos authed]
  refine wp_open_retr_calls @on_open (opens authed) (seeks authed) fun opened => ?_
  have cleared {s' : Session} (same : core s' = core s) : core { s' with rest := 0 } = core { s with rest := 0 } :=
    congrArg (fun s => { s with rest := 0 }) same
  cases opened with
  | none => exact wp_bind.mpr (wp_ftp_send @talk (core_drop_data_listen @socks rfl))
  | some fp =>
    refine wp_bind.mpr (wp_ftp_send @talk (wp_bind.mpr (wp_mono (fun _ call => call) ?_ (core_open_data @socks))))
    rintro ⟨data, s'⟩ same
    refine wp_ite.mpr ⟨fun _ => ?_, fun _ => wp_bind.mpr (open_send_file @socks @on_open ?_)⟩
    · refine wp_bind.mpr (wp_fs.mpr ⟨on_open _ trivial, fun _ => wp_bind.mpr (wp_ftp_send @talk (cleared same))⟩)
    · refine wp_bind.mpr (wp_fs.mpr ⟨on_open _ trivial, fun _ => wp_bind.mpr (wp_sock.mpr ⟨socks _, fun _ => ?_⟩)⟩)
      exact wp_bind.mpr (wp_ftp_send @talk (cleared same))

omit socks in
theorem wp_open_stor_calls {fspath : List UInt8} {rest : Nat} {is_appe : Bool}
    (opens : ok (.fs (.lfs_file_open fspath (.LFS_O_WRONLY true is_appe (!is_appe && rest == 0)))))
    (to_end : ∀ fp, is_appe = true → ok (.fs (.lfs_file_seek fp 0 true)))
    (seeks : ∀ fp, is_appe = false → rest > 0 → ok (.fs (.lfs_file_seek fp (Int.bmod rest (2^32)) false)))
    {post : Option Nat → Prop} (results : ∀ r, post r) : (open_stor fspath rest is_appe).Wp @ok post := by
  refine wp_bind.mpr (wp_mounted (on_open _ trivial) opens fun fp => ?_)
  cases fp with
  | none => exact results none
  | some fp =>
    refine wp_ite.mpr ⟨fun append => ?_, fun overwrite => wp_ite.mpr ⟨fun restart => ?_, fun _ => results _⟩⟩
    · exact wp_bind.mpr (wp_fs.mpr ⟨to_end fp append, fun _ => results _⟩)
    · exact wp_bind.mpr (wp_fs.mpr ⟨seeks fp (by simpa using overwrite) restart, fun _ => results _⟩)

/-- An upload whose file is open leaves no restart position behind. -/
theorem core_store_to {fuel fp : Nat} :
    (store_to fuel s fp).Wp @ok fun s' => ∃ pending_cr, core s' = core { s with rest := 0, pending_cr } := by
  have talk {β : Type} (c : SockCall β) (_ : ¬ OpensOrCloses c) : ok (.sock c) := socks c
  refine wp_bind.mpr (wp_ftp_send @talk (wp_bind.mpr (wp_mono (fun _ call => call) ?_ (core_open_data @socks))))
  rintro ⟨data, s'⟩ same
  have cleared (pending_cr : Bool) : core { s' with rest := 0, pending_cr } = core { s with rest := 0, pending_cr } :=
    congrArg (fun s => { s with rest := 0, pending_cr }) same
  refine wp_ite.mpr ⟨fun _ => ?_, fun _ => wp_bind.mpr (open_receive_file @socks @on_open fun pending_cr => ?_)⟩
  · refine wp_bind.mpr (wp_fs.mpr ⟨on_open _ trivial, fun _ => wp_bind.mpr (wp_ftp_send @talk ?_)⟩)
    exact ⟨s'.pending_cr, cleared s'.pending_cr⟩
  · refine wp_bind.mpr (wp_fs.mpr ⟨on_open _ trivial, fun _ => wp_bind.mpr (wp_sock.mpr ⟨socks _, fun _ => ?_⟩)⟩)
    exact wp_bind.mpr (wp_ftp_send @talk ⟨pending_cr, cleared pending_cr⟩)

/-- Beside the restart position and the flag of the text conversion an upload changes nothing. -/
theorem core_cmd_stor {fuel : Nat} {path : List UInt8} {is_appe : Bool}
    (opens : s.authed = true ∧ s.anon = false →
      ok (.fs (.lfs_file_open (fs_path s.cwd path) (.LFS_O_WRONLY true is_appe (!is_appe && s.rest == 0)))))
    (to_end : s.authed = true ∧ s.anon = false → ∀ fp, is_appe = true → ok (.fs (.lfs_file_seek fp 0 true)))
    (seeks : s.authed = true ∧ s.anon = false → ∀ fp, is_appe = false → s.rest > 0 →
      ok (.fs (.lfs_file_seek fp (Int.bmod s.rest (2^32)) false))) :
    (cmd_stor fuel s path is_appe).Wp @ok fun s' => ∃ rest pending_cr, core s' = core { s with rest, pending_cr } := by
  have talk {β : Type} (c : SockCall β) (_ : ¬ OpensOrCloses c) : ok (.sock c) := socks c
  have refused (msg : String) : (do ftp_send s.ctrl msg; drop_data_listen s : Prog Call Session).Wp @ok fun s' =>
      ∃ rest pending_cr, core s' = core { s with rest, pending_cr } :=
    wp_bind.mpr (wp_ftp_send @talk (wp_mono (fun _ call => call) (fun s' same => ⟨s.rest, s.pending_cr, same⟩)
      (core_drop_data_listen @socks rfl)))
  refine wp_ite.mpr ⟨fun _ => refused _, fun full => wp_bind.mpr ?_⟩
  have login : s.authed = true ∧ s.anon = false := by simpa using full
  refine wp_open_stor_calls @on_open (opens login) (to_end login) (seeks login) fun opened => ?_
  cases opened with
  | none => exact refused _
  | some fp => exact wp_mono (fun _ call => call) (fun s' done => ⟨0, done⟩) (@core_store_to @ok s @socks @on_open fuel fp)

omit socks in
theorem wp_privileged_call {c : FsCall Int} (call : s.authed = true ∧ s.anon = false → ok (.fs c)) {post : Int → Prop}
    (results : ∀ r, post r) : (privileged s c).Wp @ok post := by
  refine wp_ite.mpr ⟨fun full => ?_, fun _ => results _⟩
  exact wp_mounted (on_open _ trivial) (call (by simpa using full)) results

end

/-- The paths that a call names. -/
def paths : ∀ {β : Type}, Call β → List (List UInt8)
  | _, .fs (.lfs_stat path) => [path]
  | _, .fs (.lfs_dir_open path) => [path]
  | _, .fs (.lfs_file_open path _) => [path]
  | _, .fs (.lfs_remove path) => [path]
  | _, .fs (.lfs_mkdir path) => [path]
  | _, .fs (.lfs_rename old new) => [old, new]
  | _, _ => []

/-- Whether a command uses its path at all. -/
def acts (s : Session) : Option Cmd → Bool
  | some .LIST | some .NLST | some .SIZE => true
  | some .RETR => s.authed
  | some .STOR | some .APPE | some .DELE | some .MKD | some .XMKD | some .RMD | some .XRMD | some .RNFR => s.authed && !s.anon
  | some .RNTO => s.authed && !s.anon && s.rename_pending
  | _ => false

/-- The paths that a line uses. -/
def operands (s : Session) (line : List UInt8) : List (List UInt8) :=
  if cmd_of line = some .RNTO then [s.rename_from, fs_path s.cwd (arg_of line)] else [fs_path s.cwd (arg_of line)]

/-- A call that names no file, or one that the line uses. -/
def Uses (s : Session) (line : List UInt8) {β : Type} (c : Call β) : Prop :=
  paths c = [] ∨ acts s (cmd_of line) = true ∧ paths c = operands s line

/-- Where a transfer starts: a file is read or overwritten from the restart position on, and
    without one from its start; an upload that does not append empties it then. -/
def StartsAt (rest : Nat) : ∀ {β : Type}, Call β → Prop
  | _, .fs (.lfs_file_seek _ off false) => 0 < rest ∧ off = Int.bmod rest (2^32)
  | _, .fs (.lfs_file_open _ (.LFS_O_WRONLY _ append trunc)) => trunc = (!append && rest == 0)
  | _, _ => True

/-- The session after a line, without its data connection and as far as the answers of the
    file system do not matter. -/
def settled (s : Session) (line : List UInt8) : Session :=
  match cmd_of line with
  | some .USER => { s with anon := is_anonymous (arg_of line), rename_pending := false }
  | some .PASS => { s with authed := s.anon || arg_of line = FTP_PASS }
  | some .TYPE => { s with type_ascii := (arg_of line).head? = some 65 ∨ (arg_of line).head? = some 97 }
  | some .CWD => { s with cwd := norm_path 64 s.cwd (arg_of line) }
  | some .CDUP => { s with cwd := norm_path 64 s.cwd (ascii "..") }
  | some .RETR => if s.authed then { s with rest := 0 } else s
  | some .REST => { s with rest := strtoul_value (arg_of line) }
  | some .RNTO => { s with rename_pending := false }
  | some .QUIT => { s with ctrl := -1 }
  | _ => s

/-- The session after `RNFR` has found its file. -/
def with_source (s : Session) (line : List UInt8) : Session :=
  { s with rename_from := (fs_path s.cwd (arg_of line)).take 127, rename_pending := true }

/-- What a line can make of a session. -/
def After (s : Session) (line : List UInt8) (s' : Session) : Prop :=
  core s' = core (settled s line) ∨ cmd_of line = some .RNFR ∧ core s' = core (with_source s line) ∨
    (cmd_of line = some .STOR ∨ cmd_of line = some .APPE) ∧ ∃ rest pending_cr, core s' = core { s with rest, pending_cr }

/-- The calls of a line. -/
structure Makes (s : Session) (line : List UInt8) {β : Type} (c : Call β) : Prop where
  uses : Uses s line c
  starts : StartsAt s.rest c

/-- Every path that a line uses comes from `norm_path`, or is the one kept by `RNFR`, and a
    transfer starts at the position kept by `REST`. -/
theorem handle_command_makes (fuel : Nat) (s : Session) (line : List UInt8) :
    (handle_command fuel s line).Wp (Makes s line) (After s line) := by
  have socks {β : Type} (c : SockCall β) : Makes s line (.sock c) := ⟨.inl rfl, trivial⟩
  have talk {β : Type} (c : SockCall β) (_ : ¬ OpensOrCloses c) : Makes s line (.sock c) := socks c
  have on_open {β : Type} (c : FsCall β) (still : OnOpen c) : Makes s line (.fs c) := by
    cases c <;> first | exact ⟨.inl rfl, trivial⟩ | exact still.elim
  have settles {p : Prog Call Session} (same : p.Wp (Makes s line) fun s' => core s' = core (settled s line)) :
      p.Wp (Makes s line) (After s line) := wp_mono (fun _ call => call) (fun _ same => .inl same) same
  have plain {s' : Session} {msg : String} (same : core s' = core (settled s line)) :
      (say s' msg).Wp (Makes s line) (After s line) := wp_say @talk (.inl same)
  have own {β : Type} {c : FsCall β} (other : cmd_of line ≠ some .RNTO) (acting : acts s (cmd_of line) = true)
      (path : paths (.fs c) = [fs_path s.cwd (arg_of line)]) (starts : StartsAt s.rest (.fs c)) : Makes s line (.fs c) :=
    ⟨.inr ⟨acting, by rw [operands, if_neg other, path]⟩, starts⟩
  unfold handle_command
  rcases command : cmd_of line with - | cmd
  · exact plain (by rw [settled, command])
  have kept (same : settled s line = s) {s' : Session} (core_same : core s' = core s) : core s' = core (settled s line) := by
    rw [same, core_same]
  have removes {good bad : String} (other : cmd_of line ≠ some .RNTO) (acting : acts s (cmd_of line) = (s.authed && !s.anon))
      (same : settled s line = s) : (do
        let rc ← privileged s (.lfs_remove (fs_path s.cwd (arg_of line)))
        ftp_result s.ctrl rc good bad
        pure s : Prog Call Session).Wp (Makes s line) (After s line) := by
    refine wp_bind.mpr (wp_privileged_call @on_open (fun full => own other (by simp [acting, full]) rfl ?_) fun rc => ?_)
    · trivial
    exact wp_bind.mpr (wp_ftp_result @talk (.inl (kept same rfl)))
  have makes (other : cmd_of line ≠ some .RNTO) (acting : acts s (cmd_of line) = (s.authed && !s.anon))
      (same : settled s line = s) : (cmd_mkd s (arg_of line)).Wp (Makes s line) (After s line) := by
    refine wp_bind.mpr (wp_privileged_call @on_open (fun full => own other (by simp [acting, full]) rfl ?_) fun rc => ?_)
    · trivial
    refine wp_ite.mpr ⟨fun _ => wp_bind.mpr (wp_ftp_sendf @talk (.inl (kept same rfl))), fun _ => ?_⟩
    exact wp_bind.mpr (wp_ftp_send @talk (.inl (kept same rfl)))
  have stores {is_appe : Bool} (upload : cmd_of line = some .STOR ∨ cmd_of line = some .APPE)
      (other : cmd_of line ≠ some .RNTO) (acting : acts s (cmd_of line) = (s.authed && !s.anon)) :
      (cmd_stor fuel s (arg_of line) is_appe).Wp (Makes s line) (After s line) := by
    refine wp_mono (fun _ call => call) (fun s' change => .inr (.inr ⟨upload, change⟩)) ?_
    exact core_cmd_stor @socks @on_open (fun full => own other (by simp [acting, full]) rfl rfl)
      (fun _ _ _ => ⟨.inl rfl, trivial⟩) (fun _ _ _ restart => ⟨.inl rfl, restart, rfl⟩)
  cases cmd with
  | USER | SYST | FEAT | TYPE | CWD | CDUP | NOOP | ALLO => exact plain (by rw [settled, command])
  | PASS =>
    refine wp_ite.mpr ⟨fun known => plain ?_, fun unknown => plain ?_⟩
    · have accepted : (s.anon || decide (arg_of line = FTP_PASS)) = true := by simpa using known
      simp only [settled, command, accepted]
    · have denied : (s.anon || decide (arg_of line = FTP_PASS)) = false := by simpa using unknown
      simp only [settled, command, denied]
  | PWD | REST => exact wp_bind.mpr (wp_ftp_sendf @talk (.inl (by rw [settled, command])))
  | QUIT =>
    refine wp_bind.mpr (wp_ftp_send @talk (wp_bind.mpr (wp_sock.mpr ⟨socks _, fun _ => .inl ?_⟩)))
    rw [settled, command]
  | PASV => exact settles (by rw [settled, command]; exact core_cmd_pasv @socks)
  | EPSV => exact settles (by rw [settled, command]; exact core_cmd_epsv @socks)
  | PORT => exact settles (by rw [settled, command]; exact core_cmd_port @socks)
  | EPRT => exact settles (by rw [settled, command]; exact core_cmd_eprt @socks)
  | LIST | NLST =>
    refine wp_bind.mpr (wp_fs.mpr ⟨on_open _ trivial, fun _ => settles ?_⟩)
    rw [settled, command]
    exact core_cmd_list @socks @on_open (own (by simp [command]) (by rw [command]; rfl) rfl trivial)
      (own (by simp [command]) (by rw [command]; rfl) rfl trivial)
  | SIZE =>
    have same : settled s line = s := by rw [settled, command]
    refine wp_bind.mpr (wp_mounted (on_open _ trivial) (own (by simp [command]) (by rw [command]; rfl) rfl trivial) fun st => ?_)
    split
    · exact wp_bind.mpr (wp_ftp_sendf @talk (.inl (kept same rfl)))
    · exact wp_bind.mpr (wp_ftp_send @talk (.inl (kept same rfl)))
  | RETR =>
    refine wp_bind.mpr (wp_fs.mpr ⟨on_open _ trivial, fun _ => settles ?_⟩)
    rw [settled, command]
    exact core_cmd_retr @socks @on_open (fun authed => own (by simp [command]) (by rw [command]; exact authed) rfl trivial)
      (fun _ _ restart => ⟨.inl rfl, restart, rfl⟩)
  | STOR => exact stores (.inl command) (by simp [command]) (by rw [command]; rfl)
  | APPE => exact stores (.inr command) (by simp [command]) (by rw [command]; rfl)
  | DELE | RMD | XRMD => exact removes (by simp [command]) (by rw [command]; rfl) (by rw [settled, command])
  | MKD | XMKD => exact makes (by simp [command]) (by rw [command]; rfl) (by rw [settled, command])
  | RNFR =>
    have same : settled s line = s := by rw [settled, command]
    have answer (st : Option Info) : (if st.isSome then (do
          ftp_send s.ctrl "350 Ready for RNTO"
          pure (with_source s line) : Prog Call Session)
        else say s "550 No such file").Wp (Makes s line) (After s line) := by
      refine wp_ite.mpr ⟨fun _ => ?_, fun _ => plain (kept same rfl)⟩
      exact wp_bind.mpr (wp_ftp_send @talk (.inr (.inl ⟨command, rfl⟩)))
    refine wp_ite.mpr ⟨fun full => wp_bind.mpr (wp_mounted (on_open _ trivial) (own (by simp [command]) ?_ rfl trivial) answer),
      fun _ => answer none⟩
    rw [command]
    simpa [acts] using full
  | RNTO =>
    have answer (rc : Int) : (do
          ftp_result s.ctrl rc "250 Rename successful" "550 Rename failed"
          pure { s with rename_pending := false } : Prog Call Session).Wp (Makes s line) (After s line) :=
      wp_bind.mpr (wp_ftp_result @talk (.inl (by rw [settled, command])))
    refine wp_ite.mpr ⟨fun pending => wp_bind.mpr (wp_privileged_call @on_open (fun full => ⟨.inr ⟨?_, ?_⟩, ?_⟩) answer),
      fun _ => answer (-1)⟩
    · rw [command]
      simp [acts, full, pending]
    · rw [operands, if_pos command]
      rfl
    · trivial

theorem settled_cwd (s : Session) (line : List UInt8) :
    (settled s line).cwd = if cmd_of line = some .CWD then norm_path 64 s.cwd (arg_of line)
      else if cmd_of line = some .CDUP then norm_path 64 s.cwd (ascii "..") else s.cwd := by
  unfold settled
  rcases cmd_of line with - | cmd
  · rfl
  cases cmd with
  | RETR => simp [apply_ite Session.cwd]
  | _ => rfl

theorem core_cwd {s s' : Session} (same : core s' = core s) : s'.cwd = s.cwd :=
  have fields : (core s').cwd = (core s).cwd := congrArg Session.cwd same
  fields

theorem after_cwd {s s' : Session} {line : List UInt8} (after : After s line s') :
    s'.cwd = if cmd_of line = some .CWD then norm_path 64 s.cwd (arg_of line)
      else if cmd_of line = some .CDUP then norm_path 64 s.cwd (ascii "..") else s.cwd := by
  rcases after with same | ⟨command, same⟩ | ⟨command, rest, pending_cr, same⟩
  · rw [core_cwd same, settled_cwd]
  · rw [core_cwd same, command]
    rfl
  · rw [core_cwd same]
    rcases command with stor | appe
    · rw [stor]
      rfl
    · rw [appe]
      rfl

end IoEdgeHub.FtpCommands
