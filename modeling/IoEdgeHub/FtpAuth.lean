import IoEdgeHub.Ftpd
import IoEdgeHub.Machine
import Mathlib.Data.List.Induction

/-!
What an FTP session may do before and after a login. Each command asks the flags
`authed` and `anon` on its own; the calls it makes are summed up in one lemma, from
which follow who may change the file system and what can be learnt without a login.
-/
namespace IoEdgeHub.FtpAuth
open IoEdgeHub.Calls IoEdgeHub.CStrings IoEdgeHub.Ftpd IoEdgeHub.Machine

/-- Calls that change files or directories. -/
def Modifies : ∀ {β : Type}, Call β → Prop
  | _, .fs (.lfs_file_open _ (.LFS_O_WRONLY ..)) => True
  | _, .fs (.lfs_file_write ..) => True
  | _, .fs (.lfs_remove _) => True
  | _, .fs (.lfs_mkdir _) => True
  | _, .fs (.lfs_rename ..) => True
  | _, _ => False

/-- Calls whose result depends on the file system. -/
def Reads : ∀ {β : Type}, Call β → Prop
  | _, .sock _ => False
  | _, .fs .history_sync => False
  | _, .fs _ => True

/-- Calls that open or close a socket. -/
def OpensOrCloses : ∀ {β : Type}, SockCall β → Prop
  | _, .lwip_socket => True
  | _, .lwip_accept _ => True
  | _, .lwip_close _ => True
  | _, _ => False

/-- The commands that look at the file system without a login. -/
def Browses (cmd : Option Cmd) : Prop := cmd = some .LIST ∨ cmd = some .NLST ∨ cmd = some .SIZE

instance (cmd : Option Cmd) : Decidable (Browses cmd) := instDecidableOr

/-- What a command may call: changes need a full login, and except for the commands
    that browse, so does reading need some login. -/
structure Permitted (s : Session) (cmd : Option Cmd) {β : Type} (c : Call β) : Prop where
  writes : Modifies c → s.authed = true ∧ s.anon = false
  reads : Reads c → s.authed = true ∨ Browses cmd

/-- The flags `authed` and `anon` after a line. -/
def login (s : Session) (line : List UInt8) : Bool × Bool :=
  if cmd_of line = some .USER then (s.authed, is_anonymous (arg_of line))
  else if cmd_of line = some .PASS then (s.anon || arg_of line = FTP_PASS, s.anon)
  else (s.authed, s.anon)

section
variable {ok : ∀ {β : Type}, Call β → Prop} {s : Session}

/-- The flags of the login are as in `s`. -/
def SameLogin (s s' : Session) : Prop := (s'.authed, s'.anon) = (s.authed, s.anon)

@[simp] theorem wp_sock {α : Type} {post : α → Prop} {c : SockCall α} :
    (sock c).Wp @ok post ↔ ok (.sock c) ∧ ∀ r, post r := Iff.rfl

@[simp] theorem wp_fs {α : Type} {post : α → Prop} {c : FsCall α} :
    (fs c).Wp @ok post ↔ ok (.fs c) ∧ ∀ r, post r := Iff.rfl

theorem wp_mounted {α : Type} {post : α → Prop} {absent : α} {c : FsCall α} (up : ok (.fs .history_fs)) (call : ok (.fs c))
    (results : ∀ r, post r) : (mounted absent c).Wp @ok post := by
  simp [mounted, up, call, results]

-- the sockets that are there may always be used
variable (talk : ∀ {β : Type} (c : SockCall β), ¬ OpensOrCloses c → ok (.sock c))
include talk

theorem wp_ftp_send {post : Unit → Prop} {fd : Int} {msg : String} (results : post ()) :
    (ftp_send fd msg).Wp @ok post := by
  simp only [ftp_send, wp_bind, wp_sock, wp_pure]
  exact ⟨talk _ id, fun _ => results⟩

theorem wp_ftp_sendf {post : Unit → Prop} {fd : Int} {text : List UInt8} (results : post ()) :
    (ftp_sendf fd text).Wp @ok post := by
  simp only [ftp_sendf, wp_bind, wp_sock, wp_pure]
  exact ⟨talk _ id, fun _ => results⟩

theorem wp_ftp_result {post : Unit → Prop} {fd rc : Int} {good bad : String} (results : post ()) :
    (ftp_result fd rc good bad).Wp @ok post :=
  wp_ftp_send @talk results

theorem wp_say {post : Session → Prop} {msg : String} (results : post s) : (say s msg).Wp @ok post := by
  simp only [say, wp_bind, wp_pure]
  exact wp_ftp_send @talk results

theorem wp_send_all {post : Int → Prop} {fd : Int} {fuel : Nat} {buf : List UInt8} (results : ∀ r, post r) :
    (send_all fd fuel buf).Wp @ok post := by
  induction fuel generalizing buf with
  | zero => exact results 0
  | succ fuel ih =>
    simp only [send_all, wp_ite, wp_pure, wp_bind, wp_sock]
    exact ⟨fun _ => results 0, fun _ => ⟨talk _ id, fun n => ⟨fun _ => results (-1), fun _ => ih⟩⟩⟩

theorem wp_send_line {post : Int → Prop} {fd : Int} {text : List UInt8} (results : ∀ r, post r) :
    (send_line fd text).Wp @ok post := by
  simp only [send_line, wp_ite, wp_bind, wp_sock]
  exact ⟨fun _ => wp_send_all @talk results, fun _ => ⟨talk _ id, fun _ => wp_send_all @talk results⟩⟩

theorem wp_format_ls_time {post : List UInt8 → Prop} {name : List UInt8} (results : ∀ r, post r) :
    (format_ls_time name).Wp @ok post := by
  unfold format_ls_time
  split
  · exact results _
  · simp only [wp_bind, wp_sock]
    refine ⟨talk _ id, fun now => ?_⟩
    split <;> exact results _

theorem wp_ls_line {post : List UInt8 → Prop} {long_fmt dir : Bool} {size : Nat} {name : List UInt8}
    (results : ∀ r, post r) : (ls_line long_fmt dir size name).Wp @ok post := by
  simp only [ls_line, wp_bind, wp_pure]
  exact wp_format_ls_time @talk fun _ => results _

theorem wp_cmd_rnfr {post : Session → Prop} {arg : List UInt8}
    (free : s.authed = true ∧ s.anon = false → ∀ {β : Type} (c : FsCall β), ok (.fs c)) (refused : post s)
    (named : ∀ rename_from, post { s with rename_from, rename_pending := true }) : (cmd_rnfr s arg).Wp @ok post := by
  have answer (st : Option Info) : (if st.isSome then (do
        ftp_send s.ctrl "350 Ready for RNTO"
        pure { s with rename_from := (fs_path s.cwd arg).take 127, rename_pending := true } : Prog Call Session)
      else say s "550 No such file").Wp @ok post := by
    simp only [wp_ite, wp_bind, wp_pure]
    exact ⟨fun _ => wp_ftp_send @talk (named _), fun _ => wp_say @talk refused⟩
  unfold cmd_rnfr
  refine wp_ite.mpr ⟨fun full => ?_, fun _ => answer none⟩
  have login : s.authed = true ∧ s.anon = false := by simpa using full
  exact wp_bind.mpr (wp_mounted (free login _) (free login _) answer)

-- and so may calls that change nothing
section
variable (harmless : ∀ {β : Type} (c : FsCall β), ¬ Modifies (.fs c) → ok (.fs c))
include harmless

theorem wp_list_entries {post : Unit → Prop} {long_fmt : Bool} {data : Int} {dir fuel : Nat} (results : post ()) :
    (list_entries long_fmt data dir fuel).Wp @ok post := by
  induction fuel with
  | zero => exact results
  | succ fuel ih =>
    simp only [list_entries, wp_bind, wp_fs]
    refine ⟨harmless _ id, fun entry => ?_⟩
    split
    · exact results
    · simp only [wp_ite, wp_bind]
      refine ⟨fun _ => ih, fun _ => wp_ls_line @talk fun line => wp_send_line @talk fun rc => ?_⟩
      simp only [wp_pure]
      exact ⟨fun _ => results, fun _ => ih⟩

theorem wp_send_file {post : Unit → Prop} {type_ascii : Bool} {data : Int} {fp fuel : Nat} (results : post ()) :
    (send_file type_ascii data fp fuel).Wp @ok post := by
  induction fuel with
  | zero => exact results
  | succ fuel ih =>
    simp only [send_file, wp_bind]
    refine wp_mounted (harmless _ id) (harmless _ id) fun bytes => ?_
    simp only [wp_ite, wp_bind, wp_pure]
    exact ⟨fun _ => results, fun _ => wp_send_all @talk fun rc => ⟨fun _ => results, fun _ => ih⟩⟩

omit talk in
theorem wp_open_retr {post : Option Nat → Prop} {fspath : List UInt8} {rest : Nat} (results : ∀ r, post r) :
    (open_retr fspath rest).Wp @ok post := by
  simp only [open_retr, wp_bind]
  refine wp_mounted (harmless _ id) (harmless _ id) fun fp => ?_
  split
  · exact results none
  · simp only [wp_bind, wp_fs, wp_ite, wp_pure, results, implies_true, and_true]
    exact ⟨harmless _ id, fun size => ⟨fun _ => harmless _ id, fun _ _ => ⟨harmless _ id, fun off _ => harmless _ id⟩⟩⟩

theorem wp_cmd_size {post : Session → Prop} {arg : List UInt8} (results : post s) : (cmd_size s arg).Wp @ok post := by
  simp only [cmd_size, wp_bind]
  refine wp_mounted (harmless _ id) (harmless _ id) fun st => ?_
  split
  · exact wp_bind.mpr (wp_ftp_sendf @talk results)
  · exact wp_bind.mpr (wp_ftp_send @talk results)

end

-- or all of them
section
variable (all : ∀ {β : Type} (c : FsCall β), ok (.fs c))
include all

theorem wp_receive_file {post : Bool → Prop} {type_ascii : Bool} {data : Int} {fp fuel : Nat} {pending_cr : Bool}
    (results : ∀ r, post r) : (receive_file type_ascii data fp fuel pending_cr).Wp @ok post := by
  induction fuel generalizing pending_cr with
  | zero => exact results _
  | succ fuel ih =>
    simp only [receive_file, wp_bind, wp_sock]
    refine ⟨talk _ id, fun piece => ?_⟩
    simp only [wp_ite, wp_pure, wp_bind]
    exact ⟨fun _ => results _, fun _ => ⟨fun _ => ih, fun _ => wp_mounted (all _) (all _) fun wr =>
      ⟨fun _ => results _, fun _ => ih⟩⟩⟩

omit talk in
theorem wp_open_stor {post : Option Nat → Prop} {fspath : List UInt8} {rest : Nat} {is_appe : Bool}
    (results : ∀ r, post r) : (open_stor fspath rest is_appe).Wp @ok post := by
  simp only [open_stor, wp_bind]
  refine wp_mounted (all _) (all _) fun fp => ?_
  split <;> simp [all, results]

end

-- all calls with a full login
section
variable (free : s.authed = true ∧ s.anon = false → ∀ {β : Type} (c : FsCall β), ok (.fs c))
include free

omit talk in
/-- A session without a full login makes no privileged call. -/
theorem wp_privileged {post : Int → Prop} {c : FsCall Int} (results : ∀ r, post r) : (privileged s c).Wp @ok post := by
  simp only [privileged, wp_ite, wp_pure, Bool.not_eq_true]
  exact ⟨fun full => wp_mounted (free full _) (free full _) results, fun _ => results _⟩

theorem wp_cmd_mkd {post : Session → Prop} {arg : List UInt8} (results : post s) : (cmd_mkd s arg).Wp @ok post := by
  simp only [cmd_mkd, wp_bind]
  refine wp_privileged free fun rc => wp_ite.mpr ⟨fun _ => ?_, fun _ => ?_⟩
  · exact wp_bind.mpr (wp_ftp_sendf @talk results)
  · exact wp_bind.mpr (wp_ftp_send @talk results)

theorem wp_cmd_rnto {post : Session → Prop} {arg : List UInt8} (results : post { s with rename_pending := false }) :
    (cmd_rnto s arg).Wp @ok post := by
  have answer (rc : Int) : (do
        ftp_result s.ctrl rc "250 Rename successful" "550 Rename failed"
        pure { s with rename_pending := false } : Prog Call Session).Wp @ok post := by
    simp only [wp_bind, wp_pure]
    exact wp_ftp_result @talk results
  unfold cmd_rnto
  exact wp_ite.mpr ⟨fun _ => wp_bind.mpr (wp_privileged free answer), fun _ => answer (-1)⟩

theorem wp_remove {post : Session → Prop} {arg : List UInt8} {good bad : String} (results : post s) : (do
      let rc ← privileged s (.lfs_remove (fs_path s.cwd arg))
      ftp_result s.ctrl rc good bad
      pure s : Prog Call Session).Wp @ok post := by
  simp only [wp_bind, wp_pure]
  exact wp_privileged free fun rc => wp_ftp_result @talk results

end
end

section
variable {ok : ∀ {β : Type}, Call β → Prop} {s : Session}

-- the sockets may also be opened and closed
variable (socks : ∀ {β : Type} (c : SockCall β), ok (.sock c))
include socks

theorem wp_drop_data_listen {s' : Session} (same : SameLogin s s') : (drop_data_listen s').Wp @ok (SameLogin s) := by
  obtain ⟨authed, anon⟩ := Prod.mk.inj same
  simp [drop_data_listen, socks, SameLogin, authed, anon]

theorem wp_data_listen_open : (data_listen_open s).Wp @ok fun r => SameLogin s r.2 := by
  simp [data_listen_open, socks, SameLogin]

theorem wp_open_data : (open_data s).Wp @ok fun r => SameLogin s r.2 := by
  simp [open_data, socks, SameLogin]

theorem wp_cmd_pasv : (cmd_pasv s).Wp @ok (SameLogin s) := by
  simp only [cmd_pasv, wp_bind]
  refine wp_mono (fun _ call => call) ?_ (wp_data_listen_open @socks)
  rintro ⟨rc, s'⟩ same
  cases rc <;> simp [ftp_send, ftp_sendf, socks, same]

theorem wp_cmd_epsv : (cmd_epsv s).Wp @ok (SameLogin s) := by
  simp only [cmd_epsv, wp_bind]
  refine wp_mono (fun _ call => call) ?_ (wp_data_listen_open @socks)
  rintro ⟨rc, s'⟩ same
  cases rc <;> simp [ftp_send, ftp_sendf, socks, same]

theorem wp_set_port {peer : SockAddr} {msg : String} : (set_port s peer msg).Wp @ok (SameLogin s) := by
  simp [set_port, ftp_send, socks, SameLogin]

theorem wp_cmd_port {arg : List UInt8} : (cmd_port s arg).Wp @ok (SameLogin s) := by
  unfold cmd_port
  split
  · exact wp_say (fun c _ => socks c) rfl
  · exact wp_set_port @socks

theorem wp_cmd_eprt {arg : List UInt8} : (cmd_eprt s arg).Wp @ok (SameLogin s) := by
  unfold cmd_eprt
  split
  · exact wp_say (fun c _ => socks c) rfl
  · simp only [wp_bind, wp_sock]
    refine ⟨socks _, fun addr => ?_⟩
    split
    · exact wp_say (fun c _ => socks c) rfl
    · exact wp_set_port @socks

theorem wp_cmd_list {fuel : Nat} {path : List UInt8} {long_fmt : Bool}
    (harmless : ∀ {β : Type} (c : FsCall β), ¬ Modifies (.fs c) → ok (.fs c)) :
    (cmd_list fuel s path long_fmt).Wp @ok (SameLogin s) := by
  have talk {β : Type} (c : SockCall β) (_ : ¬ OpensOrCloses c) : ok (.sock c) := socks c
  simp only [cmd_list, wp_bind]
  refine wp_mounted (harmless _ id) (harmless _ id) fun st => ?_
  split
  · simp only [wp_bind]
    exact wp_ftp_send @talk (wp_drop_data_listen @socks rfl)
  · rename_i st
    simp only [wp_bind]
    refine wp_mono (fun _ call => call) ?_ (wp_open_data @socks)
    rintro ⟨data, s'⟩ same
    simp only [wp_ite, wp_bind, wp_pure]
    refine ⟨fun _ => wp_ftp_send @talk same, fun _ => ⟨fun _ => ?_, fun _ => ?_⟩⟩
    · refine wp_ftp_send @talk (wp_ls_line @talk fun line => wp_send_line @talk fun _ => ⟨socks _, fun _ => ?_⟩)
      exact wp_ftp_send @talk same
    · refine wp_ftp_send @talk (wp_mounted (harmless _ id) (harmless _ id) fun dir => ?_)
      have finish : (sock (.lwip_close data) >>= fun _ => ftp_send s'.ctrl "226 Directory send OK" >>= fun _ => pure s').Wp
          @ok (SameLogin s) := by
        simp [ftp_send, socks, same]
      split
      · simp only [wp_bind, wp_fs]
        refine wp_list_entries @talk @harmless ⟨harmless _ id, fun _ => ?_⟩
        simpa using finish
      · simpa using finish

theorem wp_cmd_retr {fuel : Nat} {path : List UInt8}
    (logged_in : s.authed = true → ∀ {β : Type} (c : FsCall β), ¬ Modifies (.fs c) → ok (.fs c)) :
    (cmd_retr fuel s path).Wp @ok (SameLogin s) := by
  have talk {β : Type} (c : SockCall β) (_ : ¬ OpensOrCloses c) : ok (.sock c) := socks c
  simp only [cmd_retr, wp_ite, wp_bind]
  refine ⟨fun _ => wp_ftp_send @talk (wp_drop_data_listen @socks rfl), fun authed => ?_⟩
  have harmless {β : Type} (c : FsCall β) : ¬ Modifies (.fs c) → ok (.fs c) := logged_in (by simpa using authed) c
  refine wp_open_retr @harmless fun opened => ?_
  split
  · simp only [wp_bind]
    exact wp_ftp_send @talk (wp_drop_data_listen @socks rfl)
  · simp only [wp_bind]
    refine wp_ftp_send @talk (wp_mono (fun _ call => call) ?_ (wp_open_data @socks))
    rintro ⟨data, s'⟩ same
    simp only [wp_ite, wp_bind, wp_fs, wp_sock, wp_pure]
    refine ⟨fun _ => ⟨harmless _ id, fun _ => wp_ftp_send @talk same⟩, fun _ => ?_⟩
    refine wp_send_file @talk @harmless ⟨harmless _ id, fun _ => ?_⟩
    exact ⟨socks _, fun _ => wp_ftp_send @talk same⟩

theorem wp_cmd_stor {fuel : Nat} {path : List UInt8} {is_appe : Bool}
    (free : s.authed = true ∧ s.anon = false → ∀ {β : Type} (c : FsCall β), ok (.fs c)) :
    (cmd_stor fuel s path is_appe).Wp @ok (SameLogin s) := by
  have talk {β : Type} (c : SockCall β) (_ : ¬ OpensOrCloses c) : ok (.sock c) := socks c
  simp only [cmd_stor, wp_ite, wp_bind]
  refine ⟨fun _ => wp_ftp_send @talk (wp_drop_data_listen @socks rfl), fun full => ?_⟩
  have all {β : Type} (c : FsCall β) : ok (.fs c) := free (by simpa using full) _
  refine wp_open_stor @all fun fp => ?_
  split
  · simp only [wp_bind]
    exact wp_ftp_send @talk (wp_drop_data_listen @socks rfl)
  · simp only [wp_bind]
    refine wp_ftp_send @talk (wp_mono (fun _ call => call) ?_ (wp_open_data @socks))
    rintro ⟨data, s'⟩ same
    simp only [wp_ite, wp_bind, wp_fs, wp_sock, wp_pure]
    refine ⟨fun _ => ⟨all _, fun _ => wp_ftp_send @talk same⟩, fun _ => ?_⟩
    refine wp_receive_file @talk @all fun _ => ⟨all _, fun _ => ?_⟩
    exact ⟨socks _, fun _ => wp_ftp_send @talk same⟩

end

/-- What a line can make the server call, and what it does to the login. -/
theorem handle_command_wp (fuel : Nat) (s : Session) (line : List UInt8) :
    (handle_command fuel s line).Wp (Permitted s (cmd_of line)) fun s' => (s'.authed, s'.anon) = login s line := by
  unfold handle_command login
  generalize cmd_of line = cmd
  generalize arg_of line = arg
  have socks {β : Type} (c : SockCall β) : Permitted s cmd (.sock c) := ⟨False.elim, False.elim⟩
  have sync : Permitted s cmd (.fs .history_sync) := ⟨False.elim, False.elim⟩
  have talk {β : Type} (c : SockCall β) (_ : ¬ OpensOrCloses c) : Permitted s cmd (.sock c) := socks c
  have free (full : s.authed = true ∧ s.anon = false) {β : Type} (c : FsCall β) : Permitted s cmd (.fs c) :=
    ⟨fun _ => full, fun _ => .inl full.1⟩
  have harmless (reader : s.authed = true ∨ Browses cmd) {β : Type} (c : FsCall β)
      (other : ¬ Modifies (.fs c)) : Permitted s cmd (.fs c) :=
    ⟨fun change => absurd change other, fun _ => reader⟩
  have plain {s' : Session} (kept : SameLogin s s') {msg : String} :
      (say s' msg).Wp (Permitted s cmd) (SameLogin s) := wp_say @talk kept
  rcases cmd with - | cmd
  · exact plain rfl
  cases cmd with
  | USER => simp [say, ftp_send, socks]
  | PASS =>
    by_cases known : s.anon = true ∨ arg = FTP_PASS
    · rcases known with known | known <;> simp [say, ftp_send, socks, known]
    · obtain ⟨named, wrong⟩ := not_or.mp known
      simp [say, ftp_send, socks, named, wrong]
  | SYST | FEAT | TYPE | CWD | CDUP | NOOP | ALLO => exact plain rfl
  | PWD | REST =>
    simp only [wp_bind, wp_pure]
    exact wp_ftp_sendf @talk rfl
  | QUIT => simp [ftp_send, socks]
  | PASV => exact wp_cmd_pasv @socks
  | EPSV => exact wp_cmd_epsv @socks
  | PORT => exact wp_cmd_port @socks
  | EPRT => exact wp_cmd_eprt @socks
  | LIST => exact ⟨sync, fun _ => wp_cmd_list @socks (harmless (.inr (.inl rfl)))⟩
  | NLST => exact ⟨sync, fun _ => wp_cmd_list @socks (harmless (.inr (.inr (.inl rfl))))⟩
  | SIZE => exact wp_cmd_size @talk (harmless (.inr (.inr (.inr rfl)))) rfl
  | RETR => exact ⟨sync, fun _ => wp_cmd_retr @socks fun authed => harmless (.inl authed)⟩
  | STOR | APPE => exact wp_cmd_stor @socks free
  | DELE | RMD | XRMD => exact wp_remove @talk free rfl
  | MKD | XMKD => exact wp_cmd_mkd @talk free rfl
  | RNFR => exact wp_cmd_rnfr @talk free rfl fun _ => rfl
  | RNTO => exact wp_cmd_rnto @talk free rfl

/-! ### Who may change files -/

/-- The user named by the last `USER` of some lines. -/
def latest_user (lines : List (List UInt8)) : Option (List UInt8) :=
  ((lines.filter fun line => cmd_of line = some .USER).getLast?).map arg_of

/-- Some `PASS` carried the password while the user was not anonymous, and since then no
    user was named and no password failed. -/
def Authorized (lines : List (List UInt8)) : Prop :=
  ∃ before pass after, lines = before ++ pass :: after ∧ cmd_of pass = some .PASS ∧ arg_of pass = FTP_PASS ∧
    (∀ user ∈ latest_user before, is_anonymous user = false) ∧
    ∀ line ∈ after, cmd_of line ≠ some .USER ∧ (cmd_of line = some .PASS → arg_of line = FTP_PASS)

theorem latest_user_append {lines : List (List UInt8)} {line : List UInt8} :
    latest_user (lines ++ [line]) = if cmd_of line = some .USER then some (arg_of line) else latest_user lines := by
  unfold latest_user
  split <;> simp [*]

/-- A line that names no user and fails no password leaves the authorization in place. -/
theorem authorized_append {lines : List (List UInt8)} {line : List UInt8} (authorized : Authorized lines)
    (user : cmd_of line ≠ some .USER) (pass : cmd_of line = some .PASS → arg_of line = FTP_PASS) :
    Authorized (lines ++ [line]) := by
  obtain ⟨before, login, after, rfl, command, password, named, since⟩ := authorized
  refine ⟨before, login, after ++ [line], by simp, command, password, named, fun other member => ?_⟩
  rcases List.mem_append.mp member with old | new
  · exact since other old
  · rw [List.mem_singleton.mp new]
    exact ⟨user, pass⟩

/-- The right password for a user that is not anonymous. -/
theorem authorized_pass {lines : List (List UInt8)} {line : List UInt8} (pass : cmd_of line = some .PASS)
    (password : arg_of line = FTP_PASS) (named : ∀ user ∈ latest_user lines, is_anonymous user = false) :
    Authorized (lines ++ [line]) :=
  ⟨lines, line, [], rfl, pass, password, named, by simp⟩

theorem not_authorized_user {lines : List (List UInt8)} {line : List UInt8} (user : cmd_of line = some .USER) :
    ¬ Authorized (lines ++ [line]) := by
  rintro ⟨before, login, after, split, command, -, -, since⟩
  have last : (login :: after).getLast? = some line := by
    have whole := congrArg List.getLast? split
    rw [List.getLast?_append, List.getLast?_append, List.getLast?_cons] at whole
    simpa [List.getLast?_cons] using whole.symm
  rcases List.mem_cons.mp (List.mem_of_getLast? last) with rfl | member
  · simp [user] at command
  · exact (since line member).1 user

/-- A connection that was just accepted. -/
def accepted (c : Int) : Session := { ctrl := c }

section
variable {ω : Type} (exec : ∀ {β : Type}, Call β → ω → β × ω) (fuel : Nat)

/-- One line handled. -/
def step (st : Session × ω) (line : List UInt8) : Session × ω := (handle_command fuel st.1 line).run @exec st.2

/-- No user but `anonymous` and `ftp` is named while the session is logged in. -/
def NamedBeforeLogin (st : Session × ω) (line : List UInt8) : Prop :=
  cmd_of line = some .USER → is_anonymous (arg_of line) = true ∨ st.1.authed = false

/-- How the flags of a session follow from its lines. -/
structure Consistent (lines : List (List UInt8)) (s : Session) : Prop where
  anon : s.anon = ((latest_user lines).map is_anonymous).getD false
  full : s.authed = true → s.anon = false → Authorized lines

variable {exec fuel}

theorem step_login (st : Session × ω) (line : List UInt8) :
    ((step @exec fuel st line).1.authed, (step @exec fuel st line).1.anon) = login st.1 line :=
  run_wp (handle_command_wp fuel st.1 line) st.2

theorem step_consistent {st : Session × ω} {line : List UInt8} {lines : List (List UInt8)}
    (consistent : Consistent lines st.1) (named : NamedBeforeLogin st line) :
    Consistent (lines ++ [line]) (step @exec fuel st line).1 := by
  obtain ⟨anon, full⟩ := consistent
  have flags := @step_login ω @exec fuel st line
  have user := @latest_user_append lines line
  generalize (step @exec fuel st line).1 = s' at flags
  unfold login at flags
  by_cases naming : cmd_of line = some .USER
  · rw [if_pos naming] at flags user
    obtain ⟨authed', anon'⟩ := Prod.mk.inj flags
    refine ⟨by rw [anon', user]; rfl, fun authed named' => ?_⟩
    rcases named naming with anonymous | out
    · rw [anon', anonymous] at named'
      cases named'
    · rw [authed', out] at authed
      cases authed
  rw [if_neg naming] at flags user
  by_cases pass : cmd_of line = some .PASS
  · rw [if_pos pass] at flags
    obtain ⟨authed', anon'⟩ := Prod.mk.inj flags
    refine ⟨by rw [anon', user, anon], fun authed named' => ?_⟩
    rw [anon'] at named'
    have password : arg_of line = FTP_PASS := by simpa [authed', named'] using authed
    refine authorized_pass pass password fun name latest => ?_
    rw [named', latest] at anon
    exact anon.symm
  · rw [if_neg pass] at flags
    obtain ⟨authed', anon'⟩ := Prod.mk.inj flags
    refine ⟨by rw [anon', user, anon], fun authed named' => ?_⟩
    exact authorized_append (full (authed' ▸ authed) (anon' ▸ named')) naming fun other => absurd other pass

theorem run_consistent (c : Int) (w : ω) (lines : List (List UInt8))
    (meets : Meets (step @exec fuel) NamedBeforeLogin (accepted c, w) lines) :
    Consistent lines (lines.foldl (step @exec fuel) (accepted c, w)).1 := by
  induction lines using List.reverseRecOn with
  | nil => exact ⟨rfl, fun authed => nomatch authed⟩
  | append_singleton lines line ih =>
    obtain ⟨first, last, -⟩ := (meets_append _ _ _ _ _).mp meets
    rw [List.foldl_append]
    exact step_consistent (ih first) last

/-- In every run in which no user but `anonymous` and `ftp` is named while the session is
    logged in, the next line can only change the file system if the lines so far authorize it. -/
theorem writes_authorized (c : Int) (w : ω) (lines : List (List UInt8))
    (meets : Meets (step @exec fuel) NamedBeforeLogin (accepted c, w) lines) (denied : ¬ Authorized lines)
    (line : List UInt8) :
    (handle_command fuel (lines.foldl (step @exec fuel) (accepted c, w)).1 line).All fun call => ¬ Modifies call := by
  obtain ⟨-, full⟩ := run_consistent c w lines meets
  refine all_of_wp (wp_mono (fun call permitted change => ?_) (fun _ kept => kept) (handle_command_wp fuel _ line))
  obtain ⟨authed, named⟩ := permitted.writes change
  exact denied (full authed named)

end

/-! ### What is learnt without a login -/

section
variable {ν φ : Type}

/-- The world of a session: the sockets and the clock, what was sent, and the file system. -/
structure World (ν φ : Type) where
  net : ν
  sent : List (Int × List UInt8) := []
  files : φ

/-- What a call sends. -/
def sends : ∀ {β : Type}, SockCall β → List (Int × List UInt8)
  | _, .lwip_send fd bytes => [(fd, bytes)]
  | _, _ => []

variable (sock_exec : ∀ {β : Type}, SockCall β → ν → β × ν) (fs_exec : ∀ {β : Type}, FsCall β → φ → β × φ)

def world_exec {β : Type} : Call β → World ν φ → β × World ν φ
  | .sock c, w => ((sock_exec c w.net).1, { w with net := (sock_exec c w.net).2, sent := w.sent ++ sends c })
  | .fs c, w => ((fs_exec c w.files).1, { w with files := (fs_exec c w.files).2 })

/-- Worlds that differ in their files only. -/
def Alike (w w' : World ν φ) : Prop := w.net = w'.net ∧ w.sent = w'.sent

variable {sock_exec fs_exec}

/-- A program that does not read files does the same whatever they are. -/
theorem run_alike {α : Type} {p : Prog Call α} (blind : p.All fun c => ¬ Reads c) {w w' : World ν φ}
    (alike : Alike w w') :
    (p.run (world_exec @sock_exec @fs_exec) w).1 = (p.run (world_exec @sock_exec @fs_exec) w').1 ∧
      Alike (p.run (world_exec @sock_exec @fs_exec) w).2 (p.run (world_exec @sock_exec @fs_exec) w').2 := by
  induction p generalizing w w' with
  | ret a => exact ⟨rfl, alike⟩
  | call c next ih =>
    obtain ⟨net, sent⟩ := alike
    rcases c with c | c
    · have same : (world_exec @sock_exec @fs_exec (.sock c) w).1 = (world_exec @sock_exec @fs_exec (.sock c) w').1 := by
        simp only [world_exec, net]
      simp only [Prog.run]
      rw [same]
      refine ih _ (blind.2 _) ⟨?_, ?_⟩
      · simp only [world_exec, net]
      · simp only [world_exec, sent]
    · cases c with
      | history_sync => exact ih () (blind.2 ()) ⟨net, sent⟩
      | _ => exact absurd trivial blind.1

/-- A password that is accepted. -/
def LogsIn (s : Session) (line : List UInt8) : Prop :=
  cmd_of line = some .PASS ∧ (s.anon = true ∨ arg_of line = FTP_PASS)

instance (s : Session) (line : List UInt8) : Decidable (LogsIn s line) := instDecidableAnd

theorem step_logged_out {ω : Type} {exec : ∀ {β : Type}, Call β → ω → β × ω} {fuel : Nat} {st : Session × ω}
    {line : List UInt8} (out : st.1.authed = false) (refused : ¬ LogsIn st.1 line) :
    (step @exec fuel st line).1.authed = false := by
  have flags := @step_login ω @exec fuel st line
  generalize (step @exec fuel st line).1 = s' at flags
  unfold login at flags
  split at flags
  · exact (Prod.mk.inj flags).1.trans out
  · split at flags
    · rename_i pass
      obtain ⟨named, wrong⟩ := not_or.mp fun known => refused ⟨pass, known⟩
      exact (Prod.mk.inj flags).1.trans (by simp [named, wrong])
    · exact (Prod.mk.inj flags).1.trans out

theorem step_alike {fuel : Nat} {st st' : Session × World ν φ} {line : List UInt8} (same : st.1 = st'.1)
    (alike : Alike st.2 st'.2) (out : st.1.authed = false) (other : ¬ Browses (cmd_of line)) :
    (step (world_exec @sock_exec @fs_exec) fuel st line).1 = (step (world_exec @sock_exec @fs_exec) fuel st' line).1 ∧
      Alike (step (world_exec @sock_exec @fs_exec) fuel st line).2
        (step (world_exec @sock_exec @fs_exec) fuel st' line).2 := by
  have blind : (handle_command fuel st.1 line).All fun c => ¬ Reads c := by
    refine all_of_wp (wp_mono (fun call permitted reads => ?_) (fun _ kept => kept) (handle_command_wp fuel st.1 line))
    rcases permitted.reads reads with authed | browses
    · rw [out] at authed
      cases authed
    · exact other browses
  unfold step
  rw [← same]
  exact run_alike blind alike

/-- In every run without an accepted password in which no command browses, the session and
    what it sends do not depend on the files. -/
theorem nothing_disclosed (fuel : Nat) (c : Int) (net : ν) (files files' : φ) (lines : List (List UInt8))
    (refused : Meets (step (world_exec @sock_exec @fs_exec) fuel) (fun st line => ¬ LogsIn st.1 line)
      (accepted c, { net, files }) lines) (other : ∀ line ∈ lines, ¬ Browses (cmd_of line)) :
    Alike (lines.foldl (step (world_exec @sock_exec @fs_exec) fuel) (accepted c, { net, files })).2
      (lines.foldl (step (world_exec @sock_exec @fs_exec) fuel) (accepted c, { net, files := files' })).2 := by
  suffices related : ∀ st st' : Session × World ν φ, st.1 = st'.1 → Alike st.2 st'.2 → st.1.authed = false →
      Meets (step (world_exec @sock_exec @fs_exec) fuel) (fun st line => ¬ LogsIn st.1 line) st lines →
      Alike (lines.foldl (step (world_exec @sock_exec @fs_exec) fuel) st).2
        (lines.foldl (step (world_exec @sock_exec @fs_exec) fuel) st').2 from
    related (accepted c, { net, files }) (accepted c, { net, files := files' }) rfl ⟨rfl, rfl⟩ rfl refused
  clear refused
  induction lines with
  | nil => exact fun _ _ _ alike _ _ => alike
  | cons line rest ih =>
    intro st st' same alike out refused
    obtain ⟨same', alike'⟩ := step_alike same alike out (other line (by simp))
    exact ih (fun line' member => other line' (by simp [member])) _ _ same' alike' (step_logged_out out refused.1) refused.2

end

/-- Sockets on which everything succeeds and nothing arrives. -/
def idle_sock {β : Type} : SockCall β → Unit → β × Unit
  | .lwip_send _ bytes, _ => (bytes.length, ())
  | .lwip_recv .., _ => ([], ())
  | .lwip_socket, _ => (5, ())
  | .lwip_bind _, _ => (0, ())
  | .lwip_listen .., _ => (0, ())
  | .lwip_getsockname _, _ => (49152, ())
  | .lwip_connect .., _ => (0, ())
  | .lwip_select .., _ => (true, ())
  | .lwip_accept _, _ => (6, ())
  | .lwip_close _, _ => ((), ())
  | .set_sock_timeout .., _ => ((), ())
  | .get_local_ip, _ => ((192, 168, 1, 10), ())
  | .ip4addr_aton _, _ => (none, ())
  | .io_now_epoch, _ => (0, ())
  | .behind_buf size, _ => (List.replicate size 0, ())

/-- Plain files by their paths. -/
abbrev Files := List (List UInt8 × List UInt8)

/-- A mounted file system of plain files, whose files can be looked up and
    removed; every other call fails. -/
def flat_fs {β : Type} : FsCall β → Files → β × Files
  | .history_sync, files => ((), files)
  | .history_fs, files => (true, files)
  | .lfs_stat path, files =>
    ((files.lookup path).map fun data => { type := .LFS_TYPE_REG, size := data.length, name := base_name path }, files)
  | .lfs_remove path, files => (if (files.lookup path).isSome then 0 else -2, files.filter (·.1 ≠ path))
  | .lfs_dir_open _, files => (none, files)
  | .lfs_dir_read _, files => (none, files)
  | .lfs_dir_close _, files => ((), files)
  | .lfs_file_open .., files => (none, files)
  | .lfs_file_size _, files => (-9, files)
  | .lfs_file_seek .., files => (-9, files)
  | .lfs_file_read .., files => ([], files)
  | .lfs_file_write .., files => (-9, files)
  | .lfs_file_close _, files => ((), files)
  | .lfs_mkdir _, files => (-28, files)
  | .lfs_rename .., files => (-2, files)

/-- A session on such a file system: what was sent, and the files at its end. -/
def flat_run (files : Files) (lines : List (List UInt8)) : Session × World Unit Files :=
  lines.foldl (step (world_exec @idle_sock @flat_fs) 0) (accepted 3, { net := (), files })

/-- After an anonymous login it is enough to name another user to remove a file. -/
theorem remove_without_password : ¬ ∀ lines line : List _, ¬ Authorized lines →
    (flat_run [(ascii "/a", [1])] (lines ++ [line])).2.files = (flat_run [(ascii "/a", [1])] lines).2.files := by
  intro claim
  have kept := claim ([ascii "USER anonymous", ascii "PASS x"] ++ [ascii "USER admin"]) (ascii "DELE a")
    (not_authorized_user (by decide))
  revert kept
  decide

/-- An anonymous session that names another anonymous user. -/
theorem anonymous_removes_nothing :
    (handle_command 0 (flat_run [] ([ascii "USER anonymous", ascii "PASS x"] ++ [ascii "USER ftp"])).1
      (ascii "DELE a")).All fun call => ¬ Modifies call := by
  have anonymous : ∀ line ∈ [ascii "USER anonymous", ascii "PASS x"] ++ [ascii "USER ftp"],
      cmd_of line = some .USER → is_anonymous (arg_of line) = true := by decide
  exact writes_authorized 3 _ _ (meets_of_all fun line member st user => .inl (anonymous line member user))
    (not_authorized_user (by decide)) _

/-- Without a login `SIZE` tells the size of a file. -/
theorem size_without_login : ¬ ∀ (files files' : Files) (lines : List (List UInt8)),
    (∀ line ∈ lines, cmd_of line ≠ some .PASS) → (flat_run files lines).2.sent = (flat_run files' lines).2.sent := by
  intro claim
  have same := claim [(ascii "/a", [1])] [] [ascii "SIZE a"] (by decide)
  revert same
  decide

/-- A wrong password, and a download that is refused. -/
theorem refused_download : Alike (flat_run [(ascii "/a", [1])] [ascii "PASS x", ascii "RETR a"]).2
    (flat_run [] [ascii "PASS x", ascii "RETR a"]).2 := by
  refine nothing_disclosed 0 3 () _ _ _ ⟨?_, ?_, trivial⟩ ?_
  · decide
  · decide
  · decide

end IoEdgeHub.FtpAuth
