import IoEdgeHub.FtpAuth
import IoEdgeHub.FtpTask
import Mathlib.Data.List.Perm.Basic

/-!
The sockets of the FTP server. An observer of the calls keeps the descriptors that are
open: a call that returns a new one adds it, `lwip_close` takes one away. Every command
leaves open what the session has recorded and what it found beside it, so that between
two rounds of the task the open sockets are the listening socket and those recorded in
the slots, until a `QUIT` forgets a passive listening socket.
-/
namespace IoEdgeHub.FtpSockets
open IoEdgeHub.Calls IoEdgeHub.CStrings IoEdgeHub.Ftpd IoEdgeHub.FtpAuth IoEdgeHub.FtpTask

/-- The descriptor that a number stands for; a negative one stands for none. -/
def descriptor (fd : Int) : List Int := if fd < 0 then [] else [fd]

/-- The open descriptors after a call that returned `fd`. Nothing is known any more once a
    descriptor that was open already is returned as a new one. -/
def opened (fds : Option (List Int)) (fd : Int) : Option (List Int) :=
  if fd < 0 then fds else fds.bind fun fds => if fd ∈ fds then none else some (fd :: fds)

/-- The open descriptors after a call of a session. -/
def sockets (fds : Option (List Int)) : ∀ {β : Type}, Call β → β → Option (List Int)
  | _, .sock .lwip_socket, fd => opened fds fd
  | _, .sock (.lwip_accept _), fd => opened fds fd
  | _, .sock (.lwip_close fd), _ => fds.map (·.erase fd)
  | _, _, _ => fds

/-- The open descriptors after a call of the task. -/
def task_sockets (fds : Option (List Int)) : ∀ {β : Type}, TaskCall β → β → Option (List Int)
  | _, .ftp c, r => sockets fds c r
  | _, .task (.lwip_accept _), r => opened fds r.1
  | _, .task _, _ => fds

/-- The open descriptors are `owned`, each of them once. -/
def Holds (fds : Option (List Int)) (owned : List Int) : Prop := ∀ open_fds ∈ fds, open_fds.Perm owned ∧ owned.Nodup

section
variable {fds : Option (List Int)} {owned others : List Int} {fd : Int}

theorem descriptor_neg (negative : fd < 0) : descriptor fd = [] := if_pos negative

theorem descriptor_nonneg (valid : 0 ≤ fd) : descriptor fd = [fd] := if_neg (Int.not_lt.mpr valid)

theorem holds_perm (holds : Holds fds owned) (perm : owned.Perm others) : Holds fds others := by
  intro open_fds known
  obtain ⟨same, nodup⟩ := holds open_fds known
  exact ⟨same.trans perm, perm.nodup_iff.mp nodup⟩

/-- What is owned is brought to the front. -/
theorem holds_swap {first : List Int} (holds : Holds fds (first ++ (owned ++ others))) :
    Holds fds (owned ++ (first ++ others)) := by
  refine holds_perm holds ?_
  rw [← List.append_assoc, ← List.append_assoc]
  exact List.perm_append_comm.append_right others

theorem holds_opened (holds : Holds fds owned) : Holds (opened fds fd) (descriptor fd ++ owned) := by
  unfold opened
  by_cases negative : fd < 0
  · rw [if_pos negative, descriptor_neg negative]
    exact holds
  rw [if_neg negative, descriptor_nonneg (Int.not_lt.mp negative)]
  intro open_fds known
  obtain ⟨before, found, rest⟩ := Option.bind_eq_some_iff.mp known
  obtain ⟨same, nodup⟩ := holds before found
  split at rest
  · cases rest
  · rename_i fresh
    cases rest
    refine ⟨same.cons fd, List.nodup_cons.mpr ⟨fun member => fresh (same.mem_iff.mpr member), nodup⟩⟩

theorem holds_closed (holds : Holds fds (descriptor fd ++ owned)) (valid : 0 ≤ fd) :
    Holds (fds.map (·.erase fd)) owned := by
  rw [descriptor_nonneg valid] at holds
  intro open_fds known
  obtain ⟨before, found, rfl⟩ := Option.map_eq_some_iff.mp known
  obtain ⟨same, nodup⟩ := holds before found
  refine ⟨?_, (List.nodup_cons.mp nodup).2⟩
  simpa using same.erase fd

end

/-- A descriptor is closed if there is one. -/
theorem ends_close_if {C : Type → Type} {after : Option (List Int) → ∀ {β : Type}, C β → β → Option (List Int)} {α : Type}
    {post : Option (List Int) → α → Prop} {fds : Option (List Int)} {fd : Int} {others : List Int} {close : Prog C Unit}
    {p : Prog C α} (closes : close.Ends @after (fun fds' _ => fds' = fds.map (·.erase fd)) fds)
    (holds : Holds fds (descriptor fd ++ others)) (rest : ∀ fds, Holds fds others → p.Ends @after post fds) :
    (if fd ≥ 0 then (do close; p) else p).Ends @after post fds := by
  refine ends_ite.mpr ⟨fun valid => ends_bind.mpr (ends_mono closes ?_), fun invalid => ?_⟩
  · rintro _ _ rfl
    exact rest _ (holds_closed holds valid)
  · rw [descriptor_neg (Int.not_le.mp invalid)] at holds
    exact rest fds holds

/-- A call that opens and closes nothing. -/
def Quiet {β : Type} (c : Call β) : Prop := ∀ fds r, sockets fds c r = fds

theorem quiet_talk {β : Type} (c : SockCall β) (other : ¬ OpensOrCloses c) : Quiet (.sock c) := by
  intro fds r
  cases c <;> first | rfl | exact absurd trivial other

theorem quiet_fs {β : Type} (c : FsCall β) : Quiet (.fs c) := fun _ _ => rfl

section
variable {fds : Option (List Int)} {s : Session} {others : List Int}

section
variable {α β : Type} {post : Option (List Int) → α → Prop}

theorem ends_quiet {p : Prog Call α} (quiet : p.Wp Quiet (post fds)) : p.Ends sockets post fds :=
  ends_of_all (fun fds _ _ r quiet => quiet fds r) quiet

theorem ends_quiet_bind {p : Prog Call β} {f : β → Prog Call α} (quiet : p.Wp Quiet fun r => (f r).Ends sockets post fds) :
    (p >>= f).Ends sockets post fds :=
  ends_bind.mpr (ends_quiet quiet)

theorem ends_sock_bind {c : SockCall β} {f : β → Prog Call α}
    (rest : ∀ r, (f r).Ends sockets post (sockets fds (.sock c) r)) : (sock c >>= f).Ends sockets post fds :=
  ends_bind.mpr rest

end

/-- The control connection of `s`, and beside `others` only the recorded passive socket is open. -/
structure Keeps (s : Session) (others : List Int) (fds : Option (List Int)) (s' : Session) : Prop where
  ctrl : s'.ctrl = s.ctrl
  holds : Holds fds (descriptor s'.data_listen ++ others)

/-- No passive socket is recorded any more. -/
theorem without_listen (holds : Holds fds others) :
    Holds fds (descriptor (if s.data_listen ≥ 0 then -1 else s.data_listen) ++ others) := by
  rw [descriptor_neg (by split <;> omega)]
  exact holds

theorem drop_data_listen_keeps (holds : Holds fds (descriptor s.data_listen ++ others)) :
    (drop_data_listen s).Ends sockets (Keeps s others) fds := by
  unfold drop_data_listen
  exact ends_close_if (fun _ => rfl) holds fun fds holds => ⟨rfl, without_listen holds⟩

theorem data_listen_open_keeps (holds : Holds fds (descriptor s.data_listen ++ others)) :
    (data_listen_open s).Ends sockets (fun fds r => Keeps s others fds r.2) fds := by
  unfold data_listen_open
  refine ends_close_if (fun _ => rfl) holds fun fds holds => ends_sock_bind fun fd => ?_
  have holds : Holds (opened fds fd) (descriptor fd ++ others) := holds_opened holds
  refine ends_ite.mpr ⟨fun _ => ⟨rfl, holds⟩, fun valid => ends_sock_bind fun bound => ?_⟩
  have finish (rc : Int) : (if rc < 0 then (do
        sock (.lwip_close fd)
        pure (.error (-2), { s with data_is_port := false, data_listen := -1 }) : Prog Call (Except Int UInt16 × Session))
      else (do
        let port ← sock (.lwip_getsockname fd)
        pure (.ok port, { s with data_is_port := false, data_listen := fd }))).Ends sockets
      (fun fds r => Keeps s others fds r.2) (opened fds fd) := by
    refine ends_ite.mpr ⟨fun _ => ends_sock_bind fun _ => ⟨rfl, ?_⟩, fun _ => ends_sock_bind fun port => ⟨rfl, holds⟩⟩
    exact holds_closed holds (Int.not_lt.mp valid)
  exact ends_ite.mpr ⟨fun _ => ends_bind.mpr (finish (-1)), fun _ => ends_sock_bind finish⟩

/-- The data connection is open beside the rest. -/
theorem open_data_keeps (holds : Holds fds (descriptor s.data_listen ++ others)) :
    (open_data s).Ends sockets (fun fds r => Keeps s (descriptor r.1 ++ others) fds r.2) fds := by
  have connected (d : Int) : Holds (opened fds d) (descriptor d ++ (descriptor s.data_listen ++ others)) :=
    holds_opened holds
  unfold open_data
  refine ends_ite.mpr ⟨fun active => ends_sock_bind fun d => ?_, fun passive => ?_⟩
  · refine ends_ite.mpr ⟨fun negative => ⟨rfl, ?_⟩, fun valid => ends_sock_bind fun rc => ?_⟩
    · have unchanged := connected d
      rw [descriptor_neg negative] at unchanged
      exact unchanged
    refine ends_ite.mpr ⟨fun _ => ends_sock_bind fun _ => ⟨rfl, ?_⟩, fun _ => ends_sock_bind fun _ => ⟨rfl, ?_⟩⟩
    · exact holds_closed (connected d) (Int.not_lt.mp valid)
    · exact holds_swap (connected d)
  refine ends_ite.mpr ⟨fun _ => ⟨rfl, holds⟩, fun valid => ends_sock_bind fun ready => ?_⟩
  refine ends_ite.mpr ⟨fun _ => ends_sock_bind fun d => ends_sock_bind fun _ => ?_, fun _ => ?_⟩
  · have closed : Holds ((opened fds d).map (·.erase s.data_listen)) (descriptor d ++ others) :=
      holds_closed (holds_swap (connected d)) (Int.not_lt.mp valid)
    exact ends_ite.mpr ⟨fun _ => ends_sock_bind fun _ => ⟨rfl, closed⟩, fun _ => ⟨rfl, closed⟩⟩
  · exact ends_sock_bind fun _ => ⟨rfl, holds_closed holds (Int.not_lt.mp valid)⟩

theorem cmd_pasv_keeps (holds : Holds fds (descriptor s.data_listen ++ others)) :
    (cmd_pasv s).Ends sockets (Keeps s others) fds := by
  unfold cmd_pasv
  refine ends_bind.mpr (ends_mono (data_listen_open_keeps holds) ?_)
  rintro fds ⟨rc, s'⟩ keeps
  cases rc with
  | error rc => exact ends_quiet_bind (wp_ftp_send quiet_talk keeps)
  | ok port => exact ends_sock_bind fun ip => ends_quiet_bind (wp_ftp_sendf quiet_talk keeps)

theorem cmd_epsv_keeps (holds : Holds fds (descriptor s.data_listen ++ others)) :
    (cmd_epsv s).Ends sockets (Keeps s others) fds := by
  unfold cmd_epsv
  refine ends_bind.mpr (ends_mono (data_listen_open_keeps holds) ?_)
  rintro fds ⟨rc, s'⟩ keeps
  cases rc with
  | error rc => exact ends_quiet_bind (wp_ftp_send quiet_talk keeps)
  | ok port => exact ends_quiet_bind (wp_ftp_sendf quiet_talk keeps)

theorem set_port_keeps {peer : SockAddr} {msg : String} (holds : Holds fds (descriptor s.data_listen ++ others)) :
    (set_port s peer msg).Ends sockets (Keeps s others) fds := by
  unfold set_port
  refine ends_close_if (fun _ => rfl) holds fun fds holds => ends_quiet_bind (wp_ftp_send quiet_talk ?_)
  exact ⟨rfl, without_listen holds⟩

theorem cmd_port_keeps {arg : List UInt8} (holds : Holds fds (descriptor s.data_listen ++ others)) :
    (cmd_port s arg).Ends sockets (Keeps s others) fds := by
  unfold cmd_port
  split
  · exact ends_quiet (wp_say quiet_talk ⟨rfl, holds⟩)
  · exact set_port_keeps holds

theorem cmd_eprt_keeps {arg : List UInt8} (holds : Holds fds (descriptor s.data_listen ++ others)) :
    (cmd_eprt s arg).Ends sockets (Keeps s others) fds := by
  unfold cmd_eprt
  split
  · exact ends_quiet (wp_say quiet_talk ⟨rfl, holds⟩)
  · refine ends_sock_bind fun addr => ?_
    cases addr with
    | none => exact ends_quiet (wp_say quiet_talk ⟨rfl, holds⟩)
    | some addr => exact set_port_keeps holds

theorem no_data {data : Int} {s' : Session} (negative : data < 0) (keeps : Keeps s (descriptor data ++ others) fds s') :
    Keeps s others fds s' := by
  rw [descriptor_neg negative] at keeps
  exact keeps

/-- The end of a transfer. -/
theorem data_closed {data : Int} {s' s'' : Session} {msg : String} (valid : ¬ data < 0)
    (keeps : Keeps s (descriptor data ++ others) fds s') (ctrl : s''.ctrl = s'.ctrl)
    (data_listen : s''.data_listen = s'.data_listen) :
    (do sock (.lwip_close data); ftp_send s'.ctrl msg; pure s'' : Prog Call Session).Ends sockets (Keeps s others) fds := by
  refine ends_sock_bind fun _ => ends_quiet_bind (wp_ftp_send quiet_talk ⟨ctrl.trans keeps.ctrl, ?_⟩)
  rw [data_listen]
  exact holds_closed (holds_swap keeps.holds) (Int.not_lt.mp valid)

theorem cmd_list_keeps {fuel : Nat} {path : List UInt8} {long_fmt : Bool}
    (holds : Holds fds (descriptor s.data_listen ++ others)) :
    (cmd_list fuel s path long_fmt).Ends sockets (Keeps s others) fds := by
  unfold cmd_list
  refine ends_quiet_bind (wp_mounted (quiet_fs _) (quiet_fs _) fun st => ?_)
  cases st with
  | none => exact ends_quiet_bind (wp_ftp_send quiet_talk (drop_data_listen_keeps holds))
  | some st =>
    refine ends_bind.mpr (ends_mono (open_data_keeps holds) ?_)
    rintro fds ⟨data, s'⟩ keeps
    refine ends_ite.mpr ⟨fun negative => ?_, fun valid => ends_ite.mpr ⟨fun _ => ?_, fun _ => ?_⟩⟩
    · exact ends_quiet_bind (wp_ftp_send quiet_talk (no_data negative keeps))
    · refine ends_quiet_bind (wp_ftp_send quiet_talk (ends_quiet_bind (wp_ls_line quiet_talk fun line => ?_)))
      exact ends_quiet_bind (wp_send_line quiet_talk fun rc => data_closed valid keeps rfl rfl)
    · refine ends_quiet_bind (wp_ftp_send quiet_talk (ends_quiet_bind ?_))
      refine wp_mounted (quiet_fs _) (quiet_fs _) fun dir => ?_
      cases dir with
      | none => exact data_closed valid keeps rfl rfl
      | some dir =>
        refine ends_quiet_bind (wp_list_entries quiet_talk (fun c _ => quiet_fs c) ?_)
        refine ends_quiet_bind ⟨quiet_fs _, fun _ => ?_⟩
        exact data_closed valid keeps rfl rfl

theorem cmd_retr_keeps {fuel : Nat} {path : List UInt8} (holds : Holds fds (descriptor s.data_listen ++ others)) :
    (cmd_retr fuel s path).Ends sockets (Keeps s others) fds := by
  unfold cmd_retr
  refine ends_ite.mpr ⟨fun _ => ?_, fun _ => ends_quiet_bind (wp_open_retr (fun c _ => quiet_fs c) fun opened => ?_)⟩
  · exact ends_quiet_bind (wp_ftp_send quiet_talk (drop_data_listen_keeps holds))
  cases opened with
  | none =>
    refine ends_quiet_bind (wp_ftp_send quiet_talk (ends_mono (drop_data_listen_keeps holds) ?_))
    exact fun _ _ keeps => ⟨keeps.ctrl, keeps.holds⟩
  | some fp =>
    refine ends_quiet_bind (wp_ftp_send quiet_talk (ends_bind.mpr (ends_mono (open_data_keeps holds) ?_)))
    rintro fds ⟨data, s'⟩ keeps
    refine ends_ite.mpr ⟨fun negative => ends_quiet_bind ⟨quiet_fs _, fun _ => ?_⟩, fun valid => ?_⟩
    · obtain ⟨ctrl, holds⟩ := no_data negative keeps
      exact ends_quiet_bind (wp_ftp_send quiet_talk ⟨ctrl, holds⟩)
    · refine ends_quiet_bind (wp_send_file quiet_talk (fun c _ => quiet_fs c) ?_)
      refine ends_quiet_bind ⟨quiet_fs _, fun _ => ?_⟩
      exact data_closed valid keeps rfl rfl

theorem cmd_stor_keeps {fuel : Nat} {path : List UInt8} {is_appe : Bool}
    (holds : Holds fds (descriptor s.data_listen ++ others)) :
    (cmd_stor fuel s path is_appe).Ends sockets (Keeps s others) fds := by
  unfold cmd_stor
  refine ends_ite.mpr ⟨fun _ => ?_, fun _ => ends_quiet_bind (wp_open_stor quiet_fs fun opened => ?_)⟩
  · exact ends_quiet_bind (wp_ftp_send quiet_talk (drop_data_listen_keeps holds))
  cases opened with
  | none => exact ends_quiet_bind (wp_ftp_send quiet_talk (drop_data_listen_keeps holds))
  | some fp =>
    refine ends_quiet_bind (wp_ftp_send quiet_talk (ends_bind.mpr (ends_mono (open_data_keeps holds) ?_)))
    rintro fds ⟨data, s'⟩ keeps
    refine ends_ite.mpr ⟨fun negative => ends_quiet_bind ⟨quiet_fs _, fun _ => ?_⟩, fun valid => ?_⟩
    · obtain ⟨ctrl, holds⟩ := no_data negative keeps
      exact ends_quiet_bind (wp_ftp_send quiet_talk ⟨ctrl, holds⟩)
    · refine ends_quiet_bind (wp_receive_file quiet_talk quiet_fs fun pending_cr => ?_)
      refine ends_quiet_bind ⟨quiet_fs _, fun _ => ?_⟩
      exact data_closed valid keeps rfl rfl

/-- Every command but `QUIT` keeps to the passive socket of its session. -/
theorem handle_command_keeps {fuel : Nat} {line : List UInt8} (holds : Holds fds (descriptor s.data_listen ++ others))
    (other : cmd_of line ≠ some .QUIT) : (handle_command fuel s line).Ends sockets (Keeps s others) fds := by
  unfold handle_command
  generalize cmd_of line = cmd at other
  generalize arg_of line = arg
  have plain {s' : Session} {msg : String} (ctrl : s'.ctrl = s.ctrl) (data_listen : s'.data_listen = s.data_listen) :
      (say s' msg).Ends sockets (Keeps s others) fds :=
    ends_quiet (wp_say quiet_talk ⟨ctrl, by rwa [data_listen]⟩)
  rcases cmd with - | cmd
  · exact plain rfl rfl
  cases cmd with
  | QUIT => exact absurd rfl other
  | USER | SYST | FEAT | TYPE | CWD | CDUP | NOOP | ALLO => exact plain rfl rfl
  | PASS => exact ends_ite.mpr ⟨fun _ => plain rfl rfl, fun _ => plain rfl rfl⟩
  | PWD | REST => exact ends_quiet_bind (wp_ftp_sendf quiet_talk ⟨rfl, holds⟩)
  | PASV => exact cmd_pasv_keeps holds
  | EPSV => exact cmd_epsv_keeps holds
  | PORT => exact cmd_port_keeps holds
  | EPRT => exact cmd_eprt_keeps holds
  | LIST | NLST => exact ends_quiet_bind ⟨quiet_fs _, fun _ => cmd_list_keeps holds⟩
  | RETR => exact ends_quiet_bind ⟨quiet_fs _, fun _ => cmd_retr_keeps holds⟩
  | STOR | APPE => exact cmd_stor_keeps holds
  | DELE | RMD | XRMD => exact ends_quiet (wp_remove quiet_talk (fun _ => quiet_fs) ⟨rfl, holds⟩)
  | MKD | XMKD => exact ends_quiet (wp_cmd_mkd quiet_talk (fun _ => quiet_fs) ⟨rfl, holds⟩)
  | SIZE => exact ends_quiet (wp_cmd_size quiet_talk (fun c _ => quiet_fs c) ⟨rfl, holds⟩)
  | RNFR => exact ends_quiet (wp_cmd_rnfr quiet_talk (fun _ => quiet_fs) ⟨rfl, holds⟩ fun _ => ⟨rfl, holds⟩)
  | RNTO => exact ends_quiet (wp_cmd_rnto quiet_talk (fun _ => quiet_fs) ⟨rfl, holds⟩)

/-- `QUIT` closes the control connection and nothing else. -/
theorem quit_closes {fuel : Nat} {line : List UInt8} (holds : Holds fds (descriptor s.ctrl ++ others)) (valid : 0 ≤ s.ctrl)
    (quit : cmd_of line = some .QUIT) :
    (handle_command fuel s line).Ends sockets (fun fds s' => s' = { s with ctrl := -1 } ∧ Holds fds others) fds := by
  unfold handle_command
  rw [quit]
  exact ends_quiet_bind (wp_ftp_send quiet_talk (ends_sock_bind fun _ => ⟨rfl, holds_closed holds valid⟩))

end

/-! ### The task -/

/-- The descriptors that a session has recorded. -/
def recorded (s : Session) : List Int := descriptor s.ctrl ++ descriptor s.data_listen

def all_recorded (slots : List Slot) : List Int := slots.flatMap fun slot => recorded slot.session

theorem all_recorded_cons {slot : Slot} {rest : List Slot} :
    all_recorded (slot :: rest) = recorded slot.session ++ all_recorded rest := List.flatMap_cons

/-- A session without a client has no passive socket. -/
def Tidy (slot : Slot) : Prop := slot.session.ctrl < 0 → slot.session.data_listen < 0

/-- No `QUIT` was handled in a session with a passive socket. -/
def Harmless (log : Log) : Prop := ∀ handled ∈ log.handled, cmd_of handled.2 = some .QUIT → handled.1.data_listen < 0

instance (log : Log) : Decidable (Harmless log) := List.decidableBAll _ _

theorem harmless_append {log log' : Log} : Harmless (log.append log') ↔ Harmless log ∧ Harmless log' :=
  List.forall_mem_append

/-- Beside `others` the open sockets are the recorded ones. -/
structure Sound (others : List Int) (fds : Option (List Int)) (slots : List Slot) : Prop where
  tidy : ∀ slot ∈ slots, Tidy slot
  holds : Holds fds (all_recorded slots ++ others)

/-- They are, unless a passive socket was forgotten. -/
def SoundAfter (others : List Int) (fds : Option (List Int)) (r : List Slot × Log) : Prop :=
  Harmless r.2 → Sound others fds r.1

section
variable {fds : Option (List Int)} {others : List Int}

section
variable {α β : Type} {post : Option (List Int) → α → Prop}

theorem ends_ftp_bind {p : Prog Call β} {f : β → Prog TaskCall α}
    (first : p.Ends sockets (fun fds r => (f r).Ends task_sockets post fds) fds) :
    (ftp p >>= f).Ends task_sockets post fds :=
  ends_bind.mpr (ends_lift.mpr first)

theorem ends_task_bind {c : LoopCall β} {f : β → Prog TaskCall α}
    (rest : ∀ r, (f r).Ends task_sockets post (task_sockets fds (.task c) r)) :
    (task c >>= f).Ends task_sockets post fds :=
  ends_bind.mpr rest

theorem ends_recv_loop {post : Option (List Int) → Int × List UInt8 × List Item → Prop} {fd : Int} {room : Nat}
    {buf : List UInt8} {heard : List Item} (results : ∀ r, post fds r) :
    (recv_loop fd room buf heard).Ends task_sockets post fds := by
  induction room generalizing buf heard with
  | zero => exact results _
  | succ room ih =>
    refine ends_task_bind fun n => ?_
    cases n with
    | would_block => exact results _
    | closed => exact results _
    | data byte time => exact ends_ite.mpr ⟨fun _ => results _, fun _ => ih⟩

end

theorem tidy_empty : Tidy .empty := fun _ => Int.negSucc_lt_zero 0

theorem close_session_keeps {s : Session} (holds : Holds fds (recorded s ++ others)) :
    (close_session s).Ends task_sockets (fun fds slot => slot = .empty ∧ Holds fds others) fds := by
  unfold close_session
  rw [recorded, List.append_assoc] at holds
  refine ends_close_if (fun _ => rfl) holds fun fds holds => ?_
  exact ends_close_if (fun _ => rfl) holds fun fds holds => ⟨rfl, holds⟩

theorem serve_keeps {fuel : Nat} {slot : Slot} (valid : 0 ≤ slot.session.ctrl)
    (holds : Holds fds (recorded slot.session ++ others)) :
    (serve fuel slot).Ends task_sockets
      (fun fds r => Harmless r.2 → Tidy r.1 ∧ Holds fds (recorded r.1.session ++ others)) fds := by
  unfold serve
  refine ends_bind.mpr (ends_recv_loop ?_)
  rintro ⟨rl, line, items⟩
  refine ends_ite.mpr ⟨fun _ => ?_, fun _ => ends_ite.mpr ⟨fun _ => ?_, fun _ => ?_⟩⟩
  · refine ends_task_bind fun now => ends_ftp_bind ?_
    by_cases quit : cmd_of line = some .QUIT
    · have first : Holds fds (descriptor slot.session.ctrl ++ (descriptor slot.session.data_listen ++ others)) := by
        simpa [recorded] using holds
      refine ends_mono (quit_closes first valid quit) ?_
      rintro fds s ⟨rfl, holds⟩ harmless
      have free : slot.session.data_listen < 0 := harmless _ (List.mem_singleton.mpr rfl) quit
      exact ⟨fun _ => free, holds⟩
    · have first : Holds fds (descriptor slot.session.data_listen ++ (descriptor slot.session.ctrl ++ others)) :=
        holds_swap (by simpa [recorded] using holds)
      refine ends_mono (handle_command_keeps first quit) ?_
      rintro fds s ⟨ctrl, holds⟩ -
      refine ⟨fun negative => ?_, ?_⟩
      · exact absurd (ctrl ▸ negative) (Int.not_lt.mpr valid)
      · rw [recorded, ctrl, List.append_assoc]
        exact holds_swap holds
  · refine ends_bind.mpr (ends_mono (close_session_keeps holds) ?_)
    rintro fds closed ⟨rfl, holds⟩ -
    exact ⟨tidy_empty, holds⟩
  · intro _
    exact ⟨fun negative => absurd negative (Int.not_lt.mpr valid), holds⟩

/-- What happens after a harmful command does not matter. -/
theorem ends_harmless {α : Type} {post : Option (List Int) → α → Prop} {p : Prog TaskCall α} {log : Log} {P : Prop}
    (kept : Harmless log → P) (harmful : ¬ Harmless log → ∀ fds r, post fds r) (rest : P → p.Ends task_sockets post fds) :
    p.Ends task_sockets post fds := by
  by_cases harmless : Harmless log
  · exact rest (kept harmless)
  · exact ends_trivial (harmful harmless) p

/-- A slot before the others. -/
theorem sound_cons {slot : Slot} {rest : List Slot} :
    Sound others fds (slot :: rest) ↔
      Tidy slot ∧ (∀ slot ∈ rest, Tidy slot) ∧ Holds fds (recorded slot.session ++ (all_recorded rest ++ others)) := by
  rw [← List.append_assoc, ← all_recorded_cons]
  constructor
  · rintro ⟨tidy, holds⟩
    obtain ⟨first, tidy⟩ := List.forall_mem_cons.mp tidy
    exact ⟨first, tidy, holds⟩
  · rintro ⟨first, tidy, holds⟩
    exact ⟨List.forall_mem_cons.mpr ⟨first, tidy⟩, holds⟩

theorem serve_all_keeps {fuel : Nat} {ready : List Int} {slots : List Slot} (sound : Sound others fds slots) :
    (serve_all fuel ready slots).Ends task_sockets (SoundAfter others) fds := by
  induction slots generalizing fds others with
  | nil => exact fun _ => sound
  | cons slot rest ih =>
    obtain ⟨tidy, tidy_rest, holds⟩ := sound_cons.mp sound
    -- the rest of the slots is served beside what the first one has become
    have finish (fds : Option (List Int)) (r : Slot × Log)
        (kept : Harmless r.2 → Tidy r.1 ∧ Holds fds (recorded r.1.session ++ (all_recorded rest ++ others))) :
        (serve_all fuel ready rest >>= fun rest => pure (r.1 :: rest.1, r.2.append rest.2)).Ends task_sockets (SoundAfter others) fds := by
      refine ends_bind.mpr (ends_harmless kept ?_ ?_)
      · rintro harmful fds ⟨rest, log'⟩ harmless
        exact absurd (harmless_append.mp harmless).1 harmful
      · rintro ⟨tidy, holds⟩
        refine ends_mono (ih ⟨tidy_rest, holds_swap holds⟩) ?_
        rintro fds ⟨rest, log'⟩ sound harmless
        obtain ⟨tidy_rest, holds⟩ := sound (harmless_append.mp harmless).2
        exact sound_cons.mpr ⟨tidy, tidy_rest, holds_swap holds⟩
    refine ends_ite.mpr ⟨fun chosen => ?_, fun _ => ?_⟩
    · exact ends_bind.mpr (ends_mono (serve_keeps chosen.1 holds) finish)
    · exact ends_bind.mpr (finish fds (slot, {}) fun _ => ⟨tidy, holds⟩)

theorem expire_keeps {now : Nat} {slots : List Slot} (sound : Sound others fds slots) :
    (expire now slots).Ends task_sockets (fun fds r => r.2.handled = [] ∧ Sound others fds r.1) fds := by
  induction slots generalizing fds others with
  | nil => exact ⟨rfl, sound⟩
  | cons slot rest ih =>
    obtain ⟨tidy, tidy_rest, holds⟩ := sound_cons.mp sound
    have finish (fds : Option (List Int)) (slot : Slot) (log : Log) (silent : log.handled = []) (tidy : Tidy slot)
        (holds : Holds fds (recorded slot.session ++ (all_recorded rest ++ others))) :
        (expire now rest >>= fun rest => pure (slot :: rest.1, log.append rest.2)).Ends task_sockets
          (fun fds (r : List Slot × Log) => r.2.handled = [] ∧ Sound others fds r.1) fds := by
      refine ends_bind.mpr (ends_mono (ih ⟨tidy_rest, holds_swap holds⟩) ?_)
      rintro fds ⟨rest, log'⟩ ⟨none, tidy_rest, holds⟩
      refine ⟨?_, sound_cons.mpr ⟨tidy, tidy_rest, holds_swap holds⟩⟩
      exact List.append_eq_nil_iff.mpr ⟨silent, none⟩
    refine ends_ite.mpr ⟨fun _ => ends_bind.mpr (ends_mono (close_session_keeps holds) ?_), fun _ => ?_⟩
    · rintro fds closed ⟨rfl, holds⟩
      exact ends_bind.mpr (finish fds .empty _ rfl tidy_empty holds)
    · exact ends_bind.mpr (finish fds slot {} rfl tidy holds)

theorem recorded_free {slot : Slot} (tidy : Tidy slot) (free : slot.session.ctrl < 0) : recorded slot.session = [] := by
  rw [recorded, descriptor_neg free, descriptor_neg (tidy free)]
  rfl

/-- A client in a slot without one is one more descriptor. -/
theorem seat_recorded {c : Int} {accepted now : Nat} {slots : List Slot} (tidy : ∀ slot ∈ slots, Tidy slot)
    (free : ∃ slot ∈ slots, slot.session.ctrl < 0) :
    (descriptor c ++ all_recorded slots).Perm (all_recorded (seat c accepted now slots)) := by
  induction slots with
  | nil => simp at free
  | cons slot rest ih =>
    obtain ⟨first, tidy⟩ := List.forall_mem_cons.mp tidy
    unfold seat
    split
    · rename_i vacant
      rw [all_recorded_cons, all_recorded_cons, recorded_free first vacant, recorded, List.append_assoc]
      exact List.Perm.refl _
    · rename_i taken
      have free : ∃ slot ∈ rest, slot.session.ctrl < 0 := by simpa [taken] using free
      refine List.Perm.trans ?_ ((ih tidy free).append_left (recorded slot.session))
      rw [all_recorded_cons, ← List.append_assoc, ← List.append_assoc]
      exact List.perm_append_comm.append_right _

theorem seat_tidy {c : Int} {accepted now : Nat} {slots : List Slot} (tidy : ∀ slot ∈ slots, Tidy slot) :
    ∀ slot ∈ seat c accepted now slots, Tidy slot := by
  induction slots with
  | nil => exact tidy
  | cons slot rest ih =>
    obtain ⟨first, tidy⟩ := List.forall_mem_cons.mp tidy
    unfold seat
    split
    · exact List.forall_mem_cons.mpr ⟨fun _ => Int.negSucc_lt_zero 0, tidy⟩
    · exact List.forall_mem_cons.mpr ⟨first, ih tidy⟩

theorem accept_client_keeps {serv : Int} {slots : List Slot} (sound : Sound others fds slots) :
    (accept_client serv slots).Ends task_sockets (Sound others) fds := by
  obtain ⟨tidy, holds⟩ := sound
  unfold accept_client
  refine ends_task_bind ?_
  rintro ⟨c, accepted⟩
  have holds : Holds (opened fds c) (descriptor c ++ (all_recorded slots ++ others)) := holds_opened holds
  refine ends_ite.mpr ⟨fun valid => ends_ite.mpr ⟨fun free => ?_, fun _ => ?_⟩, fun invalid => ?_⟩
  · refine ends_task_bind fun now => ?_
    refine ends_ftp_bind fun _ => ends_ftp_bind (ends_quiet (wp_ftp_send quiet_talk ⟨seat_tidy tidy, ?_⟩))
    rw [← List.append_assoc] at holds
    exact holds_perm holds ((seat_recorded tidy free).append_right others)
  · exact ends_ftp_bind fun _ => ends_ftp_bind fun _ => ⟨tidy, holds_closed holds valid⟩
  · rw [descriptor_neg (Int.not_le.mp invalid)] at holds
    exact ⟨tidy, holds⟩

theorem ftp_round_keeps {fuel : Nat} {serv : Int} {slots : List Slot} (sound : Sound others fds slots) :
    (ftp_round fuel serv slots).Ends task_sockets (SoundAfter others) fds := by
  unfold ftp_round
  refine ends_task_bind fun ready => ?_
  have finish (fds : Option (List Int)) (r : List Slot × Log) (sound : SoundAfter others fds r) :
      (task .now_ms >>= fun now => expire now r.1 >>= fun slots => pure (slots.1, r.2.append slots.2)).Ends task_sockets (SoundAfter others) fds := by
    refine ends_task_bind fun now => ends_bind.mpr (ends_harmless sound ?_ fun sound => ?_)
    · rintro harmful fds ⟨slots, log'⟩ harmless
      exact absurd (harmless_append.mp harmless).1 harmful
    · refine ends_mono (expire_keeps sound) ?_
      rintro fds ⟨slots, log'⟩ ⟨-, sound⟩ -
      exact sound
  refine ends_ite.mpr ⟨fun _ => ?_, fun _ => ?_⟩
  · have served (fds : Option (List Int)) (slots : List Slot) (sound : Sound others fds slots) :=
      ends_bind.mpr (ends_mono (@serve_all_keeps fds others fuel ready slots sound) finish)
    refine ends_ite.mpr ⟨fun _ => ?_, fun _ => ?_⟩
    · exact ends_bind.mpr (ends_mono (accept_client_keeps sound) served)
    · exact ends_bind.mpr (served fds slots sound)
  · exact ends_bind.mpr (finish fds (slots, {}) fun _ => sound)

/-- The step of one round, over as many rounds as there are. -/
theorem ftp_rounds_keeps {fuel : Nat} {serv : Int} {rounds : Nat} {slots : List Slot} (sound : Sound others fds slots) :
    (ftp_rounds fuel serv rounds slots).Ends task_sockets (SoundAfter others) fds := by
  induction rounds generalizing fds slots with
  | zero => exact fun _ => sound
  | succ rounds ih =>
    refine ends_bind.mpr (ends_mono (ftp_round_keeps sound) ?_)
    rintro fds ⟨slots, log⟩ sound
    refine ends_bind.mpr (ends_harmless sound ?_ fun sound => ?_)
    · rintro harmful fds ⟨slots, log'⟩ harmless
      exact absurd (harmless_append.mp harmless).1 harmful
    · refine ends_mono (ih sound) ?_
      rintro fds ⟨slots, log'⟩ sound harmless
      exact sound (harmless_append.mp harmless).2

theorem ftp_task_keeps {fuel rounds : Nat} :
    (ftp_task fuel rounds).Ends task_sockets
      (fun fds r => ∀ serv slots log, r = some (serv, slots, log) → SoundAfter [serv] fds (slots, log)) (some []) := by
  unfold ftp_task
  refine ends_ftp_bind fun serv => ends_ite.mpr ⟨?_, fun valid => ends_ftp_bind fun bound => ?_⟩
  · rintro - serv slots log ⟨⟩
  have start : Sound [serv] (opened (some []) serv) (List.replicate FTP_MAX_CLIENTS .empty) := by
    refine ⟨fun slot member => List.eq_of_mem_replicate member ▸ tidy_empty, ?_⟩
    have holds : Holds (opened (some []) serv) (descriptor serv ++ []) := holds_opened fun _ known => by
      cases known
      exact ⟨.refl _, .nil⟩
    rwa [descriptor_nonneg (Int.not_lt.mp valid)] at holds
  have finish (rc : Int) : (if rc < 0 then pure none else (do
        let r ← ftp_rounds fuel serv rounds (List.replicate FTP_MAX_CLIENTS Slot.empty)
        pure (some (serv, r)) : Prog TaskCall (Option (Int × List Slot × Log)))).Ends task_sockets
      (fun fds r => ∀ serv slots log, r = some (serv, slots, log) → SoundAfter [serv] fds (slots, log))
      (opened (some []) serv) := by
    refine ends_ite.mpr ⟨?_, fun _ => ends_bind.mpr (ends_mono (ftp_rounds_keeps start) ?_)⟩
    · rintro - serv slots log ⟨⟩
    · rintro fds r sound serv slots log ⟨⟩
      exact sound
  exact ends_ite.mpr ⟨fun _ => ends_bind.mpr (finish (-1)), fun _ => ends_ftp_bind finish⟩

end

/-- In every run of the task in which no `QUIT` is handled in a session with a passive
    socket, after every round the open sockets are the listening socket and those recorded
    in the slots, each of them once, and a slot without a client has no passive socket. -/
theorem sockets_recorded {ω : Type} (exec : ∀ {β : Type}, TaskCall β → ω → β × ω) (w : ω) (fuel rounds : Nat)
    (serv : Int) (slots : List Slot) (log : Log) (fds : List Int)
    (reached : ((ftp_task fuel rounds).run (observed task_sockets @exec) (w, some [])).1 = some (serv, slots, log))
    (known : ((ftp_task fuel rounds).run (observed task_sockets @exec) (w, some [])).2.2 = some fds)
    (harmless : Harmless log) :
    fds.Perm (serv :: all_recorded slots) ∧ fds.Nodup ∧
      ∀ slot ∈ slots, slot.session.ctrl < 0 → slot.session.data_listen < 0 := by
  have ends := @run_ends _ _ _ @exec _ _ _ _ _ (@ftp_task_keeps fuel rounds) w
  obtain ⟨tidy, holds⟩ := ends serv slots log reached harmless
  obtain ⟨same, nodup⟩ := holds fds known
  exact ⟨same.trans List.perm_append_comm, same.nodup_iff.mpr nodup, tidy⟩

/-- The number of the next descriptor, the time, and what the clients send. -/
structure Net where
  next : Int := 0
  now : Nat := 0
  items : List Item

/-- Clients that connect one after the other, on a network on which everything else
    succeeds, to a device with one file. Only where nothing is heard does time go on. -/
def clients : ∀ {β : Type}, TaskCall β → Net → β × Net
  | _, .ftp (.sock .lwip_socket), net => (net.next, { net with next := net.next + 1 })
  | _, .ftp (.sock (.lwip_accept _)), net => (net.next, { net with next := net.next + 1 })
  | _, .task (.lwip_accept _), net => ((net.next, net.now), { net with next := net.next + 1 })
  | _, .ftp (.sock c), net => ((idle_sock c ()).1, net)
  | _, .ftp (.fs c), net => ((flat_fs c [(ascii "/a", [1])]).1, net)
  | _, .task (.lwip_select fds), net => (if fds.length = 1 then fds else fds.tail, net)
  | _, .task (.lwip_recv _), net => match net.items with
    | .data byte _ :: items => (.data byte net.now, { net with items := items })
    | .closed :: items => (.closed, { net with items := items })
    | items => (.would_block, { net with items := items.tail, now := net.now + FTP_CTRL_TIMEOUT_MS })
  | _, .task .now_ms, net => (net.now, net)

/-- The task with clients that send `items`: the listening socket, the slots and the log, and the open sockets. -/
def client_run (rounds : Nat) (items : List Item) : Option (Int × List Slot × Log) × Net × Option (List Int) :=
  (ftp_task 0 rounds).run (observed task_sockets @clients) ({ items }, some [])

def typed (text : String) : List Item := (ascii text).map fun byte => .data byte 0

/-- A `QUIT` after `PASV` leaves the passive socket open, and the next client takes its slot. -/
theorem passive_socket_leaked : ¬ ∀ rounds items, ∀ r ∈ (client_run rounds items).1, ∀ fds ∈ (client_run rounds items).2.2,
    fds.Perm (r.1 :: all_recorded r.2.1) ∧ fds.Nodup ∧
      ∀ slot ∈ r.2.1, slot.session.ctrl < 0 → slot.session.data_listen < 0 := by
  intro claim
  have recorded := claim 4 (typed "PASV\r\nQUIT\r\n")
  revert recorded
  decide

/-- A listing in passive mode before the `QUIT`. -/
theorem sockets_recorded_listing : ∃ serv slots log,
    (client_run 4 (typed "PASV\r\nLIST a\r\nQUIT\r\n")).1 = some (serv, slots, log) ∧
      [0].Perm (serv :: all_recorded slots) := by
  have harmless : ∀ r ∈ (client_run 4 (typed "PASV\r\nLIST a\r\nQUIT\r\n")).1, Harmless r.2.2 := by decide
  have known : (client_run 4 (typed "PASV\r\nLIST a\r\nQUIT\r\n")).2.2 = some [0] := by decide
  have set_up : (client_run 4 (typed "PASV\r\nLIST a\r\nQUIT\r\n")).1.isSome := by decide
  obtain ⟨⟨serv, slots, log⟩, reached⟩ := Option.isSome_iff_exists.mp set_up
  refine ⟨serv, slots, log, reached, ?_⟩
  exact (sockets_recorded @clients _ 0 4 serv slots log [0] reached known (harmless _ reached)).1

end IoEdgeHub.FtpSockets
