import IoEdgeHub.Calls
import IoEdgeHub.Clock
import IoEdgeHub.CStrings

/-!
The FTP server (`net/ftpd.c`): one control connection and what it does with each
line. The sockets, the clock and littlefs are reached through calls; the loops of a
transfer run for as many rounds as `fuel` says at most.
-/
namespace IoEdgeHub.Ftpd
open IoEdgeHub.Calls IoEdgeHub.CStrings IoEdgeHub.Clock

def FTP_PASS : List UInt8 := ascii "admin"

def FTP_BUF_SIZE : Nat := 512

def FTP_DATA_TIMEOUT_MS : Nat := 15000

structure SockAddr where
  addr : List UInt8 := [0, 0, 0, 0]
  port : Nat := 0
deriving DecidableEq

/-- Calls to the sockets, the network interface and the clock. A received piece is empty
    when there is nothing more to receive. `lwip_select` waits for a connection. -/
inductive SockCall : Type → Type
  | lwip_send (fd : Int) (bytes : List UInt8) : SockCall Int
  | lwip_recv (fd : Int) (size : Nat) : SockCall (List UInt8)
  | lwip_socket : SockCall Int
  | lwip_bind (fd : Int) : SockCall Int
  | lwip_listen (fd : Int) (backlog : Nat) : SockCall Int
  | lwip_getsockname (fd : Int) : SockCall UInt16
  | lwip_connect (fd : Int) (peer : SockAddr) : SockCall Int
  | lwip_select (fd : Int) (timeout_ms : Nat) : SockCall Bool
  | lwip_accept (fd : Int) : SockCall Int
  | lwip_close (fd : Int) : SockCall Unit
  | set_sock_timeout (fd : Int) (timeout_ms : Nat) : SockCall Unit
  | get_local_ip : SockCall (UInt8 × UInt8 × UInt8 × UInt8)
  | ip4addr_aton (text : List UInt8) : SockCall (Option (List UInt8))
  | io_now_epoch : SockCall UInt32
  /-- The memory behind the session's buffer. -/
  | behind_buf (size : Nat) : SockCall (List UInt8)

inductive FileType | LFS_TYPE_REG | LFS_TYPE_DIR
deriving DecidableEq

structure Info where
  type : FileType
  size : Nat
  name : List UInt8
deriving DecidableEq

/-- A file is opened for reading only, or for writing. -/
inductive Flags
  | LFS_O_RDONLY
  | LFS_O_WRONLY (creat append trunc : Bool)
deriving DecidableEq

/-- Calls to littlefs and to the recorder that shares it. An open file or directory is
    known by a number. A piece that is read is empty at the end and on an error. -/
inductive FsCall : Type → Type
  | history_sync : FsCall Unit
  | history_fs : FsCall Bool
  | lfs_stat (path : List UInt8) : FsCall (Option Info)
  | lfs_dir_open (path : List UInt8) : FsCall (Option Nat)
  | lfs_dir_read (dir : Nat) : FsCall (Option Info)
  | lfs_dir_close (dir : Nat) : FsCall Unit
  | lfs_file_open (path : List UInt8) (flags : Flags) : FsCall (Option Nat)
  | lfs_file_size (fp : Nat) : FsCall Int
  | lfs_file_seek (fp : Nat) (off : Int) (from_end : Bool) : FsCall Int
  | lfs_file_read (fp : Nat) (size : Nat) : FsCall (List UInt8)
  | lfs_file_write (fp : Nat) (bytes : List UInt8) : FsCall Int
  | lfs_file_close (fp : Nat) : FsCall Unit
  | lfs_remove (path : List UInt8) : FsCall Int
  | lfs_mkdir (path : List UInt8) : FsCall Int
  | lfs_rename (old new : List UInt8) : FsCall Int

inductive Call (β : Type)
  | sock (c : SockCall β)
  | fs (c : FsCall β)

def sock {β : Type} (c : SockCall β) : Prog Call β := .once (.sock c)

def fs {β : Type} (c : FsCall β) : Prog Call β := .once (.fs c)

/-- A littlefs call that is made only while the file system is mounted. -/
def mounted {β : Type} (absent : β) (c : FsCall β) : Prog Call β := do
  let up ← fs .history_fs
  if up then fs c else pure absent

structure Session where
  ctrl : Int
  authed : Bool := false
  anon : Bool := false
  data_listen : Int := -1
  data_is_port : Bool := false
  port_addr : SockAddr := {}
  cwd : List UInt8 := ascii "/"
  type_ascii : Bool := false
  rest : Nat := 0
  rename_from : List UInt8 := []
  rename_pending : Bool := false
  pending_cr : Bool := false
deriving DecidableEq

def crlf : List UInt8 := [13, 10]

def ftp_send (fd : Int) (msg : String) : Prog Call Unit := do
  let _ ← sock (.lwip_send fd (ascii msg ++ crlf))

/-- A formatted reply is cut so that the line end fits in. -/
def ftp_sendf (fd : Int) (text : List UInt8) : Prog Call Unit := do
  let _ ← sock (.lwip_send fd ((if text.length + 2 ≥ FTP_BUF_SIZE then text.take (FTP_BUF_SIZE - 3) else text) ++ crlf))

/-- `fuel` is at least the length: each round sends something. -/
def send_all (fd : Int) : Nat → List UInt8 → Prog Call Int
  | 0, _ => pure 0
  | fuel + 1, buf =>
    if buf = [] then pure 0
    else do
      let n ← sock (.lwip_send fd buf)
      if n ≤ 0 then pure (-1) else send_all fd fuel (buf.drop n.toNat)

/-- A line formatted into the session's buffer and sent with the length that `snprintf`
    returned: of a line that does not fit, the rest is what lies behind the buffer. -/
def send_line (fd : Int) (text : List UInt8) : Prog Call Int :=
  if text.length < FTP_BUF_SIZE then send_all fd text.length text
  else do
    let behind ← sock (.behind_buf (text.length - FTP_BUF_SIZE))
    send_all fd text.length (clip FTP_BUF_SIZE text ++ [0] ++ behind)

def slash : UInt8 := 47

/-- One component of a path, on the stack of those before it. -/
def path_part (parts : List (List UInt8)) (part : List UInt8) : List (List UInt8) :=
  if part = ascii "." then parts
  else if part = ascii ".." then parts.dropLast
  else if parts.length < 16 then parts ++ [part.take 47] else parts

def put_parts (outlen : Nat) : List UInt8 → List (List UInt8) → List UInt8
  | out, [] => out
  | out, part :: rest =>
    if out.length + part.length + 1 ≥ outlen then out else put_parts outlen (out ++ part ++ [slash]) rest

def norm_path (outlen : Nat) (cwd input : List UInt8) : List UInt8 :=
  let base := if input.head? = some slash then [] else cwd
  let tmp := clip 160 (base ++ [slash] ++ input)
  let parts := ((tmp.splitOn slash).filter (· ≠ [])).foldl path_part []
  let out := put_parts outlen [slash] parts
  if out.length > 1 then out.dropLast else out

def fs_path (cwd client_path : List UInt8) : List UInt8 := norm_path FTP_BUF_SIZE cwd client_path

/-- `\n` becomes `\r\n`. -/
def ascii_crlf (bytes : List UInt8) : List UInt8 := bytes.flatMap fun c => if c = 10 then [13, 10] else [c]

/-- `\r\n` becomes `\n`. -/
def drop_cr : List UInt8 → List UInt8
  | [] => []
  | c :: rest => if c = 13 ∧ rest.head? = some 10 then drop_cr rest else c :: drop_cr rest

/-- A `\r` at the end of a piece is held back: it may be the first half of a line end. -/
def ascii_strip_cr (buf : List UInt8) (pending_cr : Bool) : List UInt8 × Bool :=
  let kept := if pending_cr ∧ buf.head? = some 10 then buf.tail else buf
  if kept ≠ [] ∧ kept.getLast? = some 13 then ((drop_cr kept).dropLast, true) else (drop_cr kept, false)

def ftp_months : List (List UInt8) :=
  ["Jan", "Feb", "Mar", "Apr", "May", "Jun", "Jul", "Aug", "Sep", "Oct", "Nov", "Dec"].map ascii

/-- One field of the name. The digits that follow it are read along. -/
def hist_field (s : List UInt8) : Option (Nat × List UInt8) :=
  if (s.take 2).length = 2 ∧ (s.take 2).all isdigit then some (strtoul_value s, s.drop 2) else none

structure HistTime where
  mon : Nat
  day : Nat
  hour : Nat
  min : Nat
deriving DecidableEq

def parse_hist_time (name : List UInt8) : Option HistTime :=
  if name.take 5 = ascii "data_" then do
    let (mon, s) ← hist_field (name.drop 5)
    let (day, s) ← hist_field s
    let (hour, s) ← hist_field (s.dropWhile (· = 95))
    let (min, _) ← hist_field s
    if mon < 1 ∨ mon > 12 ∨ day < 1 ∨ day > 31 ∨ hour > 23 ∨ min > 59 then none else some { mon, day, hour, min }
  else none

def ls_time (mon0 day hour min : Nat) : List UInt8 :=
  ftp_months.getD mon0 [] ++ ascii " " ++ padded 32 2 day ++ ascii " " ++ two_digits hour ++ ascii ":" ++ two_digits min

def format_ls_time (name : List UInt8) : Prog Call (List UInt8) :=
  match parse_hist_time name with
  | some t => pure (ls_time (t.mon - 1) t.day t.hour t.min)
  | none => do
    let now ← sock .io_now_epoch
    match gmtime_r now.toNat with
    | some lt => pure (ls_time lt.tm_mon lt.tm_mday lt.tm_hour lt.tm_min)
    | none => pure (ls_time 0 1 0 0)

def ls_line (long_fmt dir : Bool) (size : Nat) (name : List UInt8) : Prog Call (List UInt8) := do
  let tbuf ← format_ls_time name
  pure (if long_fmt then
      ascii (if dir then "drwxr-xr-x" else "-rw-r--r--") ++ ascii " 1 owner group " ++ padded 32 10 size ++ ascii " " ++
        tbuf ++ ascii " " ++ name ++ crlf
    else name ++ crlf)

def drop_data_listen (s : Session) : Prog Call Session := do
  if s.data_listen ≥ 0 then sock (.lwip_close s.data_listen)
  pure { s with data_listen := if s.data_listen ≥ 0 then -1 else s.data_listen, data_is_port := false }

/-- The port, or the error -1 or -2. -/
def data_listen_open (s : Session) : Prog Call (Except Int UInt16 × Session) := do
  if s.data_listen ≥ 0 then sock (.lwip_close s.data_listen)
  let fd ← sock .lwip_socket
  let s := { s with data_is_port := false, data_listen := fd }
  if fd < 0 then pure (.error (-1), s)
  else
    let bound ← sock (.lwip_bind fd)
    let rc ← if bound < 0 then pure (-1) else sock (.lwip_listen fd 1)
    if rc < 0 then do
      sock (.lwip_close fd)
      pure (.error (-2), { s with data_listen := -1 })
    else
      let port ← sock (.lwip_getsockname fd)
      pure (.ok port, s)

def passive_error (rc : Int) : String :=
  if rc = -2 then "425 Passive bind failed" else "425 Cannot open passive connection"

def comma_separated (ns : List Nat) : List UInt8 := (ascii ",").intercalate (ns.map decimal)

def cmd_pasv (s : Session) : Prog Call Session := do
  let (rc, s) ← data_listen_open s
  match rc with
  | .error rc => ftp_send s.ctrl (passive_error rc)
  | .ok port => do
    let ip ← sock .get_local_ip
    ftp_sendf s.ctrl (ascii "227 Entering Passive Mode (" ++
      comma_separated [ip.1.toNat, ip.2.1.toNat, ip.2.2.1.toNat, ip.2.2.2.toNat, port.toNat / 256, port.toNat % 256] ++
      ascii ")")
  pure s

def cmd_epsv (s : Session) : Prog Call Session := do
  let (rc, s) ← data_listen_open s
  match rc with
  | .error rc => ftp_send s.ctrl (passive_error rc)
  | .ok port => ftp_sendf s.ctrl (ascii "229 Entering Extended Passive Mode (|||" ++ decimal port.toNat ++ ascii "|)")
  pure s

/-- The `count` numbers of a `PORT` argument, separated by commas. -/
def port_numbers : Nat → List UInt8 → Option (List Nat)
  | 0, _ => some []
  | count + 1, arg => do
    let (v, tail) ← strtoul arg
    if v > 255 ∨ (count > 0 ∧ tail.head? ≠ some 44) then none
    else do
      let vs ← port_numbers count tail.tail
      pure (v :: vs)

/-- Active mode from now on, towards `peer`. -/
def set_port (s : Session) (peer : SockAddr) (msg : String) : Prog Call Session := do
  if s.data_listen ≥ 0 then sock (.lwip_close s.data_listen)
  ftp_send s.ctrl msg
  pure { s with data_listen := if s.data_listen ≥ 0 then -1 else s.data_listen, port_addr := peer, data_is_port := true }

def cmd_port (s : Session) (arg : List UInt8) : Prog Call Session :=
  match port_numbers 6 arg with
  | none => do
    ftp_send s.ctrl "501 Syntax error in parameters"
    pure s
  | some v =>
    set_port s { addr := (v.take 4).map UInt8.ofNat, port := v.getD 4 0 * 256 + v.getD 5 0 } "200 PORT command successful"

/-- The address text and the port of `|1|address|port|`. -/
def eprt_fields (arg : List UInt8) : Option (List UInt8 × Nat) :=
  if arg.head? = some 124 then do
    let (_, p1) ← strchr 124 arg.tail
    let (text, p2) ← strchr 124 p1
    if strtoul_value arg.tail ≠ 1 ∨ strtoul_value p2 = 0 ∨ strtoul_value p2 > 0xFFFF ∨ text = [] ∨ text.length ≥ 32 then none
    else some (text, strtoul_value p2)
  else none

def cmd_eprt (s : Session) (arg : List UInt8) : Prog Call Session :=
  match eprt_fields arg with
  | none => do
    ftp_send s.ctrl "522 Network protocol not supported, use (1)"
    pure s
  | some (text, port) => do
    let addr ← sock (.ip4addr_aton text)
    match addr with
    | none => do
      ftp_send s.ctrl "501 Bad address"
      pure s
    | some addr => set_port s { addr, port } "200 EPRT command successful"

/-- The socket of the data connection, negative if there is none. -/
def open_data (s : Session) : Prog Call (Int × Session) :=
  if s.data_is_port then do
    let s := { s with data_is_port := false }
    let d ← sock .lwip_socket
    if d < 0 then pure (-1, s)
    else
      let rc ← sock (.lwip_connect d s.port_addr)
      if rc < 0 then do
        sock (.lwip_close d)
        pure (-1, s)
      else do
        sock (.set_sock_timeout d FTP_DATA_TIMEOUT_MS)
        pure (d, s)
  else if s.data_listen < 0 then pure (-1, s)
  else do
    let ready ← sock (.lwip_select s.data_listen FTP_DATA_TIMEOUT_MS)
    if ready then
      let d ← sock (.lwip_accept s.data_listen)
      sock (.lwip_close s.data_listen)
      if d ≥ 0 then sock (.set_sock_timeout d FTP_DATA_TIMEOUT_MS)
      pure (d, { s with data_listen := -1 })
    else
      sock (.lwip_close s.data_listen)
      pure (-1, { s with data_listen := -1 })

def list_entries (long_fmt : Bool) (data : Int) (dir : Nat) : Nat → Prog Call Unit
  | 0 => pure ()
  | fuel + 1 => do
    let entry ← fs (.lfs_dir_read dir)
    match entry with
    | none => pure ()
    | some info =>
      if info.name = ascii "." ∨ info.name = ascii ".." then list_entries long_fmt data dir fuel
      else do
        let line ← ls_line long_fmt (info.type = .LFS_TYPE_DIR) info.size info.name
        let rc ← send_line data line
        if rc ≠ 0 then pure () else list_entries long_fmt data dir fuel

/-- The part of a path behind its last slash. -/
def base_name (path : List UInt8) : List UInt8 := (path.reverse.takeWhile (· ≠ slash)).reverse

def cmd_list (fuel : Nat) (s : Session) (path : List UInt8) (long_fmt : Bool) : Prog Call Session := do
  let fspath := fs_path s.cwd path
  let st ← mounted none (.lfs_stat fspath)
  match st with
  | none => do
    ftp_send s.ctrl "550 No such file or directory"
    drop_data_listen s
  | some st => do
    let (data, s) ← open_data s
    if data < 0 then do
      ftp_send s.ctrl "425 No data connection"
      pure s
    else if st.type = .LFS_TYPE_REG then do
      ftp_send s.ctrl "150 Here comes the file listing"
      let line ← ls_line long_fmt false st.size (base_name path)
      let _ ← send_line data line
      sock (.lwip_close data)
      ftp_send s.ctrl "226 Transfer complete"
      pure s
    else do
      ftp_send s.ctrl "150 Here comes the directory listing"
      let dir ← mounted none (.lfs_dir_open fspath)
      match dir with
      | some dir => do
        list_entries long_fmt data dir fuel
        fs (.lfs_dir_close dir)
      | none => pure ()
      sock (.lwip_close data)
      ftp_send s.ctrl "226 Directory send OK"
      pure s

def send_file (type_ascii : Bool) (data : Int) (fp : Nat) : Nat → Prog Call Unit
  | 0 => pure ()
  | fuel + 1 => do
    let bytes ← mounted [] (.lfs_file_read fp (FTP_BUF_SIZE / 2))
    if bytes = [] then pure ()
    else do
      let out := if type_ascii then ascii_crlf bytes else bytes
      let rc ← send_all data out.length out
      if rc ≠ 0 then pure () else send_file type_ascii data fp fuel

/-- The file opened for reading, at the restart position. An offset is a signed 32-bit number. -/
def open_retr (fspath : List UInt8) (rest : Nat) : Prog Call (Option Nat) := do
  let fp ← mounted none (.lfs_file_open fspath .LFS_O_RDONLY)
  match fp with
  | none => pure none
  | some fp => do
    let size ← fs (.lfs_file_size fp)
    if size < 0 then do
      fs (.lfs_file_close fp)
      pure none
    else if rest > 0 then do
      let off ← fs (.lfs_file_seek fp (Int.bmod rest (2^32)) false)
      if off < 0 then do
        fs (.lfs_file_close fp)
        pure none
      else pure (some fp)
    else pure (some fp)

def cmd_retr (fuel : Nat) (s : Session) (path : List UInt8) : Prog Call Session :=
  if ¬ s.authed then do
    ftp_send s.ctrl "530 Not logged in"
    drop_data_listen s
  else do
    let opened ← open_retr (fs_path s.cwd path) s.rest
    match opened with
    | none => do
      ftp_send s.ctrl "550 Failed to open file"
      drop_data_listen { s with rest := 0 }
    | some fp => do
      ftp_send s.ctrl "150 Opening data connection"
      let (data, s) ← open_data s
      if data < 0 then do
        fs (.lfs_file_close fp)
        ftp_send s.ctrl "425 No data connection"
        pure { s with rest := 0 }
      else do
        send_file s.type_ascii data fp fuel
        fs (.lfs_file_close fp)
        sock (.lwip_close data)
        ftp_send s.ctrl "226 Transfer complete"
        pure { s with rest := 0 }

/-- Returns `pending_cr` as it is left. -/
def receive_file (type_ascii : Bool) (data : Int) (fp : Nat) : Nat → Bool → Prog Call Bool
  | 0, pending_cr => pure pending_cr
  | fuel + 1, pending_cr => do
    let piece ← sock (.lwip_recv data FTP_BUF_SIZE)
    if piece = [] then pure pending_cr
    else
      let (bytes, pending_cr) := if type_ascii then ascii_strip_cr piece pending_cr else (piece, pending_cr)
      if bytes = [] then receive_file type_ascii data fp fuel pending_cr
      else do
        let wr ← mounted (-1) (.lfs_file_write fp bytes)
        if wr ≠ bytes.length then pure pending_cr else receive_file type_ascii data fp fuel pending_cr

def open_stor (fspath : List UInt8) (rest : Nat) (is_appe : Bool) : Prog Call (Option Nat) := do
  let fp ← mounted none (.lfs_file_open fspath (.LFS_O_WRONLY true is_appe (!is_appe && rest == 0)))
  match fp with
  | none => pure none
  | some fp =>
    if is_appe then do
      let _ ← fs (.lfs_file_seek fp 0 true)
      pure (some fp)
    else if rest > 0 then do
      let _ ← fs (.lfs_file_seek fp (Int.bmod rest (2^32)) false)
      pure (some fp)
    else pure (some fp)

def cmd_stor (fuel : Nat) (s : Session) (path : List UInt8) (is_appe : Bool) : Prog Call Session :=
  if ¬ s.authed ∨ s.anon then do
    ftp_send s.ctrl "530 Permission denied"
    drop_data_listen s
  else do
    let opened ← open_stor (fs_path s.cwd path) s.rest is_appe
    match opened with
    | none => do
      ftp_send s.ctrl "550 Failed to open file"
      drop_data_listen s
    | some fp => do
      ftp_send s.ctrl "150 Ok to send data"
      let (data, s) ← open_data s
      if data < 0 then do
        fs (.lfs_file_close fp)
        ftp_send s.ctrl "425 No data connection"
        pure { s with rest := 0 }
      else do
        let pending_cr ← receive_file s.type_ascii data fp fuel false
        fs (.lfs_file_close fp)
        sock (.lwip_close data)
        ftp_send s.ctrl "226 Transfer complete"
        pure { s with rest := 0, pending_cr }

inductive Cmd
  | USER | PASS | SYST | FEAT | TYPE | PWD | CWD | CDUP | PASV | EPSV | PORT | EPRT | LIST | NLST | RETR | STOR | APPE
  | DELE | MKD | XMKD | RMD | XRMD | SIZE | REST | RNFR | RNTO | QUIT | NOOP | ALLO
deriving DecidableEq

def commands : List (List UInt8 × Cmd) :=
  [(ascii "USER", .USER), (ascii "PASS", .PASS), (ascii "SYST", .SYST), (ascii "FEAT", .FEAT), (ascii "TYPE", .TYPE),
   (ascii "PWD", .PWD), (ascii "CWD", .CWD), (ascii "CDUP", .CDUP), (ascii "PASV", .PASV), (ascii "EPSV", .EPSV),
   (ascii "PORT", .PORT), (ascii "EPRT", .EPRT), (ascii "LIST", .LIST), (ascii "NLST", .NLST), (ascii "RETR", .RETR),
   (ascii "STOR", .STOR), (ascii "APPE", .APPE), (ascii "DELE", .DELE), (ascii "MKD", .MKD), (ascii "XMKD", .XMKD),
   (ascii "RMD", .RMD), (ascii "XRMD", .XRMD), (ascii "SIZE", .SIZE), (ascii "REST", .REST), (ascii "RNFR", .RNFR),
   (ascii "RNTO", .RNTO), (ascii "QUIT", .QUIT), (ascii "NOOP", .NOOP), (ascii "ALLO", .ALLO)]

/-- The command of a line: at most seven characters before the first space, in capitals. -/
def cmd_of (line : List UInt8) : Option Cmd :=
  commands.lookup ((((cstr line).takeWhile (· ≠ 32)).take 7).map toupper)

/-- What follows the first space. -/
def arg_of (line : List UInt8) : List UInt8 := ((cstr line).dropWhile (· ≠ 32)).tail

def is_anonymous (user : List UInt8) : Bool := user = ascii "anonymous" || user = ascii "ftp"

/-- A change of the file system that needs a full login; the result is negative without one. -/
def privileged (s : Session) (c : FsCall Int) : Prog Call Int :=
  if s.authed ∧ ¬ s.anon then mounted (-1) c else pure (-1)

/-- A reply that depends on a result. -/
def ftp_result (fd rc : Int) (good bad : String) : Prog Call Unit := ftp_send fd (if rc = 0 then good else bad)

def feat_text : String :=
  "211-Features:\r\n SIZE\r\n PASV\r\n EPSV\r\n PORT\r\n EPRT\r\n REST STREAM\r\n TYPE A;I\r\n NLST\r\n MKD\r\n RMD\r\n211 END"

/-- A reply, and nothing else. -/
def say (s : Session) (msg : String) : Prog Call Session := do
  ftp_send s.ctrl msg
  pure s

def cmd_mkd (s : Session) (arg : List UInt8) : Prog Call Session := do
  let rc ← privileged s (.lfs_mkdir (fs_path s.cwd arg))
  if rc = 0 then ftp_sendf s.ctrl (ascii "257 \"" ++ arg ++ ascii "\" created")
  else ftp_send s.ctrl "550 Cannot create directory"
  pure s

def cmd_size (s : Session) (arg : List UInt8) : Prog Call Session := do
  let st ← mounted none (.lfs_stat (fs_path s.cwd arg))
  match st.filter (·.type = .LFS_TYPE_REG) with
  | some st => ftp_sendf s.ctrl (ascii "213 " ++ decimal st.size)
  | none => ftp_send s.ctrl "550 Not found"
  pure s

def cmd_rnfr (s : Session) (arg : List UInt8) : Prog Call Session := do
  let fspath := fs_path s.cwd arg
  let st ← if s.authed ∧ ¬ s.anon then mounted none (.lfs_stat fspath) else pure none
  if st.isSome then do
    ftp_send s.ctrl "350 Ready for RNTO"
    pure { s with rename_from := fspath.take 127, rename_pending := true }
  else say s "550 No such file"

def cmd_rnto (s : Session) (arg : List UInt8) : Prog Call Session := do
  let rc ← if s.rename_pending then privileged s (.lfs_rename s.rename_from (fs_path s.cwd arg)) else pure (-1)
  ftp_result s.ctrl rc "250 Rename successful" "550 Rename failed"
  pure { s with rename_pending := false }

def handle_command (fuel : Nat) (s : Session) (line : List UInt8) : Prog Call Session :=
  let arg := arg_of line
  match cmd_of line with
  | some .USER => say { s with anon := is_anonymous arg, rename_pending := false } "331 Please specify the password"
  | some .PASS =>
    if s.anon ∨ arg = FTP_PASS then say { s with authed := true } "230 Login successful"
    else say { s with authed := false } "530 Login incorrect"
  | some .SYST => say s "215 UNIX Type: L8"
  | some .FEAT => say s feat_text
  | some .TYPE => say { s with type_ascii := arg.head? = some 65 ∨ arg.head? = some 97 } "200 Type set"
  | some .PWD => do
    ftp_sendf s.ctrl (ascii "257 \"" ++ s.cwd ++ ascii "\" is the current directory")
    pure s
  | some .CWD => say { s with cwd := norm_path 64 s.cwd arg } "250 Directory successfully changed"
  | some .CDUP => say { s with cwd := norm_path 64 s.cwd (ascii "..") } "250 Directory successfully changed"
  | some .PASV => cmd_pasv s
  | some .EPSV => cmd_epsv s
  | some .PORT => cmd_port s arg
  | some .EPRT => cmd_eprt s arg
  | some .LIST => do
    fs .history_sync
    cmd_list fuel s arg true
  | some .NLST => do
    fs .history_sync
    cmd_list fuel s arg false
  | some .RETR => do
    fs .history_sync
    cmd_retr fuel s arg
  | some .STOR => cmd_stor fuel s arg false
  | some .APPE => cmd_stor fuel s arg true
  | some .DELE => do
    let rc ← privileged s (.lfs_remove (fs_path s.cwd arg))
    ftp_result s.ctrl rc "250 Delete OK" "550 Delete failed"
    pure s
  | some .MKD | some .XMKD => cmd_mkd s arg
  | some .RMD | some .XRMD => do
    let rc ← privileged s (.lfs_remove (fs_path s.cwd arg))
    ftp_result s.ctrl rc "250 Remove OK" "550 Cannot remove"
    pure s
  | some .SIZE => cmd_size s arg
  | some .REST => do
    let rest := strtoul_value arg
    ftp_sendf s.ctrl (ascii "350 Restart position accepted (" ++ decimal rest ++ ascii ")")
    pure { s with rest }
  | some .RNFR => cmd_rnfr s arg
  | some .RNTO => cmd_rnto s arg
  | some .QUIT => do
    ftp_send s.ctrl "221 Goodbye"
    sock (.lwip_close s.ctrl)
    pure { s with ctrl := -1 }
  | some .NOOP | some .ALLO => say s "200 OK"
  | none => say s "502 Command not implemented"

end IoEdgeHub.Ftpd
