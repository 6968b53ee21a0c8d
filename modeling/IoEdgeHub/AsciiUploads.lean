import IoEdgeHub.FtpAuth

/-!
Uploads in text mode (`cmd_stor` in `net/ftpd.c`). The pieces that arrive are converted
one after the other, with a flag that says whether the last one ended in a `\r`. That
`\r` is left out of what is written and never written later: a piece that ends in one
loses it, and the file is the converted whole exactly if no piece does.
-/
namespace IoEdgeHub.AsciiUploads
open IoEdgeHub.Calls IoEdgeHub.CStrings IoEdgeHub.Ftpd IoEdgeHub.FtpAuth IoEdgeHub.Machine

def EndsInCr (piece : List UInt8) : Prop := piece.getLast? = some 13

instance (piece : List UInt8) : Decidable (EndsInCr piece) := inferInstanceAs (Decidable (_ = _))

theorem drop_cr_pair (rest : List UInt8) : drop_cr (13 :: 10 :: rest) = 10 :: drop_cr rest := by simp [drop_cr]

theorem drop_cr_keep {c : UInt8} {rest : List UInt8} (single : ¬ (c = 13 ∧ rest.head? = some 10)) :
    drop_cr (c :: rest) = c :: drop_cr rest := by
  rw [drop_cr, if_neg single]

theorem ends_in_cr_cons {c d : UInt8} {rest : List UInt8} : EndsInCr (c :: d :: rest) ↔ EndsInCr (d :: rest) := by
  rw [EndsInCr, EndsInCr, List.getLast?_cons_cons]

/-- A text can be cut anywhere but inside a line end. -/
theorem drop_cr_append {first second : List UInt8} (cut : ¬ (EndsInCr first ∧ second.head? = some 10)) :
    drop_cr (first ++ second) = drop_cr first ++ drop_cr second := by
  induction first with
  | nil => rfl
  | cons c rest ih =>
    cases rest with
    | nil =>
      have single : ¬ (c = 13 ∧ second.head? = some 10) := fun ⟨cr, lf⟩ => cut ⟨by rw [cr]; rfl, lf⟩
      rw [List.cons_append, List.nil_append, drop_cr_keep single, drop_cr_keep (by simp)]
      rfl
    | cons d rest =>
      rw [ends_in_cr_cons] at cut
      specialize ih cut
      by_cases pair : c = 13 ∧ d = 10
      · obtain ⟨rfl, rfl⟩ := pair
        rw [drop_cr_keep (by simp)] at ih
        simpa [drop_cr_pair, drop_cr_keep] using ih
      · have single (tail : List UInt8) : ¬ (c = 13 ∧ (d :: tail).head? = some 10) := by simpa using pair
        rw [List.cons_append, List.cons_append, drop_cr_keep (single _), drop_cr_keep (single _), ← List.cons_append, ih]
        rfl

/-- What was sent in text mode is converted back. -/
theorem drop_cr_ascii_crlf {bytes : List UInt8} (plain : 13 ∉ bytes) : drop_cr (ascii_crlf bytes) = bytes := by
  induction bytes with
  | nil => rfl
  | cons c rest ih =>
    rw [List.mem_cons, not_or] at plain
    obtain ⟨other, later⟩ := plain
    have tail : drop_cr (List.flatMap (fun c => if c = 10 then [13, 10] else [c]) rest) = rest := ih later
    rw [ascii_crlf, List.flatMap_cons]
    by_cases lf : c = 10
    · rw [if_pos lf, List.cons_append, List.cons_append, List.nil_append, drop_cr_pair, tail, lf]
    · rw [if_neg lf, List.cons_append, List.nil_append, drop_cr_keep fun pair => other pair.1.symm, tail]

/-- One piece converted, with what is left for the next one. -/
def strip (pending_cr : Bool) (piece : List UInt8) : List UInt8 × Bool := ascii_strip_cr piece pending_cr

/-- A `\r` that was held back. -/
def held (pending_cr : Bool) : List UInt8 := if pending_cr then [13] else []

/-- A piece without a `\n` that was written already. -/
def unmerged (pending_cr : Bool) (piece : List UInt8) : List UInt8 :=
  if pending_cr ∧ piece.head? = some 10 then piece.tail else piece

theorem unmerged_ends {pending_cr : Bool} {piece : List UInt8} : EndsInCr (unmerged pending_cr piece) ↔ EndsInCr piece := by
  unfold unmerged
  split
  · rename_i merged
    obtain ⟨-, lf⟩ := merged
    rcases piece with - | ⟨c, - | ⟨d, rest⟩⟩
    · rfl
    · cases lf
      simp [EndsInCr]
    · exact ends_in_cr_cons.symm
  · rfl

/-- For the `\r` that was held back there is one byte in front of the piece. -/
theorem drop_cr_held (pending_cr : Bool) (piece : List UInt8) : ∃ first : List UInt8, first.length = (held pending_cr).length ∧
    drop_cr (held pending_cr ++ piece) = first ++ drop_cr (unmerged pending_cr piece) := by
  cases pending_cr with
  | false => exact ⟨[], rfl, by simp [held, unmerged]⟩
  | true =>
    by_cases lf : piece.head? = some 10
    · obtain ⟨rest, rfl⟩ : ∃ rest, piece = 10 :: rest := by
        cases piece with
        | nil => cases lf
        | cons c rest => exact ⟨rest, by simpa using lf⟩
      exact ⟨[10], rfl, by simp [held, unmerged, drop_cr_pair]⟩
    · refine ⟨[13], rfl, ?_⟩
      have single : ¬ ((13 : UInt8) = 13 ∧ piece.head? = some 10) := fun pair => lf pair.2
      simp [held, unmerged, lf, drop_cr_keep single]

theorem strip_whole {pending_cr : Bool} {piece : List UInt8} (ends : ¬ EndsInCr piece) :
    strip pending_cr piece = (drop_cr (unmerged pending_cr piece), false) := by
  have kept : ¬ (unmerged pending_cr piece).getLast? = some 13 := unmerged_ends.not.mpr ends
  exact if_neg fun cut => kept cut.2

/-- Of a piece that ends in a `\r`, the `\r` is not written. -/
theorem strip_cut {pending_cr : Bool} {piece : List UInt8} (ends : EndsInCr piece) :
    ∃ body, unmerged pending_cr piece = body ++ [13] ∧ strip pending_cr piece = (drop_cr body, true) := by
  have kept : (unmerged pending_cr piece).getLast? = some 13 := unmerged_ends.mpr ends
  obtain ⟨body, split⟩ := List.getLast?_eq_some_iff.mp kept
  have written : drop_cr (body ++ [13]) = drop_cr body ++ [13] := drop_cr_append (by simp)
  refine ⟨body, split, ?_⟩
  have filled : unmerged pending_cr piece ≠ [] := by simp [split]
  have cut : strip pending_cr piece = ((drop_cr (unmerged pending_cr piece)).dropLast, true) := if_pos ⟨filled, kept⟩
  rw [cut, split, written, List.dropLast_concat]

/-- All pieces converted one after the other. -/
def converted (pieces : List (List UInt8)) : List UInt8 := (trace strip false pieces).1

/-- Each piece that ends in a `\r` makes the file shorter by one byte. -/
theorem trace_strip_length {pending_cr : Bool} {pieces : List (List UInt8)} (received : ∀ piece ∈ pieces, piece ≠ []) :
    (trace strip pending_cr pieces).1.length + (held pending_cr).length + pieces.countP (EndsInCr ·) =
      (drop_cr (held pending_cr ++ pieces.flatten)).length := by
  induction pieces generalizing pending_cr with
  | nil => cases pending_cr <;> rfl
  | cons piece rest ih =>
    have later := fun pending_cr => @ih pending_cr fun piece member => received piece (by simp [member])
    obtain ⟨first, one, front⟩ := drop_cr_held pending_cr piece
    rw [List.flatten_cons, ← List.append_assoc]
    by_cases ends : EndsInCr piece
    · obtain ⟨body, kept, written⟩ := @strip_cut pending_cr piece ends
      obtain ⟨start, split⟩ := List.getLast?_eq_some_iff.mp ends
      have whole : drop_cr (held pending_cr ++ start ++ [13]) = drop_cr (held pending_cr ++ start) ++ [13] :=
        drop_cr_append (by simp)
      have cut : drop_cr (held pending_cr ++ start ++ (13 :: rest.flatten)) =
          drop_cr (held pending_cr ++ start) ++ drop_cr (13 :: rest.flatten) := drop_cr_append (by simp)
      have body_whole : drop_cr (body ++ [13]) = drop_cr body ++ [13] := drop_cr_append (by simp)
      rw [kept, body_whole, split, ← List.append_assoc, whole] at front
      have lengths := congrArg List.length front
      have after := later true
      rw [show held true ++ rest.flatten = 13 :: rest.flatten from rfl] at after
      rw [split, ← List.append_assoc, List.append_assoc, List.singleton_append, cut, trace, ← split, written,
        List.countP_cons_of_pos (by simpa using ends)]
      simp only [List.length_append, List.length_singleton, held, if_true] at lengths after ⊢
      simp only [held] at one
      omega
    · have cut : drop_cr (held pending_cr ++ piece ++ rest.flatten) =
          drop_cr (held pending_cr ++ piece) ++ drop_cr rest.flatten := by
        refine drop_cr_append fun inside => ends ?_
        have filled : piece ≠ [] := received piece (by simp)
        have last : (held pending_cr ++ piece).getLast? = piece.getLast? := List.getLast?_append_of_ne_nil _ filled
        rw [EndsInCr, ← last]
        exact inside.1
      have after := later false
      rw [show held false ++ rest.flatten = rest.flatten from rfl] at after
      rw [cut, front, trace, strip_whole ends, List.countP_cons_of_neg (by simpa using ends)]
      simp only [List.length_append, show (held false).length = 0 from rfl] at after ⊢
      omega

/-- Pieces that do not end in a `\r` are converted as one. -/
theorem trace_strip_whole {pieces : List (List UInt8)} (whole : ∀ piece ∈ pieces, ¬ EndsInCr piece) :
    converted pieces = drop_cr pieces.flatten := by
  unfold converted
  induction pieces with
  | nil => rfl
  | cons piece rest ih =>
    have ends := whole piece (by simp)
    rw [trace, strip_whole ends, ih fun piece member => whole piece (by simp [member]), List.flatten_cons,
      drop_cr_append fun inside => ends inside.1]
    rfl

theorem converted_iff {pieces : List (List UInt8)} (received : ∀ piece ∈ pieces, piece ≠ []) :
    converted pieces = drop_cr pieces.flatten ↔ ∀ piece ∈ pieces, ¬ EndsInCr piece := by
  constructor
  · intro same
    have lengths := @trace_strip_length false pieces received
    rw [show held false ++ pieces.flatten = pieces.flatten from rfl, ← same] at lengths
    have none_lost : pieces.countP (EndsInCr ·) = 0 := by
      unfold converted at lengths
      omega
    intro piece member
    simpa using List.countP_eq_zero.mp none_lost piece member
  · exact trace_strip_whole

/-- What an upload received and what it wrote, and whether a write failed. -/
structure Upload where
  received : List (List UInt8) := []
  written : List UInt8 := []
  failed : Bool := false
deriving DecidableEq

/-- The record after a call. -/
def note (u : Upload) : ∀ {β : Type}, Call β → β → Upload
  | _, .sock (.lwip_recv ..), piece => if piece = [] then u else { u with received := u.received ++ [piece] }
  | _, .fs .history_fs, up => { u with failed := u.failed || !up }
  | _, .fs (.lfs_file_write _ bytes), wr =>
    { u with written := u.written ++ bytes, failed := u.failed || wr ≠ (bytes.length : Int) }
  | _, _, _ => u

/-- Calls that neither receive nor write. -/
def Silent : ∀ {β : Type}, Call β → Prop
  | _, .sock (.lwip_recv ..) => False
  | _, .fs (.lfs_file_write ..) => False
  | _, _ => True

/-- Unless a write failed, what was received and written is related by `P`. -/
def Unfailed (P : List (List UInt8) → List UInt8 → Prop) (u : Upload) : Prop := u.failed = false → P u.received u.written

section
variable {P : List (List UInt8) → List UInt8 → Prop} {u : Upload}

theorem note_silent {β : Type} (c : Call β) (r : β) (silent : Silent c) (so_far : Unfailed P u) : Unfailed P (note u c r) := by
  rcases c with c | c
  · cases c <;> first | exact so_far | exact silent.elim
  · cases c with
    | history_fs =>
      intro unfailed
      obtain ⟨before, -⟩ := Bool.or_eq_false_iff.mp unfailed
      exact so_far before
    | lfs_file_write fp bytes => exact silent.elim
    | _ => exact so_far

theorem ends_silent {α : Type} {p : Prog Call α} {post : Upload → α → Prop}
    (silent : p.Wp Silent fun a => ∀ u, Unfailed P u → post u a) (so_far : Unfailed P u) : p.Ends note post u :=
  ends_keeps (fun _ _ c r silent so_far => note_silent c r silent so_far) silent so_far

end

/-- The pieces received so far are written, up to a `\r` that is held back. -/
def Progress (pending_cr : Bool) : List (List UInt8) → List UInt8 → Prop := fun received written =>
  (∀ piece ∈ received, piece ≠ []) ∧ trace strip false received = (written, pending_cr)

def Converts : List (List UInt8) → List UInt8 → Prop := fun received written =>
  (∀ piece ∈ received, piece ≠ []) ∧ written = converted received

theorem progress_converts {pending_cr : Bool} {u : Upload} (so_far : Unfailed (Progress pending_cr) u) :
    Unfailed Converts u := by
  intro unfailed
  obtain ⟨filled, same⟩ := so_far unfailed
  exact ⟨filled, by rw [converted, same]⟩

/-- One more piece. -/
theorem progress_piece {pending_cr : Bool} {received : List (List UInt8)} {written piece : List UInt8}
    (so_far : Progress pending_cr received written) (filled : piece ≠ []) :
    Progress (strip pending_cr piece).2 (received ++ [piece]) (written ++ (strip pending_cr piece).1) := by
  obtain ⟨all, same⟩ := so_far
  refine ⟨?_, by rw [trace_append, same, trace_one]⟩
  intro other member
  rcases List.mem_append.mp member with old | new
  · exact all other old
  · rw [List.mem_singleton.mp new]
    exact filled

theorem ends_recv {α : Type} {post : Upload → α → Prop} {data : Int} {f : List UInt8 → Prog Call α} {u : Upload} :
    (sock (.lwip_recv data FTP_BUF_SIZE) >>= f).Ends note post u ↔
      ∀ piece, (f piece).Ends note post (if piece = [] then u else { u with received := u.received ++ [piece] }) :=
  Iff.rfl

/-- A piece written to the file, or not at all. -/
theorem ends_write {post : Upload → Int → Prop} {fp : Nat} {bytes : List UInt8} {u : Upload}
    (absent : post { u with failed := true } (-1))
    (done : ∀ wr, post { u with written := u.written ++ bytes, failed := u.failed || wr ≠ (bytes.length : Int) } wr) :
    (mounted (-1) (.lfs_file_write fp bytes)).Ends note post u := by
  simp only [mounted, fs, ends_bind, ends_once, ends_ite, ends_pure]
  rintro (- | -)
  · exact ⟨fun up => absurd up (by decide), fun _ => by simpa [note] using absent⟩
  · exact ⟨fun _ wr => by simpa [note] using done wr, fun down => absurd rfl down⟩

theorem receive_file_converts {data : Int} {fp fuel : Nat} {pending_cr : Bool} {u : Upload}
    (so_far : Unfailed (Progress pending_cr) u) :
    (receive_file true data fp fuel pending_cr).Ends note (fun u _ => Unfailed Converts u) u := by
  induction fuel generalizing pending_cr u with
  | zero => exact progress_converts so_far
  | succ fuel ih =>
    refine ends_recv.mpr fun piece => ?_
    by_cases ended : piece = []
    · simp only [if_pos ended, ends_pure]
      exact progress_converts so_far
    simp only [if_neg ended, if_true]
    have more (unfailed : u.failed = false) := progress_piece (so_far unfailed) ended
    unfold strip at more
    generalize ascii_strip_cr piece pending_cr = stripped at more
    obtain ⟨bytes, pending⟩ := stripped
    refine ends_ite.mpr ⟨fun nothing => ih fun unfailed => ?_, fun _ => ends_bind.mpr (ends_write ?_ fun wr => ?_)⟩
    · have next := more unfailed
      rw [show bytes = [] from nothing, List.append_nil] at next
      exact next
    · have short : (-1 : Int) ≠ bytes.length := by omega
      rw [if_pos short]
      intro unfailed
      cases unfailed
    · refine ends_ite.mpr ⟨fun short unfailed => ?_, fun whole => ih fun unfailed => ?_⟩
      · simp [show wr ≠ (bytes.length : Int) from short] at unfailed
      · obtain ⟨before, -⟩ := Bool.or_eq_false_iff.mp unfailed
        exact more before

theorem progress_start : Unfailed (Progress false) {} := by
  intro _
  exact ⟨fun piece member => absurd member (List.not_mem_nil), rfl⟩

theorem open_data_silent {s : Session} : (open_data s).Wp Silent fun r => r.2.type_ascii = s.type_ascii := by
  simp [open_data, Silent]

theorem open_stor_silent {fspath : List UInt8} {rest : Nat} {is_appe : Bool} :
    (open_stor fspath rest is_appe).Wp Silent fun _ => True := by
  simp only [open_stor, mounted, wp_bind, wp_fs, wp_ite, wp_pure, Silent, true_and, implies_true]
  intro up
  refine ⟨fun _ fp => ?_, trivial⟩
  split <;> simp [Silent]

theorem ftp_send_silent {fd : Int} {msg : String} {post : Unit → Prop} (results : post ()) :
    (ftp_send fd msg).Wp Silent post :=
  ⟨trivial, fun _ => results⟩

theorem drop_data_listen_silent {s : Session} : (drop_data_listen s).Wp Silent fun _ => True := by
  simp [drop_data_listen, Silent]

/-- An upload writes the pieces that it received, converted one after the other. -/
theorem cmd_stor_converts {fuel : Nat} {s : Session} {path : List UInt8} {is_appe : Bool} (text : s.type_ascii = true) :
    (cmd_stor fuel s path is_appe).Ends note (fun u _ => Unfailed Converts u) {} := by
  have refused (msg : String) {u : Upload} (so_far : Unfailed (Progress false) u) :
      (do ftp_send s.ctrl msg; drop_data_listen s : Prog Call Session).Ends note (fun u _ => Unfailed Converts u) u := by
    refine ends_silent (wp_bind.mpr (ftp_send_silent ?_)) so_far
    exact wp_mono (fun _ silent => silent) (fun _ _ _ kept => progress_converts kept) drop_data_listen_silent
  have closed (data : Int) (fp : Nat) (s' s'' : Session) {u : Upload} (done : Unfailed Converts u) :
      (do fs (.lfs_file_close fp)
          sock (.lwip_close data)
          ftp_send s'.ctrl "226 Transfer complete"
          pure s'' : Prog Call Session).Ends note (fun u _ => Unfailed Converts u) u := by
    refine ends_silent ?_ done
    simp [ftp_send, Silent]
  unfold cmd_stor
  refine ends_ite.mpr ⟨fun _ => refused _ progress_start, fun _ => ends_bind.mpr ?_⟩
  refine ends_silent (wp_mono (fun _ silent => silent) (fun opened _ u so_far => ?_) open_stor_silent) progress_start
  cases opened with
  | none => exact refused _ so_far
  | some fp =>
    refine ends_bind.mpr (ends_silent (ftp_send_silent fun u so_far => ends_bind.mpr ?_) so_far)
    refine ends_silent (wp_mono (fun _ silent => silent) (fun r same u so_far => ?_) open_data_silent) so_far
    obtain ⟨data, s'⟩ := r
    refine ends_ite.mpr ⟨fun _ => ends_silent ?_ so_far, fun _ => ends_bind.mpr ?_⟩
    · simp only [wp_bind, wp_fs, wp_pure, ftp_send, wp_sock]
      exact ⟨trivial, fun _ => ⟨trivial, fun _ _ kept => progress_converts kept⟩⟩
    · rw [show s'.type_ascii = true from same.trans text]
      exact ends_mono (receive_file_converts so_far) fun u pending done => closed data fp s' _ done

section
variable {ω : Type} (exec : ∀ {β : Type}, Call β → ω → β × ω)

/-- The record of one command. -/
def uploaded (w : ω) (fuel : Nat) (s : Session) (line : List UInt8) : Upload :=
  ((handle_command fuel s line).run (observed @note @exec) (w, {})).2.2

variable {exec}

theorem uploaded_converts {w : ω} {fuel : Nat} {s : Session} {line : List UInt8} (text : s.type_ascii = true)
    (upload : cmd_of line = some .STOR ∨ cmd_of line = some .APPE) :
    Unfailed Converts (uploaded @exec w fuel s line) := by
  unfold uploaded handle_command
  rcases upload with stor | appe
  · rw [stor]
    exact run_ends (cmd_stor_converts text) w
  · rw [appe]
    exact run_ends (cmd_stor_converts text) w

end

/-- Sockets on which everything succeeds, and on which the pieces arrive that a client sends. -/
def feed {β : Type} : SockCall β → List (List UInt8) → β × List (List UInt8)
  | .lwip_recv .., pieces => (pieces.headD [], pieces.tail)
  | c, pieces => ((idle_sock c ()).1, pieces)

/-- A mounted file system in which a file can be written. -/
def one_file {β : Type} : FsCall β → List UInt8 → β × List UInt8
  | .lfs_file_open _ (.LFS_O_WRONLY _ _ trunc), file => (some 0, if trunc then [] else file)
  | .lfs_file_write _ bytes, file => (bytes.length, file ++ bytes)
  | c, file => ((flat_fs c []).1, file)

/-- A session in text mode that has logged in and named a passive data connection. -/
def text_session : Session := { ctrl := 3, authed := true, type_ascii := true, data_listen := 4 }

/-- What becomes of `pieces`, with enough rounds for all of them. -/
def stored (pieces : List (List UInt8)) : Upload :=
  uploaded (world_exec @feed @one_file) { net := pieces, files := [] } (pieces.length + 1) text_session (ascii "STOR a")

end IoEdgeHub.AsciiUploads
