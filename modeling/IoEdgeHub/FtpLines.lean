import IoEdgeHub.FtpSockets

/-!
The lines that the FTP server takes from a control connection. `recv_line` reads byte by
byte into a buffer that it starts afresh each time, so that it sees the lines of the
connection as long as a line is neither empty nor too long and comes without a pause; then
each of them is handled once, and a connection ends for a reason. That a connection was
idle is measured against the times at which its bytes were taken; an observer of the
calls notes whether the time only went forward.
-/
namespace IoEdgeHub.FtpLines
open IoEdgeHub.Calls IoEdgeHub.CStrings IoEdgeHub.Ftpd IoEdgeHub.FtpTask IoEdgeHub.FtpSockets

section
variable {α : Type} [BEq α] (sep : α)

/-- The lines that have ended. -/
def ended_lines (xs : List α) : List (List α) := (xs.splitOn sep).dropLast

/-- What follows the last line end. -/
def unfinished (xs : List α) : List α := (xs.splitOn sep).getLastD []

variable {sep} {xs : List α}

theorem splitOn_eq : xs.splitOn sep = ended_lines sep xs ++ [unfinished sep xs] := by
  have nonempty := List.splitOn_ne_nil sep xs
  rw [ended_lines, unfinished, List.getLastD_eq_getLast?, List.getLast?_eq_some_getLast nonempty]
  exact (List.dropLast_append_getLast nonempty).symm

theorem pieces {lines : List (List α)} {rest : List α} (split : xs.splitOn sep = lines ++ [rest]) :
    ended_lines sep xs = lines ∧ unfinished sep xs = rest := by
  simp [ended_lines, unfinished, split]

variable [LawfulBEq α]

theorem splitOn_append {ys : List α} (inside : sep ∉ ys) :
    (xs ++ ys).splitOn sep = ended_lines sep xs ++ [unfinished sep xs ++ ys] := by
  induction xs with
  | nil => exact List.splitOn_eq_singleton inside
  | cons x xs ih =>
    have whole := @splitOn_eq _ _ sep xs
    have split := List.splitOn_cons_eq_if_modifyHead (a := sep) x xs
    rw [List.cons_append, List.splitOn_cons_eq_if_modifyHead, ih]
    rw [whole] at split
    by_cases first : (x == sep) = true
    · rw [if_pos first] at split ⊢
      obtain ⟨lines, rest⟩ := @pieces _ _ _ _ ([] :: ended_lines sep xs) _ split
      rw [lines, rest]
      rfl
    · rw [if_neg first] at split ⊢
      cases before : ended_lines sep xs with
      | nil =>
        rw [before] at split
        obtain ⟨lines, rest⟩ := @pieces _ _ _ _ [] _ split
        rw [lines, rest]
        rfl
      | cons line more =>
        rw [before] at split
        obtain ⟨lines, rest⟩ := @pieces _ _ _ _ ((x :: line) :: more) _ split
        rw [lines, rest]
        rfl

/-- Characters without a line end among them. -/
theorem lines_open {ys : List α} (inside : sep ∉ ys) :
    ended_lines sep (xs ++ ys) = ended_lines sep xs ∧ unfinished sep (xs ++ ys) = unfinished sep xs ++ ys :=
  pieces (splitOn_append inside)

/-- A line end. -/
theorem lines_end : ended_lines sep (xs ++ [sep]) = ended_lines sep xs ++ [unfinished sep xs] ∧
    unfinished sep (xs ++ [sep]) = [] := by
  refine pieces ?_
  rw [List.splitOn_append_cons_self, List.splitOn_nil, splitOn_eq]

theorem not_mem_unfinished : sep ∉ unfinished sep xs := by
  induction xs using List.reverseRecOn with
  | nil => simp [unfinished]
  | append_singleton xs x ih =>
    by_cases last : x = sep
    · rw [last, lines_end.2]
      exact List.not_mem_nil
    · rw [(lines_open (by simpa using Ne.symm last)).2]
      simpa [ih] using Ne.symm last

end

/-! ### What a client may send -/

def bytes_of (heard : List Item) : List UInt8 :=
  heard.filterMap fun item => match item with
    | .data byte _ => some byte
    | _ => none

def times_of (heard : List Item) : List Nat :=
  heard.filterMap fun item => match item with
    | .data _ time => some time
    | _ => none

/-- When the last byte was taken, or the connection if none has come. -/
def last_input (accepted : Nat) (heard : List Item) : Nat := (times_of heard).getLastD accepted

/-- The command of a line: without the `\r` at its end, neither empty nor longer than 511 characters. -/
def command_of (line : List UInt8) : Option (List UInt8) :=
  let text := line.rdropWhile (· = 13)
  if text = [] ∨ text.length > 511 then none else some text

/-- The commands that have arrived. -/
def commands_of (bytes : List UInt8) : List (List UInt8) := (ended_lines 10 bytes).filterMap command_of

/-- What may follow an unfinished line: no line end if there is nothing but `\r` in it, at
    most 510 characters, and a pause only between two lines. -/
def Follows (line : List UInt8) : Item → Prop
  | .data byte _ => if byte = 10 then line.rdropWhile (· = 13) ≠ [] else line.length < 510
  | .would_block => line = []
  | .closed => True

/-- Everything that was heard may follow what was heard before it. -/
def Framed (heard : List Item) : Prop :=
  ∀ before item, before ++ [item] <+: heard → Follows (unfinished 10 (bytes_of before)) item

instance (line : List UInt8) : (item : Item) → Decidable (Follows line item)
  | .data byte _ => inferInstanceAs (Decidable (if byte = 10 then line.rdropWhile (· = 13) ≠ [] else line.length < 510))
  | .would_block => inferInstanceAs (Decidable (line = []))
  | .closed => isTrue trivial

theorem framed_iff {heard : List Item} :
    Framed heard ↔ ∀ n : Fin heard.length, Follows (unfinished 10 (bytes_of (heard.take n))) (heard.get n) := by
  constructor
  · intro framed n
    refine framed _ _ ?_
    rw [List.get_eq_getElem, List.take_append_getElem]
    exact List.take_prefix _ _
  · rintro follows before item ⟨rest, rfl⟩
    have here := follows ⟨before.length, by simp⟩
    simpa using here

instance (heard : List Item) : Decidable (Framed heard) := decidable_of_iff _ framed_iff.symm

theorem framed_append {heard : List Item} {item : Item} :
    Framed (heard ++ [item]) ↔ Framed heard ∧ Follows (unfinished 10 (bytes_of heard)) item := by
  constructor
  · intro framed
    refine ⟨fun before item among => ?_, framed heard item (List.prefix_refl _)⟩
    exact framed before item (among.trans (List.prefix_append _ _))
  · rintro ⟨framed, follows⟩ before last among
    rcases List.prefix_concat_iff.mp among with whole | earlier
    · obtain ⟨rfl, last⟩ := List.append_inj' whole rfl
      cases last
      exact follows
    · exact framed before last earlier

theorem framed_of_append {heard items : List Item} (framed : Framed (heard ++ items)) : Framed heard :=
  fun before item among => framed before item (among.trans (List.prefix_append _ _))

@[simp] theorem bytes_of_append {heard items : List Item} :
    bytes_of (heard ++ items) = bytes_of heard ++ bytes_of items :=
  List.filterMap_append

theorem strip_eq {line : List UInt8} (inside : 10 ∉ line) : strip line = line.rdropWhile (· = 13) := by
  induction line using List.reverseRecOn with
  | nil => rfl
  | append_singleton line byte ih =>
    obtain ⟨inside, last⟩ := not_or.mp (List.mem_append.not.mp inside)
    have other : byte ≠ 10 := fun same => last (by simp [same])
    have earlier := ih inside
    unfold strip at earlier ⊢
    simp only [List.rdropWhile_concat, earlier, other, or_false]

theorem last_input_data {accepted time : Nat} {heard : List Item} {byte : UInt8} :
    last_input accepted (heard ++ [.data byte time]) = time := by
  rw [last_input, times_of, List.filterMap_append]
  exact List.getLastD_concat

theorem last_input_pause {accepted : Nat} {heard : List Item} :
    last_input accepted (heard ++ [.would_block]) = last_input accepted heard := by
  rw [last_input, times_of, List.filterMap_append]
  exact congrArg (·.getLastD accepted) (List.append_nil _)

/-- What a line that was read does to what was heard before. -/
structure Reads (before after : List Item) (rl : Int) (line : List UInt8) : Prop where
  handled : rl > 0 →
    unfinished 10 (bytes_of after) = [] ∧ commands_of (bytes_of after) = commands_of (bytes_of before) ++ [line]
  ended : rl = 0 → .closed ∈ after ∧ commands_of (bytes_of after) = commands_of (bytes_of before)
  waiting : rl < 0 → unfinished 10 (bytes_of after) = [] ∧ commands_of (bytes_of after) = commands_of (bytes_of before) ∧
    ∀ accepted, last_input accepted after = last_input accepted before

/-- The line so far is the unfinished line of what was heard, and as long as it is empty nothing was. -/
structure Reading (before after : List Item) (buf : List UInt8) : Prop where
  line : buf = unfinished 10 (bytes_of after)
  untouched : buf = [] → after = before
  earlier : ended_lines 10 (bytes_of after) = ended_lines 10 (bytes_of before)
  short : buf.length ≤ 510

theorem reading_data {before after : List Item} {buf : List UInt8} {byte : UInt8} {time : Nat}
    (reading : Reading before after buf) (inside : byte ≠ 10) (follows : Follows buf (.data byte time)) :
    Reading before (after ++ [.data byte time]) (buf ++ [byte]) := by
  obtain ⟨rfl, -, earlier, short⟩ := reading
  have room : (unfinished 10 (bytes_of after)).length < 510 := by simpa [Follows, inside] using follows
  have opened := @lines_open _ _ 10 (bytes_of after) _ [byte] (by simpa using inside.symm)
  refine ⟨?_, fun empty => ?_, ?_, ?_⟩
  · rw [bytes_of_append]
    exact opened.2.symm
  · exact absurd empty (List.append_ne_nil_of_right_ne_nil _ (List.cons_ne_nil _ _))
  · rw [bytes_of_append]
    exact opened.1.trans earlier
  · rw [List.length_append]
    exact room

theorem reads_end {before after : List Item} {buf : List UInt8} {time : Nat} (reading : Reading before after buf)
    (follows : Follows buf (.data 10 time)) :
    Reads before (after ++ [.data 10 time]) (strip buf).length (strip buf) := by
  obtain ⟨rfl, -, earlier, short⟩ := reading
  have ended := @lines_end _ _ 10 (bytes_of after) _
  have nonempty : strip (unfinished 10 (bytes_of after)) ≠ [] := by
    rw [strip_eq not_mem_unfinished]
    exact follows
  have bound : (strip (unfinished 10 (bytes_of after))).length ≤ 510 := by
    exact ( List.rdropWhile_prefix _ _).length_le.trans short
  have read : command_of (unfinished 10 (bytes_of after)) = some (strip (unfinished 10 (bytes_of after))) := by
    unfold command_of
    rw [← strip_eq not_mem_unfinished]
    exact if_neg (not_or.mpr ⟨nonempty, by omega⟩)
  have positive : 0 < (strip (unfinished 10 (bytes_of after))).length := List.length_pos_iff.mpr nonempty
  refine ⟨fun _ => ?_, fun zero => ?_, fun negative => ?_⟩
  · rw [bytes_of_append]
    refine ⟨ended.2, ?_⟩
    unfold commands_of
    rw [show bytes_of [.data 10 time] = [10] from rfl, ended.1, List.filterMap_append, earlier]
    simp [read]
  · omega
  · omega

theorem reads_pause {before after : List Item} {buf : List UInt8} (reading : Reading before after buf)
    (empty : Follows buf .would_block) : Reads before (after ++ [.would_block]) (-1) buf := by
  obtain ⟨line, untouched, earlier, -⟩ := reading
  have same : bytes_of (after ++ [.would_block]) = bytes_of after := by simp [bytes_of]
  refine ⟨fun positive => absurd positive (by decide), fun zero => absurd zero (by decide), fun _ => ?_⟩
  rw [same, commands_of, earlier]
  refine ⟨line.symm.trans empty, rfl, fun accepted => ?_⟩
  rw [last_input_pause, untouched empty]

theorem reads_closed {before after : List Item} {buf : List UInt8} (reading : Reading before after buf) :
    Reads before (after ++ [.closed]) 0 buf := by
  have same : bytes_of (after ++ [.closed]) = bytes_of after := by simp [bytes_of]
  have kept : commands_of (bytes_of (after ++ [.closed])) = commands_of (bytes_of before) := by
    rw [same, commands_of, reading.earlier]
    rfl
  exact ⟨fun positive => absurd positive (by decide), fun _ => ⟨by simp, kept⟩, fun negative => absurd negative (by decide)⟩

/-- The time goes forward: an observer of the calls keeps the last time that one of them came
    with, and nothing any more once a time was earlier than one before. -/
def forward (clock : Option Nat) (now : Nat) : Option Nat :=
  clock.bind fun latest => if latest ≤ now then some now else none

def times (clock : Option Nat) : ∀ {β : Type}, TaskCall β → β → Option Nat
  | _, .task (.lwip_accept _), r => forward clock r.2
  | _, .task (.lwip_recv _), .data _ time => forward clock time
  | _, .task .now_ms, now => forward clock now
  | _, _, _ => clock

/-- A later record of the times. -/
def Later (clock clock' : Option Nat) : Prop := ∀ now ∈ clock', ∃ latest ∈ clock, latest ≤ now

section
variable {clock clock' : Option Nat}

theorem later_refl : Later clock clock := fun now known => ⟨now, known, Nat.le_refl now⟩

theorem later_trans {clock'' : Option Nat} (first : Later clock clock') (second : Later clock' clock'') :
    Later clock clock'' := by
  intro now known
  obtain ⟨between, known, past⟩ := second now known
  obtain ⟨latest, known, earlier⟩ := first between known
  exact ⟨latest, known, earlier.trans past⟩

theorem forward_eq {now : Nat} : ∀ latest ∈ forward clock now, latest = now := by
  intro latest known
  obtain ⟨before, -, rest⟩ := Option.bind_eq_some_iff.mp known
  split at rest
  · exact (Option.some.inj rest).symm
  · cases rest

theorem forward_later {now : Nat} : Later clock (forward clock now) := by
  intro latest known
  obtain ⟨before, known, rest⟩ := Option.bind_eq_some_iff.mp known
  split at rest
  · rename_i past
    exact ⟨before, known, Option.some.inj rest ▸ past⟩
  · cases rest

theorem times_later {β : Type} (c : TaskCall β) (r : β) : Later clock (times clock c r) := by
  rcases c with c | c
  · exact later_refl
  cases c with
  | lwip_select fds => exact later_refl
  | lwip_accept serv => exact forward_later
  | now_ms => exact forward_later
  | lwip_recv fd =>
    cases r with
    | data byte time => exact forward_later
    | would_block => exact later_refl
    | closed => exact later_refl

section
variable {α β : Type} {post : Option Nat → α → Prop}

/-- The calls of a session come without times. -/
theorem ends_ftp_bind {p : Prog Call β} {f : β → Prog TaskCall α}
    (first : p.Wp (fun _ => True) fun r => (f r).Ends times post clock) : (ftp p >>= f).Ends times post clock :=
  ends_bind.mpr (ends_lift.mpr (ends_of_all (fun _ _ _ _ _ => rfl) first))

theorem ends_task_bind {c : LoopCall β} {f : β → Prog TaskCall α}
    (rest : ∀ r, Later clock (times clock (.task c) r) → (f r).Ends times post (times clock (.task c) r)) :
    (task c >>= f).Ends times post clock :=
  ends_bind.mpr fun r => rest r (times_later (.task c) r)

end

/-- What `recv_line` returns, while what is heard is framed: the time of the last byte of a
    whole line is the last one noted. -/
theorem ends_recv_loop {before : List Item} {fd : Int} {room : Nat} {buf : List UInt8} {heard : List Item}
    (size : buf.length + room = 511)
    (reading : Framed (before ++ heard) → Reading before (before ++ heard) buf) :
    (recv_loop fd room buf heard).Ends times (fun clock' r => Later clock clock' ∧ (Framed (before ++ r.2.2) →
      Reads before (before ++ r.2.2) r.1 r.2.1 ∧
        (r.1 > 0 → ∀ latest ∈ clock', ∀ accepted, last_input accepted (before ++ r.2.2) ≤ latest))) clock := by
  induction room generalizing clock buf heard with
  | zero =>
    refine ⟨later_refl, fun framed => ?_⟩
    have short := (reading framed).short
    omega
  | succ room ih =>
    refine ends_task_bind fun item later => ?_
    have so_far (framed : Framed (before ++ (heard ++ [item]))) :
        Reading before (before ++ heard) buf ∧ Follows buf item := by
      rw [← List.append_assoc] at framed
      obtain ⟨framed, follows⟩ := framed_append.mp framed
      exact ⟨reading framed, (reading framed).line ▸ follows⟩
    cases item with
    | would_block =>
      refine ⟨later, fun framed => ⟨?_, fun positive => absurd positive (by decide : ¬ (-1 : Int) > 0)⟩⟩
      obtain ⟨reading, follows⟩ := so_far framed
      simpa using reads_pause reading follows
    | closed =>
      refine ⟨later, fun framed => ⟨?_, fun positive => absurd positive (by decide : ¬ (0 : Int) > 0)⟩⟩
      obtain ⟨reading, -⟩ := so_far framed
      simpa using reads_closed reading
    | data byte time =>
      refine ends_ite.mpr ⟨fun line_end => ?_, fun inside => ?_⟩
      · refine ⟨later, fun framed => ⟨?_, fun _ latest known accepted => ?_⟩⟩
        · obtain ⟨reading, follows⟩ := so_far framed
          rw [line_end] at follows ⊢
          simpa using reads_end reading follows
        · rw [← List.append_assoc, last_input_data]
          exact (forward_eq latest known).ge
      · refine ends_mono (ih (by simp; omega) fun framed => ?_) ?_
        · obtain ⟨reading, follows⟩ := so_far framed
          simpa using reading_data reading inside follows
        · rintro clock' r ⟨after, reads⟩
          exact ⟨later_trans later after, reads⟩

end

/-- The reason for which a connection has ended is there. That it was idle is said of times
    that go forward. -/
def Justified (clock : Option Nat) (e : Ended) : Prop :=
  match e.reason with
  | .quit => e.lines.getLast?.bind cmd_of = some .QUIT
  | .gone => .closed ∈ e.heard
  | .idle now => clock ≠ none → last_input e.accepted e.heard + FTP_SESSION_TIMEOUT_MS < now

instance (clock : Option Nat) : (e : Ended) → Decidable (Justified clock e)
  | ⟨.quit, _, _, lines⟩ => inferInstanceAs (Decidable (lines.getLast?.bind cmd_of = some .QUIT))
  | ⟨.gone, _, heard, _⟩ => inferInstanceAs (Decidable (.closed ∈ heard))
  | ⟨.idle now, accepted, heard, _⟩ =>
    inferInstanceAs (Decidable (clock ≠ none → last_input accepted heard + FTP_SESSION_TIMEOUT_MS < now))

/-- On every connection on which what was heard is `good`, the lines that were handled are the
    commands that have arrived, and if it has ended there is a reason. -/
def Served (good : List Item → Prop) (clock : Option Nat) (r : List Slot × Log) : Prop :=
  (∀ slot ∈ r.1, 0 ≤ slot.session.ctrl → good slot.heard → slot.lines = commands_of (bytes_of slot.heard)) ∧
    ∀ e ∈ r.2.ended, good e.heard → e.lines = commands_of (bytes_of e.heard) ∧ Justified clock e

instance (good : List Item → Prop) [DecidablePred good] (clock : Option Nat) (r : List Slot × Log) :
    Decidable (Served good clock r) :=
  inferInstanceAs (Decidable (_ ∧ _))

/-- The activity that a slot has recorded was not before the last input, nor after the time noted. -/
structure Recent (latest : Nat) (slot : Slot) : Prop where
  recorded : ∃ noted, slot.last_activity = .ofNat noted ∧ last_input slot.accepted slot.heard ≤ noted ∧ noted ≤ latest

/-- A client's lines, so far, were handled as commands, and its activity was recorded. -/
structure Attended (clock : Option Nat) (slot : Slot) : Prop where
  boundary : unfinished 10 (bytes_of slot.heard) = []
  lines : slot.lines = commands_of (bytes_of slot.heard)
  recent : ∀ latest ∈ clock, Recent latest slot

def Faithful (clock : Option Nat) (slot : Slot) : Prop := 0 ≤ slot.session.ctrl → Framed slot.heard → Attended clock slot

/-- A connection's lines were handled as commands, and it has ended for a reason. -/
def Concluded (clock : Option Nat) (e : Ended) : Prop :=
  Framed e.heard → e.lines = commands_of (bytes_of e.heard) ∧ Justified clock e

/-- So it is for all connections, after some time. -/
structure Conforms (clock clock' : Option Nat) (r : List Slot × Log) : Prop where
  later : Later clock clock'
  slots : ∀ slot ∈ r.1, Faithful clock' slot
  ended : ∀ e ∈ r.2.ended, Concluded clock' e

section
variable {clock clock' : Option Nat}

theorem faithful_empty : Faithful clock .empty := fun valid => absurd valid (by decide)

theorem faithful_later {slot : Slot} (later : Later clock clock') (faithful : Faithful clock slot) : Faithful clock' slot := by
  intro valid framed
  obtain ⟨boundary, lines, recent⟩ := faithful valid framed
  refine ⟨boundary, lines, fun now known => ?_⟩
  obtain ⟨latest, known, past⟩ := later now known
  obtain ⟨noted, recorded, input, earlier⟩ := recent latest known
  exact ⟨noted, recorded, input, earlier.trans past⟩

theorem concluded_later {e : Ended} (later : Later clock clock') (concluded : Concluded clock e) : Concluded clock' e := by
  intro framed
  obtain ⟨lines, justified⟩ := concluded framed
  refine ⟨lines, ?_⟩
  obtain ⟨reason, accepted, heard, lines⟩ := e
  cases reason with
  | quit => exact justified
  | gone => exact justified
  | idle now =>
    intro known
    obtain ⟨latest, known⟩ := Option.ne_none_iff_exists'.mp known
    obtain ⟨before, known, -⟩ := later latest known
    exact justified fun unknown => nomatch unknown.symm.trans known

/-- The idle time is over by the clock, whose times the slots only keep 32 bits of. -/
theorem idle_over {slot : Slot} {now : Nat} (recent : Recent now slot)
    (idle : (.ofNat now - slot.last_activity).toNat > FTP_SESSION_TIMEOUT_MS) :
    last_input slot.accepted slot.heard + FTP_SESSION_TIMEOUT_MS < now := by
  obtain ⟨noted, recorded, input, past⟩ := recent
  have elapsed : (UInt32.ofNat now - slot.last_activity).toNat = (now - noted) % 2^32 := by
    rw [recorded, ← UInt32.ofNat_sub past]
    exact UInt32.toNat_ofNat'
  have bound := Nat.mod_le (now - noted) (2^32)
  omega

/-- Only `QUIT` ends a session. -/
theorem handle_command_ctrl {fuel : Nat} {s : Session} {line : List UInt8} (valid : 0 ≤ s.ctrl) :
    (handle_command fuel s line).Wp (fun _ => True) fun s' => s'.ctrl < 0 → cmd_of line = some .QUIT := by
  by_cases quit : cmd_of line = some .QUIT
  · exact wp_trivial fun _ _ => quit
  · have kept := @handle_command_keeps none s [] fuel line (fun _ known => nomatch known) quit
    refine wp_of_ends (ends_mono kept ?_)
    rintro _ s' ⟨ctrl, -⟩ negative
    exact absurd (ctrl ▸ negative) (Int.not_lt.mpr valid)

theorem ends_close_session {s : Session} :
    (close_session s).Ends times (fun clock' slot => clock' = clock ∧ slot = .empty) clock := by
  have last : (if s.data_listen ≥ 0 then (do ftp (sock (.lwip_close s.data_listen)); pure Slot.empty)
      else pure Slot.empty : Prog TaskCall Slot).Ends times (fun clock' slot => clock' = clock ∧ slot = .empty) clock :=
    ends_ite.mpr ⟨fun _ => ends_ftp_bind ⟨trivial, fun _ => ⟨rfl, rfl⟩⟩, fun _ => ⟨rfl, rfl⟩⟩
  exact ends_ite.mpr ⟨fun _ => ends_ftp_bind ⟨trivial, fun _ => last⟩, fun _ => last⟩

/-- What is read for an open session continues what was heard on it. -/
theorem ends_recv_line {slot : Slot} (valid : 0 ≤ slot.session.ctrl) (faithful : Faithful clock slot) :
    (recv_line slot.session.ctrl FTP_BUF_SIZE).Ends times (fun clock' r => Later clock clock' ∧
      (Framed (slot.heard ++ r.2.2) → Attended clock slot ∧ Reads slot.heard (slot.heard ++ r.2.2) r.1 r.2.1 ∧
        (r.1 > 0 → ∀ latest ∈ clock', ∀ accepted, last_input accepted (slot.heard ++ r.2.2) ≤ latest))) clock := by
  have start (framed : Framed (slot.heard ++ [])) : Reading slot.heard (slot.heard ++ []) [] := by
    rw [List.append_nil] at framed ⊢
    exact ⟨(faithful valid framed).boundary.symm, fun _ => rfl, rfl, Nat.zero_le _⟩
  refine ends_mono (ends_recv_loop rfl start) ?_
  rintro clock' r ⟨later, reads⟩
  exact ⟨later, fun framed => ⟨faithful valid (framed_of_append framed), reads framed⟩⟩

theorem serve_conforms {fuel : Nat} {slot : Slot} (valid : 0 ≤ slot.session.ctrl) (faithful : Faithful clock slot) :
    (serve fuel slot).Ends times
      (fun clock' r => Later clock clock' ∧ Faithful clock' r.1 ∧ ∀ e ∈ r.2.ended, Concluded clock' e) clock := by
  unfold serve
  refine ends_bind.mpr (ends_mono (ends_recv_line valid faithful) ?_)
  rintro clock' ⟨rl, line, items⟩ ⟨later, read⟩
  refine ends_ite.mpr ⟨fun positive => ?_, fun _ => ends_ite.mpr ⟨fun zero => ?_, fun _ => ?_⟩⟩
  · refine ends_task_bind fun now passed => ends_ftp_bind ?_
    refine wp_mono (fun _ call => call) ?_ (handle_command_ctrl valid)
    intro s quit
    refine ⟨later_trans later passed, fun _ framed => ?_, ?_⟩
    · obtain ⟨attended, reads, input⟩ := read framed
      obtain ⟨boundary, commands⟩ := reads.handled positive
      refine ⟨boundary, by rw [commands, attended.lines], fun latest known => ⟨now, rfl, ?_, (forward_eq latest known).ge⟩⟩
      -- the time is read after the last byte has come
      obtain ⟨before, known, past⟩ := passed latest known
      exact (input positive before known _).trans (past.trans_eq (forward_eq latest ‹_›))
    · intro e ended framed
      split at ended
      · rename_i negative
        cases List.mem_singleton.mp ended
        obtain ⟨attended, reads, -⟩ := read framed
        obtain ⟨-, commands⟩ := reads.handled positive
        refine ⟨by rw [commands, attended.lines], ?_⟩
        rw [Justified, List.getLast?_concat]
        exact quit negative
      · cases ended
  · refine ends_bind.mpr (ends_mono ends_close_session ?_)
    rintro _ closed ⟨rfl, rfl⟩
    refine ⟨later, faithful_empty, fun e ended framed => ?_⟩
    cases List.mem_singleton.mp ended
    obtain ⟨attended, reads, -⟩ := read framed
    obtain ⟨closed, commands⟩ := reads.ended zero
    exact ⟨attended.lines.trans commands.symm, closed⟩
  · refine ⟨later, fun _ framed => ?_, fun e ended => nomatch ended⟩
    obtain ⟨attended, reads, -⟩ := read framed
    obtain ⟨boundary, commands, input⟩ := reads.waiting (by omega)
    refine ⟨boundary, attended.lines.trans commands.symm, fun now known => ?_⟩
    obtain ⟨latest, known, past⟩ := later now known
    obtain ⟨noted, recorded, earlier, seen⟩ := attended.recent latest known
    exact ⟨noted, recorded, (input _).trans_le earlier, seen.trans past⟩

/-- One slot before the others. -/
theorem ends_cons {slot : Slot} {log : Log} {p : Prog TaskCall (List Slot × Log)} (later : Later clock clock')
    (first : Faithful clock' slot) (ended : ∀ e ∈ log.ended, Concluded clock' e)
    (others : p.Ends times (Conforms clock') clock') :
    (do
      let (rest, log') ← p
      pure (slot :: rest, log.append log')).Ends times (Conforms clock) clock' := by
  refine ends_bind.mpr (ends_mono others ?_)
  rintro clock'' ⟨rest, log'⟩ ⟨passed, slots, ended'⟩
  refine ⟨later_trans later passed, ?_, ?_⟩
  · exact List.forall_mem_cons.mpr ⟨faithful_later passed first, slots⟩
  · exact List.forall_mem_append.mpr ⟨fun e before => concluded_later passed (ended e before), ended'⟩

theorem serve_all_conforms {fuel : Nat} {ready : List Int} {slots : List Slot}
    (faithful : ∀ slot ∈ slots, Faithful clock slot) : (serve_all fuel ready slots).Ends times (Conforms clock) clock := by
  induction slots generalizing clock with
  | nil => exact ⟨later_refl, faithful, fun e ended => nomatch ended⟩
  | cons slot rest ih =>
    obtain ⟨first, others⟩ := List.forall_mem_cons.mp faithful
    refine ends_ite.mpr ⟨fun chosen => ends_bind.mpr ?_, fun _ => ?_⟩
    · refine ends_mono (serve_conforms chosen.1 first) ?_
      rintro clock' ⟨slot, log⟩ ⟨later, first, ended⟩
      exact ends_cons later first ended (ih fun slot member => faithful_later later (others slot member))
    · exact ends_bind.mpr (ends_cons later_refl first (fun e ended => nomatch ended) (ih others))

/-- The time that the idle ones are judged by is the last one noted. -/
theorem expire_conforms {now : Nat} {slots : List Slot} (present : ∀ latest ∈ clock, latest = now)
    (faithful : ∀ slot ∈ slots, Faithful clock slot) : (expire now slots).Ends times (Conforms clock) clock := by
  induction slots with
  | nil => exact ⟨later_refl, faithful, fun e ended => nomatch ended⟩
  | cons slot rest ih =>
    obtain ⟨first, others⟩ := List.forall_mem_cons.mp faithful
    refine ends_ite.mpr ⟨fun idle => ends_bind.mpr (ends_mono ends_close_session ?_), fun _ => ?_⟩
    · rintro _ closed ⟨rfl, rfl⟩
      refine ends_bind.mpr (ends_cons later_refl faithful_empty (fun e ended framed => ?_) (ih others))
      cases List.mem_singleton.mp ended
      obtain ⟨-, lines, recent⟩ := first idle.1 framed
      refine ⟨lines, fun known => ?_⟩
      obtain ⟨latest, known⟩ := Option.ne_none_iff_exists'.mp known
      exact idle_over (present latest known ▸ recent latest known) idle.2
    · exact ends_bind.mpr (ends_cons later_refl first (fun e ended => nomatch ended) (ih others))

theorem seat_faithful {c : Int} {accepted now : Nat} {slots : List Slot} (past : ∀ latest ∈ clock, accepted ≤ now ∧ now ≤ latest)
    (faithful : ∀ slot ∈ slots, Faithful clock slot) : ∀ slot ∈ seat c accepted now slots, Faithful clock slot := by
  induction slots with
  | nil => exact faithful
  | cons slot rest ih =>
    obtain ⟨first, others⟩ := List.forall_mem_cons.mp faithful
    unfold seat
    split
    · refine List.forall_mem_cons.mpr ⟨fun _ _ => ⟨rfl, rfl, fun latest known => ?_⟩, others⟩
      exact ⟨now, rfl, (past latest known).1, (past latest known).2⟩
    · exact List.forall_mem_cons.mpr ⟨first, ih others⟩

theorem accept_client_conforms {serv : Int} {slots : List Slot} (faithful : ∀ slot ∈ slots, Faithful clock slot) :
    (accept_client serv slots).Ends times
      (fun clock' slots => Later clock clock' ∧ ∀ slot ∈ slots, Faithful clock' slot) clock := by
  unfold accept_client
  refine ends_task_bind ?_
  rintro ⟨c, accepted⟩ later
  have kept (slot : Slot) (member : slot ∈ slots) := faithful_later later (faithful slot member)
  refine ends_ite.mpr ⟨fun _ => ends_ite.mpr ⟨fun _ => ?_, fun _ => ?_⟩, fun _ => ⟨later, kept⟩⟩
  · refine ends_task_bind fun now passed => ends_ftp_bind ⟨trivial, fun _ => ends_ftp_bind (wp_trivial fun _ => ?_)⟩
    refine ⟨later_trans later passed, seat_faithful (fun latest known => ?_) ?_⟩
    · -- the connection was taken before the time was read
      obtain ⟨taken, before, past⟩ := passed latest known
      cases forward_eq taken before
      cases forward_eq latest known
      exact ⟨past, Nat.le_refl _⟩
    · exact fun slot member => faithful_later passed (kept slot member)
  · exact ends_ftp_bind ⟨trivial, fun _ => ends_ftp_bind ⟨trivial, fun _ => ⟨later, kept⟩⟩⟩

theorem ftp_round_conforms {fuel : Nat} {serv : Int} {slots : List Slot} (faithful : ∀ slot ∈ slots, Faithful clock slot) :
    (ftp_round fuel serv slots).Ends times (Conforms clock) clock := by
  unfold ftp_round
  refine ends_task_bind fun ready _ => ?_
  have finish (clock' : Option Nat) (r : List Slot × Log) (conforms : Conforms clock clock' r) :
      (do
        let now ← task .now_ms
        let (slots, log') ← expire now r.1
        pure (slots, r.2.append log')).Ends times (Conforms clock) clock' := by
    obtain ⟨later, slots, ended⟩ := conforms
    refine ends_task_bind fun now passed => ends_bind.mpr ?_
    have kept (slot : Slot) (member : slot ∈ r.1) := faithful_later passed (slots slot member)
    refine ends_mono (expire_conforms forward_eq kept) ?_
    rintro clock'' ⟨slots, log'⟩ ⟨elapsed, slots', ended'⟩
    refine ⟨later_trans later (later_trans passed elapsed), slots', List.forall_mem_append.mpr ⟨fun e before => ?_, ended'⟩⟩
    exact concluded_later (later_trans passed elapsed) (ended e before)
  refine ends_ite.mpr ⟨fun _ => ?_, fun _ => ?_⟩
  · have served (clock' : Option Nat) (slots : List Slot) (kept : Later clock clock' ∧ ∀ slot ∈ slots, Faithful clock' slot) :
        (serve_all fuel ready slots).Ends times (Conforms clock) clock' := by
      refine ends_mono (serve_all_conforms kept.2) ?_
      rintro clock'' r ⟨passed, slots, ended⟩
      exact ⟨later_trans kept.1 passed, slots, ended⟩
    refine ends_ite.mpr ⟨fun _ => ends_bind.mpr (ends_mono (accept_client_conforms faithful) ?_), fun _ => ?_⟩
    · exact fun clock' slots kept => ends_bind.mpr (ends_mono (served clock' slots kept) finish)
    · exact ends_bind.mpr (ends_bind.mpr (ends_mono (served clock slots ⟨later_refl, faithful⟩) finish))
  · exact ends_bind.mpr (finish clock (slots, {}) ⟨later_refl, faithful, fun e ended => nomatch ended⟩)

/-- The step of one round, over as many rounds as there are. -/
theorem ftp_rounds_conforms {fuel : Nat} {serv : Int} {rounds : Nat} {slots : List Slot}
    (faithful : ∀ slot ∈ slots, Faithful clock slot) :
    (ftp_rounds fuel serv rounds slots).Ends times (Conforms clock) clock := by
  induction rounds generalizing clock slots with
  | zero => exact ⟨later_refl, faithful, fun e ended => nomatch ended⟩
  | succ rounds ih =>
    refine ends_bind.mpr (ends_mono (ftp_round_conforms faithful) ?_)
    rintro clock' ⟨slots, log⟩ ⟨later, slots_kept, ended⟩
    refine ends_bind.mpr (ends_mono (ih slots_kept) ?_)
    rintro clock'' ⟨slots', log'⟩ ⟨passed, slots_kept, ended'⟩
    refine ⟨later_trans later passed, slots_kept, List.forall_mem_append.mpr ⟨fun e before => ?_, ended'⟩⟩
    exact concluded_later passed (ended e before)

theorem ftp_task_conforms {fuel rounds : Nat} :
    (ftp_task fuel rounds).Ends times
      (fun clock' r => ∀ serv slots log, r = some (serv, slots, log) → Conforms clock clock' (slots, log)) clock := by
  have finish (serv rc : Int) : (if rc < 0 then pure none else (do
        let r ← ftp_rounds fuel serv rounds (List.replicate FTP_MAX_CLIENTS Slot.empty)
        pure (some (serv, r)) : Prog TaskCall (Option (Int × List Slot × Log)))).Ends times
      (fun clock' r => ∀ serv slots log, r = some (serv, slots, log) → Conforms clock clock' (slots, log)) clock := by
    refine ends_ite.mpr ⟨?_, fun _ => ends_bind.mpr (ends_mono (ftp_rounds_conforms ?_) ?_)⟩
    · rintro - serv slots log ⟨⟩
    · exact fun slot member => List.eq_of_mem_replicate member ▸ faithful_empty
    · rintro clock' r conforms serv slots log ⟨⟩
      exact conforms
  unfold ftp_task
  refine ends_ftp_bind ⟨trivial, fun serv => ends_ite.mpr ⟨?_, fun valid => ends_ftp_bind ⟨trivial, fun bound => ?_⟩⟩⟩
  · rintro - serv slots log ⟨⟩
  · exact ends_ite.mpr ⟨fun _ => ends_bind.mpr (finish serv (-1)), fun _ => ends_ftp_bind ⟨trivial, finish serv⟩⟩

end

/-- In every run of the task, on every connection on which no line is empty or longer than 510
    characters and none comes with a pause in it, each line is handled once, in order, and the
    connection only ends by `QUIT`, by its peer or when by the clock, as long as it goes forward,
    its last byte, or the connection itself, was taken more than the idle time before. -/
theorem lines_handled {ω : Type} (exec : ∀ {β : Type}, TaskCall β → ω → β × ω) (w : ω) (fuel rounds : Nat) (serv : Int)
    (slots : List Slot) (log : Log)
    (reached : ((ftp_task fuel rounds).run (observed times @exec) (w, some 0)).1 = some (serv, slots, log)) :
    Served Framed ((ftp_task fuel rounds).run (observed times @exec) (w, some 0)).2.2 (slots, log) := by
  have ends := @run_ends _ _ _ @exec _ _ _ _ _ (@ftp_task_conforms (some 0) fuel rounds) w
  obtain ⟨-, attended, ended⟩ := ends serv slots log reached
  exact ⟨fun slot member valid framed => (attended slot member valid framed).lines, ended⟩

/-- The task with clients that send `items`: the listening socket, the slots and the log, and the times. -/
def timed_run (rounds : Nat) (items : List Item) : Option (Int × List Slot × Log) × Net × Option Nat :=
  (ftp_task 0 rounds).run (observed times @clients) ({ items }, some 0)

/-- An empty line ends the connection, and after a pause the first part of a line is lost. -/
theorem lines_lost :
    (¬ ∀ r ∈ (timed_run 2 (typed "\r\n")).1, Served (fun _ => True) (timed_run 2 (typed "\r\n")).2.2 r.2) ∧
    ¬ ∀ r ∈ (timed_run 3 (typed "NO" ++ [.would_block] ++ typed "OP\r\n")).1,
      Served (fun _ => True) (timed_run 3 (typed "NO" ++ [.would_block] ++ typed "OP\r\n")).2.2 r.2 := by
  constructor
  · decide
  · decide

/-- Two commands with a pause between them, and a client that says nothing for two minutes. -/
theorem lines_handled_pause : ∃ serv slots log,
    (timed_run 18 (typed "NOOP\r\n" ++ [.would_block] ++ typed "QUIT\r\n")).1 = some (serv, slots, log) ∧
      (timed_run 18 (typed "NOOP\r\n" ++ [.would_block] ++ typed "QUIT\r\n")).2.2 ≠ none ∧
      log.ended.map (·.reason) = [.quit, .idle 140000] ∧ (∀ e ∈ log.ended, Framed e.heard) ∧
      Served Framed (timed_run 18 (typed "NOOP\r\n" ++ [.would_block] ++ typed "QUIT\r\n")).2.2 (slots, log) := by
  have ended : ∀ r ∈ (timed_run 18 (typed "NOOP\r\n" ++ [.would_block] ++ typed "QUIT\r\n")).1,
      r.2.2.ended.map (·.reason) = [.quit, .idle 140000] ∧ ∀ e ∈ r.2.2.ended, Framed e.heard := by decide
  have set_up : (timed_run 18 (typed "NOOP\r\n" ++ [.would_block] ++ typed "QUIT\r\n")).1.isSome := by decide
  have timed : (timed_run 18 (typed "NOOP\r\n" ++ [.would_block] ++ typed "QUIT\r\n")).2.2 ≠ none := by decide
  obtain ⟨⟨serv, slots, log⟩, reached⟩ := Option.isSome_iff_exists.mp set_up
  obtain ⟨reasons, framed⟩ := ended _ reached
  exact ⟨serv, slots, log, reached, timed, reasons, framed, lines_handled @clients _ 0 18 serv slots log reached⟩

end IoEdgeHub.FtpLines
