import IoEdgeHub.CBuffers

/-!
The line editor of the debug shell (`sys/shell.c`): the line and the draft of a task that
takes one byte after another, the ring of the last commands, and the completion from the
tree of commands. A write outside a buffer has no result. What is echoed and what the
commands do is left out; a command only gets the words that `sh_split` cuts the line into.
-/
namespace IoEdgeHub.Shell
open IoEdgeHub.CStrings IoEdgeHub.CBuffers

def SH_LINE_MAX : Nat := 96
def SH_ARG_MAX : Nat := 6
def SH_HIST_MAX : Nat := 8

abbrev Line := Vector UInt8 96

/-- A command and the commands below it, if they are from a table. -/
inductive Cmd
  | mk (name : List UInt8) (sub : Option (List Cmd))

def Cmd.name : Cmd → List UInt8
  | .mk name _ => name

def Cmd.sub : Cmd → Option (List Cmd)
  | .mk _ sub => sub

def leaf (name : String) : Cmd := .mk (ascii name) none

def io_do_cmds : List Cmd := [leaf "set"]

def io_rs485_cmds : List Cmd := [leaf "baud", leaf "sid"]

def io_can_cmds : List Cmd := [leaf "id", leaf "bps"]

def io_cmds : List Cmd :=
  [leaf "help", leaf "info", leaf "di", .mk (ascii "do") io_do_cmds, leaf "ai", .mk (ascii "rs485") io_rs485_cmds,
    .mk (ascii "can") io_can_cmds, leaf "ip", leaf "reg", leaf "save", leaf "factory"]

def root_cmds : List Cmd := [leaf "help", leaf "tasks", leaf "ps", leaf "reboot", .mk (ascii "io") io_cmds]

def blank (c : UInt8) : Bool := c = 32 || c = 9

/-- The table below a word of a table, nothing if the word is not in it. -/
def descend (tbl : Option (List Cmd)) (w : List UInt8) : Option (List Cmd) :=
  tbl.bind fun cmds => (cmds.find? fun c => c.name = w).bind Cmd.sub

/-- The table for the last word of a string and that word; `w` is what was read of the current word. -/
def level (tbl : Option (List Cmd)) (w : List UInt8) : List UInt8 → Option (List Cmd) × List UInt8
  | [] => (tbl, w)
  | c :: rest =>
    if blank c then level (if w = [] then tbl else descend tbl w) [] rest else level tbl (w ++ [c]) rest

def complete_level (line : List UInt8) : Option (List Cmd) × List UInt8 := level (some root_cmds) [] line

/-- The names that the last word is the start of. -/
def candidates (line : List UInt8) : List (List UInt8) :=
  (((complete_level line).1.getD []).filterMap fun c =>
    if (complete_level line).2.isPrefixOf c.name then some c.name else none).take 16

/-- The loops that add characters to the line, as long as `room` more would fit. -/
def extend (room : Nat) : List UInt8 → Line → Nat → Option (Line × Nat)
  | [], line, n => some (line, n)
  | c :: ext, line, n =>
    if n + room < SH_LINE_MAX then do
      let line ← poke n [c] line
      extend room ext line (n + 1)
    else some (line, n)

/-- How far two names agree. -/
def agree : List UInt8 → List UInt8 → Nat
  | a :: as, b :: bs => if a = b then agree as bs + 1 else 0
  | _, _ => 0

/-- The length of what all the names begin with. -/
def common (first : List UInt8) (others : List (List UInt8)) : Nat :=
  others.foldl (fun lcp name => agree (first.take lcp) name) first.length

def sh_complete (line : Line) (n : Nat) : Option (Line × Nat) :=
  let len := (complete_level (string line)).2.length
  match candidates (string line) with
  | [] => some (line, n)
  | [name] => do
    let ended ← extend 2 (name.drop len) line n
    -- the blank behind the word and the final zero, whatever is left
    let line ← poke ended.2 [32] ended.1
    let line ← poke (ended.2 + 1) [0] line
    some (line, ended.2 + 1)
  | first :: others => do
    let ended ← extend 1 ((first.take (common first others)).drop len) line n
    let line ← poke ended.2 [0] ended.1
    some (line, ended.2)

/-- The task's variables and the ring of commands. -/
structure Editor where
  line : Line
  draft : Line
  n : Nat := 0
  pos : Nat := 0
  esc : Nat := 0
  nav : Int := -1
  prev_cr : Bool := false
  sh_hist : Vector Line 8 := Vector.replicate 8 (Vector.replicate 96 0)
  sh_hist_len : Nat := 0
  sh_hist_newest : Nat := 0

/-- The task as it starts: the stack holds anything, but the line is ended. -/
def start (line draft : Line) : Editor := { line := line.setIfInBounds 0 0, draft }

def hist_store (s : Editor) : Option Editor :=
  if s.sh_hist_len ≠ 0 ∧ string (s.sh_hist[s.sh_hist_newest]?.getD s.line) = string s.line then some s
  else do
    let newest := (s.sh_hist_newest + 1) % SH_HIST_MAX
    let stored ← strcpy (s.sh_hist[newest]?.getD s.line) s.line
    some { s with
      sh_hist := s.sh_hist.setIfInBounds newest stored
      sh_hist_newest := newest
      sh_hist_len := if s.sh_hist_len < SH_HIST_MAX then s.sh_hist_len + 1 else s.sh_hist_len }

def hist_get (s : Editor) (nav : Nat) : Option Line :=
  if nav ≥ s.sh_hist_len then none else s.sh_hist[(s.sh_hist_newest + SH_HIST_MAX - nav) % SH_HIST_MAX]?

/-- The line cut into words, `argc` of them so far. -/
def split (argc : Nat) (in_word : Bool) : List UInt8 → List UInt8
  | [] => []
  | c :: rest =>
    if c = 0 then c :: rest
    else if in_word then
      if blank c then
        -- behind the last word that is taken, one zero ends the line
        if argc < SH_ARG_MAX then 0 :: split argc false rest else 0 :: rest
      else c :: split argc true rest
    else if blank c then 0 :: split argc false rest
    else c :: split (argc + 1) true rest

/-- The loop runs to the first zero at most, and out of a line without one. -/
def sh_split (line : Line) : Option Line :=
  if 0 ∈ line then poke 0 (split 0 false line.toList) line else none

/-- An old command or the draft takes the place of the line. -/
def show_line (h : Option Line) (s : Editor) : Option Editor :=
  match h with
  | none => some s
  | some h => do
    let line ← strcpy s.line h
    some { s with line, n := (string h).length, pos := (string h).length }

def arrow_up (s : Editor) : Option Editor :=
  if s.nav < 0 then do
    let draft ← strcpy s.draft s.line
    show_line (hist_get s 0) { s with draft, nav := 0 }
  else if s.nav + 1 < s.sh_hist_len then show_line (hist_get s (s.nav + 1).toNat) { s with nav := s.nav + 1 }
  else show_line (hist_get s s.nav.toNat) s

def arrow_down (s : Editor) : Option Editor :=
  if s.nav < 0 then some s
  else if s.nav - 1 < 0 then show_line (some s.draft) { s with nav := s.nav - 1 }
  else show_line (hist_get s (s.nav - 1).toNat) { s with nav := s.nav - 1 }

def arrow_key (c : UInt8) (s : Editor) : Option Editor :=
  if c = 67 then some (if s.pos < s.n then { s with pos := s.pos + 1 } else s)
  else if c = 68 then some (if s.pos > 0 then { s with pos := s.pos - 1 } else s)
  else if c = 65 then arrow_up s
  else arrow_down s

def enter (s : Editor) : Option Editor :=
  if s.n ≠ 0 then do
    let s ← hist_store s
    let line ← sh_split s.line
    let line ← poke 0 [0] line
    some { s with line, n := 0, pos := 0, nav := -1 }
  else some s

def backspace (s : Editor) : Option Editor :=
  if s.pos > 0 then do
    let line ← memmove (s.pos - 1) s.pos (s.n - s.pos) s.line
    let line ← poke (s.n - 1) [0] line
    some { s with line, n := s.n - 1, pos := s.pos - 1 }
  else some s

def tab (s : Editor) : Option Editor := do
  let ended ← sh_complete s.line s.n
  some { s with line := ended.1, n := ended.2, pos := ended.2 }

def insert_char (c : UInt8) (s : Editor) : Option Editor :=
  if s.pos = s.n then do
    let line ← poke s.n [c] s.line
    let line ← poke (s.n + 1) [0] line
    some { s with line, n := s.n + 1, pos := s.n + 1 }
  else do
    let line ← memmove (s.pos + 1) s.pos (s.n - s.pos) s.line
    let line ← poke s.pos [c] line
    let line ← poke (s.n + 1) [0] line
    some { s with line, n := s.n + 1, pos := s.pos + 1 }

/-- A byte that is not part of an escape sequence. -/
def key (c : UInt8) (s : Editor) : Option Editor :=
  if c = 10 ∧ s.prev_cr then some { s with prev_cr := false }
  else if c = 13 ∨ c = 10 then enter { s with prev_cr := c = 13 }
  else if c = 8 ∨ c = 127 then backspace { s with prev_cr := false }
  else if c = 9 then tab { s with prev_cr := false }
  else if 32 ≤ c ∧ c < 127 ∧ s.n + 2 < SH_LINE_MAX then insert_char c { s with prev_cr := false }
  else some { s with prev_cr := false }

/-- One round of the task's loop. -/
def sh_task_fn (s : Editor) (c : UInt8) : Option Editor :=
  if s.esc ≠ 0 then
    if s.esc = 1 ∧ (c = 91 ∨ c = 79) then some { s with esc := 2 }
    else if s.esc = 2 ∧ (48 ≤ c ∧ c ≤ 57 ∨ c = 59) then some s
    else if 65 ≤ c ∧ c ≤ 68 then arrow_key c { s with esc := 0 }
    else some { s with esc := 0 }
  else if c = 27 then some { s with esc := 1 }
  else key c s

end IoEdgeHub.Shell
