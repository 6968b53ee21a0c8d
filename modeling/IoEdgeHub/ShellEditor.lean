import IoEdgeHub.Machine
import IoEdgeHub.Shell

/-!
The bounds of the line editor (`sys/shell.c`). Every byte but one leaves the line ended inside
its buffer: a Tab that finds a single candidate puts a blank and a zero behind the line,
also behind a line that is full.
-/
namespace IoEdgeHub.ShellEditor
open IoEdgeHub.CBuffers IoEdgeHub.Shell IoEdgeHub.Machine

/-- The cursor is in the line, the line is ended inside its buffer, and so is every command of
    the ring. -/
structure Sound (s : Editor) : Prop where
  pos : s.pos ≤ s.n
  n : s.n ≤ 95
  ended : read s.line s.n = 0
  hist : ∀ (i : Nat) (h : Line), s.sh_hist[i]? = some h → Terminated h ∧ (string h).length ≤ 95

/-- While old commands are shown there is a draft. -/
structure Inv (s : Editor) : Prop extends Sound s where
  draft : 0 ≤ s.nav → Terminated s.draft

/-- A Tab at the end of a full line, with one name to complete the last word to. -/
def Overflows (s : Editor) (c : UInt8) : Prop :=
  s.esc = 0 ∧ c = 9 ∧ s.n = 95 ∧ (candidates (string s.line)).length = 1

instance (s : Editor) (c : UInt8) : Decidable (Overflows s c) := inferInstanceAs (Decidable (_ ∧ _ ∧ _ ∧ _))

/-- Every write was inside its buffer, and the invariant holds again. -/
def Kept (r : Option Editor) : Prop := ∃ s, r = some s ∧ Inv s

section
variable {s : Editor} {c : UInt8}

theorem kept_some (inv : Inv s) : Kept (some s) := ⟨s, rfl, inv⟩

theorem inv_flags (inv : Inv s) (esc : Nat) (prev_cr : Bool) : Inv { s with esc, prev_cr } :=
  ⟨⟨inv.pos, inv.n, inv.ended, inv.hist⟩, inv.draft⟩

theorem inv_terminated (inv : Inv s) : Terminated s.line := ⟨s.n, Nat.lt_succ_of_le inv.n, inv.ended⟩

/-- Another line in the place of the old one. -/
theorem inv_line (inv : Inv s) {line : Line} {n pos : Nat} (inside : pos ≤ n) (short : n ≤ 95) (ended : read line n = 0) :
    Inv { s with line, n, pos } := ⟨⟨inside, short, ended, inv.hist⟩, inv.draft⟩

/-- Another place among the old commands, and another draft. -/
theorem inv_draft (inv : Inv s) {draft : Line} {nav : Int} (terminated : 0 ≤ nav → Terminated draft) :
    Inv { s with draft, nav } := ⟨⟨inv.pos, inv.n, inv.ended, inv.hist⟩, terminated⟩

theorem show_line_kept (inv : Inv s) {h : Option Line} (terminated : ∀ line ∈ h, Terminated line) : Kept (show_line h s) := by
  cases h with
  | none => exact kept_some inv
  | some h =>
    have ends := terminated h rfl
    obtain ⟨line, copied, zero⟩ := strcpy_ends s.line ends
    refine ⟨{ s with line, n := (string h).length, pos := (string h).length }, ?_, ?_⟩
    · simp only [show_line, copied, Option.bind_eq_bind, Option.bind_some]
    · exact inv_line inv (Nat.le_refl _) (Nat.le_of_lt_succ (string_short ends)) zero

theorem hist_get_terminated (inv : Inv s) (nav : Nat) : ∀ line ∈ hist_get s nav, Terminated line := by
  intro line member
  unfold hist_get at member
  split_ifs at member
  · cases member
  · exact (inv.hist _ line member).1

theorem arrow_up_kept (inv : Inv s) : Kept (arrow_up s) := by
  unfold arrow_up
  by_cases first : s.nav < 0
  · rw [if_pos first]
    obtain ⟨draft, copied, zero⟩ := strcpy_ends s.draft (inv_terminated inv)
    simp only [copied, Option.bind_eq_bind, Option.bind_some]
    have saved : Terminated draft := ⟨_, string_short (inv_terminated inv), zero⟩
    have next : Inv { s with draft, nav := 0 } := inv_draft inv fun _ => saved
    exact show_line_kept next (hist_get_terminated inv 0)
  rw [if_neg first]
  have shown : Terminated s.draft := inv.draft (Int.not_lt.mp first)
  by_cases more : s.nav + 1 < s.sh_hist_len
  · rw [if_pos more]
    have next : Inv { s with nav := s.nav + 1 } := inv_draft inv fun _ => shown
    exact show_line_kept next (hist_get_terminated inv _)
  · rw [if_neg more]
    exact show_line_kept inv (hist_get_terminated inv _)

theorem arrow_down_kept (inv : Inv s) : Kept (arrow_down s) := by
  unfold arrow_down
  by_cases first : s.nav < 0
  · rw [if_pos first]
    exact kept_some inv
  rw [if_neg first]
  have shown : Terminated s.draft := inv.draft (Int.not_lt.mp first)
  have next : Inv { s with nav := s.nav - 1 } := inv_draft inv fun _ => shown
  by_cases last : s.nav - 1 < 0
  · rw [if_pos last]
    refine show_line_kept next ?_
    rintro _ ⟨⟩
    exact shown
  · rw [if_neg last]
    exact show_line_kept next (hist_get_terminated inv _)

theorem arrow_key_kept (inv : Inv s) : Kept (arrow_key c s) := by
  unfold arrow_key
  split_ifs with right more left some_ up
  · exact kept_some (inv_line inv more inv.n inv.ended)
  · exact kept_some inv
  · exact kept_some (inv_line inv (Nat.le_trans (Nat.sub_le _ _) inv.pos) inv.n inv.ended)
  · exact kept_some inv
  · exact arrow_up_kept inv
  · exact arrow_down_kept inv

theorem hist_store_kept (inv : Inv s) : Kept (hist_store s) := by
  unfold hist_store
  by_cases same : s.sh_hist_len ≠ 0 ∧ string (s.sh_hist[s.sh_hist_newest]?.getD s.line) = string s.line
  · rw [if_pos same]
    exact kept_some inv
  · rw [if_neg same]
    obtain ⟨stored, copied, zero⟩ :=
      strcpy_ends (s.sh_hist[(s.sh_hist_newest + 1) % SH_HIST_MAX]?.getD s.line) (inv_terminated inv)
    simp only [copied, Option.bind_eq_bind, Option.bind_some]
    refine kept_some ⟨⟨inv.pos, inv.n, inv.ended, ?_⟩, inv.draft⟩
    have ends : Terminated stored := ⟨_, string_short (inv_terminated inv), zero⟩
    intro i h entry
    rw [Vector.getElem?_setIfInBounds] at entry
    split_ifs at entry
    · obtain rfl : stored = h := Option.some.inj entry
      exact ⟨ends, Nat.le_of_lt_succ (string_short ends)⟩
    · exact inv.hist i h entry

/-- The words are cut in place. -/
theorem split_length (argc : Nat) (in_word : Bool) (line : List UInt8) : (split argc in_word line).length = line.length := by
  induction line generalizing argc in_word with
  | nil => rfl
  | cons c rest ih =>
    unfold split
    split_ifs <;> simp only [List.length_cons, ih]

theorem sh_split_inside {line : Line} (terminated : Terminated line) : ∃ line', sh_split line = some line' := by
  obtain ⟨n, inside, zero⟩ := terminated
  have member : 0 ∈ line := by
    rw [CBuffers.read, Vector.getElem?_eq_getElem inside, Option.getD_some] at zero
    rw [← zero]
    exact Vector.getElem_mem inside
  have length : (split 0 false line.toList).length = 96 := (split_length ..).trans Vector.length_toList
  have fits : 0 + (split 0 false line.toList).length ≤ 96 := by omega
  obtain ⟨line', wrote, _⟩ := poke_inside line fits
  exact ⟨line', (if_pos member).trans wrote⟩

theorem enter_kept (inv : Inv s) : Kept (enter s) := by
  unfold enter
  split_ifs with some_
  · obtain ⟨s', stored, inv'⟩ := hist_store_kept inv
    obtain ⟨line, cut⟩ := sh_split_inside (inv_terminated inv')
    obtain ⟨line', wrote, zero, _⟩ := @poke_one 96 0 line 0 (by decide)
    simp only [stored, cut, wrote, Option.bind_eq_bind, Option.bind_some]
    refine kept_some ⟨⟨Nat.le_refl 0, Nat.zero_le 95, zero, inv'.hist⟩, ?_⟩
    intro shown
    have negative : (0 : Int) ≤ -1 := shown
    exact absurd negative (by decide)
  · exact kept_some inv

theorem backspace_kept (inv : Inv s) : Kept (backspace s) := by
  have pos := inv.pos
  have n := inv.n
  unfold backspace
  split_ifs with some_
  · obtain ⟨line, moved⟩ := @memmove_inside 96 (s.n - s.pos) (s.pos - 1) s.pos s.line (by omega)
    obtain ⟨line', wrote, zero, _⟩ := @poke_one 96 (s.n - 1) line 0 (by omega)
    simp only [moved, wrote, Option.bind_eq_bind, Option.bind_some]
    exact kept_some (inv_line inv (by omega) (by omega) zero)
  · exact kept_some inv

theorem insert_char_kept (inv : Inv s) (room : s.n + 2 < SH_LINE_MAX) : Kept (insert_char c s) := by
  have pos := inv.pos
  have below : s.n + 2 < 96 := room
  unfold insert_char
  split_ifs with last
  · obtain ⟨line, wrote, _⟩ := @poke_one 96 s.n s.line c (by omega)
    obtain ⟨line', ended, zero, _⟩ := @poke_one 96 (s.n + 1) line 0 (by omega)
    simp only [wrote, ended, Option.bind_eq_bind, Option.bind_some]
    exact kept_some (inv_line inv (Nat.le_refl _) (by omega) zero)
  · obtain ⟨line, moved⟩ := @memmove_inside 96 (s.n - s.pos) (s.pos + 1) s.pos s.line (by omega)
    obtain ⟨line', wrote, _⟩ := @poke_one 96 s.pos line c (by omega)
    obtain ⟨line'', ended, zero, _⟩ := @poke_one 96 (s.n + 1) line' 0 (by omega)
    simp only [moved, wrote, ended, Option.bind_eq_bind, Option.bind_some]
    exact kept_some (inv_line inv (by omega) (by omega) zero)

/-- The characters of a name are added as far as there is room for them. -/
theorem extend_inside {room : Nat} (some_ : 0 < room) (ext : List UInt8) (line : Line) {n : Nat} (inside : n ≤ 95) :
    ∃ line' n', extend room ext line n = some (line', n') ∧ n ≤ n' ∧ n' ≤ max n (96 - room) := by
  induction ext generalizing line n with
  | nil => exact ⟨line, n, rfl, Nat.le_refl n, Nat.le_max_left n _⟩
  | cons c ext ih =>
    unfold extend
    split_ifs with fits
    · have below : n + room < 96 := fits
      obtain ⟨line', wrote, _⟩ := @poke_one 96 n line c (by omega)
      obtain ⟨line'', n', rest, more, bound⟩ := ih line' (show n + 1 ≤ 95 by omega)
      refine ⟨line'', n', ?_, by omega, by omega⟩
      simp only [wrote, Option.bind_eq_bind, Option.bind_some]
      exact rest
    · exact ⟨line, n, rfl, Nat.le_refl n, Nat.le_max_left n _⟩

theorem sh_complete_inside {line : Line} {n : Nat} (inside : n ≤ 95) (ended : read line n = 0)
    (fine : ¬ (n = 95 ∧ (candidates (string line)).length = 1)) :
    ∃ line' n', sh_complete line n = some (line', n') ∧ n' ≤ 95 ∧ read line' n' = 0 := by
  unfold sh_complete
  cases found : candidates (string line) with
  | nil => exact ⟨line, n, rfl, inside, ended⟩
  | cons first others =>
    cases others with
    | nil =>
      have room : n ≤ 94 := by
        have not_full : n ≠ 95 := fun full => fine ⟨full, by rw [found]; rfl⟩
        omega
      obtain ⟨line₁, n', added, _, bound⟩ :=
        @extend_inside 2 (by decide) (first.drop (complete_level (string line)).2.length) line n inside
      obtain ⟨line₂, wrote, _⟩ := @poke_one 96 n' line₁ 32 (by omega)
      obtain ⟨line₃, closed, zero, _⟩ := @poke_one 96 (n' + 1) line₂ 0 (by omega)
      refine ⟨line₃, n' + 1, ?_, by omega, zero⟩
      simp only [added, wrote, closed, Option.bind_eq_bind, Option.bind_some]
    | cons second rest =>
      obtain ⟨line₁, n', added, _, bound⟩ := @extend_inside 1 (by decide)
        ((first.take (common first (second :: rest))).drop (complete_level (string line)).2.length) line n inside
      obtain ⟨line₂, closed, zero, _⟩ := @poke_one 96 n' line₁ 0 (by omega)
      refine ⟨line₂, n', ?_, by omega, zero⟩
      simp only [added, closed, Option.bind_eq_bind, Option.bind_some]

/-- Behind a full line there is room for the blank only. -/
theorem sh_complete_outside {line : Line} (single : (candidates (string line)).length = 1) : sh_complete line 95 = none := by
  obtain ⟨name, found⟩ := List.length_eq_one_iff.mp single
  have full (ext : List UInt8) : extend 2 ext line 95 = some (line, 95) := by
    cases ext with
    | nil => rfl
    | cons c ext => exact if_neg (by decide)
  obtain ⟨line', wrote, _⟩ := @poke_one 96 95 line 32 (by decide)
  have outside : poke (95 + 1) [0] line' = none := poke_outside (by decide)
  unfold sh_complete
  rw [found]
  simp only [full, wrote, outside, Option.bind_eq_bind, Option.bind_some, Option.bind_none]

theorem tab_kept (inv : Inv s) (fine : ¬ (s.n = 95 ∧ (candidates (string s.line)).length = 1)) : Kept (tab s) := by
  obtain ⟨line, n, completed, short, zero⟩ := sh_complete_inside inv.n inv.ended fine
  unfold tab
  simp only [completed, Option.bind_eq_bind, Option.bind_some]
  exact kept_some (inv_line inv (Nat.le_refl n) short zero)

theorem tab_outside (full : s.n = 95) (single : (candidates (string s.line)).length = 1) : tab s = none := by
  unfold tab
  rw [full, sh_complete_outside single]
  rfl

theorem key_kept (inv : Inv s) (fine : ¬ (c = 9 ∧ s.n = 95 ∧ (candidates (string s.line)).length = 1)) : Kept (key c s) := by
  have next (prev_cr : Bool) : Inv { s with prev_cr } := inv_flags inv s.esc prev_cr
  unfold key
  split_ifs with line_feed end_ delete complete character
  · exact kept_some (next false)
  · exact enter_kept (next _)
  · exact backspace_kept (next false)
  · exact tab_kept (next false) fun full => fine ⟨complete, full⟩
  · exact insert_char_kept (next false) character.2.2
  · exact kept_some (next false)

/-- What one byte does. -/
theorem sh_task_fn_kept (inv : Inv s) (fine : ¬ Overflows s c) : Kept (sh_task_fn s c) := by
  have next (esc : Nat) : Inv { s with esc } := inv_flags inv esc s.prev_cr
  unfold sh_task_fn
  by_cases plain : s.esc = 0
  · rw [if_neg (not_not.mpr plain)]
    split_ifs with escape
    · exact kept_some (next 1)
    · exact key_kept inv fun full => fine ⟨plain, full⟩
  · rw [if_pos plain]
    split_ifs with bracket parameter arrow
    · exact kept_some (next 2)
    · exact kept_some inv
    · exact arrow_key_kept (next 0)
    · exact kept_some (next 0)

theorem key_tab : key 9 s = tab { s with prev_cr := false } := by
  unfold key
  rw [if_neg fun feed => absurd feed.1 (by decide), if_neg (by decide), if_neg (by decide), if_pos rfl]

theorem sh_task_fn_tab (plain : s.esc = 0) : sh_task_fn s 9 = tab { s with prev_cr := false } := by
  have not_escape : ¬ (9 : UInt8) = 27 := by decide
  unfold sh_task_fn
  rw [if_neg (not_not.mpr plain), if_neg not_escape, key_tab]

theorem sh_task_fn_outside (overflows : Overflows s c) : sh_task_fn s c = none := by
  obtain ⟨plain, rfl, full, single⟩ := overflows
  rw [sh_task_fn_tab plain]
  exact tab_outside full single

/-- A run ends with the first write outside a buffer. -/
def run_step (st : Option Editor) (c : UInt8) : Option Editor := st.bind fun s => sh_task_fn s c

/-- A byte that causes writes inside the buffers only, and after which the line and the ring are sound. -/
def Inside (st : Option Editor) (c : UInt8) : Prop := ∃ s, run_step st c = some s ∧ Sound s

/-- No Tab completes the single candidate of a full line. -/
def Fine (st : Option Editor) (c : UInt8) : Prop := ∀ s ∈ st, ¬ Overflows s c

theorem inside_iff {st : Option Editor} (inv : Kept st) : Fine st c ↔ Inside st c := by
  obtain ⟨s, rfl, inv⟩ := inv
  constructor
  · intro fine
    obtain ⟨s', stepped, inv'⟩ := sh_task_fn_kept inv (fine s rfl)
    exact ⟨s', stepped, inv'.toSound⟩
  · rintro ⟨s', stepped, _⟩ t ⟨⟩ overflows
    have outside : sh_task_fn s c = some s' := stepped
    rw [sh_task_fn_outside overflows] at outside
    cases outside

theorem run_step_kept {st : Option Editor} (inv : Kept st) (fine : Fine st c) : Kept (run_step st c) := by
  obtain ⟨s, rfl, inv⟩ := inv
  exact sh_task_fn_kept inv (fine s rfl)

theorem inv_start (line draft : Line) : Inv (start line draft) := by
  have zero : read (line.setIfInBounds 0 0) 0 = 0 := by
    rw [CBuffers.read, Vector.getElem?_setIfInBounds_self_of_lt (by decide)]
    rfl
  refine ⟨⟨Nat.le_refl 0, Nat.zero_le 95, zero, ?_⟩, ?_⟩
  · intro i h entry
    have empty : h = Vector.replicate 96 0 := by
      have entry : (Vector.replicate 8 (Vector.replicate 96 (0 : UInt8)))[i]? = some h := entry
      rw [Vector.getElem?_replicate] at entry
      split_ifs at entry
      exact (Option.some.inj entry).symm
    have ends : Terminated h := ⟨0, by decide, by rw [empty]; rfl⟩
    exact ⟨ends, Nat.le_of_lt_succ (string_short ends)⟩
  · intro shown
    have negative : (0 : Int) ≤ -1 := shown
    exact absurd negative (by decide)

/-- For every sequence of bytes, whatever the stack holds at the start: the editor starts sound,
    and all writes are inside the buffers and leave it sound, if and only if no Tab finds a single
    candidate for the last word of a full line. -/
theorem editor_inside_iff (line draft : Line) (bytes : List UInt8) :
    Sound (start line draft) ∧
      (Meets run_step Inside (some (start line draft)) bytes ↔ Meets run_step Fine (some (start line draft)) bytes) := by
  have same (st : Option Editor) (c : UInt8) (inv : Kept st) : Fine st c ↔ Inside st c := inside_iff inv
  have begins := inv_start line draft
  exact ⟨begins.toSound, (meets_iff (fun _ _ => run_step_kept) same (kept_some begins)).symm⟩

end

/-- The cursor is behind the text, which is the whole line. -/
structure AtEnd (s : Editor) (text : List UInt8) : Prop where
  esc : s.esc = 0
  pos : s.pos = s.n
  n : s.n = text.length
  line : string s.line = text

section
variable {s : Editor} {text : List UInt8} {c : UInt8}

theorem at_end_start (line draft : Line) : AtEnd (start line draft) [] := by
  refine ⟨rfl, rfl, rfl, ?_⟩
  have short := string_length (inv_start line draft).ended (show 0 < 96 by decide)
  exact List.length_eq_zero_iff.mp (Nat.le_zero.mp short)

/-- A character and the end behind it. -/
theorem at_end_concat (at_end : AtEnd s text) (character : c ≠ 0) (room : text.length + 1 < 96) :
    ∃ line₁ line₂, poke s.n [c] s.line = some line₁ ∧ poke (s.n + 1) [0] line₁ = some line₂ ∧ string line₂ = text ++ [c] := by
  obtain ⟨_, _, n, rfl⟩ := at_end
  rw [n]
  exact string_concat s.line character room

/-- A printable character with room behind it. -/
theorem typed (at_end : AtEnd s text) (low : 32 ≤ c) (high : c < 127) (room : text.length + 2 < 96) :
    ∃ s', sh_task_fn s c = some s' ∧ AtEnd s' (text ++ [c]) := by
  have not_control {d : UInt8} (control : d < 32) : c ≠ d := by
    rintro rfl
    exact absurd control (UInt8.not_lt.mpr low)
  have not_delete : c ≠ 127 := by
    rintro rfl
    exact absurd high (by decide)
  obtain ⟨line₁, line₂, wrote, ended, line⟩ := at_end_concat at_end (not_control (by decide)) (Nat.lt_of_succ_lt room)
  have key_insert : key c s = insert_char c { s with prev_cr := false } := by
    unfold key
    rw [if_neg fun feed => not_control (by decide) feed.1,
      if_neg (not_or.mpr ⟨not_control (by decide), not_control (by decide)⟩),
      if_neg (not_or.mpr ⟨not_control (by decide), not_delete⟩), if_neg (not_control (by decide)),
      if_pos ⟨low, high, by rw [at_end.n]; exact room⟩]
  refine ⟨{ s with line := line₂, n := s.n + 1, pos := s.n + 1, prev_cr := false }, ?_, ?_⟩
  · unfold sh_task_fn
    rw [if_neg (not_not.mpr at_end.esc), if_neg (not_control (by decide)), key_insert]
    simp only [insert_char, at_end.pos, wrote, ended, if_pos, Option.bind_eq_bind, Option.bind_some]
  · have longer : s.n + 1 = (text ++ [c]).length := by rw [at_end.n, List.length_append, List.length_singleton]
    exact ⟨at_end.esc, rfl, longer, line⟩

/-- Characters typed one after another. -/
theorem typed_all {chars : List UInt8} (at_end : AtEnd s text) (printable : ∀ c ∈ chars, 32 ≤ c ∧ c < 127)
    (room : text.length + chars.length + 1 < 96) :
    ∃ s', chars.foldl run_step (some s) = some s' ∧ AtEnd s' (text ++ chars) := by
  induction chars generalizing s text with
  | nil => exact ⟨s, rfl, by rw [List.append_nil]; exact at_end⟩
  | cons c rest ih =>
    rw [List.length_cons] at room
    obtain ⟨low, high⟩ := printable c List.mem_cons_self
    obtain ⟨s₁, first, at_end₁⟩ := typed at_end low high (by omega)
    have room₁ : (text ++ [c]).length + rest.length + 1 < 96 := by
      rw [List.length_append, List.length_singleton]
      omega
    obtain ⟨s', later, at_end'⟩ := ih at_end₁ (fun d member => printable d (List.mem_cons_of_mem c member)) room₁
    refine ⟨s', ?_, ?_⟩
    · have stepped : run_step (some s) c = some s₁ := first
      rw [List.foldl_cons, stepped]
      exact later
    · rw [List.append_assoc, List.singleton_append] at at_end'
      exact at_end'

/-- A Tab behind a word that is complete. -/
theorem completed_word (at_end : AtEnd s text) {name : List UInt8} (single : candidates text = [name])
    (whole : name.drop (complete_level text).2.length = []) (room : text.length + 1 < 96) :
    ∃ s', sh_task_fn s 9 = some s' ∧ AtEnd s' (text ++ [32]) := by
  obtain ⟨line₁, line₂, wrote, ended, line⟩ := at_end_concat at_end (show (32 : UInt8) ≠ 0 by decide) room
  have completes : sh_complete s.line s.n = some (line₂, s.n + 1) := by
    unfold sh_complete
    rw [at_end.line, single]
    simp only [whole, extend, wrote, ended, Option.bind_eq_bind, Option.bind_some]
  refine ⟨{ s with line := line₂, n := s.n + 1, pos := s.n + 1, prev_cr := false }, ?_, ?_⟩
  · rw [sh_task_fn_tab at_end.esc]
    simp only [tab, completes, Option.bind_eq_bind, Option.bind_some]
  · have longer : s.n + 1 = (text ++ [32]).length := by rw [at_end.n, List.length_append, List.length_singleton]
    exact ⟨at_end.esc, rfl, longer, line⟩

end

/-- 89 blanks and `io do`. -/
def typed_line : List UInt8 := List.replicate 89 32 ++ CStrings.ascii "io do"

/-- The line, a Tab that puts a blank behind it, and a Tab for the word behind the blank, which
    only `set` completes. -/
def full_line : List UInt8 := typed_line ++ [9, 9]

/-- The second Tab writes behind the line. -/
theorem full_line_overflows :
    ¬ Meets run_step Inside (some (start (Vector.replicate 96 0xA5) (Vector.replicate 96 0xA5))) full_line := by
  intro inside
  have printable : ∀ c ∈ typed_line, 32 ≤ c ∧ c < 127 := by decide
  obtain ⟨s₁, typed_, at_end₁⟩ := typed_all (at_end_start (Vector.replicate 96 0xA5) (Vector.replicate 96 0xA5)) printable
    (by decide)
  rw [List.nil_append] at at_end₁
  obtain ⟨s₂, completed, at_end₂⟩ := @completed_word s₁ typed_line at_end₁ (CStrings.ascii "do") (by decide)
    (by decide) (by decide)
  have overflows : Overflows s₂ 9 := by
    refine ⟨at_end₂.esc, rfl, ?_, ?_⟩
    · rw [at_end₂.n]
      decide
    · rw [at_end₂.line]
      decide
  rw [full_line, meets_append, typed_] at inside
  obtain ⟨s₃, stepped, _⟩ := inside.2.2.1
  have first : run_step (some s₁) 9 = some s₂ := completed
  have second : run_step (some s₂) 9 = none := sh_task_fn_outside overflows
  rw [first, second] at stepped
  cases stepped

end IoEdgeHub.ShellEditor
