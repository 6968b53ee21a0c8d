import IoEdgeHub.FtpCommands
import IoEdgeHub.PathNames
import Mathlib.Data.List.TakeWhile

/-!
Paths of the FTP server (`norm_path` in `net/ftpd.c`). What it returns is always a rooted
path without dots, and so is the current directory of every session. It is the path that
the client named as long as no limit is exceeded: 159 characters of directory and
argument together, 47 of a name, 16 levels, 62 of a current directory, 127 of a file to
rename. Beyond them the path is cut without an error.
-/
namespace IoEdgeHub.FtpPaths
open IoEdgeHub.Calls IoEdgeHub.CStrings IoEdgeHub.Ftpd IoEdgeHub.FtpAuth IoEdgeHub.FtpCommands IoEdgeHub.Machine
  IoEdgeHub.PathNames

/-- The names on the stack of `norm_path`. -/
def stack (cwd input : List UInt8) : List (List UInt8) :=
  (parts slash (clip 160 ((if input.head? = some slash then [] else cwd) ++ [slash] ++ input))).foldl path_part []

abbrev Name (name : List UInt8) : Prop := Proper slash (ascii ".") (ascii "..") name

theorem take_eq_short {name short : List UInt8} (few : short.length < 47) (same : name.take 47 = short) : name = short := by
  have length := congrArg List.length same
  rw [List.length_take] at length
  rw [← same, List.take_of_length_le (by omega)]

theorem path_part_proper {names : List (List UInt8)} {part : List UInt8} (proper : ∀ name ∈ names, Name name)
    (filled : part ≠ []) (free : slash ∉ part) : ∀ name ∈ path_part names part, Name name := by
  intro name member
  unfold path_part at member
  split at member
  · exact proper name member
  rename_i not_here
  split at member
  · exact proper name ((List.dropLast_sublist names).mem member)
  rename_i not_up
  split at member
  · rcases List.mem_append.mp member with old | new
    · exact proper name old
    · rw [List.mem_singleton.mp new]
      refine ⟨?_, fun inside => free (List.mem_of_mem_take inside), fun here => ?_, fun up => ?_⟩
      · simpa [List.take_eq_nil_iff] using filled
      · exact not_here (take_eq_short (by decide) here)
      · exact not_up (take_eq_short (by decide) up)
  · exact proper name member

theorem path_part_mem {names : List (List UInt8)} {part : List UInt8} {P : UInt8 → Prop}
    (all : ∀ name ∈ names, ∀ c ∈ name, P c) (new : ∀ c ∈ part, P c) : ∀ name ∈ path_part names part, ∀ c ∈ name, P c := by
  intro name member c inside
  unfold path_part at member
  split at member
  · exact all name member c inside
  split at member
  · exact all name ((List.dropLast_sublist names).mem member) c inside
  split at member
  · rcases List.mem_append.mp member with old | last
    · exact all name old c inside
    · rw [List.mem_singleton.mp last] at inside
      exact new c (List.mem_of_mem_take inside)
  · exact all name member c inside

/-- What each part of a text keeps, the stack of them keeps. -/
theorem foldl_path_part {inv : List (List UInt8) → Prop} {text : List UInt8} {names : List (List UInt8)} (start : inv names)
    (keep : ∀ names part, part ∈ parts slash text → inv names → inv (path_part names part)) :
    inv ((parts slash text).foldl path_part names) := by
  generalize parts slash text = found at keep
  induction found generalizing names with
  | nil => exact start
  | cons part more ih => exact ih (keep names part (by simp) start) fun names' part' member => keep names' part' (by simp [member])

theorem stack_proper (cwd input : List UInt8) : ∀ name ∈ stack cwd input, Name name := by
  refine @foldl_path_part (fun names => ∀ name ∈ names, Name name) _ _ (by simp) fun names part member proper => ?_
  obtain ⟨filled, free, -⟩ := mem_parts member
  exact path_part_proper proper filled free

theorem stack_terminated {cwd input : List UInt8} (cwd_string : 0 ∉ cwd) (input_string : 0 ∉ input) :
    ∀ name ∈ stack cwd input, ∀ c ∈ name, c ≠ 0 := by
  refine @foldl_path_part (fun names => ∀ name ∈ names, ∀ c ∈ name, c ≠ 0) _ _ (by simp) fun names part member all => ?_
  refine path_part_mem all fun c inside zero => ?_
  have whole := List.mem_of_mem_take ((mem_parts member).2.2 c inside)
  rw [zero, List.append_assoc] at whole
  rcases List.mem_append.mp whole with base | rest
  · split at base
    · cases base
    · exact cwd_string base
  · simp [slash, input_string] at rest

theorem put_parts_kept {outlen : Nat} {out : List UInt8} {names : List (List UInt8)} (room : out.length < outlen) :
    ∃ kept rest, names = kept ++ rest ∧ put_parts outlen out names = out ++ kept.flatMap (· ++ [slash]) ∧
      (out ++ kept.flatMap (· ++ [slash])).length < outlen := by
  induction names generalizing out with
  | nil => exact ⟨[], [], rfl, by simp [put_parts], by simpa using room⟩
  | cons name more ih =>
    unfold put_parts
    split
    · exact ⟨[], name :: more, rfl, by simp, by simpa using room⟩
    · rename_i fits
      obtain ⟨kept, rest, split, text, length⟩ := @ih (out ++ name ++ [slash]) (by simp; omega)
      refine ⟨name :: kept, rest, by rw [split]; rfl, ?_, ?_⟩
      · simpa using text
      · simpa using length

/-- Names for which there is room are put out. -/
theorem put_parts_all {outlen : Nat} {out : List UInt8} {names : List (List UInt8)}
    (room : (out ++ names.flatMap (· ++ [slash])).length < outlen) :
    put_parts outlen out names = out ++ names.flatMap (· ++ [slash]) := by
  induction names generalizing out with
  | nil => simp [put_parts]
  | cons name more ih =>
    rw [List.flatMap_cons, ← List.append_assoc, ← List.append_assoc] at room ⊢
    have fits : ¬ out.length + name.length + 1 ≥ outlen := by
      simp only [List.length_append, List.length_singleton] at room
      omega
    rw [put_parts, if_neg fits]
    exact ih room

/-- Without the last separator. -/
theorem closed_text (names : List (List UInt8)) :
    (if ([slash] ++ names.flatMap (· ++ [slash])).length > 1 then ([slash] ++ names.flatMap (· ++ [slash])).dropLast
      else [slash] ++ names.flatMap (· ++ [slash])) = path_text slash names := by
  rw [List.singleton_append, separators]
  cases names with
  | nil => rfl
  | cons name more =>
    have longer : (((name :: more).flatMap (slash :: ·)) ++ [slash]).length > 1 := by
      rw [List.flatMap_cons, List.length_append, List.length_append, List.length_cons, List.length_singleton]
      omega
    rw [if_pos longer, List.dropLast_concat, path_text_cons]

theorem norm_path_eq (outlen : Nat) (cwd input : List UInt8) : norm_path outlen cwd input =
    if (put_parts outlen [slash] (stack cwd input)).length > 1 then (put_parts outlen [slash] (stack cwd input)).dropLast
    else put_parts outlen [slash] (stack cwd input) := rfl

theorem norm_path_kept {outlen : Nat} (room : 2 ≤ outlen) (cwd input : List UInt8) :
    ∃ kept rest, stack cwd input = kept ++ rest ∧ norm_path outlen cwd input = path_text slash kept ∧
      (path_text slash kept).length < outlen := by
  obtain ⟨kept, rest, split, text, length⟩ := @put_parts_kept outlen [slash] (stack cwd input) (by simp; omega)
  refine ⟨kept, rest, split, ?_, ?_⟩
  · rw [norm_path_eq, text]
    exact closed_text kept
  · rw [← closed_text]
    split
    · simp only [List.length_dropLast]
      omega
    · exact length

/-- A rooted path without empty names and dots, and without a separator at its end, as a
    string in `outlen` bytes. -/
structure Canonical (outlen : Nat) (path : List UInt8) : Prop where
  fits : path.length < outlen
  terminated : 0 ∉ path
  rooted : path.head? = some slash
  named : path = [slash] ∨ ∀ name ∈ path.tail.splitOn slash, name ≠ [] ∧ name ≠ ascii "." ∧ name ≠ ascii ".."
  open_end : path.getLast? = some slash → path = [slash]

theorem path_text_canonical {outlen : Nat} {names : List (List UInt8)} (proper : ∀ name ∈ names, Name name)
    (string : ∀ name ∈ names, ∀ c ∈ name, c ≠ 0) (fits : (path_text slash names).length < outlen) :
    Canonical outlen (path_text slash names) := by
  refine ⟨fits, ?_, path_text_head, ?_, path_text_last fun name member => ⟨(proper name member).filled, (proper name member).free⟩⟩
  · intro zero
    rcases mem_path_text zero with separator | ⟨name, member, inside⟩
    · exact absurd separator (by decide)
    · exact string name member 0 inside rfl
  · cases names with
    | nil => exact .inl rfl
    | cons first more =>
      right
      intro name member
      rw [path_text_cons, List.flatMap_cons, List.cons_append, List.tail_cons,
        splitOn_names fun other known => (proper other known).free] at member
      obtain ⟨filled, -, not_here, not_up⟩ := proper name member
      exact ⟨filled, not_here, not_up⟩

theorem norm_path_canonical {outlen : Nat} (room : 2 ≤ outlen) {cwd input : List UInt8} (cwd_string : 0 ∉ cwd)
    (input_string : 0 ∉ input) : Canonical outlen (norm_path outlen cwd input) := by
  obtain ⟨kept, rest, split, text, length⟩ := norm_path_kept room cwd input
  have inside {name : List UInt8} (member : name ∈ kept) : name ∈ stack cwd input := by simp [split, member]
  rw [text]
  exact path_text_canonical (fun name member => stack_proper cwd input name (inside member))
    (fun name member => stack_terminated cwd_string input_string name (inside member)) length

theorem arg_of_string (line : List UInt8) : 0 ∉ arg_of line := by
  intro zero
  have inside := (List.dropWhile_sublist _).mem (List.mem_of_mem_tail zero)
  simpa using List.mem_takeWhile_imp inside

theorem cstr_string (text : List UInt8) : 0 ∉ cstr text := by
  intro zero
  simpa using List.mem_takeWhile_imp zero

section
variable {ω : Type} {exec : ∀ {β : Type}, Call β → ω → β × ω} {fuel : Nat}

theorem step_after (st : Session × ω) (line : List UInt8) : After st.1 line (step @exec fuel st line).1 :=
  run_wp (handle_command_makes fuel st.1 line) st.2

theorem step_canonical {st : Session × ω} {line : List UInt8} (canonical : Canonical 64 st.1.cwd) :
    Canonical 64 (step @exec fuel st line).1.cwd := by
  rw [after_cwd (step_after st line)]
  split
  · exact norm_path_canonical (by decide) canonical.terminated (arg_of_string line)
  split
  · exact norm_path_canonical (by decide) canonical.terminated (by decide)
  · exact canonical

end

theorem cwd_canonical {ω : Type} (exec : ∀ {β : Type}, Call β → ω → β × ω) (w : ω) (fuel : Nat) (c : Int)
    (lines : List (List UInt8)) : Canonical 64 (lines.foldl (step @exec fuel) (accepted c, w)).1.cwd := by
  have start : Canonical 64 (ascii "/") := by
    have root : ascii "/" = path_text slash [] := by decide
    rw [root]
    exact @path_text_canonical 64 [] (by simp) (by simp) (by decide)
  exact @invariant _ _ (step @exec fuel) (fun _ _ => True) (fun st => Canonical 64 st.1.cwd)
    (fun st line canonical _ => step_canonical canonical) (accepted c, w) start lines (meets_of_all fun _ _ _ => trivial)

/-- After any lines of a session and whatever its calls have returned, the current directory
    is a rooted path without dots, and so is every path that an argument is turned into. -/
theorem paths_canonical {ω : Type} (exec : ∀ {β : Type}, Call β → ω → β × ω) (w : ω) (fuel : Nat) (c : Int)
    (lines : List (List UInt8)) (text : List UInt8) (outlen : Nat) (room : 2 ≤ outlen) :
    Canonical 64 (lines.foldl (step @exec fuel) (accepted c, w)).1.cwd ∧
      Canonical outlen (norm_path outlen (lines.foldl (step @exec fuel) (accepted c, w)).1.cwd (cstr text)) := by
  have canonical := cwd_canonical @exec w fuel c lines
  exact ⟨canonical, norm_path_canonical room canonical.terminated (cstr_string text)⟩

/-- Two directories up from `/a`. -/
theorem above_the_root : Canonical 64 (flat_run [] [ascii "CWD a"]).1.cwd ∧
    Canonical 8 (norm_path 8 (flat_run [] [ascii "CWD a"]).1.cwd (cstr (ascii "../../b"))) :=
  paths_canonical (world_exec @idle_sock @flat_fs) { net := (), files := [] } 0 3 [ascii "CWD a"] (ascii "../../b") 8 (by decide)

end IoEdgeHub.FtpPaths
