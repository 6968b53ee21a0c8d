import Mathlib.Data.List.GetD
import Mathlib.Data.List.Induction
import Mathlib.Data.Nat.Digits.Defs
import IoEdgeHub.Downloads
import IoEdgeHub.Ftpd
import IoEdgeHub.Numerals

/-!
The listing of the history files (`history_web_list_json` in `history/history.c`): a JSON
text that is built in a buffer by one `snprintf` after another. 64 bytes are kept back: the
longest entry and the closing brackets fit into them.
-/
namespace IoEdgeHub.HistoryListing
open IoEdgeHub.CStrings
open IoEdgeHub.Downloads (history_web_name_valid name_char)
open IoEdgeHub.Ftpd (FileType)

structure Info where
  type : FileType
  size : UInt32
  name : List UInt8
deriving DecidableEq

/-- The memory from the buffer on, also behind its end. -/
abbrev Memory := Nat → UInt8

/-- Bytes stored from an index on. -/
def store (start : Nat) (bytes : List UInt8) (m : Memory) : Memory :=
  fun a => if start ≤ a ∧ a < start + bytes.length then bytes.getD (a - start) 0 else m a

/-- As much of the text as leaves room for the final zero. -/
def snprintf (start size : Nat) (text : List UInt8) (m : Memory) : Memory :=
  if size = 0 then m else store start (clip size text ++ [0]) m

/-- The number of bytes so far and the memory. -/
structure Out where
  n : Nat
  mem : Memory

section
variable (bufsz : Nat)

/-- `(int)bufsz` -/
def int_bufsz : Int := if bufsz < 2^31 then bufsz else bufsz - 2^32

/-- `n += snprintf(buf + n, bufsz - n, …)`, where the difference has 32 bits. -/
def append (text : List UInt8) (s : Out) : Out :=
  { n := s.n + text.length, mem := snprintf s.n ((bufsz + 2^32 - s.n % 2^32) % 2^32) text s.mem }

def listed (info : Info) : Bool := info.type = .LFS_TYPE_REG && history_web_name_valid info.name

def entry (first : Bool) (info : Info) : List UInt8 :=
  (if first then [] else ascii ",") ++ ascii "\x7b\"name\":\"" ++ info.name ++ ascii "\",\"size\":" ++ decimal info.size.toNat ++
    ascii "\x7d"

/-- The loop over what `lfs_dir_read` yields. -/
def list_entries : List Info → Bool → Out → Out
  | [], _, s => s
  | info :: rest, first, s =>
    if listed info then
      let s := append bufsz (entry first info) s
      if (s.n : Int) ≥ int_bufsz bufsz - 64 then s else list_entries rest false s
    else list_entries rest first s

/-- `dir` is what the open directory yields after the recorder's file was synchronised, nothing if it
    cannot be opened. -/
def history_web_list_json (mounted : Bool) (dir : Option (List Info)) (m : Memory) : Int × Memory :=
  if mounted then
    let s := append bufsz (ascii "\x7b\"files\":[") ⟨0, m⟩
    let s := dir.elim s fun infos => list_entries bufsz infos true s
    let s := append bufsz (ascii "]\x7d") s
    (if (s.n : Int) > int_bufsz bufsz then int_bufsz bufsz else s.n, s.mem)
  else (-1, m)

end

def json_string (s : List UInt8) : List UInt8 := ascii "\"" ++ s ++ ascii "\""

def json_array (values : List (List UInt8)) : List UInt8 := ascii "[" ++ (ascii ",").intercalate values ++ ascii "]"

def json_object (fields : List (List UInt8 × List UInt8)) : List UInt8 :=
  ascii "\x7b" ++ (ascii ",").intercalate (fields.map fun f => json_string f.1 ++ ascii ":" ++ f.2) ++ ascii "\x7d"

def json_file (f : Info) : List UInt8 :=
  json_object [(ascii "name", json_string f.name), (ascii "size", decimal f.size.toNat)]

/-- `{"files":[…]}` -/
def listing (files : List Info) : List UInt8 := json_object [(ascii "files", json_array (files.map json_file))]

/-- The listing as far as the last of the files. -/
def opening (files : List Info) : List UInt8 := ascii "\x7b\"files\":[" ++ (ascii ",").intercalate (files.map json_file)

/-- A byte that stands for itself in a string of JSON. -/
def Plain (c : UInt8) : Prop := 32 ≤ c ∧ c < 127 ∧ c ≠ 34 ∧ c ≠ 92

theorem listing_eq (files : List Info) : listing files = opening files ++ ascii "]\x7d" := by
  simp [listing, opening, json_object, json_array, json_string, ascii, List.intercalate]

theorem entry_eq (first : Bool) (f : Info) : entry first f = (if first then [] else ascii ",") ++ json_file f := by
  simp [entry, json_file, json_object, json_string, ascii, List.intercalate]

theorem intercalate_concat (sep : List UInt8) (values : List (List UInt8)) (value : List UInt8) :
    sep.intercalate (values ++ [value]) = sep.intercalate values ++ ((if values.isEmpty then [] else sep) ++ value) := by
  induction values with
  | nil => simp
  | cons first rest ih =>
    cases rest with
    | nil => simp [List.intercalate_cons_cons]
    | cons second others =>
      rw [List.cons_append, List.cons_append, List.intercalate_cons_cons, List.intercalate_cons_cons, ← List.cons_append, ih]
      simp

/-- One more file continues the text by its entry. -/
theorem opening_concat (files : List Info) (f : Info) : opening (files ++ [f]) = opening files ++ entry files.isEmpty f := by
  rw [opening, List.map_append, List.map_singleton, intercalate_concat, entry_eq, opening, List.isEmpty_map,
    List.append_assoc]

section
variable {f : Info}

theorem name_char_plain {c : UInt8} (char : name_char c = true) : Plain c := by
  unfold name_char isdigit at char
  unfold Plain
  simp only [Bool.or_eq_true, Bool.and_eq_true, decide_eq_true_eq, UInt8.le_iff_toNat_le, UInt8.lt_iff_toNat_lt, ← UInt8.toNat_inj,
    ne_eq, UInt8.reduceToNat] at char ⊢
  omega

theorem listed_facts (listed_ : listed f = true) :
    f.type = .LFS_TYPE_REG ∧ f.name.length < 32 ∧ ∀ c ∈ f.name, Plain c := by
  unfold listed history_web_name_valid at listed_
  simp only [Bool.and_eq_true, decide_eq_true_eq, List.all_eq_true] at listed_
  obtain ⟨type, ⟨⟨_, chars⟩, _⟩, short⟩ := listed_
  exact ⟨type, short, fun c member => name_char_plain (chars c member)⟩

/-- The longest entry: a comma, 19 fixed characters, 31 of the name and 10 digits. -/
theorem entry_length (listed_ : listed f = true) (first : Bool) :
    (entry first f).length ≤ (if first then 60 else 61) := by
  obtain ⟨_, short, _⟩ := listed_facts listed_
  have digits : (decimal f.size.toNat).length ≤ 10 := by
    have small : f.size.toNat < 10^10 := f.size.toNat_lt.trans (by decide)
    rw [decimal, List.length_map]
    exact Nat.toDigits_length 10 _ 10 (by decide) small
  have before : (ascii "\x7b\"name\":\"").length = 9 := rfl
  have between : (ascii "\",\"size\":").length = 9 := rfl
  have after : (ascii "\x7d").length = 1 := rfl
  have comma : (ascii ",").length = 1 := rfl
  unfold entry
  cases first
  · simp only [List.length_append, Bool.false_eq_true, if_false]
    omega
  · simp only [List.length_append, if_true, List.length_nil]
    omega

end

/-- The memory holds a text and a zero behind it. -/
def Holds (m : Memory) (text : List UInt8) : Prop := (∀ i < text.length, m i = text.getD i 0) ∧ m text.length = 0

section
variable {bufsz : Nat} {text more : List UInt8} {s : Out}

theorem store_inside {start i : Nat} {bytes : List UInt8} (inside : i < bytes.length) (m : Memory) :
    store start bytes m (start + i) = bytes.getD i 0 := by
  have within : start ≤ start + i ∧ start + i < start + bytes.length := by omega
  rw [store, if_pos within, Nat.add_sub_cancel_left]

theorem store_outside {start a : Nat} {bytes : List UInt8} (outside : a < start ∨ start + bytes.length ≤ a) (m : Memory) :
    store start bytes m a = m a := if_neg (by omega)

/-- What fits in front of the end of the buffer is put behind what is there. -/
theorem append_holds (object : bufsz < 2^31) (fits : text.length + more.length < bufsz) (n : s.n = text.length)
    (holds : text = [] ∨ Holds s.mem text) :
    (append bufsz more s).n = (text ++ more).length ∧ Holds (append bufsz more s).mem (text ++ more) ∧
      ∀ a, bufsz ≤ a → (append bufsz more s).mem a = s.mem a := by
  have room : (bufsz + 2^32 - text.length % 2^32) % 2^32 = bufsz - text.length := by omega
  have whole : clip (bufsz - text.length) more = more := List.take_of_length_le (by omega)
  have printed : (append bufsz more s).mem = store text.length (more ++ [0]) s.mem := by
    rw [append, n, snprintf, room, if_neg (by omega), whole]
  have size : (more ++ [0]).length = more.length + 1 := List.length_append
  rw [printed]
  refine ⟨by rw [append, n, List.length_append], ⟨?_, ?_⟩, ?_⟩
  · intro i below
    rw [List.length_append] at below
    by_cases earlier : i < text.length
    · rw [store_outside (.inl earlier), List.getD_append _ _ _ _ earlier]
      rcases holds with rfl | holds
      · cases earlier
      · exact holds.1 i earlier
    · obtain ⟨j, rfl⟩ := Nat.exists_eq_add_of_le (Nat.not_lt.mp earlier)
      have inside : j < more.length := by omega
      rw [store_inside (by omega), List.getD_append_right _ _ _ _ (Nat.le_add_right _ _), Nat.add_sub_cancel_left,
        List.getD_append _ _ _ _ inside]
  · rw [List.length_append, store_inside (by omega), List.getD_append_right _ _ _ _ (Nat.le_refl _), Nat.sub_self]
    rfl
  · exact fun a past => store_outside (.inr (by omega)) s.mem

end

/-- The state of the loop behind the files that are listed so far. -/
structure Listing (bufsz : Nat) (m : Memory) (files : List Info) (s : Out) : Prop where
  n : s.n = (opening files).length
  holds : Holds s.mem (opening files)
  behind : ∀ a, bufsz ≤ a → s.mem a = m a

section
variable {bufsz : Nat} {m : Memory}

/-- One entry fits where the text before it has not reached the reserve, or is only the head. -/
theorem listing_step {files : List Info} {f : Info} {s : Out} (large : 80 ≤ bufsz) (object : bufsz < 2^31)
    (state : Listing bufsz m files s) (listed_ : listed f = true)
    (room : files = [] ∨ (opening files).length + 64 < bufsz) :
    Listing bufsz m (files ++ [f]) (append bufsz (entry files.isEmpty f) s) ∧ (opening (files ++ [f])).length + 3 < bufsz := by
  have long := entry_length listed_ files.isEmpty
  have fits : (opening files).length + (entry files.isEmpty f).length + 3 < bufsz := by
    rcases room with rfl | room
    · have head : (opening []).length = 10 := rfl
      simp only [List.isEmpty_nil, if_true] at long
      rw [head]
      simp only [List.isEmpty_nil]
      omega
    · have most : (entry files.isEmpty f).length ≤ 61 := long.trans (by split <;> decide)
      omega
  obtain ⟨n, holds, behind⟩ := append_holds object (Nat.lt_of_le_of_lt (Nat.le_add_right _ 3) fits) state.n (.inr state.holds)
  rw [← opening_concat] at n holds
  refine ⟨⟨n, holds, fun a past => (behind a past).trans (state.behind a past)⟩, ?_⟩
  rw [opening_concat, List.length_append]
  exact fits

theorem list_entries_listing {infos files : List Info} {s : Out} (large : 80 ≤ bufsz) (object : bufsz < 2^31)
    (state : Listing bufsz m files s) (fits : (opening files).length + 3 < bufsz)
    (room : files = [] ∨ (opening files).length + 64 < bufsz) :
    ∃ more rest, infos.filter listed = more ++ rest ∧
      Listing bufsz m (files ++ more) (list_entries bufsz infos files.isEmpty s) ∧
      (opening (files ++ more)).length + 3 < bufsz ∧ (rest ≠ [] → bufsz ≤ (opening (files ++ more)).length + 64) := by
  induction infos generalizing files s with
  | nil =>
    refine ⟨[], [], rfl, ?_, ?_, fun left => absurd rfl left⟩
    · rw [List.append_nil]
      exact state
    · rw [List.append_nil]
      exact fits
  | cons info infos ih =>
    by_cases listed_ : listed info = true
    · obtain ⟨after, fits'⟩ := listing_step large object state listed_ room
      have int : int_bufsz bufsz = (bufsz : Int) := if_pos object
      rw [List.filter_cons_of_pos listed_]
      unfold list_entries
      rw [if_pos listed_]
      by_cases full : ((append bufsz (entry files.isEmpty info) s).n : Int) ≥ int_bufsz bufsz - 64
      · refine ⟨[info], infos.filter listed, rfl, ?_, fits', ?_⟩
        · simp only [if_pos full]
          exact after
        · intro _
          rw [int, after.n] at full
          omega
      · have more_room : (opening (files ++ [info])).length + 64 < bufsz := by
          rw [int, after.n] at full
          omega
        obtain ⟨more, rest, split, final, short, left⟩ := ih after fits' (.inr more_room)
        have not_first : (files ++ [info]).isEmpty = false := by cases files <;> rfl
        rw [not_first] at final
        refine ⟨info :: more, rest, ?_, ?_, ?_, ?_⟩
        · rw [split, List.cons_append]
        · simp only [if_neg full]
          rw [List.append_assoc] at final
          exact final
        · rw [List.append_assoc] at short
          exact short
        · rw [List.append_assoc] at left
          exact left
    · rw [List.filter_cons_of_neg listed_]
      obtain ⟨more, rest, split, final, short, left⟩ := ih state fits room
      refine ⟨more, rest, split, ?_, short, left⟩
      unfold list_entries
      rw [if_neg listed_]
      exact final

end

theorem decimal_nonzero (n : Nat) : ∀ c ∈ decimal n, c ≠ 0 := by
  intro c member zero
  have digit := (Numerals.decimal_digits n).1 c member
  rw [zero] at digit
  cases digit

/-- No byte of an entry ends the string. -/
theorem entry_nonzero {f : Info} (listed_ : listed f = true) (first : Bool) : ∀ c ∈ entry first f, c ≠ 0 := by
  have plain := (listed_facts listed_).2.2
  have name : ∀ c ∈ f.name, c ≠ 0 := by
    rintro c member rfl
    exact absurd (plain 0 member).1 (by decide)
  have lead : ∀ c ∈ (if first then [] else ascii ","), c ≠ 0 := by cases first <;> decide
  have before : ∀ c ∈ ascii "\x7b\"name\":\"", c ≠ 0 := by decide
  have between : ∀ c ∈ ascii "\",\"size\":", c ≠ 0 := by decide
  have after : ∀ c ∈ ascii "\x7d", c ≠ 0 := by decide
  intro c member
  unfold entry at member
  simp only [List.mem_append] at member
  rcases member with ((((member | member) | member) | member) | member) | member
  · exact lead c member
  · exact before c member
  · exact name c member
  · exact between c member
  · exact decimal_nonzero _ c member
  · exact after c member

theorem listing_nonzero {files : List Info} (all : ∀ f ∈ files, listed f = true) : ∀ c ∈ listing files, c ≠ 0 := by
  have opening_nonzero : ∀ c ∈ opening files, c ≠ 0 := by
    induction files using List.reverseRecOn with
    | nil => decide
    | append_singleton files f ih =>
      rw [List.forall_mem_append, List.forall_mem_singleton] at all
      rw [opening_concat]
      intro c member
      rcases List.mem_append.mp member with member | member
      · exact ih all.1 c member
      · exact entry_nonzero all.2 files.isEmpty c member
  have brackets : ∀ c ∈ ascii "]\x7d", c ≠ 0 := by decide
  intro c member
  rw [listing_eq] at member
  rcases List.mem_append.mp member with member | member
  · exact opening_nonzero c member
  · exact brackets c member

/-- The buffer holds the listing of the first of the files, whose length is returned; a file is
    left out only if the text in front of it has reached the reserve. -/
def Complete (bufsz : Nat) (infos : List Info) (m : Memory) (result : Int × Memory) : Prop :=
  ∃ files rest, infos.filter listed = files ++ rest ∧ result.1 = (listing files).length ∧
    (listing files).length < bufsz ∧ cstr ((List.range bufsz).map result.2) = listing files ∧
    (∀ a, bufsz ≤ a → result.2 a = m a) ∧ (∀ f ∈ files, ∀ c ∈ f.name, Plain c) ∧
    (rest ≠ [] → bufsz - 64 ≤ (opening files).length)

/-- The listing is complete in every buffer of at least 80 bytes whose size is an `int`. -/
theorem list_json_complete (dir : Option (List Info)) (m : Memory) {bufsz : Nat} (large : 80 ≤ bufsz)
    (object : bufsz < 2^31) : Complete bufsz (dir.getD []) m (history_web_list_json bufsz true dir m) := by
  have int : int_bufsz bufsz = (bufsz : Int) := if_pos object
  -- the head of the text
  have start : Listing bufsz m [] (append bufsz (ascii "\x7b\"files\":[") ⟨0, m⟩) := by
    have head : ([] : List UInt8).length + (ascii "\x7b\"files\":[").length < bufsz := Nat.lt_of_lt_of_le (by decide) large
    obtain ⟨n, holds, behind⟩ := @append_holds bufsz [] _ ⟨0, m⟩ object head rfl (.inl rfl)
    exact ⟨n, holds, behind⟩
  obtain ⟨files, rest, split, state, fits, left⟩ :
      ∃ files rest, (dir.getD []).filter listed = files ++ rest ∧
        Listing bufsz m files (dir.elim (append bufsz (ascii "\x7b\"files\":[") ⟨0, m⟩) fun infos =>
          list_entries bufsz infos true (append bufsz (ascii "\x7b\"files\":[") ⟨0, m⟩)) ∧
        (opening files).length + 3 < bufsz ∧ (rest ≠ [] → bufsz ≤ (opening files).length + 64) := by
    have head : (opening []).length + 3 < bufsz := Nat.lt_of_lt_of_le (by decide) large
    cases dir with
    | none => exact ⟨[], [], rfl, start, head, fun left => absurd rfl left⟩
    | some infos => exact list_entries_listing large object start head (.inl rfl)
  have all : ∀ f ∈ files, listed f = true := by
    intro f member
    have among : f ∈ (dir.getD []).filter listed := by
      rw [split]
      exact List.mem_append_left _ member
    exact (List.mem_filter.mp among).2
  -- the closing brackets
  have brackets : (ascii "]\x7d").length = 2 := rfl
  obtain ⟨n, holds, behind⟩ := @append_holds bufsz (opening files) (ascii "]\x7d") _ object (by omega) state.n (.inr state.holds)
  rw [← listing_eq] at n holds
  have short : (listing files).length < bufsz := by
    rw [listing_eq, List.length_append]
    omega
  refine ⟨files, rest, split, ?_, short, ?_, ?_, ?_, ?_⟩
  · have below : ¬ ((listing files).length : Int) > int_bufsz bufsz := by
      rw [int]
      omega
    simp only [history_web_list_json, if_true, n, if_neg below]
  · exact cstr_eq holds.1 holds.2 short (listing_nonzero all)
  · exact fun a past => (behind a past).trans (state.behind a past)
  · exact fun f member => (listed_facts (all f member)).2.2
  · intro more
    have reached := left more
    omega

/-- A directory whose second history file does not fit into 80 bytes any more. -/
def three_entries : List Info :=
  [⟨.LFS_TYPE_REG, 4294967295, ascii "data_0102_0304.raw"⟩, ⟨.LFS_TYPE_DIR, 0, ascii "data_dir"⟩, ⟨.LFS_TYPE_REG, 7, ascii "data_b"⟩]

theorem three_entries_complete :
    Complete 80 three_entries (fun _ => 0) (history_web_list_json 80 true (some three_entries) fun _ => 0) :=
  list_json_complete (some three_entries) (fun _ => 0) (by decide) (by decide)

example : cstr ((List.range 80).map (history_web_list_json 80 true (some three_entries) fun _ => 0).2) =
    ascii "\x7b\"files\":[\x7b\"name\":\"data_0102_0304.raw\",\"size\":4294967295\x7d]\x7d" := by decide

/-- A size that is no `int` is taken for a negative one, and is what is returned. The one caller
    passes the size of a small buffer, so that this never comes up in the firmware. -/
theorem huge_buffer : ¬ Complete (2^32 - 1) [] (fun _ => 0) (history_web_list_json (2^32 - 1) true (some []) fun _ => 0) := by
  rintro ⟨files, _, _, length, _⟩
  have negative : (history_web_list_json (2^32 - 1) true (some []) fun _ => 0).1 = -1 := by decide
  rw [negative] at length
  exact absurd length (by omega)

end IoEdgeHub.HistoryListing
