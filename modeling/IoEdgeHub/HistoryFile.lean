import IoEdgeHub.Bytes
import IoEdgeHub.Clock
import IoEdgeHub.CStrings
import IoEdgeHub.Directory

/-!
The file core of the recorder (`history/history_file.c`): naming, rotation, retention
and resumption of the data files. The file system is the root directory with the bytes
of its files; only writing may fail, after as many bytes as there is room for. An open
file that was removed takes what is written and keeps nothing.
-/
namespace IoEdgeHub.HistoryFile
open IoEdgeHub.Bytes IoEdgeHub.Clock IoEdgeHub.CStrings IoEdgeHub.Directory

def HIST_MAX_FILES : Nat := 10

def HIST_FILE_MAX : Nat := 1024 * 1024

def DI_TYPE : UInt16 := 1

def AI_TYPE : UInt16 := 2

/-- `struct his_data`. The two words of a DI record are the first two of an AI record. -/
structure HisData where
  type : UInt16
  timestamps : UInt32
  en_status : UInt16
  value : UInt16 × UInt16 × UInt16 × UInt16
deriving DecidableEq

/-- The struct as it lies in memory. -/
def HisData.bytes (d : HisData) : List UInt8 :=
  put_le16 d.type.toNat ++ io_put_le32 d.timestamps.toNat ++ put_le16 d.en_status.toNat ++ put_le16 d.value.1.toNat ++
    put_le16 d.value.2.1.toNat ++ put_le16 d.value.2.2.1.toNat ++ put_le16 d.value.2.2.2.toNat

def HisData.len (d : HisData) : Nat := if d.type = DI_TYPE then 10 else 16

/-- What is written of a record. -/
def HisData.image (d : HisData) : List UInt8 := d.bytes.take d.len

abbrev Name := List UInt8

structure His where
  /-- Whether a file system is bound. -/
  his_lfs : Bool
  files : Dir Name (List UInt8)
  /-- The name of the open file. -/
  his_fp : Option Name := none
  his_cur_size : Nat := 0
  his_cur_name : Name := []

def is_data (name : Name) : Bool := name.take 5 = ascii "data_"

/-- The recorder's files in the order of their names. -/
def His.data_files (s : His) : List (Name × List UInt8) := s.files.part is_data

/-- The least of some names. -/
def least : List Name → Name
  | [] => []
  | name :: rest => rest.foldl (fun min other => if other < min then other else min) name

/-- Removes the least of the listed names, `excess` times. Where in the list a name
    stands does not matter. -/
def remove_least : Nat → List Name → Dir Name (List UInt8) → Dir Name (List UInt8)
  | 0, _, files => files
  | excess + 1, names, files => remove_least excess (names.erase (least names)) (files.remove (least names))

def cleanup_old_files (s : His) : His :=
  let names := ((s.data_files.map (·.1)).take (HIST_MAX_FILES + 2)).map (clip 24)
  { s with files := remove_least (names.length - HIST_MAX_FILES) names s.files }

def CLAMP (v lo hi : Nat) : Nat := if v < lo then lo else if v > hi then hi else v

def make_hist_name (now : Int) : Name :=
  match gmtime_r (now + 8 * 3600) with
  | none => ascii "data_0101_000000.raw"
  | some lt =>
    ascii "data_" ++ two_digits (CLAMP (lt.tm_mon + 1) 1 12) ++ two_digits (CLAMP lt.tm_mday 1 31) ++ ascii "_" ++
      two_digits (CLAMP lt.tm_hour 0 23) ++ two_digits (CLAMP lt.tm_min 0 59) ++ two_digits (CLAMP lt.tm_sec 0 59) ++
      ascii ".raw"

example : make_hist_name 1767294245 = ascii "data_0102_030405.raw" := by decide

def open_append (name : Name) (create : Bool) (s : His) : Option His :=
  match s.files.get? name with
  | some data => some { s with his_fp := some name, his_cur_size := data.length }
  | none =>
    if create then some { s with files := s.files.create name [], his_fp := some name, his_cur_size := 0 } else none

def close_cur_file (s : His) : His := { s with his_fp := none }

/-- Goes on with the file that was closed last. -/
def resume (s : His) : Bool × His :=
  if s.his_cur_name ≠ [] ∧ s.his_cur_size < HIST_FILE_MAX then
    match open_append s.his_cur_name false s with
    | some s' =>
      if s'.his_cur_size < HIST_FILE_MAX then (true, s') else (false, { close_cur_file s' with his_cur_name := [] })
    | none => (false, { close_cur_file s with his_cur_name := [] })
  else (false, s)

/-- The greatest name of a data file, cut to the buffer it is kept in. -/
def latest_name (files : Dir Name (List UInt8)) : Name :=
  files.names.foldl (fun latest name => if is_data name ∧ latest < name then clip 24 name else latest) []

/-- Goes on with the newest file there is. -/
def reuse_latest (s : His) : Bool × His :=
  let latest := latest_name s.files
  if latest = [] then (false, s)
  else
    match open_append latest false s with
    | some s' =>
      if s'.his_cur_size < HIST_FILE_MAX then (true, { s' with his_cur_name := latest }) else (false, close_cur_file s')
    | none => (false, close_cur_file s)

/-- Whether there is a file to go on with, which is then open. -/
def reuse (s : His) : Bool × His :=
  if s.his_fp.isSome ∧ s.his_cur_size < HIST_FILE_MAX then (true, s)
  else
    let r := resume (close_cur_file s)
    if r.1 then r else if r.2.his_cur_name = [] then reuse_latest r.2 else r

def new_file (now : Int) (s : His) : Bool × His :=
  match open_append (make_hist_name now) true s with
  | none => (false, s)
  | some s' =>
    let named := { s' with his_cur_name := make_hist_name now }
    (true, if named.his_cur_size = 0 then cleanup_old_files named else named)

def ensure_file (now : Int) (s : His) : Bool × His :=
  let r := reuse s
  if r.1 then r else new_file now r.2

/-- Appends to the open file. -/
def lfs_file_write (bytes : List UInt8) (s : His) : His :=
  match s.his_fp with
  | some name => { s with files := s.files.update name (· ++ bytes) }
  | none => s

/-- Writes a record at the time `now`. The file system takes `room` bytes of it at most. -/
def hist_file_write (now : Int) (room : Nat) (d : HisData) (s : His) : Int × His :=
  if s.his_lfs then
    let r := ensure_file now s
    if r.1 then
      let written := d.image.take room
      let s' := lfs_file_write written r.2
      if written.length = d.len then (0, { s' with his_cur_size := s'.his_cur_size + d.len })
      else (-1, { s' with his_cur_size := HIST_FILE_MAX })
    else (-1, r.2)
  else (-1, s)

/-- The bytes are in the file already. -/
def hist_file_sync (s : His) : His := s

def hist_file_close (s : His) : His := close_cur_file s

def hist_file_init (lfs : Bool) (s : His) : His :=
  { s with his_lfs := lfs, his_fp := none, his_cur_name := [], his_cur_size := 0 }

@[simp] theorem image_length (d : HisData) : d.image.length = d.len := by
  simp only [HisData.image, List.length_take]
  have whole : d.bytes.length = 16 := rfl
  unfold HisData.len
  split <;> omega

theorem len_le (d : HisData) : d.len ≤ 16 := by
  unfold HisData.len
  split <;> omega

theorem len_pos (d : HisData) : 0 < d.len := by
  unfold HisData.len
  split <;> omega

theorem two_digits_length {n : Nat} (small : n < 100) : (two_digits n).length = 2 := by
  have all : ∀ n < 100, (two_digits n).length = 2 := by decide
  exact all n small

theorem clamp_le {v lo hi : Nat} (range : lo ≤ hi) : CLAMP v lo hi ≤ hi := by
  unfold CLAMP
  split
  · exact range
  · split <;> omega

theorem hist_name_is_data (now : Int) : is_data (make_hist_name now) = true := by
  have start (rest : Name) : is_data (ascii "data_" ++ rest) = true := by
    simp only [is_data, decide_eq_true_eq]
    exact List.take_left' rfl
  unfold make_hist_name
  split
  · exact start (ascii "0101_000000.raw")
  · simp only [List.append_assoc]
    exact start _

theorem hist_name_length (now : Int) : (make_hist_name now).length = 20 := by
  unfold make_hist_name
  split
  · rfl
  · rename_i lt _
    have mon := clamp_le (v := lt.tm_mon + 1) (show 1 ≤ 12 by omega)
    have mday := clamp_le (v := lt.tm_mday) (show 1 ≤ 31 by omega)
    have hour := clamp_le (v := lt.tm_hour) (show 0 ≤ 23 by omega)
    have min := clamp_le (v := lt.tm_min) (show 0 ≤ 59 by omega)
    have sec := clamp_le (v := lt.tm_sec) (show 0 ≤ 59 by omega)
    simp (disch := omega) only [List.length_append, two_digits_length]
    rfl

theorem data_ne_nil {name : Name} (data : is_data name = true) : name ≠ [] := by
  rintro rfl
  cases data

/-- A write needs a new name. -/
def needs_name (s : His) : Prop := (reuse s).1 = false

instance (s : His) : Decidable (needs_name s) := instDecidableEqBool _ _

/-- The file opened at `name`. -/
def His.opened (s : His) (name : Name) (size : Nat) : His :=
  { s with his_fp := some name, his_cur_size := size, his_cur_name := name }

/-- A file to go on with: the open one, or the remembered or the latest one opened again. A full
    one is not asked for again. -/
inductive Found (s : His) : His → Prop
  | kept {name : Name} (fp : s.his_fp = some name) (room : s.his_cur_size < HIST_FILE_MAX) : Found s s
  | reopened {name : Name} {data : List UInt8} (closed : s.his_fp = none ∨ HIST_FILE_MAX ≤ s.his_cur_size)
      (usable : s.his_cur_name = [] ∨ s.his_cur_size < HIST_FILE_MAX)
      (choice : name = s.his_cur_name ∨ name = latest_name s.files) (named : name ≠ []) (file : s.files.get? name = some data) (room : data.length < HIST_FILE_MAX) :
      Found s (s.opened name data.length)

/-- How `ensure_file` gets a file: one to go on with, or one with the name of the time, which
    may be there already. -/
inductive Ensured (now : Int) (s : His) : His → Prop
  | found {s' : His} (reused : ¬ needs_name s) (file : Found s s') : Ensured now s s'
  | existing {data : List UInt8} (needed : needs_name s) (file : s.files.get? (make_hist_name now) = some data) :
      Ensured now s (if data.length = 0 then cleanup_old_files (s.opened (make_hist_name now) data.length)
        else s.opened (make_hist_name now) data.length)
  | created (needed : needs_name s) (absent : s.files.get? (make_hist_name now) = none) :
      Ensured now s (cleanup_old_files
        ({ s with files := s.files.create (make_hist_name now) [] }.opened (make_hist_name now) 0))

section
variable {s : His} {now : Int}

/-- Nothing but the current file and what is known of it changed. -/
def SameFiles (s s' : His) : Prop := s'.his_lfs = s.his_lfs ∧ s'.files = s.files

theorem opened_congr {s' : His} (same : SameFiles s s') (name : Name) (size : Nat) :
    s'.opened name size = s.opened name size := by
  obtain ⟨lfs, files⟩ := same
  simp only [His.opened, lfs, files]

theorem open_append_existing (name : Name) (s : His) :
    open_append name false s = (s.files.get? name).map fun data =>
      { s with his_fp := some name, his_cur_size := data.length } := by
  unfold open_append
  cases s.files.get? name <;> rfl

theorem resume_spec (s : His) :
    ((resume s).1 = true ∧ ∃ data, s.his_cur_name ≠ [] ∧ s.his_cur_size < HIST_FILE_MAX ∧
      s.files.get? s.his_cur_name = some data ∧ data.length < HIST_FILE_MAX ∧
      (resume s).2 = s.opened s.his_cur_name data.length) ∨
    ((resume s).1 = false ∧ SameFiles s (resume s).2 ∧
      ((resume s).2.his_cur_name = [] → s.his_cur_name = [] ∨ s.his_cur_size < HIST_FILE_MAX)) := by
  unfold resume
  split
  · rename_i known
    rw [open_append_existing]
    cases file : s.files.get? s.his_cur_name with
    | none => exact .inr ⟨rfl, ⟨rfl, rfl⟩, fun _ => .inr known.2⟩
    | some data =>
      by_cases room : data.length < HIST_FILE_MAX
      · simp only [Option.map_some, if_pos room]
        exact .inl ⟨trivial, data, known.1, known.2, rfl, room, rfl⟩
      · simp only [Option.map_some, if_neg room]
        exact .inr ⟨trivial, ⟨rfl, rfl⟩, fun _ => .inr known.2⟩
  · exact .inr ⟨rfl, ⟨rfl, rfl⟩, .inl⟩

theorem reuse_latest_spec (s : His) :
    ((reuse_latest s).1 = true ∧ ∃ data, latest_name s.files ≠ [] ∧ s.files.get? (latest_name s.files) = some data ∧
      data.length < HIST_FILE_MAX ∧ (reuse_latest s).2 = s.opened (latest_name s.files) data.length) ∨
    ((reuse_latest s).1 = false ∧ SameFiles s (reuse_latest s).2) := by
  simp only [reuse_latest]
  split
  · exact .inr ⟨rfl, rfl, rfl⟩
  · rename_i known
    rw [open_append_existing]
    cases file : s.files.get? (latest_name s.files) with
    | none => exact .inr ⟨rfl, rfl, rfl⟩
    | some data =>
      by_cases room : data.length < HIST_FILE_MAX
      · simp only [Option.map_some, if_pos room]
        exact .inl ⟨trivial, data, known, rfl, room, rfl⟩
      · simp only [Option.map_some, if_neg room]
        exact .inr ⟨trivial, rfl, rfl⟩

theorem reuse_spec (s : His) :
    ((reuse s).1 = true ∧ Found s (reuse s).2) ∨ ((reuse s).1 = false ∧ SameFiles s (reuse s).2) := by
  unfold reuse
  split
  · rename_i usable
    obtain ⟨name, fp⟩ := Option.isSome_iff_exists.mp usable.1
    exact .inl ⟨rfl, .kept fp usable.2⟩
  · rename_i unusable
    have closed : s.his_fp = none ∨ HIST_FILE_MAX ≤ s.his_cur_size := by
      cases fp : s.his_fp with
      | none => exact .inl rfl
      | some name => exact .inr (Nat.le_of_not_lt fun room => unusable ⟨by simp [fp], room⟩)
    rcases resume_spec (close_cur_file s) with ⟨found, data, named, usable, file, room, eq⟩ | ⟨lost, ⟨lfs, files⟩, usable⟩
    · simp only [found, if_true, eq]
      exact .inl ⟨trivial, .reopened closed (.inr usable) (.inl rfl) named file room⟩
    · simp only [lost, Bool.false_eq_true, if_false]
      split
      · rename_i forgotten
        rcases reuse_latest_spec (resume (close_cur_file s)).2 with ⟨found, data, named, file, room, eq⟩ | ⟨lost', lfs', files'⟩
        · rw [files] at named file eq
          rw [eq, opened_congr ⟨lfs, files⟩]
          exact .inl ⟨found, .reopened closed (usable forgotten) (.inr rfl) named file room⟩
        · exact .inr ⟨lost', lfs'.trans lfs, files'.trans files⟩
      · exact .inr ⟨lost, lfs, files⟩

/-- A file is always found. -/
theorem ensure_file_spec (now : Int) (s : His) :
    (ensure_file now s).1 = true ∧ Ensured now s (ensure_file now s).2 := by
  unfold ensure_file
  rcases reuse_spec s with ⟨reused, file⟩ | ⟨lost, same⟩
  · simp only [reused, if_true]
    exact ⟨trivial, .found (by simp [needs_name, reused]) file⟩
  · simp only [lost, Bool.false_eq_true, if_false]
    unfold new_file open_append
    rw [same.2]
    cases file : s.files.get? (make_hist_name now) with
    | none =>
      simp only [if_true, same.1]
      exact ⟨trivial, .created lost file⟩
    | some data =>
      simp only [same.1]
      exact ⟨trivial, .existing lost file⟩

/-- A write into the file that was found. -/
theorem hist_file_write_spec (now : Int) (room : Nat) (d : HisData) (bound : s.his_lfs = true) :
    ∃ s', Ensured now s s' ∧ hist_file_write now room d s =
      (if d.len ≤ room then 0 else -1,
        { lfs_file_write (d.image.take room) s' with
          his_cur_size := if d.len ≤ room then s'.his_cur_size + d.len else HIST_FILE_MAX }) := by
  obtain ⟨found, ensured⟩ := ensure_file_spec now s
  refine ⟨_, ensured, ?_⟩
  have size : (lfs_file_write (d.image.take room) (ensure_file now s).2).his_cur_size =
      (ensure_file now s).2.his_cur_size := by
    unfold lfs_file_write
    split <;> rfl
  simp only [hist_file_write, bound, found, if_true, List.length_take, image_length, size]
  by_cases whole : d.len ≤ room
  · rw [if_pos (Nat.min_eq_right whole), if_pos whole, if_pos whole]
  · rw [if_neg (by omega), if_neg whole, if_neg whole]

/-- A write to the open file changes the bytes of that file only. -/
theorem lfs_file_write_open {name : Name} (fp : s.his_fp = some name) (bytes : List UInt8) :
    lfs_file_write bytes s = { s with files := s.files.update name (· ++ bytes) } := by
  simp only [lfs_file_write, fp]

theorem mem_remove_least {excess : Nat} {names : List Name} {files : Dir Name (List UInt8)} {e : Name × List UInt8}
    (member : e ∈ (remove_least excess names files).entries) : e ∈ files.entries := by
  induction excess generalizing names files with
  | zero => exact member
  | succ excess ih => exact (mem_remove.mp (ih member)).1

theorem mem_cleanup {e : Name × List UInt8} (member : e ∈ (cleanup_old_files s).files.entries) :
    e ∈ s.files.entries := mem_remove_least member

/-- All data files have names that fit the buffers. -/
def ShortNames (s : His) : Prop := ∀ e ∈ s.data_files, e.1.length < 24

instance (s : His) : Decidable (ShortNames s) := List.decidableBAll _ _

theorem clip_short {names : List Name} (short : ∀ name ∈ names, name.length < 24) : names.map (clip 24) = names := by
  induction names with
  | nil => rfl
  | cons name rest ih =>
    have fits : name.length ≤ 24 - 1 := by have := short name (by simp); omega
    rw [List.map_cons, ih fun other member => short other (by simp [member]), clip, List.take_of_length_le fits]

theorem cleanup_few (few : s.data_files.length ≤ HIST_MAX_FILES) : cleanup_old_files s = s := by
  have none_over : (((s.data_files.map (·.1)).take (HIST_MAX_FILES + 2)).map (clip 24)).length - HIST_MAX_FILES = 0 := by
    simp only [List.length_map, List.length_take]
    omega
  simp only [cleanup_old_files, none_over, remove_least]

/-- The first of names in ascending order is the least. -/
theorem least_sorted {first : Name} {rest : List Name} (sorted : (first :: rest).Pairwise (· < ·)) :
    least (first :: rest) = first := by
  obtain ⟨below, -⟩ := List.pairwise_cons.mp sorted
  simp only [least]
  clear sorted
  induction rest with
  | nil => rfl
  | cons next rest ih =>
    rw [List.foldl_cons, if_neg fun less => Std.lt_irrefl (Std.lt_trans less (below next (by simp)))]
    exact ih fun name member => below name (by simp [member])

/-- One file too many: the first one goes. -/
theorem cleanup_one {first : Name × List UInt8} {rest : List (Name × List UInt8)} (short : ShortNames s)
    (files : s.data_files = first :: rest) (count : rest.length = HIST_MAX_FILES) :
    (cleanup_old_files s).data_files = rest := by
  have sorted : (first :: rest).Pairwise fun a b => a.1 < b.1 := files ▸ part_sorted
  have names : ((s.data_files.map (·.1)).take (HIST_MAX_FILES + 2)).map (clip 24) = first.1 :: rest.map (·.1) := by
    have all : (s.data_files.map (·.1)).length ≤ HIST_MAX_FILES + 2 := by
      rw [files, List.length_map, List.length_cons, count]
      omega
    rw [List.take_of_length_le all, clip_short, files, List.map_cons]
    intro name member
    obtain ⟨e, inside, rfl⟩ := List.mem_map.mp member
    exact short e inside
  have removed : (cleanup_old_files s).files = s.files.remove first.1 := by
    have once : (first.1 :: rest.map (·.1)).length - HIST_MAX_FILES = 1 := by
      rw [List.length_cons, List.length_map, count]
      rfl
    simp only [cleanup_old_files, names, once, remove_least]
    rw [least_sorted]
    rw [← List.map_cons]
    exact List.pairwise_map.mpr sorted
  rw [His.data_files, removed, part_remove]
  show s.data_files.filter _ = rest
  rw [files, List.filter_cons, if_neg (by simp), List.filter_eq_self]
  intro e member
  obtain ⟨below, -⟩ := List.pairwise_cons.mp sorted
  simpa using fun same : e.1 = first.1 => Std.lt_irrefl (same ▸ below e member)

/-- A new file with the greatest name is the last one, and the first one goes if there were ten. -/
theorem created_files (short : ShortNames s) (few : s.data_files.length ≤ HIST_MAX_FILES)
    (fresh : ∀ e ∈ s.data_files, e.1 < make_hist_name now) :
    ∃ removed kept, s.data_files = removed ++ kept ∧ removed.length = s.data_files.length - (HIST_MAX_FILES - 1) ∧
      kept.length < HIST_MAX_FILES ∧
      (cleanup_old_files ({ s with files := s.files.create (make_hist_name now) [] }.opened
        (make_hist_name now) 0)).data_files = kept ++ [(make_hist_name now, [])] := by
  have files : ({ s with files := s.files.create (make_hist_name now) [] }.opened (make_hist_name now) 0).data_files =
      s.data_files ++ [(make_hist_name now, [])] := part_create_greatest (hist_name_is_data now) fresh
  generalize { s with files := s.files.create (make_hist_name now) [] }.opened (make_hist_name now) 0 = t at files
  by_cases full : s.data_files.length = HIST_MAX_FILES
  · cases first : s.data_files with
    | nil => rw [first] at full; cases full
    | cons e rest =>
      rw [first] at files full
      have short' : ShortNames t := by
        intro e' member
        rw [files, ← first] at member
        rcases List.mem_append.mp member with old | new
        · exact short e' old
        · have length := hist_name_length now
          rw [List.mem_singleton.mp new]
          simp only
          omega
      have count : (rest ++ [(make_hist_name now, ([] : List UInt8))]).length = HIST_MAX_FILES := by
        simpa using full
      rw [List.length_cons] at full
      have one : 1 = rest.length + 1 - (HIST_MAX_FILES - 1) := by
        rw [full]
        rfl
      exact ⟨[e], rest, rfl, one, by omega, cleanup_one short' files count⟩
  · have fits : t.data_files.length ≤ HIST_MAX_FILES := by
      rw [files, List.length_append, List.length_singleton]
      omega
    have none_over : 0 = s.data_files.length - (HIST_MAX_FILES - 1) := by omega
    exact ⟨[], s.data_files, rfl, none_over, by omega, by rw [cleanup_few fits, files]⟩

/-- The newest file by name. -/
theorem latest_name_eq (short : ShortNames s) :
    latest_name s.files = ((s.data_files.map (·.1)).getLast?).getD [] := by
  have main (l : List (Name × List UInt8)) (latest : Name) (sorted : l.Pairwise fun a b => a.1 < b.1)
      (above : ∀ e ∈ l, is_data e.1 = true → latest < e.1 ∧ e.1.length < 24) :
      (l.map (·.1)).foldl (fun latest name => if is_data name ∧ latest < name then clip 24 name else latest) latest =
        (((l.filter fun e => is_data e.1).map (·.1)).getLast?).getD latest := by
    induction l generalizing latest with
    | nil => rfl
    | cons e rest ih =>
      obtain ⟨least, sorted'⟩ := List.pairwise_cons.mp sorted
      rw [List.map_cons, List.foldl_cons, List.filter_cons]
      by_cases data : is_data e.1 = true
      · obtain ⟨greater, fits⟩ := above e (by simp) data
        have whole : clip 24 e.1 = e.1 := List.take_of_length_le (by omega)
        rw [if_pos ⟨data, greater⟩, if_pos data, whole, ih _ sorted' fun e' member data' =>
          ⟨least e' member, (above e' (by simp [member]) data').2⟩, List.map_cons, List.getLast?_cons]
        rfl
      · rw [if_neg fun both => data both.1, if_neg data]
        exact ih _ sorted' fun e' member => above e' (by simp [member])
  refine main s.files.entries [] s.files.sorted fun e member data => ⟨?_, short e (mem_part.mpr ⟨member, data⟩)⟩
  cases name : e.1 with
  | nil => exact absurd name (data_ne_nil data)
  | cons c rest => exact List.nil_lt_cons c rest

end

end IoEdgeHub.HistoryFile
