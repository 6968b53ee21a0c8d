import IoEdgeHub.HistoryLog

/-!
Which data files the recorder removes. The retention goes by the order of the names,
and the names carry no year: the oldest files are the ones to go as long as each new
name is greater than those of the files there are.
-/
namespace IoEdgeHub.HistoryRetention
open IoEdgeHub.CStrings IoEdgeHub.Directory IoEdgeHub.HistoryFile IoEdgeHub.HistoryLog IoEdgeHub.Machine

/-- The name of the file that an operation creates. -/
def created (s : His) : Op → List Name
  | .hist_file_write now _ _ =>
    if needs_name s ∧ s.files.has (make_hist_name now) = false then [make_hist_name now] else []
  | _ => []

/-- The recorder, and its files in the order in which they were created. -/
structure Dated where
  his : His
  born : List Name

/-- All files that an operation finds or creates, the oldest first. -/
def Dated.all (t : Dated) (op : Op) : List Name := t.born ++ created t.his op

def age (t : Dated) (op : Op) : Dated where
  his := step t.his op
  born := (t.all op).filter fun name => (step t.his op).files.has name

/-- What an operation removes is older than all that it keeps, and it keeps what it creates. -/
def KeepsNewest (t : Dated) (op : Op) : Prop :=
  t.all op = (t.all op).filter (fun name => !(step t.his op).files.has name) ++ (age t op).born ∧
    ∀ name ∈ created t.his op, name ∈ (age t op).born

/-- A new name is greater than those of all data files. -/
def LaterName (t : Dated) : Op → Prop
  | .hist_file_write now _ _ =>
    needs_name t.his → t.his.files.has (make_hist_name now) = false → ∀ e ∈ t.his.data_files, e.1 < make_hist_name now
  | _ => True

instance : ∀ t op, Decidable (LaterName t op)
  | _, .hist_file_write .. => inferInstanceAs (Decidable (_ → _ → _))
  | _, .hist_file_sync => isTrue trivial
  | _, .hist_file_close => isTrue trivial
  | _, .reboot => isTrue trivial

/-- At most ten files, created in the order of their names. -/
structure Aged (t : Dated) : Prop where
  bound : t.his.his_lfs = true
  few : t.his.data_files.length ≤ HIST_MAX_FILES
  short : ShortNames t.his
  born : t.born = t.his.data_files.map (·.1)

/-- What an operation leaves of the files: the last of them, with what it created. -/
structure Leaves (t : Dated) (op : Op) (s' : His) : Prop where
  bound : s'.his_lfs = true
  few : s'.data_files.length ≤ HIST_MAX_FILES
  short : ShortNames s'
  split : ∃ removed, t.all op = removed ++ s'.data_files.map (·.1)
  recent : ∀ name ∈ created t.his op, name ∈ s'.data_files.map (·.1)

section
variable {t : Dated} {op : Op}

theorem data_names_sorted (s : His) : (s.data_files.map (·.1)).Pairwise (· < ·) := List.pairwise_map.mpr part_sorted

theorem mem_data_names {s : His} {name : Name} :
    name ∈ s.data_files.map (·.1) ↔ name ∈ s.files.names ∧ is_data name = true := by
  simp only [His.data_files, Dir.part, Dir.names, List.mem_map, List.mem_filter]
  constructor
  · rintro ⟨e, ⟨member, data⟩, rfl⟩
    exact ⟨⟨e, member, rfl⟩, data⟩
  · rintro ⟨⟨e, member, rfl⟩, data⟩
    exact ⟨e, ⟨member, data⟩, rfl⟩

/-- A write changes no name but through the choice of its file. -/
theorem written_names (s : His) (bytes : List UInt8) (size : Nat) :
    ({ lfs_file_write bytes s with his_cur_size := size } : His).data_files.map (·.1) = s.data_files.map (·.1) := by
  unfold lfs_file_write
  split
  · simp [His.data_files, part_update, Function.comp_def]
  · rfl

theorem short_of_names {s s' : His} (same : s'.data_files.map (·.1) = s.data_files.map (·.1)) (short : ShortNames s) :
    ShortNames s' := by
  intro e member
  have inside : e.1 ∈ s.data_files.map (·.1) := same ▸ List.mem_map_of_mem member
  obtain ⟨e', member', eq⟩ := List.mem_map.mp inside
  exact eq ▸ short e' member'

theorem count_of_names {s s' : His} (same : s'.data_files.map (·.1) = s.data_files.map (·.1)) :
    s'.data_files.length = s.data_files.length := by
  simpa using congrArg List.length same

/-- An operation that creates and removes nothing. -/
theorem leaves_all {s' : His} (aged : Aged t) (none_new : created t.his op = []) (bound : s'.his_lfs = true)
    (same : s'.data_files.map (·.1) = t.his.data_files.map (·.1)) : Leaves t op s' where
  bound := bound
  few := count_of_names same ▸ aged.few
  short := short_of_names same aged.short
  split := ⟨[], by rw [Dated.all, none_new, aged.born, same]; simp⟩
  recent := by simp [none_new]

theorem ensured_leaves {s' : His} {now : Int} {room : Nat} {d : HisData} (aged : Aged t)
    (later : LaterName t (.hist_file_write now room d)) (ensured : Ensured now t.his s') :
    Leaves t (.hist_file_write now room d) s' := by
  cases ensured with
  | found reused file =>
    have none_new : created t.his (.hist_file_write now room d) = [] := if_neg fun both => reused both.1
    cases file with
    | kept => exact leaves_all aged none_new aged.bound rfl
    | reopened => exact leaves_all aged none_new aged.bound rfl
  | @existing data needed file =>
    have none_new : created t.his (.hist_file_write now room d) = [] :=
      if_neg fun both => absurd both.2 (by simp [Dir.has, file])
    have few : (t.his.opened (make_hist_name now) data.length).data_files.length ≤ HIST_MAX_FILES := aged.few
    rw [cleanup_few few, ite_self]
    exact leaves_all aged none_new aged.bound rfl
  | created needed absent =>
    have missing : t.his.files.has (make_hist_name now) = false := by simp [Dir.has, absent]
    have new : created t.his (.hist_file_write now room d) = [make_hist_name now] := if_pos ⟨needed, missing⟩
    obtain ⟨removed, kept, old, -, space, files⟩ := created_files aged.short aged.few (later needed missing)
    constructor
    case bound => exact aged.bound
    case few =>
      rw [files, List.length_append, List.length_singleton]
      omega
    case short =>
      intro e member
      rcases List.mem_append.mp (files ▸ member) with earlier | newest
      · exact aged.short e (old ▸ List.mem_append_right _ earlier)
      · simp [List.mem_singleton.mp newest, hist_name_length]
    case split =>
      refine ⟨removed.map (·.1), ?_⟩
      rw [Dated.all, new, aged.born, files, old]
      simp
    case recent =>
      rw [new, files]
      simp

theorem step_leaves (aged : Aged t) (later : LaterName t op) : Leaves t op (step t.his op) := by
  cases op with
  | hist_file_write now room d =>
    obtain ⟨s', ensured, eq⟩ := hist_file_write_spec now room d aged.bound
    obtain ⟨bound, few, short, split, recent⟩ := ensured_leaves aged later ensured
    have names := written_names s' (d.image.take room) (if d.len ≤ room then s'.his_cur_size + d.len else HIST_FILE_MAX)
    simp only [step, eq]
    constructor
    case bound =>
      unfold lfs_file_write
      split <;> exact bound
    case few => exact count_of_names names ▸ few
    case short => exact short_of_names names short
    case split => rwa [names]
    case recent => rwa [names]
  | hist_file_sync => exact leaves_all aged rfl aged.bound rfl
  | hist_file_close => exact leaves_all aged rfl aged.bound rfl
  | reboot => exact leaves_all aged rfl rfl rfl

/-- All names there are, the new one among them, are different. -/
theorem all_nodup (aged : Aged t) : (t.all op).Nodup := by
  have old : (t.his.data_files.map (·.1)).Nodup := by
    refine (data_names_sorted t.his).imp ?_
    rintro name name' less rfl
    exact Std.lt_irrefl less
  rw [Dated.all, aged.born]
  refine List.nodup_append.mpr ⟨old, ?_, fun name member name' new => ?_⟩
  · unfold created
    split
    · split <;> simp
    · simp
  · rintro rfl
    unfold created at new
    split at new
    · split at new
      · rename_i fresh
        rw [List.mem_singleton.mp new] at member
        exact absurd fresh.2 (by simp [has_iff.mpr (mem_data_names.mp member).1])
      · simp at new
    · simp at new

theorem all_data (aged : Aged t) {name : Name} (member : name ∈ t.all op) : is_data name = true := by
  rw [Dated.all, aged.born] at member
  rcases List.mem_append.mp member with old | new
  · exact (mem_data_names.mp old).2
  · unfold created at new
    split at new
    · split at new
      · rw [List.mem_singleton.mp new]
        exact hist_name_is_data _
      · simp at new
    · simp at new

/-- What is left is what was born last, and nothing of what was removed. -/
theorem leaves_born (aged : Aged t) (leaves : Leaves t op (step t.his op)) :
    (age t op).born = (step t.his op).data_files.map (·.1) ∧
      t.all op = (t.all op).filter (fun name => !(step t.his op).files.has name) ++ (age t op).born := by
  obtain ⟨removed, split⟩ := leaves.split
  have nodup : (t.all op).Nodup := all_nodup aged
  have gone (name : Name) (member : name ∈ removed) : (step t.his op).files.has name = false := by
    by_contra there
    have data := all_data aged (split ▸ List.mem_append_left _ member : name ∈ t.all op)
    have left := mem_data_names.mpr ⟨has_iff.mp (by simpa using there), data⟩
    rw [split] at nodup
    exact (List.nodup_append.mp nodup).2.2 name member name left rfl
  have there (name : Name) (member : name ∈ (step t.his op).data_files.map (·.1)) :
      (step t.his op).files.has name = true := has_iff.mpr (mem_data_names.mp member).1
  have kept : (age t op).born = (step t.his op).data_files.map (·.1) := by
    show (t.all op).filter _ = _
    rw [split, List.filter_append, List.filter_eq_nil_iff.mpr fun name member => by simp [gone name member],
      List.nil_append, List.filter_eq_self.mpr there]
  refine ⟨kept, ?_⟩
  rw [kept, split, List.filter_append, List.filter_eq_self.mpr fun name member => by simp [gone name member]]
  rw [List.filter_eq_nil_iff.mpr fun name member => by simp [there name member], List.append_nil]

theorem age_aged (aged : Aged t) (later : LaterName t op) : Aged (age t op) :=
  have leaves := step_leaves aged later
  ⟨leaves.bound, leaves.few, leaves.short, (leaves_born aged leaves).1⟩

end

/-- The recorder at power-up, with files that were created in the order of their names. -/
def dated_boot (files : Dir Name (List UInt8)) : Dated := ⟨boot files, (boot files).data_files.map (·.1)⟩

/-- In every run from at most ten data files in which new names are greater than those there
    are, each operation removes only files that are older than all it keeps, and never the
    one it has just created. -/
theorem removes_oldest (files : Dir Name (List UInt8)) (few : (boot files).data_files.length ≤ HIST_MAX_FILES)
    (short : ShortNames (boot files)) (ops : List Op) (op : Op)
    (meets : Meets age LaterName (dated_boot files) (ops ++ [op])) :
    KeepsNewest (ops.foldl age (dated_boot files)) op := by
  obtain ⟨before, later, -⟩ := (meets_append _ _ _ _ _).mp meets
  have aged : Aged (ops.foldl age (dated_boot files)) :=
    invariant (fun _ _ aged later => age_aged aged later) ⟨rfl, few, short, rfl⟩ before
  have leaves := step_leaves aged later
  obtain ⟨kept, split⟩ := leaves_born aged leaves
  exact ⟨split, fun name new => kept ▸ leaves.recent name new⟩

/-- A file of the last day of a year. -/
def december_name (k : Nat) : Name := ascii "data_1231_2350" ++ two_digits k ++ ascii ".raw"

/-- As many AI records as a file takes. -/
def full_file : List UInt8 := images (List.replicate 65536 ⟨AI_TYPE, 1798732000, 15, 1, 2, 3, 4⟩)

theorem images_replicate (n : Nat) (d : HisData) : (images (List.replicate n d)).length = n * d.len := by
  induction n with
  | zero => simp [images]
  | succ n ih =>
    rw [List.replicate_succ, images, List.flatMap_cons, List.length_append, image_length]
    rw [images] at ih
    rw [ih, Nat.succ_mul, Nat.add_comm]

theorem full_file_length : full_file.length = HIST_FILE_MAX := by
  rw [full_file, images_replicate]
  rfl

/-- Ten full files. -/
def december : Dir Name (List UInt8) where
  entries := (List.range 10).map fun k => (december_name k, full_file)
  sorted := by decide +kernel

/-- Midnight of the first of January 2027, in UTC+8. -/
def new_year : Int := 1798732800

/-- At power-up a full newest file is not gone on with. -/
theorem full_needs_name {files : Dir Name (List UInt8)} {name : Name} {data : List UInt8}
    (latest : latest_name files = name) (file : files.get? name = some data) (full : HIST_FILE_MAX ≤ data.length) :
    needs_name (boot files) := by
  rcases reuse_spec (boot files) with ⟨-, found⟩ | ⟨lost, -⟩
  · generalize (reuse (boot files)).2 = s' at found
    cases found with
    | kept fp => cases fp
    | @reopened name' data' _ _ choice named file' room =>
      rcases choice with rfl | rfl
      · exact absurd rfl named
      · have same : files.get? (latest_name files) = some data' := file'
        rw [latest, file] at same
        obtain rfl := Option.some.inj same
        omega
  · exact lost

theorem december_full : needs_name (boot december) :=
  @full_needs_name december (december_name 9) full_file (by decide) rfl (Nat.le_of_eq full_file_length.symm)

theorem kept_created {t : Dated} {op : Op} (keeps : KeepsNewest t op) {name : Name} (new : name ∈ created t.his op) :
    name ∈ (step t.his op).files.names :=
  has_iff.mp (List.mem_filter.mp (keeps.2 name new)).2

/-- A write that creates a file leaves the names that the retention leaves. -/
theorem created_names {s : His} {now : Int} {room : Nat} {d : HisData} (bound : s.his_lfs = true) (needed : needs_name s)
    (absent : s.files.get? (make_hist_name now) = none) :
    (step s (.hist_file_write now room d)).data_files.map (·.1) = (cleanup_old_files
      ({ s with files := s.files.create (make_hist_name now) [] }.opened (make_hist_name now) 0)).data_files.map (·.1) := by
  obtain ⟨s', ensured, eq⟩ := hist_file_write_spec now room d bound
  simp only [step, eq, written_names]
  cases ensured with
  | found reused => exact absurd needed reused
  | existing _ file => rw [absent] at file; cases file
  | created => rfl

/-- The first file of a new year is removed as soon as it is created. -/
theorem new_file_removed : ¬ ∀ (files : Dir Name (List UInt8)) (ops : List Op) (op : Op),
    (boot files).data_files.length ≤ HIST_MAX_FILES → ShortNames (boot files) →
    KeepsNewest (ops.foldl age (dated_boot files)) op := by
  intro claim
  have keeps := claim december [] (.hist_file_write new_year 16 ⟨DI_TYPE, 1798732800, 1, 1, 0, 0, 0⟩)
    (by decide) (by decide)
  have absent : december.get? (make_hist_name new_year) = none := by decide
  have new : make_hist_name new_year ∈ created (boot december)
      (.hist_file_write new_year 16 ⟨DI_TYPE, 1798732800, 1, 1, 0, 0, 0⟩) := by
    rw [created, if_pos ⟨december_full, show december.has (make_hist_name new_year) = false by rw [Dir.has, absent]; rfl⟩]
    exact List.mem_singleton_self _
  have there := @kept_created (dated_boot december) _ keeps _ new
  have left := mem_data_names.mpr ⟨there, hist_name_is_data new_year⟩
  rw [show (dated_boot december).his = boot december from rfl, created_names rfl december_full absent] at left
  revert left
  decide

/-- A minute before midnight an eleventh file is created, and the first of the ten goes. -/
theorem eleventh_file_kept :
    let write : Op := .hist_file_write (new_year - 60) 16 ⟨DI_TYPE, 1798732740, 1, 1, 0, 0, 0⟩
    KeepsNewest (dated_boot december) write ∧ (step (boot december) write).data_files.map (·.1) =
      (List.range' 1 9).map december_name ++ [ascii "data_1231_235900.raw"] := by
  intro write
  have later : LaterName (dated_boot december) write := fun _ _ => by decide
  refine ⟨removes_oldest december (by decide) (by decide) [] write ⟨later, trivial⟩, ?_⟩
  rw [created_names rfl december_full (by decide)]
  decide

end IoEdgeHub.HistoryRetention
