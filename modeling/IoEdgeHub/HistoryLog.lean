import IoEdgeHub.HistoryFile
import IoEdgeHub.Machine

/-!
The recorder over whole runs of writes, syncs, closes and reboots. As long as every
new file gets a greater name than those before it, the data files hold the last
records written, in order and each once, and the oldest file is the one to go.
-/
namespace IoEdgeHub.HistoryLog
open IoEdgeHub.CStrings IoEdgeHub.Directory IoEdgeHub.HistoryFile IoEdgeHub.Machine

/-- One operation on the recorder. Before a reboot the file is synced or closed. -/
inductive Op
  | hist_file_write (now : Int) (room : Nat) (d : HisData)
  | hist_file_sync
  | hist_file_close
  | reboot

def step (s : His) : Op → His
  | .hist_file_write now room d => (hist_file_write now room d s).2
  | .hist_file_sync => hist_file_sync s
  | .hist_file_close => hist_file_close s
  | .reboot => hist_file_init true (hist_file_sync s)

/-- The records that were written. -/
def records (ops : List Op) : List HisData :=
  ops.filterMap fun op => match op with | .hist_file_write _ _ d => some d | _ => none

/-- The recorder at power-up, with some files there. -/
def boot (files : Dir Name (List UInt8)) : His := { his_lfs := true, files }

/-- The bytes of some records. -/
def images (ds : List HisData) : List UInt8 := ds.flatMap HisData.image

/-- What is in the files, the newest first, once a record was filed: it goes into the newest file
    until that is full, and then into a file of its own, for which the oldest of ten makes room. -/
def file_record : List (List HisData) → HisData → List (List HisData)
  | [], d => [[d]]
  | newest :: older, d =>
    if (images newest).length < HIST_FILE_MAX then (newest ++ [d]) :: older
    else [d] :: (newest :: older).take (HIST_MAX_FILES - 1)

/-- The files hold these records, file by file and nothing else. -/
def Holds (files : List (Name × List UInt8)) (kept : List (List HisData)) : Prop :=
  files.map (·.2) = (kept.map images).reverse

section
variable {files : List (Name × List UInt8)} {kept : List (List HisData)} {newest : List HisData} {name : Name}

theorem holds_newest (holds : Holds files (newest :: kept)) :
    ∃ older name, files = older ++ [(name, images newest)] ∧ Holds older kept := by
  rw [Holds, List.map_cons, List.reverse_cons] at holds
  obtain ⟨older, last, rfl, before, one⟩ := List.map_eq_append_iff.mp holds
  obtain ⟨e, rest, rfl, data, nothing⟩ := List.map_eq_cons_iff.mp one
  obtain rfl := List.map_eq_nil_iff.mp nothing
  exact ⟨older, e.1, by rw [← data], before⟩

theorem holds_write (holds : Holds files kept) (newest : List HisData) :
    Holds (files ++ [(name, images newest)]) (newest :: kept) := by
  rw [Holds, List.map_append, holds, List.map_cons (l := kept), List.reverse_cons]
  rfl

/-- The oldest files are the last ones of those kept. -/
theorem holds_drop {removed : List (Name × List UInt8)} (holds : Holds (removed ++ files) kept) :
    Holds files (kept.take files.length) := by
  have all : removed.length + files.length = kept.length := by simpa using congrArg List.length holds
  have left : files.map (·.2) = ((removed ++ files).map (·.2)).drop removed.length := by
    rw [List.map_append, List.drop_left' (List.length_map _)]
  rw [Holds, left, holds, List.drop_reverse, List.length_map, ← List.map_take,
    show kept.length - removed.length = files.length by omega]

theorem holds_count (holds : Holds files kept) : files.length = kept.length := by
  simpa using congrArg List.length holds

/-- Filing keeps all records but those of the file that is removed. -/
theorem file_record_flatten (kept : List (List HisData)) (d : HisData) :
    ∃ gone, kept.reverse.flatten ++ [d] = gone ++ (file_record kept d).reverse.flatten ∧
      (gone ≠ [] → HIST_MAX_FILES ≤ (file_record kept d).length) := by
  cases kept with
  | nil => exact ⟨[], rfl, fun some_gone => absurd rfl some_gone⟩
  | cons newest older =>
    simp only [file_record]
    split
    · exact ⟨[], by simp, fun some_gone => absurd rfl some_gone⟩
    · refine ⟨((newest :: older).drop (HIST_MAX_FILES - 1)).reverse.flatten, ?_, fun some_gone => ?_⟩
      · have split_up := congrArg (·.reverse.flatten) (List.take_append_drop (HIST_MAX_FILES - 1) (newest :: older)).symm
        simp only [List.reverse_append, List.flatten_append] at split_up
        rw [split_up, List.reverse_cons, List.flatten_append, List.append_assoc]
        rfl
      · have many : HIST_MAX_FILES - 1 < (newest :: older).length := by
          by_contra few
          rw [List.drop_eq_nil_of_le (Nat.le_of_not_lt few)] at some_gone
          exact some_gone rfl
        rw [List.length_cons, List.length_take]
        simp only [HIST_MAX_FILES] at many ⊢
        omega

theorem file_record_grows (few : kept.length ≤ HIST_MAX_FILES) (d : HisData) :
    kept.length ≤ (file_record kept d).length ∧ (file_record kept d).length ≤ HIST_MAX_FILES := by
  cases kept with
  | nil => exact ⟨Nat.zero_le _, by simp [file_record, HIST_MAX_FILES]⟩
  | cons newest older =>
    simp only [file_record]
    split
    · exact ⟨Nat.le_refl _, few⟩
    · simp only [List.length_cons, List.length_take, HIST_MAX_FILES] at few ⊢
      omega

theorem filed_few (few : kept.length ≤ HIST_MAX_FILES) (ds : List HisData) :
    (ds.foldl file_record kept).length ≤ HIST_MAX_FILES := by
  induction ds generalizing kept with
  | nil => exact few
  | cons d rest ih => exact ih (file_record_grows few d).2

/-- Of all records those are left that end them, and all of them unless there are ten files. -/
theorem filed_suffix (few : kept.length ≤ HIST_MAX_FILES) (ds : List HisData) :
    ∃ dropped, kept.reverse.flatten ++ ds = dropped ++ (ds.foldl file_record kept).reverse.flatten ∧
      (dropped ≠ [] → (ds.foldl file_record kept).length = HIST_MAX_FILES) ∧
      kept.length ≤ (ds.foldl file_record kept).length := by
  induction ds generalizing kept with
  | nil => exact ⟨[], List.append_nil _, fun some_gone => absurd rfl some_gone, Nat.le_refl _⟩
  | cons d rest ih =>
    obtain ⟨gone, filed, full⟩ := file_record_flatten kept d
    obtain ⟨grows, fewer⟩ := file_record_grows few d
    obtain ⟨dropped, split, ten, more⟩ := ih fewer
    refine ⟨gone ++ dropped, ?_, fun some_gone => ?_, Nat.le_trans grows more⟩
    · rw [List.foldl_cons, List.append_assoc, ← split, ← List.append_assoc, ← filed, List.append_assoc]
      rfl
    · by_cases later : dropped = []
      · rw [later, List.append_nil] at some_gone
        -- ten files stay ten files
        have many := full some_gone
        exact Nat.le_antisymm (filed_few fewer rest) (Nat.le_trans many more)
      · exact ten later

end

/-- The recorder's files, and what it remembers of the one it writes to. -/
structure Recording (s : His) (kept : List (List HisData)) : Prop where
  bound : s.his_lfs = true
  holds : Holds s.data_files kept
  few : s.data_files.length ≤ HIST_MAX_FILES
  small : ∀ e ∈ s.data_files, e.2.length < HIST_FILE_MAX + 16
  short : ShortNames s
  current : s.his_cur_name ≠ [] →
    ∃ older data, s.data_files = older ++ [(s.his_cur_name, data)] ∧ s.his_cur_size = data.length
  opened : ∀ name, s.his_fp = some name → name = s.his_cur_name ∧ name ≠ []

/-- The newest file is open and takes another record. -/
structure Ready (s : His) (older : List (Name × List UInt8)) (name : Name) (newest : List HisData)
    (kept : List (List HisData)) : Prop extends Recording s (newest :: kept) where
  last : s.data_files = older ++ [(name, images newest)]
  fp : s.his_fp = some name
  size : s.his_cur_size = (images newest).length
  room : (images newest).length < HIST_FILE_MAX

section
variable {s s' : His} {kept : List (List HisData)} {newest : List HisData} {now : Int} {older : List (Name × List UInt8)}
variable {name : Name} {data : List UInt8}

/-- The data file of a name. -/
theorem newest_data {data' : List UInt8} (last : s.data_files = older ++ [(name, data)])
    (file : s.files.get? name = some data') : data' = data := by
  have member : (name, data) ∈ s.data_files := by simp [last]
  exact entries_unique (get?_eq_some.mp file) (mem_part.mp member).1

/-- The last data file holds the newest records. -/
theorem recording_newest (recording : Recording s kept) (last : s.data_files = older ++ [(name, data)]) :
    ∃ newest before, kept = newest :: before ∧ data = images newest ∧ Holds older before := by
  cases kept with
  | nil =>
    have none_there := holds_count recording.holds
    simp [last] at none_there
  | cons newest before =>
    obtain ⟨older', name', files, holds⟩ := holds_newest recording.holds
    obtain ⟨rfl, one⟩ := List.append_inj' (last.symm.trans files) rfl
    exact ⟨newest, before, rfl, (Prod.mk.inj (List.cons.inj one).1).2, holds⟩

theorem ready_opened (recording : Recording s (newest :: kept)) (last : s.data_files = older ++ [(name, images newest)])
    (named : name ≠ []) (room : (images newest).length < HIST_FILE_MAX) :
    Ready (s.opened name (images newest).length) older name newest kept :=
  { bound := recording.bound
    holds := recording.holds
    few := recording.few
    small := recording.small
    short := recording.short
    current := fun _ => ⟨older, images newest, last, rfl⟩
    opened := fun _ fp => ⟨(Option.some.inj fp).symm, (Option.some.inj fp) ▸ named⟩
    last := last
    fp := rfl
    size := rfl
    room := room }

/-- A new file with the greatest name, the oldest removed if there were ten. -/
theorem ready_created (recording : Recording s kept) (fresh : ∀ e ∈ s.data_files, e.1 < make_hist_name now) :
    ∃ older, Ready (cleanup_old_files ({ s with files := s.files.create (make_hist_name now) [] }.opened
      (make_hist_name now) 0)) older (make_hist_name now) [] (kept.take (HIST_MAX_FILES - 1)) := by
  obtain ⟨removed, left, old, gone, room, files⟩ := created_files recording.short recording.few fresh
  have named := data_ne_nil (hist_name_is_data now)
  have known {e : Name × List UInt8} (member : e ∈ left) : e ∈ s.data_files := by
    rw [old]
    exact List.mem_append_right _ member
  have holds : Holds left (kept.take (HIST_MAX_FILES - 1)) := by
    have count := holds_count recording.holds
    have all := congrArg List.length old
    rw [List.length_append] at all
    have dropped := holds_drop (old ▸ recording.holds)
    rcases Nat.le_total kept.length (HIST_MAX_FILES - 1) with few | many
    · rw [List.take_of_length_le (by omega)] at dropped
      rwa [List.take_of_length_le few]
    · rwa [show left.length = HIST_MAX_FILES - 1 by omega] at dropped
  refine ⟨left, ?_⟩
  constructor
  case last => exact files
  case fp => rfl
  case size => rfl
  case room => simp [images, HIST_FILE_MAX]
  constructor
  case bound => exact recording.bound
  case holds =>
    rw [files]
    exact holds_write holds []
  case few =>
    rw [files, List.length_append, List.length_singleton]
    omega
  case small =>
    intro e member
    rcases List.mem_append.mp (files ▸ member) with earlier | new
    · exact recording.small e (known earlier)
    · simp [List.mem_singleton.mp new, HIST_FILE_MAX]
  case short =>
    intro e member
    rcases List.mem_append.mp (files ▸ member) with earlier | new
    · exact recording.short e (known earlier)
    · simp [List.mem_singleton.mp new, hist_name_length]
  case current => exact fun _ => ⟨left, [], files, rfl⟩
  case opened => exact fun _ fp => ⟨(Option.some.inj fp).symm, (Option.some.inj fp) ▸ named⟩

/-- As long as the newest file is not full, no new name is needed. -/
theorem no_name_needed (recording : Recording s kept) (last : s.data_files = older ++ [(name, data)])
    (room : data.length < HIST_FILE_MAX) : ¬ needs_name s := by
  have member : (name, data) ∈ s.data_files := by simp [last]
  have file : s.files.get? name = some data := get?_eq_some.mpr (mem_part.mp member).1
  have named : name ≠ [] := data_ne_nil (mem_part.mp member).2
  simp only [needs_name, Bool.not_eq_false]
  unfold reuse
  split
  · rfl
  · by_cases known : s.his_cur_name = []
    · -- nothing is remembered: the directory is searched
      have lost : resume (close_cur_file s) = (false, close_cur_file s) := if_neg fun both => both.1 known
      have latest : latest_name s.files = name := by
        rw [latest_name_eq recording.short, last]
        simp
      simp only [lost, Bool.false_eq_true, if_false]
      rw [if_pos (show (close_cur_file s).his_cur_name = [] from known)]
      simp only [reuse_latest, close_cur_file, latest, if_neg named, open_append_existing, file, Option.map_some, if_pos room]
    · obtain ⟨older', data', last', size⟩ := recording.current known
      obtain ⟨-, same⟩ := List.append_inj' (last.symm.trans last') rfl
      obtain ⟨rfl, rfl⟩ := Prod.mk.inj (List.cons.inj same).1
      have found : (resume (close_cur_file s)).1 = true := by
        unfold resume
        rw [if_pos ⟨known, size ▸ room⟩, open_append_existing]
        simp only [close_cur_file, file, Option.map_some, if_pos room]
      rw [if_pos found]
      exact found

/-- However a file is found, it is the newest one, and a new one is only made when that is full. -/
theorem ensured_ready (recording : Recording s kept) (ensured : Ensured now s s')
    (fresh : needs_name s → ∀ e ∈ s.data_files, e.1 < make_hist_name now) :
    ∃ older name newest before, Ready s' older name newest before ∧
      ∀ d, file_record kept d = (newest ++ [d]) :: before := by
  cases ensured with
  | found reused file =>
    cases file with
    | @kept name fp room =>
      obtain ⟨same, named⟩ := recording.opened name fp
      obtain ⟨older, data, last, size⟩ := recording.current (same ▸ named)
      obtain ⟨newest, before, rfl, rfl, -⟩ := recording_newest recording last
      rw [size] at room
      exact ⟨older, name, newest, before, ⟨recording, same ▸ last, fp, size, room⟩, fun _ => if_pos room⟩
    | @reopened name data _ _ choice named file room =>
      have found : ∃ older data', s.data_files = older ++ [(name, data')] := by
        rcases choice with rfl | rfl
        · obtain ⟨older, data', last, -⟩ := recording.current named
          exact ⟨older, data', last⟩
        · rw [latest_name_eq recording.short] at named ⊢
          rcases List.eq_nil_or_concat s.data_files with none_left | ⟨older, last, eq⟩
          · simp [none_left] at named
          · exact ⟨older, last.2, by simp [eq]⟩
      obtain ⟨older, data', last⟩ := found
      obtain rfl := newest_data last file
      obtain ⟨newest, before, rfl, rfl, -⟩ := recording_newest recording last
      exact ⟨older, name, newest, before, ready_opened recording last named room, fun _ => if_pos room⟩
  | existing needed file =>
    have member := get?_eq_some.mp file
    exact absurd (fresh needed _ (mem_part.mpr ⟨member, hist_name_is_data now⟩)) Std.lt_irrefl
  | created needed absent =>
    obtain ⟨older, ready⟩ := ready_created recording (fresh needed)
    refine ⟨older, _, [], _, ready, fun d => ?_⟩
    cases kept with
    | nil => rfl
    | cons newest before =>
      obtain ⟨_, _, last, -⟩ := holds_newest recording.holds
      have full : ¬ (images newest).length < HIST_FILE_MAX := fun room => no_name_needed recording last room needed
      exact if_neg full

/-- A record that is written whole. -/
theorem ready_write (ready : Ready s older name newest kept) (d : HisData) :
    Recording { lfs_file_write d.image s with his_cur_size := s.his_cur_size + d.len } ((newest ++ [d]) :: kept) := by
  rw [lfs_file_write_open ready.fp]
  have longer : images (newest ++ [d]) = images newest ++ d.image := by simp [images]
  have files : (s.files.update name (· ++ d.image)).part is_data = older ++ [(name, images (newest ++ [d]))] := by
    rw [longer]
    exact part_update_last ready.last
  obtain ⟨same, named⟩ := ready.opened name ready.fp
  have old {e : Name × List UInt8} (member : e ∈ older) : e ∈ s.data_files := by
    rw [ready.last]
    exact List.mem_append_left _ member
  constructor
  case bound => exact ready.bound
  case holds =>
    obtain ⟨older', name', last, before⟩ := holds_newest ready.holds
    obtain ⟨rfl, -⟩ := List.append_inj' (last.symm.trans ready.last) rfl
    show Holds ((s.files.update name (· ++ d.image)).part is_data) _
    rw [files]
    exact holds_write before _
  case few =>
    show ((s.files.update name (· ++ d.image)).part is_data).length ≤ _
    have few := ready.few
    rw [ready.last] at few
    simpa [files] using few
  case small =>
    intro e member
    rcases List.mem_append.mp (files ▸ member : e ∈ older ++ [(name, images (newest ++ [d]))]) with earlier | last
    · exact ready.small e (old earlier)
    · have room := ready.room
      have len := len_le d
      rw [List.mem_singleton.mp last, longer, List.length_append, image_length]
      omega
  case short =>
    intro e member
    rcases List.mem_append.mp (files ▸ member : e ∈ older ++ [(name, images (newest ++ [d]))]) with earlier | last
    · exact ready.short e (old earlier)
    · rw [List.mem_singleton.mp last]
      exact ready.short (name, images newest) (by simp [ready.last])
  case current =>
    intro _
    refine ⟨older, images (newest ++ [d]), ?_, ?_⟩
    · rw [← same]
      exact files
    · rw [longer, List.length_append, image_length, ready.size]
  case opened => exact ready.opened

end

/-- A file that need not be created is not. -/
theorem names_kept {s : His} {now : Int} {room : Nat} {d : HisData} (bound : s.his_lfs = true) (reused : ¬ needs_name s) :
    (hist_file_write now room d s).2.files.names = s.files.names := by
  obtain ⟨s', ensured, eq⟩ := hist_file_write_spec now room d bound
  have files : s'.files = s.files := by
    cases ensured with
    | found _ file => cases file <;> rfl
    | existing needed => exact absurd needed reused
    | created needed => exact absurd needed reused
  rw [eq]
  show (lfs_file_write (d.image.take room) s').files.names = s.files.names
  rw [← files]
  unfold lfs_file_write
  split
  · simp [Dir.names, Dir.update, Function.comp_def]
  · rfl

/-- A write succeeds, and a new name is greater than those of all data files. -/
def Fresh (s : His) : Op → Prop
  | .hist_file_write now room d => d.len ≤ room ∧ (needs_name s → ∀ e ∈ s.data_files, e.1 < make_hist_name now)
  | _ => True

instance : ∀ s op, Decidable (Fresh s op)
  | _, .hist_file_write .. => instDecidableAnd
  | _, .hist_file_sync => isTrue trivial
  | _, .hist_file_close => isTrue trivial
  | _, .reboot => isTrue trivial

theorem recording_closed {s : His} {kept : List (List HisData)} (recording : Recording s kept) :
    Recording (hist_file_close s) kept :=
  { recording with opened := fun _ none_open => nomatch none_open }

theorem step_recording {s : His} {kept : List (List HisData)} {op : Op} (recording : Recording s kept)
    (fresh : Fresh s op) : Recording (step s op) ((records [op]).foldl file_record kept) := by
  cases op with
  | hist_file_write now room d =>
    obtain ⟨s', ensured, eq⟩ := hist_file_write_spec now room d recording.bound
    obtain ⟨older, name, newest, before, ready, filed⟩ := ensured_ready recording ensured fresh.2
    have whole : d.image.take room = d.image := List.take_of_length_le (by rw [image_length]; exact fresh.1)
    show Recording _ (file_record kept d)
    simp only [step, eq, whole, if_pos fresh.1, filed]
    exact ready_write ready d
  | hist_file_sync => exact recording
  | hist_file_close => exact recording_closed recording
  | reboot =>
    exact { bound := rfl, holds := recording.holds, few := recording.few, small := recording.small
            short := recording.short, current := fun known => absurd rfl known
            opened := fun _ none_open => nomatch none_open }

theorem run_recording {s : His} {kept : List (List HisData)} (recording : Recording s kept) (ops : List Op)
    (meets : Meets step Fresh s ops) : Recording (ops.foldl step s) ((records ops).foldl file_record kept) := by
  induction ops generalizing s kept with
  | nil => exact recording
  | cons op rest ih =>
    have both : records (op :: rest) = records [op] ++ records rest := List.filterMap_append (l := [op])
    rw [both, List.foldl_append]
    exact ih (step_recording recording meets.1) meets.2

theorem boot_recording {files : Dir Name (List UInt8)} (clean : ∀ name ∈ files.names, is_data name = false) :
    Recording (boot files) [] := by
  have empty : (boot files).data_files = [] := by
    refine List.filter_eq_nil_iff.mpr fun e member => ?_
    simp [clean e.1 (List.mem_map_of_mem member)]
  constructor
  case bound => rfl
  case holds => rw [Holds, empty]; rfl
  case few => simp [empty]
  case small => simp [empty]
  case short => simp [ShortNames, empty]
  case current => exact fun known => absurd rfl known
  case opened => exact fun _ none_open => nomatch none_open

/-- The bytes of all files, one after the other. -/
theorem holds_bytes {files : List (Name × List UInt8)} {kept : List (List HisData)} (holds : Holds files kept) :
    files.flatMap (·.2) = images kept.reverse.flatten := by
  have all (groups : List (List HisData)) : (groups.map images).flatten = images groups.flatten := by
    induction groups with
    | nil => rfl
    | cons first rest ih => simp [images, ih]
  rw [List.flatMap, holds, ← List.map_reverse, all]

/-- In every run from a file system without data files in which all writes succeed and all new
    names are greater than those there are: the data files hold what filing one record after the
    other leaves, which is the end of the records, in order and each once, and all of them unless
    there are ten files; there are at most ten, none of them much larger than the limit; and a
    write after a close goes on with the newest file unless it is full. -/
theorem history_log (files : Dir Name (List UInt8)) (clean : ∀ name ∈ files.names, is_data name = false)
    (ops : List Op) (meets : Meets step Fresh (boot files) ops) :
    let s := ops.foldl step (boot files)
    let kept := (records ops).foldl file_record []
    Holds s.data_files kept ∧
      (∃ dropped, records ops = dropped ++ kept.reverse.flatten ∧
        s.data_files.flatMap (·.2) = images kept.reverse.flatten ∧
        (dropped ≠ [] → s.data_files.length = HIST_MAX_FILES)) ∧
      s.data_files.length ≤ HIST_MAX_FILES ∧
      (∀ e ∈ s.data_files, e.2.length < HIST_FILE_MAX + 16) ∧
      ∀ older name data, s.data_files = older ++ [(name, data)] → data.length < HIST_FILE_MAX → ∀ now room d,
        (hist_file_write now room d (hist_file_close s)).2.files.names = s.files.names := by
  intro s kept
  have recording : Recording s kept := run_recording (boot_recording clean) ops meets
  obtain ⟨dropped, split, ten, -⟩ := @filed_suffix [] (Nat.zero_le _) (records ops)
  refine ⟨recording.holds, ⟨dropped, split, holds_bytes recording.holds, fun some_gone => ?_⟩, recording.few,
    recording.small, fun older name data last room now room' d => ?_⟩
  · rw [holds_count recording.holds]
    exact ten some_gone
  · have closed := recording_closed recording
    exact names_kept closed.bound (no_name_needed closed last room)

/-- A DI record, a close, an AI record and a reboot, with a file of another name there: one data
    file with the two images. -/
theorem history_log_resumed :
    let ds : List HisData :=
      [⟨DI_TYPE, 0x11223344, 0x55AA, 0xCC33, 0, 0, 0⟩, ⟨AI_TYPE, 0x778899AA, 0xBEEF, 0x0102, 0x0304, 0x0506, 0x0708⟩]
    (([.hist_file_write 1767294245 16 ds[0], .hist_file_close, .hist_file_write 1767294255 16 ds[1], .reboot].foldl step
        (boot ⟨[(ascii "www", [1])], by simp⟩)).data_files).map (·.2) = [images ds] :=
  (history_log ⟨[(ascii "www", [1])], by simp⟩ (by decide) _ (by decide)).1.trans (by decide)

end IoEdgeHub.HistoryLog
