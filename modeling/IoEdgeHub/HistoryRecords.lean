import IoEdgeHub.HistoryLog

/-!
The records in the data files when writes may fail. A reader takes one record after the
other by their types and stops at what is not a whole record. It finds all records whose
write succeeded as long as no file that ends in a torn record is written to again.
-/
namespace IoEdgeHub.HistoryRecords
open IoEdgeHub.Bytes IoEdgeHub.CStrings IoEdgeHub.Directory IoEdgeHub.HistoryFile IoEdgeHub.HistoryLog IoEdgeHub.Machine

/-- The length of the record that begins a buffer, by its type. -/
def record_size (data : List UInt8) : Nat := if get_le16 data = DI_TYPE.toNat then 10 else 16

def read_from : Nat → List UInt8 → List (List UInt8)
  | 0, _ => []
  | fuel + 1, data =>
    if data.length < 2 ∨ data.length < record_size data then []
    else data.take (record_size data) :: read_from fuel (data.drop (record_size data))

/-- The whole records at the start of a file. -/
def read_records (data : List UInt8) : List (List UInt8) := read_from data.length data

/-- Nothing follows the whole records. -/
def Intact (data : List UInt8) : Prop := (read_records data).flatten = data

instance (data : List UInt8) : Decidable (Intact data) := instDecidableEqList _ _

/-- Less than a record. -/
def Torn (torn : List UInt8) : Prop := ∃ d : HisData, torn <+: d.image ∧ torn.length < d.len

/-- Whole records, and at most one torn one at the end. -/
structure Stream (data : List UInt8) (rs : List (List UInt8)) (torn : List UInt8) : Prop where
  bytes : data = rs.flatten ++ torn
  whole : ∀ r ∈ rs, ∃ d : HisData, r = d.image
  last : Torn torn

section
variable {data torn : List UInt8} {rs : List (List UInt8)}

theorem torn_nil : Torn [] := ⟨⟨0, 0, 0, 0, 0, 0, 0⟩, List.nil_prefix, by decide⟩

/-- The type of a record is read from its first two bytes. -/
theorem record_size_start {d : HisData} (start : data.take 2 = d.image.take 2) :
    record_size data = d.len := by
  have type : d.image.take 2 = put_le16 d.type.toNat := by
    have two : 2 ≤ d.len := by unfold HisData.len; split <;> omega
    rw [HisData.image, List.take_take, Nat.min_eq_left two]
    rfl
  have first : data = put_le16 d.type.toNat ++ data.drop 2 := by
    rw [← type, ← start, List.take_append_drop]
  have value : get_le16 data = d.type.toNat := by
    rw [first, get_put_le16]
    exact Nat.mod_eq_of_lt d.type.toNat_lt
  unfold record_size HisData.len
  rw [value]
  by_cases di : d.type = DI_TYPE
  · rw [if_pos (by rw [di]), if_pos di]
  · rw [if_neg fun same => di (UInt16.toNat_inj.mp same), if_neg di]

theorem read_torn (fuel : Nat) (last : Torn torn) : read_from fuel torn = [] := by
  cases fuel with
  | zero => rfl
  | succ fuel =>
    obtain ⟨d, start, short⟩ := last
    refine if_pos ?_
    by_cases long : torn.length < 2
    · exact .inl long
    · refine .inr ?_
      obtain ⟨rest, eq⟩ := start
      have same : torn.take 2 = d.image.take 2 := by
        rw [← eq, List.take_append_of_le_length (by omega)]
      rw [record_size_start same]
      exact short

theorem read_whole (d : HisData) (fuel : Nat) (rest : List UInt8) :
    read_from (fuel + 1) (d.image ++ rest) = d.image :: read_from fuel rest := by
  have two : 2 ≤ d.len := by unfold HisData.len; split <;> omega
  have size : record_size (d.image ++ rest) = d.len := by
    apply record_size_start
    rw [List.take_append_of_le_length (by rw [image_length]; exact two)]
  rw [read_from, if_neg, size, List.take_left' (image_length d), List.drop_left' (image_length d)]
  rw [size, List.length_append, image_length]
  omega

/-- The reader finds the whole records of a stream. -/
theorem read_stream (stream : Stream data rs torn) : read_records data = rs := by
  have main (fuel : Nat) (rs : List (List UInt8)) (whole : ∀ r ∈ rs, ∃ d : HisData, r = d.image)
      (enough : rs.length ≤ fuel) : read_from fuel (rs.flatten ++ torn) = rs := by
    induction rs generalizing fuel with
    | nil => exact read_torn fuel stream.last
    | cons r rs ih =>
      obtain ⟨d, rfl⟩ := whole r (by simp)
      obtain ⟨fuel, rfl⟩ : ∃ k, fuel = k + 1 := ⟨fuel - 1, by simp at enough; omega⟩
      rw [List.flatten_cons, List.append_assoc, read_whole, ih fuel (fun r' member => whole r' (by simp [member]))]
      simpa using enough
  have count : rs.length ≤ rs.flatten.length := by
    have whole := stream.whole
    clear main stream
    induction rs with
    | nil => simp
    | cons r rs ih =>
      obtain ⟨d, rfl⟩ := whole r (by simp)
      have pos := len_pos d
      have rest := ih fun r' member => whole r' (by simp [member])
      simp only [List.length_cons, List.flatten_cons, List.length_append, image_length]
      omega
  rw [read_records, stream.bytes]
  refine main _ rs stream.whole ?_
  rw [List.length_append]
  omega

/-- A stream that the reader takes whole has no torn end. -/
theorem stream_intact (stream : Stream data rs torn) (intact : Intact data) : data = rs.flatten := by
  rw [Intact, read_stream stream] at intact
  exact intact.symm

end

/-- One write: the time, the room that there is, and the record. -/
structure Write where
  now : Int
  room : Nat
  d : HisData

/-- The recorder, and for each file the records whose write succeeded since it was created. -/
structure Noted where
  his : His
  notes : Name → List (List UInt8)

/-- The records of the files that are there. -/
def known (t : Noted) (name : Name) : List (List UInt8) := if t.his.files.has name then t.notes name else []

def write (t : Noted) (w : Write) : Noted :=
  let r := hist_file_write w.now w.room w.d t.his
  { his := r.2
    notes := fun name => known t name ++ if r.1 = 0 ∧ name = r.2.his_cur_name then [w.d.image] else [] }

/-- A file that gets the name of the time is not one that ends in a torn record. -/
def NotTorn (t : Noted) (w : Write) : Prop :=
  needs_name t.his → ∀ data, t.his.files.get? (make_hist_name w.now) = some data → Intact data

/-- Every data file is a stream of the records noted for it. -/
def Streams (files : Dir Name (List UInt8)) (notes : Name → List (List UInt8)) : Prop :=
  ∀ name data, (name, data) ∈ files.entries → is_data name = true → ∃ torn, Stream data (notes name) torn

/-- What holds between two writes: before the first one no file is torn, and later the open file
    is not, unless it counts as full. -/
structure Sound (t : Noted) : Prop where
  bound : t.his.his_lfs = true
  streams : Streams t.his.files t.notes
  current : (t.his.his_fp = none ∧ t.his.his_cur_name = [] ∧ ∀ e ∈ t.his.data_files, Intact e.2) ∨
    ∃ name, t.his.his_fp = some name ∧ t.his.his_cur_name = name ∧ is_data name = true ∧
      (t.his.his_cur_size < HIST_FILE_MAX → ∀ data, (name, data) ∈ t.his.files.entries → data = (t.notes name).flatten)

/-- The file that was found has no torn end. -/
structure Chosen (s : His) (notes : Name → List (List UInt8)) (name : Name) : Prop where
  bound : s.his_lfs = true
  fp : s.his_fp = some name
  cur : s.his_cur_name = name
  data : is_data name = true
  streams : Streams s.files notes
  clean : ∀ data, (name, data) ∈ s.files.entries → data = (notes name).flatten

section
variable {t : Noted} {w : Write} {s' : His}

theorem latest_is_data (files : Dir Name (List UInt8)) : latest_name files = [] ∨ is_data (latest_name files) = true := by
  have main (names : List Name) (latest : Name) (start : latest = [] ∨ is_data latest = true) :
      names.foldl (fun latest name => if is_data name ∧ latest < name then clip 24 name else latest) latest = [] ∨
        is_data (names.foldl (fun latest name => if is_data name ∧ latest < name then clip 24 name else latest) latest)
          = true := by
    induction names generalizing latest with
    | nil => exact start
    | cons name rest ih =>
      refine ih _ ?_
      beta_reduce
      split
      · rename_i both
        refine .inr ?_
        simpa [is_data, clip, List.take_take] using both.1
      · exact start
  exact main files.names [] (.inl rfl)

theorem known_streams (sound : Sound t) : Streams t.his.files (known t) := by
  intro name data member is
  rw [known, if_pos (has_iff.mpr (mem_names.mpr ⟨data, member⟩))]
  exact sound.streams name data member is

/-- Files that were removed say nothing about those that are left. -/
theorem streams_subset {files files' : Dir Name (List UInt8)} {notes : Name → List (List UInt8)}
    (sub : ∀ e ∈ files'.entries, e ∈ files.entries) (streams : Streams files notes) : Streams files' notes :=
  fun name data member is => streams name data (sub _ member) is

theorem known_clean (sound : Sound t) {name : Name} {data : List UInt8} (member : (name, data) ∈ t.his.files.entries)
    (is : is_data name = true) (intact : Intact data) : data = (known t name).flatten := by
  obtain ⟨torn, stream⟩ := known_streams sound name data member is
  exact stream_intact stream intact

/-- A file that is there and has no torn end. -/
theorem chosen_opened (sound : Sound t) {name : Name} {data : List UInt8} (file : t.his.files.get? name = some data)
    (is : is_data name = true) (intact : Intact data) : Chosen (t.his.opened name data.length) (known t) name where
  bound := sound.bound
  fp := rfl
  cur := rfl
  data := is
  streams := known_streams sound
  clean := fun _ member => known_clean sound member is (entries_unique (get?_eq_some.mp file) member ▸ intact)

theorem chosen_cleanup {s : His} {notes : Name → List (List UInt8)} {name : Name} (chosen : Chosen s notes name) :
    Chosen (cleanup_old_files s) notes name :=
  { chosen with
    streams := streams_subset (fun _ member => mem_cleanup member) chosen.streams
    clean := fun data member => chosen.clean data (mem_cleanup member) }

theorem chosen_created (sound : Sound t) {name : Name} (is : is_data name = true) (absent : name ∉ t.his.files.names) :
    Chosen ({ t.his with files := t.his.files.create name [] }.opened name 0) (known t) name := by
  have empty : known t name = [] := if_neg fun there => absent (has_iff.mp there)
  constructor
  case bound => exact sound.bound
  case fp => rfl
  case cur => rfl
  case data => exact is
  case streams =>
    intro other data member is'
    rcases mem_create.mp member with old | ⟨-, new⟩
    · exact known_streams sound other data old is'
    · obtain ⟨rfl, rfl⟩ := Prod.mk.inj new
      exact ⟨[], by rw [empty]; exact ⟨rfl, by simp, torn_nil⟩⟩
  case clean =>
    intro data member
    rcases mem_create.mp member with old | ⟨-, new⟩
    · exact absurd (mem_names.mpr ⟨data, old⟩) absent
    · rw [empty, (Prod.mk.inj new).2]
      rfl

theorem ensured_chosen (sound : Sound t) (not_torn : NotTorn t w) (ensured : Ensured w.now t.his s') :
    ∃ name, Chosen s' (known t) name := by
  have is := hist_name_is_data w.now
  cases ensured with
  | found reused file =>
    cases file with
    | @kept name fp room =>
      rcases sound.current with ⟨closed, -⟩ | ⟨name', fp', cur, is', clean⟩
      · rw [closed] at fp
        cases fp
      · refine ⟨name', sound.bound, fp', cur, is', known_streams sound, fun data member => ?_⟩
        rw [known, if_pos (has_iff.mpr (mem_names.mpr ⟨data, member⟩))]
        exact clean room data member
    | @reopened name data closed usable choice named file room =>
      rcases sound.current with ⟨-, forgotten, intact⟩ | ⟨name', fp', cur, is', -⟩
      · -- the first write: the latest file is gone on with
        rw [forgotten] at choice
        obtain rfl := choice.resolve_left named
        have is' := (latest_is_data t.his.files).resolve_left named
        exact ⟨_, chosen_opened sound file is' (intact _ (mem_part.mpr ⟨get?_eq_some.mp file, is'⟩))⟩
      · -- a later one: a file that is no longer open counts as full
        rcases closed with closed | full
        · rw [closed] at fp'
          cases fp'
        · rcases usable with forgotten | free
          · exact absurd (cur.symm.trans forgotten) (data_ne_nil is')
          · omega
  | @existing data needed file =>
    have chosen := chosen_opened sound file is (not_torn needed data file)
    refine ⟨make_hist_name w.now, ?_⟩
    split
    · exact chosen_cleanup chosen
    · exact chosen
  | created needed absent => exact ⟨_, chosen_cleanup (chosen_created sound is (get?_eq_none.mp absent))⟩

/-- Records and at most a torn one are appended to the file chosen, which then counts as full
    if there is a torn one. -/
theorem appended_sound {name : Name} {bytes torn : List UInt8} {more : List (List UInt8)} {size : Nat} {t' : Noted}
    (chosen : Chosen s' (known t) name)
    (his : t'.his = { s' with files := s'.files.update name (· ++ bytes), his_cur_size := size })
    (same : ∀ other, other ≠ name → t'.notes other = known t other) (noted : t'.notes name = known t name ++ more)
    (whole : ∀ r ∈ more, ∃ d : HisData, r = d.image) (split : bytes = more.flatten ++ torn) (last : Torn torn)
    (full : torn = [] ∨ HIST_FILE_MAX ≤ size) : Sound t' := by
  have appended {data : List UInt8} (member : (name, data) ∈ (s'.files.update name (· ++ bytes)).entries) :
      ∃ old, (name, old) ∈ s'.files.entries ∧ data = (t'.notes name).flatten ++ torn := by
    rcases mem_update.mp member with ⟨-, other⟩ | ⟨old, before, eq⟩
    · exact absurd rfl other
    · refine ⟨old, before, ?_⟩
      rw [(Prod.mk.inj eq).2, chosen.clean old before, noted, split, List.flatten_append, List.append_assoc]
  constructor
  case bound => rw [his]; exact chosen.bound
  case streams =>
    rw [his]
    intro other data member is
    by_cases there : other = name
    · subst there
      obtain ⟨old, before, eq⟩ := appended member
      obtain ⟨_, stream⟩ := chosen.streams other old before is
      refine ⟨torn, eq, fun r inside => ?_, last⟩
      rw [noted] at inside
      rcases List.mem_append.mp inside with earlier | new
      · exact stream.whole r earlier
      · exact whole r new
    · rcases mem_update.mp member with ⟨before, -⟩ | ⟨old, -, eq⟩
      · rw [same other there]
        exact chosen.streams other data before is
      · exact absurd (Prod.mk.inj eq).1 there
  case current =>
    rw [his]
    refine .inr ⟨name, chosen.fp, chosen.cur, chosen.data, fun room data member => ?_⟩
    obtain ⟨old, -, eq⟩ := appended member
    rcases full with rfl | full
    · rw [eq, List.append_nil]
    · exact absurd room (Nat.not_lt.mpr full)

/-- A write adds a record to the file, or a torn one that nothing follows. -/
theorem write_sound (sound : Sound t) (not_torn : NotTorn t w) : Sound (write t w) := by
  obtain ⟨s', ensured, eq⟩ := hist_file_write_spec w.now w.room w.d sound.bound
  obtain ⟨name, chosen⟩ := ensured_chosen sound not_torn ensured
  rw [lfs_file_write_open chosen.fp] at eq
  by_cases whole : w.d.len ≤ w.room
  · have image : w.d.image.take w.room = w.d.image := List.take_of_length_le (by rw [image_length]; exact whole)
    rw [if_pos whole, if_pos whole, image] at eq
    have his : (write t w).his = { s' with
        files := s'.files.update name (· ++ w.d.image), his_cur_size := s'.his_cur_size + w.d.len } := by
      simp only [write, eq]
    have noted : (write t w).notes name = known t name ++ [w.d.image] := by
      simp [write, eq, chosen.cur]
    refine appended_sound chosen his (fun other apart => ?_) noted (fun r member => ?_) (by simp) torn_nil (.inl rfl)
    · simp [write, eq, chosen.cur, apart]
    · exact ⟨w.d, List.mem_singleton.mp member⟩
  · rw [if_neg whole, if_neg whole] at eq
    have his : (write t w).his = { s' with
        files := s'.files.update name (· ++ w.d.image.take w.room), his_cur_size := HIST_FILE_MAX } := by
      simp only [write, eq]
    have same (other : Name) : (write t w).notes other = known t other := by simp [write, eq]
    have torn : Torn (w.d.image.take w.room) := by
      refine ⟨w.d, List.take_prefix _ _, ?_⟩
      rw [List.length_take, image_length]
      omega
    have noted : (write t w).notes name = known t name ++ [] := by rw [same, List.append_nil]
    exact appended_sound chosen his (fun other _ => same other) noted (by simp) (by simp) torn (.inr (Nat.le_refl _))

end

/-- The recorder at power-up, with the records that are in its files. -/
def noted_boot (files : Dir Name (List UInt8)) : Noted :=
  ⟨boot files, fun name => read_records ((files.get? name).getD [])⟩

theorem boot_sound {files : Dir Name (List UInt8)} (whole : ∀ e ∈ (boot files).data_files, ∃ ds, e.2 = images ds) :
    Sound (noted_boot files) := by
  have stream {data : List UInt8} (ds : List HisData) (eq : data = images ds) :
      Stream data (ds.map HisData.image) [] := by
    refine ⟨by rw [eq, images, List.flatMap_def, List.append_nil], fun r member => ?_, torn_nil⟩
    obtain ⟨d, -, rfl⟩ := List.mem_map.mp member
    exact ⟨d, rfl⟩
  constructor
  case bound => rfl
  case streams =>
    intro name data member is
    obtain ⟨ds, eq⟩ := whole (name, data) (mem_part.mpr ⟨member, is⟩)
    have file : files.get? name = some data := get?_eq_some.mpr member
    refine ⟨[], ?_⟩
    simp only [noted_boot, file, Option.getD_some, read_stream (stream ds eq)]
    exact stream ds eq
  case current =>
    refine .inl ⟨rfl, rfl, fun e member => ?_⟩
    obtain ⟨ds, eq⟩ := whole e member
    rw [Intact, read_stream (stream ds eq), eq, images, List.flatMap_def]

instance (t : Noted) (w : Write) : Decidable (NotTorn t w) :=
  decidable_of_iff (needs_name t.his → ∀ data ∈ t.his.files.get? (make_hist_name w.now), Intact data) Iff.rfl

end IoEdgeHub.HistoryRecords
