import Mathlib.Data.List.Basic

/-!
Directories: files by their names, listed in the order of the names. A file is
created, changed and removed by its name; a part of the directory is seen through
a condition on the names.
-/
namespace IoEdgeHub.Directory
set_option linter.unusedSectionVars false

/-- Files by their names, in the order of the names. -/
structure Dir (κ δ : Type) [LT κ] where
  entries : List (κ × δ)
  sorted : entries.Pairwise fun a b => a.1 < b.1

variable {κ δ : Type} [LT κ] [LE κ] [Std.IsLinearOrder κ] [Std.LawfulOrderLT κ] [DecidableLT κ] [DecidableEq κ]

def Dir.names (d : Dir κ δ) : List κ := d.entries.map (·.1)

/-- The files whose names satisfy `p`. -/
def Dir.part (p : κ → Bool) (d : Dir κ δ) : List (κ × δ) := d.entries.filter fun e => p e.1

def Dir.get? (name : κ) (d : Dir κ δ) : Option δ := d.entries.lookup name

/-- Whether there is a file of a name. -/
def Dir.has (name : κ) (d : Dir κ δ) : Bool := (d.get? name).isSome

/-- A file put in its place, unless there is one of that name. -/
def insert (name : κ) (v : δ) : List (κ × δ) → List (κ × δ)
  | [] => [(name, v)]
  | e :: rest =>
    if name < e.1 then (name, v) :: e :: rest else if name = e.1 then e :: rest else e :: insert name v rest

/-- One file changed. -/
def change (name : κ) (f : δ → δ) (e : κ × δ) : κ × δ := if e.1 = name then (e.1, f e.2) else e

@[simp] theorem change_fst (name : κ) (f : δ → δ) (e : κ × δ) : (change name f e).1 = e.1 := by
  unfold change
  split <;> rfl

theorem mem_insert_name {name : κ} {v : δ} {l : List (κ × δ)} {e : κ × δ} (member : e ∈ insert name v l) :
    e ∈ l ∨ e.1 = name := by
  induction l with
  | nil => exact .inr (by simp_all [insert])
  | cons first rest ih =>
    simp only [insert] at member
    split at member
    · rcases List.mem_cons.mp member with rfl | old
      · exact .inr rfl
      · exact .inl old
    · split at member
      · exact .inl member
      · rcases List.mem_cons.mp member with rfl | later
        · exact .inl (by simp)
        · exact (ih later).imp_left (List.mem_cons_of_mem _)

theorem insert_sorted {name : κ} {v : δ} {l : List (κ × δ)} (sorted : l.Pairwise fun a b => a.1 < b.1) :
    (insert name v l).Pairwise fun a b => a.1 < b.1 := by
  induction l with
  | nil => simp [insert]
  | cons first rest ih =>
    obtain ⟨least, sorted'⟩ := List.pairwise_cons.mp sorted
    simp only [insert]
    split
    · rename_i before
      refine List.pairwise_cons.mpr ⟨fun e member => ?_, sorted⟩
      rcases List.mem_cons.mp member with rfl | later
      · exact before
      · exact Std.lt_trans before (least e later)
    · split
      · exact sorted
      · rename_i before other
        refine List.pairwise_cons.mpr ⟨fun e member => ?_, ih sorted'⟩
        rcases mem_insert_name member with later | rfl
        · exact least e later
        · exact Std.lt_of_le_of_ne (Std.not_lt.mp before) (Ne.symm other)

def Dir.create (name : κ) (v : δ) (d : Dir κ δ) : Dir κ δ :=
  ⟨insert name v d.entries, insert_sorted d.sorted⟩

def Dir.update (name : κ) (f : δ → δ) (d : Dir κ δ) : Dir κ δ :=
  ⟨d.entries.map (change name f), List.pairwise_map.mpr (by simpa using d.sorted)⟩

def Dir.remove (name : κ) (d : Dir κ δ) : Dir κ δ :=
  ⟨d.entries.filter (·.1 ≠ name), d.sorted.filter _⟩

section
variable {p : κ → Bool} {d : Dir κ δ} {name : κ} {v : δ} {f : δ → δ} {e : κ × δ}

theorem mem_part : e ∈ d.part p ↔ e ∈ d.entries ∧ p e.1 = true := List.mem_filter

theorem part_sorted : (d.part p).Pairwise fun a b => a.1 < b.1 := d.sorted.filter _

theorem get?_eq_some : d.get? name = some v ↔ (name, v) ∈ d.entries := by
  obtain ⟨l, sorted⟩ := d
  simp only [Dir.get?]
  induction l with
  | nil => simp
  | cons first rest ih =>
    obtain ⟨least, sorted'⟩ := List.pairwise_cons.mp sorted
    rw [List.lookup_cons, List.mem_cons]
    by_cases same : name = first.1
    · subst same
      have absent : (first.1, v) ∉ rest := fun member => Std.lt_irrefl (least (first.1, v) member)
      simp only [beq_self_eq_true, absent, or_false]
      exact ⟨fun found => by rw [← Option.some.inj found], fun eq => by rw [← eq]⟩
    · have head : (name, v) ≠ first := fun eq => same (by rw [← eq])
      simp only [beq_eq_false_iff_ne.mpr same, head, false_or]
      exact ih sorted'

theorem get?_eq_none : d.get? name = none ↔ name ∉ d.names := by
  simp only [Dir.get?, Dir.names, List.lookup_eq_none_iff, List.mem_map, not_exists, not_and, bne_iff_ne]
  exact forall₂_congr fun e _ => ne_comm

theorem has_iff : d.has name = true ↔ name ∈ d.names := by
  rw [Dir.has, Option.isSome_iff_ne_none, ne_eq, get?_eq_none, not_not]

/-- A name stands for one file. -/
theorem entries_unique {v' : δ} (first : (name, v) ∈ d.entries) (second : (name, v') ∈ d.entries) : v = v' :=
  Option.some.inj ((get?_eq_some.mpr first).symm.trans (get?_eq_some.mpr second))

theorem mem_names : name ∈ d.names ↔ ∃ v, (name, v) ∈ d.entries := by simp [Dir.names]

theorem mem_create : e ∈ (d.create name v).entries ↔ e ∈ d.entries ∨ (name ∉ d.names ∧ e = (name, v)) := by
  obtain ⟨l, sorted⟩ := d
  simp only [Dir.create, Dir.names]
  induction l with
  | nil => simp [insert]
  | cons first rest ih =>
    obtain ⟨least, sorted'⟩ := List.pairwise_cons.mp sorted
    simp only [insert]
    split
    · rename_i before
      have absent : name ∉ (first :: rest).map (·.1) := by
        intro member
        rcases List.mem_map.mp member with ⟨other, inside, same⟩
        rcases List.mem_cons.mp inside with rfl | later
        · exact Std.lt_irrefl (same ▸ before)
        · exact Std.lt_irrefl (same ▸ Std.lt_trans before (least other later))
      simp only [List.mem_cons, absent, not_false_eq_true, true_and]
      exact or_comm
    · split
      · rename_i same
        simp [same]
      · rename_i other
        simp only [List.mem_cons, List.map_cons, ih sorted', other, false_or, or_assoc]

theorem mem_update : e ∈ (d.update name f).entries ↔
    (e ∈ d.entries ∧ e.1 ≠ name) ∨ ∃ v, (name, v) ∈ d.entries ∧ e = (name, f v) := by
  simp only [Dir.update, List.mem_map, change]
  constructor
  · rintro ⟨⟨old, v⟩, member, rfl⟩
    by_cases same : old = name
    · subst same
      exact .inr ⟨v, member, by simp⟩
    · exact .inl (by simp [same, member])
  · rintro (⟨member, other⟩ | ⟨v, member, rfl⟩)
    · exact ⟨e, member, by simp [other]⟩
    · exact ⟨_, member, by simp⟩

theorem mem_remove : e ∈ (d.remove name).entries ↔ e ∈ d.entries ∧ e.1 ≠ name := by
  simp [Dir.remove]

/-- A new file whose name is greater than all others of a part is its last. -/
theorem part_create_greatest (chosen : p name = true) (greatest : ∀ e ∈ d.part p, e.1 < name) :
    (d.create name v).part p = d.part p ++ [(name, v)] := by
  obtain ⟨l, sorted⟩ := d
  simp only [Dir.part, Dir.create] at greatest ⊢
  induction l with
  | nil => simp [insert, chosen]
  | cons first rest ih =>
    obtain ⟨least, sorted'⟩ := List.pairwise_cons.mp sorted
    have later (e : κ × δ) (member : e ∈ rest.filter fun e => p e.1) : e.1 < name := by
      apply greatest
      exact List.mem_filter.mpr ⟨List.mem_cons_of_mem _ (List.mem_filter.mp member).1, (List.mem_filter.mp member).2⟩
    simp only [insert]
    split
    · -- the part is empty: all that follows is greater than `name`
      rename_i before
      have none_left : (first :: rest).filter (fun e => p e.1) = [] := by
        refine List.filter_eq_nil_iff.mpr fun e member inside => ?_
        have below := greatest e (List.mem_filter.mpr ⟨member, inside⟩)
        rcases List.mem_cons.mp member with rfl | later
        · exact Std.lt_irrefl (Std.lt_trans below before)
        · exact Std.lt_irrefl (Std.lt_trans below (Std.lt_trans before (least e later)))
      rw [List.filter_cons, if_pos chosen, none_left, List.nil_append]
    · split
      · rename_i same
        subst same
        exact absurd (greatest first (List.mem_filter.mpr ⟨by simp, chosen⟩)) Std.lt_irrefl
      · rw [List.filter_cons, List.filter_cons, ih sorted' later]
        split <;> simp

theorem part_update : (d.update name f).part p = (d.part p).map (change name f) := by
  simp [Dir.part, Dir.update, List.filter_map, Function.comp_def]

/-- A change of the last file of a part. -/
theorem part_update_last {older : List (κ × δ)} (last : d.part p = older ++ [(name, v)]) :
    (d.update name f).part p = older ++ [(name, f v)] := by
  have sorted : (older ++ [(name, v)]).Pairwise fun a b => a.1 < b.1 := last ▸ part_sorted
  have others : older.map (change name f) = older := by
    refine (List.map_congr_left fun e member => ?_).trans (List.map_id older)
    have below := (List.pairwise_append.mp sorted).2.2 e member (name, v) (by simp)
    exact if_neg fun same => Std.lt_irrefl (same ▸ below)
  rw [part_update, last, List.map_append, others]
  simp [change]

theorem part_remove : (d.remove name).part p = (d.part p).filter (·.1 ≠ name) := by
  simp only [Dir.part, Dir.remove, List.filter_filter]
  exact List.filter_congr fun e _ => Bool.and_comm _ _

end

end IoEdgeHub.Directory
