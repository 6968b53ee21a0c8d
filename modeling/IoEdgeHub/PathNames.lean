import Mathlib.Data.List.Basic
import Mathlib.Data.List.Induction

/-!
Rooted paths as the lists of their names. A path is written with a separator in front of
each name; it is read by cutting it at the separators, however many of them stand
together. A relative path is resolved against a directory, name by name, where one name
stands for the directory itself and one for the directory above it.
-/
namespace IoEdgeHub.PathNames

variable {α : Type} (sep : α)

/-- The path of these names; of none it is the root. -/
def path_text (names : List (List α)) : List α := if names.isEmpty then [sep] else names.flatMap (sep :: ·)

section
variable {sep} {names : List (List α)}

theorem path_text_nil : path_text sep [] = [sep] := rfl

theorem path_text_cons (name : List α) (more : List (List α)) :
    path_text sep (name :: more) = (name :: more).flatMap (sep :: ·) := rfl

/-- The separators in front of the names, or behind them. -/
theorem separators (names : List (List α)) : sep :: names.flatMap (· ++ [sep]) = names.flatMap (sep :: ·) ++ [sep] := by
  induction names with
  | nil => rfl
  | cons name more ih =>
    rw [List.flatMap_cons, List.flatMap_cons, List.append_assoc, List.cons_append, List.append_assoc, ← ih]
    rfl

theorem path_text_head : (path_text sep names).head? = some sep := by
  cases names <;> simp [path_text]

theorem path_text_last (proper : ∀ name ∈ names, name ≠ [] ∧ sep ∉ name) (open_end : (path_text sep names).getLast? = some sep) :
    path_text sep names = [sep] := by
  rcases List.eq_nil_or_concat names with rfl | ⟨first, name, rfl⟩
  · rfl
  · obtain ⟨filled, free⟩ := proper name (by simp)
    rw [path_text, if_neg (by simp), List.concat_eq_append, List.flatMap_append, List.flatMap_singleton,
      List.getLast?_append_of_ne_nil _ (List.cons_ne_nil _ _), List.getLast?_cons_of_ne_nil filled] at open_end
    exact absurd (List.mem_of_getLast? open_end) free

theorem mem_path_text {c : α} (member : c ∈ path_text sep names) : c = sep ∨ ∃ name ∈ names, c ∈ name := by
  unfold path_text at member
  split at member
  · exact .inl (List.mem_singleton.mp member)
  · obtain ⟨name, known, inside⟩ := List.mem_flatMap.mp member
    rcases List.mem_cons.mp inside with rfl | inside
    · exact .inl rfl
    · exact .inr ⟨name, known, inside⟩

end

variable [DecidableEq α]

/-- The names in a text. -/
def parts (text : List α) : List (List α) := (text.splitOn sep).filter (· ≠ [])

section
variable {sep} {text : List α} {names : List (List α)}

theorem mem_splitOn {part : List α} (member : part ∈ text.splitOn sep) : sep ∉ part ∧ ∀ c ∈ part, c ∈ text := by
  induction text generalizing part with
  | nil =>
    rw [List.splitOn_nil, List.mem_singleton] at member
    simp [member]
  | cons x rest ih =>
    rw [List.splitOn_cons_eq_if_modifyHead] at member
    split at member
    · rcases List.mem_cons.mp member with rfl | later
      · simp
      · obtain ⟨free, inside⟩ := ih later
        exact ⟨free, fun c mem => List.mem_cons_of_mem _ (inside c mem)⟩
    · rename_i other
      obtain ⟨first, more, split⟩ := List.exists_cons_of_ne_nil (List.splitOn_ne_nil sep rest)
      rw [split, List.modifyHead_cons] at member
      rcases List.mem_cons.mp member with rfl | later
      · obtain ⟨free, inside⟩ := ih (split ▸ List.mem_cons_self)
        refine ⟨?_, fun c mem => ?_⟩
        · rw [List.mem_cons, not_or]
          exact ⟨fun same => other (by simp [same]), free⟩
        · rcases List.mem_cons.mp mem with rfl | tail
          · exact List.mem_cons_self
          · exact List.mem_cons_of_mem _ (inside c tail)
      · obtain ⟨free, inside⟩ := ih (split ▸ List.mem_cons_of_mem _ later)
        exact ⟨free, fun c mem => List.mem_cons_of_mem _ (inside c mem)⟩

theorem mem_parts {part : List α} (member : part ∈ parts sep text) : part ≠ [] ∧ sep ∉ part ∧ ∀ c ∈ part, c ∈ text := by
  obtain ⟨split, filled⟩ := List.mem_filter.mp member
  exact ⟨by simpa using filled, mem_splitOn split⟩

theorem parts_append (first second : List α) : parts sep (first ++ sep :: second) = parts sep first ++ parts sep second := by
  rw [parts, List.splitOn_append_cons_self, List.filter_append]
  rfl

theorem parts_nil : parts sep [] = [] := by simp [parts]

theorem parts_sep (text : List α) : parts sep (sep :: text) = parts sep text := by
  have cut := @parts_append _ sep _ [] text
  rwa [parts_nil] at cut

theorem splitOn_names {name : List α} (free : ∀ other ∈ name :: names, sep ∉ other) :
    (name ++ names.flatMap (sep :: ·)).splitOn sep = name :: names := by
  induction names generalizing name with
  | nil => simpa using List.splitOn_eq_singleton (free name (by simp))
  | cons next more ih =>
    rw [List.flatMap_cons, List.cons_append, List.splitOn_append_cons_self,
      List.splitOn_eq_singleton (free name (by simp)), ih fun other member => free other (by simp [member])]
    rfl

/-- What was written is read. -/
theorem parts_path_text (proper : ∀ name ∈ names, name ≠ [] ∧ sep ∉ name) : parts sep (path_text sep names) = names := by
  cases names with
  | nil => rw [path_text_nil, parts_sep, parts_nil]
  | cons name more =>
    rw [path_text_cons, List.flatMap_cons, List.cons_append, parts_sep, parts,
      splitOn_names fun other member => (proper other member).2, List.filter_eq_self]
    exact fun other member => by simpa using (proper other member).1

end

section
variable (here up : List α)

/-- A name that stands for a directory or a file of that name. -/
structure Proper (name : List α) : Prop where
  filled : name ≠ []
  free : sep ∉ name
  not_here : name ≠ here
  not_up : name ≠ up

/-- The directory reached by one name. -/
def go (dir : List (List α)) (name : List α) : List (List α) :=
  if name = here then dir else if name = up then dir.dropLast else dir ++ [name]

/-- The names of what a text names in a directory. -/
def resolve (dir : List (List α)) (text : List α) : List (List α) :=
  (parts sep text).foldl (go here up) (if text.head? = some sep then [] else dir)

variable {sep here up}

theorem go_proper {dir : List (List α)} {name : List α} (proper : ∀ other ∈ dir, Proper sep here up other)
    (filled : name ≠ []) (free : sep ∉ name) : ∀ other ∈ go here up dir name, Proper sep here up other := by
  intro other member
  unfold go at member
  split at member
  · exact proper other member
  · rename_i not_here
    split at member
    · exact proper other ((List.dropLast_sublist dir).mem member)
    · rename_i not_up
      rcases List.mem_append.mp member with old | new
      · exact proper other old
      · rw [List.mem_singleton.mp new]
        exact ⟨filled, free, not_here, not_up⟩

theorem resolve_proper {dir : List (List α)} {text : List α} (proper : ∀ other ∈ dir, Proper sep here up other) :
    ∀ other ∈ resolve sep here up dir text, Proper sep here up other := by
  have start : ∀ other ∈ (if text.head? = some sep then [] else dir), Proper sep here up other := by
    split
    · simp
    · exact proper
  have known : ∀ part ∈ parts sep text, part ≠ [] ∧ sep ∉ part := fun part member =>
    ⟨(mem_parts member).1, (mem_parts member).2.1⟩
  unfold resolve
  generalize (if text.head? = some sep then [] else dir) = dir' at start
  generalize parts sep text = names at known
  induction names generalizing dir' with
  | nil => exact start
  | cons name more ih =>
    obtain ⟨filled, free⟩ := known name (by simp)
    exact ih _ (go_proper start filled free) fun part member => known part (by simp [member])

end

end IoEdgeHub.PathNames
