import Mathlib.Data.List.GetD
import IoEdgeHub.CStrings

/-!
The access to the fields of a JSON text (`web/web_json.h`): a search for the quoted key with a
colon behind it, and then what stands there. A text is the first `len` bytes of the memory
`mem`, behind which there is a zero.

`value_in` is the search on the text alone; the accessors do what it says
(`json_get_i32_eq`, `json_get_str_eq`). The number of `json_get_i32` is read by `strncmp` and
`strtol`, which know nothing of `len`.
-/
namespace IoEdgeHub.Json
open IoEdgeHub.CStrings

def isblank (c : UInt8) : Bool := c = 32 || c = 9

section
variable (mem : List UInt8) (len : Nat)

/-- `while (j < len && (buf[j] == ' ' || buf[j] == '\t'))` -/
def skip_blanks (j : Nat) : Nat :=
  if j < len ∧ isblank (mem.getD j 0) = true then skip_blanks (j + 1) else j
termination_by len - j

variable (key : List UInt8)

/-- The loop of the search from `i` on. -/
def find_from (i : Nat) : Option Nat :=
  if i + key.length + 2 ≤ len then
    if mem.getD i 0 = 34 ∧ (mem.drop (i + 1)).take key.length = key ∧ mem.getD (i + key.length + 1) 0 = 34 then
      let j := skip_blanks mem len (i + key.length + 2)
      if j < len ∧ mem.getD j 0 = 58 then some (skip_blanks mem len (j + 1)) else find_from (i + 1)
    else find_from (i + 1)
  else none
termination_by len - i

/-- Where the value of the key begins. -/
def json_find_value : Option Nat := find_from mem len key 0

/-- What `json_get_i32` reads at a value. -/
def scalar (s : List UInt8) : Option Int :=
  if s.take 4 = ascii "true" then some 1
  else if s.take 5 = ascii "false" then some 0
  else strtol s

def json_get_i32 : Option Int :=
  match json_find_value mem len key with
  | none => none
  | some v => if v ≥ len then none else scalar (mem.drop v)

/-- How far a string goes from `v` on. -/
def str_length (v n : Nat) : Nat :=
  if v + n < len ∧ mem.getD (v + n) 0 ≠ 34 ∧ mem.getD (v + n) 0 ≠ 0 then str_length v (n + 1) else n
termination_by len - (v + n)

/-- Whether there is a string, and what has been written to the `outsz` bytes of `out`. -/
def json_get_str (outsz : Nat) : Bool × List UInt8 :=
  match json_find_value mem len key with
  | none => (false, [])
  | some v =>
    if v ≥ len ∨ mem.getD v 0 ≠ 34 then (false, [])
    else
      let v := v + 1
      let n := str_length mem len v 0
      (¬ (v + n ≥ len ∨ mem.getD (v + n) 0 ≠ 34), ((mem.drop v).take n).take (outsz - 1))

end

/-- The text from the value of the key on. -/
def value_in (key : List UInt8) : List UInt8 → Option (List UInt8)
  | [] => none
  | c :: rest =>
    let after := (rest.drop (key.length + 1)).dropWhile isblank
    if c = 34 ∧ key ++ [34] <+: rest ∧ after.head? = some 58 then some (after.tail.dropWhile isblank)
    else value_in key rest

/-- The string that a value is. -/
def string_at (v : List UInt8) : Bool × List UInt8 :=
  if v.head? = some 34 then
    let body := v.tail.takeWhile fun c => c ≠ 34 ∧ c ≠ 0
    ((v.tail.drop body.length).head? = some 34, body)
  else (false, [])

/-- The string that the value of the key is. -/
def string_in (key text : List UInt8) : Bool × List UInt8 := (value_in key text).elim (false, []) string_at

section
variable {key text rest : List UInt8}

theorem value_in_suffix (found : value_in key text = some rest) : rest <:+ text := by
  induction text with
  | nil => cases found
  | cons c text ih =>
    rw [value_in] at found
    split at found
    · obtain rfl := Option.some.inj found
      refine (List.dropWhile_suffix _).trans ((List.tail_suffix _).trans ?_)
      exact (List.dropWhile_suffix _).trans ((List.drop_suffix _ text).trans (List.suffix_cons c text))
    · exact (ih found).trans (List.suffix_cons c text)

/-- A text that is shorter than the quoted key has no value of it. -/
theorem value_in_short (short : text.length < key.length + 2) : value_in key text = none := by
  induction text with
  | nil => rfl
  | cons c text ih =>
    rw [List.length_cons] at short
    have no_match : ¬ key ++ [34] <+: text := by
      intro is_start
      have length := is_start.length_le
      rw [List.length_append, List.length_singleton] at length
      omega
    rw [value_in, if_neg fun both => no_match both.2.1]
    exact ih (by omega)

end

/-- A text that begins otherwise is no boolean. -/
theorem scalar_other {c : UInt8} {s : List UInt8} (other : c ≠ 116 ∧ c ≠ 102) : scalar (c :: s) = strtol (c :: s) := by
  have no_true : (c :: s).take 4 ≠ ascii "true" := fun same => other.1 (List.cons.inj same).1
  have no_false : (c :: s).take 5 ≠ ascii "false" := fun same => other.2 (List.cons.inj same).1
  rw [scalar, if_neg no_true, if_neg no_false]

section
variable (after : List UInt8)

/-- The byte where a part of the text begins. -/
theorem getD_at {text rest : List UInt8} (is_end : rest <:+ text) (k : Nat) :
    (text ++ after).getD (text.length - rest.length + k) 0 = (rest ++ after).getD k 0 := by
  obtain ⟨pre, rfl⟩ := is_end
  rw [List.length_append, Nat.add_sub_cancel, List.append_assoc,
    List.getD_append_right _ _ _ _ (Nat.le_add_right _ _), Nat.add_sub_cancel_left]

theorem drop_at {text rest : List UInt8} (is_end : rest <:+ text) :
    (text ++ after).drop (text.length - rest.length) = rest ++ after := by
  obtain ⟨pre, rfl⟩ := is_end
  rw [List.length_append, Nat.add_sub_cancel, List.append_assoc, List.drop_left]

theorem skip_blanks_eq {text rest : List UInt8} (is_end : rest <:+ text) :
    skip_blanks (text ++ after) text.length (text.length - rest.length)
      = text.length - (rest.dropWhile isblank).length := by
  induction rest with
  | nil => 
    rw [skip_blanks, if_neg]
    · rfl
    · intro both
      exact Nat.lt_irrefl _ both.1
  | cons c rest ih =>
    have length := is_end.length_le
    rw [List.length_cons] at length
    have inside : text.length - (c :: rest).length < text.length := by
      rw [List.length_cons]
      omega
    have next : text.length - (c :: rest).length + 1 = text.length - rest.length := by
      rw [List.length_cons]
      omega
    have first : (text ++ after).getD (text.length - (c :: rest).length) 0 = c := getD_at after is_end 0
    rw [skip_blanks, first, next]
    by_cases blank : isblank c = true
    · rw [if_pos ⟨inside, blank⟩, List.dropWhile_cons_of_pos blank]
      exact ih ((List.suffix_cons c rest).trans is_end)
    · rw [if_neg fun both => blank both.2, List.dropWhile_cons_of_neg blank]

variable {key : List UInt8}

/-- The quoted key in the memory is the quoted key in the text. -/
theorem key_at {rest : List UInt8} (inside : key.length < rest.length) :
    ((rest ++ after).take key.length = key ∧ (rest ++ after).getD key.length 0 = 34) ↔ key ++ [34] <+: rest := by
  rw [List.take_append_of_le_length (Nat.le_of_lt inside), List.getD_append _ _ _ _ inside,
    List.getD_eq_getElem _ _ inside, List.prefix_iff_eq_take, List.length_append, List.length_singleton,
    ← List.take_append_getElem inside]
  constructor
  · rintro ⟨name, quote⟩
    rw [name, quote]
  · intro same
    obtain ⟨name, quote⟩ := List.append_inj' same rfl
    exact ⟨name.symm, (List.singleton_inj.mp quote).symm⟩

/-- A byte of the memory that stands before the end of the text is the text's. -/
theorem byte_at {text rest : List UInt8} (is_end : rest <:+ text) (b : UInt8) :
    (text.length - rest.length < text.length ∧ (text ++ after).getD (text.length - rest.length) 0 = b)
      ↔ rest.head? = some b := by
  have byte := getD_at after is_end 0
  rw [Nat.add_zero] at byte
  rw [byte]
  cases rest with
  | nil => simp
  | cons c rest =>
    have length := is_end.length_le
    rw [List.length_cons] at length
    simp only [List.length_cons, List.cons_append, List.getD_cons_zero, List.head?_cons, Option.some.injEq,
      and_iff_right_iff_imp]
    omega

theorem find_from_eq {text rest : List UInt8} (is_end : rest <:+ text) :
    find_from (text ++ after) text.length key (text.length - rest.length)
      = (value_in key rest).map fun v => text.length - v.length := by
  induction rest with
  | nil =>
    rw [find_from, if_neg (by rw [List.length_nil]; omega)]
    rfl
  | cons c rest ih =>
    have length := is_end.length_le
    rw [List.length_cons] at length
    have rest_end : rest <:+ text := (List.suffix_cons c rest).trans is_end
    have next : text.length - (c :: rest).length + 1 = text.length - rest.length := by
      rw [List.length_cons]
      omega
    specialize ih rest_end
    by_cases inside : key.length < rest.length
    · have after_end : rest.drop (key.length + 1) <:+ text := (List.drop_suffix _ _).trans rest_end
      have behind_end := (List.dropWhile_suffix isblank).trans after_end
      have position : text.length - (c :: rest).length + key.length + 2
          = text.length - (rest.drop (key.length + 1)).length := by
        rw [List.length_cons, List.length_drop]
        omega
      have quoted : ((text ++ after).getD (text.length - (c :: rest).length) 0 = 34
          ∧ ((text ++ after).drop (text.length - (c :: rest).length + 1)).take key.length = key
          ∧ (text ++ after).getD (text.length - (c :: rest).length + key.length + 1) 0 = 34)
          ↔ (c = 34 ∧ key ++ [34] <+: rest) := by
        rw [next, drop_at after rest_end, Nat.add_right_comm, next, getD_at after rest_end, key_at after inside]
        exact and_congr_left fun _ => Eq.congr_left (getD_at after is_end 0)
      rw [find_from, if_pos (by rw [List.length_cons]; omega), value_in, if_congr quoted rfl rfl, position,
        skip_blanks_eq after after_end, next, ih]
      simp only [if_congr (byte_at after behind_end 58) rfl rfl]
      by_cases found : c = 34 ∧ key ++ [34] <+: rest
      · rw [if_pos found]
        by_cases colon : ((rest.drop (key.length + 1)).dropWhile isblank).head? = some 58
        · have tail_end := (List.tail_suffix _).trans behind_end
          have one := behind_end.length_le
          have some_ : 0 < ((rest.drop (key.length + 1)).dropWhile isblank).length :=
            List.length_pos_of_mem (List.mem_of_mem_head? colon)
          have past : text.length - ((rest.drop (key.length + 1)).dropWhile isblank).length + 1
              = text.length - ((rest.drop (key.length + 1)).dropWhile isblank).tail.length := by
            rw [List.length_tail]
            omega
          rw [if_pos colon, if_pos ⟨found.1, found.2, colon⟩, past, skip_blanks_eq after tail_end]
          rfl
        · rw [if_neg colon, if_neg fun both => colon both.2.2]
      · rw [if_neg found, if_neg fun both => found ⟨both.1, both.2.1⟩]
    · have short : value_in key (c :: rest) = none := value_in_short (by rw [List.length_cons]; omega)
      rw [find_from, if_neg (by rw [List.length_cons]; omega), short]
      rfl

end

section
variable {text key : List UInt8} (after : List UInt8)

theorem json_find_value_eq :
    json_find_value (text ++ after) text.length key = (value_in key text).map fun v => text.length - v.length := by
  have from_start := @find_from_eq after key text text (List.suffix_refl text)
  rwa [Nat.sub_self] at from_start

/-- The number is read from the value on, wherever the text ends. -/
theorem json_get_i32_eq :
    json_get_i32 (text ++ after) text.length key
      = (value_in key text).bind fun v => if v = [] then none else scalar (v ++ after) := by
  rw [json_get_i32, json_find_value_eq]
  cases found : value_in key text with
  | none => rfl
  | some v =>
    have is_end := value_in_suffix found
    have length := is_end.length_le
    have at_end : text.length - v.length ≥ text.length ↔ v = [] := by
      rw [← List.length_eq_zero_iff]
      omega
    simp only [Option.map_some, Option.bind_some, if_congr at_end rfl rfl, drop_at after is_end]

/-- A string ends at a quote, at a zero or with the text. -/
theorem str_length_eq {rest : List UInt8} (is_end : rest <:+ text) {v n : Nat}
    (position : v + n = text.length - rest.length) :
    str_length (text ++ after) text.length v n = n + (rest.takeWhile fun c => c ≠ 34 ∧ c ≠ 0).length := by
  induction rest generalizing n with
  | nil =>
    rw [str_length, if_neg]
    · rfl
    · intro both
      have inside := both.1
      rw [position, List.length_nil] at inside
      omega
  | cons c rest ih =>
    have length := is_end.length_le
    rw [List.length_cons] at length position
    have first : (text ++ after).getD (v + n) 0 = c := by
      rw [position]
      exact getD_at after is_end 0
    rw [str_length, first]
    by_cases inner : c ≠ 34 ∧ c ≠ 0
    · rw [if_pos ⟨by omega, inner⟩, ih ((List.suffix_cons c rest).trans is_end) (by omega),
        List.takeWhile_cons_of_pos (by simpa using inner), List.length_cons]
      omega
    · rw [if_neg fun both => inner both.2, List.takeWhile_cons_of_neg (by simpa using inner)]
      rfl

/-- A string is what the text says, and the buffer takes as much of it as it has room for. -/
theorem json_get_str_eq (outsz : Nat) :
    json_get_str (text ++ after) text.length key outsz
      = ((string_in key text).1, (string_in key text).2.take (outsz - 1)) := by
  rw [json_get_str, json_find_value_eq, string_in]
  cases found : value_in key text with
  | none => rw [Option.map_none, Option.elim_none, List.take_nil]
  | some v =>
    have is_end := value_in_suffix found
    have opening : (text.length - v.length ≥ text.length ∨ (text ++ after).getD (text.length - v.length) 0 ≠ 34)
        ↔ ¬ v.head? = some 34 := by
      rw [← byte_at after is_end 34, not_and_or, Nat.not_lt]
    rw [Option.map_some, Option.elim_some, string_at]
    simp only [if_congr opening rfl rfl, ite_not]
    split
    case isTrue quote =>
      have tail_end := (List.tail_suffix _).trans is_end
      have one := is_end.length_le
      have some_ : 0 < v.length := List.length_pos_of_mem (List.mem_of_mem_head? quote)
      have past : text.length - v.length + 1 = text.length - v.tail.length := by
        rw [List.length_tail]
        omega
      have body_start := List.takeWhile_prefix (l := v.tail) fun c => c ≠ 34 ∧ c ≠ 0
      have body_length := body_start.length_le
      have after_end := (List.drop_suffix (v.tail.takeWhile fun c => c ≠ 34 ∧ c ≠ 0).length v.tail).trans tail_end
      have closing := byte_at after after_end 34
      have position : text.length - (v.tail.drop (v.tail.takeWhile fun c => c ≠ 34 ∧ c ≠ 0).length).length
          = text.length - v.tail.length + (v.tail.takeWhile fun c => c ≠ 34 ∧ c ≠ 0).length := by
        have length := tail_end.length_le
        rw [List.length_drop]
        omega
      rw [position] at closing
      have body := List.prefix_iff_eq_take.mp (body_start.trans (List.prefix_append v.tail after))
      simp only [past, str_length_eq after tail_end (Nat.add_zero _), Nat.zero_add, drop_at after tail_end, ← body,
        ← closing, not_or, Nat.not_le, ge_iff_le, ne_eq, not_not]
    case isFalse => rw [List.take_nil]

end

end IoEdgeHub.Json
