import Mathlib.Data.List.Nodup
import IoEdgeHub.Json
import IoEdgeHub.Numerals

/-!
Flat JSON objects, and that the access of `web/web_json.h` to their fields is right
(`fields_read`). The search knows no syntax: it takes every quoted key with a colon behind it.
In a flat object such a text is the name of a member, because a closing quote is followed by
nothing that a key could begin with (`value_in_closing`), and the string of a value by no
colon (`value_in_member`).
-/
namespace IoEdgeHub.FlatObjects
open IoEdgeHub.CStrings IoEdgeHub.Json IoEdgeHub.Numerals

def isword (c : UInt8) : Bool := isdigit c || (65 ≤ c && c ≤ 90) || (97 ≤ c && c ≤ 122) || c = 95

/-- White space. -/
abbrev Blanks := { w : List UInt8 // ∀ c ∈ w, isblank c = true }

abbrev Name := { k : List UInt8 // ∀ c ∈ k, isword c = true }

/-- The inside of a string that has no escapes. -/
abbrev Text := { t : List UInt8 // ∀ c ∈ t, c ≠ 34 ∧ c ≠ 92 ∧ c ≠ 0 }

inductive Value
  | int (negative : Bool) (n : Nat)
  | bool (b : Bool)
  | null
  | str (t : Text)

structure Member where
  before : Blanks
  key : Name
  after_key : Blanks
  before_value : Blanks
  value : Value
  after_value : Blanks

structure Object where
  before : Blanks
  opened : Blanks
  members : List Member
  closed : Blanks
  distinct : (members.map (·.key)).Nodup

def Value.text : Value → List UInt8
  | .int negative n => signed negative n
  | .bool b => ascii (if b then "true" else "false")
  | .null => ascii "null"
  | .str t => 34 :: (t.1 ++ [34])

def Member.text (m : Member) : List UInt8 :=
  m.before.1 ++ 34 :: (m.key.1 ++ 34 ::
    (m.after_key.1 ++ 58 :: (m.before_value.1 ++ (m.value.text ++ m.after_value.1))))

def members_text : List Member → List UInt8
  | [] => []
  | [m] => m.text
  | m :: n :: ms => m.text ++ 44 :: members_text (n :: ms)

def Object.text (o : Object) : List UInt8 :=
  o.before.1 ++ 123 :: (o.opened.1 ++ (members_text o.members ++ 125 :: o.closed.1))

section
variable {key rest : List UInt8}

theorem value_in_skip {c : UInt8} (no_quote : c ≠ 34) : value_in key (c :: rest) = value_in key rest := by
  rw [value_in, if_neg fun both => no_quote both.1]

/-- There is nothing to find where there are no quotes. -/
theorem value_in_plain {plain : List UInt8} (no_quote : ∀ c ∈ plain, c ≠ 34) :
    value_in key (plain ++ rest) = value_in key rest := by
  induction plain with
  | nil => rfl
  | cons c plain ih =>
    rw [List.cons_append, value_in_skip (no_quote c List.mem_cons_self)]
    exact ih fun b member => no_quote b (List.mem_cons_of_mem c member)

/-- What no key begins with. -/
def Bounded (rest : List UInt8) : Prop := ∀ c, rest.head? = some c → c ≠ 34 ∧ isword c = false

/-- A closing quote does not open a key. -/
theorem value_in_closing (word : ∀ c ∈ key, isword c = true) (bounded : Bounded rest) :
    value_in key (34 :: rest) = value_in key rest := by
  rw [value_in, if_neg]
  rintro ⟨-, is_start, -⟩
  obtain ⟨more, rfl⟩ := is_start
  cases key with
  | nil => exact (bounded 34 rfl).1 rfl
  | cons c key =>
    have not_word := (bounded c rfl).2
    rw [word c List.mem_cons_self] at not_word
    cases not_word

/-- A quoted text is the quoted key if it is the key. -/
theorem quoted_iff {key name : List UInt8} (key_plain : 34 ∉ key) (name_plain : 34 ∉ name) :
    key ++ [34] <+: name ++ 34 :: rest ↔ key = name := by
  induction key generalizing name with
  | nil =>
    cases name with
    | nil => simp
    | cons b name =>
      have first : 34 ≠ b := fun same => name_plain (same ▸ List.mem_cons_self)
      simp [first]
  | cons c key ih =>
    cases name with
    | nil =>
      have first : c ≠ 34 := fun same => key_plain (same ▸ List.mem_cons_self)
      simp [first]
    | cons b name =>
      rw [List.mem_cons, not_or] at key_plain name_plain
      rw [List.cons_append, List.cons_append, List.cons_prefix_cons, ih key_plain.2 name_plain.2, List.cons.injEq]

theorem word_plain (word : ∀ c ∈ key, isword c = true) : 34 ∉ key := by
  intro member
  exact absurd (word 34 member) (by decide)

/-- A quoted text is found if it is the key and a colon follows; otherwise the search goes on behind it. -/
theorem value_in_quoted {name : List UInt8} (word : ∀ c ∈ key, isword c = true) (name_plain : 34 ∉ name)
    (bounded : Bounded rest) :
    value_in key (34 :: (name ++ 34 :: rest))
      = if key = name ∧ (rest.dropWhile isblank).head? = some 58 then
          some ((rest.dropWhile isblank).tail.dropWhile isblank)
        else value_in key rest := by
  have behind : value_in key (name ++ 34 :: rest) = value_in key rest := by
    rw [value_in_plain fun c member same => name_plain (same ▸ member), value_in_closing word bounded]
  rw [value_in, behind]
  by_cases same : key = name
  · subst same
    have past : (key ++ 34 :: rest).drop (key.length + 1) = rest := by
      rw [← List.drop_drop, List.drop_left, List.drop_one, List.tail_cons]
    simp only [past, quoted_iff name_plain name_plain, true_and]
  · have other := mt (@quoted_iff rest key name (word_plain word) name_plain).mp same
    rw [if_neg fun both => other both.2.1, if_neg fun both => same both.1]

end

theorem isblank_iff {c : UInt8} : isblank c = true ↔ c = 32 ∨ c = 9 := by
  rw [isblank, Bool.or_eq_true, decide_eq_true_iff, decide_eq_true_iff]

theorem blanks_plain (w : Blanks) : ∀ c ∈ w.1, c ≠ 34 := by
  rintro c member rfl
  exact absurd (w.2 34 member) (by decide)

theorem blanks_bounded (w : Blanks) {c : UInt8} (other : c ≠ 34 ∧ isword c = false) (rest : List UInt8) :
    Bounded (w.1 ++ c :: rest) := by
  obtain ⟨w, blank⟩ := w
  intro b first
  cases w with
  | nil =>
    obtain rfl := Option.some.inj first
    exact other
  | cons a w =>
    obtain rfl := Option.some.inj first
    rcases isblank_iff.mp (blank a List.mem_cons_self) with rfl | rfl <;> decide

theorem blanks_dropped (w : Blanks) {rest : List UInt8} (dark : ∀ c, rest.head? = some c → isblank c = false) :
    (w.1 ++ rest).dropWhile isblank = rest := by
  rw [List.dropWhile_append_of_pos w.2]
  cases rest with
  | nil => rfl
  | cons c rest => rw [List.dropWhile_cons_of_neg (Bool.not_eq_true _ ▸ dark c rfl)]

theorem value_text_dark (v : Value) (rest : List UInt8) : ∃ c tail, v.text ++ rest = c :: tail ∧ isblank c = false := by
  cases v with
  | int negative n =>
    obtain ⟨c, tail, shape, first⟩ := signed_first negative n rest
    refine ⟨c, tail, shape, ?_⟩
    by_contra blank
    rw [Bool.not_eq_false] at blank
    rcases isblank_iff.mp blank with rfl | rfl <;> exact absurd first (by decide)
  | bool b => cases b <;> exact ⟨_, _, rfl, by decide⟩
  | null => exact ⟨_, _, rfl, by decide⟩
  | str t => exact ⟨34, _, rfl, by decide⟩

/-- What closes a member. -/
def closes (d : UInt8) : Prop := d = 44 ∨ d = 125

theorem closes_facts {d : UInt8} (closing : closes d) : d ≠ 34 ∧ isword d = false ∧ d ≠ 58 ∧ isblank d = false := by
  rcases closing with rfl | rfl <;> decide

section
variable {key : List UInt8} (word : ∀ c ∈ key, isword c = true)
include word

/-- A value holds no member, not even if it is a string. -/
theorem value_in_value (v : Value) (w : Blanks) {d : UInt8} (closing : closes d) (more : List UInt8) :
    value_in key (v.text ++ (w.1 ++ d :: more)) = value_in key more := by
  obtain ⟨no_quote, no_word, no_colon, dark⟩ := closes_facts closing
  have behind : value_in key (w.1 ++ d :: more) = value_in key more := by
    rw [value_in_plain (blanks_plain w), value_in_skip no_quote]
  cases v with
  | int negative n =>
    rw [value_in_plain, behind]
    rintro c member rfl
    rcases List.mem_append.mp member with sign | digits
    · cases negative with
      | true => exact absurd sign (by decide)
      | false => cases sign
    · exact absurd ((decimal_digits n).1 34 digits) (by decide)
  | bool b =>
    rw [value_in_plain, behind]
    cases b <;> decide
  | null =>
    rw [value_in_plain, behind]
    decide
  | str t =>
    have shape : (Value.str t).text ++ (w.1 ++ d :: more) = 34 :: (t.1 ++ 34 :: (w.1 ++ d :: more)) := by
      simp [Value.text]
    have skipped : (w.1 ++ d :: more).dropWhile isblank = d :: more :=
      blanks_dropped w fun c first => Option.some.inj first ▸ dark
    rw [shape, value_in_quoted word (fun member => (t.2 34 member).1 rfl) (blanks_bounded w ⟨no_quote, no_word⟩ more),
      skipped, behind, if_neg]
    rintro ⟨-, colon⟩
    exact no_colon (Option.some.inj colon)

/-- The name of a member is found, and the search goes on behind a member with another name. -/
theorem value_in_member (m : Member) {d : UInt8} (closing : closes d) (more : List UInt8) :
    value_in key (m.text ++ d :: more)
      = if key = m.key.1 then some (m.value.text ++ (m.after_value.1 ++ d :: more)) else value_in key more := by
  obtain ⟨c, tail, shape, dark⟩ := value_text_dark m.value (m.after_value.1 ++ d :: more)
  have text : m.text ++ d :: more = m.before.1 ++ (34 :: (m.key.1 ++ 34 :: (m.after_key.1
      ++ 58 :: (m.before_value.1 ++ (m.value.text ++ (m.after_value.1 ++ d :: more)))))) := by
    simp [Member.text]
  have to_colon : ∀ rest, (m.after_key.1 ++ 58 :: rest).dropWhile isblank = 58 :: rest := fun rest =>
    blanks_dropped m.after_key fun c first => Option.some.inj first ▸ (by decide)
  have to_value : (m.before_value.1 ++ (m.value.text ++ (m.after_value.1 ++ d :: more))).dropWhile isblank
      = m.value.text ++ (m.after_value.1 ++ d :: more) := by
    refine blanks_dropped m.before_value fun b first => ?_
    rw [shape] at first
    exact Option.some.inj first ▸ dark
  rw [text, value_in_plain (blanks_plain m.before), value_in_quoted word (word_plain m.key.2)
    (blanks_bounded m.after_key (by decide) _), to_colon, List.head?_cons, List.tail_cons, to_value]
  by_cases same : key = m.key.1
  · rw [if_pos ⟨same, rfl⟩, if_pos same]
  · rw [if_neg fun both => same both.1, if_neg same, value_in_plain (blanks_plain m.after_key),
      value_in_skip (by decide), value_in_plain (blanks_plain m.before_value),
      value_in_value word m.value m.after_value closing]

end

/-- What stands behind a member that is followed by `ms`. -/
def behind (closed : Blanks) : List Member → List UInt8
  | [] => 125 :: closed.1
  | m :: ms => 44 :: (members_text (m :: ms) ++ 125 :: closed.1)

theorem behind_closes (closed : Blanks) (ms : List Member) : ∃ d more, behind closed ms = d :: more ∧ closes d := by
  cases ms with
  | nil => exact ⟨125, closed.1, rfl, .inr rfl⟩
  | cons m ms => exact ⟨44, _, rfl, .inl rfl⟩

theorem members_cons (closed : Blanks) (m : Member) (ms : List Member) :
    members_text (m :: ms) ++ 125 :: closed.1 = m.text ++ behind closed ms := by
  cases ms with
  | nil => rfl
  | cons n ms => rw [members_text, behind, List.append_assoc, List.cons_append]

section
variable {key : List UInt8} (word : ∀ c ∈ key, isword c = true) (closed : Blanks)

theorem value_in_behind (ms : List Member) :
    value_in key (behind closed ms) = value_in key (members_text ms ++ 125 :: closed.1) := by
  cases ms with
  | nil => rfl
  | cons m ms => rw [behind, value_in_skip (by decide)]

include word

theorem value_in_cons (m : Member) (ms : List Member) :
    value_in key (members_text (m :: ms) ++ 125 :: closed.1)
      = if key = m.key.1 then some (m.value.text ++ (m.after_value.1 ++ behind closed ms))
        else value_in key (members_text ms ++ 125 :: closed.1) := by
  obtain ⟨d, more, shape, closing⟩ := behind_closes closed ms
  rw [members_cons, ← value_in_behind, shape, value_in_skip (closes_facts closing).1,
    value_in_member word m closing more]

/-- The search from a value on goes through the members behind it. -/
theorem value_in_from_value (v : Value) (w : Blanks) (ms : List Member) :
    value_in key (v.text ++ (w.1 ++ behind closed ms)) = value_in key (members_text ms ++ 125 :: closed.1) := by
  obtain ⟨d, more, shape, closing⟩ := behind_closes closed ms
  rw [← value_in_behind, shape, value_in_skip (closes_facts closing).1, value_in_value word v w closing more]

theorem value_in_absent {ms : List Member} (absent : ∀ m ∈ ms, key ≠ m.key.1) :
    value_in key (members_text ms ++ 125 :: closed.1) = none := by
  induction ms with
  | nil =>
    have plain : ∀ c ∈ 125 :: closed.1, c ≠ 34 := by
      intro c member
      rcases List.mem_cons.mp member with rfl | blank
      · decide
      · exact blanks_plain closed c blank
    have nothing := @value_in_plain key [] _ plain
    rwa [List.append_nil] at nothing
  | cons m ms ih =>
    rw [value_in_cons word, if_neg (absent m List.mem_cons_self)]
    exact ih fun n member => absent n (List.mem_cons_of_mem m member)

/-- The search ends at the value of the first member with the name. -/
theorem value_in_present {pre post : List Member} {m : Member} (earlier : ∀ n ∈ pre, key ≠ n.key.1)
    (here : key = m.key.1) :
    value_in key (members_text (pre ++ m :: post) ++ 125 :: closed.1)
      = some (m.value.text ++ (m.after_value.1 ++ behind closed post)) := by
  induction pre with
  | nil => rw [List.nil_append, value_in_cons word, if_pos here]
  | cons n pre ih =>
    rw [List.cons_append, value_in_cons word, if_neg (earlier n List.mem_cons_self)]
    exact ih fun n' member => earlier n' (List.mem_cons_of_mem n member)

end

/-- What the number at a value is, as far as a `long` holds it. -/
def Value.number : Value → Option Int
  | .int negative n => some (saturate negative n)
  | .bool b => some (if b then 1 else 0)
  | .null => none
  | .str _ => none

def Value.string : Value → Bool × List UInt8
  | .str t => (true, t.1)
  | _ => (false, [])

/-- A value ends before white space, a comma or a closing brace. -/
def Delimited (rest : List UInt8) : Prop := ∃ c tail, rest = c :: tail ∧ (isblank c = true ∨ closes c)

theorem member_delimited (w closed : Blanks) (ms : List Member) : Delimited (w.1 ++ behind closed ms) := by
  obtain ⟨w, blank⟩ := w
  obtain ⟨d, more, shape, closing⟩ := behind_closes closed ms
  cases w with
  | nil => exact ⟨d, more, shape, .inr closing⟩
  | cons c w => exact ⟨c, _, rfl, .inl (blank c List.mem_cons_self)⟩

section
variable {rest : List UInt8}

theorem delimited_ends (delimited : Delimited rest) : Ends rest := by
  obtain ⟨c, tail, rfl, blank | closing⟩ := delimited
  · intro b first
    obtain rfl := Option.some.inj first
    rcases isblank_iff.mp blank with rfl | rfl <;> decide
  · intro b first
    obtain rfl := Option.some.inj first
    rcases closing with rfl | rfl <;> decide

theorem scalar_value (v : Value) (delimited : Delimited rest) : scalar (v.text ++ rest) = v.number := by
  cases v with
  | int negative n =>
    obtain ⟨c, tail, shape, first⟩ := signed_first negative n rest
    have other : c ≠ 116 ∧ c ≠ 102 := by
      constructor <;> rintro rfl <;> exact absurd first (by decide)
    have number := strtol_signed negative n (delimited_ends delimited)
    rw [shape] at number
    rw [Value.text, shape, scalar_other other, number]
    rfl
  | bool b => cases b <;> rfl
  | null =>
    have shape : Value.null.text ++ rest = 110 :: (ascii "ull" ++ rest) := rfl
    rw [shape, scalar_other (by decide), strtol_none (by decide) (by decide)]
    rfl
  | str t =>
    have shape : (Value.str t).text ++ rest = 34 :: (t.1 ++ [34] ++ rest) := rfl
    rw [shape, scalar_other (by decide), strtol_none (by decide) (by decide)]
    rfl

theorem string_at_other {c : UInt8} {s : List UInt8} (other : c ≠ 34) : string_at (c :: s) = (false, []) :=
  if_neg fun quote => other (Option.some.inj quote)

theorem string_value (v : Value) : string_at (v.text ++ rest) = v.string := by
  cases v with
  | int negative n =>
    obtain ⟨c, tail, shape, first⟩ := signed_first negative n rest
    rw [Value.text, shape, string_at_other]
    · rfl
    · rintro rfl
      exact absurd first (by decide)
  | bool b => cases b <;> exact string_at_other (by decide)
  | null => exact string_at_other (by decide)
  | str t =>
    have shape : (Value.str t).text ++ rest = 34 :: (t.1 ++ 34 :: rest) := by simp [Value.text]
    have body : (t.1 ++ 34 :: rest).takeWhile (fun c => c ≠ 34 ∧ c ≠ 0) = t.1 := by
      rw [List.takeWhile_append_of_pos, List.takeWhile_cons_of_neg (by decide), List.append_nil]
      intro c member
      exact decide_eq_true ⟨(t.2 c member).1, (t.2 c member).2.2⟩
    rw [shape, string_at, if_pos List.head?_cons]
    simp only [List.tail_cons, body, List.drop_left, List.head?_cons, decide_true]
    rfl

end

/-- The value of the member with the name. -/
def Object.lookup (o : Object) (key : Name) : Option Value := (o.members.find? fun m => m.key = key).map (·.value)

theorem lookup_iff (o : Object) (key : Name) (v : Value) :
    o.lookup key = some v ↔ ∃ m ∈ o.members, m.key = key ∧ m.value = v := by
  rw [Object.lookup, Option.map_eq_some_iff]
  constructor
  · rintro ⟨m, found, same⟩
    exact ⟨m, List.mem_of_find?_eq_some found, by simpa using List.find?_some found, same⟩
  · rintro ⟨m, member, here, same⟩
    cases found : o.members.find? fun m => m.key = key with
    | none => exact absurd (decide_eq_true here) (List.find?_eq_none.mp found m member)
    | some n =>
      -- two members of the same name would be the same one
      have name : n.key = key := by simpa using List.find?_some found
      have only := List.inj_on_of_nodup_map o.distinct (List.mem_of_find?_eq_some found) member (name.trans here.symm)
      exact ⟨n, rfl, only ▸ same⟩

theorem value_in_text (o : Object) (key : List UInt8) :
    value_in key o.text = value_in key (members_text o.members ++ 125 :: o.closed.1) := by
  rw [Object.text, value_in_plain (blanks_plain o.before), value_in_skip (by decide),
    value_in_plain (blanks_plain o.opened)]

/-- Where the search for a key ends. -/
theorem value_in_object (o : Object) (key : Name) :
    (o.lookup key = none ∧ value_in key.1 o.text = none)
      ∨ ∃ v rest, o.lookup key = some v ∧ Delimited rest ∧ value_in key.1 o.text = some (v.text ++ rest) := by
  rw [value_in_text, Object.lookup]
  cases found : o.members.find? fun m => m.key = key with
  | none =>
    refine .inl ⟨rfl, value_in_absent key.2 o.closed fun m member same => ?_⟩
    exact List.find?_eq_none.mp found m member (decide_eq_true (Subtype.ext same).symm)
  | some m =>
    obtain ⟨here, pre, post, split, earlier⟩ := List.find?_eq_some_iff_append.mp found
    refine .inr ⟨m.value, m.after_value.1 ++ behind o.closed post, rfl, member_delimited _ _ _, ?_⟩
    rw [split, value_in_present key.2 o.closed]
    · intro n member same
      have other := earlier n member
      rw [decide_eq_true (Subtype.ext same).symm] at other
      cases other
    · exact congrArg Subtype.val (of_decide_eq_true here).symm

/-- The number at a value is read, whatever stands behind the text in the memory. -/
theorem json_get_i32_found {text key rest : List UInt8} {v : Value} (found : value_in key text = some (v.text ++ rest))
    (delimited : Delimited rest) (after : List UInt8) :
    json_get_i32 (text ++ after) text.length key = v.number := by
  obtain ⟨c, tail, shape, -⟩ := value_text_dark v rest
  have some_ : v.text ++ rest ≠ [] := shape ▸ List.cons_ne_nil c tail
  have more : Delimited (rest ++ after) := by
    obtain ⟨d, rest, rfl, closing⟩ := delimited
    exact ⟨d, rest ++ after, rfl, closing⟩
  rw [json_get_i32_eq, found, Option.bind_some, if_neg some_, List.append_assoc, scalar_value v more]

/-- What the accessors return for an object. -/
theorem json_get_i32_object (o : Object) (key : Name) (after : List UInt8) :
    json_get_i32 (o.text ++ after) o.text.length key.1 = (o.lookup key).bind Value.number := by
  obtain ⟨nothing, nowhere⟩ | ⟨v, rest, found, delimited, place⟩ := value_in_object o key
  · rw [json_get_i32_eq, nothing, nowhere]
    rfl
  · rw [json_get_i32_found place delimited, found]
    rfl

theorem json_get_str_object (o : Object) (key : Name) (after : List UInt8) (outsz : Nat) :
    json_get_str (o.text ++ after) o.text.length key.1 outsz
      = (((o.lookup key).elim (false, []) Value.string).1,
        ((o.lookup key).elim (false, []) Value.string).2.take (outsz - 1)) := by
  rw [json_get_str_eq, string_in]
  obtain ⟨nothing, nowhere⟩ | ⟨v, rest, found, delimited, place⟩ := value_in_object o key
  · rw [nothing, nowhere]
    rfl
  · rw [found, place, Option.elim_some, Option.elim_some, string_value]

/-- An `int32_t` holds the number. -/
def Value.InRange : Value → Prop
  | .int negative n => n ≤ if negative then 2^31 else 2^31 - 1
  | _ => True

/-- The integer that a value is. -/
def Value.integer : Value → Option Int
  | .int negative n => some (if negative then -n else n)
  | .bool b => some (if b then 1 else 0)
  | _ => none

theorem number_in_range {v : Value} (in_range : v.InRange) : v.number = v.integer := by
  cases v with
  | int negative n =>
    cases negative with
    | true =>
      have bounded : n ≤ LONG_MAX + 1 := in_range
      simp only [Value.number, Value.integer, saturate, if_true, Nat.min_eq_left bounded]
    | false =>
      have bounded : n ≤ LONG_MAX := in_range
      simp only [Value.number, Value.integer, saturate, Bool.false_eq_true, if_false, Nat.min_eq_left bounded]
  | bool b => rfl
  | null => rfl
  | str t => rfl

theorem string_iff {v : Value} : v.string.1 = true ↔ ∃ t, v = .str t := by
  cases v <;> simp [Value.string]

/-- A number is read iff the key is there with an integer or a boolean, and a string is read iff the key is
    there with a string, as a whole if the buffer has room for it. -/
theorem fields_read (o : Object) (in_range : ∀ m ∈ o.members, m.value.InRange) (key : Name) (after : List UInt8) :
    (∀ n, json_get_i32 (o.text ++ after) o.text.length key.1 = some n
        ↔ ∃ m ∈ o.members, m.key = key ∧ m.value.integer = some n)
      ∧ ∀ outsz, (∀ m ∈ o.members, m.key = key → ∀ t, m.value = .str t → t.1.length < outsz) →
        ((json_get_str (o.text ++ after) o.text.length key.1 outsz).1 = true
          ↔ ∃ m ∈ o.members, m.key = key ∧ ∃ t, m.value = .str t)
        ∧ ∀ m ∈ o.members, m.key = key → ∀ t, m.value = .str t →
          json_get_str (o.text ++ after) o.text.length key.1 outsz = (true, t.1) := by
  constructor
  · intro n
    rw [json_get_i32_object, Option.bind_eq_some_iff]
    constructor
    · rintro ⟨v, found, number⟩
      obtain ⟨m, member, here, rfl⟩ := (lookup_iff o key v).mp found
      exact ⟨m, member, here, number_in_range (in_range m member) ▸ number⟩
    · rintro ⟨m, member, here, integer⟩
      refine ⟨m.value, (lookup_iff o key m.value).mpr ⟨m, member, here, rfl⟩, ?_⟩
      rw [number_in_range (in_range m member), integer]
  · intro outsz room
    constructor
    · rw [json_get_str_object]
      cases found : o.lookup key with
      | none =>
        refine iff_of_false Bool.false_ne_true ?_
        rintro ⟨m, member, here, -⟩
        have present := (lookup_iff o key m.value).mpr ⟨m, member, here, rfl⟩
        rw [found] at present
        cases present
      | some v =>
        rw [Option.elim_some, string_iff]
        constructor
        · rintro ⟨t, rfl⟩
          obtain ⟨m, member, here, value⟩ := (lookup_iff o key _).mp found
          exact ⟨m, member, here, t, value⟩
        · rintro ⟨m, member, here, t, value⟩
          have present := (lookup_iff o key _).mpr ⟨m, member, here, value⟩
          exact ⟨t, Option.some.inj (found.symm.trans present)⟩
    · intro m member here t value
      have whole : t.1.take (outsz - 1) = t.1 :=
        List.take_of_length_le (Nat.le_sub_one_of_lt (room m member here t value))
      rw [json_get_str_object, (lookup_iff o key _).mpr ⟨m, member, here, value⟩]
      exact Prod.ext rfl whole

/-! `{"a": "b","b":-5}` -/

def no_blanks : Blanks := ⟨[], by simp⟩

def name_a : Name := ⟨ascii "a", by decide +kernel⟩

def name_b : Name := ⟨ascii "b", by decide +kernel⟩

def spelled : Member where
  before := no_blanks
  key := name_a
  after_key := no_blanks
  before_value := ⟨[32], by decide +kernel⟩
  value := .str ⟨ascii "b", by decide +kernel⟩
  after_value := no_blanks

def minus_five : Member where
  before := no_blanks
  key := name_b
  after_key := no_blanks
  before_value := no_blanks
  value := .int true 5
  after_value := no_blanks

def two_fields : Object where
  before := no_blanks
  opened := no_blanks
  members := [spelled, minus_five]
  closed := no_blanks
  distinct := by decide

/-- A string that spells the key is not taken for it. -/
theorem fields_read_spelled :
    two_fields.text = ascii "\x7b\"a\": \"b\",\"b\":-5\x7d"
      ∧ json_get_i32 (two_fields.text ++ [55]) two_fields.text.length name_b.1 = some (-5)
      ∧ json_get_str (two_fields.text ++ [55]) two_fields.text.length name_a.1 8 = (true, ascii "b") := by
  have in_range : ∀ m ∈ two_fields.members, m.value.InRange := by
    intro m member
    rcases List.mem_pair.mp member with rfl | rfl
    · trivial
    · exact (by decide : 5 ≤ 2^31)
  have room : ∀ m ∈ two_fields.members, m.key = name_a → ∀ t, m.value = .str t → t.1.length < 8 := by
    intro m member here t value
    rcases List.mem_pair.mp member with rfl | rfl
    · cases value
      decide
    · cases value
  refine ⟨by decide, ?_, ?_⟩
  · exact ((fields_read two_fields in_range name_b [55]).1 (-5)).mpr
      ⟨minus_five, List.mem_cons_of_mem _ List.mem_cons_self, rfl, rfl⟩
  · exact ((fields_read two_fields in_range name_a [55]).2 8 room).2 spelled List.mem_cons_self rfl _ rfl

end IoEdgeHub.FlatObjects
