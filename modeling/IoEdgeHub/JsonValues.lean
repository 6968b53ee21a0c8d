import Mathlib.Data.List.Induction
import IoEdgeHub.Numerals

/-!
JSON: values, their compact text, and a reader. The numbers are natural ones, and the
strings need no escapes. Reading the text of a value gives the value back (`parse_text`),
and the reader takes no longer than the text is.
-/
namespace IoEdgeHub.JsonValues
open IoEdgeHub.CStrings (ascii decimal isdigit isdigit_bounds digits_value)
open IoEdgeHub.Numerals (decimal_digits)

inductive Value
  | flag (b : Bool)
  | number (n : Nat)
  | string (s : List UInt8)
  | array (items : List Value)
  | object (fields : List (List UInt8 × Value))

/-- A character that stands for itself in a string. -/
def plain (c : UInt8) : Bool := 32 ≤ c && c < 127 && c ≠ 34 && c ≠ 92

def quoted (s : List UInt8) : List UInt8 := 34 :: (s ++ [34])

/-- Texts with a comma between two of them. -/
def joined (texts : List (List UInt8)) : List UInt8 := [44].intercalate texts

mutual

def text : Value → List UInt8
  | .flag true => ascii "true"
  | .flag false => ascii "false"
  | .number n => decimal n
  | .string s => quoted s
  | .array items => 91 :: (joined (texts items) ++ [93])
  | .object fields => 123 :: (joined (field_texts fields) ++ [125])

def texts : List Value → List (List UInt8)
  | [] => []
  | item :: items => text item :: texts items

def field_texts : List (List UInt8 × Value) → List (List UInt8)
  | [] => []
  | (name, value) :: fields => (quoted name ++ 58 :: text value) :: field_texts fields

end

/-- The text of one field of an object. -/
def field_text (f : List UInt8 × Value) : List UInt8 := quoted f.1 ++ 58 :: text f.2

theorem texts_eq (items : List Value) : texts items = items.map text := by
  induction items with
  | nil => rfl
  | cons item items ih => rw [texts, ih, List.map_cons]

theorem field_texts_eq (fields : List (List UInt8 × Value)) : field_texts fields = fields.map field_text := by
  induction fields with
  | nil => rfl
  | cons f fields ih => rw [field_texts, ih, List.map_cons, field_text]

theorem text_string (s : List UInt8) : text (.string s) = quoted s := rfl

theorem text_number (n : Nat) : text (.number n) = decimal n := rfl

theorem text_array (items : List Value) : text (.array items) = 91 :: (joined (items.map text) ++ [93]) := by
  rw [text, texts_eq]

theorem text_object (fields : List (List UInt8 × Value)) :
    text (.object fields) = 123 :: (joined (fields.map field_text) ++ [125]) := by
  rw [text, field_texts_eq]

/-- All strings of a value are plain. -/
inductive Plain : Value → Prop
  | flag (b : Bool) : Plain (.flag b)
  | number (n : Nat) : Plain (.number n)
  | string {s : List UInt8} (chars : ∀ c ∈ s, plain c = true) : Plain (.string s)
  | array {items : List Value} (each : ∀ v ∈ items, Plain v) : Plain (.array items)
  | object {fields : List (List UInt8 × Value)} (names : ∀ name ∈ fields.map (·.1), ∀ c ∈ name, plain c = true)
      (each : ∀ f ∈ fields, Plain f.2) : Plain (.object fields)

def white (c : UInt8) : Bool := c = 32 || c = 9 || c = 10 || c = 13

def skip (s : List UInt8) : List UInt8 := s.dropWhile white

section
variable {α : Type}

/-- One reading behind another. -/
abbrev Reads (α : Type) : Type := List UInt8 → Option (α × List UInt8)

/-- The rest of a string, behind its first quote. -/
def string_end : Reads (List UInt8) := fun s =>
  if (s.dropWhile plain).head? = some 34 then some (s.takeWhile plain, (s.dropWhile plain).tail) else none

/-- Digits, where a zero stands in front only alone. -/
def number : Reads Nat := fun s =>
  let digits := s.takeWhile isdigit
  if digits = [] ∨ digits.head? = some 48 ∧ digits ≠ [48] then none
  else some (digits_value 10 digits, s.dropWhile isdigit)

def word (w : List UInt8) (a : α) : Reads α := fun s => if w <+: s then some (a, s.drop w.length) else none

/-- One or more items and what closes them. -/
def items (item : Reads α) (close : UInt8) : Nat → Reads (List α)
  | 0, _ => none
  | fuel + 1, s =>
    (item s).bind fun first =>
      let s := skip first.2
      if s.head? = some close then some ([first.1], s.tail)
      else if s.head? = some 44 then (items item close fuel s.tail).map fun r => (first.1 :: r.1, r.2)
      else none

/-- Items up to what closes them, perhaps none. -/
def sequence (item : Reads α) (close : UInt8) : Reads (List α) := fun s =>
  let s := skip s
  if s.head? = some close then some ([], s.tail) else items item close s.length s

/-- A name, a colon and a value. -/
def field (value : Reads α) : Reads (List UInt8 × α) := fun s =>
  let s := skip s
  if s.head? = some 34 then
    (string_end s.tail).bind fun name =>
      let s := skip name.2
      if s.head? = some 58 then (value s.tail).map fun v => ((name.1, v.1), v.2) else none
  else none

end

/-- A value that is nested no deeper than a bound. -/
def value : Nat → Reads Value
  | 0, _ => none
  | depth + 1, s =>
    let s := skip s
    if s.head? = some 34 then (string_end s.tail).map fun r => (.string r.1, r.2)
    else if s.head? = some 91 then (sequence (value depth) 93 s.tail).map fun r => (.array r.1, r.2)
    else if s.head? = some 123 then (sequence (field (value depth)) 125 s.tail).map fun r => (.object r.1, r.2)
    else if s.head? = some 116 then word (ascii "true") (.flag true) s
    else if s.head? = some 102 then word (ascii "false") (.flag false) s
    else (number s).map fun r => (.number r.1, r.2)

/-- The value that a whole text is, nothing if it is none. No value is nested deeper than its text is long. -/
def parse (s : List UInt8) : Option Value :=
  (value s.length s).bind fun r => if skip r.2 = [] then some r.1 else none

/-- What stands behind a value: nothing, or a comma or a bracket that closes. -/
def Stops (rest : List UInt8) : Prop := ∀ c, rest.head? = some c → c = 44 ∨ c = 93 ∨ c = 125

theorem stops_nil : Stops [] := by
  intro c first
  cases first

theorem stops_cons {c : UInt8} (rest : List UInt8) (stop : c = 44 ∨ c = 93 ∨ c = 125) : Stops (c :: rest) := by
  intro d first
  rwa [← Option.some.inj first]

theorem skip_dark {c : UInt8} {rest : List UInt8} (dark : white c = false) : skip (c :: rest) = c :: rest := by
  rw [skip, List.dropWhile_cons_of_neg]
  rw [dark]
  exact Bool.false_ne_true

theorem skip_stops {rest : List UInt8} (stops : Stops rest) : skip rest = rest := by
  cases rest with
  | nil => rfl
  | cons c rest =>
    refine skip_dark ?_
    rcases stops c rfl with rfl | rfl | rfl <;> rfl

theorem string_end_text {s : List UInt8} (chars : ∀ c ∈ s, plain c = true) (rest : List UInt8) :
    string_end (s ++ 34 :: rest) = some (s, rest) := by
  have quote : plain 34 = false := rfl
  have front : (s ++ 34 :: rest).takeWhile plain = s := by
    rw [List.takeWhile_append_of_pos chars, List.takeWhile_cons_of_neg (by rw [quote]; decide), List.append_nil]
  have back : (s ++ 34 :: rest).dropWhile plain = 34 :: rest := by
    rw [List.dropWhile_append_of_pos chars, List.dropWhile_cons_of_neg (by rw [quote]; decide)]
  rw [string_end, front, back, List.head?_cons, if_pos rfl, List.tail_cons]

theorem number_text (n : Nat) {rest : List UInt8} (stops : Stops rest) : number (decimal n ++ rest) = some (n, rest) := by
  obtain ⟨all_digits, value, c, ds, shape, zero⟩ := decimal_digits n
  have behind : rest.takeWhile isdigit = [] ∧ rest.dropWhile isdigit = rest := by
    cases rest with
    | nil => exact ⟨rfl, rfl⟩
    | cons b rest =>
      have no_digit : ¬ isdigit b = true := by
        rcases stops b rfl with rfl | rfl | rfl <;> decide
      exact ⟨List.takeWhile_cons_of_neg no_digit, List.dropWhile_cons_of_neg no_digit⟩
  have front : (decimal n ++ rest).takeWhile isdigit = decimal n := by
    rw [List.takeWhile_append_of_pos all_digits, behind.1, List.append_nil]
  have back : (decimal n ++ rest).dropWhile isdigit = rest := by
    rw [List.dropWhile_append_of_pos all_digits, behind.2]
  have starts : ¬ (decimal n = [] ∨ (decimal n).head? = some 48 ∧ decimal n ≠ [48]) := by
    rintro (empty | ⟨first, more⟩)
    · rw [shape] at empty
      cases empty
    · have is_zero : n = 0 := zero.mp (by rw [shape] at first; exact Option.some.inj first)
      subst is_zero
      exact more rfl
  rw [number, front, back, if_neg starts, value]

theorem word_text {α : Type} (w : List UInt8) (a : α) (rest : List UInt8) : word w a (w ++ rest) = some (a, rest) := by
  rw [word, if_pos ⟨rest, rfl⟩, List.drop_left]

section
variable {α : Type} {item : Reads α} {print : α → List UInt8} {close : UInt8}

theorem joined_cons (t u : List UInt8) (more : List (List UInt8)) : joined (t :: u :: more) = t ++ 44 :: joined (u :: more) := by
  simp only [joined, List.intercalate_cons_cons, List.append_assoc, List.singleton_append]

/-- Items are read one by one, each behind the comma of the one before. -/
theorem items_text (closes : close = 93 ∨ close = 125) (rest : List UInt8) (vs : List α) (v : α) {fuel : Nat}
    (reads : ∀ u ∈ v :: vs, ∀ rest, Stops rest → item (print u ++ rest) = some (u, rest)) (enough : vs.length < fuel) :
    items item close fuel (joined ((v :: vs).map print) ++ close :: rest) = some (v :: vs, rest) := by
  induction vs generalizing v fuel with
  | nil =>
    obtain ⟨more, rfl⟩ := Nat.exists_eq_add_one_of_ne_zero (Nat.ne_of_gt enough)
    have stops : Stops (close :: rest) := stops_cons rest (.inr closes)
    have single : joined ([v].map print) = print v := List.append_nil _
    rw [items, single, reads v List.mem_cons_self _ stops, Option.bind_some]
    simp only [skip_stops stops, List.head?_cons, if_true, List.tail_cons]
  | cons u us ih =>
    obtain ⟨more, rfl⟩ := Nat.exists_eq_add_one_of_ne_zero (Nat.ne_of_gt (Nat.zero_lt_of_lt enough))
    have comma : ¬ (44 : UInt8) = close := by
      rcases closes with rfl | rfl <;> decide
    have stops : Stops (44 :: (joined ((u :: us).map print) ++ close :: rest)) := stops_cons _ (.inl rfl)
    have later := ih u (fun t member => reads t (List.mem_cons_of_mem v member)) (Nat.lt_of_succ_lt_succ enough)
    have first : joined ((v :: u :: us).map print) ++ close :: rest =
        print v ++ 44 :: (joined ((u :: us).map print) ++ close :: rest) := by
      rw [List.map_cons, List.map_cons, joined_cons, List.append_assoc]
      rfl
    rw [items, first, reads v List.mem_cons_self _ stops, Option.bind_some]
    simp only [skip_stops stops, List.head?_cons, Option.some.injEq, comma, if_false, if_true, List.tail_cons]
    rw [later]
    rfl

theorem joined_length (texts : List (List UInt8)) (some_ : ∀ t ∈ texts, t ≠ []) : texts.length ≤ (joined texts).length := by
  induction texts with
  | nil => exact Nat.zero_le _
  | cons t more ih =>
    have one : 0 < t.length := List.length_pos_iff.mpr (some_ t List.mem_cons_self)
    cases more with
    | nil => exact Nat.le_trans one (Nat.le_of_eq (congrArg List.length (List.append_nil t).symm))
    | cons u more =>
      have rest := ih fun t member => some_ t (List.mem_cons_of_mem _ member)
      rw [joined_cons, List.length_append, List.length_cons, @List.length_cons _ 44]
      omega

/-- The items between two brackets, where none begins with white space or what closes them. -/
theorem sequence_text (closes : close = 93 ∨ close = 125) (rest : List UInt8) (vs : List α)
    (reads : ∀ u ∈ vs, ∀ rest, Stops rest → item (print u ++ rest) = some (u, rest))
    (starts : ∀ u ∈ vs, ∃ c t, print u = c :: t ∧ white c = false ∧ c ≠ close) :
    sequence item close (joined (vs.map print) ++ close :: rest) = some (vs, rest) := by
  cases vs with
  | nil =>
    have stops : Stops (close :: rest) := stops_cons rest (.inr closes)
    have none_ : joined ([].map print) ++ close :: rest = close :: rest := rfl
    rw [none_, sequence, skip_stops stops]
    simp only [List.head?_cons, if_true, List.tail_cons]
  | cons v vs =>
    obtain ⟨c, t, first, dark, other⟩ := starts v List.mem_cons_self
    obtain ⟨more, begins⟩ : ∃ more, joined ((v :: vs).map print) ++ close :: rest = c :: more := by
      cases vs with
      | nil => exact ⟨t ++ [] ++ close :: rest, by rw [List.map_singleton, first]; rfl⟩
      | cons u us =>
        rw [List.map_cons, List.map_cons, joined_cons, first, List.cons_append, List.cons_append]
        exact ⟨_, rfl⟩
    have enough : vs.length < (c :: more).length := by
      rw [← begins]
      have some_ : ∀ t ∈ (v :: vs).map print, t ≠ [] := by
        intro t member empty
        obtain ⟨u, inside, rfl⟩ := List.mem_map.mp member
        obtain ⟨c, t, shape, -⟩ := starts u inside
        rw [shape] at empty
        cases empty
      have many := joined_length _ some_
      rw [List.length_map, List.length_cons] at many
      rw [List.length_append]
      omega
    have whole := items_text closes rest vs v reads enough
    rw [begins] at whole ⊢
    have open_ : ¬ (c :: more).head? = some close := by
      intro same
      exact other (Option.some.inj same)
    simp only [sequence, skip_dark dark]
    rw [if_neg open_]
    exact whole

theorem length_le_joined {t : List UInt8} {texts : List (List UInt8)} (member : t ∈ texts) :
    t.length ≤ (joined texts).length := by
  induction texts with
  | nil => cases member
  | cons u more ih =>
    cases more with
    | nil =>
      rw [List.mem_singleton.mp member]
      exact Nat.le_of_eq (congrArg List.length (List.append_nil u).symm)
    | cons w more =>
      rw [joined_cons, List.length_append, List.length_cons]
      rcases List.mem_cons.mp member with rfl | later
      · omega
      · have inside := ih later
        omega

end

section
variable {v : Value}

theorem quoted_append (s rest : List UInt8) : quoted s ++ rest = 34 :: (s ++ 34 :: rest) := by
  rw [quoted, List.cons_append, List.append_assoc, List.singleton_append]

/-- A value begins with what is no white space and closes nothing. -/
theorem text_starts (v : Value) : ∃ c t, text v = c :: t ∧ white c = false ∧ c ≠ 93 ∧ c ≠ 125 := by
  cases v with
  | flag b => cases b <;> exact ⟨_, _, rfl, by decide, by decide, by decide⟩
  | string s => exact ⟨34, _, rfl, by decide, by decide, by decide⟩
  | array items => exact ⟨91, _, text_array items, by decide, by decide, by decide⟩
  | object fields => exact ⟨123, _, text_object fields, by decide, by decide, by decide⟩
  | number n =>
    obtain ⟨all_digits, -, c, ds, shape, -⟩ := decimal_digits n
    have bounds := isdigit_bounds (all_digits c (shape ▸ List.mem_cons_self))
    refine ⟨c, ds, shape, ?_, ?_, ?_⟩
    · simp only [white, Bool.or_eq_false_iff, decide_eq_false_iff_not, UInt8.ext_iff, UInt8.reduceToNat]
      omega
    · rintro rfl
      exact absurd bounds.2 (by decide)
    · rintro rfl
      exact absurd bounds.2 (by decide)

/-- One field, where the reader of its value reads what stands behind the colon. -/
theorem field_text_read {f : List UInt8 × Value} {read : Reads Value} (names : ∀ c ∈ f.1, plain c = true) {rest : List UInt8}
    (reads : read (text f.2 ++ rest) = some (f.2, rest)) : field read (field_text f ++ rest) = some (f, rest) := by
  have shape : field_text f ++ rest = 34 :: (f.1 ++ 34 :: (58 :: (text f.2 ++ rest))) := by
    rw [field_text, List.append_assoc, quoted_append, List.cons_append]
  have quote : white 34 = false := rfl
  have colon : white 58 = false := rfl
  simp only [field, shape, skip_dark quote, List.head?_cons, if_true, List.tail_cons, string_end_text names,
    Option.bind_some, skip_dark colon, reads, Option.map_some]

/-- The text of a value is read as the value, up to where it ends. The induction is on the depth, which
    the texts of the parts of a value do not reach. -/
theorem value_text {depth : Nat} (plain_ : Plain v) (deep : (text v).length ≤ depth) {rest : List UInt8}
    (stops : Stops rest) : value depth (text v ++ rest) = some (v, rest) := by
  induction depth generalizing v rest with
  | zero =>
    obtain ⟨c, t, shape, -⟩ := text_starts v
    rw [shape, List.length_cons] at deep
    cases deep
  | succ depth ih =>
    obtain ⟨c, t, shape, dark, -⟩ := text_starts v
    have starts : skip (text v ++ rest) = text v ++ rest := by rw [shape, List.cons_append, skip_dark dark]
    rw [value, starts]
    cases plain_ with
    | flag b =>
      cases b with
      | true => exact word_text (ascii "true") (Value.flag true) rest
      | false => exact word_text (ascii "false") (Value.flag false) rest
    | number n =>
      obtain ⟨all_digits, -, d, ds, first, -⟩ := decimal_digits n
      have bounds := isdigit_bounds (all_digits d (first ▸ List.mem_cons_self))
      have head : (text (.number n) ++ rest).head? = some d := by
        rw [text, first]
        rfl
      have other (c : UInt8) (no_digit : isdigit c = false) : ¬ some d = some c := by
        intro same
        rw [← Option.some.inj same, all_digits d (first ▸ List.mem_cons_self)] at no_digit
        cases no_digit
      simp only [head, other 34 rfl, other 91 rfl, other 123 rfl, other 116 rfl, other 102 rfl, if_false]
      rw [text, number_text n stops]
      rfl
    | @string s chars =>
      have open_ : text (.string s) ++ rest = 34 :: (s ++ 34 :: rest) := quoted_append s rest
      simp only [open_, List.head?_cons, if_true, List.tail_cons, string_end_text chars, Option.map_some]
    | @array items each =>
      have open_ : text (.array items) ++ rest = 91 :: (joined (items.map text) ++ 93 :: rest) := by
        rw [text_array, List.cons_append, List.append_assoc, List.singleton_append]
      have reads : ∀ u ∈ items, ∀ rest, Stops rest → value depth (text u ++ rest) = some (u, rest) := by
        intro u member rest stops
        have inside := length_le_joined (List.mem_map_of_mem (f := text) member)
        rw [text_array, List.length_cons, List.length_append] at deep
        exact ih (each u member) (by omega) stops
      have first : ∀ u ∈ items, ∃ c t, text u = c :: t ∧ white c = false ∧ c ≠ 93 := by
        intro u _
        obtain ⟨c, t, shape, dark, other, -⟩ := text_starts u
        exact ⟨c, t, shape, dark, other⟩
      have whole := sequence_text (.inl rfl) rest items reads first
      simp only [open_, List.head?_cons, Option.some.injEq, if_true, List.tail_cons, whole, Option.map_some]
      rfl
    | @object fields names each =>
      have open_ : text (.object fields) ++ rest = 123 :: (joined (fields.map field_text) ++ 125 :: rest) := by
        rw [text_object, List.cons_append, List.append_assoc, List.singleton_append]
      have reads : ∀ f ∈ fields, ∀ rest, Stops rest → field (value depth) (field_text f ++ rest) = some (f, rest) := by
        intro f member rest stops
        have inside := length_le_joined (List.mem_map_of_mem (f := field_text) member)
        rw [text_object, List.length_cons, List.length_append] at deep
        rw [field_text, List.length_append, List.length_cons] at inside
        exact field_text_read (names f.1 (List.mem_map_of_mem member)) (ih (each f member) (by omega) stops)
      have first : ∀ f ∈ fields, ∃ c t, field_text f = c :: t ∧ white c = false ∧ c ≠ 125 := by
        intro f _
        exact ⟨34, _, by rw [field_text, quoted_append], rfl, by decide⟩
      have whole := sequence_text (.inr rfl) rest fields reads first
      simp only [open_, List.head?_cons, Option.some.injEq, if_true, List.tail_cons, whole, Option.map_some]
      rfl

/-- Reading the text of a value gives the value. -/
theorem parse_text (plain_ : Plain v) : parse (text v) = some v := by
  have whole := value_text plain_ (Nat.le_refl _) stops_nil
  rw [List.append_nil] at whole
  rw [parse, whole]
  rfl

end

/-- The last field of a name. -/
def Value.get (name : List UInt8) : Value → Option Value
  | .object fields => (fields.reverse.find? fun f => f.1 = name).map (·.2)
  | _ => none

theorem get_first {name : List UInt8} {fields : List (List UInt8 × Value)} (other : ∀ n ∈ fields.map (·.1), n ≠ name) (v : Value) :
    Value.get name (.object ((name, v) :: fields)) = some v := by
  have later : fields.reverse.find? (fun f => f.1 = name) = none := by
    refine List.find?_eq_none.mpr ?_
    intro f member same
    exact other f.1 (List.mem_map_of_mem (List.mem_reverse.mp member)) (of_decide_eq_true same)
  have found : [(name, v)].find? (fun f => f.1 = name) = some (name, v) := List.find?_cons_of_pos (decide_eq_true rfl)
  rw [Value.get, List.reverse_cons, List.find?_append, later, Option.none_or, found]
  rfl

def Value.item (i : Nat) : Value → Option Value
  | .array items => items[i]?
  | _ => none

end IoEdgeHub.JsonValues
