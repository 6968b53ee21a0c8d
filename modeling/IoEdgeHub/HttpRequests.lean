import IoEdgeHub.HttpTurns

/-!
Requests as a client writes them, and what the web server's readers find in one: the end of its
header, the words of the request line, and the length of the body.
-/
namespace IoEdgeHub.HttpRequests
open IoEdgeHub.CStrings IoEdgeHub.Ws IoEdgeHub.Httpd IoEdgeHub.HttpTurns

structure Field where
  name : List UInt8
  value : List UInt8

structure Request where
  line : List UInt8
  fields : List Field
  body : List UInt8

def blank_line : List UInt8 := [13, 10, 13, 10]

def Field.text (f : Field) : List UInt8 := f.name ++ 58 :: f.value

/-- The lines of the fields, each with the end of the line before it. -/
def lines (fields : List Field) : List UInt8 := fields.flatMap fun f => 13 :: 10 :: f.text

def Request.head (r : Request) : List UInt8 := r.line ++ lines r.fields

def Request.bytes (r : Request) : List UInt8 := r.head ++ (blank_line ++ r.body)

def Request.method (r : Request) : List UInt8 := (split_req_line r.line).1

def Request.target (r : Request) : List UInt8 := (split_req_line r.line).2

def length_key : List UInt8 := ascii "Content-Length:"

/-- A header field that gives the length of the body. -/
def Field.is_length (f : Field) : Bool := f.name.map tolower = ascii "content-length"

/-- A decimal number, with blanks around it. -/
def Decimal (value : List UInt8) (n : Nat) : Prop :=
  ∃ left digits right, value = left ++ (digits ++ right) ∧ (∀ b ∈ left, b = 32 ∨ b = 9) ∧ (∀ b ∈ right, b = 32 ∨ b = 9) ∧
    digits ≠ [] ∧ digits.all isdigit ∧ n = digits.foldl (fun v c => v * 10 + (c.toNat - 48)) 0

/-- At most one field gives a length, and the body has it. -/
def Declares (fields : List Field) (n : Nat) : Prop :=
  ((∀ f ∈ fields, f.is_length = false) ∧ n = 0) ∨
    ∃ before f after, fields = before ++ f :: after ∧ f.is_length = true ∧ Decimal f.value n ∧
      ∀ f' ∈ before ++ after, f'.is_length = false

/-- A byte that does not end a line. -/
def InLine (b : UInt8) : Prop := b ≠ 13 ∧ b ≠ 10

instance (b : UInt8) : Decidable (InLine b) := inferInstanceAs (Decidable (_ ∧ _))

structure WellFormed (r : Request) : Prop where
  line : ∀ b ∈ r.line, InLine b
  name : ∀ f ∈ r.fields, ∀ b ∈ f.name, InLine b ∧ b ≠ 58
  value : ∀ f ∈ r.fields, ∀ b ∈ f.value, InLine b
  length : Declares r.fields r.body.length
  method : r.method ≠ []
  target : r.target ≠ []

theorem field_inLine {r : Request} (formed : WellFormed r) {f : Field} (member : f ∈ r.fields) : ∀ b ∈ f.text, b ≠ 13 := by
  intro b inside
  rcases List.mem_append.mp inside with in_name | in_value
  · exact (formed.name f member b in_name).1.1
  · rcases List.mem_cons.mp in_value with rfl | in_value
    · decide
    · exact (formed.value f member b in_value).1

/-- No blank line begins before the end of the header. The induction takes the fields one after
    the other, each as the line that the next one follows on. -/
theorem head_unbroken {line : List UInt8} {fields : List Field} (clean : ∀ b ∈ line, b ≠ 13)
    (fields_clean : ∀ f ∈ fields, ∀ b ∈ f.text, b ≠ 13) {i : Nat} (inside : i < (line ++ lines fields).length) (more : List UInt8) :
    (((line ++ lines fields) ++ more).drop i).take 4 ≠ blank_line := by
  have first {b : UInt8} {rest : List UInt8} (other : b ≠ 13) : (b :: rest).take 4 ≠ blank_line := by
    intro same
    exact other (List.cons.inj same).1
  induction fields generalizing line i with
  | nil =>
    simp only [lines, List.flatMap_nil, List.append_nil] at inside ⊢
    rw [List.drop_append_of_le_length (Nat.le_of_lt inside), List.drop_eq_getElem_cons inside]
    exact first (clean _ (List.getElem_mem inside))
  | cons f rest ih =>
    have split : line ++ lines (f :: rest) = line ++ (13 :: 10 :: (f.text ++ lines rest)) := by simp [lines]
    rw [split] at inside ⊢
    by_cases in_line : i < line.length
    · rw [List.append_assoc, List.drop_append_of_le_length (Nat.le_of_lt in_line), List.drop_eq_getElem_cons in_line]
      exact first (clean _ (List.getElem_mem in_line))
    · obtain ⟨k, rfl⟩ := Nat.exists_eq_add_of_le (Nat.not_lt.mp in_line)
      rw [List.append_assoc, List.drop_length_add_append]
      match k with
      | 0 =>
        intro same
        have clean_text := fields_clean f (by simp)
        cases text : f.text with
        | nil => simp [Field.text] at text
        | cons b bytes =>
          rw [text] at same
          have third : b = 13 := (List.cons.inj (List.cons.inj (List.cons.inj same).2).2).1
          exact clean_text b (by simp [text]) third
      | 1 => exact first (by decide)
      | k + 2 =>
        simp only [List.cons_append, List.drop_succ_cons]
        refine ih (fields_clean f (by simp)) (fun f' member => fields_clean f' (by simp [member])) ?_
        simp only [List.length_append, List.length_cons] at inside ⊢
        omega

section
variable {r : Request} (formed : WellFormed r)
include formed

theorem request_unbroken {i : Nat} (inside : i < r.head.length) (more : List UInt8) :
    ((r.head ++ more).drop i).take 4 ≠ blank_line :=
  head_unbroken (fun b member => (formed.line b member).1) (fun _ member => field_inLine formed member) inside more

theorem find_hdr_end_complete (more : List UInt8) : find_hdr_end (r.head ++ (blank_line ++ more)) = some r.head.length := by
  unfold find_hdr_end
  rw [List.find?_range_eq_some]
  refine ⟨?_, ?_, fun i before => ?_⟩
  · simp [blank_line]
  · simp only [List.mem_range, List.length_append, blank_line, List.length_cons, List.length_nil]
    omega
  · rw [Bool.not_eq_true', decide_eq_false_iff_not]
    exact request_unbroken formed before (blank_line ++ more)

theorem find_hdr_end_partial {rx : List UInt8} (part : rx <+: r.head ++ blank_line) (short : rx.length < r.head.length + 4) :
    find_hdr_end rx = none := by
  obtain ⟨rest, whole⟩ := part
  unfold find_hdr_end
  rw [List.find?_range_eq_none]
  intro i within
  have unbroken := request_unbroken formed (i := i) (by omega) blank_line
  rw [← whole, List.drop_append_of_le_length (by omega), List.take_append_of_le_length (by simp; omega)] at unbroken
  simpa [blank_line] using unbroken

end

theorem word_takeWhile (word rest : List UInt8) :
    (word ++ 13 :: rest).takeWhile (!is_blank ·) = word.takeWhile (!is_blank ·) := by
  have none_after : (13 :: rest).takeWhile (!is_blank ·) = [] := by simp [is_blank]
  rw [List.takeWhile_append, none_after, List.append_nil]
  split
  · rename_i all
    exact ((List.takeWhile_prefix _).eq_of_length all).symm
  · rfl

theorem dropWhile_left {p : UInt8 → Bool} {word : List UInt8} (rest : List UInt8) (some_left : word.dropWhile p ≠ []) :
    (word ++ rest).dropWhile p = word.dropWhile p ++ rest := by
  rw [List.dropWhile_append, if_neg]
  simpa using some_left

/-- A line with both words is read alike wherever it stands. -/
theorem split_req_line_append {line : List UInt8} (method : (split_req_line line).1 ≠ []) (target : (split_req_line line).2 ≠ [])
    (rest : List UInt8) : split_req_line (line ++ 13 :: rest) = split_req_line line := by
  have cut : cstr (line ++ 13 :: rest) = cstr line ∨ cstr (line ++ 13 :: rest) = cstr line ++ 13 :: cstr rest := by
    unfold cstr
    rw [List.takeWhile_append]
    split
    · rename_i all
      right
      rw [(List.takeWhile_prefix _).eq_of_length all]
      simp
    · exact .inl rfl
  unfold split_req_line at method target ⊢
  rcases cut with same | longer
  · rw [same]
  · rw [longer]
    simp only at method target ⊢
    generalize cstr line = text at method target ⊢
    generalize cstr rest = others
    have first : text.dropWhile is_blank ≠ [] := by
      intro none_left
      simp [none_left] at method
    rw [dropWhile_left _ first]
    generalize text.dropWhile is_blank = words at method target ⊢
    have second : words.dropWhile (!is_blank ·) ≠ [] := by
      intro none_left
      simp [none_left] at target
    rw [word_takeWhile, dropWhile_left _ second]
    generalize words.dropWhile (!is_blank ·) = after at target ⊢
    have third : after.dropWhile is_blank ≠ [] := by
      intro none_left
      simp [none_left] at target
    rw [dropWhile_left _ third, word_takeWhile]

/-- A key stands at `k` in the header, with something after it. -/
def Occurs (key text : List UInt8) (k : Nat) : Prop :=
  k < text.length - key.length ∧ ((text.drop k).take key.length).map tolower = key.map tolower

theorem hdr_find_append (text more key : List UInt8) : hdr_find (text ++ more) text.length key = hdr_find text text.length key := by
  unfold hdr_find
  rw [← List.head?_filter, ← List.head?_filter, List.filter_congr]
  intro k within
  have within := List.mem_range.mp within
  rw [List.drop_append_of_le_length (by omega), List.take_append_of_le_length (by simp; omega)]

theorem hdr_find_none {key text : List UInt8} (nowhere : ∀ k, ¬ Occurs key text k) : hdr_find text text.length key = none := by
  unfold hdr_find
  rw [Option.map_eq_none_iff, List.find?_range_eq_none]
  intro k within
  simpa using fun same => nowhere k ⟨within, same⟩

theorem hdr_find_first {key text : List UInt8} {k : Nat} (here : Occurs key text k) (first : ∀ j, Occurs key text j → k ≤ j) :
    hdr_find text text.length key = some (k + key.length) := by
  unfold hdr_find
  rw [Option.map_eq_some_iff]
  refine ⟨k, ?_, rfl⟩
  rw [List.find?_range_eq_some]
  refine ⟨by simpa using here.2, List.mem_range.mpr here.1, fun j before => ?_⟩
  rw [Bool.not_eq_true', decide_eq_false_iff_not]
  intro same
  have later := first j ⟨Nat.lt_trans before here.1, same⟩
  omega

theorem blank_isspace {b : UInt8} (blank : b = 32 ∨ b = 9) : isspace b = true ∧ isdigit b = false ∧ b ≠ 0 := by
  rcases blank with rfl | rfl <;> decide

/-- What `strtoul` makes of a decimal number that a line ends with. -/
theorem strtoul_value_decimal {value : List UInt8} {n : Nat} (decimal : Decimal value n) (rest : List UInt8) :
    strtoul_value (cstr (value ++ 13 :: rest)) = min n ULONG_MAX := by
  obtain ⟨left, digits, right, rfl, left_blank, right_blank, some_digit, digit, rfl⟩ := decimal
  rw [List.all_eq_true] at digit
  have cut : cstr (left ++ (digits ++ right) ++ 13 :: rest) = left ++ (digits ++ (right ++ 13 :: cstr rest)) := by
    unfold cstr
    rw [List.takeWhile_append_of_pos]
    · simp
    · intro b member
      simp only [List.mem_append] at member
      have nonzero : b ≠ 0 := by
        rcases member with in_left | in_digits | in_right
        · exact (blank_isspace (left_blank b in_left)).2.2
        · rintro rfl
          exact absurd (digit 0 in_digits) (by decide)
        · exact (blank_isspace (right_blank b in_right)).2.2
      simpa using nonzero
  have behind : (right ++ 13 :: cstr rest).takeWhile isdigit = [] := by
    cases right with
    | nil => simp [isdigit]
    | cons b bytes => simp [(blank_isspace (right_blank b (by simp))).2.1]
  obtain ⟨d, ds, rfl⟩ := List.exists_cons_of_ne_nil some_digit
  rw [cut]
  exact strtoul_value_digits (fun b member => (blank_isspace (left_blank b member)).1) digit behind

/-- Where the name of the field that gives the length begins. -/
def Request.LengthAt (r : Request) (k : Nat) : Prop :=
  ∃ before f after, r.fields = before ++ f :: after ∧ f.is_length = true ∧ k = (r.line ++ lines before).length + 2

/-- A request that hands the connection to the WebSocket session. -/
def Request.Upgrades (r : Request) : Prop :=
  r.method = ascii "GET" ∧ (split_query r.target).1 = ascii "/ws" ∧
    (hdr_find r.head r.head.length (ascii "Upgrade: websocket")).isSome

/-- A request that the server reads as it is meant: one with `GET` has no body, a body that is too
    large still is in the 16 bits that are kept of its length, and the key of the length does not
    stand before the field. -/
structure Plain (r : Request) : Prop where
  get : r.method = ascii "GET" → r.body.length ≤ 128 → r.body = []
  large : 128 < r.body.length → 128 < min r.body.length ULONG_MAX % 2^16
  first : ∀ k, Occurs length_key r.head k → ∃ j, r.LengthAt j ∧ j ≤ k

/-- The connection is to be closed after the response. -/
def Request.closes (r : Request) : Bool := (hdr_find r.head r.head.length (ascii "Connection: close")).isSome

def Request.read (r : Request) : Head where
  content_len := min r.body.length ULONG_MAX % 2^16
  cli_close := r.closes
  body_off := r.head.length + 4

/-- What a round makes of a request whose header is there. -/
def Request.turn (r : Request) : Turn :=
  if 128 < r.body.length then .refuse (some r.read) "body too large" true
  else if r.method ≠ ascii "GET" then .body r.read
  else .dispatch (some r.read) r.method (split_query r.target).1 (split_query r.target).2 []

theorem head_split {r : Request} {before after : List Field} {f : Field} (split : r.fields = before ++ f :: after) :
    r.head = (r.line ++ lines before) ++ 13 :: 10 :: (f.text ++ lines after) := by
  simp [Request.head, split, lines]

theorem length_key_length : length_key.length = 15 := by decide

theorem name_length {f : Field} (is_length : f.is_length = true) : f.name.length = 14 := by
  have same : f.name.map tolower = ascii "content-length" := by simpa [Field.is_length] using is_length
  simpa [ascii] using congrArg List.length same

section
variable {r : Request} {before after : List Field} {f : Field} (split : r.fields = before ++ f :: after)
include split

theorem drop_length_name : r.head.drop ((r.line ++ lines before).length + 2) = f.name ++ 58 :: (f.value ++ lines after) := by
  rw [head_split split, List.drop_length_add_append]
  simp [Field.text]

variable (is_length : f.is_length = true)
include is_length

theorem drop_length_value : r.head.drop ((r.line ++ lines before).length + 2 + 15) = f.value ++ lines after := by
  rw [← List.drop_drop, drop_length_name split]
  have fifteen : 15 = f.name.length + 1 := by rw [name_length is_length]
  rw [fifteen, List.drop_length_add_append]
  rfl

theorem length_occurs (some_value : f.value ≠ []) : Occurs length_key r.head ((r.line ++ lines before).length + 2) := by
  have same : f.name.map tolower = ascii "content-length" := by simpa [Field.is_length] using is_length
  have positive := List.length_pos_iff.mpr some_value
  constructor
  · have total := congrArg List.length (drop_length_value split is_length)
    rw [List.length_drop, @List.length_append _ f.value] at total
    rw [length_key_length]
    omega
  · have fifteen : length_key.length = f.name.length + 1 := by rw [name_length is_length, length_key_length]
    rw [drop_length_name split, fifteen, List.take_length_add_append, List.map_append, same]
    rfl

end

/-- The only field that gives a length comes first. -/
theorem lengthAt_first {r : Request} {before after : List Field} {f : Field} (split : r.fields = before ++ f :: after)
    (alone : ∀ f' ∈ before ++ after, f'.is_length = false) {j : Nat} (at_j : r.LengthAt j) :
    (r.line ++ lines before).length + 2 ≤ j := by
  obtain ⟨before', f', after', split', is_length, rfl⟩ := at_j
  rw [split, List.append_eq_append_iff] at split'
  rcases split' with ⟨extra, rfl, -⟩ | ⟨extra, rfl, tails⟩
  · simp [lines]
  · cases extra with
    | nil => simp
    | cons g more =>
      obtain rfl : f' = g := (List.cons.inj tails).1
      have other := alone f' (by simp)
      simp [is_length] at other

theorem content_len_request {r : Request} (formed : WellFormed r) (plain : Plain r) (rest : List UInt8) :
    (match hdr_find r.head r.head.length length_key with
      | some off => strtoul_value (cstr ((r.head ++ 13 :: rest).drop off)) % 2^16
      | none => 0) = min r.body.length ULONG_MAX % 2^16 := by
  rcases formed.length with ⟨none_given, empty⟩ | ⟨before, f, after, split, is_length, decimal, alone⟩
  · rw [hdr_find_none, empty]
    · simp
    · intro k here
      obtain ⟨_, ⟨before, f, after, split, is_length, -⟩, -⟩ := plain.first k here
      have other := none_given f (by simp [split])
      simp [is_length] at other
  · have some_value : f.value ≠ [] := by
      obtain ⟨left, digits, right, value, -, -, some_digit, -⟩ := decimal
      simp [value, some_digit]
    have here := length_occurs split is_length some_value
    have first (j : Nat) (occurs : Occurs length_key r.head j) : (r.line ++ lines before).length + 2 ≤ j := by
      obtain ⟨j', at_j', below⟩ := plain.first j occurs
      exact Nat.le_trans (lengthAt_first split alone at_j') below
    have value : (r.head ++ 13 :: rest).drop ((r.line ++ lines before).length + 2 + length_key.length) =
        f.value ++ (lines after ++ 13 :: rest) := by
      rw [length_key_length, List.drop_append_of_le_length, drop_length_value split is_length, List.append_assoc]
      have within := here.1
      rw [length_key_length] at within
      omega
    rw [hdr_find_first here first]
    simp only [value]
    cases after with
    | nil => rw [show lines [] ++ 13 :: rest = 13 :: rest from rfl, strtoul_value_decimal decimal]
    | cons g more =>
      rw [show lines (g :: more) ++ 13 :: rest = 13 :: (10 :: (g.text ++ lines more) ++ 13 :: rest) by simp [lines],
        strtoul_value_decimal decimal]

section
variable {r : Request} {c : Conn} {more : List UInt8} (formed : WellFormed r)
include formed

/-- The words of the request line are read off the buffer. -/
theorem split_req_line_request (rx : c.rx = r.head ++ (blank_line ++ more)) :
    split_req_line (c.rx ++ c.tail) = (r.method, r.target) := by
  obtain ⟨rest, line_end⟩ : ∃ rest, c.rx ++ c.tail = r.line ++ 13 :: rest := by
    cases fields : r.fields with
    | nil => exact ⟨10 :: 13 :: 10 :: more ++ c.tail, by simp [rx, Request.head, fields, lines, blank_line]⟩
    | cons f others =>
      exact ⟨10 :: (f.text ++ lines others ++ blank_line ++ more ++ c.tail), by simp [rx, Request.head, fields, lines]⟩
  rw [line_end, split_req_line_append formed.method formed.target]
  rfl

variable (plain : Plain r)
include plain

theorem read_head_request (rx : c.rx = r.head ++ (blank_line ++ more)) : read_head c r.head.length = r.read := by
  have content_len := content_len_request formed plain (10 :: 13 :: 10 :: more ++ c.tail)
  have whole : r.head ++ (blank_line ++ more) ++ c.tail = r.head ++ 13 :: (10 :: 13 :: 10 :: more ++ c.tail) := by
    simp [blank_line]
  unfold read_head Request.read Request.closes
  rw [rx, hdr_find_append, hdr_find_append, whole, ← content_len]
  rfl

theorem turn_request (dispatched : ¬ r.Upgrades) (fresh : c.hdr_done = false) (rx : c.rx = r.head ++ (blank_line ++ more)) :
    turn c = r.turn := by
  have upgrade : hdr_find c.rx r.head.length (ascii "Upgrade: websocket") =
      hdr_find r.head r.head.length (ascii "Upgrade: websocket") := by rw [rx, hdr_find_append]
  have words : ¬ (r.method = [] ∨ r.target = []) := by simp [formed.method, formed.target]
  have large : r.read.content_len > 128 ↔ 128 < r.body.length := by
    constructor
    · intro read
      have below : r.read.content_len ≤ r.body.length := Nat.le_trans (Nat.mod_le _ _) (Nat.min_le_left _ _)
      omega
    · exact plain.large
  unfold turn head_turn Request.turn
  rw [if_pos (by simp [fresh]), rx, find_hdr_end_complete formed, ← rx]
  simp only [split_req_line_request formed rx, read_head_request formed plain rx, large, upgrade]
  rw [if_neg words]
  by_cases too_large : 128 < r.body.length
  · rw [if_pos too_large, if_pos too_large]
  rw [if_neg too_large, if_neg too_large]
  by_cases other : r.method ≠ ascii "GET"
  · rw [if_pos other, if_pos other]
  rw [if_neg other, if_neg other, if_neg fun upgrades => dispatched ⟨not_not.mp other, upgrades⟩]

omit plain

/-- A header that is not complete yet is waited for, or there is no room for it. -/
theorem turn_partial (fresh : c.hdr_done = false) (part : c.rx <+: r.head ++ blank_line) (short : c.rx.length < r.head.length + 4) :
    turn c = .wait ∨ turn c = .refuse none "header too large" false ∧ HTTP_RX_BUF ≤ r.head.length + 4 := by
  unfold turn
  rw [if_pos (by simp [fresh]), find_hdr_end_partial formed part short]
  simp only
  split
  · rename_i full
    unfold HTTP_RX_BUF at *
    exact .inr ⟨rfl, by omega⟩
  · exact .inl rfl

/-- The body is complete, or waited for. -/
theorem turn_body_request (headed : c.hdr_done = true) (off : c.body_off = r.head.length + 4) (len : c.content_len = r.body.length)
    (rx : c.rx = r.head ++ (blank_line ++ more)) :
    turn c = if r.body.length ≤ more.length then
        .dispatch none r.method (split_query r.target).1 (split_query r.target).2 (more.take r.body.length)
      else .wait := by
  have size : c.rx.length - c.body_off = more.length := by
    rw [rx, off, List.length_append, List.length_append, blank_line]
    simp only [List.length_cons, List.length_nil]
    omega
  have behind : c.rx.drop c.body_off = more := by
    rw [rx, off, List.drop_length_add_append]
    rfl
  unfold turn
  rw [if_neg (by simp [headed]), size, len, behind]
  simp only [split_req_line_request formed rx]

end

end IoEdgeHub.HttpRequests
