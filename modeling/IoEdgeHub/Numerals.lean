import Mathlib.Data.List.TakeWhile
import Mathlib.Tactic.IntervalCases
import IoEdgeHub.CStrings

/-!
Numbers in texts: `strtol` reads the decimal form of a number back (`strtol_signed`), as far
as a `long` holds it, and what it reads does not depend on what follows (`strtol_append`)
unless the string breaks off inside a number (`strtol_one`).
-/
namespace IoEdgeHub.Numerals
open IoEdgeHub.CStrings

section
variable {d n : Nat}

/-- The character of a digit. -/
def digit (d : Nat) : UInt8 := UInt8.ofNat (48 + d)

theorem digit_facts (small : d < 10) :
    isdigit (digit d) = true ∧ digit_value (digit d) = some d ∧ (digit d = 48 ↔ d = 0) := by
  interval_cases d <;> decide

theorem digit_char (small : d < 10) : UInt8.ofNat (Nat.digitChar d).toNat = digit d := by
  interval_cases d <;> rfl

theorem decimal_small (small : n < 10) : decimal n = [digit n] := by
  rw [decimal, Nat.toDigits_of_lt_base small, List.map_singleton, digit_char small]

/-- The last digit stands behind those of the tenth. -/
theorem decimal_step (large : 10 ≤ n) : decimal n = decimal (n / 10) ++ [digit (n % 10)] := by
  rw [decimal, Nat.toDigits_of_base_le (by decide) large, List.map_append, List.map_singleton,
    digit_char (Nat.mod_lt n (by decide))]
  rfl

theorem digits_value_concat (base : Nat) (ds : List UInt8) (c : UInt8) :
    digits_value base (ds ++ [c]) = digits_value base ds * base + (digit_value c).getD 0 := by
  rw [digits_value, List.foldl_append]
  rfl

/-- The digits of a number are digits, give it back, and begin with a zero for zero only. -/
theorem decimal_digits (n : Nat) :
    (∀ c ∈ decimal n, isdigit c = true) ∧ digits_value 10 (decimal n) = n
      ∧ ∃ c ds, decimal n = c :: ds ∧ (c = 48 ↔ n = 0) := by
  induction n using Nat.strongRecOn with
  | ind n ih =>
    by_cases small : n < 10
    · obtain ⟨is_digit, value, zero⟩ := digit_facts small
      rw [decimal_small small]
      refine ⟨?_, ?_, digit n, [], rfl, zero⟩
      · intro c member
        rwa [List.mem_singleton.mp member]
      · rw [← List.nil_append [digit n], digits_value_concat, value]
        exact Nat.zero_add n
    · have large : 10 ≤ n := Nat.not_lt.mp small
      obtain ⟨is_digit, value, -⟩ := digit_facts (Nat.mod_lt n (by decide : 10 > 0))
      obtain ⟨all_digits, tenth, c, ds, shape, zero⟩ := ih (n / 10) (by omega)
      rw [decimal_step large]
      refine ⟨?_, ?_, c, ds ++ [digit (n % 10)], ?_, ?_⟩
      · intro c member
        rcases List.mem_append.mp member with earlier | last
        · exact all_digits c earlier
        · rwa [List.mem_singleton.mp last]
      · rw [digits_value_concat, value, tenth, Option.getD_some]
        omega
      · rw [shape, List.cons_append]
      · rw [zero]
        omega

end

theorem isdigit_of_ten (c : UInt8) : isdigit_of 10 c = isdigit c := by
  rw [isdigit_of, digit_value]
  split
  case isTrue is_digit =>
    have bounds := isdigit_bounds is_digit
    rw [is_digit, Option.any_some, decide_eq_true_iff]
    omega
  case isFalse not_digit =>
    rw [Bool.not_eq_true] at not_digit
    rw [not_digit]
    split_ifs with small capital
    · simp only [Bool.and_eq_true, decide_eq_true_eq, UInt8.le_iff_toNat_le, UInt8.reduceToNat] at small
      rw [Option.any_some, decide_eq_false_iff_not]
      omega
    · simp only [Bool.and_eq_true, decide_eq_true_eq, UInt8.le_iff_toNat_le, UInt8.reduceToNat] at capital
      rw [Option.any_some, decide_eq_false_iff_not]
      omega
    · rfl

/-- The digits of a base are digits of every larger one. -/
theorem isdigit_of_mono {small large : Nat} (order : small ≤ large) {c : UInt8} (is_digit : isdigit_of small c = true) :
    isdigit_of large c = true := by
  rw [isdigit_of, Option.any_eq_true] at is_digit ⊢
  obtain ⟨v, value, inside⟩ := is_digit
  rw [decide_eq_true_iff] at inside
  exact ⟨v, value, decide_eq_true (Nat.lt_of_lt_of_le inside order)⟩

/-- The decimal form of a number. -/
def signed (negative : Bool) (n : Nat) : List UInt8 := (if negative then [45] else []) ++ decimal n

theorem signed_first (negative : Bool) (n : Nat) (rest : List UInt8) :
    ∃ c tail, signed negative n ++ rest = c :: tail ∧ (c = 45 ∨ isdigit c = true) := by
  obtain ⟨all_digits, -, c, ds, shape, -⟩ := decimal_digits n
  cases negative with
  | true => exact ⟨45, _, rfl, .inl rfl⟩
  | false =>
    refine ⟨c, ds ++ rest, ?_, .inr (all_digits c (shape ▸ List.mem_cons_self))⟩
    rw [signed, shape]
    rfl

/-- What can stand behind a numeral and does not belong to it. -/
def Ends (rest : List UInt8) : Prop := ∀ c, rest.head? = some c → isdigit c = false ∧ c ≠ 120 ∧ c ≠ 88

theorem takeWhile_ends {rest : List UInt8} (ends : Ends rest) : rest.takeWhile isdigit = [] := by
  cases rest with
  | nil => rfl
  | cons c rest => rw [List.takeWhile_cons_of_neg (Bool.not_eq_true _ ▸ (ends c rfl).1)]

theorem numeral_decimal (negative : Bool) (n : Nat) {rest : List UInt8} (ends : Ends rest) :
    numeral negative (decimal n ++ rest) = some (saturate negative n) := by
  obtain ⟨all_digits, value, c, ds, shape, zero⟩ := decimal_digits n
  by_cases is_zero : n = 0
  · subst is_zero
    have base : numeral_base (48 :: rest) = (8, 48 :: rest) := by
      rw [numeral_base, if_pos List.head?_cons, if_neg]
      rintro ⟨hex, -⟩
      rcases hex with small | capital
      · exact (ends 120 small).2.1 rfl
      · exact (ends 88 capital).2.2 rfl
    have digits : (48 :: rest).takeWhile (isdigit_of 8) = [48] := by
      rw [List.takeWhile_cons_of_pos (by decide)]
      cases rest with
      | nil => rfl
      | cons b rest =>
        rw [List.takeWhile_cons_of_neg]
        intro octal
        have is_digit := isdigit_of_mono (by decide : 8 ≤ 10) octal
        rw [isdigit_of_ten, (ends b rfl).1] at is_digit
        cases is_digit
    have zero_text : decimal 0 = [48] := rfl
    rw [zero_text, List.singleton_append, numeral, base, digits, if_neg (List.cons_ne_nil _ _)]
    rfl
  · have base : numeral_base (decimal n ++ rest) = (10, decimal n ++ rest) := by
      rw [numeral_base, if_neg]
      rw [shape, List.cons_append, List.head?_cons, Option.some.injEq, zero]
      exact is_zero
    have digits : (decimal n ++ rest).takeWhile (isdigit_of 10) = decimal n := by
      rw [funext isdigit_of_ten, List.takeWhile_append_of_pos all_digits, takeWhile_ends ends, List.append_nil]
    rw [numeral, base, digits, value, if_neg]
    rw [shape]
    exact List.cons_ne_nil c ds

section
variable {c : UInt8} {s : List UInt8}

/-- A string that begins with neither white space nor a sign. -/
theorem sign_plain (dark : isspace c = false) (no_sign : c ≠ 45 ∧ c ≠ 43) :
    sign ((c :: s).dropWhile isspace) = (false, c :: s) := by
  obtain ⟨no_minus, no_plus⟩ := no_sign
  rw [List.dropWhile_cons_of_neg (Bool.not_eq_true _ ▸ dark)]
  simp only [sign, List.head?_cons, Option.some.injEq, no_minus, no_plus, or_self, if_false, decide_false]

theorem numeral_base_ten (not_zero : c ≠ 48) : numeral_base (c :: s) = (10, c :: s) := by
  rw [numeral_base, if_neg]
  intro zero
  exact not_zero (Option.some.inj zero)

end

theorem strtol_signed (negative : Bool) (n : Nat) {rest : List UInt8} (ends : Ends rest) :
    strtol (signed negative n ++ rest) = some (saturate negative n) := by
  cases negative with
  | true =>
    have start : (signed true n ++ rest).dropWhile isspace = 45 :: (decimal n ++ rest) := rfl
    rw [strtol, start]
    exact numeral_decimal true n ends
  | false =>
    obtain ⟨all_digits, -, c, ds, shape, -⟩ := decimal_digits n
    have is_digit : isdigit c = true := all_digits c (shape ▸ List.mem_cons_self)
    have no_sign : c ≠ 45 ∧ c ≠ 43 := by
      constructor <;> rintro rfl <;> exact absurd is_digit (by decide)
    have number := numeral_decimal false n ends
    rw [shape] at number
    rw [signed, shape, strtol]
    exact (congrArg (fun t : Bool × List UInt8 => numeral t.1 t.2)
      (sign_plain (isdigit_not_isspace is_digit) no_sign)).trans number

/-- There is no number where there is no sign and no digit. -/
theorem strtol_none {c : UInt8} {s : List UInt8} (dark : isspace c = false)
    (other : c ≠ 45 ∧ c ≠ 43 ∧ isdigit c = false) : strtol (c :: s) = none := by
  obtain ⟨no_minus, no_plus, no_digit⟩ := other
  have not_zero : c ≠ 48 := by
    rintro rfl
    cases no_digit
  have digits : (c :: s).takeWhile (isdigit_of 10) = [] := by
    rw [List.takeWhile_cons_of_neg]
    rw [isdigit_of_ten, no_digit]
    exact Bool.false_ne_true
  rw [strtol, sign_plain dark ⟨no_minus, no_plus⟩, numeral, numeral_base_ten not_zero, digits, if_pos rfl]

section
variable {u : List UInt8}

/-- More characters leave the base of a numeral as it is, unless they decide it. -/
theorem numeral_base_append (some_ : u ≠ []) (decided : u ≠ ascii "0" ∧ u ≠ ascii "0x" ∧ u ≠ ascii "0X")
    (after : List UInt8) : numeral_base (u ++ after) = ((numeral_base u).1, (numeral_base u).2 ++ after) := by
  obtain ⟨not_zero, not_hex, not_HEX⟩ := decided
  cases u with
  | nil => exact absurd rfl some_
  | cons c u =>
    by_cases zero : c = 48
    · subst zero
      cases u with
      | nil => exact absurd rfl not_zero
      | cons x u =>
        cases u with
        | nil =>
          have no_x : x ≠ 120 := fun same => not_hex (same ▸ rfl)
          have no_X : x ≠ 88 := fun same => not_HEX (same ▸ rfl)
          simp [numeral_base, no_x, no_X]
        | cons h u =>
          simp only [numeral_base, List.cons_append, List.head?_cons, List.tail_cons, List.drop_succ_cons,
            List.drop_zero]
          split_ifs <;> rfl
    · simp [numeral_base, zero]

theorem numeral_base_large (u : List UInt8) : 1 < (numeral_base u).1 := by
  rw [numeral_base]
  split_ifs
  · exact (by decide : 1 < 16)
  · exact (by decide : 1 < 8)
  · exact (by decide : 1 < 10)

/-- More digits make no smaller number. -/
theorem digits_value_append {base : Nat} (large : 1 < base) (ds more : List UInt8) :
    digits_value base ds ≤ digits_value base (ds ++ more) := by
  induction more generalizing ds with
  | nil => rw [List.append_nil]
  | cons c more ih =>
    have step : digits_value base ds ≤ digits_value base (ds ++ [c]) := by
      rw [digits_value_concat]
      exact (Nat.le_mul_of_pos_right _ (Nat.lt_trans Nat.zero_lt_one large)).trans (Nat.le_add_right _ _)
    have rest := ih (ds ++ [c])
    rw [List.append_assoc] at rest
    exact step.trans rest

/-- From here on a `long` does not tell numbers apart. -/
def limit (negative : Bool) : Nat := if negative then LONG_MAX + 1 else LONG_MAX

theorem limit_pos (negative : Bool) : 0 < limit negative := by
  cases negative <;> decide

theorem saturate_eq_iff {negative : Bool} {m n : Nat} :
    saturate negative m = saturate negative n ↔ min m (limit negative) = min n (limit negative) := by
  cases negative with
  | true => exact Int.neg_inj.trans Int.ofNat_inj
  | false => exact Int.ofNat_inj

/-- A numeral without its sign to which more characters can still add: its base is not decided, or all of it are
    digits and the number is not too large. -/
def Open (negative : Bool) (u : List UInt8) : Prop :=
  u = ascii "0x" ∨ u = ascii "0X" ∨ (∀ c ∈ (numeral_base u).2, isdigit_of (numeral_base u).1 c = true)
    ∧ digits_value (numeral_base u).1 (numeral_base u).2 < limit negative

instance (negative : Bool) (u : List UInt8) : Decidable (Open negative u) :=
  inferInstanceAs (Decidable (_ ∨ _ ∨ _ ∧ _))

theorem open_nil (negative : Bool) : Open negative [] := by
  refine .inr (.inr ⟨?_, ?_⟩)
  · intro c member
    cases member
  · exact limit_pos negative

theorem open_zero (negative : Bool) : Open negative (ascii "0") :=
  .inr (.inr ⟨by decide, limit_pos negative⟩)

/-- A numeral that is not open is the same number whatever follows. -/
theorem numeral_append {negative : Bool} (settled : ¬ Open negative u) (after : List UInt8) :
    numeral negative (u ++ after) = numeral negative u := by
  have some_ : u ≠ [] := fun same => settled (same ▸ open_nil negative)
  have not_zero : u ≠ ascii "0" := fun same => settled (same ▸ open_zero negative)
  rw [numeral, numeral, numeral_base_append some_
    ⟨not_zero, fun same => settled (.inl same), fun same => settled (.inr (.inl same))⟩]
  generalize based : numeral_base u = b at *
  obtain ⟨base, digits⟩ := b
  have large : 1 < base := by
    have from_base := numeral_base_large u
    rwa [based] at from_base
  by_cases all_digits : ∀ c ∈ digits, isdigit_of base c = true
  · -- the digits go on, but the number is too large already
    have full : limit negative ≤ digits_value base digits := by
      refine Nat.not_lt.mp fun small => settled (.inr (.inr ?_))
      rw [based]
      exact ⟨all_digits, small⟩
    have more := digits_value_append large digits (after.takeWhile (isdigit_of base))
    have some_digits : digits ≠ [] := by
      rintro rfl
      exact absurd full (Nat.not_le.mpr (limit_pos negative))
    have all : digits.takeWhile (isdigit_of base) = digits := List.takeWhile_eq_self_iff.mpr all_digits
    simp only [List.takeWhile_append_of_pos all_digits, all]
    rw [if_neg some_digits, if_neg (List.append_ne_nil_of_left_ne_nil some_digits _), Option.some.injEq,
      saturate_eq_iff, Nat.min_eq_right full, Nat.min_eq_right (full.trans more)]
  · have stop : (digits ++ after).takeWhile (isdigit_of base) = digits.takeWhile (isdigit_of base) := by
      rw [List.takeWhile_append, if_neg]
      intro length
      exact all_digits (List.takeWhile_eq_self_iff.mp ((List.takeWhile_prefix _).eq_of_length length))
    simp only [stop]

/-- A one behind an open numeral makes another number. -/
theorem numeral_one {negative : Bool} (more : Open negative u) :
    numeral negative (u ++ [49]) ≠ numeral negative u := by
  by_cases undecided : u = [] ∨ u = ascii "0" ∨ u = ascii "0x" ∨ u = ascii "0X"
  · rcases undecided with rfl | rfl | rfl | rfl <;> cases negative <;> decide
  · simp only [not_or] at undecided
    obtain ⟨some_, decided⟩ := undecided
    rcases more with hex | HEX | ⟨all_digits, small⟩
    · exact absurd hex decided.2.1
    · exact absurd HEX decided.2.2
    · rw [numeral, numeral, numeral_base_append some_ decided]
      have large := numeral_base_large u
      generalize numeral_base u = b at *
      obtain ⟨base, digits⟩ := b
      have one : isdigit_of base 49 = true := decide_eq_true large
      have all : digits.takeWhile (isdigit_of base) = digits := List.takeWhile_eq_self_iff.mpr all_digits
      have all_and_one : (digits ++ [49]).takeWhile (isdigit_of base) = digits ++ [49] := by
        rw [List.takeWhile_append_of_pos all_digits, List.takeWhile_cons_of_pos one, List.takeWhile_nil]
      have larger : digits_value base digits < digits_value base (digits ++ [49]) := by
        rw [digits_value_concat]
        exact Nat.lt_succ_of_le (Nat.le_mul_of_pos_right _ (Nat.lt_trans Nat.zero_lt_one large))
      simp only [all, all_and_one, List.append_ne_nil_of_right_ne_nil _ (List.cons_ne_nil _ _), if_false]
      split_ifs
      · exact Option.some_ne_none _
      · intro same
        have least := saturate_eq_iff.mp (Option.some.inj same)
        have below : digits_value base digits < limit negative := small
        omega

theorem sign_append {t : List UInt8} (some_ : t ≠ []) (after : List UInt8) :
    sign (t ++ after) = ((sign t).1, (sign t).2 ++ after) := by
  cases t with
  | nil => exact absurd rfl some_
  | cons c t =>
    refine Prod.ext rfl ?_
    change (if some c = some 45 ∨ some c = some 43 then t ++ after else c :: (t ++ after))
      = (if some c = some 45 ∨ some c = some 43 then t else c :: t) ++ after
    split_ifs <;> rfl

/-- A string that ends in a number to which more characters can still add. -/
def Unfinished (s : List UInt8) : Prop := Open (sign (s.dropWhile isspace)).1 (sign (s.dropWhile isspace)).2

instance (s : List UInt8) : Decidable (Unfinished s) := inferInstanceAs (Decidable (Open _ _))

variable {s : List UInt8}

theorem strtol_append (settled : ¬ Unfinished s) (after : List UInt8) : strtol (s ++ after) = strtol s := by
  have some_ : s.dropWhile isspace ≠ [] := by
    intro blank
    rw [Unfinished, blank] at settled
    exact settled (open_nil false)
  have start : (s ++ after).dropWhile isspace = s.dropWhile isspace ++ after := by
    rw [List.dropWhile_append, if_neg (by simpa using some_)]
  rw [strtol, strtol, start, sign_append some_]
  exact numeral_append settled after

theorem strtol_one (more : Unfinished s) : strtol (s ++ [49]) ≠ strtol s := by
  by_cases blank : s.dropWhile isspace = []
  · have start : (s ++ [49]).dropWhile isspace = [49] := by
      rw [List.dropWhile_append, if_pos (by simpa using blank)]
      rfl
    rw [strtol, strtol, start, blank]
    decide
  · have start : (s ++ [49]).dropWhile isspace = s.dropWhile isspace ++ [49] := by
      rw [List.dropWhile_append, if_neg (by simpa using blank)]
    rw [strtol, strtol, start, sign_append blank]
    exact numeral_one more

/-- A string that does not begin like a number does not break off in one. -/
theorem unfinished_none {c : UInt8} (dark : isspace c = false) (other : c ≠ 45 ∧ c ≠ 43 ∧ isdigit c = false) :
    ¬ Unfinished (c :: s) := by
  obtain ⟨no_minus, no_plus, no_digit⟩ := other
  have not_zero : c ≠ 48 := by
    rintro rfl
    cases no_digit
  rw [Unfinished, sign_plain dark ⟨no_minus, no_plus⟩]
  rintro (hex | HEX | ⟨all_digits, -⟩)
  · exact not_zero (List.cons.inj hex).1
  · exact not_zero (List.cons.inj HEX).1
  · rw [numeral_base_ten not_zero] at all_digits
    have is_digit := all_digits c List.mem_cons_self
    rw [isdigit_of_ten, no_digit] at is_digit
    cases is_digit

end

end IoEdgeHub.Numerals
