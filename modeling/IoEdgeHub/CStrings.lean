import Mathlib.Algebra.Group.Nat.Defs
import Mathlib.Data.List.Basic
import Mathlib.Data.List.GetD

/-!
Strings of C as the lists of their bytes, without the final zero, and the parts
of the C library that act on them. `unsigned long` has 32 bits.
-/
namespace IoEdgeHub.CStrings

/-- The bytes of a string literal. -/
def ascii (s : String) : List UInt8 := s.toList.map fun c => UInt8.ofNat c.toNat

/-- The characters of a string are looked at one after the other, not all that there are. -/
instance (priority := 2000) decidableCharacters {p : UInt8 → Prop} [DecidablePred p] (s : List UInt8) :
    Decidable (∀ c ∈ s, p c) := List.decidableBAll p s

/-- The string at a buffer: what stands before its first zero byte. -/
def cstr (buf : List UInt8) : List UInt8 := buf.takeWhile (· ≠ 0)

/-- The string in a buffer that holds the bytes of a text and a zero behind them. -/
theorem cstr_eq {m : Nat → UInt8} {text : List UInt8} {size : Nat} (bytes : ∀ i < text.length, m i = text.getD i 0)
    (zero : m text.length = 0) (fits : text.length < size) (nonzero : ∀ c ∈ text, c ≠ 0) :
    cstr ((List.range size).map m) = text := by
  obtain ⟨rest, rfl⟩ : ∃ rest, size = text.length + (1 + rest) := ⟨size - text.length - 1, by omega⟩
  have front : (List.range text.length).map m = text := by
    refine List.ext_getElem (by simp) ?_
    intro i _ inside
    rw [List.getElem_map, List.getElem_range, bytes i inside, List.getD_eq_getElem _ _ inside]
  have contents : (List.range (text.length + (1 + rest))).map m =
      text ++ 0 :: (List.range rest).map fun i => m (text.length + (1 + i)) := by
    rw [List.range_add, List.map_append, front, Nat.add_comm 1 rest, List.range_succ_eq_map]
    simp [Function.comp_def, zero, Nat.add_comm 1]
  rw [contents, cstr, List.takeWhile_append_of_pos (fun c member => decide_eq_true (nonzero c member))]
  simp

/-- What `snprintf` leaves in a buffer of `size` bytes. -/
def clip (size : Nat) (text : List UInt8) : List UInt8 := text.take (size - 1)

def isspace (c : UInt8) : Bool := c = 32 || (9 ≤ c && c ≤ 13)

def isdigit (c : UInt8) : Bool := 48 ≤ c && c ≤ 57

theorem isdigit_bounds {b : UInt8} (digit : isdigit b = true) : 48 ≤ b.toNat ∧ b.toNat ≤ 57 := by
  simpa [isdigit, UInt8.le_iff_toNat_le] using digit

theorem isdigit_not_isspace {b : UInt8} (digit : isdigit b = true) : isspace b = false := by
  have bounds := isdigit_bounds digit
  simp only [isspace, Bool.or_eq_false_iff, Bool.and_eq_false_iff, decide_eq_false_iff_not, UInt8.le_iff_toNat_le, UInt8.ext_iff]
  simp only [UInt8.reduceToNat]
  omega

def toupper (c : UInt8) : UInt8 := if 97 ≤ c && c ≤ 122 then c - 32 else c

/-- `%u` -/
def decimal (n : Nat) : List UInt8 := (Nat.toDigits 10 n).map fun c => UInt8.ofNat c.toNat

/-- `%<width>u`, filled up on the left. -/
def padded (fill : UInt8) (width n : Nat) : List UInt8 :=
  List.replicate (width - (decimal n).length) fill ++ decimal n

/-- `%02d` -/
def two_digits (n : Nat) : List UInt8 := padded 48 2 n

def ULONG_MAX : Nat := 2^32 - 1

/-- The number at the start of a string and what follows it, nothing if there is no number. -/
def strtoul (s : List UInt8) : Option (Nat × List UInt8) :=
  let t := s.dropWhile isspace
  let negative := t.head? = some 45
  let u := if negative ∨ t.head? = some 43 then t.tail else t
  let digits := u.takeWhile isdigit
  let v := digits.foldl (fun v c => v * 10 + (c.toNat - 48)) 0
  if digits = [] then none
  else some (if v > ULONG_MAX then ULONG_MAX else if negative then (2^32 - v) % 2^32 else v, u.dropWhile isdigit)

/-- The number alone, 0 if there is none. -/
def strtoul_value (s : List UInt8) : Nat := ((strtoul s).map (·.1)).getD 0

/-- A number in front of something else; blanks before it are skipped. -/
theorem strtoul_value_digits {blanks ds rest : List UInt8} {d : UInt8} (blank : ∀ c ∈ blanks, isspace c = true)
    (digits : ∀ c ∈ d :: ds, isdigit c = true) (ends : rest.takeWhile isdigit = []) :
    strtoul_value (blanks ++ (d :: ds ++ rest)) = min ((d :: ds).foldl (fun v c => v * 10 + (c.toNat - 48)) 0) ULONG_MAX := by
  have start : (blanks ++ (d :: ds ++ rest)).dropWhile isspace = d :: ds ++ rest := by
    rw [List.dropWhile_append_of_pos blank, List.cons_append,
      List.dropWhile_cons_of_neg (by simp [isdigit_not_isspace (digits d List.mem_cons_self)])]
  have number : (d :: ds ++ rest).takeWhile isdigit = d :: ds := by
    rw [List.takeWhile_append_of_pos digits, ends, List.append_nil]
  have unsigned : d ≠ 45 ∧ d ≠ 43 := by
    have bounds := isdigit_bounds (digits d List.mem_cons_self)
    constructor <;> rintro rfl <;> simp at bounds
  unfold strtoul_value strtoul
  simp only [start]
  simp only [List.cons_append] at number ⊢
  simp only [List.head?_cons, Option.some.injEq, unsigned, or_self, if_false, number, reduceCtorEq, Option.map_some,
    Option.getD_some]
  split
  · rename_i large
    exact (Nat.min_eq_right (Nat.le_of_lt large)).symm
  · rename_i small
    exact (Nat.min_eq_left (Nat.not_lt.mp small)).symm

def LONG_MAX : Nat := 2^31 - 1

/-- The value of a digit in the bases up to 16. -/
def digit_value (c : UInt8) : Option Nat :=
  if isdigit c then some (c.toNat - 48)
  else if 97 ≤ c && c ≤ 102 then some (c.toNat - 87)
  else if 65 ≤ c && c ≤ 70 then some (c.toNat - 55)
  else none

def isdigit_of (base : Nat) (c : UInt8) : Bool := (digit_value c).any (· < base)

/-- The base of a numeral as its first characters give it, and where its digits begin. -/
def numeral_base (u : List UInt8) : Nat × List UInt8 :=
  if u.head? = some 48 then
    if (u.tail.head? = some 120 ∨ u.tail.head? = some 88) ∧ (u.drop 2).head?.any (isdigit_of 16) then (16, u.drop 2)
    else (8, u)
  else (10, u)

/-- The number that digits of the base make. -/
def digits_value (base : Nat) (digits : List UInt8) : Nat :=
  digits.foldl (fun v c => v * base + (digit_value c).getD 0) 0

/-- A `long` of 32 bits holds no more. -/
def saturate (negative : Bool) (n : Nat) : Int :=
  if negative then -(min n (LONG_MAX + 1) : Nat) else (min n LONG_MAX : Nat)

/-- Whether there is a minus, and what stands behind the sign. -/
def sign (t : List UInt8) : Bool × List UInt8 :=
  (t.head? = some 45, if t.head? = some 45 ∨ t.head? = some 43 then t.tail else t)

/-- The number that a numeral without its sign makes, nothing if there is none. -/
def numeral (negative : Bool) (u : List UInt8) : Option Int :=
  let base := (numeral_base u).1
  let digits := (numeral_base u).2.takeWhile (isdigit_of base)
  if digits = [] then none else some (saturate negative (digits_value base digits))

/-- The number at the start of a string, in the base 0 of `strtol`. -/
def strtol (s : List UInt8) : Option Int :=
  let signed := sign (s.dropWhile isspace)
  numeral signed.1 signed.2

/-- What stands before the first `c`, and what stands after it. -/
def strchr (c : UInt8) (s : List UInt8) : Option (List UInt8 × List UInt8) :=
  if c ∈ s then some (s.takeWhile (· ≠ c), (s.dropWhile (· ≠ c)).tail) else none

end IoEdgeHub.CStrings
