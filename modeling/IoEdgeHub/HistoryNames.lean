import IoEdgeHub.Ftpd
import IoEdgeHub.HistoryFile

/-!
The names of the recorder's files as the FTP server reads them. `make_hist_name` writes
the month and the day as four digits that stand together; `parse_hist_time` reads a
field of two digits with all the digits that follow it. The month of every name is then
at least 101, and no name gives back its time.
-/
namespace IoEdgeHub.HistoryNames
open IoEdgeHub.Calls IoEdgeHub.Clock IoEdgeHub.CStrings IoEdgeHub.Ftpd IoEdgeHub.HistoryFile

/-- The two digits of a number, and what they are worth. -/
theorem two_digits_facts {n : Nat} (small : n < 100) : ∃ c d : UInt8, two_digits n = [c, d] ∧
    isdigit c = true ∧ isdigit d = true ∧ (c.toNat - 48) * 10 + (d.toNat - 48) = n := by
  have all : ∀ n < 100, ∃ c d : UInt8, two_digits n = [c, d] ∧ isdigit c = true ∧ isdigit d = true ∧
      (c.toNat - 48) * 10 + (d.toNat - 48) = n := by
    intro n small
    refine ⟨UInt8.ofNat (48 + n / 10), UInt8.ofNat (48 + n % 10), ?_⟩
    revert n
    decide
  exact all n small

/-- Two fields that stand together are read as one number. -/
theorem hist_field_two {m n : Nat} (m_small : m < 100) (n_small : n < 100) {rest : List UInt8}
    (ends : rest.takeWhile isdigit = []) :
    hist_field (two_digits m ++ (two_digits n ++ rest)) = some (m * 100 + n, two_digits n ++ rest) := by
  obtain ⟨a, b, first, a_digit, b_digit, m_value⟩ := two_digits_facts m_small
  obtain ⟨c, d, second, c_digit, d_digit, n_value⟩ := two_digits_facts n_small
  have digits : ∀ x ∈ a :: [b, c, d], isdigit x = true := by simp [a_digit, b_digit, c_digit, d_digit]
  have value := @strtoul_value_digits [] [b, c, d] rest a (by simp) digits ends
  have worth : ([a, b, c, d]).foldl (fun v x => v * 10 + (x.toNat - 48)) 0 = m * 100 + n := by
    simp only [List.foldl_cons, List.foldl_nil]
    omega
  rw [worth, Nat.min_eq_left (by rw [show ULONG_MAX = 4294967295 from rfl]; omega)] at value
  rw [first, second]
  unfold hist_field
  rw [if_pos (by simp [a_digit, b_digit])]
  exact congrArg (fun v => some (v, [c, d] ++ rest)) value

/-- A name whose month is too large is not read. -/
theorem parse_hist_time_none {rest tail : List UInt8} {v : Nat} (field : hist_field rest = some (v, tail)) (large : v > 12) :
    parse_hist_time (ascii "data_" ++ rest) = none := by
  have start : (ascii "data_" ++ rest).take 5 = ascii "data_" := List.take_left' rfl
  have behind : (ascii "data_" ++ rest).drop 5 = rest := List.drop_left' rfl
  rw [parse_hist_time, if_pos start, behind, field]
  simp only [Option.bind_eq_bind, Option.bind_some]
  rw [Option.bind_eq_none_iff]
  intro second _
  rw [Option.bind_eq_none_iff]
  intro third _
  rw [Option.bind_eq_none_iff]
  intro fourth _
  exact if_pos (.inr (.inl large))

theorem clamp_mem {v lo hi : Nat} (range : lo ≤ hi) : lo ≤ CLAMP v lo hi ∧ CLAMP v lo hi ≤ hi := by
  refine ⟨?_, clamp_le range⟩
  unfold CLAMP
  split
  · exact le_refl lo
  · split <;> omega

/-- The fields that a name is made of. -/
def name_time (lt : Tm) : HistTime where
  mon := CLAMP (lt.tm_mon + 1) 1 12
  day := CLAMP lt.tm_mday 1 31
  hour := CLAMP lt.tm_hour 0 23
  min := CLAMP lt.tm_min 0 59

/-- No clock gives a file a name that is read back: the listing shows the time at which it is
    made, as for any other file. -/
theorem hist_time_never (now : Int) (lt : Tm) (split : gmtime_r (now + 8 * 3600) = some lt) :
    parse_hist_time (make_hist_name now) ≠ some (name_time lt) ∧
      format_ls_time (make_hist_name now) = format_ls_time [] := by
  obtain ⟨mon_lo, mon_hi⟩ := @clamp_mem (lt.tm_mon + 1) 1 12 (by decide)
  obtain ⟨-, day_hi⟩ := @clamp_mem lt.tm_mday 1 31 (by decide)
  have unread : parse_hist_time (make_hist_name now) = none := by
    rw [make_hist_name, split]
    simp only [List.append_assoc]
    refine parse_hist_time_none (hist_field_two (by omega) (by omega) (by rfl)) ?_
    omega
  have other : parse_hist_time [] = none := by decide
  refine ⟨by simp [unread], ?_⟩
  unfold format_ls_time
  rw [unread, other]

/-- The second of January 2026. -/
theorem january_unread : parse_hist_time (make_hist_name 1767294245) ≠ some (name_time ⟨126, 0, 2, 3, 4, 5⟩) ∧
    format_ls_time (make_hist_name 1767294245) = format_ls_time [] :=
  hist_time_never 1767294245 ⟨126, 0, 2, 3, 4, 5⟩ (by decide)

/-- Names do not decode to the time that they were made from. -/
theorem names_not_decoded : ¬ ∀ (now : Int) (lt : Tm), gmtime_r (now + 8 * 3600) = some lt →
    parse_hist_time (make_hist_name now) = some (name_time lt) := by
  intro claim
  have decoded := claim 1767294245 ⟨126, 0, 2, 3, 4, 5⟩ (by decide)
  revert decoded
  decide

end IoEdgeHub.HistoryNames
