import Mathlib.Data.List.Basic
import Mathlib.Data.List.Induction

/-!
Streams that are taken in blocks of one size. A machine with a buffer for one block takes
the items one at a time, or any number of them; whatever pieces a stream comes in, its
state is that of the whole blocks one after the other, and its buffer holds the rest.
-/
namespace IoEdgeHub.BlockStream
universe u v
variable {σ : Type u} {α : Type v} (size : Nat) (block : σ → List α → σ)

/-- The state behind the first blocks of a stream. -/
def chain (init : σ) (m : List α) : Nat → σ
  | 0 => init
  | i + 1 => block (chain init m i) ((m.drop (size * i)).take size)

/-- One more item: a full buffer is taken as a block. -/
def absorb (s : σ × List α) (x : α) : σ × List α :=
  if s.2.length + 1 = size then (block s.1 (s.2 ++ [x]), []) else (s.1, s.2 ++ [x])

def feed (s : σ × List α) (m : List α) : σ × List α := m.foldl (absorb size block) s

section
variable {size block} {s : σ × List α} {m n : List α} {init : σ} {i : Nat}

theorem feed_append (s : σ × List α) (m n : List α) : feed size block s (m ++ n) = feed size block (feed size block s m) n :=
  List.foldl_append

/-- Items that leave room in the buffer. -/
theorem feed_room (room : s.2.length + m.length < size) : feed size block s m = (s.1, s.2 ++ m) := by
  induction m generalizing s with
  | nil => rw [List.append_nil]; rfl
  | cons x m ih =>
    rw [List.length_cons] at room
    have first : absorb size block s x = (s.1, s.2 ++ [x]) := if_neg (by omega)
    have later := @ih (s.1, s.2 ++ [x]) (by rw [List.length_append, List.length_singleton]; omega)
    rw [List.append_assoc, List.singleton_append] at later
    rw [feed, List.foldl_cons, first]
    exact later

/-- Items that fill the buffer. -/
theorem feed_full (some_ : m ≠ []) (full : s.2.length + m.length = size) :
    feed size block s m = (block s.1 (s.2 ++ m), []) := by
  obtain ⟨front, last, rfl⟩ : ∃ front last, m = front ++ [last] :=
    ⟨m.dropLast, m.getLast some_, (List.dropLast_append_getLast some_).symm⟩
  rw [List.length_append, List.length_singleton] at full
  have before : feed size block s front = (s.1, s.2 ++ front) := feed_room (by omega)
  have filled : absorb size block (s.1, s.2 ++ front) last = (block s.1 (s.2 ++ front ++ [last]), []) :=
    if_pos (by rw [List.length_append]; omega)
  rw [feed_append, before, ← List.append_assoc, ← filled]
  rfl

/-- What comes behind the blocks has no influence on them. -/
theorem chain_append (whole : size * i ≤ m.length) : chain size block init (m ++ n) i = chain size block init m i := by
  induction i with
  | zero => rfl
  | succ i ih =>
    rw [Nat.mul_succ] at whole
    have inside : size ≤ (m.drop (size * i)).length := by rw [List.length_drop]; omega
    rw [chain, chain, ih (by omega), List.drop_append_of_le_length (by omega), List.take_append_of_le_length inside]

/-- The state is that of the whole blocks, and the buffer holds what is behind them. -/
theorem feed_chain (positive : 0 < size) (m : List α) :
    feed size block (init, []) m = (chain size block init m (m.length / size), m.drop (size * (m.length / size))) := by
  induction m using List.reverseRecOn with
  | nil =>
    rw [List.length_nil, Nat.zero_div, List.drop_nil]
    rfl
  | append_singleton m x ih =>
    have cut := Nat.div_add_mod m.length size
    have short := Nat.mod_lt m.length positive
    have held : (m.drop (size * (m.length / size))).length = m.length % size := by rw [List.length_drop]; omega
    have behind : (m ++ [x]).drop (size * (m.length / size)) = m.drop (size * (m.length / size)) ++ [x] :=
      List.drop_append_of_le_length (by omega)
    have blocks : chain size block init (m ++ [x]) (m.length / size) = chain size block init m (m.length / size) :=
      chain_append (by omega)
    rw [feed_append, ih, List.length_append, List.length_singleton]
    by_cases full : m.length % size + 1 = size
    · have next : (m.length + 1) / size = m.length / size + 1 := by
        have sum : m.length + 1 = size * (m.length / size + 1) := by rw [Nat.mul_succ]; omega
        rw [sum, Nat.mul_div_cancel_left _ positive]
      have taken : absorb size block (chain size block init m (m.length / size), m.drop (size * (m.length / size))) x =
          (block (chain size block init m (m.length / size)) (m.drop (size * (m.length / size)) ++ [x]), []) :=
        if_pos (by rw [held]; exact full)
      have last : (m.drop (size * (m.length / size)) ++ [x]).take size = m.drop (size * (m.length / size)) ++ [x] :=
        List.take_of_length_le (by rw [List.length_append, List.length_singleton, held]; omega)
      have none_ : (m ++ [x]).drop (size * (m.length / size + 1)) = [] := by
        rw [List.drop_eq_nil_iff, List.length_append, List.length_singleton, Nat.mul_succ]
        omega
      rw [next, none_, chain, blocks, behind, last]
      exact taken
    · have same : (m.length + 1) / size = m.length / size := by
        refine Nat.div_eq_of_lt_le ?_ ?_
        · rw [Nat.mul_comm]
          omega
        · rw [Nat.mul_comm, Nat.mul_succ]
          omega
      have kept : absorb size block (chain size block init m (m.length / size), m.drop (size * (m.length / size))) x =
          (chain size block init m (m.length / size), m.drop (size * (m.length / size)) ++ [x]) :=
        if_neg (by rw [held]; exact full)
      rw [same, blocks, behind]
      exact kept

end

/-- Two machines whose blocks correspond. -/
theorem chain_related {τ : Type u} {β : Type v} {size' : Nat} {block' : τ → List β → τ} {rel : σ → τ → Prop} {init : σ}
    {init' : τ} {m : List α} {m' : List β} {count : Nat} (start : rel init init')
    (step : ∀ i < count, ∀ s t, rel s t →
      rel (block s ((m.drop (size * i)).take size)) (block' t ((m'.drop (size' * i)).take size'))) :
    rel (chain size block init m count) (chain size' block' init' m' count) := by
  induction count with
  | zero => exact start
  | succ count ih =>
    exact step count (Nat.lt_succ_self count) _ _ (ih fun i below => step i (Nat.lt_succ_of_lt below))

end IoEdgeHub.BlockStream
