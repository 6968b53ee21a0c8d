import Mathlib.Data.List.GetD
import Mathlib.Tactic.SplitIfs

/-!
Rings of cells and the queues they stand for. Items lie one behind the other from a place
on, around the end of the ring where they have to; a line of items is written in at most
two pieces. A queue of limited room takes whole lines or none of them; items are sent from
its front and keep their room until they are released.
-/
namespace IoEdgeHub.Ring
universe u
variable {α : Type u}

/-- The items from a place on. -/
def items (size : Nat) (cells : Nat → α) (start n : Nat) : List α :=
  (List.range n).map fun i => cells ((start + i) % size)

section
variable {size start start' m n : Nat} {cells cells' : Nat → α}

@[simp] theorem length_items (size : Nat) (cells : Nat → α) (start n : Nat) : (items size cells start n).length = n := by
  simp [items]

theorem items_add (size : Nat) (cells : Nat → α) (start m n : Nat) :
    items size cells start (m + n) = items size cells start m ++ items size cells (start + m) n := by
  rw [items, List.range_add, List.map_append, List.map_map]
  refine congrArg (_ ++ ·) (List.map_congr_left ?_)
  intro i _
  rw [Function.comp_apply, Nat.add_assoc]

/-- A place may be given by any number that ends up there. -/
theorem items_mod (same : start % size = start' % size) (n : Nat) : items size cells start n = items size cells start' n := by
  refine List.map_congr_left ?_
  intro i _
  rw [Nat.add_mod, same, ← Nat.add_mod]

theorem items_kept (kept : ∀ i < n, cells' ((start + i) % size) = cells ((start + i) % size)) :
    items size cells' start n = items size cells start n :=
  List.map_congr_left fun i member => kept i (List.mem_range.mp member)

theorem items_line {line : List α} {d : α} (written : ∀ i < line.length, cells ((start + i) % size) = line.getD i d) :
    items size cells start line.length = line := by
  refine List.ext_getElem (length_items ..) ?_
  intro i _ inside
  simp only [items, List.getElem_map, List.getElem_range]
  rw [written i inside, List.getD_eq_getElem _ _ inside]

/-- Items that do not reach beyond the end of the ring. -/
theorem items_straight (straight : start % size + n ≤ size) :
    items size cells start n = (List.range n).map fun i => cells (start % size + i) := by
  refine List.map_congr_left ?_
  intro i member
  have below := List.mem_range.mp member
  have place : (start + i) % size = start % size + i := by
    rw [Nat.add_mod, Nat.mod_eq_of_lt (show i < size by omega), Nat.mod_eq_of_lt (show start % size + i < size by omega)]
  rw [place]

end

/-- The ring with a line from a place on: as much as there is room for up to the end, and the
    rest from the first cell on. -/
structure TwoPieces (size start : Nat) (line : List α) (d : α) (cells cells' : Nat → α) : Prop where
  fits : line.length ≤ size
  wrote : ∀ a < size, cells' a =
    if a < line.length - min (size - start % size) line.length then
      (line.drop (min (size - start % size) line.length)).getD a d
    else if start % size ≤ a ∧ a < start % size + min (size - start % size) line.length then
      (line.take (min (size - start % size) line.length)).getD (a - start % size) d
    else cells a

section
variable {size start : Nat} {line : List α} {d : α} {cells cells' : Nat → α}

/-- Where an item of the ring lies. -/
theorem place_eq {i : Nat} (positive : 0 < size) (inside : i < size) :
    (start + i) % size = if i < size - start % size then start % size + i else start % size + i - size := by
  have low := Nat.mod_lt start positive
  rw [Nat.add_mod, Nat.mod_eq_of_lt inside]
  split_ifs with straight
  · exact Nat.mod_eq_of_lt (by omega)
  · rw [Nat.mod_eq_sub_mod (by omega), Nat.mod_eq_of_lt (by omega)]

/-- Every item of the line is where it belongs. -/
theorem two_pieces_line (two : TwoPieces size start line d cells cells') :
    ∀ i < line.length, cells' ((start + i) % size) = line.getD i d := by
  intro i inside
  have fits := two.fits
  have positive : 0 < size := by omega
  have low := Nat.mod_lt start positive
  rw [two.wrote _ (Nat.mod_lt _ positive), place_eq positive (by omega)]
  by_cases straight : i < size - start % size
  · have first : i < min (size - start % size) line.length := by omega
    rw [if_pos straight, if_neg (by omega), if_pos (by omega), Nat.add_sub_cancel_left, List.getD_eq_getElem?_getD,
      List.getElem?_take_of_lt first, ← List.getD_eq_getElem?_getD]
  · have second : min (size - start % size) line.length + (start % size + i - size) = i := by omega
    rw [if_neg straight, if_pos (by omega), List.getD_eq_getElem?_getD, List.getElem?_drop, second,
      ← List.getD_eq_getElem?_getD]

/-- The other cells are as before. -/
theorem two_pieces_others (two : TwoPieces size start line d cells cells') {k : Nat} (behind : line.length ≤ k) (inside : k < size) :
    cells' ((start + k) % size) = cells ((start + k) % size) := by
  have fits := two.fits
  have positive : 0 < size := by omega
  have low := Nat.mod_lt start positive
  rw [two.wrote _ (Nat.mod_lt _ positive), place_eq positive inside]
  by_cases straight : k < size - start % size
  · rw [if_pos straight, if_neg (by omega), if_neg (by omega)]
  · rw [if_neg straight, if_neg (by omega), if_neg (by omega)]

end

/-- What has been sent, what is stored, how much at the front of it has been sent and keeps its
    room, and the lines that were taken and refused. -/
structure Queue (α : Type u) where
  sent : List α := []
  stored : List α := []
  held : Nat := 0
  accepted : List (List α) := []
  rejected : List (List α) := []

/-- A whole line or nothing. -/
def Queue.push (capacity : Nat) (line : List α) (q : Queue α) : Queue α :=
  if line.length ≤ capacity - q.stored.length then
    { q with stored := q.stored ++ line, accepted := q.accepted ++ [line] }
  else { q with rejected := q.rejected ++ [line] }

/-- Items from the front, which keep their room. -/
def Queue.send (n : Nat) (q : Queue α) : Queue α := { q with sent := q.sent ++ q.stored.take n, held := n }

/-- More items behind those that were sent and still keep their room. -/
def Queue.send_more (n : Nat) (q : Queue α) : Queue α :=
  { q with sent := q.sent ++ (q.stored.drop q.held).take n, held := q.held + n }

def Queue.release (q : Queue α) : Queue α := { q with stored := q.stored.drop q.held, held := 0 }

/-- What has been sent and what is still to be sent are the lines that were taken. -/
structure Queue.Lossless (capacity : Nat) (q : Queue α) : Prop where
  room : q.stored.length ≤ capacity
  held : q.held ≤ q.stored.length
  lines : q.sent ++ q.stored.drop q.held = q.accepted.flatten

section
variable {capacity : Nat} {q : Queue α}

theorem lossless_empty : ({} : Queue α).Lossless capacity := ⟨Nat.zero_le _, Nat.le_refl 0, rfl⟩

theorem lossless_push (lossless : q.Lossless capacity) (line : List α) : (q.push capacity line).Lossless capacity := by
  unfold Queue.push
  split_ifs with fits
  · have room := lossless.room
    have held := lossless.held
    refine ⟨?_, ?_, ?_⟩
    · rw [List.length_append]
      omega
    · rw [List.length_append]
      exact Nat.le_add_right_of_le held
    · have lines := lossless.lines
      rw [List.drop_append_of_le_length held, ← List.append_assoc, lines, List.flatten_append, List.flatten_singleton]
  · exact ⟨lossless.room, lossless.held, lossless.lines⟩

/-- Nothing is sent twice if all that was sent has been released. -/
theorem lossless_send (lossless : q.Lossless capacity) (released : q.held = 0) {n : Nat} (inside : n ≤ q.stored.length) :
    (q.send n).Lossless capacity := by
  refine ⟨lossless.room, inside, ?_⟩
  have lines := lossless.lines
  rw [released, List.drop_zero] at lines
  rw [Queue.send, List.append_assoc, List.take_append_drop, lines]

theorem lossless_send_more (lossless : q.Lossless capacity) {n : Nat} (inside : q.held + n ≤ q.stored.length) :
    (q.send_more n).Lossless capacity := by
  refine ⟨lossless.room, inside, ?_⟩
  have lines := lossless.lines
  rw [Queue.send_more, List.append_assoc, ← List.drop_drop, List.take_append_drop, lines]

theorem lossless_release (lossless : q.Lossless capacity) : q.release.Lossless capacity := by
  refine ⟨?_, Nat.zero_le _, ?_⟩
  · rw [Queue.release, List.length_drop]
    exact Nat.le_trans (Nat.sub_le _ _) lossless.room
  · exact lossless.lines

end

end IoEdgeHub.Ring
