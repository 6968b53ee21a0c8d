import Mathlib.Data.Set.Lattice
import Mathlib.Order.Interval.Set.LinearOrder

/-!
Blocks of places that lie end to end. A list of blocks that tiles a range holds the
blocks in increasing order, no two of them share a place, and together they hold
the places of the range and no others.
-/
namespace IoEdgeHub.Tiling

/-- A run of `size` places from `start` on. -/
structure Block where
  start : Nat
  size : Nat
deriving DecidableEq, Repr

def Block.stop (b : Block) : Nat := b.start + b.size

def Block.places (b : Block) : Set Nat := Set.Ico b.start b.stop

/-- One block ends before the other starts. -/
def Before (b c : Block) : Prop := b.stop ≤ c.start

/-- The blocks lie end to end from `lo` up to `hi`. -/
def Tiles : Nat → List Block → Nat → Prop
  | lo, [], hi => lo = hi
  | lo, b :: rest, hi => b.start = lo ∧ Tiles b.stop rest hi

section
variable {lo hi : Nat} {blocks : List Block}

theorem tiles_le (tiles : Tiles lo blocks hi) : lo ≤ hi := by
  induction blocks generalizing lo with
  | nil => exact Nat.le_of_eq tiles
  | cons b rest ih =>
    obtain ⟨rfl, later⟩ := tiles
    exact (Nat.le_add_right _ _).trans (ih later)

/-- Where a tiling is cut, each part is one. -/
theorem tiles_append {first second : List Block} :
    Tiles lo (first ++ second) hi ↔ ∃ mid, Tiles lo first mid ∧ Tiles mid second hi := by
  induction first generalizing lo with
  | nil =>
    constructor
    · exact fun tiles => ⟨lo, rfl, tiles⟩
    · rintro ⟨_, rfl, tiles⟩
      exact tiles
  | cons b rest ih =>
    constructor
    · rintro ⟨start, later⟩
      obtain ⟨mid, front, back⟩ := ih.mp later
      exact ⟨mid, ⟨start, front⟩, back⟩
    · rintro ⟨mid, ⟨start, front⟩, back⟩
      exact ⟨start, ih.mpr ⟨mid, front, back⟩⟩

theorem tiles_inside (tiles : Tiles lo blocks hi) : ∀ b ∈ blocks, lo ≤ b.start ∧ b.stop ≤ hi := by
  induction blocks generalizing lo with
  | nil => rintro _ ⟨⟩
  | cons b rest ih =>
    obtain ⟨rfl, later⟩ := tiles
    intro c member
    rcases List.mem_cons.mp member with rfl | member
    · exact ⟨Nat.le_refl _, tiles_le later⟩
    · obtain ⟨low, high⟩ := ih later c member
      exact ⟨(Nat.le_add_right _ _).trans low, high⟩

theorem tiles_ordered (tiles : Tiles lo blocks hi) : blocks.Pairwise Before := by
  induction blocks generalizing lo with
  | nil => exact .nil
  | cons b rest ih => exact .cons (fun c member => (tiles_inside tiles.2 c member).1) (ih tiles.2)

theorem tiles_cover (tiles : Tiles lo blocks hi) : ⋃ b ∈ blocks, b.places = Set.Ico lo hi := by
  induction blocks generalizing lo with
  | nil =>
    obtain rfl : lo = hi := tiles
    simp
  | cons b rest ih =>
    obtain ⟨rfl, later⟩ := tiles
    simp only [List.mem_cons, Set.iUnion_iUnion_eq_or_left, ih later]
    exact Set.Ico_union_Ico_eq_Ico (Nat.le_add_right _ _) (tiles_le later)

end

theorem before_disjoint {b c : Block} (before : Before b c) : b.places ∩ c.places = ∅ := by
  refine Set.eq_empty_iff_forall_notMem.mpr ?_
  rintro a ⟨⟨_, high⟩, low, _⟩
  exact Nat.not_le.mpr high (before.trans low)

end IoEdgeHub.Tiling
