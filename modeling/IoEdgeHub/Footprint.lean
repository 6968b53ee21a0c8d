import IoEdgeHub.Nor
import Mathlib.Data.Set.Basic

/-!
Programs over a device that keep to a set of addresses. They change no byte outside of it
and learn nothing of one: two devices that are alike inside the set stay alike and give
the same results. A program keeps to a set when each of its operations does.
-/
namespace IoEdgeHub.Footprint
open IoEdgeHub.Nor
universe u v
variable {α : Type u} {β : Type v} {S : Set Nat}

/-- Two devices that differ at most in the bytes outside a set. -/
structure Alike (S : Set Nat) (d e : Dev) : Prop where
  power : d.power = e.power
  fates : d.fates = e.fates
  mem : ∀ a ∈ S, d.mem a = e.mem a

/-- An effect that changes bytes of a range only, each by what it is itself. -/
structure Local (addr len : Nat) (effect : Mem → Mem) : Prop where
  outside : ∀ m a, a < addr ∨ addr + len ≤ a → effect m a = m a
  bytewise : ∀ m n a, m a = n a → effect m a = effect n a

/-- Programs put together from operations on ranges inside a set. -/
inductive Within (S : Set Nat) : (Dev → α × Dev) → Prop
  | done (x : α) : Within S fun d => (x, d)
  | look (addr len : Nat) (inside : ∀ i < len, addr + i ∈ S) {next : List UInt8 → Dev → α × Dev}
      (rest : ∀ bytes, Within S (next bytes)) : Within S fun d => next (bytesAt d.mem addr len) d
  | operate (addr len : Nat) {effect : Mem → Mem} (local_ : Local addr len effect)
      (inside : ∀ i < len, addr + i ∈ S) {next : Bool → Dev → α × Dev} (rest : ∀ done, Within S (next done)) :
      Within S fun d => next (d.operate addr len effect).1 (d.operate addr len effect).2

/-- One program, and a second one if it succeeds. -/
def attempt (first second : Dev → Bool × Dev) (d : Dev) : Bool × Dev :=
  if (first d).1 then second (first d).2 else (false, (first d).2)

theorem local_erased (addr len : Nat) : Local addr len (erased addr len) where
  outside := fun m _ outside => erased_outside m outside
  bytewise := fun m n a same => by
    unfold erased
    split_ifs
    · rfl
    · exact same

theorem local_programmed (addr : Nat) (bytes : List UInt8) : Local addr bytes.length (programmed addr bytes) where
  outside := fun m _ outside => programmed_outside m outside
  bytewise := fun m n a same => by
    unfold programmed
    rw [same]

theorem local_id (addr len : Nat) : Local addr len id where
  outside := fun _ _ _ => rfl
  bytewise := fun _ _ _ same => same

section
variable {addr len : Nat} {effect : Mem → Mem} {d e : Dev}

/-- An address that is not in the set is not in the range. -/
theorem apart (inside : ∀ i < len, addr + i ∈ S) {a : Nat} (foreign : a ∉ S) : a < addr ∨ addr + len ≤ a := by
  by_contra within
  have offset : a - addr < len := by omega
  have here : addr + (a - addr) = a := by omega
  exact foreign (here ▸ inside (a - addr) offset)

theorem operate_keeps (local_ : Local addr len effect) (inside : ∀ i < len, addr + i ∈ S) {a : Nat} (foreign : a ∉ S) :
    (d.operate addr len effect).2.mem a = d.mem a :=
  operate_outside (local_.outside d.mem a (apart inside foreign)) (apart inside foreign)

theorem operate_alike (local_ : Local addr len effect) (alike : Alike S d e) :
    (d.operate addr len effect).1 = (e.operate addr len effect).1 ∧
      Alike S (d.operate addr len effect).2 (e.operate addr len effect).2 := by
  obtain ⟨m, fates, power⟩ := d
  obtain ⟨n, _, _⟩ := e
  obtain ⟨on, ahead, same⟩ := alike
  obtain rfl : power = _ := on
  obtain rfl : fates = _ := ahead
  have bytes : ∀ a ∈ S, m a = n a := same
  have effects : ∀ a ∈ S, effect m a = effect n a := fun a member => local_.bytewise _ _ a (bytes a member)
  unfold Dev.operate
  split_ifs
  · exact ⟨rfl, rfl, rfl, same⟩
  · cases fates with
    | nil => exact ⟨rfl, rfl, rfl, effects⟩
    | cons fate rest =>
      cases fate with
      | ok => exact ⟨rfl, rfl, rfl, effects⟩
      | fail left =>
        refine ⟨rfl, rfl, rfl, fun a member => ?_⟩
        simp only [blend, bytes a member]
      | cut part =>
        refine ⟨rfl, rfl, rfl, fun a member => ?_⟩
        simp only [blend, bytes a member, effects a member]

end

namespace Within
variable {p q : Dev → α × Dev}

theorem of_eq (within : Within S p) (same : ∀ d, q d = p d) : Within S q := (funext same : q = p) ▸ within

/-- What lies outside the set stays as it is. -/
theorem keeps (within : Within S p) (d : Dev) {a : Nat} (foreign : a ∉ S) : (p d).2.mem a = d.mem a := by
  induction within generalizing d with
  | done => rfl
  | look addr len inside rest ih => exact ih _ d
  | operate addr len local_ inside rest ih =>
    exact (ih _ _).trans (operate_keeps local_ inside foreign)

/-- What lies outside the set has no influence. -/
theorem alike (within : Within S p) {d e : Dev} (alike : Alike S d e) :
    (p d).1 = (p e).1 ∧ Alike S (p d).2 (p e).2 := by
  induction within generalizing d e with
  | done => exact ⟨rfl, alike⟩
  | look addr len inside rest ih =>
    have same : bytesAt d.mem addr len = bytesAt e.mem addr len := by
      refine List.map_congr_left ?_
      intro i member
      exact alike.mem _ (inside i (List.mem_range.mp member))
    simp only [same]
    exact ih _ alike
  | operate addr len local_ inside rest ih =>
    obtain ⟨result, after⟩ := operate_alike local_ alike
    simp only [result]
    exact ih _ after

/-- One program after another. -/
theorem bind {next : α → Dev → β × Dev} (within : Within S p) (rest : ∀ x, Within S (next x)) :
    Within S fun d => next (p d).1 (p d).2 := by
  induction within with
  | done x => exact rest x
  | look addr len inside _ ih => exact .look addr len inside ih
  | operate addr len local_ inside _ ih => exact .operate addr len local_ inside ih

/-- A program that depends on a condition which the device has no part in. -/
theorem ite {c : Prop} [Decidable c] (yes : c → Within S p) (no : ¬ c → Within S q) :
    Within S fun d => if c then p d else q d := by
  by_cases holds : c
  · exact (yes holds).of_eq fun d => if_pos holds
  · exact (no holds).of_eq fun d => if_neg holds

theorem attempt {first second : Dev → Bool × Dev} (within : Within S first) (rest : Within S second) :
    Within S (Footprint.attempt first second) := by
  have next (done : Bool) : Within S fun d => if done then second d else (false, d) := by
    cases done with
    | true => exact rest
    | false => exact .done false
  exact within.bind next

end Within

theorem within_erase {addr len : Nat} (inside : ∀ i < len, addr + i ∈ S) : Within S fun d => d.erase addr len :=
  .operate addr len (local_erased addr len) inside .done

theorem within_program {addr : Nat} {bytes : List UInt8} (inside : ∀ i < bytes.length, addr + i ∈ S) :
    Within S fun d => d.program addr bytes :=
  .operate addr bytes.length (local_programmed addr bytes) inside .done

/-- An operation on no byte at all. -/
theorem within_idle (addr : Nat) : Within S fun d => d.operate addr 0 id :=
  .operate addr 0 (local_id addr 0) (fun _ below => absurd below (Nat.not_lt_zero _)) .done

theorem within_read {addr len : Nat} (inside : ∀ i < len, addr + i ∈ S) : Within S fun d => d.read addr len := by
  have result (bytes : List UInt8) (done : Bool) : Within S fun d => ((if done then some bytes else none), d) := .done _
  exact .look addr len inside fun bytes => (within_idle addr).bind (result bytes)

end IoEdgeHub.Footprint
