import IoEdgeHub.Nor

/-!
Where the operations of a device take place. A device that is confined to a set of addresses
for erasing and to another for programming has been through any number of operations, each of
which kept to its set, whatever became of it; the rest of the memory is as it was.
-/
namespace IoEdgeHub.Confinement
open IoEdgeHub.Nor

/-- The addresses `[addr, addr + len)`. -/
def Range (addr len : Nat) : Nat → Prop := fun a => addr ≤ a ∧ a < addr + len

/-- No address. -/
def Nowhere : Nat → Prop := fun _ => False

/-- The second device comes out of the first by operations that erase only addresses in `erases`
    and program only addresses in `programs`. -/
inductive Confined (erases programs : Nat → Prop) : Dev → Dev → Prop
  | done (d : Dev) : Confined erases programs d d
  | erase {d d' : Dev} (addr len : Nat) (inside : ∀ a, Range addr len a → erases a)
      (rest : Confined erases programs (d.erase addr len).2 d') : Confined erases programs d d'
  | program {d d' : Dev} (addr : Nat) (bytes : List UInt8) (inside : ∀ a, Range addr bytes.length a → programs a)
      (rest : Confined erases programs (d.program addr bytes).2 d') : Confined erases programs d d'
  | idle {d d' : Dev} (addr : Nat) (rest : Confined erases programs (d.operate addr 0 id).2 d') :
      Confined erases programs d d'

section
variable {E P E' P' : Nat → Prop} {d d' d'' : Dev}

theorem Confined.trans (first : Confined E P d d') (second : Confined E P d' d'') : Confined E P d d'' := by
  induction first with
  | done => exact second
  | erase addr len inside _ ih => exact .erase addr len inside (ih second)
  | program addr bytes inside _ ih => exact .program addr bytes inside (ih second)
  | idle addr _ ih => exact .idle addr (ih second)

theorem Confined.mono (confined : Confined E P d d') (erases : ∀ a, E a → E' a) (programs : ∀ a, P a → P' a) :
    Confined E' P' d d' := by
  induction confined with
  | done d => exact .done d
  | erase addr len inside _ ih => exact .erase addr len (fun a within => erases a (inside a within)) ih
  | program addr bytes inside _ ih => exact .program addr bytes (fun a within => programs a (inside a within)) ih
  | idle addr _ ih => exact .idle addr ih

/-- What lies outside both sets is as it was. -/
theorem Confined.outside (confined : Confined E P d d') {a : Nat} (unerased : ¬ E a) (unprogrammed : ¬ P a) :
    d'.mem a = d.mem a := by
  induction confined with
  | done => rfl
  | @erase d d' addr len inside _ ih =>
    have apart : ¬ Range addr len a := fun within => unerased (inside a within)
    unfold Range at apart
    rw [ih, erase_outside (by omega)]
  | @program d d' addr bytes inside _ ih =>
    have apart : ¬ Range addr bytes.length a := fun within => unprogrammed (inside a within)
    unfold Range at apart
    rw [ih, program_outside (by omega)]
  | @idle d d' addr _ ih => rw [ih, @operate_outside addr 0 id d a rfl (by omega)]

theorem confined_program (addr : Nat) (bytes : List UInt8) :
    Confined E (Range addr bytes.length) d (d.program addr bytes).2 :=
  .program addr bytes (fun _ within => within) (.done _)

theorem confined_read (addr len : Nat) : Confined E P d (d.read addr len).2 := .idle addr (.done _)

end

end IoEdgeHub.Confinement
