import IoEdgeHub.IntFlash
import IoEdgeHub.LfsPort

/-!
The flash areas of the boot loader (`boot/mcuboot/flash_map_backend.c`): slot0 on the chip,
slot1 and the scratch area on the NOR flash. Offsets and lengths are checked in 32 bits.
-/
namespace IoEdgeHub.FlashMap
open IoEdgeHub.Nor IoEdgeHub.W25qxx IoEdgeHub.IntFlash IoEdgeHub.LfsPort

def SCRATCH_OFFSET : Nat := 0x00070000
def SCRATCH_SIZE : Nat := 0x00070000

/-- The flash that an area lies on. -/
inductive FlashDevice | internal | nor
deriving DecidableEq

structure FlashArea where
  fa_device_id : FlashDevice
  fa_off : Nat
  fa_size : Nat

inductive AreaId | PRIMARY_ID | SECONDARY_ID | SCRATCH_ID
deriving DecidableEq

def areas : AreaId → FlashArea
  | .PRIMARY_ID => ⟨.internal, SLOT0_ADDR, SLOT0_SIZE⟩
  | .SECONDARY_ID => ⟨.nor, SLOT1_OFFSET, SLOT1_SIZE⟩
  | .SCRATCH_ID => ⟨.nor, SCRATCH_OFFSET, SCRATCH_SIZE⟩

/-- The two flash devices. -/
structure Flash where
  internal : Dev
  nor : Dev

/-- The chip's own flash, as the addresses of 32 bits reach it. -/
def mapped (m : Mem) : Mem := fun a => m (a % 2^32)

/-- Reads from the chip's own flash go straight to memory. -/
def flash_area_read (fap : FlashArea) (off len : Nat) (f : Flash) : Option (List UInt8) × Flash :=
  if (off + len) % 2^32 > fap.fa_size then (none, f)
  else
    match fap.fa_device_id with
    | .internal => (some (bytesAt (mapped f.internal.mem) ((fap.fa_off + off) % 2^32) len), f)
    | .nor =>
      let r := w25_read ((fap.fa_off + off) % 2^32) len f.nor
      (r.1, { f with nor := r.2 })

def flash_area_write (fap : FlashArea) (off : Nat) (src : List UInt8) (f : Flash) : Bool × Flash :=
  if (off + src.length) % 2^32 > fap.fa_size then (false, f)
  else
    match fap.fa_device_id with
    | .internal =>
      let r := intflash_write ((fap.fa_off + off) % 2^32) src f.internal
      (r.1, { f with internal := r.2 })
    | .nor =>
      let r := page_loop ((fap.fa_off + off) % 2^32) src f.nor
      (r.1, { f with nor := r.2 })

def flash_area_erase (fap : FlashArea) (off len : Nat) (f : Flash) : Bool × Flash :=
  if (off + len) % 2^32 > fap.fa_size then (false, f)
  else
    match fap.fa_device_id with
    | .internal =>
      let r := intflash_erase ((fap.fa_off + off) % 2^32) len f.internal
      (r.1, { f with internal := r.2 })
    | .nor =>
      let r := w25_erase ((fap.fa_off + off) % 2^32) len f.nor
      (r.1, { f with nor := r.2 })

end IoEdgeHub.FlashMap
