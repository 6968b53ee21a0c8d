import IoEdgeHub.W25qxx

/-!
The block callbacks that littlefs reaches the NOR flash through (`storage/lfs_port.c`). All
addresses are computed in 32 bits.
-/
namespace IoEdgeHub.LfsPort
open IoEdgeHub.Nor IoEdgeHub.W25qxx

def LFS_OFFSET : Nat := 0x000F0000
def LFS_SIZE : Nat := 0x01000000 - LFS_OFFSET

def PORT_BLOCK_SIZE : Nat := 4096
def PORT_BLOCKS : Nat := LFS_SIZE / PORT_BLOCK_SIZE

def block_addr (block off : Nat) : Nat := (LFS_OFFSET + block * PORT_BLOCK_SIZE + off) % 2^32

/-- The loop of `lf_prog` and of `flash_area_write`: page programs up to the next page each. -/
def page_loop (addr : Nat) (p : List UInt8) (d : Dev) : Bool × Dev :=
  if p = [] then (true, d) else
    match w25_write addr (p.take (min (256 - addr % 256) p.length)) d with
    | (true, d) =>
      page_loop ((addr + min (256 - addr % 256) p.length) % 2^32) (p.drop (min (256 - addr % 256) p.length)) d
    | (false, d) => (false, d)
termination_by p.length
decreasing_by
  have := List.length_pos_iff.mpr ‹¬ p = []›
  simp only [List.length_drop]
  omega

/-- The range that the callbacks check before they use it. -/
def InBlock (block off size : Nat) : Prop :=
  ¬ (block ≥ PORT_BLOCKS ∨ off > PORT_BLOCK_SIZE ∨ size > PORT_BLOCK_SIZE - off)

instance (block off size : Nat) : Decidable (InBlock block off size) := by unfold InBlock; infer_instance

def lf_prog (block off : Nat) (buffer : List UInt8) (d : Dev) : Bool × Dev :=
  if InBlock block off buffer.length then page_loop (block_addr block off) buffer d else (false, d)

def lf_read (block off size : Nat) (d : Dev) : Option (List UInt8) × Dev :=
  if InBlock block off size then w25_read (block_addr block off) size d else (none, d)

def lf_erase (block : Nat) (d : Dev) : Bool × Dev :=
  if block ≥ PORT_BLOCKS then (false, d) else w25_erase (block_addr block 0) PORT_BLOCK_SIZE d

/-- Inside a block the address is what it is without the limit to 32 bits, and lies in the partition. -/
theorem block_addr_eq {block off size : Nat} (inside : InBlock block off size) :
    block_addr block off = LFS_OFFSET + block * PORT_BLOCK_SIZE + off ∧ LFS_OFFSET ≤ block_addr block off ∧
      block_addr block off + size ≤ W25Q_CHIP_SIZE := by
  unfold InBlock PORT_BLOCKS LFS_SIZE PORT_BLOCK_SIZE LFS_OFFSET at inside
  unfold block_addr PORT_BLOCK_SIZE LFS_OFFSET W25Q_CHIP_SIZE
  omega

end IoEdgeHub.LfsPort
