import Mathlib.Logic.Basic

/-! # The boot protocol

What the bootloader tells the kernel about physical memory: a list of regions, each of
one kind. -/

namespace PersonaOS.Boot

/-- The bootloader maps physical memory here in the kernel's address space. -/
@[irreducible] def hhdmOffset : Nat := 0xFFFF800000000000

inductive MemoryKind where
  | usable
  | bootloaderReclaimable
  | kernelAndModules
  | acpiReclaimable
  | acpiNvs
  | reserved
  | badMemory
  | framebuffer
  deriving DecidableEq, Repr

structure MemoryRegion where
  base : Nat
  length : Nat
  kind : MemoryKind
  deriving DecidableEq, Repr

def MemoryRegion.Contains (region : MemoryRegion) (address : Nat) : Prop :=
  region.base ≤ address ∧ address < region.base + region.length

instance (region : MemoryRegion) (address : Nat) : Decidable (region.Contains address) := by
  unfold MemoryRegion.Contains
  infer_instance

end PersonaOS.Boot
