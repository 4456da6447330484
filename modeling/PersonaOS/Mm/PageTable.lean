import Mathlib.Algebra.Ring.Nat
import Mathlib.Data.Finset.Basic
import PersonaOS.Foundation.Program
import PersonaOS.Foundation.RadixForest

/-! # Page tables and physical memory

The virtual memory manager reaches page tables through the direct map of physical
memory, so a page table is simply a frame whose 4 KiB are read as 512 entries. The
model of physical memory keeps that view for every frame.

The frame allocator is known here only by its interface: it has a set of free
frames, a call may fail, and a call that succeeds takes a frame out of that set.
Which frame, and when it fails, is left to an arbitrary `supply` that may look at the
number of earlier calls and at all of memory. -/

namespace PersonaOS.Mm

/-- A physical frame number: the frame covers `[4096 * frame, 4096 * frame + 4096)`. -/
abbrev Frame := Nat

/-- The page-table flags the bootloader and the kernel set or test. Only the bootloader
sets `hugePage`. -/
structure PageTableFlags where
  present : Bool
  writable : Bool
  userAccessible : Bool
  writeThrough : Bool
  noCache : Bool
  noExecute : Bool
  hugePage : Bool
  deriving DecidableEq, Repr

namespace PageTableFlags

def empty : PageTableFlags := ⟨false, false, false, false, false, false, false⟩

def union (left right : PageTableFlags) : PageTableFlags where
  present := left.present || right.present
  writable := left.writable || right.writable
  userAccessible := left.userAccessible || right.userAccessible
  writeThrough := left.writeThrough || right.writeThrough
  noCache := left.noCache || right.noCache
  noExecute := left.noExecute || right.noExecute
  hugePage := left.hugePage || right.hugePage

end PageTableFlags

structure PageTableEntry where
  frame : Frame
  flags : PageTableFlags
  deriving DecidableEq, Repr

namespace PageTableEntry

def unused : PageTableEntry := ⟨0, .empty⟩

def child (entry : PageTableEntry) : Option Frame :=
  if entry.flags.present then some entry.frame else none

@[simp] theorem child_unused : unused.child = none := rfl

theorem child_of_present {entry : PageTableEntry} (present : entry.flags.present = true) :
    entry.child = some entry.frame := by
  simp [child, present]

theorem child_of_absent {entry : PageTableEntry} (absent : entry.flags.present = false) :
    entry.child = none := by
  simp [child, absent]

theorem child_eq_some {entry : PageTableEntry} {frame : Frame} :
    entry.child = some frame ↔ entry.flags.present = true ∧ entry.frame = frame := by
  unfold child
  split <;> simp_all

end PageTableEntry

/-- Physical memory, each frame read as a page table. -/
abbrev Memory := Frame → Nat → PageTableEntry

/-! ## Mapping requests -/

/-- `MapFlags`, the kernel's own vocabulary for a mapping. -/
structure MapFlags where
  write : Bool
  user : Bool
  nx : Bool
  mmio : Bool
  deriving DecidableEq, Repr

namespace MapFlags

def leaf (flags : MapFlags) : PageTableFlags where
  present := true
  writable := flags.write
  userAccessible := flags.user
  writeThrough := flags.mmio
  noCache := flags.mmio
  noExecute := flags.nx
  hugePage := false

/-- Intermediate entries are always writable and never forbid execution: the leaf
decides. -/
def intermediate (flags : MapFlags) : PageTableFlags where
  present := true
  writable := true
  userAccessible := flags.user
  writeThrough := false
  noCache := false
  noExecute := false
  hugePage := false

/-- `WRITE | USER | NX`, the rights of pages moved by a message. -/
def userData : MapFlags := ⟨true, true, true, false⟩

/-- `WRITE | NX | MMIO`, the rights of a device window. -/
def device : MapFlags := ⟨true, false, true, true⟩

end MapFlags

inductive MapError where
  | outOfMemory
  | alreadyMapped
  | misaligned
  | noVirtualSpace
  deriving DecidableEq, Repr

/-! ## Index functions -/

def pml4Idx (virt : Nat) : Nat := (virt >>> 39) &&& 0x1FF

def pdptIdx (virt : Nat) : Nat := (virt >>> 30) &&& 0x1FF

def pdIdx (virt : Nat) : Nat := (virt >>> 21) &&& 0x1FF

def ptIdx (virt : Nat) : Nat := (virt >>> 12) &&& 0x1FF

theorem index_eq (virt shift : Nat) :
    (virt >>> shift) &&& 0x1FF = virt / 2 ^ shift % 512 := by
  rw [Nat.shiftRight_eq_div_pow]
  exact Nat.and_two_pow_sub_one_eq_mod _ 9

theorem pageOffset_eq (virt : Nat) : virt &&& 0xFFF = virt % 4096 :=
  Nat.and_two_pow_sub_one_eq_mod _ 12

/-! ## The machine -/

structure Machine where
  memory : Memory
  /-- The frames the allocator may hand out. -/
  free : Finset Frame
  /-- What the allocator would like to answer to its n-th call. -/
  supply : Nat → Memory → Option Frame
  /-- How many allocations were asked for so far. -/
  calls : Nat

namespace Machine

/-- `write_bytes(.., 0, PAGE_SIZE)` through the direct map. -/
def zeroFrame (machine : Machine) (frame : Frame) : Machine :=
  { machine with memory := Function.update machine.memory frame fun _ => .unused }

def writeEntry (machine : Machine) (table : Frame) (index : Nat) (entry : PageTableEntry) :
    Machine :=
  { machine with memory := Radix.setEntry machine.memory table index entry }

/-- `pmm::free_frame` -/
def freeFrame (machine : Machine) (frame : Frame) : Machine :=
  { machine with free := insert frame machine.free }

def offer (machine : Machine) : Option Frame :=
  (machine.supply machine.calls machine.memory).filter (· ∈ machine.free)

/-- The state after an allocation that answered `offered`. -/
def afterAlloc (machine : Machine) (offered : Option Frame) : Machine :=
  { machine with
    calls := machine.calls + 1
    free := match offered with
      | some frame => machine.free.erase frame
      | none => machine.free }

/-- The frame is free, and the allocator would hand it out at some call. -/
def Supplies (machine : Machine) (frame : Frame) : Prop :=
  frame ∈ machine.free ∧ ∃ call memory, machine.supply call memory = some frame

theorem mem_free_of_offer {machine : Machine} {frame : Frame}
    (offered : machine.offer = some frame) : frame ∈ machine.free := by
  simpa using (Option.filter_eq_some_iff.mp offered).2

theorem supplies_of_offer {machine : Machine} {frame : Frame}
    (offered : machine.offer = some frame) : machine.Supplies frame :=
  ⟨mem_free_of_offer offered, _, _, (Option.filter_eq_some_iff.mp offered).1⟩

end Machine

/-- `pmm::alloc_frame` -/
def allocFrame : Program Machine MapError (Option Frame) := fun machine =>
  .ok machine.offer (machine.afterAlloc machine.offer)

/-- `entry.set_addr(PhysAddr::new(phys), flags)`: `PhysAddr::new` panics on an address
of more than 52 bits. -/
def setAddr (table : Frame) (index : Nat) (phys : Nat) (flags : PageTableFlags) :
    Program Machine MapError PUnit :=
  if phys < 2 ^ 52 then
    Program.modify fun machine => machine.writeEntry table index ⟨phys / 4096, flags⟩
  else
    Program.abort

end PersonaOS.Mm
