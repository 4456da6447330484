import PersonaOS.Boot.BootInfo
import PersonaOS.Foundation.Bitmap
import PersonaOS.Foundation.Program

/-! # The physical frame allocator

One bit for each frame of physical memory, set when the frame is taken. `init` builds
the bitmap from the boot memory map and puts it into the first free region with room for
it; a search for one frame starts at a hint and wraps around, a search for a run starts
at frame 0.

An index beyond the bitmap panics, as in the source, and so does a counter that
underflows. The search for one frame has no bound of its own: it is given fuel here and
returns only if that is enough. -/

namespace PersonaOS.Mm

open Boot Program

structure Pmm where
  bitmap : List UInt8
  /-- Where the bitmap itself is stored. -/
  bitmapPhys : Nat
  basePfn : Nat
  totalPfns : Nat
  nextHint : Nat
  deriving DecidableEq, Repr

structure Allocator where
  pmm : Pmm
  totalFrames : Nat
  freeFrames : Nat
  deriving DecidableEq, Repr

/-- A search that has used up its fuel. -/
inductive Unfinished where
  | running
  deriving DecidableEq, Repr

abbrev Action := Program Allocator Unfinished

/-- The only kinds of region the allocator takes frames from. -/
def isFree : MemoryKind → Bool
  | .usable | .bootloaderReclaimable => true
  | _ => false

/-! ## Bits -/

namespace Pmm

def updateByte (pfn : Nat) (change : UInt8 → UInt8) : Action PUnit := fun allocator =>
  match allocator.pmm.bitmap[pfn / 8]? with
  | some byte =>
    .ok ⟨⟩ { allocator with
      pmm := { allocator.pmm with bitmap := allocator.pmm.bitmap.set (pfn / 8) (change byte) } }
  | none => .panic

def set (pfn : Nat) : Action PUnit := updateByte pfn (Bitmap.setBit · (pfn % 8))

def clear (pfn : Nat) : Action PUnit := updateByte pfn (Bitmap.clearBit · (pfn % 8))

def isSet (pfn : Nat) : Action Bool := fun allocator =>
  match allocator.pmm.bitmap[pfn / 8]? with
  | some byte => .ok ((byte >>> UInt8.ofNat (pfn % 8)) &&& 1 == 1) allocator
  | none => .panic

def setHint (hint : Nat) : Action PUnit :=
  modify fun allocator => { allocator with pmm := { allocator.pmm with nextHint := hint } }

/-! ## Allocating and freeing -/

/-- The loop of `alloc_one`, which started at `start`. -/
def allocLoop (start : Nat) : (fuel pfn : Nat) → Action (Option Nat)
  | 0, _ => throw .running
  | fuel + 1, pfn => do
    let allocator ← get
    let pfn := if allocator.pmm.totalPfns ≤ pfn then 0 else pfn
    if ← isSet pfn then
      if pfn + 1 = start then
        return none
      else
        allocLoop start fuel (pfn + 1)
    else do
      set pfn
      setHint (pfn + 1)
      return some (allocator.pmm.basePfn + pfn)

def allocOne (fuel : Nat) : Action (Option Nat) := do
  let allocator ← get
  allocLoop allocator.pmm.nextHint fuel allocator.pmm.nextHint

def freeOne (pfn : Nat) : Action PUnit := do
  clear pfn
  let allocator ← get
  if pfn < allocator.pmm.nextHint then
    setHint pfn
  else
    pure ⟨⟩

end Pmm

/-- `FREE_FRAMES.fetch_sub(count)` wraps around. -/
def subFree (count : Nat) : Action PUnit :=
  modify fun allocator =>
    { allocator with freeFrames := (allocator.freeFrames + (2 ^ 64 - count)) % 2 ^ 64 }

/-- `FREE_FRAMES.fetch_add(1)` -/
def addFree : Action PUnit :=
  modify fun allocator => { allocator with freeFrames := (allocator.freeFrames + 1) % 2 ^ 64 }

/-- `pmm::alloc_frame`: a physical address -/
def pmmAllocFrame (fuel : Nat) : Action (Option Nat) := do
  match ← Pmm.allocOne fuel with
  | none => return none
  | some pfn => do
    subFree 1
    return some (pfn * 4096)

/-- The loop of `alloc_contig` from `pfn` on, with `count` frames left: the last `run`
frames are clear, from `start` on. -/
def contigLoop (n : Nat) : (count pfn run start : Nat) → Action (Option Nat)
  | 0, _, _, _ => return none
  | count + 1, pfn, run, start => do
    if ← Pmm.isSet pfn then
      contigLoop n count (pfn + 1) 0 start
    else
      let start := if run = 0 then pfn else start
      if run + 1 = n then do
        forRange (fun i => Pmm.set (start + i)) n 0
        subFree n
        return some (start * 4096)
      else
        contigLoop n count (pfn + 1) (run + 1) start

/-- `pmm::alloc_contig` -/
def allocContig (n : Nat) : Action (Option Nat) := do
  let allocator ← get
  contigLoop n allocator.pmm.totalPfns 0 0 0

/-- `pmm::free_frame` -/
def pmmFreeFrame (phys : Nat) : Action PUnit := do
  Pmm.freeOne (phys / 4096)
  addFree

/-! ## Initialisation -/

def maxPhys : List MemoryRegion → Nat → Option Nat
  | [], highest => some highest
  | region :: rest, highest =>
    let regionEnd := region.base + region.length
    if regionEnd < 2 ^ 64 then
      maxPhys rest (if highest < regionEnd then regionEnd else highest)
    else
      none

def findBitmap (bitmapPages : Nat) (regions : List MemoryRegion) : Option Nat :=
  (regions.find? fun region => isFree region.kind && bitmapPages ≤ region.length / 4096).map
    (·.base)

/-- Clear the bits of `pages` frames from `pfn` on and count them; stop at the end of
memory. -/
def clearFrames : (pages pfn : Nat) → Action PUnit
  | 0, _ => pure ⟨⟩
  | pages + 1, pfn => do
    let allocator ← get
    if allocator.pmm.totalPfns ≤ pfn then
      pure ⟨⟩
    else do
      Pmm.clear pfn
      modify fun allocator => { allocator with freeFrames := allocator.freeFrames + 1 }
      clearFrames pages (pfn + 1)

def clearRegions : List MemoryRegion → Action PUnit
  | [] => pure ⟨⟩
  | region :: rest => do
    if isFree region.kind then
      clearFrames (region.length / 4096) (region.base / 4096)
    else
      pure ⟨⟩
    clearRegions rest

/-- `if !pmm.is_set(pfn) { pmm.set(pfn); free -= 1; }` -/
def reserveFrame (pfn : Nat) : Action PUnit := do
  if ← Pmm.isSet pfn then
    pure ⟨⟩
  else do
    Pmm.set pfn
    let allocator ← get
    if allocator.freeFrames = 0 then
      abort
    else
      modify fun allocator => { allocator with freeFrames := allocator.freeFrames - 1 }

/-- Page 0 is never handed out; here the counter saturates. -/
def reserveZero : Action PUnit := do
  if ← Pmm.isSet 0 then
    pure ⟨⟩
  else do
    Pmm.set 0
    modify fun allocator => { allocator with freeFrames := allocator.freeFrames - 1 }

def bitmapPagesOf (totalPfns : Nat) : Nat := ((totalPfns + 7) / 8 + 4095) / 4096

def Allocator.reserved (totalPfns bitmapPhys : Nat) : Allocator where
  pmm :=
    { bitmap := List.replicate ((totalPfns + 7) / 8) 0xFF
      bitmapPhys, basePfn := 0, totalPfns, nextHint := 0 }
  totalFrames := totalPfns
  freeFrames := 0

/-- The part of `pmm::init` that fills the bitmap. -/
def fillBitmap (regions : List MemoryRegion) (totalPfns bitmapPhys : Nat) : Action PUnit := do
  clearRegions regions
  forRange (fun i => reserveFrame (bitmapPhys / 4096 + i)) (bitmapPagesOf totalPfns) 0
  reserveZero

/-- `pmm::init`; `none` stands for a panic. -/
def pmmInit (regions : List MemoryRegion) : Option Allocator := do
  let highest ← maxPhys regions 0
  let totalPfns := (highest + 4095) / 4096
  let bitmapPhys ← findBitmap (bitmapPagesOf totalPfns) regions
  -- the bitmap is written through the direct map, and the sum must not overflow
  guard (hhdmOffset + bitmapPhys < 2 ^ 64)
  match fillBitmap regions totalPfns bitmapPhys (.reserved totalPfns bitmapPhys) with
  | .ok _ allocator => some allocator
  | _ => none

end PersonaOS.Mm
