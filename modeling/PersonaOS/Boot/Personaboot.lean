import PersonaOS.Boot.BootInfo
import PersonaOS.Mm.Vmm

/-! # The bootloader

`personaboot` runs under UEFI. The firmware is known by its interface. It may place an
allocation anywhere, but at a page boundary and apart from its earlier allocations. Everything
is written through the firmware's identity map, so physical memory is the model of
`Mm.PageTable`: each frame read as a page table. What the bytes of a loaded segment and of
the handoff structures read as is left open. -/

namespace PersonaOS.Boot

open Program Mm

/-! ## Firmware -/

inductive MemoryType where
  | reserved
  | loaderCode
  | loaderData
  | bootServicesCode
  | bootServicesData
  | runtimeServicesCode
  | runtimeServicesData
  | conventional
  | unusable
  | acpiReclaim
  | acpiNonVolatile
  | mmio
  | mmioPortSpace
  | palCode
  | persistentMemory
  | unaccepted
  | custom (value : Nat)
  deriving DecidableEq, Repr

structure MemoryDescriptor where
  ty : MemoryType
  physStart : Nat
  pageCount : Nat
  deriving DecidableEq, Repr

/-- What the bootloader wants memory for. -/
inductive Purpose where
  | stack
  | pageTable
  | segment
  | bootInfo
  | memoryMap
  deriving DecidableEq, Repr

/-- Pages that were allocated, all of them with type `LOADER_DATA`. -/
structure Allocation where
  purpose : Purpose
  base : Nat
  pages : Nat
  deriving DecidableEq, Repr

/-- `boot::allocate_pages`, as the specification of UEFI promises it. -/
structure Firmware where
  allocatePages : List Allocation → Nat → Option Nat
  aligned : ∀ {allocated pages base}, allocatePages allocated pages = some base → 4096 ∣ base
  apart : ∀ {allocated pages base}, allocatePages allocated pages = some base →
    ∀ earlier ∈ allocated,
      base + pages * 4096 ≤ earlier.base ∨ earlier.base + earlier.pages * 4096 ≤ base

structure Loader where
  memory : Memory
  allocated : List Allocation

/-- The bootloader has no errors to return: whatever goes wrong is a panic. -/
abbrev Boots := Program Loader Empty

/-- Write frames from `first` on, each with the given contents. -/
def Loader.writeFrames (loader : Loader) (first count : Nat)
    (contents : Nat → Nat → PageTableEntry) :
    Loader :=
  { loader with
    memory := fun frame =>
      if first ≤ frame ∧ frame < first + count then contents (frame - first)
      else loader.memory frame }

/-! ## Paging -/

section Paging

variable (firmware : Firmware)

def allocPages (purpose : Purpose) (pages : Nat) : Boots Nat := fun loader =>
  match firmware.allocatePages loader.allocated pages with
  | some base => .ok base { loader with allocated := ⟨purpose, base, pages⟩ :: loader.allocated }
  | none => .panic

def pagesFor (bytes : Nat) : Nat := (bytes + 4095) / 4096

/-- `entry.set_addr(PhysAddr::new(phys), flags)` -/
def setAddr (table : Frame) (index phys : Nat) (flags : PageTableFlags) : Boots PUnit :=
  if phys < 2 ^ 52 then
    modify fun loader =>
      { loader with memory := Radix.setEntry loader.memory table index ⟨phys / 4096, flags⟩ }
  else
    abort

/-- `PRESENT | WRITABLE` -/
def writableFlags : PageTableFlags :=
  { PageTableFlags.empty with present := true, writable := true }

/-- `PRESENT | WRITABLE | NO_EXECUTE` -/
def dataFlags : PageTableFlags := { writableFlags with noExecute := true }

/-- An entry that is not all zero is taken to point to a table, whatever its flags. -/
def ensureChild (table : Frame) (index : Nat) : Boots Frame := do
  let loader ← get
  let entry := loader.memory table index
  if entry = .unused then do
    let frame ← allocPages firmware .pageTable 1
    modify fun loader => loader.writeFrames (frame / 4096) 1 fun _ _ => .unused
    setAddr table index frame writableFlags
    return frame / 4096
  else
    return entry.frame

def walkToPd (pml4 : Frame) (virt : Nat) : Boots Frame := do
  let pdpt ← ensureChild firmware pml4 (pml4Idx virt)
  ensureChild firmware pdpt (pdptIdx virt)

def walkToPt (pml4 : Frame) (virt : Nat) : Boots Frame := do
  let pd ← walkToPd firmware pml4 virt
  ensureChild firmware pd (pdIdx virt)

/-- One turn of `map_region_2m`; `VirtAddr::new` panics on a non-canonical address. -/
def mapPage2m (pml4 : Frame) (virt phys : Nat) (flags : PageTableFlags) : Boots PUnit :=
  if virt < 2 ^ 64 ∧ Canonical virt then do
    let pd ← walkToPd firmware pml4 virt
    setAddr pd (pdIdx virt) phys { flags with hugePage := true }
  else
    abort

def mapRegion2m (pml4 : Frame) (virt phys length : Nat) (flags : PageTableFlags) : Boots PUnit :=
  forRange (fun i => mapPage2m firmware pml4 (virt + i * 0x200000) (phys + i * 0x200000) flags)
    ((length + 0x1FFFFF) / 0x200000) 0

/-- One turn of `map_region_4k` -/
def mapPage4k (pml4 : Frame) (virt phys : Nat) (flags : PageTableFlags) : Boots PUnit :=
  if virt < 2 ^ 64 ∧ Canonical virt then do
    let pt ← walkToPt firmware pml4 virt
    setAddr pt (ptIdx virt) phys flags
  else
    abort

def mapRegion4k (pml4 : Frame) (virt phys length : Nat) (flags : PageTableFlags) : Boots PUnit :=
  forRange (fun i => mapPage4k firmware pml4 (virt + i * 4096) (phys + i * 4096) flags)
    ((length + 4095) / 4096) 0

/-- A program header of type `PT_LOAD`. -/
structure Segment where
  virtualAddr : Nat
  fileSize : Nat
  memSize : Nat
  isWrite : Bool
  isExecute : Bool
  /-- What the pages of the loaded segment read as. -/
  contents : Nat → Nat → PageTableEntry

def Segment.flags (segment : Segment) : PageTableFlags :=
  { PageTableFlags.empty with
    present := true
    writable := segment.isWrite
    noExecute := !segment.isExecute }

/-- `load_segment`. The copy is not bounded by the memory size of the segment. -/
def loadSegment (pml4 : Frame) (segment : Segment) : Boots PUnit :=
  let offset := segment.virtualAddr &&& 0xFFF
  if segment.memSize + offset < 2 ^ 64 then do
    let pages := pagesFor (segment.memSize + offset)
    let phys ← allocPages firmware .segment pages
    modify fun loader =>
      loader.writeFrames (phys / 4096) (max pages (pagesFor (offset + segment.fileSize)))
        segment.contents
    mapRegion4k firmware pml4 (segment.virtualAddr - offset) phys (pages * 4096) segment.flags
  else
    abort

/-- The loop over the program headers; `none` is a header of another type. The second
result is the highest address of a segment. -/
def loadSegments (pml4 : Frame) : List (Option Segment) → (maxVirt : Nat) → Boots Nat
  | [], maxVirt => return maxVirt
  | none :: rest, maxVirt => loadSegments pml4 rest maxVirt
  | some segment :: rest, maxVirt => do
    loadSegment firmware pml4 segment
    let virtEnd := segment.virtualAddr + segment.memSize
    if virtEnd < 2 ^ 64 then
      loadSegments pml4 rest (if maxVirt < virtEnd then virtEnd else maxVirt)
    else
      abort

def identityMapBytes : Nat := 4 * 1024 * 1024 * 1024

def alignUp (bytes unit : Nat) : Nat := (bytes + unit - 1) / unit * unit

/-- The fields of `Framebuffer` that the page tables depend on. -/
structure Framebuffer where
  base : Nat
  height : Nat
  pitch : Nat

/-- `init_framebuffer`, given what the graphics protocol reports. -/
def initFramebuffer (basePhys stride height : Nat) : Boots Framebuffer :=
  if stride * 4 < 2 ^ 32 ∧ hhdmOffset + basePhys < 2 ^ 64 then
    return { base := hhdmOffset + basePhys, height, pitch := stride * 4 }
  else
    abort

def Framebuffer.windowStart (fb : Framebuffer) : Nat := (fb.base - hhdmOffset) / 0x200000 * 0x200000

def Framebuffer.windowLength (fb : Framebuffer) : Nat :=
  alignUp (fb.pitch * fb.height + (fb.base - hhdmOffset) % 0x200000) 0x200000

/-- `build_page_tables` -/
def buildPageTables (segments : List (Option Segment)) (fb : Framebuffer) : Boots (Nat × Nat) := do
  let pml4Phys ← allocPages firmware .pageTable 1
  let pml4 := pml4Phys / 4096
  modify fun loader => loader.writeFrames pml4 1 fun _ _ => .unused
  mapRegion2m firmware pml4 0 0 identityMapBytes writableFlags
  mapRegion2m firmware pml4 hhdmOffset 0 identityMapBytes dataFlags
  mapRegion2m firmware pml4 (hhdmOffset + fb.windowStart) fb.windowStart fb.windowLength dataFlags
  let maxVirt ← loadSegments firmware pml4 segments 0
  return (pml4Phys, maxVirt)

/-! ## The memory map -/

def mmapPages : Nat := 16

/-- A `MemoryRegion` takes 24 bytes. -/
def mmapCapacity : Nat := mmapPages * 4096 / 24

@[irreducible] def kernelStackSize : Nat := 64 * 1024

def MemoryType.kind : MemoryType → MemoryKind
  | .conventional => .usable
  | .bootServicesCode | .bootServicesData => .bootloaderReclaimable
  | .loaderCode | .loaderData => .bootloaderReclaimable
  | .acpiReclaim => .acpiReclaimable
  | .acpiNonVolatile => .acpiNvs
  | .unusable => .badMemory
  | _ => .reserved

/-- The region of a descriptor; the multiplication panics on overflow. -/
def MemoryDescriptor.region (descriptor : MemoryDescriptor) : Option MemoryRegion :=
  if descriptor.pageCount * 4096 < 2 ^ 64 then
    some
      { base := descriptor.physStart
        length := descriptor.pageCount * 4096
        kind := descriptor.ty.kind }
  else
    none

def translateMap (descriptors : List MemoryDescriptor) : Option (List MemoryRegion) :=
  (descriptors.take mmapCapacity).mapM (·.region)

/-! ## Handing over -/

structure Handoff where
  pml4 : Frame
  stackTop : Nat
  infoVirt : Nat
  regions : List MemoryRegion

/-- What the firmware tells the bootloader, and what the handoff structures read as. -/
structure Environment where
  basePhys : Nat
  stride : Nat
  height : Nat
  segments : List (Option Segment)
  /-- The memory map that `exit_boot_services` returns. -/
  finalMap : List MemoryDescriptor
  mapContents : Nat → Nat → PageTableEntry
  infoContents : Nat → Nat → PageTableEntry

/-- The end of `efi_main`: the memory map and the `BootInfo` are written and the jump into
the kernel is prepared. -/
def handOver (environment : Environment) (pml4Phys stackTop infoPhys entriesPhys : Nat) :
    Boots Handoff :=
  match translateMap environment.finalMap with
  | none => abort
  | some regions => do
    modify fun loader => loader.writeFrames (entriesPhys / 4096) mmapPages environment.mapContents
    modify fun loader => loader.writeFrames (infoPhys / 4096) 1 environment.infoContents
    if hhdmOffset + entriesPhys < 2 ^ 64 ∧ hhdmOffset + infoPhys < 2 ^ 64 ∧ pml4Phys < 2 ^ 52 then
      return { pml4 := pml4Phys / 4096, stackTop, infoVirt := hhdmOffset + infoPhys, regions }
    else
      abort

/-- `hhdm_offset + stack_phys + KERNEL_STACK_SIZE`, which panics on overflow. -/
def stackTop (stackPhys : Nat) : Boots Nat :=
  if hhdmOffset + stackPhys + kernelStackSize < 2 ^ 64 then
    return hhdmOffset + stackPhys + kernelStackSize
  else
    abort

/-- `efi_main`, up to the jump into the kernel. -/
def efiMain (environment : Environment) : Boots Handoff := do
  let fb ← initFramebuffer environment.basePhys environment.stride environment.height
  let stackPhys ← allocPages firmware .stack (pagesFor kernelStackSize)
  let stackTop ← stackTop stackPhys
  let tables ← buildPageTables firmware environment.segments fb
  let infoPhys ← allocPages firmware .bootInfo 1
  let entriesPhys ← allocPages firmware .memoryMap mmapPages
  handOver environment tables.1 stackTop infoPhys entriesPhys

end Paging

end PersonaOS.Boot
