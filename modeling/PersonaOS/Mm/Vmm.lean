import PersonaOS.Mm.PageTable

/-! # The virtual memory manager

An address space is the frame of its top-level table. Its operations walk four levels
of tables in physical memory; `map4k` allocates the intermediate tables it needs and
widens the ones it finds, and nothing ever frees one. -/

namespace PersonaOS.Mm

open Program

/-! ## Walking and mapping -/

/-- The table an entry points to: the entry's own, with its flags widened to the union
with `interFlags`, or else a fresh zeroed one. -/
def ensureChild (table : Frame) (index : Nat) (interFlags : PageTableFlags) :
    Program Machine MapError Frame := do
  let machine ← get
  let entry := machine.memory table index
  if entry.flags.present then
    let union := entry.flags.union interFlags
    if union ≠ entry.flags then
      modify fun machine => machine.writeEntry table index { entry with flags := union }
      return entry.frame
    else
      return entry.frame
  else
    let new ← okOr (← allocFrame) .outOfMemory
    modify fun machine => machine.zeroFrame new
    setAddr table index (new * 4096) interFlags
    return new

/-- `AddressSpace::map_4k` -/
def map4k (pml4 : Frame) (virt phys : Nat) (flags : MapFlags) :
    Program Machine MapError PUnit :=
  if virt &&& 0xFFF ≠ 0 ∨ phys &&& 0xFFF ≠ 0 then
    throw .misaligned
  else do
    let pdpt ← ensureChild pml4 (pml4Idx virt) flags.intermediate
    let pd ← ensureChild pdpt (pdptIdx virt) flags.intermediate
    let pt ← ensureChild pd (pdIdx virt) flags.intermediate
    let machine ← get
    if (machine.memory pt (ptIdx virt)).flags.present then
      throw .alreadyMapped
    else
      setAddr pt (ptIdx virt) phys flags.leaf

/-- `AddressSpace::map_anon`, from the `done`-th of its pages on: a failure leaves the
earlier pages mapped and the frame at hand unused. The address computation panics on
overflow. -/
def mapAnonLoop (pml4 : Frame) (virt : Nat) (flags : MapFlags) (done : Nat) :
    Nat → Program Machine MapError PUnit
  | 0 => pure ⟨⟩
  | pages + 1 => do
    let frame ← okOr (← allocFrame) .outOfMemory
    modify fun machine => machine.zeroFrame frame
    if virt + done * 4096 < 2 ^ 64 then
      map4k pml4 (virt + done * 4096) (frame * 4096) flags
      mapAnonLoop pml4 virt flags (done + 1) pages
    else
      abort

/-- `AddressSpace::map_anon` -/
def mapAnon (pml4 : Frame) (virt pages : Nat) (flags : MapFlags) :
    Program Machine MapError PUnit :=
  mapAnonLoop pml4 virt flags 0 pages

/-- The addresses `VirtAddr::new` accepts. -/
def Canonical (virt : Nat) : Prop := virt < 2 ^ 47 ∨ 2 ^ 64 - 2 ^ 47 ≤ virt

instance (virt : Nat) : Decidable (Canonical virt) := by
  unfold Canonical
  infer_instance

/-- The last-level table of `virt`, by three calls of `child_mut`. -/
def childTables (memory : Memory) (pml4 : Frame) (virt : Nat) : Option Frame := do
  let pdpt ← (memory pml4 (pml4Idx virt)).child
  let pd ← (memory pdpt (pdptIdx virt)).child
  (memory pd (pdIdx virt)).child

/-- `AddressSpace::unmap_4k`. The TLB flush panics on a non-canonical address. -/
def unmap4k (pml4 : Frame) (virt : Nat) : Program Machine MapError (Option Nat) := do
  let machine ← get
  match childTables machine.memory pml4 virt with
  | none => return none
  | some pt =>
    let slot := machine.memory pt (ptIdx virt)
    if slot.flags.present then
      if Canonical virt then
        modify fun machine => machine.writeEntry pt (ptIdx virt) .unused
        return some (slot.frame * 4096)
      else
        abort
    else
      return none

/-- `AddressSpace::phys_for_virt` -/
def physForVirt (memory : Memory) (pml4 : Frame) (virt : Nat) : Option Nat :=
  let e1 := memory pml4 (pml4Idx virt)
  if !e1.flags.present then none else
  let e2 := memory e1.frame (pdptIdx virt)
  if !e2.flags.present then none else
  let e3 := memory e2.frame (pdIdx virt)
  if !e3.flags.present then none else
  let e4 := memory e3.frame (ptIdx virt)
  if !e4.flags.present then none else
  some (e4.frame * 4096 + (virt &&& 0xFFF))

/-- `AddressSpace::is_mapped_4k` -/
def isMapped4k (memory : Memory) (pml4 : Frame) (virt : Nat) : Bool :=
  let e1 := memory pml4 (pml4Idx virt)
  if !e1.flags.present then false else
  let e2 := memory e1.frame (pdptIdx virt)
  if !e2.flags.present then false else
  let e3 := memory e2.frame (pdIdx virt)
  if !e3.flags.present then false else
  (memory e3.frame (ptIdx virt)).flags.present

/-! ## Moving pages between address spaces -/

/-- The rollback of `steal_pages`: the frames taken so far are mapped back, as user
data, and failures are ignored. -/
def mapBack (pml4 : Frame) (virt : Nat) : Nat → List Nat → Program Machine MapError PUnit
  | _, [] => pure ⟨⟩
  | done, phys :: rest => do
    let _ ← attempt (map4k pml4 (virt + done * 4096) phys .userData)
    mapBack pml4 virt (done + 1) rest

/-- `AddressSpace::steal_pages` after `stolen` was taken. -/
def stealLoop (pml4 : Frame) (virt : Nat) (stolen : List Nat) :
    Nat → Program Machine MapError (List Nat)
  | 0 => return stolen
  | pages + 1 =>
    if virt + stolen.length * 4096 < 2 ^ 64 then do
      match ← unmap4k pml4 (virt + stolen.length * 4096) with
      | some phys => stealLoop pml4 virt (stolen ++ [phys]) pages
      | none => do
        mapBack pml4 virt 0 stolen
        throw .alreadyMapped
    else
      abort

/-- `AddressSpace::steal_pages` -/
def stealPages (pml4 : Frame) (virt pages : Nat) : Program Machine MapError (List Nat) :=
  if virt &&& 0xFFF ≠ 0 then throw .misaligned else stealLoop pml4 virt [] pages

/-- `AddressSpace::install_pages` from the `done`-th frame on. -/
def installLoop (pml4 : Frame) (virt : Nat) : Nat → List Nat → Program Machine MapError PUnit
  | _, [] => pure ⟨⟩
  | done, phys :: rest =>
    if virt + done * 4096 < 2 ^ 64 then do
      map4k pml4 (virt + done * 4096) phys .userData
      installLoop pml4 virt (done + 1) rest
    else
      abort

/-- `AddressSpace::install_pages` -/
def installPages (pml4 : Frame) (virt : Nat) (frames : List Nat) :
    Program Machine MapError PUnit :=
  installLoop pml4 virt 0 frames

def userIpcBase : Nat := 0x20000000

def userIpcEnd : Nat := 0x60000000

/-- One turn of the scan of `find_user_vm_range` for each unit of fuel: `run` free pages
end right below `virt`. The window has `(userIpcEnd - userIpcBase) / 4096` pages, so that
much fuel lets the scan finish. -/
def findRangeLoop (memory : Memory) (pml4 : Frame) (pages : Nat) :
    (fuel : Nat) → (runStart : Option Nat) → (run virt : Nat) → Option Nat
  | 0, _, _, _ => none
  | fuel + 1, runStart, run, virt =>
    if virt + pages * 4096 ≤ userIpcEnd then
      if isMapped4k memory pml4 virt then
        findRangeLoop memory pml4 pages fuel none 0 (virt + 4096)
      else
        let runStart := if run = 0 then some virt else runStart
        if run + 1 = pages then runStart
        else findRangeLoop memory pml4 pages fuel runStart (run + 1) (virt + 4096)
    else
      none

/-- `AddressSpace::find_user_vm_range` -/
def findUserVmRange (memory : Memory) (pml4 : Frame) (pages : Nat) : Option Nat :=
  findRangeLoop memory pml4 pages ((userIpcEnd - userIpcBase) / 4096 + 1) none 0 userIpcBase

/-- `AddressSpace::find_user_vm_range` for any page count: the first bound of the scan
panics where it does not fit 64 bits. -/
def findUserVmRangeChecked (pml4 : Frame) (pages : Nat) :
    Program Machine MapError (Option Nat) := do
  let machine ← get
  if userIpcBase + pages * 4096 < 2 ^ 64 then
    return findUserVmRange machine.memory pml4 pages
  else
    abort

/-- `AddressSpace::new_user`: the lower half is empty and the upper half is a copy of
the kernel's top-level entries. -/
def newUser (kernelPml4 : Frame) : Program Machine MapError (Option Frame) := do
  match ← allocFrame with
  | none => return none
  | some phys =>
    modify fun machine => machine.zeroFrame phys
    modify fun machine =>
      { machine with
        memory := Function.update machine.memory phys fun index =>
          if 256 ≤ index ∧ index < 512 then machine.memory kernelPml4 index
          else machine.memory phys index }
    return some phys

/-! ## Writing user data -/

/-- What a write of data does to a frame, given the number of the page it backs and its
contents so far, read as a page table. -/
abbrev Scribble := Nat → (Nat → PageTableEntry) → Nat → PageTableEntry

/-- The loop of `copy_to_user` and of `zero_user` after `done` of `len` bytes: each turn
writes up to the end of a page, through the direct map. A turn writes at least one byte,
so `len` turns are enough. -/
def writeUserLoop (pml4 virt len : Nat) (scribble : Scribble) :
    (fuel done : Nat) → Program Machine MapError PUnit
  | 0, _ => pure ⟨⟩
  | fuel + 1, done =>
    if done < len then
      if virt + done < 2 ^ 64 then do
        let machine ← get
        let phys ← okOr (physForVirt machine.memory pml4 (virt + done)) .noVirtualSpace
        let pageLeft := 4096 - (virt + done &&& 0xFFF)
        modify fun machine =>
          { machine with
            memory := Function.update machine.memory (phys / 4096)
              (scribble ((virt + done) / 4096) (machine.memory (phys / 4096))) }
        writeUserLoop pml4 virt len scribble fuel (done + min pageLeft (len - done))
      else
        abort
    else
      pure ⟨⟩

/-- `AddressSpace::copy_to_user` of `len` bytes -/
def copyToUser (pml4 virt len : Nat) (scribble : Scribble) : Program Machine MapError PUnit :=
  writeUserLoop pml4 virt len scribble len 0

/-- `AddressSpace::zero_user` -/
def zeroUser (pml4 virt len : Nat) (scribble : Scribble) : Program Machine MapError PUnit :=
  writeUserLoop pml4 virt len scribble len 0

/-! ## Device windows -/

def mmioVaBase : Nat := 0xFFFF900000000000

def mmioVaEnd : Nat := 0xFFFF900040000000

structure KernelSpace where
  pml4 : Frame
  mmioNext : Nat
  machine : Machine

/-- `map_mmio`. A failure half way leaves the earlier pages mapped and the window taken. -/
def mapMmio (phys bytes : Nat) : Program KernelSpace MapError Nat := fun kernel =>
  if phys + bytes + 4096 < 2 ^ 64 then
    let pageOff := phys &&& 0xFFF
    let first := phys - pageOff
    let last := (phys + bytes + 4095) / 4096 * 4096
    let pages := (last - first) / 4096
    let virtBase := kernel.mmioNext
    let windowEnd := virtBase + pages * 4096
    if windowEnd < 2 ^ 64 then
      if mmioVaEnd < windowEnd then
        .error .noVirtualSpace kernel
      else
        match forRange (fun i => map4k kernel.pml4 (virtBase + i * 4096) (first + i * 4096)
          .device) pages 0 kernel.machine with
        | .ok _ machine => .ok (virtBase + pageOff) { kernel with mmioNext := windowEnd, machine }
        | .error error machine => .error error { kernel with mmioNext := windowEnd, machine }
        | .panic => .panic
    else
      .panic
  else
    .panic

end PersonaOS.Mm
