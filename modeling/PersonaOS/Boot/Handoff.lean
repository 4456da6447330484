import PersonaOS.Boot.DirectMap
import PersonaOS.Mm.FirstFit

/-! # From the bootloader to the frame allocator

The allocator is built from the regions the bootloader hands over. Two things about that
matter to the kernel: that it is not given the memory it runs on, and that it can reach
what it is given through the direct map. Neither is ensured by the two programs. The
bootloader's own pages are listed as reclaimable, which the allocator takes as free, and
memory above 4 GiB is listed as usable but not mapped. What remains true is that the
allocator hands out low memory first, and that low memory is mapped. -/

namespace PersonaOS.Boot

open Program Mm

/-! ## The memory map -/

def MemoryDescriptor.Contains (descriptor : MemoryDescriptor) (address : Nat) : Prop :=
  descriptor.physStart ≤ address ∧ address < descriptor.physStart + descriptor.pageCount * 4096

/-- A memory map as UEFI specifies it: page-aligned ranges that do not overlap. -/
structure WellFormedMap (map : List MemoryDescriptor) : Prop where
  aligned : ∀ descriptor ∈ map, 4096 ∣ descriptor.physStart
  apart : map.Pairwise fun descriptor other =>
    ∀ address, ¬(descriptor.Contains address ∧ other.Contains address)

def MemoryDescriptor.toRegion (descriptor : MemoryDescriptor) : MemoryRegion where
  base := descriptor.physStart
  length := descriptor.pageCount * 4096
  kind := descriptor.ty.kind

theorem translateMap_eq {map : List MemoryDescriptor} {regions : List MemoryRegion}
    (translated : translateMap map = some regions) :
    regions = (map.take mmapCapacity).map (·.toRegion) := by
  unfold translateMap at translated
  generalize map.take mmapCapacity = taken at translated ⊢
  induction taken generalizing regions with
  | nil => simpa using translated.symm
  | cons descriptor rest induction =>
    rw [List.mapM_cons] at translated
    simp only [Option.bind_eq_bind, Option.bind_eq_some_iff] at translated
    rcases translated with ⟨region, isRegion, others, areOthers, isList⟩
    cases isList
    rw [List.map_cons, induction areOthers]
    unfold MemoryDescriptor.region at isRegion
    split at isRegion
    · cases isRegion
      rfl
    · cases isRegion

section Translated

variable {map : List MemoryDescriptor} {regions : List MemoryRegion}
  (wellFormed : WellFormedMap map) (translated : translateMap map = some regions)

include translated

theorem descriptor_of_region {region : MemoryRegion} (isRegion : region ∈ regions) :
    ∃ descriptor ∈ map, region = descriptor.toRegion := by
  rw [translateMap_eq translated] at isRegion
  rcases List.mem_map.mp isRegion with ⟨descriptor, isTaken, isRegion⟩
  exact ⟨descriptor, List.mem_of_mem_take isTaken, isRegion.symm⟩

include wellFormed

theorem aligned_of_translated : ∀ region ∈ regions, Aligned region := by
  intro region isRegion
  rcases descriptor_of_region translated isRegion with ⟨descriptor, isDescriptor, same⟩
  rw [same]
  exact ⟨wellFormed.aligned descriptor isDescriptor, Nat.dvd_mul_left _ _⟩

theorem apart_of_translated : regions.Pairwise Apart := by
  rw [translateMap_eq translated, List.pairwise_map]
  exact wellFormed.apart.sublist (List.take_sublist _ _)

end Translated

theorem efiMain_regions {firmware : Firmware} {environment : Environment} {loader after : Loader}
    {handoff : Handoff} (boots : efiMain firmware environment loader = .ok handoff after) :
    translateMap environment.finalMap = some handoff.regions := by
  have anything {α : Type} (outcome : Outcome Loader Empty α) :
      outcome.Meets (fun _ _ => True) (fun _ _ => True) True := by
    cases outcome <;> trivial
  have meets : (efiMain firmware environment loader).Meets
      (fun handoff _ => translateMap environment.finalMap = some handoff.regions)
      (fun _ _ => True) True := by
    unfold efiMain
    apply Outcome.Meets.bind (anything _)
    intro fb _ _
    apply Outcome.Meets.bind (anything _)
    intro stackPhys _ _
    apply Outcome.Meets.bind (anything _)
    intro top _ _
    apply Outcome.Meets.bind (anything _)
    intro tables _ _
    apply Outcome.Meets.bind (anything _)
    intro infoPhys _ _
    apply Outcome.Meets.bind (anything _)
    intro entriesPhys loader' _
    unfold handOver
    cases translated : translateMap environment.finalMap with
    | none => trivial
    | some regions =>
      simp only [modify_bind_apply]
      by_cases fits : hhdmOffset + entriesPhys < 2 ^ 64 ∧ hhdmOffset + infoPhys < 2 ^ 64 ∧
          tables.1 < 2 ^ 52
      · rw [if_pos fits]
        rfl
      · rw [if_neg fits]
        trivial
  rw [boots] at meets
  exact meets

/-! ## A plain machine

A firmware that gives away up to 10000 pages from 1 MiB on, one after the other, and a
kernel without segments or framebuffer: enough to carry out a boot with any memory map. -/

/-- The first frame above all allocations, and at or above 1 MiB. -/
def bumpTop : List Allocation → Nat
  | [] => 256
  | allocation :: rest => max (bumpTop rest) ((allocation.base + 4095) / 4096 + allocation.pages)

theorem le_bumpTop {allocated : List Allocation} {allocation : Allocation}
    (isAllocation : allocation ∈ allocated) :
    (allocation.base + 4095) / 4096 + allocation.pages ≤ bumpTop allocated := by
  induction allocated with
  | nil => cases isAllocation
  | cons first rest induction =>
    rw [bumpTop]
    rcases List.mem_cons.mp isAllocation with isFirst | isLater
    · rw [isFirst]
      exact Nat.le_max_right _ _
    · exact (induction isLater).trans (Nat.le_max_left _ _)

def bumpFirmware : Firmware where
  allocatePages allocated pages :=
    if bumpTop allocated + pages ≤ 10256 then some (bumpTop allocated * 4096) else none
  aligned := by
    intro allocated pages base answers
    rw [Option.ite_none_right_eq_some] at answers
    cases answers.2
    exact Nat.dvd_mul_left _ _
  apart := by
    intro allocated pages base answers earlier isEarlier
    rw [Option.ite_none_right_eq_some] at answers
    cases answers.2
    have below := le_bumpTop isEarlier
    omega

theorem bumpFirmware_answers {allocated : List Allocation} {pages base : Nat}
    (answers : bumpFirmware.allocatePages allocated pages = some base) :
    base = bumpTop allocated * 4096 ∧ bumpTop allocated + pages ≤ 10256 := by
  have split := Option.ite_none_right_eq_some.mp answers
  exact ⟨(Option.some.inj split.2).symm, split.1⟩

theorem bumpTop_of_gave {allocated : List Allocation} (gave : bumpFirmware.Gave allocated) :
    bumpTop allocated = 256 + totalPages allocated := by
  induction gave with
  | nil => rfl
  | cons purpose gave answers induction =>
    rw [totalPages] at induction
    simp only [bumpTop, (bumpFirmware_answers answers).1, totalPages, List.map_cons, List.sum_cons]
    omega

theorem taken_of_gave {allocated : List Allocation} (gave : bumpFirmware.Gave allocated)
    {frame : Nat}
    (taken : Taken allocated frame) : 256 ≤ frame ∧ frame < 10256 := by
  induction gave with
  | nil =>
    rcases taken with ⟨_, isAllocation, _⟩
    cases isAllocation
  | cons purpose gave answers induction =>
    rcases taken with ⟨allocation, isAllocation, covers⟩
    rcases List.mem_cons.mp isAllocation with isFirst | isLater
    · have top := bumpTop_of_gave gave
      have bounds := bumpFirmware_answers answers
      rw [isFirst] at covers
      simp only [Allocation.Covers] at covers
      omega
    · exact induction ⟨allocation, isLater, covers⟩

theorem bumpFirmware_generous : bumpFirmware.Generous 10000 := by
  intro allocated pages gave enough
  have top := bumpTop_of_gave gave
  exact ⟨bumpTop allocated * 4096, if_pos (by omega), by omega⟩

def plainEnvironment (finalMap : List MemoryDescriptor) : Environment where
  basePhys := 0
  stride := 0
  height := 0
  segments := []
  finalMap
  mapContents _ _ := .unused
  infoContents _ _ := .unused

theorem plainEnvironment_window (finalMap : List MemoryDescriptor) :
    (plainEnvironment finalMap).framebuffer.windowStart = 0 ∧
      (plainEnvironment finalMap).framebuffer.windowLength = 0 := by
  simp [Framebuffer.windowStart, Framebuffer.windowLength, Environment.framebuffer,
    plainEnvironment, alignUp]

theorem plainEnvironment_belowKernel (finalMap : List MemoryDescriptor) :
    (plainEnvironment finalMap).framebuffer.BelowKernel := by
  unfold Framebuffer.BelowKernel
  rw [(plainEnvironment_window finalMap).1, (plainEnvironment_window finalMap).2]
  exact Nat.zero_le _

theorem exists_boot {finalMap : List MemoryDescriptor} {regions : List MemoryRegion}
    (translated : translateMap finalMap = some regions) :
    ∃ handoff after, efiMain bumpFirmware (plainEnvironment finalMap) ⟨fun _ _ => .unused, []⟩ =
        .ok handoff after ∧
      handoff.regions = regions ∧
      DirectMap after.memory handoff.pml4 (plainEnvironment finalMap).framebuffer ∧
      ⟨.stack, 0x100000, 16⟩ ∈ after.allocated ∧
      ∀ frame, Taken after.allocated frame → 256 ≤ frame ∧ frame < 10256 := by
  have stackPages : pagesFor kernelStackSize = 16 := by
    unfold kernelStackSize
    rfl
  have plain : (plainEnvironment finalMap).Plain :=
    { pitch := by simp [plainEnvironment]
      base := by simp [plainEnvironment, hhdmOffset]
      noSegments := rfl
      hasMap := ⟨regions, translated⟩ }
  have budget : totalPages [] + (plainEnvironment finalMap).cost ≤ 10000 := by
    have noSegments : segmentsCost (plainEnvironment finalMap).segments = 0 := rfl
    rw [Environment.cost, tablesCost, (plainEnvironment_window finalMap).2, stackPages, noSegments]
    decide
  have meets : (efiMain bumpFirmware (plainEnvironment finalMap) ⟨fun _ _ => .unused, []⟩).Meets
      (fun handoff after => Started bumpFirmware (plainEnvironment finalMap) [] handoff after)
      (fun _ _ => False) False := by
    have noSegments : ∀ segment, some segment ∈ (plainEnvironment finalMap).segments →
        segment.Linked := by
      intro segment isSegment
      cases isSegment
    exact efiMain_spec (plainEnvironment_belowKernel finalMap) noSegments .nil budget
      fun refused => refused ⟨bumpFirmware_generous, plain⟩
  cases boots : efiMain bumpFirmware (plainEnvironment finalMap) ⟨fun _ _ => .unused, []⟩ with
  | ok handoff after =>
    rw [boots] at meets
    refine ⟨handoff, after, rfl, ?_, meets.directMap, ?_, ?_⟩
    · exact Option.some.inj (meets.regions.symm.trans translated)
    · rcases meets.stack with ⟨base, answers, grown⟩
      rw [stackPages] at grown
      rw [(bumpFirmware_answers answers).1] at grown
      exact grown.subset List.mem_cons_self
    · exact fun frame taken => taken_of_gave meets.gave taken
  | error fault after =>
    rw [boots] at meets
    exact meets.elim
  | panic =>
    rw [boots] at meets
    exact meets.elim

structure Booted (finalMap : List MemoryDescriptor) (regions : List MemoryRegion) (total phys : Nat)
    (handoff : Handoff) (after : Loader) (allocator : Allocator) : Prop where
  boots : efiMain bumpFirmware (plainEnvironment finalMap) ⟨fun _ _ => .unused, []⟩ =
    .ok handoff after
  init : pmmInit handoff.regions = some allocator
  directMap : DirectMap after.memory handoff.pml4 (plainEnvironment finalMap).framebuffer
  stack : ⟨.stack, 0x100000, 16⟩ ∈ after.allocated
  taken : ∀ frame, Taken after.allocated frame → 256 ≤ frame ∧ frame < 10256
  represents : Represents allocator total phys (pool regions total phys)
    (pool regions total phys).card

theorem exists_booted {finalMap : List MemoryDescriptor} {regions : List MemoryRegion}
    {highest total phys : Nat} (wellFormed : WellFormedMap finalMap)
    (translated : translateMap finalMap = some regions)
    (isHighest : maxPhys regions 0 = some highest) (isTotal : (highest + 4095) / 4096 = total)
    (nonempty : total ≠ 0) (isPhys : findBitmap (bitmapPagesOf total) regions = some phys)
    (addressable : hhdmOffset + phys < 2 ^ 64) :
    ∃ handoff after allocator, Booted finalMap regions total phys handoff after allocator := by
  rcases exists_boot translated with ⟨handoff, after, boots, isRegions, directMap, stack, taken⟩
  rcases exists_pmmInit (aligned_of_translated wellFormed translated)
    (apart_of_translated wellFormed translated) isHighest isTotal nonempty isPhys addressable with
    ⟨allocator, init, represents⟩
  rw [← isRegions] at init
  exact ⟨handoff, after, allocator, boots, init, directMap, stack, taken, represents⟩

section Booted

variable {finalMap : List MemoryDescriptor} {regions : List MemoryRegion} {total phys : Nat}
  {handoff : Handoff} {after : Loader} {allocator : Allocator}
  (booted : Booted finalMap regions total phys handoff after allocator)

include booted

theorem Booted.ordered : Ordered (pool regions total phys) total phys ⟨allocator, ∅⟩ := by
  refine ⟨⟨by simpa using booted.represents, Finset.empty_subset _⟩, ?_⟩
  intro pfn _
  rw [pmmInit_hint booted.init]
  exact Nat.zero_le _

theorem Booted.firstFrame {lowest : Nat} (isLowest : Lowest (pool regions total phys) lowest) :
    ∃ allocator', pmmAllocFrame (lowest + 1) allocator = .ok (some (lowest * 4096)) allocator' := by
  apply booted.ordered.allocFrame_lowest _ (Nat.lt_succ_self lowest)
  rwa [Finset.sdiff_empty]

theorem Booted.listed (isListed : ⟨.loaderData, 0x100000, 10000⟩ ∈ finalMap) :
    ∀ frame, Taken after.allocated frame → ∃ descriptor ∈ finalMap,
      descriptor.ty = .loaderData ∧ descriptor.Contains (frame * 4096) := by
  intro frame isTaken
  have bounds := booted.taken frame isTaken
  refine ⟨_, isListed, rfl, ?_⟩
  unfold MemoryDescriptor.Contains
  simp only
  omega

end Booted

/-! ## The memory the kernel runs on -/

/-- Enough free memory below `low` for a call. -/
def Room (low : Nat) (allocator : Allocator) : FrameCall → Prop
  | .allocFrame => ∃ pfn < low, pfn < allocator.pmm.totalPfns ∧
      Bitmap.test allocator.pmm.bitmap pfn = false
  | .allocContig n => ∃ first, first + n ≤ low ∧ ∀ i < n, first + i < allocator.pmm.totalPfns ∧
      Bitmap.test allocator.pmm.bitmap (first + i) = false
  | .freeFrame _ => True

/-- A call that finds enough free memory below `low`. -/
def RoomyStep (low : Nat) (use : FrameUse) (event : FrameEvent) (next : FrameUse) : Prop :=
  FrameStep use event next ∧ Room low use.allocator event.call

theorem mem_free_of_clear {allocator : Allocator} {total phys count pfn : Nat} {free : Finset Nat}
    (represents : Represents allocator total phys free count)
    (inRange : pfn < allocator.pmm.totalPfns)
    (clear : Bitmap.test allocator.pmm.bitmap pfn = false) : pfn ∈ free := by
  rw [represents.totalPfns] at inRange
  have isBit := represents.bits pfn inRange
  simpa [clear] using isBit

theorem taken_lt_of_room {frames : Finset Nat} {total phys low : Nat} {use next : FrameUse}
    {event : FrameEvent} (ordered : Ordered frames total phys use) (step : FrameStep use event next)
    (room : Room low use.allocator event.call) : ∀ pfn ∈ event.taken, pfn < low := by
  cases step with
  | @allocFrame after returned fuel returns =>
    rcases room with ⟨free, below, inRange, clear⟩
    have isFree := mem_free_of_clear ordered.pooled.represents inRange clear
    rcases exists_lowest ⟨free, isFree⟩ with ⟨lowest, isLowest⟩
    have meets := ordered.pooled.represents.allocFrame_lowest fuel isLowest ordered.hinted
    rw [returns] at meets
    rw [meets.1]
    intro pfn isTaken
    have isPfn : pfn = lowest := by simpa [FrameEvent.taken] using isTaken
    have atMost := isLowest.le free isFree
    omega
  | @allocContig after returned n returns =>
    rcases room with ⟨first, below, clear⟩
    intro pfn isTaken
    have positive : 0 < n := by
      cases returned with
      | none => simp [FrameEvent.taken] at isTaken
      | some address =>
        rw [FrameEvent.taken, Finset.mem_Ico] at isTaken
        omega
    have isRun : ∀ i < n, first + i ∈ frames \ use.handed := fun i inside =>
      mem_free_of_clear ordered.pooled.represents (clear i inside).1 (clear i inside).2
    have meets := ordered.pooled.represents.allocContig_lowest positive isRun
    rw [returns] at meets
    rcases meets with ⟨found, atMost, isFound⟩
    rw [isFound] at isTaken
    simp only [FrameEvent.taken, Nat.mul_div_cancel _ (show 0 < 4096 by decide),
      Finset.mem_Ico] at isTaken
    omega
  | freeFrame isHeld returns =>
    intro pfn isTaken
    simp [FrameEvent.taken] at isTaken

/-! ### Where the bitmap goes -/

/-- The frames up to the end of the highest descriptor. -/
def frameCount : List MemoryDescriptor → Nat
  | [] => 0
  | descriptor :: rest => max (descriptor.physStart / 4096 + descriptor.pageCount) (frameCount rest)

/-- The pages of the bitmap for the descriptors that are handed over. -/
def bitmapPages (map : List MemoryDescriptor) : Nat :=
  bitmapPagesOf (frameCount (map.take mmapCapacity))

/-- The first descriptor handed over that is free and large enough for the bitmap. -/
def bitmapDescriptor (map : List MemoryDescriptor) : Option MemoryDescriptor :=
  (map.take mmapCapacity).find? fun descriptor =>
    isFree descriptor.ty.kind && bitmapPages map ≤ descriptor.pageCount

theorem maxPhys_toRegion {map : List MemoryDescriptor} {frames highest : Nat}
    (aligned : ∀ descriptor ∈ map, 4096 ∣ descriptor.physStart)
    (isHighest : maxPhys (map.map (·.toRegion)) (frames * 4096) = some highest) :
    highest = max frames (frameCount map) * 4096 := by
  induction map generalizing frames with
  | nil => simpa [maxPhys, frameCount] using isHighest.symm
  | cons descriptor rest induction =>
    rcases aligned descriptor List.mem_cons_self with ⟨first, isFirst⟩
    have isEnd : descriptor.toRegion.base + descriptor.toRegion.length =
        (descriptor.physStart / 4096 + descriptor.pageCount) * 4096 := by
      simp only [MemoryDescriptor.toRegion]
      omega
    rw [List.map_cons, maxPhys, Option.ite_none_right_eq_some, isEnd] at isHighest
    have joined : (if frames * 4096 < (descriptor.physStart / 4096 + descriptor.pageCount) * 4096
        then (descriptor.physStart / 4096 + descriptor.pageCount) * 4096 else frames * 4096) =
        max frames (descriptor.physStart / 4096 + descriptor.pageCount) * 4096 := by
      split <;> omega
    rw [joined] at isHighest
    rw [induction (fun other later => aligned other (List.mem_cons_of_mem _ later)) isHighest.2,
      frameCount, Nat.max_assoc]

theorem bitmapDescriptor_of_placed {map : List MemoryDescriptor} {regions : List MemoryRegion}
    {total phys : Nat} (wellFormed : WellFormedMap map)
    (translated : translateMap map = some regions) (placed : Placed regions total phys) :
    bitmapPagesOf total = bitmapPages map ∧
      ∃ descriptor, bitmapDescriptor map = some descriptor ∧ descriptor.physStart = phys := by
  have isRegions := translateMap_eq translated
  rcases placed.isTotal with ⟨highest, isHighest, isTotal⟩
  rw [isRegions, ← Nat.zero_mul 4096] at isHighest
  have isCount := maxPhys_toRegion
    (fun descriptor isTaken => wellFormed.aligned descriptor (List.mem_of_mem_take isTaken))
    isHighest
  have pages : bitmapPagesOf total = bitmapPages map := by
    rw [bitmapPages]
    congr 1
    omega
  refine ⟨pages, ?_⟩
  have found := placed.found
  rw [findBitmap, isRegions, List.find?_map, Option.map_map, pages] at found
  rcases Option.map_eq_some_iff.mp found with ⟨descriptor, isFound, isPhys⟩
  refine ⟨descriptor, ?_, isPhys⟩
  rw [← isFound, bitmapDescriptor]
  congr 1
  funext other
  simp [MemoryDescriptor.toRegion]

theorem WellFormedMap.eq_of_contains {map : List MemoryDescriptor} (wellFormed : WellFormedMap map)
    {first second : MemoryDescriptor} {address : Nat} (isFirst : first ∈ map)
    (isSecond : second ∈ map) (inFirst : first.Contains address)
    (inSecond : second.Contains address) : first = second := by
  by_contra different
  have symm : Std.Symm fun descriptor other : MemoryDescriptor =>
      ∀ address, ¬(descriptor.Contains address ∧ other.Contains address) :=
    ⟨fun _ _ apart address both => apart address both.symm⟩
  exact wellFormed.apart.forall isFirst isSecond different address ⟨inFirst, inSecond⟩

/-- The bootloader's own pages are not handed out, and the bitmap is not put there, if the
descriptor that the bitmap goes to is not loader data or has room for it below the lowest of
these pages, and every call finds room below that page. -/
theorem loader_pages_kept {firmware : Firmware} {environment : Environment} {memory : Memory}
    {handoff : Handoff} {after : Loader} {allocator : Allocator} {low : Nat}
    {events : List FrameEvent} {use : FrameUse}
    (wellFormed : WellFormedMap environment.finalMap)
    (boots : efiMain firmware environment ⟨memory, []⟩ = .ok handoff after)
    (listed : ∀ frame, Taken after.allocated frame → ∃ descriptor ∈ environment.finalMap,
      descriptor.ty = .loaderData ∧ descriptor.Contains (frame * 4096))
    (init : pmmInit handoff.regions = some allocator)
    (above : ∀ frame, Taken after.allocated frame → low ≤ frame)
    (place : ∀ descriptor ∈ bitmapDescriptor environment.finalMap,
      descriptor.ty ≠ .loaderData ∨
        descriptor.physStart / 4096 + bitmapPages environment.finalMap ≤ low)
    (run : Trace (RoomyStep low) ⟨allocator, ∅⟩ events use) :
    (∀ page < bitmapPagesOf allocator.pmm.totalPfns,
      ¬Taken after.allocated (allocator.pmm.bitmapPhys / 4096 + page)) ∧
    ∀ event next, RoomyStep low use event next →
      ∀ pfn ∈ event.taken, ¬Taken after.allocated pfn := by
  have translated := efiMain_regions boots
  rcases ordered_of_run (aligned_of_translated wellFormed translated)
    (apart_of_translated wellFormed translated) init (run.mono fun step => step.1) with
    ⟨total, phys, placed, isTotal, isPhys, ordered⟩
  constructor
  · intro page inside isTaken
    rcases bitmapDescriptor_of_placed wellFormed translated placed with
      ⟨pages, descriptor, isDescriptor, isStart⟩
    rw [isTotal, pages] at inside
    rw [isPhys, ← isStart] at isTaken
    rcases place descriptor isDescriptor with other | below
    · have isListed := List.mem_of_mem_take (List.mem_of_find?_eq_some isDescriptor)
      have fits := List.find?_some isDescriptor
      rw [Bool.and_eq_true, decide_eq_true_eq] at fits
      rcases listed _ isTaken with ⟨loader, isLoader, isData, inLoader⟩
      have inDescriptor : descriptor.Contains ((descriptor.physStart / 4096 + page) * 4096) := by
        have aligned := Nat.div_mul_cancel (wellFormed.aligned descriptor isListed)
        unfold MemoryDescriptor.Contains
        omega
      rw [wellFormed.eq_of_contains isListed isLoader inDescriptor inLoader] at other
      exact other isData
    · have notBelow := above _ isTaken
      omega
  · intro event next step pfn isTaken isLoader
    have below := taken_lt_of_room ordered step.1 step.2 pfn isTaken
    have notBelow := above pfn isLoader
    omega

def lowMap : List MemoryDescriptor :=
  [⟨.conventional, 0x1000, 99⟩, ⟨.loaderData, 0x100000, 10000⟩]

theorem wellFormed_lowMap : WellFormedMap lowMap where
  aligned := by decide
  apart := by
    simp only [lowMap, List.pairwise_cons, List.forall_mem_cons, MemoryDescriptor.Contains]
    refine ⟨⟨?_, by simp⟩, by simp⟩
    omega

def lowRegions : List MemoryRegion :=
  [⟨0x1000, 99 * 4096, .usable⟩, ⟨0x100000, 10000 * 4096, .bootloaderReclaimable⟩]

theorem booted_lowMap : ∃ handoff after allocator,
    Booted lowMap lowRegions 10256 0x1000 handoff after allocator :=
  exists_booted wellFormed_lowMap (by decide)
    (show maxPhys lowRegions 0 = some (10256 * 4096) by decide) (by decide) (by decide) (by decide)
    (by unfold hhdmOffset; decide)

theorem lowMap_frames (handed : Finset Nat) (pfn : Nat) (inMap : 2 ≤ pfn ∧ pfn < 100)
    (handedOut : ∀ other, other ∈ handed ↔ 2 ≤ other ∧ other < pfn) :
    Lowest (pool lowRegions 10256 0x1000 \ handed) pfn := by
  have pages : bitmapPagesOf 10256 = 1 := by decide
  constructor
  · rw [Finset.mem_sdiff, mem_pool, handedOut]
    refine ⟨⟨by omega, by omega, _, List.mem_cons_self, rfl, ?_⟩, by omega⟩
    rw [frames, Finset.mem_Ico]
    dsimp only
    omega
  · intro other isFree
    rw [Finset.mem_sdiff, mem_pool, handedOut] at isFree
    omega

theorem lowMap_first : Lowest (pool lowRegions 10256 0x1000 \ ∅) 2 := by
  apply lowMap_frames ∅ 2 (by decide)
  simp only [Finset.notMem_empty, false_iff]
  omega

/-- With memory below the bootloader's pages the first frame handed out is frame 2. -/
theorem loader_pages_kept_lowMap :
    ∃ handoff after allocator next, efiMain bumpFirmware (plainEnvironment lowMap)
        ⟨fun _ _ => .unused, []⟩ = .ok handoff after ∧
      pmmInit handoff.regions = some allocator ∧
      RoomyStep 256 ⟨allocator, ∅⟩ ⟨.allocFrame, some (2 * 4096)⟩ next ∧
      ¬Taken after.allocated 2 := by
  rcases booted_lowMap with ⟨handoff, after, allocator, booted⟩
  have represents := booted.represents
  rcases booted.ordered.allocFrame_lowest lowMap_first (Nat.lt_succ_self 2) with ⟨_, returns⟩
  have clear : Bitmap.test allocator.pmm.bitmap 2 = false := by
    rw [represents.bits 2 (by decide)]
    simpa using lowMap_first.mem
  have inRange : 2 < allocator.pmm.totalPfns := by
    rw [represents.totalPfns]
    decide
  have step : RoomyStep 256 ⟨allocator, ∅⟩ ⟨.allocFrame, some (2 * 4096)⟩ _ :=
    ⟨.allocFrame 3 returns, 2, by decide, inRange, clear⟩
  have kept := loader_pages_kept wellFormed_lowMap booted.boots (booted.listed (by decide))
    booted.init (fun frame isTaken => (booted.taken frame isTaken).1) (by decide) (.nil _)
  exact ⟨handoff, after, allocator, _, booted.boots, booted.init, step,
    kept.2 _ _ step 2 (by decide)⟩

/-- Hardly any memory but what the bootloader has allocated. -/
def fullMap : List MemoryDescriptor :=
  [⟨.conventional, 0x1000, 1⟩, ⟨.loaderData, 0x100000, 10000⟩]

theorem wellFormed_fullMap : WellFormedMap fullMap where
  aligned := by decide
  apart := by
    simp only [fullMap, List.pairwise_cons, List.forall_mem_cons, MemoryDescriptor.Contains]
    refine ⟨⟨?_, by simp⟩, by simp⟩
    omega

def fullRegions : List MemoryRegion :=
  [⟨0x1000, 4096, .usable⟩, ⟨0x100000, 10000 * 4096, .bootloaderReclaimable⟩]

/-- The first frame handed out is the first page of the kernel's stack, although all of the
bootloader's pages are listed as loader data. -/
theorem kernel_stack_handed_out :
    ∃ handoff after allocator allocator', WellFormedMap fullMap ∧
      efiMain bumpFirmware (plainEnvironment fullMap) ⟨fun _ _ => .unused, []⟩ = .ok handoff after ∧
      (∀ frame, Taken after.allocated frame → ∃ descriptor ∈ fullMap,
        descriptor.ty = .loaderData ∧ descriptor.Contains (frame * 4096)) ∧
      pmmInit handoff.regions = some allocator ∧
      pmmAllocFrame 257 allocator = .ok (some 0x100000) allocator' ∧
      ⟨.stack, 0x100000, 16⟩ ∈ after.allocated := by
  have exists_ : ∃ handoff after allocator,
      Booted fullMap fullRegions 10256 0x1000 handoff after allocator :=
    exists_booted wellFormed_fullMap (by decide)
      (show maxPhys fullRegions 0 = some (10256 * 4096) by decide) (by decide) (by decide)
      (by decide) (by unfold hhdmOffset; decide)
  rcases exists_ with ⟨handoff, after, allocator, booted⟩
  have pages : bitmapPagesOf 10256 = 1 := by decide
  have isLowest : Lowest (pool fullRegions 10256 0x1000) 256 := by
    constructor
    · rw [mem_pool]
      decide
    · intro pfn isFree
      rcases mem_pool.mp isFree with ⟨nonzero, outside, region, isRegion, _, inside⟩
      rw [frames, Finset.mem_Ico] at inside
      simp only [fullRegions, List.mem_cons, List.not_mem_nil, or_false] at isRegion
      rcases isRegion with isFirst | isSecond
      · rw [isFirst] at inside
        simp only at inside
        omega
      · rw [isSecond] at inside
        simp only at inside
        omega
  rcases booted.firstFrame isLowest with ⟨allocator', returns⟩
  exact ⟨handoff, after, allocator, allocator', wellFormed_fullMap, booted.boots,
    booted.listed (by decide), booted.init, returns, booted.stack⟩

/-! ## The reach of the direct map -/

def MappedDirect (memory : Memory) (pml4 : Frame) (phys : Nat) : Prop :=
  ∃ translation, translate memory pml4 (hhdmOffset + phys) = some translation ∧
    translation.phys = phys ∧ translation.rights.writable = true

theorem DirectMap.mapped {memory : Memory} {pml4 : Frame} {fb : Framebuffer} {phys : Nat}
    (directMap : DirectMap memory pml4 fb) (below : fb.BelowKernel) (reached : fb.Reaches phys) :
    MappedDirect memory pml4 phys := by
  have small : phys < kernelBase - hhdmOffset := by
    unfold Framebuffer.BelowKernel at below
    unfold Framebuffer.Reaches identityMapBytes at reached
    unfold kernelBase hhdmOffset at *
    omega
  have translated := directMap phys small
  rw [if_pos reached] at translated
  exact ⟨_, translated, rfl, rfl⟩

/-- Frames that are handed out and the pages of the bitmap can be written through the
direct map, if all free memory of the firmware's map lies below 4 GiB or in the
framebuffer's pages. -/
theorem allocatable_frames_mapped {firmware : Firmware} {environment : Environment}
    {memory : Memory} {handoff : Handoff} {after : Loader} {allocator : Allocator}
    {events : List FrameEvent} {use : FrameUse}
    (wellFormed : WellFormedMap environment.finalMap)
    (below : environment.framebuffer.BelowKernel)
    (linked : ∀ segment, some segment ∈ environment.segments → segment.Linked)
    (boots : efiMain firmware environment ⟨memory, []⟩ = .ok handoff after)
    (reached : ∀ descriptor ∈ environment.finalMap, isFree descriptor.ty.kind = true →
      ∀ address, descriptor.Contains address → environment.framebuffer.Reaches address)
    (init : pmmInit handoff.regions = some allocator)
    (run : Trace FrameStep ⟨allocator, ∅⟩ events use) :
    (∀ offset < bitmapPagesOf allocator.pmm.totalPfns * 4096,
      MappedDirect after.memory handoff.pml4 (allocator.pmm.bitmapPhys + offset)) ∧
    ∀ event next, FrameStep use event next → ∀ pfn ∈ event.taken, ∀ offset < 4096,
      MappedDirect after.memory handoff.pml4 (pfn * 4096 + offset) := by
  have translated := efiMain_regions boots
  have aligned := aligned_of_translated wellFormed translated
  have apart := apart_of_translated wellFormed translated
  have started : (efiMain firmware environment ⟨memory, []⟩).Meets
      (fun handoff after => Started firmware environment [] handoff after) (fun _ _ => False)
      True :=
    efiMain_spec below linked .nil (Nat.le_refl _) fun _ => trivial
  rw [boots] at started
  have mapped : ∀ region ∈ handoff.regions, isFree region.kind = true →
      ∀ address, region.Contains address → MappedDirect after.memory handoff.pml4 address := by
    intro region isRegion free address inside
    rcases descriptor_of_region translated isRegion with ⟨descriptor, isDescriptor, same⟩
    subst same
    exact started.directMap.mapped below (reached descriptor isDescriptor free address inside)
  constructor
  · intro offset inBitmap
    rcases pmmInit_spec aligned apart init with ⟨total, phys, placed, represents⟩
    rcases placed.bitmap with ⟨region, isRegion, free, fits, isBase⟩
    rw [represents.totalPfns] at inBitmap
    rw [represents.bitmapPhys, ← isBase]
    apply mapped region isRegion free
    unfold MemoryRegion.Contains
    omega
  · intro event next step pfn isTaken offset inPage
    rcases pooled_of_run aligned apart init run with ⟨total, phys, placed, pooled, inPool⟩
    have handsOut := (pooled.step placed.bounded inPool step).2
    have isFrame := (Finset.mem_sdiff.mp (handsOut.fromPool isTaken)).1
    rcases mem_pool.mp isFrame with ⟨_, _, region, isRegion, free, isInside⟩
    exact mapped region isRegion free _
      (contains_of_mem_frames (aligned region isRegion) isInside inPage)

/-- With `lowMap` the bitmap and the first frame that is handed out can be written, and
so can the next one. -/
theorem allocatable_frames_mapped_lowMap :
    ∃ handoff after allocator used next, efiMain bumpFirmware (plainEnvironment lowMap)
        ⟨fun _ _ => .unused, []⟩ = .ok handoff after ∧
      pmmInit handoff.regions = some allocator ∧
      MappedDirect after.memory handoff.pml4 allocator.pmm.bitmapPhys ∧
      Trace FrameStep ⟨allocator, ∅⟩ [⟨.allocFrame, some (2 * 4096)⟩] used ∧
      FrameStep used ⟨.allocFrame, some (3 * 4096)⟩ next ∧
      MappedDirect after.memory handoff.pml4 (3 * 4096 + 4095) := by
  rcases booted_lowMap with ⟨handoff, after, allocator, booted⟩
  have reached : ∀ descriptor ∈ (plainEnvironment lowMap).finalMap,
      isFree descriptor.ty.kind = true → ∀ address, descriptor.Contains address →
        (plainEnvironment lowMap).framebuffer.Reaches address := by
    have ends : ∀ descriptor ∈ lowMap,
        descriptor.physStart + descriptor.pageCount * 4096 ≤ identityMapBytes := by decide
    intro descriptor isDescriptor _ address inside
    exact Or.inl (inside.2.trans_le (ends descriptor isDescriptor))
  have noSegments : ∀ segment, some segment ∈ (plainEnvironment lowMap).segments →
      segment.Linked := by
    intro segment isSegment
    cases isSegment
  have placed : 10256 ≤ 2 ^ 52 := by decide
  rcases booted.ordered.allocFrame_lowest lowMap_first (Nat.lt_succ_self 2) with ⟨_, returns⟩
  have step : FrameStep ⟨allocator, ∅⟩ ⟨.allocFrame, some (2 * 4096)⟩ _ := .allocFrame 3 returns
  have ordered := booted.ordered.step placed booted.represents.inside step
  have isNext := lowMap_frames {2} 3 (by decide) (by simp; omega)
  rcases ordered.allocFrame_lowest isNext (Nat.lt_succ_self 3) with ⟨_, again⟩
  have mapped := allocatable_frames_mapped wellFormed_lowMap (plainEnvironment_belowKernel lowMap)
    noSegments booted.boots reached booted.init (.single step)
  have inBitmap : 0 < bitmapPagesOf allocator.pmm.totalPfns * 4096 := by
    rw [booted.represents.totalPfns]
    decide
  exact ⟨handoff, after, allocator, _, _, booted.boots, booted.init, mapped.1 0 inBitmap,
    .single step, .allocFrame 4 again, mapped.2 _ _ (.allocFrame 4 again) 3 (by decide) 4095
      (by decide)⟩

def largeMap : List MemoryDescriptor :=
  [⟨.conventional, 0x1000, 63⟩, ⟨.loaderData, 0x100000, 10000⟩, ⟨.conventional, 0x100000000, 20000⟩]

theorem wellFormed_largeMap : WellFormedMap largeMap where
  aligned := by decide
  apart := by
    simp only [largeMap, List.pairwise_cons, List.forall_mem_cons, MemoryDescriptor.Contains]
    refine ⟨⟨?_, ?_, by simp⟩, ⟨?_, by simp⟩, by simp⟩ <;> omega

def largeRegions : List MemoryRegion :=
  [⟨0x1000, 63 * 4096, .usable⟩, ⟨0x100000, 10000 * 4096, .bootloaderReclaimable⟩,
    ⟨0x100000000, 20000 * 4096, .usable⟩]

/-- The only run of 15000 frames lies above 4 GiB, and it is handed out although the direct
map does not reach it. -/
theorem high_frames_unmapped :
    ∃ handoff after allocator allocator', WellFormedMap largeMap ∧
      efiMain bumpFirmware (plainEnvironment largeMap) ⟨fun _ _ => .unused, []⟩ =
        .ok handoff after ∧
      pmmInit handoff.regions = some allocator ∧
      allocContig 15000 allocator = .ok (some (0x100000 * 4096)) allocator' ∧
      translate after.memory handoff.pml4 (hhdmOffset + 0x100000 * 4096) = none := by
  have exists_ : ∃ handoff after allocator,
      Booted largeMap largeRegions (0x100000 + 20000) 0x1000 handoff after allocator :=
    exists_booted wellFormed_largeMap (by decide)
      (show maxPhys largeRegions 0 = some ((0x100000 + 20000) * 4096) by decide) (by decide)
      (by decide) (by decide) (by unfold hhdmOffset; decide)
  rcases exists_ with ⟨handoff, after, allocator, booted⟩
  have represents := booted.represents
  have inPool : ∀ pfn ∈ pool largeRegions (0x100000 + 20000) 0x1000,
      pfn < 10256 ∨ 0x100000 ≤ pfn := by
    intro pfn isFree
    rcases mem_pool.mp isFree with ⟨_, _, region, isRegion, _, inside⟩
    rw [frames, Finset.mem_Ico] at inside
    simp only [largeRegions, List.mem_cons, List.not_mem_nil, or_false] at isRegion
    rcases isRegion with isFirst | isSecond | isThird
    · rw [isFirst] at inside
      simp only at inside
      omega
    · rw [isSecond] at inside
      simp only at inside
      omega
    · rw [isThird] at inside
      simp only at inside
      omega
  have isRun : ∀ i < 15000, 0x100000 + i ∈ pool largeRegions (0x100000 + 20000) 0x1000 := by
    intro i inside
    have pages : bitmapPagesOf (0x100000 + 20000) = 33 := by decide
    rw [mem_pool, pages]
    refine ⟨by omega, by omega, ⟨0x100000000, 20000 * 4096, .usable⟩, by decide, rfl, ?_⟩
    rw [frames, Finset.mem_Ico]
    simp only
    omega
  have few : (pool largeRegions (0x100000 + 20000) 0x1000).card < 2 ^ 64 := by
    have within : pool largeRegions (0x100000 + 20000) 0x1000 ⊆
        Finset.range (0x100000 + 20000) := fun pfn isFree =>
      Finset.mem_range.mpr (represents.inside pfn isFree)
    have atMost := Finset.card_le_card within
    rw [Finset.card_range] at atMost
    omega
  have finds := represents.allocContig_lowest (by decide) isRun
  have takes := represents.allocContig 15000 rfl few
  cases ended : allocContig 15000 allocator with
  | ok result allocator' =>
    rw [ended] at finds takes
    rcases finds with ⟨found, atMost, isFound⟩
    rw [isFound] at takes
    rcases takes with ⟨first, isFirst, isFree, _⟩
    have same : first = found := by omega
    subst same
    have isHigh : first = 0x100000 := by
      -- a run that starts lower would contain frame 10256, which is in no region
      rcases inPool first (isFree 0 (by decide)) with isLow | isHigh
      · have gap := inPool _ (isFree (10256 - first) (by omega))
        omega
      · omega
    rw [isFound, isHigh] at ended
    refine ⟨handoff, after, allocator, allocator', wellFormed_largeMap, booted.boots, booted.init,
      ended, ?_⟩
    have small : 0x100000 * 4096 < kernelBase - hhdmOffset := by
      unfold hhdmOffset
      decide
    have notReached : ¬(plainEnvironment largeMap).framebuffer.Reaches (0x100000 * 4096) := by
      unfold Framebuffer.Reaches
      rw [(plainEnvironment_window largeMap).1, (plainEnvironment_window largeMap).2]
      decide
    rw [booted.directMap _ small, if_neg notReached]
  | error fault allocator' =>
    rw [ended] at takes
    exact takes.elim
  | panic =>
    rw [ended] at takes
    exact takes.elim

end PersonaOS.Boot
