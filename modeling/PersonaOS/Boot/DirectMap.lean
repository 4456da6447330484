import PersonaOS.Boot.BootTables

/-! # The direct map of the bootloader

Mapping a region of 2 MiB pages writes the entries of the region and no others, and
loading a segment leaves everything alone that is not at the kernel's own addresses. So
the direct map the kernel starts with is known exactly: it reaches the first 4 GiB and
the framebuffer, and nothing else. -/

namespace PersonaOS.Boot

open Program Mm

/-! ## Regions -/

theorem slotOf_eq_iff {virt other : Nat} (small : virt < 2 ^ 64) (canonical : Canonical virt)
    (otherSmall : other < 2 ^ 64) (otherCanonical : Canonical other) :
    slotOf virt = slotOf other ↔ virt / 0x200000 = other / 0x200000 := by
  unfold Canonical at canonical otherCanonical
  simp only [slotOf, Prod.mk.injEq, pml4Idx, pdptIdx, pdIdx, index_eq]
  omega

/-- The view once `count` pages of a region are mapped. -/
def mapped (view : Slot → PageTableEntry) (virt phys : Nat) (flags : PageTableFlags) :
    (count : Nat) → Slot → PageTableEntry
  | 0 => view
  | count + 1 => Function.update (mapped view virt phys flags count)
      (slotOf (virt + count * 0x200000)) (bigPage (phys + count * 0x200000) flags)

section Mapped

variable {view : Slot → PageTableEntry} {virt phys count : Nat} {flags : PageTableFlags}
  {slot : Slot}

theorem mapped_next (noTables : ∀ slot, (view slot).next = none) (slot : Slot) :
    (mapped view virt phys flags count slot).next = none := by
  induction count with
  | zero => exact noTables slot
  | succ count induction =>
    rw [mapped, Function.update_apply]
    split
    · rfl
    · exact induction

theorem mapped_of_outside (outside : ∀ i < count, slot ≠ slotOf (virt + i * 0x200000)) :
    mapped view virt phys flags count slot = view slot := by
  induction count with
  | zero => rfl
  | succ count induction =>
    rw [mapped, Function.update_of_ne (outside count (Nat.lt_succ_self _))]
    exact induction fun i inside => outside i (Nat.lt_succ_of_lt inside)

theorem mapped_of_inside {i : Nat} (inside : i < count)
    (accepts : ∀ j < count, Accepts (virt + j * 0x200000) (phys + j * 0x200000)) :
    mapped view virt phys flags count (slotOf (virt + i * 0x200000)) =
      bigPage (phys + i * 0x200000) flags := by
  induction count with
  | zero => omega
  | succ count induction =>
    rw [mapped]
    by_cases isLast : i = count
    · rw [isLast, Function.update_self]
    · rw [Function.update_of_ne]
      · exact induction (by omega) fun j before => accepts j (Nat.lt_succ_of_lt before)
      · have here := accepts i inside
        have last := accepts count (Nat.lt_succ_self _)
        rw [Ne, slotOf_eq_iff here.1 here.2.1 last.1 last.2.1]
        omega

end Mapped

section Regions

variable {start : List Allocation} {limit left : Nat} {pml4 : Frame}
  {view : Slot → PageTableEntry} {loader : Loader} {firmware : Firmware} {panics : Prop}

theorem Tables.mapRegion2m {virt phys count length : Nat} (flags : PageTableFlags)
    (isCount : (length + 0x1FFFFF) / 0x200000 = count)
    (tables : Tables firmware start limit pml4 view (left + 2 * count) loader)
    (refused : ¬firmware.Generous limit → panics)
    (accepts : ∀ i < count, Accepts (virt + i * 0x200000) (phys + i * 0x200000))
    (noTables : ∀ slot, (view slot).next = none) :
    (mapRegion2m firmware pml4 virt phys length flags loader).Meets
      (fun _ => Tables firmware start limit pml4 (mapped view virt phys flags count) left)
      (fun _ _ => False) panics := by
  unfold Boot.mapRegion2m
  rw [isCount]
  have run : (forRange (fun i => Boot.mapPage2m firmware pml4 (virt + i * 0x200000)
      (phys + i * 0x200000) flags) count 0 loader).Meets
      (fun _ => Tables firmware start limit pml4 (mapped view virt phys flags (0 + count))
        (left + 2 * (count - (0 + count)))) (fun _ _ => False) panics := by
    apply Outcome.Meets.forRange fun i =>
      Tables firmware start limit pml4 (mapped view virt phys flags i) (left + 2 * (count - i))
    · exact tables
    · intro i current _ before held
      have budget : left + 2 * (count - i) = left + 2 * (count - (i + 1)) + 2 := by omega
      rw [budget] at held
      exact held.mapPage2m refused (fun rejects => absurd (accepts i (by omega)) rejects)
        (mapped_next noTables _)
  simpa using run

def kernelBase : Nat := 0xFFFFFFFF80000000

def KernelSlot (slot : Slot) : Prop :=
  ∃ virt, kernelBase ≤ virt ∧ virt < 2 ^ 64 ∧ slot = slotOf virt

structure KernelMapped (view view' : Slot → PageTableEntry) : Prop where
  outside : ∀ slot, ¬KernelSlot slot → view' slot = view slot
  inside : ∀ slot, KernelSlot slot → (view' slot).flags.hugePage = false

def Loads (firmware : Firmware) (start : List Allocation) (limit : Nat) (pml4 : Frame)
    (view : Slot → PageTableEntry) (left : Nat) (loader : Loader) : Prop :=
  ∃ view', Tables firmware start limit pml4 view' left loader ∧ KernelMapped view view'

theorem Loads.mapPage4k {virt phys : Nat} {flags : PageTableFlags}
    (loads : Loads firmware start limit pml4 view (left + 3) loader) (refused : panics)
    (linked : kernelBase ≤ virt) :
    (mapPage4k firmware pml4 virt phys flags loader).Meets
      (fun _ => Loads firmware start limit pml4 view left) (fun _ _ => False) panics := by
  by_cases small : virt < 2 ^ 64
  · rcases loads with ⟨view', tables, kernelMapped⟩
    have isKernel : KernelSlot (slotOf virt) := ⟨virt, linked, small, rfl⟩
    apply (tables.mapPage4k (fun _ => refused) (fun _ => refused)
      (kernelMapped.inside _ isKernel)).mono _ (fun _ _ => id) id
    intro _ after holds
    rcases holds with ⟨next, tables', agrees⟩
    refine ⟨next, tables', ?_, ?_⟩
    · intro slot notKernel
      rcases agrees slot with same | ⟨here, _⟩
      · exact same.trans (kernelMapped.outside slot notKernel)
      · exact absurd (here ▸ isKernel) notKernel
    · intro slot isKernelSlot
      rcases agrees slot with same | ⟨_, noPage⟩
      · rw [same]
        exact kernelMapped.inside slot isKernelSlot
      · exact noPage
  · rw [Boot.mapPage4k, if_neg fun accepted => small accepted.1]
    exact refused

theorem Loads.mapRegion4k {virt phys pages : Nat} {flags : PageTableFlags}
    (loads : Loads firmware start limit pml4 view (left + 3 * pages) loader) (refused : panics)
    (linked : kernelBase ≤ virt) :
    (mapRegion4k firmware pml4 virt phys (pages * 4096) flags loader).Meets
      (fun _ => Loads firmware start limit pml4 view left) (fun _ _ => False) panics := by
  unfold Boot.mapRegion4k
  have isCount : (pages * 4096 + 4095) / 4096 = pages := by omega
  rw [isCount]
  have run : (forRange (fun i => Boot.mapPage4k firmware pml4 (virt + i * 4096)
      (phys + i * 4096) flags) pages 0 loader).Meets
      (fun _ => Loads firmware start limit pml4 view (left + 3 * (pages - (0 + pages))))
      (fun _ _ => False) panics := by
    apply Outcome.Meets.forRange fun i => Loads firmware start limit pml4 view
      (left + 3 * (pages - i))
    · exact loads
    · intro i current _ before held
      have budget : left + 3 * (pages - i) = left + 3 * (pages - (i + 1)) + 3 := by omega
      rw [budget] at held
      exact held.mapPage4k refused (by omega)
  simpa using run

/-- A segment as the linker script places it. -/
structure Segment.Linked (segment : Segment) : Prop where
  high : kernelBase ≤ segment.virtualAddr
  fits : segment.fileSize ≤ segment.memSize

def Segment.cost (segment : Segment) : Nat :=
  4 * pagesFor (segment.memSize + segment.virtualAddr % 4096)

def segmentsCost : List (Option Segment) → Nat
  | [] => 0
  | none :: rest => segmentsCost rest
  | some segment :: rest => segment.cost + segmentsCost rest

theorem Loads.loadSegment {segment : Segment} (linked : segment.Linked)
    (loads : Loads firmware start limit pml4 view (left + segment.cost) loader) (refused : panics) :
    (loadSegment firmware pml4 segment loader).Meets
      (fun _ => Loads firmware start limit pml4 view left) (fun _ _ => False) panics := by
  unfold Boot.loadSegment
  simp only [pageOffset_eq]
  split
  · generalize isPages : pagesFor (segment.memSize + segment.virtualAddr % 4096) = pages
    rcases loads with ⟨view', tables, kernelMapped⟩
    have budget : left + segment.cost = left + 3 * pages + pages := by
      rw [Segment.cost, isPages]
      omega
    rw [budget] at tables
    apply Outcome.Meets.bind (tables.allocPages .segment pages fun _ => refused)
    intro base loader' holds
    rcases holds with ⟨tables', _, _, _, unused⟩
    rw [modify_bind_apply]
    have covered : max pages (pagesFor (segment.virtualAddr % 4096 + segment.fileSize)) =
        pages := by
      have fits := linked.fits
      unfold pagesFor at isPages ⊢
      omega
    rw [covered]
    have written := tables'.writeFrames segment.contents unused
    have high : kernelBase ≤ segment.virtualAddr - segment.virtualAddr % 4096 := by
      have atLeast := linked.high
      unfold kernelBase at atLeast ⊢
      omega
    exact Loads.mapRegion4k ⟨view', written, kernelMapped⟩ refused high
  · exact refused

theorem Loads.loadSegments {segments : List (Option Segment)} {maxVirt : Nat}
    (linked : ∀ segment, some segment ∈ segments → segment.Linked)
    (loads : Loads firmware start limit pml4 view (left + segmentsCost segments) loader)
    (refused : segments ≠ [] → panics) :
    (loadSegments firmware pml4 segments maxVirt loader).Meets
      (fun _ => Loads firmware start limit pml4 view left) (fun _ _ => False) panics := by
  induction segments generalizing loader maxVirt with
  | nil => exact loads
  | cons first rest induction =>
    have linkedRest : ∀ segment, some segment ∈ rest → segment.Linked := fun segment isLater =>
      linked segment (List.mem_cons_of_mem _ isLater)
    have refuses : panics := refused (List.cons_ne_nil _ _)
    cases first with
    | none => exact induction linkedRest loads fun _ => refuses
    | some segment =>
      unfold Boot.loadSegments
      rw [segmentsCost, Nat.add_left_comm, Nat.add_comm] at loads
      have isLinked := linked segment List.mem_cons_self
      apply Outcome.Meets.bind (Loads.loadSegment isLinked loads refuses)
      intro _ loader' loads'
      by_cases small : segment.virtualAddr + segment.memSize < 2 ^ 64
      · rw [if_pos small]
        exact induction linkedRest loads' fun _ => refuses
      · rw [if_neg small]
        exact refuses

end Regions

/-! ## The direct map -/

section DirectMap

variable {memory : Memory} {pml4 : Frame} {view : Slot → PageTableEntry} {virt : Nat}

theorem levelIdx_second (virt : Nat) : levelIdx virt 2 = pdptIdx virt := (index_eq virt 30).symm

theorem levelIdx_third (virt : Nat) : levelIdx virt 1 = pdIdx virt := (index_eq virt 21).symm

theorem slots_top (memory : Memory) (virt : Nat) (pml4 : Frame) :
    slots memory virt 3 pml4 = (pml4, pml4Idx virt) ::
      match (memory pml4 (pml4Idx virt)).next with
      | some pdpt => slots memory virt 2 pdpt
      | none => [] := by
  have unfolded : slots memory virt 3 pml4 = (pml4, levelIdx virt 3) ::
      match (memory pml4 (levelIdx virt 3)).next with
      | some pdpt => slots memory virt 2 pdpt
      | none => [] := rfl
  rwa [levelIdx_top] at unfolded

theorem slots_second (memory : Memory) (virt : Nat) (pdpt : Frame) :
    slots memory virt 2 pdpt = (pdpt, pdptIdx virt) ::
      match (memory pdpt (pdptIdx virt)).next with
      | some pd => slots memory virt 1 pd
      | none => [] := by
  have unfolded : slots memory virt 2 pdpt = (pdpt, levelIdx virt 2) ::
      match (memory pdpt (levelIdx virt 2)).next with
      | some pd => slots memory virt 1 pd
      | none => [] := rfl
  rwa [levelIdx_second] at unfolded

theorem slots_third (memory : Memory) (virt : Nat) (pd : Frame) :
    slots memory virt 1 pd = (pd, pdIdx virt) ::
      match (memory pd (pdIdx virt)).next with
      | some pt => slots memory virt 0 pt
      | none => [] := by
  have unfolded : slots memory virt 1 pd = (pd, levelIdx virt 1) ::
      match (memory pd (levelIdx virt 1)).next with
      | some pt => slots memory virt 0 pt
      | none => [] := rfl
  rwa [levelIdx_third] at unfolded

theorem Tree.pointers (tree : Tree memory pml4 view) {first second pd : Nat}
    (reached : follow memory pml4 [first, second] = some pd) :
    ∃ pdpt, memory pml4 first = pointer pdpt ∧ memory pdpt second = pointer pd := by
  have split : ∀ table index, follow memory table [index] = (memory table index).next := by
    intro table index
    exact follow_concat memory table [] index
  have twoSteps := follow_concat memory pml4 [first] second
  rw [split] at twoSteps
  rcases tree.upper [] pml4 first (by decide) rfl with vacant | ⟨pdpt, isPointer⟩
  · rw [vacant] at twoSteps
    exact absurd (reached.symm.trans twoSteps) (by simp)
  · have pdptReached : follow memory pml4 [first] = some pdpt := by
      rw [split, isPointer, next_pointer]
    rw [isPointer] at twoSteps
    have lastStep : (memory pdpt second).next = some pd := twoSteps.symm.trans reached
    rcases tree.upper [first] pdpt second (by simp) pdptReached with vacant | ⟨next, isNext⟩
    · rw [vacant] at lastStep
      cases lastStep
    · rw [isNext, next_pointer] at lastStep
      cases lastStep
      exact ⟨pdpt, isPointer, isNext⟩

theorem Tree.translate_bigPage (tree : Tree memory pml4 view) {phys : Nat}
    (isPage : view (slotOf virt) = bigPage phys dataFlags) :
    translate memory pml4 virt = some
      { phys := phys / 4096 * 4096 + virt % 0x200000
        rights := ⟨false, true, true⟩
        writeThrough := false
        noCache := false } := by
  have shows := (tree.shows (slotOf virt)).trans isPage
  cases reached : follow memory pml4 [pml4Idx virt, pdptIdx virt] with
  | none =>
    rw [pdEntry_of_none reached] at shows
    have present := congrArg (·.flags.present) shows
    cases present
  | some pd =>
    rw [pdEntry_of_follow reached] at shows
    have isEntry : memory pd (pdIdx virt) = bigPage phys dataFlags := shows
    have stops : (bigPage phys dataFlags).next = none := rfl
    rcases tree.pointers reached with ⟨pdpt, isFirst, isSecond⟩
    rw [Mm.translate, slots_top, isFirst]
    simp only [next_pointer]
    rw [slots_second, isSecond]
    simp only [next_pointer]
    rw [slots_third, isEntry, stops]
    simp only [List.map_cons, List.map_nil, isFirst, isSecond, isEntry]
    rfl

theorem ofEntries_concat_unused (virt : Nat) (entries : List PageTableEntry) :
    Translation.ofEntries virt (entries ++ [.unused]) = none := by
  rw [Translation.ofEntries, List.getLast?_concat]
  rfl

theorem Tree.translate_unused (tree : Tree memory pml4 view)
    (unused : view (slotOf virt) = .unused) : translate memory pml4 virt = none := by
  have shows := (tree.shows (slotOf virt)).trans unused
  rw [Mm.translate, slots_top]
  rcases tree.upper [] pml4 (pml4Idx virt) (by decide) rfl with vacant | ⟨pdpt, isFirst⟩
  · rw [vacant, next_unused]
    simp only [List.map_cons, List.map_nil, vacant]
    exact ofEntries_concat_unused virt []
  · have pdptReached : follow memory pml4 [pml4Idx virt] = some pdpt := by
      have oneStep := follow_concat memory pml4 [] (pml4Idx virt)
      exact oneStep.trans (by simp [isFirst])
    rw [isFirst]
    simp only [next_pointer]
    rw [slots_second]
    rcases tree.upper [pml4Idx virt] pdpt (pdptIdx virt) (by simp) pdptReached with
      vacant | ⟨pd, isSecond⟩
    · rw [vacant, next_unused]
      simp only [List.map_cons, List.map_nil, isFirst, vacant]
      exact ofEntries_concat_unused virt [_]
    · have pdReached : follow memory pml4 [pml4Idx virt, pdptIdx virt] = some pd := by
        have nextStep := follow_concat memory pml4 [pml4Idx virt] (pdptIdx virt)
        rw [pdptReached, Option.bind_some, isSecond] at nextStep
        exact nextStep
      rw [pdEntry_of_follow pdReached] at shows
      have vacant : memory pd (pdIdx virt) = .unused := shows
      rw [isSecond]
      simp only [next_pointer]
      rw [slots_third, vacant, next_unused]
      simp only [List.map_cons, List.map_nil, isFirst, isSecond, vacant]
      exact ofEntries_concat_unused virt [_, _]

end DirectMap

def Framebuffer.BelowKernel (fb : Framebuffer) : Prop :=
  fb.windowStart + fb.windowLength ≤ kernelBase - hhdmOffset

/-- The physical addresses that the bootloader puts into the direct map. -/
def Framebuffer.Reaches (fb : Framebuffer) (phys : Nat) : Prop :=
  phys < identityMapBytes ∨ fb.windowStart ≤ phys ∧ phys < fb.windowStart + fb.windowLength

instance (fb : Framebuffer) (phys : Nat) : Decidable (fb.Reaches phys) := by
  unfold Framebuffer.Reaches
  infer_instance

/-- Up to the kernel's own addresses, the direct map has exactly the addresses reached. -/
def DirectMap (memory : Memory) (pml4 : Frame) (fb : Framebuffer) : Prop :=
  ∀ phys < kernelBase - hhdmOffset,
    translate memory pml4 (hhdmOffset + phys) =
      if fb.Reaches phys then
        some { phys, rights := ⟨false, true, true⟩, writeThrough := false, noCache := false }
      else
        none

def identityPages : Nat := 2048

section Build

variable {start : List Allocation} {limit left : Nat} {pml4 : Frame}
  {view : Slot → PageTableEntry} {loader : Loader} {firmware : Firmware} {panics : Prop}

theorem canonical_direct {phys : Nat} (small : phys < 2 ^ 47) :
    hhdmOffset + phys < 2 ^ 64 ∧ Canonical (hhdmOffset + phys) := by
  unfold Canonical hhdmOffset
  omega

theorem accepts_direct {base count : Nat} (fits : base + count * 0x200000 ≤ 2 ^ 47) (i : Nat)
    (inside : i < count) : Accepts (hhdmOffset + base + i * 0x200000) (base + i * 0x200000) := by
  unfold Accepts Canonical hhdmOffset
  omega

theorem mapped_direct {base count phys : Nat} (aligned : base % 0x200000 = 0)
    (fits : base + count * 0x200000 ≤ 2 ^ 47) (small : phys < 2 ^ 47) :
    mapped view (hhdmOffset + base) base dataFlags count (slotOf (hhdmOffset + phys)) =
      if base ≤ phys ∧ phys < base + count * 0x200000 then
        bigPage (phys / 0x200000 * 0x200000) dataFlags
      else
        view (slotOf (hhdmOffset + phys)) := by
  have accepts := accepts_direct fits
  have here := canonical_direct small
  split
  · next inside =>
    have inCount : (phys - base) / 0x200000 < count := by omega
    have same : slotOf (hhdmOffset + phys) =
        slotOf (hhdmOffset + base + (phys - base) / 0x200000 * 0x200000) := by
      have there := accepts _ inCount
      rw [slotOf_eq_iff here.1 here.2 there.1 there.2.1]
      unfold hhdmOffset
      omega
    rw [same, mapped_of_inside inCount accepts]
    congr 1
    omega
  · next outside =>
    apply mapped_of_outside
    intro i inside
    have there := accepts i inside
    rw [Ne, slotOf_eq_iff here.1 here.2 there.1 there.2.1]
    unfold hhdmOffset
    omega

theorem mapped_identity {count phys : Nat} {flags : PageTableFlags}
    (fits : count * 0x200000 ≤ 2 ^ 47) (small : phys < 2 ^ 47) :
    mapped view 0 0 flags count (slotOf (hhdmOffset + phys)) =
      view (slotOf (hhdmOffset + phys)) := by
  have here := canonical_direct small
  apply mapped_of_outside
  intro i inside
  have low : Canonical (0 + i * 0x200000) := Or.inl (by omega)
  rw [Ne, slotOf_eq_iff here.1 here.2 (by omega) low]
  unfold hhdmOffset
  omega

theorem Tree.empty {memory : Memory} (zero : ∀ index, memory pml4 index = .unused) :
    Tree memory pml4 (fun _ => .unused) ∧ ∀ table, IsTable memory pml4 table → table = pml4 := by
  have stops : ∀ index path, follow memory pml4 (index :: path) = none := by
    intro index path
    rw [follow, Radix.walk, zero]
    rfl
  have root : ∀ path table, follow memory pml4 path = some table → path = [] ∧ table = pml4 := by
    intro path table reached
    cases path with
    | nil => exact ⟨rfl, (Option.some.inj reached).symm⟩
    | cons index path =>
      rw [stops] at reached
      cases reached
  refine ⟨?_, ?_⟩
  · exact
      { unshared := by
          intro first path second otherPath table isFirst isSecond _ _ reached otherReached
          rw [Set.mem_singleton_iff.mp isFirst] at reached ⊢
          rw [Set.mem_singleton_iff.mp isSecond] at otherReached ⊢
          exact ⟨rfl, (root path table reached).1.trans (root otherPath table otherReached).1.symm⟩
        upper := by
          intro path table index _ reached
          rw [(root path table reached).2, zero]
          exact Or.inl rfl
        shows := fun slot => pdEntry_of_none (stops _ _)
        middle := fun _ => Or.inl rfl }
  · intro table holds
    rcases holds with ⟨first, isFirst, path, _, reached⟩
    rw [Set.mem_singleton_iff.mp isFirst] at reached
    exact (root path table reached).2

theorem Tables.zeroed {base : Nat}
    (gave : firmware.Gave (⟨.pageTable, base, 1⟩ :: loader.allocated))
    (budget : totalPages (⟨.pageTable, base, 1⟩ :: loader.allocated) + left ≤ limit)
    (aligned : 4096 ∣ base) :
    Tables firmware loader.allocated limit (base / 4096) (fun _ => .unused) left
      (Loader.writeFrames { loader with allocated := ⟨.pageTable, base, 1⟩ :: loader.allocated }
        (base / 4096) 1 fun _ _ => .unused) := by
  have zero : ∀ index, (Loader.writeFrames
      { loader with allocated := ⟨.pageTable, base, 1⟩ :: loader.allocated }
      (base / 4096) 1 fun _ _ => .unused).memory (base / 4096) index = .unused := by
    intro index
    simp [Loader.writeFrames]
  have covers : base ≤ base / 4096 * 4096 ∧ base / 4096 * 4096 < base + 1 * 4096 := by omega
  refine ⟨(Tree.empty zero).1, ?_, gave, List.suffix_cons _ _, budget⟩
  intro table isTable
  rw [(Tree.empty zero).2 table isTable]
  exact ⟨⟨.pageTable, base, 1⟩, List.mem_cons_self, covers⟩

theorem accepts_identity (i : Nat) (inside : i < identityPages) :
    Accepts (0 + i * 0x200000) (0 + i * 0x200000) := by
  unfold identityPages at inside
  unfold Accepts Canonical
  omega

def ShowsDirectMap (view : Slot → PageTableEntry) (fb : Framebuffer) : Prop :=
  ∀ phys < kernelBase - hhdmOffset, view (slotOf (hhdmOffset + phys)) =
    if fb.Reaches phys then bigPage (phys / 0x200000 * 0x200000) dataFlags else .unused

theorem Tree.directMap {memory : Memory} {fb : Framebuffer} (tree : Tree memory pml4 view)
    (shows : ShowsDirectMap view fb) : DirectMap memory pml4 fb := by
  intro phys small
  have shown := shows phys small
  split
  · next reached =>
    rw [if_pos reached] at shown
    rw [tree.translate_bigPage shown]
    congr 2
    unfold hhdmOffset
    omega
  · next notReached =>
    rw [if_neg notReached] at shown
    exact tree.translate_unused shown

def bootView (fb : Framebuffer) : Slot → PageTableEntry :=
  mapped
    (mapped (mapped (fun _ => .unused) 0 0 writableFlags identityPages) (hhdmOffset + 0) 0 dataFlags
      identityPages)
    (hhdmOffset + fb.windowStart) fb.windowStart dataFlags (fb.windowLength / 0x200000)

theorem Framebuffer.window_aligned (fb : Framebuffer) :
    fb.windowStart % 0x200000 = 0 ∧ fb.windowLength / 0x200000 * 0x200000 = fb.windowLength := by
  unfold windowStart windowLength alignUp
  omega

theorem bootView_direct {fb : Framebuffer} (below : fb.BelowKernel) {phys : Nat}
    (small : phys < 2 ^ 47) :
    bootView fb (slotOf (hhdmOffset + phys)) =
      if fb.Reaches phys then bigPage (phys / 0x200000 * 0x200000) dataFlags else .unused := by
  have aligned := fb.window_aligned
  have ends : kernelBase - hhdmOffset ≤ 2 ^ 47 := by
    unfold hhdmOffset
    decide
  unfold Framebuffer.BelowKernel at below
  rw [bootView, mapped_direct aligned.1 (by omega) small, mapped_direct rfl (by decide) small,
    mapped_identity (by decide) small, aligned.2]
  have low : 0 ≤ phys ∧ phys < 0 + identityPages * 0x200000 ↔ phys < identityMapBytes := by
    unfold identityMapBytes identityPages
    omega
  by_cases inWindow : fb.windowStart ≤ phys ∧ phys < fb.windowStart + fb.windowLength
  · have reaches : fb.Reaches phys := Or.inr inWindow
    rw [if_pos inWindow, if_pos reaches]
  · rw [if_neg inWindow]
    by_cases isLow : phys < identityMapBytes
    · have reaches : fb.Reaches phys := Or.inl isLow
      rw [if_pos (low.mpr isLow), if_pos reaches]
    · have notReached : ¬fb.Reaches phys := fun reaches => reaches.elim isLow inWindow
      rw [if_neg fun isThere => isLow (low.mp isThere), if_neg notReached]

theorem kernelMapped_bootView {fb : Framebuffer} (below : fb.BelowKernel) :
    KernelMapped (bootView fb) (bootView fb) where
  outside _ _ := rfl
  inside := by
    intro slot holds
    rcases holds with ⟨virt, high, small, isSlot⟩
    have isDirect : hhdmOffset + (virt - hhdmOffset) = virt := by
      unfold hhdmOffset
      unfold kernelBase at high
      omega
    have notReached : ¬fb.Reaches (virt - hhdmOffset) := by
      unfold Framebuffer.BelowKernel at below
      unfold Framebuffer.Reaches identityMapBytes
      unfold kernelBase hhdmOffset at *
      omega
    have inRange : virt - hhdmOffset < 2 ^ 47 := by
      unfold hhdmOffset
      omega
    rw [isSlot, ← isDirect, bootView_direct below inRange, if_neg notReached]
    rfl

theorem KernelMapped.showsDirectMap {fb : Framebuffer} {after : Slot → PageTableEntry}
    (below : fb.BelowKernel) (kernelMapped : KernelMapped (bootView fb) after) :
    ShowsDirectMap after fb := by
  intro phys small
  have inRange : phys < 2 ^ 47 := by
    unfold kernelBase hhdmOffset at small
    omega
  rw [← bootView_direct below inRange]
  apply kernelMapped.outside
  intro holds
  rcases holds with ⟨virt, high, virtSmall, same⟩
  have here := canonical_direct inRange
  rw [slotOf_eq_iff here.1 here.2 virtSmall (Or.inr (by unfold kernelBase at high; omega))] at same
  unfold kernelBase hhdmOffset at *
  omega

def tablesCost (segments : List (Option Segment)) (fb : Framebuffer) : Nat :=
  segmentsCost segments + 2 * (fb.windowLength / 0x200000) + 2 * identityPages +
    2 * identityPages + 1

theorem buildPageTables_spec {segments : List (Option Segment)} {fb : Framebuffer}
    (below : fb.BelowKernel) (linked : ∀ segment, some segment ∈ segments → segment.Linked)
    (gave : firmware.Gave loader.allocated)
    (budget : totalPages loader.allocated + (left + tablesCost segments fb) ≤ limit)
    (refused : ¬firmware.Generous limit → panics) (rejected : segments ≠ [] → panics) :
    (buildPageTables firmware segments fb loader).Meets
      (fun result after => (firmware.Generous limit → result.1 < 2 ^ 46) ∧
        ∃ view, Tables firmware loader.allocated limit (result.1 / 4096) view left after ∧
          ShowsDirectMap view fb)
      (fun _ _ => False) panics := by
  have aligned := fb.window_aligned
  have fits := below
  unfold Framebuffer.BelowKernel kernelBase hhdmOffset at fits
  have isCount : (fb.windowLength + 0x1FFFFF) / 0x200000 = fb.windowLength / 0x200000 := by omega
  have window : fb.windowStart + fb.windowLength / 0x200000 * 0x200000 ≤ 2 ^ 47 := by omega
  unfold buildPageTables
  have budget' : totalPages loader.allocated + (left + segmentsCost segments +
      2 * (fb.windowLength / 0x200000) + 2 * identityPages + 2 * identityPages + 1) ≤ limit := by
    unfold tablesCost at budget
    omega
  apply Outcome.Meets.bind (allocPages_spec .pageTable 1 gave budget' refused)
  intro base taken holds
  rcases holds with ⟨isTaken, gave, budget', atPage, small, _⟩
  rw [modify_bind_apply]
  subst isTaken
  have tables := Tables.zeroed gave budget' atPage
  apply Outcome.Meets.bind (tables.mapRegion2m writableFlags (by decide) refused
    accepts_identity fun _ => rfl)
  intro _ _ tables
  have first4G : 0 + identityPages * 0x200000 ≤ 2 ^ 47 := by decide
  have accepts : ∀ i < identityPages, Accepts (hhdmOffset + i * 0x200000) (0 + i * 0x200000) :=
    accepts_direct first4G
  apply Outcome.Meets.bind (tables.mapRegion2m dataFlags (by decide) refused accepts
    (mapped_next fun _ => rfl))
  intro _ _ tables
  apply Outcome.Meets.bind (tables.mapRegion2m dataFlags isCount refused (accepts_direct window)
    (mapped_next (mapped_next fun _ => rfl)))
  intro _ _ tables
  have loads : Loads firmware loader.allocated limit (base / 4096) (bootView fb)
      (left + segmentsCost segments) _ := ⟨_, tables, kernelMapped_bootView below⟩
  apply Outcome.Meets.bind (loads.loadSegments linked rejected)
  intro _ _ holds
  rcases holds with ⟨view, tables, kernelMapped⟩
  exact ⟨small, view, tables, kernelMapped.showsDirectMap below⟩

/-! ## The whole boot -/

def Environment.framebuffer (environment : Environment) : Framebuffer :=
  { base := hhdmOffset + environment.basePhys
    height := environment.height
    pitch := environment.stride * 4 }

/-- What the bootloader needs to know of its environment in order not to panic, apart
from the kernel's segments. -/
structure Environment.Plain (environment : Environment) : Prop where
  pitch : environment.stride * 4 < 2 ^ 32
  base : hhdmOffset + environment.basePhys < 2 ^ 64
  noSegments : environment.segments = []
  hasMap : ∃ regions, translateMap environment.finalMap = some regions

def Environment.cost (environment : Environment) : Nat :=
  0 + mmapPages + 1 + tablesCost environment.segments environment.framebuffer +
    pagesFor kernelStackSize

/-- The kernel starts on tables with the direct map, and the regions it is told of are
those of the firmware's map. -/
structure Started (firmware : Firmware) (environment : Environment) (start : List Allocation)
    (handoff : Handoff) (after : Loader) : Prop where
  directMap : DirectMap after.memory handoff.pml4 environment.framebuffer
  regions : translateMap environment.finalMap = some handoff.regions
  gave : firmware.Gave after.allocated
  stack : ∃ base, firmware.allocatePages start (pagesFor kernelStackSize) = some base ∧
    ⟨.stack, base, pagesFor kernelStackSize⟩ :: start <:+ after.allocated

theorem efiMain_spec {environment : Environment} (below : environment.framebuffer.BelowKernel)
    (linked : ∀ segment, some segment ∈ environment.segments → segment.Linked)
    (gave : firmware.Gave loader.allocated)
    (budget : totalPages loader.allocated + environment.cost ≤ limit)
    (refused : ¬(firmware.Generous limit ∧ environment.Plain) → panics) :
    (efiMain firmware environment loader).Meets
      (fun handoff after => Started firmware environment loader.allocated handoff after)
      (fun _ _ => False) panics := by
  have notGenerous : ¬firmware.Generous limit → panics := fun refuses =>
    refused fun both => refuses both.1
  have notPlain : ¬environment.Plain → panics := fun malformed =>
    refused fun both => malformed both.2
  have framed : (initFramebuffer environment.basePhys environment.stride environment.height
      loader).Meets (fun fb after => fb = environment.framebuffer ∧ after = loader)
      (fun _ _ => False) panics := by
    unfold initFramebuffer
    split
    · exact ⟨rfl, rfl⟩
    · next malformed => exact notPlain fun plain => malformed ⟨plain.pitch, plain.base⟩
  unfold efiMain
  apply Outcome.Meets.bind framed
  intro fb _ holds
  rcases holds with ⟨isFb, isLoader⟩
  rw [isFb, isLoader]
  unfold Environment.cost at budget
  apply Outcome.Meets.bind (allocPages_spec .stack _ gave budget notGenerous)
  intro stackPhys stacked holds
  rcases holds with ⟨isStacked, gave, budget, _, stackSmall, _⟩
  have answers : firmware.allocatePages loader.allocated (pagesFor kernelStackSize) =
      some stackPhys := by
    have given := gave
    rw [isStacked] at given
    cases given with
    | cons _ _ answers => exact answers
  have topped : (stackTop stackPhys stacked).Meets (fun _ after => after = stacked)
      (fun _ _ => False) panics := by
    unfold stackTop
    split
    · rfl
    · next large =>
      apply notGenerous
      intro generous
      have inHalf := stackSmall generous
      unfold hhdmOffset kernelStackSize at large
      omega
  apply Outcome.Meets.bind topped
  intro top _ isLoader
  subst isLoader
  have built := buildPageTables_spec below linked gave budget notGenerous fun someSegments =>
    notPlain fun plain => someSegments plain.noSegments
  apply Outcome.Meets.bind built
  intro result _ holds
  rcases holds with ⟨pml4Small, view, tables, shows⟩
  rw [isStacked] at tables
  apply Outcome.Meets.bind (tables.allocPages .bootInfo 1 notGenerous)
  intro infoPhys _ holds
  rcases holds with ⟨tables, _, _, infoSmall, infoUnused⟩
  apply Outcome.Meets.bind (tables.allocPages .memoryMap mmapPages notGenerous)
  intro entriesPhys allocated holds
  rcases holds with ⟨tables, isAllocated, _, entriesSmall, entriesUnused⟩
  have infoUnused' : ∀ frame, infoPhys / 4096 ≤ frame → frame < infoPhys / 4096 + 1 →
      ¬IsTable allocated.memory (result.1 / 4096) frame := by
    rw [isAllocated]
    exact infoUnused
  unfold handOver
  cases translated : translateMap environment.finalMap with
  | none =>
    apply notPlain
    intro plain
    rcases plain.hasMap with ⟨regions, isMap⟩
    rw [translated] at isMap
    cases isMap
  | some regions =>
    simp only [modify_bind_apply]
    have written := tables.writeFrames environment.mapContents entriesUnused
    have handed := written.writeFrames environment.infoContents fun frame above below isTable =>
      infoUnused' frame above below (isTable_writeFrames _ entriesUnused isTable)
    by_cases fits : hhdmOffset + entriesPhys < 2 ^ 64 ∧ hhdmOffset + infoPhys < 2 ^ 64 ∧
        result.1 < 2 ^ 52
    · rw [if_pos fits]
      exact ⟨handed.tree.directMap shows, translated, handed.gave, stackPhys, answers, handed.grown⟩
    · rw [if_neg fits]
      apply notGenerous
      intro generous
      have inHalf := And.intro (entriesSmall generous)
        (And.intro (infoSmall generous) (pml4Small generous))
      unfold hhdmOffset at fits
      omega

end Build

end PersonaOS.Boot
