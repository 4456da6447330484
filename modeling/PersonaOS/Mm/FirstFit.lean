import Mathlib.Data.Finset.Max
import PersonaOS.Mm.FramePool

/-! # The allocator hands out the lowest frames

No frame below the search hint is free: a search leaves the hint right behind the frame
it found, and giving a frame back pulls the hint down to it. So a search for one frame
finds the lowest free one, and a search for a run, which always starts at frame 0, finds
the lowest run. -/

namespace PersonaOS.Mm

open Boot Program

/-! ## What bits and counter do not touch

Most programs only change bits and count frames. Whatever does not depend on these they
leave as it was. -/

/-- The program leaves what `observe` sees as it was. -/
def Leaves {α β : Type} (observe : Allocator → β) (program : Action α) : Prop :=
  ∀ allocator, (program allocator).Meets
    (fun _ after => observe after = observe allocator) (fun _ _ => True) True

/-- What `observe` sees depends neither on the bits nor on the counter. -/
structure Unmarked {β : Type} (observe : Allocator → β) : Prop where
  byte : ∀ (allocator : Allocator) (position : Nat) (byte : UInt8),
    observe { allocator with
      pmm := { allocator.pmm with bitmap := allocator.pmm.bitmap.set position byte } } =
      observe allocator
  count : ∀ (allocator : Allocator) (count : Nat),
    observe { allocator with freeFrames := count } = observe allocator

namespace Leaves

section Steps

variable {α β γ : Type} {observe : Allocator → γ}

theorem pure (value : α) : Leaves observe (Pure.pure value : Action α) := fun _ => rfl

theorem bind {program : Action α} {next : α → Action β} (first : Leaves observe program)
    (rest : ∀ value, Leaves observe (next value)) : Leaves observe (program >>= next) := by
  intro allocator
  apply Outcome.Meets.bind (first allocator)
  intro value middle same
  apply (rest value middle).mono _ (fun _ _ => id) id
  intro _ after sameAfter
  exact sameAfter.trans same

theorem get : Leaves observe (Program.get : Action Allocator) := fun _ => rfl

theorem abort : Leaves observe (Program.abort : Action α) := fun _ => trivial

theorem isSet (pfn : Nat) : Leaves observe (Pmm.isSet pfn) := by
  intro allocator
  unfold Pmm.isSet
  split
  · rfl
  · trivial

theorem forRange {body : Nat → Action PUnit} (keeps : ∀ i, Leaves observe (body i))
    (count start : Nat) : Leaves observe (Program.forRange body count start) := by
  induction count generalizing start with
  | zero => exact pure _
  | succ count induction => exact bind (keeps start) fun _ => induction (start + 1)

end Steps

variable {γ : Type} {observe : Allocator → γ} (unmarked : Unmarked observe)

include unmarked

theorem modifyCount (count : Allocator → Nat) :
    Leaves observe (modify fun allocator => { allocator with freeFrames := count allocator }) :=
  fun allocator => unmarked.count allocator (count allocator)

theorem updateByte (pfn : Nat) (change : UInt8 → UInt8) :
    Leaves observe (Pmm.updateByte pfn change) := by
  intro allocator
  unfold Pmm.updateByte
  split
  · exact unmarked.byte allocator _ _
  · trivial

theorem contigLoop (n count pfn run start : Nat) :
    Leaves observe (contigLoop n count pfn run start) := by
  induction count generalizing pfn run start with
  | zero => exact pure _
  | succ count induction =>
    unfold Mm.contigLoop
    apply bind (isSet pfn)
    intro taken
    split
    · exact induction _ _ _
    · simp only
      split
      · apply bind (forRange (fun i => updateByte unmarked _ _) _ _)
        intro _
        exact bind (modifyCount unmarked _) fun _ => pure _
      · exact induction _ _ _

theorem allocContig (n : Nat) : Leaves observe (allocContig n) :=
  bind get fun _ => contigLoop unmarked _ _ _ _ _

theorem clearFrames (pages pfn : Nat) : Leaves observe (clearFrames pages pfn) := by
  induction pages generalizing pfn with
  | zero => exact pure _
  | succ pages induction =>
    unfold Mm.clearFrames
    apply bind get
    intro allocator
    split
    · exact pure _
    · apply bind (updateByte unmarked _ _)
      intro _
      exact bind (modifyCount unmarked _) fun _ => induction _

theorem clearRegions (regions : List MemoryRegion) : Leaves observe (clearRegions regions) := by
  induction regions with
  | nil => exact pure _
  | cons region rest induction =>
    unfold Mm.clearRegions
    split
    · exact bind (clearFrames unmarked _ _) fun _ => induction
    · exact induction

theorem reserveFrame (pfn : Nat) : Leaves observe (reserveFrame pfn) := by
  unfold Mm.reserveFrame
  apply bind (isSet pfn)
  intro taken
  split
  · exact pure _
  · apply bind (updateByte unmarked _ _)
    intro _
    apply bind get
    intro allocator
    split
    · exact abort
    · exact modifyCount unmarked _

theorem reserveZero : Leaves observe reserveZero := by
  unfold Mm.reserveZero
  apply bind (isSet 0)
  intro taken
  split
  · exact pure _
  · exact bind (updateByte unmarked _ _) fun _ => modifyCount unmarked _

theorem fillBitmap (regions : List MemoryRegion) (total phys : Nat) :
    Leaves observe (fillBitmap regions total phys) := by
  apply bind (clearRegions unmarked regions)
  intro _
  apply bind (forRange (fun i => reserveFrame unmarked _) _ _)
  intro _
  exact reserveZero unmarked

end Leaves

/-! ## Programs that leave the hint alone -/

def KeepsHint {α : Type} (program : Action α) : Prop :=
  ∀ allocator, (program allocator).Meets
    (fun _ after => after.pmm.nextHint = allocator.pmm.nextHint) (fun _ _ => True) True

theorem unmarked_hint : Unmarked fun allocator => allocator.pmm.nextHint where
  byte _ _ _ := rfl
  count _ _ := rfl

theorem KeepsHint.updateByte (pfn : Nat) (change : UInt8 → UInt8) :
    KeepsHint (Pmm.updateByte pfn change) := Leaves.updateByte unmarked_hint pfn change

theorem KeepsHint.allocContig (n : Nat) : KeepsHint (allocContig n) :=
  Leaves.allocContig unmarked_hint n

theorem KeepsHint.fillBitmap (regions : List MemoryRegion) (total phys : Nat) :
    KeepsHint (fillBitmap regions total phys) := Leaves.fillBitmap unmarked_hint regions total phys

/-- No free frame lies below the hint. -/
def HintBelow (allocator : Allocator) (free : Finset Nat) : Prop :=
  ∀ pfn ∈ free, allocator.pmm.nextHint ≤ pfn

structure Lowest (free : Finset Nat) (lowest : Nat) : Prop where
  mem : lowest ∈ free
  le : ∀ pfn ∈ free, lowest ≤ pfn

theorem exists_lowest {free : Finset Nat} (nonempty : free.Nonempty) :
    ∃ lowest, Lowest free lowest :=
  ⟨free.min' nonempty, free.min'_mem nonempty, fun _ isFree => free.min'_le _ isFree⟩

namespace Represents

variable {allocator : Allocator} {total phys : Nat} {free : Finset Nat} {count lowest : Nat}
  (represents : Represents allocator total phys free count)

include represents

/-- A search that has not yet reached the lowest free frame goes on to it. It runs out of
fuel only if that is less than the distance. -/
theorem allocLoop_lowest {start pfn : Nat} (fuel : Nat) (isLowest : Lowest free lowest)
    (begun : start ≤ pfn) (before : pfn ≤ lowest) :
    (Pmm.allocLoop start fuel pfn allocator).Meets
      (fun result after => result = some lowest ∧ after.pmm.nextHint = lowest + 1)
      (fun _ _ => fuel ≤ lowest - pfn) False := by
  induction fuel generalizing pfn with
  | zero => exact Nat.zero_le _
  | succ fuel induction =>
    have inRange : pfn < total := before.trans_lt (represents.inside lowest isLowest.mem)
    unfold Pmm.allocLoop
    rw [get_bind_apply, represents.totalPfns, if_neg (Nat.not_le.mpr inRange), bind_apply,
      represents.isSet inRange]
    by_cases isFree : pfn ∈ free
    · have here : pfn = lowest := Nat.le_antisymm before (isLowest.le pfn isFree)
      rcases represents.set inRange with ⟨after, sets, represents'⟩
      simp only [isFree, decide_true, Bool.not_true, Bool.false_eq_true, if_false]
      rw [bind_apply, sets]
      simp only [represents.basePfn, Nat.zero_add, Pmm.setHint, modify_bind_apply]
      exact ⟨congrArg some here, congrArg (· + 1) here⟩
    · have ahead : pfn ≠ lowest := fun here => isFree (here ▸ isLowest.mem)
      simp only [isFree, decide_false, Bool.not_false, if_true]
      rw [if_neg (by omega)]
      apply (induction (by omega) (by omega)).mono (fun _ _ => id) _ id
      intro _ _ tooFew
      omega

theorem allocFrame_lowest (fuel : Nat) (isLowest : Lowest free lowest)
    (hinted : HintBelow allocator free) :
    (pmmAllocFrame fuel allocator).Meets
      (fun result after => result = some (lowest * 4096) ∧ after.pmm.nextHint = lowest + 1)
      (fun _ _ => fuel ≤ lowest) False := by
  unfold pmmAllocFrame
  have search := represents.allocLoop_lowest fuel isLowest (Nat.le_refl _)
    (hinted lowest isLowest.mem)
  apply Outcome.Meets.bind (show (Pmm.allocOne fuel allocator).Meets _ (fun _ _ => fuel ≤ lowest) _
    from search.mono (fun _ _ => id) (fun _ _ tooFew => by omega) id)
  intro result after ⟨isResult, isHint⟩
  rw [isResult]
  exact ⟨rfl, isHint⟩

theorem allocContig_lowest {n first : Nat} (positive : 0 < n) (isRun : ∀ i < n, first + i ∈ free) :
    (Mm.allocContig n allocator).Meets
      (fun result _ => ∃ found ≤ first, result = some (found * 4096))
      (fun _ _ => False) True := by
  have isClear : allocator.IsRun n first := by
    have last := represents.inside _ (isRun (n - 1) (by omega))
    refine ⟨by rw [represents.totalPfns]; omega, fun i inside => ?_⟩
    exact (represents.taken_eq_false (represents.inside _ (isRun i inside))).mpr (isRun i inside)
  apply (represents.covered.allocContig positive).mono _ (fun _ _ => id) False.elim
  intro result after finds
  cases result with
  | none => exact absurd isClear ((finds.nothing rfl).2 first)
  | some address =>
    rcases finds.found address rfl with ⟨found, isAddress, _, lowest, _⟩
    rw [isAddress]
    exact ⟨found, Nat.not_lt.mp fun before => lowest first before isClear, rfl⟩

end Represents

theorem freeOne_hint (pfn : Nat) (allocator : Allocator) :
    (Pmm.freeOne pfn allocator).Meets
      (fun _ after => after.pmm.nextHint ≤ allocator.pmm.nextHint ∧ after.pmm.nextHint ≤ pfn)
      (fun _ _ => True) True := by
  unfold Pmm.freeOne
  apply Outcome.Meets.bind (KeepsHint.updateByte _ _ allocator)
  intro _ cleared same
  rw [get_bind_apply]
  split
  · next above =>
    rw [same] at above
    exact ⟨Nat.le_of_lt above, Nat.le_refl _⟩
  · next notAbove => exact ⟨Nat.le_of_eq same, Nat.le_of_not_lt notAbove⟩

theorem pmmFreeFrame_hint (address : Nat) (allocator : Allocator) :
    (pmmFreeFrame address allocator).Meets
      (fun _ after => after.pmm.nextHint ≤ allocator.pmm.nextHint ∧
        after.pmm.nextHint ≤ address / 4096)
      (fun _ _ => True) True :=
  Outcome.Meets.bind (freeOne_hint (address / 4096) allocator) fun _ _ holds => holds

theorem pmmInit_hint {regions : List MemoryRegion} {allocator : Allocator}
    (init : pmmInit regions = some allocator) : allocator.pmm.nextHint = 0 := by
  rcases pmmInit_eq_some init with ⟨total, phys, _, ended⟩
  have kept := KeepsHint.fillBitmap regions total phys (.reserved total phys)
  rw [ended] at kept
  exact kept

/-- In a run the free frames are those of the pool that no caller holds, and none lies
below the hint. -/
structure Ordered (frames : Finset Nat) (total phys : Nat) (use : FrameUse) : Prop where
  pooled : Pooled frames total phys use
  hinted : HintBelow use.allocator (frames \ use.handed)

namespace Ordered

variable {frames : Finset Nat} {total phys : Nat} {use next : FrameUse} {event : FrameEvent}
  (ordered : Ordered frames total phys use)

include ordered

theorem step (bounded : total ≤ 2 ^ 52) (inPool : ∀ pfn ∈ frames, pfn < total)
    (step : FrameStep use event next) : Ordered frames total phys next := by
  refine ⟨(ordered.pooled.step bounded inPool step).1, ?_⟩
  cases step with
  | @allocFrame after returned fuel returns =>
    intro pfn isFree
    have wasFree := Finset.sdiff_subset_sdiff (Finset.Subset.refl frames)
      Finset.subset_union_left isFree
    rcases exists_lowest ⟨pfn, wasFree⟩ with ⟨lowest, isLowest⟩
    have meets := ordered.pooled.represents.allocFrame_lowest fuel isLowest ordered.hinted
    rw [returns] at meets
    have different : pfn ≠ lowest := by
      intro same
      rw [Finset.mem_sdiff, Finset.mem_union] at isFree
      apply isFree.2
      right
      simp [meets.1, FrameEvent.taken, same]
    have above := isLowest.le pfn wasFree
    rw [meets.2]
    omega
  | @allocContig after returned n returns =>
    have kept := KeepsHint.allocContig n use.allocator
    rw [returns] at kept
    intro pfn isFree
    rw [kept]
    apply ordered.hinted
    rw [Finset.mem_sdiff, Finset.mem_union] at isFree
    exact Finset.mem_sdiff.mpr ⟨isFree.1, fun isHeld => isFree.2 (Or.inl isHeld)⟩
  | @freeFrame after freed isHeld returns =>
    have lowered := pmmFreeFrame_hint (freed * 4096) use.allocator
    rw [returns] at lowered
    intro pfn isFree
    by_cases same : pfn = freed
    · rw [same]
      exact lowered.2.trans (by omega)
    · rw [Finset.mem_sdiff, Finset.mem_erase] at isFree
      apply lowered.1.trans
      apply ordered.hinted
      exact Finset.mem_sdiff.mpr ⟨isFree.1, fun isOld => isFree.2 ⟨same, isOld⟩⟩

theorem allocFrame_lowest {lowest fuel : Nat} (isLowest : Lowest (frames \ use.handed) lowest)
    (enough : lowest < fuel) :
    ∃ after, pmmAllocFrame fuel use.allocator = .ok (some (lowest * 4096)) after := by
  have takes := (ordered.pooled.represents.allocFrame_lowest fuel isLowest ordered.hinted).mono
    (fun _ _ found => found.1) (fun _ _ few => Nat.not_lt.mpr few enough) id
  rcases takes.returns with ⟨_, after, returned, rfl⟩
  exact ⟨after, returned⟩

end Ordered

theorem ordered_of_run {regions : List MemoryRegion} {allocator : Allocator}
    (aligned : ∀ region ∈ regions, Aligned region) (apart : regions.Pairwise Apart)
    (init : pmmInit regions = some allocator) {events : List FrameEvent} {use : FrameUse}
    (run : Trace FrameStep ⟨allocator, ∅⟩ events use) :
    ∃ total phys, Placed regions total phys ∧ allocator.pmm.totalPfns = total ∧
      allocator.pmm.bitmapPhys = phys ∧ Ordered (pool regions total phys) total phys use := by
  rcases pmmInit_spec aligned apart init with ⟨total, phys, placed, represents⟩
  refine ⟨total, phys, placed, represents.totalPfns, represents.bitmapPhys, ?_⟩
  apply Trace.invariant (Ordered (pool regions total phys) total phys) _ run
  · refine ⟨⟨by simpa using represents, Finset.empty_subset _⟩, ?_⟩
    intro pfn _
    rw [pmmInit_hint init]
    exact Nat.zero_le _
  · exact fun held step => held.step placed.bounded represents.inside step

end PersonaOS.Mm
