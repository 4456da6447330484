import Mathlib.Data.Finset.Card
import Mathlib.Order.Interval.Finset.Nat
import PersonaOS.Foundation.Trace
import PersonaOS.Mm.FrameBits

/-! # The frame allocator keeps a set of frames

Seen from outside the allocator is a set of free frames and a counter. `Represents` says which
bitmap stands for which set, and every operation is specified on the set: searches take frames
out of it, `free_frame` puts one back. -/

namespace PersonaOS.Mm

open Boot Program

/-- The bitmap stands for the set `free`, and the counter shows `count`. -/
structure Represents (allocator : Allocator) (total phys : Nat) (free : Finset Nat) (count : Nat) :
    Prop where
  totalPfns : allocator.pmm.totalPfns = total
  length : allocator.pmm.bitmap.length = (total + 7) / 8
  bitmapPhys : allocator.pmm.bitmapPhys = phys
  basePfn : allocator.pmm.basePfn = 0
  bits : ∀ pfn < total, Bitmap.test allocator.pmm.bitmap pfn = !decide (pfn ∈ free)
  inside : ∀ pfn ∈ free, pfn < total
  freeFrames : allocator.freeFrames = count

theorem sdiff_Ico_erase (frames : Finset Nat) (start i : Nat) :
    (frames \ Finset.Ico start (start + i)).erase (start + i) =
      frames \ Finset.Ico start (start + (i + 1)) := by
  ext other
  simp only [Finset.mem_erase, Finset.mem_sdiff, Finset.mem_Ico]
  grind

namespace Represents

variable {allocator : Allocator} {total phys : Nat} {free : Finset Nat} {count pfn : Nat}
  (represents : Represents allocator total phys free count)

include represents

/-! ## Bits -/

theorem covered : allocator.Covered := by
  rw [Allocator.Covered, represents.length, represents.totalPfns]

theorem isSet (inRange : pfn < total) :
    Pmm.isSet pfn allocator = .ok (!decide (pfn ∈ free)) allocator := by
  rw [represents.covered.isSet (represents.totalPfns.symm ▸ inRange), Allocator.taken,
    represents.bits pfn inRange]

theorem taken_eq_false (inRange : pfn < total) : allocator.taken pfn = false ↔ pfn ∈ free := by
  rw [Allocator.taken, represents.bits pfn inRange]
  simp

theorem takesRun {n first other : Nat} {after : Allocator}
    (takes : TakesRun n first allocator after) (counted : after.freeFrames = other) :
    Represents after total phys (free \ Finset.Ico first (first + n)) other where
  totalPfns := takes.totalPfns.trans represents.totalPfns
  length := takes.length.trans represents.length
  bitmapPhys := by
    rw [takes.rest]
    exact represents.bitmapPhys
  basePfn := by
    rw [takes.rest]
    exact represents.basePfn
  bits pfn inRange := by
    have isBit := takes.bits pfn
    rw [Allocator.taken, Allocator.taken, represents.bits pfn inRange] at isBit
    rw [isBit, ← decide_not, ← Bool.decide_or, ← decide_not, decide_eq_decide, Finset.mem_sdiff,
      Finset.mem_Ico]
    tauto
  inside pfn isFree := represents.inside pfn (Finset.mem_sdiff.mp isFree).1
  freeFrames := counted

theorem set (inRange : pfn < total) : ∃ after, Pmm.set pfn allocator = .ok ⟨⟩ after ∧
    Represents after total phys (free.erase pfn) count := by
  rcases represents.covered.set (represents.totalPfns.symm ▸ inRange) with
    ⟨after, sets, takes, same⟩
  have taken := represents.takesRun takes (same.trans represents.freeFrames)
  rw [Nat.Ico_succ_singleton, Finset.sdiff_singleton_eq_erase] at taken
  exact ⟨after, sets, taken⟩

theorem clear (inRange : pfn < total) : ∃ after, Pmm.clear pfn allocator = .ok ⟨⟩ after ∧
    Represents after total phys (insert pfn free) count := by
  rcases represents.covered.byte (represents.totalPfns.symm ▸ inRange) with ⟨byte, isByte⟩
  refine ⟨_, by rw [Pmm.clear, Pmm.updateByte, isByte], ?_⟩
  exact
    { totalPfns := represents.totalPfns
      length := by rw [List.length_set, represents.length]
      bitmapPhys := represents.bitmapPhys
      basePfn := represents.basePfn
      bits := by
        intro other otherInRange
        rw [Bitmap.test_set_clearBit isByte, represents.bits other otherInRange]
        by_cases same : other = pfn <;> simp [same]
      inside := by
        intro other isFree
        rcases Finset.mem_insert.mp isFree with rfl | isOld
        · exact inRange
        · exact represents.inside other isOld
      freeFrames := represents.freeFrames }

theorem setHint (hint : Nat) : Represents
    { allocator with pmm := { allocator.pmm with nextHint := hint } } total phys free count :=
  ⟨represents.totalPfns, represents.length, represents.bitmapPhys, represents.basePfn,
    represents.bits,
    represents.inside, represents.freeFrames⟩

theorem setCount (other : Nat) :
    Represents { allocator with freeFrames := other } total phys free other :=
  ⟨represents.totalPfns, represents.length, represents.bitmapPhys, represents.basePfn,
    represents.bits,
    represents.inside, rfl⟩

/-! ## Searches -/

theorem allocLoop (start fuel pfn : Nat) :
    (Pmm.allocLoop start fuel pfn allocator).Meets
      (fun result after => match result with
        | none => Represents after total phys free count
        | some found => found ∈ free ∧ Represents after total phys (free.erase found) count)
      (fun _ _ => True) True := by
  induction fuel generalizing pfn with
  | zero => exact trivial
  | succ fuel induction =>
    unfold Pmm.allocLoop
    rw [get_bind_apply, represents.totalPfns]
    have wrapped : (if total ≤ pfn then 0 else pfn) < total ∨ total = 0 := by
      split <;> omega
    generalize (if total ≤ pfn then 0 else pfn) = current at wrapped ⊢
    rcases wrapped with inRange | isEmpty
    · rw [bind_apply, represents.isSet inRange]
      by_cases isFree : current ∈ free
      · rcases represents.set inRange with ⟨after, sets, represents'⟩
        simp only [isFree, decide_true, Bool.not_true, Bool.false_eq_true, if_false]
        rw [bind_apply, sets]
        simp only [represents.basePfn, Nat.zero_add]
        exact ⟨isFree, represents'.setHint (current + 1)⟩
      · simp only [isFree, decide_false, Bool.not_false, if_true]
        split
        · exact represents
        · exact induction (current + 1)
    · -- An empty bitmap has no byte to look at.
      have noByte : allocator.pmm.bitmap[current / 8]? = none := by
        apply List.getElem?_eq_none
        rw [represents.length, isEmpty]
        exact Nat.zero_le _
      rw [bind_apply, Pmm.isSet, noByte]
      exact trivial

theorem subFree {taken : Nat} (enough : taken ≤ count) (small : count < 2 ^ 64) :
    Mm.subFree taken allocator =
        .ok ⟨⟩ { allocator with freeFrames := count - taken } := by
  have wrapped : (allocator.freeFrames + (2 ^ 64 - taken)) % 2 ^ 64 = count - taken := by
    rw [represents.freeFrames]
    omega
  rw [Mm.subFree, modify_apply, wrapped]

theorem allocFrame (fuel : Nat) (counted : count = free.card) (small : count < 2 ^ 64) :
    (pmmAllocFrame fuel allocator).Meets
      (fun result after => match result with
        | none => Represents after total phys free count
        | some address => ∃ found ∈ free, address = found * 4096 ∧
            Represents after total phys (free.erase found) (count - 1))
      (fun _ _ => True) True := by
  unfold pmmAllocFrame
  have search := represents.allocLoop allocator.pmm.nextHint fuel allocator.pmm.nextHint
  apply Outcome.Meets.bind (show (Pmm.allocOne fuel allocator).Meets _ _ _ from search)
  intro result after found
  cases result with
  | none => exact found
  | some pfn =>
    rcases found with ⟨isFree, represents'⟩
    have enough : 1 ≤ count := by
      rw [counted]
      exact Finset.card_pos.mpr ⟨pfn, isFree⟩
    simp only [bind_apply, represents'.subFree enough small]
    exact ⟨pfn, isFree, rfl, represents'.setCount _⟩

theorem allocContig (n : Nat) (counted : count = free.card) (small : count < 2 ^ 64) :
    (Mm.allocContig n allocator).Meets
      (fun result after => match result with
        | none => Represents after total phys free count
        | some address => ∃ first, address = first * 4096 ∧
            (∀ i < n, first + i ∈ free) ∧ 0 < n ∧
            Represents after total phys (free \ Finset.Ico first (first + n)) (count - n))
      (fun _ _ => False) False := by
  rcases Nat.eq_zero_or_pos n with rfl | positive
  · rw [represents.covered.allocContig_zero]
    exact represents
  · apply (represents.covered.allocContig positive).imp
    intro result after finds
    cases result with
    | none =>
      rw [(finds.nothing rfl).1]
      exact represents
    | some address =>
      rcases finds.found address rfl with ⟨first, isAddress, ⟨inRange, clear⟩, _, takes, left⟩
      rw [represents.totalPfns] at inRange
      have areFree : ∀ i < n, first + i ∈ free := by
        intro i inside
        exact (represents.taken_eq_false (by omega)).mp (clear i inside)
      have within : Finset.Ico first (first + n) ⊆ free := by
        intro pfn isTaken
        rw [Finset.mem_Ico] at isTaken
        rw [← Nat.add_sub_cancel' isTaken.1]
        exact areFree _ (by omega)
      have enough : n ≤ count := by
        rw [counted]
        simpa using Finset.card_le_card within
      rw [represents.freeFrames] at left
      exact ⟨first, isAddress, areFree, positive, represents.takesRun takes (by omega)⟩

theorem freeFrame (address : Nat) (inRange : address / 4096 < total) (small : count + 1 < 2 ^ 64) :
    (pmmFreeFrame address allocator).Meets
      (fun _ after => Represents after total phys (insert (address / 4096) free) (count + 1))
      (fun _ _ => False) False := by
  rcases represents.clear inRange with ⟨cleared, clears, represents'⟩
  have counts {current : Allocator}
      (held : Represents current total phys (insert (address / 4096) free) count) :
      (addFree current).Meets
        (fun _ after => Represents after total phys (insert (address / 4096) free) (count + 1))
        (fun _ _ => False) False := by
    have wrapped : (current.freeFrames + 1) % 2 ^ 64 = count + 1 := by
      rw [held.freeFrames, Nat.mod_eq_of_lt small]
    rw [addFree, modify_apply, wrapped]
    exact held.setCount _
  have frees : (Pmm.freeOne (address / 4096) allocator).Meets
      (fun _ after => Represents after total phys (insert (address / 4096) free) count)
      (fun _ _ => False) False := by
    unfold Pmm.freeOne
    rw [bind_apply, clears]
    simp only [get_bind_apply]
    split
    · exact represents'.setHint _
    · exact represents'
  exact Outcome.Meets.bind frees fun _ _ held => counts held

theorem reserveFrame (inRange : pfn < total) (counted : count = free.card) :
    (Mm.reserveFrame pfn allocator).Meets
      (fun _ after => Represents after total phys (free.erase pfn) (free.erase pfn).card)
      (fun _ _ => False) False := by
  unfold Mm.reserveFrame
  rw [bind_apply, represents.isSet inRange]
  by_cases isFree : pfn ∈ free
  · rcases represents.set inRange with ⟨after, sets, represents'⟩
    have nonzero : ¬count = 0 := by
      rw [counted, Finset.card_eq_zero]
      exact Finset.ne_empty_of_mem isFree
    have left : (free.erase pfn).card = count - 1 := by
      rw [Finset.card_erase_of_mem isFree, counted]
    simp only [isFree, decide_true, Bool.not_true, Bool.false_eq_true, if_false]
    rw [bind_apply, sets]
    simp only [get_bind_apply, represents'.freeFrames, nonzero, if_false, modify_apply, left]
    exact represents'.setCount _
  · simp only [isFree, decide_false, Bool.not_false, if_true]
    rw [Finset.erase_eq_of_notMem isFree, ← counted]
    exact represents

theorem reserveZero (inRange : 0 < total) (counted : count = free.card) :
    (Mm.reserveZero allocator).Meets
      (fun _ after => Represents after total phys (free.erase 0) (free.erase 0).card)
      (fun _ _ => False) False := by
  unfold Mm.reserveZero
  rw [bind_apply, represents.isSet inRange]
  by_cases isFree : 0 ∈ free
  · rcases represents.set inRange with ⟨after, sets, represents'⟩
    have left : (free.erase 0).card = count - 1 := by
      rw [Finset.card_erase_of_mem isFree, counted]
    simp only [isFree, decide_true, Bool.not_true, Bool.false_eq_true, if_false]
    rw [bind_apply, sets]
    simp only [modify_apply, represents'.freeFrames, left]
    exact represents'.setCount _
  · simp only [isFree, decide_false, Bool.not_false, if_true]
    rw [Finset.erase_eq_of_notMem isFree, ← counted]
    exact represents

theorem reserveRun {start n : Nat} (inRange : start + n ≤ total) (counted : count = free.card) :
    (forRange (fun i => Mm.reserveFrame (start + i)) n 0 allocator).Meets
      (fun _ after => Represents after total phys (free \ Finset.Ico start (start + n))
        (free \ Finset.Ico start (start + n)).card)
      (fun _ _ => False) False := by
  have run : (forRange (fun i => Mm.reserveFrame (start + i)) n 0 allocator).Meets
      (fun _ after => Represents after total phys (free \ Finset.Ico start (start + (0 + n)))
        (free \ Finset.Ico start (start + (0 + n))).card)
      (fun _ _ => False) False := by
    apply Outcome.Meets.forRange fun i after =>
      Represents after total phys (free \ Finset.Ico start (start + i))
        (free \ Finset.Ico start (start + i)).card
    · simpa [← counted] using represents
    · intro i current _ before held
      have inside : start + i < total := by omega
      have reserved := held.reserveFrame inside rfl
      rwa [sdiff_Ico_erase] at reserved
  rwa [Nat.zero_add] at run

theorem clearFrames {pages : Nat} (inRange : pfn + pages ≤ total)
    (counted : count = free.card) (fresh : Disjoint free (Finset.Ico pfn (pfn + pages))) :
    (Mm.clearFrames pages pfn allocator).Meets
      (fun _ after => Represents after total phys (free ∪ Finset.Ico pfn (pfn + pages))
        (free ∪ Finset.Ico pfn (pfn + pages)).card)
      (fun _ _ => False) False := by
  induction pages generalizing allocator free count pfn with
  | zero => simpa [Mm.clearFrames, ← counted] using represents
  | succ pages induction =>
    unfold Mm.clearFrames
    have inside : pfn < total := by omega
    rcases represents.clear inside with ⟨after, clears, represents'⟩
    rw [get_bind_apply, represents.totalPfns, if_neg (by omega), bind_apply, clears]
    simp only [bind_apply, modify_apply]
    have isNew : pfn ∉ free := by
      intro isFree
      exact Finset.disjoint_left.mp fresh isFree (by simp)
    have together : insert pfn free ∪ Finset.Ico (pfn + 1) (pfn + 1 + pages) =
        free ∪ Finset.Ico pfn (pfn + (pages + 1)) := by
      ext other
      simp only [Finset.mem_union, Finset.mem_insert, Finset.mem_Ico]
      grind
    rw [← together]
    apply induction (represents'.setCount (after.freeFrames + 1)) (by omega)
    · rw [represents'.freeFrames, Finset.card_insert_of_notMem isNew, counted]
    · rw [Finset.disjoint_left] at fresh ⊢
      intro other isFree later
      rw [Finset.mem_Ico] at later
      rcases Finset.mem_insert.mp isFree with same | isOld
      · omega
      · exact fresh isOld (Finset.mem_Ico.mpr (by omega))

end Represents

/-! ## The pool that `init` builds -/

def frames (region : MemoryRegion) : Finset Nat :=
  Finset.Ico (region.base / 4096) (region.base / 4096 + region.length / 4096)

def freeFramesOf : List MemoryRegion → Finset Nat
  | [] => ∅
  | region :: rest =>
    (if isFree region.kind then frames region else ∅) ∪ freeFramesOf rest

theorem mem_freeFramesOf {regions : List MemoryRegion} {pfn : Nat} :
    pfn ∈ freeFramesOf regions ↔
      ∃ region ∈ regions, isFree region.kind = true ∧ pfn ∈ frames region := by
  induction regions with
  | nil => simp [freeFramesOf]
  | cons region rest induction =>
    rw [freeFramesOf, Finset.mem_union, induction]
    split <;> simp [*]

/-- Bounds and contents are whole pages. -/
def Aligned (region : MemoryRegion) : Prop := 4096 ∣ region.base ∧ 4096 ∣ region.length

instance (region : MemoryRegion) : Decidable (Aligned region) := by
  unfold Aligned
  infer_instance

def Apart (region other : MemoryRegion) : Prop :=
  ∀ address, ¬(region.Contains address ∧ other.Contains address)

theorem contains_of_mem_frames {region : MemoryRegion} {pfn offset : Nat} (aligned : Aligned region)
    (isFrame : pfn ∈ frames region) (inPage : offset < 4096) :
    region.Contains (pfn * 4096 + offset) := by
  rw [frames, Finset.mem_Ico] at isFrame
  rcases aligned with ⟨⟨base, isBase⟩, ⟨pages, isLength⟩⟩
  unfold MemoryRegion.Contains
  omega

theorem frames_disjoint {region other : MemoryRegion} (aligned : Aligned region)
    (otherAligned : Aligned other) (apart : Apart region other) :
    Disjoint (frames region) (frames other) := by
  rw [Finset.disjoint_left]
  intro pfn isFrame isOther
  exact apart (pfn * 4096 + 0) ⟨contains_of_mem_frames aligned isFrame (by decide),
    contains_of_mem_frames otherAligned isOther (by decide)⟩

theorem frames_disjoint_rest {region : MemoryRegion} {rest : List MemoryRegion}
    (aligned : ∀ other ∈ region :: rest, Aligned other)
    (apart : (region :: rest).Pairwise Apart) :
    Disjoint (frames region) (freeFramesOf rest) := by
  rw [Finset.disjoint_left]
  intro pfn isFrame isLater
  rcases mem_freeFramesOf.mp isLater with ⟨other, isOther, _, isOtherFrame⟩
  have together := frames_disjoint (aligned region (by simp)) (aligned other (by simp [isOther]))
    (List.rel_of_pairwise_cons apart isOther)
  exact Finset.disjoint_left.mp together isFrame isOtherFrame

theorem Represents.clearRegions {allocator : Allocator} {total phys count : Nat}
    {free : Finset Nat} {regions : List MemoryRegion}
    (represents : Represents allocator total phys free count)
    (aligned : ∀ region ∈ regions, Aligned region) (apart : regions.Pairwise Apart)
    (inRange : ∀ region ∈ regions, region.base / 4096 + region.length / 4096 ≤ total)
    (counted : count = free.card) (fresh : Disjoint free (freeFramesOf regions)) :
    (Mm.clearRegions regions allocator).Meets
      (fun _ after => Represents after total phys (free ∪ freeFramesOf regions)
        (free ∪ freeFramesOf regions).card)
      (fun _ _ => False) False := by
  induction regions generalizing allocator free count with
  | nil => simpa [Mm.clearRegions, freeFramesOf, ← counted] using represents
  | cons region rest induction =>
    unfold Mm.clearRegions
    have alignedRest : ∀ other ∈ rest, Aligned other := fun other isOther =>
      aligned other (List.mem_cons_of_mem _ isOther)
    have inRangeRest : ∀ other ∈ rest, other.base / 4096 + other.length / 4096 ≤ total :=
      fun other isOther => inRange other (List.mem_cons_of_mem _ isOther)
    by_cases freeRegion : isFree region.kind = true
    · simp only [freeFramesOf, freeRegion, if_true] at fresh ⊢
      rw [Finset.disjoint_union_right] at fresh
      have cleared := represents.clearFrames (inRange region List.mem_cons_self) counted fresh.1
      apply Outcome.Meets.bind cleared
      intro _ after held
      rw [← Finset.union_assoc]
      apply induction held alignedRest apart.of_cons inRangeRest rfl
      rw [Finset.disjoint_union_left]
      exact ⟨fresh.2, frames_disjoint_rest aligned apart⟩
    · simp only [freeFramesOf, freeRegion, Bool.false_eq_true, if_false, Finset.empty_union]
        at fresh ⊢
      exact induction represents alignedRest apart.of_cons inRangeRest counted fresh

theorem maxPhys_spec {regions : List MemoryRegion} {highest result : Nat}
    (returns : maxPhys regions highest = some result) (small : highest < 2 ^ 64) :
    highest ≤ result ∧ result < 2 ^ 64 ∧
      ∀ region ∈ regions, region.base + region.length ≤ result := by
  induction regions generalizing highest with
  | nil =>
    cases returns
    exact ⟨Nat.le_refl _, small, by simp⟩
  | cons region rest induction =>
    unfold maxPhys at returns
    simp only [Option.ite_none_right_eq_some] at returns
    rcases returns with ⟨fits, returns⟩
    have bounds := induction returns (by split <;> assumption)
    rcases bounds with ⟨above, below, covers⟩
    have reaches : highest ≤ result ∧ region.base + region.length ≤ result := by
      split at above <;> omega
    refine ⟨reaches.1, below, ?_⟩
    simp only [List.forall_mem_cons]
    exact ⟨reaches.2, covers⟩

theorem findBitmap_spec {pages phys : Nat} {regions : List MemoryRegion}
    (found : findBitmap pages regions = some phys) :
    ∃ region ∈ regions, isFree region.kind = true ∧ pages ≤ region.length / 4096 ∧
      region.base = phys := by
  unfold findBitmap at found
  rcases Option.map_eq_some_iff.mp found with ⟨region, isRegion, isBase⟩
  have fits := List.find?_some isRegion
  simp only [Bool.and_eq_true, decide_eq_true_eq] at fits
  exact ⟨region, List.mem_of_find?_eq_some isRegion, fits.1, fits.2, isBase⟩

/-- The frames that may ever be handed out: those of the free regions without the
bitmap's own pages and frame 0. -/
def pool (regions : List MemoryRegion) (total phys : Nat) : Finset Nat :=
  (freeFramesOf regions \
    Finset.Ico (phys / 4096) (phys / 4096 + bitmapPagesOf total)).erase 0

theorem mem_pool {regions : List MemoryRegion} {total phys pfn : Nat} :
    pfn ∈ pool regions total phys ↔
      pfn ≠ 0 ∧ ¬(phys / 4096 ≤ pfn ∧ pfn < phys / 4096 + bitmapPagesOf total) ∧
        ∃ region ∈ regions, isFree region.kind = true ∧ pfn ∈ frames region := by
  rw [pool, Finset.mem_erase, Finset.mem_sdiff, Finset.mem_Ico, mem_freeFramesOf]
  exact and_congr_right fun _ => and_comm

theorem isFree_iff {kind : MemoryKind} :
    isFree kind = true ↔ kind = .usable ∨ kind = .bootloaderReclaimable := by
  cases kind <;> simp [isFree]

theorem represents_reserved (total phys : Nat) :
    Represents (.reserved total phys) total phys ∅ 0 where
  totalPfns := rfl
  length := List.length_replicate
  bitmapPhys := rfl
  basePfn := rfl
  bits := by
    intro pfn isInside
    rw [Allocator.reserved, Bitmap.test_replicate_ones (by omega)]
    simp
  inside := by simp
  freeFrames := rfl

theorem fillBitmap_spec {regions : List MemoryRegion} {total phys : Nat}
    (aligned : ∀ region ∈ regions, Aligned region) (apart : regions.Pairwise Apart)
    (inRange : ∀ region ∈ regions, region.base / 4096 + region.length / 4096 ≤ total)
    (bitmapFits : phys / 4096 + bitmapPagesOf total ≤ total) :
    (fillBitmap regions total phys (.reserved total phys)).Meets
      (fun _ after => Represents after total phys (pool regions total phys)
        (pool regions total phys).card)
      (fun _ _ => False) (total = 0) := by
  have lift {outcome : Outcome Allocator Unfinished PUnit} {holds : PUnit → Allocator → Prop}
      (meets : outcome.Meets holds (fun _ _ => False) False) :
      outcome.Meets holds (fun _ _ => False) (total = 0) :=
    meets.mono (fun _ _ => id) (fun _ _ => id) False.elim
  unfold fillBitmap
  apply Outcome.Meets.bind (lift ((represents_reserved total phys).clearRegions aligned apart
    inRange
    rfl (Finset.disjoint_empty_left _)))
  intro _ _ held
  rw [Finset.empty_union] at held
  apply Outcome.Meets.bind (lift (held.reserveRun bitmapFits rfl))
  intro _ after held
  by_cases noFrames : total = 0
  · have panics : reserveZero after = .panic := by
      have empty : after.pmm.bitmap = [] := by
        rw [← List.length_eq_zero_iff, held.length, noFrames]
      simp [reserveZero, bind_apply, Pmm.isSet, empty]
    rw [panics]
    exact noFrames
  · exact lift (held.reserveZero (Nat.pos_of_ne_zero noFrames) rfl)

/-- Where `init` puts the bitmap and how many frames it counts. -/
structure Placed (regions : List MemoryRegion) (total phys : Nat) : Prop where
  bounded : total ≤ 2 ^ 52
  inRange : ∀ region ∈ regions, region.base / 4096 + region.length / 4096 ≤ total
  bitmap : ∃ region ∈ regions, isFree region.kind = true ∧
    bitmapPagesOf total ≤ region.length / 4096 ∧ region.base = phys
  isTotal : ∃ highest, maxPhys regions 0 = some highest ∧ total = (highest + 4095) / 4096
  found : findBitmap (bitmapPagesOf total) regions = some phys

theorem Placed.bitmapFits {regions : List MemoryRegion} {total phys : Nat}
    (placed : Placed regions total phys) : phys / 4096 + bitmapPagesOf total ≤ total := by
  rcases placed.bitmap with ⟨region, isRegion, _, fits, isBase⟩
  have reaches := placed.inRange region isRegion
  rw [← isBase]
  omega

theorem placed_of_init {regions : List MemoryRegion} {highest phys : Nat}
    (isHighest : maxPhys regions 0 = some highest)
    (isPhys : findBitmap (bitmapPagesOf ((highest + 4095) / 4096)) regions = some phys) :
    Placed regions ((highest + 4095) / 4096) phys := by
  rcases maxPhys_spec isHighest (by decide) with ⟨_, small, covers⟩
  refine ⟨by omega, ?_, findBitmap_spec isPhys, ⟨highest, isHighest, rfl⟩, isPhys⟩
  intro region isRegion
  have reaches := covers region isRegion
  omega

theorem pmmInit_eq_some {regions : List MemoryRegion} {allocator : Allocator}
    (init : pmmInit regions = some allocator) : ∃ total phys, Placed regions total phys ∧
      fillBitmap regions total phys (.reserved total phys) = .ok ⟨⟩ allocator := by
  unfold pmmInit at init
  simp only [Option.bind_eq_bind, Option.bind_eq_some_iff] at init
  rcases init with ⟨highest, isHighest, phys, isPhys, _, _, init⟩
  refine ⟨_, phys, placed_of_init isHighest isPhys, ?_⟩
  split at init
  · next ended =>
    cases init
    exact ended
  · cases init

theorem pmmInit_spec {regions : List MemoryRegion} {allocator : Allocator}
    (aligned : ∀ region ∈ regions, Aligned region) (apart : regions.Pairwise Apart)
    (init : pmmInit regions = some allocator) :
    ∃ total phys, Placed regions total phys ∧
      Represents allocator total phys (pool regions total phys) (pool regions total phys).card := by
  rcases pmmInit_eq_some init with ⟨total, phys, placed, ended⟩
  have filled := fillBitmap_spec aligned apart placed.inRange placed.bitmapFits
  rw [ended] at filled
  exact ⟨total, phys, placed, filled⟩

theorem exists_pmmInit {regions : List MemoryRegion} {highest total phys : Nat}
    (aligned : ∀ region ∈ regions, Aligned region) (apart : regions.Pairwise Apart)
    (isHighest : maxPhys regions 0 = some highest) (isTotal : (highest + 4095) / 4096 = total)
    (nonempty : total ≠ 0) (isPhys : findBitmap (bitmapPagesOf total) regions = some phys)
    (addressable : hhdmOffset + phys < 2 ^ 64) :
    ∃ allocator, pmmInit regions = some allocator ∧
      Represents allocator total phys (pool regions total phys) (pool regions total phys).card := by
  have placed : Placed regions total phys := by
    rw [← isTotal] at isPhys ⊢
    exact placed_of_init isHighest isPhys
  have passes : (guard (hhdmOffset + phys < 2 ^ 64) : Option Unit) = some () := if_pos addressable
  have filled := fillBitmap_spec aligned apart placed.inRange placed.bitmapFits
  unfold pmmInit
  rw [isHighest]
  simp only [Option.bind_eq_bind, Option.bind_some]
  rw [isTotal, isPhys, Option.bind_some, passes, Option.bind_some]
  cases ended : fillBitmap regions total phys (.reserved total phys) with
  | ok value allocator =>
    rw [ended] at filled
    exact ⟨allocator, rfl, filled⟩
  | error fault allocator =>
    rw [ended] at filled
    exact filled.elim
  | panic =>
    rw [ended] at filled
    exact absurd filled nonempty

/-! ## Runs -/

structure FrameUse where
  allocator : Allocator
  handed : Finset Nat

inductive FrameCall where
  | allocFrame
  | allocContig (n : Nat)
  | freeFrame (phys : Nat)

structure FrameEvent where
  call : FrameCall
  returned : Option Nat

def FrameEvent.taken (event : FrameEvent) : Finset Nat :=
  match event.call, event.returned with
  | .allocFrame, some phys => {phys / 4096}
  | .allocContig n, some phys => Finset.Ico (phys / 4096) (phys / 4096 + n)
  | _, _ => ∅

/-- One call that returns. A frame is given back only by a caller that holds it. -/
inductive FrameStep : FrameUse → FrameEvent → FrameUse → Prop
  | allocFrame {use after returned} (fuel : Nat) :
      pmmAllocFrame fuel use.allocator = .ok returned after →
      FrameStep use ⟨.allocFrame, returned⟩
        ⟨after, use.handed ∪ FrameEvent.taken ⟨.allocFrame, returned⟩⟩
  | allocContig {use after returned} (n : Nat) :
      allocContig n use.allocator = .ok returned after →
      FrameStep use ⟨.allocContig n, returned⟩
        ⟨after, use.handed ∪ FrameEvent.taken ⟨.allocContig n, returned⟩⟩
  | freeFrame {use after pfn} :
      pfn ∈ use.handed →
      pmmFreeFrame (pfn * 4096) use.allocator = .ok ⟨⟩ after →
      FrameStep use ⟨.freeFrame (pfn * 4096), none⟩ ⟨after, use.handed.erase pfn⟩

/-- Every frame of the pool is either free or held by one caller. -/
structure Pooled (frames : Finset Nat) (total phys : Nat) (use : FrameUse) : Prop where
  represents :
    Represents use.allocator total phys (frames \ use.handed) (frames \ use.handed).card
  held : use.handed ⊆ frames

/-- What a call hands out: whole frames that were free, the first of them at the
returned address. -/
structure HandsOut (frames : Finset Nat) (use : FrameUse) (event : FrameEvent) : Prop where
  fromPool : event.taken ⊆ frames \ use.handed
  aligned : ∀ phys, event.returned = some phys → phys % 4096 = 0 ∧ phys / 4096 ∈ event.taken

namespace Pooled

variable {frames : Finset Nat} {total phys : Nat} {use next : FrameUse} {event : FrameEvent}
  (pooled : Pooled frames total phys use)

include pooled

theorem count_lt (bounded : total ≤ 2 ^ 52) : (frames \ use.handed).card + 1 < 2 ^ 64 := by
  have inside : frames \ use.handed ⊆ Finset.range total := by
    intro pfn isFree
    exact Finset.mem_range.mpr (pooled.represents.inside pfn isFree)
  have atMost := Finset.card_le_card inside
  rw [Finset.card_range] at atMost
  omega

theorem take {after : Allocator} {taken : Finset Nat} (isFree : taken ⊆ frames \ use.handed)
    (represents : Represents after total phys ((frames \ use.handed) \ taken)
      ((frames \ use.handed).card - taken.card)) :
    Pooled frames total phys ⟨after, use.handed ∪ taken⟩ := by
  rw [← Finset.card_sdiff_of_subset isFree, sdiff_sdiff] at represents
  exact ⟨represents, Finset.union_subset pooled.held
    (isFree.trans Finset.sdiff_subset)⟩

theorem idle {after : Allocator}
    (represents : Represents after total phys (frames \ use.handed) (frames \ use.handed).card) :
    Pooled frames total phys ⟨after, use.handed ∪ ∅⟩ := by
  rw [Finset.union_empty]
  exact ⟨represents, pooled.held⟩

theorem step (bounded : total ≤ 2 ^ 52) (inPool : ∀ pfn ∈ frames, pfn < total)
    (step : FrameStep use event next) :
    Pooled frames total phys next ∧ HandsOut frames use event := by
  have small := pooled.count_lt bounded
  cases step with
  | @allocFrame after returned fuel returns =>
    have meets := pooled.represents.allocFrame fuel rfl (by omega)
    rw [returns] at meets
    cases returned with
    | none => exact ⟨pooled.idle meets, by simp [FrameEvent.taken], by simp⟩
    | some address =>
      rcases meets with ⟨pfn, isFree, isAddress, represents⟩
      have taken : FrameEvent.taken ⟨.allocFrame, some address⟩ = {pfn} := by
        simp [FrameEvent.taken, isAddress]
      rw [taken]
      have within : {pfn} ⊆ frames \ use.handed := Finset.singleton_subset_iff.mpr isFree
      rw [Finset.erase_eq] at represents
      refine ⟨pooled.take within represents, taken ▸ within, ?_⟩
      intro phys isReturned
      cases isReturned
      rw [taken, isAddress]
      simp
  | @allocContig after returned n returns =>
    have meets := pooled.represents.allocContig n rfl (by omega)
    rw [returns] at meets
    cases returned with
    | none => exact ⟨pooled.idle meets, by simp [FrameEvent.taken], by simp⟩
    | some address =>
      rcases meets with ⟨first, isAddress, areFree, positive, represents⟩
      have taken : FrameEvent.taken ⟨.allocContig n, some address⟩ =
          Finset.Ico first (first + n) := by
        simp [FrameEvent.taken, isAddress]
      rw [taken]
      have within : Finset.Ico first (first + n) ⊆ frames \ use.handed := by
        intro pfn isTaken
        rw [Finset.mem_Ico] at isTaken
        have isOffset : first + (pfn - first) = pfn := by omega
        rw [← isOffset]
        exact areFree _ (by omega)
      have size : (Finset.Ico first (first + n)).card = n := by simp
      rw [← size] at represents
      refine ⟨pooled.take within ?_, taken ▸ within, ?_⟩
      · rwa [size] at represents ⊢
      · intro phys isReturned
        cases isReturned
        rw [taken, isAddress]
        simp [positive]
  | @freeFrame after pfn isHeld returns =>
    have isFrame := pooled.held isHeld
    have isPfn : pfn * 4096 / 4096 = pfn := Nat.mul_div_cancel _ (by decide)
    have inRange : pfn * 4096 / 4096 < total := by
      rw [isPfn]
      exact inPool pfn isFrame
    have meets := pooled.represents.freeFrame (pfn * 4096) inRange small
    rw [returns, isPfn] at meets
    have notFree : pfn ∉ frames \ use.handed := by simp [isHeld]
    have back : insert pfn (frames \ use.handed) = frames \ use.handed.erase pfn := by
      rw [Finset.sdiff_erase isFrame]
    refine ⟨⟨?_, (Finset.erase_subset _ _).trans pooled.held⟩, by simp [FrameEvent.taken], by simp⟩
    rw [← back, Finset.card_insert_of_notMem notFree]
    exact meets

end Pooled

theorem Represents.clear_bits {allocator : Allocator} {total phys : Nat} {free : Finset Nat}
    (represents : Represents allocator total phys free free.card) :
    allocator.freeFrames = ((Finset.range allocator.pmm.totalPfns).filter fun pfn =>
      Bitmap.test allocator.pmm.bitmap pfn = false).card := by
  rw [represents.freeFrames, represents.totalPfns]
  congr 1
  ext pfn
  rw [Finset.mem_filter, Finset.mem_range]
  constructor
  · intro isFree
    have inside := represents.inside pfn isFree
    exact ⟨inside, by simp [represents.bits pfn inside, isFree]⟩
  · intro isClear
    have isBit := represents.bits pfn isClear.1
    simpa [isClear.2] using isBit

theorem pooled_of_run {regions : List MemoryRegion} {allocator : Allocator}
    (aligned : ∀ region ∈ regions, Aligned region) (apart : regions.Pairwise Apart)
    (init : pmmInit regions = some allocator) {events : List FrameEvent} {use : FrameUse}
    (run : Trace FrameStep ⟨allocator, ∅⟩ events use) :
    ∃ total phys, Placed regions total phys ∧ Pooled (pool regions total phys) total phys use ∧
      ∀ pfn ∈ pool regions total phys, pfn < total := by
  rcases pmmInit_spec aligned apart init with ⟨total, phys, placed, represents⟩
  have inPool := represents.inside
  refine ⟨total, phys, placed, ?_, inPool⟩
  apply Trace.invariant (Pooled (pool regions total phys) total phys) _ run
  · exact ⟨by simpa using represents, Finset.empty_subset _⟩
  · exact fun held step => (held.step placed.bounded inPool step).1

/-- In every run the counter shows the number of clear bits, and a call hands out only
whole, non-zero frames of free regions, outside the bitmap, that no caller holds. -/
theorem frame_allocator_sound {regions : List MemoryRegion} {allocator : Allocator}
    (aligned : ∀ region ∈ regions, Aligned region) (apart : regions.Pairwise Apart)
    (init : pmmInit regions = some allocator) {events : List FrameEvent} {use : FrameUse}
    (run : Trace FrameStep ⟨allocator, ∅⟩ events use) :
    use.allocator.freeFrames = ((Finset.range use.allocator.pmm.totalPfns).filter fun pfn =>
      Bitmap.test use.allocator.pmm.bitmap pfn = false).card ∧
    ∀ event next, FrameStep use event next →
      (∀ phys, event.returned = some phys →
        phys % 4096 = 0 ∧ phys ≠ 0 ∧ phys / 4096 ∈ event.taken) ∧
      ∀ pfn ∈ event.taken,
        pfn ≠ 0 ∧
        pfn * 4096 < use.allocator.pmm.totalPfns * 4096 ∧
        (∃ region ∈ regions,
          (region.kind = .usable ∨ region.kind = .bootloaderReclaimable) ∧
          ∀ offset < 4096, region.Contains (pfn * 4096 + offset)) ∧
        (∀ offset < 4096, ¬(use.allocator.pmm.bitmapPhys ≤ pfn * 4096 + offset ∧
          pfn * 4096 + offset < use.allocator.pmm.bitmapPhys +
            bitmapPagesOf use.allocator.pmm.totalPfns * 4096)) ∧
        pfn ∉ use.handed := by
  rcases pooled_of_run aligned apart init run with ⟨total, phys, placed, pooled, inPool⟩
  have atPage : 4096 ∣ phys := by
    rcases placed.bitmap with ⟨region, isRegion, _, _, isBase⟩
    rw [← isBase]
    exact (aligned region isRegion).1
  refine ⟨pooled.represents.clear_bits, ?_⟩
  intro event next step
  have handsOut := (pooled.step placed.bounded inPool step).2
  have good : ∀ pfn ∈ event.taken, pfn ∈ pool regions total phys ∧ pfn ∉ use.handed :=
    fun pfn isTaken => Finset.mem_sdiff.mp (handsOut.fromPool isTaken)
  rw [pooled.represents.totalPfns, pooled.represents.bitmapPhys]
  constructor
  · intro address isReturned
    rcases handsOut.aligned address isReturned with ⟨isPage, isTaken⟩
    refine ⟨isPage, ?_, isTaken⟩
    intro isZero
    rw [isZero] at isTaken
    exact Finset.ne_of_mem_erase (good _ isTaken).1 rfl
  · intro pfn isTaken
    rcases good pfn isTaken with ⟨isFrame, notHanded⟩
    rcases mem_pool.mp isFrame with ⟨nonzero, outside, region, isRegion, free, isInside⟩
    refine ⟨nonzero, ?_, ⟨region, isRegion, isFree_iff.mp free, ?_⟩, ?_, notHanded⟩
    · exact Nat.mul_lt_mul_of_pos_right (inPool pfn isFrame) (by decide)
    · exact fun offset inPage => contains_of_mem_frames (aligned region isRegion) isInside inPage
    · intro offset inPage isBitmap
      omega

def smallMap : List MemoryRegion :=
  [⟨0, 0x4000, .usable⟩, ⟨0x4000, 0x2000, .reserved⟩, ⟨0x6000, 0x4000, .bootloaderReclaimable⟩]

/-- The allocator for `smallMap` with the given bits, hint and count. -/
def smallAllocator (low high : UInt8) (nextHint freeFrames : Nat) : Allocator :=
  { pmm := { bitmap := [low, high], bitmapPhys := 0, basePfn := 0, totalPfns := 10, nextHint }
    totalFrames := 10
    freeFrames }

/-- On `smallMap` a run of four frames and a single frame are taken and one frame of the
run is given back. -/
theorem frame_allocator_sound_smallMap :
    ∃ use, Trace FrameStep ⟨smallAllocator 0x31 0xFC 0 7, ∅⟩
      [⟨.allocContig 4, some 0x6000⟩, ⟨.allocFrame, some 0x1000⟩, ⟨.freeFrame (7 * 4096), none⟩]
      use ∧
    3 = ((Finset.range use.allocator.pmm.totalPfns).filter fun pfn =>
      Bitmap.test use.allocator.pmm.bitmap pfn = false).card := by
  have apart : smallMap.Pairwise Apart := by
    simp only [smallMap, List.pairwise_cons, List.forall_mem_cons, Apart, MemoryRegion.Contains]
    refine ⟨⟨?_, ?_, by simp⟩, ⟨?_, by simp⟩, by simp⟩ <;> omega
  have init : pmmInit smallMap = some (smallAllocator 0x31 0xFC 0 7) := by decide +kernel
  have takesRun : allocContig 4 (smallAllocator 0x31 0xFC 0 7) =
      .ok (some 0x6000) (smallAllocator 0xF1 0xFF 0 3) := by decide +kernel
  have takesOne : pmmAllocFrame 2 (smallAllocator 0xF1 0xFF 0 3) =
      .ok (some 0x1000) (smallAllocator 0xF3 0xFF 2 2) := by decide +kernel
  have givesBack : pmmFreeFrame (7 * 4096) (smallAllocator 0xF3 0xFF 2 2) =
      .ok ⟨⟩ (smallAllocator 0x73 0xFF 2 3) := by decide +kernel
  let started : FrameUse := ⟨smallAllocator 0x31 0xFC 0 7, ∅⟩
  let withRun : FrameUse := ⟨smallAllocator 0xF1 0xFF 0 3, ∅ ∪ Finset.Ico 6 10⟩
  let withBoth : FrameUse := ⟨smallAllocator 0xF3 0xFF 2 2, ∅ ∪ Finset.Ico 6 10 ∪ {1}⟩
  have first : FrameStep started ⟨.allocContig 4, some 0x6000⟩ withRun := .allocContig 4 takesRun
  have second : FrameStep withRun ⟨.allocFrame, some 0x1000⟩ withBoth := .allocFrame 2 takesOne
  have third : FrameStep withBoth _ _ := .freeFrame (by decide) givesBack
  have run := Trace.cons first (.cons second (.single third))
  exact ⟨_, run, (frame_allocator_sound (by decide) apart init run).1⟩

end PersonaOS.Mm
