import Mathlib.Order.Bounds.Basic
import Mathlib.Order.Nat
import PersonaOS.Mm.Mapping

/-! # The search for a receive range

The scan of `find_user_vm_range` counts the free pages right below its position and
stops at the first count that is enough. Its bound is taken at the position, not at the
start of the count, so it gives up while a range that is started but not yet counted to
the end would still fit: it finds the lowest free range just if the window has room for
nearly twice that range from where it starts. -/

namespace PersonaOS.Mm

open Program

/-- `pages` pages from `virt` on lie in the receive window and are not mapped. -/
structure FreeRange (memory : Memory) (pml4 : Frame) (pages virt : Nat) : Prop where
  aligned : virt % 4096 = 0
  above : userIpcBase ≤ virt
  below : virt + pages * 4096 ≤ userIpcEnd
  unmapped : ∀ i < pages, physForVirt memory pml4 (virt + i * 4096) = none

section Scan

variable {memory : Memory} {pml4 : Frame} {pages run virt : Nat} {runStart : Option Nat}

/-- The state of the scan: it counted `run` free pages, too few, right below `virt`, and
no free range starts below these. -/
structure Scanned (memory : Memory) (pml4 : Frame) (pages : Nat) (runStart : Option Nat)
    (run virt : Nat) : Prop where
  aligned : virt % 4096 = 0
  above : userIpcBase + run * 4096 ≤ virt
  short : run < pages
  started : 0 < run → runStart = some (virt - run * 4096)
  unmapped : ∀ i < run, physForVirt memory pml4 (virt - run * 4096 + i * 4096) = none
  least : ∀ start, FreeRange memory pml4 pages start → virt - run * 4096 ≤ start

theorem scanned_start (positive : 1 ≤ pages) :
    Scanned memory pml4 pages none 0 userIpcBase where
  aligned := rfl
  above := by omega
  short := positive
  started impossible := absurd impossible (Nat.lt_irrefl 0)
  unmapped _ impossible := absurd impossible (Nat.not_lt_zero _)
  least _ range := range.above

namespace Scanned

theorem mapped (scanned : Scanned memory pml4 pages runStart run virt)
    (isMapped : isMapped4k memory pml4 virt = true) :
    Scanned memory pml4 pages none 0 (virt + 4096) where
  aligned := by
    have := scanned.aligned
    omega
  above := by
    have above := scanned.above
    rw [Nat.zero_mul, Nat.add_zero]
    omega
  short := Nat.lt_of_le_of_lt (Nat.zero_le run) scanned.short
  started impossible := absurd impossible (Nat.lt_irrefl 0)
  unmapped _ impossible := absurd impossible (Nat.not_lt_zero _)
  least start range := by
    by_contra early
    have fromRun := scanned.least start range
    have aligned := scanned.aligned
    have startAligned := range.aligned
    have above := scanned.above
    have short := scanned.short
    have inside : (virt - start) / 4096 < pages := by omega
    have here : start + (virt - start) / 4096 * 4096 = virt := by omega
    have unmapped := range.unmapped _ inside
    rw [here] at unmapped
    rw [isMapped4k_eq, unmapped] at isMapped
    cases isMapped

theorem runStart_eq (scanned : Scanned memory pml4 pages runStart run virt) :
    (if run = 0 then some virt else runStart) = some (virt - run * 4096) := by
  split
  · next none_ => rw [none_, Nat.zero_mul, Nat.sub_zero]
  · next counted => exact scanned.started (Nat.pos_of_ne_zero counted)

theorem free (scanned : Scanned memory pml4 pages runStart run virt)
    (isFree : physForVirt memory pml4 virt = none) :
    ∀ i < run + 1, physForVirt memory pml4 (virt - run * 4096 + i * 4096) = none := by
  intro i inside
  rcases Nat.lt_succ_iff_lt_or_eq.mp inside with earlier | rfl
  · exact scanned.unmapped i earlier
  · have above := scanned.above
    rwa [Nat.sub_add_cancel (by omega)]

theorem counted (scanned : Scanned memory pml4 pages runStart run virt)
    (isFree : physForVirt memory pml4 virt = none) (more : run + 1 ≠ pages) :
    Scanned memory pml4 pages (some (virt - run * 4096)) (run + 1) (virt + 4096) := by
  have back : virt + 4096 - (run + 1) * 4096 = virt - run * 4096 := by omega
  exact {
    aligned := by
      have := scanned.aligned
      omega
    above := by
      rw [Nat.succ_mul, ← Nat.add_assoc]
      exact Nat.add_le_add_right scanned.above 4096
    short := Nat.lt_of_le_of_ne scanned.short more
    started _ := by rw [back]
    unmapped := by
      rw [back]
      exact scanned.free isFree
    least := by
      rw [back]
      exact scanned.least }

theorem isLeast (scanned : Scanned memory pml4 pages runStart run virt)
    (isFree : physForVirt memory pml4 virt = none) (enough : run + 1 = pages)
    (fits : virt + 4096 ≤ userIpcEnd) :
    IsLeast {start | FreeRange memory pml4 pages start} (virt - run * 4096) := by
  have above := scanned.above
  have aligned := scanned.aligned
  constructor
  · exact {
      aligned := by omega
      above := by omega
      below := by omega
      unmapped := by
        rw [← enough]
        exact scanned.free isFree }
  · exact scanned.least

theorem beyond {found : Nat} (scanned : Scanned memory pml4 pages runStart run virt)
    (past : userIpcEnd < virt + pages * 4096) :
    ¬ (IsLeast {start | FreeRange memory pml4 pages start} found ∧
      found + (2 * pages - 1) * 4096 ≤ userIpcEnd) := by
  intro isLeast
  rcases isLeast with ⟨⟨range, _⟩, room⟩
  have above := scanned.least found range
  have short := scanned.short
  omega

end Scanned

/-- With fuel for the rest of the window, the scan finds the lowest free range if the
window has room for it and all but one of its pages once more. -/
theorem findRangeLoop_eq_some {fuel found : Nat} (enough : userIpcEnd < virt + fuel * 4096)
    (scanned : Scanned memory pml4 pages runStart run virt) :
    findRangeLoop memory pml4 pages fuel runStart run virt = some found ↔
      IsLeast {start | FreeRange memory pml4 pages start} found ∧
        found + (2 * pages - 1) * 4096 ≤ userIpcEnd := by
  induction fuel generalizing runStart run virt with
  | zero =>
    rw [Nat.zero_mul, Nat.add_zero] at enough
    have past : userIpcEnd < virt + pages * 4096 := enough.trans_le (Nat.le_add_right _ _)
    exact iff_of_false (Option.not_mem_none _) (scanned.beyond past)
  | succ fuel induction =>
    have enoughNext : userIpcEnd < virt + 4096 + fuel * 4096 := by omega
    rw [findRangeLoop]
    by_cases fits : virt + pages * 4096 ≤ userIpcEnd
    · rw [if_pos fits]
      cases isMapped : isMapped4k memory pml4 virt with
      | true =>
        rw [if_pos rfl]
        exact induction enoughNext (scanned.mapped isMapped)
      | false =>
        have isFree : physForVirt memory pml4 virt = none := by
          rw [isMapped4k_eq] at isMapped
          exact Option.isSome_eq_false_iff.mp isMapped |> Option.isNone_iff_eq_none.mp
        rw [if_neg Bool.false_ne_true]
        simp only [scanned.runStart_eq]
        by_cases complete : run + 1 = pages
        · rw [if_pos complete]
          have short := scanned.short
          have isLeast := scanned.isLeast isFree complete (by omega)
          have above := scanned.above
          constructor
          · intro isFound
            cases isFound
            exact ⟨isLeast, by omega⟩
          · intro found_
            rw [IsLeast.unique isLeast found_.1]
        · rw [if_neg complete]
          exact induction enoughNext (scanned.counted isFree complete)
    · rw [if_neg fits]
      exact iff_of_false (Option.not_mem_none _) (scanned.beyond (Nat.lt_of_not_le fits))

end Scan

theorem findUserVmRange_eq_some {memory : Memory} {pml4 : Frame} {pages found : Nat}
    (positive : 1 ≤ pages) :
    findUserVmRange memory pml4 pages = some found ↔
      IsLeast {start | FreeRange memory pml4 pages start} found ∧
        found + (2 * pages - 1) * 4096 ≤ userIpcEnd :=
  findRangeLoop_eq_some (by decide) (scanned_start positive)

theorem exists_isLeast_freeRange {memory : Memory} {pml4 : Frame} {pages virt : Nat}
    (range : FreeRange memory pml4 pages virt) :
    ∃ least, IsLeast {start | FreeRange memory pml4 pages start} least := by
  classical
  exact ⟨_, Nat.isLeast_find ⟨virt, range⟩⟩

/-- The search is an exact first fit, that is, it finds the lowest free range, and none just if
there is none, exactly where the window has the room the scan asks for. -/
theorem findUserVmRange_firstFit (machine : Machine) (pml4 : Frame) (pages : Nat)
    (positive : 1 ≤ pages) :
    (∃ result, findUserVmRangeChecked pml4 pages machine = .ok result machine ∧
      (∀ virt, result = some virt ↔
        IsLeast {start | FreeRange machine.memory pml4 pages start} virt) ∧
      (result = none ↔ ¬ ∃ virt, FreeRange machine.memory pml4 pages virt)) ↔
    userIpcBase + pages * 4096 < 2 ^ 64 ∧
      ∀ least, IsLeast {start | FreeRange machine.memory pml4 pages start} least →
        least + (2 * pages - 1) * 4096 ≤ userIpcEnd := by
  constructor
  · rintro ⟨result, returns, finds, _⟩
    simp only [findUserVmRangeChecked, bind_apply, get_apply] at returns
    split at returns
    · next representable =>
      refine ⟨representable, fun least isLeast => ?_⟩
      cases returns
      exact ((findUserVmRange_eq_some positive).mp ((finds least).mpr isLeast)).2
    · cases returns
  rintro ⟨representable, room⟩
  have finds : ∀ virt, findUserVmRange machine.memory pml4 pages = some virt ↔
      IsLeast {start | FreeRange machine.memory pml4 pages start} virt := by
    intro virt
    rw [findUserVmRange_eq_some positive]
    exact ⟨fun found => found.1, fun isLeast => ⟨isLeast, room virt isLeast⟩⟩
  refine ⟨findUserVmRange machine.memory pml4 pages, ?_, finds, ?_⟩
  · simp only [findUserVmRangeChecked, bind_apply, get_apply, if_pos representable, pure_apply]
  · constructor
    · intro isNone exists_
      rcases exists_ with ⟨virt, range⟩
      rcases exists_isLeast_freeRange range with ⟨least, isLeast⟩
      rw [(finds least).mpr isLeast] at isNone
      cases isNone
    · intro missing
      apply Option.eq_none_iff_forall_ne_some.mpr
      intro virt isFound
      exact missing ⟨virt, ((finds virt).mp isFound).1⟩

def blankMachine : Machine := ⟨fun _ _ => .unused, ∅, fun _ _ => none, 0⟩

theorem freeRange_blank {pages : Nat} (fits : userIpcBase + pages * 4096 ≤ userIpcEnd) :
    FreeRange blankMachine.memory 0 pages userIpcBase where
  aligned := rfl
  above := Nat.le_refl _
  below := fits
  unmapped _ _ := rfl

theorem findUserVmRange_firstFit_blank :
    ∃ result, findUserVmRangeChecked 0 4 blankMachine = .ok result blankMachine ∧
      (∀ virt, result = some virt ↔
        IsLeast {start | FreeRange blankMachine.memory 0 4 start} virt) ∧
      (result = none ↔ ¬ ∃ virt, FreeRange blankMachine.memory 0 4 virt) := by
  refine (findUserVmRange_firstFit blankMachine 0 4 (by decide)).mpr ⟨by decide, ?_⟩
  intro least isLeast
  have low : least ≤ userIpcBase := isLeast.2 (freeRange_blank (by decide))
  exact (Nat.add_le_add_right low _).trans (by decide)

/-- The window is empty and has nearly twice the pages asked for, but the search gives up. -/
theorem findUserVmRange_misses_half :
    FreeRange blankMachine.memory 0 0x20001 userIpcBase ∧
      findUserVmRangeChecked 0 0x20001 blankMachine = .ok none blankMachine := by
  constructor
  · exact freeRange_blank (by decide)
  · have missing : findUserVmRange blankMachine.memory 0 0x20001 = none := by
      apply Option.eq_none_iff_forall_ne_some.mpr
      intro virt isFound
      rcases (findUserVmRange_eq_some (by decide)).mp isFound with ⟨⟨range, _⟩, room⟩
      have above : 0x20000000 ≤ virt := range.above
      simp only [userIpcEnd] at room
      omega
    have representable : userIpcBase + 0x20001 * 4096 < 2 ^ 64 := by decide
    simp only [findUserVmRangeChecked, bind_apply, get_apply, if_pos representable, pure_apply,
      missing]

end PersonaOS.Mm
