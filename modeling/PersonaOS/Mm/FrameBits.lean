import PersonaOS.Mm.Pmm

/-! # The bits of the frame allocator

What the operations on bits do to a bitmap that has a bit for every frame, whatever the bits
mean and whatever the counter says. The search for a run goes once over the whole bitmap, and
is exact. -/

namespace PersonaOS.Mm

open Boot Program

namespace Allocator

def Covered (allocator : Allocator) : Prop :=
  allocator.pmm.bitmap.length = (allocator.pmm.totalPfns + 7) / 8

def taken (allocator : Allocator) (pfn : Nat) : Bool := Bitmap.test allocator.pmm.bitmap pfn

/-- The frames from `first` on make up a run of `n` clear ones. -/
def IsRun (allocator : Allocator) (n first : Nat) : Prop :=
  first + n ≤ allocator.pmm.totalPfns ∧ ∀ i < n, allocator.taken (first + i) = false

end Allocator

structure TakesRun (n first : Nat) (before after : Allocator) : Prop where
  bits : ∀ pfn, after.taken pfn = (decide (first ≤ pfn ∧ pfn < first + n) || before.taken pfn)
  length : after.pmm.bitmap.length = before.pmm.bitmap.length
  rest : after = { before with
    pmm := { before.pmm with bitmap := after.pmm.bitmap }
    freeFrames := after.freeFrames }

theorem takesRun_zero (first : Nat) (allocator : Allocator) :
    TakesRun 0 first allocator allocator where
  bits pfn := by
    have outside : ¬(first ≤ pfn ∧ pfn < first + 0) := by omega
    rw [decide_eq_false outside, Bool.false_or]
  length := rfl
  rest := rfl

namespace TakesRun

variable {n first : Nat} {before after : Allocator} (takes : TakesRun n first before after)

include takes

theorem setCount (count : Nat) : TakesRun n first before { after with freeFrames := count } where
  bits := takes.bits
  length := takes.length
  rest := by
    rw [takes.rest]

theorem totalPfns : after.pmm.totalPfns = before.pmm.totalPfns := by rw [takes.rest]

theorem covered (covered : before.Covered) : after.Covered := by
  rw [Allocator.Covered, takes.length, takes.totalPfns]
  exact covered

end TakesRun

/-- What a search for a run does: it finds the lowest one, or there is none. -/
structure FindsRun (n : Nat) (before : Allocator) (result : Option Nat) (after : Allocator) :
    Prop where
  nothing : result = none → after = before ∧ ∀ first, ¬ before.IsRun n first
  found : ∀ address, result = some address → ∃ first, address = first * 4096 ∧
    before.IsRun n first ∧ (∀ other < first, ¬ before.IsRun n other) ∧
    TakesRun n first before after ∧
    after.freeFrames = (before.freeFrames + (2 ^ 64 - n)) % 2 ^ 64

namespace Allocator.Covered

variable {allocator : Allocator} (covered : allocator.Covered) {pfn : Nat}

include covered

theorem byte (inRange : pfn < allocator.pmm.totalPfns) :
    ∃ byte, allocator.pmm.bitmap[pfn / 8]? = some byte := by
  have inside : pfn / 8 < allocator.pmm.bitmap.length := by
    rw [covered]
    omega
  exact ⟨_, List.getElem?_eq_getElem inside⟩

theorem isSet (inRange : pfn < allocator.pmm.totalPfns) :
    Pmm.isSet pfn allocator = .ok (allocator.taken pfn) allocator := by
  rcases covered.byte inRange with ⟨byte, isByte⟩
  rw [Pmm.isSet, isByte, Allocator.taken, Bitmap.test_eq isByte]
  simp only
  rw [Bitmap.shiftRight_and_one (Nat.mod_lt _ (by decide))]

theorem set (inRange : pfn < allocator.pmm.totalPfns) :
    ∃ after, Pmm.set pfn allocator = .ok ⟨⟩ after ∧ TakesRun 1 pfn allocator after ∧
      after.freeFrames = allocator.freeFrames := by
  rcases covered.byte inRange with ⟨byte, isByte⟩
  have sets : Pmm.set pfn allocator = .ok ⟨⟩ { allocator with
      pmm := { allocator.pmm with
        bitmap := allocator.pmm.bitmap.set (pfn / 8) (Bitmap.setBit byte (pfn % 8)) } } := by
    rw [Pmm.set, Pmm.updateByte, isByte]
  refine ⟨_, sets, ⟨?_, List.length_set, rfl⟩, rfl⟩
  intro other
  rw [Allocator.taken, Bitmap.test_set_setBit isByte]
  congr 1
  rw [decide_eq_decide]
  omega

/-! ## Runs -/

theorem setRun {start n : Nat} (inRange : start + n ≤ allocator.pmm.totalPfns) :
    (forRange (fun i => Pmm.set (start + i)) n 0 allocator).Meets
      (fun _ after => TakesRun n start allocator after ∧ after.freeFrames = allocator.freeFrames)
      (fun _ _ => False) False := by
  have run : (forRange (fun i => Pmm.set (start + i)) n 0 allocator).Meets
      (fun _ after =>
        TakesRun (0 + n) start allocator after ∧ after.freeFrames = allocator.freeFrames)
      (fun _ _ => False) False := by
    apply Outcome.Meets.forRange fun i after =>
      TakesRun i start allocator after ∧ after.freeFrames = allocator.freeFrames
    · exact ⟨takesRun_zero start allocator, rfl⟩
    · intro i current _ before held
      rcases held with ⟨takes, counted⟩
      have inside : start + i < current.pmm.totalPfns := by
        rw [takes.totalPfns]
        omega
      rcases (takes.covered covered).set inside with ⟨after, sets, one, same⟩
      rw [sets]
      refine ⟨⟨fun pfn => ?_, one.length.trans takes.length, ?_⟩, same.trans counted⟩
      · rw [one.bits, takes.bits, ← Bool.or_assoc, ← Bool.decide_or]
        congr 1
        rw [decide_eq_decide]
        omega
      · rw [one.rest, takes.rest]
  rwa [Nat.zero_add] at run

/-- The loop of `alloc_contig` at `pfn`, behind `run` clear frames and past no run of `n`. -/
theorem contigLoop {n left run start : Nat} (rest : pfn + left = allocator.pmm.totalPfns)
    (behind : run ≤ pfn) (atStart : 0 < run → start = pfn - run)
    (clear : ∀ i < run, allocator.taken (pfn - run + i) = false) (short : run < n)
    (unfit : ∀ first < pfn - run, ¬ allocator.IsRun n first) :
    (Mm.contigLoop n left pfn run start allocator).Meets
      (FindsRun n allocator) (fun _ _ => False) False := by
  induction left generalizing pfn run start with
  | zero =>
    refine ⟨fun _ => ⟨rfl, fun first isRun => ?_⟩, fun _ impossible => by cases impossible⟩
    rcases Nat.lt_or_ge first (pfn - run) with earlier | later
    · exact unfit first earlier isRun
    · have fits := isRun.1
      omega
  | succ left induction =>
    have inRange : pfn < allocator.pmm.totalPfns := by omega
    rw [Mm.contigLoop, bind_apply, covered.isSet inRange]
    cases isTaken : allocator.taken pfn with
    | true =>
      simp only [if_true]
      apply induction (by omega) (Nat.zero_le _) (fun impossible => absurd impossible (by omega))
        (fun _ impossible => absurd impossible (by omega)) (by omega)
      intro first earlier isRun
      rcases Nat.lt_or_ge first (pfn - run) with before | reaches
      · exact unfit first before isRun
      · -- the taken frame would lie in the run
        have isClear := isRun.2 (pfn - first) (by omega)
        have here : first + (pfn - first) = pfn := by omega
        rw [here, isTaken] at isClear
        cases isClear
    | false =>
      simp only [Bool.false_eq_true, if_false]
      have isStart : (if run = 0 then pfn else start) = pfn - run := by
        split
        · next none => rw [none, Nat.sub_zero]
        · next some => exact atStart (by omega)
      rw [isStart]
      have extended : ∀ i < run + 1, allocator.taken (pfn - run + i) = false := by
        intro i inside
        by_cases isLast : i = run
        · have here : pfn - run + i = pfn := by omega
          rw [here]
          exact isTaken
        · exact clear i (by omega)
      split
      · next complete =>
        subst complete
        apply Outcome.Meets.bind (covered.setRun (by omega))
        intro _ after held
        rcases held with ⟨takes, counted⟩
        rw [subFree, modify_bind_apply, pure_apply]
        refine ⟨fun impossible => (by cases impossible), fun address isAddress => ?_⟩
        cases isAddress
        refine ⟨pfn - run, rfl, ⟨by omega, extended⟩, unfit, takes.setCount _, ?_⟩
        simp only [counted]
      · next incomplete =>
        have shifted : pfn + 1 - (run + 1) = pfn - run := by omega
        apply induction (by omega) (by omega) (fun _ => shifted.symm) ?_ (by omega)
        · rw [shifted]
          exact unfit
        · rw [shifted]
          exact extended

theorem allocContig {n : Nat} (positive : 1 ≤ n) :
    (Mm.allocContig n allocator).Meets (FindsRun n allocator) (fun _ _ => False) False := by
  rw [Mm.allocContig, get_bind_apply]
  exact covered.contigLoop (Nat.zero_add _) (Nat.le_refl 0)
    (fun impossible => absurd impossible (by omega))
    (fun _ impossible => absurd impossible (by omega)) positive
    (fun _ impossible => absurd impossible (by omega))

theorem contigLoop_zero {left run start : Nat} (rest : pfn + left = allocator.pmm.totalPfns) :
    Mm.contigLoop 0 left pfn run start allocator = .ok none allocator := by
  induction left generalizing pfn run start with
  | zero => rfl
  | succ left induction =>
    rw [Mm.contigLoop, bind_apply, covered.isSet (by omega)]
    simp only
    split
    · exact induction (by omega)
    · exact induction (by omega)

theorem allocContig_zero : Mm.allocContig 0 allocator = .ok none allocator :=
  covered.contigLoop_zero (Nat.zero_add _)

end Allocator.Covered

end PersonaOS.Mm
