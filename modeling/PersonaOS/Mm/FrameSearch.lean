import PersonaOS.Mm.FirstFit

/-! # The two searches for frames

The search for one frame goes round the bitmap from the hint and ends where it began; the
search for a run goes once over the whole bitmap. Here both are followed to the end over any
bitmap, whatever the counter says. The search for a run is exact. The search for one frame is
exact as well, except that with the hint at frame 0 and no frame free it never ends: the test
for having come round is made only after a step forward, and no step leads to frame 0. -/

namespace PersonaOS.Mm

open Boot Program

/-- The bitmap covers the frames of a memory whose addresses fit in 64 bits. -/
structure Formed (allocator : Allocator) : Prop where
  length : allocator.pmm.bitmap.length = (allocator.pmm.totalPfns + 7) / 8
  basePfn : allocator.pmm.basePfn = 0
  bounded : allocator.pmm.totalPfns ≤ 2 ^ 52

theorem Formed.covered {allocator : Allocator} (formed : Formed allocator) : allocator.Covered :=
  formed.length

/-- The search for a run of `n` frames finds the lowest one if there is any, sets its bits and
counts its frames as taken. Otherwise it changes nothing. -/
theorem alloc_contig_exact (allocator : Allocator) (n : Nat) (formed : Formed allocator)
    (counter : allocator.freeFrames < 2 ^ 64) (positive : 1 ≤ n) (fits : n < 2 ^ 64) :
    ∃ result after, allocContig n allocator = .ok result after ∧
      (result.isSome = true ↔ ∃ first, allocator.IsRun n first) ∧
      (∀ address, result = some address → ∃ first, address = 4096 * first ∧
        allocator.IsRun n first ∧ (∀ other < first, ¬ allocator.IsRun n other) ∧
        TakesRun n first allocator after ∧
        (after.freeFrames + n) % 2 ^ 64 = allocator.freeFrames ∧
        (n ≤ allocator.freeFrames → after.freeFrames = allocator.freeFrames - n)) ∧
      (result = none → after = allocator) := by
  have search := formed.covered.allocContig positive
  cases ended : allocContig n allocator with
  | ok result after =>
    rw [ended] at search
    rcases search with ⟨nothing, something⟩
    refine ⟨result, after, rfl, ?_, ?_, fun isNone => (nothing isNone).1⟩
    · cases result with
      | none => simpa using (nothing rfl).2
      | some address =>
        rcases something address rfl with ⟨first, _, isRun, _⟩
        exact ⟨fun _ => ⟨first, isRun⟩, fun _ => rfl⟩
    · intro address isAddress
      rcases something address isAddress with ⟨first, place, isRun, lowest, takes, counted⟩
      refine ⟨first, place.trans (Nat.mul_comm _ _), isRun, lowest, takes, ?_, ?_⟩
      · rw [counted]
        omega
      · intro enough
        rw [counted]
        omega
  | error fault after =>
    rw [ended] at search
    exact search.elim
  | panic =>
    rw [ended] at search
    exact search.elim

def eightFrames : Allocator := ⟨⟨[0b00010001], 0, 0, 8, 0⟩, 8, 6⟩

theorem alloc_contig_exact_three :
    ∃ after, allocContig 3 eightFrames = .ok (some 0x1000) after ∧
      TakesRun 3 1 eightFrames after ∧ after.freeFrames = 3 := by
  rcases alloc_contig_exact eightFrames 3 ⟨rfl, rfl, by decide⟩ (by decide) (by decide) (by decide)
    with ⟨result, after, returns, _, found, _⟩
  have isFirst : ∃ after, allocContig 3 eightFrames = .ok (some 0x1000) after := ⟨_, rfl⟩
  rcases isFirst with ⟨_, isFirst⟩
  cases returns.symm.trans isFirst
  rcases found _ rfl with ⟨first, place, _, _, takes, _, counted⟩
  have isOne : first = 1 := by omega
  subst isOne
  exact ⟨after, returns, takes, counted (by decide)⟩

/-! ## One frame -/

namespace Formed

variable {allocator : Allocator} (formed : Formed allocator) {start pfn : Nat}

include formed

theorem allocLoop_skip (fuel : Nat) {count : Nat} (inRange : pfn + count ≤ allocator.pmm.totalPfns)
    (taken : ∀ i < count, allocator.taken (pfn + i) = true)
    (apart : ∀ i < count, pfn + i + 1 ≠ start) :
    Pmm.allocLoop start (fuel + count) pfn allocator =
      Pmm.allocLoop start fuel (pfn + count) allocator := by
  induction count generalizing pfn with
  | zero => rfl
  | succ count induction =>
    have isTaken := taken 0 (by omega)
    have notStart := apart 0 (by omega)
    rw [Nat.add_zero] at isTaken notStart
    rw [← Nat.add_assoc fuel, Pmm.allocLoop, get_bind_apply, if_neg (by omega)]
    simp only [bind_apply, formed.covered.isSet (show pfn < _ by omega), isTaken, if_true]
    rw [if_neg notStart, induction (by omega)]
    · rw [Nat.add_assoc pfn, Nat.add_comm 1]
    · intro i inside
      rw [Nat.add_assoc, Nat.add_comm 1]
      exact taken (i + 1) (by omega)
    · intro i inside
      rw [Nat.add_assoc pfn, Nat.add_comm 1]
      exact apart (i + 1) (by omega)

theorem allocLoop_found (inRange : pfn < allocator.pmm.totalPfns)
    (clear : allocator.taken pfn = false) :
    ∃ after, after.taken pfn = true ∧
      ∀ fuel start, Pmm.allocLoop start (fuel + 1) pfn allocator = .ok (some pfn) after := by
  rcases formed.covered.set inRange with ⟨after, sets, takes, _⟩
  refine ⟨{ after with pmm := { after.pmm with nextHint := pfn + 1 } }, ?_, ?_⟩
  · have isSet := takes.bits pfn
    rw [decide_eq_true (by omega), Bool.true_or] at isSet
    exact isSet
  · intro fuel start
    rw [Pmm.allocLoop, get_bind_apply, if_neg (Nat.not_le.mpr inRange), bind_apply,
      formed.covered.isSet inRange, clear]
    simp only [Bool.false_eq_true, if_false]
    rw [bind_apply, sets]
    simp only [Pmm.setHint, modify_bind_apply, formed.basePfn, Nat.zero_add, pure_apply]

omit formed in
theorem allocLoop_wrap (fuel : Nat) (positive : 0 < allocator.pmm.totalPfns) :
    Pmm.allocLoop start (fuel + 1) allocator.pmm.totalPfns allocator =
      Pmm.allocLoop start (fuel + 1) 0 allocator := by
  rw [Pmm.allocLoop, Pmm.allocLoop, get_bind_apply, get_bind_apply, if_pos (Nat.le_refl _),
    if_neg (Nat.not_le.mpr positive)]

theorem allocLoop_last (fuel : Nat) (inRange : pfn < allocator.pmm.totalPfns)
    (taken : allocator.taken pfn = true) :
    Pmm.allocLoop (pfn + 1) (fuel + 1) pfn allocator = .ok none allocator := by
  rw [Pmm.allocLoop, get_bind_apply, if_neg (Nat.not_le.mpr inRange), bind_apply,
    formed.covered.isSet inRange, taken]
  simp only [if_true, pure_apply]

theorem allocOne_round (fuel : Nat) {count : Nat}
    (hint : allocator.pmm.nextHint ≤ allocator.pmm.totalPfns)
    (before : count < allocator.pmm.nextHint)
    (behind : ∀ i, allocator.pmm.nextHint ≤ i → i < allocator.pmm.totalPfns →
      allocator.taken i = true)
    (passed : ∀ i < count, allocator.taken i = true) :
    Pmm.allocOne (fuel + 1 + count + (allocator.pmm.totalPfns - allocator.pmm.nextHint)) allocator =
      Pmm.allocLoop allocator.pmm.nextHint (fuel + 1) count allocator := by
  have reaches : allocator.pmm.nextHint + (allocator.pmm.totalPfns - allocator.pmm.nextHint) =
      allocator.pmm.totalPfns := by omega
  rw [Pmm.allocOne, get_bind_apply, formed.allocLoop_skip _ (Nat.le_of_eq reaches), reaches,
    Nat.add_right_comm, allocLoop_wrap _ (by omega), Nat.add_right_comm,
    formed.allocLoop_skip _ (by omega), Nat.zero_add]
  · intro i inside
    rw [Nat.zero_add]
    exact passed i inside
  · intro i inside
    omega
  · intro i inside
    exact behind _ (by omega) (by omega)
  · intro i inside
    omega

theorem allocOne_found (hint : allocator.pmm.nextHint ≤ allocator.pmm.totalPfns)
    (free : ∃ pfn < allocator.pmm.totalPfns, allocator.taken pfn = false) :
    ∃ found after, found < allocator.pmm.totalPfns ∧ allocator.taken found = false ∧
      after.taken found = true ∧
      ∀ fuel, allocator.pmm.totalPfns ≤ fuel →
        Pmm.allocOne fuel allocator = .ok (some found) after := by
  classical
  by_cases ahead : ∃ pfn, allocator.pmm.nextHint ≤ pfn ∧ pfn < allocator.pmm.totalPfns ∧
      allocator.taken pfn = false
  · -- the first clear frame at or behind the hint
    have found := Nat.find_spec ahead
    have earlier := fun i => Nat.find_min (m := i) ahead
    generalize Nat.find ahead = first at found earlier
    rcases formed.allocLoop_found found.2.1 found.2.2 with ⟨after, isSet, returns⟩
    refine ⟨first, after, found.2.1, found.2.2, isSet, fun fuel enough => ?_⟩
    have split : fuel = (fuel - (first - allocator.pmm.nextHint) - 1 + 1) +
        (first - allocator.pmm.nextHint) := by omega
    rw [Pmm.allocOne, get_bind_apply, split, formed.allocLoop_skip _ (by omega)]
    · rw [Nat.add_sub_cancel' found.1]
      exact returns _ _
    · intro i inside
      have notClear := earlier (allocator.pmm.nextHint + i) (by omega)
      rw [← Bool.not_eq_false]
      exact fun clear => notClear ⟨by omega, by omega, clear⟩
    · intro i inside
      omega
  · -- all clear frames lie before the hint, so the search comes round
    have found := Nat.find_spec free
    have earlier := fun i => Nat.find_min (m := i) free
    generalize Nat.find free = first at found earlier
    have before : first < allocator.pmm.nextHint := by
      rcases Nat.lt_or_ge first allocator.pmm.nextHint with before | behind
      · exact before
      · exact absurd ⟨first, behind, found⟩ ahead
    rcases formed.allocLoop_found found.1 found.2 with ⟨after, isSet, returns⟩
    refine ⟨first, after, found.1, found.2, isSet, fun fuel enough => ?_⟩
    have split : fuel =
        (fuel - (allocator.pmm.totalPfns - allocator.pmm.nextHint) - first - 1 + 1) +
        first + (allocator.pmm.totalPfns - allocator.pmm.nextHint) := by omega
    rw [split, formed.allocOne_round _ hint before]
    · exact returns _ _
    · intro i behind inRange
      rw [← Bool.not_eq_false]
      exact fun clear => ahead ⟨i, behind, inRange, clear⟩
    · intro i inside
      have notClear := earlier i inside
      rw [← Bool.not_eq_false]
      exact fun clear => notClear ⟨by omega, clear⟩

theorem allocOne_exhausted (hint : allocator.pmm.nextHint ≤ allocator.pmm.totalPfns)
    (started : allocator.pmm.nextHint ≠ 0)
    (full : ∀ pfn < allocator.pmm.totalPfns, allocator.taken pfn = true) (fuel : Nat)
    (enough : allocator.pmm.totalPfns ≤ fuel) :
    Pmm.allocOne fuel allocator = .ok none allocator := by
  have split : fuel = (fuel - allocator.pmm.totalPfns + 1) + (allocator.pmm.nextHint - 1) +
      (allocator.pmm.totalPfns - allocator.pmm.nextHint) := by omega
  have isHint : allocator.pmm.nextHint - 1 + 1 = allocator.pmm.nextHint := by omega
  rw [split, formed.allocOne_round _ hint (by omega)]
  · have ends := formed.allocLoop_last (fuel - allocator.pmm.totalPfns)
      (show allocator.pmm.nextHint - 1 < _ by omega) (full _ (by omega))
    rwa [isHint] at ends
  · exact fun i _ inRange => full i inRange
  · exact fun i inside => full i (by omega)

theorem allocLoop_hangs (positive : 0 < allocator.pmm.totalPfns)
    (full : ∀ pfn < allocator.pmm.totalPfns, allocator.taken pfn = true) (fuel : Nat)
    (inRange : pfn ≤ allocator.pmm.totalPfns) :
    Pmm.allocLoop 0 fuel pfn allocator = .error .running allocator := by
  induction fuel generalizing pfn with
  | zero => rfl
  | succ fuel induction =>
    have step : ∀ pfn < allocator.pmm.totalPfns,
        Pmm.allocLoop 0 (fuel + 1) pfn allocator = .error .running allocator := by
      intro pfn inside
      have skips : Pmm.allocLoop 0 (fuel + 1) pfn allocator =
          Pmm.allocLoop 0 fuel (pfn + 1) allocator :=
        formed.allocLoop_skip fuel (by omega) (fun i _ => full _ (by omega)) (fun i _ => by omega)
      rw [skips]
      exact induction (by omega)
    rcases Nat.lt_or_eq_of_le inRange with inside | isLast
    · exact step pfn inside
    · rw [isLast, allocLoop_wrap fuel positive]
      exact step 0 positive

end Formed

/-! ## Whole runs -/

inductive SearchCall where
  | allocOne
  | allocContig (n : Nat)
  | freeOne (pfn : Nat)

/-- One call that returns. Any frame may be freed, whoever holds it. -/
inductive SearchStep : Allocator → SearchCall → Allocator → Prop
  | allocOne {allocator result after} (fuel : Nat) :
      Pmm.allocOne fuel allocator = .ok result after → SearchStep allocator .allocOne after
  | allocContig {allocator result after} (n : Nat) :
      allocContig n allocator = .ok result after → SearchStep allocator (.allocContig n) after
  | freeOne {allocator result after} (pfn : Nat) :
      Pmm.freeOne pfn allocator = .ok result after → SearchStep allocator (.freeOne pfn) after

def shape (allocator : Allocator) : Nat × Nat × Nat :=
  (allocator.pmm.bitmap.length, allocator.pmm.basePfn, allocator.pmm.totalPfns)

theorem unmarked_shape : Unmarked shape where
  byte _ _ _ := by simp only [shape, List.length_set]
  count _ _ := rfl

theorem leaves_setHint (hint : Nat) : Leaves shape (Pmm.setHint hint) := fun _ => rfl

theorem leaves_allocLoop (start fuel pfn : Nat) : Leaves shape (Pmm.allocLoop start fuel pfn) := by
  induction fuel generalizing pfn with
  | zero => exact fun _ => trivial
  | succ fuel induction =>
    apply Leaves.bind Leaves.get
    intro allocator
    simp only
    generalize (if allocator.pmm.totalPfns ≤ pfn then 0 else pfn) = pfn
    apply Leaves.bind (Leaves.isSet _)
    intro taken
    split
    · split
      · exact Leaves.pure _
      · exact induction _
    · apply Leaves.bind (Leaves.updateByte unmarked_shape _ _)
      intro _
      exact Leaves.bind (leaves_setHint _) fun _ => Leaves.pure _

theorem leaves_freeOne (pfn : Nat) : Leaves shape (Pmm.freeOne pfn) := by
  apply Leaves.bind (Leaves.updateByte unmarked_shape _ _)
  intro _
  apply Leaves.bind Leaves.get
  intro allocator
  split
  · exact leaves_setHint _
  · exact Leaves.pure _

/-- The hint stays within memory. -/
structure Searchable (allocator : Allocator) : Prop extends Formed allocator where
  positive : 0 < allocator.pmm.totalPfns
  hint : allocator.pmm.nextHint ≤ allocator.pmm.totalPfns

theorem Formed.of_shape {allocator after : Allocator} (formed : Formed allocator)
    (same : shape after = shape allocator) : Formed after := by
  rcases Prod.mk.inj same with ⟨length, rest⟩
  rcases Prod.mk.inj rest with ⟨base, total⟩
  exact ⟨by rw [length, total, formed.length], by rw [base, formed.basePfn],
    by rw [total]; exact formed.bounded⟩

theorem Searchable.of_shape {allocator after : Allocator} (searchable : Searchable allocator)
    (same : shape after = shape allocator)
    (hint : after.pmm.nextHint ≤ allocator.pmm.totalPfns) : Searchable after := by
  have total : after.pmm.totalPfns = allocator.pmm.totalPfns := congrArg (·.2.2) same
  exact ⟨searchable.toFormed.of_shape same, by rw [total]; exact searchable.positive,
    by rw [total]; exact hint⟩

theorem Searchable.allocLoop_hint {allocator : Allocator} (searchable : Searchable allocator)
    (start fuel pfn : Nat) :
    (Pmm.allocLoop start fuel pfn allocator).Meets
      (fun _ after => after.pmm.nextHint ≤ allocator.pmm.totalPfns) (fun _ _ => True) True := by
  induction fuel generalizing pfn with
  | zero => trivial
  | succ fuel induction =>
    have inRange : (if allocator.pmm.totalPfns ≤ pfn then 0 else pfn) <
        allocator.pmm.totalPfns := by
      split
      · exact searchable.positive
      · omega
    rw [Pmm.allocLoop, get_bind_apply, bind_apply, searchable.covered.isSet inRange]
    generalize (if allocator.pmm.totalPfns ≤ pfn then 0 else pfn) = pfn at inRange
    cases allocator.taken pfn with
    | true =>
      simp only [if_true]
      split
      · exact searchable.hint
      · exact induction _
    | false =>
      rcases searchable.covered.set inRange with ⟨after, sets, _⟩
      simp only [Bool.false_eq_true, if_false]
      rw [bind_apply, sets]
      exact inRange

theorem Searchable.step {allocator after : Allocator} {call : SearchCall}
    (searchable : Searchable allocator) (step : SearchStep allocator call after) :
    Searchable after := by
  cases step with
  | allocOne fuel returns =>
    have kept := leaves_allocLoop allocator.pmm.nextHint fuel allocator.pmm.nextHint allocator
    have hint := searchable.allocLoop_hint allocator.pmm.nextHint fuel allocator.pmm.nextHint
    rw [Pmm.allocOne, get_bind_apply] at returns
    rw [returns] at kept hint
    exact searchable.of_shape kept hint
  | allocContig n returns =>
    have kept := Leaves.allocContig unmarked_shape n allocator
    have hint := KeepsHint.allocContig n allocator
    rw [returns] at kept hint
    exact searchable.of_shape kept (hint.trans_le searchable.hint)
  | freeOne pfn returns =>
    have kept := leaves_freeOne pfn allocator
    have hint := freeOne_hint pfn allocator
    rw [returns] at kept hint
    exact searchable.of_shape kept (hint.1.trans searchable.hint)

theorem fillBitmap_nonempty (regions : List MemoryRegion) (total phys : Nat)
    (allocator : Allocator) :
    (fillBitmap regions total phys allocator).Meets
      (fun _ _ => allocator.pmm.bitmap.length ≠ 0) (fun _ _ => True) True := by
  apply Outcome.Meets.bind (Leaves.clearRegions unmarked_shape regions allocator)
  intro _ cleared kept
  apply Outcome.Meets.bind
    (Leaves.forRange (fun i => Leaves.reserveFrame unmarked_shape _) _ _ cleared)
  intro _ reserved keptAgain
  have length : reserved.pmm.bitmap.length = allocator.pmm.bitmap.length :=
    congrArg (·.1) (keptAgain.trans kept)
  have looks : (Pmm.isSet 0 reserved).Meets
      (fun _ _ => allocator.pmm.bitmap.length ≠ 0) (fun _ _ => True) True := by
    rw [Pmm.isSet]
    split
    · next isByte =>
      have inside := (List.getElem?_eq_some_iff.mp isByte).1
      simp only [Outcome.Meets]
      omega
    · trivial
  apply Outcome.Meets.bind looks
  intro taken _ nonempty
  split
  · exact nonempty
  · apply Outcome.Meets.bind (Leaves.updateByte unmarked_shape _ _ _)
    intro _ _ _
    exact nonempty

theorem searchable_init {regions : List MemoryRegion} {allocator : Allocator}
    (init : pmmInit regions = some allocator) : Searchable allocator := by
  have hint := pmmInit_hint init
  rcases pmmInit_eq_some init with ⟨total, phys, placed, ended⟩
  have kept := Leaves.fillBitmap unmarked_shape regions total phys (.reserved total phys)
  have nonempty := fillBitmap_nonempty regions total phys (.reserved total phys)
  rw [ended] at kept nonempty
  have formed : Formed (.reserved total phys) := ⟨List.length_replicate, rfl, placed.bounded⟩
  have isTotal : allocator.pmm.totalPfns = total := congrArg (·.2.2) kept
  have length : (Allocator.reserved total phys).pmm.bitmap.length = (total + 7) / 8 :=
    formed.length
  refine ⟨formed.of_shape kept, ?_, by omega⟩
  have positive : (total + 7) / 8 ≠ 0 := length ▸ nonempty
  omega

/-- In every reachable state the search for one frame ends, finds a clear frame if there is
one and says so if there is none, just if the hint is not at frame 0 or some frame is clear. -/
theorem alloc_one_complete (regions : List MemoryRegion) (start allocator : Allocator)
    (calls : List SearchCall) (init : pmmInit regions = some start)
    (run : Trace SearchStep start calls allocator) :
    (∃ result after,
      (∀ fuel, allocator.pmm.totalPfns ≤ fuel → Pmm.allocOne fuel allocator = .ok result after) ∧
      ((∃ pfn < allocator.pmm.totalPfns, allocator.taken pfn = false) →
        ∃ pfn, result = some pfn ∧ pfn < allocator.pmm.totalPfns ∧
          allocator.taken pfn = false ∧ after.taken pfn = true) ∧
      (result = none ↔ ∀ pfn < allocator.pmm.totalPfns, allocator.taken pfn = true)) ↔
    allocator.pmm.nextHint ≠ 0 ∨
      ∃ pfn < allocator.pmm.totalPfns, allocator.taken pfn = false := by
  have searchable := run.invariant Searchable Searchable.step (searchable_init init)
  constructor
  · rintro ⟨result, after, returns, _⟩
    by_contra neither
    rw [not_or, not_not] at neither
    have full : ∀ pfn < allocator.pmm.totalPfns, allocator.taken pfn = true := by
      intro pfn inRange
      rw [← Bool.not_eq_false]
      exact fun clear => neither.2 ⟨pfn, inRange, clear⟩
    have hangs := searchable.allocLoop_hangs searchable.positive full allocator.pmm.totalPfns
      (Nat.zero_le _)
    have ended := returns _ (Nat.le_refl _)
    rw [Pmm.allocOne, get_bind_apply, neither.1, hangs] at ended
    cases ended
  intro ends
  by_cases free : ∃ pfn < allocator.pmm.totalPfns, allocator.taken pfn = false
  · rcases searchable.allocOne_found searchable.hint free with
      ⟨found, after, inRange, clear, isSet, returns⟩
    refine ⟨some found, after, returns, fun _ => ⟨found, rfl, inRange, clear, isSet⟩, ?_⟩
    constructor
    · intro impossible
      cases impossible
    · intro full
      cases clear.symm.trans (full found inRange)
  · have full : ∀ pfn < allocator.pmm.totalPfns, allocator.taken pfn = true := by
      intro pfn inRange
      rw [← Bool.not_eq_false]
      exact fun clear => free ⟨pfn, inRange, clear⟩
    have started : allocator.pmm.nextHint ≠ 0 := ends.resolve_right free
    exact ⟨none, allocator, searchable.allocOne_exhausted searchable.hint started full,
      fun isFree => absurd isFree free, fun _ => full, fun _ => rfl⟩

def twoFrames : List MemoryRegion := [⟨0, 0x2000, .usable⟩]

def twoFramesAt (bits : UInt8) (hint count : Nat) : Allocator := ⟨⟨[bits], 0, 0, 2, hint⟩, 2, count⟩

theorem twoFrames_init : pmmInit twoFrames = some (twoFramesAt 0b11111101 0 1) := by
  decide +kernel

/-- The one free frame is taken by a search for one frame, and the next search ends. -/
theorem alloc_one_complete_twice :
    ∃ result after, (∀ fuel, 2 ≤ fuel →
        Pmm.allocOne fuel (twoFramesAt 0b11111111 2 1) = .ok result after) ∧
      (result = none ↔
        ∀ pfn < 2, Allocator.taken (twoFramesAt 0b11111111 2 1) pfn = true) := by
  have takes : Pmm.allocOne 2 (twoFramesAt 0b11111101 0 1) =
      .ok (some 1) (twoFramesAt 0b11111111 2 1) := by decide
  have run : Trace SearchStep (twoFramesAt 0b11111101 0 1) [.allocOne]
      (twoFramesAt 0b11111111 2 1) :=
    .single (.allocOne 2 takes)
  rcases (alloc_one_complete twoFrames _ _ _ twoFrames_init run).mpr (.inl (by decide)) with
    ⟨result, after, returns, _, isNone⟩
  exact ⟨result, after, returns, isNone⟩

/-- The one free frame is taken by a search for a run, which leaves the hint at frame 0. The
next search for one frame never ends. -/
theorem alloc_one_hangs :
    pmmInit twoFrames = some (twoFramesAt 0b11111101 0 1) ∧
      Trace SearchStep (twoFramesAt 0b11111101 0 1) [.allocContig 1] (twoFramesAt 0b11111111 0 0) ∧
      (∀ pfn < 2, Allocator.taken (twoFramesAt 0b11111111 0 0) pfn = true) ∧
      ∀ fuel, Pmm.allocOne fuel (twoFramesAt 0b11111111 0 0) =
        .error .running (twoFramesAt 0b11111111 0 0) := by
  have full : ∀ pfn < 2, Allocator.taken (twoFramesAt 0b11111111 0 0) pfn = true := by decide
  have formed : Formed (twoFramesAt 0b11111111 0 0) := ⟨rfl, rfl, by decide⟩
  have takes : allocContig 1 (twoFramesAt 0b11111101 0 1) =
      .ok (some 0x1000) (twoFramesAt 0b11111111 0 0) := by decide
  exact ⟨twoFrames_init, .single (.allocContig 1 takes), full,
    fun fuel => formed.allocLoop_hangs (by decide) full fuel (Nat.zero_le _)⟩

/-- In every run no clear frame lies below the hint, and `alloc_frame` takes the lowest
clear frame there is. -/
theorem alloc_frame_first_fit (regions : List MemoryRegion) (start : Allocator)
    (events : List FrameEvent) (use : FrameUse) (aligned : ∀ region ∈ regions, Aligned region)
    (apart : regions.Pairwise Apart) (init : pmmInit regions = some start)
    (run : Trace FrameStep ⟨start, ∅⟩ events use) :
    (∀ pfn < use.allocator.pmm.totalPfns, pfn < use.allocator.pmm.nextHint →
      use.allocator.taken pfn = true) ∧
    ∀ lowest < use.allocator.pmm.totalPfns, use.allocator.taken lowest = false →
      (∀ pfn < lowest, use.allocator.taken pfn = true) → ∀ fuel > lowest,
        ∃ after, pmmAllocFrame fuel use.allocator = .ok (some (lowest * 4096)) after := by
  rcases ordered_of_run aligned apart init run with ⟨total, phys, _, _, _, ordered⟩
  have now := ordered.pooled.represents
  rw [now.totalPfns]
  constructor
  · intro pfn inRange below
    rw [← Bool.not_eq_false]
    intro clear
    have hinted := ordered.hinted pfn ((now.taken_eq_false inRange).mp clear)
    omega
  · intro lowest inRange clear below fuel enough
    apply ordered.allocFrame_lowest _ enough
    refine ⟨(now.taken_eq_false inRange).mp clear, ?_⟩
    intro pfn isFree
    by_contra under
    have isClear := (now.taken_eq_false (now.inside pfn isFree)).mpr isFree
    rw [below pfn (Nat.lt_of_not_le under)] at isClear
    cases isClear

/-- A frame is handed out and given back below the hint; it is the next one to be taken. -/
theorem alloc_frame_first_fit_twoFrames :
    ∃ use, Trace FrameStep ⟨twoFramesAt 0b11111101 0 1, ∅⟩
        [⟨.allocFrame, some 0x1000⟩, ⟨.freeFrame 0x1000, none⟩] use ∧
      use.allocator = twoFramesAt 0b11111101 1 1 ∧
      ∃ after, pmmAllocFrame 2 use.allocator = .ok (some 0x1000) after := by
  have takes : pmmAllocFrame 2 (twoFramesAt 0b11111101 0 1) =
      .ok (some 0x1000) (twoFramesAt 0b11111111 2 0) := by decide
  have frees : pmmFreeFrame (1 * 4096) (twoFramesAt 0b11111111 2 0) =
      .ok ⟨⟩ (twoFramesAt 0b11111101 1 1) := by decide
  have run : Trace FrameStep ⟨twoFramesAt 0b11111101 0 1, ∅⟩
      [⟨.allocFrame, some 0x1000⟩, ⟨.freeFrame 0x1000, none⟩] _ :=
    .cons (.allocFrame 2 takes) (.single (@FrameStep.freeFrame _ _ 1 (by decide) frees))
  have fits := alloc_frame_first_fit twoFrames _ _ _ (by decide) (List.pairwise_singleton _ _)
    twoFrames_init run
  exact ⟨_, run, rfl, fits.2 1 (by decide) (by decide) (by decide) 2 (by decide)⟩

end PersonaOS.Mm
