import Mathlib.Data.Finset.Card
import Mathlib.Data.Finset.Union
import PersonaOS.Mm.Mapping

/-! # Frames for page tables

How many page tables a range of pages lacks is known before any of them is mapped, and
mapping the pages asks the allocator for that many frames. So its answers to as many calls
decide how the pages are installed: all of them if it grants every table, none if it refuses
one of the first page's. -/

namespace PersonaOS.Mm

open Program

/-! ## Forecasts -/

/-- The next `count` allocations succeed, whatever memory holds by then. -/
def Machine.Grants : Nat → Machine → Prop
  | 0, _ => True
  | count + 1, machine => ∀ memory : Memory, ∃ frame,
      Machine.offer { machine with memory } = some frame ∧
        Grants count (machine.afterAlloc (some frame))

/-- One of the next `count` allocations fails, whatever memory holds by then. -/
def Machine.Refuses : Nat → Machine → Prop
  | 0, _ => False
  | count + 1, machine => ∀ (memory : Memory) (frame : Frame),
      Machine.offer { machine with memory } = some frame →
        Refuses count (machine.afterAlloc (some frame))

/-- What is said of the next `count` answers of the allocator does not depend on memory, and
each answer leaves one less to speak of. -/
structure Forecast (Ready : Nat → Machine → Prop) : Prop where
  memory : ∀ {count machine}, Ready count machine → ∀ memory, Ready count { machine with memory }
  answer : ∀ {count machine frame}, Ready (count + 1) machine → machine.offer = some frame →
    Ready count (machine.afterAlloc (some frame))

theorem forecast_grants : Forecast Machine.Grants where
  memory {count machine} grants memory := by
    induction count generalizing machine with
    | zero => trivial
    | succ count induction =>
      intro other
      obtain ⟨frame, offered, later⟩ := grants other
      exact ⟨frame, offered, induction later⟩
  answer {count machine frame} grants offered := by
    obtain ⟨other, isOther, later⟩ := grants machine.memory
    obtain rfl : frame = other := Option.some.inj (offered.symm.trans isOther)
    exact later

theorem forecast_refuses : Forecast Machine.Refuses where
  memory {count machine} refuses memory := by
    induction count generalizing machine with
    | zero => exact refuses
    | succ count induction =>
      exact fun other frame offered => induction (refuses other frame offered)
  answer {count machine frame} refuses offered := refuses machine.memory frame offered

/-! ## Missing tables -/

/-- The paths to the tables of `pages` pages from `first` on. -/
def tablePaths (first pages : Nat) : Finset (List Nat) :=
  (Finset.range pages).biUnion fun i =>
    {(tablePath (first + i)).take 1, (tablePath (first + i)).take 2, tablePath (first + i)}

def missing (memory : Memory) (pml4 : Frame) (paths : Finset (List Nat)) : Finset (List Nat) :=
  paths.filter fun path => walk memory pml4 path = none

theorem prefix_of_mem_tablePaths {first pages : Nat} {path : List Nat}
    (member : path ∈ tablePaths first pages) : ∃ i < pages, path <+: tablePath (first + i) := by
  simp only [tablePaths, Finset.mem_biUnion, Finset.mem_range, Finset.mem_insert,
    Finset.mem_singleton] at member
  obtain ⟨i, inside, rfl | rfl | rfl⟩ := member
  · exact ⟨i, inside, List.take_prefix _ _⟩
  · exact ⟨i, inside, List.take_prefix _ _⟩
  · exact ⟨i, inside, List.prefix_refl _⟩

theorem tablePaths_mono {first pages i : Nat} (inside : i < pages) :
    tablePaths (first + i) 1 ⊆ tablePaths first pages := by
  intro path member
  simp only [tablePaths, Finset.mem_biUnion, Finset.mem_range] at member ⊢
  obtain ⟨j, isZero, isPath⟩ := member
  obtain rfl : j = 0 := by omega
  exact ⟨i, inside, isPath⟩

theorem missing_of_reached {memory : Memory} {pml4 pt : Frame} {page : Nat}
    (reached : walk memory pml4 (tablePath page) = some pt) :
    missing memory pml4 (tablePaths page 1) = ∅ := by
  refine Finset.filter_eq_empty_iff.mpr fun path member isNone => ?_
  obtain ⟨i, isZero, rest, whole⟩ := prefix_of_mem_tablePaths member
  obtain rfl : i = 0 := by omega
  rw [Nat.add_zero] at whole
  rw [walk] at isNone
  rw [← whole, walk, Radix.walk_append, isNone] at reached
  cases reached

/-! ## Mapping under a forecast -/

theorem ensureChild_calls (table : Frame) (index : Nat) (interFlags : PageTableFlags)
    (current : Machine) :
    (ensureChild table index interFlags current).Meets
      (fun child next =>
        (current.memory table index).child ≠ none ∧ next = { current with memory := next.memory } ∨
        (current.memory table index).child = none ∧ current.offer = some child ∧
          next = { current.afterAlloc (some child) with memory := next.memory })
      (fun _ _ => (current.memory table index).child = none ∧ current.offer = none) True := by
  unfold ensureChild
  simp only [bind_apply, get_apply]
  by_cases present : (current.memory table index).flags.present = true
  · rw [if_pos present]
    have isChild : (current.memory table index).child ≠ none := by
      rw [PageTableEntry.child_of_present present]
      exact Option.some_ne_none _
    split
    · exact .inl ⟨isChild, rfl⟩
    · exact .inl ⟨isChild, rfl⟩
  · rw [if_neg present]
    have isChild := PageTableEntry.child_of_absent (Bool.eq_false_iff.mpr present)
    simp only [bind_apply, allocFrame]
    cases offered : current.offer with
    | none => exact ⟨isChild, rfl⟩
    | some new =>
      simp only [okOr_some, pure_apply, modify_apply]
      by_cases inRange : new * 4096 < 2 ^ 52
      · simp only [setAddr, if_pos inRange, modify_apply]
        exact .inr ⟨isChild, rfl, rfl⟩
      · simp only [setAddr, if_neg inRange, abort_apply]
        exact trivial

section Ready

variable {Ready : Nat → Machine → Prop} {roots : Set Frame} {before current machine : Machine}
  {pml4 table : Frame} {path : List Nat} {index virt : Nat} {Fresh : Machine → Prop}
  {flags : MapFlags} {paths : Finset (List Nat)} (forecast : Forecast Ready)
  (discipline : Discipline roots Fresh) (isRoot : pml4 ∈ roots)
  (addressed : ∀ path ∈ paths, userHalf.Addresses path)

include forecast discipline isRoot addressed

omit forecast discipline in
/-- A step down takes its own path from the missing ones, if no other table is new. -/
theorem missing_descends {child : Frame} {next : Machine} {user : Bool}
    (addresses : userHalf.Addresses (path ++ [index]))
    (step : Descends roots current pml4 user (path ++ [index]) child next)
    (isNew : ∀ place ∈ current.free, place ∉ next.free → place = child) :
    missing next.memory pml4 paths =
      (missing current.memory pml4 paths).erase (path ++ [index]) := by
  ext other
  simp only [missing, Finset.mem_filter, Finset.mem_erase]
  constructor
  · rintro ⟨isPath, isNone⟩
    refine ⟨?_, isPath, ?_⟩
    · rintro rfl
      rw [step.reached] at isNone
      cases isNone
    · cases placed : walk current.memory pml4 other with
      | none => rfl
      | some place =>
        rw [step.grows.walks pml4 isRoot other (addressed other isPath).1
          place placed] at isNone
        cases isNone
  · rintro ⟨different, isPath, wasNone⟩
    refine ⟨isPath, ?_⟩
    cases placed : walk next.memory pml4 other with
    | none => rfl
    | some place =>
      have unshared := step.accounts.sound.unshared
      rcases step.accounts.tables place ⟨pml4, isRoot, other, addressed other isPath, placed⟩
        with ⟨root, rootIsRoot, oldPath, oldAddresses, reached⟩ | ⟨supplied, taken⟩
      · have kept := step.grows.walks root rootIsRoot oldPath oldAddresses.1 place reached
        obtain ⟨rfl, rfl⟩ := unshared rootIsRoot isRoot oldAddresses
          (addressed other isPath) kept placed
        cases wasNone.symm.trans reached
      · rw [isNew place supplied.1 taken] at placed
        exact absurd (unshared isRoot isRoot (addressed other isPath) addresses placed
          step.reached).2 different

theorem ensureChild_ready (fresh : Fresh before)
    (addresses : userHalf.Addresses (path ++ [index])) (member : path ++ [index] ∈ paths)
    (descends : Descends roots before pml4 flags.user path table current ∧
      Ready (missing current.memory pml4 paths).card current) :
    (ensureChild table index flags.intermediate current).Meets
      (fun child next => Descends roots before pml4 flags.user (path ++ [index]) child next ∧
        Ready (missing next.memory pml4 paths).card next)
      (fun _ _ => ∃ count machine, Ready (count + 1) machine ∧ machine.offer = none) True := by
  obtain ⟨descends, ready⟩ := descends
  have here : Descends roots current pml4 flags.user path table current :=
    ⟨.refl descends.accounts.sound, .refl roots _, descends.reached, descends.admits⟩
  have onward : walk current.memory pml4 (path ++ [index]) =
      (current.memory table index).child := by
    rw [walk_concat, descends.reached, Option.bind_some]
  have isMissing : (current.memory table index).child = none →
      path ++ [index] ∈ missing current.memory pml4 paths := fun absent =>
    Finset.mem_filter.mpr ⟨member, onward.trans absent⟩
  have spec := (ensureChild_spec discipline fresh isRoot addresses descends).and
    ((ensureChild_spec discipline (discipline.kept fresh descends.accounts) isRoot addresses
      here).and (ensureChild_calls table index flags.intermediate current))
  apply spec.mono
  · rintro child next ⟨whole, step, calls⟩
    refine ⟨whole, ?_⟩
    have erased := missing_descends isRoot addressed addresses step fun place wasFree taken => by
      rcases calls with ⟨_, same⟩ | ⟨_, _, same⟩
      · rw [same] at taken
        exact absurd wasFree taken
      · rw [same] at taken
        by_contra other
        exact taken (Finset.mem_erase.mpr ⟨other, wasFree⟩)
    rw [erased]
    rcases calls with ⟨present, same⟩ | ⟨absent, offered, same⟩
    · have notMissing : path ++ [index] ∉ missing current.memory pml4 paths := fun isMember =>
        present (onward.symm.trans (Finset.mem_filter.mp isMember).2)
      rw [Finset.erase_eq_of_notMem notMissing, same]
      exact forecast.memory ready _
    · rw [← Finset.card_erase_add_one (isMissing absent)] at ready
      rw [same]
      exact forecast.memory (forecast.answer ready offered) _
  · rintro _ _ ⟨_, _, absent, refused⟩
    rw [← Finset.card_erase_add_one (isMissing absent)] at ready
    exact ⟨_, current, ready, refused⟩
  · exact id

theorem map4k_ready (fresh : Fresh machine) (sound : Sound machine.memory roots)
    (user : virt < 2 ^ 47) (within : tablePaths (virt / 4096) 1 ⊆ paths)
    (ready : Ready (missing machine.memory pml4 paths).card machine) (phys : Nat)
    (flags : MapFlags) :
    (map4k pml4 virt phys flags machine).Meets
      (fun _ after => Ready (missing after.memory pml4 paths).card after ∧
        missing after.memory pml4 (tablePaths (virt / 4096) 1) = ∅)
      (fun _ _ => (virt % 4096 ≠ 0 ∨ phys % 4096 ≠ 0) ∨
        pageMap machine.memory pml4 (virt / 4096) ≠ none ∨
        ∃ count machine, Ready (count + 1) machine ∧ machine.offer = none) True := by
  unfold map4k
  simp only [pageOffset_eq]
  split
  · next misaligned => exact .inl misaligned
  have page := page_lt user
  have addresses : userHalf.Addresses
      ([] ++ [pml4Idx virt] ++ [pdptIdx virt] ++ [pdIdx virt]) := by
    have whole := addresses_tablePath page
    rwa [tablePath_eq] at whole
  have members : (tablePath (virt / 4096)).take 1 ∈ paths ∧
      (tablePath (virt / 4096)).take 2 ∈ paths ∧ tablePath (virt / 4096) ∈ paths := by
    refine ⟨within ?_, within ?_, within ?_⟩ <;> simp [tablePaths]
  rw [tablePath_eq] at members
  refine .bind ((ensureChild_ready forecast discipline isRoot addressed fresh
    addresses.of_concat.of_concat members.1 ⟨.start sound, ready⟩).imp_error
      fun _ _ refused => .inr (.inr refused)) fun pdpt _ first => ?_
  refine .bind ((ensureChild_ready forecast discipline isRoot addressed fresh
    addresses.of_concat members.2.1 first).imp_error
      fun _ _ refused => .inr (.inr refused)) fun pd _ second => ?_
  refine .bind ((ensureChild_ready forecast discipline isRoot addressed fresh
    addresses members.2.2 second).imp_error
      fun _ _ refused => .inr (.inr refused)) fun pt next third => ?_
  obtain ⟨descends, ready⟩ := third
  have reached : walk next.memory pml4 (tablePath (virt / 4096)) = some pt := by
    rw [tablePath_eq]
    exact descends.reached
  simp only [bind_apply, get_apply]
  split
  · next present =>
    refine .inr (.inl ?_)
    rw [← descends.grows.pages pml4 isRoot, pageMap_of_walk page reached, ← ptIdx_eq]
    simp [PageTableEntry.mapped, present]
  · unfold setAddr
    split
    · have sameWalk : ∀ {other}, userHalf.Addresses other →
          walk (next.writeEntry pt (ptIdx virt) ⟨phys / 4096, flags.leaf⟩).memory pml4 other =
            walk next.memory pml4 other := by
        intro other otherAddresses
        rw [ptIdx_eq]
        exact walk_setLeaf descends.accounts.sound isRoot page reached isRoot otherAddresses
      have same : missing (next.writeEntry pt (ptIdx virt) ⟨phys / 4096, flags.leaf⟩).memory
          pml4 paths = missing next.memory pml4 paths :=
        Finset.filter_congr fun other isPath => by rw [sameWalk (addressed other isPath)]
      refine ⟨?_, missing_of_reached ((sameWalk (addresses_tablePath page)).trans reached)⟩
      rw [same]
      exact forecast.memory ready _
    · exact trivial

end Ready

theorem addresses_of_mem_tablePaths (virt pages : Nat)
    (user : ∀ i < pages, virt + i * 4096 < 2 ^ 47) :
    ∀ path ∈ tablePaths (virt / 4096) pages, userHalf.Addresses path := by
  intro path member
  obtain ⟨i, inside, within⟩ := prefix_of_mem_tablePaths member
  have page := page_lt (user i inside)
  rw [Nat.add_mul_div_right _ _ (by decide)] at page
  exact (addresses_tablePath page).of_initial within

/-! ## Fresh pages -/

theorem Machine.Grants.mono {count fewer : Nat} {machine : Machine} (grants : machine.Grants count)
    (isFewer : fewer ≤ count) : machine.Grants fewer := by
  induction fewer generalizing count machine with
  | zero => trivial
  | succ fewer induction =>
    cases count with
    | zero => omega
    | succ count =>
      intro memory
      obtain ⟨frame, offered, later⟩ := grants memory
      exact ⟨frame, offered, induction later (Nat.le_of_succ_le_succ isFewer)⟩

theorem forecast_spared (spared : Nat) :
    Forecast fun count machine => machine.Grants (count + spared) where
  memory grants := forecast_grants.memory grants
  answer grants offered := by
    rw [Nat.add_right_comm] at grants
    exact forecast_grants.answer grants offered

theorem missing_card_le (memory : Memory) (pml4 : Frame) (page : Nat) :
    (missing memory pml4 (tablePaths page 1)).card ≤ 3 := by
  refine (Finset.card_filter_le _ _).trans ?_
  rw [tablePaths, Finset.range_one, Finset.singleton_biUnion]
  exact Finset.card_le_three

/-- A page takes a frame, and three more at most for its tables. -/
theorem mapAnonLoop_granted {roots : Set Frame} {Fresh : Machine → Prop} {machine : Machine}
    {pml4 virt : Nat} (discipline : Discipline roots Fresh) (isRoot : pml4 ∈ roots)
    (fresh : Fresh machine) (sound : Sound machine.memory roots) (aligned : virt % 4096 = 0)
    (flags : MapFlags) (spared done pages : Nat)
    (user : ∀ i < done + pages, virt + i * 4096 < 2 ^ 47)
    (grants : machine.Grants (4 * pages + spared)) :
    (mapAnonLoop pml4 virt flags done pages machine).Meets
      (fun _ after => after.Grants spared)
      (fun _ _ => ∃ i, done ≤ i ∧ i < done + pages ∧
        pageMap machine.memory pml4 (virt / 4096 + i) ≠ none) True := by
  induction pages generalizing machine done with
  | zero =>
    rw [Nat.mul_zero, Nat.zero_add] at grants
    exact grants
  | succ pages induction =>
    rw [show 4 * (pages + 1) + spared = 3 + (4 * pages + spared) + 1 by omega] at grants
    obtain ⟨frame, offered, later⟩ := grants machine.memory
    have unused := discipline.offer fresh offered
    have taken := Accounts.takeZeroed sound offered unused
    have samePages : ∀ page, pageMap ((machine.afterAlloc (some frame)).zeroFrame frame).memory
        pml4 page = pageMap machine.memory pml4 page := pageMap_overwrite unused isRoot
    have granted := forecast_grants.memory later
      ((machine.afterAlloc (some frame)).zeroFrame frame).memory
    have isOffered : machine.offer = some frame := offered
    unfold mapAnonLoop
    simp only [bind_apply, allocFrame, isOffered, okOr_some, pure_apply, modify_apply]
    change Machine.Grants _ ((machine.afterAlloc (some frame)).zeroFrame frame) at granted
    generalize (machine.afterAlloc (some frame)).zeroFrame frame = zeroed
      at taken samePages granted
    split
    · have number : (virt + done * 4096) / 4096 = virt / 4096 + done :=
        Nat.add_mul_div_right _ _ (by decide)
      have userHere := user done (by omega)
      have addressed : ∀ path ∈ tablePaths ((virt + done * 4096) / 4096) 1,
          userHalf.Addresses path :=
        addresses_of_mem_tablePaths _ 1 fun i inside => by omega
      have enough := missing_card_le zeroed.memory pml4 ((virt + done * 4096) / 4096)
      have ready := map4k_ready (forecast_spared (4 * pages + spared)) discipline isRoot addressed
        (discipline.kept fresh taken) taken.sound userHere (Finset.Subset.refl _)
        (granted.mono (by omega)) (frame * 4096) flags
      have spec := map4k_spec discipline (discipline.kept fresh taken) taken.sound isRoot userHere
        (frame * 4096) flags
      apply Outcome.Meets.bind ((spec.and ready).imp_error _)
      · rintro _ current ⟨⟨_, _, _, accounts, changes⟩, left, reached⟩
        rw [reached, Finset.card_empty, Nat.zero_add] at left
        have whole := taken.trans accounts
        apply (induction (discipline.kept fresh whole) whole.sound (done + 1)
          (fun i inside => user i (by omega)) left).imp_error
        rintro _ _ ⟨i, behind, before, mapped⟩
        refine ⟨i, by omega, by omega, ?_⟩
        rwa [changes pml4 isRoot, number, if_neg (by omega), samePages] at mapped
      · rintro _ _ ⟨_, misaligned | mapped | ⟨count, other, granted, refused⟩⟩
        · omega
        · refine ⟨done, Nat.le_refl _, by omega, ?_⟩
          rwa [number, samePages] at mapped
        · rw [Nat.add_right_comm] at granted
          obtain ⟨frame, offered, _⟩ := granted other.memory
          cases refused.symm.trans offered
    · exact trivial

section Install

variable {roots : Set Frame} {machine : Machine} {pml4 virt : Nat} {Fresh : Machine → Prop}
  (discipline : Discipline roots Fresh) (isRoot : pml4 ∈ roots)

include discipline isRoot

theorem installLoop_granted {paths : Finset (List Nat)}
    (addressed : ∀ path ∈ paths, userHalf.Addresses path) (frames : List Nat) (done : Nat)
    (fresh : Fresh machine) (sound : Sound machine.memory roots) (aligned : virt % 4096 = 0)
    (frameAligned : ∀ phys ∈ frames, phys % 4096 = 0)
    (user : ∀ i < done + frames.length, virt + i * 4096 < 2 ^ 47)
    (within : ∀ i < done + frames.length, tablePaths (virt / 4096 + i) 1 ⊆ paths)
    (unmapped : ∀ i < done + frames.length, done ≤ i →
      pageMap machine.memory pml4 (virt / 4096 + i) = none)
    (grants : Machine.Grants (missing machine.memory pml4 paths).card machine) :
    (installLoop pml4 virt done frames machine).Meets (fun _ _ => True) (fun _ _ => False)
      True := by
  induction frames generalizing machine done with
  | nil => exact trivial
  | cons phys rest induction =>
    simp only [List.length_cons] at user within unmapped
    have number : (virt + done * 4096) / 4096 = virt / 4096 + done :=
      Nat.add_mul_div_right _ _ (by decide)
    unfold installLoop
    split
    · have inside : done < done + (rest.length + 1) := by omega
      have ready := map4k_ready forecast_grants discipline isRoot addressed fresh sound
        (user done inside) (by rw [number]; exact within done inside) grants phys .userData
      have spec := map4k_spec discipline fresh sound isRoot (user done inside) phys .userData
      apply Outcome.Meets.bind ((spec.and ready).imp_error _)
      · rintro _ current ⟨⟨_, _, _, accounts, changes⟩, later, _⟩
        apply induction (done + 1) (discipline.kept fresh accounts) accounts.sound
          (fun frame member => frameAligned frame (List.mem_cons_of_mem phys member))
          (fun i inside => user i (by omega)) (fun i inside => within i (by omega))
          (fun i inside above => ?_) later
        rw [changes pml4 isRoot, number, if_neg (by omega)]
        exact unmapped i (by omega) (by omega)
      · rintro _ _ ⟨_, misaligned | mapped | ⟨count, other, granted, refused⟩⟩
        · have physAligned := frameAligned phys List.mem_cons_self
          omega
        · rw [number] at mapped
          exact mapped (unmapped done inside (Nat.le_refl _))
        · obtain ⟨frame, offered, _⟩ := granted other.memory
          cases refused.symm.trans offered
    · exact trivial

/-- Enough frames for the tables the pages lack, or too few for those of the first page: the
pages are installed as a whole or not at all. -/
theorem installPages_whole {frames : List Nat} (fresh : Fresh machine)
    (sound : Sound machine.memory roots) (aligned : virt % 4096 = 0)
    (frameAligned : ∀ phys ∈ frames, phys % 4096 = 0)
    (user : ∀ i < frames.length, virt + i * 4096 < 2 ^ 47)
    (unmapped : ∀ i < frames.length, pageMap machine.memory pml4 (virt / 4096 + i) = none)
    (forecast :
      Machine.Grants (missing machine.memory pml4 (tablePaths (virt / 4096) frames.length)).card
        machine ∨
      Machine.Refuses (missing machine.memory pml4 (tablePaths (virt / 4096) 1)).card machine) :
    (installPages pml4 virt frames machine).Meets (fun _ _ => True)
      (fun _ after => ∀ page,
        pageMap after.memory pml4 page = pageMap machine.memory pml4 page) True := by
  rcases forecast with grants | refuses
  · apply (installLoop_granted discipline isRoot (addresses_of_mem_tablePaths _ _ user) frames 0
      fresh
      sound aligned frameAligned (fun i inside => user i (by omega))
      (fun i inside => tablePaths_mono (by omega)) (fun i inside _ => unmapped i (by omega))
      grants).mono
    · exact fun _ _ ok => ok
    · exact fun _ _ => False.elim
    · exact id
  · cases frames with
    | nil => exact trivial
    | cons phys rest =>
      have first : virt < 2 ^ 47 := by simpa using user 0 (by simp)
      unfold installPages installLoop
      rw [Nat.zero_mul, Nat.add_zero]
      split
      · have spec := map4k_spec discipline fresh sound isRoot first phys .userData
        have ready := map4k_ready forecast_refuses discipline isRoot
          (addresses_of_mem_tablePaths virt 1 fun i inside => by omega)
          fresh sound first (Finset.Subset.refl _) refuses phys .userData
        apply Outcome.Meets.bind ((spec.and ready).imp_error _)
        · rintro _ current ⟨_, never, reached⟩
          rw [reached] at never
          exact never.elim
        · exact fun _ _ failed => failed.1.2 pml4 isRoot
      · exact trivial

end Install

end PersonaOS.Mm
