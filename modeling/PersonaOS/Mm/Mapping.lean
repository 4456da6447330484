import PersonaOS.Mm.Tables

/-! # What the mapping operations do to the page maps

Each operation is specified once, for any set of address spaces that includes its own: it keeps
the forest of tables sound, takes new tables from the free frames only, and changes the page map
of its own address space at the pages it is asked to. -/

namespace PersonaOS.Mm

open Program

/-- An entry a user-half walk can come to: all entries of a table, of a top-level table
the lower half. -/
def UserSlot (memory : Memory) (roots : Set Frame) (table : Frame) (index : Nat) : Prop :=
  IsTable memory roots table ∧ (table ∈ roots → index < 256)

/-- The tables stay sound, every new one is a frame that the allocator had to hand out and no
longer has, and only such frames and the tables are written. -/
structure Accounts (roots : Set Frame) (before after : Machine) : Prop where
  sound : Sound after.memory roots
  tables : ∀ frame, IsTable after.memory roots frame →
    IsTable before.memory roots frame ∨ before.Supplies frame ∧ frame ∉ after.free
  writes : ∀ table index, after.memory table index ≠ before.memory table index →
    before.Supplies table ∨ UserSlot before.memory roots table index
  free : after.free ⊆ before.free
  supply : after.supply = before.supply
  calls : before.calls ≤ after.calls

theorem Accounts.refl {roots : Set Frame} {machine : Machine}
    (sound : Sound machine.memory roots) : Accounts roots machine machine where
  sound := sound
  tables _ isTable := .inl isTable
  writes _ _ changed := absurd rfl changed
  free := Finset.Subset.refl _
  supply := rfl
  calls := Nat.le_refl _

theorem Accounts.supplies {roots : Set Frame} {before after : Machine} {frame : Frame}
    (accounts : Accounts roots before after) (supplied : after.Supplies frame) :
    before.Supplies frame :=
  ⟨accounts.free supplied.1, accounts.supply ▸ supplied.2⟩

theorem Accounts.trans {roots : Set Frame} {first second third : Machine}
    (left : Accounts roots first second) (right : Accounts roots second third) :
    Accounts roots first third where
  sound := right.sound
  tables frame isTable := by
    rcases right.tables frame isTable with older | ⟨wasFree, nowTaken⟩
    · rcases left.tables frame older with oldest | ⟨wasFree, nowTaken⟩
      · exact .inl oldest
      · exact .inr ⟨wasFree, fun stillFree => nowTaken (right.free stillFree)⟩
    · exact .inr ⟨left.supplies wasFree, nowTaken⟩
  writes table index changed := by
    by_cases unchanged : second.memory table index = first.memory table index
    · rw [← unchanged] at changed
      rcases right.writes table index changed with wasFree | ⟨isTable, low⟩
      · exact .inl (left.supplies wasFree)
      · rcases left.tables table isTable with older | ⟨wasFree, _⟩
        · exact .inr ⟨older, low⟩
        · exact .inl wasFree
    · exact left.writes table index unchanged
  free := right.free.trans left.free
  supply := right.supply.trans left.supply
  calls := left.calls.trans right.calls

/-- A property of machine states under which the allocator never hands out a table, kept
by everything the manager does. -/
structure Discipline (roots : Set Frame) (Fresh : Machine → Prop) : Prop where
  offer : ∀ {machine frame}, Fresh machine → machine.offer = some frame →
    ¬ IsTable machine.memory roots frame
  kept : ∀ {before after}, Fresh before → Accounts roots before after → Fresh after

/-! ## Page maps across a change -/

def SamePages (roots : Set Frame) (before after : Machine) : Prop :=
  ∀ root ∈ roots, ∀ page, pageMap after.memory root page = pageMap before.memory root page

/-- The page map of `pml4` has `value` at `page`; nothing else changed anywhere. -/
def ChangesPage (roots : Set Frame) (pml4 : Frame) (page : Nat)
    (value : Option PageTableEntry) (before after : Machine) : Prop :=
  ∀ root ∈ roots, ∀ other, pageMap after.memory root other =
    if root = pml4 ∧ other = page then value else pageMap before.memory root other

theorem SamePages.changesPage {roots : Set Frame} {pml4 : Frame} {page : Nat}
    {value : Option PageTableEntry} {first second third : Machine}
    (same : SamePages roots first second)
    (changes : ChangesPage roots pml4 page value second third) :
    ChangesPage roots pml4 page value first third := by
  intro root isRoot other
  rw [changes root isRoot other, same root isRoot other]

/-! ## Allocation -/

theorem afterAlloc_free_subset (machine : Machine) (offered : Option Frame) :
    (machine.afterAlloc offered).free ⊆ machine.free := by
  cases offered with
  | none => exact Finset.Subset.refl _
  | some frame => exact Finset.erase_subset _ _

theorem Accounts.afterAlloc {roots : Set Frame} {machine : Machine}
    (sound : Sound machine.memory roots) (offered : Option Frame) :
    Accounts roots machine (machine.afterAlloc offered) where
  sound := sound
  tables _ isTable := .inl isTable
  writes _ _ changed := absurd rfl changed
  free := afterAlloc_free_subset machine offered
  supply := rfl
  calls := Nat.le_succ _

theorem Accounts.takeZeroed {roots : Set Frame} {machine : Machine} {frame : Frame}
    (sound : Sound machine.memory roots) (offered : machine.offer = some frame)
    (unused : ¬ IsTable machine.memory roots frame) :
    Accounts roots machine ((machine.afterAlloc (some frame)).zeroFrame frame) where
  sound := sound.overwrite unused
  tables _ isTable := .inl ((isTable_overwrite unused).mp isTable)
  writes table index changed := by
    by_cases isFrame : table = frame
    · exact .inl (isFrame ▸ Machine.supplies_of_offer offered)
    · have same : ((machine.afterAlloc (some frame)).zeroFrame frame).memory table =
          machine.memory table := Function.update_of_ne isFrame _ _
      exact absurd (congrFun same index) changed
  free := afterAlloc_free_subset machine (some frame)
  supply := rfl
  calls := Nat.le_succ _

theorem Sound.userSlot {memory : Memory} {roots : Set Frame} {root table : Frame}
    {path : List Nat} {index : Nat} (sound : Sound memory roots) (isRoot : root ∈ roots)
    (spans : userHalf.Spans (path ++ [index])) (reached : walk memory root path = some table) :
    UserSlot memory roots table index := by
  have addresses := spans.addresses_initial (List.prefix_refl _)
  refine ⟨⟨root, isRoot, path, addresses, reached⟩, fun tableIsRoot => ?_⟩
  rcases sound.unshared tableIsRoot isRoot (Radix.Region.addresses_nil (by decide)) addresses rfl
    reached with ⟨-, samePath⟩
  subst samePath
  exact spans.2 index rfl

/-! ## Descending one level -/

/-- The state of a descent from `pml4` that started at `before` and has come to `table`
along `path`, asking for user access if `user`. -/
structure Descends (roots : Set Frame) (before : Machine) (pml4 : Frame) (user : Bool)
    (path : List Nat) (table : Frame) (current : Machine) : Prop where
  accounts : Accounts roots before current
  grows : Grows roots before.memory current.memory
  reached : walk current.memory pml4 path = some table
  admits : user = true → ∀ upper index place, upper ++ [index] <+: path →
    walk current.memory pml4 upper = some place →
    (current.memory place index).flags.userAccessible = true

theorem Descends.start {roots : Set Frame} {machine : Machine} {pml4 : Frame} {user : Bool}
    (sound : Sound machine.memory roots) :
    Descends roots machine pml4 user [] pml4 machine where
  accounts := .refl sound
  grows := .refl roots machine.memory
  reached := rfl
  admits _ upper index _ within _ := by simp at within

section Descent

variable {roots : Set Frame} {before current next : Machine} {pml4 table child : Frame}
  {user : Bool} {path : List Nat} {index : Nat}

theorem Descends.step (descends : Descends roots before pml4 user path table current)
    (isRoot : pml4 ∈ roots) (addresses : userHalf.Addresses (path ++ [index]))
    (accounts : Accounts roots before next)
    (grows : Grows roots current.memory next.memory)
    (reached : walk next.memory pml4 (path ++ [index]) = some child)
    (admits : user = true → (next.memory table index).flags.userAccessible = true) :
    Descends roots before pml4 user (path ++ [index]) child next where
  accounts := accounts
  grows := descends.grows.trans grows
  reached := reached
  admits wantsUser upper position place within placed := by
    rcases List.prefix_concat_iff.mp within with whole | shorter
    · obtain ⟨rfl, samePosition⟩ := List.append_inj' whole rfl
      obtain rfl : position = index := by simpa using samePosition
      have kept := grows.walks pml4 isRoot upper addresses.of_concat.1 table descends.reached
      obtain rfl : table = place := Option.some.inj (kept.symm.trans placed)
      exact admits wantsUser
    · have upperAddresses := addresses.of_concat.of_initial shorter
      obtain ⟨rest, wholePath⟩ := shorter
      have through := descends.reached
      rw [← wholePath, walk, Radix.walk_append] at through
      obtain ⟨below, belowReached, -⟩ := Option.bind_eq_some_iff.mp through
      have belowWalk : walk current.memory pml4 (upper ++ [position]) = some below :=
        belowReached
      rw [walk_concat] at belowWalk
      obtain ⟨here, hereReached, isChild⟩ := Option.bind_eq_some_iff.mp belowWalk
      have kept := grows.walks pml4 isRoot upper upperAddresses.of_concat.1 here hereReached
      obtain rfl : here = place := Option.some.inj (kept.symm.trans placed)
      exact grows.admits pml4 isRoot upper position here upperAddresses hereReached
        (PageTableEntry.child_eq_some.mp isChild).1
        (descends.admits wantsUser upper position here ⟨rest, wholePath⟩ hereReached)

variable {Fresh : Machine → Prop} {flags : MapFlags}

theorem Descends.widen (descends : Descends roots before pml4 flags.user path table current)
    (isRoot : pml4 ∈ roots) (addresses : userHalf.Addresses (path ++ [index]))
    (present : (current.memory table index).flags.present = true) :
    Descends roots before pml4 flags.user (path ++ [index])
      (current.memory table index).frame
      (current.writeEntry table index
        { current.memory table index with
          flags := (current.memory table index).flags.union flags.intermediate }) := by
  have sound := descends.accounts.sound
  have sameWalks := walk_widen current.memory table index flags.intermediate present
  have accounts : Accounts roots current (current.writeEntry table index
      { current.memory table index with
        flags := (current.memory table index).flags.union flags.intermediate }) :=
    { sound := sound.widen isRoot addresses descends.reached present rfl
      tables := by
        rintro frame ⟨root, otherIsRoot, otherPath, otherAddresses, placed⟩
        exact .inl ⟨root, otherIsRoot, otherPath, otherAddresses,
          (sameWalks root otherPath).symm.trans placed⟩
      writes := by
        intro place position changed
        by_cases here : place = table ∧ position = index
        · rw [here.1, here.2]
          exact .inr (sound.userSlot isRoot addresses.1 descends.reached)
        · exact absurd (Radix.setEntry_of_ne here) changed
      free := Finset.Subset.refl _
      supply := rfl
      calls := Nat.le_refl _ }
  refine descends.step isRoot addresses (descends.accounts.trans accounts)
    (sound.grows_widen flags.intermediate isRoot addresses descends.reached present) ?_ ?_
  · refine (sameWalks pml4 (path ++ [index])).trans ?_
    rw [walk_concat, descends.reached]
    exact PageTableEntry.child_of_present present
  · intro wantsUser
    simp [Machine.writeEntry, PageTableFlags.union, MapFlags.intermediate, wantsUser]

theorem Descends.attach (descends : Descends roots before pml4 flags.user path table current)
    (isRoot : pml4 ∈ roots) (addresses : userHalf.Addresses (path ++ [index]))
    (absent : (current.memory table index).flags.present = false)
    (isFree : current.Supplies child) (unused : ¬ IsTable current.memory roots child) :
    Descends roots before pml4 flags.user (path ++ [index]) child
      (((current.afterAlloc (some child)).zeroFrame child).writeEntry table index
        ⟨child, flags.intermediate⟩) := by
  have sound : Sound ((current.afterAlloc (some child)).zeroFrame child).memory roots :=
    descends.accounts.sound.overwrite unused
  have reached : walk ((current.afterAlloc (some child)).zeroFrame child).memory pml4 path =
      some table :=
    (walk_overwrite unused isRoot addresses.of_concat.1).trans descends.reached
  have stillUnused :
      ¬ IsTable ((current.afterAlloc (some child)).zeroFrame child).memory roots child :=
    mt (isTable_overwrite unused).mp unused
  have vacant : (((current.afterAlloc (some child)).zeroFrame child).memory table
      index).flags.present = false := by
    have kept : ((current.afterAlloc (some child)).zeroFrame child).memory table =
        current.memory table :=
      entry_overwrite unused isRoot addresses.of_concat descends.reached
    rw [kept, absent]
  have empty : ∀ position,
      ((current.afterAlloc (some child)).zeroFrame child).memory child position = .unused :=
    fun position => by simp [Machine.zeroFrame]
  have interPresent : flags.intermediate.present = true := rfl
  have accounts : Accounts roots current
      (((current.afterAlloc (some child)).zeroFrame child).writeEntry table index
        ⟨child, flags.intermediate⟩) :=
    { sound := sound.attach isRoot addresses reached vacant stillUnused empty interPresent
        rfl rfl
      tables := by
        rintro frame ⟨root, otherIsRoot, otherPath, otherAddresses, placed⟩
        rcases walk_attach_cases sound isRoot addresses reached stillUnused empty
          interPresent otherIsRoot otherAddresses.1 placed with old | ⟨-, -, rfl⟩
        · exact .inl ((isTable_overwrite unused).mp
            ⟨root, otherIsRoot, otherPath, otherAddresses, old⟩)
        · exact .inr ⟨isFree, Finset.notMem_erase _ _⟩
      writes := by
        intro place position changed
        by_cases here : place = table ∧ position = index
        · rw [here.1, here.2]
          exact .inr (descends.accounts.sound.userSlot isRoot addresses.1 descends.reached)
        · by_cases isChild : place = child
          · exact .inl (isChild ▸ isFree)
          · have same : ((current.afterAlloc (some child)).zeroFrame child).memory place =
                current.memory place := Function.update_of_ne isChild _ _
            exact absurd ((Radix.setEntry_of_ne here).trans (congrFun same position)) changed
      free := afterAlloc_free_subset current (some child)
      supply := rfl
      calls := Nat.le_succ _ }
  refine descends.step isRoot addresses (descends.accounts.trans accounts)
    ((grows_overwrite unused).trans (sound.grows_attach isRoot addresses reached vacant
      stillUnused empty interPresent)) ?_ ?_
  · exact Radix.walk_attach_self reached (PageTableEntry.child_of_present interPresent)
      sound.unshared isRoot addresses
  · intro wantsUser
    simp [Machine.writeEntry, MapFlags.intermediate, wantsUser]

theorem ensureChild_spec (discipline : Discipline roots Fresh) (fresh : Fresh before)
    (isRoot : pml4 ∈ roots) (addresses : userHalf.Addresses (path ++ [index]))
    (descends : Descends roots before pml4 flags.user path table current) :
    (ensureChild table index flags.intermediate current).Meets
      (fun child next => Descends roots before pml4 flags.user (path ++ [index]) child next)
      (fun _ next => Accounts roots before next ∧ SamePages roots before next)
      True := by
  have sound := descends.accounts.sound
  unfold ensureChild
  simp only [bind_apply, get_apply]
  by_cases present : (current.memory table index).flags.present = true
  · rw [if_pos present]
    by_cases widens : (current.memory table index).flags.union flags.intermediate ≠
        (current.memory table index).flags
    · rw [if_pos widens]
      exact descends.widen isRoot addresses present
    · rw [if_neg widens]
      refine descends.step isRoot addresses descends.accounts (.refl roots _) ?_ ?_
      · rw [walk_concat, descends.reached]
        exact PageTableEntry.child_of_present present
      · intro wantsUser
        rw [← not_not.mp widens]
        simp [PageTableFlags.union, MapFlags.intermediate, wantsUser]
  · rw [if_neg present]
    simp only [bind_apply, allocFrame]
    cases offered : current.offer with
    | none => exact ⟨descends.accounts.trans (.afterAlloc sound none), descends.grows.pages⟩
    | some new =>
      have unused := discipline.offer (discipline.kept fresh descends.accounts) offered
      have attached := descends.attach isRoot addresses (Bool.eq_false_iff.mpr present)
        (Machine.supplies_of_offer offered) unused
      simp only [okOr_some, pure_apply, modify_apply]
      by_cases inRange : new * 4096 < 2 ^ 52
      · simp only [setAddr, if_pos inRange, modify_apply]
        rw [Nat.mul_div_cancel _ (by decide)]
        exact attached
      · simp only [setAddr, if_neg inRange, abort_apply]
        exact trivial

end Descent

/-! ## Mapping and unmapping one page -/

theorem tablePath_eq (virt : Nat) :
    tablePath (virt / 4096) = [pml4Idx virt, pdptIdx virt, pdIdx virt] := by
  simp only [tablePath, pml4Idx, pdptIdx, pdIdx, index_eq, List.cons.injEq, and_true]
  omega

theorem ptIdx_eq (virt : Nat) : ptIdx virt = virt / 4096 % 512 :=
  index_eq virt 12

theorem page_lt {virt : Nat} (user : virt < 2 ^ 47) : virt / 4096 < 2 ^ 35 := by
  omega

section Page

variable {roots : Set Frame} {machine : Machine} {pml4 : Frame} {Fresh : Machine → Prop}
  {virt : Nat}

theorem pageMap_of_walk {memory : Memory} {pt : Frame} {page : Nat} (user : page < 2 ^ 35)
    (atPage : walk memory pml4 (tablePath page) = some pt) :
    pageMap memory pml4 page = (memory pt (page % 512)).mapped := by
  rw [pageMap, if_pos user, atPage, Option.bind_some]

theorem Accounts.writeLeaf {pt : Frame} {page : Nat} {leaf : PageTableEntry}
    (sound : Sound machine.memory roots) (isRoot : pml4 ∈ roots) (user : page < 2 ^ 35)
    (atPage : walk machine.memory pml4 (tablePath page) = some pt)
    (admits : leaf.flags.present = true → leaf.flags.userAccessible = true →
      ∀ path index table, path ++ [index] <+: tablePath page →
        walk machine.memory pml4 path = some table →
        (machine.memory table index).flags.userAccessible = true) :
    Accounts roots machine (machine.writeEntry pt (page % 512) leaf) where
  sound := sound.setLeaf isRoot user atPage admits
  tables _ isTable := .inl ((isTable_setLeaf sound isRoot user atPage).mp isTable)
  writes place position changed := by
    by_cases here : place = pt ∧ position = page % 512
    · rw [here.1, here.2]
      refine .inr (sound.userSlot isRoot ⟨?_, ?_⟩ atPage)
      · simp [userHalf]
      · exact (addresses_tablePath user).1.2
    · exact absurd (Radix.setEntry_of_ne here) changed
  free := Finset.Subset.refl _
  supply := rfl
  calls := Nat.le_refl _

theorem map4k_spec (discipline : Discipline roots Fresh) (fresh : Fresh machine)
    (sound : Sound machine.memory roots) (isRoot : pml4 ∈ roots) (user : virt < 2 ^ 47)
    (phys : Nat) (flags : MapFlags) :
    (map4k pml4 virt phys flags machine).Meets
      (fun _ after => virt % 4096 = 0 ∧ phys % 4096 = 0 ∧
        pageMap machine.memory pml4 (virt / 4096) = none ∧ Accounts roots machine after ∧
        ChangesPage roots pml4 (virt / 4096) (some ⟨phys / 4096, flags.leaf⟩) machine after)
      (fun _ after => Accounts roots machine after ∧ SamePages roots machine after)
      True := by
  unfold map4k
  simp only [pageOffset_eq]
  by_cases aligned : virt % 4096 ≠ 0 ∨ phys % 4096 ≠ 0
  · rw [if_pos aligned]
    exact ⟨.refl sound, fun _ _ _ => rfl⟩
  rw [if_neg aligned]
  rw [not_or, not_not, not_not] at aligned
  have page := page_lt user
  have addresses : userHalf.Addresses
      ([] ++ [pml4Idx virt] ++ [pdptIdx virt] ++ [pdIdx virt]) := by
    have whole := addresses_tablePath page
    rwa [tablePath_eq] at whole
  refine .bind (ensureChild_spec discipline fresh isRoot addresses.of_concat.of_concat
    (.start sound)) fun pdpt _ first => ?_
  refine .bind (ensureChild_spec discipline fresh isRoot addresses.of_concat first)
    fun pd _ second => ?_
  refine .bind (ensureChild_spec discipline fresh isRoot addresses second)
    fun pt current descends => ?_
  simp only [bind_apply, get_apply]
  have reached : walk current.memory pml4 (tablePath (virt / 4096)) = some pt := by
    rw [tablePath_eq]
    exact descends.reached
  have slot := pageMap_of_walk page reached
  rw [← ptIdx_eq] at slot
  by_cases present : (current.memory pt (ptIdx virt)).flags.present = true
  · rw [if_pos present]
    exact ⟨descends.accounts, descends.grows.pages⟩
  rw [if_neg present]
  by_cases inRange : phys < 2 ^ 52
  · simp only [setAddr, if_pos inRange, modify_apply, Outcome.meets_ok]
    have unmapped : pageMap machine.memory pml4 (virt / 4096) = none := by
      rw [← descends.grows.pages pml4 isRoot, slot]
      simp [PageTableEntry.mapped, present]
    rw [ptIdx_eq]
    refine ⟨aligned.1, aligned.2, unmapped, descends.accounts.trans ?_,
      SamePages.changesPage descends.grows.pages fun root otherIsRoot other =>
        pageMap_setLeaf descends.accounts.sound isRoot page reached otherIsRoot other⟩
    refine .writeLeaf descends.accounts.sound isRoot page reached fun _ wantsUser => ?_
    rw [tablePath_eq]
    exact descends.admits wantsUser
  · simp only [setAddr, if_neg inRange, abort_apply, Outcome.meets_panic]

theorem childTables_eq (memory : Memory) (pml4 : Frame) (virt : Nat) :
    childTables memory pml4 virt = walk memory pml4 (tablePath (virt / 4096)) := by
  rw [tablePath_eq]
  simp only [childTables, walk, Radix.walk, Option.bind_eq_bind, Option.bind_fun_some]

theorem unmap4k_spec (sound : Sound machine.memory roots) (isRoot : pml4 ∈ roots)
    (user : virt < 2 ^ 47) :
    (unmap4k pml4 virt machine).Meets
      (fun result after =>
        result = (pageMap machine.memory pml4 (virt / 4096)).map (·.frame * 4096) ∧
        Accounts roots machine after ∧
        ChangesPage roots pml4 (virt / 4096) none machine after)
      (fun _ _ => False) False := by
  have page := page_lt user
  -- Where nothing is mapped, nothing changes, which is the same as unmapping the page.
  have vacuous : pageMap machine.memory pml4 (virt / 4096) = none →
      ChangesPage roots pml4 (virt / 4096) none machine machine := by
    intro unmapped root _ other
    split
    · next here => rw [here.1, here.2, unmapped]
    · rfl
  unfold unmap4k
  simp only [bind_apply, get_apply]
  rw [childTables_eq]
  cases atPage : walk machine.memory pml4 (tablePath (virt / 4096)) with
  | none =>
    have unmapped : pageMap machine.memory pml4 (virt / 4096) = none := by
      simp [pageMap, atPage]
    exact ⟨by rw [unmapped]; rfl, .refl sound, vacuous unmapped⟩
  | some pt =>
    have slot := pageMap_of_walk page atPage
    rw [← ptIdx_eq] at slot
    simp only
    by_cases present : (machine.memory pt (ptIdx virt)).flags.present = true
    · rw [if_pos present, if_pos (.inl user)]
      refine ⟨?_, ?_, ?_⟩
      · rw [slot]
        simp [PageTableEntry.mapped, present]
      · rw [ptIdx_eq]
        refine .writeLeaf sound isRoot page atPage fun impossible => ?_
        cases impossible
      · rw [ptIdx_eq]
        exact fun root otherIsRoot other =>
          pageMap_setLeaf sound isRoot page atPage otherIsRoot other
    · rw [if_neg present]
      have unmapped : pageMap machine.memory pml4 (virt / 4096) = none := by
        rw [slot]
        simp [PageTableEntry.mapped, present]
      exact ⟨by rw [unmapped]; rfl, .refl sound, vacuous unmapped⟩

/-! ## The other walkers -/

theorem physForVirt_eq {memory : Memory} (user : virt < 2 ^ 47) :
    physForVirt memory pml4 virt =
      (pageMap memory pml4 (virt / 4096)).map fun page => page.frame * 4096 + virt % 4096 := by
  rw [pageMap, if_pos (page_lt user), ← childTables_eq, ← ptIdx_eq]
  unfold physForVirt childTables
  simp only [pageOffset_eq, Option.bind_eq_bind, Bool.not_eq_true']
  split
  · next absent => simp [PageTableEntry.child, absent]
  next present1 =>
  rw [PageTableEntry.child_of_present (by simpa using present1), Option.bind_some]
  split
  · next absent => simp [PageTableEntry.child, absent]
  next present2 =>
  rw [PageTableEntry.child_of_present (by simpa using present2), Option.bind_some]
  split
  · next absent => simp [PageTableEntry.child, absent]
  next present3 =>
  rw [PageTableEntry.child_of_present (by simpa using present3), Option.bind_some]
  split
  · next absent => simp [PageTableEntry.mapped, absent]
  · next present4 => simp [PageTableEntry.mapped, present4]

theorem isMapped4k_eq {memory : Memory} :
    isMapped4k memory pml4 virt = (physForVirt memory pml4 virt).isSome := by
  unfold isMapped4k physForVirt
  simp only
  split
  · rfl
  split
  · rfl
  split
  · rfl
  split
  · next absent => simpa using absent
  · next present => simpa using present

end Page

end PersonaOS.Mm
