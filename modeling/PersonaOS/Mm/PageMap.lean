import PersonaOS.Mm.Mapping

/-! # The page tables implement a partial map

Seen from one address space, the four-level tables are a partial map from page numbers to a
frame and leaf flags. The translation, the mapped test and the rights the hardware computes over
all four levels are read off that map, and mapping and unmapping are updates of it at one page. -/

namespace PersonaOS.Mm

open Program

/-! ## Effective rights -/

structure Rights where
  user : Bool
  writable : Bool
  noExecute : Bool
  deriving DecidableEq, Repr

def PageTableFlags.rights (flags : PageTableFlags) : Rights :=
  ⟨flags.userAccessible, flags.writable, flags.noExecute⟩

/-- Rights at two levels: both must admit the user and writing, either forbids
execution. -/
def Rights.meet (upper lower : Rights) : Rights where
  user := upper.user && lower.user
  writable := upper.writable && lower.writable
  noExecute := upper.noExecute || lower.noExecute

/-- What the processor grants at `virt`, from the entries of the four levels. -/
def effectiveRights (memory : Memory) (pml4 : Frame) (virt : Nat) : Option Rights := do
  let e1 := memory pml4 (pml4Idx virt)
  let e2 := memory (← e1.child) (pdptIdx virt)
  let e3 := memory (← e2.child) (pdIdx virt)
  let e4 := memory (← e3.child) (ptIdx virt)
  let _ ← e4.child
  return ((e1.flags.rights.meet e2.flags.rights).meet e3.flags.rights).meet e4.flags.rights

theorem Rights.meet_permissive {e1 e2 e3 leaf : Rights}
    (writable : e1.writable = true ∧ e2.writable = true ∧ e3.writable = true)
    (executable : e1.noExecute = false ∧ e2.noExecute = false ∧ e3.noExecute = false)
    (admits : leaf.user = true → e1.user = true ∧ e2.user = true ∧ e3.user = true) :
    ((e1.meet e2).meet e3).meet leaf = leaf := by
  obtain ⟨user, write, nx⟩ := leaf
  cases user with
  | false => simp [meet, writable, executable]
  | true => simp [meet, writable, executable, admits rfl]

theorem effectiveRights_of_tables {memory : Memory} {roots : Set Frame} {pml4 pdpt pd pt : Frame}
    {virt : Nat} (sound : Sound memory roots) (isRoot : pml4 ∈ roots) (user : virt < 2 ^ 47)
    (first : (memory pml4 (pml4Idx virt)).child = some pdpt)
    (second : (memory pdpt (pdptIdx virt)).child = some pd)
    (third : (memory pd (pdIdx virt)).child = some pt) :
    effectiveRights memory pml4 virt =
      (memory pt (ptIdx virt)).mapped.map (·.flags.rights) := by
  have atPdpt : walk memory pml4 [pml4Idx virt] = some pdpt := by
    simp [walk, Radix.walk, first]
  have atPd : walk memory pml4 [pml4Idx virt, pdptIdx virt] = some pd := by
    simp [walk, Radix.walk, first, second]
  have atPt : walk memory pml4 (tablePath (virt / 4096)) = some pt := by
    simp [tablePath_eq, walk, Radix.walk, first, second, third]
  have slot := pageMap_of_walk (page_lt user) atPt
  have addresses := addresses_tablePath (page_lt user)
  have admits := sound.admits pml4 isRoot (virt / 4096)
  rw [← ptIdx_eq] at slot
  rw [tablePath_eq] at addresses
  simp only [tablePath_eq] at admits
  have level1 := sound.permissive pml4 isRoot [] (pml4Idx virt) pml4
    addresses.of_concat.of_concat rfl (PageTableEntry.child_eq_some.mp first).1
  have level2 := sound.permissive pml4 isRoot [pml4Idx virt] (pdptIdx virt) pdpt
    addresses.of_concat atPdpt (PageTableEntry.child_eq_some.mp second).1
  have level3 := sound.permissive pml4 isRoot [pml4Idx virt, pdptIdx virt] (pdIdx virt) pd
    addresses atPd (PageTableEntry.child_eq_some.mp third).1
  cases leaf : (memory pt (ptIdx virt)).flags.present with
  | false =>
    simp [effectiveRights, first, second, third, PageTableEntry.child_of_absent leaf,
      PageTableEntry.mapped, leaf]
  | true =>
    rw [PageTableEntry.mapped, if_pos leaf] at slot ⊢
    simp only [effectiveRights, first, second, third, Option.bind_eq_bind,
      Option.bind_some, PageTableEntry.child_of_present leaf, Option.pure_def,
      Option.map_some, Option.some.injEq]
    refine Rights.meet_permissive ⟨level1.1, level2.1, level3.1⟩
      ⟨level1.2, level2.2, level3.2⟩ fun wantsUser => ⟨?_, ?_, ?_⟩
    · exact admits _ slot wantsUser [] _ _ (List.prefix_append _ _) rfl
    · exact admits _ slot wantsUser [pml4Idx virt] _ _ (List.prefix_append _ [_]) atPdpt
    · exact admits _ slot wantsUser [pml4Idx virt, pdptIdx virt] _ _ (List.prefix_refl _) atPd

theorem effectiveRights_eq {memory : Memory} {roots : Set Frame} {pml4 : Frame} {virt : Nat}
    (sound : Sound memory roots) (isRoot : pml4 ∈ roots) (user : virt < 2 ^ 47) :
    effectiveRights memory pml4 virt =
      (pageMap memory pml4 (virt / 4096)).map (·.flags.rights) := by
  rw [pageMap, if_pos (page_lt user), ← childTables_eq, ← ptIdx_eq]
  cases first : (memory pml4 (pml4Idx virt)).child with
  | none => simp [effectiveRights, childTables, first]
  | some pdpt =>
    cases second : (memory pdpt (pdptIdx virt)).child with
    | none => simp [effectiveRights, childTables, first, second]
    | some pd =>
      cases third : (memory pd (pdIdx virt)).child with
      | none => simp [effectiveRights, childTables, first, second, third]
      | some pt =>
        rw [effectiveRights_of_tables sound isRoot user first second third]
        simp [childTables, first, second, third]

/-! ## The abstract map -/

/-- The machine's tables below `pml4` implement the partial map `map`: it has finitely
many pages, it is what the leaf slots hold, and translation, mapped test and effective
rights are read off it. -/
structure ImplementsMap (machine : Machine) (pml4 : Frame)
    (map : Nat → Option PageTableEntry) : Prop where
  bounded : ∀ page, 2 ^ 35 ≤ page → map page = none
  slot : ∀ virt < 2 ^ 47, map (virt / 4096) =
    (childTables machine.memory pml4 virt).bind fun pt =>
      (machine.memory pt (ptIdx virt)).mapped
  translates : ∀ virt < 2 ^ 47, physForVirt machine.memory pml4 virt =
    (map (virt / 4096)).map fun page => page.frame * 4096 + virt % 4096
  mapped : ∀ virt < 2 ^ 47, isMapped4k machine.memory pml4 virt = true ↔
    (physForVirt machine.memory pml4 virt).isSome = true
  rights : ∀ virt < 2 ^ 47, effectiveRights machine.memory pml4 virt =
    (map (virt / 4096)).map (·.flags.rights)

theorem Sound.implementsMap {machine : Machine} {roots : Set Frame} {pml4 : Frame}
    (sound : Sound machine.memory roots) (isRoot : pml4 ∈ roots) :
    ImplementsMap machine pml4 (pageMap machine.memory pml4) where
  bounded page high := if_neg (Nat.not_lt.mpr high)
  slot virt user := by rw [pageMap, if_pos (page_lt user), childTables_eq, ptIdx_eq]
  translates _ user := physForVirt_eq user
  mapped _ _ := by rw [isMapped4k_eq]
  rights _ user := effectiveRights_eq sound isRoot user

theorem ChangesPage.pageMap_eq {roots : Set Frame} {pml4 : Frame} {page : Nat}
    {value : Option PageTableEntry} {before after : Machine}
    (changes : ChangesPage roots pml4 page value before after) (isRoot : pml4 ∈ roots) :
    pageMap after.memory pml4 = Function.update (pageMap before.memory pml4) page value := by
  funext other
  rw [changes pml4 isRoot other, Function.update_apply]
  simp

/-! ## The operations keep the tables sound -/

section Loops

variable {roots : Set Frame} {Fresh : Machine → Prop} {machine : Machine} {pml4 virt : Nat}

theorem Accounts.andThen {α : Type} {outcome : Outcome Machine MapError α} {panics : Prop}
    {first second : Machine} (accounts : Accounts roots first second)
    (meets : outcome.Meets (fun _ => Accounts roots second) (fun _ => Accounts roots second)
      panics) :
    outcome.Meets (fun _ => Accounts roots first) (fun _ => Accounts roots first) panics :=
  meets.mono (fun _ _ => accounts.trans) (fun _ _ => accounts.trans) id

theorem map4k_accounts (discipline : Discipline roots Fresh) (fresh : Fresh machine)
    (sound : Sound machine.memory roots) (isRoot : pml4 ∈ roots) (user : virt < 2 ^ 47)
    (phys : Nat) (flags : MapFlags) :
    (map4k pml4 virt phys flags machine).Meets (fun _ => Accounts roots machine)
      (fun _ => Accounts roots machine) True :=
  (map4k_spec discipline fresh sound isRoot user phys flags).mono
    (fun _ _ ok => ok.2.2.2.1) (fun _ _ error => error.1) id

theorem mapAnonLoop_accounts (discipline : Discipline roots Fresh) (fresh : Fresh machine)
    (sound : Sound machine.memory roots) (isRoot : pml4 ∈ roots) (flags : MapFlags)
    (done pages : Nat) (user : ∀ i < done + pages, virt + i * 4096 < 2 ^ 47) :
    (mapAnonLoop pml4 virt flags done pages machine).Meets (fun _ => Accounts roots machine)
      (fun _ => Accounts roots machine) True := by
  induction pages generalizing machine done with
  | zero => exact .refl sound
  | succ pages induction =>
    unfold mapAnonLoop
    simp only [bind_apply, allocFrame]
    cases offered : machine.offer with
    | none => exact .afterAlloc sound none
    | some frame =>
      have taken : Accounts roots machine
          ((machine.afterAlloc (some frame)).zeroFrame frame) :=
        .takeZeroed sound offered (discipline.offer fresh offered)
      simp only [okOr_some, pure_apply, modify_apply]
      split
      · have mapped := map4k_accounts discipline (discipline.kept fresh taken)
          taken.sound isRoot (user done (by omega)) (frame * 4096) flags
        refine .bind (taken.andThen mapped) fun _ current accounts => ?_
        exact accounts.andThen (induction (discipline.kept fresh accounts) accounts.sound
          (done + 1) fun i inside => user i (by omega))
      · exact trivial

theorem mapBack_accounts (discipline : Discipline roots Fresh) (fresh : Fresh machine)
    (sound : Sound machine.memory roots) (isRoot : pml4 ∈ roots) (done : Nat)
    (frames : List Nat) (user : ∀ i < done + frames.length, virt + i * 4096 < 2 ^ 47) :
    (mapBack pml4 virt done frames machine).Meets (fun _ => Accounts roots machine)
      (fun _ => Accounts roots machine) True := by
  induction frames generalizing machine done with
  | nil => exact .refl sound
  | cons phys rest induction =>
    simp only [List.length_cons] at user
    unfold mapBack
    refine .bind (map4k_accounts discipline fresh sound isRoot (user done (by omega)) phys
      .userData).attempt fun result current accounts => ?_
    have accounts : Accounts roots machine current := by cases result <;> exact accounts
    exact accounts.andThen (induction (discipline.kept fresh accounts) accounts.sound
      (done + 1) fun i inside => user i (by omega))

theorem stealLoop_accounts (discipline : Discipline roots Fresh) (fresh : Fresh machine)
    (sound : Sound machine.memory roots) (isRoot : pml4 ∈ roots) (stolen : List Nat)
    (pages : Nat) (user : ∀ i < stolen.length + pages, virt + i * 4096 < 2 ^ 47) :
    (stealLoop pml4 virt stolen pages machine).Meets (fun _ => Accounts roots machine)
      (fun _ => Accounts roots machine) True := by
  induction pages generalizing machine stolen with
  | zero => exact .refl sound
  | succ pages induction =>
    unfold stealLoop
    split
    · have unmapped := unmap4k_spec sound isRoot (user stolen.length (by omega))
      refine .bind (unmapped.mono (fun _ _ ok => ok.2.1) (fun _ _ => False.elim)
        False.elim) fun result current accounts => ?_
      have freshNow := discipline.kept fresh accounts
      cases result with
      | none =>
        have back := mapBack_accounts discipline freshNow accounts.sound isRoot 0 stolen
          (fun i inside => user i (by omega))
        exact .bind (accounts.andThen back) fun _ _ restored => restored
      | some phys =>
        refine accounts.andThen (induction freshNow accounts.sound (stolen ++ [phys])
          fun i inside => user i ?_)
        rw [List.length_append, List.length_singleton] at inside
        omega
    · exact trivial

theorem installLoop_accounts (discipline : Discipline roots Fresh) (fresh : Fresh machine)
    (sound : Sound machine.memory roots) (isRoot : pml4 ∈ roots) (done : Nat)
    (frames : List Nat) (user : ∀ i < done + frames.length, virt + i * 4096 < 2 ^ 47) :
    (installLoop pml4 virt done frames machine).Meets (fun _ => Accounts roots machine)
      (fun _ => Accounts roots machine) True := by
  induction frames generalizing machine done with
  | nil => exact .refl sound
  | cons phys rest induction =>
    simp only [List.length_cons] at user
    unfold installLoop
    split
    · refine .bind (map4k_accounts discipline fresh sound isRoot (user done (by omega)) phys
        .userData) fun _ current accounts => ?_
      exact accounts.andThen (induction (discipline.kept fresh accounts) accounts.sound
        (done + 1) fun i inside => user i (by omega))
    · exact trivial

end Loops

/-! ## A new address space -/

section NewUser

variable {memory : Memory} {root : Frame}
  (empty : ∀ index < 256, memory root index = .unused)

include empty in
theorem walk_of_empty {path : List Nat} (spans : userHalf.Spans path) (nonempty : path ≠ []) :
    walk memory root path = none := by
  cases path with
  | nil => exact absurd rfl nonempty
  | cons index rest =>
    have low : index < 256 := spans.2 index rfl
    simp [walk, Radix.walk, empty index low]

include empty in
theorem pageMap_of_empty (page : Nat) : pageMap memory root page = none := by
  unfold pageMap
  split
  · next user => rw [walk_of_empty empty (addresses_tablePath user).1 (by simp [tablePath])]; rfl
  · rfl

include empty in
theorem walk_eq_root_of_empty {path : List Nat} {frame : Frame}
    (addresses : userHalf.Addresses path) (reached : walk memory root path = some frame) :
    path = [] ∧ frame = root := by
  by_cases atRoot : path = []
  · subst atRoot
    exact ⟨rfl, (Option.some.inj reached).symm⟩
  · have missing := walk_of_empty empty addresses.1 atRoot
    cases missing.symm.trans reached

include empty in
theorem isTable_insert_of_empty {roots : Set Frame} {frame : Frame}
    (isTable : IsTable memory (insert root roots) frame) :
    frame = root ∨ IsTable memory roots frame := by
  rcases isTable with ⟨other, isRoot, path, addresses, reached⟩
  rcases isRoot with rfl | isRoot
  · exact .inl (walk_eq_root_of_empty empty addresses reached).2
  · exact .inr ⟨other, isRoot, path, addresses, reached⟩

include empty in
theorem Sound.insertEmpty {roots : Set Frame} (sound : Sound memory roots)
    (unused : ¬ IsTable memory roots root) : Sound memory (insert root roots) where
  unshared := by
    intro first path second otherPath frame isFirst isSecond addresses otherAddresses reached
      placed
    rcases isFirst with rfl | isFirst
    · rcases walk_eq_root_of_empty empty addresses reached with ⟨rfl, rfl⟩
      rcases isSecond with rfl | isSecond
      · exact ⟨rfl, (walk_eq_root_of_empty empty otherAddresses placed).1.symm⟩
      · exact absurd ⟨second, isSecond, otherPath, otherAddresses, placed⟩ unused
    · rcases isSecond with rfl | isSecond
      · rcases walk_eq_root_of_empty empty otherAddresses placed with ⟨rfl, rfl⟩
        exact absurd ⟨first, isFirst, path, addresses, reached⟩ unused
      · exact sound.unshared isFirst isSecond addresses otherAddresses reached placed
  permissive := by
    intro other isRoot path index table addresses reached present
    rcases isRoot with rfl | isRoot
    · have missing := walk_of_empty empty addresses.1 (by simp)
      rw [walk_concat, reached, Option.bind_some,
        PageTableEntry.child_of_present present] at missing
      cases missing
    · exact sound.permissive other isRoot path index table addresses reached present
  admits := by
    intro other isRoot page entry atPage
    rcases isRoot with rfl | isRoot
    · rw [pageMap_of_empty empty] at atPage
      cases atPage
    · exact sound.admits other isRoot page entry atPage

theorem sound_of_no_roots (memory : Memory) : Sound memory ∅ where
  unshared _ _ _ _ _ isRoot := absurd isRoot (Set.notMem_empty _)
  permissive _ isRoot := absurd isRoot (Set.notMem_empty _)
  admits _ isRoot := absurd isRoot (Set.notMem_empty _)

end NewUser

theorem newUser_eq_ok {kernelPml4 pml4 : Frame} {machine created : Machine} :
    newUser kernelPml4 machine = .ok (some pml4) created ↔
      machine.offer = some pml4 ∧
      { machine.afterAlloc (some pml4) with
        memory := Function.update (Function.update machine.memory pml4 fun _ => .unused) pml4
          fun index => if 256 ≤ index ∧ index < 512 then
            Function.update machine.memory pml4 (fun _ => .unused) kernelPml4 index
          else .unused } = created := by
  unfold newUser
  simp only [bind_apply, allocFrame]
  cases offered : machine.offer with
  | none => exact iff_of_false (by intro same; cases same) (by intro both; cases both.1)
  | some phys =>
    simp only [modify_bind_apply, pure_apply, Outcome.ok.injEq, Option.some.injEq]
    refine and_congr_right fun isPhys => ?_
    subst isPhys
    simp [Machine.zeroFrame, Machine.afterAlloc]

theorem newUser_empty {kernelPml4 pml4 : Frame} {machine created : Machine}
    (isCreated : newUser kernelPml4 machine = .ok (some pml4) created) :
    ∀ index < 256, created.memory pml4 index = .unused := by
  intro index low
  rw [← (newUser_eq_ok.mp isCreated).2]
  simp [low]

/-! ## Calls -/

inductive Call where
  | map4k (virt phys : Nat) (flags : MapFlags)
  | mapAnon (virt pages : Nat) (flags : MapFlags)
  | unmap4k (virt : Nat)
  | stealPages (virt pages : Nat)
  | installPages (virt : Nat) (frames : List Nat)

namespace Call

def perform (pml4 : Frame) : Call → Program Machine MapError PUnit
  | .map4k virt phys flags => Mm.map4k pml4 virt phys flags
  | .mapAnon virt pages flags => Mm.mapAnon pml4 virt pages flags
  | .unmap4k virt => do
      let _ ← Mm.unmap4k pml4 virt
      return ⟨⟩
  | .stealPages virt pages => do
      let _ ← Mm.stealPages pml4 virt pages
      return ⟨⟩
  | .installPages virt frames => Mm.installPages pml4 virt frames

def InUserHalf : Call → Prop
  | .map4k virt _ _ | .unmap4k virt => virt < 2 ^ 47
  | .mapAnon virt pages _ | .stealPages virt pages => ∀ i < pages, virt + i * 4096 < 2 ^ 47
  | .installPages virt frames => ∀ i < frames.length, virt + i * 4096 < 2 ^ 47

end Call

theorem Call.perform_accounts {roots : Set Frame} {Fresh : Machine → Prop} {machine : Machine}
    {pml4 : Frame} (discipline : Discipline roots Fresh) (fresh : Fresh machine)
    (sound : Sound machine.memory roots) (isRoot : pml4 ∈ roots) (call : Call)
    (inUserHalf : call.InUserHalf) :
    (call.perform pml4 machine).Meets (fun _ => Accounts roots machine)
      (fun _ => Accounts roots machine) True := by
  cases call with
  | map4k virt phys flags =>
    exact map4k_accounts discipline fresh sound isRoot inUserHalf phys flags
  | mapAnon virt pages flags =>
    exact mapAnonLoop_accounts discipline fresh sound isRoot flags 0 pages
      fun i inside => inUserHalf i (by omega)
  | unmap4k virt =>
    refine .bind ((unmap4k_spec sound isRoot inUserHalf).mono (fun _ _ ok => ok.2.1)
      (fun _ _ => False.elim) False.elim) fun _ _ accounts => accounts
  | stealPages virt pages =>
    have stolen : (Mm.stealPages pml4 virt pages machine).Meets
        (fun _ => Accounts roots machine) (fun _ => Accounts roots machine) True := by
      unfold Mm.stealPages
      split
      · exact Accounts.refl sound
      · exact stealLoop_accounts discipline fresh sound isRoot [] pages
          fun i inside => inUserHalf i (by simpa using inside)
    exact .bind stolen fun _ _ accounts => accounts
  | installPages virt frames =>
    exact installLoop_accounts discipline fresh sound isRoot 0 frames
      fun i inside => inUserHalf i (by omega)

end PersonaOS.Mm
