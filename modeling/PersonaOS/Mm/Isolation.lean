import PersonaOS.Foundation.Trace
import PersonaOS.Mm.Ownership
import PersonaOS.Mm.Translation

/-! # Address spaces are isolated

All user address spaces share the tables of the kernel half, through copies of the
kernel's upper top-level entries, and each has tables of its own for its lower half.
`Separated` is the invariant that keeps the two kinds of table apart. A call at
user-half addresses writes free frames and user-half tables of its own address space
only, and the processor reads neither when it translates an address for another one or
an address of the kernel half. -/

namespace PersonaOS.Mm

open Program

/-! ## Kernel tables and user tables -/

/-- The processor may read the frame when it translates for the kernel's address space. -/
def KernelTable (memory : Memory) (kernelPml4 frame : Frame) : Prop :=
  ∃ virt index, (frame, index) ∈ slots memory virt 3 kernelPml4

theorem kernelTable_top (memory : Memory) (kernelPml4 : Frame) :
    KernelTable memory kernelPml4 kernelPml4 :=
  ⟨0, levelIdx 0 3, List.mem_cons_self⟩

structure Separated (kernelPml4 : Frame) (users : Set Frame) (memory : Memory) : Prop where
  sound : Sound memory users
  apart : ∀ frame, IsTable memory users frame → ¬ KernelTable memory kernelPml4 frame
  shared : ∀ user ∈ users, ∀ index, 256 ≤ index → index < 512 →
    memory user index = memory kernelPml4 index

/-- No frame of the allocator is a table of any address space. -/
def AllUnused (kernelPml4 : Frame) (users : Set Frame) (machine : Machine) : Prop :=
  ∀ frame ∈ machine.free,
    ¬ IsTable machine.memory users frame ∧ ¬ KernelTable machine.memory kernelPml4 frame

theorem Sound.fewerRoots {memory : Memory} {roots fewer : Set Frame} (sound : Sound memory roots)
    (subset : fewer ⊆ roots) : Sound memory fewer where
  unshared _ _ _ _ _ isRoot otherIsRoot := sound.unshared (subset isRoot) (subset otherIsRoot)
  permissive root isRoot := sound.permissive root (subset isRoot)
  admits root isRoot := sound.admits root (subset isRoot)

section Calls

variable {kernelPml4 pml4 : Frame} {users : Set Frame} {machine after : Machine}

theorem isTable_of_isRoot {memory : Memory} {roots : Set Frame} {root : Frame}
    (isRoot : root ∈ roots) : IsTable memory roots root :=
  ⟨root, isRoot, [], Radix.Region.addresses_nil (by decide), rfl⟩

theorem IsTable.mono {memory : Memory} {roots more : Set Frame} {frame : Frame}
    (isTable : IsTable memory roots frame) (subset : roots ⊆ more) :
    IsTable memory more frame := by
  rcases isTable with ⟨root, isRoot, reached⟩
  exact ⟨root, subset isRoot, reached⟩

namespace Separated

variable (separated : Separated kernelPml4 users machine.memory)

include separated

theorem slots_upper {virt : Nat} (upper : UpperHalf virt) (isUser : pml4 ∈ users) :
    ∃ below, slots machine.memory virt 3 pml4 = (pml4, levelIdx virt 3) :: below ∧
      slots machine.memory virt 3 kernelPml4 = (kernelPml4, levelIdx virt 3) :: below := by
  refine ⟨_, rfl, ?_⟩
  rw [separated.shared pml4 isUser _ upper.index.1 upper.index.2, slots]

theorem translate_upper {virt : Nat} (upper : UpperHalf virt) (isUser : pml4 ∈ users) :
    translate machine.memory pml4 virt = translate machine.memory kernelPml4 virt :=
  translate_of_same_entry (separated.shared pml4 isUser _ upper.index.1 upper.index.2)

/-! ## One call -/

variable (accounts : Accounts {pml4} machine after) (isUser : pml4 ∈ users)
  (unused : AllUnused kernelPml4 users machine)

include accounts isUser unused

theorem kernel_unchanged {frame : Frame} (isKernel : KernelTable machine.memory kernelPml4 frame)
    (index : Nat) : after.memory frame index = machine.memory frame index := by
  by_contra changed
  rcases accounts.writes frame index changed with supplied | ⟨isTable, _⟩
  · exact (unused frame supplied.1).2 isKernel
  · exact separated.apart frame (isTable.mono (Set.singleton_subset_iff.mpr isUser)) isKernel

theorem others_unchanged {root frame : Frame} (isOther : root ∈ users) (different : root ≠ pml4)
    (isTable : IsTable machine.memory {root} frame) (index : Nat) :
    after.memory frame index = machine.memory frame index := by
  by_contra changed
  rcases accounts.writes frame index changed with supplied | ⟨isOwn, _⟩
  · exact (unused frame supplied.1).1 (isTable.mono (Set.singleton_subset_iff.mpr isOther))
  · rcases isTable with ⟨_, rfl, path, addresses, reached⟩
    rcases isOwn with ⟨_, rfl, ownPath, ownAddresses, ownReached⟩
    exact different (separated.sound.unshared isOther isUser addresses ownAddresses reached
      ownReached).1

theorem upper_unchanged {root index : Nat} (isRoot : root ∈ users) (high : 256 ≤ index) :
    after.memory root index = machine.memory root index := by
  by_contra changed
  rcases accounts.writes root index changed with supplied | ⟨isOwn, low⟩
  · exact (unused root supplied.1).1 (isTable_of_isRoot isRoot)
  · rcases isOwn with ⟨_, rfl, path, addresses, reached⟩
    have isSame := (separated.sound.unshared isRoot isUser
      (Radix.Region.addresses_nil (by decide)) addresses rfl reached).1
    exact absurd (low isSame) (Nat.not_lt.mpr high)

theorem translate_unchanged {root virt : Nat} (isRoot : root = kernelPml4 ∨ root ∈ users)
    (elsewhere : root ≠ pml4 ∨ UpperHalf virt) :
    translate after.memory root virt = translate machine.memory root virt := by
  apply translate_congr
  intro slot isRead
  rcases isRoot with rfl | isRoot
  · exact separated.kernel_unchanged accounts isUser unused ⟨virt, slot.2, isRead⟩ slot.2
  · by_cases upper : UpperHalf virt
    · rcases separated.slots_upper upper isRoot with ⟨below, userSlots, kernelSlots⟩
      rw [userSlots] at isRead
      rcases List.mem_cons.mp isRead with rfl | isBelow
      · exact separated.upper_unchanged accounts isUser unused isRoot upper.index.1
      · apply separated.kernel_unchanged accounts isUser unused ⟨virt, slot.2, ?_⟩
        rw [kernelSlots]
        exact List.mem_cons_of_mem _ isBelow
    · have lower : pml4Idx virt < 256 := Nat.not_le.mp upper
      have isTable := isTable_of_slot lower rfl (Radix.Region.addresses_nil (by decide)) rfl isRead
      exact separated.others_unchanged accounts isUser unused isRoot
        (elsewhere.resolve_right upper) isTable slot.2

theorem kernelTable_iff {frame : Frame} : KernelTable after.memory kernelPml4 frame ↔
    KernelTable machine.memory kernelPml4 frame := by
  refine exists_congr fun virt => exists_congr fun index => ?_
  rw [slots_congr fun slot isRead =>
    separated.kernel_unchanged accounts isUser unused ⟨virt, slot.2, isRead⟩ slot.2]

theorem afterCall (all : Accounts users machine after) :
    Separated kernelPml4 users after.memory where
  sound := all.sound
  apart frame isTable isKernel := by
    have wasKernel := (separated.kernelTable_iff accounts isUser unused).mp isKernel
    rcases all.tables frame isTable with older | ⟨supplied, _⟩
    · exact separated.apart frame older wasKernel
    · exact (unused frame supplied.1).2 wasKernel
  shared user userIsRoot index high small := by
    rw [separated.upper_unchanged accounts isUser unused userIsRoot high,
      separated.kernel_unchanged accounts isUser unused (kernelTable_top _ _),
      separated.shared user userIsRoot index high small]

theorem unused_afterCall (all : Accounts users machine after) :
    AllUnused kernelPml4 users after := by
  intro frame isFree
  have wasUnused := unused frame (all.free isFree)
  refine ⟨?_, fun isKernel => wasUnused.2 ((separated.kernelTable_iff accounts isUser unused).mp
    isKernel)⟩
  intro isTable
  rcases all.tables frame isTable with older | ⟨_, taken⟩
  · exact wasUnused.1 older
  · exact taken isFree

end Separated

theorem separated_of_no_users (kernelPml4 : Frame) (memory : Memory) :
    Separated kernelPml4 ∅ memory where
  sound := sound_of_no_roots memory
  apart _ isTable := absurd isTable.choose_spec.1 (Set.notMem_empty _)
  shared _ isUser := absurd isUser (Set.notMem_empty _)

theorem perform_accounts {call : Call} (sound : Sound machine.memory users) (isUser : pml4 ∈ users)
    (unused : AllUnused kernelPml4 users machine) (inUserHalf : call.InUserHalf)
    (ended : (call.perform pml4 machine).final = some after) : Accounts users machine after :=
  (call.perform_accounts (discipline_freeUnused users)
    (fun frame supplied => (unused frame supplied.1).1) sound isUser inUserHalf).of_final ended

theorem perform_accounts_own {call : Call} (sound : Sound machine.memory users)
    (isUser : pml4 ∈ users) (unused : AllUnused kernelPml4 users machine)
    (inUserHalf : call.InUserHalf) (ended : (call.perform pml4 machine).final = some after) :
    Accounts {pml4} machine after := by
  have own : ({pml4} : Set Frame) ⊆ users := Set.singleton_subset_iff.mpr isUser
  apply (call.perform_accounts (discipline_freeUnused {pml4}) _ (sound.fewerRoots own) rfl
    inUserHalf).of_final ended
  intro frame supplied isTable
  exact (unused frame supplied.1).1 (isTable.mono own)

/-! ## A new address space -/

theorem newUser_eq {created : Machine}
    (isCreated : newUser kernelPml4 machine = .ok (some pml4) created) :
    machine.Supplies pml4 ∧
      (∀ frame, frame ≠ pml4 → created.memory frame = machine.memory frame) ∧
      (kernelPml4 ≠ pml4 → ∀ index, 256 ≤ index → index < 512 →
        created.memory pml4 index = machine.memory kernelPml4 index) := by
  rcases newUser_eq_ok.mp isCreated with ⟨offered, rfl⟩
  refine ⟨Machine.supplies_of_offer offered, ?_, ?_⟩
  · intro frame different
    simp [different]
  · intro notKernel index high small
    simp [notKernel, high, small]

theorem newUser_pointers {created : Machine} {target : Frame → Prop}
    (isCreated : newUser kernelPml4 machine = .ok (some pml4) created)
    (pointers : ∀ table index, ∀ frame ∈ (machine.memory table index).child, target frame) :
    ∀ table index, ∀ frame ∈ (created.memory table index).child, target frame := by
  rcases newUser_eq_ok.mp isCreated with ⟨_, rfl⟩
  have cleared : ∀ table index, ∀ frame ∈ (Function.update machine.memory pml4
      (fun _ => PageTableEntry.unused) table index).child, target frame := by
    intro table index frame
    by_cases isNew : table = pml4
    · simp [isNew]
    · rw [Function.update_of_ne isNew]
      exact pointers table index frame
  intro table index frame
  by_cases isNew : table = pml4
  · simp only [isNew, Function.update_self]
    split
    · exact cleared kernelPml4 index frame
    · simp
  · simp only [Function.update_of_ne isNew]
    exact pointers table index frame

theorem Separated.newUser {created : Machine}
    (separated : Separated kernelPml4 users machine.memory)
    (unused : AllUnused kernelPml4 users machine)
    (isCreated : Mm.newUser kernelPml4 machine = .ok (some pml4) created) :
    Separated kernelPml4 (insert pml4 users) created.memory := by
  rcases newUser_eq isCreated with ⟨supplied, same, copied⟩
  have notTable := (unused pml4 supplied.1).1
  have notKernel := (unused pml4 supplied.1).2
  have different : kernelPml4 ≠ pml4 := fun isKernel =>
    notKernel (isKernel ▸ kernelTable_top machine.memory kernelPml4)
  have empty := newUser_empty isCreated
  have overwritten : created.memory = Function.update machine.memory pml4
      (created.memory pml4) := by
    funext frame
    by_cases isNew : frame = pml4
    · rw [isNew, Function.update_self]
    · rw [Function.update_of_ne isNew, same frame isNew]
  have sameTables : ∀ frame, IsTable created.memory users frame →
      IsTable machine.memory users frame := by
    intro frame isTable
    rw [overwritten] at isTable
    exact (isTable_overwrite notTable).mp isTable
  have sameKernel : ∀ frame, KernelTable created.memory kernelPml4 frame →
      KernelTable machine.memory kernelPml4 frame := by
    rintro frame ⟨virt, index, isRead⟩
    rw [slots_congr] at isRead
    · exact ⟨virt, index, isRead⟩
    · intro slot isRead
      rw [same]
      rintro rfl
      exact notKernel ⟨virt, slot.2, isRead⟩
  refine ⟨?_, ?_, ?_⟩
  · have kept : Sound created.memory users := by
      rw [overwritten]
      exact separated.sound.overwrite notTable
    exact kept.insertEmpty empty fun isTable => notTable (sameTables _ isTable)
  · intro frame isTable isKernel
    rcases isTable_insert_of_empty empty isTable with rfl | isOld
    · exact notKernel (sameKernel _ isKernel)
    · exact separated.apart frame (sameTables _ isOld) (sameKernel _ isKernel)
  · intro user isUser index high small
    rw [same kernelPml4 different]
    rcases isUser with rfl | isUser
    · exact copied different index high small
    · have old : user ≠ pml4 := by
        rintro rfl
        exact notTable (isTable_of_isRoot isUser)
      rw [same user old, separated.shared user isUser index high small]

end Calls

/-! ## Runs -/

structure Spaces extends KernelSpace where
  users : Set Frame

namespace Spaces

def boot (kernelPml4 : Frame) (machine : Machine) : Spaces :=
  { pml4 := kernelPml4, mmioNext := mmioVaBase, machine, users := ∅ }

def setMachine (spaces : Spaces) (machine : Machine) : Spaces := { spaces with machine }

/-- The allocator returns only frames that no address space uses. -/
def AllocatesUnused (spaces : Spaces) : Prop :=
  AllUnused spaces.pml4 spaces.users spaces.machine

end Spaces

inductive SpaceEvent where
  | mapMmio (phys bytes : Nat)
  | newUser
  | call (pml4 : Frame) (call : Call)
  /-- The allocator gets a frame back. -/
  | freeFrame (frame : Frame)

/-- Device windows are mapped before the first user address space is created. -/
inductive SpaceStep : Spaces → SpaceEvent → Spaces → Prop
  | mapMmio {spaces : Spaces} {kernel : KernelSpace} {phys bytes : Nat} :
      spaces.users = ∅ →
      (Mm.mapMmio phys bytes spaces.toKernelSpace).final = some kernel →
      SpaceStep spaces (.mapMmio phys bytes) { spaces with toKernelSpace := kernel }
  | newUser {spaces : Spaces} {pml4 : Frame} {machine : Machine} :
      spaces.AllocatesUnused →
      Mm.newUser spaces.pml4 spaces.machine = .ok (some pml4) machine →
      SpaceStep spaces .newUser
        { spaces.setMachine machine with users := insert pml4 spaces.users }
  | newUserFails {spaces : Spaces} {machine : Machine} :
      Mm.newUser spaces.pml4 spaces.machine = .ok none machine →
      SpaceStep spaces .newUser (spaces.setMachine machine)
  | call {spaces : Spaces} {pml4 : Frame} {call : Call} {machine : Machine} :
      spaces.AllocatesUnused → pml4 ∈ spaces.users → call.InUserHalf →
      (call.perform pml4 spaces.machine).final = some machine →
      SpaceStep spaces (.call pml4 call) (spaces.setMachine machine)
  | freeFrame {spaces : Spaces} {frame : Frame} :
      SpaceStep spaces (.freeFrame frame) (spaces.setMachine (spaces.machine.freeFrame frame))

theorem newUser_none {kernelPml4 : Frame} {machine after : Machine}
    (failed : newUser kernelPml4 machine = .ok none after) : after.memory = machine.memory := by
  unfold newUser at failed
  simp only [bind_apply, allocFrame] at failed
  cases offered : machine.offer with
  | none =>
    simp only [offered, pure_apply, Outcome.ok.injEq, true_and] at failed
    rw [← failed]
    rfl
  | some phys => simp [offered, bind_apply] at failed

theorem Separated.step {spaces next : Spaces} {event : SpaceEvent}
    (separated : Separated spaces.pml4 spaces.users spaces.machine.memory)
    (step : SpaceStep spaces event next) :
    Separated next.pml4 next.users next.machine.memory := by
  cases step with
  | mapMmio noUsers _ =>
    simp only [noUsers]
    exact separated_of_no_users _ _
  | newUser unused isCreated => exact separated.newUser unused isCreated
  | newUserFails failed =>
    have same := newUser_none failed
    simp only [Spaces.setMachine, same]
    exact separated
  | call unused isUser inUserHalf ended =>
    have own := perform_accounts_own separated.sound isUser unused inUserHalf ended
    exact separated.afterCall own isUser unused
      (perform_accounts separated.sound isUser unused inUserHalf ended)
  | freeFrame => exact separated

theorem Separated.unused_call {spaces next : Spaces} {pml4 : Frame} {call : Call}
    (separated : Separated spaces.pml4 spaces.users spaces.machine.memory)
    (step : SpaceStep spaces (.call pml4 call) next) : next.AllocatesUnused := by
  cases step with
  | call unused isUser inUserHalf ended =>
    have own := perform_accounts_own separated.sound isUser unused inUserHalf ended
    exact separated.unused_afterCall own isUser unused
      (perform_accounts separated.sound isUser unused inUserHalf ended)

theorem separated_of_run {kernelPml4 : Frame} {machine : Machine} {events : List SpaceEvent}
    {spaces : Spaces} (run : Trace SpaceStep (Spaces.boot kernelPml4 machine) events spaces) :
    Separated spaces.pml4 spaces.users spaces.machine.memory :=
  run.invariant (fun spaces => Separated spaces.pml4 spaces.users spaces.machine.memory)
    (fun separated step => separated.step step) (separated_of_no_users _ _)

/-! ## An address space over a direct map -/

theorem pointer_of_kernelTable {memory : Memory} {kernelPml4 frame : Frame}
    (isKernel : KernelTable memory kernelPml4 frame) :
    frame = kernelPml4 ∨ ∃ table index, (memory table index).child = some frame := by
  rcases isKernel with ⟨virt, index, isRead⟩
  suffices pointed : ∀ level table, (frame, index) ∈ slots memory virt level table →
      frame = table ∨ ∃ table index, (memory table index).child = some frame from
    pointed 3 kernelPml4 isRead
  intro level
  induction level with
  | zero => exact fun table isRead => .inl (congrArg Prod.fst (List.mem_singleton.mp isRead))
  | succ level induction =>
    intro table isRead
    rcases List.mem_cons.mp isRead with isHere | isBelow
    · exact .inl (congrArg Prod.fst isHere)
    · cases goesOn : (memory table (levelIdx virt (level + 1))).next with
      | none =>
        rw [goesOn] at isBelow
        exact absurd isBelow List.not_mem_nil
      | some next =>
        rw [goesOn] at isBelow
        rcases induction next isBelow with rfl | pointed
        · exact .inr ⟨_, _, PageTableEntry.child_of_next goesOn⟩
        · exact .inr pointed

theorem allUnused_of_no_pointer {kernelPml4 : Frame} {users : Set Frame} {machine : Machine}
    (notRoot : ∀ frame ∈ machine.free, frame ≠ kernelPml4 ∧ frame ∉ users)
    (noPointer : ∀ table index, ∀ frame ∈ (machine.memory table index).child,
      frame ∉ machine.free) :
    AllUnused kernelPml4 users machine := by
  intro frame isFree
  constructor
  · rintro ⟨root, isRoot, path, _, reached⟩
    induction path using List.reverseRecOn with
    | nil =>
      obtain rfl : root = frame := Option.some.inj reached
      exact (notRoot root isFree).2 isRoot
    | append_singleton path index _ =>
      rw [Radix.walk_concat] at reached
      rcases Option.bind_eq_some_iff.mp reached with ⟨table, _, isChild⟩
      exact noPointer table index frame isChild isFree
  · intro isKernel
    rcases pointer_of_kernelTable isKernel with isTop | ⟨table, index, isChild⟩
    · exact (notRoot frame isFree).1 isTop
    · exact noPointer table index frame isChild isFree

/-- The kernel has a direct map of the first GiB: one huge page below table 7. -/
def directMapMachine : Machine where
  memory frame index :=
    if frame = 0 ∧ index = 256 then ⟨7, MapFlags.device.intermediate⟩
    else if frame = 7 ∧ index = 0 then ⟨0, { MapFlags.device.leaf with hugePage := true }⟩
    else .unused
  free := {1, 2, 3, 4, 5}
  supply call _ := some (call + 1)
  calls := 0

theorem directMap_pointers (table index : Nat) :
    ∀ frame ∈ (directMapMachine.memory table index).child, frame ∈ ({0, 7} : Finset Frame) := by
  intro frame
  unfold directMapMachine
  simp only
  split
  · simp +contextual [PageTableEntry.child, MapFlags.intermediate, eq_comm]
  · split
    · simp +contextual [PageTableEntry.child, MapFlags.leaf, eq_comm]
    · simp

theorem directMap_unused {users : Set Frame} {machine : Machine}
    (pointers : ∀ table index, ∀ frame ∈ (machine.memory table index).child,
      frame ∈ ({0, 7} : Finset Frame))
    (apart : ∀ frame ∈ machine.free, frame ∉ ({0, 7} : Finset Frame))
    (notUser : ∀ frame ∈ machine.free, frame ∉ users) : AllUnused 0 users machine := by
  apply allUnused_of_no_pointer
  · intro frame isFree
    refine ⟨?_, notUser frame isFree⟩
    rintro rfl
    exact absurd (Finset.mem_insert_self 0 {7}) (apart 0 isFree)
  · intro table index frame isChild isFree
    exact apart frame isFree (pointers table index frame isChild)

def oneSpaceMachine : Machine := (newUser 0 directMapMachine).final.getD directMapMachine

def oneSpace : Spaces :=
  { (Spaces.boot 0 directMapMachine).setMachine oneSpaceMachine with users := insert 1 ∅ }

theorem oneSpaceMachine_eq : newUser 0 directMapMachine = .ok (some 1) oneSpaceMachine := rfl

theorem oneSpace_created : SpaceStep (Spaces.boot 0 directMapMachine) .newUser oneSpace :=
  .newUser (directMap_unused directMap_pointers (by decide) fun _ _ => Set.notMem_empty _)
    oneSpaceMachine_eq

theorem oneSpace_unused : oneSpace.AllocatesUnused := by
  apply directMap_unused (newUser_pointers oneSpaceMachine_eq directMap_pointers) (by decide)
  have apart : ∀ frame ∈ oneSpaceMachine.free, frame ≠ 1 := by decide
  intro frame isFree isUser
  exact apart frame isFree (isUser.resolve_right (Set.notMem_empty frame))

/-! ## What holds along every run -/

/-- After any run the tables of every user address space implement a partial map, and the
next `map4k` or `unmap4k` updates that map at its page alone. -/
theorem pageTables_implement_map (kernelPml4 pml4 : Frame) (machine : Machine)
    (events : List SpaceEvent) (spaces : Spaces)
    (run : Trace SpaceStep (Spaces.boot kernelPml4 machine) events spaces)
    (isUser : pml4 ∈ spaces.users) :
    ∃ map, ImplementsMap spaces.machine pml4 map ∧
      (spaces.AllocatesUnused → ∀ virt < 2 ^ 47, ∀ phys flags,
        (map4k pml4 virt phys flags spaces.machine).Meets
          (fun _ after => virt % 4096 = 0 ∧ phys % 4096 = 0 ∧ map (virt / 4096) = none ∧
            ImplementsMap after pml4
              (Function.update map (virt / 4096) (some ⟨phys / 4096, flags.leaf⟩)))
          (fun _ after => ImplementsMap after pml4 map) True) ∧
      (∀ virt < 2 ^ 47, (unmap4k pml4 virt spaces.machine).Meets
        (fun result after => result = (map (virt / 4096)).map (·.frame * 4096) ∧
          ImplementsMap after pml4 (Function.update map (virt / 4096) none))
        (fun _ _ => False) False) := by
  have sound := (separated_of_run run).sound
  refine ⟨pageMap spaces.machine.memory pml4, sound.implementsMap isUser, ?_, ?_⟩
  · intro unused virt user phys flags
    refine (map4k_spec (discipline_freeUnused spaces.users)
      (fun frame supplied => (unused frame supplied.1).1) sound isUser user phys flags).mono
        ?_ ?_ id
    · rintro _ after ⟨virtAligned, physAligned, unmapped, later, changes⟩
      refine ⟨virtAligned, physAligned, unmapped, ?_⟩
      rw [← changes.pageMap_eq isUser]
      exact later.sound.implementsMap isUser
    · rintro _ after ⟨later, same⟩
      have sameMap : pageMap after.memory pml4 = pageMap spaces.machine.memory pml4 :=
        funext (same pml4 isUser)
      rw [← sameMap]
      exact later.sound.implementsMap isUser
  · intro virt user
    refine (unmap4k_spec sound isUser user).mono ?_ (fun _ _ => id) id
    rintro result after ⟨returned, later, changes⟩
    refine ⟨returned, ?_⟩
    rw [← changes.pageMap_eq isUser]
    exact later.sound.implementsMap isUser

/-- A page is mapped and unmapped again, and in between the map has it. -/
theorem pageTables_implement_map_again : ∃ mapped unmapped,
    Trace SpaceStep (Spaces.boot 0 directMapMachine)
      [.newUser, .call 1 (.map4k 0x400000 0x9000 .userData)] mapped ∧
    SpaceStep mapped (.call 1 (.unmap4k 0x400000)) unmapped ∧
    (∃ map, ImplementsMap mapped.machine 1 map ∧
      map 0x400 = some ⟨9, MapFlags.userData.leaf⟩) ∧
    ∃ map, ImplementsMap unmapped.machine 1 map ∧ map 0x400 = none := by
  let mapped := (Call.perform 1 (.map4k 0x400000 0x9000 .userData) oneSpaceMachine).final.getD
    oneSpaceMachine
  let unmapped := (Call.perform 1 (.unmap4k 0x400000) mapped).final.getD mapped
  have maps : SpaceStep oneSpace (.call 1 (.map4k 0x400000 0x9000 .userData))
      (oneSpace.setMachine mapped) :=
    .call oneSpace_unused (.inl rfl) (show 0x400000 < 2 ^ 47 by decide)
      (Outcome.final_eq_getD (by decide +kernel) _)
  have run : Trace SpaceStep (Spaces.boot 0 directMapMachine)
      [.newUser, .call 1 (.map4k 0x400000 0x9000 .userData)] (oneSpace.setMachine mapped) :=
    .cons oneSpace_created (.single maps)
  have unmaps : SpaceStep (oneSpace.setMachine mapped) (.call 1 (.unmap4k 0x400000))
      (oneSpace.setMachine unmapped) :=
    .call ((separated_of_run (.single oneSpace_created)).unused_call maps) (.inl rfl)
      (show 0x400000 < 2 ^ 47 by decide) (Outcome.final_eq_getD (by decide +kernel) _)
  rcases pageTables_implement_map 0 1 directMapMachine _ _ run (.inl rfl) with ⟨map, here, _⟩
  rcases pageTables_implement_map 0 1 directMapMachine _ _ (run.append (.single unmaps))
    (.inl rfl) with ⟨later, there, _⟩
  refine ⟨_, _, run, unmaps, ⟨map, here, ?_⟩, later, there, ?_⟩
  · rw [show 0x400 = 0x400000 / 4096 by decide, here.slot 0x400000 (by decide)]
    decide +kernel
  · rw [show 0x400 = 0x400000 / 4096 by decide, there.slot 0x400000 (by decide)]
    decide +kernel

/-- In every run, a call on one user address space leaves the translations of all others
and all translations of the kernel half as they are, and the kernel half of every user
address space is that of the kernel. -/
theorem address_spaces_isolated (kernelPml4 : Frame) (machine : Machine)
    (events : List SpaceEvent) (spaces : Spaces)
    (run : Trace SpaceStep (Spaces.boot kernelPml4 machine) events spaces) :
    (∀ pml4 call next, SpaceStep spaces (.call pml4 call) next →
      ∀ root, root = spaces.pml4 ∨ root ∈ spaces.users →
        ∀ virt, root ≠ pml4 ∨ UpperHalf virt →
          translate next.machine.memory root virt = translate spaces.machine.memory root virt) ∧
    ∀ pml4 ∈ spaces.users, ∀ virt, UpperHalf virt →
      translate spaces.machine.memory pml4 virt =
        translate spaces.machine.memory spaces.pml4 virt := by
  have separated := separated_of_run run
  refine ⟨?_, fun pml4 isUser virt upper => separated.translate_upper upper isUser⟩
  intro pml4 call next step root isRoot virt elsewhere
  cases step with
  | call unused isUser inUserHalf ended =>
    have own := perform_accounts_own separated.sound isUser unused inUserHalf ended
    exact separated.translate_unchanged own isUser unused isRoot elsewhere

/-- One address space maps a page; the other keeps its direct map and has no such page. -/
theorem address_spaces_isolated_directMap : ∃ before spaces,
    Trace SpaceStep (Spaces.boot 0 directMapMachine) [.newUser, .newUser] before ∧
      SpaceStep before (.call 1 (.map4k 0x400000 0x9000 .userData)) spaces ∧
      (translate spaces.machine.memory 1 0x400000).map (·.phys) = some 0x9000 ∧
      translate spaces.machine.memory 2 0x400000 = none ∧
      (translate spaces.machine.memory 2 0xFFFF800000001234).map (·.phys) = some 0x1234 := by
  let second := (newUser 0 oneSpaceMachine).final.getD oneSpaceMachine
  let two := { oneSpace.setMachine second with users := insert 2 oneSpace.users }
  have isSecond : newUser 0 oneSpaceMachine = .ok (some 2) second := rfl
  have maps : (Call.perform 1 (.map4k 0x400000 0x9000 .userData) second).final.map
      (fun machine => (translate machine.memory 1 0x400000).map (·.phys)) = some (some 0x9000) := by
    decide +kernel
  rcases Option.map_eq_some_iff.mp maps with ⟨mapped, isMapped, atPage⟩
  have pointers := newUser_pointers oneSpaceMachine_eq directMap_pointers
  have unusedAfterTwo : two.AllocatesUnused := by
    apply directMap_unused (newUser_pointers isSecond pointers) (by decide)
    have apart : ∀ frame ∈ second.free, frame ≠ 2 ∧ frame ≠ 1 := by decide
    intro frame isFree isUser
    rcases isUser with isTwo | isOne
    · exact (apart frame isFree).1 isTwo
    · exact (apart frame isFree).2 (isOne.resolve_right (Set.notMem_empty frame))
  have createsTwo : SpaceStep oneSpace .newUser two := .newUser oneSpace_unused isSecond
  have calls : SpaceStep two (.call 1 (.map4k 0x400000 0x9000 .userData))
      (two.setMachine mapped) :=
    .call unusedAfterTwo (.inr (.inl rfl)) (show 0x400000 < 2 ^ 47 by decide) isMapped
  have run : Trace SpaceStep (Spaces.boot 0 directMapMachine) [.newUser, .newUser] two :=
    .cons oneSpace_created (.cons createsTwo (.nil _))
  rcases address_spaces_isolated 0 directMapMachine _ two run with ⟨kept, shared⟩
  refine ⟨two, two.setMachine mapped, run, calls, atPage, ?_, ?_⟩
  · rw [kept 1 _ _ calls 2 (.inr (.inl rfl)) 0x400000 (.inl (by decide))]
    decide +kernel
  · rw [kept 1 _ _ calls 2 (.inr (.inl rfl)) _ (.inl (by decide)),
      shared 2 (.inl rfl) _ (show 256 ≤ pml4Idx 0xFFFF800000001234 by decide)]
    decide +kernel

end PersonaOS.Mm
