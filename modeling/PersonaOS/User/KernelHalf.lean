import PersonaOS.Ipc.Footprint
import PersonaOS.User.Spawn

/-! # User programs and the kernel half

A user program reaches page tables by sending pages, by receiving them and by spawning a program
from a file. As long as the page ranges it sends and the segments of the files it spawns lie in
the user half, no kernel-half translation of any address space ever changes: the kernel's tables
are in nobody's hands, and all that is written belongs to somebody.

Neither `sys_send` nor the program loader checks these addresses. -/

namespace PersonaOS.User

open Program Mm Sched Ipc

/-! ## Loading a program -/

def UserSegment (header : ProgramHeader) : Prop :=
  header.virtualAddr + max header.memSize header.fileSize ≤ 2 ^ 47

instance (header : ProgramHeader) : Decidable (UserSegment header) := by
  unfold UserSegment
  infer_instance

def UserHeaders (headers : List Header) : Prop :=
  ∀ header, Header.load64 header ∈ headers → UserSegment header

section Load

variable {κ : Type} {roots : Set Frame} {others : Outside κ} {hand : Multiset Frame}
  {machine : Machine} {pml4 : Frame} {zeros bytes : Scribble} {inputLen : Nat}

theorem loadSeg_keeps {header : ProgramHeader} (owned : Owned roots others machine hand)
    (isRoot : pml4 ∈ roots) (user : UserSegment header) :
    (loadSeg inputLen header pml4 zeros bytes machine).Meets
      (fun _ => Keeps roots others hand machine) (fun _ => Keeps roots others hand machine)
      True := by
  have inMemory : header.virtualAddr + header.memSize ≤ 2 ^ 47 :=
    (Nat.add_le_add_left (Nat.le_max_left _ _) _).trans user
  have inFile : header.virtualAddr + header.fileSize ≤ 2 ^ 47 :=
    (Nat.add_le_add_left (Nat.le_max_right _ _) _).trans user
  unfold loadSeg
  simp only [pageOffset_eq]
  split
  · have mapped := owned.mapAnon_keeps isRoot
      ⟨true, true, decide (header.flags &&& 1 = 0), false⟩
      ((header.virtualAddr % 4096 + header.memSize + 4095) / 4096)
      (fun i inside => show header.virtualAddr - header.virtualAddr % 4096 + i * 4096 < 2 ^ 47 by
        omega)
    apply Outcome.Meets.bind mapped.mapError
    intro _ current kept
    apply Outcome.Meets.bind
      (kept.andThen (kept.1.writeUserLoop_keeps zeros isRoot inMemory header.memSize 0)).mapError
    intro _ zeroed kept
    split
    · exact (kept.andThen
        (kept.1.writeUserLoop_keeps bytes isRoot inFile header.fileSize 0)).mapError
    · exact trivial
  · exact trivial

theorem loadHeaders_keeps {zeros bytes : ProgramHeader → Scribble} {headers : List Header}
    (owned : Owned roots others machine hand) (isRoot : pml4 ∈ roots) (user : UserHeaders headers) :
    (loadHeaders inputLen pml4 zeros bytes headers machine).Meets
      (fun _ => Keeps roots others hand machine) (fun _ => Keeps roots others hand machine)
      True := by
  induction headers generalizing machine with
  | nil => exact .refl owned
  | cons header rest induction =>
    have userRest : UserHeaders rest := fun other later =>
      user other (List.mem_cons_of_mem _ later)
    cases header with
    | load64 header =>
      apply Outcome.Meets.bind (loadSeg_keeps owned isRoot (user header List.mem_cons_self))
      intro _ current kept
      exact kept.andThen (induction kept.1 userRest)
    | load32 => exact Keeps.refl owned
    | other => exact induction owned userRest

theorem newUser_keeps {kernelPml4 : Frame} (owned : Owned roots others machine hand)
    (reserved : ¬ machine.Supplies kernelPml4) :
    (newUser kernelPml4 machine).Meets
      (fun result after => result.elim (Keeps roots others hand machine after) fun pml4 =>
        Owned (insert pml4 roots) others after hand ∧
          Spares roots hand machine.memory after.memory ∧
          ∀ index, 256 ≤ index → index < 512 →
            after.memory pml4 index = machine.memory kernelPml4 index)
      (fun _ _ => False) True := by
  have made := owned.newUser kernelPml4
  cases outcome : newUser kernelPml4 machine with
  | ok result after =>
    rw [outcome] at made
    cases result with
    | none =>
      have same := newUser_none outcome
      refine ⟨made, ?_⟩
      rw [same]
      exact .refl _ _ _
    | some pml4 =>
      rcases newUser_eq outcome with ⟨supplied, same, copied⟩
      have different : kernelPml4 ≠ pml4 := fun isKernel => reserved (isKernel ▸ supplied)
      refine ⟨made, ⟨?_, ?_⟩, copied different⟩
      · intro frame held
        apply same
        rintro rfl
        exact nomatch owned.exclusive .hand .free _ held (owned.holds_of_supplies supplied)
      · intro root isRoot index _
        rw [same]
        rintro rfl
        exact owned.freeUnused _ supplied (isTable_of_isRoot isRoot)
  | error error after =>
    rw [outcome] at made
    exact made
  | panic => exact trivial

theorem spawnFromPath_keeps {kernelPml4 : Frame} {file : Option (Option ElfFile)}
    (zeros bytes : ProgramHeader → Scribble) (owned : Owned roots others machine hand)
    (reserved : ¬ machine.Supplies kernelPml4)
    (user : ∀ elf, file = some (some elf) → UserHeaders elf.headers) :
    (spawnFromPath kernelPml4 file zeros bytes machine).Meets
      (fun spawned after => Owned (insert spawned.1 roots) others after hand ∧
        Spares roots hand machine.memory after.memory ∧
        ∀ index, 256 ≤ index → index < 512 →
          after.memory spawned.1 index = machine.memory kernelPml4 index)
      (fun _ after => Keeps roots others hand machine after) True := by
  unfold spawnFromPath
  refine .okOr (fun _ => .refl owned) fun elf isFile => ?_
  apply Outcome.Meets.bind (((newUser_keeps owned reserved).mono (fun _ _ made => made)
    (fun _ _ => False.elim) id).mapError)
  intro result fresh made
  cases result with
  | none => exact made
  | some pml4 =>
    rcases made with ⟨ownedNow, spares, copied⟩
    have isRoot : pml4 ∈ insert pml4 roots := .inl rfl
    -- What is kept from the new address space on is kept from the start.
    have conclude : ∀ {after : Machine}, Keeps (insert pml4 roots) others hand fresh after →
        Spares roots hand machine.memory after.memory ∧
        ∀ index, 256 ≤ index → index < 512 →
          after.memory pml4 index = machine.memory kernelPml4 index := by
      intro after kept
      have fewer : Spares roots hand fresh.memory after.memory :=
        ⟨kept.2.hand, fun root isOld => kept.2.upper root (.inr isOld)⟩
      refine ⟨spares.trans fewer, fun index high small => ?_⟩
      rw [kept.2.upper pml4 isRoot index high, copied index high small]
    have fails : ∀ {after : Machine}, Keeps (insert pml4 roots) others hand fresh after →
        Keeps roots others hand machine after := fun kept =>
      ⟨kept.1.fewerRoots (Set.subset_insert _ _), (conclude kept).1⟩
    have loaded : (load elf pml4 zeros bytes fresh).Meets
        (fun _ => Keeps (insert pml4 roots) others hand fresh)
        (fun _ => Keeps roots others hand machine) True := by
      unfold load
      cases elf with
      | none => exact fails (.refl ownedNow)
      | some elf =>
        apply Outcome.Meets.bind ((loadHeaders_keeps ownedNow isRoot (user elf isFile)).mono
          (fun _ _ kept => kept) (fun _ _ => fails) id)
        exact fun _ _ kept => kept
    apply Outcome.Meets.bind loaded.mapError
    intro entry current kept
    have stacked := kept.1.mapAnon_keeps isRoot MapFlags.userData userStackPages
      (fun i inside => show userStackTop - userStackPages * 4096 + i * 4096 < 2 ^ 47 by
        simp only [userStackPages, userStackTop] at inside ⊢
        omega)
    apply Outcome.Meets.bind ((kept.andThen stacked).mono (fun _ _ kept => kept)
      (fun _ _ => fails) id).mapError
    intro _ after kept
    exact ⟨kept.1, conclude kept⟩

end Load

/-! ## Runs -/

inductive UserEvent where
  | call (caller : TaskId) (call : Ipc.Call)
  /-- A parked `sys_recv` goes on. -/
  | resume (caller : TaskId) (out : RecvMsg)
  /-- `sys_spawn` of a file -/
  | spawn (child : TaskId) (file : Option (Option ElfFile))
      (zeros bytes : ProgramHeader → Scribble)
  | closePort (port : PortId)

inductive UserStep (kernelPml4 : Frame) : State → UserEvent → State → Prop
  | call {state next : State} {caller : TaskId} {call : Ipc.Call} :
      caller ∈ state.tasks → state.receiving caller = none →
      (call.perform caller state).final = some next →
      UserStep kernelPml4 state (.call caller call) next
  | resume {state next : State} {caller : TaskId} {port : PortId} {out : RecvMsg} :
      state.receiving caller = some port →
      (recvTurn caller port out state).final = some next →
      UserStep kernelPml4 state (.resume caller out) next
  | spawn {state : State} {child : TaskId} {file : Option (Option ElfFile)}
      {zeros bytes : ProgramHeader → Scribble} {pml4 : Frame} {entry : Nat} {machine : Machine} :
      child ∉ state.tasks →
      spawnFromPath kernelPml4 file zeros bytes state.machine = .ok (pml4, entry) machine →
      UserStep kernelPml4 state (.spawn child file zeros bytes)
        (state.spawn child (some pml4) machine)
  | spawnFails {state : State} {child : TaskId} {file : Option (Option ElfFile)}
      {zeros bytes : ProgramHeader → Scribble} {error : SpawnError} {machine : Machine} :
      spawnFromPath kernelPml4 file zeros bytes state.machine = .error error machine →
      UserStep kernelPml4 state (.spawn child file zeros bytes) (state.setMachine machine)
  | closePort {state : State} {port : PortId} :
      state.Unreferenced port →
      UserStep kernelPml4 state (.closePort port) (state.closePort port)

/-- The addresses given to the kernel are in the user half, and a receive has the frames for
all page tables that it needs, or too few for its first page. -/
def WithinUserHalf (state : State) : UserEvent → Prop
  | .call caller call => Careful state (.call caller call)
  | .resume caller out => Careful state (.resume caller out)
  | .spawn _ file _ _ => ∀ elf, file = some (some elf) → UserHeaders elf.headers
  | .closePort _ => True

/-- The kernel's tables are as they were at boot and in nobody's hands, and every address
space has the kernel half of the kernel. -/
structure Shielded (boot : Memory) (kernelPml4 : Frame) (state : State) : Prop where
  balanced : ∀ frame, KernelTable boot kernelPml4 frame →
    Balanced (Set.ofPred (KernelTable boot kernelPml4)) state [frame * 4096]
  content : ∀ frame, KernelTable boot kernelPml4 frame → state.machine.memory frame = boot frame
  shared : ∀ root ∈ state.roots, ∀ index, 256 ≤ index → index < 512 →
    state.machine.memory root index = boot kernelPml4 index

section Steps

variable {boot : Memory} {kernelPml4 : Frame} {state next : State}

theorem mem_framesOf_self (frame : Frame) : frame ∈ framesOf [frame * 4096] := by
  simp [framesOf]

/-- What leaves the kernel's tables in nobody's hands and writes nothing that is spared. -/
theorem Shielded.of_spares (shielded : Shielded boot kernelPml4 state)
    (balanced : ∀ frame, KernelTable boot kernelPml4 frame →
      Balanced (Set.ofPred (KernelTable boot kernelPml4)) next [frame * 4096])
    (spares : ∀ frame, KernelTable boot kernelPml4 frame →
      Spares state.roots (framesOf [frame * 4096]) state.machine.memory next.machine.memory)
    (shared : ∀ root ∈ next.roots, root ∉ state.roots → ∀ index, 256 ≤ index → index < 512 →
      next.machine.memory root index = boot kernelPml4 index) :
    Shielded boot kernelPml4 next where
  balanced := balanced
  content frame isKernel := by
    rw [(spares frame isKernel).hand frame (mem_framesOf_self frame),
      shielded.content frame isKernel]
  shared root isRoot index high small := by
    by_cases isOld : root ∈ state.roots
    · have spared := spares kernelPml4 (kernelTable_top boot kernelPml4)
      rw [spared.upper root isOld index high, shielded.shared root isOld index high small]
    · exact shared root isRoot isOld index high small

theorem Shielded.manages {task : TaskId} (shielded : Shielded boot kernelPml4 state)
    (manages : Manages task state next)
    (balanced : ∀ frame, KernelTable boot kernelPml4 frame →
      Balanced (Set.ofPred (KernelTable boot kernelPml4)) next [frame * 4096]) :
    Shielded boot kernelPml4 next := by
  apply shielded.of_spares balanced fun frame isKernel =>
    (shielded.balanced frame isKernel).spares manages
  rintro root ⟨task, space⟩ isNew
  rw [manages.1] at space
  exact absurd ⟨task, space⟩ isNew

theorem Shielded.reserved (shielded : Shielded boot kernelPml4 state) :
    ¬ state.machine.Supplies kernelPml4 := by
  have owned := (shielded.balanced kernelPml4 (kernelTable_top boot kernelPml4)).owned
  intro supplied
  exact nomatch owned.exclusive .hand .free kernelPml4 (mem_framesOf_self kernelPml4)
    (owned.holds_of_supplies supplied)

theorem Shielded.spawn {child : TaskId} {pml4 : Frame} {machine : Machine}
    (shielded : Shielded boot kernelPml4 state)
    (made : ∀ frame, KernelTable boot kernelPml4 frame →
      Owned (insert pml4 state.roots) ⟨fun port => queueFrames (state.queues port),
        Set.ofPred (KernelTable boot kernelPml4)⟩ machine
          (framesOf [frame * 4096]) ∧
        Spares state.roots (framesOf [frame * 4096]) state.machine.memory machine.memory ∧
        ∀ index, 256 ≤ index → index < 512 →
          machine.memory pml4 index = state.machine.memory kernelPml4 index) :
    Shielded boot kernelPml4 (state.spawn child (some pml4) machine) := by
  apply shielded.of_spares
  · intro frame isKernel
    exact ⟨(made frame isKernel).1.fewerRoots (state.roots_spawn child pml4 machine),
      (shielded.balanced frame isKernel).whole⟩
  · exact fun frame isKernel => (made frame isKernel).2.1
  · intro root isRoot isNew index high small
    have isKernel := kernelTable_top boot kernelPml4
    rcases state.roots_spawn child pml4 machine isRoot with rfl | isOld
    · exact ((made kernelPml4 isKernel).2.2 index high small).trans
        (congrFun (shielded.content kernelPml4 isKernel) index)
    · exact absurd isOld isNew

theorem Shielded.keeps {machine : Machine} (shielded : Shielded boot kernelPml4 state)
    (kept : ∀ frame, KernelTable boot kernelPml4 frame →
      Keeps state.roots ⟨fun port => queueFrames (state.queues port),
        Set.ofPred (KernelTable boot kernelPml4)⟩ (framesOf [frame * 4096])
        state.machine machine) :
    Shielded boot kernelPml4 (state.setMachine machine) := by
  apply shielded.of_spares
  · exact fun frame isKernel => (shielded.balanced frame isKernel).setMachine
      (kept frame isKernel).1
  · exact fun frame isKernel => (kept frame isKernel).2
  · exact fun _ isRoot isNew => absurd isRoot isNew

theorem closePort_memory (state : State) (port : PortId) :
    (state.closePort port).machine.memory = state.machine.memory := by
  suffices drained : ∀ (queue : List Message) (machine : Machine),
      (queue.foldl (fun machine message => freePages machine message.pages) machine).memory =
        machine.memory from drained _ _
  intro queue
  induction queue with
  | nil => exact fun _ => rfl
  | cons message later induction =>
    intro machine
    rw [List.foldl_cons, induction, freePages_memory]

theorem Shielded.step {event : UserEvent} (shielded : Shielded boot kernelPml4 state)
    (step : UserStep kernelPml4 state event next) (within : WithinUserHalf state event) :
    Shielded boot kernelPml4 next := by
  have whole := (shielded.balanced kernelPml4 (kernelTable_top boot kernelPml4)).whole
  cases step with
  | call _ _ ended =>
    apply shielded.manages ((perform_manages _ whole within).of_final ended)
    exact fun frame isKernel =>
      ((shielded.balanced frame isKernel).perform _ _ within).of_final ended
  | resume parked ended =>
    apply shielded.manages ((recvTurn_manages (whole _)).of_final ended)
    exact fun frame isKernel =>
      ((shielded.balanced frame isKernel).recvTurn (within _ parked)).of_final ended
  | @spawn _ _ zeros bytes _ _ _ _ spawned =>
    apply shielded.spawn
    intro frame isKernel
    have kept := spawnFromPath_keeps zeros bytes (shielded.balanced frame isKernel).owned
      shielded.reserved within
    rwa [spawned] at kept
  | @spawnFails _ _ zeros bytes _ _ failed =>
    apply shielded.keeps
    intro frame isKernel
    have kept := spawnFromPath_keeps zeros bytes (shielded.balanced frame isKernel).owned
      shielded.reserved within
    rwa [failed] at kept
  | @closePort port _ =>
    have manages : Manages 0 state (state.closePort port) :=
      ⟨rfl, .inl (closePort_memory state port)⟩
    exact shielded.manages manages fun frame isKernel =>
      (shielded.balanced frame isKernel).closePort

theorem Shielded.translate {root virt : Nat} (shielded : Shielded boot kernelPml4 state)
    (isRoot : root = kernelPml4 ∨ root ∈ state.roots) (upper : UpperHalf virt) :
    translate state.machine.memory root virt = translate boot kernelPml4 virt := by
  have kernel : Mm.translate state.machine.memory kernelPml4 virt =
      Mm.translate boot kernelPml4 virt := by
    apply translate_congr
    intro slot isRead
    rw [shielded.content slot.1 ⟨virt, slot.2, isRead⟩]
  rw [← kernel]
  rcases isRoot with rfl | isRoot
  · rfl
  · apply translate_of_same_entry
    rw [shielded.shared root isRoot _ upper.index.1 upper.index.2,
      shielded.content kernelPml4 (kernelTable_top boot kernelPml4)]

end Steps

end PersonaOS.User
