import Mathlib.Order.Interval.Finset.Nat
import PersonaOS.Ipc.Frames

/-! # Page transfer keeps frames with one owner

In every state of a run a frame is with one owner: the allocator, a page of an address space, or
a slot of a queued message. The runs are those in which a receive finds the frames for all page
tables that its message needs, or too few for its first page.

When a receiver runs out of page tables half way, the pages mapped so far stay mapped and the
dropped message frees all of its frames: a frame is mapped and free at the same time. -/

namespace PersonaOS.Ipc

open Program Mm Sched

/-! ## Owners -/

/-- Who may own a frame: the allocator, a page, or a slot of the page list of a queued
message. -/
inductive Owner where
  | allocator
  | page (root : Frame) (number : Nat)
  | message (port : PortId) (position slot : Nat)

def State.Owns (state : State) : Owner → Frame → Prop
  | .allocator, frame => frame ∈ state.machine.free
  | .page root number, frame =>
    root ∈ state.roots ∧
      (pageMap state.machine.memory root number).map (·.frame) = some frame
  | .message port position slot, frame =>
    ((state.queues port)[position]?.bind (·.pages[slot]?)).map (· / 4096) = some frame

/-! ## Runs -/

inductive TransferEvent where
  | call (caller : TaskId) (call : Call)
  /-- A parked `sys_recv` goes on. -/
  | resume (caller : TaskId) (out : RecvMsg)
  | newUser (child : TaskId)
  | mapAnon (task : TaskId) (virt pages : Nat) (flags : MapFlags)
  | closePort (port : PortId)

inductive TransferStep (kernelPml4 : Frame) : State → TransferEvent → State → Prop
  | call {state next : State} {caller : TaskId} {call : Call} :
      caller ∈ state.tasks → state.receiving caller = none →
      (call.perform caller state).final = some next →
      TransferStep kernelPml4 state (.call caller call) next
  | resume {state next : State} {caller : TaskId} {port : PortId} {out : RecvMsg} :
      state.receiving caller = some port →
      (recvTurn caller port out state).final = some next →
      TransferStep kernelPml4 state (.resume caller out) next
  | newUser {state : State} {child : TaskId} {pml4 : Frame} {machine : Machine} :
      child ∉ state.tasks →
      Mm.newUser kernelPml4 state.machine = .ok (some pml4) machine →
      TransferStep kernelPml4 state (.newUser child) (state.spawn child (some pml4) machine)
  | newUserFails {state : State} {child : TaskId} {machine : Machine} :
      Mm.newUser kernelPml4 state.machine = .ok none machine →
      TransferStep kernelPml4 state (.newUser child) (state.setMachine machine)
  | mapAnon {state : State} {task : TaskId} {pml4 : Frame} {virt pages : Nat} {flags : MapFlags}
      {machine : Machine} :
      state.spaces task = some pml4 → InUserHalf virt pages →
      (Mm.mapAnon pml4 virt pages flags state.machine).final = some machine →
      TransferStep kernelPml4 state (.mapAnon task virt pages flags) (state.setMachine machine)
  | closePort {state : State} {port : PortId} :
      state.Unreferenced port →
      TransferStep kernelPml4 state (.closePort port) (state.closePort port)

/-- The two things that a run has to avoid: sending pages of the kernel half, and receiving
pages when the frames run out after the page tables of the first. -/
def Careful (state : State) : TransferEvent → Prop
  | .call _ (.send _ _ msg) => InUserHalf msg.pagesVa (msg.pagesLen / 4096)
  | .call caller (.recv capId _ _) =>
    ∀ cap port, (state.tables caller).get capId = some cap → cap.asPort = some port →
      ∀ message ∈ (state.queues port).head?, Provided state caller message
  | .resume caller _ => ∀ port, state.receiving caller = some port →
      ∀ message ∈ (state.queues port).head?, Provided state caller message
  | _ => True

section Run

variable {kernelPml4 : Frame} {withheld : Set Frame} {state next : State} {rest : List Nat}

theorem Balanced.perform (balanced : Balanced withheld state rest) (caller : TaskId) (call : Call)
    (careful : Careful state (.call caller call)) :
    (call.perform caller state).Meets (fun _ after => Balanced withheld after rest)
      (fun _ after => Balanced withheld after rest) True := by
  cases call with
  | portCreate =>
    have created : Balanced withheld (state.createPort caller) rest := balanced.createPort
    exact .bind (installCap_keeps created Balanced.setTable _) fun _ _ kept => kept
  | capDrop capId => exact sysCapDrop_keeps balanced Balanced.setTable capId
  | capDup capId mask =>
    exact .bind (sysCapDup_keeps balanced Balanced.setTable capId mask) fun _ _ kept => kept
  | send capId msgPtr msg =>
    exact .bind (balanced.sysSend capId msgPtr msg careful) fun _ _ kept => kept
  | recv capId msgPtr out =>
    exact .bind (balanced.sysRecv capId msgPtr careful) fun _ _ kept => kept
  | name op namePtr nameBytes capId =>
    have published : ∀ name port, Balanced withheld (state.publish caller name port) rest :=
      fun _ _ => ⟨balanced.owned, balanced.whole⟩
    exact .bind (sysName_keeps balanced Balanced.setTable op namePtr nameBytes capId published)
      fun _ _ kept => kept

theorem State.roots_spawn (state : State) (child : TaskId) (pml4 : Frame) (machine : Machine) :
    (state.spawn child (some pml4) machine).roots ⊆ insert pml4 state.roots := by
  intro root isRoot
  rcases isRoot with ⟨task, space⟩
  by_cases isChild : task = child
  · subst isChild
    have isNew : pml4 = root := by simpa [State.spawn] using space
    exact .inl isNew.symm
  · have isOld : state.spaces task = some root := by simpa [State.spawn, isChild] using space
    exact .inr ⟨task, isOld⟩

theorem Balanced.spawn {child : TaskId} {pml4 : Frame} {machine : Machine}
    (balanced : Balanced withheld state rest)
    (created : Mm.newUser kernelPml4 state.machine = .ok (some pml4) machine) :
    Balanced withheld (state.spawn child (some pml4) machine) rest := by
  have spawned := balanced.owned.newUser kernelPml4
  rw [created] at spawned
  exact ⟨spawned.fewerRoots (state.roots_spawn child pml4 machine), balanced.whole⟩

theorem Balanced.mapAnon {task : TaskId} {pml4 : Frame} {virt pages : Nat} {flags : MapFlags}
    {machine : Machine} (balanced : Balanced withheld state rest)
    (space : state.spaces task = some pml4)
    (user : InUserHalf virt pages)
    (ended : (Mm.mapAnon pml4 virt pages flags state.machine).final = some machine) :
    Balanced withheld (state.setMachine machine) rest := by
  have isRoot : pml4 ∈ state.roots := ⟨task, space⟩
  have mapped := balanced.owned.mapAnonLoop isRoot flags 0 pages
    fun i inside => user i (by omega)
  exact balanced.setMachine (mapped.of_final ended)

theorem Balanced.step {event : TransferEvent} (balanced : Balanced withheld state rest)
    (step : TransferStep kernelPml4 state event next) (careful : Careful state event) :
    Balanced withheld next rest := by
  cases step with
  | call _ _ ended => exact (balanced.perform _ _ careful).of_final ended
  | resume parked ended => exact (balanced.recvTurn (careful _ parked)).of_final ended
  | newUser _ created => exact balanced.spawn created
  | newUserFails failed =>
    have kept := balanced.owned.newUser kernelPml4
    rw [failed] at kept
    exact balanced.setMachine kept
  | mapAnon space user ended => exact balanced.mapAnon space user ended
  | closePort _ => exact balanced.closePort

end Run

theorem queueFrames_eq (queue : List Message) :
    queueFrames queue =
      (queue.flatMap fun message => message.pages.map (· / 4096) : List Frame) := by
  simp [queueFrames, framesOf, List.map_flatMap]

theorem slot_eq_some {queue : List Message} {position slot : Nat} {frame : Frame} :
    (queue[position]?.bind (·.pages[slot]?)).map (· / 4096) = some frame ↔
      ∃ message, queue[position]? = some message ∧
        (message.pages.map (· / 4096))[slot]? = some frame := by
  simp only [Option.map_eq_some_iff, Option.bind_eq_some_iff, List.getElem?_map]
  constructor
  · rintro ⟨phys, ⟨message, atPosition, atSlot⟩, isFrame⟩
    exact ⟨message, atPosition, phys, atSlot, isFrame⟩
  · rintro ⟨message, atPosition, phys, atSlot, isFrame⟩
    exact ⟨phys, ⟨message, atPosition, atSlot⟩, isFrame⟩

theorem slot_unique {queue : List Message} (once : (queueFrames queue).Nodup)
    {position otherPosition slot otherSlot : Nat} {message other : Message} {frame : Frame}
    (atPosition : queue[position]? = some message)
    (atOther : queue[otherPosition]? = some other)
    (here : (message.pages.map (· / 4096))[slot]? = some frame)
    (there : (other.pages.map (· / 4096))[otherSlot]? = some frame) :
    position = otherPosition ∧ slot = otherSlot := by
  rw [queueFrames_eq, Multiset.coe_nodup, List.nodup_flatMap] at once
  rcases once with ⟨eachOnce, apart⟩
  rcases List.getElem?_eq_some_iff.mp atPosition with ⟨inside, isMessage⟩
  rcases List.getElem?_eq_some_iff.mp atOther with ⟨otherInside, isOther⟩
  have disjoint := List.pairwise_iff_getElem.mp apart
  have isHere := List.mem_of_getElem? here
  have isThere := List.mem_of_getElem? there
  rcases Nat.lt_trichotomy position otherPosition with before | same | behind
  · have apart := disjoint position otherPosition inside otherInside before
    rw [isMessage, isOther] at apart
    exact absurd isThere (apart isHere)
  · subst same
    obtain rfl : message = other := Option.some.inj (atPosition.symm.trans atOther)
    have inSlot := (List.getElem?_eq_some_iff.mp here).1
    have once := eachOnce message (List.mem_of_getElem? atPosition)
    exact ⟨rfl, (List.getElem?_inj inSlot once).mp (here.trans there.symm)⟩
  · have apart := disjoint otherPosition position otherInside inside behind
    rw [isMessage, isOther] at apart
    exact absurd isHere (apart isThere)

theorem Balanced.exclusive {state : State} (balanced : Balanced ∅ state []) :
    Exclusive state.Owns := by
  -- Forgetting the positions, every owner is a place.
  have isQueued : ∀ port position slot frame, state.Owns (.message port position slot) frame →
      frame ∈ queueFrames (state.queues port) := by
    intro port position slot frame there
    rcases slot_eq_some.mp there with ⟨message, atPosition, atSlot⟩
    rw [queueFrames_eq, Multiset.mem_coe, List.mem_flatMap]
    exact ⟨message, List.mem_of_getElem? atPosition, List.mem_of_getElem? atSlot⟩
  have isFree : ∀ frame, state.Owns .allocator frame →
      frame ∈ state.machine.free ∧ frame ∉ (∅ : Set Frame) :=
    fun frame there => ⟨there, Set.notMem_empty frame⟩
  intro owner other frame here there
  have exclusive := balanced.owned.exclusive
  cases owner with
  | allocator =>
    cases other with
    | allocator => rfl
    | page root number =>
      exact nomatch exclusive .free (.page root number) frame (isFree _ here) there
    | message port position slot =>
      exact nomatch exclusive .free (.other port) frame (isFree _ here) (isQueued _ _ _ _ there)
  | page root number =>
    cases other with
    | allocator => exact nomatch exclusive (.page root number) .free frame here (isFree _ there)
    | page otherRoot otherNumber =>
      cases exclusive (.page root number) (.page otherRoot otherNumber) frame here there
      rfl
    | message port position slot =>
      exact nomatch exclusive (.page root number) (.other port) frame here
        (isQueued _ _ _ _ there)
  | message port position slot =>
    have queued := isQueued port position slot frame here
    cases other with
    | allocator => exact nomatch exclusive (.other port) .free frame queued (isFree _ there)
    | page root number =>
      exact nomatch exclusive (.other port) (.page root number) frame queued there
    | message otherPort otherPosition otherSlot =>
      have otherQueued := isQueued otherPort otherPosition otherSlot frame there
      cases exclusive (.other port) (.other otherPort) frame queued otherQueued
      rcases slot_eq_some.mp here with ⟨message, atPosition, atSlot⟩
      rcases slot_eq_some.mp there with ⟨otherMessage, atOther, atOtherSlot⟩
      rcases slot_unique (balanced.owned.othersOnce port) atPosition atOther atSlot
        atOtherSlot with ⟨rfl, rfl⟩
      rfl

/-- The state after an event, if the event can happen. That a port is closed is left out:
nothing decides whether it is referenced. -/
def TransferEvent.next (kernelPml4 : Frame) (state : State) : TransferEvent → Option State
  | .call caller request =>
    if caller ∈ state.tasks ∧ state.receiving caller = none then
      (request.perform caller state).final
    else
      none
  | .resume caller out => do
      let port ← state.receiving caller
      (recvTurn caller port out state).final
  | .newUser child =>
    match Mm.newUser kernelPml4 state.machine with
    | .ok (some pml4) machine =>
      if child ∉ state.tasks then some (state.spawn child (some pml4) machine) else none
    | .ok none machine => some (state.setMachine machine)
    | .error _ _ => none
    | .panic => none
  | .mapAnon task virt pages flags => do
      let pml4 ← state.spaces task
      if InUserHalf virt pages then
        (Mm.mapAnon pml4 virt pages flags state.machine).final.map state.setMachine
      else
        none
  | .closePort _ => none

end PersonaOS.Ipc
