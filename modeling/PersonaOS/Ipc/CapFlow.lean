import PersonaOS.Foundation.Trace
import PersonaOS.Ipc.Syscalls

/-! # How capabilities flow

Every system call moves capabilities by the same few steps: out of the caller's table into its
hands, from its hands into its table or into a message, out of a message into its hands; and it
makes new ones in three ways only, by creating a port, by duplicating and by looking up a name.
A property of the state and of the capabilities in the caller's hands that survives each of
these steps survives every system call, so it holds in every reachable state.

A reference to a port in a local variable counts as a capability without rights. -/

namespace PersonaOS.Ipc

open Program Mm Sched

/-! ## The steps of the system -/

namespace State

/-- A spawned task starts with an empty table, and with whatever address space and
memory its loader left. -/
def spawn (state : State) (child : TaskId) (space : Option Frame) (machine : Machine) : State :=
  { state with
    tasks := insert child state.tasks
    tables := Function.update state.tables child .new
    spaces := Function.update state.spaces child space
    receiving := Function.update state.receiving child none
    machine }

/-- The last reference to a port is gone: the messages in its queue are dropped. -/
def closePort (state : State) (port : PortId) : State :=
  { state with
    queues := Function.update state.queues port []
    machine := (state.queues port).foldl (fun machine message => freePages machine message.pages)
      state.machine }

theorem tables_spawn (state : State) (child other : TaskId) (space : Option Frame)
    (machine : Machine) :
    (state.spawn child space machine).tables other =
      if other = child then .new else state.tables other := by
  simp [spawn, Function.update_apply]

theorem receiving_spawn (state : State) (child other : TaskId) (space : Option Frame)
    (machine : Machine) :
    (state.spawn child space machine).receiving other =
      if other = child then none else state.receiving other := by
  simp [spawn, Function.update_apply]

theorem queues_closePort (state : State) (port other : PortId) :
    (state.closePort port).queues other =
      if other = port then [] else state.queues other := by
  simp [closePort, Function.update_apply]

/-- No capability, name or parked receiver refers to the port. -/
def Unreferenced (state : State) (port : PortId) : Prop :=
  (∀ task, ∀ cap ∈ (state.tables task).caps, cap.asPort ≠ some port) ∧
  (∀ other, ∀ message ∈ state.queues other, ∀ cap ∈ message.caps, cap.asPort ≠ some port) ∧
  (∀ name, state.registry.lookup name ≠ some port) ∧
  (∀ task, state.receiving task ≠ some port)

def boot (space : Option Frame) (machine : Machine) : State where
  tasks := {2}
  tables := Function.update (fun _ => .new) 2 ⟨AList.singleton 1 .registrar, 2⟩
  ports := 0
  queues _ := []
  registry := ∅
  spaces := Function.update (fun _ => none) 2 space
  machine := machine
  receiving _ := none
  audit := []

end State

inductive Call where
  | portCreate
  | capDrop (capId : CapId)
  | capDup (capId : CapId) (mask : Nat)
  | send (capId : CapId) (msgPtr : Nat) (msg : SendMsg)
  | recv (capId : CapId) (msgPtr : Nat) (out : RecvMsg)
  | name (op namePtr : Nat) (nameBytes : ByteArray) (capId : CapId)

def Call.perform (caller : TaskId) : Call → Program State Errno PUnit
  | .portCreate => do
      let _ ← sysPortCreate caller
      return ⟨⟩
  | .capDrop capId => sysCapDrop caller capId
  | .capDup capId mask => do
      let _ ← sysCapDup caller capId mask
      return ⟨⟩
  | .send capId msgPtr msg => do
      let _ ← sysSend caller capId msgPtr msg
      return ⟨⟩
  | .recv capId msgPtr out => do
      let _ ← sysRecv caller capId msgPtr out
      return ⟨⟩
  | .name op namePtr nameBytes capId => do
      let _ ← sysName caller op namePtr nameBytes capId
      return ⟨⟩

inductive Event where
  | call (caller : TaskId) (call : Call)
  /-- A parked `sys_recv` is scheduled again and goes on. -/
  | resume (caller : TaskId) (out : RecvMsg)
  | spawn (child : TaskId) (space : Option Frame) (machine : Machine)
  | closePort (port : PortId)

/-- Any task may make any system call unless it is parked in one. A call that panics
ends the run, so it is no step. -/
inductive Step : State → Event → State → Prop
  | call {state next caller call} :
      caller ∈ state.tasks → state.receiving caller = none →
      (Call.perform caller call state).final = some next →
      Step state (.call caller call) next
  | resume {state next caller port out} :
      caller ∈ state.tasks → state.receiving caller = some port →
      (recvTurn caller port out state).final = some next →
      Step state (.resume caller out) next
  | spawn {state child space machine} :
      child ∉ state.tasks →
      Step state (.spawn child space machine) (state.spawn child space machine)
  | closePort {state port} :
      state.Unreferenced port →
      Step state (.closePort port) (state.closePort port)

/-! ## Invariants of the flow -/

def portRef (port : PortId) : Cap := .port port .empty

/-- An invariant `Base` between system calls, and its version `Holds` during a system call
of `caller` with the capabilities `held` in hand. -/
structure CapInvariant (Base : State → Prop)
    (Holds : State → TaskId → Multiset Cap → Prop) : Prop where
  enter : ∀ {state caller}, Base state → caller ∈ state.tasks → Holds state caller 0
  leave : ∀ {state caller held}, Holds state caller held → Base state
  setMachine : ∀ {state caller held machine}, Holds state caller held →
    Holds (state.setMachine machine) caller held
  remove : ∀ {state caller held id cap table}, Holds state caller held →
    (state.tables caller).remove id = (some cap, table) →
    Holds (state.setTable caller table) caller (cap ::ₘ held)
  install : ∀ {state caller held id cap table}, Holds state caller (cap ::ₘ held) →
    (state.tables caller).install cap = some (id, table) →
    Holds (state.setTable caller table) caller held
  resolve : ∀ {state caller held cap port}, Holds state caller held →
    cap ∈ (state.tables caller).caps → cap.asPort = some port →
    Holds state caller (portRef port ::ₘ held)
  create : ∀ {state caller held}, Holds state caller held →
    Holds (state.createPort caller) caller (.port state.ports .all ::ₘ held)
  mint : ∀ {state caller held port rights}, Holds state caller (portRef port ::ₘ held) →
    rights.recv = false → Holds state caller (.port port rights ::ₘ held)
  push : ∀ {state caller held port} {message : Message},
    Holds state caller (portRef port ::ₘ (message.caps + held)) →
    Holds (state.push caller port message) caller held
  refuse : ∀ {state caller held port}, Holds state caller (portRef port ::ₘ held) →
    Holds (state.refuse caller port) caller (portRef port ::ₘ held)
  popEmpty : ∀ {state caller held port}, Holds state caller (portRef port ::ₘ held) →
    state.queues port = [] →
    Holds (state.pop caller port) caller (portRef port ::ₘ held)
  pop : ∀ {state caller held port message rest},
    Holds state caller (portRef port ::ₘ held) → state.queues port = message :: rest →
    Holds (state.pop caller port) caller (message.caps + held)
  park : ∀ {state caller held port}, Holds state caller (portRef port ::ₘ held) →
    Holds (state.setReceiving caller (some port)) caller held
  unpark : ∀ {state caller held}, Holds state caller held →
    Holds (state.setReceiving caller none) caller held
  resume : ∀ {state caller held port}, Holds state caller held →
    state.receiving caller = some port → Holds state caller (portRef port ::ₘ held)
  publish : ∀ {state caller held name port}, Holds state caller (portRef port ::ₘ held) →
    Holds (state.publish caller name port) caller held
  lookup : ∀ {state caller held name port}, Holds state caller held →
    state.registry.lookup name = some port → Holds state caller (portRef port ::ₘ held)
  spawn : ∀ {state child space machine}, Base state → child ∉ state.tasks →
    Base (state.spawn child space machine)
  closePort : ∀ {state port}, Base state → Base (state.closePort port)

namespace CapInvariant

variable {Base : State → Prop} {Holds : State → TaskId → Multiset Cap → Prop}
  (inv : CapInvariant Base Holds) {state : State} {caller : TaskId} {held : Multiset Cap}

/-! ## Building blocks -/

section Blocks

include inv

theorem installCap {cap : Cap} (holds : Holds state caller (cap ::ₘ held)) :
    (installCap caller cap state).Meets (fun _ after => Holds after caller held)
      (fun _ => Base) True := by
  unfold Ipc.installCap
  cases installed : (state.tables caller).install cap with
  | none => exact trivial
  | some result => exact inv.install holds installed

theorem installCaps {caps : List Cap} (holds : Holds state caller (caps + held)) :
    (installCaps caller caps state).Meets (fun _ after => Holds after caller held)
      (fun _ => Base) True := by
  induction caps generalizing state with
  | nil =>
    rw [Multiset.coe_nil, Multiset.zero_add] at holds
    exact holds
  | cons cap caps induction =>
    rw [← Multiset.cons_coe, Multiset.cons_add] at holds
    exact .bind (inv.installCap holds) fun _ _ rest =>
      .bind (induction rest) fun _ _ done => done

theorem removeCaps (ids : List CapId) (holds : Holds state caller held) :
    (removeCaps caller ids state).Meets (fun caps after => Holds after caller (caps + held))
      (fun _ => Base) True := by
  induction ids generalizing state held with
  | nil =>
    rw [← Multiset.zero_add held] at holds
    exact holds
  | cons id ids induction =>
    unfold Ipc.removeCaps
    simp only [bind_apply, get_apply, modify_apply]
    -- The capability that comes out first is in hand while the others are removed.
    cases removal : (state.tables caller).remove id with
    | mk removed table =>
      have taken : Holds (state.setTable caller table) caller (removed.toList + held) := by
        cases removed with
        | none =>
          rw [CapTable.remove_of_absent removal]
          simpa [State.setTable] using holds
        | some cap => simpa using inv.remove holds removal
      refine .bind (induction taken) fun caps after rest => ?_
      rw [pure_apply, Outcome.meets_ok, ← Multiset.coe_add,
        Multiset.add_comm _ (caps : Multiset Cap), Multiset.add_assoc]
      exact rest

theorem onMachine {α : Type} {program : Program Machine MapError α}
    (holds : Holds state caller held) :
    (onMachine program state).Meets (fun _ after => Holds after caller held)
      (fun _ => Base) True := by
  unfold Ipc.onMachine
  cases program state.machine with
  | ok value machine => exact inv.setMachine holds
  | error error machine => exact inv.setMachine holds
  | panic => exact trivial

theorem dropWith {α : Type} {message : Message} {errno : Errno} {ok : α → State → Prop}
    (holds : Holds state caller held) :
    (dropWith message errno state).Meets ok (fun _ => Base) True :=
  inv.leave (inv.setMachine holds)

theorem resolvePort {id : CapId} {cap : Cap} {port : PortId} (holds : Holds state caller held)
    (found : (state.tables caller).get id = some cap) (isPort : cap.asPort = some port) :
    Holds state caller (portRef port ::ₘ held) :=
  inv.resolve holds (CapTable.mem_caps_of_get found) isPort

end Blocks

/-! ## The system calls -/

section Calls

include inv

theorem sysPortCreate (entered : Holds state caller 0) :
    (sysPortCreate caller state).Meets (fun _ => Base) (fun _ => Base) True :=
  (inv.installCap (inv.create entered)).mono (fun _ _ => inv.leave) (fun _ _ => id) id

theorem sysCapDrop (capId : CapId) (entered : Holds state caller 0) :
    (sysCapDrop caller capId state).Meets (fun _ => Base) (fun _ => Base) True := by
  unfold Ipc.sysCapDrop
  rw [get_bind_apply]
  cases removal : (state.tables caller).remove capId with
  | mk removed table =>
    cases removed with
    | none => exact inv.leave entered
    | some cap => exact inv.leave (inv.remove entered removal)

theorem sysCapDup (capId : CapId) (mask : Nat) (entered : Holds state caller 0) :
    (sysCapDup caller capId mask state).Meets (fun _ => Base) (fun _ => Base) True := by
  unfold Ipc.sysCapDup
  rw [get_bind_apply]
  refine .okOr (fun _ => inv.leave entered) fun cap found => ?_
  split
  · refine .okOr (fun _ => inv.leave entered) fun port isPort => ?_
    have copied : Holds state caller
        (.port port (cap.rights.inter (.fromBitsTruncate mask)).withoutRecv ::ₘ 0) :=
      inv.mint (inv.resolvePort entered found isPort) rfl
    exact (inv.installCap copied).mono (fun _ _ => inv.leave) (fun _ _ => id) id
  · exact inv.leave entered

theorem takeCaps (msg : SendMsg) (holds : Holds state caller held) :
    (takeCaps caller msg state).Meets (fun caps after => Holds after caller (caps + held))
      (fun _ => Base) True := by
  unfold Ipc.takeCaps
  split
  · rw [← Multiset.zero_add held] at holds
    exact holds
  split
  · exact inv.leave holds
  rw [get_bind_apply]
  split
  · exact inv.removeCaps msg.capIds holds
  · exact inv.leave holds

theorem takePages (msg : SendMsg) (caps : List Cap) (holds : Holds state caller (caps + held)) :
    (takePages caller msg caps state).Meets (fun _ after => Holds after caller (caps + held))
      (fun _ => Base) True := by
  unfold Ipc.takePages
  split
  · split
    · exact .bind (inv.installCaps holds) fun _ _ rest => inv.leave rest
    rw [get_bind_apply]
    cases state.spaces caller with
    | none => exact inv.leave holds
    | some pml4 =>
      refine .bind (inv.onMachine holds) fun result after rest => ?_
      cases result with
      | ok pages => exact rest
      | error error => exact .bind (inv.installCaps rest) fun _ _ done => inv.leave done
  · exact holds

theorem tryPush {port : PortId} {message : Message}
    (holds : Holds state caller (portRef port ::ₘ (message.caps + held))) :
    (tryPush caller port message state).Meets (fun _ => Base) (fun _ => Base) True := by
  unfold Ipc.tryPush
  rw [get_bind_apply]
  split
  · exact inv.dropWith (inv.refuse holds)
  · exact inv.leave (inv.push holds)

theorem sysSend (capId : CapId) (msgPtr : Nat) (msg : SendMsg) (entered : Holds state caller 0) :
    (sysSend caller capId msgPtr msg state).Meets (fun _ => Base) (fun _ => Base) True := by
  unfold Ipc.sysSend
  split
  · exact inv.leave entered
  split
  · exact inv.leave entered
  rw [get_bind_apply]
  refine .okOr (fun _ => inv.leave entered) fun cap found => ?_
  split
  · refine .okOr (fun _ => inv.leave entered) fun port isPort => ?_
    refine .bind (inv.takeCaps msg (inv.resolvePort entered found isPort))
      fun caps _ taken => ?_
    refine .bind (inv.takePages msg caps taken) fun stolen _ ready => ?_
    rw [Multiset.add_cons] at ready
    exact inv.tryPush ready
  · exact inv.leave entered

theorem receivePages (out : RecvMsg) (message : Message) (holds : Holds state caller held) :
    (receivePages caller out message state).Meets (fun _ => Base) (fun _ => Base) True := by
  unfold Ipc.receivePages
  split
  · rw [get_bind_apply]
    cases state.spaces caller with
    | none => exact inv.dropWith holds
    | some pml4 =>
      simp only
      cases findUserVmRange state.machine.memory pml4 ((message.len + 4095) / 4096) with
      | none => exact inv.dropWith holds
      | some va =>
        refine .bind (inv.onMachine holds) fun result _ mapped => ?_
        cases result with
        | ok _ => exact inv.leave mapped
        | error _ => exact inv.dropWith mapped
  · exact inv.leave (inv.setMachine holds)

theorem receive (out : RecvMsg) (message : Message)
    (holds : Holds state caller (message.caps + held)) :
    (receive caller out message state).Meets (fun _ => Base) (fun _ => Base) True := by
  unfold Ipc.receive
  split
  · exact inv.dropWith holds
  · exact .bind (inv.installCaps holds) fun _ _ rest =>
      .bind (inv.receivePages _ message rest) fun _ _ done => done

theorem recvTurn (port : PortId) (out : RecvMsg)
    (holds : Holds state caller (portRef port ::ₘ held)) :
    (recvTurn caller port out state).Meets (fun _ => Base) (fun _ => Base) True := by
  unfold Ipc.recvTurn
  rw [get_bind_apply, modify_bind_apply]
  cases queue : state.queues port with
  | nil => exact inv.leave (inv.park (inv.popEmpty holds queue))
  | cons message rest =>
    simp only [List.head?_cons, modify_bind_apply]
    exact .bind (inv.receive out message (inv.unpark (inv.pop holds queue)))
      fun _ _ done => done

theorem sysRecv (capId : CapId) (msgPtr : Nat) (out : RecvMsg) (entered : Holds state caller 0) :
    (sysRecv caller capId msgPtr out state).Meets (fun _ => Base) (fun _ => Base) True := by
  unfold Ipc.sysRecv
  split
  · exact inv.leave entered
  rw [get_bind_apply]
  refine .okOr (fun _ => inv.leave entered) fun cap found => ?_
  split
  · refine .okOr (fun _ => inv.leave entered) fun port isPort => ?_
    exact inv.recvTurn port out (inv.resolvePort entered found isPort)
  · exact inv.leave entered

theorem sysName (op namePtr : Nat) (nameBytes : ByteArray) (capId : CapId)
    (entered : Holds state caller 0) :
    (sysName caller op namePtr nameBytes capId state).Meets (fun _ => Base) (fun _ => Base)
      True := by
  unfold Ipc.sysName
  split
  · exact inv.leave entered
  refine .okOr (fun _ => inv.leave entered) fun name _ => ?_
  rw [get_bind_apply]
  split
  · refine .okOr (fun _ => inv.leave entered) fun cap found => ?_
    refine .okOr (fun _ => inv.leave entered) fun port isPort => ?_
    split
    · split
      · exact inv.leave entered
      · exact inv.leave (inv.publish (inv.resolvePort entered found isPort))
    · exact inv.leave entered
  · refine .okOr (fun _ => inv.leave entered) fun port registered => ?_
    have found : Holds state caller (.port port .sendOnly ::ₘ 0) :=
      inv.mint (inv.lookup entered registered) rfl
    exact (inv.installCap found).mono (fun _ _ => inv.leave) (fun _ _ => id) id
  · exact inv.leave entered

end Calls

/-! ## Runs -/

include inv

theorem perform (call : Call) (entered : Holds state caller 0) :
    (call.perform caller state).Meets (fun _ => Base) (fun _ => Base) True := by
  cases call with
  | portCreate => exact .bind (inv.sysPortCreate entered) fun _ _ done => done
  | capDrop capId => exact inv.sysCapDrop capId entered
  | capDup capId mask => exact .bind (inv.sysCapDup capId mask entered) fun _ _ done => done
  | send capId msgPtr msg => exact .bind (inv.sysSend capId msgPtr msg entered) fun _ _ done => done
  | recv capId msgPtr out => exact .bind (inv.sysRecv capId msgPtr out entered) fun _ _ done => done
  | name op namePtr nameBytes capId =>
    exact .bind (inv.sysName op namePtr nameBytes capId entered) fun _ _ done => done

theorem step {next : State} {event : Event} (base : Base state)
    (taken : Step state event next) : Base next := by
  cases taken with
  | call member _ ended => exact (inv.perform _ (inv.enter base member)).of_final ended
  | resume member parked ended =>
    exact (inv.recvTurn _ _ (inv.resume (inv.enter base member) parked)).of_final ended
  | spawn fresh => exact inv.spawn base fresh
  | closePort _ => exact inv.closePort base

theorem run {final : State} {events : List Event} (trace : Trace Step state events final)
    (base : Base state) : Base final :=
  trace.invariant Base inv.step base

end CapInvariant

end PersonaOS.Ipc
