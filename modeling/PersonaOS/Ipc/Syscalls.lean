import PersonaOS.Ipc.Cap
import PersonaOS.Mm.Vmm
import PersonaOS.Sched.Scheduler

/-! # Ports, messages and the IPC system calls

A message carries registers, capabilities moved out of the sender's table and frames stolen from
the sender's address space. The system calls below follow the source statement by statement,
error returns included: an error leaves in place whatever was moved before it, and a message
that is dropped on the way frees its frames and loses its capabilities.

Buffers in user memory are arguments: `SendMsg` is what is read through `msg_ptr` and
`caps_ptr`, `RecvMsg` what is read through and written back to `msg_ptr`. -/

namespace PersonaOS.Ipc

open Program Mm Sched

inductive Errno where
  | eperm
  | enoent
  | efault
  | einval
  | eagain
  | enomem
  | eexist
  | ebadf
  | e2big
  deriving DecidableEq, Repr

def Errno.code : Errno → Int
  | .eperm => -1
  | .enoent => -2
  | .efault => -14
  | .einval => -22
  | .eagain => -11
  | .enomem => -12
  | .eexist => -17
  | .ebadf => -9
  | .e2big => -7

/-- The inline payload: six `u64` registers. -/
abbrev Regs := Vector UInt64 6

def maxInFlight : Nat := 16

def maxCaps : Nat := 8

def nameMax : Nat := 64

structure Message where
  regs : Regs
  caps : List Cap
  /-- Physical addresses of the frames the message owns. -/
  pages : List Nat
  len : Nat

structure SendMsg where
  regs : Regs
  capsPtr : Nat
  /-- The `ncaps` slot numbers at `capsPtr`. -/
  capIds : List CapId
  pagesVa : Nat
  pagesLen : Nat

structure RecvMsg where
  regs : Regs
  capsOut : Nat
  capsMax : Nat
  ncaps : Nat
  pagesVa : Nat
  pagesLen : Nat

/-- `for phys in pages.drain(..) { pmm::free_frame(phys) }` -/
def freePages (machine : Machine) (pages : List Nat) : Machine :=
  pages.foldl (fun machine phys => machine.freeFrame (phys / 4096)) machine

/-! ## The state -/

/-- What was done to ports, and by whom. The kernel keeps no such record; it is there to
state who ever touched a port. -/
inductive Audit where
  | created (task : TaskId) (port : PortId)
  | pushed (task : TaskId) (port : PortId) (message : Message)
  | refused (task : TaskId) (port : PortId)
  | popped (task : TaskId) (port : PortId)
  | published (task : TaskId) (port : PortId)

structure State where
  tasks : Finset TaskId
  tables : TaskId → CapTable
  /-- The number of ports created so far. -/
  ports : Nat
  queues : PortId → List Message
  registry : AList fun _ : String => PortId
  /-- The top-level page table of each task that has an address space. -/
  spaces : TaskId → Option Frame
  machine : Machine
  /-- The port whose next message a parked `sys_recv` waits for. -/
  receiving : TaskId → Option PortId
  audit : List Audit

namespace State

def setTable (state : State) (task : TaskId) (table : CapTable) : State :=
  { state with tables := Function.update state.tables task table }

def setMachine (state : State) (machine : Machine) : State := { state with machine }

/-- `Port::new` -/
def createPort (state : State) (task : TaskId) : State :=
  { state with
    ports := state.ports + 1
    queues := Function.update state.queues state.ports []
    audit := state.audit ++ [.created task state.ports] }

/-- The accepting half of `Port::try_push`. -/
def push (state : State) (task : TaskId) (port : PortId) (message : Message) : State :=
  { state with
    queues := Function.update state.queues port (state.queues port ++ [message])
    audit := state.audit ++ [.pushed task port message] }

/-- The refusing half of `Port::try_push`. -/
def refuse (state : State) (task : TaskId) (port : PortId) : State :=
  { state with audit := state.audit ++ [.refused task port] }

/-- `Port::pop` -/
def pop (state : State) (task : TaskId) (port : PortId) : State :=
  { state with
    queues := Function.update state.queues port (state.queues port).tail
    audit := state.audit ++ [.popped task port] }

def setReceiving (state : State) (task : TaskId) (port : Option PortId) : State :=
  { state with receiving := Function.update state.receiving task port }

/-- The inserting half of `registry::publish`. -/
def publish (state : State) (task : TaskId) (name : String) (port : PortId) : State :=
  { state with
    registry := state.registry.insert name port
    audit := state.audit ++ [.published task port] }

theorem tables_setTable (state : State) (task other : TaskId) (table : CapTable) :
    (state.setTable task table).tables other = if other = task then table
      else state.tables other := by
  simp [setTable, Function.update_apply]

theorem queues_createPort (state : State) (task : TaskId) (other : PortId) :
    (state.createPort task).queues other = if other = state.ports then []
      else state.queues other := by
  simp [createPort, Function.update_apply]

theorem queues_push (state : State) (task : TaskId) (port other : PortId)
    (message : Message) :
    (state.push task port message).queues other =
      if other = port then state.queues port ++ [message] else state.queues other := by
  simp [push, Function.update_apply]

theorem queues_pop (state : State) (task : TaskId) (port other : PortId) :
    (state.pop task port).queues other =
      if other = port then (state.queues port).tail else state.queues other := by
  simp [pop, Function.update_apply]

theorem receiving_setReceiving (state : State) (task other : TaskId) (port : Option PortId) :
    (state.setReceiving task port).receiving other =
      if other = task then port else state.receiving other := by
  simp [setReceiving, Function.update_apply]

theorem lookup_publish (state : State) (task : TaskId) (name other : String) (port : PortId) :
    (state.publish task name port).registry.lookup other =
      if other = name then some port else state.registry.lookup other := by
  unfold publish
  split
  · next same => rw [same, AList.lookup_insert]
  · next different => rw [AList.lookup_insert_ne different]

/-- `Drop for Message` -/
def dropMessage (state : State) (message : Message) : State :=
  state.setMachine (freePages state.machine message.pages)

end State

/-! ## Building blocks -/

/-- `task.caps().lock().install(cap)` -/
def installCap (task : TaskId) (cap : Cap) : Program State Errno CapId := fun state =>
  match (state.tables task).install cap with
  | some (id, table) => .ok id (state.setTable task table)
  | none => .panic

/-- `for c in caps { tbl.install(c) }` -/
def installCaps (task : TaskId) : List Cap → Program State Errno (List CapId)
  | [] => pure []
  | cap :: caps => do
    let id ← installCap task cap
    let ids ← installCaps task caps
    return id :: ids

/-- `for &id in slice { if let Some(c) = tbl.remove(id) { xferred_caps.push(c) } }` -/
def removeCaps (task : TaskId) : List CapId → Program State Errno (List Cap)
  | [] => pure []
  | id :: ids => do
    let state ← get
    let (removed, table) := (state.tables task).remove id
    modify fun state => state.setTable task table
    let caps ← removeCaps task ids
    return removed.toList ++ caps

def onMachine {α : Type} (program : Program Machine MapError α) :
    Program State Errno (Except MapError α) := fun state =>
  match program state.machine with
  | .ok value machine => .ok (.ok value) (state.setMachine machine)
  | .error error machine => .ok (.error error) (state.setMachine machine)
  | .panic => .panic

def dropWith {α : Type} (message : Message) (errno : Errno) : Program State Errno α := do
  modify fun state => state.dropMessage message
  throw errno

/-! ## Creating, dropping and duplicating capabilities -/

def sysPortCreate (task : TaskId) : Program State Errno CapId := do
  let state ← get
  modify fun state => state.createPort task
  installCap task (.port state.ports .all)

def sysCapDrop (task : TaskId) (capId : CapId) : Program State Errno PUnit := do
  let state ← get
  match (state.tables task).remove capId with
  | (some _, table) => modify fun state => state.setTable task table
  | (none, _) => throw .ebadf

/-- `RECV` cannot be duplicated: the copy never has it. -/
def sysCapDup (task : TaskId) (capId : CapId) (mask : Nat) : Program State Errno CapId := do
  let state ← get
  let cap ← okOr ((state.tables task).get capId) .ebadf
  if cap.rights.dup then
    let port ← okOr cap.asPort .einval
    let requested := Rights.fromBitsTruncate mask
    installCap task (.port port (cap.rights.inter requested).withoutRecv)
  else
    throw .eperm

/-! ## Sending -/

/-- Move the named capabilities out of the sender's table. All of them are looked up
before the first one is moved. -/
def takeCaps (task : TaskId) (msg : SendMsg) : Program State Errno (List Cap) :=
  if msg.capIds = [] then
    pure []
  else if msg.capsPtr = 0 then
    throw .efault
  else do
    let state ← get
    if msg.capIds.all fun id => ((state.tables task).get id).isSome then
      removeCaps task msg.capIds
    else
      throw .ebadf

/-- Steal the payload pages. The moved capabilities go back to the sender when the range
is malformed or has a hole, but not when the sender has no address space. -/
def takePages (task : TaskId) (msg : SendMsg) (caps : List Cap) :
    Program State Errno (List Nat × Nat) :=
  if 0 < msg.pagesLen then
    if msg.pagesVa = 0 ∨ msg.pagesVa &&& 0xFFF ≠ 0 ∨ msg.pagesLen &&& 0xFFF ≠ 0 then do
      let _ ← installCaps task caps
      throw .einval
    else do
      let state ← get
      match state.spaces task with
      | none => throw .eperm
      | some pml4 =>
        match ← onMachine (stealPages pml4 msg.pagesVa (msg.pagesLen / 4096)) with
        | .ok pages => return (pages, msg.pagesLen)
        | .error _ => do
          let _ ← installCaps task caps
          throw .efault
  else
    pure ([], 0)

/-- `Port::try_push`, and what `sys_send` does with its answer: a refused message is
dropped with all it carries. Returns the port whose waiters are to be woken. -/
def tryPush (task : TaskId) (port : PortId) (message : Message) :
    Program State Errno PortId := do
  let state ← get
  if maxInFlight ≤ (state.queues port).length then
    modify fun state => state.refuse task port
    dropWith message .eagain
  else
    modify fun state => state.push task port message
    return port

def sysSend (task : TaskId) (capId : CapId) (msgPtr : Nat) (msg : SendMsg) :
    Program State Errno PortId :=
  if msgPtr = 0 then
    throw .efault
  else if maxCaps < msg.capIds.length then
    throw .e2big
  else do
    let state ← get
    let sendCap ← okOr ((state.tables task).get capId) .ebadf
    if sendCap.rights.send then
      let port ← okOr sendCap.asPort .einval
      let caps ← takeCaps task msg
      let (pages, len) ← takePages task msg caps
      tryPush task port ⟨msg.regs, caps, pages, len⟩
    else
      throw .eperm

/-! ## Receiving -/

structure Delivery where
  out : RecvMsg
  capIds : List CapId

/-- Map the payload pages into the receiver's IPC window. Any failure drops the message,
which frees all of its frames. -/
def receivePages (task : TaskId) (out : RecvMsg) (message : Message) :
    Program State Errno RecvMsg :=
  if 0 < message.len then do
    let state ← get
    match state.spaces task with
    | none => dropWith message .eperm
    | some pml4 =>
      match findUserVmRange state.machine.memory pml4 ((message.len + 4095) / 4096) with
      | none => dropWith message .enomem
      | some va =>
        match ← onMachine (installPages pml4 va message.pages) with
        | .ok _ => return { out with pagesVa := va, pagesLen := message.len }
        | .error _ => dropWith message .enomem
  else do
    modify fun state => state.dropMessage message
    return { out with pagesVa := 0, pagesLen := 0 }

def receive (task : TaskId) (out : RecvMsg) (message : Message) :
    Program State Errno Delivery :=
  if message.caps ≠ [] ∧ (out.capsOut = 0 ∨ out.capsMax < message.caps.length) then
    dropWith message .e2big
  else do
    let capIds ← installCaps task message.caps
    let out ← receivePages task
      { out with regs := message.regs, ncaps := message.caps.length } message
    return ⟨out, capIds⟩

inductive RecvResult where
  /-- The queue was empty: the task parks under the port's wait key. -/
  | blocked (port : PortId)
  | delivered (delivery : Delivery)

/-- One turn of the loop of `sys_recv`, and all that follows it if there is a message. -/
def recvTurn (task : TaskId) (port : PortId) (out : RecvMsg) :
    Program State Errno RecvResult := do
  let state ← get
  modify fun state => state.pop task port
  match (state.queues port).head? with
  | none =>
    modify fun state => state.setReceiving task (some port)
    return .blocked port
  | some message =>
    modify fun state => state.setReceiving task none
    let delivery ← receive task out message
    return .delivered delivery

def sysRecv (task : TaskId) (capId : CapId) (msgPtr : Nat) (out : RecvMsg) :
    Program State Errno RecvResult :=
  if msgPtr = 0 then
    throw .efault
  else do
    let state ← get
    let recvCap ← okOr ((state.tables task).get capId) .ebadf
    if recvCap.rights.recv then
      let port ← okOr recvCap.asPort .einval
      recvTurn task port out
    else
      throw .eperm

/-! ## The name service -/

/-- `ipc_name`: 0 publishes, 1 looks up. A publication returns 0, a lookup a new slot. -/
def sysName (task : TaskId) (op namePtr : Nat) (nameBytes : ByteArray) (capId : CapId) :
    Program State Errno CapId :=
  if namePtr = 0 ∨ nameBytes.size = 0 ∨ nameMax < nameBytes.size then
    throw .einval
  else do
    let name ← okOr (String.fromUTF8? nameBytes) .einval
    let state ← get
    match op with
    | 0 => do
        let cap ← okOr ((state.tables task).get capId) .ebadf
        let port ← okOr cap.asPort .einval
        if (state.tables task).hasRegistrar then
          if name ∈ state.registry then
            throw .eexist
          else
            modify fun state => state.publish task name port
            return 0
        else
          throw .eperm
    | 1 => do
        let port ← okOr (state.registry.lookup name) .enoent
        installCap task (.port port .sendOnly)
    | _ => throw .einval

end PersonaOS.Ipc
