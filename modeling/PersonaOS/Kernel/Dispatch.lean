import PersonaOS.Foundation.Blocks
import PersonaOS.Fs.Inode
import PersonaOS.Kernel.Kernel

/-! # The system-call dispatcher

Handlers reach into the caller's memory through the pointers among their arguments. Interrupts
are masked during a call and the address space of a task is its own, so the caller's memory
stays as it is while the call is parked.

The files and devices behind the handlers are a record of services over a state of their own.
None of them sees a user pointer; they are handed the bytes that were read, or return the bytes
to be written. -/

namespace PersonaOS

open Program Sched Ipc Fs

structure World (σ : Type) where
  kernel : Kernel
  system : σ
  /-- The bytes the calling task's page tables lead to. -/
  memory : Nat → UInt8

/-- Why a handler does not come to its last statement. -/
inductive Ended where
  /-- `return code` -/
  | returned (code : Int)
  /-- `current_exit` does not return. -/
  | exited
  /-- The task was still blocked after the given number of turns. -/
  | parked
  | panicked
  deriving DecidableEq, Repr

abbrev Handler (σ : Type) := Program (World σ) Ended

structure OpenFile (H : Type) where
  inode : H
  offset : Nat
  flags : Nat

/-- Files and devices. The records that are copied to user space as they are stand for
their bytes. -/
structure Services (σ H : Type) where
  inode : Inode σ H
  /-- `task.fds().lock().get(fd)` -/
  getFd : TaskId → (fd : Int) → σ → Option (OpenFile H)
  install : TaskId → OpenFile H → Program σ FsError Int
  close : TaskId → (fd : Int) → σ → Bool × σ
  setOffset : TaskId → (fd : Int) → (offset : Nat) → σ → σ
  /-- `fs::lookup` -/
  lookup : (path : String) → Program σ FsError H
  splitParent : (path : String) → Option (String × String)
  /-- `user::spawn_from_path`, with the child registered and enqueued. -/
  spawnFromPath : (path : String) → (parent : TaskId) → Program (Kernel × σ) PUnit TaskId
  displayInfo : σ → Option (Vector UInt32 5)
  displayClear : (color : UInt32) → σ → Int × σ
  displayFillRect : (x y width height color : UInt32) → σ → Int × σ
  drawText : (x y : UInt32) → List UInt8 → (color : UInt32) → σ → Int × σ
  pollEventByte : σ → Option UInt8 × σ
  netConfigure : σ → Vector UInt8 40 × σ
  netInfo : σ → Vector UInt8 40
  playTone : (freqHz durationMs : UInt32) → σ → Vector UInt32 4 × σ
  audioInfo : σ → Vector UInt32 4
  keys : PortKeys
  /-- What the other tasks do until the calling one runs again. -/
  resume : Kernel × σ → Kernel × σ

section Handlers

variable {σ H α : Type}

/-! ## User memory -/

def readUser (base length : Nat) : Handler σ (List UInt8) := fun world =>
  .ok (window world.memory base length) world

def writeUser (base : Nat) (bytes : List UInt8) : Handler σ PUnit := fun world =>
  .ok ⟨⟩ { world with memory := patch world.memory base bytes }

def asI32 (word : UInt64) : Int := word.toUInt32.toInt32.toInt

/-- The fields of a `SendMsg`: registers, `caps_ptr`, `ncaps`, `pages_va`, `pages_len`. -/
def sendMsgCodec : Codec (Regs × UInt64 × UInt64 × UInt64 × UInt64) :=
  .prod (.vector .u64 6) (.prod .u64 (.prod .u64 (.prod .u64 .u64)))

/-- The fields of a `RecvMsg`: registers, `caps_out`, `caps_max`, `ncaps`, `pages_va`,
`pages_len`. -/
def recvMsgCodec : Codec (Regs × UInt64 × UInt64 × UInt64 × UInt64 × UInt64) :=
  .prod (.vector .u64 6) (.prod .u64 (.prod .u64 (.prod .u64 (.prod .u64 .u64))))

/-- The `i32` numbers of an array of capability slots. -/
def decodeCapIds (bytes : List UInt8) (count : Nat) : List CapId :=
  (Codec.u32.vector count |>.decode bytes).toList.map fun word => word.toInt32.toInt

def encodeCapIds (ids : List CapId) : List UInt8 :=
  ids.flatMap fun id => Codec.u32.encode (Int32.ofInt id).toUInt32

def decodeRecvMsg (bytes : List UInt8) : RecvMsg :=
  let (regs, capsOut, capsMax, ncaps, pagesVa, pagesLen) := recvMsgCodec.decode bytes
  ⟨regs, capsOut.toNat, capsMax.toNat, ncaps.toNat, pagesVa.toNat, pagesLen.toNat⟩

def encodeRecvMsg (out : RecvMsg) : List UInt8 :=
  recvMsgCodec.encode (out.regs, .ofNat out.capsOut, .ofNat out.capsMax, .ofNat out.ncaps,
    .ofNat out.pagesVa, .ofNat out.pagesLen)

/-! ## Calls into the kernel -/

def ret (code : Int) : Handler σ α := throw (.returned code)

def fsErrToCode : FsError → Int
  | .notFound => -1
  | .notDir => -2
  | .notFile => -3
  | .exists_ => -4
  | .invalidPath => -5
  | .isDir => -6
  | .io => -7
  | .noSpace => -8
  | .badFd => -9
  | .unsupported => -10

def setKernel (kernel : Kernel) : Handler σ PUnit :=
  modify fun world => { world with kernel }

def onSystem (program : Program σ FsError α) : Handler σ α := fun world =>
  match program world.system with
  | .ok value system => .ok value { world with system }
  | .error error system => .error (.returned (fsErrToCode error)) { world with system }
  | .panic => .error .panicked world

def trySystem (program : Program σ FsError α) : Handler σ (Except FsError α) := fun world =>
  match program world.system with
  | .ok value system => .ok (.ok value) { world with system }
  | .error error system => .ok (.error error) { world with system }
  | .panic => .error .panicked world

def onDevice (call : σ → α × σ) : Handler σ α := fun world =>
  let (value, system) := call world.system
  .ok value { world with system }

def onIpc (program : Program Ipc.State Errno α) : Handler σ α := fun world =>
  match program world.kernel.ipc with
  | .ok value ipc => .ok value { world with kernel := { world.kernel with ipc } }
  | .error errno ipc =>
    .error (.returned errno.code) { world with kernel := { world.kernel with ipc } }
  | .panic => .error .panicked world

/-- `sched::current()`; every handler that asks returns -1 when there is none. -/
def currentTask : Handler σ TaskId := do
  let world ← get
  okOr world.kernel.sched.current (.returned (-1))

/-- `current_exit(code)` -/
def exit (code : Int) : Handler σ α := do
  modify fun world =>
    { world with kernel := { world.kernel with sched := world.kernel.sched.currentExit code } }
  throw .exited

variable (services : Services σ H)

/-- Give up the processor after a change to the scheduler, and come back when the task
runs again. -/
def switchAway (change : Scheduler → Scheduler) : Handler σ PUnit :=
  modify fun world =>
    let resumed := services.resume
      ({ world.kernel with sched := change world.kernel.sched }, world.system)
    { world with kernel := resumed.1, system := resumed.2 }

def openFileOf (task : TaskId) (fd : Int) : Handler σ (OpenFile H) := do
  let world ← get
  okOr (services.getFd task fd world.system) (.returned (fsErrToCode .badFd))

/-- `file.offset.fetch_add(n)` -/
def advance (task : TaskId) (fd : Int) (file : OpenFile H) (count : Nat) : Handler σ PUnit :=
  modify fun world => { world with
    system := services.setOffset task fd ((file.offset + count) % 2 ^ 64) world.system }

/-! ## Files -/

def maxIo : Nat := 4096

def sysWrite (fd : Int) (buf len : Nat) : Handler σ Int :=
  if maxIo < len ∨ buf = 0 then
    ret (-1)
  else do
    let task ← currentTask
    let file ← openFileOf services task fd
    let bytes ← readUser buf len
    let count ← onSystem (services.inode.writeAt file.inode file.offset bytes)
    advance services task fd file count
    return count

def sysRead (fd : Int) (buf len : Nat) : Handler σ Int :=
  if maxIo < len ∨ buf = 0 then
    ret (-1)
  else do
    let task ← currentTask
    let file ← openFileOf services task fd
    let bytes ← onSystem (services.inode.readAt file.inode file.offset len)
    writeUser buf (bytes.take len)
    advance services task fd file (bytes.take len).length
    return (bytes.take len).length

/-- The string at a pointer; `code` is returned when it is not UTF-8. -/
def readPath (ptr len : Nat) (code : Int) : Handler σ String := do
  let bytes ← readUser ptr len
  okOr (String.fromUTF8? ⟨bytes.toArray⟩) (.returned code)

/-- The inode to open, which `FD_CREATE` (bit 2) creates if its directory is there. -/
def openInode (path : String) (flags : Nat) : Handler σ H := do
  match ← trySystem (services.lookup path) with
  | .ok inode => return inode
  | .error error =>
    if flags.testBit 2 ∧ error = .notFound then do
      let (parent, name) ← okOr (services.splitParent path)
        (.returned (fsErrToCode .invalidPath))
      let dir ← onSystem (services.lookup parent)
      onSystem (services.inode.create dir name .file)
    else
      ret (fsErrToCode error)

def sysOpen (ptr len flags : Nat) : Handler σ Int :=
  if len = 0 ∨ 256 < len ∨ ptr = 0 then
    ret (-1)
  else do
    let path ← readPath ptr len (fsErrToCode .invalidPath)
    let inode ← openInode services path flags
    let task ← currentTask
    onSystem (services.install task ⟨inode, 0, flags⟩)

def sysClose (fd : Int) : Handler σ Int := do
  let task ← currentTask
  if ← onDevice (services.close task fd) then
    return 0
  else
    return fsErrToCode .badFd

/-- `checked_add` of the debug build: an `i64` sum that overflows panics. -/
def addI64 (left right : Int) : Handler σ Int :=
  if -2 ^ 63 ≤ left + right ∧ left + right < 2 ^ 63 then
    pure (left + right)
  else
    throw .panicked

/-- `x as i64` -/
def asI64 (value : Nat) : Int := (UInt64.ofNat value).toInt64.toInt

def seekTarget (file : OpenFile H) (off : Int) (whence : Nat) : Handler σ Int := do
  let world ← get
  match whence with
  | 0 => return off
  | 1 => addI64 (asI64 file.offset) off
  | 2 => addI64 (asI64 (services.inode.size file.inode world.system)) off
  | _ => ret (-1)

def sysLseek (fd : Int) (off : Int) (whence : Nat) : Handler σ Int := do
  let task ← currentTask
  let file ← openFileOf services task fd
  let target ← seekTarget services file off whence
  modify fun world => { world with
    system := services.setOffset task fd (max target 0).toNat world.system }
  return max target 0

def sysFstat (fd : Int) (buf : Nat) : Handler σ Int :=
  if buf = 0 then
    ret (-1)
  else do
    let task ← currentTask
    let file ← openFileOf services task fd
    let world ← get
    let kind := match services.inode.kind file.inode world.system with
      | .file => 0
      | .dir => 1
    writeUser buf (leBytes 8 (services.inode.size file.inode world.system))
    writeUser (buf + 8) (leBytes 4 kind)
    writeUser (buf + 12) (leBytes 4 0)
    return 0

/-! ## Tasks -/

def sysSpawn (ptr len : Nat) : Handler σ Int :=
  if len = 0 ∨ 256 < len ∨ ptr = 0 then
    ret (-1)
  else do
    let path ← readPath ptr len (-1)
    let parent ← currentTask
    let world ← get
    match services.spawnFromPath path parent (world.kernel, world.system) with
    | .ok child after => do
        modify fun world => { world with kernel := after.1, system := after.2 }
        return child
    | .error _ after => do
        modify fun world => { world with kernel := after.1, system := after.2 }
        ret (-1)
    | .panic => throw .panicked

/-- `if !status_ptr.is_null() { write_unaligned(status_ptr, code) }` -/
def writeStatus (statusPtr : Nat) (code : Int) : Handler σ PUnit :=
  if statusPtr = 0 then
    pure ⟨⟩
  else
    writeUser statusPtr (Codec.u32.encode (Int32.ofInt code).toUInt32)

def waitLoop (parent pid statusPtr flags : Nat) : (turns : Nat) → Handler σ Int
  | 0 => throw .parked
  | turns + 1 => do
    let world ← get
    match world.kernel.sched.findExitedChild parent pid with
    | some (exited, code) => do
        writeStatus statusPtr code
        return exited
    | none =>
      -- `WNOHANG` is bit 0.
      if flags.testBit 0 then
        return 0
      else do
        switchAway services (·.blockOn (Scheduler.waitKey parent))
        waitLoop parent pid statusPtr flags turns

def sysWaitpid (turns pid statusPtr flags : Nat) : Handler σ Int := do
  let parent ← currentTask
  let world ← get
  if world.kernel.sched.hasChild parent pid then
    waitLoop services parent pid statusPtr flags turns
  else
    ret (-1)

def sysKill (pid : TaskId) (code : Int) : Handler σ Int := do
  let caller ← currentTask
  if pid = caller then
    exit code
  else do
    let world ← get
    setKernel { world.kernel with sched := world.kernel.sched.sysKill pid code }
    if (caller = 2 ∨ world.kernel.sched.isChild caller pid) ∧
        (world.kernel.sched.findTask pid).isSome then
      return 0
    else
      return -1

/-! ## Devices -/

/-- The handlers that fill in a record: a null pointer is refused, and so is a record that
is not there. -/
def writeInfo (ptr : Nat) (info : Handler σ (Option (List UInt8))) : Handler σ Int :=
  if ptr = 0 then
    ret (-1)
  else do
    match ← info with
    | some bytes => do
        writeUser ptr bytes
        return 0
    | none => ret (-1)

def sysDisplayInfo (ptr : Nat) : Handler σ Int :=
  writeInfo ptr do
    let world ← get
    return (services.displayInfo world.system).map (Codec.u32.vector 5).encode

def sysNetConfigure (ptr : Nat) : Handler σ Int :=
  writeInfo ptr do
    let info ← onDevice services.netConfigure
    return some info.toList

def sysNetInfo (ptr : Nat) : Handler σ Int :=
  writeInfo ptr do
    let world ← get
    return some (services.netInfo world.system).toList

def sysAudioPlayTone (freqHz durationMs : UInt32) (ptr : Nat) : Handler σ Int :=
  writeInfo ptr do
    let info ← onDevice (services.playTone freqHz durationMs)
    return some ((Codec.u32.vector 4).encode info)

def sysAudioInfo (ptr : Nat) : Handler σ Int :=
  writeInfo ptr do
    let world ← get
    return some ((Codec.u32.vector 4).encode (services.audioInfo world.system))

def sysDisplayDrawText (x y : UInt32) (buf len : Nat) (color : UInt32) : Handler σ Int :=
  if maxIo < len ∨ buf = 0 then
    ret (-1)
  else do
    let world ← get
    match services.displayInfo world.system with
    | none => return -1
    | some _ => do
        let bytes ← readUser buf len
        onDevice (services.drawText x y bytes color)

/-! ## IPC -/

def dispatchSend (capId : CapId) (msgPtr : Nat) : Handler σ Int :=
  if msgPtr = 0 then
    ret Errno.efault.code
  else do
    let bytes ← readUser msgPtr sendMsgCodec.size
    let (regs, capsPtr, ncaps, pagesVa, pagesLen) := sendMsgCodec.decode bytes
    if maxCaps < ncaps.toNat then
      ret Errno.e2big.code
    else do
      let task ← currentTask
      -- A null `caps_ptr` is refused by `sysSend`, where nothing was done with these bytes.
      let slots ← readUser capsPtr.toNat (4 * ncaps.toNat)
      let woken ← onIpc (sysSend task capId msgPtr
        ⟨regs, capsPtr.toNat, decodeCapIds slots ncaps.toNat, pagesVa.toNat, pagesLen.toNat⟩)
      modify fun world => { world with kernel := { world.kernel with
        sched := world.kernel.sched.wakeAll (services.keys.key woken) } }
      return 0

/-- The port of a capability, for a `sys_recv` to wait at. -/
def recvPort (task : TaskId) (capId : CapId) : Program Ipc.State Errno PortId := do
  let state ← get
  let cap ← okOr ((state.tables task).get capId) .ebadf
  if cap.rights.recv then
    okOr cap.asPort .einval
  else
    throw .eperm

/-- `loop { if let Some(m) = port.pop() { break m; } block_on(port.wait_key()) }` -/
def popLoop (task : TaskId) (port : PortId) : (turns : Nat) → Handler σ Message
  | 0 => throw .parked
  | turns + 1 => do
    let world ← get
    onIpc (modify fun state => state.pop task port)
    match (world.kernel.ipc.queues port).head? with
    | some message => return message
    | none => do
        switchAway services (·.blockOn (services.keys.key port))
        popLoop task port turns

def deliverCaps (task : TaskId) (out : RecvMsg) (message : Message) : Handler σ PUnit :=
  if message.caps = [] then
    pure ⟨⟩
  else if out.capsOut = 0 ∨ out.capsMax < message.caps.length then
    onIpc (dropWith message .e2big)
  else do
    let ids ← onIpc (installCaps task message.caps)
    writeUser out.capsOut (encodeCapIds ids)

def dispatchRecv (turns : Nat) (capId : CapId) (msgPtr : Nat) : Handler σ Int :=
  if msgPtr = 0 then
    ret Errno.efault.code
  else do
    let task ← currentTask
    let port ← onIpc (recvPort task capId)
    let message ← popLoop services task port turns
    let bytes ← readUser msgPtr recvMsgCodec.size
    let out := decodeRecvMsg bytes
    deliverCaps task out message
    let filled ← onIpc (receivePages task
      { out with regs := message.regs, ncaps := message.caps.length } message)
    writeUser msgPtr (encodeRecvMsg filled)
    return 0

def dispatchName (op ptr len : Nat) (capId : CapId) : Handler σ Int :=
  if ptr = 0 ∨ len = 0 ∨ nameMax < len then
    ret Errno.einval.code
  else do
    let bytes ← readUser ptr len
    let _ ← okOr (String.fromUTF8? ⟨bytes.toArray⟩) (.returned Errno.einval.code)
    let task ← currentTask
    onIpc (sysName task op ptr ⟨bytes.toArray⟩ capId)

/-! ## Dispatch -/

/-- An early `return` is a return like any other. -/
def returning (handler : Handler σ Int) : Handler σ Int := fun world =>
  match handler world with
  | .error (.returned code) after => .ok code after
  | outcome => outcome

def handlerOf (turns : Nat) (a0 a1 a2 a3 a4 : UInt64) : (num : Nat) → Handler σ Int
  | 0 => sysWrite services (asI32 a0) a1.toNat a2.toNat
  | 1 => exit (asI32 a0)
  | 2 => do
      switchAway services (·.schedule)
      return 0
  | 3 => do
      let world ← get
      return (world.kernel.sched.current.getD 0 : Nat)
  | 4 => sysOpen services a0.toNat a1.toNat a2.toUInt32.toNat
  | 5 => sysRead services (asI32 a0) a1.toNat a2.toNat
  | 6 => sysClose services (asI32 a0)
  | 7 => sysLseek services (asI32 a0) a1.toInt64.toInt a2.toNat
  | 8 => sysFstat services (asI32 a0) a1.toNat
  | 9 => do
      let task ← currentTask
      onIpc (sysPortCreate task)
  | 10 => dispatchSend services (asI32 a0) a1.toNat
  | 11 => dispatchRecv services turns (asI32 a0) a1.toNat
  | 12 => do
      let task ← currentTask
      onIpc (sysCapDrop task (asI32 a0))
      return 0
  | 13 => do
      let task ← currentTask
      onIpc (sysCapDup task (asI32 a0) a1.toUInt32.toNat)
  | 14 => dispatchName a0.toUInt32.toNat a1.toNat a2.toNat (asI32 a3)
  | 15 => sysSpawn services a0.toNat a1.toNat
  | 16 => sysWaitpid services turns a0.toNat a1.toNat a2.toNat
  | 17 => sysKill a0.toNat (asI32 a1)
  | 18 => sysDisplayInfo services a0.toNat
  | 19 => onDevice (services.displayClear a0.toUInt32)
  | 20 => onDevice (services.displayFillRect a0.toUInt32 a1.toUInt32 a2.toUInt32 a3.toUInt32
      a4.toUInt32)
  | 21 => sysDisplayDrawText services a0.toUInt32 a1.toUInt32 a2.toNat a3.toNat a4.toUInt32
  | 22 => do
      let byte ← onDevice services.pollEventByte
      return (byte.getD 0).toNat
  | 23 => sysNetConfigure services a0.toNat
  | 24 => sysNetInfo services a0.toNat
  | 25 => sysAudioPlayTone services a0.toUInt32 a1.toUInt32 a2.toNat
  | 26 => sysAudioInfo services a0.toNat
  | _ => return -1

/-- `dispatch`; a call that blocks is followed for `turns` turns of its loop. -/
def dispatch (turns : Nat) (a0 a1 a2 a3 a4 _a5 num : UInt64) : Handler σ Int :=
  returning (handlerOf services turns a0 a1 a2 a3 a4 num.toNat)

end Handlers

end PersonaOS
