import PersonaOS.Ipc.CapFlow
import PersonaOS.Sched.Waiting

/-! # The kernel as the tasks see it

The scheduler and the IPC layer together, with the system calls that block. Interrupts
are masked during a system call, so a call runs without interruption up to its next
`block_on`. What a parked call will do when its task runs again is kept beside the
queues: the port of a parked `sys_recv` in the IPC state, the selector of a parked
`sys_waitpid` in `waiting`. -/

namespace PersonaOS

open Sched Ipc Mm

/-- The addresses of the port objects, which serve as their wait keys: one for each
port, in the upper half of the address space like the rest of the kernel heap. -/
structure PortKeys where
  key : PortId → WaitKey
  injective : Function.Injective key
  high : ∀ port, 2 ^ 63 ≤ key port

structure Kernel where
  sched : Scheduler
  ipc : Ipc.State
  /-- The child selector of a parked `sys_waitpid`; 0 stands for any child. -/
  waiting : TaskId → Option TaskId

namespace Kernel

def boot (space : Option Frame) (machine : Machine) : Kernel where
  sched := .boot
  ipc := .boot space machine
  waiting _ := none

def setWaiting (kernel : Kernel) (task : TaskId) (sel : Option TaskId) : Kernel :=
  { kernel with waiting := Function.update kernel.waiting task sel }

/-! ## System calls -/

/-- `sys_send` wakes the receivers of the port it pushed to. -/
def afterSend (keys : PortKeys) (kernel : Kernel) :
    Outcome Ipc.State Errno PortId → Option Kernel
  | .ok port ipc => some { kernel with ipc, sched := kernel.sched.wakeAll (keys.key port) }
  | .error _ ipc => some { kernel with ipc }
  | .panic => none

/-- `sys_recv` parks under the port it found empty. -/
def afterRecv (keys : PortKeys) (kernel : Kernel) :
    Outcome Ipc.State Errno RecvResult → Option Kernel
  | .ok (.blocked port) ipc =>
    some { kernel with ipc, sched := kernel.sched.blockOn (keys.key port) }
  | .ok (.delivered _) ipc => some { kernel with ipc }
  | .error _ ipc => some { kernel with ipc }
  | .panic => none

def ipcCall (keys : PortKeys) (kernel : Kernel) (caller : TaskId) : Ipc.Call → Option Kernel
  | .send capId msgPtr msg => kernel.afterSend keys (sysSend caller capId msgPtr msg kernel.ipc)
  | .recv capId msgPtr out => kernel.afterRecv keys (sysRecv caller capId msgPtr out kernel.ipc)
  | call => (call.perform caller kernel.ipc).final.map fun ipc => { kernel with ipc }

/-- One turn of the loop of `sys_waitpid`. -/
def waitTurn (kernel : Kernel) (caller sel flags : Nat) : Kernel :=
  match kernel.sched.findExitedChild caller sel with
  | some _ => kernel.setWaiting caller none
  | none =>
    -- `WNOHANG` is bit 0.
    if flags &&& 1 ≠ 0 then kernel.setWaiting caller none
    else
      { kernel.setWaiting caller (some sel) with
        sched := kernel.sched.blockOn (Scheduler.waitKey caller) }

def sysWaitpid (kernel : Kernel) (caller sel flags : Nat) : Kernel :=
  if kernel.sched.hasChild caller sel then kernel.waitTurn caller sel flags else kernel

def spawn (kernel : Kernel) (caller : TaskId) (space : Option Frame) (machine : Machine) :
    Kernel where
  sched := kernel.sched.spawn caller
  ipc := kernel.ipc.spawn kernel.sched.nextId space machine
  waiting := Function.update kernel.waiting kernel.sched.nextId none

/-- Every task object owns a kernel stack of 16 KiB on the kernel heap of 4 MiB, and
none is ever freed; a spawn for which there is no room panics. -/
def RoomForStack (kernel : Kernel) : Prop :=
  (kernel.sched.tasks.length + 1) * (16 * 1024) ≤ 4 * 1024 * 1024

def Free (kernel : Kernel) (task : TaskId) : Prop :=
  kernel.ipc.receiving task = none ∧ kernel.waiting task = none

/-! ## Steps -/

inductive Event where
  | ipc (call : Ipc.Call)
  | resumeRecv (out : RecvMsg)
  | waitpid (sel flags : Nat)
  | resumeWait
  | exit (code : Int)
  | kill (pid : TaskId) (code : Int)
  | spawn (space : Option Frame) (machine : Machine)
  | yield
  | tick
  | closePort (port : PortId)

/-- The steps of the current task, the timer, and the disposal of dead ports. -/
inductive Step (keys : PortKeys) : Kernel → Event → Kernel → Prop
  | ipc {kernel next caller call} :
      kernel.sched.current = some caller → kernel.Free caller →
      kernel.ipcCall keys caller call = some next →
      Step keys kernel (.ipc call) next
  | resumeRecv {kernel next caller port out} :
      kernel.sched.current = some caller → kernel.ipc.receiving caller = some port →
      kernel.afterRecv keys (recvTurn caller port out kernel.ipc) = some next →
      Step keys kernel (.resumeRecv out) next
  | waitpid {kernel caller sel flags} :
      kernel.sched.current = some caller → kernel.Free caller →
      Step keys kernel (.waitpid sel flags) (kernel.sysWaitpid caller sel flags)
  | resumeWait {kernel caller sel} :
      kernel.sched.current = some caller → kernel.waiting caller = some sel →
      Step keys kernel .resumeWait (kernel.waitTurn caller sel 0)
  | exit {kernel caller code} :
      kernel.sched.current = some caller → kernel.Free caller →
      Step keys kernel (.exit code) { kernel with sched := kernel.sched.currentExit code }
  | kill {kernel caller pid code} :
      kernel.sched.current = some caller → kernel.Free caller →
      Step keys kernel (.kill pid code) { kernel with sched := kernel.sched.sysKill pid code }
  | spawn {kernel caller space machine} :
      kernel.sched.current = some caller → kernel.Free caller → kernel.RoomForStack →
      Step keys kernel (.spawn space machine) (kernel.spawn caller space machine)
  | yield {kernel caller} :
      kernel.sched.current = some caller → kernel.Free caller →
      Step keys kernel .yield { kernel with sched := kernel.sched.schedule }
  | tick {kernel} :
      Step keys kernel .tick { kernel with sched := kernel.sched.schedule }
  | closePort {kernel port} :
      kernel.ipc.Unreferenced port →
      Step keys kernel (.closePort port) { kernel with ipc := kernel.ipc.closePort port }

end Kernel

end PersonaOS
