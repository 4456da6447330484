import PersonaOS.Kernel.Dispatch

/-! # Handlers and steps

The handlers that may have to wait, for a message or a child, do to the kernel what its steps
say. The steps note down which call a task is parked in, where the handlers keep it on their
stacks. -/

namespace PersonaOS

open Program Sched Ipc

namespace Kernel

/-- The kernel without the notes on parked calls -/
def forget (kernel : Kernel) : Kernel where
  sched := kernel.sched
  ipc := { kernel.ipc with receiving := fun _ => none }
  waiting _ := none

def StepsTo (keys : PortKeys) (kernel : Kernel) (event : Event) (after : Kernel) : Prop :=
  ∃ next, Step keys kernel event next ∧ next.forget = after.forget

end Kernel

section Takes

variable {σ H : Type} {services : Services σ H} {world : World σ} {caller : TaskId}

/-- How a handler ends that takes this step in its first turn. A handler that has to wait leaves
the kernel to the other tasks as the step does. -/
def Takes (services : Services σ H) (world : World σ) (event : Kernel.Event)
    (outcome : Outcome (World σ) Ended Int) : Prop :=
  outcome.Meets (fun _ after => world.kernel.StepsTo services.keys event after.kernel)
    (fun ended after => match ended with
      | .panicked => True
      | .parked => ∃ parked, world.kernel.StepsTo services.keys event parked ∧
          (after.kernel, after.system) = services.resume (parked, world.system)
      | _ => world.kernel.StepsTo services.keys event after.kernel) False

theorem currentTask_apply (isCurrent : world.kernel.sched.current = some caller) :
    currentTask world = .ok caller world := by
  rw [currentTask, get_bind_apply, isCurrent, okOr_some, pure_apply]

theorem writeStatus_kernel (statusPtr : Nat) (code : Int) {error : Ended → World σ → Prop}
    {panics : Prop} : (writeStatus statusPtr code world).Meets
      (fun _ after => after.kernel = world.kernel) error panics := by
  unfold writeStatus
  split
  · exact rfl
  · exact rfl

theorem sysWaitpid_takes (isCurrent : world.kernel.sched.current = some caller)
    (free : world.kernel.Free caller) (sel statusPtr flags : Nat) :
    Takes services world (.waitpid sel flags)
      (sysWaitpid services 1 sel statusPtr flags world) := by
  have step : Kernel.Step services.keys world.kernel (.waitpid sel flags)
      (world.kernel.sysWaitpid caller sel flags) := .waitpid isCurrent free
  have isBit : flags.testBit 0 = true ↔ flags &&& 1 ≠ 0 := by
    rw [Nat.testBit_zero, Nat.and_one_is_mod, decide_eq_true_iff]
    omega
  unfold sysWaitpid
  rw [bind_apply, currentTask_apply isCurrent]
  simp only [get_bind_apply]
  rw [Kernel.sysWaitpid] at step
  split
  · next hasChild =>
    rw [if_pos hasChild, Kernel.waitTurn] at step
    simp only [waitLoop, get_bind_apply]
    cases found : world.kernel.sched.findExitedChild caller sel with
    | some exit =>
      simp only [found] at step
      refine Outcome.Meets.bind (writeStatus_kernel statusPtr exit.2) fun _ after same => ?_
      exact ⟨_, step, by rw [same]; rfl⟩
    | none =>
      simp only [found] at step
      by_cases noHang : flags.testBit 0 = true
      · rw [if_pos (isBit.mp noHang)] at step
        simp only [if_pos noHang]
        exact ⟨_, step, rfl⟩
      · rw [if_neg (mt isBit.mpr noHang)] at step
        simp only [if_neg noHang]
        refine ⟨_, ?_, rfl⟩
        exact ⟨_, step, rfl⟩
  · next childless =>
    rw [if_neg childless] at step
    exact ⟨_, step, rfl⟩

/-! ## Messages -/

theorem Takes.onIpc {event : Kernel.Event} {α : Type} {program : Program Ipc.State Errno α}
    {next : α → Handler σ Int} {current : World σ}
    (failed : ∀ errno ipc, program current.kernel.ipc = .error errno ipc →
      world.kernel.StepsTo services.keys event { current.kernel with ipc })
    (returned : ∀ value ipc, program current.kernel.ipc = .ok value ipc →
      Takes services world event
        (next value { current with kernel := { current.kernel with ipc } })) :
    Takes services world event ((onIpc program >>= next) current) := by
  rw [bind_apply, PersonaOS.onIpc]
  cases ended : program current.kernel.ipc with
  | ok value ipc => exact returned value ipc ended
  | error errno ipc => exact failed errno ipc ended
  | panic => trivial

theorem recvPort_apply {task : TaskId} {capId : CapId} {ipc after : Ipc.State} {port : PortId}
    (resolved : recvPort task capId ipc = .ok port after) : after = ipc := by
  simp only [recvPort, bind_eq_ok, get_apply, okOr_eq_ok] at resolved
  obtain ⟨_, _, same, cap, _, ⟨_, rfl⟩, resolved⟩ := resolved
  cases same
  split at resolved
  · exact (okOr_eq_ok.mp resolved).2
  · cases resolved

theorem sysRecv_eq {task : TaskId} {capId : CapId} {msgPtr : Nat} (isPtr : msgPtr ≠ 0)
    (out : RecvMsg) (ipc : Ipc.State) :
    sysRecv task capId msgPtr out ipc =
      (recvPort task capId >>= fun port => recvTurn task port out) ipc := by
  rw [sysRecv, if_neg isPtr]
  simp only [recvPort, bind_apply, get_apply]
  cases (ipc.tables task).get capId with
  | none => rfl
  | some cap =>
    simp only [okOr_some, pure_apply]
    split
    · cases cap.asPort <;> rfl
    · rfl

/-- A task that is not parked has no note to clear. -/
theorem recvTurn_message {task : TaskId} {port : PortId} {ipc : Ipc.State} {message : Message}
    (notParked : ipc.receiving task = none) (isHead : (ipc.queues port).head? = some message)
    (out : RecvMsg) : recvTurn task port out ipc =
      (receive task out message >>= fun delivery => pure (.delivered delivery) :
        Program Ipc.State Errno RecvResult) (ipc.pop task port) := by
  have same : (ipc.pop task port).setReceiving task none = ipc.pop task port := by
    rw [State.setReceiving, State.pop, ← notParked, Function.update_eq_self]
  simp only [recvTurn, get_bind_apply, modify_bind_apply, isHead, same]

theorem popLoop_empty {task : TaskId} {port : PortId}
    (isEmpty : (world.kernel.ipc.queues port).head? = none) :
    popLoop services task port 1 world = .error .parked
      (let resumed := services.resume ({ world.kernel with
        ipc := world.kernel.ipc.pop task port
        sched := world.kernel.sched.blockOn (services.keys.key port) }, world.system)
      { world with kernel := resumed.1, system := resumed.2 }) := by
  simp only [popLoop, bind_apply, get_apply, PersonaOS.onIpc, modify_apply, isEmpty, switchAway,
    throw_apply]

theorem popLoop_message {task : TaskId} {port : PortId} {message : Message}
    (isHead : (world.kernel.ipc.queues port).head? = some message) :
    popLoop services task port 1 world = .ok message
      { world with kernel := { world.kernel with ipc := world.kernel.ipc.pop task port } } := by
  simp only [popLoop, bind_apply, get_apply, PersonaOS.onIpc, modify_apply, isHead, pure_apply]

theorem deliverCaps_takes {event : Kernel.Event} {current : World σ} {next : PUnit → Handler σ Int}
    {task : TaskId} {out : RecvMsg} {message : Message}
    (refused : ∀ errno ipc, receive task out message current.kernel.ipc = .error errno ipc →
      world.kernel.StepsTo services.keys event { current.kernel with ipc })
    (installed : ∀ ids ipc memory,
      receive task out message current.kernel.ipc = (receivePages task
        { out with regs := message.regs, ncaps := message.caps.length } message >>= fun out =>
          pure ⟨out, ids⟩ : Program Ipc.State Errno Delivery) ipc →
      Takes services world event
        (next ⟨⟩ { current with kernel := { current.kernel with ipc }, memory })) :
    Takes services world event ((deliverCaps task out message >>= next) current) := by
  unfold deliverCaps
  unfold receive at refused installed
  by_cases empty : message.caps = []
  · have noCaps : (installCaps task message.caps : Program Ipc.State Errno (List CapId)) =
        pure [] := by
      rw [empty]
      rfl
    rw [if_pos empty]
    rw [if_neg fun both => both.1 empty, noCaps] at installed
    exact installed [] _ _ rfl
  · rw [if_neg empty]
    by_cases small : out.capsOut = 0 ∨ out.capsMax < message.caps.length
    · rw [if_pos small]
      rw [if_pos ⟨empty, small⟩] at refused
      exact refused _ _ rfl
    · rw [if_neg small]
      rw [if_neg fun both => small both.2] at refused installed
      simp only [bind_apply, PersonaOS.onIpc, writeUser] at refused installed ⊢
      cases ended : installCaps task message.caps current.kernel.ipc with
      | ok ids ipc =>
        simp only [ended] at installed
        exact installed ids ipc _ rfl
      | error errno ipc =>
        simp only [ended] at refused
        exact refused errno ipc rfl
      | panic => trivial

theorem dispatchRecv_takes (isCurrent : world.kernel.sched.current = some caller)
    (free : world.kernel.Free caller) (capId : CapId) (msgPtr : Nat) :
    Takes services world (.ipc (.recv capId msgPtr
      (decodeRecvMsg (window world.memory msgPtr recvMsgCodec.size))))
      (dispatchRecv services 1 capId msgPtr world) := by
  unfold dispatchRecv
  split
  · next isNull =>
    refine ⟨world.kernel, .ipc isCurrent free ?_, rfl⟩
    rw [Kernel.ipcCall, sysRecv, if_pos isNull]
    rfl
  next isPtr =>
  have step : ∀ out next, world.kernel.afterRecv services.keys
      (sysRecv caller capId msgPtr out world.kernel.ipc) = some next →
      world.kernel.StepsTo services.keys (.ipc (.recv capId msgPtr out)) next :=
    fun out next received => ⟨next, .ipc isCurrent free received, rfl⟩
  simp only [sysRecv_eq isPtr, bind_apply] at step
  rw [bind_apply, currentTask_apply isCurrent]
  refine Takes.onIpc (fun errno ipc failed => ?_) fun port ipc resolved => ?_
  · rw [failed] at step
    exact step _ _ rfl
  obtain rfl := recvPort_apply resolved
  simp only [resolved] at step
  change Takes services world _ ((popLoop services caller port 1 >>= _) world)
  rw [bind_apply]
  cases isHead : (world.kernel.ipc.queues port).head? with
  | none =>
    simp only [recvTurn, get_bind_apply, modify_bind_apply, isHead] at step
    rw [popLoop_empty isHead]
    obtain ⟨next, taken, same⟩ := step _ _ rfl
    refine ⟨_, ?_, rfl⟩
    exact ⟨next, taken, same⟩
  | some message =>
    simp only [recvTurn_message free.1 isHead, bind_apply] at step
    rw [popLoop_message isHead]
    simp only
    rw [bind_apply, readUser]
    simp only
    specialize step (decodeRecvMsg (window world.memory msgPtr recvMsgCodec.size))
    generalize decodeRecvMsg (window world.memory msgPtr recvMsgCodec.size) = out at step ⊢
    refine deliverCaps_takes (fun errno ipc refused => ?_) fun ids ipc memory installed => ?_
    · simp only [refused] at step
      exact step _ rfl
    · simp only [installed, bind_apply] at step
      refine Takes.onIpc (fun errno ipc failed => ?_) fun filled ipc returned => ?_
      · simp only [failed] at step
        exact step _ rfl
      · simp only [returned] at step
        exact step _ rfl

end Takes

end PersonaOS
