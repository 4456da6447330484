import PersonaOS.Ipc.CapFlow

/-! # What the system calls do to the message queues

A send appends to the queue of one port, the one it reports for waking, or leaves all
queues alone. A receive blocks only on an empty queue. No other system call puts a
message into a queue. -/

namespace PersonaOS.Ipc

open Program Mm Sched

/-! ## Blocks that touch the caller's table only -/

section Tables

variable {state : State} {task : TaskId} {Kept : State → Prop} (kept : Kept state)
  (setTable : ∀ {state : State} {table : CapTable}, Kept state → Kept (state.setTable task table))

include kept setTable

theorem installCap_keeps (cap : Cap) {error : Errno → State → Prop} :
    (installCap task cap state).Meets (fun _ => Kept) error True := by
  unfold installCap
  cases (state.tables task).install cap with
  | none => exact trivial
  | some result => exact setTable kept

theorem installCaps_keeps (caps : List Cap) {error : Errno → State → Prop} :
    (installCaps task caps state).Meets (fun _ => Kept) error True := by
  induction caps generalizing state with
  | nil => exact kept
  | cons cap caps induction =>
    exact .bind (installCap_keeps kept setTable cap) fun _ _ kept =>
      .bind (induction kept) fun _ _ done => done

theorem removeCaps_keeps (ids : List CapId) {error : Errno → State → Prop} :
    (removeCaps task ids state).Meets (fun _ => Kept) error True := by
  induction ids generalizing state with
  | nil => exact kept
  | cons id ids induction =>
    unfold removeCaps
    rw [get_bind_apply]
    cases (state.tables task).remove id with
    | mk removed table =>
      simp only [modify_bind_apply]
      exact .bind (induction (setTable kept)) fun _ _ done => done

theorem takeCaps_keeps (msg : SendMsg) :
    (takeCaps task msg state).Meets (fun _ => Kept) (fun _ => Kept) True := by
  unfold takeCaps
  split
  · exact kept
  split
  · exact kept
  rw [get_bind_apply]
  split
  · exact removeCaps_keeps kept setTable msg.capIds
  · exact kept

theorem sysCapDrop_keeps (capId : CapId) :
    (sysCapDrop task capId state).Meets (fun _ => Kept) (fun _ => Kept) True := by
  unfold sysCapDrop
  rw [get_bind_apply]
  cases (state.tables task).remove capId with
  | mk removed table =>
    cases removed with
    | none => exact kept
    | some cap => exact setTable kept

theorem sysCapDup_keeps (capId : CapId) (mask : Nat) :
    (sysCapDup task capId mask state).Meets (fun _ => Kept) (fun _ => Kept) True := by
  unfold sysCapDup
  rw [get_bind_apply]
  refine .okOr (fun _ => kept) fun cap _ => ?_
  split
  · exact .okOr (fun _ => kept) fun port _ => installCap_keeps kept setTable _
  · exact kept

theorem sysName_keeps (op namePtr : Nat) (nameBytes : ByteArray) (capId : CapId)
    (publish : ∀ name port, Kept (state.publish task name port)) :
    (sysName task op namePtr nameBytes capId state).Meets (fun _ => Kept) (fun _ => Kept)
      True := by
  unfold sysName
  split
  · exact kept
  refine .okOr (fun _ => kept) fun name _ => ?_
  rw [get_bind_apply]
  split
  · refine .okOr (fun _ => kept) fun cap _ => .okOr (fun _ => kept) fun port _ => ?_
    split
    · split
      · exact kept
      · exact publish name port
    · exact kept
  · exact .okOr (fun _ => kept) fun port _ => installCap_keeps kept setTable _
  · exact kept

end Tables

/-! ## The message queues -/

section Blocks

variable {state : State} {task : TaskId} {queues : PortId → List Message}
  (same : state.queues = queues)

include same

theorem onMachine_queues {α : Type} (program : Program Machine MapError α) :
    (onMachine program state).Meets (fun _ after => after.queues = queues)
      (fun _ after => after.queues = queues) True := by
  unfold onMachine
  cases program state.machine with
  | ok value machine => exact same
  | error error machine => exact same
  | panic => exact trivial

theorem dropWith_queues {α : Type} (message : Message) (errno : Errno)
    {ok : α → State → Prop} :
    (dropWith message errno state).Meets ok (fun _ after => after.queues = queues) True :=
  same

theorem takePages_queues (msg : SendMsg) (caps : List Cap) :
    (takePages task msg caps state).Meets (fun _ after => after.queues = queues)
      (fun _ after => after.queues = queues) True := by
  unfold takePages
  split
  · split
    · exact .bind (installCaps_keeps same id caps) fun _ _ kept => kept
    rw [get_bind_apply]
    cases state.spaces task with
    | none => exact same
    | some pml4 =>
      refine .bind (onMachine_queues same _) fun result _ kept => ?_
      cases result with
      | ok pages => exact kept
      | error error => exact .bind (installCaps_keeps kept id caps) fun _ _ done => done
  · exact same

theorem receivePages_queues (out : RecvMsg) (message : Message) :
    (receivePages task out message state).Meets (fun _ after => after.queues = queues)
      (fun _ after => after.queues = queues) True := by
  unfold receivePages
  split
  · rw [get_bind_apply]
    cases state.spaces task with
    | none => exact dropWith_queues same message _
    | some pml4 =>
      simp only
      cases findUserVmRange state.machine.memory pml4 ((message.len + 4095) / 4096) with
      | none => exact dropWith_queues same message _
      | some va =>
        refine .bind (onMachine_queues same _) fun result _ kept => ?_
        cases result with
        | ok _ => exact kept
        | error _ => exact dropWith_queues kept message _
  · exact same

theorem receive_queues (out : RecvMsg) (message : Message) :
    (receive task out message state).Meets (fun _ after => after.queues = queues)
      (fun _ after => after.queues = queues) True := by
  unfold receive
  split
  · exact dropWith_queues same message _
  · exact .bind (installCaps_keeps same id message.caps) fun _ _ kept =>
      .bind (receivePages_queues kept _ message) fun _ _ done => done

end Blocks

/-- No message came to an empty queue. -/
def KeepsEmpty (before after : State) : Prop :=
  ∀ port, before.queues port = [] → after.queues port = []

theorem KeepsEmpty.of_eq {before after : State} (same : after.queues = before.queues) :
    KeepsEmpty before after :=
  fun port empty => by rw [same, empty]

section Calls

variable {state : State} {task : TaskId}

theorem tryPush_queues (port : PortId) (message : Message) :
    (tryPush task port message state).Meets
      (fun pushed after => ∀ other, other ≠ pushed → after.queues other = state.queues other)
      (fun _ after => after.queues = state.queues) True := by
  unfold tryPush
  rw [get_bind_apply]
  split
  · rfl
  · intro other different
    exact (State.queues_push state task port other message).trans (if_neg different)

theorem sysSend_queues (capId : CapId) (msgPtr : Nat) (msg : SendMsg) :
    (sysSend task capId msgPtr msg state).Meets
      (fun port after => ∀ other, other ≠ port → after.queues other = state.queues other)
      (fun _ after => after.queues = state.queues) True := by
  unfold sysSend
  split
  · rfl
  split
  · rfl
  rw [get_bind_apply]
  refine .okOr (fun _ => rfl) fun cap _ => ?_
  split
  · refine .okOr (fun _ => rfl) fun port _ => ?_
    have unchanged : (fun after : State => after.queues = state.queues) state := rfl
    refine .bind (takeCaps_keeps unchanged id msg) fun caps _ taken => ?_
    refine .bind (takePages_queues taken msg caps) fun stolen current same => ?_
    refine (tryPush_queues port _).mono ?_ (fun _ _ kept => kept.trans same) id
    exact fun _ _ kept other different => (kept other different).trans (congrFun same other)
  · rfl

theorem recvTurn_queues (port : PortId) (out : RecvMsg) :
    (recvTurn task port out state).Meets
      (fun result after => KeepsEmpty state after ∧
        ∀ parked, result = .blocked parked → after.queues parked = [])
      (fun _ after => KeepsEmpty state after) True := by
  have popped : KeepsEmpty state (state.pop task port) := by
    intro other empty
    rw [State.queues_pop]
    split
    · next same => rw [← same, empty, List.tail_nil]
    · exact empty
  unfold recvTurn
  rw [get_bind_apply, modify_bind_apply]
  cases queue : state.queues port with
  | nil =>
    refine ⟨popped, fun parked isBlocked => ?_⟩
    obtain rfl : port = parked := by simpa using isBlocked
    exact popped port queue
  | cons message rest =>
    simp only [List.head?_cons, modify_bind_apply]
    refine .bind ((receive_queues rfl out message).mono (fun _ _ => id) ?_ id) ?_
    · exact fun _ after same other empty => (congrFun same other).trans (popped other empty)
    · exact fun _ after same => ⟨fun other empty =>
        (congrFun same other).trans (popped other empty), nofun⟩

theorem sysRecv_queues (capId : CapId) (msgPtr : Nat) (out : RecvMsg) :
    (sysRecv task capId msgPtr out state).Meets
      (fun result after => KeepsEmpty state after ∧
        ∀ parked, result = .blocked parked → after.queues parked = [])
      (fun _ after => KeepsEmpty state after) True := by
  have unchanged : KeepsEmpty state state := fun _ => id
  unfold sysRecv
  split
  · exact unchanged
  rw [get_bind_apply]
  refine .okOr (fun _ => unchanged) fun cap _ => ?_
  split
  · exact .okOr (fun _ => unchanged) fun port _ => recvTurn_queues port out
  · exact unchanged

theorem sysPortCreate_queues :
    (sysPortCreate task state).Meets (fun _ => KeepsEmpty state) (fun _ => KeepsEmpty state)
      True := by
  have created : KeepsEmpty state (state.createPort task) := by
    intro other empty
    rw [State.queues_createPort, empty, ite_self]
  exact installCap_keeps created id _

end Calls

end PersonaOS.Ipc
