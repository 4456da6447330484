import PersonaOS.Ipc.Transfer
import PersonaOS.Mm.Spares

/-! # What the IPC system calls write to page tables

A system call changes page tables by at most one call of the memory manager on the
address space of its caller: a send steals pages, a receive installs some. -/

namespace PersonaOS.Ipc

open Program Mm Sched

/-- From `state` to `after` the task's address space saw at most one call of the memory
manager. -/
def Manages (task : TaskId) (state after : State) : Prop :=
  after.spaces = state.spaces ∧
    (after.machine.memory = state.machine.memory ∨
      ∃ pml4 call machine, state.spaces task = some pml4 ∧ Mm.Call.InUserHalf call ∧
        (Mm.Call.perform pml4 call state.machine).final = some machine ∧
        after.machine.memory = machine.memory)

def SameSpaces (state after : State) : Prop :=
  after.spaces = state.spaces ∧ after.machine = state.machine

theorem SameSpaces.manages {task : TaskId} {state after : State} (same : SameSpaces state after) :
    Manages task state after :=
  ⟨same.1, .inl (by rw [same.2])⟩

@[simp] theorem freePages_memory (machine : Machine) (pages : List Nat) :
    (freePages machine pages).memory = machine.memory := by
  induction pages generalizing machine with
  | nil => rfl
  | cons phys pages induction => exact induction (machine.freeFrame (phys / 4096))

section Calls

variable {task : TaskId} {state current after : State} {port : PortId} {message : Message}

theorem Manages.refl : Manages task state state := ⟨rfl, .inl rfl⟩

theorem Manages.setTable {table : CapTable} (manages : Manages task state after) :
    Manages task state (after.setTable task table) := manages

theorem SameSpaces.setTable {table : CapTable} (same : SameSpaces state after) :
    SameSpaces state (after.setTable task table) := same

theorem Manages.dropMessage (manages : Manages task state after) :
    Manages task state (after.dropMessage message) := by
  refine ⟨manages.1, ?_⟩
  simp only [State.dropMessage, State.setMachine, freePages_memory]
  exact manages.2

theorem SameSpaces.manage {pml4 : Frame} {machine : Machine} (same : SameSpaces state current)
    (space : current.spaces task = some pml4) (call : Mm.Call) (inUserHalf : call.InUserHalf)
    (ended : (call.perform pml4 current.machine).final = some machine) :
    Manages task state (current.setMachine machine) := by
  rw [same.2] at ended
  rw [same.1] at space
  exact ⟨same.1, .inr ⟨pml4, call, machine, space, inUserHalf, ended, rfl⟩⟩

theorem takePages_manages (same : SameSpaces state current) (msg : SendMsg) (caps : List Cap)
    (user : InUserHalf msg.pagesVa (msg.pagesLen / 4096)) :
    (takePages task msg caps current).Meets (fun _ => Manages task state)
      (fun _ => Manages task state) True := by
  unfold takePages
  split
  · split
    · exact .bind (installCaps_keeps same.manages Manages.setTable caps) fun _ _ kept => kept
    rw [get_bind_apply]
    cases space : current.spaces task with
    | none => exact same.manages
    | some pml4 =>
      simp only [onMachine, bind_apply]
      cases outcome : stealPages pml4 msg.pagesVa (msg.pagesLen / 4096) current.machine with
      | ok pages machine =>
        apply same.manage space (.stealPages msg.pagesVa (msg.pagesLen / 4096)) user
        simp only [Mm.Call.perform, bind_apply, outcome]
        rfl
      | error error machine =>
        have manages : Manages task state (current.setMachine machine) := by
          apply same.manage space (.stealPages msg.pagesVa (msg.pagesLen / 4096)) user
          simp only [Mm.Call.perform, bind_apply, outcome]
          rfl
        exact .bind (installCaps_keeps manages Manages.setTable caps) fun _ _ kept => kept
      | panic => exact trivial
  · exact same.manages

theorem tryPush_manages (manages : Manages task state current) :
    (tryPush task port message current).Meets (fun _ => Manages task state)
      (fun _ => Manages task state) True := by
  unfold tryPush
  rw [get_bind_apply]
  split
  · have refused : Manages task state (current.refuse task port) := manages
    exact refused.dropMessage
  · exact manages

theorem sysSend_manages (capId : CapId) (msgPtr : Nat) (msg : SendMsg)
    (user : InUserHalf msg.pagesVa (msg.pagesLen / 4096)) :
    (sysSend task capId msgPtr msg state).Meets (fun _ => Manages task state)
      (fun _ => Manages task state) True := by
  have unchanged : SameSpaces state state := ⟨rfl, rfl⟩
  unfold sysSend
  split
  · exact Manages.refl
  split
  · exact Manages.refl
  rw [get_bind_apply]
  refine .okOr (fun _ => Manages.refl) fun cap _ => ?_
  split
  · refine .okOr (fun _ => Manages.refl) fun port _ => ?_
    apply Outcome.Meets.bind ((takeCaps_keeps unchanged SameSpaces.setTable msg).mono
      (fun _ _ same => same) (fun _ _ same => same.manages) id)
    intro caps current same
    apply Outcome.Meets.bind (takePages_manages same msg caps user)
    intro taken after manages
    exact tryPush_manages manages
  · exact Manages.refl

theorem receivePages_manages {out : RecvMsg} (same : SameSpaces state current)
    (sized : message.pages.length * 4096 = message.len) :
    (receivePages task out message current).Meets (fun _ => Manages task state)
      (fun _ => Manages task state) True := by
  have dropped : Manages task state (current.dropMessage message) := same.manages.dropMessage
  unfold receivePages
  split
  · rw [get_bind_apply]
    cases space : current.spaces task with
    | none => exact dropped
    | some pml4 =>
      simp only
      cases found : findUserVmRange current.machine.memory pml4 ((message.len + 4095) / 4096) with
      | none => exact dropped
      | some va =>
        have user : (Mm.Call.installPages va message.pages).InUserHalf := by
          intro i inside
          exact findUserVmRange_inUserHalf found i (by omega)
        simp only [onMachine, bind_apply]
        cases outcome : installPages pml4 va message.pages current.machine with
        | ok _ machine =>
          apply same.manage space (.installPages va message.pages) user
          simp only [Mm.Call.perform, outcome]
          rfl
        | error error machine =>
          apply Manages.dropMessage
          apply same.manage space (.installPages va message.pages) user
          simp only [Mm.Call.perform, outcome]
          rfl
        | panic => exact trivial
  · exact dropped

theorem recvTurn_manages {out : RecvMsg}
    (whole : ∀ message ∈ state.queues port, message.Whole) :
    (recvTurn task port out state).Meets (fun _ => Manages task state)
      (fun _ => Manages task state) True := by
  unfold recvTurn
  rw [get_bind_apply, modify_bind_apply]
  cases queue : state.queues port with
  | nil => exact Manages.refl
  | cons message later =>
    have isSized := (whole message (by rw [queue]; exact List.mem_cons_self)).1
    have popped : SameSpaces state ((state.pop task port).setReceiving task none) := ⟨rfl, rfl⟩
    simp only [List.head?_cons, modify_bind_apply]
    refine .bind ?_ fun _ _ done => done
    unfold receive
    split
    · exact popped.manages.dropMessage
    · apply Outcome.Meets.bind (installCaps_keeps popped SameSpaces.setTable message.caps)
      intro capIds current same
      exact .bind (receivePages_manages same isSized) fun _ _ done => done

theorem perform_manages (call : Call)
    (whole : ∀ port, ∀ message ∈ state.queues port, message.Whole)
    (careful : Careful state (.call task call)) :
    (call.perform task state).Meets (fun _ => Manages task state) (fun _ => Manages task state)
      True := by
  cases call with
  | portCreate =>
    have created : Manages task state (state.createPort task) := Manages.refl
    exact .bind (installCap_keeps created Manages.setTable _) fun _ _ kept => kept
  | capDrop capId => exact sysCapDrop_keeps Manages.refl Manages.setTable capId
  | capDup capId mask =>
    exact .bind (sysCapDup_keeps Manages.refl Manages.setTable capId mask) fun _ _ kept => kept
  | send capId msgPtr msg =>
    exact .bind (sysSend_manages capId msgPtr msg careful) fun _ _ kept => kept
  | recv capId msgPtr out =>
    refine .bind ?_ fun _ _ kept => kept
    unfold sysRecv
    split
    · exact Manages.refl
    rw [get_bind_apply]
    refine .okOr (fun _ => Manages.refl) fun cap _ => ?_
    split
    · exact .okOr (fun _ => Manages.refl) fun port _ => recvTurn_manages (whole port)
    · exact Manages.refl
  | name op namePtr nameBytes capId =>
    have published : ∀ name port, Manages task state (state.publish task name port) :=
      fun _ _ => Manages.refl
    exact .bind (sysName_keeps Manages.refl Manages.setTable op namePtr nameBytes capId published)
      fun _ _ kept => kept

theorem Balanced.spares {rest : List Nat} (balanced : Balanced withheld state rest)
    (manages : Manages task state after) :
    Spares state.roots (framesOf rest) state.machine.memory after.machine.memory := by
  rcases manages.2 with same | ⟨pml4, call, machine, space, inUserHalf, ended, isMemory⟩
  · rw [same]
    exact .refl _ _ _
  · rw [isMemory]
    have isRoot : pml4 ∈ state.roots := ⟨task, space⟩
    apply balanced.owned.spares
    exact (call.perform_accounts (discipline_freeUnused _) balanced.owned.freeUnused
      balanced.owned.sound isRoot inUserHalf).of_final ended

end Calls

end PersonaOS.Ipc
