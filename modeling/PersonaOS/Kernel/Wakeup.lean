import PersonaOS.Ipc.Queues
import PersonaOS.Kernel.Kernel

/-! # No lost wake-up

Whoever sleeps has a reason to. A task parked under the key of a port sleeps because the
queue of the port is empty, and a task parked in `sys_waitpid` because no child it waits
for is dead. Each call checks before it parks, without interruption; each call that ends
the reason wakes the key. The keys of ports and of parents share one queue but never
coincide: the ports' lie in the upper half of the address space, and no task id reaches
as far as that. -/

namespace PersonaOS

open Sched Ipc Mm

namespace Kernel

/-- Every parked task has its reason to sleep. -/
structure Wakeful (keys : PortKeys) (kernel : Kernel) : Prop where
  issued : kernel.sched.IdsIssued
  bounded : kernel.sched.ids.length ≤ 256
  receivers : ∀ port task, (keys.key port, task) ∈ kernel.sched.waitQueues →
    kernel.ipc.queues port = []
  waiters : ∀ task, (Scheduler.waitKey task, task) ∈ kernel.sched.waitQueues →
    ∃ sel, kernel.waiting task = some sel ∧ kernel.sched.NoneExited task sel

theorem wakeful_boot (keys : PortKeys) (space : Option Frame) (machine : Machine) :
    Wakeful keys (boot space machine) where
  issued := Scheduler.idsIssued_boot
  bounded := Nat.le_of_ble_eq_true rfl
  receivers _ _ _ := rfl
  waiters _ parked := absurd parked List.not_mem_nil

theorem waitKey_lt {task : TaskId} (small : task < 2 ^ 63) : Scheduler.waitKey task < 2 ^ 63 :=
  Nat.or_lt_two_pow (by decide) small

namespace Wakeful

variable {keys : PortKeys} {kernel : Kernel} {caller : TaskId} (wakeful : kernel.Wakeful keys)

include wakeful

theorem key_ne_waitKey {task : TaskId} (found : kernel.sched.Somewhere task) (port : PortId) :
    keys.key port ≠ Scheduler.waitKey task := by
  have bound : task < 2 ^ 63 := by
    have issued : task < kernel.sched.nextId := wakeful.issued.somewhere task found
    have count := wakeful.issued.count
    have bounded := wakeful.bounded
    exact lt_of_lt_of_le issued
      (by rw [count]; exact le_trans (Nat.succ_le_succ bounded) (by decide))
  exact fun same => absurd (keys.high port) (by rw [same]; exact Nat.not_le.mpr (waitKey_lt bound))

theorem advance {next : Kernel} (shuffles : kernel.sched.Shuffles next.sched)
    (tells : kernel.sched.TellsParents next.sched) (sameWaiting : next.waiting = kernel.waiting)
    (receivers : ∀ port task, (keys.key port, task) ∈ next.sched.waitQueues →
      next.ipc.queues port = []) :
    next.Wakeful keys where
  issued := wakeful.issued.shuffle shuffles
  bounded := shuffles.ids ▸ wakeful.bounded
  receivers := receivers
  waiters task parked := by
    obtain ⟨sel, isWaiting, none⟩ := wakeful.waiters task (tells.entries _ _ parked)
    exact ⟨sel, by rw [sameWaiting, isWaiting], tells.children task sel parked none⟩

theorem ofSched {sched : Scheduler} (shuffles : kernel.sched.Shuffles sched)
    (tells : kernel.sched.TellsParents sched) : Wakeful keys { kernel with sched } :=
  wakeful.advance shuffles tells rfl fun port task parked =>
    wakeful.receivers port task (tells.entries _ _ parked)

theorem ofIpc {ipc : Ipc.State} (keepsEmpty : KeepsEmpty kernel.ipc ipc) :
    Wakeful keys { kernel with ipc } :=
  wakeful.advance (.refl _) (.refl _) rfl fun port task parked =>
    keepsEmpty port (wakeful.receivers port task parked)

theorem blockOn {key : WaitKey} (isCurrent : kernel.sched.current = some caller)
    (forPort : ∀ port, keys.key port = key → kernel.ipc.queues port = [])
    (forChild : Scheduler.waitKey caller = key →
      ∃ sel, kernel.waiting caller = some sel ∧ kernel.sched.NoneExited caller sel) :
    Wakeful keys { kernel with sched := kernel.sched.blockOn key } where
  issued := wakeful.issued.shuffle (kernel.sched.blockOn_shuffles key)
  bounded := (kernel.sched.blockOn_shuffles key).ids ▸ wakeful.bounded
  receivers port task parked := by
    rcases (Scheduler.mem_blockOn_waitQueues isCurrent).mp parked with old | ⟨sameKey, _⟩
    · exact wakeful.receivers port task old
    · exact forPort port sameKey
  waiters task parked := by
    have reason : ∃ sel, kernel.waiting task = some sel ∧ kernel.sched.NoneExited task sel := by
      rcases (Scheduler.mem_blockOn_waitQueues isCurrent).mp parked with old | ⟨sameKey, sameTask⟩
      · exact wakeful.waiters task old
      · subst sameTask
        exact forChild sameKey
    obtain ⟨sel, isWaiting, none⟩ := reason
    exact ⟨sel, isWaiting, (kernel.sched.blockOn_spares key).noneExited none⟩

/-! ## System calls -/

theorem afterSend {outcome : Outcome Ipc.State Errno PortId} {next : Kernel}
    (meets : outcome.Meets
      (fun port after => ∀ other, other ≠ port → after.queues other = kernel.ipc.queues other)
      (fun _ after => after.queues = kernel.ipc.queues) True)
    (returns : kernel.afterSend keys outcome = some next) : next.Wakeful keys := by
  cases outcome with
  | ok port ipc =>
    cases returns
    refine wakeful.advance (kernel.sched.wakeAll_shuffles _)
      (kernel.sched.wakeAll_tellsParents _) rfl fun other task parked => ?_
    -- Whoever is still parked is parked under another port's key.
    obtain ⟨old, otherKey⟩ := Scheduler.mem_wakeAll_waitQueues.mp parked
    have different : other ≠ port := fun same => otherKey (by rw [same])
    exact (meets other different).trans (wakeful.receivers other task old)
  | error errno ipc =>
    cases returns
    exact wakeful.ofIpc (.of_eq meets)
  | panic => cases returns

theorem afterRecv {outcome : Outcome Ipc.State Errno RecvResult} {next : Kernel}
    (isCurrent : kernel.sched.current = some caller)
    (meets : outcome.Meets
      (fun result after => KeepsEmpty kernel.ipc after ∧
        ∀ parked, result = .blocked parked → after.queues parked = [])
      (fun _ after => KeepsEmpty kernel.ipc after) True)
    (returns : kernel.afterRecv keys outcome = some next) : next.Wakeful keys := by
  cases outcome with
  | ok result ipc =>
    obtain ⟨keepsEmpty, parks⟩ := meets
    have received := wakeful.ofIpc keepsEmpty
    cases result with
    | blocked port =>
      cases returns
      refine received.blockOn isCurrent (fun other sameKey => ?_) fun sameKey => ?_
      · rw [keys.injective sameKey]
        exact parks port rfl
      · exact absurd sameKey.symm (wakeful.key_ne_waitKey (.inl isCurrent) port)
    | delivered delivery =>
      cases returns
      exact received
  | error errno ipc =>
    cases returns
    exact wakeful.ofIpc meets
  | panic => cases returns

theorem ofFinal {α : Type} {outcome : Outcome Ipc.State Errno α} {next : Kernel}
    (meets : outcome.Meets (fun _ => KeepsEmpty kernel.ipc) (fun _ => KeepsEmpty kernel.ipc) True)
    (returns : outcome.final.map (fun ipc => { kernel with ipc := ipc }) = some next) :
    next.Wakeful keys := by
  cases outcome with
  | ok value ipc =>
    cases returns
    exact wakeful.ofIpc meets
  | error errno ipc =>
    cases returns
    exact wakeful.ofIpc meets
  | panic => cases returns

theorem ipcCall {call : Ipc.Call} {next : Kernel} (isCurrent : kernel.sched.current = some caller)
    (returns : kernel.ipcCall keys caller call = some next) : next.Wakeful keys := by
  have unchanged : KeepsEmpty kernel.ipc kernel.ipc := .of_eq rfl
  cases call with
  | send capId msgPtr msg => exact wakeful.afterSend (sysSend_queues capId msgPtr msg) returns
  | recv capId msgPtr out =>
    exact wakeful.afterRecv isCurrent (sysRecv_queues capId msgPtr out) returns
  | portCreate =>
    refine wakeful.ofFinal ?_ returns
    exact .bind sysPortCreate_queues fun _ _ kept => kept
  | capDrop capId =>
    exact wakeful.ofFinal (sysCapDrop_keeps unchanged id capId) returns
  | capDup capId mask =>
    refine wakeful.ofFinal ?_ returns
    exact .bind (sysCapDup_keeps unchanged id capId mask) fun _ _ kept => kept
  | name op namePtr nameBytes capId =>
    refine wakeful.ofFinal ?_ returns
    exact .bind (sysName_keeps unchanged id op namePtr nameBytes capId fun _ _ => unchanged)
      fun _ _ kept => kept

theorem setWaiting {sel : Option TaskId}
    (reason : (Scheduler.waitKey caller, caller) ∈ kernel.sched.waitQueues →
      ∃ chosen, sel = some chosen ∧ kernel.sched.NoneExited caller chosen) :
    (kernel.setWaiting caller sel).Wakeful keys where
  issued := wakeful.issued
  bounded := wakeful.bounded
  receivers := wakeful.receivers
  waiters task parked := by
    by_cases isCaller : task = caller
    · subst isCaller
      obtain ⟨chosen, isChosen, none⟩ := reason parked
      exact ⟨chosen, by simp [Kernel.setWaiting, isChosen], none⟩
    · obtain ⟨chosen, isWaiting, none⟩ := wakeful.waiters task parked
      exact ⟨chosen, by simp [Kernel.setWaiting, isCaller, isWaiting], none⟩

theorem waitTurn {sel flags : Nat} (isCurrent : kernel.sched.current = some caller)
    (parkedFor : (Scheduler.waitKey caller, caller) ∈ kernel.sched.waitQueues →
      flags = 0 ∧ kernel.sched.NoneExited caller sel) :
    (kernel.waitTurn caller sel flags).Wakeful keys := by
  unfold Kernel.waitTurn
  cases exited : kernel.sched.findExitedChild caller sel with
  | some child =>
    refine wakeful.setWaiting fun parked => ?_
    rw [Scheduler.findExitedChild_eq_none.mpr (parkedFor parked).2] at exited
    cases exited
  | none =>
    have noneExited := Scheduler.findExitedChild_eq_none.mp exited
    simp only
    split
    · next noHang =>
      refine wakeful.setWaiting fun parked => ?_
      exact absurd (by rw [(parkedFor parked).1, Nat.zero_and]) noHang
    · have waits : (kernel.setWaiting caller (some sel)).Wakeful keys :=
        wakeful.setWaiting fun _ => ⟨sel, rfl, noneExited⟩
      refine waits.blockOn isCurrent (fun port sameKey => ?_) fun _ => ?_
      · exact absurd sameKey (wakeful.key_ne_waitKey (.inl isCurrent) port)
      · exact ⟨sel, by simp [Kernel.setWaiting], noneExited⟩

theorem not_parked (free : kernel.Free caller) :
    (Scheduler.waitKey caller, caller) ∉ kernel.sched.waitQueues := by
  intro parked
  obtain ⟨sel, isWaiting, _⟩ := wakeful.waiters caller parked
  rw [free.2] at isWaiting
  cases isWaiting

theorem sysWaitpid {sel flags : Nat} (isCurrent : kernel.sched.current = some caller)
    (free : kernel.Free caller) : (kernel.sysWaitpid caller sel flags).Wakeful keys := by
  unfold Kernel.sysWaitpid
  split
  · exact wakeful.waitTurn isCurrent fun parked => absurd parked (wakeful.not_parked free)
  · exact wakeful

theorem spawn {space : Option Frame} {machine : Machine} (room : kernel.RoomForStack) :
    (kernel.spawn caller space machine).Wakeful keys where
  issued := wakeful.issued.spawn caller
  bounded := by
    have length : kernel.sched.ids.length = kernel.sched.tasks.length := by
      simp [Scheduler.ids]
    unfold RoomForStack at room
    simp only [Kernel.spawn, Scheduler.ids_spawn, List.length_append, List.length_singleton,
      length]
    omega
  receivers := wakeful.receivers
  waiters task parked := by
    have notNew : task ≠ kernel.sched.nextId :=
      Nat.ne_of_lt (wakeful.issued.somewhere task (.inr (.inr ⟨_, parked⟩)))
    obtain ⟨sel, isWaiting, none⟩ := wakeful.waiters task parked
    exact ⟨sel, by simp [Kernel.spawn, notNew, isWaiting],
      (kernel.sched.spawn_spares caller).noneExited none⟩

theorem step {event : Event} {next : Kernel} (step : Step keys kernel event next) :
    next.Wakeful keys := by
  cases step with
  | ipc isCurrent _ returns => exact wakeful.ipcCall isCurrent returns
  | resumeRecv isCurrent _ returns =>
    exact wakeful.afterRecv isCurrent (recvTurn_queues _ _) returns
  | waitpid isCurrent free => exact wakeful.sysWaitpid isCurrent free
  | resumeWait isCurrent isWaiting =>
    refine wakeful.waitTurn isCurrent fun parked => ⟨rfl, ?_⟩
    obtain ⟨sel, same, none⟩ := wakeful.waiters _ parked
    rw [isWaiting, Option.some_inj] at same
    exact same ▸ none
  | exit isCurrent _ =>
    exact wakeful.ofSched (kernel.sched.currentExit_shuffles _)
      (Scheduler.currentExit_tellsParents wakeful.issued.distinct _)
  | kill isCurrent _ =>
    exact wakeful.ofSched (kernel.sched.sysKill_shuffles _ _)
      (Scheduler.sysKill_tellsParents wakeful.issued.distinct _ _)
  | spawn isCurrent _ room => exact wakeful.spawn room
  | yield _ _ =>
    exact wakeful.ofSched kernel.sched.schedule_shuffles kernel.sched.schedule_tellsParents
  | tick => exact wakeful.ofSched kernel.sched.schedule_shuffles kernel.sched.schedule_tellsParents
  | closePort _ =>
    refine wakeful.ofIpc fun other empty => ?_
    rw [State.queues_closePort, empty, ite_self]

end Wakeful

/-- In every state that a run from boot reaches, a live task parked under the key of a
port finds the queue of the port empty, and a live task parked in `sys_waitpid` has no
dead child that its selector matches. -/
theorem no_lost_wakeup {keys : PortKeys} {space : Option Frame} {machine : Machine}
    {events : List Event} {kernel : Kernel}
    (run : Trace (Step keys) (boot space machine) events kernel) :
    (∀ task ∈ kernel.sched.tasks, task.state ≠ .dead →
      ∀ port, (keys.key port, task.id) ∈ kernel.sched.waitQueues →
        kernel.ipc.queues port = []) ∧
    (∀ parent ∈ kernel.sched.tasks, parent.state ≠ .dead →
      (Scheduler.waitKey parent.id, parent.id) ∈ kernel.sched.waitQueues →
        ∃ sel, kernel.waiting parent.id = some sel ∧
          ∀ child ∈ kernel.sched.tasks, child.parent = parent.id →
            (sel = 0 ∨ child.id = sel) → child.state ≠ .dead) := by
  have wakeful : kernel.Wakeful keys :=
    run.invariant (Wakeful keys) (fun wakeful step => wakeful.step step)
      (wakeful_boot keys space machine)
  exact ⟨fun task _ _ port parked => wakeful.receivers port task.id parked,
    fun parent _ _ parked => wakeful.waiters parent.id parked⟩

def adjacentKeys : PortKeys where
  key port := 2 ^ 63 + port
  injective _ _ same := Nat.add_left_cancel same
  high port := Nat.le_add_right _ port

def sleepers : List Event :=
  [.tick, .spawn none ⟨fun _ _ => .unused, ∅, fun _ _ => none, 0⟩, .waitpid 0 0, .tick,
    .ipc .portCreate, .ipc (.recv 1 0x1000 ⟨Vector.replicate 6 0, 0, 0, 0, 0, 0⟩)]

/-- Both are parked in the end, the child on its empty port. -/
theorem no_lost_wakeup_sleepers :
    ∃ kernel, Trace (Step adjacentKeys)
        (boot none ⟨fun _ _ => .unused, ∅, fun _ _ => none, 0⟩) sleepers kernel ∧
      kernel.sched.waitQueues = [(Scheduler.waitKey 2, 2), (2 ^ 63, 3)] ∧
      kernel.ipc.queues 0 = [] := by
  have run : Trace (Step adjacentKeys)
      (boot none ⟨fun _ _ => .unused, ∅, fun _ _ => none, 0⟩) sleepers _ :=
    .cons .tick (.cons (.spawn rfl ⟨rfl, rfl⟩ (Nat.le_of_ble_eq_true rfl))
      (.cons (.waitpid rfl ⟨rfl, rfl⟩) (.cons .tick
        (.cons (.ipc rfl ⟨rfl, rfl⟩ rfl)
          (.cons (.ipc rfl ⟨rfl, rfl⟩ rfl) (.nil _))))))
  have reasons := no_lost_wakeup run
  exact ⟨_, run, by decide, reasons.1 ⟨3, 2, 0, .blocked⟩ (by decide) (by decide) 0 (by decide)⟩

end Kernel

end PersonaOS
