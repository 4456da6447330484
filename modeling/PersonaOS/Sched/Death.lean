import PersonaOS.Sched.Placement

/-! # Is death final?

`current_exit` promises to mark a task dead "and never schedule it again". `kill` gives the same
treatment to a task that is queued, but not to one that is parked: its entry stays in the wait
queues, and a later `wake_all` of its key makes it ready again. -/

namespace PersonaOS.Sched

namespace Scheduler

/-- What the tasks and the timer can do to the scheduler. A tick and a `yield` are both
`schedule`; `wakeAll` is what a successful send does to the key of its port. -/
inductive Call where
  | spawn (parent : TaskId)
  | schedule
  | blockOn (key : WaitKey)
  | wakeAll (key : WaitKey)
  | sysExit (code : Int)
  | sysKill (pid : TaskId) (code : Int)
  deriving DecidableEq, Repr

def perform (scheduler : Scheduler) : Call → Scheduler
  | .spawn parent => scheduler.spawn parent
  | .schedule => scheduler.schedule
  | .blockOn key => scheduler.blockOn key
  | .wakeAll key => scheduler.wakeAll key
  | .sysExit code => scheduler.currentExit code
  | .sysKill pid code => scheduler.sysKill pid code

def performAll (scheduler : Scheduler) (calls : List Call) : Scheduler :=
  calls.foldl perform scheduler

/-- The task is dead and its exit code is `code`. -/
def DeadWith (scheduler : Scheduler) (pid : TaskId) (code : Int) : Prop :=
  ∃ task, scheduler.findTask pid = some task ∧ task.state = .dead ∧ task.exitCode = code

/-- Death is final along a run from boot: whatever is dead after some of its calls is
dead with the same code after any more of them, and neither current nor queued. -/
def DeathFinal (calls : List Call) : Prop :=
  ∀ before after, before ++ after <+: calls → ∀ pid code,
    (boot.performAll before).DeadWith pid code →
      (boot.performAll (before ++ after)).DeadWith pid code ∧
      (boot.performAll (before ++ after)).current ≠ some pid ∧
      pid ∉ (boot.performAll (before ++ after)).runQueue

/-! ## The condition on a single call -/

/-- No dead task is parked under `key`. -/
def WakesNoDead (scheduler : Scheduler) (key : WaitKey) : Prop :=
  ∀ pid, (key, pid) ∈ scheduler.waitQueues → scheduler.stateOf pid ≠ some .dead

/-- The parent of the exiting task shares its key with no dead task. -/
def ExitLeavesDead (scheduler : Scheduler) : Prop :=
  ∀ pid task, scheduler.current = some pid → scheduler.findTask pid = some task →
    scheduler.WakesNoDead (waitKey task.parent)

/-- The target, if dead already, is killed with its own exit code, and its parent's key
has no dead task parked under it. -/
def KillLeavesDead (scheduler : Scheduler) (pid : TaskId) (code : Int) : Prop :=
  ∀ target, scheduler.findTask pid = some target →
    (target.state = .dead → target.exitCode = code) ∧
      scheduler.WakesNoDead (waitKey target.parent)

/-- The call wakes no dead task, overwrites no exit code of a dead task, and does not
block with nothing to switch to. -/
def LeavesDead (scheduler : Scheduler) : Call → Prop
  | .spawn _ | .schedule => True
  | .blockOn _ => scheduler.runQueue ≠ []
  | .wakeAll key => scheduler.WakesNoDead key
  | .sysExit _ => scheduler.ExitLeavesDead
  | .sysKill pid code =>
    ∀ caller, scheduler.current = some caller →
      if pid = caller then scheduler.ExitLeavesDead
      else caller = 2 ∨ scheduler.isChild caller pid → scheduler.KillLeavesDead pid code

/-! ## The dead records across one operation -/

/-- Every dead record of `before` is in `after`, unchanged. -/
def KeepsDead (before after : Scheduler) : Prop :=
  ∀ pid task, before.findTask pid = some task → task.state = .dead →
    after.findTask pid = some task

theorem KeepsDead.trans {first second third : Scheduler}
    (start : KeepsDead first second) (finish : KeepsDead second third) :
    KeepsDead first third :=
  fun pid task found dead => finish pid task (start pid task found dead) dead

theorem KeepsDead.refl (scheduler : Scheduler) : KeepsDead scheduler scheduler :=
  fun _ _ found _ => found

theorem setState_keepsDead {scheduler : Scheduler} {pid : TaskId} {state : TaskState}
    (alive : scheduler.stateOf pid ≠ some .dead) :
    KeepsDead scheduler (scheduler.setState pid state) := by
  intro other task found dead
  have different : other ≠ pid := by
    rintro rfl
    exact alive (by simp [stateOf, found, dead])
  simpa [different] using found

theorem CanRun.not_dead {scheduler : Scheduler} {pid : TaskId}
    (canRun : scheduler.CanRun pid) : scheduler.stateOf pid ≠ some .dead := by
  rcases canRun with ready | running
  · simp [ready]
  · simp [running]

theorem requeue_keepsDead (scheduler : Scheduler) (previous : Option TaskId) :
    KeepsDead scheduler (scheduler.requeue previous) := by
  unfold requeue
  split
  · exact .refl _
  · split
    · next canRun => exact setState_keepsDead (CanRun.not_dead canRun)
    · exact .refl _

theorem Placed.schedule_keepsDead {scheduler : Scheduler} (placed : scheduler.Placed) :
    KeepsDead scheduler scheduler.schedule := by
  cases queued : scheduler.runQueue with
  | nil =>
    rw [schedule_of_empty _ queued]
    exact .refl _
  | cons next rest =>
    have nextRuns : CanRun { scheduler with runQueue := rest } next :=
      .inl (placed.of_queued (by simp [queued] : next ∈ scheduler.runQueue)).1
    rw [schedule_of_cons _ queued]
    exact (requeue_keepsDead { scheduler with runQueue := rest } scheduler.current).trans
      (setState_keepsDead (nextRuns.requeue scheduler.current).not_dead)

theorem wakeAll_keepsDead {scheduler : Scheduler} {key : WaitKey}
    (wakesNoDead : scheduler.WakesNoDead key) :
    KeepsDead scheduler (scheduler.wakeAll key) := by
  intro pid task found dead
  have notParked : (key, pid) ∉ scheduler.waitQueues := fun parked =>
    wakesNoDead pid parked (by simp [stateOf, found, dead])
  rw [findTask_wakeAll, if_neg notParked, found]

theorem Placed.blockOn_keepsDead {scheduler : Scheduler} (placed : scheduler.Placed)
    (key : WaitKey) (somebody : scheduler.runQueue ≠ []) :
    KeepsDead scheduler (scheduler.blockOn key) := by
  cases isCurrent : scheduler.current with
  | none =>
    rw [Scheduler.blockOn, isCurrent]
    exact placed.schedule_keepsDead
  | some pid =>
    rcases List.exists_cons_of_ne_nil somebody with ⟨next, rest, queued⟩
    have parked : KeepsDead scheduler { scheduler.park key pid with current := none } :=
      setState_keepsDead (CanRun.not_dead (placed.of_current isCurrent).1)
    rw [blockOn_eq _ isCurrent queued]
    exact parked.trans (placed.park key isCurrent).schedule_keepsDead

/-- Marking a task dead and then waking a key under which no dead task was parked keeps
the dead records, provided the task itself was alive or keeps its exit code. The task
may be parked under that very key, in which case it ends up ready again. -/
theorem markDead_wakeAll_keepsDead {scheduler marked : Scheduler} {pid : TaskId}
    {code : Int} {key : WaitKey}
    (sameTasks : marked.tasks = (scheduler.markDead pid code).tasks)
    (sameWaiters : marked.waitQueues = scheduler.waitQueues)
    (wakesNoDead : scheduler.WakesNoDead key)
    (sameCode : ∀ task, scheduler.findTask pid = some task → task.state = .dead →
      task.exitCode = code) :
    KeepsDead scheduler (marked.wakeAll key) := by
  intro other task found dead
  have notParked : (key, other) ∉ marked.waitQueues := by
    rw [sameWaiters]
    exact fun parked => wakesNoDead other parked (by simp [stateOf, found, dead])
  have markedFind : marked.findTask other = (scheduler.markDead pid code).findTask other := by
    simp [findTask, sameTasks]
  rw [findTask_wakeAll, if_neg notParked, markedFind, findTask_markDead, found]
  split
  · next same =>
    subst same
    have codeEqual := sameCode task found dead
    cases task
    simp_all
  · rfl

theorem kill_keepsDead {scheduler : Scheduler} {pid : TaskId} {code : Int}
    (leaves : scheduler.KillLeavesDead pid code) :
    KeepsDead scheduler (scheduler.kill pid code) := by
  cases found : scheduler.findTask pid with
  | none =>
    rw [kill_of_unknown _ _ found]
    exact .refl _
  | some target =>
    rw [kill_eq _ _ found]
    refine markDead_wakeAll_keepsDead rfl rfl (leaves target found).2 ?_
    intro task sameFound dead
    exact (leaves task sameFound).1 dead

theorem Placed.currentExit_keepsDead {scheduler : Scheduler} (placed : scheduler.Placed)
    {code : Int} (leaves : scheduler.ExitLeavesDead) :
    KeepsDead scheduler (scheduler.currentExit code) := by
  cases isCurrent : scheduler.current with
  | none =>
    rw [currentExit_of_nobody _ _ isCurrent]
    exact placed.schedule_keepsDead
  | some pid =>
    rcases placed.findTask_of_current isCurrent with ⟨task, found⟩
    rw [currentExit_eq _ _ isCurrent found]
    refine KeepsDead.trans ?_ ((placed.leave code isCurrent).wakeAll _).schedule_keepsDead
    refine markDead_wakeAll_keepsDead rfl rfl (leaves pid task isCurrent found) ?_
    -- The exiting task is current, hence alive, so no exit code is overwritten.
    intro sameTask sameFound dead
    exact absurd (by simp [stateOf, sameFound, dead])
      (CanRun.not_dead (placed.of_current isCurrent).1)

theorem spawn_keepsDead {scheduler : Scheduler} (parent : TaskId) :
    KeepsDead scheduler (scheduler.spawn parent) := by
  intro pid task found _
  simp only [findTask] at found
  simp [findTask, spawn, register, enqueue, found]

/-! ## Whole runs -/

theorem Placed.perform {scheduler : Scheduler} (placed : scheduler.Placed) {call : Call}
    (leaves : scheduler.LeavesDead call) :
    (scheduler.perform call).Placed ∧ KeepsDead scheduler (scheduler.perform call) := by
  cases call with
  | spawn parent => exact ⟨placed.spawn parent, spawn_keepsDead parent⟩
  | schedule => exact ⟨placed.schedule, placed.schedule_keepsDead⟩
  | blockOn key => exact ⟨placed.blockOn key leaves, placed.blockOn_keepsDead key leaves⟩
  | wakeAll key => exact ⟨placed.wakeAll key, wakeAll_keepsDead leaves⟩
  | sysExit code => exact ⟨placed.currentExit code, placed.currentExit_keepsDead leaves⟩
  | sysKill pid code =>
    unfold Scheduler.perform sysKill
    cases isCurrent : scheduler.current with
    | none => exact ⟨placed, .refl _⟩
    | some caller =>
      have leavesFor := leaves caller isCurrent
      by_cases isCaller : pid = caller
      · simp only [if_pos isCaller] at leavesFor ⊢
        exact ⟨placed.currentExit code, placed.currentExit_keepsDead leavesFor⟩
      · simp only [if_neg isCaller] at leavesFor ⊢
        split
        · next allowed =>
          have notCurrent : scheduler.current ≠ some pid := by
            rw [isCurrent]
            rintro ⟨⟩
            exact isCaller rfl
          exact ⟨placed.kill pid code notCurrent, kill_keepsDead (leavesFor allowed)⟩
        · exact ⟨placed, .refl _⟩

theorem performAll_snoc (scheduler : Scheduler) (calls : List Call) (call : Call) :
    scheduler.performAll (calls ++ [call]) = (scheduler.performAll calls).perform call := by
  simp [performAll]

theorem placed_performAll {calls : List Call}
    (leaves : ∀ before call, before ++ [call] <+: calls →
      (boot.performAll before).LeavesDead call) :
    (boot.performAll calls).Placed := by
  induction calls using List.reverseRecOn with
  | nil => exact placed_boot
  | append_singleton calls call induction =>
    rw [performAll_snoc]
    refine (Placed.perform (induction ?_) (leaves calls call (List.prefix_refl _))).1
    intro before earlier isPrefix
    exact leaves before earlier (isPrefix.trans (List.prefix_append _ _))

theorem keepsDead_performAll {before after : List Call}
    (leaves : ∀ earlier call, earlier ++ [call] <+: before ++ after →
      (boot.performAll earlier).LeavesDead call) :
    KeepsDead (boot.performAll before) (boot.performAll (before ++ after)) := by
  induction after using List.reverseRecOn with
  | nil =>
    rw [List.append_nil]
    exact .refl _
  | append_singleton after call induction =>
    have wholePrefix : (before ++ after) ++ [call] <+: before ++ (after ++ [call]) := by
      rw [List.append_assoc]
    have leavesEarlier : ∀ earlier other, earlier ++ [other] <+: before ++ after →
        (boot.performAll earlier).LeavesDead other := fun earlier other isPrefix =>
      leaves earlier other ((isPrefix.trans (List.prefix_append _ _)).trans wholePrefix)
    rw [← List.append_assoc, performAll_snoc]
    exact (induction leavesEarlier).trans
      (Placed.perform (placed_performAll leavesEarlier) (leaves _ call wholePrefix)).2

/-- Death is final in every run from boot whose calls leave the dead alone. -/
theorem death_is_final (calls : List Call)
    (leaves : ∀ before call, before ++ [call] <+: calls →
      (boot.performAll before).LeavesDead call) :
    DeathFinal calls := by
  intro before after isPrefix pid code dead
  have leavesPart : ∀ earlier call, earlier ++ [call] <+: before ++ after →
      (boot.performAll earlier).LeavesDead call := fun earlier call partPrefix =>
    leaves earlier call (partPrefix.trans isPrefix)
  rcases dead with ⟨task, found, isDead, codeEqual⟩
  have kept := keepsDead_performAll leavesPart pid task found isDead
  have stillDead : (boot.performAll (before ++ after)).stateOf pid = some .dead := by
    simp [stateOf, kept, isDead]
  exact ⟨⟨task, kept, isDead, codeEqual⟩, (placed_performAll leavesPart).of_dead stillDead⟩

theorem forall_calls_of_forall_lt {calls : List Call} {Condition : List Call → Call → Prop}
    (checked : ∀ position (inside : position < calls.length),
      Condition (calls.take position) (calls.get ⟨position, inside⟩)) :
    ∀ before call, before ++ [call] <+: calls → Condition before call := by
  rintro before call ⟨after, rfl⟩
  have here := checked before.length (by simp)
  simpa using here

/-- Spring spawns a child and kills it while it is still queued; nothing brings it back. -/
theorem death_is_final_queued_child :
    (boot.performAll [.schedule, .spawn 2, .sysKill 3 7]).DeadWith 3 7 ∧
      DeathFinal [.schedule, .spawn 2, .sysKill 3 7, .wakeAll 0x1000, .schedule] := by
  refine ⟨⟨{ id := 3, parent := 2, exitCode := 7, state := .dead }, by decide, rfl, rfl⟩,
    death_is_final _ (forall_calls_of_forall_lt ?_)⟩
  have nobodyWaits : (boot.performAll [.schedule, .spawn 2]).waitQueues = [] := by decide
  have nobodyWaitsLater :
      (boot.performAll [.schedule, .spawn 2, .sysKill 3 7]).waitQueues = [] := by decide
  have childReady : (boot.performAll [.schedule, .spawn 2]).findTask 3 =
      some { id := 3, parent := 2, exitCode := 0, state := .ready } := by decide
  have springCurrent : (boot.performAll [.schedule, .spawn 2]).current = some 2 := by decide
  intro position inside
  match position, inside with
  | 0, _ => trivial
  | 1, _ => trivial
  | 2, _ =>
    intro caller isCurrent
    have isSpring : caller = 2 := by
      have same := springCurrent.symm.trans isCurrent
      exact (Option.some.inj same).symm
    subst isSpring
    intro _ target found
    cases childReady.symm.trans found
    refine ⟨nofun, fun pid parked => ?_⟩
    exact absurd (nobodyWaits ▸ parked) List.not_mem_nil
  | 3, _ => exact fun pid parked => absurd (nobodyWaitsLater ▸ parked) List.not_mem_nil
  | 4, _ => trivial

/-- Spring's child blocks, is killed with code 7 while parked, and the next wake of the
key it was parked on makes it ready again. -/
theorem death_is_not_final :
    ¬DeathFinal [.schedule, .spawn 2, .schedule, .schedule, .blockOn 0x1000, .sysKill 3 7,
      .wakeAll 0x1000] := by
  intro final
  have revived := final
    [.schedule, .spawn 2, .schedule, .schedule, .blockOn 0x1000, .sysKill 3 7]
    [.wakeAll 0x1000] (List.prefix_refl _) 3 7
    ⟨{ id := 3, parent := 2, exitCode := 7, state := .dead }, by decide, rfl, rfl⟩
  exact absurd revived.2.2 (by decide)

end Scheduler

end PersonaOS.Sched
