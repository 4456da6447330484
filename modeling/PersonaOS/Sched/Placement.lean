import PersonaOS.Foundation.Trace
import PersonaOS.Sched.Scheduler

/-! # Every live task has exactly one place

A task is current, on the run queue or on a wait queue, and its state says which. The
invariant below counts the places of a task and ties the counts to its state; it is kept
by every operation, a `block_on` with nothing to switch to excepted. From boot that
exception never arises as long as the idle task is left alone. -/

namespace PersonaOS.Sched.Scheduler

/-! ## Counting places -/

def atCurrent (scheduler : Scheduler) (pid : TaskId) : Nat :=
  if scheduler.current = some pid then 1 else 0

def inRunQueue (scheduler : Scheduler) (pid : TaskId) : Nat :=
  scheduler.runQueue.count pid

def inWaitQueues (scheduler : Scheduler) (pid : TaskId) : Nat :=
  (scheduler.waitQueues.map Prod.snd).count pid

/-- How often the task occurs in `CURRENT + RUN_QUEUE + WAIT_QUEUES`. -/
def places (scheduler : Scheduler) (pid : TaskId) : Nat :=
  scheduler.atCurrent pid + scheduler.inRunQueue pid + scheduler.inWaitQueues pid

/-- The places a task may have, given its state: an unregistered id has none; a dead task
may still be parked, since `kill` does not search the wait queues. -/
def Fits : Option TaskState → (current queued parked : Nat) → Prop
  | none, current, queued, parked => current = 0 ∧ queued = 0 ∧ parked = 0
  | some .ready, current, queued, parked => current + queued = 1 ∧ parked = 0
  | some .running, current, queued, parked => current = 1 ∧ queued = 0 ∧ parked = 0
  | some .blocked, current, queued, parked => current = 0 ∧ queued = 0 ∧ parked = 1
  | some .dead, current, queued, parked => current = 0 ∧ queued = 0 ∧ parked ≤ 1

/-- Each task is where its state says, and unused ids are nowhere. -/
structure Placed (scheduler : Scheduler) : Prop where
  distinct : scheduler.ids.Nodup
  fresh : ∀ pid, scheduler.nextId ≤ pid → scheduler.stateOf pid = none
  fits : ∀ pid, Fits (scheduler.stateOf pid) (scheduler.atCurrent pid)
    (scheduler.inRunQueue pid) (scheduler.inWaitQueues pid)

theorem placed_boot : boot.Placed where
  distinct := by decide
  fresh := by
    intro pid unused
    have notIdle : (1 == pid) = false :=
      beq_eq_false_iff_ne.mpr (Nat.ne_of_lt (Nat.lt_of_lt_of_le (by decide) unused))
    have notSpring : (2 == pid) = false :=
      beq_eq_false_iff_ne.mpr (Nat.ne_of_lt (Nat.lt_of_lt_of_le (by decide) unused))
    simp [stateOf, findTask, boot, idleId, notIdle, notSpring]
  fits := by
    intro pid
    by_cases isIdle : pid = 1
    · subst isIdle
      exact ⟨rfl, rfl⟩
    · by_cases isSpring : pid = 2
      · subst isSpring
        exact ⟨rfl, rfl⟩
      · have notIdle : ¬1 = pid := fun equal => isIdle equal.symm
        have notSpring : ¬2 = pid := fun equal => isSpring equal.symm
        simp [Fits, stateOf, findTask, boot, idleId, atCurrent, inRunQueue, inWaitQueues,
          notIdle, notSpring]

/-! ## Reading the invariant -/

section Reading

variable {scheduler : Scheduler} (placed : scheduler.Placed) {pid : TaskId}
include placed

theorem Placed.of_queued (queued : pid ∈ scheduler.runQueue) :
    scheduler.stateOf pid = some .ready ∧ scheduler.inRunQueue pid = 1 ∧
      scheduler.atCurrent pid = 0 ∧ scheduler.inWaitQueues pid = 0 := by
  have positive : 0 < scheduler.inRunQueue pid := List.count_pos_iff.mpr queued
  have fits := placed.fits pid
  cases found : scheduler.stateOf pid with
  | none =>
    simp only [found, Fits] at fits
    omega
  | some state =>
    rw [found] at fits
    cases state <;> simp only [Fits] at fits <;> first | omega | skip
    exact ⟨rfl, by omega, by omega, by omega⟩

theorem Placed.of_current (isCurrent : scheduler.current = some pid) :
    (scheduler.stateOf pid = some .ready ∨ scheduler.stateOf pid = some .running) ∧
      scheduler.inRunQueue pid = 0 ∧ scheduler.inWaitQueues pid = 0 := by
  have fits := placed.fits pid
  simp only [atCurrent, isCurrent, if_true] at fits
  cases found : scheduler.stateOf pid with
  | none => simp [found, Fits] at fits
  | some state =>
    rw [found] at fits
    cases state <;> simp [Fits] at fits ⊢ <;> omega

theorem Placed.of_dead (dead : scheduler.stateOf pid = some .dead) :
    scheduler.current ≠ some pid ∧ pid ∉ scheduler.runQueue := by
  constructor
  · intro isCurrent
    rcases (placed.of_current isCurrent).1 with ready | running
    · simp [dead] at ready
    · simp [dead] at running
  · intro queued
    have ready := (placed.of_queued queued).1
    simp [dead] at ready

end Reading

/-! ## The operations keep it -/

section Keeping

variable {scheduler : Scheduler} (placed : scheduler.Placed)
include placed

private theorem Placed.schedule_of_nobody (nobody : scheduler.current = none) :
    scheduler.schedule.Placed := by
  cases queued : scheduler.runQueue with
  | nil =>
    rw [schedule_of_empty _ queued]
    exact placed
  | cons next rest =>
    rcases placed.of_queued (by simp [queued] : next ∈ scheduler.runQueue) with
      ⟨nextReady, nextOnce, _, nextNotParked⟩
    have notInRest : rest.count next = 0 := by
      simpa [inRunQueue, queued] using nextOnce
    rcases scheduler.schedule_of_nobody nobody queued with
      ⟨nextCurrent, restQueued, states⟩
    constructor
    · rw [ids_schedule]
      exact placed.distinct
    · intro pid unused
      rw [schedule_nextId] at unused
      rw [states, placed.fresh pid unused]
      simp
    · intro pid
      have fits := placed.fits pid
      simp only [atCurrent, inRunQueue, inWaitQueues, nobody, queued] at fits
      simp only [atCurrent, inRunQueue, inWaitQueues, nextCurrent, restQueued,
        schedule_waitQueues, states]
      by_cases isNext : pid = next
      · subst isNext
        simp only [if_true, nextReady, Option.map_some, Fits]
        exact ⟨trivial, notInRest, nextNotParked⟩
      · have nextOther : ¬next = pid := fun equal => isNext equal.symm
        simpa [isNext, nextOther, List.count_cons] using fits

private theorem Placed.vacate : scheduler.vacate.Placed := by
  cases isCurrent : scheduler.current with
  | none =>
    have unchanged : scheduler.vacate = scheduler := by
      cases scheduler
      simp_all [Scheduler.vacate, requeue]
    rw [unchanged]
    exact placed
  | some previous =>
    rcases placed.of_current isCurrent with ⟨canRun, notQueued, notParked⟩
    have shape : scheduler.vacate =
        { (scheduler.setState previous .ready).enqueue previous with current := none } := by
      rw [Scheduler.vacate, isCurrent, requeue, if_pos canRun]
    have states : ∀ pid, scheduler.vacate.stateOf pid =
        if pid = previous then (scheduler.stateOf pid).map fun _ => .ready
        else scheduler.stateOf pid := by
      intro pid
      rw [shape]
      exact stateOf_setState scheduler previous pid .ready
    constructor
    · rw [shape]
      change (scheduler.setState previous .ready).ids.Nodup
      rw [ids_setState]
      exact placed.distinct
    · intro pid unused
      have unknown : scheduler.stateOf pid = none := by
        apply placed.fresh
        simpa [shape, enqueue] using unused
      rw [states, unknown]
      simp
    · intro pid
      have fits := placed.fits pid
      rw [states]
      simp only [atCurrent, inRunQueue, inWaitQueues, isCurrent] at fits
      simp only [shape, atCurrent, inRunQueue, inWaitQueues, enqueue, setState_runQueue,
        setState_waitQueues, List.count_append]
      by_cases isPrevious : pid = previous
      · subst isPrevious
        have readyNow : ((scheduler.stateOf pid).map fun _ => TaskState.ready) =
            some .ready := by
          rcases canRun with ready | running
          · simp [ready]
          · simp [running]
        simp only [if_true, readyNow, Fits]
        simp only [inRunQueue] at notQueued
        exact ⟨by simp [notQueued], notParked⟩
      · have previousOther : ¬previous = pid := fun equal => isPrevious equal.symm
        simpa [isPrevious, previousOther] using fits

theorem Placed.schedule : scheduler.schedule.Placed := by
  cases queued : scheduler.runQueue with
  | nil =>
    rw [schedule_of_empty _ queued]
    exact placed
  | cons next rest =>
    rw [schedule_vacate _ queued]
    exact placed.vacate.schedule_of_nobody rfl

theorem Placed.spawn (parent : TaskId) : (scheduler.spawn parent).Placed := by
  have unknown := placed.fresh scheduler.nextId (Nat.le_refl _)
  constructor
  · rw [ids_spawn]
    exact List.nodup_append.mpr ⟨placed.distinct, by simp, by
      intro pid member new isNew equal
      rw [List.mem_singleton.mp isNew] at equal
      exact stateOf_eq_none.mp unknown (equal ▸ member)⟩
  · intro pid unused
    rw [spawn_nextId] at unused
    have newOther : pid ≠ scheduler.nextId := Nat.ne_of_gt unused
    rw [stateOf_spawn _ _ _ unknown, if_neg newOther]
    exact placed.fresh pid (Nat.le_of_succ_le unused)
  · intro pid
    have fits := placed.fits pid
    rw [stateOf_spawn _ _ _ unknown]
    change Fits _ (scheduler.atCurrent pid)
      ((scheduler.runQueue ++ [scheduler.nextId]).count pid) (scheduler.inWaitQueues pid)
    rw [List.count_append]
    by_cases isNew : pid = scheduler.nextId
    · subst isNew
      rw [unknown] at fits
      rcases fits with ⟨notCurrent, notQueued, notParked⟩
      rw [inRunQueue] at notQueued
      rw [if_pos rfl, notCurrent, notQueued, notParked, List.count_singleton_self]
      exact ⟨rfl, rfl⟩
    · have notNew : [scheduler.nextId].count pid = 0 :=
        List.count_eq_zero.mpr fun member => isNew (List.mem_singleton.mp member)
      rw [if_neg isNew, notNew, Nat.add_zero]
      exact fits

omit placed in
theorem wakeAll_counts (key : WaitKey) (pid : TaskId) :
    (scheduler.wakeAll key).inRunQueue pid =
        scheduler.inRunQueue pid + (scheduler.wokenBy key).count pid ∧
      (scheduler.wakeAll key).inWaitQueues pid + (scheduler.wokenBy key).count pid =
        scheduler.inWaitQueues pid := by
  constructor
  · rw [inRunQueue, wakeAll_runQueue, List.count_append, inRunQueue]
  · have kept := ((wakeAll_waitQueues_perm scheduler key).map Prod.snd).count_eq pid
    have woken := ((swapDrain_removed_perm (fun entry => entry.1 == key)
      scheduler.waitQueues).map Prod.snd).count_eq pid
    have whole := (List.filter_append_perm (fun entry => entry.1 == key)
      scheduler.waitQueues).map Prod.snd
    have total := whole.count_eq pid
    rw [List.map_append, List.count_append] at total
    rw [inWaitQueues, wokenBy, kept, woken, inWaitQueues, ← total, Nat.add_comm]

theorem Placed.wakeAll (key : WaitKey) : (scheduler.wakeAll key).Placed := by
  constructor
  · rw [ids_wakeAll]
    exact placed.distinct
  · intro pid unused
    rw [wakeAll_nextId] at unused
    rw [stateOf_wakeAll, placed.fresh pid unused]
    simp
  · intro pid
    have fits := placed.fits pid
    rcases scheduler.wakeAll_counts key pid with ⟨queuedNow, parkedNow⟩
    have sameCurrent : (scheduler.wakeAll key).atCurrent pid = scheduler.atCurrent pid := by
      simp [atCurrent]
    rw [sameCurrent, queuedNow, stateOf_wakeAll]
    by_cases parked : (key, pid) ∈ scheduler.waitQueues
    · have woken : 0 < (scheduler.wokenBy key).count pid :=
        List.count_pos_iff.mpr (mem_wokenBy.mpr parked)
      rw [if_pos parked]
      -- Only a blocked or a dead task is parked, once, and it is nowhere else.
      cases found : scheduler.stateOf pid with
      | none =>
        rw [found] at fits
        rcases fits with ⟨_, _, notParked⟩
        omega
      | some state =>
        rw [found] at fits
        cases state <;> simp only [Fits, Option.map_some] at fits ⊢ <;> omega
    · have notWoken : (scheduler.wokenBy key).count pid = 0 :=
        List.count_eq_zero.mpr fun member => parked (mem_wokenBy.mp member)
      rw [notWoken, Nat.add_zero] at parkedNow
      rw [if_neg parked, notWoken, Nat.add_zero, parkedNow]
      exact fits

theorem Placed.park {pid : TaskId} (key : WaitKey) (isCurrent : scheduler.current = some pid) :
    Placed { scheduler.park key pid with current := none } := by
  rcases placed.of_current isCurrent with ⟨canRun, notQueued, notParked⟩
  have states : ∀ other, stateOf { scheduler.park key pid with current := none } other =
      if other = pid then (scheduler.stateOf other).map fun _ => .blocked
      else scheduler.stateOf other := fun other =>
    stateOf_setState scheduler pid other .blocked
  constructor
  · change (scheduler.setState pid .blocked).ids.Nodup
    rw [ids_setState]
    exact placed.distinct
  · intro other unused
    rw [states, placed.fresh other unused]
    simp
  · intro other
    have fits := placed.fits other
    rw [states]
    change Fits _ 0 (scheduler.inRunQueue other)
      (((scheduler.waitQueues ++ [(key, pid)]).map Prod.snd).count other)
    rw [List.map_append, List.count_append]
    by_cases isPid : other = pid
    · subst isPid
      have blockedNow : ((scheduler.stateOf other).map fun _ => TaskState.blocked) =
          some .blocked := by
        rcases canRun with ready | running
        · simp [ready]
        · simp [running]
      rw [inWaitQueues] at notParked
      rw [if_pos rfl, blockedNow, notQueued, notParked]
      exact ⟨rfl, rfl, by simp⟩
    · have notPid : ([(key, pid)].map Prod.snd).count other = 0 :=
        List.count_eq_zero.mpr fun member => isPid (List.mem_singleton.mp member)
      have elsewhere : scheduler.atCurrent other = 0 := by
        rw [atCurrent, isCurrent, if_neg]
        rintro ⟨⟩
        exact isPid rfl
      rw [if_neg isPid, notPid, Nat.add_zero]
      rw [elsewhere] at fits
      exact fits

theorem Placed.blockOn (key : WaitKey) (somebody : scheduler.runQueue ≠ []) :
    (scheduler.blockOn key).Placed := by
  cases isCurrent : scheduler.current with
  | none =>
    rw [Scheduler.blockOn, isCurrent]
    exact placed.schedule
  | some pid =>
    rcases List.exists_cons_of_ne_nil somebody with ⟨next, rest, queued⟩
    rw [blockOn_eq _ isCurrent queued]
    exact (placed.park key isCurrent).schedule

theorem Placed.markDead {marked : Scheduler} {pid : TaskId} {code : Int}
    (sameTasks : marked.tasks = (scheduler.markDead pid code).tasks)
    (sameNextId : marked.nextId = scheduler.nextId)
    (gone : marked.atCurrent pid = 0 ∧ marked.inRunQueue pid = 0)
    (others : ∀ other, other ≠ pid → marked.atCurrent other = scheduler.atCurrent other ∧
      marked.inRunQueue other = scheduler.inRunQueue other)
    (sameParked : marked.waitQueues = scheduler.waitQueues) : marked.Placed := by
  have states : ∀ other, marked.stateOf other =
      if other = pid then (scheduler.stateOf other).map fun _ => .dead
      else scheduler.stateOf other := by
    intro other
    rw [← stateOf_markDead scheduler pid other code]
    simp [stateOf, findTask, sameTasks]
  constructor
  · have sameIds : marked.ids = (scheduler.markDead pid code).ids := by
      rw [ids, sameTasks, ids]
    rw [sameIds, ids_markDead]
    exact placed.distinct
  · intro other unused
    rw [sameNextId] at unused
    rw [states, placed.fresh other unused]
    simp
  · intro other
    have fits := placed.fits other
    have parked : marked.inWaitQueues other = scheduler.inWaitQueues other := by
      rw [inWaitQueues, sameParked, inWaitQueues]
    rw [states, parked]
    by_cases isPid : other = pid
    · subst isPid
      rw [if_pos rfl, gone.1, gone.2]
      cases found : scheduler.stateOf other with
      | none =>
        rw [found] at fits
        exact ⟨rfl, rfl, fits.2.2⟩
      | some state =>
        rw [found] at fits
        cases state <;> simp only [Fits] at fits <;> exact ⟨rfl, rfl, by omega⟩
    · rw [if_neg isPid, (others other isPid).1, (others other isPid).2]
      exact fits

theorem Placed.kill (pid : TaskId) (code : Int) (notCurrent : scheduler.current ≠ some pid) :
    (scheduler.kill pid code).Placed := by
  cases found : scheduler.findTask pid with
  | none =>
    rw [kill_of_unknown _ _ found]
    exact placed
  | some target =>
    rw [kill_eq _ _ found]
    apply Placed.wakeAll
    have drained := swapDrain_kept_perm (fun other => other == pid) scheduler.runQueue
    refine placed.markDead rfl rfl ⟨?_, ?_⟩ ?_ rfl
    · exact if_neg notCurrent
    · change (swapDrain (fun other => other == pid) scheduler.runQueue).1.count pid = 0
      rw [drained.count_eq, List.count_eq_zero, List.mem_filter]
      simp
    · intro other different
      refine ⟨rfl, ?_⟩
      change (swapDrain (fun other => other == pid) scheduler.runQueue).1.count other = _
      rw [drained.count_eq, List.count_filter (by simpa using different), inRunQueue]

theorem Placed.leave {pid : TaskId} (code : Int) (isCurrent : scheduler.current = some pid) :
    Placed { scheduler.markDead pid code with current := none } := by
  refine placed.markDead rfl rfl ⟨rfl, (placed.of_current isCurrent).2.1⟩ ?_ rfl
  intro other different
  refine ⟨?_, rfl⟩
  rw [atCurrent, atCurrent, isCurrent]
  simp [different.symm]

theorem Placed.findTask_of_current {pid : TaskId} (isCurrent : scheduler.current = some pid) :
    ∃ task, scheduler.findTask pid = some task := by
  have canRun := (placed.of_current isCurrent).1
  cases found : scheduler.findTask pid with
  | none => simp [stateOf, found] at canRun
  | some task => exact ⟨task, rfl⟩

theorem Placed.currentExit (code : Int) : (scheduler.currentExit code).Placed := by
  cases isCurrent : scheduler.current with
  | none =>
    rw [currentExit_of_nobody _ _ isCurrent]
    exact placed.schedule
  | some pid =>
    rcases placed.findTask_of_current isCurrent with ⟨task, found⟩
    rw [currentExit_eq _ _ isCurrent found]
    exact ((placed.leave code isCurrent).wakeAll _).schedule

end Keeping

/-! ## Runs that leave the idle task alone -/

inductive Event where
  | enqueue (parent : TaskId)
  | schedule
  | blockOn (key : WaitKey)
  | wakeAll (key : WaitKey)
  | kill (pid : TaskId) (code : Int)
  | currentExit (code : Int)
  deriving DecidableEq, Repr

/-- The operations that may happen next: only a current task other than the idle task
blocks or exits, and a kill targets neither the current nor the idle task. -/
inductive Step : Scheduler → Event → Scheduler → Prop
  | enqueue (scheduler parent) : Step scheduler (.enqueue parent) (scheduler.spawn parent)
  | schedule (scheduler) : Step scheduler .schedule scheduler.schedule
  | blockOn {scheduler pid} (key) :
      scheduler.current = some pid → pid ≠ idleId →
      Step scheduler (.blockOn key) (scheduler.blockOn key)
  | wakeAll (scheduler key) : Step scheduler (.wakeAll key) (scheduler.wakeAll key)
  | kill {scheduler} (pid code) :
      scheduler.current ≠ some pid → pid ≠ idleId →
      Step scheduler (.kill pid code) (scheduler.kill pid code)
  | currentExit {scheduler pid} (code) :
      scheduler.current = some pid → pid ≠ idleId →
      Step scheduler (.currentExit code) (scheduler.currentExit code)

def CanRun (scheduler : Scheduler) (pid : TaskId) : Prop :=
  scheduler.stateOf pid = some .ready ∨ scheduler.stateOf pid = some .running

theorem CanRun.queued {scheduler : Scheduler} {pid other : TaskId}
    (canRun : scheduler.CanRun other) (placed : scheduler.Placed)
    (isCurrent : scheduler.current = some pid) (different : pid ≠ other) :
    scheduler.runQueue ≠ [] := by
  have fits := placed.fits other
  have elsewhere : scheduler.atCurrent other = 0 := by
    rw [atCurrent, isCurrent]
    simp [different]
  have queued : 0 < scheduler.inRunQueue other := by
    rw [elsewhere] at fits
    rcases canRun with ready | running
    · rw [ready] at fits
      simp only [Fits] at fits
      omega
    · rw [running] at fits
      simp only [Fits] at fits
      omega
  exact List.ne_nil_of_mem (List.count_pos_iff.mp queued)

section CanRun

variable {scheduler : Scheduler} {pid other : TaskId} (canRun : scheduler.CanRun other)
include canRun

theorem CanRun.setState {state : TaskState}
    (harmless : other ≠ pid ∨ state = .ready ∨ state = .running) :
    (scheduler.setState pid state).CanRun other := by
  unfold CanRun at canRun ⊢
  rw [stateOf_setState]
  by_cases same : other = pid
  · have known : ((scheduler.stateOf other).map fun _ => state) = some state := by
      rcases canRun with ready | running
      · simp [ready]
      · simp [running]
    rcases harmless with different | settled
    · exact absurd same different
    · rw [if_pos same, known]
      simpa using settled
  · simpa [same] using canRun

theorem CanRun.requeue (previous : Option TaskId) :
    (scheduler.requeue previous).CanRun other := by
  unfold Scheduler.requeue
  split
  · exact canRun
  · split
    · exact canRun.setState (.inr (.inl rfl))
    · exact canRun

theorem CanRun.schedule : scheduler.schedule.CanRun other := by
  cases queued : scheduler.runQueue with
  | nil =>
    rw [schedule_of_empty _ queued]
    exact canRun
  | cons next rest =>
    have canRunRest : CanRun { scheduler with runQueue := rest } other := canRun
    rw [schedule_of_cons _ queued]
    exact (canRunRest.requeue scheduler.current).setState (.inr (.inr rfl))

theorem CanRun.wakeAll (key : WaitKey) : (scheduler.wakeAll key).CanRun other := by
  unfold CanRun at canRun ⊢
  rw [stateOf_wakeAll]
  split
  · rcases canRun with ready | running
    · simp [ready]
    · simp [running]
  · exact canRun

theorem CanRun.blockOn (key : WaitKey) (isCurrent : scheduler.current = some pid)
    (different : other ≠ pid) : (scheduler.blockOn key).CanRun other := by
  rw [Scheduler.blockOn, isCurrent]
  have parked : (scheduler.park key pid).CanRun other :=
    canRun.setState (.inl different)
  exact parked.schedule

theorem CanRun.markDead {code : Int} (different : other ≠ pid) :
    (scheduler.markDead pid code).CanRun other := by
  unfold CanRun at canRun ⊢
  rw [stateOf_markDead, if_neg different]
  exact canRun

theorem CanRun.kill (code : Int) (different : other ≠ pid) :
    (scheduler.kill pid code).CanRun other := by
  cases found : scheduler.findTask pid with
  | none =>
    rw [kill_of_unknown _ _ found]
    exact canRun
  | some target =>
    rw [kill_eq _ _ found]
    apply CanRun.wakeAll
    exact canRun.markDead different

theorem CanRun.currentExit (placed : scheduler.Placed) (code : Int)
    (isCurrent : scheduler.current = some pid) (different : other ≠ pid) :
    (scheduler.currentExit code).CanRun other := by
  rcases placed.findTask_of_current isCurrent with ⟨task, found⟩
  rw [currentExit_eq _ _ isCurrent found]
  apply CanRun.schedule
  apply CanRun.wakeAll
  exact canRun.markDead different

theorem CanRun.spawn (placed : scheduler.Placed) (parent : TaskId) :
    (scheduler.spawn parent).CanRun other := by
  have unknown := placed.fresh scheduler.nextId (Nat.le_refl _)
  unfold CanRun at canRun ⊢
  rw [stateOf_spawn _ _ _ unknown]
  split
  · exact .inl rfl
  · exact canRun

end CanRun

/-- The invariant of the runs: every task is where its state says, and the idle task
can run. -/
theorem placed_step {current next : Scheduler} {event : Event}
    (invariant : current.Placed ∧ current.CanRun idleId)
    (step : Step current event next) : next.Placed ∧ next.CanRun idleId := by
  rcases invariant with ⟨placed, idle⟩
  cases step with
  | enqueue parent => exact ⟨placed.spawn parent, idle.spawn placed parent⟩
  | schedule => exact ⟨placed.schedule, idle.schedule⟩
  | blockOn key isCurrent other =>
    exact ⟨placed.blockOn key (idle.queued placed isCurrent other),
      idle.blockOn key isCurrent other.symm⟩
  | wakeAll key => exact ⟨placed.wakeAll key, idle.wakeAll key⟩
  | kill pid code notCurrent other =>
    exact ⟨placed.kill pid code notCurrent, idle.kill code other.symm⟩
  | currentExit code isCurrent other =>
    exact ⟨placed.currentExit code, idle.currentExit placed code isCurrent other.symm⟩

private theorem find?_of_mem {tasks : List Task} {task : Task}
    (distinct : (tasks.map Task.id).Nodup) (member : task ∈ tasks) :
    tasks.find? (fun other => other.id == task.id) = some task := by
  induction tasks with
  | nil => cases member
  | cons head tail induction =>
    rw [List.map_cons, List.nodup_cons] at distinct
    rcases List.mem_cons.mp member with rfl | inTail
    · simp
    · have different : (head.id == task.id) = false := by
        rw [beq_eq_false_iff_ne]
        intro same
        exact distinct.1 (same ▸ List.mem_map_of_mem inTail)
      rw [List.find?_cons, different]
      exact induction distinct.2 inTail

theorem Placed.findTask_of_mem {scheduler : Scheduler} (placed : scheduler.Placed)
    {task : Task} (member : task ∈ scheduler.tasks) :
    scheduler.findTask task.id = some task :=
  find?_of_mem placed.distinct member

/-- In every reachable state each registered task that is not dead occurs exactly once
among the current task, the run queue and the wait queues, and its state says where. -/
theorem live_task_has_one_place {events : List Event} {scheduler : Scheduler}
    (trace : Trace Step boot events scheduler) {task : Task}
    (registered : task ∈ scheduler.tasks) (alive : task.state ≠ .dead) :
    scheduler.places task.id = 1 ∧
      (scheduler.current = some task.id → task.state = .running ∨ task.state = .ready) ∧
      (task.id ∈ scheduler.runQueue → task.state = .ready) ∧
      (task.id ∈ scheduler.waitQueues.map Prod.snd → task.state = .blocked) := by
  have bootRuns : boot.CanRun idleId := .inl rfl
  have placed := (trace.invariant (fun state => state.Placed ∧ state.CanRun idleId)
    placed_step ⟨placed_boot, bootRuns⟩).1
  have fits := placed.fits task.id
  rw [stateOf, placed.findTask_of_mem registered] at fits
  have queuedCount : task.id ∈ scheduler.runQueue → 0 < scheduler.inRunQueue task.id :=
    List.count_pos_iff.mpr
  have parkedCount : task.id ∈ scheduler.waitQueues.map Prod.snd →
      0 < scheduler.inWaitQueues task.id := List.count_pos_iff.mpr
  have currentCount : scheduler.current = some task.id → scheduler.atCurrent task.id = 1 :=
    fun isCurrent => if_pos isCurrent
  unfold places
  cases state : task.state <;> simp only [state, Fits, Option.map_some] at fits
  case dead => exact absurd state alive
  all_goals
    refine ⟨by omega, fun isCurrent => ?_, fun queued => ?_, fun parked => ?_⟩
    · have := currentCount isCurrent
      first | exact .inl rfl | exact .inr rfl | omega
    · have := queuedCount queued
      first | rfl | omega
    · have := parkedCount parked
      first | rfl | omega

/-- Spring spawns a child, the child gets the processor and blocks. -/
def blockedChild : Scheduler :=
  ((((boot.schedule).spawn 2).schedule).schedule).blockOn 0x1000

theorem blockedChild_reached : Trace Step boot
    [.schedule, .enqueue 2, .schedule, .schedule, .blockOn 0x1000] blockedChild := by
  have childCurrent : ((((boot.schedule).spawn 2).schedule).schedule).current = some 3 := by
    decide
  exact .cons (.schedule _) (.cons (.enqueue _ _) (.cons (.schedule _) (.cons (.schedule _)
    (.cons (.blockOn _ childCurrent (by decide)) (.nil _)))))

theorem blockedChild_has_one_place :
    { id := 3, parent := 2, exitCode := 0, state := .blocked } ∈ blockedChild.tasks ∧
      blockedChild.places 3 = 1 := by
  have registered :
      { id := 3, parent := 2, exitCode := 0, state := .blocked } ∈ blockedChild.tasks := by
    decide
  exact ⟨registered,
    (live_task_has_one_place blockedChild_reached registered (by decide)).1⟩

end PersonaOS.Sched.Scheduler
