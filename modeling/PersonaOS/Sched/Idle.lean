import PersonaOS.Sched.Death

/-! # There is always something to switch to

The idle task is there so that the run queue is never empty: whenever another task is
current, the idle task waits on the run queue. It never blocks or exits of its own
accord, and it has no parent, so of all tasks only process 2 may kill it. As long as that
does not happen, a task that blocks or exits is left for another one; once it has
happened, a task that blocks with nobody else ready keeps running. -/

namespace PersonaOS.Sched.Scheduler

/-! ## Parents never change -/

def parents (scheduler : Scheduler) : List (TaskId × TaskId) :=
  scheduler.tasks.map fun task => (task.id, task.parent)

section Parents

variable (scheduler : Scheduler)

theorem parents_modifyTask (pid : TaskId) (change : Task → Task)
    (keeps : ∀ task, (change task).id = task.id ∧ (change task).parent = task.parent) :
    (scheduler.modifyTask pid change).parents = scheduler.parents := by
  simp only [parents, modifyTask, List.map_map]
  apply List.map_congr_left
  intro task _
  simp only [Function.comp_apply]
  split
  · rw [(keeps task).1, (keeps task).2]
  · rfl

theorem parents_setState (pid : TaskId) (state : TaskState) :
    (scheduler.setState pid state).parents = scheduler.parents :=
  scheduler.parents_modifyTask pid _ fun _ => ⟨rfl, rfl⟩

theorem parents_markDead (pid : TaskId) (code : Int) :
    (scheduler.markDead pid code).parents = scheduler.parents :=
  (parents_setState _ pid .dead).trans
    (scheduler.parents_modifyTask pid _ fun _ => ⟨rfl, rfl⟩)

theorem parents_wakeAll (key : WaitKey) :
    (scheduler.wakeAll key).parents = scheduler.parents := by
  have wakes : ∀ (woken : List TaskId) (scheduler : Scheduler),
      (scheduler.wake woken).parents = scheduler.parents := by
    intro woken
    induction woken with
    | nil => exact fun _ => rfl
    | cons head tail induction =>
      intro scheduler
      exact (induction _).trans (parents_setState scheduler head .ready)
  rw [wakeAll_eq, wakes]
  rfl

theorem parents_schedule : scheduler.schedule.parents = scheduler.parents := by
  cases queued : scheduler.runQueue with
  | nil => rw [schedule_of_empty _ queued]
  | cons next rest =>
    have requeued : ({ scheduler with runQueue := rest }.requeue scheduler.current).parents =
        scheduler.parents := by
      unfold requeue
      split
      · rfl
      · split
        · exact parents_setState scheduler _ .ready
        · rfl
    rw [schedule_of_cons _ queued]
    exact (parents_setState _ next .running).trans requeued

theorem parents_blockOn (key : WaitKey) :
    (scheduler.blockOn key).parents = scheduler.parents := by
  rw [blockOn]
  split
  · next pid _ => exact (parents_schedule _).trans (parents_setState scheduler pid .blocked)
  · exact parents_schedule scheduler

theorem parents_kill (pid : TaskId) (code : Int) :
    (scheduler.kill pid code).parents = scheduler.parents := by
  cases found : scheduler.findTask pid with
  | none => rw [kill_of_unknown _ _ found]
  | some target =>
    rw [kill_eq _ _ found]
    exact (parents_wakeAll _ _).trans (parents_markDead scheduler pid code)

theorem parents_currentExit (code : Int) :
    (scheduler.currentExit code).parents = scheduler.parents := by
  cases isCurrent : scheduler.current with
  | none => rw [currentExit_of_nobody _ _ isCurrent, parents_schedule]
  | some pid =>
    cases found : scheduler.findTask pid with
    | none =>
      rw [currentExit_of_unknown _ _ isCurrent found]
      exact parents_schedule _
    | some task =>
      rw [currentExit_eq _ _ isCurrent found, parents_schedule, parents_wakeAll]
      exact parents_markDead scheduler pid code

theorem parents_spawn (parent : TaskId) :
    (scheduler.spawn parent).parents = scheduler.parents ++ [(scheduler.nextId, parent)] := by
  simp [parents, spawn, register, enqueue]

end Parents

theorem mem_parents_of_findTask {scheduler : Scheduler} {pid : TaskId} {task : Task}
    (found : scheduler.findTask pid = some task) : (pid, task.parent) ∈ scheduler.parents := by
  have isPid : task.id = pid := by simpa using List.find?_some found
  rw [← isPid]
  exact List.mem_map.mpr ⟨task, List.mem_of_find?_eq_some found, rfl⟩

/-! ## Leaving the processor -/

/-- Another task than `pid` runs now. -/
def SwitchedFrom (scheduler : Scheduler) (pid : TaskId) : Prop :=
  ∃ next, next ≠ pid ∧ scheduler.current = some next ∧ scheduler.stateOf next = some .running

theorem Placed.schedule_runs {scheduler : Scheduler} (placed : scheduler.Placed)
    {next : TaskId} {rest : List TaskId} (nobody : scheduler.current = none)
    (queued : scheduler.runQueue = next :: rest) :
    scheduler.schedule.current = some next ∧
      scheduler.schedule.stateOf next = some .running := by
  rcases Scheduler.schedule_of_nobody scheduler nobody queued with ⟨isNext, _, states⟩
  have isQueued : next ∈ scheduler.runQueue := by
    rw [queued]
    exact List.mem_cons_self
  refine ⟨isNext, ?_⟩
  rw [states next, if_pos rfl, (placed.of_queued isQueued).1]
  rfl

section Leaving

variable {scheduler : Scheduler} {pid : TaskId} (placed : scheduler.Placed)
  (isCurrent : scheduler.current = some pid) (somebody : scheduler.runQueue ≠ [])

include placed isCurrent somebody

theorem Placed.exists_next :
    ∃ next rest, scheduler.runQueue = next :: rest ∧ next ≠ pid := by
  rcases List.exists_cons_of_ne_nil somebody with ⟨next, rest, queued⟩
  refine ⟨next, rest, queued, ?_⟩
  rintro rfl
  have notQueued := List.count_eq_zero.mp (placed.of_current isCurrent).2.1
  rw [queued] at notQueued
  exact notQueued List.mem_cons_self

theorem Placed.blockOn_switches (key : WaitKey) : (scheduler.blockOn key).SwitchedFrom pid := by
  rcases placed.exists_next isCurrent somebody with ⟨next, rest, queued, different⟩
  rw [blockOn_eq _ isCurrent queued]
  exact ⟨next, different, (placed.park key isCurrent).schedule_runs rfl queued⟩

theorem Placed.currentExit_switches (code : Int) :
    (scheduler.currentExit code).SwitchedFrom pid := by
  rcases placed.exists_next isCurrent somebody with ⟨next, rest, queued, different⟩
  rcases placed.findTask_of_current isCurrent with ⟨task, found⟩
  have stillQueued : ({ scheduler.markDead pid code with current := none }.wakeAll
      (waitKey task.parent)).runQueue = next :: (rest ++ wokenBy
        { scheduler.markDead pid code with current := none } (waitKey task.parent)) := by
    rw [wakeAll_runQueue, ← List.cons_append]
    exact congrArg (· ++ _) queued
  rw [currentExit_eq _ _ isCurrent found]
  exact ⟨next, different,
    ((placed.leave code isCurrent).wakeAll _).schedule_runs (wakeAll_current _ _) stillQueued⟩

end Leaving

/-! ## Runs -/

/-- What can happen next: the timer ticks, an interrupt wakes tasks, or a task other than
the idle task calls the kernel. The idle task only ever halts. -/
inductive TaskStep : Scheduler → Call → Scheduler → Prop
  | schedule (scheduler) : TaskStep scheduler .schedule scheduler.schedule
  | wakeAll (scheduler key) : TaskStep scheduler (.wakeAll key) (scheduler.wakeAll key)
  | call {scheduler pid} (call) : scheduler.current = some pid → pid ≠ idleId →
      TaskStep scheduler call (scheduler.perform call)

/-- The call is not process 2 killing the idle task. -/
def SparesIdle (scheduler : Scheduler) (call : Call) : Prop :=
  ∀ code, call = .sysKill idleId code → scheduler.current ≠ some 2

/-- The idle task can run and is nobody's child, and somebody is current. -/
structure Idling (scheduler : Scheduler) : Prop where
  placed : scheduler.Placed
  idle : scheduler.CanRun idleId
  occupied : scheduler.current ≠ none
  orphan : ∀ parent, (idleId, parent) ∈ scheduler.parents → parent = 0
  positive : ∀ parent, (0, parent) ∉ scheduler.parents

theorem idling_boot : boot.Idling where
  placed := placed_boot
  idle := .inl rfl
  occupied := by decide
  orphan parent isEntry := by
    simp only [boot, parents, idleId] at isEntry
    simpa using isEntry
  positive parent := by simp [boot, parents, idleId]

theorem SwitchedFrom.occupied {scheduler : Scheduler} {pid : TaskId}
    (switched : scheduler.SwitchedFrom pid) : scheduler.current ≠ none := by
  rcases switched with ⟨next, _, isNext, _⟩
  rw [isNext]
  exact Option.some_ne_none next

theorem schedule_occupied {scheduler : Scheduler} (occupied : scheduler.current ≠ none) :
    scheduler.schedule.current ≠ none := by
  cases queued : scheduler.runQueue with
  | nil => rwa [schedule_of_empty _ queued]
  | cons next rest =>
    rw [schedule_of_cons _ queued]
    exact Option.some_ne_none next

namespace Idling

variable {scheduler : Scheduler} {pid : TaskId} (idling : scheduler.Idling)
include idling

theorem queued (isCurrent : scheduler.current = some pid) (notIdle : pid ≠ idleId) :
    scheduler.runQueue ≠ [] :=
  idling.idle.queued idling.placed isCurrent notIdle

theorem not_isChild (isCurrent : scheduler.current = some pid) :
    scheduler.isChild pid idleId = false := by
  rcases idling.placed.findTask_of_current isCurrent with ⟨task, found⟩
  have notZero : pid ≠ 0 := by
    rintro rfl
    exact idling.positive _ (mem_parents_of_findTask found)
  rw [isChild]
  split
  · next idleTask isIdle =>
    rw [idling.orphan _ (mem_parents_of_findTask isIdle)]
    exact beq_eq_false_iff_ne.mpr notZero.symm
  · rfl

theorem of_parents {after : Scheduler} (same : after.parents = scheduler.parents)
    (placed : after.Placed) (idle : after.CanRun idleId) (occupied : after.current ≠ none) :
    after.Idling where
  placed := placed
  idle := idle
  occupied := occupied
  orphan := by
    rw [same]
    exact idling.orphan
  positive := by
    rw [same]
    exact idling.positive

theorem schedule : scheduler.schedule.Idling :=
  idling.of_parents (parents_schedule _) idling.placed.schedule idling.idle.schedule
    (schedule_occupied idling.occupied)

theorem wakeAll (key : WaitKey) : (scheduler.wakeAll key).Idling :=
  idling.of_parents (parents_wakeAll _ _) (idling.placed.wakeAll key) (idling.idle.wakeAll key)
    (by rw [wakeAll_current]; exact idling.occupied)

theorem spawn (parent : TaskId) : (scheduler.spawn parent).Idling := by
  -- The idle task is registered, so its id and those below it are not handed out again.
  have later : idleId < scheduler.nextId := by
    by_contra early
    have unknown := idling.placed.fresh idleId (Nat.le_of_not_lt early)
    have known := idling.idle
    rw [CanRun, unknown] at known
    simp at known
  have isEntry : ∀ entry, entry ∈ (scheduler.spawn parent).parents →
      entry ∈ scheduler.parents ∨ entry = (scheduler.nextId, parent) := by
    intro entry isIn
    rw [parents_spawn] at isIn
    simpa using isIn
  exact {
    placed := idling.placed.spawn parent
    idle := idling.idle.spawn idling.placed parent
    occupied := idling.occupied
    orphan := by
      intro other isIn
      rcases isEntry _ isIn with old | new
      · exact idling.orphan other old
      · exact absurd (Prod.mk.inj new).1 (Nat.ne_of_lt later)
    positive := by
      intro other isIn
      rcases isEntry _ isIn with old | new
      · exact idling.positive other old
      · exact absurd (Prod.mk.inj new).1 (Nat.ne_of_lt ((Nat.zero_lt_succ 0).trans later)) }

variable (isCurrent : scheduler.current = some pid) (notIdle : pid ≠ idleId)
include isCurrent notIdle

theorem blockOn (key : WaitKey) : (scheduler.blockOn key).Idling :=
  idling.of_parents (parents_blockOn _ _)
    (idling.placed.blockOn key (idling.queued isCurrent notIdle))
    (idling.idle.blockOn key isCurrent notIdle.symm)
    (idling.placed.blockOn_switches isCurrent (idling.queued isCurrent notIdle) key).occupied

theorem currentExit (code : Int) : (scheduler.currentExit code).Idling :=
  idling.of_parents (parents_currentExit _ _) (idling.placed.currentExit code)
    (idling.idle.currentExit idling.placed code isCurrent notIdle.symm)
    (idling.placed.currentExit_switches isCurrent (idling.queued isCurrent notIdle) code).occupied

theorem sysKill (target : TaskId) (code : Int)
    (spares : scheduler.SparesIdle (.sysKill target code)) :
    (scheduler.sysKill target code).Idling := by
  rw [Scheduler.sysKill, isCurrent]
  simp only
  split
  · exact idling.currentExit isCurrent notIdle code
  · next notCaller =>
    split
    · next allowed =>
      have notTarget : scheduler.current ≠ some target := by
        rw [isCurrent]
        exact fun same => notCaller (Option.some.inj same).symm
      have spared : idleId ≠ target := by
        rintro rfl
        rw [idling.not_isChild isCurrent] at allowed
        rcases allowed with isSpring | impossible
        · exact spares code rfl (isSpring ▸ isCurrent)
        · cases impossible
      apply idling.of_parents (parents_kill _ _ _) (idling.placed.kill target code notTarget)
        (idling.idle.kill code spared)
      rw [kill_current]
      exact idling.occupied
    · exact idling

end Idling

theorem Idling.step {scheduler next : Scheduler} {call : Call} (idling : scheduler.Idling)
    (step : TaskStep scheduler call next) (spares : scheduler.SparesIdle call) : next.Idling := by
  cases step with
  | schedule => exact idling.schedule
  | wakeAll key => exact idling.wakeAll key
  | call _ isCurrent notIdle =>
    cases call with
    | spawn parent => exact idling.spawn parent
    | schedule => exact idling.schedule
    | blockOn key => exact idling.blockOn isCurrent notIdle key
    | wakeAll key => exact idling.wakeAll key
    | sysExit code => exact idling.currentExit isCurrent notIdle code
    | sysKill target code => exact idling.sysKill isCurrent notIdle target code spares

/-- In every run in which process 2 does not kill the idle task, the current task is one
that can run; and while it is not the idle task, the run queue is not empty, and blocking
and exiting switch to another task. -/
theorem always_something_to_switch_to (calls : List Call) (scheduler : Scheduler)
    (run : Trace (fun before call after => TaskStep before call after ∧ before.SparesIdle call)
      boot calls scheduler) :
    (∃ pid, scheduler.current = some pid ∧ scheduler.CanRun pid) ∧
    ∀ pid, scheduler.current = some pid → pid ≠ idleId →
      scheduler.runQueue ≠ [] ∧
      (∀ key, (scheduler.blockOn key).SwitchedFrom pid) ∧
      ∀ code, (scheduler.currentExit code).SwitchedFrom pid := by
  have idling := run.invariant Idling (fun idling step => idling.step step.1 step.2) idling_boot
  constructor
  · rcases Option.ne_none_iff_exists'.mp idling.occupied with ⟨pid, isCurrent⟩
    exact ⟨pid, isCurrent, (idling.placed.of_current isCurrent).1⟩
  · intro pid isCurrent notIdle
    have somebody := idling.queued isCurrent notIdle
    exact ⟨somebody, idling.placed.blockOn_switches isCurrent somebody,
      idling.placed.currentExit_switches isCurrent somebody⟩

/-- Spring spawns a child, kills it and exits; the idle task takes over. -/
theorem always_something_to_switch_to_spring :
    ∃ scheduler : Scheduler, scheduler.current = some 2 ∧
      (scheduler.currentExit 0).SwitchedFrom 2 := by
  have current : (boot.schedule).current = some 2 := by decide
  have spawned : (boot.schedule.spawn 2).current = some 2 := by decide
  have run : Trace
      (fun before call after => TaskStep before call after ∧ before.SparesIdle call) boot
      [.schedule, .spawn 2, .sysKill 3 7]
      ((boot.schedule.spawn 2).sysKill 3 7) :=
    .cons ⟨.schedule _, fun _ => nofun⟩
      (.cons ⟨.call (.spawn 2) current (by decide), fun _ => nofun⟩
      (.cons ⟨.call (.sysKill 3 7) spawned (by decide), by
        intro code same
        cases same⟩ (.nil _)))
  refine ⟨_, ?_, ((always_something_to_switch_to _ _ run).2 2 ?_ (by decide)).2.2 0⟩
  · decide
  · decide

/-- Spring kills the idle task: nothing is queued, and a Spring that blocks goes on running
although it is marked blocked. -/
theorem spring_blocks_in_vain : ∃ scheduler,
    Trace TaskStep boot [.schedule, .sysKill idleId 0] scheduler ∧
      scheduler.current = some 2 ∧ scheduler.runQueue = [] ∧
      (scheduler.blockOn 0x1000).current = some 2 ∧
      (scheduler.blockOn 0x1000).stateOf 2 = some .blocked := by
  have current : (boot.schedule).current = some 2 := by decide
  refine ⟨_, .cons (.schedule _) (.cons (.call (.sysKill idleId 0) current (by decide)) (.nil _)),
    ?_, ?_, ?_, ?_⟩
  · decide
  · decide
  · decide
  · decide

end PersonaOS.Sched.Scheduler
