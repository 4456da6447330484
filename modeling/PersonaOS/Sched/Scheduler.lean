import PersonaOS.Foundation.SwapDrain

/-! # The scheduler

The queues of `kernel/src/sched/mod.rs` and the operations that move tasks between
them. A shared task object is named by its id, which `new_id` never hands out twice:
the queues hold ids, and the mutable fields of a task live in the task registry. The
tick counter, the reschedule flag and the saved register state decide nothing here
and are left out. -/

namespace PersonaOS.Sched

abbrev TaskId := Nat

/-- What a task is parked on: a pointer-sized value chosen by the caller. -/
abbrev WaitKey := Nat

inductive TaskState where
  | ready
  | running
  | dead
  | blocked
  deriving DecidableEq, Repr

structure Task where
  id : TaskId
  parent : TaskId
  exitCode : Int
  state : TaskState
  deriving DecidableEq, Repr

/-- The scheduler's globals: `TASKS`, `RUN_QUEUE`, `CURRENT`, `WAIT_QUEUES` and the
id counter `NEXT_ID`. -/
structure Scheduler where
  tasks : List Task
  runQueue : List TaskId
  current : Option TaskId
  waitQueues : List (WaitKey × TaskId)
  nextId : TaskId
  deriving DecidableEq, Repr

namespace Scheduler

/-! ## Task fields -/

def findTask (scheduler : Scheduler) (pid : TaskId) : Option Task :=
  scheduler.tasks.find? fun task => task.id == pid

def ids (scheduler : Scheduler) : List TaskId :=
  scheduler.tasks.map Task.id

def stateOf (scheduler : Scheduler) (pid : TaskId) : Option TaskState :=
  (scheduler.findTask pid).map Task.state

def modifyTask (scheduler : Scheduler) (pid : TaskId) (change : Task → Task) : Scheduler :=
  { scheduler with
    tasks := scheduler.tasks.map fun task => if task.id = pid then change task else task }

def setState (scheduler : Scheduler) (pid : TaskId) (state : TaskState) : Scheduler :=
  scheduler.modifyTask pid fun task => { task with state := state }

def setExitCode (scheduler : Scheduler) (pid : TaskId) (code : Int) : Scheduler :=
  scheduler.modifyTask pid fun task => { task with exitCode := code }

def isChild (scheduler : Scheduler) (parent child : TaskId) : Bool :=
  match scheduler.findTask child with
  | some task => task.parent == parent
  | none => false

/-! ## Queue operations -/

def enqueue (scheduler : Scheduler) (pid : TaskId) : Scheduler :=
  { scheduler with runQueue := scheduler.runQueue ++ [pid] }

def register (scheduler : Scheduler) (task : Task) : Scheduler :=
  { scheduler with tasks := scheduler.tasks ++ [task] }

def spawn (scheduler : Scheduler) (parent : TaskId) : Scheduler :=
  let task : Task :=
    { id := scheduler.nextId, parent := parent, exitCode := 0, state := .ready }
  ({ scheduler with nextId := scheduler.nextId + 1 }.register task).enqueue task.id

def requeue (scheduler : Scheduler) : Option TaskId → Scheduler
  | none => scheduler
  | some previous =>
    if scheduler.stateOf previous = some .ready ∨
        scheduler.stateOf previous = some .running then
      (scheduler.setState previous .ready).enqueue previous
    else
      scheduler

/-- Pick the head of the run queue as the next current task; with an empty run queue
nothing changes. -/
def schedule (scheduler : Scheduler) : Scheduler :=
  match scheduler.runQueue with
  | [] => scheduler
  | next :: rest =>
    let requeued := { scheduler with runQueue := rest }.requeue scheduler.current
    { requeued.setState next .running with current := some next }

def park (scheduler : Scheduler) (key : WaitKey) (pid : TaskId) : Scheduler :=
  { scheduler.setState pid .blocked with
    waitQueues := scheduler.waitQueues ++ [(key, pid)] }

/-- Park the current task under `key` and give up the processor. -/
def blockOn (scheduler : Scheduler) (key : WaitKey) : Scheduler :=
  match scheduler.current with
  | some pid => (scheduler.park key pid).schedule
  | none => scheduler.schedule

def wake (scheduler : Scheduler) : List TaskId → Scheduler
  | [] => scheduler
  | pid :: rest => ((scheduler.setState pid .ready).enqueue pid).wake rest

/-- Wake every task parked under `key`. -/
def wakeAll (scheduler : Scheduler) (key : WaitKey) : Scheduler :=
  let (kept, woken) := swapDrain (fun entry => entry.1 == key) scheduler.waitQueues
  { scheduler with waitQueues := kept }.wake (woken.map Prod.snd)

/-- The key a parent waits for its children under: `0x5750_0000_0000_0000 | pid`. -/
def waitKey (parent : TaskId) : WaitKey :=
  0x5750000000000000 ||| parent

/-- Store the exit code and mark the task dead. The parent is woken by the callers. -/
def markDead (scheduler : Scheduler) (pid : TaskId) (code : Int) : Scheduler :=
  (scheduler.setExitCode pid code).setState pid .dead

def currentExit (scheduler : Scheduler) (code : Int) : Scheduler :=
  let dead :=
    match scheduler.current with
    | some pid =>
      match scheduler.findTask pid with
      | some task => (scheduler.markDead pid code).wakeAll (waitKey task.parent)
      | none => scheduler
    | none => scheduler
  { dead with current := none }.schedule

/-- Mark a task dead, remove it from the run queue and wake its parent. The wait
queues are not searched for it. -/
def kill (scheduler : Scheduler) (pid : TaskId) (code : Int) : Scheduler :=
  match scheduler.findTask pid with
  | none => scheduler
  | some target =>
    let dead := scheduler.markDead pid code
    { dead with runQueue := (swapDrain (fun other => other == pid) dead.runQueue).1 }.wakeAll
      (waitKey target.parent)

/-- The `kill` system call: a task may always end itself; otherwise the caller must be
process 2 or the parent of the target. -/
def sysKill (scheduler : Scheduler) (pid : TaskId) (code : Int) : Scheduler :=
  match scheduler.current with
  | none => scheduler
  | some caller =>
    if pid = caller then
      scheduler.currentExit code
    else if caller = 2 ∨ scheduler.isChild caller pid then
      scheduler.kill pid code
    else
      scheduler

def idleId : TaskId := 1

/-- The state in which `run` enters the first task: the idle task is current and
Spring is queued. -/
def boot : Scheduler where
  tasks :=
    [ { id := idleId, parent := 0, exitCode := 0, state := .ready },
      { id := 2, parent := 0, exitCode := 0, state := .ready } ]
  runQueue := [2]
  current := some idleId
  waitQueues := []
  nextId := 3

/-! ## What each operation reads and writes -/

section Fields

variable (scheduler : Scheduler) (pid other : TaskId)

theorem findTask_modifyTask (change : Task → Task)
    (keepsId : ∀ task, (change task).id = task.id) :
    (scheduler.modifyTask pid change).findTask other =
      if other = pid then (scheduler.findTask other).map change
      else scheduler.findTask other := by
  unfold findTask modifyTask
  induction scheduler.tasks with
  | nil => simp
  | cons task tasks induction =>
    have headId : (if task.id = pid then change task else task).id = task.id := by
      split <;> simp [keepsId]
    simp only [List.map_cons, List.find?_cons, headId]
    by_cases isOther : task.id = other
    · subst isOther
      by_cases isPid : task.id = pid <;> simp [isPid]
    · have skipped : (task.id == other) = false := by simpa using isOther
      simp only [skipped]
      exact induction

@[simp] theorem findTask_setState (state : TaskState) :
    (scheduler.setState pid state).findTask other =
      if other = pid then
        (scheduler.findTask other).map fun task => { task with state := state }
      else scheduler.findTask other :=
  scheduler.findTask_modifyTask pid other _ fun _ => rfl

@[simp] theorem findTask_markDead (code : Int) :
    (scheduler.markDead pid code).findTask other =
      if other = pid then
        (scheduler.findTask other).map fun task =>
          { task with exitCode := code, state := .dead }
      else scheduler.findTask other := by
  unfold markDead
  rw [findTask_setState, setExitCode,
    findTask_modifyTask _ _ _ _ (by intro task; rfl)]
  by_cases same : other = pid
  · simp [same, Function.comp_def]
  · simp [same]

theorem ids_modifyTask (change : Task → Task)
    (keepsId : ∀ task, (change task).id = task.id) :
    (scheduler.modifyTask pid change).ids = scheduler.ids := by
  simp only [ids, modifyTask, List.map_map]
  apply List.map_congr_left
  intro task _
  simp only [Function.comp_apply]
  split <;> simp [keepsId]

@[simp] theorem ids_setState (state : TaskState) :
    (scheduler.setState pid state).ids = scheduler.ids :=
  scheduler.ids_modifyTask pid _ fun _ => rfl

@[simp] theorem ids_markDead (code : Int) :
    (scheduler.markDead pid code).ids = scheduler.ids := by
  rw [markDead, ids_setState, setExitCode, ids_modifyTask]
  intro task
  rfl

theorem stateOf_setState (state : TaskState) :
    (scheduler.setState pid state).stateOf other =
      if other = pid then (scheduler.stateOf other).map fun _ => state
      else scheduler.stateOf other := by
  simp only [stateOf, findTask_setState]
  split <;> simp [Function.comp_def]

theorem stateOf_markDead (code : Int) :
    (scheduler.markDead pid code).stateOf other =
      if other = pid then (scheduler.stateOf other).map fun _ => .dead
      else scheduler.stateOf other := by
  simp only [stateOf, findTask_markDead]
  split <;> simp [Function.comp_def]

@[simp] theorem findTask_enqueue :
    (scheduler.enqueue pid).findTask other = scheduler.findTask other := rfl

@[simp] theorem setState_runQueue (state : TaskState) :
    (scheduler.setState pid state).runQueue = scheduler.runQueue := rfl

@[simp] theorem setState_current (state : TaskState) :
    (scheduler.setState pid state).current = scheduler.current := rfl

@[simp] theorem setState_waitQueues (state : TaskState) :
    (scheduler.setState pid state).waitQueues = scheduler.waitQueues := rfl

@[simp] theorem setState_nextId (state : TaskState) :
    (scheduler.setState pid state).nextId = scheduler.nextId := rfl

@[simp] theorem markDead_runQueue (code : Int) :
    (scheduler.markDead pid code).runQueue = scheduler.runQueue := rfl

@[simp] theorem markDead_current (code : Int) :
    (scheduler.markDead pid code).current = scheduler.current := rfl

@[simp] theorem markDead_waitQueues (code : Int) :
    (scheduler.markDead pid code).waitQueues = scheduler.waitQueues := rfl

@[simp] theorem markDead_nextId (code : Int) :
    (scheduler.markDead pid code).nextId = scheduler.nextId := rfl

end Fields

/-! ## Spawning -/

theorem stateOf_spawn (scheduler : Scheduler) (parent pid : TaskId)
    (unknown : scheduler.stateOf scheduler.nextId = none) :
    (scheduler.spawn parent).stateOf pid =
      if pid = scheduler.nextId then some .ready else scheduler.stateOf pid := by
  have absent : scheduler.tasks.find? (fun task => task.id == scheduler.nextId) = none := by
    simpa [stateOf, findTask] using unknown
  simp only [stateOf, findTask, spawn, register, enqueue, List.find?_append]
  by_cases isNew : pid = scheduler.nextId
  · subst isNew
    simp [absent]
  · have newOther : (scheduler.nextId == pid) = false :=
      beq_eq_false_iff_ne.mpr fun equal => isNew equal.symm
    simp [isNew, newOther]

@[simp] theorem ids_spawn (scheduler : Scheduler) (parent : TaskId) :
    (scheduler.spawn parent).ids = scheduler.ids ++ [scheduler.nextId] := by
  simp [ids, spawn, register, enqueue]

theorem stateOf_eq_none {scheduler : Scheduler} {pid : TaskId} :
    scheduler.stateOf pid = none ↔ pid ∉ scheduler.ids := by
  simp [stateOf, findTask, ids]

@[simp] theorem spawn_runQueue (scheduler : Scheduler) (parent : TaskId) :
    (scheduler.spawn parent).runQueue = scheduler.runQueue ++ [scheduler.nextId] := rfl

@[simp] theorem spawn_current (scheduler : Scheduler) (parent : TaskId) :
    (scheduler.spawn parent).current = scheduler.current := rfl

@[simp] theorem spawn_waitQueues (scheduler : Scheduler) (parent : TaskId) :
    (scheduler.spawn parent).waitQueues = scheduler.waitQueues := rfl

@[simp] theorem spawn_nextId (scheduler : Scheduler) (parent : TaskId) :
    (scheduler.spawn parent).nextId = scheduler.nextId + 1 := rfl

/-! ## Waking -/

section Waking

variable (scheduler : Scheduler) (pid : TaskId) (woken : List TaskId)

@[simp] theorem wake_runQueue :
    (scheduler.wake woken).runQueue = scheduler.runQueue ++ woken := by
  induction woken generalizing scheduler with
  | nil => simp [wake]
  | cons head tail induction => simp [wake, induction, enqueue]

@[simp] theorem wake_current : (scheduler.wake woken).current = scheduler.current := by
  induction woken generalizing scheduler with
  | nil => rfl
  | cons head tail induction => simp [wake, induction, enqueue]

@[simp] theorem wake_waitQueues :
    (scheduler.wake woken).waitQueues = scheduler.waitQueues := by
  induction woken generalizing scheduler with
  | nil => rfl
  | cons head tail induction => simp [wake, induction, enqueue]

@[simp] theorem wake_nextId : (scheduler.wake woken).nextId = scheduler.nextId := by
  induction woken generalizing scheduler with
  | nil => rfl
  | cons head tail induction => simp [wake, induction, enqueue]

@[simp] theorem ids_wake : (scheduler.wake woken).ids = scheduler.ids := by
  induction woken generalizing scheduler with
  | nil => rfl
  | cons head tail induction =>
    rw [wake, induction]
    exact ids_setState scheduler head .ready

theorem wake_nobody :
    { scheduler.wake woken with current := none } =
      { scheduler with current := none }.wake woken := by
  induction woken generalizing scheduler with
  | nil => rfl
  | cons head tail induction => exact induction _

theorem findTask_wake :
    (scheduler.wake woken).findTask pid =
      if pid ∈ woken then
        (scheduler.findTask pid).map fun task => { task with state := .ready }
      else scheduler.findTask pid := by
  induction woken generalizing scheduler with
  | nil => simp [wake]
  | cons head tail induction =>
    rw [wake, induction]
    by_cases inTail : pid ∈ tail <;> by_cases isHead : pid = head <;>
      simp [inTail, isHead, Function.comp_def]

end Waking

section WakeAll

variable (scheduler : Scheduler) (key : WaitKey) (pid : TaskId)

/-- The tasks `wakeAll` takes off the wait queues, in the order it does so. -/
def wokenBy (scheduler : Scheduler) (key : WaitKey) : List TaskId :=
  (swapDrain (fun entry => entry.1 == key) scheduler.waitQueues).2.map Prod.snd

theorem mem_wokenBy {scheduler : Scheduler} {key : WaitKey} {pid : TaskId} :
    pid ∈ scheduler.wokenBy key ↔ (key, pid) ∈ scheduler.waitQueues := by
  unfold wokenBy
  rw [List.mem_map]
  constructor
  · rintro ⟨⟨entryKey, entryPid⟩, member, rfl⟩
    have selected := ((swapDrain_removed_perm _ _).mem_iff).mp member
    rw [List.mem_filter] at selected
    have sameKey : entryKey = key := by simpa using selected.2
    exact sameKey ▸ selected.1
  · intro parked
    refine ⟨(key, pid), ?_, rfl⟩
    exact ((swapDrain_removed_perm _ _).mem_iff).mpr
      (List.mem_filter.mpr ⟨parked, by simp⟩)

theorem wakeAll_eq : scheduler.wakeAll key =
    { scheduler with
      waitQueues := (swapDrain (fun entry : WaitKey × TaskId => entry.1 == key)
        scheduler.waitQueues).1 }.wake (scheduler.wokenBy key) := rfl

@[simp] theorem wakeAll_runQueue :
    (scheduler.wakeAll key).runQueue = scheduler.runQueue ++ scheduler.wokenBy key := by
  simp [wakeAll_eq]

@[simp] theorem wakeAll_current : (scheduler.wakeAll key).current = scheduler.current := by
  simp [wakeAll_eq]

@[simp] theorem wakeAll_nextId : (scheduler.wakeAll key).nextId = scheduler.nextId := by
  simp [wakeAll_eq]

@[simp] theorem ids_wakeAll : (scheduler.wakeAll key).ids = scheduler.ids := by
  rw [wakeAll_eq, ids_wake]
  rfl

theorem wakeAll_waitQueues_perm :
    (scheduler.wakeAll key).waitQueues.Perm
      (scheduler.waitQueues.filter fun entry => !(entry.1 == key)) := by
  rw [wakeAll_eq, wake_waitQueues]
  exact swapDrain_kept_perm _ _

theorem findTask_wakeAll :
    (scheduler.wakeAll key).findTask pid =
      if (key, pid) ∈ scheduler.waitQueues then
        (scheduler.findTask pid).map fun task => { task with state := .ready }
      else scheduler.findTask pid := by
  rw [wakeAll_eq, findTask_wake]
  simp only [mem_wokenBy]
  rfl

theorem wakeAll_nobody :
    { scheduler.wakeAll key with current := none } =
      { scheduler with current := none }.wakeAll key := by
  rw [wakeAll_eq, wake_nobody]
  rfl

theorem stateOf_wakeAll :
    (scheduler.wakeAll key).stateOf pid =
      if (key, pid) ∈ scheduler.waitQueues then
        (scheduler.stateOf pid).map fun _ => .ready
      else scheduler.stateOf pid := by
  simp only [stateOf, findTask_wakeAll]
  split <;> simp [Function.comp_def]

/-- The loop over the wait queues ends, and it has woken the waiters of the key and nobody
else. -/
theorem wakeAll_wakes_waiters :
    (∃ kept woken, swapDrainWhile (fun entry : WaitKey × TaskId => entry.1 == key) 0
        scheduler.waitQueues [] = (kept, woken) ∧
      scheduler.wakeAll key =
        { scheduler with waitQueues := kept }.wake (woken.map Prod.snd)) ∧
    (scheduler.wakeAll key).waitQueues.Perm
      (scheduler.waitQueues.filter fun entry => !(entry.1 == key)) ∧
    (∃ woken, (scheduler.wakeAll key).runQueue = scheduler.runQueue ++ woken ∧
      woken.Perm ((scheduler.waitQueues.filter fun entry => entry.1 == key).map Prod.snd)) ∧
    (∀ pid, (scheduler.wakeAll key).findTask pid =
      if (key, pid) ∈ scheduler.waitQueues then
        (scheduler.findTask pid).map fun task => { task with state := .ready }
      else scheduler.findTask pid) ∧
    (scheduler.wakeAll key).ids = scheduler.ids ∧
    (scheduler.wakeAll key).current = scheduler.current ∧
    (scheduler.wakeAll key).nextId = scheduler.nextId := by
  have woken : (scheduler.wokenBy key).Perm
      ((scheduler.waitQueues.filter fun entry => entry.1 == key).map Prod.snd) :=
    (swapDrain_removed_perm _ _).map Prod.snd
  refine ⟨⟨_, _, rfl, ?_⟩, wakeAll_waitQueues_perm scheduler key,
    ⟨scheduler.wokenBy key, wakeAll_runQueue scheduler key, woken⟩, findTask_wakeAll scheduler key,
    ids_wakeAll scheduler key, wakeAll_current scheduler key, wakeAll_nextId scheduler key⟩
  rw [wakeAll, swapDrain_eq_while]

end WakeAll

/-! ## Switching -/

section Switching

variable (scheduler : Scheduler)

@[simp] theorem requeue_waitQueues (previous : Option TaskId) :
    (scheduler.requeue previous).waitQueues = scheduler.waitQueues := by
  unfold requeue
  split
  · rfl
  · split <;> rfl

@[simp] theorem requeue_nextId (previous : Option TaskId) :
    (scheduler.requeue previous).nextId = scheduler.nextId := by
  unfold requeue
  split
  · rfl
  · split <;> rfl

@[simp] theorem ids_requeue (previous : Option TaskId) :
    (scheduler.requeue previous).ids = scheduler.ids := by
  unfold requeue
  split
  · rfl
  · split
    · exact ids_setState scheduler _ .ready
    · rfl

theorem schedule_of_empty (empty : scheduler.runQueue = []) :
    scheduler.schedule = scheduler := by
  simp [schedule, empty]

theorem schedule_of_cons {next : TaskId} {rest : List TaskId}
    (queued : scheduler.runQueue = next :: rest) :
    scheduler.schedule =
      { ({ scheduler with runQueue := rest }.requeue scheduler.current).setState
          next .running with current := some next } := by
  simp [schedule, queued]

theorem schedule_of_nobody {next : TaskId} {rest : List TaskId}
    (nobody : scheduler.current = none) (queued : scheduler.runQueue = next :: rest) :
    scheduler.schedule.current = some next ∧ scheduler.schedule.runQueue = rest ∧
      ∀ pid, scheduler.schedule.stateOf pid =
        if pid = next then (scheduler.stateOf pid).map fun _ => .running
        else scheduler.stateOf pid := by
  rw [schedule_of_cons _ queued, nobody, requeue]
  refine ⟨rfl, rfl, fun pid => ?_⟩
  exact stateOf_setState { scheduler with runQueue := rest } next pid .running

/-- Take the current task off the processor, back onto the run queue if it can run. -/
def vacate (scheduler : Scheduler) : Scheduler :=
  { scheduler.requeue scheduler.current with current := none }

/-- With somebody queued, the outgoing task may as well leave the processor first: it
goes to the end of the queue and cannot be its head. -/
theorem schedule_vacate {next : TaskId} {rest : List TaskId}
    (queued : scheduler.runQueue = next :: rest) :
    scheduler.schedule = scheduler.vacate.schedule := by
  obtain ⟨tasks, runQueue, current, waitQueues, nextId⟩ := scheduler
  cases queued
  cases current with
  | none => rfl
  | some previous =>
    -- Requeueing looks at the registry only, which taking the head does not change.
    have sameState : stateOf ⟨tasks, rest, some previous, waitQueues, nextId⟩ previous =
        stateOf ⟨tasks, next :: rest, some previous, waitQueues, nextId⟩ previous := rfl
    by_cases canRun :
        stateOf ⟨tasks, next :: rest, some previous, waitQueues, nextId⟩ previous =
          some .ready ∨
        stateOf ⟨tasks, next :: rest, some previous, waitQueues, nextId⟩ previous =
          some .running
    · simp only [schedule, vacate, requeue, sameState, if_pos canRun]
      rfl
    · simp only [schedule, vacate, requeue, sameState, if_neg canRun]
      rfl

/-- A parked task is not requeued, so the switch away from it is one with nobody
current. -/
theorem blockOn_eq {key : WaitKey} {pid next : TaskId} {rest : List TaskId}
    (isCurrent : scheduler.current = some pid) (queued : scheduler.runQueue = next :: rest) :
    scheduler.blockOn key = { scheduler.park key pid with current := none }.schedule := by
  have parkedQueue : (scheduler.park key pid).runQueue = next :: rest := queued
  have parkedCurrent : (scheduler.park key pid).current = some pid := isCurrent
  have blocked : (scheduler.park key pid).stateOf pid =
      (scheduler.stateOf pid).map fun _ => .blocked := by
    have changed := stateOf_setState scheduler pid pid .blocked
    rw [if_pos rfl] at changed
    exact changed
  have notRequeued : ¬((scheduler.park key pid).stateOf pid = some .ready ∨
      (scheduler.park key pid).stateOf pid = some .running) := by
    rw [blocked]
    cases scheduler.stateOf pid <;> simp
  have left : (scheduler.park key pid).vacate =
      { scheduler.park key pid with current := none } := by
    rw [vacate, parkedCurrent, requeue, if_neg notRequeued]
  rw [blockOn, isCurrent]
  change (scheduler.park key pid).schedule = _
  rw [schedule_vacate _ parkedQueue, left]

/-- The exiting task may as well leave the processor before its parent is woken. -/
theorem currentExit_eq {pid : TaskId} {task : Task} (code : Int)
    (isCurrent : scheduler.current = some pid) (found : scheduler.findTask pid = some task) :
    scheduler.currentExit code =
      ({ scheduler.markDead pid code with current := none }.wakeAll
        (waitKey task.parent)).schedule := by
  rw [← wakeAll_nobody]
  simp only [currentExit, isCurrent, found]

theorem currentExit_of_nobody (code : Int) (nobody : scheduler.current = none) :
    scheduler.currentExit code = scheduler.schedule := by
  obtain ⟨tasks, runQueue, current, waitQueues, nextId⟩ := scheduler
  cases nobody
  rfl

theorem currentExit_of_unknown {pid : TaskId} (code : Int)
    (isCurrent : scheduler.current = some pid) (unknown : scheduler.findTask pid = none) :
    scheduler.currentExit code = { scheduler with current := none }.schedule := by
  simp only [currentExit, isCurrent, unknown]

theorem kill_eq {pid : TaskId} {target : Task} (code : Int)
    (found : scheduler.findTask pid = some target) :
    scheduler.kill pid code =
      { scheduler.markDead pid code with
        runQueue := (swapDrain (fun other => other == pid) scheduler.runQueue).1 }.wakeAll
          (waitKey target.parent) := by
  simp only [kill, found, markDead_runQueue]

theorem kill_of_unknown {pid : TaskId} (code : Int) (unknown : scheduler.findTask pid = none) :
    scheduler.kill pid code = scheduler := by
  simp only [kill, unknown]

theorem kill_current (pid : TaskId) (code : Int) :
    (scheduler.kill pid code).current = scheduler.current := by
  cases found : scheduler.findTask pid with
  | none => rw [kill_of_unknown _ _ found]
  | some target =>
    rw [kill_eq _ _ found, wakeAll_current]
    rfl

@[simp] theorem schedule_waitQueues : scheduler.schedule.waitQueues = scheduler.waitQueues := by
  cases queued : scheduler.runQueue with
  | nil => rw [schedule_of_empty _ queued]
  | cons next rest => simp [schedule_of_cons _ queued]

@[simp] theorem ids_schedule : scheduler.schedule.ids = scheduler.ids := by
  cases queued : scheduler.runQueue with
  | nil => rw [schedule_of_empty _ queued]
  | cons next rest =>
    rw [schedule_of_cons _ queued]
    exact (ids_setState _ next .running).trans
      (ids_requeue { scheduler with runQueue := rest } _)

@[simp] theorem schedule_nextId : scheduler.schedule.nextId = scheduler.nextId := by
  cases queued : scheduler.runQueue with
  | nil => rw [schedule_of_empty _ queued]
  | cons next rest => simp [schedule_of_cons _ queued]

end Switching

end Scheduler

end PersonaOS.Sched
