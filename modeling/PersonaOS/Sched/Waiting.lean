import Mathlib.Data.List.Nodup
import PersonaOS.Sched.Scheduler

/-! # Waiting for children

How `sys_waitpid` looks for an exited child, and which scheduler operations can make
one: only exiting and killing do, and both wake the parent of the task that dies. -/

namespace PersonaOS.Sched.Scheduler

def findExitedChild (scheduler : Scheduler) (parent sel : TaskId) : Option (TaskId × Int) :=
  (scheduler.tasks.find? fun task =>
    task.parent == parent && (sel == 0 || task.id == sel) && task.state == .dead).map
      fun task => (task.id, task.exitCode)

def hasChild (scheduler : Scheduler) (parent sel : TaskId) : Bool :=
  scheduler.tasks.any fun task => task.parent == parent && (sel == 0 || task.id == sel)

/-- No child of `parent` that the selector matches is dead. -/
def NoneExited (scheduler : Scheduler) (parent sel : TaskId) : Prop :=
  ∀ child ∈ scheduler.tasks, child.parent = parent → (sel = 0 ∨ child.id = sel) →
    child.state ≠ .dead

theorem findExitedChild_eq_none {scheduler : Scheduler} {parent sel : TaskId} :
    scheduler.findExitedChild parent sel = none ↔ scheduler.NoneExited parent sel := by
  simp [findExitedChild, NoneExited]

/-! ## Where tasks turn up -/

def Somewhere (scheduler : Scheduler) (pid : TaskId) : Prop :=
  scheduler.current = some pid ∨ pid ∈ scheduler.runQueue ∨
    ∃ key, (key, pid) ∈ scheduler.waitQueues

/-- The registry keeps its ids, and only tasks that were somewhere are somewhere. -/
structure Shuffles (before after : Scheduler) : Prop where
  ids : after.ids = before.ids
  nextId : after.nextId = before.nextId
  somewhere : ∀ pid, after.Somewhere pid → before.Somewhere pid

namespace Shuffles

theorem refl (scheduler : Scheduler) : Shuffles scheduler scheduler :=
  ⟨rfl, rfl, fun _ => id⟩

theorem trans {first second third : Scheduler} (earlier : Shuffles first second)
    (later : Shuffles second third) : Shuffles first third where
  ids := later.ids.trans earlier.ids
  nextId := later.nextId.trans earlier.nextId
  somewhere pid found := earlier.somewhere pid (later.somewhere pid found)

end Shuffles

theorem requeue_runQueue_cases {scheduler : Scheduler} {previous : Option TaskId}
    {pid : TaskId} (queued : pid ∈ (scheduler.requeue previous).runQueue) :
    pid ∈ scheduler.runQueue ∨ previous = some pid := by
  cases previous with
  | none => exact .inl queued
  | some outgoing =>
    rw [requeue] at queued
    split at queued
    · simp only [enqueue, setState_runQueue, List.mem_append, List.mem_singleton] at queued
      exact queued.imp_right fun same => by rw [same]
    · exact .inl queued

theorem schedule_shuffles (scheduler : Scheduler) : Shuffles scheduler scheduler.schedule where
  ids := scheduler.ids_schedule
  nextId := scheduler.schedule_nextId
  somewhere pid := by
    cases queued : scheduler.runQueue with
    | nil => exact fun found => scheduler.schedule_of_empty queued ▸ found
    | cons next rest =>
      rintro (current | inQueue | parked)
      · rw [schedule_of_cons _ queued] at current
        obtain rfl : next = pid := by simpa using current
        exact .inr (.inl (by rw [queued]; exact List.mem_cons_self))
      · rw [schedule_of_cons _ queued] at inQueue
        rcases requeue_runQueue_cases inQueue with inRest | wasCurrent
        · exact .inr (.inl (by rw [queued]; exact List.mem_cons_of_mem _ inRest))
        · exact .inl wasCurrent
      · rw [schedule_waitQueues] at parked
        exact .inr (.inr parked)

theorem mem_wakeAll_waitQueues {scheduler : Scheduler} {woken key : WaitKey} {pid : TaskId} :
    (key, pid) ∈ (scheduler.wakeAll woken).waitQueues ↔
      (key, pid) ∈ scheduler.waitQueues ∧ key ≠ woken := by
  rw [(scheduler.wakeAll_waitQueues_perm woken).mem_iff, List.mem_filter]
  simp

theorem wakeAll_shuffles (scheduler : Scheduler) (key : WaitKey) :
    Shuffles scheduler (scheduler.wakeAll key) where
  ids := scheduler.ids_wakeAll key
  nextId := scheduler.wakeAll_nextId key
  somewhere pid := by
    rintro (current | queued | ⟨other, parked⟩)
    · exact .inl (scheduler.wakeAll_current key ▸ current)
    · rw [wakeAll_runQueue, List.mem_append, mem_wokenBy] at queued
      rcases queued with queued | woken
      · exact .inr (.inl queued)
      · exact .inr (.inr ⟨key, woken⟩)
    · exact .inr (.inr ⟨other, (mem_wakeAll_waitQueues.mp parked).1⟩)

theorem blockOn_shuffles (scheduler : Scheduler) (key : WaitKey) :
    Shuffles scheduler (scheduler.blockOn key) := by
  cases isCurrent : scheduler.current with
  | none =>
    rw [blockOn, isCurrent]
    exact scheduler.schedule_shuffles
  | some pid =>
    rw [blockOn, isCurrent]
    suffices parks : Shuffles scheduler (scheduler.park key pid) from
      parks.trans (schedule_shuffles _)
    refine ⟨scheduler.ids_setState pid .blocked, rfl, fun other => ?_⟩
    rintro (current | queued | ⟨otherKey, parked⟩)
    · exact .inl current
    · exact .inr (.inl queued)
    · rcases List.mem_append.mp parked with before | new
      · exact .inr (.inr ⟨otherKey, before⟩)
      · simp only [List.mem_singleton, Prod.mk.injEq] at new
        exact .inl (new.2 ▸ isCurrent)

theorem mem_blockOn_waitQueues {scheduler : Scheduler} {key other : WaitKey}
    {pid task : TaskId} (isCurrent : scheduler.current = some pid) :
    (other, task) ∈ (scheduler.blockOn key).waitQueues ↔
      (other, task) ∈ scheduler.waitQueues ∨ other = key ∧ task = pid := by
  unfold blockOn
  rw [isCurrent]
  simp [park]

theorem markDead_shuffles (scheduler : Scheduler) (pid : TaskId) (code : Int) :
    Shuffles scheduler (scheduler.markDead pid code) :=
  ⟨scheduler.ids_markDead pid code, rfl, fun _ => id⟩

/-! ## Who dies -/

/-- Whoever is dead was dead before. -/
def Spares (before after : Scheduler) : Prop :=
  ∀ task ∈ after.tasks, task.state = .dead → task ∈ before.tasks

theorem Spares.trans {first second third : Scheduler} (earlier : Spares first second)
    (later : Spares second third) : Spares first third :=
  fun task member dead => earlier task (later task member dead) dead

theorem Spares.noneExited {before after : Scheduler} {parent sel : TaskId}
    (spares : Spares before after) (none : before.NoneExited parent sel) :
    after.NoneExited parent sel :=
  fun child member isChild matching dead =>
    none child (spares child member dead) isChild matching dead

theorem setState_spares (scheduler : Scheduler) (pid : TaskId) {state : TaskState}
    (alive : state ≠ .dead) : Spares scheduler (scheduler.setState pid state) := by
  intro task member dead
  obtain ⟨old, oldMember, rfl⟩ := List.mem_map.mp member
  split at dead
  · exact absurd dead alive
  · next different => rwa [if_neg different]

theorem requeue_spares (scheduler : Scheduler) (previous : Option TaskId) :
    Spares scheduler (scheduler.requeue previous) := by
  cases previous with
  | none => exact fun _ member _ => member
  | some outgoing =>
    rw [requeue]
    split
    · exact scheduler.setState_spares outgoing TaskState.noConfusion
    · exact fun _ member _ => member

theorem schedule_spares (scheduler : Scheduler) : Spares scheduler scheduler.schedule := by
  cases queued : scheduler.runQueue with
  | nil =>
    rw [schedule_of_empty _ queued]
    exact fun _ member _ => member
  | cons next rest =>
    rw [schedule_of_cons _ queued]
    exact (requeue_spares { scheduler with runQueue := rest } scheduler.current).trans
      (setState_spares _ next (by decide))

theorem wake_spares (scheduler : Scheduler) (woken : List TaskId) :
    Spares scheduler (scheduler.wake woken) := by
  induction woken generalizing scheduler with
  | nil => exact fun _ member _ => member
  | cons pid rest induction =>
    exact (scheduler.setState_spares pid (by decide)).trans (induction _)

theorem wakeAll_spares (scheduler : Scheduler) (key : WaitKey) :
    Spares scheduler (scheduler.wakeAll key) :=
  wake_spares { scheduler with waitQueues := _ } (scheduler.wokenBy key)

theorem blockOn_spares (scheduler : Scheduler) (key : WaitKey) :
    Spares scheduler (scheduler.blockOn key) := by
  cases isCurrent : scheduler.current with
  | none =>
    rw [blockOn, isCurrent]
    exact scheduler.schedule_spares
  | some pid =>
    rw [blockOn, isCurrent]
    exact (scheduler.setState_spares pid (by decide)).trans
      (scheduler.park key pid).schedule_spares

theorem spawn_spares (scheduler : Scheduler) (parent : TaskId) :
    Spares scheduler (scheduler.spawn parent) := by
  intro task member dead
  rcases List.mem_append.mp member with before | new
  · exact before
  · rw [List.mem_singleton.mp new] at dead
    exact absurd dead (by simp)

/-! ## Parents are told -/

/-- A parent still parked in `sys_waitpid` has no newly dead child: the entries that
are left are old ones, and the dead children of their owners are old ones. -/
structure TellsParents (before after : Scheduler) : Prop where
  entries : ∀ key pid, (key, pid) ∈ after.waitQueues → (key, pid) ∈ before.waitQueues
  children : ∀ parent sel, (waitKey parent, parent) ∈ after.waitQueues →
    before.NoneExited parent sel → after.NoneExited parent sel

theorem TellsParents.refl (scheduler : Scheduler) : TellsParents scheduler scheduler :=
  ⟨fun _ _ parked => parked, fun _ _ _ none => none⟩

theorem TellsParents.of_spares {before after : Scheduler} (spares : Spares before after)
    (entries : ∀ key pid, (key, pid) ∈ after.waitQueues → (key, pid) ∈ before.waitQueues) :
    TellsParents before after :=
  ⟨entries, fun _ _ _ none => spares.noneExited none⟩

theorem TellsParents.trans {first second third : Scheduler}
    (earlier : TellsParents first second) (later : TellsParents second third) :
    TellsParents first third where
  entries key pid parked := earlier.entries key pid (later.entries key pid parked)
  children parent sel parked none :=
    later.children parent sel parked
      (earlier.children parent sel (later.entries _ _ parked) none)

theorem schedule_tellsParents (scheduler : Scheduler) :
    TellsParents scheduler scheduler.schedule :=
  .of_spares scheduler.schedule_spares fun _ _ parked => scheduler.schedule_waitQueues ▸ parked

theorem wakeAll_tellsParents (scheduler : Scheduler) (key : WaitKey) :
    TellsParents scheduler (scheduler.wakeAll key) :=
  .of_spares (scheduler.wakeAll_spares key) fun _ _ parked => (mem_wakeAll_waitQueues.mp parked).1

/-- The records of a task are one record, so the parent in it is the only parent. -/
theorem eq_of_findTask {scheduler : Scheduler} (distinct : scheduler.ids.Nodup)
    {pid : TaskId} {task other : Task} (found : scheduler.findTask pid = some task)
    (member : other ∈ scheduler.tasks) (sameId : other.id = pid) : other = task := by
  have taskMember : task ∈ scheduler.tasks := List.mem_of_find?_eq_some found
  have taskId : task.id = pid := by simpa using List.find?_some found
  exact List.inj_on_of_nodup_map distinct member taskMember (sameId.trans taskId.symm)

/-- Marking a task dead and waking its parent, in a scheduler that differs from
`markDead` in the run queue and the current task only. -/
theorem markDead_tellsParents {scheduler marked : Scheduler} (distinct : scheduler.ids.Nodup)
    {pid : TaskId} {task : Task} (code : Int) (found : scheduler.findTask pid = some task)
    (sameTasks : marked.tasks = (scheduler.markDead pid code).tasks)
    (sameQueues : marked.waitQueues = scheduler.waitQueues) :
    TellsParents scheduler (marked.wakeAll (waitKey task.parent)) where
  entries key other parked := sameQueues ▸ (mem_wakeAll_waitQueues.mp parked).1
  children parent sel parked none := by
    intro child member isChild matching dead
    have marked := marked.wakeAll_spares _ child member dead
    rw [sameTasks] at marked
    simp only [markDead, setState, setExitCode, modifyTask, List.map_map, List.mem_map,
      Function.comp_apply] at marked
    obtain ⟨old, oldMember, rfl⟩ := marked
    by_cases victim : old.id = pid
    · obtain rfl := eq_of_findTask distinct found oldMember victim
      simp only [victim, if_true] at isChild
      exact (mem_wakeAll_waitQueues.mp parked).2 (by rw [isChild])
    · simp only [if_neg victim] at isChild matching dead
      exact none old oldMember isChild matching dead

section Deaths

variable {scheduler : Scheduler} (distinct : scheduler.ids.Nodup)

include distinct

theorem kill_tellsParents (pid : TaskId) (code : Int) :
    TellsParents scheduler (scheduler.kill pid code) := by
  cases found : scheduler.findTask pid with
  | none =>
    rw [kill_of_unknown _ code found]
    exact .refl scheduler
  | some target =>
    rw [kill_eq _ code found]
    exact markDead_tellsParents distinct code found rfl rfl

theorem currentExit_tellsParents (code : Int) :
    TellsParents scheduler (scheduler.currentExit code) := by
  cases isCurrent : scheduler.current with
  | none =>
    rw [currentExit_of_nobody _ code isCurrent]
    exact scheduler.schedule_tellsParents
  | some pid =>
    cases found : scheduler.findTask pid with
    | none =>
      rw [currentExit_of_unknown _ code isCurrent found]
      exact .of_spares (schedule_spares { scheduler with current := none }) fun _ _ parked =>
        schedule_waitQueues { scheduler with current := none } ▸ parked
    | some task =>
      rw [currentExit_eq _ code isCurrent found]
      refine .trans ?_ (schedule_tellsParents _)
      exact markDead_tellsParents distinct code found rfl rfl

theorem sysKill_tellsParents (pid : TaskId) (code : Int) :
    TellsParents scheduler (scheduler.sysKill pid code) := by
  unfold sysKill
  split
  · exact .refl scheduler
  split
  · exact currentExit_tellsParents distinct code
  split
  · exact kill_tellsParents distinct pid code
  · exact .refl scheduler

end Deaths

theorem kill_shuffles (scheduler : Scheduler) (pid : TaskId) (code : Int) :
    Shuffles scheduler (scheduler.kill pid code) := by
  cases found : scheduler.findTask pid with
  | none =>
    rw [kill_of_unknown _ code found]
    exact .refl scheduler
  | some target =>
    rw [kill_eq _ code found]
    refine .trans ?_ (wakeAll_shuffles _ _)
    refine ⟨scheduler.ids_markDead pid code, rfl, fun other => ?_⟩
    rintro (current | queued | parked)
    · exact .inl current
    · rw [(swapDrain_kept_perm _ _).mem_iff] at queued
      exact .inr (.inl (List.mem_filter.mp queued).1)
    · exact .inr (.inr parked)

theorem currentExit_shuffles (scheduler : Scheduler) (code : Int) :
    Shuffles scheduler (scheduler.currentExit code) := by
  have leaves (other : Scheduler) : Shuffles other { other with current := none } :=
    ⟨rfl, rfl, fun _ found => .inr (found.resolve_left nofun)⟩
  cases isCurrent : scheduler.current with
  | none =>
    rw [currentExit_of_nobody _ code isCurrent]
    exact scheduler.schedule_shuffles
  | some pid =>
    cases found : scheduler.findTask pid with
    | none =>
      rw [currentExit_of_unknown _ code isCurrent found]
      exact (leaves scheduler).trans (schedule_shuffles _)
    | some task =>
      rw [currentExit_eq _ code isCurrent found]
      exact (((scheduler.markDead_shuffles pid code).trans (leaves _)).trans
        (wakeAll_shuffles _ _)).trans (schedule_shuffles _)

theorem sysKill_shuffles (scheduler : Scheduler) (pid : TaskId) (code : Int) :
    Shuffles scheduler (scheduler.sysKill pid code) := by
  unfold sysKill
  split
  · exact .refl scheduler
  split
  · exact scheduler.currentExit_shuffles code
  split
  · exact scheduler.kill_shuffles pid code
  · exact .refl scheduler

/-! ## Ids -/

/-- Ids are handed out in order, and only registered tasks are in the queues. -/
structure IdsIssued (scheduler : Scheduler) : Prop where
  distinct : scheduler.ids.Nodup
  count : scheduler.nextId = scheduler.ids.length + 1
  issued : ∀ pid ∈ scheduler.ids, pid < scheduler.nextId
  somewhere : ∀ pid, scheduler.Somewhere pid → pid < scheduler.nextId

theorem idsIssued_boot : boot.IdsIssued where
  distinct := by decide
  count := rfl
  issued := by decide
  somewhere pid found := by
    rcases found with current | queued | ⟨key, parked⟩
    · cases current
      decide
    · cases List.mem_singleton.mp queued
      decide
    · exact absurd parked (List.not_mem_nil)

theorem IdsIssued.shuffle {before after : Scheduler} (issued : before.IdsIssued)
    (shuffles : Shuffles before after) : after.IdsIssued where
  distinct := shuffles.ids ▸ issued.distinct
  count := by rw [shuffles.ids, shuffles.nextId, issued.count]
  issued pid member := by
    rw [shuffles.nextId]
    exact issued.issued pid (shuffles.ids ▸ member)
  somewhere pid found := by
    rw [shuffles.nextId]
    exact issued.somewhere pid (shuffles.somewhere pid found)

theorem IdsIssued.spawn {scheduler : Scheduler} (issued : scheduler.IdsIssued)
    (parent : TaskId) : (scheduler.spawn parent).IdsIssued where
  distinct := by
    rw [ids_spawn]
    refine List.nodup_append.mpr ⟨issued.distinct, List.nodup_singleton _, ?_⟩
    intro pid member other isNew same
    rw [List.mem_singleton.mp isNew] at same
    exact absurd (issued.issued pid member) (same ▸ Nat.lt_irrefl _)
  count := by
    rw [ids_spawn, spawn_nextId, issued.count, List.length_append]
    rfl
  issued pid member := by
    rw [ids_spawn, List.mem_append] at member
    rcases member with old | new
    · exact Nat.lt_succ_of_lt (issued.issued pid old)
    · rw [List.mem_singleton.mp new]
      exact Nat.lt_succ_self _
  somewhere pid found := by
    rcases found with current | queued | parked
    · exact Nat.lt_succ_of_lt (issued.somewhere pid (.inl current))
    · rw [spawn_runQueue, List.mem_append] at queued
      rcases queued with old | new
      · exact Nat.lt_succ_of_lt (issued.somewhere pid (.inr (.inl old)))
      · rw [List.mem_singleton.mp new]
        exact Nat.lt_succ_self _
    · exact Nat.lt_succ_of_lt (issued.somewhere pid (.inr (.inr parked)))

end PersonaOS.Sched.Scheduler
