import PersonaOS.Sched.Scheduler

/-! # Ready tasks move forward

The run queue is not plainly first in, first out: `kill` fills the hole it leaves with the last
task. But no operation moves a task back, and every switch moves it forward by one. -/

namespace PersonaOS.Sched

namespace Scheduler

inductive Op where
  | enqueue (pid : TaskId)
  | schedule
  | blockOn (key : WaitKey)
  | wakeAll (key : WaitKey)
  | kill (pid : TaskId) (code : Int)
  deriving DecidableEq, Repr

def operate (scheduler : Scheduler) : Op → Scheduler
  | .enqueue pid => scheduler.enqueue pid
  | .schedule => scheduler.schedule
  | .blockOn key => scheduler.blockOn key
  | .wakeAll key => scheduler.wakeAll key
  | .kill pid code => scheduler.kill pid code

def operateAll (scheduler : Scheduler) (ops : List Op) : Scheduler :=
  ops.foldl operate scheduler

/-- The operation runs `schedule`. -/
def Op.switches : Op → Bool
  | .enqueue _ => false
  | .schedule => true
  | .blockOn _ => true
  | .wakeAll _ => false
  | .kill _ _ => false

variable {scheduler : Scheduler} {place : Nat} {task : TaskId}

theorem requeue_runQueue (scheduler : Scheduler) (previous : Option TaskId) :
    ∃ more, (scheduler.requeue previous).runQueue = scheduler.runQueue ++ more := by
  cases previous with
  | none => exact ⟨[], (List.append_nil _).symm⟩
  | some outgoing =>
    rw [requeue]
    split
    · exact ⟨[outgoing], rfl⟩
    · exact ⟨[], (List.append_nil _).symm⟩

theorem schedule_of_mem (found : scheduler.runQueue[place]? = some task) :
    (place = 0 ∧ scheduler.schedule.current = some task) ∨
      ∃ ahead, place = ahead + 1 ∧ scheduler.schedule.runQueue[ahead]? = some task := by
  cases queued : scheduler.runQueue with
  | nil =>
    rw [queued] at found
    cases found
  | cons next rest =>
    rw [queued] at found
    rw [schedule_of_cons _ queued]
    cases place with
    | zero => exact .inl ⟨rfl, found⟩
    | succ ahead =>
      rw [List.getElem?_cons_succ] at found
      rcases requeue_runQueue { scheduler with runQueue := rest } scheduler.current with
        ⟨more, isQueue⟩
      refine .inr ⟨ahead, rfl, ?_⟩
      change (requeue { scheduler with runQueue := rest } _).runQueue[ahead]? = _
      rw [isQueue, List.getElem?_append_left (List.getElem?_eq_some_iff.mp found).1, found]

theorem schedule_current_eq (distinct : scheduler.runQueue.Nodup)
    (found : scheduler.runQueue[place]? = some task)
    (isCurrent : scheduler.schedule.current = some task) : place = 0 := by
  cases queued : scheduler.runQueue with
  | nil =>
    rw [queued] at found
    cases found
  | cons next rest =>
    rw [schedule_of_cons _ queued] at isCurrent
    have isHead : scheduler.runQueue[0]? = some task := by
      rw [queued]
      exact isCurrent
    exact (List.getElem?_inj (List.getElem?_eq_some_iff.mp found).1 distinct).mp
      (found.trans isHead.symm)

theorem blockOn_eq_schedule (scheduler : Scheduler) (key : WaitKey) :
    ∃ parked : Scheduler, scheduler.blockOn key = parked.schedule ∧
      parked.runQueue = scheduler.runQueue := by
  rw [blockOn]
  cases scheduler.current with
  | none => exact ⟨scheduler, rfl, rfl⟩
  | some pid => exact ⟨scheduler.park key pid, rfl, rfl⟩

theorem getElem?_wakeAll (found : scheduler.runQueue[place]? = some task) (key : WaitKey) :
    (scheduler.wakeAll key).runQueue[place]? = some task := by
  rw [wakeAll_runQueue, List.getElem?_append_left (List.getElem?_eq_some_iff.mp found).1, found]

theorem getElem?_kill (found : scheduler.runQueue[place]? = some task) {pid : TaskId}
    (isOther : task ≠ pid) (code : Int) :
    ∃ ahead, ahead ≤ place ∧ (scheduler.kill pid code).runQueue[ahead]? = some task := by
  cases isTarget : scheduler.findTask pid with
  | none =>
    rw [kill_of_unknown _ code isTarget]
    exact ⟨place, Nat.le_refl place, found⟩
  | some target =>
    rw [kill_eq _ code isTarget]
    have stays : (task == pid) = false := beq_eq_false_iff_ne.mpr isOther
    rcases @getElem?_swapDrain _ (fun other => other == pid) _ _ _ found stays with
      ⟨ahead, isAhead, foundAhead⟩
    exact ⟨ahead, isAhead, getElem?_wakeAll foundAhead _⟩

/-- One operation: the task becomes current, from the head and by a switch, or is as far ahead
as it was, and by a switch one place further. -/
theorem operate_forward {op : Op} (found : scheduler.runQueue[place]? = some task)
    (spared : ∀ code, op ≠ .kill task code) :
    (op.switches = true ∧ place = 0 ∧ (scheduler.operate op).current = some task) ∨
      ∃ ahead, ahead ≤ place ∧ (op.switches = true → place = ahead + 1) ∧
        (scheduler.operate op).runQueue[ahead]? = some task := by
  have switching {parked : Scheduler} (sameQueue : parked.runQueue = scheduler.runQueue)
      (switches : op.switches = true) (isSchedule : scheduler.operate op = parked.schedule) :
      (op.switches = true ∧ place = 0 ∧ (scheduler.operate op).current = some task) ∨
        ∃ ahead, ahead ≤ place ∧ (op.switches = true → place = ahead + 1) ∧
          (scheduler.operate op).runQueue[ahead]? = some task := by
    rw [← sameQueue] at found
    rw [isSchedule]
    rcases schedule_of_mem found with ⟨isHead, isCurrent⟩ | ⟨ahead, isNext, foundAhead⟩
    · exact .inl ⟨switches, isHead, isCurrent⟩
    · exact .inr ⟨ahead, by omega, fun _ => isNext, foundAhead⟩
  cases op with
  | enqueue pid =>
    refine .inr ⟨place, Nat.le_refl place, fun switches => (by cases switches), ?_⟩
    exact (List.getElem?_append_left (List.getElem?_eq_some_iff.mp found).1).trans found
  | schedule => exact switching rfl rfl rfl
  | blockOn key =>
    rcases blockOn_eq_schedule scheduler key with ⟨parked, isSchedule, sameQueue⟩
    exact switching sameQueue rfl isSchedule
  | wakeAll key =>
    exact .inr ⟨place, Nat.le_refl place, fun switches => (by cases switches),
      getElem?_wakeAll found key⟩
  | kill pid code =>
    have isOther : task ≠ pid := fun same => spared code (by rw [same])
    rcases getElem?_kill found isOther code with ⟨ahead, isAhead, foundAhead⟩
    exact .inr ⟨ahead, isAhead, fun switches => (by cases switches), foundAhead⟩

theorem operate_current {op : Op} (distinct : scheduler.runQueue.Nodup)
    (found : scheduler.runQueue[place]? = some task)
    (isCurrent : (scheduler.operate op).current = some task) :
    (op.switches = true ∧ place = 0) ∨ scheduler.current = some task := by
  cases op with
  | enqueue pid => exact .inr isCurrent
  | schedule => exact .inl ⟨rfl, schedule_current_eq distinct found isCurrent⟩
  | blockOn key =>
    rcases blockOn_eq_schedule scheduler key with ⟨parked, isSchedule, sameQueue⟩
    rw [← sameQueue] at distinct found
    exact .inl ⟨rfl, schedule_current_eq distinct found (isSchedule ▸ isCurrent)⟩
  | wakeAll key => exact .inr ((scheduler.wakeAll_current key).symm.trans isCurrent)
  | kill pid code => exact .inr ((scheduler.kill_current pid code).symm.trans isCurrent)

theorem operateAll_current {ops : List Op} (found : scheduler.runQueue[place]? = some task)
    (spared : ∀ op, op ∈ ops → ∀ code, op ≠ .kill task code)
    (enough : place + 1 ≤ ops.countP Op.switches) :
    ∃ before op rest, ops = before ++ op :: rest ∧
      (before ++ [op]).countP Op.switches ≤ place + 1 ∧
        (scheduler.operateAll (before ++ [op])).current = some task := by
  induction ops generalizing scheduler place with
  | nil => cases enough
  | cons op ops induction =>
    have sparedRest : ∀ other, other ∈ ops → ∀ code, other ≠ .kill task code :=
      fun other isIn => spared other (List.mem_cons_of_mem op isIn)
    rw [List.countP_cons] at enough
    rcases operate_forward found (spared op List.mem_cons_self) with
      ⟨switches, isHead, isCurrent⟩ | ⟨ahead, isAhead, isNext, foundAhead⟩
    · refine ⟨[], op, ops, rfl, ?_, isCurrent⟩
      rw [List.nil_append, List.countP_singleton, if_pos switches]
      omega
    · have enoughRest : ahead + 1 ≤ ops.countP Op.switches := by
        by_cases switches : op.switches = true
        · rw [if_pos switches, isNext switches] at enough
          omega
        · rw [if_neg switches] at enough
          omega
      rcases induction foundAhead sparedRest enoughRest with
        ⟨before, last, rest, isSplit, few, isTurn⟩
      refine ⟨op :: before, last, rest, congrArg (op :: ·) isSplit, ?_, isTurn⟩
      rw [List.cons_append, List.countP_cons]
      by_cases switches : op.switches = true
      · rw [if_pos switches, isNext switches]
        omega
      · rw [if_neg switches]
        omega

/-- A queued task never moves back, moves up by one with each switch until it is current, and so
is current after no more switches than there are tasks before it, and one. -/
theorem queued_moves_forward (scheduler : Scheduler) (distinct : scheduler.runQueue.Nodup)
    (place : Nat) (task : TaskId) (found : scheduler.runQueue[place]? = some task) :
    (∀ op : Op, (∀ code, op ≠ .kill task code) →
      ((op.switches = true ∧ place = 0 ∧ (scheduler.operate op).current = some task) ∨
        ∃ ahead, ahead ≤ place ∧ (op.switches = true → place = ahead + 1) ∧
          (scheduler.operate op).runQueue[ahead]? = some task) ∧
      ((scheduler.operate op).current = some task →
        (op.switches = true ∧ place = 0) ∨ scheduler.current = some task)) ∧
      ∀ ops : List Op, (∀ op, op ∈ ops → ∀ code, op ≠ .kill task code) →
        place + 1 ≤ ops.countP Op.switches →
        ∃ before op rest, ops = before ++ op :: rest ∧
          (before ++ [op]).countP Op.switches ≤ place + 1 ∧
            (scheduler.operateAll (before ++ [op])).current = some task :=
  ⟨fun _ spared => ⟨operate_forward found spared, operate_current distinct found⟩,
    fun _ spared enough => operateAll_current found spared enough⟩

/-- The second of three tasks, while the first is killed. -/
theorem queued_moves_forward_three :
    ∃ before op rest, [Op.kill 2 0, .wakeAll 5, .schedule, .blockOn 7] = before ++ op :: rest ∧
      (before ++ [op]).countP Op.switches ≤ 2 ∧
        ({ boot with runQueue := [2, 3, 4] }.operateAll (before ++ [op])).current = some 3 :=
  (queued_moves_forward { boot with runQueue := [2, 3, 4] } (by decide) 1 3 rfl).2 _
    (by intro op isIn code same; subst same; simp at isIn) (by decide)

end Scheduler

end PersonaOS.Sched
