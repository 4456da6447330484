import PersonaOS.Kernel.Refinement
import PersonaOS.Sched.Death

/-! # Reporting exits

A parent polls for its exited children with `sys_waitpid` and `WNOHANG`. What it was told is
kept in a history beside the scheduler, which itself does not remember it. -/

namespace PersonaOS.Sched

structure History where
  scheduler : Scheduler
  reported : TaskId → List TaskId

namespace History

def start : History := { scheduler := .boot, reported := fun _ => [] }

/-- What `sys_waitpid` with `WNOHANG` returns to a parent, and the exit code it stores. -/
def answer (scheduler : Scheduler) (parent sel : TaskId) : Int × Option Int :=
  if scheduler.hasChild parent sel then
    match scheduler.findExitedChild parent sel with
    | some (pid, code) => (pid, some code)
    | none => (0, none)
  else
    (-1, none)

def waitpid (history : History) (parent sel : TaskId) : History :=
  { history with
    reported :=
      match history.scheduler.findExitedChild parent sel with
      | some (pid, _) =>
        Function.update history.reported parent (pid :: history.reported parent)
      | none => history.reported }

/-- What happens: a scheduler call, or a look for exited children by the current task. A
blocking `sys_waitpid` is such a look before and after each time it blocks. -/
inductive Event where
  | call (call : Scheduler.Call)
  | waitpid (sel : TaskId)

def step (history : History) : Event → History
  | .call call => { history with scheduler := history.scheduler.perform call }
  | .waitpid sel =>
    match history.scheduler.current with
    | some parent => history.waitpid parent sel
    | none => history

def run (history : History) (events : List Event) : History := events.foldl step history

def waitpids (history : History) (parent : TaskId) : Nat → List (Int × Option Int)
  | 0 => []
  | count + 1 =>
    answer history.scheduler parent 0 :: (history.waitpid parent 0).waitpids parent count

def unreported (history : History) (parent : TaskId) : List Task :=
  history.scheduler.tasks.filter fun task =>
    task.parent == parent && task.state == .dead && !(history.reported parent).contains task.id

def HasLiveChild (history : History) (parent : TaskId) : Prop :=
  ∃ task, task ∈ history.scheduler.tasks ∧ task.parent = parent ∧ task.state ≠ .dead

/-- As many calls as there are dead children to be told of return them, each once and with its
code. The call after that returns 0 if a live child is left and -1 if not. -/
def ReportsOnce (history : History) (parent : TaskId) : Prop :=
  let count := (history.unreported parent).length
  let answers := history.waitpids parent (count + 1)
  ((answers.take count).map Prod.fst).Nodup ∧
    (∀ reply, reply ∈ answers.take count →
      ∃ task, task ∈ history.unreported parent ∧
        reply = ((task.id : Int), some task.exitCode)) ∧
    ∃ last, answers[count]? = some last ∧
      (history.HasLiveChild parent → last.1 = 0) ∧ (¬ history.HasLiveChild parent → last.1 = -1)

/-! ## The answers -/

theorem waitpids_eq (history : History) (parent : TaskId) (count : Nat) :
    history.waitpids parent count =
      List.replicate count (answer history.scheduler parent 0) := by
  induction count generalizing history with
  | zero => rfl
  | succ count induction =>
    rw [waitpids, induction, List.replicate_succ]
    rfl

theorem answer_of_none {scheduler : Scheduler} {parent : TaskId}
    (noneExited : scheduler.NoneExited parent 0) :
    answer scheduler parent 0 = if scheduler.hasChild parent 0 then (0, none) else (-1, none) := by
  rw [answer, Scheduler.findExitedChild_eq_none.mpr noneExited]

theorem answer_of_dead {scheduler : Scheduler} {parent : TaskId} {child : Task}
    (isTask : child ∈ scheduler.tasks) (isChild : child.parent = parent)
    (isDead : child.state = .dead) :
    ∃ task, task ∈ scheduler.tasks ∧
      answer scheduler parent 0 = ((task.id : Int), some task.exitCode) := by
  have hasChild : scheduler.hasChild parent 0 = true := by
    rw [Scheduler.hasChild, List.any_eq_true]
    exact ⟨child, isTask, by simp [isChild]⟩
  rw [answer, if_pos hasChild]
  cases found : scheduler.findExitedChild parent 0 with
  | none =>
    have noneExited := Scheduler.findExitedChild_eq_none.mp found
    exact absurd isDead (noneExited child isTask isChild (.inl rfl))
  | some reply =>
    rw [Scheduler.findExitedChild, Option.map_eq_some_iff] at found
    rcases found with ⟨task, isFound, rfl⟩
    exact ⟨task, List.mem_of_find?_eq_some isFound, rfl⟩

/-- A poll by the current task ends at once, with the answer and its exit code at
`status_ptr`. -/
theorem sysWaitpid_nohang {σ H : Type} (services : Services σ H) {world : World σ}
    {parent : TaskId} (isCurrent : world.kernel.sched.current = some parent)
    (turns sel statusPtr flags : Nat) (noHang : flags.testBit 0 = true) :
    ∃ memory, returning (sysWaitpid services (turns + 1) sel statusPtr flags) world =
        .ok (answer world.kernel.sched parent sel).1 { world with memory } ∧
      ∀ code, (answer world.kernel.sched parent sel).2 = some code → statusPtr ≠ 0 →
        window memory statusPtr 4 = Codec.u32.encode (Int32.ofInt code).toUInt32 := by
  unfold returning sysWaitpid answer
  rw [Program.bind_apply, currentTask_apply isCurrent]
  simp only [Program.get_bind_apply]
  by_cases hasChild : world.kernel.sched.hasChild parent sel = true
  · simp only [if_pos hasChild, waitLoop, Program.get_bind_apply]
    cases found : world.kernel.sched.findExitedChild parent sel with
    | none =>
      simp only [if_pos noHang]
      refine ⟨world.memory, rfl, fun _ isNone => ?_⟩
      cases isNone
    | some exit =>
      simp only [writeStatus]
      by_cases isNull : statusPtr = 0
      · simp only [if_pos isNull]
        exact ⟨world.memory, rfl, fun _ _ notNull => absurd isNull notNull⟩
      · simp only [if_neg isNull]
        refine ⟨_, rfl, fun code isCode _ => ?_⟩
        cases isCode
        exact window_patch _ _ _
  · simp only [if_neg hasChild]
    refine ⟨world.memory, rfl, fun _ isNone => ?_⟩
    cases isNone

/-! ## Histories -/

/-- No task has the number 0, which stands for no exit. -/
def Positive (scheduler : Scheduler) : Prop :=
  (∀ pid, pid ∈ scheduler.ids → 0 < pid) ∧ 0 < scheduler.nextId

theorem Positive.shuffle {before after : Scheduler} (positive : Positive before)
    (shuffles : Scheduler.Shuffles before after) : Positive after := by
  rw [Positive, shuffles.ids, shuffles.nextId]
  exact positive

theorem Positive.perform {scheduler : Scheduler} (positive : Positive scheduler)
    (call : Scheduler.Call) : Positive (scheduler.perform call) := by
  cases call with
  | spawn parent =>
    refine ⟨?_, Nat.zero_lt_succ _⟩
    intro pid isIn
    rw [Scheduler.perform, Scheduler.ids_spawn, List.mem_append, List.mem_singleton] at isIn
    rcases isIn with isOld | rfl
    · exact positive.1 pid isOld
    · exact positive.2
  | schedule => exact positive.shuffle scheduler.schedule_shuffles
  | blockOn key => exact positive.shuffle (scheduler.blockOn_shuffles key)
  | wakeAll key => exact positive.shuffle (scheduler.wakeAll_shuffles key)
  | sysExit code => exact positive.shuffle (scheduler.currentExit_shuffles code)
  | sysKill pid code => exact positive.shuffle (scheduler.sysKill_shuffles pid code)

theorem positive_run (events : List Event) : Positive (start.run events).scheduler := by
  have step (history : History) (positive : Positive history.scheduler) :
      Positive (history.run events).scheduler := by
    induction events generalizing history with
    | nil => exact positive
    | cons event events induction =>
      apply induction
      cases event with
      | call call => exact positive.perform call
      | waitpid sel =>
        rw [History.step]
        cases history.scheduler.current <;> exact positive
  exact step start ⟨by decide, by decide⟩

/-- After any history, the children of a parent are reported once each if and only if none of
them is dead: a child that is dead is returned again and again. -/
theorem reportsOnce_iff (events : List Event) (parent : TaskId) :
    (start.run events).ReportsOnce parent ↔
      ∀ child, child ∈ (start.run events).scheduler.tasks → child.parent = parent →
        child.state ≠ .dead := by
  have isPositive := (positive_run events).1
  generalize start.run events = history at isPositive ⊢
  have isLast (count : Nat) : (history.waitpids parent (count + 1))[count]? =
      some (answer history.scheduler parent 0) := by
    rw [waitpids_eq, List.getElem?_replicate, if_pos (Nat.lt_succ_self count)]
  constructor
  · intro reports child isTask isChild isDead
    rcases answer_of_dead isTask isChild isDead with ⟨task, isIn, isAnswer⟩
    rcases reports.2.2 with ⟨last, found, live, dead⟩
    rw [isLast, isAnswer] at found
    cases found
    have isId : (0 : Nat) < task.id := isPositive task.id (List.mem_map_of_mem isIn)
    by_cases hasLive : history.HasLiveChild parent
    · have isZero : (task.id : Int) = 0 := live hasLive
      omega
    · have isMinus : (task.id : Int) = -1 := dead hasLive
      omega
  · intro noneDead
    have noneExited : history.scheduler.NoneExited parent 0 :=
      fun child isTask isChild _ => noneDead child isTask isChild
    have noneLeft : history.unreported parent = [] := by
      rw [unreported, List.filter_eq_nil_iff]
      intro task isTask isLeft
      simp only [Bool.and_eq_true, beq_iff_eq] at isLeft
      exact noneDead task isTask isLeft.1.1 isLeft.1.2
    have hasChild_iff : history.scheduler.hasChild parent 0 = true ↔
        history.HasLiveChild parent := by
      rw [Scheduler.hasChild, List.any_eq_true]
      constructor
      · intro hasChild
        rcases hasChild with ⟨task, isTask, isChild⟩
        have isParent : task.parent = parent := by simpa using isChild
        exact ⟨task, isTask, isParent, noneDead task isTask isParent⟩
      · intro hasLive
        rcases hasLive with ⟨task, isTask, isParent, _⟩
        exact ⟨task, isTask, by simp [isParent]⟩
    rw [ReportsOnce, noneLeft]
    refine ⟨List.nodup_nil, fun reply isIn => absurd isIn List.not_mem_nil,
      _, isLast 0, ?_, ?_⟩
    · intro hasLive
      rw [answer_of_none noneExited, if_pos (hasChild_iff.mpr hasLive)]
    · intro noLive
      rw [answer_of_none noneExited, if_neg fun hasChild => noLive (hasChild_iff.mp hasChild)]

def killedChild : History :=
  start.run [.call .schedule, .call (.spawn 2), .call (.sysKill 3 7)]

/-- The first call returns the child, and so does the second. -/
theorem reported_twice :
    killedChild.waitpids 2 2 = [(3, some 7), (3, some 7)] ∧ ¬ killedChild.ReportsOnce 2 := by
  have isTwice : killedChild.waitpids 2 2 = [(3, some 7), (3, some 7)] := by decide
  have isOne : (killedChild.unreported 2).length = 1 := by decide
  refine ⟨isTwice, ?_⟩
  intro reports
  rw [ReportsOnce, isOne, isTwice] at reports
  rcases reports.2.2 with ⟨last, found, live, dead⟩
  cases found
  by_cases hasLive : killedChild.HasLiveChild 2
  · exact absurd (live hasLive) (by decide)
  · exact absurd (dead hasLive) (by decide)

end History

end PersonaOS.Sched
