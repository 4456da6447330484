import PersonaOS.Foundation.Ring

/-! # The byte queue

`ByteQueue` is the buffer between the keyboard and those who read it. An index out of range
panics; this is `none` here. -/

namespace PersonaOS.Drivers.Ps2

def inputQueue : Nat := 32

structure ByteQueue where
  buf : Vector UInt8 inputQueue
  head : Nat
  len : Nat
  deriving DecidableEq, Repr

namespace ByteQueue

def new : ByteQueue where
  buf := Vector.replicate inputQueue 0
  head := 0
  len := 0

/-- `self.buf[idx] = b` -/
def store (queue : ByteQueue) (idx : Nat) (b : UInt8) : Option ByteQueue :=
  if inside : idx < inputQueue then
    some { queue with buf := queue.buf.set idx b inside }
  else
    none

def push (queue : ByteQueue) (b : UInt8) : Option ByteQueue :=
  if queue.len = inputQueue then do
    let queue ← queue.store queue.head b
    return { queue with head := (queue.head + 1) % inputQueue }
  else do
    let idx := (queue.head + queue.len) % inputQueue
    let queue ← queue.store idx b
    return { queue with len := queue.len + 1 }

def pop (queue : ByteQueue) : Option (Option UInt8 × ByteQueue) :=
  if queue.len = 0 then
    some (none, queue)
  else do
    let b ← queue.buf[queue.head]?
    return (some b,
      { queue with head := (queue.head + 1) % inputQueue, len := queue.len - 1 })

def peek (queue : ByteQueue) : Option (Option UInt8) :=
  if queue.len = 0 then
    some none
  else do
    let b ← queue.buf[queue.head]?
    return some b

inductive Call where
  | push (b : UInt8)
  | pop
  | peek
  deriving DecidableEq, Repr

def perform (queue : ByteQueue) : Call → Option (Option UInt8 × ByteQueue)
  | .push b => (queue.push b).map fun queue => (none, queue)
  | .pop => queue.pop
  | .peek => queue.peek.map fun answer => (answer, queue)

def run (queue : ByteQueue) : List Call → Option (List (Option UInt8) × ByteQueue)
  | [] => some ([], queue)
  | call :: calls => do
      let (answer, queue) ← queue.perform call
      let (answers, queue) ← queue.run calls
      return (answer :: answers, queue)

end ByteQueue

/-! ## The sliding window -/

def Window.perform (held : List UInt8) : ByteQueue.Call → Option UInt8 × List UInt8
  | .push b =>
    (none, if held.length = inputQueue then held.tail ++ [b] else held ++ [b])
  | .pop => (held.head?, held.tail)
  | .peek => (held.head?, held)

def Window.run (held : List UInt8) : List ByteQueue.Call → List (Option UInt8) × List UInt8
  | [] => ([], held)
  | call :: calls =>
    let (answer, held) := Window.perform held call
    let (answers, held) := Window.run held calls
    (answer :: answers, held)

namespace ByteQueue

instance : NeZero inputQueue := ⟨by decide⟩

def toRing (queue : ByteQueue) : Ring UInt8 inputQueue where
  buf slot := queue.buf[slot]
  head := queue.head
  len := queue.len

def held (queue : ByteQueue) : List UInt8 := queue.toRing.contents

structure InBounds (queue : ByteQueue) : Prop where
  head : queue.head < inputQueue
  len : queue.len ≤ inputQueue

theorem inBounds_new : new.InBounds := ⟨by decide, by decide⟩

variable {queue : ByteQueue}

theorem length_held (queue : ByteQueue) : queue.held.length = queue.len :=
  Ring.length_contents queue.toRing

theorem toRing_slot (inBounds : queue.InBounds) :
    queue.toRing.slot 0 = ⟨queue.head, inBounds.head⟩ :=
  Fin.ext (Nat.mod_eq_of_lt inBounds.head)

theorem store_eq (queue : ByteQueue) {idx : Nat} (inside : idx < inputQueue) (b : UInt8) :
    ∃ buf : Vector UInt8 inputQueue, queue.store idx b = some { queue with buf } ∧
      (fun slot : Fin inputQueue => buf[slot]) =
        Function.update queue.toRing.buf ⟨idx, inside⟩ b := by
  refine ⟨queue.buf.set idx b inside, dif_pos inside, ?_⟩
  funext slot
  by_cases same : slot = ⟨idx, inside⟩
  · rw [same, Function.update_self]
    exact Vector.getElem_set_self inside
  · rw [Function.update_of_ne same]
    exact Vector.getElem_set_ne _ _ fun sameIndex => same (Fin.ext sameIndex.symm)

theorem push_refines (inBounds : queue.InBounds) (b : UInt8) :
    ∃ next, queue.push b = some next ∧ next.InBounds ∧
      next.toRing = queue.toRing.push b := by
  have inside (index : Nat) : index % inputQueue < inputQueue := Nat.mod_lt index (by decide)
  by_cases isFull : queue.len = inputQueue
  · rcases store_eq queue inBounds.head b with ⟨buf, stores, isUpdate⟩
    refine ⟨{ queue with buf, head := (queue.head + 1) % inputQueue }, ?_, ⟨inside _, inBounds.len⟩,
      ?_⟩
    · rw [push, if_pos isFull, stores]
      rfl
    · rw [Ring.push, if_pos (show queue.toRing.len = inputQueue from isFull),
        toRing_slot inBounds, ← isUpdate]
      rfl
  · rcases store_eq queue (inside (queue.head + queue.len)) b with ⟨buf, stores, isUpdate⟩
    refine ⟨{ queue with buf, len := queue.len + 1 }, ?_, ⟨inBounds.head, ?_⟩, ?_⟩
    · simp only [push, if_neg isFull, stores]
      rfl
    · exact Nat.lt_of_le_of_ne inBounds.len isFull
    · rw [Ring.push, if_neg (show ¬ queue.toRing.len = inputQueue from isFull)]
      change Ring.mk (fun slot : Fin inputQueue => buf[slot]) _ _ = _
      rw [isUpdate]
      rfl

theorem getElem?_head (inBounds : queue.InBounds) :
    queue.buf[queue.head]? = some (queue.toRing.buf (queue.toRing.slot 0)) := by
  rw [toRing_slot inBounds]
  exact Vector.getElem?_eq_getElem inBounds.head

theorem pop_refines (inBounds : queue.InBounds) :
    ∃ next, queue.pop = some (queue.toRing.pop.1, next) ∧ next.InBounds ∧
      next.toRing = queue.toRing.pop.2 := by
  by_cases isEmpty : queue.len = 0
  · have isNone : queue.toRing.pop = (none, queue.toRing) :=
      if_pos (show queue.toRing.len = 0 from isEmpty)
    rw [isNone]
    exact ⟨queue, if_pos isEmpty, inBounds, rfl⟩
  · have inside : (queue.head + 1) % inputQueue < inputQueue := Nat.mod_lt _ (by decide)
    rw [Ring.pop, if_neg (show ¬ queue.toRing.len = 0 from isEmpty)]
    refine ⟨{ queue with head := (queue.head + 1) % inputQueue, len := queue.len - 1 }, ?_,
      ⟨inside, Nat.le_trans (Nat.sub_le _ _) inBounds.len⟩, rfl⟩
    rw [pop, if_neg isEmpty, getElem?_head inBounds]
    rfl

theorem peek_refines (inBounds : queue.InBounds) : queue.peek = some queue.toRing.peek := by
  rw [peek, Ring.peek]
  by_cases isEmpty : queue.len = 0
  · rw [if_pos isEmpty, if_pos (show queue.toRing.len = 0 from isEmpty)]
  · rw [if_neg isEmpty, if_neg (show ¬ queue.toRing.len = 0 from isEmpty), getElem?_head inBounds]
    rfl

theorem perform_refines (inBounds : queue.InBounds) (call : Call) :
    ∃ next, queue.perform call = some ((Window.perform queue.held call).1, next) ∧
      next.InBounds ∧ next.held = (Window.perform queue.held call).2 := by
  cases call with
  | push b =>
    rcases push_refines inBounds b with ⟨next, pushes, nextInBounds, isRing⟩
    refine ⟨next, ?_, nextInBounds, ?_⟩
    · rw [perform, pushes]
      rfl
    · rw [held, isRing, Window.perform, length_held]
      by_cases isFull : queue.len = inputQueue
      · rw [if_pos isFull]
        exact Ring.contents_push_full isFull b
      · rw [if_neg isFull]
        exact Ring.contents_push (Nat.lt_of_le_of_ne inBounds.len isFull) b
  | pop =>
    rcases pop_refines inBounds with ⟨next, pops, nextInBounds, isRing⟩
    rw [queue.toRing.pop_contents.1] at pops
    refine ⟨next, pops, nextInBounds, ?_⟩
    rw [held, isRing]
    exact queue.toRing.pop_contents.2
  | peek =>
    refine ⟨queue, ?_, inBounds, rfl⟩
    rw [perform, peek_refines inBounds, Ring.peek_eq_pop, queue.toRing.pop_contents.1]
    rfl

theorem run_refines (inBounds : queue.InBounds) (calls : List Call) :
    ∃ last, queue.run calls = some ((Window.run queue.held calls).1, last) ∧
      last.InBounds ∧ last.held = (Window.run queue.held calls).2 := by
  induction calls generalizing queue with
  | nil => exact ⟨queue, rfl, inBounds, rfl⟩
  | cons call calls induction =>
    rcases perform_refines inBounds call with ⟨next, performs, nextInBounds, nextHeld⟩
    rcases induction nextInBounds with ⟨last, runs, lastInBounds, lastHeld⟩
    rw [nextHeld] at runs lastHeld
    refine ⟨last, ?_, lastInBounds, lastHeld⟩
    rw [run, performs]
    simp only [Option.bind_eq_bind, Option.bind_some, runs]
    rfl

/-- From `ByteQueue::new` on the queue is a window of 32 bytes. -/
theorem slidingWindow (calls : List Call) :
    ∃ queue, new.run calls = some ((Window.run [] calls).1, queue) ∧
      queue.held = (Window.run [] calls).2 ∧ queue.head < 32 ∧ queue.len ≤ 32 := by
  rcases run_refines inBounds_new calls with ⟨queue, runs, inBounds, isHeld⟩
  exact ⟨queue, runs, isHeld, inBounds.head, inBounds.len⟩

end ByteQueue

end PersonaOS.Drivers.Ps2
