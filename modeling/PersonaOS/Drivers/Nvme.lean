import PersonaOS.Foundation.PhaseRing
import PersonaOS.Foundation.Trace

/-! # The NVMe queue protocol

One queue pair of the driver in `kernel/src/drivers/nvme` and a conforming controller.
The driver submits one command at a time: it writes a submission entry, rings the
doorbell, and polls the completion slot at its head until the phase bit there is its own.
It never looks at the command id of a completion. The controller takes the submission
entries up to the doorbell and posts one completion for each, after any delay; what it
answers is its own choice. -/

namespace PersonaOS.Drivers.Nvme

open PhaseRing

structure SubmissionEntry where
  cdw0 : UInt32
  nsid : UInt32
  mptr : UInt64
  prp1 : UInt64
  prp2 : UInt64
  cdw10 : UInt32
  cdw11 : UInt32
  cdw12 : UInt32
  cdw13 : UInt32
  cdw14 : UInt32
  cdw15 : UInt32
  deriving DecidableEq, Repr

def SubmissionEntry.zero : SubmissionEntry := ⟨0, 0, 0, 0, 0, 0, 0, 0, 0, 0, 0⟩

/-- The command id, in the upper half of the first double word. -/
def SubmissionEntry.cid (command : SubmissionEntry) : UInt16 := (command.cdw0 >>> 16).toUInt16

structure CompletionEntry where
  cdw0 : UInt32
  sqHead : UInt16
  sqId : UInt16
  cid : UInt16
  status : UInt16
  deriving DecidableEq, Repr

namespace CompletionEntry

def zero : CompletionEntry := ⟨0, 0, 0, 0, 0⟩

def phase (entry : CompletionEntry) : UInt16 := entry.status &&& 1

def answer (entry : CompletionEntry) : UInt32 × UInt16 := (entry.cdw0, entry.status >>> 1)

end CompletionEntry

def flip (phase : UInt16) : UInt16 := phase ^^^ 1

/-! ## The driver -/

structure Shared where
  sq : Nat → SubmissionEntry
  cq : Nat → CompletionEntry
  doorbellSq : Nat
  doorbellCq : Nat

/-- The driver's side of a queue pair. The indices stay below the depths, so adding one to
them does not overflow. -/
structure Queue where
  sqDepth : Nat
  cqDepth : Nat
  sqTail : Nat
  cqHead : Nat
  phase : UInt16
  nextCid : UInt16

namespace Queue

def tag (queue : Queue) (cmd : SubmissionEntry) : SubmissionEntry :=
  { cmd with cdw0 := (cmd.cdw0 &&& (0x0000FFFF : UInt32)) ||| (queue.nextCid.toUInt32 <<< 16) }

/-- `submit_sync` up to the write of the submission slot. -/
def write (queue : Queue) (cmd : SubmissionEntry) (shared : Shared) : Queue × Shared :=
  ({ queue with nextCid := queue.nextCid + 1, sqTail := (queue.sqTail + 1) % queue.sqDepth },
    { shared with sq := Function.update shared.sq queue.sqTail (queue.tag cmd) })

def ring (queue : Queue) (shared : Shared) : Shared :=
  { shared with doorbellSq := queue.sqTail }

/-- One turn of the polling loop of `submit_sync`: nothing while the phase at the head is
not the driver's, else the call's result. -/
def poll (queue : Queue) (shared : Shared) : Option ((UInt32 × UInt16) × Queue × Shared) :=
  let cqe := shared.cq queue.cqHead
  if cqe.phase = queue.phase then
    let cqHead := (queue.cqHead + 1) % queue.cqDepth
    some (cqe.answer,
      { queue with cqHead, phase := if cqHead = 0 then queue.phase ^^^ 1 else queue.phase },
      { shared with doorbellCq := cqHead })
  else
    none

def cursor (queue : Queue) : Cursor UInt16 := ⟨queue.cqHead, queue.phase⟩

/-- A queue pair as `bring_up` and `create_io_queues` set it up. -/
def new (depth : Nat) : Queue := ⟨depth, depth, 0, 0, 1, 0⟩

end Queue

/-! ## The controller -/

structure Controller where
  depth : Nat
  sqHead : Nat
  cqTail : Nat
  phase : UInt16
  /-- The commands taken from the ring and not completed yet. -/
  fetched : List SubmissionEntry

namespace Controller

def cursor (controller : Controller) : Cursor UInt16 := ⟨controller.cqTail, controller.phase⟩

def fetch (controller : Controller) (shared : Shared) : Controller :=
  { controller with
    sqHead := (controller.sqHead + 1) % controller.depth
    fetched := controller.fetched ++ [shared.sq controller.sqHead] }

def advance (controller : Controller) : Controller :=
  { controller with
    cqTail := (controller.cqTail + 1) % controller.depth
    phase :=
      if (controller.cqTail + 1) % controller.depth = 0 then flip controller.phase
      else controller.phase }

def pending (controller : Controller) (shared : Shared) : Nat :=
  if controller.sqHead ≤ shared.doorbellSq then shared.doorbellSq - controller.sqHead
  else shared.doorbellSq + controller.depth - controller.sqHead

/-- How many steps the controller has to take before it has answered every command up to
the doorbell. -/
def work (controller : Controller) (shared : Shared) : Nat :=
  2 * controller.pending shared + controller.fetched.length

end Controller

/-! ## The system -/

/-- Where the driver is in `submit_sync`. -/
inductive Driver where
  | idle
  | written
  | polling
  deriving DecidableEq, Repr

structure System where
  queue : Queue
  shared : Shared
  controller : Controller
  driver : Driver
  /-- The commands submitted, as they were put into the ring. -/
  submitted : List SubmissionEntry
  /-- The completions the controller posted. -/
  posted : List CompletionEntry
  /-- What the completed calls returned. -/
  returned : List (UInt32 × UInt16)

def System.start (depth : Nat) : System where
  queue := .new depth
  shared := ⟨fun _ => .zero, fun _ => .zero, 0, 0⟩
  controller := ⟨depth, 0, 0, 1, []⟩
  driver := .idle
  submitted := []
  posted := []
  returned := []

inductive Event where
  | submit (cmd : SubmissionEntry)
  | ring
  | poll
  | fetch
  | post (entry : CompletionEntry)

def Event.ByController : Event → Prop
  | .fetch | .post _ => True
  | .submit _ | .ring | .poll => False

inductive Step : System → Event → System → Prop
  | submit {system : System} (cmd : SubmissionEntry) : system.driver = .idle →
      Step system (.submit cmd)
        { system with
          queue := (system.queue.write cmd system.shared).1
          shared := (system.queue.write cmd system.shared).2
          driver := .written
          submitted := system.submitted ++ [system.queue.tag cmd] }
  | ring {system : System} : system.driver = .written →
      Step system .ring
        { system with shared := system.queue.ring system.shared, driver := .polling }
  | spin {system : System} : system.driver = .polling →
      system.queue.poll system.shared = none → Step system .poll system
  | complete {system : System} {answer : UInt32 × UInt16} {queue : Queue} {shared : Shared} :
      system.driver = .polling →
      system.queue.poll system.shared = some (answer, queue, shared) →
      Step system .poll
        { system with queue, shared, driver := .idle, returned := system.returned ++ [answer] }
  | fetch {system : System} : system.controller.sqHead ≠ system.shared.doorbellSq →
      Step system .fetch { system with controller := system.controller.fetch system.shared }
  | post {system : System} {before after : List SubmissionEntry} {command : SubmissionEntry}
      (entry : CompletionEntry) :
      system.controller.fetched = before ++ command :: after →
      entry.cid = command.cid → entry.phase = system.controller.phase →
      Step system (.post entry)
        { system with
          shared :=
            { system.shared with
              cq := Function.update system.shared.cq system.controller.cqTail entry }
          controller := { system.controller.advance with fetched := before ++ after }
          posted := system.posted ++ [entry] }

/-! ## The invariant -/

theorem flip_flip (phase : UInt16) : flip (flip phase) = phase := by
  rw [flip, flip, UInt16.xor_assoc, UInt16.xor_self, UInt16.xor_zero]

theorem flip_ne (phase : UInt16) : flip phase ≠ phase := by
  intro same
  have cancelled : phase ^^^ (phase ^^^ 1) = phase ^^^ phase := congrArg (phase ^^^ ·) same
  rw [← UInt16.xor_assoc, UInt16.xor_self, UInt16.zero_xor] at cancelled
  cases cancelled

/-- Both sides have come as far as the entries they handled say, and the completion ring
is stamped by the controller. -/
structure Linked (depth : Nat) (system : System) : Prop where
  sqDepth : system.queue.sqDepth = depth
  cqDepth : system.queue.cqDepth = depth
  ringDepth : system.controller.depth = depth
  sqTail : system.queue.sqTail = system.submitted.length % depth
  sqHead : system.controller.sqHead < depth
  doorbell : system.shared.doorbellSq < depth
  head : system.queue.cursor = .after flip depth 1 system.returned.length
  tail : system.controller.cursor = .after flip depth 1 system.posted.length
  stamped : Stamped flip depth system.shared.cq CompletionEntry.phase system.controller.cursor

/-- How far the command at hand has come: at most one is under way, and every earlier one
was answered by its own completion. -/
inductive Stage (depth : Nat) (system : System) : Prop
  | idle : system.driver = .idle →
      system.posted.map (·.answer) = system.returned →
      system.posted.map (·.cid) = system.submitted.map (·.cid) →
      system.controller.fetched = [] →
      system.controller.sqHead = system.shared.doorbellSq →
      system.shared.doorbellSq = system.queue.sqTail → Stage depth system
  | written (command : SubmissionEntry) : system.driver = .written →
      system.posted.map (·.answer) = system.returned →
      system.posted.map (·.cid) ++ [command.cid] = system.submitted.map (·.cid) →
      system.controller.fetched = [] →
      system.controller.sqHead = system.shared.doorbellSq →
      system.queue.sqTail = (system.controller.sqHead + 1) % depth →
      system.shared.sq system.controller.sqHead = command → Stage depth system
  | rung (command : SubmissionEntry) : system.driver = .polling →
      system.posted.map (·.answer) = system.returned →
      system.posted.map (·.cid) ++ [command.cid] = system.submitted.map (·.cid) →
      system.controller.fetched = [] →
      system.shared.doorbellSq = system.queue.sqTail →
      system.queue.sqTail = (system.controller.sqHead + 1) % depth →
      system.shared.sq system.controller.sqHead = command → Stage depth system
  | fetched (command : SubmissionEntry) : system.driver = .polling →
      system.posted.map (·.answer) = system.returned →
      system.posted.map (·.cid) ++ [command.cid] = system.submitted.map (·.cid) →
      system.controller.fetched = [command] →
      system.controller.sqHead = system.shared.doorbellSq →
      system.shared.doorbellSq = system.queue.sqTail → Stage depth system
  | posted (entry : CompletionEntry) : system.driver = .polling →
      system.posted.map (·.answer) = system.returned ++ [entry.answer] →
      system.posted.map (·.cid) = system.submitted.map (·.cid) →
      system.controller.fetched = [] →
      system.controller.sqHead = system.shared.doorbellSq →
      system.shared.doorbellSq = system.queue.sqTail →
      system.shared.cq system.queue.cqHead = entry → Stage depth system

theorem linked_start {depth : Nat} (deep : 0 < depth) : Linked depth (.start depth) where
  sqDepth := rfl
  cqDepth := rfl
  ringDepth := rfl
  sqTail := (Nat.zero_mod depth).symm
  sqHead := deep
  doorbell := deep
  head := by simp [System.start, Queue.new, Queue.cursor, Cursor.after]
  tail := by simp [System.start, Controller.cursor, Cursor.after]
  stamped i _ := by
    simp [System.start, Controller.cursor, CompletionEntry.zero, CompletionEntry.phase, flip]

theorem stage_start (depth : Nat) : Stage depth (.start depth) :=
  .idle rfl rfl rfl rfl rfl rfl

namespace Linked

variable {depth : Nat} {system : System} (linked : Linked depth system) (deep : 0 < depth)
include linked

theorem cqHead : system.queue.cqHead = system.returned.length % depth :=
  congrArg Cursor.index linked.head

theorem phase : system.queue.phase = (Cursor.after flip depth 1 system.returned.length).phase :=
  congrArg Cursor.phase linked.head

theorem cqTail : system.controller.cqTail = system.posted.length % depth :=
  congrArg Cursor.index linked.tail

include deep

/-- Before the controller answers, the slot at the driver's head is an old one. -/
theorem poll_none (sameCount : system.posted.length = system.returned.length) :
    system.queue.poll system.shared = none := by
  have sameCursor : system.controller.cursor = system.queue.cursor := by
    rw [linked.tail, linked.head, sameCount]
  have inside : system.controller.cursor.index < depth := by
    rw [linked.tail]
    exact Nat.mod_lt _ deep
  have stale := linked.stamped.stale inside
  rw [sameCursor] at stale
  have different : (system.shared.cq system.queue.cqHead).phase ≠ system.queue.phase := by
    intro same
    exact flip_ne _ (stale.symm.trans same)
  simp only [Queue.poll, if_neg different]

theorem poll_some (oneMore : system.posted.length = system.returned.length + 1) :
    (system.queue.poll system.shared).isSome = true := by
  have inside : system.queue.cursor.index < depth := by
    rw [linked.head]
    exact Nat.mod_lt _ deep
  have ahead : system.controller.cursor = system.queue.cursor.advance flip depth := by
    rw [linked.tail, linked.head, oneMore, Cursor.advance_after]
  have stamped := linked.stamped
  rw [ahead] at stamped
  have same : (system.shared.cq system.queue.cqHead).phase = system.queue.phase :=
    stamped.fresh flip_flip inside
  simp only [Queue.poll, if_pos same, Option.isSome_some]

end Linked

/-! ## One step -/

theorem poll_eq_some {queue after : Queue} {shared sharedAfter : Shared}
    {answer : UInt32 × UInt16} (polled : queue.poll shared = some (answer, after, sharedAfter)) :
    answer = (shared.cq queue.cqHead).answer ∧
      after.cursor = queue.cursor.advance flip queue.cqDepth ∧
      after.sqDepth = queue.sqDepth ∧ after.cqDepth = queue.cqDepth ∧
      after.sqTail = queue.sqTail ∧ sharedAfter.sq = shared.sq ∧ sharedAfter.cq = shared.cq ∧
      sharedAfter.doorbellSq = shared.doorbellSq := by
  unfold Queue.poll at polled
  simp only at polled
  split at polled
  · cases polled
    exact ⟨rfl, rfl, rfl, rfl, rfl, rfl, rfl, rfl⟩
  · cases polled

theorem Linked.step {depth : Nat} {system next : System} {event : Event}
    (linked : Linked depth system) (deep : 0 < depth) (step : Step system event next) :
    Linked depth next := by
  cases step with
  | submit cmd _ =>
    exact { linked with
      sqTail := by
        simp only [Queue.write, List.length_append, List.length_singleton, linked.sqTail,
          linked.sqDepth, Nat.mod_add_mod] }
  | ring _ =>
    have small : system.queue.sqTail < depth := by
      rw [linked.sqTail]
      exact Nat.mod_lt _ deep
    exact { linked with doorbell := small }
  | spin _ _ => exact linked
  | complete _ polled =>
    rcases poll_eq_some polled with ⟨_, cursor, sqDepth, cqDepth, sqTail, _, cq, doorbell⟩
    exact { linked with
      sqDepth := sqDepth.trans linked.sqDepth
      cqDepth := cqDepth.trans linked.cqDepth
      sqTail := sqTail.trans linked.sqTail
      doorbell := doorbell ▸ linked.doorbell
      head := by
        simp only [cursor, linked.head, linked.cqDepth, Cursor.advance_after, List.length_append,
          List.length_singleton]
      stamped := by
        simp only [cq]
        exact linked.stamped }
  | fetch _ =>
    have small : (system.controller.sqHead + 1) % system.controller.depth < depth := by
      rw [linked.ringDepth]
      exact Nat.mod_lt _ deep
    exact { linked with sqHead := small }
  | post entry _ _ isPhase =>
    have advanced : system.controller.advance.cursor =
        system.controller.cursor.advance flip depth := by
      rw [← linked.ringDepth]
      rfl
    have inside : system.controller.cursor.index < depth := by
      rw [linked.tail]
      exact Nat.mod_lt _ deep
    exact { linked with
      tail := by
        rw [List.length_append, List.length_singleton, ← Cursor.advance_after, ← linked.tail]
        exact advanced
      stamped := by
        have filled := linked.stamped.fill flip_flip inside isPhase
        rw [← advanced] at filled
        exact filled }

theorem length_eq_of_map_eq {α γ : Type} {f : α → γ} {left : List α} {right : List γ}
    (same : left.map f = right) : left.length = right.length := by
  rw [← same, List.length_map]

theorem Stage.step {depth : Nat} {system next : System} {event : Event}
    (stage : Stage depth system) (linked : Linked depth system) (deep : 0 < depth)
    (step : Step system event next) : Stage depth next := by
  cases step with
  | submit cmd atRest =>
    cases stage with
    | idle _ answers ids quiet seen rung =>
      refine .written (system.queue.tag cmd) rfl answers ?_ quiet seen ?_ ?_
      · simp only [List.map_append, List.map_singleton, ids]
      · simp only [Queue.write, linked.sqDepth, seen, rung]
      · simp only [Queue.write, seen, rung, Function.update_self]
    | written _ driver | rung _ driver | fetched _ driver | posted _ driver =>
      rw [atRest] at driver
      cases driver
  | ring written =>
    cases stage with
    | written command _ answers ids quiet seen isNext inRing =>
      exact .rung command rfl answers ids quiet rfl isNext inRing
    | idle driver | rung _ driver | fetched _ driver | posted _ driver =>
      rw [written] at driver
      cases driver
  | spin _ _ => exact stage
  | complete polling polled =>
    rcases poll_eq_some polled with ⟨isAnswer, _, _, _, sqTail, _, _, doorbell⟩
    cases stage with
    | posted entry _ answers ids quiet seen rung inRing =>
      rw [inRing] at isAnswer
      subst isAnswer
      exact .idle rfl answers ids quiet (seen.trans doorbell.symm)
        (doorbell.trans (rung.trans sqTail.symm))
    | rung _ _ answers | fetched _ _ answers =>
      rw [linked.poll_none deep (length_eq_of_map_eq answers)] at polled
      cases polled
    | idle driver | written _ driver =>
      rw [polling] at driver
      cases driver
  | fetch unseen =>
    cases stage with
    | rung command polling answers ids quiet rung isNext inRing =>
      refine .fetched command polling answers ids ?_ ?_ rung
      · simp only [Controller.fetch, quiet, inRing, List.nil_append]
      · simp only [Controller.fetch, linked.ringDepth, rung, isNext]
    | idle _ _ _ _ seen | written _ _ _ _ _ seen | fetched _ _ _ _ _ seen
    | posted _ _ _ _ _ seen => exact absurd seen unseen
  | post entry isFetched isId isPhase =>
    cases stage with
    | fetched command polling answers ids isOne seen rung =>
      rw [isOne] at isFetched
      rcases List.append_eq_cons_iff.mp isFetched.symm with ⟨rfl, rest⟩ | ⟨_, _, impossible⟩
      · cases rest
        have sameSlot : system.controller.cqTail = system.queue.cqHead := by
          rw [linked.cqTail, linked.cqHead, length_eq_of_map_eq answers]
        refine .posted entry polling ?_ ?_ rfl seen rung ?_
        · rw [List.map_append, answers, List.map_singleton]
        · rw [List.map_append, List.map_singleton, isId, ids]
        · simp only [sameSlot, Function.update_self]
      · simp at impossible
    | idle _ _ _ quiet | written _ _ _ _ quiet | rung _ _ _ _ quiet | posted _ _ _ _ quiet =>
      rw [quiet] at isFetched
      simp at isFetched


/-! ## Progress -/

theorem Linked.work_step {depth : Nat} {system next : System} {event : Event}
    (linked : Linked depth system) (byController : event.ByController)
    (step : Step system event next) :
    next.controller.work next.shared + 1 = system.controller.work system.shared := by
  cases step with
  | submit | ring | spin | complete => exact absurd byController id
  | fetch unseen =>
    have ringDepth := linked.ringDepth
    have sqHead := linked.sqHead
    have doorbell := linked.doorbell
    have wraps := next_index (ringDepth.symm ▸ sqHead)
    simp only [Controller.work, Controller.pending, Controller.fetch, wraps, List.length_append,
      List.length_singleton]
    split <;> split <;> split <;> omega
  | post entry isFetched _ _ =>
    simp only [Controller.work, Controller.pending, Controller.advance, isFetched,
      List.length_append, List.length_cons]
    omega

theorem iterate_flip (laps : Nat) : flip^[laps] 1 = 1 ^^^ UInt16.ofNat (laps % 2) := by
  induction laps with
  | zero => rfl
  | succ laps induction =>
    rw [Function.iterate_succ_apply', induction]
    rcases Nat.mod_two_eq_zero_or_one laps with even | odd
    · have next : (laps + 1) % 2 = 1 := by omega
      rw [even, next]
      rfl
    · have next : (laps + 1) % 2 = 0 := by omega
      rw [odd, next]
      rfl

theorem Linked.phase_bit {depth : Nat} {system : System} (linked : Linked depth system) :
    system.controller.phase &&& 1 = system.controller.phase := by
  have isPhase : system.controller.phase = flip^[system.posted.length / depth] 1 :=
    congrArg Cursor.phase linked.tail
  rw [isPhase, iterate_flip]
  rcases Nat.mod_two_eq_zero_or_one (system.posted.length / depth) with even | odd
  · rw [even]
    rfl
  · rw [odd]
    rfl

/-- While the driver polls, the controller can go on until it has answered, and then the
next poll ends the call. -/
theorem Stage.progress {depth : Nat} {system : System} (stage : Stage depth system)
    (linked : Linked depth system) (deep : 2 ≤ depth) (polling : system.driver = .polling) :
    (system.controller.work system.shared = 0 →
      (system.queue.poll system.shared).isSome = true) ∧
    (system.controller.work system.shared ≠ 0 →
      ∃ event next, event.ByController ∧ Step system event next) := by
  cases stage with
  | idle driver | written _ driver =>
    rw [polling] at driver
    cases driver
  | rung command _ _ _ quiet rung isNext _ =>
    have unseen : system.controller.sqHead ≠ system.shared.doorbellSq := by
      have inside := linked.sqHead
      rw [rung, isNext, next_index inside]
      split <;> omega
    constructor
    · intro isZero
      have nothing : system.controller.pending system.shared = 0 := by
        simp only [Controller.work] at isZero
        omega
      have doorbell := linked.doorbell
      have ringDepth := linked.ringDepth
      have inside := linked.sqHead
      rw [Controller.pending] at nothing
      split at nothing <;> omega
    · intro _
      exact ⟨.fetch, _, trivial, .fetch unseen⟩
  | fetched command _ _ _ isOne _ _ =>
    constructor
    · intro isZero
      simp [Controller.work, isOne] at isZero
    · intro _
      have isFetched : system.controller.fetched = [] ++ command :: [] := isOne
      exact ⟨.post ⟨0, 0, 0, command.cid, system.controller.phase⟩, _, trivial,
        .post _ isFetched rfl linked.phase_bit⟩
  | posted entry _ answers _ quiet seen _ _ =>
    constructor
    · intro _
      apply linked.poll_some (by omega)
      rw [length_eq_of_map_eq answers, List.length_append, List.length_singleton]
    · intro notZero
      simp [Controller.work, Controller.pending, quiet, seen] at notZero

/-! ## Whole runs -/

theorem Stage.answers_initial {depth : Nat} {system : System} (stage : Stage depth system) :
    system.returned <+: system.posted.map (·.answer) := by
  cases stage with
  | idle _ answers | written _ _ answers | rung _ _ answers | fetched _ _ answers =>
    rw [answers]
  | posted entry _ answers =>
    rw [answers]
    exact List.prefix_append _ _

theorem Stage.ids_initial {depth : Nat} {system : System} (stage : Stage depth system) :
    system.posted.map (·.cid) <+: system.submitted.map (·.cid) := by
  cases stage with
  | idle _ _ ids | posted _ _ _ ids => rw [ids]
  | written _ _ _ ids | rung _ _ _ ids | fetched _ _ _ ids =>
    rw [← ids]
    exact List.prefix_append _ _

theorem getElem?_of_initial {α : Type} {short long : List α} {value : α} {k : Nat}
    (initial : short <+: long) (isValue : short[k]? = some value) : long[k]? = some value := by
  rcases initial with ⟨rest, rfl⟩
  rw [List.getElem?_append_left (List.getElem?_eq_some_iff.mp isValue).1, isValue]

/-- In every run, every call that has returned gave the answer of the completion that the
controller posted for its own command; between two calls the positions and the phase are
those of the number of calls; and a call under way returns as soon as the controller has
done the finitely many steps it has to do. -/
theorem submitSync_returns_own_completion (depth : Nat) (deep : 2 ≤ depth) (events : List Event)
    (system : System) (run : Trace Step (.start depth) events system) :
    (∀ (k : Nat) (answer : UInt32 × UInt16), system.returned[k]? = some answer →
      ∃ (command : SubmissionEntry) (entry : CompletionEntry),
        system.submitted[k]? = some command ∧ system.posted[k]? = some entry ∧
        entry.cid = command.cid ∧ answer = (entry.cdw0, entry.status >>> 1)) ∧
    (system.driver = .idle →
      system.submitted.length = system.returned.length ∧
      system.queue.sqTail = system.returned.length % depth ∧
      system.queue.cqHead = system.returned.length % depth ∧
      system.queue.phase = 1 ^^^ UInt16.ofNat (system.returned.length / depth % 2)) ∧
    (system.driver = .polling →
      (system.controller.work system.shared = 0 →
        (system.queue.poll system.shared).isSome = true) ∧
      (system.controller.work system.shared ≠ 0 →
        ∃ event next, event.ByController ∧ Step system event next) ∧
      ∀ event next, event.ByController → Step system event next →
        next.controller.work next.shared + 1 = system.controller.work system.shared) := by
  have positive : 0 < depth := by omega
  have invariant : Linked depth system ∧ Stage depth system :=
    run.invariant (fun system => Linked depth system ∧ Stage depth system)
      (fun both step => ⟨both.1.step positive step, both.2.step both.1 positive step⟩)
      ⟨linked_start positive, stage_start depth⟩
  rcases invariant with ⟨linked, stage⟩
  refine ⟨?_, ?_, ?_⟩
  · intro k answer isAnswer
    have posted := getElem?_of_initial stage.answers_initial isAnswer
    rw [List.getElem?_map] at posted
    rcases Option.map_eq_some_iff.mp posted with ⟨entry, isEntry, rfl⟩
    have isId : (system.posted.map (·.cid))[k]? = some entry.cid := by
      rw [List.getElem?_map, isEntry]
      rfl
    have submitted := getElem?_of_initial stage.ids_initial isId
    rw [List.getElem?_map] at submitted
    rcases Option.map_eq_some_iff.mp submitted with ⟨command, isCommand, sameId⟩
    exact ⟨command, entry, isCommand, isEntry, sameId.symm, rfl⟩
  · intro atRest
    have sameCount : system.submitted.length = system.returned.length := by
      cases stage with
      | idle _ answers ids =>
        rw [← length_eq_of_map_eq answers, ← List.length_map (·.cid), ← ids, List.length_map]
      | written _ driver | rung _ driver | fetched _ driver | posted _ driver =>
        rw [atRest] at driver
        cases driver
    refine ⟨sameCount, ?_, linked.cqHead, ?_⟩
    · rw [linked.sqTail, sameCount]
    · rw [linked.phase]
      exact iterate_flip _
  · intro polling
    have progress := stage.progress linked deep polling
    exact ⟨progress.1, progress.2, fun _ _ => linked.work_step⟩

/-- What happens in a call of `submit_sync` that the controller answers at once. -/
def callEvents (entry : CompletionEntry) : List Event :=
  [.submit .zero, .ring, .poll, .fetch, .post entry, .poll]

/-- Three calls on a queue pair of two slots, the last of them in the other phase. -/
theorem submitSync_returns_own_completion_wraps : ∃ system : System,
    Trace Step (.start 2) (callEvents ⟨7, 1, 0, 0, 0x0B⟩ ++ (callEvents ⟨8, 0, 0, 1, 0x01⟩ ++
      callEvents ⟨9, 1, 0, 2, 0x00⟩)) system ∧
      system.returned = [(7, 5), (8, 0), (9, 0)] ∧ system.queue.sqTail = 1 ∧
      system.queue.cqHead = 1 ∧ system.queue.phase = 0 := by
  have run : ∃ system : System, Trace Step (.start 2)
      (callEvents ⟨7, 1, 0, 0, 0x0B⟩ ++ (callEvents ⟨8, 0, 0, 1, 0x01⟩ ++
        callEvents ⟨9, 1, 0, 2, 0x00⟩)) system ∧
      system.driver = .idle ∧ system.returned = [(7, 5), (8, 0), (9, 0)] :=
    ⟨_, .append (.cons (.submit .zero rfl) (.cons (.ring rfl) (.cons (.spin rfl rfl)
      (.cons (.fetch (by decide)) (.cons (.post _ rfl rfl rfl)
        (.single (.complete rfl rfl)))))))
      (.append (.cons (.submit .zero rfl) (.cons (.ring rfl) (.cons (.spin rfl rfl)
        (.cons (.fetch (by decide)) (.cons (.post _ rfl rfl rfl)
          (.single (.complete rfl rfl)))))))
        (.cons (.submit .zero rfl) (.cons (.ring rfl) (.cons (.spin rfl rfl)
          (.cons (.fetch (by decide)) (.cons (.post _ rfl rfl rfl)
            (.single (.complete rfl rfl)))))))), rfl, rfl⟩
  rcases run with ⟨system, run, atRest, answers⟩
  rcases (submitSync_returns_own_completion 2 (by decide) _ system run).2.1 atRest with
    ⟨_, sqTail, cqHead, phase⟩
  rw [answers] at sqTail cqHead phase
  exact ⟨system, run, answers, sqTail, cqHead, phase⟩

end PersonaOS.Drivers.Nvme
