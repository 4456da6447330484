import PersonaOS.Ipc.Queues
import PersonaOS.Mm.Budget
import PersonaOS.Mm.IpcWindow
import PersonaOS.Mm.Ownership

/-! # Frames move with messages

A page that is sent leaves the sender's address space, travels as a frame in a message
and enters the receiver's. Between system calls a frame is in one place: with the
allocator, with a page of an address space, or with a queued message. During a call the
frames of one message may also be in the hands of the caller. `Balanced` is that
invariant, and every system call keeps it, provided that a receive finds the frames for all
page tables that it needs, or too few for its first page. -/

namespace PersonaOS.Ipc

open Program Mm Sched

/-! ## The invariant -/

def State.roots (state : State) : Set Frame := {pml4 | ∃ task, state.spaces task = some pml4}

def queueFrames (queue : List Message) : Multiset Frame := framesOf (queue.flatMap (·.pages))

@[simp] theorem queueFrames_nil : queueFrames [] = 0 := rfl

theorem queueFrames_cons (message : Message) (queue : List Message) :
    queueFrames (message :: queue) = framesOf message.pages + queueFrames queue := by
  simp [queueFrames]

theorem queueFrames_append (queue : List Message) (message : Message) :
    queueFrames (queue ++ [message]) = queueFrames queue + framesOf message.pages := by
  simp [queueFrames]

/-- The pages are as many as the message's length says, and page-aligned. -/
def Message.Whole (message : Message) : Prop :=
  message.pages.length * 4096 = message.len ∧ ∀ phys ∈ message.pages, phys % 4096 = 0

/-- The invariant: every frame is in one place, with the frames at the addresses `hand`
in the hands of the running system call. The allocator hands out none of `withheld`. -/
structure Balanced (withheld : Set Frame) (state : State) (hand : List Nat) : Prop where
  owned : Owned state.roots ⟨fun port => queueFrames (state.queues port), withheld⟩ state.machine
    (framesOf hand)
  whole : ∀ port, ∀ message ∈ state.queues port, message.Whole

/-! ## Messages -/

section Messages

variable {withheld : Set Frame} {state : State} {hand rest : List Nat} {task : TaskId}
  {port : PortId} {message : Message}

theorem Balanced.setTable {table : CapTable} (balanced : Balanced withheld state hand) :
    Balanced withheld (state.setTable task table) hand :=
  ⟨balanced.owned, balanced.whole⟩

theorem Balanced.setMachine {machine : Machine} {pages : List Nat}
    (balanced : Balanced withheld state hand)
    (owned : Owned state.roots ⟨fun port => queueFrames (state.queues port), withheld⟩ machine
      (framesOf pages)) :
    Balanced withheld (state.setMachine machine) pages :=
  ⟨owned, balanced.whole⟩

theorem freePages_owned {κ : Type} {roots : Set Frame} {others : Outside κ}
    {machine : Machine} {hand : Multiset Frame} (pages : List Nat)
    (owned : Owned roots others machine (framesOf pages + hand)) :
    Owned roots others (freePages machine pages) hand := by
  induction pages generalizing machine with
  | nil => simpa [freePages] using owned
  | cons phys pages induction =>
    rw [framesOf_cons, Multiset.cons_add] at owned
    exact induction owned.release

theorem Balanced.dropMessage (balanced : Balanced withheld state (message.pages ++ rest)) :
    Balanced withheld (state.dropMessage message) rest := by
  apply balanced.setMachine
  apply freePages_owned
  rw [← framesOf_append]
  exact balanced.owned

theorem Balanced.push (balanced : Balanced withheld state (message.pages ++ rest))
    (whole : message.Whole) :
    Balanced withheld (state.push task port message) rest := by
  have handOnce := balanced.owned.handOnce
  rw [framesOf_append, Multiset.nodup_add] at handOnce
  have inHand : ∀ {frame}, frame ∈ framesOf message.pages →
      frame ∈ framesOf (message.pages ++ rest) := by
    intro frame isPage
    rw [framesOf_append]
    exact Multiset.mem_add.mpr (.inl isPage)
  have queues : ∀ other, queueFrames ((state.push task port message).queues other) =
      if other = port then queueFrames (state.queues port) + framesOf message.pages
      else queueFrames (state.queues other) := by
    intro other
    rw [State.queues_push]
    split
    · exact queueFrames_append _ _
    · rfl
  refine ⟨?_, ?_⟩
  · simp only [queues]
    exact
      { sound := balanced.owned.sound
        exclusive := by
          apply balanced.owned.exclusive.reassign fun _ _ => .other port
          intro place thing there
          cases place with
          | other holder =>
            simp only [Holds] at there ⊢
            split at there
            · next same =>
              rcases Multiset.mem_add.mp there with isOld | isNew
              · exact .inl (same ▸ isOld)
              · refine .inr ⟨.hand, inHand isNew, by rw [same], ?_⟩
                exact Multiset.disjoint_left.mp handOnce.2.2 isNew
            · exact .inl there
          | hand =>
            simp only [Holds, framesOf_append]
            exact .inl (Multiset.mem_add.mpr (.inr there))
          | free | table | page => exact .inl there
        handOnce := handOnce.2.1
        withheld := balanced.owned.withheld
        othersOnce := by
          intro holder
          simp only
          split
          · apply (Multiset.nodup_add).mpr
            refine ⟨balanced.owned.othersOnce port, handOnce.1, ?_⟩
            rw [Multiset.disjoint_left]
            intro frame queued isPage
            exact nomatch balanced.owned.exclusive (.other port) .hand frame queued (inHand isPage)
          · exact balanced.owned.othersOnce holder }
  · intro other queued member
    rw [State.queues_push] at member
    split at member
    · rcases List.mem_append.mp member with isOld | isNew
      · exact balanced.whole port queued isOld
      · rw [List.mem_singleton.mp isNew]
        exact whole
    · exact balanced.whole other queued member

theorem Balanced.pop {later : List Message} (balanced : Balanced withheld state rest)
    (queue : state.queues port = message :: later) :
    Balanced withheld (state.pop task port) (message.pages ++ rest) := by
  have queues : ∀ other, queueFrames ((state.pop task port).queues other) =
      if other = port then queueFrames later else queueFrames (state.queues other) := by
    intro other
    rw [State.queues_pop, queue]
    split <;> rfl
  have first := balanced.owned.othersOnce port
  simp only [queue, queueFrames_cons] at first
  have apart := Multiset.nodup_add.mp first
  have wasQueued : ∀ {frame}, frame ∈ framesOf message.pages →
      frame ∈ queueFrames (state.queues port) := by
    intro frame isPage
    rw [queue, queueFrames_cons]
    exact Multiset.mem_add.mpr (.inl isPage)
  refine ⟨?_, ?_⟩
  · simp only [queues, framesOf_append]
    exact
      { sound := balanced.owned.sound
        exclusive := by
          apply balanced.owned.exclusive.reassign fun _ _ => .hand
          intro place thing there
          cases place with
          | other holder =>
            simp only [Holds] at there ⊢
            split at there
            · next same =>
              rw [same, queue, queueFrames_cons]
              exact .inl (Multiset.mem_add.mpr (.inr there))
            · exact .inl there
          | hand =>
            rcases Multiset.mem_add.mp there with isPage | isOld
            · refine .inr ⟨.other port, wasQueued isPage, rfl, fun stillQueued => ?_⟩
              simp only [Holds, if_true] at stillQueued
              exact (Multiset.disjoint_left.mp apart.2.2) isPage stillQueued
            · exact .inl isOld
          | free | table | page => exact .inl there
        handOnce := by
          apply Multiset.nodup_add.mpr
          refine ⟨apart.1, balanced.owned.handOnce, ?_⟩
          rw [Multiset.disjoint_left]
          intro frame isPage isOld
          exact nomatch balanced.owned.exclusive (.other port) .hand frame (wasQueued isPage) isOld
        withheld := balanced.owned.withheld
        othersOnce := by
          intro holder
          simp only
          split
          · exact apart.2.1
          · exact balanced.owned.othersOnce holder }
  · intro other queued member
    rw [State.queues_pop] at member
    split at member
    · exact balanced.whole port queued (List.mem_of_mem_tail member)
    · exact balanced.whole other queued member

end Messages

/-! ## System calls -/

def InUserHalf (virt pages : Nat) : Prop := ∀ i < pages, virt + i * 4096 < 2 ^ 47

instance (virt pages : Nat) : Decidable (InUserHalf virt pages) := by
  unfold InUserHalf
  infer_instance

theorem findUserVmRange_inUserHalf {memory : Memory} {pml4 : Frame} {pages va : Nat}
    (found : findUserVmRange memory pml4 pages = some va) : InUserHalf va pages := by
  intro i inside
  have below := ((findUserVmRange_eq_some (by omega)).mp found).1.1.below
  simp only [userIpcEnd] at below
  omega

/-- The frames for the page tables that the message's pages lack in the task's window are
there, or one for the tables of the first page is not. -/
def Provided (state : State) (task : TaskId) (message : Message) : Prop :=
  ∀ pml4, state.spaces task = some pml4 →
    ∀ va, findUserVmRange state.machine.memory pml4 ((message.len + 4095) / 4096) = some va →
      Machine.Grants (missing state.machine.memory pml4
        (tablePaths (va / 4096) message.pages.length)).card state.machine ∨
      Machine.Refuses (missing state.machine.memory pml4 (tablePaths (va / 4096) 1)).card
        state.machine

section Calls

variable {withheld : Set Frame} {state : State} {rest : List Nat} {task : TaskId} {port : PortId}
  {message : Message}

theorem Balanced.dropWith {α : Type} {errno : Errno}
    (balanced : Balanced withheld state (message.pages ++ rest)) {ok : α → State → Prop} :
    (Ipc.dropWith message errno state).Meets ok (fun _ after => Balanced withheld after rest)
    True :=
  balanced.dropMessage

theorem Balanced.takePages (balanced : Balanced withheld state rest) (msg : SendMsg)
    (caps : List Cap)
    (user : InUserHalf msg.pagesVa (msg.pagesLen / 4096)) :
    (Ipc.takePages task msg caps state).Meets
      (fun taken after => Balanced withheld after (taken.1 ++ rest) ∧
        taken.1.length * 4096 = taken.2 ∧ ∀ phys ∈ taken.1, phys % 4096 = 0)
      (fun _ after => Balanced withheld after rest) True := by
  unfold Ipc.takePages
  split
  · split
    · exact .bind (installCaps_keeps balanced Balanced.setTable caps) fun _ _ kept => kept
    next aligned =>
    rw [get_bind_apply]
    cases space : state.spaces task with
    | none => exact balanced
    | some pml4 =>
      have isRoot : pml4 ∈ state.roots := ⟨task, space⟩
      have start : Owned state.roots ⟨fun port => queueFrames (state.queues port), withheld⟩
        state.machine
          (framesOf [] + framesOf rest) := by
        rw [framesOf_nil, zero_add]
        exact balanced.owned
      have stolen : (stealPages pml4 msg.pagesVa (msg.pagesLen / 4096) state.machine).Meets
          (fun pages machine => Balanced withheld (state.setMachine machine) (pages ++ rest) ∧
            pages.length = msg.pagesLen / 4096 ∧ ∀ phys ∈ pages, phys % 4096 = 0)
          (fun _ machine => Balanced withheld (state.setMachine machine) rest) True := by
        unfold stealPages
        split
        · exact ⟨balanced.owned, balanced.whole⟩
        · apply (start.stealLoop isRoot (msg.pagesLen / 4096)
            (fun i inside => user i (by simpa using inside)) (by simp)).mono
          · intro pages machine done
            refine ⟨balanced.setMachine ?_, by simpa using done.1, done.2.1⟩
            rw [framesOf_append]
            exact done.2.2
          · exact fun _ machine done => balanced.setMachine done
          · exact id
      simp only [onMachine, bind_apply]
      cases outcome : stealPages pml4 msg.pagesVa (msg.pagesLen / 4096) state.machine with
      | ok pages machine =>
        rw [outcome] at stolen
        refine ⟨stolen.1, ?_, stolen.2.2⟩
        have length : pages.length = msg.pagesLen / 4096 := stolen.2.1
        rw [not_or, not_or, not_not, not_not, pageOffset_eq, pageOffset_eq] at aligned
        simp only [length]
        omega
      | error error machine =>
        rw [outcome] at stolen
        exact .bind (installCaps_keeps stolen Balanced.setTable caps) fun _ _ kept => kept
      | panic => exact trivial
  · exact ⟨balanced, rfl, by simp⟩

theorem Balanced.tryPush (balanced : Balanced withheld state (message.pages ++ rest))
    (whole : message.Whole) :
    (Ipc.tryPush task port message state).Meets (fun _ after => Balanced withheld after rest)
      (fun _ after => Balanced withheld after rest) True := by
  unfold Ipc.tryPush
  rw [get_bind_apply]
  split
  · have refused : Balanced withheld (state.refuse task port) (message.pages ++ rest) :=
      ⟨balanced.owned, balanced.whole⟩
    exact refused.dropWith
  · exact balanced.push whole

theorem Balanced.sysSend (balanced : Balanced withheld state rest) (capId : CapId) (msgPtr : Nat)
    (msg : SendMsg) (user : InUserHalf msg.pagesVa (msg.pagesLen / 4096)) :
    (Ipc.sysSend task capId msgPtr msg state).Meets (fun _ after => Balanced withheld after rest)
      (fun _ after => Balanced withheld after rest) True := by
  unfold Ipc.sysSend
  split
  · exact balanced
  split
  · exact balanced
  rw [get_bind_apply]
  refine .okOr (fun _ => balanced) fun cap _ => ?_
  split
  · refine .okOr (fun _ => balanced) fun port _ => ?_
    apply Outcome.Meets.bind (takeCaps_keeps balanced Balanced.setTable msg)
    intro caps current kept
    apply Outcome.Meets.bind (kept.takePages msg caps user)
    intro taken stolen done
    exact Balanced.tryPush done.1 done.2
  · exact balanced

theorem Balanced.installPages {pml4 : Frame} {va : Nat} {hand : List Nat}
    (balanced : Balanced withheld state hand) (whole : message.Whole)
    (provided : Provided state task message) (space : state.spaces task = some pml4)
    (found : findUserVmRange state.machine.memory pml4 ((message.len + 4095) / 4096) = some va) :
    (Mm.installPages pml4 va message.pages state.machine).Meets (fun _ _ => True)
      (fun _ after => ∀ page,
        pageMap after.memory pml4 page = pageMap state.machine.memory pml4 page) True := by
  have forecast := provided pml4 space va found
  have length : (message.len + 4095) / 4096 = message.pages.length := by
    rw [← whole.1]
    omega
  rw [length] at found
  cases isEmpty : message.pages with
  | nil => exact trivial
  | cons phys later =>
    rw [← isEmpty]
    have positive : 1 ≤ message.pages.length := by simp [isEmpty]
    have user := findUserVmRange_inUserHalf found
    have free := ((findUserVmRange_eq_some positive).mp found).1.1
    apply installPages_whole (discipline_freeUnused state.roots) ⟨task, space⟩
      balanced.owned.freeUnused balanced.owned.sound free.aligned whole.2 user _ forecast
    intro i inside
    have unmapped := free.unmapped i inside
    rw [physForVirt_eq (user i inside), Option.map_eq_none_iff] at unmapped
    rwa [Nat.add_mul_div_right _ _ (by decide)] at unmapped

theorem Balanced.receivePages {out : RecvMsg}
    (balanced : Balanced withheld state (message.pages ++ rest))
    (whole : message.Whole) (provided : Provided state task message) :
    (Ipc.receivePages task out message state).Meets (fun _ after => Balanced withheld after rest)
      (fun _ after => Balanced withheld after rest) True := by
  unfold Ipc.receivePages
  split
  · rw [get_bind_apply]
    cases space : state.spaces task with
    | none => exact balanced.dropWith
    | some pml4 =>
      have isRoot : pml4 ∈ state.roots := ⟨task, space⟩
      simp only
      cases found : findUserVmRange state.machine.memory pml4 ((message.len + 4095) / 4096) with
      | none => exact balanced.dropWith
      | some va =>
        have user := findUserVmRange_inUserHalf found
        have start : Owned state.roots ⟨fun port => queueFrames (state.queues port), withheld⟩
            state.machine (framesOf message.pages + framesOf rest) := by
          rw [← framesOf_append]
          exact balanced.owned
        have sized := whole.1
        have installs := start.installLoop isRoot 0 fun i inside => user i (by omega)
        have atomic := balanced.installPages whole provided space found
        simp only [onMachine, bind_apply]
        unfold Mm.installPages at atomic ⊢
        cases outcome : installLoop pml4 va 0 message.pages state.machine with
        | ok _ machine =>
          rw [outcome] at installs
          exact balanced.setMachine installs
        | error error machine =>
          rw [outcome] at installs atomic
          rcases installs with ⟨accounts, elsewhere⟩
          have same : SamePages state.roots state.machine machine := by
            intro root otherIsRoot page
            by_cases isHere : root = pml4
            · rw [isHere]
              exact atomic page
            · exact elsewhere root otherIsRoot isHere page
          have kept : Balanced withheld (state.setMachine machine) (message.pages ++ rest) :=
            balanced.setMachine (balanced.owned.accounts accounts same)
          exact kept.dropWith
        | panic => exact trivial
  · exact balanced.dropMessage

theorem Balanced.receive {out : RecvMsg}
    (balanced : Balanced withheld state (message.pages ++ rest))
    (whole : message.Whole) (provided : Provided state task message) :
    (Ipc.receive task out message state).Meets (fun _ after => Balanced withheld after rest)
      (fun _ after => Balanced withheld after rest) True := by
  unfold Ipc.receive
  split
  · exact balanced.dropWith
  · -- Installing the capabilities leaves the address space alone.
    have installed : (installCaps task message.caps state).Meets
        (fun _ current => Balanced withheld current (message.pages ++ rest) ∧
          Provided current task message)
        (fun _ after => Balanced withheld after rest) True := by
      apply installCaps_keeps (And.intro balanced provided)
      exact fun kept => ⟨kept.1.setTable, kept.2⟩
    apply Outcome.Meets.bind installed
    intro capIds current kept
    exact .bind (kept.1.receivePages whole kept.2) fun _ _ done => done

theorem Balanced.recvTurn {out : RecvMsg} (balanced : Balanced withheld state rest)
    (provided : ∀ message ∈ (state.queues port).head?, Provided state task message) :
    (Ipc.recvTurn task port out state).Meets (fun _ after => Balanced withheld after rest)
      (fun _ after => Balanced withheld after rest) True := by
  unfold Ipc.recvTurn
  rw [get_bind_apply, modify_bind_apply]
  cases queue : state.queues port with
  | nil =>
    have same : (state.pop task port).queues = state.queues := by
      funext other
      rw [State.queues_pop]
      split
      · next here => rw [here, queue, List.tail_nil]
      · rfl
    have popped : Balanced withheld (state.pop task port) rest :=
      ⟨by rw [same]; exact balanced.owned, by rw [same]; exact balanced.whole⟩
    exact ⟨popped.owned, popped.whole⟩
  | cons message later =>
    have popped : Balanced withheld (state.pop task port) (message.pages ++ rest) :=
      balanced.pop queue
    have whole := balanced.whole port message (by rw [queue]; exact List.mem_cons_self)
    have ready : Balanced withheld ((state.pop task port).setReceiving task none)
        (message.pages ++ rest) :=
      ⟨popped.owned, popped.whole⟩
    simp only [List.head?_cons, modify_bind_apply]
    exact .bind (ready.receive whole (provided message (by rw [queue]; rfl))) fun _ _ done => done

theorem Balanced.createPort (balanced : Balanced withheld state rest) :
    Balanced withheld (state.createPort task) rest := by
  have fewer : ∀ other, (state.createPort task).queues other = [] ∨
      (state.createPort task).queues other = state.queues other := by
    intro other
    rw [State.queues_createPort]
    split
    · exact .inl rfl
    · exact .inr rfl
  refine ⟨⟨balanced.owned.sound, ?_, balanced.owned.handOnce, ?_, balanced.owned.withheld⟩, ?_⟩
  · apply balanced.owned.exclusive.mono
    intro place thing there
    cases place with
    | other holder =>
      simp only [Holds] at there ⊢
      rcases fewer holder with isEmpty | same
      · rw [isEmpty] at there
        exact absurd there (Multiset.notMem_zero _)
      · rwa [same] at there
    | free | table | page | hand => exact there
  · intro holder
    simp only
    rcases fewer holder with isEmpty | same
    · rw [isEmpty]
      exact Multiset.nodup_zero
    · rw [same]
      exact balanced.owned.othersOnce holder
  · intro other message member
    rcases fewer other with isEmpty | same
    · rw [isEmpty] at member
      exact absurd member List.not_mem_nil
    · rw [same] at member
      exact balanced.whole other message member

theorem Balanced.closePort (balanced : Balanced withheld state rest) :
    Balanced withheld (state.closePort port) rest := by
  suffices drained : ∀ queue machine, Balanced withheld
      { state with queues := Function.update state.queues port queue, machine } rest →
      Balanced withheld
        { state with
          queues := Function.update state.queues port []
          machine := queue.foldl (fun machine message => freePages machine message.pages)
            machine } rest by
    apply drained (state.queues port) state.machine
    rw [Function.update_eq_self]
    exact balanced
  intro queue
  induction queue with
  | nil => exact fun machine balanced => balanced
  | cons message later induction =>
    intro machine balanced
    apply induction
    -- Closing drops the messages one after the other, as if they had been popped.
    have popped : Balanced withheld (State.pop { state with
        queues := Function.update state.queues port (message :: later), machine } 0 port)
        (message.pages ++ rest) := balanced.pop (Function.update_self ..)
    have dropped := popped.dropMessage
    have same : Function.update (Function.update state.queues port (message :: later)) port
        (Function.update state.queues port (message :: later) port).tail =
        Function.update state.queues port later := by
      rw [Function.update_self, List.tail_cons, Function.update_idem]
    refine ⟨?_, ?_⟩
    · have owned := dropped.owned
      simp only [State.dropMessage, State.setMachine, State.pop, same] at owned
      exact owned
    · have whole := dropped.whole
      simp only [State.dropMessage, State.setMachine, State.pop, same] at whole
      exact whole

theorem Balanced.sysRecv {out : RecvMsg} (balanced : Balanced withheld state rest) (capId : CapId)
    (msgPtr : Nat)
    (provided : ∀ cap port, (state.tables task).get capId = some cap → cap.asPort = some port →
      ∀ message ∈ (state.queues port).head?, Provided state task message) :
    (Ipc.sysRecv task capId msgPtr out state).Meets (fun _ after => Balanced withheld after rest)
      (fun _ after => Balanced withheld after rest) True := by
  unfold Ipc.sysRecv
  split
  · exact balanced
  rw [get_bind_apply]
  refine .okOr (fun _ => balanced) fun cap isCap => ?_
  split
  · refine .okOr (fun _ => balanced) fun port isPort => ?_
    exact balanced.recvTurn (provided cap port isCap isPort)
  · exact balanced

end Calls

end PersonaOS.Ipc
