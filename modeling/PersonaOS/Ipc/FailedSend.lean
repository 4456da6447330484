import PersonaOS.Ipc.Registrar
import PersonaOS.Mm.IpcWindow

/-! # What a failed send costs

`sys_send` moves the named capabilities out of the sender's table before it looks at the
payload range and before it knows whether the queue has room. A send that fails earlier
costs nothing. One that fails later costs the sender every slot it named: where the
capabilities come back at all, they come back under new numbers. -/

namespace PersonaOS.Ipc

open Program Mm Sched

/-- The send gets as far as moving a capability out of the sender's table. -/
structure MovesCaps (table : CapTable) (capId : CapId) (msgPtr : Nat) (msg : SendMsg) : Prop where
  readable : msgPtr ≠ 0
  few : msg.capIds.length ≤ maxCaps
  sends : ∃ cap, table.get capId = some cap ∧ cap.rights.send = true ∧ cap.asPort.isSome = true
  named : msg.capIds ≠ []
  listed : msg.capsPtr ≠ 0
  held : ∀ id ∈ msg.capIds, (table.get id).isSome = true

section Tables

variable {task : TaskId} {state : State}

theorem takePages_keeps (Keeps : State → Prop) (msg : SendMsg) (caps : List Cap)
    (setMachine : ∀ {state machine}, Keeps state → Keeps (state.setMachine machine))
    (installs : ∀ {state}, Keeps state → (installCaps task caps state).Meets (fun _ => Keeps)
      (fun _ => Keeps) True)
    (kept : Keeps state) :
    (takePages task msg caps state).Meets (fun _ => Keeps) (fun _ => Keeps) True := by
  rw [takePages]
  split
  · split
    · exact .bind (installs kept) fun _ _ kept => kept
    · simp only [bind_apply, get_apply]
      cases state.spaces task with
      | none => exact kept
      | some pml4 =>
        simp only [bind_apply, onMachine]
        cases stealPages pml4 msg.pagesVa (msg.pagesLen / 4096) state.machine with
        | ok pages machine => exact setMachine kept
        | error error machine => exact .bind (installs (setMachine kept)) fun _ _ kept => kept
        | panic => trivial
  · exact kept

theorem tryPush_tables (port : PortId) (message : Message) :
    (tryPush task port message state).Meets (fun _ after => after.tables = state.tables)
      (fun _ after => after.tables = state.tables) True := by
  simp only [tryPush, bind_apply, get_apply]
  split
  · exact rfl
  · exact rfl

end Tables

/-- A send that moves no capability leaves every table as it was, if it fails. -/
theorem still_keeps_tables {state : State} {task : TaskId} {capId : CapId} {msgPtr : Nat}
    {msg : SendMsg} (still : ¬ MovesCaps (state.tables task) capId msgPtr msg) :
    (sysSend task capId msgPtr msg state).Meets (fun _ _ => True)
      (fun _ after => after.tables = state.tables) True := by
  rw [sysSend]
  split
  · rfl
  split
  · rfl
  next readable few =>
  simp only [bind_apply, get_apply]
  apply Outcome.Meets.okOr
  · exact fun _ => rfl
  intro sendCap isCap
  split
  · next sends =>
    apply Outcome.Meets.okOr
    · exact fun _ => rfl
    intro port isPort
    -- No capability is named, or the list of names is refused.
    have taken : (takeCaps task msg state).Meets (fun caps after => caps = [] ∧ after = state)
        (fun _ after => after.tables = state.tables) True := by
      rw [takeCaps]
      split
      · exact ⟨rfl, rfl⟩
      split
      · rfl
      next named listed =>
      simp only [bind_apply, get_apply]
      split
      · next held =>
        refine absurd ?_ still
        exact {
          readable := readable
          few := Nat.le_of_not_lt few
          sends := ⟨sendCap, isCap, sends, by rw [isPort]; rfl⟩
          named := named
          listed := listed
          held := List.all_eq_true.mp held }
      · rfl
    apply Outcome.Meets.bind taken
    intro caps current unchanged
    rcases unchanged with ⟨rfl, rfl⟩
    apply Outcome.Meets.bind (takePages_keeps (fun after => after.tables = current.tables) msg []
      (fun same => same) (fun same => same) rfl)
    intro pages paged same
    exact (tryPush_tables port _).mono (fun _ _ _ => trivial) (fun _ _ kept => kept.trans same) id
  · rfl

/-! ## Slots that do not come back -/

/-- The slot is empty and will not be handed out again. -/
def CapTable.Gone (table : CapTable) (id : CapId) : Prop := table.get id = none ∧ id < table.next

section Lost

variable {task : TaskId} {state : State} {id : CapId}

theorem CapTable.Gone.install {table after : CapTable} {cap : Cap} {slot : CapId}
    (gone : table.Gone id) (installed : table.install cap = some (slot, after)) :
    after.Gone id := by
  rw [CapTable.install] at installed
  split at installed
  · cases installed
    refine ⟨?_, gone.2.trans (Int.lt_add_one_of_le (Int.le_refl _))⟩
    exact (AList.lookup_insert_ne (ne_of_lt gone.2)).trans gone.1
  · cases installed

theorem CapTable.gone_remove {table : CapTable} (other : CapId) (below : id < table.next)
    (absent : id = other ∨ table.get id = none) : (table.remove other).2.Gone id := by
  refine ⟨?_, below⟩
  by_cases same : id = other
  · rw [same]
    exact AList.lookup_erase other table.slots
  · exact (AList.lookup_erase_ne same).trans (absent.resolve_left same)

theorem installCaps_gone (caps : List Cap) (gone : (state.tables task).Gone id) :
    (installCaps task caps state).Meets (fun _ after => (after.tables task).Gone id)
      (fun _ after => (after.tables task).Gone id) True := by
  induction caps generalizing state with
  | nil => exact gone
  | cons cap caps induction =>
    rw [installCaps, bind_apply, installCap]
    cases installed : (state.tables task).install cap with
    | none => trivial
    | some entry =>
      have goneNow : ((state.setTable task entry.2).tables task).Gone id := by
        rw [State.tables_setTable, if_pos rfl]
        exact gone.install installed
      exact .bind (induction goneNow) fun _ _ gone => gone

theorem removeCaps_gone (ids : List CapId) (below : id < (state.tables task).next)
    (named : id ∈ ids ∨ (state.tables task).get id = none) :
    (removeCaps task ids state).Meets (fun _ after => (after.tables task).Gone id)
      (fun _ _ => False) False := by
  induction ids generalizing state with
  | nil => exact ⟨named.resolve_left List.not_mem_nil, below⟩
  | cons other ids induction =>
    simp only [removeCaps, bind_apply, get_apply, modify_apply]
    have isTable : (state.setTable task ((state.tables task).remove other).2).tables task =
        ((state.tables task).remove other).2 := by
      rw [State.tables_setTable, if_pos rfl]
    rw [List.mem_cons, or_assoc, or_left_comm] at named
    have stillBelow : id < ((state.setTable task ((state.tables task).remove other).2).tables
        task).next := by
      rw [isTable]
      exact below
    refine .bind (induction stillBelow (named.imp_right fun absent => ?_)) fun _ _ gone => gone
    rw [isTable]
    exact (CapTable.gone_remove other below absent).1

/-- A failed send that got as far as moving capabilities leaves every named slot empty. -/
theorem failed_send_loses_slots {capId : CapId} {msgPtr : Nat} {msg : SendMsg}
    (numbered : (state.tables task).Numbered)
    (moves : MovesCaps (state.tables task) capId msgPtr msg) (isNamed : id ∈ msg.capIds) :
    (sysSend task capId msgPtr msg state).Meets (fun _ _ => True)
      (fun _ after => (after.tables task).get id = none) True := by
  rcases moves.sends with ⟨sendCap, isCap, sends, isPort⟩
  rcases Option.isSome_iff_exists.mp isPort with ⟨port, isPort⟩
  rcases Option.isSome_iff_exists.mp (moves.held id isNamed) with ⟨cap, isHeld⟩
  rw [sysSend, if_neg moves.readable, if_neg (Nat.not_lt.mpr moves.few)]
  simp only [bind_apply, get_apply, isCap, okOr_some, pure_apply, sends, if_true, isPort, takeCaps,
    if_neg moves.named, if_neg moves.listed, if_pos (List.all_eq_true.mpr moves.held)]
  apply Outcome.Meets.bind ((removeCaps_gone msg.capIds (numbered.slots isHeld).2
    (.inl isNamed)).mono (fun _ _ gone => gone) (fun _ _ => False.elim) False.elim)
  intro caps current gone
  have pages := takePages_keeps (fun after => (after.tables task).Gone id) msg caps
    (fun gone => gone) (installCaps_gone caps) gone
  apply Outcome.Meets.bind (pages.mono (fun _ _ gone => gone) (fun _ _ gone => gone.1)
    fun panicked => panicked)
  intro _ current gone
  apply (tryPush_tables port _).mono (fun _ _ _ => trivial) _ fun panicked => panicked
  intro _ after same
  rw [same]
  exact gone.1

end Lost

/-- A failed send leaves the sender's slots as they were just if it moved no capability, and
then it leaves every table as it was. -/
theorem failed_send_keeps_caps (state : State) (task : TaskId) (capId : CapId) (msgPtr : Nat)
    (msg : SendMsg) (numbered : (state.tables task).Numbered) (errno : Errno)
    (after : State) (failed : sysSend task capId msgPtr msg state = .error errno after) :
    ((∀ id, (after.tables task).get id = (state.tables task).get id) ↔
      ¬ MovesCaps (state.tables task) capId msgPtr msg) ∧
    (¬ MovesCaps (state.tables task) capId msgPtr msg → after.tables = state.tables) := by
  have unmoved : ¬ MovesCaps (state.tables task) capId msgPtr msg →
      after.tables = state.tables := by
    intro still
    have meets := still_keeps_tables still
    rwa [failed] at meets
  refine ⟨⟨fun same moves => ?_, fun still id => by rw [unmoved still]⟩, unmoved⟩
  rcases List.exists_mem_of_ne_nil _ moves.named with ⟨id, isNamed⟩
  have lost := failed_send_loses_slots numbered moves isNamed
  rw [failed] at lost
  have held := moves.held id isNamed
  rw [← same id, show (after.tables task).get id = none from lost] at held
  cases held

/-! ## Spring sends one of its ports -/

def twoPorts : State :=
  (((sysPortCreate 2 >>= fun _ => sysPortCreate 2) (State.boot none blankMachine)).final).getD
    (State.boot none blankMachine)

def sendPort (slot : CapId) : SendMsg := ⟨Vector.replicate 6 0, 1, [slot], 0, 1⟩

theorem twoPorts_numbered : (twoPorts.tables 2).Numbered where
  positive := by decide +kernel
  bounded := by decide +kernel
  slots := by
    have entries : ∀ entry ∈ (twoPorts.tables 2).slots.entries,
        (1 : Int) ≤ entry.1 ∧ (entry.1 : Int) < (twoPorts.tables 2).next := by decide +kernel
    intro id cap held
    exact entries ⟨id, cap⟩ (AList.mem_lookup_iff.mp held)

/-- A slot that is not held is refused before anything is moved. -/
theorem failed_send_keeps_caps_unknown : ∃ after,
    sysSend 2 2 1 (sendPort 9) twoPorts = .error .ebadf after ∧
      after.tables = twoPorts.tables := by
  have failed : (sysSend 2 2 1 (sendPort 9) twoPorts).fault? = some .ebadf := by decide +kernel
  have isError := Outcome.eq_error_of_fault? failed twoPorts
  refine ⟨_, isError, (failed_send_keeps_caps twoPorts 2 2 1 (sendPort 9) twoPorts_numbered .ebadf _
    isError).2 ?_⟩
  intro moves
  have held := moves.held 9 List.mem_cons_self
  revert held
  decide +kernel

/-- The payload range is malformed, and slot 3 is gone: its port came back as slot 4. -/
theorem failed_send_renumbers : ∃ after,
    sysSend 2 2 1 (sendPort 3) twoPorts = .error .einval after ∧
      (twoPorts.tables 2).get 3 = some (.port 1 .all) ∧
      (after.tables 2).get 3 = none ∧ (after.tables 2).get 4 = some (.port 1 .all) := by
  have failed : (sysSend 2 2 1 (sendPort 3) twoPorts).fault? = some .einval := by decide +kernel
  refine ⟨_, Outcome.eq_error_of_fault? failed twoPorts, ?_, ?_, ?_⟩
  · decide +kernel
  · decide +kernel
  · decide +kernel

end PersonaOS.Ipc
