import PersonaOS.Ipc.CapFlow

/-! # The registrar check

Publishing a name takes a registrar capability. `sys_name` looks for one by counting slot
numbers up, and it gives up at the first empty slot past 32. Slot numbers are never used
again, so a table in which capabilities have come and gone has empty slots anywhere, and a
capability behind one of them is not found. -/

namespace PersonaOS.Ipc

open Program Mm Sched

namespace CapTable

def RegistrarAt (table : CapTable) (slot : CapId) : Prop :=
  ∃ cap, table.get slot = some cap ∧ cap.isRegistrar = true

def Unbroken (table : CapTable) (slot : CapId) : Prop :=
  ∀ other : Int, 32 < other → other < slot → (table.get other).isSome = true

theorem scanRegistrar_eq_true (table : CapTable) (fuel : Nat) (id : Int) :
    table.scanRegistrar fuel id = true ↔
      ∃ slot : Int, id ≤ slot ∧ slot < id + fuel ∧ table.RegistrarAt slot ∧
        ∀ other : Int, id ≤ other → 32 < other → other < slot →
          (table.get other).isSome = true := by
  induction fuel generalizing id with
  | zero =>
    constructor
    · intro found
      cases found
    · intro found
      rcases found with ⟨slot, behind, before, _⟩
      omega
  | succ fuel induction =>
    -- Past a slot that does not end the scan, the rest decides.
    have skip : ¬ table.RegistrarAt id → (32 < id → (table.get id).isSome = true) →
        (table.scanRegistrar fuel (id + 1) = true ↔
          ∃ slot : Int, id ≤ slot ∧ slot < id + (fuel + 1 : Nat) ∧ table.RegistrarAt slot ∧
            ∀ other : Int, id ≤ other → 32 < other → other < slot →
              (table.get other).isSome = true) := by
      intro notHere present
      rw [induction]
      constructor
      · intro found
        rcases found with ⟨slot, behind, before, isRegistrar, unbroken⟩
        refine ⟨slot, by omega, by omega, isRegistrar, fun other behindId past beforeSlot => ?_⟩
        rcases eq_or_lt_of_le behindId with same | later
        · exact same ▸ present (same ▸ past)
        · exact unbroken other later past beforeSlot
      · intro found
        rcases found with ⟨slot, behind, before, isRegistrar, unbroken⟩
        have different : id ≠ slot := fun same => notHere (same ▸ isRegistrar)
        exact ⟨slot, by omega, by omega, isRegistrar,
          fun other behindId => unbroken other (by omega)⟩
    rw [scanRegistrar]
    cases held : table.get id with
    | some cap =>
      simp only
      split
      · next isRegistrar =>
        refine ⟨fun _ => ⟨id, le_refl _, by omega, ⟨cap, held, isRegistrar⟩, ?_⟩, fun _ => rfl⟩
        intro other behind _ before
        omega
      · next notRegistrar =>
        apply skip
        · intro isRegistrar
          rcases isRegistrar with ⟨found, isFound, isRegistrar⟩
          cases held.symm.trans isFound
          exact notRegistrar isRegistrar
        · intro _
          rw [held]
          rfl
    | none =>
      have notHere : ¬ table.RegistrarAt id := by
        intro isRegistrar
        rcases isRegistrar with ⟨found, isFound, _⟩
        cases held.symm.trans isFound
      simp only
      split
      · next past =>
        constructor
        · intro found
          cases found
        · intro found
          rcases found with ⟨slot, behind, _, isRegistrar, unbroken⟩
          have different : id ≠ slot := fun same => notHere (same ▸ isRegistrar)
          have present := unbroken id (le_refl _) past (by omega)
          rw [held] at present
          cases present
      · next within => exact skip notHere fun past => absurd past within

/-! ## Slot numbers -/

/-- Slots are numbered from 1 up to the next one to be handed out. -/
structure Numbered (table : CapTable) : Prop where
  positive : (1 : Int) ≤ table.next
  bounded : (2 ^ 31 - 1 : Int) ≥ table.next
  slots : ∀ {id : Int} {cap}, table.get id = some cap → 1 ≤ id ∧ id < table.next

theorem numbered_new : new.Numbered where
  positive := le_refl _
  bounded := by decide
  slots held := by cases held

theorem Numbered.install {table after : CapTable} {cap : Cap} {id : CapId}
    (numbered : table.Numbered) (installed : table.install cap = some (id, after)) :
    after.Numbered := by
  rw [CapTable.install] at installed
  split at installed
  · next inRange =>
    cases installed
    have positive := numbered.positive
    have below : (2 ^ 31 - 1 : Int) > table.next := inRange
    refine ⟨by simp only; omega, by simp only; omega, ?_⟩
    intro slot found held
    by_cases same : slot = table.next
    · rw [same]
      simp only
      omega
    · have older : table.get slot = some found := (AList.lookup_insert_ne same).symm.trans held
      have known := numbered.slots older
      simp only
      omega
  · cases installed

theorem Numbered.remove {table after : CapTable} {removed : Option Cap} {id : CapId}
    (numbered : table.Numbered) (isRemoved : table.remove id = (removed, after)) :
    after.Numbered := by
  cases isRemoved
  refine ⟨numbered.positive, numbered.bounded, ?_⟩
  intro slot cap held
  by_cases same : slot = id
  · rw [same] at held
    cases (AList.lookup_erase id table.slots).symm.trans held
  · exact numbered.slots ((AList.lookup_erase_ne same).symm.trans held)

/-- In a table whose slots are numbered, the check finds a registrar capability just if there
is one with no empty slot past 32 before it. -/
theorem Numbered.hasRegistrar {table : CapTable} (numbered : table.Numbered) :
    table.hasRegistrar = true ↔ ∃ slot, table.RegistrarAt slot ∧ table.Unbroken slot := by
  rw [CapTable.hasRegistrar, scanRegistrar_eq_true]
  constructor
  · intro found
    rcases found with ⟨slot, _, _, isRegistrar, unbroken⟩
    exact ⟨slot, isRegistrar, fun other past => unbroken other (by omega) past⟩
  · intro found
    rcases found with ⟨slot, isRegistrar, unbroken⟩
    have bounded := numbered.bounded
    have present := isRegistrar
    rcases present with ⟨cap, held, _⟩
    have inRange := numbered.slots held
    have covered : ((2 ^ 31 - 2 : Nat) : Int) = 2 ^ 31 - 2 := rfl
    exact ⟨slot, inRange.1, by omega, isRegistrar, fun other _ past => unbroken other past⟩

end CapTable

def State.Numbered (state : State) : Prop := ∀ task, (state.tables task).Numbered

theorem State.Numbered.setTable {state : State} {task : TaskId} {table : CapTable}
    (numbered : state.Numbered) (isNumbered : table.Numbered) :
    (state.setTable task table).Numbered := by
  intro other
  rw [State.tables_setTable]
  split
  · exact isNumbered
  · exact numbered other

theorem capInvariant_numbered : CapInvariant State.Numbered fun state _ _ => state.Numbered where
  enter numbered _ := numbered
  leave numbered := numbered
  setMachine numbered := numbered
  remove numbered removed := numbered.setTable ((numbered _).remove removed)
  install numbered installed := numbered.setTable ((numbered _).install installed)
  resolve numbered _ _ := numbered
  create numbered := numbered
  mint numbered _ := numbered
  push numbered := numbered
  refuse numbered := numbered
  popEmpty numbered _ := numbered
  pop numbered _ := numbered
  park numbered := numbered
  unpark numbered := numbered
  resume numbered _ := numbered
  publish numbered := numbered
  lookup numbered _ := numbered
  spawn numbered _ := by
    intro task
    rw [State.tables_spawn]
    split
    · exact CapTable.numbered_new
    · exact numbered task
  closePort numbered := numbered

theorem numbered_boot (space : Option Frame) (machine : Machine) :
    (State.boot space machine).Numbered := by
  intro task
  rw [State.boot]
  simp only [Function.update_apply]
  split
  · refine ⟨by decide, by decide, ?_⟩
    intro id cap held
    have entry := AList.mem_lookup_iff.mp held
    cases List.mem_singleton.mp entry
    decide
  · exact CapTable.numbered_new

/-! ## Runs of one task -/

def State.calls? (state : State) (caller : TaskId) : List Call → Option State
  | [] => some state
  | call :: rest =>
    if caller ∈ state.tasks ∧ state.receiving caller = none then
      (Call.perform caller call state).final.bind fun next => next.calls? caller rest
    else
      none

theorem State.trace_of_calls? {caller : TaskId} {calls : List Call} {state after : State}
    (called : state.calls? caller calls = some after) :
    Trace Step state (calls.map (.call caller)) after := by
  induction calls generalizing state with
  | nil =>
    cases called
    exact .nil _
  | cons call rest induction =>
    rw [State.calls?] at called
    split at called
    · next ready =>
      rcases Option.bind_eq_some_iff.mp called with ⟨next, performed, remaining⟩
      exact .cons (.call ready.1 ready.2 performed) (induction remaining)
    · cases called

def bareBoot : State := .boot none ⟨fun _ _ => .unused, ∅, fun _ _ => none, 0⟩

/-! ## Publishing -/

theorem sysName_publish_eperm {state : State} {caller : TaskId} {namePtr : Nat}
    {nameBytes : ByteArray} {name : String} {capId : CapId} {cap : Cap} {port : PortId}
    (pointer : namePtr ≠ 0) (size : 1 ≤ nameBytes.size ∧ nameBytes.size ≤ nameMax)
    (isName : String.fromUTF8? nameBytes = some name)
    (held : (state.tables caller).get capId = some cap) (isPort : cap.asPort = some port) :
    (∃ after, sysName caller 0 namePtr nameBytes capId state = .error .eperm after) ↔
      (state.tables caller).hasRegistrar = false := by
  have valid : ¬ (namePtr = 0 ∨ nameBytes.size = 0 ∨ nameMax < nameBytes.size) := by omega
  rw [sysName, if_neg valid, isName]
  simp only [okOr_some, pure_bind_apply, get_bind_apply, held, isPort]
  cases (state.tables caller).hasRegistrar with
  | false => simp
  | true =>
    rw [if_pos rfl]
    split <;> simp

/-- In every reachable state the registrar check is exact, that is, it passes just if the caller
holds a registrar capability, exactly when one of those it holds has no empty slot from 33 up
to it. -/
theorem registrar_check_exact (space : Option Frame) (machine : Machine) (events : List Event)
    (state : State) (run : Trace Step (State.boot space machine) events state)
    (caller : TaskId) (namePtr : Nat) (nameBytes : ByteArray) (name : String) (capId : CapId)
    (cap : Cap) (port : PortId) (pointer : namePtr ≠ 0)
    (size : 1 ≤ nameBytes.size ∧ nameBytes.size ≤ nameMax)
    (isName : String.fromUTF8? nameBytes = some name)
    (held : (state.tables caller).get capId = some cap) (isPort : cap.asPort = some port) :
    ((¬ ∃ after, sysName caller 0 namePtr nameBytes capId state = .error .eperm after) ↔
      ∃ slot, (state.tables caller).RegistrarAt slot) ↔
    ((∃ slot, (state.tables caller).RegistrarAt slot) →
      ∃ slot, (state.tables caller).RegistrarAt slot ∧ (state.tables caller).Unbroken slot) := by
  have numbered := capInvariant_numbered.run run (numbered_boot space machine) caller
  rw [sysName_publish_eperm pointer size isName held isPort, Bool.not_eq_false,
    numbered.hasRegistrar]
  constructor
  · exact fun exact_ => exact_.mpr
  · intro unbroken
    refine ⟨?_, unbroken⟩
    rintro ⟨slot, isRegistrar, _⟩
    exact ⟨slot, isRegistrar⟩

/-- Spring creates a port and may publish it. -/
theorem registrar_check_exact_publish :
    ∃ state, Trace Step bareBoot [.call 2 .portCreate] state ∧
      (state.tables 2).get 2 = some (.port 0 .all) ∧
      ¬ ∃ after, sysName 2 0 0x4000 "a".toUTF8 2 state = .error .eperm after := by
  have created : (bareBoot.calls? 2 [.portCreate]).map (fun state =>
      ((state.tables 2).get 1, (state.tables 2).get 2)) =
      some (some .registrar, some (.port 0 .all)) := by
    decide +kernel
  rcases Option.map_eq_some_iff.mp created with ⟨state, called, slots⟩
  rcases Prod.mk.inj slots with ⟨isRegistrar, held⟩
  have run := State.trace_of_calls? called
  refine ⟨state, run, held, ?_⟩
  have first : (state.tables 2).RegistrarAt 1 := ⟨.registrar, isRegistrar, rfl⟩
  apply ((registrar_check_exact none _ _ state run 2 0x4000 "a".toUTF8 "a" 2 _ 0 (by decide)
    (by decide) (dif_pos (String.isValidUTF8 _)) held rfl).mpr fun _ => ⟨1, first, ?_⟩).mpr
      ⟨1, first⟩
  intro other past before
  omega

/-! ## A registrar that is not found -/

/-- Spring fills its slots up to 33, empties slot 33, and sends itself its registrar
capability, which comes back in slot 34. -/
def moveRegistrar : List Call :=
  List.replicate 32 .portCreate ++
    [.capDrop 33, .send 2 0x1000 ⟨Vector.replicate 6 0, 0x2000, [1], 0, 0⟩,
      .recv 2 0x1000 ⟨Vector.replicate 6 0, 0x3000, 1, 0, 0, 0⟩]

theorem moveRegistrar_moves :
    (bareBoot.calls? 2 moveRegistrar).map (fun state =>
      ((state.tables 2).get 2, (state.tables 2).get 34, (state.tables 2).hasRegistrar)) =
      some (some (.port 0 .all), some .registrar, false) := by
  decide +kernel

/-- Spring holds the registrar capability in slot 34, and may not publish. -/
theorem registrar_check_misses :
    ∃ state after, Trace Step bareBoot (moveRegistrar.map (.call 2)) state ∧
      (state.tables 2).get 2 = some (.port 0 .all) ∧ (state.tables 2).RegistrarAt 34 ∧
      sysName 2 0 0x4000 "a".toUTF8 2 state = .error .eperm after := by
  rcases Option.map_eq_some_iff.mp moveRegistrar_moves with ⟨state, called, slots⟩
  rcases Prod.mk.inj slots with ⟨held, rest⟩
  rcases Prod.mk.inj rest with ⟨isRegistrar, unseen⟩
  have refused := (sysName_publish_eperm (by decide : 0x4000 ≠ 0) (by decide)
    (dif_pos "a".isValidUTF8) held rfl).mpr unseen
  rcases refused with ⟨after, refused⟩
  exact ⟨state, after, State.trace_of_calls? called, held, ⟨_, isRegistrar, rfl⟩, refused⟩

end PersonaOS.Ipc
