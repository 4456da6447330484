import Mathlib.Algebra.BigOperators.Group.Finset.Basic
import Mathlib.Tactic.Abel
import PersonaOS.Ipc.CapFlow

/-! # Receive and registrar rights cannot be forged

All capabilities of the system, in tables and in queued messages, form one multiset.
Moving a capability leaves that multiset alone, and the only new receive right is the
one that comes with a new port. So there is at most one receiver for each port and at
most one registrar, in every reachable state. -/

namespace PersonaOS.Ipc

open Sched

def queueCaps (queue : List Message) : Multiset Cap := (queue.flatMap (·.caps) : List Cap)

def State.allCaps (state : State) : Multiset Cap :=
  ∑ task ∈ state.tasks, (state.tables task).caps +
    ∑ port ∈ Finset.range state.ports, queueCaps (state.queues port)

def Cap.Receives (cap : Cap) (port : PortId) : Prop :=
  cap.asPort = some port ∧ cap.rights.recv = true

instance (cap : Cap) (port : PortId) : Decidable (cap.Receives port) := by
  unfold Cap.Receives
  infer_instance

/-! ## The multiset across one change -/

theorem sum_update_add {ι α M : Type} [DecidableEq ι] [AddCommMonoid M] {indices : Finset ι}
    {index : ι} (member : index ∈ indices) (values : ι → α) (value : α) (weigh : α → M) :
    ∑ other ∈ indices, weigh (Function.update values index value other) +
        weigh (values index) =
      ∑ other ∈ indices, weigh (values other) + weigh value := by
  have others : ∑ other ∈ indices.erase index, weigh (Function.update values index value other) =
      ∑ other ∈ indices.erase index, weigh (values other) :=
    Finset.sum_congr rfl fun other isOther => by
      rw [Function.update_of_ne (Finset.ne_of_mem_erase isOther)]
  rw [← Finset.add_sum_erase _ _ member,
    ← Finset.add_sum_erase _ (fun other => weigh (values other)) member, others,
    Function.update_self]
  abel

namespace State

variable {state : State} {task : TaskId} {port : PortId}

theorem allCaps_setTable (table : CapTable) (member : task ∈ state.tasks) :
    (state.setTable task table).allCaps + (state.tables task).caps =
      state.allCaps + table.caps := by
  have tables := sum_update_add member state.tables table CapTable.caps
  simp only [allCaps, setTable]
  rw [add_right_comm, tables, add_right_comm]

theorem allCaps_setQueue (queue : List Message) (known : port < state.ports) :
    State.allCaps { state with queues := Function.update state.queues port queue } +
        queueCaps (state.queues port) =
      state.allCaps + queueCaps queue := by
  have queues := sum_update_add (Finset.mem_range.mpr known) state.queues queue queueCaps
  simp only [allCaps]
  rw [add_assoc, queues, add_assoc]

theorem allCaps_remove {id : CapId} {cap : Cap} {table : CapTable} (member : task ∈ state.tasks)
    (removed : (state.tables task).remove id = (some cap, table)) :
    state.allCaps = cap ::ₘ (state.setTable task table).allCaps := by
  have moved := allCaps_setTable table member
  rw [CapTable.caps_remove removed, Multiset.add_cons, ← Multiset.cons_add] at moved
  exact (add_right_cancel moved).symm

theorem allCaps_install_le {id : CapId} {cap : Cap} {table : CapTable}
    (member : task ∈ state.tasks)
    (installed : (state.tables task).install cap = some (id, table)) :
    (state.setTable task table).allCaps ≤ cap ::ₘ state.allCaps := by
  have moved := allCaps_setTable table member
  have gained : state.allCaps + table.caps ≤ state.allCaps + cap ::ₘ (state.tables task).caps :=
    Multiset.add_le_add_left (CapTable.caps_install_le installed)
  rw [← moved, Multiset.add_cons, ← Multiset.cons_add] at gained
  exact Multiset.le_of_add_le_add_right gained

theorem allCaps_push {message : Message} (known : port < state.ports) :
    (state.push task port message).allCaps = state.allCaps + message.caps := by
  have moved := allCaps_setQueue (state.queues port ++ [message]) known
  have longer : queueCaps (state.queues port ++ [message]) =
      queueCaps (state.queues port) + message.caps := by
    simp [queueCaps]
  rw [longer, ← add_assoc, add_right_comm] at moved
  exact add_right_cancel moved

theorem allCaps_pop {message : Message} {rest : List Message} (known : port < state.ports)
    (queue : state.queues port = message :: rest) :
    state.allCaps = message.caps + (state.pop task port).allCaps := by
  have moved := allCaps_setQueue rest known
  have shorter : queueCaps (message :: rest) = message.caps + queueCaps rest := by
    simp [queueCaps]
  rw [queue, shorter, ← add_assoc] at moved
  have popped : (state.pop task port).allCaps =
      State.allCaps { state with queues := Function.update state.queues port rest } := by
    simp [pop, allCaps, queue]
  rw [popped, add_comm]
  exact (add_right_cancel moved).symm

theorem allCaps_createPort (empty : state.queues state.ports = []) :
    (state.createPort task).allCaps = state.allCaps := by
  have same : Function.update state.queues state.ports [] = state.queues := by
    rw [← empty, Function.update_eq_self]
  simp only [allCaps, createPort, same, Finset.sum_range_succ]
  simp [empty, queueCaps]

theorem allCaps_spawn {child : TaskId} {space : Option Mm.Frame} {machine : Mm.Machine}
    (fresh : child ∉ state.tasks) : (state.spawn child space machine).allCaps = state.allCaps := by
  have others : ∑ other ∈ state.tasks, ((Function.update state.tables child .new) other).caps =
      ∑ other ∈ state.tasks, (state.tables other).caps :=
    Finset.sum_congr rfl fun other member => by
      rw [Function.update_of_ne (ne_of_mem_of_not_mem member fresh)]
  simp only [allCaps, spawn, Finset.sum_insert fresh, Function.update_self, others,
    CapTable.caps_new, zero_add]

theorem allCaps_closePort_le : (state.closePort port).allCaps ≤ state.allCaps := by
  by_cases known : port < state.ports
  · have moved := allCaps_setQueue [] known
    have empty : queueCaps [] = 0 := rfl
    rw [empty, add_zero] at moved
    rw [← moved]
    exact Multiset.le_add_right _ _
  · have same : ∑ other ∈ Finset.range state.ports,
        queueCaps ((Function.update state.queues port []) other) =
        ∑ other ∈ Finset.range state.ports, queueCaps (state.queues other) :=
      Finset.sum_congr rfl fun other member => by
        rw [Function.update_of_ne]
        rintro rfl
        exact known (Finset.mem_range.mp member)
    simp only [allCaps, closePort, same, le_refl]

end State

/-! ## The invariant -/

/-- A multiset of capabilities with at most one receiver for each port and at most one
registrar, all of them for ports that exist. -/
structure Sparse (caps : Multiset Cap) (ports : Nat) : Prop where
  receivers : ∀ port, caps.countP (·.Receives port) ≤ 1
  registrars : caps.countP (·.isRegistrar = true) ≤ 1
  known : ∀ cap ∈ caps, ∀ port, cap.asPort = some port → port < ports

namespace Sparse

variable {caps fewer : Multiset Cap} {ports : Nat}

theorem mono (sparse : Sparse caps ports) (le : fewer ≤ caps) : Sparse fewer ports where
  receivers port := (Multiset.countP_le_of_le _ le).trans (sparse.receivers port)
  registrars := (Multiset.countP_le_of_le _ le).trans sparse.registrars
  known cap member := sparse.known cap (Multiset.mem_of_le le member)

theorem mint {port : PortId} {rights : Rights} (sparse : Sparse caps ports)
    (noRecv : rights.recv = false) (isKnown : port < ports) :
    Sparse (.port port rights ::ₘ caps) ports where
  receivers other := by
    rw [Multiset.countP_cons_of_neg _ (by simp [Cap.Receives, Cap.port, noRecv])]
    exact sparse.receivers other
  registrars := by
    rw [Multiset.countP_cons_of_neg _ (by simp)]
    exact sparse.registrars
  known cap member other isPort := by
    rcases Multiset.mem_cons.mp member with rfl | older
    · obtain rfl : port = other := Option.some.inj isPort
      exact isKnown
    · exact sparse.known cap older other isPort

theorem create (sparse : Sparse caps ports) : Sparse (.port ports .all ::ₘ caps) (ports + 1) where
  receivers port := by
    by_cases isNew : port = ports
    · subst isNew
      have none : caps.countP (·.Receives port) = 0 := by
        rw [Multiset.countP_eq_zero]
        rintro cap member ⟨isPort, -⟩
        exact Nat.lt_irrefl _ (sparse.known cap member port isPort)
      rw [Multiset.countP_cons_of_pos _ ⟨rfl, rfl⟩, none]
    · rw [Multiset.countP_cons_of_neg]
      · exact sparse.receivers port
      · rintro ⟨isPort, -⟩
        exact isNew (Option.some.inj isPort).symm
  registrars := by
    rw [Multiset.countP_cons_of_neg _ (by simp)]
    exact sparse.registrars
  known cap member port isPort := by
    rcases Multiset.mem_cons.mp member with rfl | older
    · obtain rfl : ports = port := Option.some.inj isPort
      exact Nat.lt_succ_self _
    · exact Nat.lt_succ_of_lt (sparse.known cap older port isPort)

end Sparse

/-- The system's capabilities together with those in hand are sparse, and nothing refers
to a port that does not exist yet. -/
structure Counted (state : State) (held : Multiset Cap) : Prop where
  sparse : Sparse (state.allCaps + held) state.ports
  registered : ∀ name port, state.registry.lookup name = some port → port < state.ports
  parked : ∀ task port, state.receiving task = some port → port < state.ports
  empty : ∀ port, state.ports ≤ port → state.queues port = []

namespace Counted

variable {state : State} {task : TaskId} {held : Multiset Cap} {port : PortId}

theorem ref_known (counted : Counted state (portRef port ::ₘ held)) : port < state.ports :=
  counted.sparse.known (portRef port)
    (Multiset.mem_add.mpr (.inr (Multiset.mem_cons_self _ _))) port rfl

theorem refer (counted : Counted state held) (isKnown : port < state.ports) :
    Counted state (portRef port ::ₘ held) :=
  { counted with
    sparse := by
      rw [Multiset.add_cons]
      exact counted.sparse.mint rfl isKnown }

theorem forget {fewer : Multiset Cap} (counted : Counted state held) (le : fewer ≤ held) :
    Counted state fewer :=
  { counted with sparse := counted.sparse.mono (Multiset.add_le_add_left le) }

theorem known_of_mem {cap : Cap} (counted : Counted state held) (member : task ∈ state.tasks)
    (inTable : cap ∈ (state.tables task).caps) (isPort : cap.asPort = some port) :
    port < state.ports := by
  have inSum : cap ∈ ∑ other ∈ state.tasks, (state.tables other).caps :=
    Multiset.mem_sum.mpr ⟨task, member, inTable⟩
  exact counted.sparse.known cap
    (Multiset.mem_add.mpr (.inl (Multiset.mem_add.mpr (.inl inSum)))) port isPort

end Counted

theorem capInvariant_counted :
    CapInvariant (fun state => Counted state 0)
      (fun state caller held => caller ∈ state.tasks ∧ Counted state held) where
  enter counted member := ⟨member, counted⟩
  leave holds := holds.2.forget (Multiset.zero_le _)
  setMachine holds := ⟨holds.1, { holds.2 with }⟩
  remove := by
    rintro state caller held id cap table ⟨member, counted⟩ removed
    refine ⟨member, { counted with sparse := ?_ }⟩
    have sparse := counted.sparse
    rwa [State.allCaps_remove member removed, Multiset.cons_add, ← Multiset.add_cons] at sparse
  install := by
    rintro state caller held id cap table ⟨member, counted⟩ installed
    refine ⟨member, { counted with sparse := counted.sparse.mono ?_ }⟩
    rw [Multiset.add_cons, ← Multiset.cons_add]
    exact Multiset.add_le_add_right (State.allCaps_install_le member installed)
  resolve holds inTable isPort :=
    ⟨holds.1, holds.2.refer (holds.2.known_of_mem holds.1 inTable isPort)⟩
  create := by
    rintro state caller held ⟨member, counted⟩
    refine ⟨member, ?_, ?_, ?_, ?_⟩
    · rw [State.allCaps_createPort (counted.empty _ (Nat.le_refl _)), Multiset.add_cons]
      exact counted.sparse.create
    · exact fun name port found => Nat.lt_succ_of_lt (counted.registered name port found)
    · exact fun task port parked => Nat.lt_succ_of_lt (counted.parked task port parked)
    · intro port unknown
      have isOther : port ≠ state.ports := (Nat.lt_of_succ_le unknown).ne'
      rw [State.queues_createPort, if_neg isOther]
      exact counted.empty port (Nat.le_of_succ_le unknown)
  mint := by
    rintro state caller held port rights ⟨member, counted⟩ noRecv
    have older := counted.forget (Multiset.le_cons_self held (portRef port))
    refine ⟨member, { counted with sparse := ?_ }⟩
    rw [Multiset.add_cons]
    exact older.sparse.mint noRecv counted.ref_known
  push := by
    rintro state caller held port message ⟨member, counted⟩
    have isKnown := counted.ref_known
    refine ⟨member, counted.sparse.mono ?_, counted.registered, counted.parked, ?_⟩
    · rw [State.allCaps_push isKnown, add_assoc]
      exact Multiset.add_le_add_left (Multiset.le_cons_self _ _)
    · intro other unknown
      have isOther : other ≠ port := (isKnown.trans_le unknown).ne'
      rw [State.queues_push, if_neg isOther]
      exact counted.empty other unknown
  refuse holds := ⟨holds.1, { holds.2 with }⟩
  popEmpty := by
    rintro state caller held port ⟨member, counted⟩ queue
    have same : Function.update state.queues port (state.queues port).tail = state.queues := by
      rw [queue, List.tail_nil, ← queue, Function.update_eq_self]
    exact ⟨member, by simpa [State.pop, State.allCaps, same] using counted.sparse,
      counted.registered, counted.parked, by simpa [State.pop, same] using counted.empty⟩
  pop := by
    rintro state caller held port message rest ⟨member, counted⟩ queue
    have isKnown := counted.ref_known
    have older := counted.forget (Multiset.le_cons_self held (portRef port))
    refine ⟨member, ?_, counted.registered, counted.parked, ?_⟩
    · have sparse := older.sparse
      rw [State.allCaps_pop isKnown queue, add_right_comm, add_comm (_ + held)] at sparse
      exact sparse
    · intro other unknown
      have isOther : other ≠ port := (isKnown.trans_le unknown).ne'
      rw [State.queues_pop, if_neg isOther]
      exact counted.empty other unknown
  park := by
    rintro state caller held port ⟨member, counted⟩
    have older := counted.forget (Multiset.le_cons_self held (portRef port))
    refine ⟨member, { older with parked := fun task other parked => ?_ }⟩
    rw [State.receiving_setReceiving] at parked
    split at parked
    · exact Option.some.inj parked ▸ counted.ref_known
    · exact counted.parked task other parked
  unpark := by
    rintro state caller held ⟨member, counted⟩
    refine ⟨member, { counted with parked := fun task other parked => ?_ }⟩
    rw [State.receiving_setReceiving] at parked
    split at parked
    · cases parked
    · exact counted.parked task other parked
  resume holds parked := ⟨holds.1, holds.2.refer (holds.2.parked _ _ parked)⟩
  publish := by
    rintro state caller held name port ⟨member, counted⟩
    have older := counted.forget (Multiset.le_cons_self held (portRef port))
    refine ⟨member, { older with registered := fun other found isFound => ?_ }⟩
    rw [State.lookup_publish] at isFound
    split at isFound
    · exact Option.some.inj isFound ▸ counted.ref_known
    · exact counted.registered other found isFound
  lookup holds found := ⟨holds.1, holds.2.refer (holds.2.registered _ _ found)⟩
  spawn := by
    intro state child space machine counted fresh
    refine ⟨?_, counted.registered, fun task port parked => ?_, counted.empty⟩
    · rw [State.allCaps_spawn fresh]
      exact counted.sparse
    · rw [State.receiving_spawn] at parked
      split at parked
      · cases parked
      · exact counted.parked task port parked
  closePort := by
    intro state port counted
    refine ⟨counted.sparse.mono (Multiset.add_le_add_right State.allCaps_closePort_le),
      counted.registered, counted.parked, fun other unknown => ?_⟩
    rw [State.queues_closePort, counted.empty other unknown, ite_self]

theorem counted_boot (space : Option Mm.Frame) (machine : Mm.Machine) :
    Counted (State.boot space machine) 0 where
  sparse := by
    have caps : (State.boot space machine).allCaps = {Cap.registrar} := by
      simp [State.allCaps, State.boot, CapTable.caps]
    rw [caps, add_zero]
    refine ⟨fun port => ?_, by decide, ?_⟩
    · rw [Multiset.countP_eq_zero.mpr]
      · exact Nat.zero_le _
      · rintro cap member ⟨isPort, -⟩
        rw [Multiset.mem_singleton.mp member] at isPort
        cases isPort
    · intro cap member port isPort
      rw [Multiset.mem_singleton.mp member] at isPort
      cases isPort
  registered name port found := by cases found
  parked task port parked := by cases parked
  empty _ _ := rfl

/-- Whatever the tasks do, each port has at most one receiver, and there is at most one
registrar, in tables and queued messages together. -/
theorem receive_rights_unforgeable (space : Option Mm.Frame) (machine : Mm.Machine)
    (events : List Event) (state : State)
    (run : Trace Step (State.boot space machine) events state) :
    (∀ port, state.allCaps.countP (·.Receives port) ≤ 1) ∧
      state.allCaps.countP (·.isRegistrar = true) ≤ 1 := by
  have counted := capInvariant_counted.run run (counted_boot space machine)
  have sparse := counted.sparse
  rw [add_zero] at sparse
  exact ⟨sparse.receivers, sparse.registrars⟩

/-- Spring creates a port, keeps a sending duplicate and sends the port its own receive
capability. -/
def selfSend : List Event :=
  [.call 2 .portCreate, .call 2 (.capDup 2 5),
    .call 2 (.send 3 0x1000 ⟨Vector.replicate 6 0, 0x2000, [2], 0, 0⟩)]

/-- The receive capability inside the queued message is the only one. -/
theorem receive_rights_unforgeable_selfSend :
    ∃ state, Trace Step (State.boot none ⟨fun _ _ => .unused, ∅, fun _ _ => none, 0⟩)
        selfSend state ∧
      (state.tables 2).get 2 = none ∧
      queueCaps (state.queues 0) = {Cap.port 0 .all} ∧
      ∀ port, state.allCaps.countP (·.Receives port) ≤ 1 := by
  have run : Trace Step (State.boot none ⟨fun _ _ => .unused, ∅, fun _ _ => none, 0⟩)
      selfSend _ :=
    .cons (.call (by decide) rfl rfl) (.cons (.call (by decide) rfl rfl)
      (.cons (.call (by decide) rfl rfl) (.nil _)))
  exact ⟨_, run, by decide, by decide, (receive_rights_unforgeable _ _ _ _ run).1⟩

end PersonaOS.Ipc
