import PersonaOS.Ipc.CapFlow

/-! # No ambient authority

A port that its creator neither publishes nor passes on stays the creator's own: nobody else
ever gets a capability to it, and nobody else ever touches its queue. -/

namespace PersonaOS.Ipc

open Sched

/-! ## What the audit says about a port -/

def Audit.touches : Audit → Option (TaskId × PortId)
  | .pushed task port _ | .refused task port | .popped task port => some (task, port)
  | .created _ _ | .published _ _ => none

/-- The port was published, or a message with a capability to it was accepted. -/
def Exposed (audit : List Audit) (port : PortId) : Prop :=
  (∃ task, .published task port ∈ audit) ∨
    ∃ task target message, .pushed task target message ∈ audit ∧
      ∃ cap ∈ message.caps, cap.asPort = some port

theorem Exposed.mono {before after : List Audit} {port : PortId}
    (exposed : Exposed before port) (subset : before ⊆ after) : Exposed after port := by
  rcases exposed with ⟨task, published⟩ | ⟨task, target, message, pushed, carries⟩
  · exact .inl ⟨task, subset published⟩
  · exact .inr ⟨task, target, message, subset pushed, carries⟩

/-! ## Confinement -/

/-- Every reference to `port` belongs to a task that `owns` it: the capabilities in
tables, the parked receivers, the operations on its queue so far, and the capabilities
`held` by the running task. There is none in a queued message or in the registry. -/
structure Confined (owns : TaskId → Prop) (port : PortId) (state : State) (caller : TaskId)
    (held : Multiset Cap) : Prop where
  tables : ∀ task, ∀ cap ∈ (state.tables task).caps, cap.asPort = some port → owns task
  queues : ∀ target, ∀ message ∈ state.queues target, ∀ cap ∈ message.caps,
    cap.asPort ≠ some port
  registry : ∀ name, state.registry.lookup name ≠ some port
  receiving : ∀ task, state.receiving task = some port → owns task
  touched : ∀ entry ∈ state.audit, ∀ task, entry.touches = some (task, port) → owns task
  inHand : ∀ cap ∈ held, cap.asPort = some port → owns caller

namespace Confined

variable {owns : TaskId → Prop} {port : PortId} {state : State} {caller : TaskId}
  {held : Multiset Cap}

theorem forget {fewer : Multiset Cap} (confined : Confined owns port state caller held)
    (le : fewer ≤ held) : Confined owns port state caller fewer :=
  { confined with inHand := fun cap member => confined.inHand cap (Multiset.mem_of_le le member) }

theorem take (cap : Cap) (confined : Confined owns port state caller held)
    (owned : cap.asPort = some port → owns caller) :
    Confined owns port state caller (cap ::ₘ held) :=
  { confined with
    inHand := fun other member isPort => by
      rcases Multiset.mem_cons.mp member with rfl | older
      · exact owned isPort
      · exact confined.inHand other older isPort }

theorem setTable {table : CapTable} (confined : Confined owns port state caller held)
    (owned : ∀ cap ∈ table.caps, cap.asPort = some port → owns caller) :
    Confined owns port (state.setTable caller table) caller held :=
  { confined with
    tables := fun task cap member isPort => by
      rw [State.tables_setTable] at member
      split at member
      · next same => exact same ▸ owned cap member isPort
      · exact confined.tables task cap member isPort }

theorem setReceiving {target : Option PortId} (confined : Confined owns port state caller held)
    (owned : target = some port → owns caller) :
    Confined owns port (state.setReceiving caller target) caller held :=
  { confined with
    receiving := fun task parked => by
      rw [State.receiving_setReceiving] at parked
      split at parked
      · next same => exact same ▸ owned parked
      · exact confined.receiving task parked }

theorem touched_append {entry : Audit} (confined : Confined owns port state caller held)
    (owned : ∀ task, entry.touches = some (task, port) → owns task) :
    ∀ other ∈ state.audit ++ [entry], ∀ task, other.touches = some (task, port) → owns task := by
  intro other member task touches
  rcases List.mem_append.mp member with older | newest
  · exact confined.touched other older task touches
  · rw [List.mem_singleton.mp newest] at touches
    exact owned task touches

theorem touches_owned {target : PortId} {entry : Audit}
    (confined : Confined owns port state caller (portRef target ::ₘ held))
    (isEntry : entry.touches = some (caller, target)) :
    ∀ task, entry.touches = some (task, port) → owns task := by
  intro task touches
  obtain ⟨rfl, rfl⟩ : caller = task ∧ target = port := by
    simpa using isEntry.symm.trans touches
  exact confined.inHand (portRef target) (Multiset.mem_cons_self _ _) rfl

end Confined

/-! ## The invariant -/

/-- Ports that do not exist yet are referred to by nobody; each existing port has one
creator, who is the only one to refer to it until it is exposed. -/
structure Watched (state : State) (caller : TaskId) (held : Multiset Cap) : Prop where
  unknown : ∀ port, state.ports ≤ port → Confined (fun _ => False) port state caller held
  creator : ∀ port < state.ports, ∃ owner, .created owner port ∈ state.audit
  created : ∀ owner port, .created owner port ∈ state.audit → port < state.ports
  unique : ∀ owner other port, .created owner port ∈ state.audit →
    .created other port ∈ state.audit → owner = other
  guarded : ∀ owner port, .created owner port ∈ state.audit →
    Exposed state.audit port ∨ Confined (· = owner) port state caller held

namespace Watched

variable {state after : State} {caller later : TaskId} {held rest : Multiset Cap}

/-- A change that creates no port keeps the watch if it keeps confinement, or else is the
owner exposing its port. -/
theorem transfer (watched : Watched state caller held) (samePorts : after.ports = state.ports)
    (recorded : state.audit ⊆ after.audit)
    (noneCreated : ∀ owner port, .created owner port ∈ after.audit →
      .created owner port ∈ state.audit)
    (keeps : ∀ owns port, Confined owns port state caller held →
      Exposed after.audit port ∧ owns caller ∨ Confined owns port after later rest) :
    Watched after later rest where
  unknown port isUnknown := by
    rw [samePorts] at isUnknown
    exact (keeps _ port (watched.unknown port isUnknown)).resolve_left And.right
  creator port isKnown := by
    rw [samePorts] at isKnown
    obtain ⟨owner, created⟩ := watched.creator port isKnown
    exact ⟨owner, recorded created⟩
  created owner port created := by
    rw [samePorts]
    exact watched.created owner port (noneCreated owner port created)
  unique owner other port created otherCreated :=
    watched.unique owner other port (noneCreated owner port created)
      (noneCreated other port otherCreated)
  guarded owner port created := by
    rcases watched.guarded owner port (noneCreated owner port created) with exposed | confined
    · exact .inl (exposed.mono recorded)
    · exact (keeps _ port confined).imp_left And.left

theorem silent (watched : Watched state caller held) (samePorts : after.ports = state.ports)
    (sameAudit : after.audit = state.audit)
    (keeps : ∀ owns port, Confined owns port state caller held →
      Confined owns port after later rest) : Watched after later rest :=
  watched.transfer samePorts (sameAudit ▸ List.Subset.refl _)
    (fun _ _ created => sameAudit ▸ created) fun owns port confined =>
      .inr (keeps owns port confined)

theorem record {entry : Audit} (watched : Watched state caller held)
    (samePorts : after.ports = state.ports) (audit : after.audit = state.audit ++ [entry])
    (notCreated : ∀ owner port, entry ≠ .created owner port)
    (keeps : ∀ owns port, Confined owns port state caller held →
      Exposed after.audit port ∧ owns caller ∨ Confined owns port after later rest) :
    Watched after later rest := by
  refine watched.transfer samePorts (audit ▸ List.subset_append_left _ _) ?_ keeps
  intro owner port created
  rw [audit] at created
  rcases List.mem_append.mp created with older | newest
  · exact older
  · exact absurd (List.mem_singleton.mp newest).symm (notCreated owner port)

theorem create (watched : Watched state caller held) :
    Watched (state.createPort caller) caller (.port state.ports .all ::ₘ held) := by
  have keeps : ∀ owns port, Confined owns port state caller held →
      (port = state.ports → owns caller) →
      Confined owns port (state.createPort caller) caller (.port state.ports .all ::ₘ held) := by
    intro owns port confined owned
    refine Confined.take (.port state.ports .all)
      { confined with
        queues := fun target message member => ?_
        touched := confined.touched_append fun _ touches => by cases touches } ?_
    · rw [State.queues_createPort] at member
      split at member
      · cases member
      · exact confined.queues target message member
    · intro isPort
      exact owned (Option.some.inj isPort).symm
  have isNew : ∀ {owner port}, Audit.created owner port ∈ (state.createPort caller).audit →
      .created owner port ∈ state.audit ∨ owner = caller ∧ port = state.ports := by
    intro owner port created
    rcases List.mem_append.mp created with older | newest
    · exact .inl older
    · exact .inr (by simpa using newest)
  refine ⟨?_, ?_, ?_, ?_, ?_⟩
  · intro port isUnknown
    refine keeps _ port (watched.unknown port (Nat.le_of_succ_le isUnknown)) fun same => ?_
    exact (Nat.lt_of_succ_le isUnknown).ne' same
  · intro port isKnown
    rcases Nat.lt_succ_iff_lt_or_eq.mp isKnown with older | rfl
    · obtain ⟨owner, created⟩ := watched.creator port older
      exact ⟨owner, List.mem_append_left _ created⟩
    · exact ⟨caller, List.mem_append_right _ List.mem_cons_self⟩
  · intro owner port created
    rcases isNew created with older | ⟨-, rfl⟩
    · exact Nat.lt_succ_of_lt (watched.created owner port older)
    · exact Nat.lt_succ_self _
  · intro owner other port created otherCreated
    rcases isNew created with older | ⟨rfl, rfl⟩ <;>
      rcases isNew otherCreated with otherOlder | ⟨rfl, samePort⟩
    · exact watched.unique owner other port older otherOlder
    · exact absurd samePort (watched.created owner port older).ne
    · exact absurd rfl (watched.created other _ otherOlder).ne
    · rfl
  · intro owner port created
    rcases isNew created with older | ⟨rfl, rfl⟩
    · refine (watched.guarded owner port older).imp
        (Exposed.mono · (List.subset_append_left _ _)) fun confined => ?_
      exact keeps _ port confined fun same =>
        absurd same (watched.created owner port older).ne
    · refine .inr (keeps _ _ ?_ fun _ => rfl)
      have nobody := watched.unknown state.ports (Nat.le_refl _)
      exact
        { tables := fun task cap member isPort => (nobody.tables task cap member isPort).elim
          queues := nobody.queues
          registry := nobody.registry
          receiving := fun task parked => (nobody.receiving task parked).elim
          touched := fun entry member task touches =>
            (nobody.touched entry member task touches).elim
          inHand := fun _ _ _ => rfl }

end Watched

theorem capInvariant_watched :
    CapInvariant (fun state => Watched state 0 0) Watched where
  enter watched _ := watched.silent rfl rfl fun _ _ confined =>
    { confined with inHand := fun _ member => absurd member (Multiset.notMem_zero _) }
  leave watched := watched.silent rfl rfl fun _ _ confined =>
    { confined with inHand := fun _ member => absurd member (Multiset.notMem_zero _) }
  setMachine watched := watched.silent rfl rfl fun _ _ confined => { confined with }
  remove := by
    intro state caller held id cap table watched removed
    refine watched.silent rfl rfl fun owns port confined => ?_
    have moved : ∀ other ∈ cap ::ₘ table.caps, other.asPort = some port → owns caller := by
      rw [← CapTable.caps_remove removed]
      exact confined.tables caller
    exact (confined.setTable fun other member => moved other (Multiset.mem_cons_of_mem member)).take
      cap (moved cap (Multiset.mem_cons_self _ _))
  install := by
    intro state caller held id cap table watched installed
    refine watched.silent rfl rfl fun owns port confined => ?_
    refine (confined.forget (Multiset.le_cons_self _ _)).setTable fun other member => ?_
    have known := Multiset.mem_of_le (CapTable.caps_install_le installed) member
    rcases Multiset.mem_cons.mp known with rfl | older
    · exact confined.inHand other (Multiset.mem_cons_self _ _)
    · exact confined.tables caller other older
  resolve watched inTable isPort := watched.silent rfl rfl fun _ _ confined =>
    confined.take _ fun isRef => confined.tables _ _ inTable (isPort.trans isRef)
  create watched := watched.create
  mint watched _ := watched.silent rfl rfl fun _ _ confined =>
    (confined.forget (Multiset.le_cons_self _ _)).take _ fun isPort =>
      confined.inHand _ (Multiset.mem_cons_self _ _) isPort
  push := by
    intro state caller held target message watched
    refine watched.record rfl rfl nofun fun owns port confined => ?_
    -- The message either exposes the port, by the hand of its owner, or is no concern of it.
    by_cases carries : ∃ cap ∈ message.caps, cap.asPort = some port
    · obtain ⟨cap, member, isPort⟩ := carries
      refine .inl ⟨.inr ⟨caller, target, message, List.mem_append_right _ List.mem_cons_self,
        cap, member, isPort⟩, confined.inHand cap ?_ isPort⟩
      exact Multiset.mem_cons_of_mem (Multiset.mem_add.mpr (.inl member))
    · have fewer := confined.forget ((Multiset.le_add_left held message.caps).trans
        (Multiset.le_cons_self _ _))
      refine .inr { fewer with
        queues := fun other queued member cap carried isPort => ?_
        touched := fewer.touched_append (confined.touches_owned rfl) }
      rw [State.queues_push] at member
      split at member
      · rcases List.mem_append.mp member with older | newest
        · exact confined.queues target queued older cap carried isPort
        · rw [List.mem_singleton.mp newest] at carried
          exact carries ⟨cap, carried, isPort⟩
      · exact confined.queues other queued member cap carried isPort
  refuse watched := watched.record rfl rfl nofun fun _ _ confined =>
    .inr { confined with touched := confined.touched_append (confined.touches_owned rfl) }
  popEmpty := by
    intro state caller held target watched queue
    refine watched.record rfl rfl nofun fun owns port confined => .inr
      { confined with
        queues := fun other message member => ?_
        touched := confined.touched_append (confined.touches_owned rfl) }
    rw [State.queues_pop, queue] at member
    split at member
    · cases member
    · exact confined.queues other message member
  pop := by
    intro state caller held target message rest watched queue
    refine watched.record rfl rfl nofun fun owns port confined => .inr
      { confined with
        queues := fun other queued member => ?_
        touched := confined.touched_append (confined.touches_owned rfl)
        inHand := fun cap member isPort => ?_ }
    · rw [State.queues_pop, queue] at member
      split at member
      · exact confined.queues target queued (queue ▸ List.mem_cons_of_mem message member)
      · exact confined.queues other queued member
    · rcases Multiset.mem_add.mp member with carried | older
      · exact absurd isPort
          (confined.queues target message (queue ▸ List.mem_cons_self) cap carried)
      · exact confined.inHand cap (Multiset.mem_cons_of_mem older) isPort
  park watched := watched.silent rfl rfl fun _ _ confined =>
    (confined.forget (Multiset.le_cons_self _ _)).setReceiving fun isPort =>
      confined.inHand _ (Multiset.mem_cons_self _ _) isPort
  unpark watched := watched.silent rfl rfl fun _ _ confined => confined.setReceiving nofun
  resume watched parked := watched.silent rfl rfl fun _ _ confined =>
    confined.take _ fun isPort => confined.receiving _ (parked.trans isPort)
  publish := by
    intro state caller held name target watched
    refine watched.record rfl rfl nofun fun owns port confined => ?_
    by_cases same : target = port
    · subst same
      exact .inl ⟨.inl ⟨caller, List.mem_append_right _ List.mem_cons_self⟩,
        confined.inHand _ (Multiset.mem_cons_self _ _) rfl⟩
    · have fewer := confined.forget (Multiset.le_cons_self held (portRef target))
      refine .inr { fewer with
        registry := fun other found => ?_
        touched := fewer.touched_append nofun }
      rw [State.lookup_publish] at found
      split at found
      · exact same (Option.some.inj found)
      · exact confined.registry other found
  lookup watched found := watched.silent rfl rfl fun _ _ confined =>
    confined.take _ fun isPort => absurd (found.trans isPort) (confined.registry _)
  spawn := by
    intro state child space machine watched fresh
    refine watched.silent rfl rfl fun owns port confined =>
      { confined with
        tables := fun task cap member isPort => ?_
        receiving := fun task parked => ?_ }
    · rw [State.tables_spawn] at member
      split at member
      · exact absurd member (Multiset.notMem_zero _)
      · exact confined.tables task cap member isPort
    · rw [State.receiving_spawn] at parked
      split at parked
      · cases parked
      · exact confined.receiving task parked
  closePort := by
    intro state target watched
    refine watched.silent rfl rfl fun owns port confined =>
      { confined with queues := fun other message member => ?_ }
    rw [State.queues_closePort] at member
    split at member
    · cases member
    · exact confined.queues other message member

theorem watched_boot (space : Option Mm.Frame) (machine : Mm.Machine) :
    Watched (State.boot space machine) 0 0 where
  unknown port _ :=
    { tables := by
        intro task cap member isPort
        simp only [State.boot, Function.update_apply] at member
        split at member
        · simp only [CapTable.caps, AList.singleton_entries, List.map_cons, List.map_nil,
            Multiset.mem_coe, List.mem_singleton] at member
          rw [member] at isPort
          cases isPort
        · exact absurd member (Multiset.notMem_zero _)
      queues := nofun
      registry := nofun
      receiving := nofun
      touched := nofun
      inHand := fun _ member => absurd member (Multiset.notMem_zero _) }
  creator := nofun
  created := nofun
  unique := nofun
  guarded := nofun

/-! ## The audit only grows -/

theorem capInvariant_audit (past : List Audit) :
    CapInvariant (fun state => past <+: state.audit) (fun state _ _ => past <+: state.audit) where
  enter older _ := older
  leave := id
  setMachine := id
  remove older _ := older
  install older _ := older
  resolve older _ _ := older
  create older := older.trans (List.prefix_append _ _)
  mint older _ := older
  push older := older.trans (List.prefix_append _ _)
  refuse older := older.trans (List.prefix_append _ _)
  popEmpty older _ := older.trans (List.prefix_append _ _)
  pop older _ := older.trans (List.prefix_append _ _)
  park := id
  unpark := id
  resume older _ := older
  publish older := older.trans (List.prefix_append _ _)
  lookup older _ := older
  spawn older _ := older
  closePort := id

/-- If a run never publishes a port and never accepts a message with a capability to it,
then in every state of the run only its creator has capabilities to it, and only its
creator has ever pushed to or popped from its queue. -/
theorem no_ambient_authority (space : Option Mm.Frame) (machine : Mm.Machine)
    (before after : List Event) (state final : State) (owner : TaskId) (port : PortId)
    (past : Trace Step (State.boot space machine) before state)
    (future : Trace Step state after final)
    (created : .created owner port ∈ final.audit)
    (unpublished : ∀ task, .published task port ∉ final.audit)
    (unsent : ∀ task target message, .pushed task target message ∈ final.audit →
      ∀ cap ∈ message.caps, cap.asPort ≠ some port) :
    (∀ task, ∀ cap ∈ (state.tables task).caps, cap.asPort = some port →
      task = owner ∧ cap.rights.Within .all) ∧
    ∀ entry ∈ state.audit, ∀ task, entry.touches = some (task, port) → task = owner := by
  have watched := capInvariant_watched.run past (watched_boot space machine)
  have watchedFinal := capInvariant_watched.run future watched
  have recorded := ((capInvariant_audit state.audit).run future (List.prefix_refl _)).subset
  have unexposed : ¬ Exposed state.audit port := by
    rintro (⟨task, published⟩ | ⟨task, target, message, pushed, cap, member, isPort⟩)
    · exact unpublished task (recorded published)
    · exact unsent task target message (recorded pushed) cap member isPort
  have confined : Confined (· = owner) port state 0 0 := by
    by_cases isKnown : port < state.ports
    · obtain ⟨creator, isCreator⟩ := watched.creator port isKnown
      obtain rfl := watchedFinal.unique creator owner port (recorded isCreator) created
      exact (watched.guarded creator port isCreator).resolve_left unexposed
    · -- Before its creation nobody refers to the port at all.
      have nobody := watched.unknown port (Nat.le_of_not_lt isKnown)
      exact
        { nobody with
          tables := fun task cap member isPort => (nobody.tables task cap member isPort).elim
          receiving := fun task parked => (nobody.receiving task parked).elim
          touched := fun entry member task touches =>
            (nobody.touched entry member task touches).elim
          inHand := fun _ member => absurd member (Multiset.notMem_zero _) }
  exact ⟨fun task cap member isPort =>
    ⟨confined.tables task cap member isPort, cap.rights.within_all⟩, confined.touched⟩

def privateSend : List Event :=
  [.call 2 .portCreate, .call 2 (.send 2 0x1000 ⟨Vector.replicate 6 0, 0, [], 0, 0⟩)]

def privateReceive : List Event :=
  [.call 2 (.recv 2 0x1000 ⟨Vector.replicate 6 0, 0, 0, 0, 0, 0⟩)]

theorem no_ambient_authority_private_port :
    ∃ state final,
      Trace Step (State.boot none ⟨fun _ _ => .unused, ∅, fun _ _ => none, 0⟩)
        privateSend state ∧
      Trace Step state privateReceive final ∧
      (state.queues 0).length = 1 ∧ final.queues 0 = [] ∧
      ∀ task, ∀ cap ∈ (state.tables task).caps, cap.asPort = some 0 → task = 2 := by
  let perform (call : Call) (state : State) : State :=
    (call.perform 2 state).final.getD state
  let state := perform (.send 2 0x1000 ⟨Vector.replicate 6 0, 0, [], 0, 0⟩)
    (perform .portCreate (State.boot none ⟨fun _ _ => .unused, ∅, fun _ _ => none, 0⟩))
  let final := perform (.recv 2 0x1000 ⟨Vector.replicate 6 0, 0, 0, 0, 0, 0⟩) state
  have past : Trace Step (State.boot none ⟨fun _ _ => .unused, ∅, fun _ _ => none, 0⟩)
      privateSend state :=
    .cons (.call (by decide) rfl rfl) (.cons (.call (by decide) rfl rfl) (.nil _))
  have future : Trace Step state privateReceive final :=
    .cons (.call (by decide) rfl rfl) (.nil _)
  have audit : final.audit = [.created 2 0,
      .pushed 2 0 ⟨Vector.replicate 6 0, [], [], 0⟩, .popped 2 0] := rfl
  refine ⟨state, final, past, future, rfl, rfl, fun task cap member isPort => ?_⟩
  refine ((no_ambient_authority _ _ _ _ state final 2 0 past future ?_ ?_ ?_).1 task cap member
    isPort).1
  · simp [audit]
  · simp [audit]
  · intro task target message pushed cap carried
    simp only [audit, List.mem_cons, List.not_mem_nil, or_false, reduceCtorEq, false_or,
      Audit.pushed.injEq] at pushed
    simp [pushed] at carried

end PersonaOS.Ipc
