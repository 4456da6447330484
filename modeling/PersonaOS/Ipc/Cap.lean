import Mathlib.Algebra.Ring.Int.Defs
import Mathlib.Algebra.Ring.Nat
import Mathlib.Data.List.AList
import Mathlib.Data.Multiset.Basic
import Mathlib.Data.Multiset.AddSub

/-! # Capabilities and capability tables

A capability pairs an object with a set of rights. A task names its capabilities by the
integer slots of its own table; the kernel hands out slot numbers in increasing order
and never reuses one. -/

namespace PersonaOS.Ipc

/-- Ports are numbered in the order of their creation. -/
abbrev PortId := Nat

/-- A slot of a capability table, an `i32`. -/
abbrev CapId := Int

structure Rights where
  send : Bool
  recv : Bool
  dup : Bool
  deriving DecidableEq, Repr

namespace Rights

def empty : Rights := ⟨false, false, false⟩

/-- `SEND | RECV | DUP` -/
def all : Rights := ⟨true, true, true⟩

/-- `SEND` -/
def sendOnly : Rights := ⟨true, false, false⟩

/-- `Rights::from_bits_truncate` -/
def fromBitsTruncate (mask : Nat) : Rights :=
  ⟨mask.testBit 0, mask.testBit 1, mask.testBit 2⟩

/-- `left & right` -/
def inter (left right : Rights) : Rights :=
  ⟨left.send && right.send, left.recv && right.recv, left.dup && right.dup⟩

/-- `rights - RECV` -/
def withoutRecv (rights : Rights) : Rights := { rights with recv := false }

def Within (small large : Rights) : Prop :=
  (small.send = true → large.send = true) ∧ (small.recv = true → large.recv = true) ∧
    (small.dup = true → large.dup = true)

theorem within_all (rights : Rights) : rights.Within all :=
  ⟨fun _ => rfl, fun _ => rfl, fun _ => rfl⟩

end Rights

inductive CapObject where
  | port (port : PortId)
  | vm
  | registrar
  deriving DecidableEq, Repr

structure Cap where
  object : CapObject
  rights : Rights
  deriving DecidableEq, Repr

namespace Cap

def port (port : PortId) (rights : Rights) : Cap := ⟨.port port, rights⟩

def registrar : Cap := ⟨.registrar, .empty⟩

def asPort (cap : Cap) : Option PortId :=
  match cap.object with
  | .port port => some port
  | _ => none

def isRegistrar (cap : Cap) : Bool :=
  match cap.object with
  | .registrar => true
  | _ => false

@[simp] theorem asPort_port (port : PortId) (rights : Rights) :
    (Cap.port port rights).asPort = some port := rfl

@[simp] theorem isRegistrar_port (port : PortId) (rights : Rights) :
    (Cap.port port rights).isRegistrar = false := rfl

@[simp] theorem asPort_registrar : registrar.asPort = none := rfl

end Cap

/-! ## Tables -/

structure CapTable where
  slots : AList fun _ : CapId => Cap
  next : CapId

namespace CapTable

def new : CapTable := ⟨∅, 1⟩

/-- Put a capability into the next slot. The slot counter is an `i32`, and stepping it
past the largest one panics. -/
def install (table : CapTable) (cap : Cap) : Option (CapId × CapTable) :=
  if table.next < 2 ^ 31 - 1 then
    some (table.next, ⟨table.slots.insert table.next cap, table.next + 1⟩)
  else
    none

def get (table : CapTable) (id : CapId) : Option Cap := table.slots.lookup id

def remove (table : CapTable) (id : CapId) : Option Cap × CapTable :=
  (table.slots.lookup id, { table with slots := table.slots.erase id })

/-- The scan of `sys_name` over the slots from `id` on: it ends at a registrar
capability, or at an empty slot past 32. -/
def scanRegistrar (table : CapTable) : (fuel : Nat) → CapId → Bool
  | 0, _ => false
  | fuel + 1, id =>
    match table.get id with
    | some cap => if cap.isRegistrar then true else table.scanRegistrar fuel (id + 1)
    | none => if id > 32 then false else table.scanRegistrar fuel (id + 1)

/-- The scan over `1..i32::MAX`. -/
def hasRegistrar (table : CapTable) : Bool := table.scanRegistrar (2 ^ 31 - 2) 1

def caps (table : CapTable) : Multiset Cap := (table.slots.entries.map Sigma.snd : List Cap)

@[simp] theorem caps_new : new.caps = 0 := rfl

theorem mem_caps_of_get {table : CapTable} {id : CapId} {cap : Cap}
    (held : table.get id = some cap) : cap ∈ table.caps := by
  have entry : (⟨id, cap⟩ : Sigma fun _ : CapId => Cap) ∈ table.slots.entries :=
    AList.mem_lookup_iff.mp held
  exact Multiset.mem_coe.mpr (List.mem_map.mpr ⟨_, entry, rfl⟩)

theorem caps_install_le {table after : CapTable} {cap : Cap} {id : CapId}
    (installed : table.install cap = some (id, after)) : after.caps ≤ cap ::ₘ table.caps := by
  unfold install at installed
  split at installed
  · obtain ⟨rfl, rfl⟩ := Prod.mk.inj (Option.some.inj installed)
    have fewer := ((List.kerase_sublist table.next table.slots.entries).map Sigma.snd).subperm
    rw [caps, AList.entries_insert]
    exact Multiset.cons_le_cons cap (Multiset.coe_le.mpr fewer)
  · cases installed

theorem caps_remove {table after : CapTable} {cap : Cap} {id : CapId}
    (removed : table.remove id = (some cap, after)) : table.caps = cap ::ₘ after.caps := by
  obtain ⟨found, rfl⟩ := Prod.mk.inj removed
  have isKey : id ∈ table.slots.keys :=
    AList.mem_keys.mp (AList.lookup_isSome.mp (by rw [found]; rfl))
  obtain ⟨other, before, rest, -, whole, erased⟩ := List.exists_of_kerase isKey
  have entry : (⟨id, cap⟩ : Sigma fun _ : CapId => Cap) ∈ table.slots.entries :=
    AList.mem_lookup_iff.mp found
  have otherEntry : (⟨id, other⟩ : Sigma fun _ : CapId => Cap) ∈ table.slots.entries := by
    rw [whole]
    simp
  obtain rfl : cap = other :=
    Option.some.inj (found.symm.trans (AList.mem_lookup_iff.mpr otherEntry))
  have perm : (table.slots.entries.map Sigma.snd).Perm
      (cap :: (List.kerase id table.slots.entries).map Sigma.snd) := by
    rw [erased, whole, List.map_append, List.map_append, List.map_cons]
    exact List.perm_middle
  exact Multiset.coe_eq_coe.mpr perm

theorem remove_of_absent {table after : CapTable} {id : CapId}
    (removed : table.remove id = (none, after)) : after = table := by
  obtain ⟨absent, rfl⟩ := Prod.mk.inj removed
  have notKey : id ∉ table.slots.keys := mt AList.mem_keys.mpr (AList.lookup_eq_none.mp absent)
  have same : table.slots.erase id = table.slots :=
    AList.ext (List.kerase_of_notMem_keys notKey)
  rw [same]

end CapTable

end PersonaOS.Ipc
