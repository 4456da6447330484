import PersonaOS.Foundation.HandleTable
import PersonaOS.Kernel.Opening

/-! # Capability ids and file descriptors

The two tables of a task number their entries from a counter that only goes up. -/

namespace PersonaOS

open Fs

/-- `FdTable::new` -/
def FdTable.new : FdTable := ⟨fun _ => none, 0⟩

/-- `FdTable::install_at`. It is called for 0, 1 and 2 only, so that `fd + 1` fits. -/
def FdTable.installAt (fds : FdTable) (fd : Fin 3) (file : OpenFile Handle) : FdTable where
  slots := Function.update fds.slots fd.val (some file)
  next := if fds.next ≤ fd.val then fd.val + 1 else fds.next

/-- The table of a new task, with the files it is given. `spawn_user` gives it one for input at 0
and one for output at 1 and 2. -/
def FdTable.created (files : List (Fin 3 × OpenFile Handle)) : FdTable :=
  files.foldl (fun fds file => fds.installAt file.1 file.2) .new

def capHandles : HandleTable Ipc.CapTable Ipc.Cap where
  next := Ipc.CapTable.next
  get := Ipc.CapTable.get
  install := Ipc.CapTable.install
  remove table id := (table.remove id).2
  install_spec := by
    intro table after cap id installed
    rw [Ipc.CapTable.install] at installed
    split at installed
    · cases installed
      refine ⟨rfl, rfl, ?_⟩
      funext other
      by_cases same : other = table.next
      · rw [same, Function.update_self]
        exact AList.lookup_insert _
      · rw [Function.update_of_ne same]
        exact AList.lookup_insert_ne same
    · cases installed
  remove_spec := by
    intro table id
    refine ⟨rfl, ?_⟩
    funext other
    by_cases same : other = id
    · rw [same, Function.update_self]
      exact AList.lookup_erase _ _
    · rw [Function.update_of_ne same]
      exact AList.lookup_erase_ne same

def fdHandles : HandleTable FdTable (OpenFile Handle) where
  next := FdTable.next
  get := FdTable.slots
  install := FdTable.install
  remove fds fd := (fds.close fd).2
  install_spec := by
    intro fds after file fd installed
    rw [FdTable.install] at installed
    split at installed
    · cases installed
      exact ⟨rfl, rfl, rfl⟩
    · cases installed
  remove_spec fds fd := ⟨rfl, rfl⟩

theorem numbered_capTable_new : capHandles.Numbered .new where
  next_nonneg := by decide
  lt_next id isUsed := absurd rfl isUsed

theorem numbered_installAt {fds : FdTable} (numbered : fdHandles.Numbered fds) (fd : Fin 3)
    (file : OpenFile Handle) : fdHandles.Numbered (fds.installAt fd file) := by
  have isPositive : 0 ≤ fds.next := numbered.next_nonneg
  have isNext : fdHandles.next (fds.installAt fd file) =
    if fds.next ≤ fd.val then (fd.val : Int) + 1 else fds.next := rfl
  constructor
  · rw [isNext]
    split <;> omega
  · intro id isUsed
    rw [isNext]
    by_cases same : id = fd.val
    · split <;> omega
    · have wasUsed : fds.slots id ≠ none := by
        intro wasFree
        exact isUsed ((Function.update_of_ne same _ _).trans wasFree)
      have isOld : id < fds.next := numbered.lt_next id wasUsed
      split <;> omega

theorem numbered_created (files : List (Fin 3 × OpenFile Handle)) :
    fdHandles.Numbered (.created files) := by
  have step (fds : FdTable) (numbered : fdHandles.Numbered fds) :
      fdHandles.Numbered (files.foldl (fun fds file => fds.installAt file.1 file.2) fds) := by
    induction files generalizing fds with
    | nil => exact numbered
    | cons file files induction => exact induction _ (numbered_installAt numbered file.1 file.2)
  exact step .new ⟨Int.le_refl 0, fun id isUsed => absurd rfl isUsed⟩

/-- Neither the ids of capabilities nor those of files are ever recycled. -/
theorem handles_neverRecycle :
    capHandles.NeverRecycles .new ∧
      ∀ files : List (Fin 3 × OpenFile Handle), fdHandles.NeverRecycles (.created files) :=
  ⟨numbered_capTable_new.neverRecycles, fun files => (numbered_created files).neverRecycles⟩

end PersonaOS
