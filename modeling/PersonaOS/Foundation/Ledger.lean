import PersonaOS.Foundation.Exclusive

/-! # Ledgers

An allocator marks the things it has handed out as taken, and slots refer to them. The books are
in order if every reference is to a valid thing that is marked as taken, no two slots refer to
the same thing, and nothing is marked that nobody refers to. -/

namespace PersonaOS

/-- References `refers` to things that an allocator has marked as `taken`. -/
structure Ledger {ι : Type u} {α : Type v} (valid taken : α → Prop) (refers : ι → α → Prop) :
    Prop where
  complete : ∀ {thing}, taken thing → ∃ slot, refers slot thing
  valid : ∀ {slot thing}, refers slot thing → valid thing
  taken : ∀ {slot thing}, refers slot thing → taken thing
  exclusive : Exclusive refers

namespace Ledger

variable {ι : Type u} {α : Type v} {valid taken taken' : α → Prop} {refers refers' : ι → α → Prop}
  (ledger : Ledger valid taken refers)

include ledger

theorem congr (sameTaken : ∀ thing, taken' thing ↔ taken thing)
    (sameRefers : ∀ slot thing, refers' slot thing ↔ refers slot thing) :
    Ledger valid taken' refers' where
  valid refer := ledger.valid ((sameRefers _ _).mp refer)
  taken refer := (sameTaken _).mpr (ledger.taken ((sameRefers _ _).mp refer))
  exclusive := ledger.exclusive.mono fun _ _ refer => (sameRefers _ _).mp refer
  complete isTaken := by
    rcases ledger.complete ((sameTaken _).mp isTaken) with ⟨slot, refer⟩
    exact ⟨slot, (sameRefers _ _).mpr refer⟩

theorem extend (fresh : ι → α → Prop) (freshValid : ∀ {slot thing}, fresh slot thing → valid thing)
    (free : ∀ {slot thing}, fresh slot thing → ¬ taken thing) (once : Exclusive fresh)
    (isTaken : ∀ thing, taken' thing ↔ taken thing ∨ ∃ slot, fresh slot thing)
    (isRefers : ∀ slot thing, refers' slot thing ↔ refers slot thing ∨ fresh slot thing) :
    Ledger valid taken' refers' where
  valid refer := by
    rcases (isRefers _ _).mp refer with isOld | isNew
    · exact ledger.valid isOld
    · exact freshValid isNew
  taken refer := by
    rcases (isRefers _ _).mp refer with isOld | isNew
    · exact (isTaken _).mpr (.inl (ledger.taken isOld))
    · exact (isTaken _).mpr (.inr ⟨_, isNew⟩)
  exclusive := by
    intro slot other thing here there
    rcases (isRefers _ _).mp here with isOld | isNew
    · rcases (isRefers _ _).mp there with otherOld | otherNew
      · exact ledger.exclusive slot other thing isOld otherOld
      · exact absurd (ledger.taken isOld) (free otherNew)
    · rcases (isRefers _ _).mp there with otherOld | otherNew
      · exact absurd (ledger.taken otherOld) (free isNew)
      · exact once slot other thing isNew otherNew
  complete marked := by
    rcases (isTaken _).mp marked with wasTaken | ⟨slot, isNew⟩
    · rcases ledger.complete wasTaken with ⟨slot, refer⟩
      exact ⟨slot, (isRefers _ _).mpr (.inl refer)⟩
    · exact ⟨slot, (isRefers _ _).mpr (.inr isNew)⟩

theorem release (emptied : ι → Prop)
    (isTaken : ∀ thing, taken' thing ↔
      taken thing ∧ ∀ slot, emptied slot → ¬ refers slot thing)
    (isRefers : ∀ slot thing, refers' slot thing ↔ refers slot thing ∧ ¬ emptied slot) :
    Ledger valid taken' refers' where
  valid refer := ledger.valid ((isRefers _ _).mp refer).1
  taken refer := by
    have isOld := (isRefers _ _).mp refer
    refine (isTaken _).mpr ⟨ledger.taken isOld.1, ?_⟩
    intro slot isEmptied sameThing
    exact isOld.2 (ledger.exclusive _ _ _ sameThing isOld.1 ▸ isEmptied)
  exclusive := ledger.exclusive.mono fun _ _ refer => ((isRefers _ _).mp refer).1
  complete marked := by
    have isOld := (isTaken _).mp marked
    rcases ledger.complete isOld.1 with ⟨slot, refer⟩
    exact ⟨slot, (isRefers _ _).mpr ⟨refer, fun isEmptied => isOld.2 slot isEmptied refer⟩⟩

end Ledger

end PersonaOS
