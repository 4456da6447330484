import PersonaOS.Mm.Isolation

/-! # What the memory manager never writes

The frames in the hands of the caller and the upper halves of the top-level tables are
written by no call at user-half addresses. Data that is copied into an address space
goes to the frames of its pages, which are neither. -/

namespace PersonaOS.Mm

open Program

structure Spares (roots : Set Frame) (hand : Multiset Frame) (before after : Memory) : Prop where
  hand : ∀ frame ∈ hand, after frame = before frame
  upper : ∀ root ∈ roots, ∀ index, 256 ≤ index → after root index = before root index

theorem Spares.refl (roots : Set Frame) (hand : Multiset Frame) (memory : Memory) :
    Spares roots hand memory memory :=
  ⟨fun _ _ => rfl, fun _ _ _ _ => rfl⟩

theorem Spares.trans {roots : Set Frame} {hand : Multiset Frame} {first second third : Memory}
    (left : Spares roots hand first second) (right : Spares roots hand second third) :
    Spares roots hand first third where
  hand frame held := (right.hand frame held).trans (left.hand frame held)
  upper root isRoot index high :=
    (right.upper root isRoot index high).trans (left.upper root isRoot index high)

/-- Frames stay with one owner, and what is spared is not written. -/
def Keeps {κ : Type} (roots : Set Frame) (others : Outside κ) (hand : Multiset Frame)
    (before after : Machine) : Prop :=
  Owned roots others after hand ∧ Spares roots hand before.memory after.memory

section Keeps

variable {κ : Type} {roots : Set Frame} {others : Outside κ} {hand : Multiset Frame}
  {machine first second : Machine}

theorem Keeps.refl (owned : Owned roots others machine hand) :
    Keeps roots others hand machine machine :=
  ⟨owned, .refl _ _ _⟩

theorem Keeps.andThen {ε α : Type} {outcome : Outcome Machine ε α} {panics : Prop}
    (kept : Keeps roots others hand first second)
    (meets : outcome.Meets (fun _ => Keeps roots others hand second)
      (fun _ => Keeps roots others hand second) panics) :
    outcome.Meets (fun _ => Keeps roots others hand first)
      (fun _ => Keeps roots others hand first) panics :=
  meets.mono (fun _ _ later => ⟨later.1, kept.2.trans later.2⟩)
    (fun _ _ later => ⟨later.1, kept.2.trans later.2⟩) id

end Keeps

section Owned

variable {κ : Type} {roots : Set Frame} {others : Outside κ} {machine after : Machine}
  {hand : Multiset Frame} {pml4 : Frame} {virt : Nat}
  (owned : Owned roots others machine hand)

include owned

theorem Owned.spares (accounts : Accounts roots machine after) :
    Spares roots hand machine.memory after.memory where
  hand frame held := by
    funext index
    by_contra changed
    rcases accounts.writes frame index changed with supplied | ⟨isTable, _⟩
    · exact nomatch owned.exclusive .hand .free frame held (owned.holds_of_supplies supplied)
    · exact nomatch owned.exclusive .hand .table frame held isTable
  upper root isRoot index high := by
    by_contra changed
    rcases accounts.writes root index changed with supplied | ⟨_, low⟩
    · exact owned.freeUnused root supplied (isTable_of_isRoot isRoot)
    · exact absurd (low isRoot) (Nat.not_lt.mpr high)

theorem Owned.writePage {page : Nat} {entry : PageTableEntry} (isRoot : pml4 ∈ roots)
    (atPage : pageMap machine.memory pml4 page = some entry) (entries : Nat → PageTableEntry) :
    Keeps roots others hand machine
      { machine with memory := Function.update machine.memory entry.frame entries } := by
  have isPage : Holds roots others machine hand (.page pml4 page) entry.frame :=
    ⟨isRoot, by rw [atPage]; rfl⟩
  have notTable : ¬ IsTable machine.memory roots entry.frame :=
    fun isTable => nomatch owned.exclusive _ .table _ isPage isTable
  refine ⟨owned.overwrite notTable, ?_, ?_⟩
  · intro frame held
    apply Function.update_of_ne
    rintro rfl
    exact nomatch owned.exclusive _ .hand _ isPage held
  · intro root rootIsRoot index _
    have different : root ≠ entry.frame := by
      rintro rfl
      exact notTable (isTable_of_isRoot rootIsRoot)
    exact congrFun (Function.update_of_ne different _ _) index

theorem Owned.mapAnon_keeps (isRoot : pml4 ∈ roots) (flags : MapFlags) (pages : Nat)
    (user : ∀ i < pages, virt + i * 4096 < 2 ^ 47) :
    (mapAnon pml4 virt pages flags machine).Meets
      (fun _ => Keeps roots others hand machine) (fun _ => Keeps roots others hand machine)
      True := by
  have inside : ∀ i < 0 + pages, virt + i * 4096 < 2 ^ 47 := by
    rw [Nat.zero_add]
    exact user
  have accounts := mapAnonLoop_accounts (discipline_freeUnused roots) owned.freeUnused owned.sound
    isRoot flags 0 pages inside
  apply (owned.mapAnonLoop isRoot flags 0 pages inside).and
  exact accounts.mono (fun _ _ => owned.spares) (fun _ _ => owned.spares) id

theorem Owned.writeUserLoop_keeps {len : Nat} (scribble : Scribble) (isRoot : pml4 ∈ roots)
    (user : virt + len ≤ 2 ^ 47) (fuel done : Nat) :
    (Mm.writeUserLoop pml4 virt len scribble fuel done machine).Meets
      (fun _ => Keeps roots others hand machine) (fun _ => Keeps roots others hand machine)
      True := by
  induction fuel generalizing machine done with
  | zero => exact .refl owned
  | succ fuel induction =>
    unfold Mm.writeUserLoop
    split
    · next inside =>
      split
      · rw [get_bind_apply]
        refine .okOr (fun _ => .refl owned) fun phys isPhys => ?_
        rw [physForVirt_eq (by omega)] at isPhys
        rcases Option.map_eq_some_iff.mp isPhys with ⟨entry, atPage, isSum⟩
        have isFrame : phys / 4096 = entry.frame := by omega
        rw [modify_bind_apply, isFrame]
        have written := owned.writePage isRoot atPage
          (scribble ((virt + done) / 4096) (machine.memory entry.frame))
        exact written.andThen (induction written.1 _)
      · exact trivial
    · exact Keeps.refl owned

end Owned

end PersonaOS.Mm
