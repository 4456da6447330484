import Mathlib.Logic.Function.Iterate

/-! # Rings with a phase

A producer fills the slots of a ring in order and stamps every entry with its phase,
which it flips each time it comes back to the first slot. A consumer that keeps a
position and a phase of its own in the same way can tell a new entry from an old one by
the stamp alone: the slots the producer filled since it was last at the first slot carry
its phase, all others the opposite one. -/

namespace PersonaOS.PhaseRing

/-- Where a party is in the ring, and the phase of its lap. -/
structure Cursor (φ : Type u) where
  index : Nat
  phase : φ

variable {φ : Type u} {α : Type v} (flip : φ → φ) (depth : Nat)

theorem next_index {index depth : Nat} (inside : index < depth) :
    (index + 1) % depth = if index + 1 = depth then 0 else index + 1 := by
  split
  · next last => rw [last, Nat.mod_self]
  · next notLast => exact Nat.mod_eq_of_lt (by omega)

def Cursor.advance (cursor : Cursor φ) : Cursor φ where
  index := (cursor.index + 1) % depth
  phase := if (cursor.index + 1) % depth = 0 then flip cursor.phase else cursor.phase

/-- The cursor after `count` entries. -/
def Cursor.after (first : φ) (count : Nat) : Cursor φ where
  index := count % depth
  phase := flip^[count / depth] first

theorem Cursor.advance_after (first : φ) (count : Nat) :
    (Cursor.after flip depth first count).advance flip depth =
      .after flip depth first (count + 1) := by
  unfold advance after
  simp only [Nat.mod_add_mod, Cursor.mk.injEq, true_and]
  split
  · next wraps =>
    rw [Nat.succ_div_of_mod_eq_zero wraps, Function.iterate_succ_apply']
  · next inLap =>
    rw [Nat.succ_div_of_mod_ne_zero inLap]

variable {flip depth} {slots : Nat → α} {stamp : α → φ} {cursor : Cursor φ}

variable (flip depth slots stamp cursor) in
/-- The slots filled in this lap carry the phase of the producer's cursor, the others the
opposite one. -/
def Stamped : Prop :=
  ∀ i < depth, stamp (slots i) = if i < cursor.index then cursor.phase else flip cursor.phase

theorem Stamped.fill (stamped : Stamped flip depth slots stamp cursor)
    (involutive : ∀ phase, flip (flip phase) = phase) (inside : cursor.index < depth)
    {entry : α} (isStamped : stamp entry = cursor.phase) :
    Stamped flip depth (Function.update slots cursor.index entry) stamp
      (cursor.advance flip depth) := by
  intro i small
  have filled : stamp (Function.update slots cursor.index entry i) =
      if i ≤ cursor.index then cursor.phase else flip cursor.phase := by
    by_cases here : i = cursor.index
    · rw [here, Function.update_self, if_pos (Nat.le_refl _), isStamped]
    · rw [Function.update_of_ne here, stamped i small]
      exact if_congr ⟨Nat.le_of_lt, fun le => Nat.lt_of_le_of_ne le here⟩ rfl rfl
  rw [filled, Cursor.advance]
  simp only [next_index inside]
  by_cases last : cursor.index + 1 = depth
  · -- The lap is complete: all slots carry the phase that has just become the old one.
    simp only [if_pos last, if_true, Nat.not_lt_zero, if_false, involutive]
    exact if_pos (by omega)
  · simp only [if_neg last, Nat.succ_ne_zero, if_false, Nat.lt_succ_iff]

theorem Stamped.stale (stamped : Stamped flip depth slots stamp cursor)
    (inside : cursor.index < depth) : stamp (slots cursor.index) = flip cursor.phase := by
  rw [stamped _ inside, if_neg (Nat.lt_irrefl _)]

theorem Stamped.fresh
    (stamped : Stamped flip depth slots stamp (cursor.advance flip depth))
    (involutive : ∀ phase, flip (flip phase) = phase) (inside : cursor.index < depth) :
    stamp (slots cursor.index) = cursor.phase := by
  rw [stamped _ inside, Cursor.advance]
  simp only [next_index inside]
  by_cases last : cursor.index + 1 = depth
  · simp only [if_pos last, if_true, Nat.not_lt_zero, if_false, involutive]
  · simp only [if_neg last, Nat.succ_ne_zero, if_false, Nat.lt_succ_self, if_true]

end PersonaOS.PhaseRing
