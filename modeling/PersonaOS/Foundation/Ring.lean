import Mathlib.Algebra.Ring.Nat
import Mathlib.Logic.Function.Basic

/-! # Ring buffers

A queue of bounded length in a buffer that is used round and round. The newest element takes
the place of the oldest when the buffer is full. -/

namespace PersonaOS

structure Ring (α : Type u) (capacity : Nat) where
  buf : Fin capacity → α
  head : Nat
  len : Nat

namespace Ring

variable {α : Type u} {β : Type v} {capacity : Nat} [NeZero capacity]

/-- The slot of the buffer that is `index` places behind the head. -/
def slot (ring : Ring α capacity) (index : Nat) : Fin capacity :=
  Fin.ofNat capacity (ring.head + index)

def push (ring : Ring α capacity) (value : α) : Ring α capacity :=
  if ring.len = capacity then
    { ring with
      buf := Function.update ring.buf (ring.slot 0) value
      head := (ring.head + 1) % capacity }
  else
    { ring with
      buf := Function.update ring.buf (ring.slot ring.len) value
      len := ring.len + 1 }

def pop (ring : Ring α capacity) : Option α × Ring α capacity :=
  if ring.len = 0 then
    (none, ring)
  else
    (some (ring.buf (ring.slot 0)),
      { ring with head := (ring.head + 1) % capacity, len := ring.len - 1 })

def peek (ring : Ring α capacity) : Option α :=
  if ring.len = 0 then none else some (ring.buf (ring.slot 0))

def contents (ring : Ring α capacity) : List α :=
  (List.range ring.len).map fun index => ring.buf (ring.slot index)

@[simp] theorem length_contents (ring : Ring α capacity) : ring.contents.length = ring.len := by
  rw [contents, List.length_map, List.length_range]

theorem slot_ne (ring : Ring α capacity) {index other : Nat} (before : index < other)
    (small : other < capacity) : ring.slot index ≠ ring.slot other := by
  intro same
  have sameRest : (ring.head + index) % capacity = (ring.head + other) % capacity :=
    congrArg Fin.val same
  have apart := Nat.sub_mod_eq_zero_of_mod_eq sameRest.symm
  rw [Nat.add_sub_add_left, Nat.mod_eq_of_lt (by omega)] at apart
  omega

theorem contents_push {ring : Ring α capacity} (room : ring.len < capacity) (value : α) :
    (ring.push value).contents = ring.contents ++ [value] := by
  rw [push, if_neg (Nat.ne_of_lt room), contents, contents, List.range_succ, List.map_append,
    List.map_singleton]
  congr 1
  · apply List.map_congr_left
    intro index isIn
    exact Function.update_of_ne (ring.slot_ne (List.mem_range.mp isIn) room) _ _
  · exact congrArg (fun last => [last]) (Function.update_self _ _ _)

theorem contents_eq_cons {ring : Ring α capacity} (isNonempty : ring.len ≠ 0) :
    ring.contents = ring.buf (ring.slot 0) :: ring.pop.2.contents := by
  have isNext (index : Nat) : ring.pop.2.slot index = ring.slot (index + 1) := by
    apply Fin.ext
    rw [pop, if_neg isNonempty]
    change ((ring.head + 1) % capacity + index) % capacity = (ring.head + (index + 1)) % capacity
    rw [Nat.mod_add_mod, Nat.add_assoc, Nat.add_comm 1 index]
  have isShorter : ring.pop.2.len = ring.len - 1 := by
    rw [pop, if_neg isNonempty]
  have sameBuf : ring.pop.2.buf = ring.buf := by
    rw [pop, if_neg isNonempty]
  have isSucc : ring.len = (ring.len - 1) + 1 := by omega
  rw [contents, contents, isShorter, isSucc, List.range_succ_eq_map, List.map_cons, List.map_map]
  congr 1
  apply List.map_congr_left
  intro index _
  rw [Function.comp_apply, isNext, sameBuf]

theorem contents_push_full {ring : Ring α capacity} (isFull : ring.len = capacity) (value : α) :
    (ring.push value).contents = ring.contents.tail ++ [value] := by
  have isNonempty : ring.len ≠ 0 := by
    rw [isFull]
    exact NeZero.ne capacity
  -- the slot that is written is the one that `pop` sets free
  have sameSlot : ring.pop.2.slot ring.pop.2.len = ring.slot 0 := by
    apply Fin.ext
    rw [pop, if_neg isNonempty]
    change ((ring.head + 1) % capacity + (ring.len - 1)) % capacity = (ring.head + 0) % capacity
    have isTurn : ring.head + 1 + (ring.len - 1) = ring.head + capacity := by omega
    rw [Nat.mod_add_mod, isTurn, Nat.add_mod_right, Nat.add_zero]
  have isPushed : ring.push value = ring.pop.2.push value := by
    have hasRoom : ¬ ring.pop.2.len = capacity := by
      rw [pop, if_neg isNonempty]
      change ¬ ring.len - 1 = capacity
      omega
    rw [push, if_pos isFull, push, if_neg hasRoom, sameSlot, pop, if_neg isNonempty]
    simp only [Nat.sub_add_cancel (Nat.pos_of_ne_zero isNonempty)]
  have hasRoom : ring.pop.2.len < capacity := by
    rw [pop, if_neg isNonempty]
    change ring.len - 1 < capacity
    omega
  rw [isPushed, contents_push hasRoom, contents_eq_cons isNonempty, List.tail_cons]

theorem pop_of_empty {ring : Ring α capacity} (isEmpty : ring.contents = []) :
    ring.pop = (none, ring) := by
  have noLen : ring.len = 0 := by rw [← length_contents, isEmpty, List.length_nil]
  rw [pop, if_pos noLen]

theorem pop_of_cons {ring : Ring α capacity} {first : α} {rest : List α}
    (isCons : ring.contents = first :: rest) :
    ring.pop.1 = some first ∧ ring.pop.2.contents = rest := by
  have isNonempty : ring.len ≠ 0 := by
    rw [← length_contents, isCons, List.length_cons]
    omega
  rcases List.cons_eq_cons.mp ((contents_eq_cons isNonempty).symm.trans isCons) with
    ⟨isFirst, isRest⟩
  refine ⟨?_, isRest⟩
  rw [pop, if_neg isNonempty, isFirst]

theorem pop_contents (ring : Ring α capacity) :
    ring.pop.1 = ring.contents.head? ∧ ring.pop.2.contents = ring.contents.tail := by
  cases isHeld : ring.contents with
  | nil =>
    rw [pop_of_empty isHeld]
    exact ⟨rfl, isHeld⟩
  | cons first rest => exact pop_of_cons isHeld

theorem peek_eq_pop (ring : Ring α capacity) : ring.peek = ring.pop.1 := by
  rw [peek, pop]
  split <;> rfl

/-! ## Other elements in the same places -/

def map (convert : α → β) (ring : Ring α capacity) : Ring β capacity where
  buf index := convert (ring.buf index)
  head := ring.head
  len := ring.len

theorem map_push (convert : α → β) (ring : Ring α capacity) (value : α) :
    (ring.push value).map convert = (ring.map convert).push (convert value) := by
  have isUpdate (index : Fin capacity) :
      (fun other => convert (Function.update ring.buf index value other)) =
        Function.update (fun other => convert (ring.buf other)) index (convert value) := by
    funext other
    by_cases same : other = index
    · rw [same, Function.update_self, Function.update_self]
    · rw [Function.update_of_ne same, Function.update_of_ne same]
  rw [push, push]
  by_cases isFull : ring.len = capacity
  · rw [if_pos isFull, if_pos (show (ring.map convert).len = capacity from isFull)]
    simp only [map, isUpdate]
    rfl
  · rw [if_neg isFull, if_neg (show ¬ (ring.map convert).len = capacity from isFull)]
    simp only [map, isUpdate]
    rfl

theorem map_pop (convert : α → β) (ring : Ring α capacity) :
    (ring.map convert).pop = (ring.pop.1.map convert, ring.pop.2.map convert) := by
  rw [pop, pop]
  by_cases isEmpty : ring.len = 0
  · rw [if_pos isEmpty, if_pos (show (ring.map convert).len = 0 from isEmpty)]
    rfl
  · rw [if_neg isEmpty, if_neg (show ¬ (ring.map convert).len = 0 from isEmpty)]
    rfl

end Ring

end PersonaOS
