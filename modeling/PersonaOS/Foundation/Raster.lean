import PersonaOS.Foundation.Blocks

/-! # Cells in rows

Memory holds rows of `pitch` bytes, and each row begins with cells of the same size. Writing
cells leaves all other bytes as they are, the padding at the end of the rows included. -/

namespace PersonaOS.Raster

def cell (pitch size column row : Nat) : Nat := row * pitch + column * size

/-- The cells for which `inside` holds have the given bytes, and nothing else has changed. -/
structure Painted (pitch : Nat) (bytes : List UInt8) (inside : Nat → Nat → Prop)
    (before after : Nat → UInt8) : Prop where
  painted : ∀ position, inside (position % pitch / bytes.length) (position / pitch) →
    some (after position) = bytes[position % pitch % bytes.length]?
  kept : ∀ position, ¬ inside (position % pitch / bytes.length) (position / pitch) →
    after position = before position

section Painting

variable {pitch : Nat} {bytes : List UInt8} {inside more : Nat → Nat → Prop}
  {before middle after : Nat → UInt8}

theorem cell_eq {size column row position : Nat} (fits : column * size + size ≤ pitch)
    (behind : cell pitch size column row ≤ position)
    (within : position < cell pitch size column row + size) :
    position / pitch = row ∧ position % pitch / size = column ∧
      position % pitch % size = position - cell pitch size column row := by
  rw [cell] at behind within
  have split : position = pitch * row + (position - row * pitch) := by
    rw [Nat.mul_comm pitch row]
    omega
  have small : position - row * pitch < pitch := by omega
  have isRow : position / pitch = row := by
    rw [split, Nat.mul_add_div (by omega), Nat.div_eq_of_lt small, Nat.add_zero]
  have isRest : position % pitch = position - row * pitch := by
    rw [split, Nat.mul_add_mod, Nat.mod_eq_of_lt small, ← split]
  have splitRest : position - row * pitch =
      size * column + (position - cell pitch size column row) := by
    rw [cell, Nat.mul_comm size column]
    omega
  have smallRest : position - cell pitch size column row < size := by
    rw [cell]
    omega
  refine ⟨isRow, ?_, ?_⟩
  · rw [isRest, splitRest, Nat.mul_add_div (by omega), Nat.div_eq_of_lt smallRest, Nat.add_zero]
  · rw [isRest, splitRest, Nat.mul_add_mod, Nat.mod_eq_of_lt smallRest]

theorem Painted.nothing (isEmpty : ∀ column row, ¬ inside column row) (memory : Nat → UInt8) :
    Painted pitch bytes inside memory memory :=
  ⟨fun _ isIn => absurd isIn (isEmpty _ _), fun _ _ => rfl⟩

theorem Painted.trans (first : Painted pitch bytes inside before middle)
    (second : Painted pitch bytes more middle after) :
    Painted pitch bytes (fun column row => inside column row ∨ more column row) before after where
  painted position isIn := by
    by_cases isLater : more (position % pitch / bytes.length) (position / pitch)
    · exact second.painted position isLater
    · rw [second.kept position isLater]
      exact first.painted position (isIn.resolve_right isLater)
  kept position isOut := by
    rw [second.kept position fun isLater => isOut (.inr isLater)]
    exact first.kept position fun isEarlier => isOut (.inl isEarlier)

theorem Painted.congr (painted : Painted pitch bytes inside before after)
    (same : ∀ column row, inside column row ↔ more column row) :
    Painted pitch bytes more before after :=
  ⟨fun position isIn => painted.painted position ((same _ _).mpr isIn),
    fun position isOut => painted.kept position fun isIn => isOut ((same _ _).mp isIn)⟩

theorem painted_patch {column row : Nat} (hasSize : 0 < bytes.length)
    (fits : column * bytes.length + bytes.length ≤ pitch) (memory : Nat → UInt8) :
    Painted pitch bytes (fun column' row' => column' = column ∧ row' = row) memory
      (patch memory (cell pitch bytes.length column row) bytes) where
  painted position isIn := by
    rcases isIn with ⟨isColumn, isRow⟩
    have inRow := Nat.div_add_mod position pitch
    have inCell := Nat.div_add_mod (position % pitch) bytes.length
    have offset := Nat.mod_lt (position % pitch) hasSize
    rw [isRow, Nat.mul_comm] at inRow
    rw [isColumn, Nat.mul_comm] at inCell
    have isStart : position - cell pitch bytes.length column row =
        position % pitch % bytes.length := by
      rw [cell]
      omega
    have behind : cell pitch bytes.length column row ≤ position := by
      rw [cell]
      omega
    rw [patch, if_pos behind, isStart, List.getD_eq_getElem?_getD,
      List.getElem?_eq_getElem offset, Option.getD_some]
  kept position isOut := by
    rw [patch]
    split
    · next behind =>
      by_cases within : position < cell pitch bytes.length column row + bytes.length
      · rcases cell_eq fits behind within with ⟨isRow, isColumn, _⟩
        exact absurd ⟨isColumn, isRow⟩ isOut
      · rw [List.getD_eq_getElem?_getD, List.getElem?_eq_none (by omega), Option.getD_none]
    · rfl

theorem Painted.window_inside (painted : Painted pitch bytes inside before after)
    {column row : Nat} (fits : column * bytes.length + bytes.length ≤ pitch)
    (isIn : inside column row) :
    window after (cell pitch bytes.length column row) bytes.length = bytes := by
  apply List.ext_getElem?
  intro index
  rw [getElem?_window]
  split
  · next small =>
    have behind : cell pitch bytes.length column row ≤
        cell pitch bytes.length column row + index := Nat.le_add_right _ index
    rcases cell_eq fits behind (Nat.add_lt_add_left small _) with ⟨isRow, isColumn, isIndex⟩
    rw [painted.painted _ (by rw [isColumn, isRow]; exact isIn), isIndex, Nat.add_sub_cancel_left]
  · next large => rw [List.getElem?_eq_none (Nat.le_of_not_lt large)]

theorem Painted.window_outside (painted : Painted pitch bytes inside before after)
    {column row : Nat} (fits : column * bytes.length + bytes.length ≤ pitch)
    (isOut : ¬ inside column row) :
    window after (cell pitch bytes.length column row) bytes.length =
      window before (cell pitch bytes.length column row) bytes.length := by
  apply window_congr
  intro position behind within
  rcases cell_eq fits behind within with ⟨isRow, isColumn, _⟩
  apply painted.kept position
  rw [isColumn, isRow]
  exact isOut

end Painting

end PersonaOS.Raster
