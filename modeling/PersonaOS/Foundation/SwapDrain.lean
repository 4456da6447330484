import Mathlib.Data.List.Induction
import Mathlib.Data.List.Perm.Basic

/-! # Draining a vector with `swap_remove`

The idiom `while i < v.len() { if p(v[i]) { v.swap_remove(i) } else { i += 1 } }`
removes every selected element of a vector, in constant time each, by moving the
last element into the hole. The order of what stays is not kept; as multisets, what
stays and what is removed are exactly the unselected and the selected elements. -/

namespace PersonaOS

variable {α : Type u}

/-- `Vec::swap_remove`: the element at `index` is overwritten by the last element,
which is then dropped from the end. -/
def swapRemove (values : List α) (index : Nat) : List α :=
  match values.getLast? with
  | none => []
  | some last => (values.set index last).dropLast

theorem swapRemove_length {values : List α} {index : Nat} :
    (swapRemove values index).length = values.length - 1 := by
  unfold swapRemove
  cases values using List.reverseRecOn with
  | nil => simp
  | append_singleton before last => simp

theorem take_swapRemove {values : List α} {index : Nat} (inside : index < values.length) :
    (swapRemove values index).take index = values.take index := by
  unfold swapRemove
  cases values using List.reverseRecOn with
  | nil => simp at inside
  | append_singleton before last =>
    simp only [List.length_append, List.length_singleton] at inside
    simp only [List.getLast?_concat]
    rw [List.dropLast_eq_take, List.take_take, List.take_set_of_le (Nat.min_le_left _ _)]
    simp only [List.length_set, List.length_append, List.length_singleton,
      Nat.add_sub_cancel]
    rw [Nat.min_eq_left (by omega)]

theorem cons_swapRemove_perm {values : List α} {index : Nat} {value : α}
    (found : values[index]? = some value) :
    (value :: swapRemove values index).Perm values := by
  cases values using List.reverseRecOn with
  | nil => simp at found
  | append_singleton before last =>
    have shape : swapRemove (before ++ [last]) index =
        ((before ++ [last]).set index last).dropLast := by
      simp [swapRemove]
    rw [shape]
    by_cases inside : index < before.length
    · rw [List.getElem?_append_left inside] at found
      rw [List.set_append_left _ _ inside, List.dropLast_concat]
      have valueAt : before[index] = value := by
        simpa [List.getElem?_eq_getElem inside] using found
      have moved : (value :: before.set index last).Perm (last :: before) := by
        rw [List.set_eq_take_append_cons_drop, if_pos inside]
        have split : before = before.take index ++ value :: before.drop (index + 1) := by
          rw [← valueAt, List.getElem_cons_drop, List.take_append_drop]
        have toFront : (value :: (before.take index ++ last :: before.drop (index + 1))).Perm
            (last :: value :: (before.take index ++ before.drop (index + 1))) :=
          (List.perm_middle.cons value).trans (List.Perm.swap last value _)
        have rejoined : (value :: (before.take index ++ before.drop (index + 1))).Perm
            before := by
          conv => rhs; rw [split]
          exact List.perm_middle.symm
        exact toFront.trans (rejoined.cons last)
      exact moved.trans (List.perm_append_singleton last before).symm
    · have atLast : index = before.length := by
        have bound := (List.getElem?_eq_some_iff.mp found).1
        simp only [List.length_append, List.length_singleton] at bound
        omega
      subst atLast
      have valueIsLast : last = value := by simpa using found
      subst valueIsLast
      rw [List.set_append_right _ _ (Nat.le_refl _)]
      simpa using (List.perm_append_singleton last before).symm

/-- The drain loop, started at `index` with the elements removed so far. Each turn
either shortens the vector or advances the index, so the length of the vector is
fuel enough. -/
def swapDrainLoop (select : α → Bool) :
    Nat → Nat → List α → List α → List α × List α
  | 0, _, values, removed => (values, removed)
  | fuel + 1, index, values, removed =>
    match values[index]? with
    | none => (values, removed)
    | some value =>
      if select value then
        swapDrainLoop select fuel index (swapRemove values index) (removed ++ [value])
      else
        swapDrainLoop select fuel (index + 1) values removed

/-- What stays and what is removed, the latter in the order of removal. -/
def swapDrain (select : α → Bool) (values : List α) : List α × List α :=
  swapDrainLoop select values.length 0 values []

/-- The same loop without a bound on the number of turns. Each turn brings the index closer to
the end of the vector, so there is a last one. -/
def swapDrainWhile (select : α → Bool) (index : Nat) (values removed : List α) :
    List α × List α :=
  if _inside : index < values.length then
    if select values[index] then
      swapDrainWhile select index (swapRemove values index) (removed ++ [values[index]])
    else
      swapDrainWhile select (index + 1) values removed
  else
    (values, removed)
termination_by values.length - index
decreasing_by
  · rw [swapRemove_length]
    omega
  · omega

theorem swapDrainLoop_eq_while (select : α → Bool) (fuel index : Nat) (values removed : List α)
    (enough : values.length ≤ index + fuel) :
    swapDrainLoop select fuel index values removed =
      swapDrainWhile select index values removed := by
  induction fuel generalizing index values removed with
  | zero =>
    rw [swapDrainWhile, dif_neg (by omega)]
    rfl
  | succ fuel induction =>
    rw [swapDrainWhile]
    by_cases inside : index < values.length
    · rw [dif_pos inside, swapDrainLoop]
      simp only [List.getElem?_eq_getElem inside]
      split
      · apply induction
        rw [swapRemove_length]
        omega
      · exact induction _ _ _ (by omega)
    · rw [dif_neg inside, swapDrainLoop]
      simp only [List.getElem?_eq_none (Nat.le_of_not_lt inside)]

theorem swapDrain_eq_while (select : α → Bool) (values : List α) :
    swapDrain select values = swapDrainWhile select 0 values [] :=
  swapDrainLoop_eq_while select values.length 0 values [] (by omega)

private theorem filter_of_scanned {select : α → Bool} {index : Nat} {values : List α}
    (scanned : ∀ value ∈ values.take index, select value = false)
    (finished : values.length ≤ index) :
    (values.filter fun value => !select value) = values ∧ values.filter select = [] := by
  rw [List.take_of_length_le finished] at scanned
  constructor
  · exact List.filter_eq_self.mpr fun value member => by simp [scanned value member]
  · exact List.filter_eq_nil_iff.mpr fun value member => by simp [scanned value member]

/-- The loop invariant: whatever lies before `index` is unselected, so what remains to
be looked at is at most `fuel` elements long. -/
theorem swapDrainLoop_perm (select : α → Bool) (fuel index : Nat)
    (values removed : List α) (enough : values.length ≤ index + fuel)
    (scanned : ∀ value ∈ values.take index, select value = false) :
    (swapDrainLoop select fuel index values removed).1.Perm
        (values.filter fun value => !select value) ∧
      (swapDrainLoop select fuel index values removed).2.Perm
        (removed ++ values.filter select) := by
  induction fuel generalizing index values removed with
  | zero =>
    rcases filter_of_scanned scanned (by omega) with ⟨keepsAll, removesNone⟩
    simp [swapDrainLoop, keepsAll, removesNone]
  | succ fuel induction =>
    unfold swapDrainLoop
    split
    · next past =>
      rcases filter_of_scanned scanned (List.getElem?_eq_none_iff.mp past) with
        ⟨keepsAll, removesNone⟩
      simp [keepsAll, removesNone]
    · next value found =>
      have bound := (List.getElem?_eq_some_iff.mp found).1
      have rejoin := cons_swapRemove_perm found
      split
      · next selected =>
        have scannedRest : ∀ other ∈ (swapRemove values index).take index,
            select other = false := by
          rw [take_swapRemove bound]
          exact scanned
        rcases induction index (swapRemove values index) (removed ++ [value])
            (by rw [swapRemove_length]; omega) scannedRest with ⟨kept, drained⟩
        have keptValues := rejoin.filter fun other => !select other
        have drainedValues := rejoin.filter select
        simp only [selected, Bool.not_true, Bool.false_eq_true, not_false_eq_true,
          List.filter_cons_of_neg] at keptValues
        simp only [selected, List.filter_cons_of_pos] at drainedValues
        refine ⟨kept.trans keptValues, drained.trans ?_⟩
        rw [List.append_assoc]
        exact drainedValues.append_left removed
      · next unselected =>
        have valueAt : values[index] = value :=
          (List.getElem?_eq_some_iff.mp found).2
        have scannedMore : ∀ other ∈ values.take (index + 1),
            select other = false := by
          intro other member
          rw [← List.take_append_getElem bound, valueAt] at member
          rcases List.mem_append.mp member with earlier | here
          · exact scanned other earlier
          · rw [List.mem_singleton.mp here]
            simpa using unselected
        exact induction (index + 1) values removed (by omega) scannedMore

theorem getElem?_swapRemove {values : List α} {index place : Nat} {value : α}
    (found : values[place]? = some value) (inside : index < values.length)
    (isOther : place ≠ index) :
    ∃ ahead, ahead ≤ place ∧ (swapRemove values index)[ahead]? = some value := by
  unfold swapRemove
  cases values using List.reverseRecOn with
  | nil => simp at found
  | append_singleton before last =>
    simp only [List.length_append, List.length_singleton] at inside
    simp only [List.getLast?_concat]
    by_cases isLast : place = before.length
    · -- The last element fills the hole, which is before it.
      refine ⟨index, by omega, ?_⟩
      have isValue : last = value := by simpa [isLast] using found
      rw [List.set_append_left _ _ (by omega), List.dropLast_concat,
        List.getElem?_set_self (by omega), isValue]
    · have isBefore : place < before.length := by
        have bound := (List.getElem?_eq_some_iff.mp found).1
        simp only [List.length_append, List.length_singleton] at bound
        omega
      refine ⟨place, Nat.le_refl place, ?_⟩
      rw [List.getElem?_append_left isBefore] at found
      by_cases holeBefore : index < before.length
      · rw [List.set_append_left _ _ holeBefore, List.dropLast_concat,
          List.getElem?_set_ne (Ne.symm isOther), found]
      · rw [List.set_append_right _ _ (by omega)]
        have isEnd : index - before.length = 0 := by omega
        rw [isEnd, List.set_cons_zero, List.dropLast_concat, found]

theorem getElem?_swapDrainLoop {select : α → Bool} (fuel index : Nat) {values : List α}
    (removed : List α) {place : Nat} {value : α} (found : values[place]? = some value)
    (stays : select value = false) :
    ∃ ahead, ahead ≤ place ∧
      (swapDrainLoop select fuel index values removed).1[ahead]? = some value := by
  induction fuel generalizing index values removed place with
  | zero => exact ⟨place, Nat.le_refl place, found⟩
  | succ fuel induction =>
    unfold swapDrainLoop
    split
    · exact ⟨place, Nat.le_refl place, found⟩
    · next here isHere =>
      split
      · next selected =>
        have isOther : place ≠ index := by
          intro same
          rw [same, isHere] at found
          cases found
          rw [stays] at selected
          cases selected
        have inside := (List.getElem?_eq_some_iff.mp isHere).1
        rcases getElem?_swapRemove found inside isOther with ⟨moved, isAhead, foundMoved⟩
        rcases induction index (removed ++ [here]) foundMoved with ⟨ahead, isBefore, foundAhead⟩
        exact ⟨ahead, Nat.le_trans isBefore isAhead, foundAhead⟩
      · exact induction (index + 1) removed found

theorem getElem?_swapDrain {select : α → Bool} {values : List α} {place : Nat} {value : α}
    (found : values[place]? = some value) (stays : select value = false) :
    ∃ ahead, ahead ≤ place ∧ (swapDrain select values).1[ahead]? = some value :=
  getElem?_swapDrainLoop values.length 0 [] found stays

theorem swapDrain_kept_perm (select : α → Bool) (values : List α) :
    (swapDrain select values).1.Perm (values.filter fun value => !select value) :=
  (swapDrainLoop_perm select values.length 0 values [] (by omega) (by simp)).1

theorem swapDrain_removed_perm (select : α → Bool) (values : List α) :
    (swapDrain select values).2.Perm (values.filter select) := by
  simpa [swapDrain] using
    (swapDrainLoop_perm select values.length 0 values [] (by omega) (by simp)).2

end PersonaOS
