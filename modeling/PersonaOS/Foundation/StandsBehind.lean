/-! # Elements and what comes before them

A property of each element of a list may depend on the elements before it, as a step of a run
depends on the steps that led there. -/

namespace PersonaOS

variable {α : Type u} {items before : List α} {item first : α}

/-- The element stands in the list right behind the elements `before`. -/
def StandsBehind (items before : List α) (item : α) : Prop := ∃ rest, items = before ++ item :: rest

theorem not_standsBehind_nil : ¬ StandsBehind [] before item := by
  simp [StandsBehind]

theorem standsBehind_cons :
    StandsBehind (first :: items) before item ↔
      before = [] ∧ item = first ∨
        ∃ more, before = first :: more ∧ StandsBehind items more item := by
  cases before with
  | nil => simp [StandsBehind, eq_comm]
  | cons other more =>
    constructor
    · intro follows
      rcases follows with ⟨rest, same⟩
      rcases List.cons_eq_cons.mp same with ⟨rfl, isRest⟩
      exact .inr ⟨more, rfl, rest, isRest⟩
    · intro follows
      rcases follows with ⟨isNil, _⟩ | ⟨_, same, rest, isRest⟩
      · cases isNil
      · rcases List.cons_eq_cons.mp same with ⟨rfl, rfl⟩
        exact ⟨rest, congrArg (other :: ·) isRest⟩

theorem standsBehind_concat {earlier : List α} {last : α} :
    StandsBehind (before ++ [last]) earlier item ↔
      StandsBehind before earlier item ∨ earlier = before ∧ item = last := by
  induction before generalizing earlier with
  | nil => simp [standsBehind_cons, not_standsBehind_nil]
  | cons first before induction =>
    rw [List.cons_append, standsBehind_cons, standsBehind_cons]
    constructor
    · intro follows
      rcases follows with isFirst | ⟨more, rfl, follows⟩
      · exact .inl (.inl isFirst)
      · rcases induction.mp follows with isEarlier | ⟨rfl, rfl⟩
        · exact .inl (.inr ⟨more, rfl, isEarlier⟩)
        · exact .inr ⟨rfl, rfl⟩
    · intro follows
      rcases follows with (isFirst | ⟨more, rfl, follows⟩) | ⟨rfl, rfl⟩
      · exact .inl isFirst
      · exact .inr ⟨more, rfl, induction.mpr (.inl follows)⟩
      · exact .inr ⟨before, rfl, induction.mpr (.inr ⟨rfl, rfl⟩)⟩

theorem StandsBehind.append (follows : StandsBehind before earlier item) (more : List α) :
    StandsBehind (before ++ more) earlier item := by
  rcases follows with ⟨rest, rfl⟩
  exact ⟨rest ++ more, by rw [List.append_assoc, List.cons_append]⟩

theorem exists_standsBehind_cons (holds : List α → α → Prop) :
    (∃ more item, StandsBehind (first :: items) more item ∧ holds (before ++ more) item) ↔
      holds before first ∨
        ∃ more item, StandsBehind items more item ∧ holds (before ++ [first] ++ more) item := by
  constructor
  · intro isThere
    rcases isThere with ⟨more, item, follows, isHeld⟩
    rcases standsBehind_cons.mp follows with ⟨rfl, rfl⟩ | ⟨rest, rfl, followsRest⟩
    · rw [List.append_nil] at isHeld
      exact .inl isHeld
    · rw [List.append_cons] at isHeld
      exact .inr ⟨rest, item, followsRest, isHeld⟩
  · intro isThere
    rcases isThere with isHeld | ⟨more, item, follows, isHeld⟩
    · refine ⟨[], first, standsBehind_cons.mpr (.inl ⟨rfl, rfl⟩), ?_⟩
      rw [List.append_nil]
      exact isHeld
    · refine ⟨first :: more, item, standsBehind_cons.mpr (.inr ⟨more, rfl, follows⟩), ?_⟩
      rw [List.append_cons]
      exact isHeld

theorem forall_standsBehind_cons (holds : List α → α → Prop) :
    (∀ more item, StandsBehind (first :: items) more item → holds (before ++ more) item) ↔
      holds before first ∧
        ∀ more item, StandsBehind items more item → holds (before ++ [first] ++ more) item := by
  constructor
  · intro all
    have isHeld := all [] first (standsBehind_cons.mpr (.inl ⟨rfl, rfl⟩))
    rw [List.append_nil] at isHeld
    refine ⟨isHeld, fun more item follows => ?_⟩
    rw [← List.append_cons]
    exact all (first :: more) item (standsBehind_cons.mpr (.inr ⟨more, rfl, follows⟩))
  · intro both more item follows
    rcases standsBehind_cons.mp follows with ⟨rfl, rfl⟩ | ⟨rest, rfl, followsRest⟩
    · rw [List.append_nil]
      exact both.1
    · rw [List.append_cons]
      exact both.2 rest item followsRest

end PersonaOS
