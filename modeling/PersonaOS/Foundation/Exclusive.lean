import Mathlib.Logic.Basic

/-! # Exclusive places

Things are kept in places, and a thing is in at most one place at a time. A step of a
system moves things: whatever is in a place afterwards was there before, or came from a
place that it has left. `Exclusive.reassign` is the rule for such a step, whichever
things it moves. -/

namespace PersonaOS

variable {ι : Type u} {α : Type v} {holds after : ι → α → Prop}

/-- Nothing is in two places. -/
def Exclusive (holds : ι → α → Prop) : Prop :=
  ∀ place other thing, holds place thing → holds other thing → place = other

/-- Each thing is where it was, or it has gone from its place to the one that `target`
assigns to it. -/
theorem Exclusive.reassign (exclusive : Exclusive holds) (target : ι → α → ι)
    (origin : ∀ place thing, after place thing → holds place thing ∨
      ∃ source, holds source thing ∧ place = target source thing ∧ ¬ after source thing) :
    Exclusive after := by
  intro place other thing here there
  rcases origin place thing here with stayed | ⟨source, wasHere, isTarget, gone⟩
  · rcases origin other thing there with otherStayed | ⟨source, wasThere, _, gone⟩
    · exact exclusive _ _ _ stayed otherStayed
    · rw [exclusive _ _ _ stayed wasThere] at here
      exact absurd here gone
  · rcases origin other thing there with otherStayed | ⟨otherSource, wasThere, otherTarget, _⟩
    · rw [exclusive _ _ _ otherStayed wasHere] at there
      exact absurd there gone
    · rw [isTarget, otherTarget, exclusive _ _ _ wasHere wasThere]

theorem Exclusive.mono (exclusive : Exclusive holds)
    (fewer : ∀ place thing, after place thing → holds place thing) : Exclusive after :=
  fun place other thing here there => exclusive _ _ _ (fewer place thing here)
    (fewer other thing there)

end PersonaOS
