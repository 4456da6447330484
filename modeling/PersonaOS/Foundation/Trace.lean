import Mathlib.Data.List.Infix

/-! # Finite runs of transition systems

A run is a chain of steps labelled by events. Safety results about a system are
obtained from `Trace.invariant`: an invariant that holds initially and that each
step keeps holds at the end of every run. -/

namespace PersonaOS

/-- A finite run from one state to another, one event for each step. -/
inductive Trace {σ : Type u} {ε : Type v} (Step : σ → ε → σ → Prop) :
    σ → List ε → σ → Prop
  | nil (state) : Trace Step state [] state
  | cons {first middle last event events} :
      Step first event middle →
      Trace Step middle events last →
      Trace Step first (event :: events) last

namespace Trace

variable {σ : Type u} {ε : Type v} {Step : σ → ε → σ → Prop}

theorem single {first last : σ} {event : ε} (step : Step first event last) :
    Trace Step first [event] last :=
  .cons step (.nil last)

theorem append {first middle last : σ} {before after : List ε}
    (start : Trace Step first before middle)
    (rest : Trace Step middle after last) :
    Trace Step first (before ++ after) last := by
  induction start with
  | nil => exact rest
  | cons step _ induction => exact .cons step (induction rest)

theorem split {first last : σ} {before after : List ε}
    (trace : Trace Step first (before ++ after) last) :
    ∃ middle, Trace Step first before middle ∧ Trace Step middle after last := by
  induction before generalizing first with
  | nil => exact ⟨first, .nil first, trace⟩
  | cons event before induction =>
    cases trace with
    | cons step rest =>
      rcases induction rest with ⟨middle, start, finish⟩
      exact ⟨middle, .cons step start, finish⟩

/-- The invariant rule: what holds at the start and is kept by every step holds
at the end. -/
theorem invariant {first last : σ} {events : List ε} (Invariant : σ → Prop)
    (preserved : ∀ {current event next},
      Invariant current → Step current event next → Invariant next)
    (trace : Trace Step first events last) (initial : Invariant first) :
    Invariant last := by
  induction trace with
  | nil => exact initial
  | cons step _ induction => exact induction (preserved initial step)

theorem mono {Wider : σ → ε → σ → Prop} {first last : σ} {events : List ε}
    (allows : ∀ {current event next},
      Step current event next → Wider current event next)
    (trace : Trace Step first events last) : Trace Wider first events last := by
  induction trace with
  | nil => exact .nil _
  | cons step _ induction => exact .cons (allows step) induction

end Trace

end PersonaOS
