import PersonaOS.Foundation.Program

/-! # Programs that answer alike

Two programs over different states are compared answer by answer. The first one may quit:
after some faults nothing is promised any more. -/

namespace PersonaOS

/-- Both outcomes return, fail with the same fault, or panic, and `ok` or `error` holds of what
they leave behind; or the first one quits. -/
inductive Outcome.Relates {σ : Type u} {τ : Type u'} {ε : Type v} {α : Type w} {β : Type w'}
    (quits : ε → Prop) (ok : α → σ → β → τ → Prop) (error : σ → τ → Prop) :
    Outcome σ ε α → Outcome τ ε β → Prop
  | ok {value : α} {state : σ} {other : β} {twin : τ} (known : ok value state other twin) :
      Relates quits ok error (.ok value state) (.ok other twin)
  | error {fault : ε} {state : σ} {twin : τ} (known : error state twin) :
      Relates quits ok error (.error fault state) (.error fault twin)
  | quit {fault : ε} {state : σ} {outcome : Outcome τ ε β} (known : quits fault) :
      Relates quits ok error (.error fault state) outcome
  | panic : Relates quits ok error .panic .panic

namespace Outcome.Relates

variable {σ : Type u} {τ : Type u'} {ε : Type v} {α : Type w} {β : Type w'} {quits : ε → Prop}
  {ok : α → σ → β → τ → Prop} {error : σ → τ → Prop}

theorem mono {ok' : α → σ → β → τ → Prop} {error' : σ → τ → Prop} {outcome : Outcome σ ε α}
    {other : Outcome τ ε β} (relates : outcome.Relates quits ok error other)
    (okMono : ∀ value state otherValue twin, ok value state otherValue twin →
      ok' value state otherValue twin)
    (errorMono : ∀ state twin, error state twin → error' state twin) :
    outcome.Relates quits ok' error' other := by
  cases relates with
  | ok known => exact .ok (okMono _ _ _ _ known)
  | error known => exact .error (errorMono _ _ known)
  | quit known => exact .quit known
  | panic => exact .panic

theorem bind {α' : Type w} {β' : Type w'} {program : Program σ ε α} {other : Program τ ε β}
    {next : α → Program σ ε α'} {otherNext : β → Program τ ε β'} {state : σ} {twin : τ}
    {ok' : α' → σ → β' → τ → Prop}
    (first : (program state).Relates quits ok error (other twin))
    (rest : ∀ value state otherValue twin, ok value state otherValue twin →
      (next value state).Relates quits ok' error (otherNext otherValue twin)) :
    ((program >>= next) state).Relates quits ok' error ((other >>= otherNext) twin) := by
  rw [Program.bind_apply, Program.bind_apply]
  generalize program state = outcome at first
  generalize other twin = otherOutcome at first
  cases first with
  | ok known => exact rest _ _ _ _ known
  | error known => exact .error known
  | quit known => exact .quit known
  | panic => exact .panic

theorem of_final {holds : σ → τ → Prop} {outcome : Outcome σ ε α} {other : Outcome τ ε β}
    {state : σ} {twin : τ}
    (relates : outcome.Relates quits (fun _ state _ twin => holds state twin) holds other)
    (stays : ∀ fault, outcome.fault? = some fault → ¬ quits fault)
    (ended : outcome.final = some state) (otherEnded : other.final = some twin) :
    holds state twin := by
  cases relates with
  | ok known =>
    cases ended
    cases otherEnded
    exact known
  | error known =>
    cases ended
    cases otherEnded
    exact known
  | quit known => exact absurd known (stays _ rfl)
  | panic => cases ended

end Outcome.Relates

end PersonaOS
