import Mathlib.Logic.Basic

/-! # Fallible stateful programs

Kernel functions read and write a state and either return, fail with an error that leaves
whatever they had already written in place, or panic. `Program` is the monad of such functions.
A specification at one starting state says what holds after a return and after an error, and
whether the program may panic. -/

namespace PersonaOS

/-- How a call ends. A panic halts the kernel, so it carries no state. -/
inductive Outcome (σ : Type u) (ε : Type v) (α : Type w) where
  | ok (value : α) (state : σ)
  | error (error : ε) (state : σ)
  | panic
  deriving DecidableEq, Repr

def Program (σ : Type u) (ε : Type v) (α : Type w) := σ → Outcome σ ε α

namespace Program

variable {σ : Type u} {ε : Type v} {α β : Type w}

instance : Monad (Program σ ε) where
  pure value := fun state => .ok value state
  bind program next := fun state =>
    match program state with
    | .ok value state => next value state
    | .error error state => .error error state
    | .panic => .panic

def throw (error : ε) : Program σ ε α := fun state => .error error state

def abort : Program σ ε α := fun _ => .panic

def get : Program σ ε σ := fun state => .ok state state

def modify (change : σ → σ) : Program σ ε PUnit := fun state => .ok ⟨⟩ (change state)

/-- `option.ok_or(error)?` -/
def okOr (value : Option α) (error : ε) : Program σ ε α :=
  match value with
  | some value => pure value
  | none => throw error

def ofExcept : Except ε α → Program σ ε α
  | .ok value => pure value
  | .error error => throw error

/-- `for i in start..start + count { body(i)?; }` -/
def forRange (body : Nat → Program σ ε PUnit) : (count start : Nat) → Program σ ε PUnit
  | 0, _ => pure ⟨⟩
  | count + 1, start => do
      body start
      forRange body count (start + 1)

/-- Run a program and hand its result over as a value, as `match call() { .. }` and
`let _ = call()` do. -/
def attempt {α : Type v} (program : Program σ ε α) : Program σ ε (Except ε α) := fun state =>
  match program state with
  | .ok value state => .ok (.ok value) state
  | .error error state => .ok (.error error) state
  | .panic => .panic

/-- `call().map_err(..)`: the same program with another type of error. -/
def mapError {ε' : Type v} (convert : ε → ε') (program : Program σ ε α) : Program σ ε' α :=
  fun state =>
    match program state with
    | .ok value state => .ok value state
    | .error error state => .error (convert error) state
    | .panic => .panic

@[simp] theorem pure_apply (value : α) (state : σ) :
    (pure value : Program σ ε α) state = .ok value state := rfl

@[simp] theorem throw_apply (error : ε) (state : σ) :
    (throw error : Program σ ε α) state = .error error state := rfl

@[simp] theorem abort_apply (state : σ) : (abort : Program σ ε α) state = .panic := rfl

@[simp] theorem get_apply (state : σ) : (get : Program σ ε σ) state = .ok state state := rfl

@[simp] theorem modify_apply (change : σ → σ) (state : σ) :
    (modify change : Program σ ε PUnit) state = .ok ⟨⟩ (change state) := rfl

@[simp] theorem okOr_some (value : α) (error : ε) :
    (okOr (some value) error : Program σ ε α) = pure value := rfl

@[simp] theorem okOr_none (error : ε) :
    (okOr none error : Program σ ε α) = throw error := rfl

@[simp] theorem ofExcept_ok (value : α) : (ofExcept (.ok value) : Program σ ε α) = pure value := rfl

@[simp] theorem ofExcept_error (error : ε) :
    (ofExcept (.error error) : Program σ ε α) = throw error := rfl

theorem bind_apply (program : Program σ ε α) (next : α → Program σ ε β) (state : σ) :
    (program >>= next) state =
      match program state with
      | .ok value state => next value state
      | .error error state => .error error state
      | .panic => .panic := rfl

theorem bind_eq_ok {program : Program σ ε α} {next : α → Program σ ε β} {state after : σ}
    {value : β} : (program >>= next) state = .ok value after ↔
      ∃ first middle, program state = .ok first middle ∧ next first middle = .ok value after := by
  rw [bind_apply]
  cases program state with
  | ok first middle =>
    constructor
    · intro returns
      exact ⟨first, middle, rfl, returns⟩
    · intro returns
      rcases returns with ⟨other, last, same, returns⟩
      cases same
      exact returns
  | error fault middle =>
    apply iff_of_false (by intro same; cases same)
    intro returns
    rcases returns with ⟨_, _, same, _⟩
    cases same
  | panic =>
    apply iff_of_false (by intro same; cases same)
    intro returns
    rcases returns with ⟨_, _, same, _⟩
    cases same

theorem okOr_eq_ok {option : Option α} {error : ε} {state after : σ} {value : α} :
    (okOr option error : Program σ ε α) state = .ok value after ↔
      option = some value ∧ after = state := by
  cases option with
  | none => exact iff_of_false (by intro same; cases same) fun both => by cases both.1
  | some content =>
    constructor
    · intro returns
      cases returns
      exact ⟨rfl, rfl⟩
    · intro both
      rcases both with ⟨same, rfl⟩
      cases same
      rfl

@[simp] theorem pure_bind_apply (value : α) (next : α → Program σ ε β) (state : σ) :
    (pure value >>= next : Program σ ε β) state = next value state := rfl

@[simp] theorem throw_bind_apply (error : ε) (next : α → Program σ ε β) (state : σ) :
    (throw error >>= next : Program σ ε β) state = .error error state := rfl

@[simp] theorem get_bind_apply {β : Type u} (next : σ → Program σ ε β) (state : σ) :
    (get >>= next : Program σ ε β) state = next state state := rfl

@[simp] theorem modify_bind_apply (change : σ → σ) (next : PUnit → Program σ ε β)
    (state : σ) :
    (modify change >>= next : Program σ ε β) state = next ⟨⟩ (change state) := rfl

end Program

namespace Outcome

variable {σ : Type u} {ε : Type v} {α β : Type w}

/-- What a call's outcome must satisfy: `ok` after a return, `error` after an error,
and `panics` if the call may panic at all. -/
def Meets (outcome : Outcome σ ε α) (ok : α → σ → Prop) (error : ε → σ → Prop)
    (panics : Prop) : Prop :=
  match outcome with
  | .ok value state => ok value state
  | .error fault state => error fault state
  | .panic => panics

@[simp] theorem meets_ok {value : α} {state : σ} {ok : α → σ → Prop} {error : ε → σ → Prop}
    {panics : Prop} :
    (Outcome.ok value state : Outcome σ ε α).Meets ok error panics ↔ ok value state :=
  Iff.rfl

@[simp] theorem meets_error {fault : ε} {state : σ} {ok : α → σ → Prop}
    {error : ε → σ → Prop} {panics : Prop} :
    (Outcome.error fault state : Outcome σ ε α).Meets ok error panics ↔ error fault state :=
  Iff.rfl

@[simp] theorem meets_panic {ok : α → σ → Prop} {error : ε → σ → Prop} {panics : Prop} :
    (Outcome.panic : Outcome σ ε α).Meets ok error panics ↔ panics :=
  Iff.rfl

def final : Outcome σ ε α → Option σ
  | .ok _ state => some state
  | .error _ state => some state
  | .panic => none

def value? : Outcome σ ε α → Option α
  | .ok value _ => some value
  | .error _ _ => none
  | .panic => none

def fault? : Outcome σ ε α → Option ε
  | .ok _ _ => none
  | .error fault _ => some fault
  | .panic => none

theorem eq_ok_of_value? {outcome : Outcome σ ε α} {value : α}
    (returned : outcome.value? = some value) (default : σ) :
    outcome = .ok value (outcome.final.getD default) := by
  cases outcome with
  | ok value state =>
    cases returned
    rfl
  | error fault state => cases returned
  | panic => cases returned

theorem eq_error_of_fault? {outcome : Outcome σ ε α} {fault : ε}
    (failed : outcome.fault? = some fault) (default : σ) :
    outcome = .error fault (outcome.final.getD default) := by
  cases outcome with
  | ok value state => cases failed
  | error fault state =>
    cases failed
    rfl
  | panic => cases failed

theorem final_eq_getD {outcome : Outcome σ ε α} (ends : outcome.final.isSome = true) (default : σ) :
    outcome.final = some (outcome.final.getD default) := by
  rcases Option.isSome_iff_exists.mp ends with ⟨state, isFinal⟩
  rw [isFinal, Option.getD_some]

theorem Meets.of_final {outcome : Outcome σ ε α} {holds : σ → Prop} {panics : Prop} {state : σ}
    (meets : outcome.Meets (fun _ => holds) (fun _ => holds) panics)
    (ended : outcome.final = some state) : holds state := by
  cases outcome with
  | ok value after => exact Option.some.inj ended ▸ meets
  | error fault after => exact Option.some.inj ended ▸ meets
  | panic => cases ended

theorem Meets.ne_panic {outcome : Outcome σ ε α} {ok : α → σ → Prop} {error : ε → σ → Prop}
    {panics : Prop} (meets : outcome.Meets ok error panics) (never : ¬ panics) :
    outcome ≠ .panic := by
  rintro rfl
  exact never meets

theorem bind_eq_panic (noError : ε → False) {program : Program σ ε α} {next : α → Program σ ε β}
    (panics : ∀ value state, next value state = .panic) (state : σ) :
    (program >>= next) state = .panic := by
  rw [Program.bind_apply]
  cases program state with
  | ok value after => exact panics value after
  | error fault after => exact (noError fault).elim
  | panic => rfl

theorem forRange_eq_panic (noError : ε → False) {body : Nat → Program σ ε PUnit}
    {count start i : Nat} (behind : start ≤ i) (before : i < start + count)
    (panics : ∀ state, body i state = .panic) (state : σ) :
    Program.forRange body count start state = .panic := by
  induction count generalizing start state with
  | zero => omega
  | succ count induction =>
    rw [Program.forRange]
    by_cases isFirst : start = i
    · rw [Program.bind_apply, isFirst, panics]
    · exact bind_eq_panic noError (fun _ => induction (by omega) (by omega)) state

theorem Meets.returns {outcome : Outcome σ ε α} {ok : α → σ → Prop}
    (meets : outcome.Meets ok (fun _ _ => False) False) :
    ∃ value state, outcome = .ok value state ∧ ok value state := by
  cases outcome with
  | ok value state => exact ⟨value, state, rfl, meets⟩
  | error fault state => exact False.elim meets
  | panic => exact False.elim meets

/-- The rule of consequence. -/
theorem Meets.mono {outcome : Outcome σ ε α} {ok ok' : α → σ → Prop}
    {error error' : ε → σ → Prop} {panics panics' : Prop}
    (meets : outcome.Meets ok error panics)
    (okMono : ∀ value state, ok value state → ok' value state)
    (errorMono : ∀ fault state, error fault state → error' fault state)
    (panicsMono : panics → panics') :
    outcome.Meets ok' error' panics' := by
  cases outcome with
  | ok value state => exact okMono value state meets
  | error fault state => exact errorMono fault state meets
  | panic => exact panicsMono meets

theorem Meets.imp {outcome : Outcome σ ε α} {ok ok' : α → σ → Prop} {error : ε → σ → Prop}
    {panics : Prop} (meets : outcome.Meets ok error panics)
    (okMono : ∀ value state, ok value state → ok' value state) :
    outcome.Meets ok' error panics :=
  meets.mono okMono (fun _ _ failed => failed) fun stops => stops

theorem Meets.imp_error {outcome : Outcome σ ε α} {ok : α → σ → Prop} {error error' : ε → σ → Prop}
    {panics : Prop} (meets : outcome.Meets ok error panics)
    (errorMono : ∀ fault state, error fault state → error' fault state) :
    outcome.Meets ok error' panics :=
  meets.mono (fun _ _ known => known) errorMono fun stops => stops

/-- The rule of sequencing: an error or a panic of the first program ends both. -/
theorem Meets.bind {program : Program σ ε α} {next : α → Program σ ε β} {state : σ}
    {middle : α → σ → Prop} {ok : β → σ → Prop} {error : ε → σ → Prop} {panics : Prop}
    (first : (program state).Meets middle error panics)
    (rest : ∀ value state, middle value state →
      (next value state).Meets ok error panics) :
    ((program >>= next) state).Meets ok error panics := by
  rw [Program.bind_apply]
  cases ended : program state with
  | ok value after =>
    rw [ended] at first
    exact rest value after first
  | error fault after =>
    rw [ended] at first
    exact first
  | panic =>
    rw [ended] at first
    exact first

theorem Meets.okOr {value : Option α} {fault : ε} {next : α → Program σ ε β} {state : σ}
    {ok : β → σ → Prop} {error : ε → σ → Prop} {panics : Prop}
    (missing : value = none → error fault state)
    (found : ∀ content, value = some content → (next content state).Meets ok error panics) :
    ((Program.okOr value fault >>= next) state).Meets ok error panics := by
  cases value with
  | none => exact missing rfl
  | some content => exact found content rfl

theorem Meets.ofExcept {answer : Except ε α} {state : σ} {ok : α → σ → Prop}
    {error : ε → σ → Prop} {panics : Prop}
    (failed : ∀ fault, answer = .error fault → error fault state)
    (found : ∀ value, answer = .ok value → ok value state) :
    (Program.ofExcept answer state).Meets ok error panics := by
  cases answer with
  | error fault => exact failed fault rfl
  | ok value => exact found value rfl

/-- The rule of counting loops: each turn takes the invariant from its number to the next. -/
theorem Meets.forRange {body : Nat → Program σ ε PUnit} (Invariant : Nat → σ → Prop)
    {count start : Nat} {state : σ} {error : ε → σ → Prop} {panics : Prop}
    (initial : Invariant start state)
    (turn : ∀ i state, start ≤ i → i < start + count → Invariant i state →
      (body i state).Meets (fun _ => Invariant (i + 1)) error panics) :
    (Program.forRange body count start state).Meets (fun _ => Invariant (start + count)) error
      panics := by
  induction count generalizing start state with
  | zero => exact initial
  | succ count induction =>
    apply Meets.bind (turn start state (Nat.le_refl _) (by omega) initial)
    intro _ middle holds
    have rest := induction holds fun i state behind before => turn i state (by omega) (by omega)
    rwa [Nat.add_right_comm] at rest

theorem Meets.mapError {ε' : Type v} {program : Program σ ε α} {convert : ε → ε'} {state : σ}
    {ok : α → σ → Prop} {failed : σ → Prop} {panics : Prop}
    (meets : (program state).Meets ok (fun _ => failed) panics) :
    (program.mapError convert state).Meets ok (fun _ => failed) panics := by
  unfold Program.mapError
  cases ended : program state with
  | ok value after =>
    rw [ended] at meets
    exact meets
  | error fault after =>
    rw [ended] at meets
    exact meets
  | panic =>
    rw [ended] at meets
    exact meets

theorem Meets.and {outcome : Outcome σ ε α} {ok ok' : α → σ → Prop} {error error' : ε → σ → Prop}
    {panics panics' : Prop} (left : outcome.Meets ok error panics)
    (right : outcome.Meets ok' error' panics') :
    outcome.Meets (fun value state => ok value state ∧ ok' value state)
      (fun fault state => error fault state ∧ error' fault state) panics := by
  cases outcome with
  | ok value state => exact ⟨left, right⟩
  | error fault state => exact ⟨left, right⟩
  | panic => exact left

theorem Meets.of_imp {outcome : Outcome σ ε α} {ok : α → σ → Prop} {error : ε → σ → Prop}
    {assumed : Prop} (meets : assumed → outcome.Meets ok error True) :
    outcome.Meets (fun value state => assumed → ok value state)
      (fun fault state => assumed → error fault state) True := by
  cases outcome with
  | ok value state => exact meets
  | error fault state => exact meets
  | panic => trivial

def within {τ : Type u'} {β : Type w'} (value : α → β) (state : σ → τ) :
    Outcome σ ε α → Outcome τ ε β
  | .ok result after => .ok (value result) (state after)
  | .error fault after => .error fault (state after)
  | .panic => .panic

theorem meets_within {τ : Type u'} {β : Type w'} {value : α → β} {state : σ → τ}
    {outcome : Outcome σ ε α} {ok : β → τ → Prop} {error : ε → τ → Prop} {panics : Prop} :
    (outcome.within value state).Meets ok error panics ↔
      outcome.Meets (fun result after => ok (value result) (state after))
        (fun fault after => error fault (state after)) panics := by
  cases outcome <;> rfl

theorem within_eq_ok {τ : Type u'} {β : Type w'} {value : α → β} {state : σ → τ}
    {outcome : Outcome σ ε α} {result : β} {after : τ} :
    outcome.within value state = .ok result after ↔
      ∃ inner middle, outcome = .ok inner middle ∧ value inner = result ∧ state middle = after := by
  cases outcome with
  | ok inner middle =>
    constructor
    · intro returns
      cases returns
      exact ⟨inner, middle, rfl, rfl, rfl⟩
    · intro returns
      rcases returns with ⟨_, _, same, rfl, rfl⟩
      cases same
      rfl
  | error fault middle =>
    apply iff_of_false (by intro same; cases same)
    intro returns
    rcases returns with ⟨_, _, same, _⟩
    cases same
  | panic =>
    apply iff_of_false (by intro same; cases same)
    intro returns
    rcases returns with ⟨_, _, same, _⟩
    cases same

theorem within_eq_panic {τ : Type u'} {β : Type w'} {value : α → β} {state : σ → τ}
    {outcome : Outcome σ ε α} : outcome.within value state = .panic ↔ outcome = .panic := by
  cases outcome with
  | ok result after =>
    exact iff_of_false (by intro same; cases same) (by intro same; cases same)
  | error fault after =>
    exact iff_of_false (by intro same; cases same) (by intro same; cases same)
  | panic => exact iff_of_true rfl rfl

/-- An attempted program never fails: its error is a value like any other. -/
theorem Meets.attempt {α : Type v} {program : Program σ ε α} {state : σ}
    {ok : α → σ → Prop} {error : ε → σ → Prop} {panics : Prop}
    {never : ε → σ → Prop}
    (meets : (program state).Meets ok error panics) :
    (program.attempt state).Meets
      (fun result after => match result with
        | .ok value => ok value after
        | .error fault => error fault after)
      never panics := by
  unfold Program.attempt
  cases ended : program state with
  | ok value after =>
    rw [ended] at meets
    exact meets
  | error fault after =>
    rw [ended] at meets
    exact meets
  | panic =>
    rw [ended] at meets
    exact meets

end Outcome

/-! ## Assertions -/

namespace Program

variable {σ : Type u} {ε ε' : Type v} {α β : Type w}

/-- A program with assertions added: it panics, or does as the plain one. -/
def Asserts (checked plain : Program σ ε α) : Prop :=
  ∀ state, checked state = .panic ∨ checked state = plain state

theorem Asserts.refl (program : Program σ ε α) : Asserts program program := fun _ => .inr rfl

theorem Asserts.ite {condition : Prop} [Decidable condition]
    {checked plain checkedElse plainElse : Program σ ε α} (asserts : Asserts checked plain)
    (assertsElse : Asserts checkedElse plainElse) :
    Asserts (if condition then checked else checkedElse)
      (if condition then plain else plainElse) := by
  split
  · exact asserts
  · exact assertsElse

theorem Asserts.bind {checked plain : Program σ ε α} {checkedNext plainNext : α → Program σ ε β}
    (first : Asserts checked plain)
    (rest : ∀ value, Asserts (checkedNext value) (plainNext value)) :
    Asserts (checked >>= checkedNext) (plain >>= plainNext) := by
  intro state
  rw [bind_apply, bind_apply]
  rcases first state with stops | same
  · rw [stops]
    exact .inl rfl
  · rw [same]
    cases plain state with
    | ok value after => exact rest value after
    | error fault after => exact .inr rfl
    | panic => exact .inr rfl

theorem Asserts.mapError {checked plain : Program σ ε α} (asserts : Asserts checked plain)
    (convert : ε → ε') : Asserts (checked.mapError convert) (plain.mapError convert) := by
  intro state
  unfold Program.mapError
  rcases asserts state with stops | same
  · rw [stops]
    exact .inl rfl
  · rw [same]
    exact .inr rfl

end Program

end PersonaOS
