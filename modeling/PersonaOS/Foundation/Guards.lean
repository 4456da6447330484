import Mathlib.Logic.Function.Basic
import PersonaOS.Foundation.Program

/-! # Programs that take locks

A lock is held or free, and a program that takes a lock it finds held is stuck for good. A
guard gives its lock back at the end of its scope, on a return as well as on an error. An
operation on the outside world may be interrupted: it then fails, and what it leaves of the
state is anybody's guess.

`Follows` says that a program with locks does what a plain program does. It composes along the
structure of the two programs as long as no scope takes a lock that an enclosing scope has. -/

namespace PersonaOS

structure Guarded (σ : Type u) (L : Type v) where
  state : σ
  held : L → Bool
  /-- What the next operations meet: the state in which each is interrupted, if it is. -/
  interrupts : List (Option σ)

inductive Halt (ε : Type w) where
  | fault (error : ε)
  | stuck
  deriving DecidableEq, Repr

namespace Guarded

variable {σ L ε α β : Type} [DecidableEq L]

def read : Program (Guarded σ L) (Halt ε) σ := fun guarded => .ok guarded.state guarded

def raise (error : ε) : Program (Guarded σ L) (Halt ε) α := Program.throw (.fault error)

def lift (program : Program σ ε α) : Program (Guarded σ L) (Halt ε) α := fun guarded =>
  match program guarded.state with
  | .ok value state => .ok value { guarded with state }
  | .error error state => .error (.fault error) { guarded with state }
  | .panic => .panic

/-- Run a program that takes no lock and fails with `broken` if it is interrupted. -/
def operate (broken : ε) (program : Program σ ε α) : Program (Guarded σ L) (Halt ε) α :=
  fun guarded =>
    match guarded.interrupts with
    | [] => lift program guarded
    | none :: interrupts => lift program { guarded with interrupts }
    | some state :: interrupts => .error (.fault broken) { guarded with state, interrupts }

omit [DecidableEq L] in
theorem read_bind_apply (next : σ → Program (Guarded σ L) (Halt ε) α) (guarded : Guarded σ L) :
    (read >>= next) guarded = next guarded.state guarded := rfl

/-- An access to the outside world whose result does not matter. -/
def access (broken : ε) : Program (Guarded σ L) (Halt ε) PUnit := operate broken (pure ⟨⟩)

def setHeld (guarded : Guarded σ L) (lock : L) (isHeld : Bool) : Guarded σ L :=
  { guarded with held := Function.update guarded.held lock isHeld }

/-- `let guard = mutex.lock(); body` -/
def withLock (lock : L) (body : Program (Guarded σ L) (Halt ε) α) :
    Program (Guarded σ L) (Halt ε) α := fun guarded =>
  if guarded.held lock then
    .error .stuck guarded
  else
    match body (guarded.setHeld lock true) with
    | .ok value after => .ok value (after.setHeld lock false)
    | .error (.fault error) after => .error (.fault error) (after.setHeld lock false)
    | .error .stuck after => .error .stuck after
    | .panic => .panic

theorem held_setHeld {guarded after : Guarded σ L} {lock : L} (isFree : guarded.held lock = false)
    (sameHeld : after.held = (guarded.setHeld lock true).held) :
    (after.setHeld lock false).held = guarded.held := by
  rw [setHeld, sameHeld, setHeld, Function.update_idem, ← isFree, Function.update_eq_self]

omit [DecidableEq L] in
theorem operate_of_ok {guarded : Guarded σ L} {broken : ε} {program : Program σ ε α} {value : α}
    (calm : guarded.interrupts = [])
    (returns : program guarded.state = .ok value guarded.state) :
    (operate broken program : Program (Guarded σ L) (Halt ε) α) guarded = .ok value guarded := by
  rw [operate, calm]
  dsimp only
  rw [lift, returns]

theorem withLock_held {guarded : Guarded σ L} {lock : L}
    {body : Program (Guarded σ L) (Halt ε) α} (isHeld : guarded.held lock = true) :
    withLock lock body guarded = .error .stuck guarded := by
  rw [withLock, if_pos isHeld]

theorem withLock_stuck {guarded after : Guarded σ L} {lock : L}
    {body : Program (Guarded σ L) (Halt ε) α} (isFree : guarded.held lock = false)
    (isStuck : body (guarded.setHeld lock true) = .error .stuck after) :
    withLock lock body guarded = .error .stuck after := by
  rw [withLock, if_neg (Bool.eq_false_iff.mp isFree), isStuck]

/-! ## Programs that finish -/

/-- A program that returns or fails, with the locks as they were. -/
def Finishes (guarded : Guarded σ L) (outcome : Outcome (Guarded σ L) (Halt ε) α) : Prop :=
  outcome.Meets (fun _ after => after.held = guarded.held)
    (fun halt after => halt ≠ .stuck ∧ after.held = guarded.held) False

section Finish

variable {guarded : Guarded σ L} {program : Program (Guarded σ L) (Halt ε) α}

omit [DecidableEq L] in
theorem Finishes.bind {next : α → Program (Guarded σ L) (Halt ε) β}
    (first : Finishes guarded (program guarded))
    (rest : ∀ value after, program guarded = .ok value after → after.held = guarded.held →
      Finishes after (next value after)) :
    Finishes guarded ((program >>= next) guarded) := by
  rw [Program.bind_apply]
  rw [Finishes] at first
  cases ended : program guarded with
  | ok value after =>
    rw [ended] at first
    have sameHeld : after.held = guarded.held := first
    have ends := rest value after ended sameHeld
    rw [Finishes, sameHeld] at ends
    exact ends
  | error halt after =>
    rw [ended] at first
    exact first
  | panic =>
    rw [ended] at first
    exact first.elim

omit [DecidableEq L] in
theorem finishes_reply (reply : α → β) :
    Finishes guarded ((do
      let value ← program
      return reply value : Program (Guarded σ L) (Halt ε) β) guarded) ↔
      Finishes guarded (program guarded) := by
  rw [Program.bind_apply]
  cases program guarded <;> exact Iff.rfl

theorem Finishes.withLock {lock : L} (isFree : guarded.held lock = false)
    (finishes : Finishes (guarded.setHeld lock true) (program (guarded.setHeld lock true))) :
    Finishes guarded (Guarded.withLock lock program guarded) := by
  rw [Guarded.withLock, if_neg (Bool.eq_false_iff.mp isFree)]
  rw [Finishes] at finishes
  cases ended : program (guarded.setHeld lock true) with
  | ok value after =>
    rw [ended] at finishes
    exact held_setHeld isFree finishes
  | error halt after =>
    rw [ended] at finishes
    cases halt with
    | fault error => exact ⟨nofun, held_setHeld isFree finishes.2⟩
    | stuck => exact absurd rfl finishes.1
  | panic =>
    rw [ended] at finishes
    exact finishes

end Finish

/-! ## Following a plain program -/

/-- With the given locks free, the program ends as the plain one does, or with `broken` if it can
be interrupted, and it holds the locks it held before. -/
def Follows (broken : ε) (locks : List L) (program : Program (Guarded σ L) (Halt ε) α)
    (plain : Program σ ε α) : Prop :=
  ∀ guarded : Guarded σ L, (∀ lock ∈ locks, guarded.held lock = false) →
    (program guarded).Meets
      (fun value after => plain guarded.state = .ok value after.state ∧
        after.held = guarded.held ∧ (guarded.interrupts = [] → after.interrupts = []))
      (fun halt after => after.held = guarded.held ∧
        ∃ error, halt = .fault error ∧
          (error = broken ∧ guarded.interrupts ≠ [] ∨
            plain guarded.state = .error error after.state))
      (plain guarded.state = .panic)

namespace Follows

section Sequencing

omit [DecidableEq L]

variable {broken : ε} {locks more : List L} {program : Program (Guarded σ L) (Halt ε) α}
  {plain : Program σ ε α}

theorem mono (follows : Follows broken locks program plain) (fewer : ∀ lock ∈ locks, lock ∈ more) :
    Follows broken more program plain :=
  fun guarded free => follows guarded fun lock member => free lock (fewer lock member)

theorem pure (value : α) :
    Follows broken locks (Pure.pure value : Program (Guarded σ L) (Halt ε) α) (Pure.pure value) :=
  fun _ _ => ⟨rfl, rfl, id⟩

theorem raise (error : ε) :
    Follows broken locks (Guarded.raise error : Program (Guarded σ L) (Halt ε) α)
      (Program.throw error) :=
  fun _ _ => ⟨rfl, error, rfl, .inr rfl⟩

theorem read :
    Follows broken locks (Guarded.read : Program (Guarded σ L) (Halt ε) σ) Program.get :=
  fun _ _ => ⟨rfl, rfl, id⟩

theorem okOr (value : Option α) (error : ε) :
    Follows broken locks
      (Program.okOr value (.fault error) : Program (Guarded σ L) (Halt ε) α)
      (Program.okOr value error) := by
  cases value with
  | none => exact .raise error
  | some value => exact .pure value

theorem abort :
    Follows broken locks (Program.abort : Program (Guarded σ L) (Halt ε) α) Program.abort :=
  fun _ _ => rfl

theorem lift (plain : Program σ ε α) :
    Follows broken locks (Guarded.lift plain : Program (Guarded σ L) (Halt ε) α) plain := by
  intro guarded _
  rw [Guarded.lift]
  cases plain guarded.state with
  | ok value state => exact ⟨rfl, rfl, id⟩
  | error error state => exact ⟨rfl, error, rfl, .inr rfl⟩
  | panic => rfl

theorem operate (plain : Program σ ε α) :
    Follows broken locks (Guarded.operate broken plain : Program (Guarded σ L) (Halt ε) α)
      plain := by
  intro guarded free
  rw [Guarded.operate]
  split
  · exact lift plain guarded free
  · next interrupts isNext =>
    have hasNext : guarded.interrupts ≠ [] := by
      rw [isNext]
      exact List.cons_ne_nil _ _
    have lifted : Follows broken locks (Guarded.lift plain) plain := lift plain
    apply (lifted { guarded with interrupts } free).mono _ _ (fun stops => stops)
    · exact fun _ _ known => ⟨known.1, known.2.1, fun calm => absurd calm hasNext⟩
    · intro halt after known
      rcases known with ⟨sameHeld, error, isFault, ends⟩
      exact ⟨sameHeld, error, isFault, ends.imp_left fun fails => ⟨fails.1, hasNext⟩⟩
  · next isNext => exact ⟨rfl, broken, rfl, .inl ⟨rfl, by rw [isNext]; exact List.cons_ne_nil _ _⟩⟩

theorem bind {next : α → Program (Guarded σ L) (Halt ε) β} {plainNext : α → Program σ ε β}
    (first : Follows broken locks program plain)
    (rest : ∀ value, Follows broken locks (next value) (plainNext value)) :
    Follows broken locks (program >>= next) (plain >>= plainNext) := by
  intro guarded free
  rw [Program.bind_apply, Program.bind_apply]
  have meets := first guarded free
  cases ended : program guarded with
  | ok value middle =>
    rw [ended] at meets
    rcases meets with ⟨isPlain, sameHeld, calm⟩
    simp only [isPlain]
    have meetsRest := rest value middle fun lock member => by rw [sameHeld, free lock member]
    rw [sameHeld] at meetsRest
    apply meetsRest.mono _ _ (fun stops => stops)
    · exact fun _ _ known => ⟨known.1, known.2.1, fun isCalm => known.2.2 (calm isCalm)⟩
    · intro halt after known
      rcases known with ⟨stillHeld, error, isFault, ends⟩
      exact ⟨stillHeld, error, isFault, ends.imp_left fun fails => ⟨fails.1, mt calm fails.2⟩⟩
  | error halt middle =>
    rw [ended] at meets
    rcases meets with ⟨sameHeld, error, isFault, known⟩
    refine ⟨sameHeld, error, isFault, known.imp_right fun isPlain => ?_⟩
    rw [isPlain]
  | panic =>
    rw [ended] at meets
    have isPlain : plain guarded.state = .panic := meets
    simp only [isPlain]
    exact trivial

theorem access (follows : Follows broken locks program plain) :
    Follows broken locks (Guarded.access broken >>= fun _ => program) plain := by
  have first : Follows broken locks (Guarded.access broken : Program (Guarded σ L) (Halt ε) PUnit)
      (Pure.pure ⟨⟩) :=
    .operate _
  exact first.bind fun _ => follows

theorem ite {condition : Prop} [Decidable condition]
    {other : Program (Guarded σ L) (Halt ε) α} {plainOther : Program σ ε α}
    (left : Follows broken locks program plain) (right : Follows broken locks other plainOther) :
    Follows broken locks (if condition then program else other)
      (if condition then plain else plainOther) := by
  split
  · exact left
  · exact right

theorem finishes (follows : Follows broken locks program plain) {guarded : Guarded σ L}
    (free : ∀ lock ∈ locks, guarded.held lock = false) (ends : plain guarded.state ≠ .panic) :
    Finishes guarded (program guarded) := by
  apply (follows guarded free).mono
  · exact fun _ _ known => known.2.1
  · intro halt after known
    rcases known with ⟨sameHeld, error, rfl, _⟩
    exact ⟨nofun, sameHeld⟩
  · exact ends

/-- Without interrupts, the program stops where the plain one stops. -/
theorem panics (follows : Follows broken locks program plain) {guarded : Guarded σ L}
    (free : ∀ lock ∈ locks, guarded.held lock = false) (calm : guarded.interrupts = [])
    (stops : plain guarded.state = .panic) : program guarded = .panic := by
  have meets := follows guarded free
  cases ended : program guarded with
  | ok value after =>
    rw [ended] at meets
    cases meets.1.symm.trans stops
  | error halt after =>
    rw [ended] at meets
    rcases meets with ⟨_, error, _, fails | isPlain⟩
    · exact absurd calm fails.2
    · cases isPlain.symm.trans stops
  | panic => rfl

end Sequencing

/-- A scope with a guard needs its lock free, and it must not take the lock again. -/
theorem withLock {broken : ε} {lock : L} {locks : List L}
    {program : Program (Guarded σ L) (Halt ε) α} {plain : Program σ ε α}
    (follows : Follows broken locks program plain) (isOther : lock ∉ locks) :
    Follows broken (lock :: locks) (Guarded.withLock lock program) plain := by
  intro guarded free
  have isFree : guarded.held lock = false := free lock List.mem_cons_self
  have meets := follows (guarded.setHeld lock true) fun other member => by
    have different : other ≠ lock := fun same => isOther (same ▸ member)
    exact (Function.update_of_ne different _ _).trans (free other (List.mem_cons_of_mem _ member))
  rw [Guarded.withLock, if_neg (Bool.eq_false_iff.mp isFree)]
  cases ended : program (guarded.setHeld lock true) with
  | ok value after =>
    rw [ended] at meets
    exact ⟨meets.1, held_setHeld isFree meets.2.1, meets.2.2⟩
  | error halt after =>
    rw [ended] at meets
    rcases meets with ⟨sameHeld, error, rfl, known⟩
    exact ⟨held_setHeld isFree sameHeld, error, rfl, known⟩
  | panic =>
    rw [ended] at meets
    exact meets

end Follows

end Guarded

end PersonaOS
