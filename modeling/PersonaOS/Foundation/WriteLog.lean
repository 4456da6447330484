import Mathlib.Data.List.Nodup
import Mathlib.Logic.Function.Basic

/-! # Logs of writes

A store that is written one place at a time goes through as many contents as there are
writes. When the power fails the store is left at one of them: the first writes of the log
have happened and the others have not. -/

namespace PersonaOS

variable {α : Type u} {β : Type v} [DecidableEq α]

def replay (store : α → β) (writes : List (α × β)) : α → β :=
  writes.foldl (fun store write => Function.update store write.1 write.2) store

theorem replay_cons (store : α → β) (write : α × β) (writes : List (α × β)) :
    replay store (write :: writes) = replay (Function.update store write.1 write.2) writes := rfl

theorem replay_append (store : α → β) (first second : List (α × β)) :
    replay store (first ++ second) = replay (replay store first) second :=
  List.foldl_append

theorem replay_of_forall_ne {store : α → β} {writes : List (α × β)} {place : α}
    (others : ∀ write ∈ writes, write.1 ≠ place) : replay store writes place = store place := by
  induction writes generalizing store with
  | nil => rfl
  | cons write writes induction =>
    rw [replay_cons, induction fun later member => others later (List.mem_cons_of_mem _ member)]
    exact Function.update_of_ne (others write List.mem_cons_self).symm _ _

/-- The property holds whenever the power fails. -/
def Survives (holds : (α → β) → Prop) (store : α → β) (writes : List (α × β)) : Prop :=
  ∀ n, holds (replay store (writes.take n))

namespace Survives

variable {holds weaker : (α → β) → Prop} {store : α → β} {first second : List (α × β)}

theorem nil (initial : holds store) : Survives holds store [] := by
  intro n
  rw [List.take_nil]
  exact initial

theorem singleton {write : α × β} (before : holds store)
    (after : holds (Function.update store write.1 write.2)) : Survives holds store [write] := by
  intro n
  cases n with
  | zero => exact before
  | succ n =>
    rw [List.take_succ_cons, List.take_nil]
    exact after

theorem append (start : Survives holds store first)
    (rest : Survives holds (replay store first) second) :
    Survives holds store (first ++ second) := by
  intro n
  rw [List.take_append, replay_append]
  by_cases early : n ≤ first.length
  · rw [Nat.sub_eq_zero_of_le early, List.take_zero]
    exact start n
  · rw [List.take_of_length_le (Nat.le_of_not_le early)]
    exact rest (n - first.length)

end Survives

end PersonaOS
