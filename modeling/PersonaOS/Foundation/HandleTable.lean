import PersonaOS.Foundation.Trace

/-! # Tables that hand out numbers

Objects are put into the slot with the next number and taken out by their number. The numbers
only go up, so none is handed out twice. -/

namespace PersonaOS

structure HandleTable (τ : Type u) (ο : Type v) where
  next : τ → Int
  get : τ → Int → Option ο
  /-- Nothing is returned when the numbers have run out. -/
  install : τ → ο → Option (Int × τ)
  remove : τ → Int → τ
  install_spec : ∀ {table after object id}, install table object = some (id, after) →
    id = next table ∧ next after = id + 1 ∧ get after = Function.update (get table) id (some object)
  remove_spec : ∀ table id,
    next (remove table id) = next table ∧
      get (remove table id) = Function.update (get table) id none

namespace HandleTable

inductive Event (ο : Type v) where
  | installed (object : ο) (id : Int)
  | removed (id : Int)

variable {τ : Type u} {ο : Type v} (handles : HandleTable τ ο)

def Step (table : τ) : Event ο → τ → Prop
  | .installed object id, after => handles.install table object = some (id, after)
  | .removed id, after => after = handles.remove table id

structure Numbered (table : τ) : Prop where
  next_nonneg : 0 ≤ handles.next table
  lt_next : ∀ id, handles.get table id ≠ none → id < handles.next table

/-- Each number is returned once, for a slot that is empty, and never stands for another object
than the one it was returned for. -/
structure NeverRecycles (start : τ) : Prop where
  fresh : ∀ events table, Trace handles.Step start events table →
    ∀ object id after, handles.install table object = some (id, after) →
      0 ≤ id ∧ (∀ other, Event.installed other id ∉ events) ∧ handles.get table id = none
  denotes : ∀ events table, Trace handles.Step start events table →
    ∀ object id, Event.installed object id ∈ events →
      handles.get table id = none ∨ handles.get table id = some object

variable {handles} {table after first last start : τ} {event : Event ο} {events : List (Event ο)}

theorem next_le_of_step (step : handles.Step table event after) :
    handles.next table ≤ handles.next after := by
  cases event with
  | installed object id =>
    rcases handles.install_spec step with ⟨isNext, isAfter, _⟩
    omega
  | removed id =>
    cases step
    exact Int.le_of_eq (handles.remove_spec table id).1.symm

theorem get_of_step {id : Int} (step : handles.Step table event after)
    (isOld : id < handles.next table) :
    handles.get after id = none ∨ handles.get after id = handles.get table id := by
  cases event with
  | installed object new =>
    rcases handles.install_spec step with ⟨isNext, _, isGet⟩
    rw [isGet, Function.update_of_ne (by omega)]
    exact .inr rfl
  | removed gone =>
    cases step
    rw [(handles.remove_spec table gone).2]
    by_cases same : id = gone
    · rw [same, Function.update_self]
      exact .inl rfl
    · rw [Function.update_of_ne same]
      exact .inr rfl

theorem Numbered.step (numbered : handles.Numbered table)
    (step : handles.Step table event after) : handles.Numbered after := by
  have grows := next_le_of_step step
  refine ⟨Int.le_trans numbered.next_nonneg grows, ?_⟩
  intro id isUsed
  by_cases isOld : id < handles.next table
  · omega
  · have wasFree : handles.get table id = none := by
      by_contra wasUsed
      exact isOld (numbered.lt_next id wasUsed)
    cases event with
    | installed object new =>
      rcases handles.install_spec step with ⟨isNext, isAfter, isGet⟩
      by_cases same : id = new
      · omega
      · rw [isGet, Function.update_of_ne same] at isUsed
        exact absurd wasFree isUsed
    | removed gone =>
      cases step
      rw [(handles.remove_spec table gone).2] at isUsed
      by_cases same : id = gone
      · rw [same, Function.update_self] at isUsed
        exact absurd rfl isUsed
      · rw [Function.update_of_ne same] at isUsed
        exact absurd wasFree isUsed

theorem installed_of_trace (trace : Trace handles.Step first events last) {object : ο} {id : Int}
    (isIn : Event.installed object id ∈ events) :
    id < handles.next last ∧
      (handles.get last id = none ∨ handles.get last id = some object) := by
  induction events using List.reverseRecOn generalizing last with
  | nil => cases isIn
  | append_singleton events event induction =>
    rcases trace.split with ⟨middle, start, finish⟩
    cases finish with
    | cons step rest =>
      cases rest
      have grows := next_le_of_step step
      rcases List.mem_append.mp isIn with isEarlier | isLast
      · rcases induction start isEarlier with ⟨isOld, stands⟩
        refine ⟨Int.lt_of_lt_of_le isOld grows, ?_⟩
        rcases get_of_step step isOld with isGone | isKept
        · exact .inl isGone
        · rw [isKept]
          exact stands
      · rw [← List.mem_singleton.mp isLast] at step
        rcases handles.install_spec step with ⟨_, isAfter, isGet⟩
        refine ⟨by omega, .inr ?_⟩
        rw [isGet, Function.update_self]

theorem Numbered.neverRecycles (numbered : handles.Numbered start) :
    handles.NeverRecycles start where
  fresh events table trace object id after installs := by
    have stays := trace.invariant handles.Numbered (fun holds step => holds.step step) numbered
    have isNext := (handles.install_spec installs).1
    have isPositive := stays.next_nonneg
    refine ⟨by omega, ?_, ?_⟩
    · intro other isIn
      have isOld := (installed_of_trace trace isIn).1
      omega
    · by_contra isUsed
      have isOld := stays.lt_next id isUsed
      omega
  denotes events table trace object id isIn := (installed_of_trace trace isIn).2

end HandleTable

end PersonaOS
