import Mathlib.Algebra.Ring.Nat
import Mathlib.Data.List.Induction
import Mathlib.Data.List.Range
import PersonaOS.Foundation.StandsBehind
import PersonaOS.Foundation.Ring

/-! # The keyboard

The decoder of `kernel/src/drivers/ps2.rs`, which turns scancodes of set 1 into characters,
and the two queues every character goes into: one for the terminal and one for the
compositor. -/

namespace PersonaOS.Drivers.Ps2

/-! ## Scancodes -/

structure Keyboard where
  shift : Bool
  caps : Bool
  extended : Bool
  deriving DecidableEq, Repr

def letter (b : UInt8) (shift caps : Bool) : UInt8 := if shift != caps then b - 32 else b

def shifted (normal shifted : UInt8) (shift : Bool) : UInt8 := if shift then shifted else normal

def translateSet1 (code : UInt8) (shift caps : Bool) : Option UInt8 :=
  match code with
  | 0x01 => some 0x1B
  | 0x02 => some (shifted 0x31 0x21 shift)
  | 0x03 => some (shifted 0x32 0x40 shift)
  | 0x04 => some (shifted 0x33 0x23 shift)
  | 0x05 => some (shifted 0x34 0x24 shift)
  | 0x06 => some (shifted 0x35 0x25 shift)
  | 0x07 => some (shifted 0x36 0x5E shift)
  | 0x08 => some (shifted 0x37 0x26 shift)
  | 0x09 => some (shifted 0x38 0x2A shift)
  | 0x0A => some (shifted 0x39 0x28 shift)
  | 0x0B => some (shifted 0x30 0x29 shift)
  | 0x0C => some (shifted 0x2D 0x5F shift)
  | 0x0D => some (shifted 0x3D 0x2B shift)
  | 0x0E => some 0x08
  | 0x0F => some 0x09
  | 0x10 => some (letter 0x71 shift caps)
  | 0x11 => some (letter 0x77 shift caps)
  | 0x12 => some (letter 0x65 shift caps)
  | 0x13 => some (letter 0x72 shift caps)
  | 0x14 => some (letter 0x74 shift caps)
  | 0x15 => some (letter 0x79 shift caps)
  | 0x16 => some (letter 0x75 shift caps)
  | 0x17 => some (letter 0x69 shift caps)
  | 0x18 => some (letter 0x6F shift caps)
  | 0x19 => some (letter 0x70 shift caps)
  | 0x1A => some (shifted 0x5B 0x7B shift)
  | 0x1B => some (shifted 0x5D 0x7D shift)
  | 0x1C => some 0x0A
  | 0x1E => some (letter 0x61 shift caps)
  | 0x1F => some (letter 0x73 shift caps)
  | 0x20 => some (letter 0x64 shift caps)
  | 0x21 => some (letter 0x66 shift caps)
  | 0x22 => some (letter 0x67 shift caps)
  | 0x23 => some (letter 0x68 shift caps)
  | 0x24 => some (letter 0x6A shift caps)
  | 0x25 => some (letter 0x6B shift caps)
  | 0x26 => some (letter 0x6C shift caps)
  | 0x27 => some (shifted 0x3B 0x3A shift)
  | 0x28 => some (shifted 0x27 0x22 shift)
  | 0x29 => some (shifted 0x60 0x7E shift)
  | 0x2B => some (shifted 0x5C 0x7C shift)
  | 0x2C => some (letter 0x7A shift caps)
  | 0x2D => some (letter 0x78 shift caps)
  | 0x2E => some (letter 0x63 shift caps)
  | 0x2F => some (letter 0x76 shift caps)
  | 0x30 => some (letter 0x62 shift caps)
  | 0x31 => some (letter 0x6E shift caps)
  | 0x32 => some (letter 0x6D shift caps)
  | 0x33 => some (shifted 0x2C 0x3C shift)
  | 0x34 => some (shifted 0x2E 0x3E shift)
  | 0x35 => some (shifted 0x2F 0x3F shift)
  | 0x39 => some 0x20
  | _ => none

namespace Keyboard

def new : Keyboard := { shift := false, caps := false, extended := false }

/-- The keys that change the state only: the two shift keys and caps lock. -/
def isShift (code : UInt8) : Bool := code == 0x2A || code == 0x36

def isCaps (code : UInt8) : Bool := code == 0x3A

def decode (keyboard : Keyboard) (scancode : UInt8) : Keyboard × Option UInt8 :=
  if scancode = 0xE0 then
    ({ keyboard with extended := true }, none)
  else if scancode = 0xE1 then
    (keyboard, none)
  else
    let released := scancode &&& 0x80 != 0
    let code := scancode &&& 0x7F
    if isShift code then
      ({ keyboard with shift := !released }, none)
    else if isCaps code && !released then
      ({ keyboard with caps := !keyboard.caps }, none)
    else if released then
      (keyboard, none)
    else if keyboard.extended then
      ({ keyboard with extended := false }, none)
    else
      (keyboard, translateSet1 code keyboard.shift keyboard.caps)

def decodeAll (keyboard : Keyboard) : List UInt8 → List UInt8
  | [] => []
  | scancode :: scancodes =>
    (keyboard.decode scancode).2.toList ++ (keyboard.decode scancode).1.decodeAll scancodes

def after (keyboard : Keyboard) : List UInt8 → Keyboard
  | [] => keyboard
  | scancode :: scancodes => (keyboard.decode scancode).1.after scancodes

end Keyboard

/-! ## Key events -/

/-- A key goes down or up. The bytes of an extended key begin with `0xE0`. -/
structure KeyEvent where
  extended : Bool
  code : UInt8
  released : Bool
  inRange : 0x01 ≤ code ∧ code ≤ 0x58

namespace KeyEvent

open Keyboard

def scancode (event : KeyEvent) : UInt8 :=
  if event.released then event.code ||| 0x80 else event.code

def scancodes (event : KeyEvent) : List UInt8 :=
  if event.extended then [0xE0, event.scancode] else [event.scancode]

/-- A shift key is down: the last event of one was a press. -/
def heldShift (events : List KeyEvent) : Bool :=
  (events.reverse.find? fun event => isShift event.code).any fun event => !event.released

/-- Caps lock is on: it was pressed an odd number of times. -/
def lockedCaps (events : List KeyEvent) : Bool :=
  events.countP (fun event => isCaps event.code && !event.released) % 2 == 1

def character (earlier : List KeyEvent) (event : KeyEvent) : Option UInt8 :=
  if event.extended || event.released then none
  else translateSet1 event.code (heldShift earlier) (lockedCaps earlier)

/-- The characters of the events behind `before`, by what an event gives after others. -/
def gather (gives : List KeyEvent → KeyEvent → Option UInt8) (before : List KeyEvent) :
    List KeyEvent → List UInt8
  | [] => []
  | event :: events => (gives before event).toList ++ gather gives (before ++ [event]) events

def plain (events : List KeyEvent) : List KeyEvent := events.filter fun event => !event.extended

/-- The characters that the keyboard should give. Extended keys have no part in them. -/
def typed (events : List KeyEvent) : List UInt8 :=
  gather (fun earlier => character (plain earlier)) [] events

def isOther (event : KeyEvent) : Bool := !isShift event.code && !isCaps event.code

/-- The event leaves the mark of an extended key behind. -/
def leavesMark (event : KeyEvent) : Bool :=
  event.extended && (event.released || !event.isOther)

def clearsMark (event : KeyEvent) : Bool := !event.released && event.isOther

/-- The mark of an extended key that is over is still there. -/
def marked (events : List KeyEvent) : Bool :=
  (events.reverse.find? fun event => event.leavesMark || event.clearsMark).any leavesMark

def stateAfter (events : List KeyEvent) : Keyboard where
  shift := heldShift events
  caps := lockedCaps events
  extended := marked events

theorem heldShift_concat (events : List KeyEvent) (event : KeyEvent) :
    heldShift (events ++ [event]) =
      if isShift event.code then !event.released else heldShift events := by
  rw [heldShift, heldShift, List.reverse_append, List.reverse_singleton, List.singleton_append,
    List.find?_cons]
  cases isShift event.code <;> rfl

theorem lockedCaps_concat (events : List KeyEvent) (event : KeyEvent) :
    lockedCaps (events ++ [event]) =
      if isCaps event.code && !event.released then !lockedCaps events else lockedCaps events := by
  rw [lockedCaps, lockedCaps, List.countP_append, List.countP_singleton]
  cases isCaps event.code && !event.released
  · simp
  · have parity := Nat.mod_two_eq_zero_or_one
      (events.countP fun event => isCaps event.code && !event.released)
    rcases parity with isEven | isOdd
    · simp [Nat.add_mod, isEven]
    · simp [Nat.add_mod, isOdd]

theorem marked_concat (events : List KeyEvent) (event : KeyEvent) :
    marked (events ++ [event]) =
      if event.leavesMark || event.clearsMark then event.leavesMark else marked events := by
  rw [marked, marked, List.reverse_append, List.reverse_singleton, List.singleton_append,
    List.find?_cons]
  cases event.leavesMark || event.clearsMark <;> rfl

theorem scancode_spec (event : KeyEvent) :
    event.scancode ≠ 0xE0 ∧ event.scancode ≠ 0xE1 ∧ event.scancode &&& 0x7F = event.code ∧
      (event.scancode &&& 0x80 != 0) = event.released := by
  have all : ∀ n, n < 0x59 → ∀ released : Bool,
      let code := UInt8.ofNat n
      let byte := if released then code ||| 0x80 else code
      byte ≠ 0xE0 ∧ byte ≠ 0xE1 ∧ byte &&& 0x7F = code ∧ (byte &&& 0x80 != 0) = released := by
    decide
  have small : event.code.toNat < 0x59 := by
    have := UInt8.le_iff_toNat_le.mp event.inRange.2
    exact Nat.lt_succ_of_le this
  have spec := all event.code.toNat small event.released
  rw [UInt8.ofNat_toNat] at spec
  exact spec

theorem decode_scancode (keyboard : Keyboard) (event : KeyEvent) :
    keyboard.decode event.scancode =
      if isShift event.code then
        ({ keyboard with shift := !event.released }, none)
      else if isCaps event.code && !event.released then
        ({ keyboard with caps := !keyboard.caps }, none)
      else if event.released then
        (keyboard, none)
      else if keyboard.extended then
        ({ keyboard with extended := false }, none)
      else
        (keyboard, translateSet1 event.code keyboard.shift keyboard.caps) := by
  rcases event.scancode_spec with ⟨notE0, notE1, isCode, isReleased⟩
  simp only [decode, if_neg notE0, if_neg notE1, isCode, isReleased]

theorem eq_of_isShift {code : UInt8} (isShiftKey : isShift code = true) :
    code = 0x2A ∨ code = 0x36 := by
  simpa [isShift] using isShiftKey

theorem not_isCaps_of_isShift {code : UInt8} (isShiftKey : isShift code = true) :
    isCaps code = false := by
  rcases eq_of_isShift isShiftKey with rfl | rfl <;> rfl

theorem translateSet1_of_isShift {code : UInt8} (isShiftKey : isShift code = true)
    (shift caps : Bool) : translateSet1 code shift caps = none := by
  rcases eq_of_isShift isShiftKey with rfl | rfl <;> rfl

theorem translateSet1_of_isCaps {code : UInt8} (isCapsKey : isCaps code = true)
    (shift caps : Bool) : translateSet1 code shift caps = none := by
  have isCode : code = 0x3A := by simpa [isCaps] using isCapsKey
  rw [isCode]
  rfl

def mark (keyboard : Keyboard) (event : KeyEvent) : Keyboard :=
  { keyboard with extended := keyboard.extended || event.extended }

theorem scancodes_eq (keyboard : Keyboard) (event : KeyEvent) :
    keyboard.after event.scancodes = ((mark keyboard event).decode event.scancode).1 ∧
      keyboard.decodeAll event.scancodes =
        ((mark keyboard event).decode event.scancode).2.toList := by
  by_cases isExtended : event.extended = true
  · have isMarked : mark keyboard event = (keyboard.decode 0xE0).1 := by
      rw [mark, isExtended, Bool.or_true]
      rfl
    have noOutput : (keyboard.decode 0xE0).2 = none := rfl
    rw [scancodes, if_pos isExtended, isMarked, Keyboard.after, Keyboard.after, Keyboard.after,
      decodeAll, decodeAll, decodeAll, noOutput, List.append_nil]
    exact ⟨rfl, rfl⟩
  · have isSame : mark keyboard event = keyboard := by
      rw [mark, eq_false_of_ne_true isExtended, Bool.or_false]
    rw [scancodes, if_neg isExtended, isSame, Keyboard.after, Keyboard.after, decodeAll,
      decodeAll, List.append_nil]
    exact ⟨rfl, rfl⟩

theorem after_scancodes (before : List KeyEvent) (event : KeyEvent) :
    (stateAfter before).after event.scancodes = stateAfter (before ++ [event]) := by
  rw [(scancodes_eq _ _).1, decode_scancode, stateAfter, stateAfter, heldShift_concat,
    lockedCaps_concat, marked_concat, leavesMark, clearsMark, isOther, mark]
  by_cases isShiftKey : isShift event.code = true
  · have notCaps := not_isCaps_of_isShift isShiftKey
    cases event.released <;> cases event.extended <;> simp [isShiftKey, notCaps]
  · by_cases isCapsKey : isCaps event.code = true
    · cases event.released <;> cases event.extended <;> simp [isShiftKey, isCapsKey]
    · cases event.released <;> cases event.extended <;> cases marked before <;>
        simp [isShiftKey, isCapsKey]

/-- What the decoder makes of an event: nothing, if a mark is left from before. -/
def decoded (earlier : List KeyEvent) (event : KeyEvent) : Option UInt8 :=
  if marked earlier then none else character earlier event

theorem decodeAll_scancodes (before : List KeyEvent) (event : KeyEvent) :
    (stateAfter before).decodeAll event.scancodes = (decoded before event).toList := by
  rw [(scancodes_eq _ _).2, decode_scancode, stateAfter, decoded, character, mark]
  by_cases isShiftKey : isShift event.code = true
  · simp [isShiftKey, translateSet1_of_isShift isShiftKey]
  · by_cases isCapsKey : isCaps event.code = true
    · cases event.released <;> simp [isShiftKey, isCapsKey, translateSet1_of_isCaps isCapsKey]
    · cases event.released <;> cases event.extended <;> cases marked before <;>
        simp [isShiftKey, isCapsKey]

theorem decodeAll_append (keyboard : Keyboard) (first rest : List UInt8) :
    keyboard.decodeAll (first ++ rest) =
      keyboard.decodeAll first ++ (keyboard.after first).decodeAll rest := by
  induction first generalizing keyboard with
  | nil => rfl
  | cons scancode first induction =>
    rw [List.cons_append, decodeAll, decodeAll, induction, List.append_assoc, Keyboard.after]

theorem decodeAll_flatMap (before events : List KeyEvent) :
    (stateAfter before).decodeAll (events.flatMap scancodes) = gather decoded before events := by
  induction events generalizing before with
  | nil => rfl
  | cons event events induction =>
    rw [List.flatMap_cons, decodeAll_append, decodeAll_scancodes, after_scancodes, induction,
      gather]

section Gathering

variable {gives other : List KeyEvent → KeyEvent → Option UInt8}

theorem length_toList_le {α : Type u} {value more : Option α}
    (isMore : value.isSome = true → more.isSome = true) :
    value.toList.length ≤ more.toList.length := by
  cases value with
  | none => exact Nat.zero_le _
  | some content =>
    rcases Option.isSome_iff_exists.mp (isMore rfl) with ⟨_, rfl⟩
    exact Nat.le_refl 1

theorem length_gather_le
    (isMore : ∀ before event, (gives before event).isSome = true →
      (other before event).isSome = true) (before events : List KeyEvent) :
    (gather gives before events).length ≤ (gather other before events).length := by
  induction events generalizing before with
  | nil => exact Nat.le_refl 0
  | cons event events induction =>
    rw [gather, gather, List.length_append, List.length_append]
    exact Nat.add_le_add (length_toList_le (isMore before event)) (induction _)

/-- Where one side never gives more, the characters agree only if they do so event by event. -/
theorem gather_eq_iff
    (isMore : ∀ before event, (gives before event).isSome = true →
      (other before event).isSome = true) (before events : List KeyEvent) :
    gather gives before events = gather other before events ↔
      ∀ more event, StandsBehind events more event →
        gives (before ++ more) event = other (before ++ more) event := by
  induction events generalizing before with
  | nil =>
    exact iff_of_true rfl fun more event behind => absurd behind not_standsBehind_nil
  | cons event events induction =>
    rw [forall_standsBehind_cons (fun before event => gives before event = other before event),
      ← induction, gather, gather]
    constructor
    · intro same
      have sameLength := congrArg List.length same
      rw [List.length_append, List.length_append] at sameLength
      have less := length_toList_le (isMore before event)
      have lessRest := length_gather_le isMore (before ++ [event]) events
      rcases List.append_inj same (by omega) with ⟨sameFirst, sameRest⟩
      have sameHead := congrArg List.head? sameFirst
      rw [Option.head?_toList, Option.head?_toList] at sameHead
      exact ⟨sameHead, sameRest⟩
    · intro both
      rw [both.1, both.2]

end Gathering

theorem isSome_translateSet1 (code : UInt8) (shift caps : Bool) :
    (translateSet1 code shift caps).isSome = (translateSet1 code false false).isSome := by
  have all : ∀ n, n < 256 → ∀ shift caps : Bool,
      (translateSet1 (UInt8.ofNat n) shift caps).isSome =
        (translateSet1 (UInt8.ofNat n) false false).isSome := by
    decide +kernel
  have isSame := all code.toNat code.toNat_lt shift caps
  rw [UInt8.ofNat_toNat] at isSame
  exact isSame

theorem character_of_press {event : KeyEvent} (isPlain : event.extended = false)
    (isPress : event.released = false) (earlier : List KeyEvent) :
    character earlier event =
      translateSet1 event.code (heldShift earlier) (lockedCaps earlier) := by
  rw [character, isPlain, isPress]
  rfl

theorem isSome_character (earlier other : List KeyEvent) (event : KeyEvent) :
    (character earlier event).isSome = (character other event).isSome := by
  rw [character, character]
  split
  · rfl
  · rw [isSome_translateSet1, isSome_translateSet1 _ (heldShift other)]

/-- Decoding gives the right characters if and only if before every press of a plain key that
has a character no mark is left, and shift and caps lock give it the same character with and
without the extended keys. -/
theorem decodeAll_eq_typed_iff (events : List KeyEvent) :
    Keyboard.new.decodeAll (events.flatMap scancodes) = typed events ↔
      ∀ before event, StandsBehind events before event → event.extended = false →
        event.released = false → (translateSet1 event.code false false).isSome = true →
        marked before = false ∧
          translateSet1 event.code (heldShift before) (lockedCaps before) =
            translateSet1 event.code (heldShift (plain before)) (lockedCaps (plain before)) := by
  have isMore : ∀ before event, (decoded before event).isSome = true →
      (character (plain before) event).isSome = true := by
    intro before event isSome
    rw [decoded] at isSome
    split at isSome
    · cases isSome
    · rw [isSome_character _ before]
      exact isSome
  have isNew : Keyboard.new = stateAfter [] := rfl
  rw [isNew, decodeAll_flatMap, typed, gather_eq_iff isMore]
  apply forall_congr'
  intro before
  apply forall_congr'
  intro event
  apply imp_congr_right
  intro _
  rw [List.nil_append, decoded]
  constructor
  · intro same isPlain isPress hasCharacter
    rw [character_of_press isPlain isPress, character_of_press isPlain isPress] at same
    split at same
    · rw [← isSome_translateSet1 event.code (heldShift (plain before)) (lockedCaps (plain before)),
        ← same] at hasCharacter
      cases hasCharacter
    · next notMarked => exact ⟨eq_false_of_ne_true notMarked, same⟩
  · intro right
    by_cases isPress : event.extended = false ∧ event.released = false
    · by_cases hasCharacter : (translateSet1 event.code false false).isSome = true
      · rcases right isPress.1 isPress.2 hasCharacter with ⟨notMarked, same⟩
        rw [notMarked, character_of_press isPress.1 isPress.2,
          character_of_press isPress.1 isPress.2]
        exact same
      · have isNone (earlier : List KeyEvent) : character earlier event = none := by
          rw [character_of_press isPress.1 isPress.2, ← Option.not_isSome_iff_eq_none,
            isSome_translateSet1]
          exact hasCharacter
        rw [isNone, isNone, ite_self]
    · have isNone (earlier : List KeyEvent) : character earlier event = none := by
        rw [character, if_pos]
        cases isExtended : event.extended <;> cases isReleased : event.released <;>
          simp [isExtended, isReleased] at isPress ⊢
      rw [isNone, isNone, ite_self]

/-- An arrow key goes down and up, then the key `A` goes down: its character is lost. -/
theorem decodeAll_lost :
    ∃ events : List KeyEvent,
      events.flatMap scancodes = [0xE0, 0x4B, 0xE0, 0xCB, 0x1E] ∧
        typed events = [0x61] ∧ Keyboard.new.decodeAll (events.flatMap scancodes) = [] :=
  ⟨[{ extended := true, code := 0x4B, released := false, inRange := by decide },
    { extended := true, code := 0x4B, released := true, inRange := by decide },
    { extended := false, code := 0x1E, released := false, inRange := by decide }],
    by decide, by decide, by decide⟩

end KeyEvent

/-! ## The queues

The elements of the queues are bytes. To tell two presses of one key apart they may be anything
that has a byte. -/

structure Queues (α : Type u) where
  tty : Ring α 32
  events : Ring α 32

namespace Queues

variable {α : Type u} {β : Type v}

def new (zero : α) : Queues α where
  tty := { buf := fun _ => zero, head := 0, len := 0 }
  events := { buf := fun _ => zero, head := 0, len := 0 }

def push (queues : Queues α) (value : α) : Queues α where
  tty := queues.tty.push value
  events := queues.events.push value

/-- `poll_byte`, once the ports are read. -/
def pollByte (queues : Queues α) : Option α × Queues α :=
  (queues.tty.pop.1, { queues with tty := queues.tty.pop.2 })

/-- `poll_event_byte`, once the ports are read. -/
def pollEventByte (byte : α → UInt8) (queues : Queues α) : Option α × Queues α :=
  match queues.events.pop.1 with
  | none => (none, queues)
  | some value =>
    (some value,
      { events := queues.events.pop.2
        tty :=
          if queues.tty.peek.map byte = some (byte value) then queues.tty.pop.2
          else queues.tty })

def map (convert : α → β) (queues : Queues α) : Queues β where
  tty := queues.tty.map convert
  events := queues.events.map convert

theorem pollEventByte_of_empty (byte : α → UInt8) {queues : Queues α}
    (isEmpty : queues.events.contents = []) : queues.pollEventByte byte = (none, queues) := by
  rw [pollEventByte, Ring.pop_of_empty isEmpty]

theorem pollEventByte_of_cons (byte : α → UInt8) {queues : Queues α} {value : α} {rest : List α}
    (isCons : queues.events.contents = value :: rest) :
    (queues.pollEventByte byte).1 = some value ∧
      (queues.pollEventByte byte).2.events.contents = rest ∧
        (queues.pollEventByte byte).2.tty =
          if queues.tty.peek.map byte = some (byte value) then queues.tty.pop.2
          else queues.tty := by
  rcases Ring.pop_of_cons isCons with ⟨isFirst, isRest⟩
  rw [pollEventByte, isFirst]
  exact ⟨rfl, isRest, rfl⟩

end Queues

structure InputState where
  keyboard : Keyboard
  queues : Queues UInt8

/-- `poll_input`, by what the status and the data port read. -/
def pollInput (status data : UInt8) (input : InputState) : InputState :=
  if status &&& 0x01 = 0 then
    input
  else if status &&& 0x20 != 0 then
    input
  else
    { keyboard := (input.keyboard.decode data).1
      queues :=
        match (input.keyboard.decode data).2 with
        | some b => input.queues.push b
        | none => input.queues }

def pollByte (status data : UInt8) (input : InputState) : Option UInt8 × InputState :=
  let input := pollInput status data input
  (input.queues.pollByte.1, { input with queues := input.queues.pollByte.2 })

def pollEventByte (status data : UInt8) (input : InputState) : Option UInt8 × InputState :=
  let input := pollInput status data input
  ((input.queues.pollEventByte id).1, { input with queues := (input.queues.pollEventByte id).2 })

/-! ## Keystrokes

The lock is taken once to push a byte and once more to take one, so the steps of several
callers may come in any order. -/

inductive Step where
  | push (byte : UInt8)
  | pollByte
  | pollEventByte
  deriving DecidableEq, Repr

def Queues.step (queues : Queues UInt8) : Step → Option UInt8 × Queues UInt8
  | .push byte => (none, queues.push byte)
  | .pollByte => queues.pollByte
  | .pollEventByte => queues.pollEventByte id

def Queues.run (queues : Queues UInt8) (steps : List Step) : Queues UInt8 :=
  steps.foldl (fun queues step => (queues.step step).2) queues

/-- Each byte in the queues carries the number of its keystroke. -/
structure Tracked where
  queues : Queues (Nat × UInt8)
  pushed : Nat
  /-- The keystrokes that polls returned, the last one first. -/
  returned : List Nat

namespace Tracked

def start : Tracked where
  queues := .new (0, 0)
  pushed := 0
  returned := []

def answer (tracked : Tracked) : Step → Option (Nat × UInt8)
  | .push _ => none
  | .pollByte => tracked.queues.pollByte.1
  | .pollEventByte => (tracked.queues.pollEventByte Prod.snd).1

def step (tracked : Tracked) (step : Step) : Tracked where
  queues :=
    match step with
    | .push byte => tracked.queues.push (tracked.pushed, byte)
    | .pollByte => tracked.queues.pollByte.2
    | .pollEventByte => (tracked.queues.pollEventByte Prod.snd).2
  pushed :=
    match step with
    | .push _ => tracked.pushed + 1
    | .pollByte => tracked.pushed
    | .pollEventByte => tracked.pushed
  returned := ((tracked.answer step).map Prod.fst).toList ++ tracked.returned

def run (tracked : Tracked) (steps : List Step) : Tracked := steps.foldl step tracked

@[simp] theorem run_concat (tracked : Tracked) (steps : List Step) (last : Step) :
    tracked.run (steps ++ [last]) = (tracked.run steps).step last := by
  rw [run, run, List.foldl_concat]

theorem step_erased (tracked : Tracked) (step : Step) :
    (tracked.queues.map Prod.snd).step step =
      ((tracked.answer step).map Prod.snd, (tracked.step step).queues.map Prod.snd) := by
  cases step with
  | push byte => simp [Queues.step, Queues.push, Queues.map, answer, Tracked.step, Ring.map_push]
  | pollByte =>
    simp [Queues.step, Queues.pollByte, Queues.map, answer, Tracked.step, Ring.map_pop]
  | pollEventByte =>
    simp only [Queues.step, Queues.pollEventByte, Queues.map, answer, Tracked.step, Ring.map_pop,
      Ring.peek_eq_pop]
    cases tracked.queues.events.pop.1 with
    | none => rfl
    | some value =>
      simp only [Option.map_some, Option.map_map, id_eq]
      by_cases isSame : tracked.queues.tty.pop.1.map Prod.snd = some value.2
      · simp [isSame]
      · simp [isSame]

theorem run_erased (tracked : Tracked) (steps : List Step) :
    (tracked.queues.map Prod.snd).run steps = (tracked.run steps).queues.map Prod.snd := by
  induction steps generalizing tracked with
  | nil => rfl
  | cons step steps induction =>
    have isNext := congrArg Prod.snd (step_erased tracked step)
    rw [Queues.run, List.foldl_cons, isNext]
    exact induction (tracked.step step)

/-- A call of `poll_byte` or of `poll_event_byte`, with what the ports read. -/
structure Poll where
  status : UInt8
  data : UInt8
  forEvents : Bool

namespace Poll

def call (poll : Poll) (input : InputState) : Option UInt8 × InputState :=
  if poll.forEvents then Ps2.pollEventByte poll.status poll.data input
  else Ps2.pollByte poll.status poll.data input

/-- What the keyboard has sent; bytes of the mouse are dropped. -/
def scancodes (poll : Poll) : List UInt8 :=
  if poll.status &&& 0x01 = 0 ∨ poll.status &&& 0x20 ≠ 0 then [] else [poll.data]

def pushes (poll : Poll) (keyboard : Keyboard) : List Step :=
  (keyboard.decodeAll poll.scancodes).map .push

def takes (poll : Poll) : Step := if poll.forEvents then .pollEventByte else .pollByte

theorem pollInput_erased (poll : Poll) (keyboard : Keyboard) (tracked : Tracked) :
    pollInput poll.status poll.data ⟨keyboard, tracked.queues.map Prod.snd⟩ =
      ⟨keyboard.after poll.scancodes,
        (tracked.run (poll.pushes keyboard)).queues.map Prod.snd⟩ := by
  rw [← run_erased, pollInput, pushes, scancodes]
  by_cases none : poll.status &&& 0x01 = 0
  · simp [none, Keyboard.after, Keyboard.decodeAll, Queues.run]
  · by_cases mouse : poll.status &&& 0x20 = 0
    · cases isByte : (keyboard.decode poll.data).2 <;>
        simp [none, mouse, isByte, Keyboard.after, Keyboard.decodeAll, Queues.run, Queues.step]
    · simp [none, mouse, Keyboard.after, Keyboard.decodeAll, Queues.run]

/-- A call pushes the character of the scancode it reads, if there is one, and then takes
its step. -/
theorem call_erased (poll : Poll) (keyboard : Keyboard) (tracked : Tracked) :
    poll.call ⟨keyboard, tracked.queues.map Prod.snd⟩ =
      (((tracked.run (poll.pushes keyboard)).answer poll.takes).map Prod.snd,
        ⟨keyboard.after poll.scancodes,
          ((tracked.run (poll.pushes keyboard)).step poll.takes).queues.map Prod.snd⟩) := by
  have taken := congrArg
    (fun result => (result.1, InputState.mk (keyboard.after poll.scancodes) result.2))
    (step_erased (tracked.run (poll.pushes keyboard)) poll.takes)
  apply Eq.trans _ taken
  rw [call, takes]
  split
  · rw [Ps2.pollEventByte, pollInput_erased]
    rfl
  · rw [Ps2.pollByte, pollInput_erased]
    rfl

end Poll

/-- Every keystroke was returned once or waits for the terminal, and before those that wait the
compositor's queue has only keystrokes that were returned. -/
structure Tidy (tracked : Tracked) : Prop where
  perm : (tracked.returned ++ tracked.queues.tty.contents.map Prod.fst).Perm
    (List.range tracked.pushed)
  stale : ∃ old, tracked.queues.events.contents = old ++ tracked.queues.tty.contents ∧
    ∀ key, key ∈ old → key.1 ∈ tracked.returned

theorem tidy_start : start.Tidy := ⟨.refl _, [], rfl, fun _ isOld => absurd isOld List.not_mem_nil⟩

variable {tracked : Tracked}

theorem Tidy.nodup (tidy : tracked.Tidy) : tracked.returned.Nodup :=
  (List.nodup_append.mp (tidy.perm.nodup_iff.mpr List.nodup_range)).1

theorem Tidy.perm_of_cons (tidy : tracked.Tidy) {key : Nat × UInt8} {rest : List (Nat × UInt8)}
    (isTty : tracked.queues.tty.contents = key :: rest) :
    (key.1 :: tracked.returned ++ rest.map Prod.fst).Perm (List.range tracked.pushed) := by
  have isPerm := tidy.perm
  rw [isTty, List.map_cons] at isPerm
  exact List.perm_middle.symm.trans isPerm

theorem Tidy.push (tidy : tracked.Tidy) (roomTty : tracked.queues.tty.len < 32)
    (roomEvents : tracked.queues.events.len < 32) (byte : UInt8) :
    (tracked.step (.push byte)).Tidy := by
  have isTty : (tracked.step (.push byte)).queues.tty.contents =
      tracked.queues.tty.contents ++ [(tracked.pushed, byte)] := Ring.contents_push roomTty _
  have isEvents : (tracked.step (.push byte)).queues.events.contents =
      tracked.queues.events.contents ++ [(tracked.pushed, byte)] := Ring.contents_push roomEvents _
  have isReturned : (tracked.step (.push byte)).returned = tracked.returned := rfl
  have isPushed : (tracked.step (.push byte)).pushed = tracked.pushed + 1 := rfl
  constructor
  · rw [isTty, isReturned, isPushed, List.map_append, ← List.append_assoc, List.range_succ]
    exact tidy.perm.append_right _
  · rcases tidy.stale with ⟨old, isOld, areReturned⟩
    exact ⟨old, by rw [isEvents, isTty, isOld, List.append_assoc], areReturned⟩

theorem Tidy.pollByte (tidy : tracked.Tidy) : (tracked.step .pollByte).Tidy := by
  cases isTty : tracked.queues.tty.contents with
  | nil =>
    have isSame : tracked.step .pollByte = tracked := by
      simp [step, answer, Queues.pollByte, Ring.pop_of_empty isTty]
    rw [isSame]
    exact tidy
  | cons key rest =>
    rcases Ring.pop_of_cons isTty with ⟨isFirst, isRest⟩
    have isTtyAfter : (tracked.step .pollByte).queues.tty.contents = rest := isRest
    have isReturned : (tracked.step .pollByte).returned = key.1 :: tracked.returned := by
      simp [step, answer, Queues.pollByte, isFirst]
    have isPushed : (tracked.step .pollByte).pushed = tracked.pushed := rfl
    have isEvents : (tracked.step .pollByte).queues.events = tracked.queues.events := rfl
    constructor
    · rw [isTtyAfter, isReturned, isPushed]
      exact tidy.perm_of_cons isTty
    · rcases tidy.stale with ⟨old, isOld, areReturned⟩
      refine ⟨old ++ [key], ?_, ?_⟩
      · rw [isEvents, isOld, isTty, isTtyAfter, List.append_cons]
      · intro other isIn
        rw [isReturned]
        rcases List.mem_append.mp isIn with isOlder | isKey
        · exact List.mem_cons_of_mem _ (areReturned other isOlder)
        · rw [List.mem_singleton.mp isKey]
          exact List.mem_cons_self

theorem Tidy.pollEventByte (tidy : tracked.Tidy)
    (isShort : tracked.queues.events.len ≤ tracked.queues.tty.len) :
    (tracked.step .pollEventByte).Tidy := by
  rcases tidy.stale with ⟨old, isOld, areReturned⟩
  have noOld : old = [] := by
    have lengths := congrArg List.length isOld
    rw [List.length_append, Ring.length_contents, Ring.length_contents] at lengths
    exact List.eq_nil_of_length_eq_zero (by omega)
  rw [noOld, List.nil_append] at isOld
  cases isTty : tracked.queues.tty.contents with
  | nil =>
    have isSame : tracked.step .pollEventByte = tracked := by
      simp [step, answer, Queues.pollEventByte_of_empty Prod.snd (isOld.trans isTty)]
    rw [isSame]
    exact tidy
  | cons key rest =>
    rcases Queues.pollEventByte_of_cons Prod.snd (isOld.trans isTty) with
      ⟨isFirst, isRest, ttyAfter⟩
    rcases Ring.pop_of_cons isTty with ⟨ttyFirst, ttyRest⟩
    rw [Ring.peek_eq_pop, ttyFirst, Option.map_some, if_pos rfl] at ttyAfter
    have isTtyAfter : (tracked.step .pollEventByte).queues.tty.contents = rest := by
      rw [← ttyRest, ← ttyAfter]
      rfl
    have isReturned : (tracked.step .pollEventByte).returned = key.1 :: tracked.returned := by
      simp [step, answer, isFirst]
    have isPushed : (tracked.step .pollEventByte).pushed = tracked.pushed := rfl
    constructor
    · rw [isTtyAfter, isReturned, isPushed]
      exact tidy.perm_of_cons isTty
    · exact ⟨[], isRest.trans isTtyAfter.symm, fun _ isIn => absurd isIn List.not_mem_nil⟩

theorem Tidy.not_nodup_of_long (tidy : tracked.Tidy)
    (isLong : tracked.queues.tty.len < tracked.queues.events.len) :
    ¬ (tracked.step .pollEventByte).returned.Nodup := by
  rcases tidy.stale with ⟨old, isOld, areReturned⟩
  cases old with
  | nil =>
    have lengths := congrArg List.length isOld
    rw [List.nil_append, Ring.length_contents, Ring.length_contents] at lengths
    omega
  | cons key old =>
    rw [List.cons_append] at isOld
    have isFirst := (Queues.pollEventByte_of_cons Prod.snd isOld).1
    have isReturned : (tracked.step .pollEventByte).returned = key.1 :: tracked.returned := by
      simp [step, answer, isFirst]
    rw [isReturned, List.nodup_cons]
    exact fun both => both.1 (areReturned key List.mem_cons_self)

theorem not_nodup_step (twice : ¬ tracked.returned.Nodup) (step : Step) :
    ¬ (tracked.step step).returned.Nodup :=
  fun nodup => twice (List.nodup_append.mp nodup).2.1

theorem mem_returned_pollBytes {label : Nat}
    (waits : label ∈ tracked.queues.tty.contents.map Prod.fst) :
    ∃ count, label ∈ (tracked.run (List.replicate count .pollByte)).returned := by
  generalize isTty : tracked.queues.tty.contents = contents at waits
  induction contents generalizing tracked with
  | nil => cases waits
  | cons key rest induction =>
    rcases Ring.pop_of_cons isTty with ⟨isFirst, isRest⟩
    have isReturned : (tracked.step .pollByte).returned = key.1 :: tracked.returned := by
      simp [step, answer, Queues.pollByte, isFirst]
    rcases List.mem_cons.mp waits with rfl | waitsLonger
    · refine ⟨1, ?_⟩
      change key.1 ∈ (tracked.step .pollByte).returned
      rw [isReturned]
      exact List.mem_cons_self
    · have next : (tracked.step .pollByte).queues.tty.contents = rest := isRest
      rcases induction next waitsLonger with ⟨count, isIn⟩
      exact ⟨count + 1, isIn⟩

/-- In no state on the way does one of the queues hold 32 bytes. -/
def NeverFull (steps : List Step) : Prop :=
  ∀ before after, steps = before ++ after →
    (start.run before).queues.tty.len < 32 ∧ (start.run before).queues.events.len < 32

theorem NeverFull.of_append {steps more : List Step} (calm : NeverFull (steps ++ more)) :
    NeverFull steps :=
  fun before after split => calm before (after ++ more) (by rw [split, List.append_assoc])

theorem neverFull_of_take {steps : List Step}
    (room : ∀ count, count < steps.length + 1 →
      (start.run (steps.take count)).queues.tty.len < 32 ∧
        (start.run (steps.take count)).queues.events.len < 32) : NeverFull steps := by
  intro before after split
  subst split
  have isRoom := room before.length (by rw [List.length_append]; omega)
  rw [List.take_left] at isRoom
  exact isRoom

/-- No poll for the compositor finds more in its queue than the terminal has left. -/
def Matched (steps : List Step) : Prop :=
  ∀ before, StandsBehind steps before .pollEventByte →
    (start.run before).queues.events.len ≤ (start.run before).queues.tty.len

theorem matched_concat {steps : List Step} {last : Step} :
    Matched (steps ++ [last]) ↔ Matched steps ∧
      (last = .pollEventByte →
        (start.run steps).queues.events.len ≤ (start.run steps).queues.tty.len) := by
  constructor
  · intro matched
    refine ⟨fun before behind => matched before (behind.append [last]), ?_⟩
    intro isEvent
    exact matched steps (standsBehind_concat.mpr (.inr ⟨rfl, isEvent.symm⟩))
  · intro both before behind
    rcases standsBehind_concat.mp behind with isEarlier | ⟨rfl, isEvent⟩
    · exact both.1 before isEarlier
    · exact both.2 isEvent.symm

theorem tidy_or_twice {steps : List Step} (calm : NeverFull steps) :
    Matched steps ∧ (start.run steps).Tidy ∨
      ¬ Matched steps ∧ ¬ (start.run steps).returned.Nodup := by
  induction steps using List.reverseRecOn with
  | nil => exact .inl ⟨fun _ behind => absurd behind not_standsBehind_nil, tidy_start⟩
  | append_singleton steps last induction =>
    rw [run_concat, matched_concat]
    rcases induction calm.of_append with ⟨matched, tidy⟩ | ⟨notMatched, twice⟩
    · have room := calm steps [last] rfl
      cases last with
      | push byte =>
        exact .inl ⟨⟨matched, fun isEvent => by cases isEvent⟩, tidy.push room.1 room.2 byte⟩
      | pollByte => exact .inl ⟨⟨matched, fun isEvent => by cases isEvent⟩, tidy.pollByte⟩
      | pollEventByte =>
        by_cases isShort :
            (start.run steps).queues.events.len ≤ (start.run steps).queues.tty.len
        · exact .inl ⟨⟨matched, fun _ => isShort⟩, tidy.pollEventByte isShort⟩
        · exact .inr ⟨fun both => isShort (both.2 rfl),
            tidy.not_nodup_of_long (Nat.lt_of_not_le isShort)⟩
    · exact .inr ⟨fun both => notMatched both.1, not_nodup_step twice last⟩

/-- Every keystroke is returned at most once, and the others are still to come for the terminal,
if and only if no poll for the compositor finds more in its queue than the terminal has left. -/
theorem consumed_once_iff (steps : List Step) (calm : NeverFull steps) :
    ((start.run steps).returned.Nodup ∧
      ∀ label, label < (start.run steps).pushed → label ∉ (start.run steps).returned →
        ∃ count,
          label ∈ (start.run (steps ++ List.replicate count .pollByte)).returned) ↔
      Matched steps := by
  rcases tidy_or_twice calm with ⟨matched, tidy⟩ | ⟨notMatched, twice⟩
  · refine iff_of_true ⟨tidy.nodup, ?_⟩ matched
    intro label isPushed notReturned
    have isSomewhere := tidy.perm.mem_iff.mpr (List.mem_range.mpr isPushed)
    have waits := (List.mem_append.mp isSomewhere).resolve_left notReturned
    rcases mem_returned_pollBytes waits with ⟨count, isIn⟩
    refine ⟨count, ?_⟩
    rw [run, List.foldl_append]
    exact isIn
  · exact iff_of_false (fun both => twice both.1) notMatched

/-- A key for the compositor, and then the same key for the terminal. -/
theorem consumed_once_two :
    (start.run [.push 0x61, .pollEventByte, .push 0x61, .pollByte]).returned.Nodup := by
  have calm : NeverFull [.push 0x61, .pollEventByte, .push 0x61, .pollByte] :=
    neverFull_of_take (by decide)
  have matched :
      Matched ([] ++ [.push 0x61] ++ [.pollEventByte] ++ [.push 0x61] ++ [.pollByte]) := by
    rw [matched_concat, matched_concat, matched_concat, matched_concat]
    exact ⟨⟨⟨⟨fun _ behind => absurd behind not_standsBehind_nil, by decide⟩, by decide⟩,
      by decide⟩, by decide⟩
  exact ((consumed_once_iff _ calm).mpr matched).1

/-- The terminal reads a key, and the compositor reads it again. -/
theorem consumed_twice :
    NeverFull [.push 0x61, .pollByte, .pollEventByte] ∧
      (start.run [.push 0x61, .pollByte, .pollEventByte]).returned = [0, 0] :=
  ⟨neverFull_of_take (by decide), by decide⟩

end Tracked

end PersonaOS.Drivers.Ps2
