import Mathlib.Data.List.Induction
import PersonaOS.Foundation.Blocks
import PersonaOS.Foundation.StandsBehind

/-! # The transmit ring

`send_packet` of `kernel/src/drivers/e1000.rs`. The driver fills the descriptor at its own tail
and writes the next index to the tail register, which hands the device every descriptor up to
there. Only then does it wait for the device, and it moves its own tail only if the device is
done in time. -/

namespace PersonaOS.Drivers.E1000

def txCount : Nat := 16

def txBufSize : Nat := 2048

structure TxDesc where
  addr : UInt64
  length : UInt16
  cso : UInt8
  cmd : UInt8
  status : UInt8
  css : UInt8
  special : UInt16
  deriving DecidableEq, Repr

def TxDesc.zero : TxDesc :=
  { addr := 0, length := 0, cso := 0, cmd := 0, status := 1, css := 0, special := 0 }

/-- The descriptor that `send_packet` writes: the end of a packet, with a checksum, whose status
is to be reported. -/
def TxDesc.ofPacket (addr : UInt64) (packet : List UInt8) : TxDesc where
  addr := addr
  length := UInt16.ofNat packet.length
  cso := 0
  cmd := 1 ||| 2 ||| 8
  status := 0
  css := 0
  special := 0

/-- What transmitting needs of the driver and the device. -/
structure Controller where
  txBufPhys : UInt64
  txTail : Nat
  txPackets : Nat
  memory : Nat → UInt8
  txRing : Nat → TxDesc
  /-- The tail register. -/
  tdt : Nat
  /-- The descriptors that the device was handed, with the bytes they were for. -/
  handed : List (TxDesc × List UInt8)

namespace Controller

/-- `init_rings` on a new controller -/
def initRings (txBufPhys : UInt64) (memory : Nat → UInt8) : Controller where
  txBufPhys := txBufPhys
  txTail := 0
  txPackets := 0
  memory := memory
  txRing _ := TxDesc.zero
  tdt := 0
  handed := []

def newlyHanded (controller : Controller) (next : Nat) : List (TxDesc × List UInt8) :=
  (List.range ((next + txCount - controller.tdt) % txCount)).map fun index =>
    let desc := controller.txRing ((controller.tdt + index) % txCount)
    (desc, window controller.memory desc.addr.toNat desc.length.toNat)

def writeTdt (controller : Controller) (next : Nat) : Controller :=
  { controller with
    tdt := next
    handed := controller.handed ++ controller.newlyHanded next }

/-- Some of the polls from `start` on finds the descriptor done. -/
def isDone (status : Nat → UInt8) : (count start : Nat) → Bool
  | 0, _ => false
  | count + 1, start => if status start &&& 1 != 0 then true else isDone status count (start + 1)

/-- The packet is copied into the buffer, and the descriptor at the tail is set to it. -/
def fill (controller : Controller) (packet : List UInt8) : Controller :=
  { controller with
    memory := patch controller.memory controller.txBufPhys.toNat packet
    txRing := Function.update controller.txRing controller.txTail
      (.ofPacket controller.txBufPhys packet) }

/-- `send_packet`, by the status that each poll reads. -/
def sendPacket (controller : Controller) (packet : List UInt8) (status : Nat → UInt8) :
    Bool × Controller :=
  if txBufSize < packet.length then
    (false, controller)
  else
    let next := (controller.txTail + 1) % txCount
    let waiting := (controller.fill packet).writeTdt next
    if isDone status 100000 0 then
      (true, { waiting with txTail := next, txPackets := min (waiting.txPackets + 1) (2 ^ 32 - 1) })
    else
      (false, waiting)

/-! ## Single calls -/

section Calls

variable {controller : Controller} {packet : List UInt8} {status : Nat → UInt8}

theorem isDone_eq_true_iff {count start : Nat} :
    isDone status count start = true ↔
      ∃ poll, start ≤ poll ∧ poll < start + count ∧ status poll &&& 1 ≠ 0 := by
  induction count generalizing start with
  | zero =>
    apply iff_of_false (by rw [isDone]; exact Bool.false_ne_true)
    intro isDone
    rcases isDone with ⟨poll, behind, before, _⟩
    omega
  | succ count induction =>
    rw [isDone]
    by_cases isNow : status start &&& 1 = 0
    · rw [isNow, if_neg (by decide), induction]
      constructor
      · intro isLater
        rcases isLater with ⟨poll, behind, before, isSet⟩
        exact ⟨poll, by omega, by omega, isSet⟩
      · intro isLater
        rcases isLater with ⟨poll, behind, before, isSet⟩
        have notNow : poll ≠ start := by
          intro same
          rw [same] at isSet
          exact isSet isNow
        exact ⟨poll, by omega, by omega, isSet⟩
    · rw [if_pos (bne_iff_ne.mpr isNow)]
      exact iff_of_true rfl ⟨start, Nat.le_refl start, by omega, isNow⟩

def InTime (status : Nat → UInt8) : Prop := ∃ poll, poll < 100000 ∧ status poll &&& 1 ≠ 0

theorem isDone_iff_inTime : isDone status 100000 0 = true ↔ InTime status := by
  rw [isDone_eq_true_iff]
  constructor
  · intro isDone
    rcases isDone with ⟨poll, _, before, isSet⟩
    exact ⟨poll, by omega, isSet⟩
  · intro inTime
    rcases inTime with ⟨poll, before, isSet⟩
    exact ⟨poll, Nat.zero_le poll, by omega, isSet⟩

theorem sendPacket_of_large (isLarge : txBufSize < packet.length) :
    (controller.sendPacket packet status).2 = controller := by
  rw [sendPacket, if_pos isLarge]

theorem tdt_sendPacket (isSmall : packet.length ≤ txBufSize) :
    (controller.sendPacket packet status).2.tdt = (controller.txTail + 1) % txCount := by
  simp only [sendPacket, if_neg (Nat.not_lt.mpr isSmall)]
  split <;> rfl

theorem txTail_sendPacket (isSmall : packet.length ≤ txBufSize) :
    (controller.sendPacket packet status).2.txTail =
      if isDone status 100000 0 then (controller.txTail + 1) % txCount else controller.txTail := by
  simp only [sendPacket, if_neg (Nat.not_lt.mpr isSmall)]
  split <;> rfl

theorem txBufPhys_sendPacket :
    (controller.sendPacket packet status).2.txBufPhys = controller.txBufPhys := by
  simp only [sendPacket]
  split
  · rfl
  · split <;> rfl

theorem txTail_sendPacket_lt (isIndex : controller.txTail < txCount) :
    (controller.sendPacket packet status).2.txTail < txCount := by
  by_cases isSmall : packet.length ≤ txBufSize
  · rw [txTail_sendPacket isSmall]
    split
    · exact Nat.mod_lt _ (by decide)
    · exact isIndex
  · rw [sendPacket_of_large (Nat.lt_of_not_le isSmall)]
    exact isIndex

def InStep (controller : Controller) : Prop := controller.txTail = controller.tdt % txCount

theorem newlyHanded_fill (isSmall : packet.length ≤ txBufSize)
    (isIndex : controller.txTail < txCount) (sameTail : controller.tdt = controller.txTail) :
    (controller.fill packet).newlyHanded ((controller.txTail + 1) % txCount) =
      [(.ofPacket controller.txBufPhys packet, packet)] := by
  have isOne : ((controller.txTail + 1) % txCount + txCount - controller.txTail) % txCount = 1 := by
    change ((controller.txTail + 1) % 16 + 16 - controller.txTail) % 16 = 1
    change controller.txTail < 16 at isIndex
    omega
  have isSlot : (controller.txTail + 0) % txCount = controller.txTail := Nat.mod_eq_of_lt isIndex
  have isLength : (UInt16.ofNat packet.length).toNat = packet.length := by
    rw [UInt16.toNat_ofNat']
    exact Nat.mod_eq_of_lt (Nat.lt_of_le_of_lt isSmall (by decide))
  rw [newlyHanded]
  simp only [fill, sameTail, isOne, List.range_one, List.map_singleton, isSlot,
    Function.update_self, TxDesc.ofPacket, isLength, window_patch]

theorem handed_sendPacket (isSmall : packet.length ≤ txBufSize) :
    (controller.sendPacket packet status).2.handed =
      controller.handed ++
        (controller.fill packet).newlyHanded ((controller.txTail + 1) % txCount) := by
  simp only [sendPacket, if_neg (Nat.not_lt.mpr isSmall)]
  split <;> rfl

end Calls

/-! ## Sequences of calls -/

structure Call where
  packet : List UInt8
  status : Nat → UInt8

def run (controller : Controller) (calls : List Call) : Controller :=
  calls.foldl (fun controller call => (controller.sendPacket call.packet call.status).2) controller

theorem run_concat (controller : Controller) (calls : List Call) (call : Call) :
    controller.run (calls ++ [call]) =
      ((controller.run calls).sendPacket call.packet call.status).2 := by
  rw [run, run, List.foldl_append, List.foldl_cons, List.foldl_nil]

theorem txTail_run_lt (txBufPhys : UInt64) (memory : Nat → UInt8) (calls : List Call) :
    ((initRings txBufPhys memory).run calls).txTail < txCount := by
  induction calls using List.reverseRecOn with
  | nil => exact Nat.zero_lt_succ 15
  | append_singleton calls call induction =>
    rw [run_concat]
    exact txTail_sendPacket_lt induction

theorem txBufPhys_run (txBufPhys : UInt64) (memory : Nat → UInt8) (calls : List Call) :
    ((initRings txBufPhys memory).run calls).txBufPhys = txBufPhys := by
  induction calls using List.reverseRecOn with
  | nil => rfl
  | append_singleton calls call induction => rw [run_concat, txBufPhys_sendPacket, induction]

theorem tdt_run_eq (txBufPhys : UInt64) (memory : Nat → UInt8) (calls : List Call)
    (inTime : ∀ call, call ∈ calls → call.packet.length ≤ txBufSize → InTime call.status) :
    ((initRings txBufPhys memory).run calls).tdt =
      ((initRings txBufPhys memory).run calls).txTail := by
  induction calls using List.reverseRecOn with
  | nil => rfl
  | append_singleton calls call induction =>
    rw [run_concat]
    by_cases isSmall : call.packet.length ≤ txBufSize
    · have isDone := isDone_iff_inTime.mpr (inTime call (by simp) isSmall)
      rw [tdt_sendPacket isSmall, txTail_sendPacket isSmall, if_pos isDone]
    · rw [sendPacket_of_large (Nat.lt_of_not_le isSmall)]
      exact induction fun other isIn => inTime other (by simp [isIn])

/-- Before and after every call the tails are in step and the device gets exactly one descriptor
for every packet that is not too large, if and only if no such call times out. -/
theorem run_inStep_iff (txBufPhys : UInt64) (memory : Nat → UInt8) (calls : List Call) :
    (∀ before call, StandsBehind calls before call →
      let state := (initRings txBufPhys memory).run before
      let after := (initRings txBufPhys memory).run (before ++ [call])
      state.InStep ∧ after.InStep ∧
        (call.packet.length ≤ txBufSize →
          after.handed = state.handed ++ [(.ofPacket txBufPhys call.packet, call.packet)])) ↔
      ∀ call, call ∈ calls → call.packet.length ≤ txBufSize → InTime call.status := by
  constructor
  · intro holds call isIn isSmall
    rcases List.append_of_mem isIn with ⟨before, rest, split⟩
    have inStep := (holds before call ⟨rest, split⟩).2.1
    have isIndex := txTail_run_lt txBufPhys memory before
    rw [run_concat, InStep, tdt_sendPacket isSmall, txTail_sendPacket isSmall] at inStep
    rw [← isDone_iff_inTime]
    by_contra timesOut
    rw [if_neg timesOut] at inStep
    change ((initRings txBufPhys memory).run before).txTail < 16 at isIndex
    change ((initRings txBufPhys memory).run before).txTail =
      (((initRings txBufPhys memory).run before).txTail + 1) % 16 % 16 at inStep
    omega
  · intro inTime before call follows
    have inTimeNext : ∀ other, other ∈ before ++ [call] →
        other.packet.length ≤ txBufSize → InTime other.status := by
      intro other isIn
      rcases follows with ⟨rest, split⟩
      apply inTime other
      rw [split, List.append_cons]
      exact List.mem_append_left rest isIn
    have sameTail := tdt_run_eq txBufPhys memory before fun other isIn =>
      inTimeNext other (List.mem_append_left [call] isIn)
    have sameTailNext := tdt_run_eq txBufPhys memory _ inTimeNext
    have isIndex := txTail_run_lt txBufPhys memory before
    have isIndexNext := txTail_run_lt txBufPhys memory (before ++ [call])
    refine ⟨?_, ?_, ?_⟩
    · rw [InStep, sameTail, Nat.mod_eq_of_lt isIndex]
    · rw [InStep, sameTailNext, Nat.mod_eq_of_lt isIndexNext]
    · intro isSmall
      rw [run_concat, handed_sendPacket isSmall, newlyHanded_fill isSmall isIndex sameTail,
        txBufPhys_run]

/-- A call times out. The tails differ then, and the next packet is not handed over at all. -/
theorem run_out_of_step :
    ∃ first second : Call, first.packet.length ≤ txBufSize ∧ second.packet.length ≤ txBufSize ∧
      ¬ ((initRings 0 fun _ => 0).run [first]).InStep ∧
        ((initRings 0 fun _ => 0).run [first, second]).handed =
          ((initRings 0 fun _ => 0).run [first]).handed := by
  let first : Call := { packet := [1], status := fun _ => 0 }
  let second : Call := { packet := [2], status := fun _ => 1 }
  have timesOut : isDone first.status 100000 0 ≠ true := by
    rw [ne_eq, isDone_iff_inTime]
    intro inTime
    rcases inTime with ⟨_, _, isSet⟩
    exact isSet (show (0 : UInt8) &&& 1 = 0 by decide)
  have isTail : ((initRings 0 fun _ => 0).run [first]).txTail = 0 :=
    (txTail_sendPacket (by decide)).trans (if_neg timesOut)
  have isTdt : ((initRings 0 fun _ => 0).run [first]).tdt = 1 := tdt_sendPacket (by decide)
  refine ⟨first, second, by decide, by decide, ?_, ?_⟩
  · rw [InStep, isTail, isTdt]
    decide
  · have isNothing : (((initRings 0 fun _ => 0).run [first]).fill second.packet).newlyHanded
        ((0 + 1) % txCount) = [] := by
      rw [newlyHanded]
      change (List.range ((1 + 16 - ((initRings 0 fun _ => 0).run [first]).tdt) % 16)).map _ = []
      rw [isTdt]
      rfl
    have isNext : (initRings 0 fun _ => 0).run [first, second] =
        (((initRings 0 fun _ => 0).run [first]).sendPacket second.packet second.status).2 := rfl
    rw [isNext, handed_sendPacket (by decide), isTail, isNothing, List.append_nil]

end Controller

end PersonaOS.Drivers.E1000
