import PersonaOS.Foundation.StandsBehind
import PersonaOS.Fs.Corrupt
import PersonaOS.Kernel.Opening

/-! # File positions

`sys_read` and `sys_write` go on where the open file stands, and `sys_lseek` moves it. The
position is a `u64` that is taken for an `i64` and back. The kernel is built with overflow
checks, so a sum that does not fit ends in a panic, and so does a `Vec` of more than
`isize::MAX` bytes. -/

namespace PersonaOS

open Program Sched Fs

inductive PositionCall where
  | lseek (fd off whence : UInt64)
  | read (fd buf len : UInt64)
  | write (fd buf len : UInt64)
  deriving DecidableEq, Repr

namespace PositionCall

section Runs

variable {σ H : Type} (services : Services σ H)

def perform : PositionCall → Handler σ Int
  | .lseek fd off whence => dispatch services 0 fd off whence 0 0 0 7
  | .read fd buf len => dispatch services 0 fd buf len 0 0 0 5
  | .write fd buf len => dispatch services 0 fd buf len 0 0 0 0

def performAll : List PositionCall → World σ → Option (World σ)
  | [], world => some world
  | call :: calls, world =>
    match call.perform services world with
    | .ok _ after => performAll calls after
    | .error _ _ => none
    | .panic => none

end Runs

variable {δ : Type}

def openFile (world : World (Files δ)) (fd : UInt64) : Option (OpenFile Handle) :=
  world.kernel.sched.current.bind fun task => (world.system.fds task).slots (asI32 fd)

/-- Where `sys_lseek` counts from. -/
def seekBase (world : World (Files δ)) (file : OpenFile Handle) : (whence : Nat) → Option Nat
  | 0 => some 0
  | 1 => some file.offset
  | 2 => some (Files.inode.size file.inode world.system)
  | _ => none

/-- A seek leaves the file where unbounded numbers put it, or it returns an error and leaves
the file where it was. -/
def Moves (before : World (Files δ)) (code : Int) (after : World (Files δ)) :
    PositionCall → Prop
  | .lseek fd off whence =>
    (∃ file base moved, openFile before fd = some file ∧
      seekBase before file whence.toNat = some base ∧ openFile after fd = some moved ∧
      (moved.offset : Int) = max 0 (base + off.toInt64.toInt)) ∨
    code < 0 ∧ openFile after fd = openFile before fd
  | .read _ _ _ => True
  | .write _ _ _ => True

/-- A write to a PondFS whose superblock sends the allocator past the end of its bitmap. The sum
of the position and the length is not at fault. -/
def Unallocatable (world : World (Files δ)) : PositionCall → Prop
  | .write fd _ len => ∃ file fs, openFile world fd = some file ∧
      world.system.volumes file.inode.1 = .inr fs ∧ ¬ Pondfs.Covered fs ∧
      file.offset + len.toNat < 2 ^ 64
  | .lseek _ _ _ => False
  | .read _ _ _ => False

/-- The call neither comes to a sum that overflows nor to a `Vec` that is too long: nothing but
the allocator may panic. A seek does what it should. -/
def Safe (services : Services (Files δ) Handle) (world : World (Files δ))
    (call : PositionCall) : Prop :=
  (call.perform services world).Meets (fun code after => call.Moves world code after)
    (fun _ _ => call.Unallocatable world) False

/-- `read_file_at` adds the length to a position before the end of the file. -/
def readFits (node off len : Nat) : Volume → Prop
  | .inl _ => True
  | .inr fs => (fs.raw node).kind = Pondfs.inodeKindFile → off < (fs.raw node).size.toNat →
      off + len < 2 ^ 64

/-- `RamInode::write_at` makes the file end behind what is written, `write_file_at` checks that
it fits into twelve blocks. -/
def writeFits (node off len : Nat) : Volume → Prop
  | .inl store => (store.entries node).kind = .file → off + len < 2 ^ 63
  | .inr fs => (fs.raw node).kind = Pondfs.inodeKindFile → off + len < 2 ^ 64

/-- The numbers of the call and the position it starts from fit together. -/
def Fits (world : World (Files δ)) : PositionCall → Prop
  | .lseek fd off whence => ∀ file base, openFile world fd = some file →
      seekBase world file whence.toNat = some base →
      base < 2 ^ 63 ∧ base + off.toInt64.toInt < 2 ^ 63
  | .read fd buf len => ¬ (maxIo < len.toNat ∨ buf.toNat = 0) → ∀ file,
      openFile world fd = some file →
      readFits file.inode.2 file.offset len.toNat (world.system.volumes file.inode.1)
  | .write fd buf len => ¬ (maxIo < len.toNat ∨ buf.toNat = 0) → ∀ file,
      openFile world fd = some file →
      writeFits file.inode.2 file.offset len.toNat (world.system.volumes file.inode.1)

instance (node off len : Nat) : (volume : Volume) → Decidable (readFits node off len volume)
  | .inl _ => .isTrue trivial
  | .inr _ => inferInstanceAs (Decidable (_ → _ → _))

instance (node off len : Nat) : (volume : Volume) → Decidable (writeFits node off len volume)
  | .inl _ => inferInstanceAs (Decidable (_ → _))
  | .inr _ => inferInstanceAs (Decidable (_ → _))

/-! ## Volumes -/

section Volumes

variable {store : Ramfs.Store} {fs : Pondfs.FsInner} {files : Files δ} {handle : Handle}
  {id off len : Nat} {buf : List UInt8}

theorem ramfs_readAt_ne_panic : Ramfs.readAt id off len store ≠ .panic := by
  cases isKind : (store.entries id).kind with
  | file =>
    rw [Ramfs.readAt_of_file isKind]
    intro same
    cases same
  | dir =>
    rw [Ramfs.readAt_of_dir isKind]
    intro same
    cases same

theorem ramfs_writeAt_eq_panic : Ramfs.writeAt id off buf store = .panic ↔
    (store.entries id).kind = .file ∧ 2 ^ 63 ≤ off + buf.length := by
  cases isKind : (store.entries id).kind with
  | file =>
    by_cases large : 2 ^ 63 ≤ off + buf.length
    · exact iff_of_true (Ramfs.writeAt_panics isKind large) ⟨rfl, large⟩
    · rw [Ramfs.writeAt_of_file isKind (Nat.not_le.mp large)]
      exact iff_of_false (by intro same; cases same) fun both => large both.2
  | dir =>
    rw [Ramfs.writeAt_of_dir isKind]
    exact iff_of_false (by intro same; cases same) (by intro both; cases both.1)

theorem pondfs_writeAt_returns (covered : Pondfs.Covered fs)
    (fits : (fs.raw id).kind = Pondfs.inodeKindFile → off + buf.length < 2 ^ 64) :
    Pondfs.writeAt id off buf fs ≠ .panic := by
  by_cases isFile : (fs.raw id).kind = Pondfs.inodeKindFile
  · have writes := (covered.writeFileAt id off buf).ne_panic (Nat.not_le.mpr (fits isFile))
    rw [Pondfs.writeAt, get_bind_apply, if_neg (not_not_intro isFile), bind_apply]
    cases ended : Pondfs.writeFileAt id off buf fs with
    | ok count after =>
      intro same
      cases same
    | error fault after =>
      intro same
      cases same
    | panic => exact absurd ended writes
  · rw [Pondfs.writeAt_of_ne isFile]
    intro same
    cases same

theorem readAt_eq_panic : Files.inode.readAt handle off len files = .panic ↔
    ¬ readFits handle.2 off len (files.volumes handle.1) := by
  simp only [Files.inode, Files.onVolumes, Volume.inode, Inode.several, onOne, Inode.either,
    Outcome.within_eq_panic]
  cases files.volumes handle.1 with
  | inl store =>
    simp only [Fs.either, Sum.elim_inl, Outcome.within_eq_panic, readFits]
    exact iff_of_false ramfs_readAt_ne_panic (not_not_intro trivial)
  | inr fs =>
    simp only [Fs.either, Sum.elim_inr, Outcome.within_eq_panic, readFits]
    rw [Classical.not_imp, Classical.not_imp, Nat.not_lt]
    exact Pondfs.readAt_eq_panic

theorem writeAt_panics (tooLarge : ¬ writeFits handle.2 off buf.length (files.volumes handle.1)) :
    Files.inode.writeAt handle off buf files = .panic := by
  simp only [Files.inode, Files.onVolumes, Volume.inode, Inode.several, onOne, Inode.either,
    Outcome.within_eq_panic]
  cases isVolume : files.volumes handle.1 with
  | inl store =>
    simp only [isVolume, writeFits, Classical.not_imp, Nat.not_lt] at tooLarge
    exact Outcome.within_eq_panic.mpr (ramfs_writeAt_eq_panic.mpr tooLarge)
  | inr fs =>
    simp only [isVolume, writeFits, Classical.not_imp, Nat.not_lt] at tooLarge
    exact Outcome.within_eq_panic.mpr (Pondfs.writeAt_panics tooLarge.1 tooLarge.2)

theorem uncovered_of_writeAt (fits : writeFits handle.2 off buf.length (files.volumes handle.1))
    (panics : Files.inode.writeAt handle off buf files = .panic) :
    ∃ fs, files.volumes handle.1 = .inr fs ∧ ¬ Pondfs.Covered fs ∧
      off + buf.length < 2 ^ 64 := by
  simp only [Files.inode, Files.onVolumes, Volume.inode, Inode.several, onOne, Inode.either,
    Outcome.within_eq_panic] at panics
  cases isVolume : files.volumes handle.1 with
  | inl store =>
    rw [isVolume] at fits panics
    have large := ramfs_writeAt_eq_panic.mp (Outcome.within_eq_panic.mp panics)
    exact absurd (fits large.1) (Nat.not_lt.mpr large.2)
  | inr fs =>
    rw [isVolume] at fits panics
    have inside : Pondfs.writeAt handle.2 off buf fs = .panic := Outcome.within_eq_panic.mp panics
    have isFile : (fs.raw handle.2).kind = Pondfs.inodeKindFile := by
      by_contra notFile
      rw [Pondfs.writeAt_of_ne notFile] at inside
      cases inside
    exact ⟨fs, rfl, fun covered => pondfs_writeAt_returns covered fits inside, fits isFile⟩

end Volumes

/-! ## Calls -/

section Calls

variable {others : Services (Files δ) Handle} {world after : World (Files δ)} {fd buf len : UInt64}
  {file : OpenFile Handle}

theorem opened_bind (isOpen : openFile world fd = some file) :
    ∃ task, world.kernel.sched.current = some task ∧
      (world.system.fds task).slots (asI32 fd) = some file ∧
      ∀ rest : TaskId → OpenFile Handle → Handler (Files δ) Int,
        (do let task ← currentTask
            let file ← openFileOf (fileServices others) task (asI32 fd)
            rest task file : Handler (Files δ) Int) world = rest task file world := by
  rcases Option.bind_eq_some_iff.mp isOpen with ⟨task, isTask, isFile⟩
  refine ⟨task, isTask, isFile, fun rest => ?_⟩
  have asks : (currentTask : Handler (Files δ) TaskId) world = .ok task world := by
    rw [currentTask, get_bind_apply, isTask]
    rfl
  have finds : openFileOf (fileServices others) task (asI32 fd) world = .ok file world := by
    rw [openFileOf, get_bind_apply]
    simp only [fileServices, isFile]
    rfl
  simp only [bind_apply, asks, finds]

theorem closed_bind (isClosed : openFile world fd = none)
    (rest : TaskId → OpenFile Handle → Handler (Files δ) Int) :
    ∃ code < 0, (do let task ← currentTask
                    let file ← openFileOf (fileServices others) task (asI32 fd)
                    rest task file : Handler (Files δ) Int) world =
      .error (.returned code) world := by
  cases isTask : world.kernel.sched.current with
  | none =>
    have asks : (currentTask : Handler (Files δ) TaskId) world = .error (.returned (-1)) world := by
      rw [currentTask, get_bind_apply, isTask]
      rfl
    refine ⟨-1, by decide, ?_⟩
    rw [bind_apply, asks]
  | some task =>
    have asks : (currentTask : Handler (Files δ) TaskId) world = .ok task world := by
      rw [currentTask, get_bind_apply, isTask]
      rfl
    have missing : (world.system.fds task).slots (asI32 fd) = none := by
      rw [openFile, isTask, Option.bind_some] at isClosed
      exact isClosed
    have fails : openFileOf (fileServices others) task (asI32 fd) world =
        .error (.returned (-9)) world := by
      rw [openFileOf, get_bind_apply]
      simp only [fileServices, missing]
      rfl
    refine ⟨-9, by decide, ?_⟩
    simp only [bind_apply, asks, fails]

theorem meets_onSystem {α : Type} {program : Program (Files δ) FsError α}
    {rest : α → Handler (Files δ) Int} {panics : Prop}
    (returns : ∀ value middle, ∃ code after, rest value middle = .ok code after) :
    (returning (onSystem program >>= rest) world).Meets (fun _ _ => True) (fun _ _ => panics)
      False ↔ (program world.system = .panic → panics) := by
  rw [returning, bind_apply, onSystem]
  cases program world.system with
  | ok value system =>
    rcases returns value { world with system } with ⟨code, after, isReturned⟩
    simp only [isReturned, Outcome.meets_ok]
    exact iff_of_true trivial (by intro same; cases same)
  | error fault system => exact iff_of_true trivial (by intro same; cases same)
  | panic => exact ⟨fun isHeld _ => isHeld, fun isHeld => isHeld rfl⟩

theorem meets_buffered {rest : TaskId → OpenFile Handle → Handler (Files δ) Int} {panics : Prop} :
    (returning (if maxIo < len.toNat ∨ buf.toNat = 0 then ret (-1) else do
        let task ← currentTask
        let file ← openFileOf (fileServices others) task (asI32 fd)
        rest task file) world).Meets (fun _ _ => True) (fun _ _ => panics) False ↔
      (¬ (maxIo < len.toNat ∨ buf.toNat = 0) → ∀ file, openFile world fd = some file →
        ∀ task, world.kernel.sched.current = some task →
          (returning (rest task file) world).Meets (fun _ _ => True) (fun _ _ => panics)
            False) := by
  by_cases refused : maxIo < len.toNat ∨ buf.toNat = 0
  · rw [if_pos refused]
    exact iff_of_true trivial fun accepted => absurd refused accepted
  · rw [if_neg refused]
    cases isOpen : openFile world fd with
    | none =>
      rcases closed_bind isOpen rest with ⟨code, _, returns⟩
      rw [returning, returns]
      exact iff_of_true trivial fun _ file isFile => by cases isFile
    | some file =>
      rcases opened_bind isOpen with ⟨task, isTask, _, opens⟩
      rw [returning, opens, ← returning, isTask]
      constructor
      · intro meets _ other sameFile otherTask sameTask
        cases sameFile
        cases sameTask
        exact meets
      · intro meets
        exact meets refused file rfl task rfl

theorem safe_read : Safe (fileServices others) world (.read fd buf len) ↔
    Fits world (.read fd buf len) := by
  constructor
  · intro safe accepted file isOpen
    rcases Option.bind_eq_some_iff.mp isOpen with ⟨task, isTask, _⟩
    have reads := meets_buffered.mp safe accepted file isOpen task isTask
    have returns := (meets_onSystem fun _ _ => ⟨_, _, rfl⟩).mp reads
    exact Classical.not_not.mp fun tooLarge => returns (readAt_eq_panic.mpr tooLarge)
  · intro fits
    apply meets_buffered.mpr
    intro accepted file isOpen task _
    apply (meets_onSystem fun _ _ => ⟨_, _, rfl⟩).mpr
    exact fun panics => absurd (fits accepted file isOpen) (readAt_eq_panic.mp panics)

theorem safe_write : Safe (fileServices others) world (.write fd buf len) ↔
    Fits world (.write fd buf len) := by
  have length := length_window world.memory buf.toNat len.toNat
  constructor
  · intro safe accepted file isOpen
    rcases Option.bind_eq_some_iff.mp isOpen with ⟨task, isTask, _⟩
    have writes := meets_buffered.mp safe accepted file isOpen task isTask
    have returns := (meets_onSystem fun _ _ => ⟨_, _, rfl⟩).mp writes
    by_contra tooLarge
    rw [← length] at tooLarge
    rcases returns (writeAt_panics tooLarge) with ⟨other, fs, isOther, isVolume, _, small⟩
    rw [isOpen] at isOther
    cases isOther
    rw [isVolume, length] at tooLarge
    exact tooLarge fun _ => small
  · intro fits
    apply meets_buffered.mpr
    intro accepted file isOpen task _
    apply (meets_onSystem fun _ _ => ⟨_, _, rfl⟩).mpr
    intro panics
    have fitsHere := fits accepted file isOpen
    rw [← length] at fitsHere
    rcases uncovered_of_writeAt fitsHere panics with ⟨fs, isVolume, uncovered, small⟩
    rw [length] at small
    exact ⟨file, fs, isOpen, isVolume, uncovered, small⟩

theorem asI64_eq (value : Nat) : asI64 value = Int.bmod value (2 ^ 64) := Int64.toInt_ofNat'

theorem seekTarget_of_base {whence base : Nat} (off : Int64)
    (isBase : seekBase world file whence = some base) :
    seekTarget (fileServices others) file off.toInt whence world =
      addI64 (asI64 base) off.toInt world := by
  rcases whence with _ | _ | _ | whence
  · cases isBase
    have isZero : asI64 0 = 0 := rfl
    rw [addI64, isZero, Int.zero_add, if_pos ⟨off.le_toInt, off.toInt_lt⟩]
    rfl
  · cases isBase
    rfl
  · cases isBase
    rfl
  · cases isBase

theorem seekTarget_of_none {whence : Nat} (off : Int)
    (noBase : seekBase world file whence = none) :
    seekTarget (fileServices others) file off whence world = .error (.returned (-1)) world := by
  rcases whence with _ | _ | _ | whence
  · cases noBase
  · cases noBase
  · cases noBase
  · rfl

theorem openFile_setOffset {task : TaskId} (isTask : world.kernel.sched.current = some task)
    (isOpen : openFile world fd = some file) (offset : Nat) :
    openFile { world with system := Files.setOffset task (asI32 fd) offset world.system } fd =
      some { file with offset } := by
  rw [openFile, isTask, Option.bind_some] at isOpen
  simp only [openFile, isTask, Option.bind_some, Files.setOffset, Files.setFds,
    Function.update_self, isOpen, Option.map_some]

/-- The sum neither overflows nor differs from that of unbounded numbers. A base of `2⁶³` or more
is taken for a negative one. -/
theorem sum_fits_iff (base : Nat) {off : Int} (lower : -2 ^ 63 ≤ off) (upper : off < 2 ^ 63) :
    (-2 ^ 63 ≤ asI64 base + off ∧ asI64 base + off < 2 ^ 63) ∧
        ((max (asI64 base + off) 0).toNat : Int) = max 0 (base + off) ↔
      base < 2 ^ 63 ∧ base + off < 2 ^ 63 := by
  rw [asI64_eq, Int.bmod_def]
  omega

theorem moves_lseek {off whence : UInt64} {base : Nat} {code : Int} {moved : OpenFile Handle}
    (isOpen : openFile world fd = some file)
    (isBase : seekBase world file whence.toNat = some base) (succeeds : 0 ≤ code)
    (isMoved : openFile after fd = some moved) :
    Moves world code after (.lseek fd off whence) ↔
      (moved.offset : Int) = max 0 (base + off.toInt64.toInt) := by
  constructor
  · intro moves
    rcases moves with ⟨other, otherBase, last, isOther, isOtherBase, isLast, isOffset⟩ | failed
    · rw [isOpen] at isOther
      cases isOther
      rw [isBase] at isOtherBase
      cases isOtherBase
      rw [isMoved] at isLast
      cases isLast
      exact isOffset
    · exact absurd failed.1 (Int.not_lt.mpr succeeds)
  · intro isOffset
    exact .inl ⟨file, base, moved, isOpen, isBase, isMoved, isOffset⟩

theorem fits_lseek {off whence : UInt64} {base : Nat} (isOpen : openFile world fd = some file)
    (isBase : seekBase world file whence.toNat = some base) :
    Fits world (.lseek fd off whence) ↔ base < 2 ^ 63 ∧ base + off.toInt64.toInt < 2 ^ 63 := by
  constructor
  · intro fits
    exact fits file base isOpen isBase
  · intro small other otherBase isOther isOtherBase
    rw [isOpen] at isOther
    cases isOther
    rw [isBase] at isOtherBase
    cases isOtherBase
    exact small

theorem safe_lseek {off whence : UInt64} :
    Safe (fileServices others) world (.lseek fd off whence) ↔
      Fits world (.lseek fd off whence) := by
  have performs : (PositionCall.lseek fd off whence).perform (fileServices others) world =
      returning (sysLseek (fileServices others) (asI32 fd) off.toInt64.toInt whence.toNat) world :=
    rfl
  rw [Safe, performs]
  cases isOpen : openFile world fd with
  | none =>
    rcases closed_bind isOpen _ with ⟨code, isNegative, returns⟩
    rw [returning, sysLseek, returns]
    refine iff_of_true (.inr ⟨isNegative, rfl⟩) ?_
    intro file base isFile
    rw [isOpen] at isFile
    cases isFile
  | some file =>
    rcases opened_bind isOpen with ⟨task, isTask, _, opens⟩
    rw [returning, sysLseek, opens, bind_apply]
    cases isBase : seekBase world file whence.toNat with
    | none =>
      rw [seekTarget_of_none _ isBase]
      refine iff_of_true (.inr ⟨by decide, rfl⟩) ?_
      intro other base isOther isOtherBase
      rw [isOpen] at isOther
      cases isOther
      rw [isBase] at isOtherBase
      cases isOtherBase
    | some base =>
      rw [fits_lseek isOpen isBase,
        ← sum_fits_iff base off.toInt64.le_toInt off.toInt64.toInt_lt,
        seekTarget_of_base _ isBase, addI64]
      by_cases inRange : -2 ^ 63 ≤ asI64 base + off.toInt64.toInt ∧
          asI64 base + off.toInt64.toInt < 2 ^ 63
      · rw [if_pos inRange, and_iff_right inRange]
        exact moves_lseek isOpen isBase (Int.le_max_right _ _)
          (openFile_setOffset isTask isOpen _)
      · rw [if_neg inRange]
        exact iff_of_false (fun stops => stops) fun both => inRange both.1

theorem safe_iff_fits {call : PositionCall} :
    call.Safe (fileServices others) world ↔ call.Fits world := by
  cases call with
  | lseek fd off whence => exact safe_lseek
  | read fd buf len => exact safe_read
  | write fd buf len => exact safe_write

end Calls

/-! ## Runs -/

/-- A run of calls is safe from beginning to end if each of them fits in the world it is issued
in. -/
theorem run_safe_iff (others : Services (Files δ) Handle) (world : World (Files δ))
    (calls : List PositionCall) :
    (∀ before call reached, StandsBehind calls before call →
        performAll (fileServices others) before world = some reached →
        call.Safe (fileServices others) reached) ↔
      ∀ before call reached, StandsBehind calls before call →
        performAll (fileServices others) before world = some reached → call.Fits reached := by
  constructor
  · intro safe before call reached behind isReached
    exact safe_iff_fits.mp (safe before call reached behind isReached)
  · intro fits before call reached behind isReached
    exact safe_iff_fits.mpr (fits before call reached behind isReached)

/-- The world after `sys_open` created `/x`, as descriptor 3. -/
def openedWorld : World (Files Unit) :=
  let world := openingWorld [("/".toList, 0, 0)] "/x"
  (sysOpen (fileServices idleServices) 4096 2 4 world).final.getD world

def movedWorld : World (Files Unit) :=
  (performAll (fileServices idleServices) [.lseek 3 0x7fffffffffffffff 0] openedWorld).getD
    openedWorld

theorem performAll_movedWorld :
    performAll (fileServices idleServices) [.lseek 3 0x7fffffffffffffff 0] openedWorld =
      some movedWorld := by
  have returns : (performAll (fileServices idleServices) [.lseek 3 0x7fffffffffffffff 0]
      openedWorld).isSome = true := by decide +kernel
  rcases Option.isSome_iff_exists.mp returns with ⟨reached, isReached⟩
  rw [movedWorld, isReached, Option.getD_some]

/-- From the last position, a seek by one overflows and a byte more does not fit into a `Vec`. -/
theorem run_overflows :
    sysOpen (fileServices idleServices) 4096 2 4 (openingWorld [("/".toList, 0, 0)] "/x") =
      .ok 3 openedWorld ∧
    ¬ (∀ before call reached,
        StandsBehind [.lseek 3 0x7fffffffffffffff 0, .lseek 3 1 1] before call →
        performAll (fileServices idleServices) before openedWorld = some reached →
        call.Safe (fileServices idleServices) reached) ∧
    ¬ (∀ before call reached,
        StandsBehind [.lseek 3 0x7fffffffffffffff 0, .write 3 4096 1] before call →
        performAll (fileServices idleServices) before openedWorld = some reached →
        call.Safe (fileServices idleServices) reached) := by
  have opens : (sysOpen (fileServices idleServices) 4096 2 4
      (openingWorld [("/".toList, 0, 0)] "/x")).value? = some 3 := by decide +kernel
  have stands : ((openFile movedWorld 3).any fun file => decide (2 ^ 63 ≤ file.offset + 1) &&
      !decide (writeFits file.inode.2 file.offset 1 (movedWorld.system.volumes file.inode.1))) =
      true := by decide +kernel
  rcases (Option.any_eq_true ..).mp stands with ⟨file, isOpen, atEnd⟩
  rw [Bool.and_eq_true, decide_eq_true_iff, Bool.not_eq_true', decide_eq_false_iff_not] at atEnd
  refine ⟨Outcome.eq_ok_of_value? opens _, ?_, ?_⟩
  · intro safe
    have fits := safe_iff_fits.mp (safe _ _ _ ⟨[], rfl⟩ performAll_movedWorld)
    have small := (fits file file.offset isOpen rfl).2
    have isOne : (1 : UInt64).toInt64.toInt = 1 := by decide
    omega
  · intro safe
    have fits := safe_iff_fits.mp (safe _ _ _ ⟨[], rfl⟩ performAll_movedWorld)
    exact atEnd.2 (fits (by decide) file isOpen)

end PositionCall

end PersonaOS
