import PersonaOS.Fs.Runs

/-! # Images with arbitrary contents

`mount` looks at the magic number and the version of a superblock and at nothing else, and
inodes and directories are read as they are. What the methods need in order not to run into a
panic is about the numbers of the superblock alone: the data region does not end before it
starts, the bitmap has a bit for each of its blocks, and the inode table has a record for each
inode.

A record outside the inode table is not noticed by the code; `Checked` is the same file system
with an assertion wherever it goes to a record of the table. -/

namespace PersonaOS.Fs.Pondfs

open Program

/-! ## Assertions -/

namespace Checked

/-- `assert!` that an inode's record is in a block of the inode table. -/
def assertInTable (ino : Nat) : Program FsInner FsError PUnit := do
  let fs ← get
  if ino / 32 < fs.inodeTableBlocks then
    pure ⟨⟩
  else
    abort

def writeInode (ino : Nat) (raw : RawInode) : Program FsInner FsError PUnit := do
  assertInTable ino
  Pondfs.writeInode ino raw

def getOrLoad (ino : Nat) : Program FsInner FsError StateId := do
  let fs ← get
  match fs.inodeCache ino with
  | some id => return id
  | none =>
    let state ← ofExcept (loadInode fs ino)
    assertInTable ino
    modify fun fs => fs.insertState state
    return fs.stateCount

def writeAt (id : StateId) (off : Nat) (buf : List UInt8) : Program FsInner FsError Nat := do
  let fs ← get
  if (fs.raw id).kind ≠ inodeKindFile then
    throw .isDir
  else
    let n ← writeFileAt id off buf
    let fs ← get
    writeInode (fs.ino id) (fs.raw id)
    return n

def lookup (id : StateId) (name : String) : Program FsInner FsError StateId := do
  let fs ← get
  if (fs.raw id).kind ≠ inodeKindDir then
    throw .notDir
  else
    let entries ← dirReadEntries (fs.raw id)
    let (_, _, ino) ← okOr (entries.find? fun entry => entry.1 = name) .notFound
    getOrLoad ino

def create (id : StateId) (name : String) (kind : InodeKind) :
    Program FsInner FsError StateId := do
  let fs ← get
  if (fs.raw id).kind ≠ inodeKindDir then
    throw .notDir
  else
    let entries ← dirReadEntries (fs.raw id)
    if entries.any fun entry => entry.1 = name then
      throw .exists_
    else
      let newIno ← allocInode
      writeInode newIno (newRaw kind)
      dirWriteEntries id (entries ++ [(name, kind, newIno)])
      let fs ← get
      writeInode (fs.ino id) (fs.raw id)
      modify fun fs => fs.insertState ⟨newIno, newRaw kind⟩
      return fs.stateCount

def unlink (id : StateId) (name : String) : Program FsInner FsError PUnit := do
  let fs ← get
  if (fs.raw id).kind ≠ inodeKindDir then
    throw .notDir
  else
    let entries ← dirReadEntries (fs.raw id)
    let (_, _, ino) ← okOr (entries.find? fun entry => entry.1 = name) .notFound
    let target ← getOrLoad ino
    eraseInode target
    let fs ← get
    writeInode ino (fs.raw target)
    modify fun fs => fs.uncache ino
    dirWriteEntries id (entries.eraseP fun entry => entry.1 = name)
    let fs ← get
    writeInode (fs.ino id) (fs.raw id)

def inode : Inode FsInner StateId where
  kind := kind
  size := size
  readAt := readAt
  writeAt := writeAt
  lookup := lookup
  readdir := readdir
  create := create
  unlink := unlink

end Checked

/-! ## Blocks -/

/-- What no change to blocks, bits and records touches. -/
structure Steady (fs after : FsInner) : Prop where
  sb : after.sb = fs.sb
  bitmap : after.bitmap.length = fs.bitmap.length
  cache : after.inodeCache = fs.inodeCache
  count : after.stateCount = fs.stateCount
  ino : ∀ id, after.ino id = fs.ino id

/-- The numbers of the superblock, of the states in memory and of the cache. -/
structure Sized (fs : FsInner) : Prop where
  data : fs.dataStart ≤ fs.totalBlocks
  bits : fs.totalBlocks - fs.dataStart ≤ fs.bitmap.length * 8
  table : fs.inodeCount ≤ fs.inodeTableBlocks * 32
  states : ∀ id < fs.stateCount, fs.ino id / 32 < fs.inodeTableBlocks
  cached : ∀ ino id, fs.inodeCache ino = some id →
    id < fs.stateCount ∧ ino / 32 < fs.inodeTableBlocks

/-- The data region does not end before it starts, and each of its blocks has a bit: what the
allocator needs. -/
structure Covered (fs : FsInner) : Prop where
  data : fs.dataStart ≤ fs.totalBlocks
  bits : fs.totalBlocks - fs.dataStart ≤ fs.bitmap.length * 8

theorem Sized.covered {fs : FsInner} (sized : Sized fs) : Covered fs := ⟨sized.data, sized.bits⟩

section Blocks

variable {fs middle after : FsInner} {id : StateId}

theorem Steady.refl (fs : FsInner) : Steady fs fs := ⟨rfl, rfl, rfl, rfl, fun _ => rfl⟩

theorem Steady.trans (first : Steady fs middle) (second : Steady middle after) : Steady fs after :=
  ⟨second.sb.trans first.sb, second.bitmap.trans first.bitmap, second.cache.trans first.cache,
    second.count.trans first.count, fun id => (second.ino id).trans (first.ino id)⟩

theorem Steady.setBlock (fs : FsInner) (blk : Nat) (buf : Block 4096) :
    Steady fs (fs.setBlock blk buf) :=
  ⟨rfl, rfl, rfl, rfl, fun _ => rfl⟩

theorem Steady.flushByte (fs : FsInner) (byte : Nat) (value : UInt8) :
    Steady fs (fs.flushByte byte value) :=
  ⟨rfl, List.length_set .., rfl, rfl, fun _ => rfl⟩

theorem Steady.setRaw (fs : FsInner) (id : StateId) (raw : RawInode) :
    Steady fs (fs.setRaw id raw) := by
  refine ⟨rfl, rfl, rfl, rfl, fun other => ?_⟩
  rw [FsInner.ino_setRaw]

theorem Steady.inTable (steady : Steady fs after) {ino : Nat}
    (isIn : ino / 32 < fs.inodeTableBlocks) : ino / 32 < after.inodeTableBlocks := by
  rw [FsInner.inodeTableBlocks, steady.sb]
  exact isIn

theorem Covered.of_same (covered : Covered fs) (sameSb : after.sb = fs.sb)
    (sameLength : after.bitmap.length = fs.bitmap.length) : Covered after := by
  constructor
  · rw [FsInner.dataStart, FsInner.totalBlocks, sameSb]
    exact covered.data
  · rw [FsInner.dataStart, FsInner.totalBlocks, sameSb, sameLength]
    exact covered.bits

theorem Covered.steady (covered : Covered fs) (steady : Steady fs after) : Covered after :=
  covered.of_same steady.sb steady.bitmap

theorem Sized.steady (sized : Sized fs) (steady : Steady fs after) : Sized after := by
  have covered := sized.covered.steady steady
  refine ⟨covered.data, covered.bits, ?_, ?_, ?_⟩
  · rw [FsInner.inodeCount, FsInner.inodeTableBlocks, steady.sb]
    exact sized.table
  · intro id inRange
    rw [steady.ino]
    exact steady.inTable (sized.states id (steady.count ▸ inRange))
  · intro ino id isCached
    rcases sized.cached ino id (steady.cache ▸ isCached) with ⟨inRange, isIn⟩
    exact ⟨steady.count.symm ▸ inRange, steady.inTable isIn⟩

/-- A program that keeps the numbers, and panics only if `panics` says so. -/
def KeepsSteady {α : Type} (panics : Prop) (program : Program FsInner FsError α) (fs : FsInner) :
    Prop :=
  (program fs).Meets (fun _ after => Steady fs after) (fun _ after => Steady fs after) panics

theorem KeepsSteady.bind {α β : Type} {panics : Prop} {program : Program FsInner FsError α}
    {next : α → Program FsInner FsError β} (first : KeepsSteady panics program fs)
    (rest : ∀ value middle, Steady fs middle → KeepsSteady panics (next value) middle) :
    KeepsSteady panics (program >>= next) fs := by
  apply Outcome.Meets.bind first
  intro value middle steady
  apply (rest value middle steady).mono
  · exact fun _ _ later => steady.trans later
  · exact fun _ _ later => steady.trans later
  · exact fun stops => stops

theorem KeepsSteady.weaken {α : Type} {panics : Prop} {program : Program FsInner FsError α}
    (keeps : KeepsSteady False program fs) : KeepsSteady panics program fs :=
  keeps.mono (fun _ _ steady => steady) (fun _ _ steady => steady) False.elim

theorem KeepsSteady.modify {panics : Prop} {change : FsInner → FsInner}
    (steady : Steady fs (change fs)) : KeepsSteady panics (modify change) fs :=
  steady

theorem KeepsSteady.forRange {panics : Prop} {body : Nat → Program FsInner FsError PUnit}
    {count start : Nat} (covered : Covered fs)
    (turn : ∀ i middle, start ≤ i → i < start + count → Covered middle →
      KeepsSteady panics (body i) middle) :
    KeepsSteady panics (forRange body count start) fs := by
  apply Outcome.Meets.forRange (fun _ after => Steady fs after) (Steady.refl fs)
  intro i middle behind before steady
  apply (turn i middle behind before (covered.steady steady)).mono
  · exact fun _ _ later => steady.trans later
  · exact fun _ _ later => steady.trans later
  · exact fun stops => stops

theorem Covered.allocLoop (covered : Covered fs) (count i : Nat)
    (fits : i + count ≤ fs.totalBlocks - fs.dataStart) :
    KeepsSteady False (allocLoop count i) fs := by
  induction count generalizing i with
  | zero => exact Steady.refl fs
  | succ count induction =>
    have bits := covered.bits
    rw [KeepsSteady, Pondfs.allocLoop, get_bind_apply, List.getElem?_eq_getElem (by omega)]
    simp only
    split
    · exact Steady.flushByte ..
    · exact induction (i + 1) (by omega)

theorem Covered.allocDataBlock (covered : Covered fs) : KeepsSteady False allocDataBlock fs := by
  rw [KeepsSteady, Pondfs.allocDataBlock, get_bind_apply, if_neg (Nat.not_lt.mpr covered.data)]
  exact covered.allocLoop _ 0 (Nat.le_of_eq (Nat.zero_add _))

theorem Covered.freeDataBlock (covered : Covered fs) (blk : Nat) :
    KeepsSteady False (freeDataBlock blk) fs := by
  rw [KeepsSteady, Pondfs.freeDataBlock, get_bind_apply]
  split
  · exact Steady.refl fs
  · next inRegion =>
    have bits := covered.bits
    simp only
    rw [List.getElem?_eq_getElem (by omega)]
    exact Steady.flushByte ..

theorem keepsSteady_setDirect (fs : FsInner) (id : StateId) (i blk : Nat) :
    KeepsSteady False (setDirect id i blk) fs :=
  Steady.setRaw ..

theorem Covered.fillSlot (covered : Covered fs) (id : StateId) {i : Nat} (inside : i < 12) :
    KeepsSteady False (fillSlot id i) fs := by
  rw [KeepsSteady, Pondfs.fillSlot, get_bind_apply, Vector.getElem?_eq_getElem inside]
  simp only
  split
  · apply KeepsSteady.bind covered.allocDataBlock
    intro blk middle _
    exact KeepsSteady.bind (.modify (Steady.setBlock ..)) fun _ last _ =>
      keepsSteady_setDirect last id i blk
  · exact Steady.refl fs

theorem Covered.freeSlot (covered : Covered fs) (id : StateId) {i : Nat} (inside : i < 12) :
    KeepsSteady False (freeSlot id i) fs := by
  rw [KeepsSteady, Pondfs.freeSlot, get_bind_apply, Vector.getElem?_eq_getElem inside]
  simp only
  split
  · exact (covered.freeDataBlock _).bind fun _ middle _ => keepsSteady_setDirect middle id i 0
  · exact Steady.refl fs

theorem keepsSteady_writeLoop (fs : FsInner) (id : StateId) (fuel cursor : Nat) (buf : List UInt8)
    (small : cursor + buf.length ≤ 12 * 4096) :
    KeepsSteady False (writeLoop id fuel cursor buf) fs := by
  induction fuel generalizing fs cursor buf with
  | zero => exact Steady.refl fs
  | succ fuel induction =>
    rw [KeepsSteady, writeLoop]
    split
    · exact Steady.refl fs
    · next nonempty =>
      have some_ : 0 < buf.length := List.length_pos_of_ne_nil nonempty
      rw [get_bind_apply, Vector.getElem?_eq_getElem (by omega)]
      apply KeepsSteady.bind (.modify (Steady.setBlock ..))
      intro _ middle _
      apply induction
      rw [List.length_drop]
      omega

theorem Covered.writeFileAt (covered : Covered fs) (id : StateId) (off : Nat) (buf : List UInt8) :
    KeepsSteady (2 ^ 64 ≤ off + buf.length) (writeFileAt id off buf) fs := by
  rw [KeepsSteady, Pondfs.writeFileAt]
  simp only
  split
  · next overflow => exact overflow
  · split
    · exact Steady.refl fs
    · next fits =>
      have fills : KeepsSteady False (forRange (Pondfs.fillSlot id)
          ((off + buf.length + 4095) / 4096) 0) fs :=
        KeepsSteady.forRange covered fun i middle _ before stillCovered =>
          stillCovered.fillSlot id (by omega)
      apply KeepsSteady.bind fills.weaken
      intro _ middle _
      have copies := keepsSteady_writeLoop middle id buf.length off buf (by omega)
      apply KeepsSteady.bind copies.weaken
      intro _ last _
      have grows : Steady last (if (last.raw id).size.toNat < off + buf.length then
          last.setRaw id { last.raw id with size := .ofNat (off + buf.length) } else last) := by
        split
        · exact Steady.setRaw ..
        · exact Steady.refl last
      exact KeepsSteady.bind (.modify grows) fun _ final _ => Steady.refl final

theorem Covered.dirWriteEntries (covered : Covered fs) (id : StateId) (entries : List DirEntry) :
    KeepsSteady (2 ^ 64 ≤ (serialize entries).length) (dirWriteEntries id entries) fs := by
  rw [KeepsSteady, Pondfs.dirWriteEntries, foldl_pushEntry, get_bind_apply]
  have frees : KeepsSteady (2 ^ 64 ≤ (serialize entries).length) (forRange (Pondfs.freeSlot id)
      (min (((fs.raw id).size.toNat + 4095) / 4096) 12 - ((serialize entries).length + 4095) / 4096)
      (((serialize entries).length + 4095) / 4096)) fs := by
    apply KeepsSteady.forRange covered
    intro i middle _ before covered
    exact (covered.freeSlot id (by omega)).weaken
  apply KeepsSteady.bind frees
  intro _ freed steady
  apply KeepsSteady.bind (.modify (Steady.setRaw ..))
  intro _ truncated recovered
  have writes := (((covered.steady steady).steady recovered).writeFileAt id 0 (serialize entries))
  rw [Nat.zero_add] at writes
  exact writes.bind fun _ last _ => Steady.setRaw ..

theorem Covered.eraseInode (covered : Covered fs) (id : StateId) :
    KeepsSteady False (eraseInode id) fs := by
  apply KeepsSteady.bind (KeepsSteady.forRange covered fun i middle _ before covered =>
    covered.freeSlot id (by omega))
  intro _ middle _
  exact Steady.setRaw ..

end Blocks

/-! ## Directories -/

theorem le_of_readLoop {dev : Disk} {raw : RawInode} {stop fuel cursor : Nat} {bytes : List UInt8}
    (reads : readLoop dev raw stop fuel cursor = .ok bytes) (enough : stop ≤ cursor + fuel)
    (small : cursor ≤ 12 * 4096) :
    stop ≤ 12 * 4096 ∧ cursor + bytes.length ≤ max cursor stop := by
  induction fuel generalizing cursor bytes with
  | zero =>
    cases reads
    exact ⟨by omega, Nat.le_max_left cursor stop⟩
  | succ fuel induction =>
    rw [readLoop] at reads
    split at reads
    · next before =>
      by_cases inside : cursor / 4096 < 12
      · rw [Vector.getElem?_eq_getElem inside] at reads
        simp only at reads
        split at reads
        · cases reads
        · generalize readsRest : readLoop dev raw stop fuel _ = answer at reads
          cases answer with
          | error fault => cases reads
          | ok rest =>
            cases reads
            rcases induction readsRest (by omega) (by omega) with ⟨isSmall, short⟩
            rw [List.length_append, Block.length_slice (by omega)]
            exact ⟨isSmall, by omega⟩
      · rw [Vector.getElem?_eq_none (Nat.not_lt.mp inside)] at reads
        cases reads
    · cases reads
      exact ⟨by omega, Nat.le_max_left cursor stop⟩

theorem utf8ByteSize_of_fromUTF8? {bytes : ByteArray} {name : String}
    (reads : String.fromUTF8? bytes = some name) : name.utf8ByteSize = bytes.size := by
  rw [String.fromUTF8?] at reads
  split at reads
  · cases reads
    rfl
  · cases reads

theorem short_of_parseLoop {buf : List UInt8} {fuel i : Nat} {entries : List DirEntry}
    (parses : parseLoop buf fuel i = .ok entries) :
    entries.length ≤ fuel ∧ ∀ entry ∈ entries, entry.1.utf8ByteSize < 2 ^ 16 := by
  induction fuel generalizing i entries with
  | zero =>
    cases parses
    exact ⟨Nat.le_refl 0, fun _ isEntry => (List.not_mem_nil isEntry).elim⟩
  | succ fuel induction =>
    have atEnd : (.ok [] : Except FsError (List DirEntry)) = .ok entries →
        entries.length ≤ fuel + 1 ∧ ∀ entry ∈ entries, entry.1.utf8ByteSize < 2 ^ 16 := by
      intro ends
      cases ends
      exact ⟨Nat.zero_le _, fun _ isEntry => (List.not_mem_nil isEntry).elim⟩
    rw [parseLoop] at parses
    split at parses
    · simp only at parses
      split at parses
      · exact atEnd parses
      · split at parses
        · cases parses
        · generalize reads : String.fromUTF8? _ = name? at parses
          cases name? with
          | none => cases parses
          | some name =>
            simp only at parses
            generalize ofKindCode _ = kind? at parses
            cases kind? with
            | none => cases parses
            | some kind =>
              simp only at parses
              generalize parsesRest : parseLoop buf fuel _ = answer at parses
              cases answer with
              | error fault => cases parses
              | ok rest =>
                cases parses
                rcases induction parsesRest with ⟨few, short⟩
                refine ⟨Nat.succ_le_succ few, ?_⟩
                intro entry isEntry
                rcases List.mem_cons.mp isEntry with isFirst | isLater
                · rw [isFirst, utf8ByteSize_of_fromUTF8? reads]
                  exact Nat.lt_of_le_of_lt (List.length_take_le ..) (UInt16.toNat_lt _)
                · exact short entry isLater
    · exact atEnd parses

theorem length_serialize_le {entries : List DirEntry}
    (short : ∀ entry ∈ entries, entry.1.utf8ByteSize < 2 ^ 16) :
    (serialize entries).length ≤ entries.length * 65556 := by
  induction entries with
  | nil => exact Nat.le_refl 0
  | cons entry entries induction =>
    have rest := induction fun other isOther => short other (List.mem_cons_of_mem entry isOther)
    have isShort := short entry List.mem_cons_self
    rw [serialize, List.flatMap_cons, List.length_append, length_entryBytes, ← serialize,
      List.length_cons, align4]
    omega

theorem dirReadEntries_small (fs : FsInner) (raw : RawInode) :
    (dirReadEntries raw fs).Meets
      (fun entries after => (serialize entries).length < 2 ^ 32 ∧ after = fs)
      (fun _ after => after = fs) (2 ^ 63 ≤ raw.size.toNat) := by
  rw [Pondfs.dirReadEntries]
  by_cases large : 2 ^ 63 ≤ raw.size.toNat
  · rw [if_pos large]
    exact large
  rw [if_neg large]
  have reads : (readFileAt raw 0 raw.size.toNat fs).Meets
      (fun read after => raw.size.toNat ≤ 12 * 4096 ∧ read.length ≤ raw.size.toNat ∧ after = fs)
      (fun _ after => after = fs) (2 ^ 63 ≤ raw.size.toNat) := by
    rw [readFileAt]
    split
    · next isEmpty => exact ⟨by omega, Nat.zero_le _, rfl⟩
    · rw [if_neg (by omega), get_bind_apply]
      apply Outcome.Meets.ofExcept
      · intro fault _
        rfl
      · intro read isRead
        have bounds := le_of_readLoop isRead (by omega) (Nat.zero_le _)
        exact ⟨by omega, by omega, rfl⟩
  apply Outcome.Meets.bind reads
  rintro read after ⟨small, short, rfl⟩
  apply Outcome.Meets.ofExcept
  · intro fault _
    rfl
  · intro entries isParsed
    rcases short_of_parseLoop isParsed with ⟨few, shortNames⟩
    rw [List.length_append, List.length_replicate] at few
    have total := length_serialize_le shortNames
    exact ⟨by omega, rfl⟩

/-! ## Programs with assertions -/

structure Grows (fs after : FsInner) : Prop where
  sized : Sized after
  count : fs.stateCount ≤ after.stateCount

/-- The assertions of a program hold where it is started: without them it ends alike. It keeps
the numbers in order, and panics only if `panics` says so. -/
def Passes {α : Type} (panics : Prop) (ok : α → FsInner → Prop)
    (checked plain : Program FsInner FsError α) (fs : FsInner) : Prop :=
  checked fs = plain fs ∧
    (plain fs).Meets (fun value after => Grows fs after ∧ ok value after)
      (fun _ after => Grows fs after) panics

section Passes

variable {α β : Type} {fs middle after : FsInner} {panics : Prop} {ok : β → FsInner → Prop}

theorem Grows.refl (sized : Sized fs) : Grows fs fs := ⟨sized, Nat.le_refl _⟩

theorem Grows.of_eq (sized : Sized fs) (same : after = fs) : Grows fs after := by
  rw [same]
  exact .refl sized

theorem Grows.trans (first : Grows fs middle) (second : Grows middle after) : Grows fs after :=
  ⟨second.sized, Nat.le_trans first.count second.count⟩

theorem Steady.grows (steady : Steady fs after) (sized : Sized fs) : Grows fs after :=
  ⟨sized.steady steady, Nat.le_of_eq steady.count.symm⟩

theorem Passes.bind {known : α → FsInner → Prop} {checked plain : Program FsInner FsError α}
    {checkedNext plainNext : α → Program FsInner FsError β}
    (first : Passes panics known checked plain fs)
    (rest : ∀ value middle, Grows fs middle → known value middle →
      Passes panics ok (checkedNext value) (plainNext value) middle) :
    Passes panics ok (checked >>= checkedNext) (plain >>= plainNext) fs := by
  rcases first with ⟨same, meets⟩
  rw [Passes, bind_apply, bind_apply, same]
  cases ended : plain fs with
  | ok value middle =>
    rw [ended] at meets
    rcases meets with ⟨grows, isKnown⟩
    rcases rest value middle grows isKnown with ⟨sameRest, meetsRest⟩
    refine ⟨sameRest, meetsRest.mono ?_ ?_ (fun stops => stops)⟩
    · exact fun _ _ later => ⟨grows.trans later.1, later.2⟩
    · exact fun _ _ later => grows.trans later
  | error fault middle =>
    rw [ended] at meets
    exact ⟨rfl, meets⟩
  | panic =>
    rw [ended] at meets
    exact ⟨rfl, meets⟩

theorem KeepsSteady.passes {program : Program FsInner FsError α}
    (keeps : KeepsSteady panics program fs) (sized : Sized fs) :
    Passes panics (fun _ after => Steady fs after) program program fs :=
  ⟨rfl, keeps.mono (fun _ _ steady => ⟨steady.grows sized, steady⟩)
    (fun _ _ steady => steady.grows sized) (fun stops => stops)⟩

theorem Passes.weaken {stops : Prop} {checked plain : Program FsInner FsError β}
    (passes : Passes stops ok checked plain fs) (isKnown : stops → panics) :
    Passes panics ok checked plain fs :=
  ⟨passes.1, passes.2.mono (fun _ _ known => known) (fun _ _ grows => grows) isKnown⟩

theorem Passes.get {checked plain : FsInner → Program FsInner FsError β}
    (rest : Passes panics ok (checked fs) (plain fs) fs) :
    Passes panics ok (get >>= checked) (get >>= plain) fs :=
  rest

theorem Passes.pure {value : β} (sized : Sized fs) (known : ok value fs) :
    Passes panics ok (pure value) (pure value) fs :=
  ⟨rfl, .refl sized, known⟩

theorem Passes.throw (sized : Sized fs) (fault : FsError) :
    Passes panics ok (Program.throw fault) (Program.throw fault) fs :=
  ⟨rfl, .refl sized⟩

theorem Passes.ite {condition : Prop} [Decidable condition]
    {checked plain checkedElse plainElse : Program FsInner FsError β}
    (first : Passes panics ok checked plain fs)
    (second : Passes panics ok checkedElse plainElse fs) :
    Passes panics ok (if condition then checked else checkedElse)
      (if condition then plain else plainElse) fs := by
  split
  · exact first
  · exact second

theorem Passes.okOr {value : Option α} {fault : FsError}
    {checked plain : α → Program FsInner FsError β} (sized : Sized fs)
    (rest : ∀ content, Passes panics ok (checked content) (plain content) fs) :
    Passes panics ok (Program.okOr value fault >>= checked) (Program.okOr value fault >>= plain)
      fs := by
  cases value with
  | none => exact .throw sized fault
  | some content => exact rest content

theorem Passes.assertInTable {ino : Nat} {checked plain : Program FsInner FsError β}
    (inTable : ino / 32 < fs.inodeTableBlocks) (rest : Passes panics ok checked plain fs) :
    Passes panics ok (Checked.assertInTable ino >>= fun _ => checked) plain fs := by
  have holds : (Checked.assertInTable ino >>= fun _ => checked) fs = checked fs := by
    rw [Checked.assertInTable, bind_apply, get_bind_apply, if_pos inTable]
    rfl
  exact ⟨holds.trans rest.1, rest.2⟩

theorem passes_writeInode (sized : Sized fs) {ino : Nat} (inTable : ino / 32 < fs.inodeTableBlocks)
    (raw : RawInode) :
    Passes panics (fun _ after => Steady fs after) (Checked.writeInode ino raw)
      (writeInode ino raw) fs := by
  have steady : Steady fs (fs.writeInode ino raw) := ⟨rfl, rfl, rfl, rfl, fun _ => rfl⟩
  exact .assertInTable inTable ⟨rfl, steady.grows sized, steady⟩

theorem Sized.insertState (sized : Sized fs) {state : InodeState}
    (inTable : state.ino / 32 < fs.inodeTableBlocks) :
    Grows fs (fs.insertState state) ∧ fs.stateCount < (fs.insertState state).stateCount := by
  refine ⟨⟨⟨sized.data, sized.bits, sized.table, ?_, ?_⟩, Nat.le_succ _⟩, Nat.lt_succ_self _⟩
  · intro id inRange
    rw [FsInner.ino_insertState]
    split
    · exact inTable
    · next isOld => exact sized.states id (Nat.lt_of_le_of_ne (Nat.le_of_lt_succ inRange) isOld)
  · intro ino id isCached
    rw [FsInner.cache_insertState] at isCached
    split at isCached
    · next same =>
      rw [← Option.some.inj isCached, same]
      exact ⟨Nat.lt_succ_self _, inTable⟩
    · rcases sized.cached ino id isCached with ⟨inRange, isIn⟩
      exact ⟨Nat.lt_succ_of_lt inRange, isIn⟩

theorem Sized.uncache (sized : Sized fs) (ino : Nat) : Grows fs (fs.uncache ino) := by
  refine ⟨⟨sized.data, sized.bits, sized.table, sized.states, ?_⟩, Nat.le_refl _⟩
  intro other id isCached
  rw [FsInner.cache_uncache] at isCached
  split at isCached
  · cases isCached
  · exact sized.cached other id isCached

theorem Sized.loadInode (sized : Sized fs) {ino : Nat} {state : InodeState}
    (isLoaded : loadInode fs ino = .ok state) :
    state.ino = ino ∧ ino / 32 < fs.inodeTableBlocks := by
  have table := sized.table
  rw [Pondfs.loadInode] at isLoaded
  split at isLoaded
  · cases isLoaded
  · cases isLoaded
    exact ⟨rfl, by omega⟩

theorem Sized.getOrLoad (sized : Sized fs) (ino : Nat) :
    Passes panics (fun id after => id < after.stateCount ∧ ino / 32 < after.inodeTableBlocks)
      (Checked.getOrLoad ino) (getOrLoad ino) fs := by
  apply Passes.get
  cases isCached : fs.inodeCache ino with
  | some id => exact .pure sized (sized.cached ino id isCached)
  | none =>
    cases isLoaded : Pondfs.loadInode fs ino with
    | error fault => exact .throw sized fault
    | ok state =>
      rcases sized.loadInode isLoaded with ⟨rfl, inTable⟩
      rcases sized.insertState inTable with ⟨grows, isNew⟩
      exact .assertInTable inTable ⟨rfl, grows, isNew, inTable⟩

theorem Sized.dirReadEntries (sized : Sized fs) (raw : RawInode)
    (isKnown : 2 ^ 63 ≤ raw.size.toNat → panics) :
    Passes panics (fun entries after => (serialize entries).length < 2 ^ 32 ∧ after = fs)
      (dirReadEntries raw) (dirReadEntries raw) fs :=
  ⟨rfl, (dirReadEntries_small fs raw).mono (fun _ _ known => ⟨.of_eq sized known.2, known⟩)
    (fun _ _ same => .of_eq sized same) isKnown⟩

theorem Sized.allocInode (sized : Sized fs) :
    Passes panics (fun ino after => ino / 32 < fs.inodeTableBlocks ∧ after = fs)
      allocInode allocInode fs :=
  ⟨rfl, (allocInode_scans fs).mono
    (fun _ _ known => ⟨.of_eq sized known.2.2.2, known.2.1, known.2.2.2⟩)
    (fun _ _ known => .of_eq sized known.2.1) False.elim⟩

end Passes

/-! ## Methods -/

section Methods

variable {fs : FsInner} {id : StateId}

theorem Sized.readAt (sized : Sized fs) (id : StateId) (off len : Nat) :
    Passes (2 ^ 64 ≤ off + len) (fun _ _ => True) (readAt id off len) (readAt id off len) fs := by
  apply Passes.get
  apply Passes.ite (.throw sized _)
  refine ⟨rfl, (readFileAt_state fs (fs.raw id) off len).mono ?_ ?_ (fun overflow => overflow)⟩
  · exact fun _ _ same => ⟨.of_eq sized same, trivial⟩
  · exact fun _ _ same => .of_eq sized same

theorem Sized.writeAt (sized : Sized fs) (inRange : id < fs.stateCount) (off : Nat)
    (buf : List UInt8) :
    Passes (2 ^ 64 ≤ off + buf.length) (fun _ _ => True) (Checked.writeAt id off buf)
      (writeAt id off buf) fs := by
  apply Passes.get
  apply Passes.ite (.throw sized _)
  apply ((sized.covered.writeFileAt id off buf).passes sized).bind
  intro n written grows steady
  apply Passes.get
  apply (passes_writeInode grows.sized (grows.sized.states id (steady.count ▸ inRange)) _).bind
  exact fun _ last growsLast _ => .pure growsLast.sized trivial

theorem Sized.lookup (sized : Sized fs) (id : StateId) (name : String) :
    Passes (2 ^ 63 ≤ (fs.raw id).size.toNat) (fun child after => child < after.stateCount)
      (Checked.lookup id name) (lookup id name) fs := by
  apply Passes.get
  apply Passes.ite (.throw sized _)
  apply (sized.dirReadEntries _ (fun large => large)).bind
  rintro entries _ _ ⟨_, rfl⟩
  apply Passes.okOr sized
  intro entry
  rcases sized.getOrLoad entry.2.2 with ⟨same, meets⟩
  exact ⟨same, meets.mono (fun _ _ known => ⟨known.1, known.2.1⟩) (fun _ _ grows => grows)
    (fun stops => stops)⟩

theorem Sized.readdir (sized : Sized fs) (id : StateId) :
    Passes (2 ^ 63 ≤ (fs.raw id).size.toNat) (fun _ _ => True) (readdir id) (readdir id) fs := by
  apply Passes.get
  apply Passes.ite (.throw sized _)
  apply (sized.dirReadEntries _ (fun large => large)).bind
  exact fun entries _ grows _ => .pure grows.sized trivial

theorem Sized.addEntry (sized : Sized fs) (id : StateId) {entries : List DirEntry}
    (small : (serialize entries).length < 2 ^ 32) (name : String) (kind : InodeKind) (ino : Nat) :
    KeepsSteady (2 ^ 63 ≤ name.utf8ByteSize)
      (Pondfs.dirWriteEntries id (entries ++ [(name, kind, ino)])) fs := by
  apply (sized.covered.dirWriteEntries id _).mono (fun _ _ steady => steady)
    (fun _ _ steady => steady)
  intro overflow
  rw [length_serialize_concat, align4] at overflow
  omega

theorem Sized.removeEntry (sized : Sized fs) (id : StateId) {entries : List DirEntry}
    (small : (serialize entries).length < 2 ^ 32) (name : String) :
    KeepsSteady False (Pondfs.dirWriteEntries id (entries.eraseP fun entry => entry.1 = name))
      fs := by
  apply (sized.covered.dirWriteEntries id _).mono (fun _ _ steady => steady)
    (fun _ _ steady => steady)
  intro overflow
  have shorter : (serialize (entries.eraseP fun entry => entry.1 = name)).length ≤
      (serialize entries).length := (List.eraseP_sublist.flatMap entryBytes).length_le
  omega

theorem Sized.create (sized : Sized fs) (inRange : id < fs.stateCount) (name : String)
    (kind : InodeKind) :
    Passes (2 ^ 63 ≤ name.utf8ByteSize ∨ 2 ^ 63 ≤ (fs.raw id).size.toNat)
      (fun child after => child < after.stateCount)
      (Checked.create id name kind) (create id name kind) fs := by
  apply Passes.get
  apply Passes.ite (.throw sized _)
  apply (sized.dirReadEntries _ .inr).bind
  rintro entries _ _ ⟨small, rfl⟩
  apply Passes.ite (.throw sized _)
  apply sized.allocInode.bind
  rintro newIno _ _ ⟨inTable, rfl⟩
  apply (passes_writeInode sized inTable _).bind
  intro _ written growsWritten steadyWritten
  have adds := growsWritten.sized.addEntry id small name kind newIno
  apply ((adds.passes growsWritten.sized).weaken Or.inl).bind
  intro _ listed growsListed steadyListed
  apply Passes.get
  have steady := steadyWritten.trans steadyListed
  have isState := growsListed.sized.states id (steady.count ▸ inRange)
  apply (passes_writeInode growsListed.sized isState _).bind
  intro _ last growsLast steadyLast
  have isIn := (steady.trans steadyLast).inTable inTable
  have inserts := growsLast.sized.insertState
    (show (InodeState.mk newIno (newRaw kind)).ino / 32 < last.inodeTableBlocks from isIn)
  exact ⟨rfl, inserts.1, steadyLast.count ▸ inserts.2⟩

theorem Sized.unlink (sized : Sized fs) (inRange : id < fs.stateCount) (name : String) :
    Passes (2 ^ 63 ≤ (fs.raw id).size.toNat) (fun _ _ => True) (Checked.unlink id name)
      (unlink id name) fs := by
  apply Passes.get
  apply Passes.ite (.throw sized _)
  apply (sized.dirReadEntries _ (fun large => large)).bind
  rintro entries _ _ ⟨small, rfl⟩
  apply Passes.okOr sized
  intro entry
  apply (sized.getOrLoad entry.2.2).bind
  rintro target loaded growsLoaded ⟨_, inTable⟩
  have erases := (growsLoaded.sized.covered.eraseInode target).passes growsLoaded.sized
  apply (erases.weaken False.elim).bind
  intro _ erased growsErased steadyErased
  apply Passes.get
  apply (passes_writeInode growsErased.sized (steadyErased.inTable inTable) _).bind
  intro _ marked growsMarked _
  have forgets {stops : Prop} : Passes stops (fun _ _ => True)
    (modify fun fs => fs.uncache entry.2.2)
      (modify fun fs => fs.uncache entry.2.2) marked :=
    ⟨rfl, growsMarked.sized.uncache entry.2.2, trivial⟩
  apply forgets.bind
  intro _ dropped growsDropped _
  have removes := growsDropped.sized.removeEntry id small name
  apply ((removes.passes growsDropped.sized).weaken False.elim).bind
  intro _ last growsLast _
  have grows :=
    growsLoaded.trans (growsErased.trans (growsMarked.trans (growsDropped.trans growsLast)))
  have isState := growsLast.sized.states id (Nat.lt_of_lt_of_le inRange grows.count)
  apply Passes.get
  rcases passes_writeInode growsLast.sized isState (last.raw id) with ⟨same, meets⟩
  exact ⟨same, meets.mono (fun _ _ known => ⟨known.1, trivial⟩) (fun _ _ grows => grows)
    (fun stops => stops)⟩

end Methods

/-! ## Sessions -/

/-- The numbers of a call do not fit: an offset past the end of the address space, or a name
longer than any string. -/
def Oversized : Method → Prop
  | .readAt off len => 2 ^ 64 ≤ off + len
  | .writeAt off buf => 2 ^ 64 ≤ off + buf.length
  | .create name _ => 2 ^ 63 ≤ name.utf8ByteSize
  | _ => False

/-- A number of the device is too large for the code: a block number that overflows when it is
counted in sectors of 512 bytes, a table with more inodes than a `u64` counts, or a directory
that is longer than any `Vec`. -/
def Unusable (fs : FsInner) : Prop :=
  2 ^ 61 ≤ fs.bitmapStart + fs.bitmapBlocks ∨ 2 ^ 61 ≤ fs.totalBlocks ∨
    2 ^ 59 ≤ fs.inodeTableStart + fs.inodeTableBlocks ∨
    ∃ id < fs.stateCount, 2 ^ 63 ≤ (fs.raw id).size.toNat ∨ ∃ i, 2 ^ 61 ≤ (fs.raw id).slot i

/-- A session whose numbers are in order: every handle has a state. -/
structure InRange (session : Session FsInner StateId) : Prop where
  sized : Sized session.fs
  handles : ∀ id ∈ session.handles, id < session.fs.stateCount

section Sessions

variable {session after : Session FsInner StateId} {panics : Prop}

theorem InRange.grows (inRange : InRange session) (grows : Grows session.fs after.fs)
    (same : after.handles = session.handles) : InRange after :=
  ⟨grows.sized, fun id isHandle =>
    Nat.lt_of_lt_of_le (inRange.handles id (same ▸ isHandle)) grows.count⟩

theorem Passes.onFs {α β : Type} {checked plain : Program FsInner FsError α}
    {ok : α → FsInner → Prop} (passes : Passes panics ok checked plain session.fs)
    (next : α → Program (Session FsInner StateId) FsError β) :
    (Inode.onFs checked >>= next) session = (Inode.onFs plain >>= next) session := by
  rw [bind_apply, bind_apply, Inode.onFs, Inode.onFs, passes.1]

theorem InRange.onFs {α : Type} {checked plain : Program FsInner FsError α}
    {ok : α → FsInner → Prop} (inRange : InRange session) (reply : α → Reply)
    (passes : Passes panics ok checked plain session.fs) :
    ((do let value ← Inode.onFs plain; return reply value :
      Program (Session FsInner StateId) FsError Reply) session).Meets
      (fun _ => InRange) (fun _ => InRange) panics := by
  apply Outcome.Meets.bind ((onFs_meets passes.2).imp_error _)
  · rintro value after ⟨⟨grows, _⟩, same⟩
    exact inRange.grows grows same
  · rintro _ after ⟨grows, same⟩
    exact inRange.grows grows same

theorem InRange.keepHandle {checked plain : Program FsInner FsError StateId}
    (inRange : InRange session)
    (passes : Passes panics (fun child after => child < after.stateCount) checked plain
      session.fs) :
    ((do let child ← Inode.onFs plain; Inode.keepHandle child :
      Program (Session FsInner StateId) FsError Reply) session).Meets
      (fun _ => InRange) (fun _ => InRange) panics := by
  apply Outcome.Meets.bind ((onFs_meets passes.2).imp_error _)
  · rintro child after ⟨⟨grows, isChild⟩, same⟩
    have before := inRange.grows grows same
    refine ⟨before.sized, ?_⟩
    intro id isHandle
    rcases List.mem_append.mp isHandle with isOld | isNew
    · exact before.handles id isOld
    · rw [List.mem_singleton.mp isNew]
      exact isChild
  · rintro _ after ⟨grows, same⟩
    exact inRange.grows grows same

theorem InRange.perform (inRange : InRange session) (call : Call) :
    Checked.inode.perform call session = inode.perform call session ∧
      (inode.perform call session).Meets (fun _ => InRange) (fun _ => InRange)
        (Oversized call.method ∨ Unusable session.fs) := by
  rw [Inode.perform, Inode.perform, get_bind_apply, get_bind_apply]
  cases isHandle : session.handles[call.handle]? with
  | none => exact ⟨rfl, inRange⟩
  | some id =>
    have inStates := inRange.handles id (List.mem_of_getElem? isHandle)
    have unusable (large : 2 ^ 63 ≤ (session.fs.raw id).size.toNat) : Unusable session.fs :=
      .inr (.inr (.inr ⟨id, inStates, .inl large⟩))
    have sized := inRange.sized
    rcases call with ⟨number, method⟩
    cases method with
    | kind => exact ⟨rfl, inRange⟩
    | stat => exact ⟨rfl, inRange⟩
    | readAt off len =>
      exact ⟨rfl, inRange.onFs .bytes ((sized.readAt id off len).weaken .inl)⟩
    | writeAt off buf =>
      have passes := sized.writeAt inStates off buf
      exact ⟨passes.onFs _, inRange.onFs .count (passes.weaken .inl)⟩
    | lookup name =>
      have passes := sized.lookup id name
      exact ⟨passes.onFs _, inRange.keepHandle (passes.weaken fun large => .inr (unusable large))⟩
    | readdir =>
      have passes := sized.readdir id
      exact ⟨rfl, inRange.onFs .listing (passes.weaken fun large => .inr (unusable large))⟩
    | create name kind =>
      have passes := sized.create inStates name kind
      exact ⟨passes.onFs _, inRange.keepHandle (passes.weaken (Or.imp_right unusable))⟩
    | unlink name =>
      have passes := sized.unlink inStates name
      refine ⟨passes.onFs _, inRange.onFs (fun _ => .done) (passes.weaken ?_)⟩
      exact fun large => .inr (unusable large)

theorem InRange.comes (inRange : InRange session) {call : Call}
    (comes : Comes session call after) : InRange after :=
  (inRange.perform call).2.of_final comes

end Sessions

/-! ## Arbitrary images -/

section Images

variable {dev : Disk} {fs : FsInner} {root : StateId}

theorem eq_of_mount (mounts : mount dev = .ok (fs, root)) : ∃ sb state,
    loadInode (bare dev sb) rootIno = .ok state ∧ fs = (bare dev sb).insertState state ∧
      root = 0 := by
  rw [mount] at mounts
  simp only at mounts
  split at mounts
  · cases mounts
  · split at mounts
    · cases mounts
    · refine ⟨Block.read Superblock.codec (dev 0) 0, ?_⟩
      rw [← diskBitmap, ← bare] at mounts
      cases loads : loadInode (bare dev (Block.read Superblock.codec (dev 0) 0)) rootIno with
      | error fault =>
        rw [loads] at mounts
        cases mounts
      | ok state =>
        rw [loads] at mounts
        cases mounts
        exact ⟨state, rfl, rfl, rfl⟩

end Images

end PersonaOS.Fs.Pondfs
