import PersonaOS.Foundation.Guards
import PersonaOS.Fs.Failures

/-! # The locks of PondFS

The calls of `fs/pondfs/mod.rs` with the scopes of their guards: the mutex of the file system,
the mutex of each inode state, and those of the states that are made for one `write_inode`.
Every access to the device may fail.

A call does what the model without locks says, except that `unlink` of a name that is there
calls `get_or_load` with the file system locked, and never comes back. `mount` takes any
superblock, and stops at a block number that overflows; the blocks of a file system that is in
order lie on its device, whose sectors are counted by a `u64`. -/

namespace PersonaOS.Fs.Pondfs.Locking

open Program Guarded

inductive Lock where
  /-- `Mutex<FsInner>` -/
  | fs
  /-- `InodeState::raw` of a state that others can get hold of. -/
  | raw (id : StateId)
  /-- `InodeState::raw` of a state that nobody else has. -/
  | temporary
  deriving DecidableEq, Repr

abbrev LockProgram (α : Type) := Program (Guarded FsInner Lock) (Halt FsError) α

def loadInode (ino : Nat) : LockProgram InodeState := do
  withLock .fs do
    let fs ← read
    if ino = 0 ∨ fs.inodeCount ≤ ino then raise .notFound else pure ⟨⟩
  -- The device is read with the guard gone.
  operate .io do
    let fs ← get
    return ⟨ino, fs.diskInode ino⟩

def writeInode (ino : Nat) (raw : RawInode) : LockProgram PUnit := do
  access .io
  let raw ← withLock .temporary (pure raw)
  operate .io (Pondfs.writeInode ino raw)

/-- `inode_cache.insert(state.ino, state)`, with the number that the state gets. -/
def insert (state : InodeState) : Program FsInner FsError StateId := do
  let fs ← get
  modify fun fs => fs.insertState state
  return fs.stateCount

def getOrLoad (ino : Nat) : LockProgram StateId := do
  let cached ← withLock .fs do
    let fs ← read
    return fs.inodeCache ino
  match cached with
  | some id => return id
  | none =>
    let state ← loadInode ino
    withLock .fs (lift (insert state))

/-- `blk` or `blk * lbas_per_block` does not fit into a `u64`. -/
def Overflows (lbasPerBlock blk : Nat) : Prop := 2 ^ 64 ≤ blk ∨ 2 ^ 64 ≤ blk * lbasPerBlock

instance (lbasPerBlock blk : Nat) : Decidable (Overflows lbasPerBlock blk) :=
  inferInstanceAs (Decidable (_ ∨ _))

/-- The reads of the bitmap, block by block. -/
def readBitmap (lbasPerBlock : Nat) (inner : FsInner) : Program FsInner FsError PUnit :=
  if ∃ i < inner.bitmapBlocks, Overflows lbasPerBlock (inner.bitmapStart + i) then
    abort
  else
    modify fun _ => inner

/-- `PondFs::mount`, with the file system that it starts from. The new file system has mutexes
of its own. -/
def mountInner (lbasPerBlock : Nat) (inner : FsInner) : LockProgram StateId := do
  access .io
  if inner.sb.magic ≠ pondMagic then
    raise .io
  else if inner.sb.version ≠ pondVersion then
    raise .io
  -- `vec![0u8; (sb.bitmap_blocks as usize) * BLOCK_SIZE]`
  else if 2 ^ 63 ≤ inner.bitmapBlocks * 4096 then
    abort
  else do
    operate .io (readBitmap lbasPerBlock inner)
    if rootIno < inner.inodeCount ∧
        Overflows lbasPerBlock (inner.inodeTableStart + rootIno / 32) then
      abort
    else
      let rootState ← loadInode rootIno
      withLock .fs (lift (insert rootState))

def inner (dev : Disk) : FsInner :=
  let sb := Block.read Superblock.codec (dev 0) 0
  let bitmap := (List.range sb.bitmapBlocks.toNat).flatMap fun i =>
    List.ofFn (dev (sb.bitmapStart.toNat + i))
  ⟨dev, sb, bitmap, fun _ => none, fun _ => default, 0, []⟩

def mount (dev : Disk) (lbasPerBlock : Nat) : LockProgram StateId :=
  mountInner lbasPerBlock (inner dev)

def kind (id : StateId) : LockProgram InodeKind :=
  withLock (.raw id) do
    let fs ← read
    return Pondfs.kind id fs

def size (id : StateId) : LockProgram Nat :=
  withLock (.raw id) do
    let fs ← read
    return Pondfs.size id fs

def readAt (id : StateId) (off len : Nat) : LockProgram (List UInt8) :=
  withLock .fs do
    withLock (.raw id) do
      let fs ← read
      if (fs.raw id).kind ≠ inodeKindFile then
        raise .isDir
      else
        operate .io (readFileAt (fs.raw id) off len)

def writeAt (id : StateId) (off : Nat) (buf : List UInt8) : LockProgram Nat :=
  withLock .fs do
    withLock (.raw id) do
      let fs ← read
      if (fs.raw id).kind ≠ inodeKindFile then
        raise .isDir
      else
        let n ← operate .io (writeFileAt id off buf)
        let fs ← read
        writeInode (fs.ino id) (fs.raw id)
        return n

/-- `let raw_copy = *self.state.raw.lock()` -/
def copyRaw (id : StateId) : LockProgram RawInode :=
  withLock (.raw id) do
    let fs ← read
    return fs.raw id

def lookup (id : StateId) (name : String) : LockProgram StateId := do
  let raw ← copyRaw id
  if raw.kind ≠ inodeKindDir then
    raise .notDir
  else
    let entries ← withLock .fs (operate .io (dirReadEntries raw))
    let (_, _, ino) ← okOr (entries.find? fun entry => entry.1 = name) (.fault .notFound)
    getOrLoad ino

def readdir (id : StateId) : LockProgram (List (String × InodeKind)) := do
  let raw ← copyRaw id
  if raw.kind ≠ inodeKindDir then
    raise .notDir
  else
    withLock .fs do
      let entries ← operate .io (dirReadEntries raw)
      return entries.map fun (name, kind, _) => (name, kind)

def create (id : StateId) (name : String) (kind : InodeKind) : LockProgram StateId :=
  withLock .fs do
    withLock (.raw id) do
      let fs ← read
      if (fs.raw id).kind ≠ inodeKindDir then
        raise .notDir
      else
        let entries ← operate .io (dirReadEntries (fs.raw id))
        if entries.any fun entry => entry.1 = name then
          raise .exists_
        else
          let newIno ← operate .io allocInode
          writeInode newIno (newRaw kind)
          operate .io (dirWriteEntries id (entries ++ [(name, kind, newIno)]))
          let fs ← read
          writeInode (fs.ino id) (fs.raw id)
          lift (modify fun fs => fs.insertState ⟨newIno, newRaw kind⟩)
          return fs.stateCount

def unlink (id : StateId) (name : String) : LockProgram PUnit :=
  withLock .fs do
    withLock (.raw id) do
      let fs ← read
      if (fs.raw id).kind ≠ inodeKindDir then
        raise .notDir
      else
        let entries ← operate .io (dirReadEntries (fs.raw id))
        let (_, _, ino) ← okOr (entries.find? fun entry => entry.1 = name) (.fault .notFound)
        let target ← getOrLoad ino
        let snap ← withLock (.raw target) do
          operate .io (eraseInode target)
          let fs ← read
          return fs.raw target
        writeInode ino snap
        lift (modify fun fs => fs.uncache ino)
        operate .io (dirWriteEntries id (entries.eraseP fun entry => entry.1 = name))
        let fs ← read
        writeInode (fs.ino id) (fs.raw id)

inductive Request where
  | mount (dev : Disk) (lbasPerBlock : Nat)
  | call (id : StateId) (method : Method)

def invoke (id : StateId) : Method → LockProgram Reply
  | .kind => do
      let kind ← kind id
      return .kind kind
  | .stat => do
      let kind ← kind id
      let size ← size id
      return .stat kind size
  | .readAt off len => do
      let bytes ← readAt id off len
      return .bytes bytes
  | .writeAt off buf => do
      let count ← writeAt id off buf
      return .count count
  | .lookup name => do
      let _ ← lookup id name
      return .handle
  | .readdir => do
      let entries ← readdir id
      return .listing entries
  | .create name kind => do
      let _ ← create id name kind
      return .handle
  | .unlink name => do
      unlink id name
      return .done

def Request.run : Request → LockProgram Reply
  | .mount dev lbasPerBlock => do
      let _ ← Locking.mount dev lbasPerBlock
      return .handle
  | .call id method => invoke id method

/-! ## What the calls do -/

section Follow

variable {locks : List Lock}

theorem loadInode_follows (ino : Nat) :
    Follows .io [.fs] (loadInode ino) (do
      let fs ← get
      ofExcept (Pondfs.loadInode fs ino)) := by
  have splits : (do
      let fs ← get
      ofExcept (Pondfs.loadInode fs ino) : Program FsInner FsError InodeState) = (do
      (do
        let fs ← get
        if ino = 0 ∨ fs.inodeCount ≤ ino then throw .notFound else pure ⟨⟩)
      (do
        let fs ← get
        return ⟨ino, fs.diskInode ino⟩)) := by
    funext fs
    rw [get_bind_apply, bind_apply, get_bind_apply, Pondfs.loadInode]
    split
    · rfl
    · rfl
  rw [splits]
  apply Follows.bind
  · exact .withLock (.bind .read fun fs => .ite (.raise _) (.pure _)) List.not_mem_nil
  · exact fun _ => .operate _

theorem writeInode_follows (ino : Nat) (raw : RawInode) :
    Follows .io [.temporary] (writeInode ino raw) (Pondfs.writeInode ino raw) := by
  have splits : Pondfs.writeInode ino raw = (do
      let raw ← pure raw
      Pondfs.writeInode ino raw) := rfl
  rw [splits]
  apply Follows.access
  exact .bind (.withLock (.pure raw) List.not_mem_nil) fun raw => .operate _

theorem getOrLoad_follows (ino : Nat) :
    Follows .io [.fs] (getOrLoad ino) (Pondfs.getOrLoad ino) := by
  have splits : Pondfs.getOrLoad ino = (do
      let cached ← (do
        let fs ← get
        return fs.inodeCache ino)
      match cached with
      | some id => return id
      | none =>
        let state ← (do
          let fs ← get
          ofExcept (Pondfs.loadInode fs ino))
        insert state) := by
    funext fs
    rw [Pondfs.getOrLoad, get_bind_apply, bind_apply, get_bind_apply, pure_apply]
    cases fs.inodeCache ino with
    | some id => rfl
    | none =>
      simp only [bind_apply, get_apply]
      cases Pondfs.loadInode fs ino with
      | error error => rfl
      | ok state => rfl
  rw [splits]
  apply Follows.bind (.withLock (.bind .read fun fs => .pure _) List.not_mem_nil)
  intro cached
  cases cached with
  | some id => exact .pure id
  | none =>
    exact .bind (loadInode_follows ino) fun state => .withLock (.lift _) List.not_mem_nil

theorem kind_follows (id : StateId) :
    Follows .io [.raw id] (kind id) (do
      let fs ← get
      return Pondfs.kind id fs) :=
  .withLock (.bind .read fun _ => .pure _) List.not_mem_nil

theorem size_follows (id : StateId) :
    Follows .io [.raw id] (size id) (do
      let fs ← get
      return Pondfs.size id fs) :=
  .withLock (.bind .read fun _ => .pure _) List.not_mem_nil

theorem readAt_follows (id : StateId) (off len : Nat) :
    Follows .io [.fs, .raw id] (readAt id off len) (Pondfs.readAt id off len) := by
  apply Follows.withLock _ (by simp)
  apply Follows.withLock _ List.not_mem_nil
  exact .bind .read fun fs => .ite (.raise _) (.operate _)

theorem writeAt_follows (id : StateId) (off : Nat) (buf : List UInt8) :
    Follows .io [.fs, .raw id, .temporary] (writeAt id off buf) (Pondfs.writeAt id off buf) := by
  apply Follows.withLock _ (by simp)
  apply Follows.withLock _ (by simp)
  apply Follows.bind .read
  intro fs
  apply Follows.ite (.raise _)
  apply Follows.bind (.operate _)
  intro n
  apply Follows.bind .read
  intro fs
  exact .bind (writeInode_follows _ _) fun _ => .pure n

theorem copyRaw_follows (id : StateId) :
    Follows .io [.fs, .raw id] (copyRaw id) (do
      let fs ← get
      return fs.raw id) := by
  have copies : Follows .io [.raw id] (copyRaw id) (do
      let fs ← get
      return fs.raw id) :=
    .withLock (.bind .read fun _ => .pure _) List.not_mem_nil
  exact copies.mono (by simp)

theorem lookup_follows (id : StateId) (name : String) :
    Follows .io [.fs, .raw id] (lookup id name) (Pondfs.lookup id name) := by
  have locks : ∀ lock ∈ [Lock.fs], lock ∈ [Lock.fs, .raw id] := by simp
  have splits : Pondfs.lookup id name = (do
      let raw ← (do
        let fs ← get
        return fs.raw id : Program FsInner FsError RawInode)
      if raw.kind ≠ inodeKindDir then
        Program.throw .notDir
      else
        let entries ← dirReadEntries raw
        let (_, _, ino) ← okOr (entries.find? fun entry => entry.1 = name) .notFound
        Pondfs.getOrLoad ino) := rfl
  rw [splits]
  apply Follows.bind (copyRaw_follows id)
  intro raw
  apply Follows.ite (.raise _)
  apply Follows.bind (.mono (.withLock (.operate _) List.not_mem_nil) locks)
  intro entries
  apply Follows.bind (.okOr _ _)
  intro entry
  exact (getOrLoad_follows entry.2.2).mono locks

theorem readdir_follows (id : StateId) :
    Follows .io [.fs, .raw id] (readdir id) (Pondfs.readdir id) := by
  have locks : ∀ lock ∈ [Lock.fs], lock ∈ [Lock.fs, .raw id] := by simp
  have splits : Pondfs.readdir id = (do
      let raw ← (do
        let fs ← get
        return fs.raw id : Program FsInner FsError RawInode)
      if raw.kind ≠ inodeKindDir then
        Program.throw .notDir
      else
        let entries ← dirReadEntries raw
        return entries.map fun (name, kind, _) => (name, kind)) := rfl
  rw [splits]
  apply Follows.bind (copyRaw_follows id)
  intro raw
  apply Follows.ite (.raise _)
  exact .mono (.withLock (.bind (.operate _) fun _ => .pure _) List.not_mem_nil) locks

theorem create_follows (id : StateId) (name : String) (kind : InodeKind) :
    Follows .io [.fs, .raw id, .temporary] (create id name kind) (Pondfs.create id name kind) := by
  apply Follows.withLock _ (by simp)
  apply Follows.withLock _ (by simp)
  apply Follows.bind .read
  intro fs
  apply Follows.ite (.raise _)
  apply Follows.bind (.operate _)
  intro entries
  apply Follows.ite (.raise _)
  apply Follows.bind (.operate _)
  intro newIno
  apply Follows.bind (writeInode_follows _ _)
  intro _
  apply Follows.bind (.operate _)
  intro _
  apply Follows.bind .read
  intro fs
  apply Follows.bind (writeInode_follows _ _)
  intro _
  exact .bind (.lift _) fun _ => .pure _

/-- `mount` without the guards. -/
def plainMount (lbasPerBlock : Nat) (inner : FsInner) : Program FsInner FsError StateId := do
  if inner.sb.magic ≠ pondMagic then
    throw .io
  else if inner.sb.version ≠ pondVersion then
    throw .io
  else if 2 ^ 63 ≤ inner.bitmapBlocks * 4096 then
    abort
  else do
    readBitmap lbasPerBlock inner
    if rootIno < inner.inodeCount ∧
        Overflows lbasPerBlock (inner.inodeTableStart + rootIno / 32) then
      abort
    else
      let fs ← get
      let rootState ← ofExcept (Pondfs.loadInode fs rootIno)
      insert rootState

theorem mountInner_follows (lbasPerBlock : Nat) (inner : FsInner) :
    Follows .io [.fs] (mountInner lbasPerBlock inner) (plainMount lbasPerBlock inner) := by
  apply Follows.access
  apply Follows.ite (.raise _)
  apply Follows.ite (.raise _)
  apply Follows.ite .abort
  apply Follows.bind (.operate _)
  intro _
  apply Follows.ite .abort
  exact .bind (loadInode_follows rootIno) fun state => .withLock (.lift _) List.not_mem_nil

end Follow

/-! ## Calls that finish -/

def unlocked (fs : FsInner) (interrupts : List (Option FsInner)) : Guarded FsInner Lock :=
  ⟨fs, fun _ => false, interrupts⟩

/-- The method neither overflows an offset nor unlinks a name that is there. A file is not read
behind its end, so that the offset does not matter there. -/
def Harmless (fs : FsInner) (id : StateId) : Method → Prop
  | .readAt off len =>
    ¬ ((fs.raw id).kind = inodeKindFile ∧ off < (fs.raw id).size.toNat ∧ 2 ^ 64 ≤ off + len)
  | .writeAt off buf => ¬ ((fs.raw id).kind = inodeKindFile ∧ 2 ^ 64 ≤ off + buf.length)
  | .unlink name => (Pondfs.lookup id name fs).value? = none
  | _ => True

section Finish

variable {guarded : Guarded FsInner Lock} {fs : FsInner} {nodes : Nodes} {id : StateId}
  {interrupts : List (Option FsInner)} {α : Type}

/-- Whatever the device does, the program finishes. -/
def AlwaysFinishes (fs : FsInner) (program : LockProgram α) : Prop :=
  ∀ interrupts, Finishes (unlocked fs interrupts) (program (unlocked fs interrupts))

theorem alwaysFinishes_iff {locks : List Lock} {program : LockProgram α}
    {plain : Program FsInner FsError α} (follows : Follows .io locks program plain) :
    AlwaysFinishes fs program ↔ plain fs ≠ .panic := by
  constructor
  · intro finishes stops
    have ends := finishes []
    rw [follows.panics (fun _ _ => rfl) rfl stops] at ends
    exact ends
  · exact fun ends interrupts => follows.finishes (fun _ _ => rfl) ends

theorem alwaysFinishes_reply {β : Type} {program : LockProgram α} (reply : α → β) :
    AlwaysFinishes fs (do
      let value ← program
      return reply value) ↔ AlwaysFinishes fs program :=
  forall_congr' fun _ => finishes_reply reply

/-- What `mount` computes from a superblock fits, if it comes to compute it. -/
def MountFits (lbasPerBlock : Nat) (inner : FsInner) : Prop :=
  inner.sb.magic = pondMagic → inner.sb.version = pondVersion →
    inner.bitmapBlocks * 4096 < 2 ^ 63 ∧
      (∀ i < inner.bitmapBlocks, ¬ Overflows lbasPerBlock (inner.bitmapStart + i)) ∧
      (rootIno < inner.inodeCount →
        ¬ Overflows lbasPerBlock (inner.inodeTableStart + rootIno / 32))

theorem plainMount_ne_panic {lbasPerBlock : Nat} {inner : FsInner} :
    plainMount lbasPerBlock inner fs ≠ .panic ↔ MountFits lbasPerBlock inner := by
  rw [plainMount]
  split
  · next wrong => exact iff_of_true nofun fun right => absurd right wrong
  split
  · next wrong => exact iff_of_true nofun fun _ right => absurd right wrong
  next isMagic isVersion =>
  rw [MountFits, imp_iff_right (not_not.mp isMagic), imp_iff_right (not_not.mp isVersion)]
  split
  · next large => exact iff_of_false (fun ends => ends rfl) fun fits => Nat.not_lt.mpr large fits.1
  next short =>
  rw [readBitmap]
  split
  · next large =>
    rcases large with ⟨i, inBitmap, overflows⟩
    exact iff_of_false (fun ends => ends rfl) fun fits => fits.2.1 i inBitmap overflows
  next fitting =>
  rw [modify_bind_apply]
  split
  · next large => exact iff_of_false (fun ends => ends rfl) fun fits => fits.2.2 large.1 large.2
  next known =>
  refine iff_of_true ?_ ⟨Nat.not_le.mp short, ?_,
    fun hasRoot overflows => known ⟨hasRoot, overflows⟩⟩
  · rw [get_bind_apply]
    cases Pondfs.loadInode inner rootIno with
    | ok state => nofun
    | error error => nofun
  · exact fun i inBitmap overflows => fitting ⟨i, inBitmap, overflows⟩

theorem dirReadEntries_finishes {entries : List DirEntry} {next : List DirEntry → LockProgram α}
    {raw : RawInode} (reads : dirReadEntries raw guarded.state = .ok entries guarded.state)
    (rest : ∀ after : Guarded FsInner Lock, after.held = guarded.held →
      Finishes after (next entries after)) :
    Finishes guarded ((operate .io (dirReadEntries raw) >>= next) guarded) := by
  have follows : Follows .io ([] : List Lock) (operate .io (dirReadEntries raw))
      (dirReadEntries raw) :=
    .operate _
  apply (follows.finishes nofun (by rw [reads]; nofun)).bind
  intro value after ended sameHeld
  have meets := follows guarded nofun
  rw [ended] at meets
  have sameEntries : value = entries := (Outcome.ok.inj (meets.1.symm.trans reads)).1
  rw [sameEntries]
  exact rest after sameHeld

theorem unlink_finishes {name : String} (mounted : Mounted fs nodes) (inRange : id < fs.stateCount)
    (missing : (Pondfs.lookup id name fs).value? = none) :
    Finishes (unlocked fs interrupts) (unlink id name (unlocked fs interrupts)) := by
  apply Finishes.withLock rfl
  apply Finishes.withLock rfl
  generalize isLocked : ((unlocked fs interrupts).setHeld .fs true).setHeld (.raw id) true = locked
  have isState : locked.state = fs := by
    rw [← isLocked]
    rfl
  rw [read_bind_apply, isState]
  by_cases isKind : (fs.raw id).kind = inodeKindDir
  · rcases mounted.holds.isDir inRange isKind with ⟨isCached, stored, isDir⟩
    have absent : (visible stored).find? (fun entry => entry.1 = name) = none := by
      cases found : (visible stored).find? (fun entry => entry.1 = name) with
      | none => rfl
      | some entry =>
        rw [mounted.lookup_found isCached isDir found] at missing
        cases missing
    have reads : dirReadEntries (fs.raw id) locked.state = .ok (visible stored) locked.state := by
      rw [isState, mounted.dirReadEntries isCached isDir]
    rw [if_neg (Decidable.not_not.mpr isKind)]
    apply dirReadEntries_finishes reads
    intro after _
    simp only [absent]
    exact ⟨nofun, rfl⟩
  · rw [if_pos isKind]
    exact ⟨nofun, rfl⟩

theorem lookup_ne_panic {name : String} (mounted : Mounted fs nodes)
    (inRange : id < fs.stateCount) : Pondfs.lookup id name fs ≠ .panic := by
  by_cases isKind : (fs.raw id).kind = inodeKindDir
  · rcases mounted.holds.isDir inRange isKind with ⟨isCached, stored, isDir⟩
    cases found : (visible stored).find? (fun entry => entry.1 = name) with
    | none =>
      rw [mounted.lookup_missing isCached isDir found]
      nofun
    | some entry =>
      rw [mounted.lookup_found isCached isDir found]
      nofun
  · rw [lookup_of_ne isKind]
    nofun

theorem readdir_ne_panic (mounted : Mounted fs nodes) (inRange : id < fs.stateCount) :
    Pondfs.readdir id fs ≠ .panic := by
  by_cases isKind : (fs.raw id).kind = inodeKindDir
  · rcases mounted.holds.isDir inRange isKind with ⟨isCached, stored, isDir⟩
    rw [mounted.readdir isCached isDir]
    nofun
  · rw [readdir_of_ne isKind]
    nofun

theorem create_ne_panic {name : String} {kind : InodeKind} (mounted : Mounted fs nodes)
    (inRange : id < fs.stateCount) (short : name.utf8ByteSize < 2 ^ 63) :
    Pondfs.create id name kind fs ≠ .panic := by
  by_cases isKind : (fs.raw id).kind = inodeKindDir
  · rcases mounted.holds.isDir inRange isKind with ⟨isCached, stored, isDir⟩
    apply (mounted.create isCached isDir).ne_panic
    rintro ⟨ino, overflow⟩
    exact Nat.not_le_of_lt (mounted.length_create_lt ⟨isCached, isDir⟩ short kind ino) overflow
  · rw [create_of_ne isKind]
    nofun

theorem unlink_stuck {name : String} {child : StateId} {loaded : FsInner}
    (mounted : Mounted fs nodes) (inRange : id < fs.stateCount)
    (found : Pondfs.lookup id name fs = .ok child loaded) :
    ∃ after, unlink id name (unlocked fs []) = .error .stuck after := by
  have isKind : (fs.raw id).kind = inodeKindDir := by
    by_contra notDir
    rw [lookup_of_ne notDir] at found
    cases found
  rcases mounted.holds.isDir inRange isKind with ⟨isCached, stored, isDir⟩
  cases isEntry : (visible stored).find? (fun entry => entry.1 = name) with
  | none =>
    rw [mounted.lookup_missing isCached isDir isEntry] at found
    cases found
  | some entry =>
    generalize isLocked : ((unlocked fs []).setHeld .fs true).setHeld (.raw id) true = locked
    have isState : locked.state = fs := by
      rw [← isLocked]
      rfl
    have isHeld : locked.held .fs = true := by
      rw [← isLocked]
      rfl
    have calm : locked.interrupts = [] := by
      rw [← isLocked]
      rfl
    have reads : (operate .io (dirReadEntries (fs.raw id)) : LockProgram _) locked =
        .ok (visible stored) locked := by
      apply operate_of_ok calm
      rw [isState, mounted.dirReadEntries isCached isDir]
    refine ⟨locked, withLock_stuck rfl (withLock_stuck rfl ?_)⟩
    rw [isLocked, read_bind_apply, isState, if_neg (Decidable.not_not.mpr isKind), bind_apply,
      reads]
    simp only [isEntry, okOr_some, pure_bind_apply]
    rw [bind_apply, getOrLoad, bind_apply, withLock_held isHeld]

/-- Whatever the device does, a method finishes if and only if it is harmless. -/
theorem invoke_finishes (mounted : Mounted fs nodes) (inRange : id < fs.stateCount)
    {method : Method} (possible : ∀ name kind, method = .create name kind →
      name.utf8ByteSize < 2 ^ 63) :
    AlwaysFinishes fs (invoke id method) ↔ Harmless fs id method := by
  cases method with
  | kind =>
    rw [invoke, alwaysFinishes_reply, alwaysFinishes_iff (kind_follows id)]
    exact iff_of_true nofun trivial
  | stat =>
    refine iff_of_true (fun interrupts => ?_) trivial
    apply ((alwaysFinishes_iff (kind_follows id)).mpr nofun interrupts).bind
    intro kind after _ sameHeld
    have free : ∀ lock ∈ [Lock.raw id], after.held lock = false := fun lock _ => by
      rw [sameHeld]
      rfl
    exact (finishes_reply _).mpr ((size_follows id).finishes free nofun)
  | readAt off len =>
    rw [invoke, alwaysFinishes_reply, alwaysFinishes_iff (readAt_follows id off len)]
    exact not_congr readAt_eq_panic
  | writeAt off buf =>
    rw [invoke, alwaysFinishes_reply, alwaysFinishes_iff (writeAt_follows id off buf)]
    apply not_congr
    constructor
    · intro stops
      by_cases isKind : (fs.raw id).kind = inodeKindFile
      · refine ⟨isKind, ?_⟩
        have meets := mounted.holds.writeAt_takes id off buf
        rw [stops] at meets
        exact meets
      · rw [writeAt_of_ne isKind] at stops
        cases stops
    · exact fun overflows => writeAt_panics overflows.1 overflows.2
  | lookup name =>
    rw [invoke, alwaysFinishes_reply, alwaysFinishes_iff (lookup_follows id name)]
    exact iff_of_true (lookup_ne_panic mounted inRange) trivial
  | readdir =>
    rw [invoke, alwaysFinishes_reply, alwaysFinishes_iff (readdir_follows id)]
    exact iff_of_true (readdir_ne_panic mounted inRange) trivial
  | create name kind =>
    rw [invoke, alwaysFinishes_reply, alwaysFinishes_iff (create_follows id name kind)]
    exact iff_of_true (create_ne_panic mounted inRange (possible name kind rfl)) trivial
  | unlink name =>
    rw [invoke, alwaysFinishes_reply]
    constructor
    · intro finishes
      cases found : Pondfs.lookup id name fs with
      | ok child loaded =>
        rcases unlink_stuck mounted inRange found with ⟨after, isStuck⟩
        have ends := finishes []
        rw [isStuck] at ends
        exact absurd rfl ends.1
      | error error after =>
        rw [Harmless, found]
        rfl
      | panic =>
        rw [Harmless, found]
        rfl
    · exact fun missing _ => unlink_finishes mounted inRange missing

end Finish

/-- The state of the call is there, and a name has fewer bytes than any address. -/
def Request.Valid (fs : FsInner) : Request → Prop
  | .mount _ _ => True
  | .call id method => id < fs.stateCount ∧
      ∀ name kind, method = .create name kind → name.utf8ByteSize < 2 ^ 63

def Request.Harmless (fs : FsInner) : Request → Prop
  | .mount dev lbasPerBlock => MountFits lbasPerBlock (inner dev)
  | .call id method => Locking.Harmless fs id method

/-- A call returns or fails with all mutexes free, whichever accesses to the device fail, if and
only if it is harmless. -/
theorem calls_finish (fs : FsInner) (nodes : Nodes) (request : Request)
    (mounted : Mounted fs nodes) (valid : request.Valid fs) :
    (∀ interrupts, (request.run (unlocked fs interrupts)).Meets
      (fun _ after => ∀ lock, after.held lock = false)
      (fun halt after => halt ≠ .stuck ∧ ∀ lock, after.held lock = false) False) ↔
      request.Harmless fs := by
  have isFree (after : Guarded FsInner Lock) (interrupts : List (Option FsInner)) :
      after.held = (unlocked fs interrupts).held ↔ ∀ lock, after.held lock = false := funext_iff
  have finishes : AlwaysFinishes fs request.run ↔ request.Harmless fs := by
    cases request with
    | mount dev lbasPerBlock =>
      rw [Request.run, alwaysFinishes_reply, mount, alwaysFinishes_iff (mountInner_follows _ _)]
      exact plainMount_ne_panic
    | call id method => exact invoke_finishes mounted valid.1 valid.2
  rw [← finishes]
  simp only [AlwaysFinishes, Finishes, isFree]

/-- A file is created in the root of a new image, on a device that fails at the second access. -/
theorem calls_finish_create :
    ∃ fs nodes, Mounted fs nodes ∧
      ((Request.call 0 (.create "x" .file)).run (unlocked fs [none, some fs])).Meets
        (fun _ after => ∀ lock, after.held lock = false)
        (fun halt after => halt ≠ .stuck ∧ ∀ lock, after.held lock = false) False := by
  rcases Option.map_eq_some_iff.mp smallSource_starts with ⟨session, starts, _⟩
  rcases start?_eq_some starts with ⟨nodes, stored, handles, serves, opens, _⟩
  refine ⟨session.fs, nodes, serves.mounted, ?_⟩
  have inRange := serves.handles 0 (by rw [handles]; exact List.mem_singleton_self 0)
  have valid : (Request.call 0 (.create "x" .file)).Valid session.fs := by
    refine ⟨inRange, ?_⟩
    rintro name kind ⟨⟩
    decide
  exact (calls_finish session.fs nodes _ serves.mounted valid).mpr trivial _

theorem smallSource_finds :
    (start? (fun _ => Block.zero) 262144 smallSource).map (fun session =>
      (Pondfs.lookup 0 "a" session.fs).value?.isSome) = some true := by
  decide +kernel

/-- `unlink` of a file in the root of a new image never comes back. -/
theorem unlink_deadlocks :
    ∃ session after, Run (fun _ => Block.zero) 262144 smallSource [] session ∧
      (Request.call 0 (.unlink "a")).run (unlocked session.fs []) = .error .stuck after := by
  rcases Option.map_eq_some_iff.mp smallSource_finds with ⟨session, starts, finds⟩
  rcases start?_eq_some starts with ⟨nodes, stored, handles, serves, _⟩
  rcases Option.isSome_iff_exists.mp finds with ⟨child, isChild⟩
  have found := Outcome.eq_ok_of_value? isChild session.fs
  have inRange := serves.handles 0 (by rw [handles]; exact List.mem_singleton_self 0)
  rcases unlink_stuck serves.mounted inRange found with ⟨after, isStuck⟩
  refine ⟨session, after, ⟨session, starts, .nil _⟩, ?_⟩
  rw [Request.run, invoke, bind_apply, isStuck]

end PersonaOS.Fs.Pondfs.Locking
