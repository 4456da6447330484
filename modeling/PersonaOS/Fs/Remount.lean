import PersonaOS.Fs.Runs

/-! # Mounting again

Every call that returns has written the inodes it changed through to the device. After
calls that all returned, a second mount of the device therefore finds the same catalog as
the handles of the first one. -/

namespace PersonaOS.Fs.Pondfs

open Program

/-! ## Writing through -/

section WriteThrough

variable {fs after : FsInner} {nodes : Nodes} {id : StateId} {ino : Nat}

theorem Labelled.congr (labelled : Labelled fs.dev fs.sb) (sameSb : after.sb = fs.sb)
    (sameBlock : after.dev 0 = fs.dev 0) : Labelled after.dev after.sb := by
  rw [sameSb]
  exact ⟨by rw [sameBlock, labelled.read], labelled.magic, labelled.version, labelled.hasRoot⟩

theorem Labelled.writeInode (labelled : Labelled fs.dev fs.sb) (geometry : Geometry fs.sb)
    (inTable : ino < fs.inodeCount) (raw : RawInode) :
    Labelled (fs.writeInode ino raw).dev (fs.writeInode ino raw).sb := by
  have first := geometry.superblock
  have bitmap := geometry.bitmap
  have sameBlock : (fs.writeInode ino raw).dev 0 = fs.dev 0 :=
    FsInner.dev_writeInode geometry inTable (.inl (by rw [FsInner.inodeTableStart]; omega))
  exact labelled.congr (rfl : (fs.writeInode ino raw).sb = fs.sb) sameBlock

theorem Edits.labelled (edits : Edits id fs after) (geometry : Geometry fs.sb)
    (labelled : Labelled fs.dev fs.sb) : Labelled after.dev after.sb :=
  labelled.congr edits.sb (edits.fixed 0 (.inl geometry.superblock))

theorem Durable.loaded (durable : Durable fs) (holds : Holds fs nodes) (ino : Nat) :
    Durable (fs.loaded ino) := by
  have loads := Loads.loaded fs ino
  refine ⟨?_, ?_, loads.cache durable.root⟩
  · intro other id isCached
    cases cachedAs : fs.inodeCache ino with
    | some known =>
      rw [(FsInner.loaded_of_cached cachedAs).2] at isCached ⊢
      exact durable.flushed other id isCached
    | none =>
      rw [(FsInner.loaded_of_uncached cachedAs).2] at isCached ⊢
      rw [FsInner.cache_insertState] at isCached
      split at isCached
      · next same =>
        rcases Option.some.inj isCached with rfl
        rw [FsInner.raw_insertState, if_pos rfl, same]
        rfl
      · have inRange := (holds.cached isCached).1
        rw [FsInner.raw_insertState, if_neg (Nat.ne_of_lt inRange)]
        exact durable.flushed other id isCached
  · rw [loads.dev, loads.sb]
    exact durable.labelled

theorem Durable.newInode (durable : Durable fs) (holds : Holds fs nodes)
    (uncached : fs.inodeCache ino = none) (inTable : ino < fs.inodeCount) (raw : RawInode) :
    Durable (fs.writeInode ino raw) := by
  refine ⟨?_, durable.labelled.writeInode holds.synced.geometry inTable raw, durable.root⟩
  intro other id isCached
  have different : other ≠ ino := by
    rintro rfl
    have wasCached : fs.inodeCache other = some id := isCached
    rw [uncached] at wasCached
    cases wasCached
  rw [FsInner.diskInode_writeInode, if_neg different]
  exact durable.flushed other id isCached

theorem Durable.edited (durable : Durable fs) (holds : Holds fs nodes)
    (isCached : fs.inodeCache (fs.ino id) = some id) (edits : Edits id fs after) :
    Durable (after.flushInode id) := by
  have geometry := holds.synced.geometry
  have inTable := holds.cached_inTable isCached
  have sameIno := edits.ino id
  have inTableAfter : after.ino id < after.inodeCount := by
    rwa [sameIno, edits.inodeCount]
  refine ⟨?_, ?_, ?_⟩
  · intro other state isState
    have wasState : fs.inodeCache other = some state := by
      rw [← edits.cache]
      exact isState
    have isRaw : (after.flushInode id).raw state = after.raw state := rfl
    rw [FsInner.flushInode, FsInner.diskInode_writeInode, sameIno]
    by_cases same : other = fs.ino id
    · rw [same, isCached] at wasState
      rcases Option.some.inj wasState with rfl
      rw [if_pos same]
      exact isRaw
    · have different : state ≠ id := by
        rintro rfl
        exact same (holds.cached wasState).2.1.symm
      have otherInTable := holds.cached_inTable wasState
      rw [if_neg same, edits.diskInode geometry otherInTable,
        ← durable.flushed other state wasState,
        ← edits.others state different]
      rfl
  · have afterGeometry : Geometry after.sb := edits.sb ▸ geometry
    exact (edits.labelled geometry durable.labelled).writeInode afterGeometry inTableAfter _
  · have isCache : (after.flushInode id).inodeCache = fs.inodeCache := edits.cache
    rw [isCache, durable.root]

theorem Durable.insertState (durable : Durable fs) (holds : Holds fs nodes)
    (uncached : fs.inodeCache ino = none) :
    Durable (fs.insertState ⟨ino, fs.diskInode ino⟩) := by
  have loaded := durable.loaded holds ino
  rwa [(FsInner.loaded_of_uncached uncached).2] at loaded

theorem Durable.dropped {start stop : Nat} (durable : Durable fs) (holds : Holds fs nodes)
    (isCached : fs.inodeCache ino = some id) (notRoot : ino ≠ rootIno)
    (shrunk : Shrunk id start stop fs after) : Durable (after.dropInode ino id) := by
  have geometry := holds.synced.geometry
  have isIno := (holds.cached isCached).2.1
  have inTable : ino < after.inodeCount := by
    rw [shrunk.edits.inodeCount]
    exact holds.cached_inTable isCached
  refine ⟨?_, ?_, ?_⟩
  · intro other state isState
    rw [cache_dropInode] at isState
    split at isState
    · cases isState
    · next different =>
      rw [shrunk.edits.cache] at isState
      have otherState : state ≠ id := by
        rintro rfl
        exact different ((holds.cached isState).2.1.symm.trans isIno)
      rw [raw_dropInode, if_neg otherState, diskInode_dropInode, if_neg different,
        shrunk.edits.others state otherState,
        shrunk.edits.diskInode geometry (holds.cached_inTable isState)]
      exact durable.flushed other state isState
  · have labelled := shrunk.edits.labelled geometry durable.labelled
    have cleared : Labelled (after.setRaw id (erasedRaw (after.raw id))).dev
        (after.setRaw id (erasedRaw (after.raw id))).sb := labelled
    exact cleared.writeInode shrunk.synced.geometry inTable _
  · rw [cache_dropInode, if_neg notRoot.symm, shrunk.edits.cache, durable.root]

end WriteThrough

/-! ## Calls that return -/

section Returns

variable {fs after : FsInner} {nodes next : Nodes} {id : StateId} {method : Method}

theorem Durable.created {stored : List DirEntry} {name : String} {kind : InodeKind} {ino : Nat}
    (durable : Durable fs) (mounted : Mounted fs nodes)
    (isCached : fs.inodeCache (fs.ino id) = some id)
    (isDir : nodes (fs.ino id) = some (.dir stored)) (isFree : fs.FreeIno ino)
    (created : Created id (visible stored) (name, kind, ino) fs after) : Durable after := by
  rcases created with ⟨middle, rewritten, rfl⟩
  have different := mounted.holds.ne_of_free isDir isFree
  have fresh := mounted.newInode isFree kind
  have edits := mounted.edits_created isCached isDir isFree rewritten
  have isUncached := mounted.holds.uncached_of_free (mounted.holds.free_of_unused isFree)
  have written := durable.newInode mounted.holds isUncached isFree.inTable (newRaw kind)
  have flushed := written.edited fresh.holds isCached edits
  have isOldDir : Function.update nodes ino (some (.empty kind)) (fs.ino id) =
      some (.dir stored) := by
    rw [Function.update_of_ne different.symm, isDir]
  have holds := fresh.holds.rewritten isCached isOldDir rewritten
  have cachedMiddle : middle.inodeCache (middle.ino id) = some id := by
    rw [edits.cache, edits.ino]
    exact isCached
  have isDisk : (middle.flushInode id).diskInode ino = newRaw kind := by
    have sameIno : middle.ino id = fs.ino id := edits.ino id
    rw [FsInner.flushInode, FsInner.diskInode_writeInode, if_neg (sameIno ▸ different),
      edits.diskInode fresh.holds.synced.geometry isFree.inTable, FsInner.diskInode_writeInode,
      if_pos rfl]
  have uncachedMiddle : (middle.flushInode id).inodeCache ino = none := by
    have isCache : (middle.flushInode id).inodeCache = fs.inodeCache := edits.cache
    rw [isCache, isUncached]
  have ends := flushed.insertState (holds.writeInode cachedMiddle) uncachedMiddle
  rwa [isDisk] at ends

theorem Durable.removed {stored remaining : List DirEntry} {entry : DirEntry}
    (durable : Durable fs) (mounted : Mounted fs nodes)
    (isCached : fs.inodeCache (fs.ino id) = some id)
    (isDir : nodes (fs.ino id) = some (.dir stored)) (member : entry ∈ visible stored)
    (removed : Removed id remaining entry.2.2 fs after) : Durable after := by
  rcases removed with ⟨erased, middle, isErased, rewritten, rfl⟩
  rcases mounted.erased isCached isDir member isErased with ⟨holds, sameIno, cachedStill, isStill⟩
  have isEntry : entry ∈ nodes.entries (fs.ino id) := by rwa [Nodes.entries_of_dir isDir]
  have loaded := mounted.holds.loaded (mounted.named isEntry)
  have dropped : Durable erased := by
    rcases isErased with ⟨freed, shrunk, rfl⟩
    exact (durable.loaded mounted.holds entry.2.2).dropped loaded (fs.cache_loaded entry.2.2)
      (mounted.catalog.ne_root isEntry) shrunk
  rw [← sameIno] at cachedStill isStill
  exact dropped.edited holds cachedStill (holds.edits_rewritten cachedStill isStill rewritten)

theorem Succeeds.durable (succeeds : Succeeds fs nodes id method after next)
    (mounted : Mounted fs nodes) (durable : Durable fs) : Durable after := by
  cases succeeds with
  | kind => exact durable
  | stat => exact durable
  | readAt => exact durable
  | readdir => exact durable
  | lookup isCached isDir found => exact durable.loaded mounted.holds _
  | writeAt isCached isFile written =>
    exact durable.edited mounted.holds isCached (mounted.holds.edits_written isCached written)
  | create isCached isDir isFree isNew created =>
    exact durable.created mounted isCached isDir isFree created
  | unlink isCached isDir found removed =>
    exact durable.removed mounted isCached isDir (List.mem_of_find?_eq_some found) removed

end Returns

/-! ## The second mount -/

section SecondMount

variable {fs : FsInner} {nodes : Nodes}

theorem Holds.bare (holds : Holds fs nodes) (flushed : fs.Flushed) :
    Holds (bare fs.dev fs.sb) nodes := by
  have records : ∀ ino, (Pondfs.bare fs.dev fs.sb).record ino = fs.record ino :=
    fun ino => (FsInner.record_of_uncached rfl).trans (flushed.record ino).symm
  have sameBitmap : (Pondfs.bare fs.dev fs.sb).bitmap = fs.bitmap := holds.synced.bitmap_eq.symm
  have refers : ∀ slot blk, (Pondfs.bare fs.dev fs.sb).Refers slot blk ↔ fs.Refers slot blk := by
    intro slot blk
    rw [FsInner.Refers, records]
    rfl
  have taken : ∀ blk, (Pondfs.bare fs.dev fs.sb).Taken blk ↔ fs.Taken blk := by
    intro blk
    rw [FsInner.Taken, sameBitmap]
    rfl
  refine ⟨synced_of_bitmap_eq holds.synced.geometry rfl, holds.ledger.congr taken refers,
    fun isCached => (by cases isCached),
    fun id inRange => absurd inRange (Nat.not_lt_zero _), holds.nonzero, holds.inTable,
    holds.onDisk, ?_, ?_, ?_⟩
  · intro ino node isNode
    rw [records]
    exact holds.kind isNode
  · intro ino inTable isFree
    rw [records]
    exact holds.free inTable isFree
  · intro ino node isNode
    rw [records]
    exact holds.contents isNode

theorem Mounted.remount (mounted : Mounted fs nodes) (durable : Durable fs) :
    mount fs.dev = .ok (mountedFs fs.dev fs.sb, 0) ∧ Mounted (mountedFs fs.dev fs.sb) nodes ∧
      (mountedFs fs.dev fs.sb).inodeCache rootIno = some 0 := by
  rcases mounted.catalog.root with ⟨stored, isRoot⟩
  refine ⟨durable.labelled.mount, ⟨?_, mounted.catalog⟩, rfl⟩
  exact (mounted.holds.bare durable.flushed).insertState rfl (isRoot ▸ Option.some_ne_none _) rfl

structure Settled (session : Session FsInner StateId) (nodes : Nodes) : Prop where
  serves : Serves session nodes
  durable : Durable session.fs
  first : session.handles[0]? = some 0

theorem Settled.works {session after : Session FsInner StateId} {call : Call}
    (settled : Settled session nodes) (works : Works session call after) :
    ∃ next, Settled after next ∧
      (after.fs = session.fs ∧ next = nodes ∨
        ∃ id, session.handles[call.handle]? = some id ∧
          Succeeds session.fs nodes id call.method after.fs next) := by
  rcases settled.serves.works works with ⟨next, serves, ⟨more, handles⟩, effect⟩
  refine ⟨next, ⟨serves, ?_, ?_⟩, effect⟩
  · rcases effect with ⟨sameFs, _⟩ | ⟨id, _, succeeds⟩
    · rw [sameFs]
      exact settled.durable
    · exact succeeds.durable settled.serves.mounted settled.durable
  · rcases List.getElem?_eq_some_iff.mp settled.first with ⟨inside, _⟩
    rw [handles, List.getElem?_append_left inside, settled.first]

theorem WorkingRun.settled {img : Disk} {size : UInt64} {src : Mkpondfs.SourceDir}
    {calls : List Call} {session : Session FsInner StateId}
    (run : WorkingRun img size src calls session) : ∃ nodes, Settled session nodes := by
  rcases run with ⟨first, starts, trace⟩
  rcases start?_eq_some starts with ⟨nodes, _, handles, serves, _, _, durable, _⟩
  have settled : Settled first nodes := ⟨serves, durable, by rw [handles]; rfl⟩
  apply trace.invariant (fun session => ∃ nodes, Settled session nodes) _ ⟨nodes, settled⟩
  rintro current call after ⟨nodes, settled⟩ works
  exact (settled.works works).imp fun _ known => known.1

theorem Mounted.walk_root {tree : Tree} {stored : List DirEntry} {id : StateId}
    (mounted : Mounted fs nodes) (isCached : fs.inodeCache rootIno = some id)
    (isRoot : nodes rootIno = some (.dir stored)) (depicts : Depicts nodes (visible stored) tree)
    {fuel : Nat} (enough : tree.depth ≤ fuel) : (inode.walk fuel id fs).value? = some tree := by
  have isIno := (mounted.holds.cached isCached).2.1
  have opens : OpensDir fs nodes id stored := ⟨isIno.symm ▸ isCached, isIno.symm ▸ isRoot⟩
  rcases mounted.walk opens depicts enough with ⟨after, walks, _⟩
  rw [walks]
  rfl

/-- After changes that all returned, a second mount of the device shows the tree that the
first handle shows, and loads the bitmap that is in memory. -/
theorem remount_same (img : Disk) (size : UInt64) (src : Mkpondfs.SourceDir) (calls : List Call)
    (session : Session FsInner StateId) (run : WorkingRun img size src calls session) :
    ∃ fs root first tree, mount session.fs.dev = .ok (fs, root) ∧
      session.handles[0]? = some first ∧ fs.bitmap = session.fs.bitmap ∧
      ∀ fuel, tree.depth ≤ fuel →
        (inode.walk fuel first session.fs).value? = some tree ∧
        (inode.walk fuel root fs).value? = some tree := by
  rcases run.settled with ⟨nodes, settled⟩
  have mounted := settled.serves.mounted
  rcases mounted.remount settled.durable with ⟨mounts, remounted, isCached⟩
  rcases mounted.catalog.root with ⟨stored, isRoot⟩
  rcases mounted.catalog.depicts mounted.holds.inTable isRoot with ⟨tree, depicts⟩
  refine ⟨_, 0, 0, tree, mounts, settled.first, mounted.holds.synced.bitmap_eq.symm, ?_⟩
  intro fuel enough
  exact ⟨mounted.walk_root settled.durable.root isRoot depicts enough,
    remounted.walk_root isCached isRoot depicts enough⟩

/-- A file is created on an image of 64 blocks, which is then mounted again. -/
theorem remount_same_create :
    ∃ session, WorkingRun (fun _ => Block.zero) 262144 smallSource
        [⟨0, .create "x" .file⟩] session ∧
      ∃ fs root first tree, mount session.fs.dev = .ok (fs, root) ∧
        session.handles[0]? = some first ∧ fs.bitmap = session.fs.bitmap ∧
        ∀ fuel, tree.depth ≤ fuel →
          (inode.walk fuel first session.fs).value? = some tree ∧
          (inode.walk fuel root fs).value? = some tree := by
  rcases workingRun_of_isSome (fun _ => Block.zero) 262144 smallSource [⟨0, .create "x" .file⟩]
    (by decide +kernel) with ⟨session, run⟩
  exact ⟨session, run, remount_same _ _ _ _ session run⟩

end SecondMount

end PersonaOS.Fs.Pondfs
