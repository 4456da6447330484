import PersonaOS.Fs.Remount

/-! # New inodes after a reboot

`alloc_inode` scans whole blocks of the inode table, while `load_inode` refuses numbers from
`inode_count` on. Where the inodes fill whole blocks both agree, and what was created can be
looked up when the device is mounted again. That does not take a run without failures: the
directory and the new inode are on the device as soon as `create` returns. -/

namespace PersonaOS.Fs.Pondfs

open Program

/-! ## The label stays -/

section Label

variable {fs after : FsInner} {nodes next : Nodes} {id : StateId} {method : Method}

theorem Labelled.loaded (labelled : Labelled fs.dev fs.sb) (ino : Nat) :
    Labelled (fs.loaded ino).dev (fs.loaded ino).sb := by
  have loads := Loads.loaded fs ino
  rwa [loads.dev, loads.sb]

theorem Labelled.edited (labelled : Labelled fs.dev fs.sb) (holds : Holds fs nodes)
    (isCached : fs.inodeCache (fs.ino id) = some id) (edits : Edits id fs after) :
    Labelled (after.flushInode id).dev (after.flushInode id).sb := by
  have geometry := holds.synced.geometry
  have inTable : after.ino id < after.inodeCount := by
    rw [edits.ino, edits.inodeCount]
    exact holds.cached_inTable isCached
  exact (edits.labelled geometry labelled).writeInode (edits.sb ▸ geometry) inTable _

theorem Labelled.erased {stored : List DirEntry} {entry : DirEntry}
    (labelled : Labelled fs.dev fs.sb) (mounted : Mounted fs nodes)
    (isDir : nodes (fs.ino id) = some (.dir stored)) (member : entry ∈ visible stored)
    (isErased : Erased entry.2.2 fs after) : Labelled after.dev after.sb := by
  rcases isErased with ⟨middle, shrunk, rfl⟩
  rw [← Nodes.entries_of_dir isDir] at member
  have loaded := mounted.holds.loaded (mounted.named member)
  have inTable : entry.2.2 < middle.inodeCount := by
    rw [shrunk.edits.inodeCount]
    exact loaded.cached_inTable (fs.cache_loaded entry.2.2)
  have edited : Labelled (middle.setRaw (fs.loadedId entry.2.2)
      (erasedRaw (middle.raw (fs.loadedId entry.2.2)))).dev middle.sb :=
    shrunk.edits.labelled loaded.synced.geometry (labelled.loaded entry.2.2)
  exact edited.writeInode shrunk.synced.geometry inTable _

theorem Succeeds.labelled (succeeds : Succeeds fs nodes id method after next)
    (mounted : Mounted fs nodes) (labelled : Labelled fs.dev fs.sb) :
    Labelled after.dev after.sb := by
  cases succeeds with
  | kind => exact labelled
  | stat => exact labelled
  | readAt => exact labelled
  | readdir => exact labelled
  | lookup isCached isDir found => exact labelled.loaded _
  | writeAt isCached isFile written =>
    exact labelled.edited mounted.holds isCached (mounted.holds.edits_written isCached written)
  | @create _ kind _ ino _ isCached isDir isFree isNew created =>
    rcases created with ⟨middle, rewritten, rfl⟩
    have fresh := labelled.writeInode mounted.holds.synced.geometry isFree.inTable (newRaw kind)
    exact fresh.edited (mounted.newInode isFree kind).holds isCached
      (mounted.edits_created isCached isDir isFree rewritten)
  | unlink isCached isDir found removed =>
    rcases removed with ⟨erased, middle, isErased, rewritten, rfl⟩
    have member := List.mem_of_find?_eq_some found
    rcases mounted.erased isCached isDir member isErased with ⟨holds, sameIno, cachedStill, isStill⟩
    rw [← sameIno] at cachedStill isStill
    exact (labelled.erased mounted isDir member isErased).edited holds cachedStill
      (holds.edits_rewritten cachedStill isStill rewritten)

theorem Fails.labelled (fails : Fails fs nodes id method after next) (mounted : Mounted fs nodes)
    (labelled : Labelled fs.dev fs.sb) : Labelled after.dev after.sb := by
  have geometry := mounted.holds.synced.geometry
  cases fails with
  | same => exact labelled
  | writeAt isCached grown => exact grown.edits.labelled geometry labelled
  | @create _ kind _ _ _ isCached isDir isFree abandoned =>
    exact (Emptied.edits abandoned).labelled geometry
      (labelled.writeInode geometry isFree.inTable (newRaw kind))
  | unlink isCached isDir found isErased emptied =>
    have member := List.mem_of_find?_eq_some found
    have erased := (mounted.erased isCached isDir member isErased).1
    exact emptied.edits.labelled erased.synced.geometry
      (labelled.erased mounted isDir member isErased)

/-- A session on a volume that can be mounted again. -/
structure Remountable (session : Session FsInner StateId) (nodes : Nodes) : Prop where
  serves : Serves session nodes
  labelled : Labelled session.fs.dev session.fs.sb

theorem Remountable.comes {session last : Session FsInner StateId} {call : Call}
    (remountable : Remountable session nodes) (comes : Comes session call last) :
    ∃ next, Remountable last next := by
  have serves := remountable.serves
  rw [Comes] at comes
  cases isHandle : session.handles[call.handle]? with
  | none =>
    rw [perform_of_none isHandle] at comes
    cases comes
    exact ⟨nodes, remountable⟩
  | some id =>
    have inRange := serves.handles id (List.mem_of_getElem? isHandle)
    have meets := serves.mounted.invoke inRange call.method
    rw [perform_of_some isHandle] at comes
    cases ended : inode.invoke id call.method session with
    | ok reply after =>
      rw [ended] at comes meets
      cases comes
      rcases meets.serves serves with ⟨next, succeeds, servesNext, _⟩
      exact ⟨next, servesNext, succeeds.labelled serves.mounted remountable.labelled⟩
    | error fault after =>
      rw [ended] at comes meets
      cases comes
      rcases meets with ⟨next, fails, sameHandles⟩
      refine ⟨next, ⟨fails.mounted serves.mounted, ?_⟩,
        fails.labelled serves.mounted remountable.labelled⟩
      intro other isOther
      rw [sameHandles] at isOther
      exact Nat.lt_of_lt_of_le (serves.handles other isOther) fails.stateCount_le
    | panic =>
      rw [ended] at comes
      cases comes

end Label

/-! ## Creating and looking up again -/

section Create

variable {fs after : FsInner} {nodes : Nodes} {id child : StateId} {stored : List DirEntry}
  {name : String} {kind : InodeKind}

theorem Mounted.create_allocates (mounted : Mounted fs nodes)
    (isCached : fs.inodeCache (fs.ino id) = some id)
    (isDir : nodes (fs.ino id) = some (.dir stored))
    (created : Pondfs.create id name kind fs = .ok child after) :
    ∃ middle, allocInode fs = .ok (after.ino child) middle := by
  have isKind : (fs.raw id).kind = inodeKindDir := mounted.holds.raw_kind isCached isDir
  rw [Pondfs.create, get_bind_apply, if_neg (Decidable.not_not.mpr isKind), bind_apply,
    mounted.dirReadEntries isCached isDir] at created
  simp only at created
  split at created
  · cases created
  · rcases bind_eq_ok.mp created with ⟨ino, middle, allocates, writes⟩
    rcases bind_eq_ok.mp writes with ⟨_, written, isWritten, rewrites⟩
    rcases bind_eq_ok.mp rewrites with ⟨_, last, isRewritten, inserts⟩
    simp only [get_bind_apply, Pondfs.writeInode, modify_bind_apply] at inserts
    cases inserts
    refine ⟨middle, ?_⟩
    rw [allocates, FsInner.ino_insertState, if_pos]
    rfl

theorem Mounted.created_onDisk (mounted : Mounted fs nodes)
    (isCached : fs.inodeCache (fs.ino id) = some id)
    (isDir : nodes (fs.ino id) = some (.dir stored)) {ino : Nat} (isFree : fs.FreeIno ino)
    (created : Created id (visible stored) (name, kind, ino) fs after) :
    after.diskInode (fs.ino id) = after.record (fs.ino id) ∧ after.inodeCount = fs.inodeCount := by
  rcases created with ⟨middle, rewritten, rfl⟩
  have edits := mounted.edits_created isCached isDir isFree rewritten
  have sameIno : middle.ino id = fs.ino id := edits.ino id
  have sameCache : (middle.flushInode id).inodeCache = fs.inodeCache := edits.cache
  have sameCount : (middle.flushInode id).stateCount = fs.stateCount := edits.count
  have different := mounted.holds.ne_of_free isDir isFree
  have isRecord : ((middle.flushInode id).insertState ⟨ino, newRaw kind⟩).inodeCache (fs.ino id) =
      some id := by
    rw [FsInner.cache_insertState, if_neg (Ne.symm different), sameCache, isCached]
  have notNew : id ≠ (middle.flushInode id).stateCount := by
    rw [sameCount]
    exact Nat.ne_of_lt (mounted.holds.cached isCached).1
  have onDisk : (middle.flushInode id).diskInode (fs.ino id) = middle.raw id := by
    rw [FsInner.flushInode, FsInner.diskInode_writeInode, if_pos sameIno.symm]
  constructor
  · rw [FsInner.record_of_cached isRecord, FsInner.raw_insertState, if_neg notNew]
    exact onDisk
  · exact edits.inodeCount

theorem FsInner.Flushed.raw_loaded (flushed : fs.Flushed) (ino : Nat) :
    (fs.loaded ino).raw (fs.loadedId ino) = fs.diskInode ino := by
  cases cachedAs : fs.inodeCache ino with
  | some id =>
    rw [(FsInner.loaded_of_cached cachedAs).1, (FsInner.loaded_of_cached cachedAs).2]
    exact flushed ino id cachedAs
  | none =>
    rw [(FsInner.loaded_of_uncached cachedAs).1, (FsInner.loaded_of_uncached cachedAs).2,
      FsInner.raw_insertState, if_pos rfl]

theorem Labelled.lookup_again {dir : Nat} {entry : DirEntry} (labelled : Labelled fs.dev fs.sb)
    (notZero : dir ≠ 0) (inTable : dir < fs.inodeCount)
    (isKind : (fs.diskInode dir).kind = inodeKindDir)
    (begins : Begins fs.dev (fs.diskInode dir) (serialize stored))
    (valid : ∀ entry ∈ stored, ValidEntry entry)
    (found : (visible stored).find? (fun entry => entry.1 = name) = some entry)
    (isIno : entry.2.2 ≠ 0 ∧ entry.2.2 < fs.inodeCount) :
    ∃ again root handle loaded child last, Pondfs.mount fs.dev = .ok (again, root) ∧
      getOrLoad dir again = .ok handle loaded ∧ lookup handle name loaded = .ok child last ∧
      last.inodeCache entry.2.2 = some child := by
  have flushed := labelled.durable.flushed
  have mounts := labelled.mount
  generalize isAgain : mountedFs fs.dev fs.sb = again at flushed mounts
  have sameDev : again.dev = fs.dev := by
    subst isAgain
    rfl
  have sameSb : again.sb = fs.sb := by
    subst isAgain
    rfl
  have sameCount : again.inodeCount = fs.inodeCount := congrArg (·.inodeCount.toNat) sameSb
  have sameDisk : again.diskInode dir = fs.diskInode dir := by
    rw [FsInner.diskInode, FsInner.inodeTableStart, sameDev, sameSb]
    rfl
  have isRaw : (again.loaded dir).raw (again.loadedId dir) = fs.diskInode dir := by
    rw [flushed.raw_loaded, sameDisk]
  have loads := Loads.loaded again dir
  have reads : dirReadEntries (fs.diskInode dir) (again.loaded dir) =
      .ok (visible stored) (again.loaded dir) := by
    apply Begins.dirReadEntries _ valid
    rwa [loads.dev, sameDev]
  have laterCount : (again.loaded dir).inodeCount = fs.inodeCount := by
    rw [← sameCount]
    exact congrArg (·.inodeCount.toNat) loads.sb
  refine ⟨again, 0, again.loadedId dir, again.loaded dir, (again.loaded dir).loadedId entry.2.2,
    (again.loaded dir).loaded entry.2.2, mounts,
    getOrLoad_eq notZero (sameCount.symm ▸ inTable), ?_, ?_⟩
  · rw [lookup, get_bind_apply, isRaw, if_neg (Decidable.not_not.mpr isKind), bind_apply, reads]
    simp only [found]
    exact getOrLoad_eq isIno.1 (laterCount.symm ▸ isIno.2)
  · exact FsInner.cache_loaded _ _

theorem perform_create {session last : Session FsInner StateId} {handle : Nat} {reply : Reply}
    (performed : inode.perform ⟨handle, .create name kind⟩ session = .ok reply last) :
    ∃ dir child, session.handles[handle]? = some dir ∧
      create dir name kind session.fs = .ok child last.fs := by
  cases isHandle : session.handles[handle]? with
  | none =>
    rw [perform_of_none isHandle] at performed
    cases performed
  | some dir =>
    rw [perform_of_some isHandle] at performed
    rcases bind_eq_ok.mp performed with ⟨child, middle, creates, keeps⟩
    cases keeps
    rw [Inode.onFs] at creates
    cases ended : inode.create dir name kind session.fs with
    | ok value fs =>
      rw [ended] at creates
      cases creates
      exact ⟨dir, _, rfl, ended⟩
    | error fault fs =>
      rw [ended] at creates
      cases creates
    | panic =>
      rw [ended] at creates
      cases creates

theorem Remountable.create {session last : Session FsInner StateId} {handle : Nat} {reply : Reply}
    (remountable : Remountable session nodes) (isNamed : name ≠ "")
    (performed : inode.perform ⟨handle, .create name kind⟩ session = .ok reply last) :
    ∃ dir ino middle, session.handles[handle]? = some dir ∧
      allocInode session.fs = .ok ino middle ∧ session.fs.FreeIno ino ∧
      ∃ again root opened loaded child final, mount last.fs.dev = .ok (again, root) ∧
        getOrLoad (session.fs.ino dir) again = .ok opened loaded ∧
        lookup opened name loaded = .ok child final ∧ final.inodeCache ino = some child := by
  have mounted := remountable.serves.mounted
  rcases perform_create performed with ⟨dir, child, isHandle, created⟩
  have inRange := remountable.serves.handles dir (List.mem_of_getElem? isHandle)
  have isKind : (session.fs.raw dir).kind = inodeKindDir := by
    by_contra notDir
    rw [create_of_ne notDir] at created
    cases created
  rcases mounted.holds.isDir inRange isKind with ⟨isCached, stored, isDir⟩
  rcases mounted.create_allocates isCached isDir created with ⟨middle, allocates⟩
  have meets : (Pondfs.create dir name kind session.fs).Meets _ _ _ :=
    mounted.create isCached isDir
  rw [created] at meets
  rcases meets with ⟨isChild, isNew, ino, isFree, makes⟩
  have isIno : last.fs.ino child = ino := by
    rcases makes with ⟨before, rewritten, same⟩
    have edits := mounted.edits_created isCached isDir isFree rewritten
    rw [same, isChild, FsInner.ino_insertState, if_pos]
    exact edits.count.symm
  have labelled : Labelled last.fs.dev last.fs.sb :=
    (Succeeds.create isCached isDir isFree isNew makes).labelled mounted remountable.labelled
  have next := mounted.created isCached isDir isFree isNew makes
  rcases mounted.created_onDisk isCached isDir isFree makes with ⟨onDisk, sameCount⟩
  have isNext : nodes.create (session.fs.ino dir) (name, kind, ino) (session.fs.ino dir) =
      some (.dir (visible stored ++ [(name, kind, ino)])) := Nodes.create_dir isDir
  have dirNode : nodes (session.fs.ino dir) ≠ none := (mounted.holds.cached isCached).2.2
  have begins : Begins last.fs.dev (last.fs.diskInode (session.fs.ino dir))
      (serialize (visible stored ++ [(name, kind, ino)])) := by
    rw [onDisk]
    exact next.holds.contents isNext
  have dirKind : (last.fs.diskInode (session.fs.ino dir)).kind = inodeKindDir := by
    rw [onDisk]
    exact next.holds.kind isNext
  have found : (visible (visible stored ++ [(name, kind, ino)])).find?
      (fun entry => entry.1 = name) = some (name, kind, ino) := by
    have size : 0 < name.utf8ByteSize := by
      apply Nat.pos_of_ne_zero
      intro isEmpty
      exact isNamed (String.utf8ByteSize_eq_zero_iff.mp isEmpty)
    have missing : (visible stored).find? (fun entry => entry.1 = name) = none := by
      apply List.find?_eq_none.mpr
      intro entry member
      simpa using isNew entry member
    rw [visible_concat, if_pos size, List.find?_append, missing, Option.none_or]
    simp
  rw [isIno] at allocates
  refine ⟨dir, ino, middle, isHandle, allocates, isFree, ?_⟩
  exact labelled.lookup_again (mounted.holds.ino_ne_zero dirNode)
    (sameCount ▸ mounted.holds.inTable dirNode) dirKind begins (next.catalog.valid isNext) found
    ⟨isFree.notZero, sameCount ▸ isFree.inTable⟩

end Create

/-! ## Images of any size -/

section Images

open Mkpondfs

theorem Mkpondfs.hasRoot_of_format {fmt last : Formatter} {src : SourceDir}
    (made : (format src fmt).final = some last) : rootIno < fmt.inodes.length := by
  by_contra missing
  have isNone : fmt.inodes[rootIno]? = none := List.getElem?_eq_none (Nat.le_of_not_lt missing)
  have stops : reserve rootIno inodeKindDir fmt = .panic := by
    rw [reserve, updateInode, get_bind_apply, isNone]
    rfl
  rw [format, bind_apply, stops] at made
  cases made

/-- On an image whose inodes fill whole blocks of the table, after whatever calls, a
`create` gets an unused inode that the table has, and what it created can be looked up when
the device is mounted again. -/
theorem created_reloads (img : Disk) (size inodeCount : UInt64) (src : SourceDir)
    (fmt last : Formatter) (isNew : Formatter.new img size.toNat inodeCount.toNat = some fmt)
    (whole : inodeCount.toNat % 32 = 0) (fits : fmt.dataStart ≤ fmt.totalBlocks)
    (made : (format src fmt).final = some last) (fs : FsInner) (root : StateId)
    (mounts : mount last.img = .ok (fs, root)) (calls : List Call)
    (session after : Session FsInner StateId) (trace : Trace Comes ⟨fs, [root]⟩ calls session)
    (handle : Nat) (name : String) (kind : InodeKind) (isNamed : name ≠ "") (reply : Reply)
    (created : inode.perform ⟨handle, .create name kind⟩ session = .ok reply after) :
    ∃ dir ino middle, session.handles[handle]? = some dir ∧
      allocInode session.fs = .ok ino middle ∧ ino ≠ 0 ∧ ino < session.fs.inodeCount ∧
      (session.fs.diskInode ino).kind = inodeKindUnused ∧
      ∃ again root opened loaded child final, mount after.fs.dev = .ok (again, root) ∧
        getOrLoad (session.fs.ino dir) again = .ok opened loaded ∧
        lookup opened name loaded = .ok child final ∧ final.inodeCache ino = some child := by
  rcases Formatter.new_eq_some isNew with ⟨isCount, _, isInodes, lays⟩
  have hasRoot : rootIno < inodeCount.toNat := by
    have inodes := hasRoot_of_format made
    rwa [isInodes, List.length_replicate, isCount] at inodes
  have draft := draft_new isNew (lays whole hasRoot fits)
  rcases format_mounted draft made with
    ⟨start, nodes, stored, isStart, mounted, opens, _, _, durable, _⟩
  rw [isStart] at mounts
  cases mounts
  have serves : Serves ⟨fs, [0]⟩ nodes := by
    refine ⟨mounted, ?_⟩
    intro id isRoot
    rw [List.mem_singleton.mp isRoot]
    exact (mounted.holds.cached opens.isCached).1
  have remountable : ∃ nodes, Remountable session nodes := by
    apply trace.invariant (fun session => ∃ nodes, Remountable session nodes) _
      ⟨nodes, serves, durable.labelled⟩
    intro current call next known comes
    rcases known with ⟨nodes, remountable⟩
    exact remountable.comes comes
  rcases remountable with ⟨nodes, remountable⟩
  rcases remountable.create isNamed created with
    ⟨dir, ino, middle, isHandle, allocates, isFree, reloads⟩
  exact ⟨dir, ino, middle, isHandle, allocates, isFree.notZero, isFree.inTable, isFree.unused,
    reloads⟩

theorem mount_of_toOption {dev : Disk} {opened : FsInner × StateId}
    (mounts : (mount dev).toOption = some opened) : mount dev = .ok opened := by
  cases ended : mount dev with
  | error fault =>
    rw [ended] at mounts
    cases mounts
  | ok result =>
    rw [ended] at mounts
    cases mounts
    rfl

/-- The first session on an image of 64 blocks with `inodeCount` inodes and no files. -/
def blankSession? (inodeCount : Nat) : Option (Session FsInner StateId) :=
  (Formatter.new (fun _ => Block.zero) 262144 inodeCount).bind fun fmt =>
    (format ⟨.empty, trivial⟩ fmt).final.bind fun last =>
      (mount last.img).toOption.map fun opened => ⟨opened.1, [opened.2]⟩

theorem blankSession?_eq_some {inodeCount : Nat} {session : Session FsInner StateId}
    (isSession : blankSession? inodeCount = some session) :
    ∃ fmt last fs root, Formatter.new (fun _ => Block.zero) 262144 inodeCount = some fmt ∧
      (format ⟨.empty, trivial⟩ fmt).final = some last ∧ mount last.img = .ok (fs, root) ∧
      session = ⟨fs, [root]⟩ := by
  rcases Option.bind_eq_some_iff.mp isSession with ⟨fmt, isNew, formats⟩
  rcases Option.bind_eq_some_iff.mp formats with ⟨last, made, opens⟩
  rcases Option.map_eq_some_iff.mp opens with ⟨opened, mounts, rfl⟩
  exact ⟨fmt, last, opened.1, opened.2, isNew, made, mount_of_toOption mounts, rfl⟩

/-- A file on an image with 32 inodes. -/
theorem created_reloads_file : ∃ session ino middle, blankSession? 32 = some session ∧
    allocInode session.fs = .ok ino middle ∧ ino < session.fs.inodeCount := by
  have creates : ((blankSession? 32).bind fun session =>
      (inode.perform ⟨0, .create "a" .file⟩ session).value?.map fun _ => ()) = some () := by
    decide +kernel
  rcases Option.bind_eq_some_iff.mp creates with ⟨session, isSession, returns⟩
  rcases Option.map_eq_some_iff.mp returns with ⟨reply, returned, _⟩
  rcases blankSession?_eq_some isSession with ⟨fmt, last, fs, root, isNew, made, mounts, rfl⟩
  have fits : fmt.dataStart ≤ fmt.totalBlocks := by
    have isFit : (Formatter.new (fun _ => Block.zero) 262144 32).all
        (fun fmt => fmt.dataStart ≤ fmt.totalBlocks) = true := by decide +kernel
    rw [isNew] at isFit
    exact of_decide_eq_true isFit
  rcases created_reloads (fun _ => Block.zero) 262144 32 ⟨.empty, trivial⟩ fmt last isNew
    (by decide) fits made fs root mounts [] _ _ (.nil _) 0 "a" .file (by decide) reply
    (Outcome.eq_ok_of_value? returned ⟨fs, [root]⟩) with
    ⟨_, ino, middle, _, allocates, _, inTable, _⟩
  exact ⟨_, ino, middle, isSession, allocates, inTable⟩

/-- With two inodes the table block has room for 32: the first file gets number 2, which
cannot be loaded after a reboot. -/
theorem created_reloads_not : ∃ session reply after again root, blankSession? 2 = some session ∧
    inode.perform ⟨0, .create "a" .file⟩ session = .ok reply after ∧
    (allocInode session.fs).value? = some 2 ∧ session.fs.inodeCount = 2 ∧
    mount after.fs.dev = .ok (again, root) ∧ (lookup root "a" again).fault? = some .notFound := by
  have creates : ((blankSession? 2).bind fun session =>
      (inode.perform ⟨0, .create "a" .file⟩ session).value?.map fun _ =>
        ((allocInode session.fs).value?, session.fs.inodeCount)) = some (some 2, 2) := by
    decide +kernel
  have misses : ((blankSession? 2).bind fun session =>
      (inode.perform ⟨0, .create "a" .file⟩ session).final.bind fun after =>
        (mount after.fs.dev).toOption.bind fun opened =>
          (lookup opened.2 "a" opened.1).fault?) = some .notFound := by
    decide +kernel
  rcases Option.bind_eq_some_iff.mp creates with ⟨session, isSession, returns⟩
  rcases Option.map_eq_some_iff.mp returns with ⟨reply, returned, numbers⟩
  rw [isSession, Option.bind_some] at misses
  rcases Option.bind_eq_some_iff.mp misses with ⟨after, ends, reopens⟩
  rcases Option.bind_eq_some_iff.mp reopens with ⟨opened, mounts, missing⟩
  have performed := Outcome.eq_ok_of_value? returned session
  rw [ends, Option.getD_some] at performed
  exact ⟨session, reply, after, opened.1, opened.2, isSession, performed,
    congrArg Prod.fst numbers, congrArg Prod.snd numbers, mount_of_toOption mounts, missing⟩

end Images

end PersonaOS.Fs.Pondfs
