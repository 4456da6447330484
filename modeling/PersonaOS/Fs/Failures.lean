import PersonaOS.Fs.Leaks
import PersonaOS.Fs.Space

/-! # Calls that run out of space

A call that cannot go on returns at once and undoes nothing. `create` has by then written the
record of its new inode and set the size of the directory to zero in memory; `write_at` has
taken every block there was. Only a call that fails before its first change loses nothing. -/

namespace PersonaOS.Fs.Pondfs

open Program

section Failing

variable {session after : Session FsInner StateId} {fs last : FsInner} {nodes : Nodes}
  {id : StateId} {stored : List DirEntry} {name : String} {kind : InodeKind} {error : FsError}

theorem error_of_onFs {α : Type} {program : Program FsInner FsError α}
    {next : α → Program (Session FsInner StateId) FsError Reply}
    (replies : ∀ value current, ∃ reply done, next value current = .ok reply done)
    (fails : (Inode.onFs program >>= next) session = .error error after) :
    program session.fs = .error error after.fs ∧ after.handles = session.handles := by
  rw [bind_apply, Inode.onFs] at fails
  cases ended : program session.fs with
  | ok value done =>
    rw [ended] at fails
    rcases replies value ⟨done, session.handles⟩ with ⟨reply, last, isOk⟩
    cases isOk.symm.trans fails
  | error fault done =>
    rw [ended] at fails
    cases fails
    exact ⟨rfl, rfl⟩
  | panic =>
    rw [ended] at fails
    cases fails

theorem error_of_create {handle : Nat} (isHandle : session.handles[handle]? = some id)
    (fails : inode.perform ⟨handle, .create name kind⟩ session = .error error after) :
    create id name kind session.fs = .error error after.fs ∧ after.handles = session.handles := by
  rw [perform_of_some isHandle] at fails
  exact error_of_onFs (fun _ _ => ⟨_, _, rfl⟩) fails

theorem error_of_writeAt {handle off : Nat} {buf : List UInt8}
    (isHandle : session.handles[handle]? = some id)
    (fails : inode.perform ⟨handle, .writeAt off buf⟩ session = .error error after) :
    writeAt id off buf session.fs = .error error after.fs ∧ after.handles = session.handles := by
  rw [perform_of_some isHandle] at fails
  exact error_of_onFs (fun _ _ => ⟨_, _, rfl⟩) fails

theorem session_eq (sameFs : after.fs = session.fs)
    (sameHandles : after.handles = session.handles) :
    after = session := by
  cases after
  cases session
  cases sameFs
  cases sameHandles
  rfl

/-! ## Failed creates -/

def FsInner.NoInode (fs : FsInner) : Prop := ∀ ino, ¬ fs.FreeIno ino

theorem Mounted.abandoned_opens {ino : Nat} (mounted : Mounted fs nodes)
    (opens : OpensDir fs nodes id stored) (isFree : fs.FreeIno ino)
    (abandoned : Abandoned id kind ino fs last) :
    Mounted last (nodes.abandon (fs.ino id) kind ino) ∧
      OpensDir last (nodes.abandon (fs.ino id) kind ino) id [] := by
  refine ⟨mounted.abandoned opens.isCached opens.isDir isFree abandoned, ?_, ?_⟩
  · rw [(Emptied.edits abandoned).ino, (Emptied.edits abandoned).cache]
    exact opens.isCached
  · rw [(Emptied.edits abandoned).ino, Nodes.abandon]
    exact Function.update_self _ _ _

theorem Mounted.abandoned_inUse {ino : Nat} (mounted : Mounted fs nodes)
    (opens : OpensDir fs nodes id stored) (isFree : fs.FreeIno ino)
    (abandoned : Abandoned id kind ino fs last) : ¬ fs.InUse ino ∧ last.InUse ino := by
  have different : ino ≠ fs.ino id := mounted.holds.ne_of_free opens.isDir isFree
  rw [mounted.holds.inUse, (mounted.abandoned_opens opens isFree abandoned).1.holds.inUse]
  refine ⟨fun isNode => isNode (mounted.holds.free_of_unused isFree), ?_⟩
  rw [Nodes.abandon, Function.update_of_ne different, Function.update_self]
  exact Option.some_ne_none _

/-- As long as there is an inode left, a `create` that runs out of space loses all entries of
the directory and the inode. -/
theorem Mounted.failed_create_loses (mounted : Mounted fs nodes)
    (opens : OpensDir fs nodes id stored) (available : ¬ fs.NoInode)
    (fails : Pondfs.create id name kind fs = .error error last)
    (isError : error = .noSpace ∨ error = .unsupported) :
    Pondfs.readdir id last = .ok [] last ∧ ∃ ino, ¬ fs.InUse ino ∧ last.InUse ino := by
  have meets : (Pondfs.create id name kind fs).Meets _ _ _ :=
    mounted.create opens.isCached opens.isDir
  rw [fails] at meets
  rcases meets with ⟨rfl, _⟩ | ⟨_, _, ⟨full, _⟩ | ⟨ino, isFree, abandoned⟩⟩
  · rcases isError with isNoSpace | isUnsupported
    · cases isNoSpace
    · cases isUnsupported
  · exact absurd full available
  · rcases mounted.abandoned_opens opens isFree abandoned with ⟨mountedLast, opensLast⟩
    exact ⟨mountedLast.readdir opensLast.isCached opensLast.isDir, ino,
      mounted.abandoned_inUse opens isFree abandoned⟩

theorem Serves.opensDir {handle : Nat} (serves : Serves session nodes)
    (isHandle : session.handles[handle]? = some id)
    (isKind : (session.fs.raw id).kind = inodeKindDir) :
    ∃ stored, OpensDir session.fs nodes id stored := by
  have inRange := serves.handles id (List.mem_of_getElem? isHandle)
  rcases serves.mounted.holds.isDir inRange isKind with ⟨isCached, stored, isDir⟩
  exact ⟨stored, isCached, isDir⟩

end Failing

/-- A `create` that fails with no inode left changes nothing, and one that runs out of
space leaves the inodes in use as they are just if there was no inode left. -/
theorem failed_create_keeps (img : Disk) (size : UInt64) (src : Mkpondfs.SourceDir)
    (calls : List Call) (session after : Session FsInner StateId) (handle : Nat) (name : String)
    (kind : InodeKind) (error : FsError) (run : Run img size src calls session)
    (fails : inode.perform ⟨handle, .create name kind⟩ session = .error error after) :
    (session.fs.NoInode → after = session) ∧
    (error = .noSpace ∨ error = .unsupported →
      ((∀ ino, after.fs.InUse ino ↔ session.fs.InUse ino) ↔ session.fs.NoInode)) := by
  have unchanged : session.fs.NoInode → after = session := by
    intro full
    cases isHandle : session.handles[handle]? with
    | none =>
      rw [perform_of_none isHandle] at fails
      exact (Outcome.error.inj fails).2.symm
    | some id =>
      rcases run.serves with ⟨nodes, serves⟩
      rcases error_of_create isHandle fails with ⟨failsFs, sameHandles⟩
      apply session_eq _ sameHandles
      by_cases isKind : (session.fs.raw id).kind = inodeKindDir
      · rcases serves.opensDir isHandle isKind with ⟨stored, opens⟩
        have meets : (create id name kind session.fs).Meets _ _ _ :=
          serves.mounted.create opens.isCached opens.isDir
        rw [failsFs] at meets
        rcases meets with ⟨_, _, same⟩ | ⟨_, _, ⟨_, same⟩ | ⟨ino, isFree, _⟩⟩
        · exact same
        · exact same
        · exact absurd isFree (full ino)
      · rw [create_of_ne isKind] at failsFs
        exact (Outcome.error.inj failsFs).2.symm
  refine ⟨unchanged, fun isError => ⟨fun sameUse => ?_, fun full ino => by rw [unchanged full]⟩⟩
  by_contra available
  cases isHandle : session.handles[handle]? with
  | none =>
    rw [perform_of_none isHandle] at fails
    cases fails
    simp at isError
  | some id =>
    rcases run.serves with ⟨nodes, serves⟩
    have failsFs := (error_of_create isHandle fails).1
    by_cases isKind : (session.fs.raw id).kind = inodeKindDir
    · rcases serves.opensDir isHandle isKind with ⟨stored, opens⟩
      rcases serves.mounted.failed_create_loses opens available failsFs isError with
        ⟨_, ino, wasFree, isUsed⟩
      exact wasFree ((sameUse ino).mp isUsed)
    · rw [create_of_ne isKind] at failsFs
      rw [← (Outcome.error.inj failsFs).1] at isError
      simp at isError

/-! ## A name that does not fit -/

def longName : String := .ofList (.replicate 65535 'x')

theorem utf8ByteSize_replicate (count : Nat) :
    (String.ofList (.replicate count 'x')).utf8ByteSize = count := by
  induction count with
  | zero => rfl
  | succ count induction =>
    rw [List.replicate_succ', String.ofList_append, String.utf8ByteSize_append, induction]
    rfl

section LongName

variable {session : Session FsInner StateId} {fs last : FsInner} {nodes : Nodes} {id : StateId}
  {stored : List DirEntry} {name : String} {kind : InodeKind}

theorem Mounted.create_long (mounted : Mounted fs nodes)
    (opens : OpensDir fs nodes id stored) (isLong : name.utf8ByteSize = 65535) :
    ∃ error last, Pondfs.create id name kind fs = .error error last ∧
      (error = .noSpace ∨ error = .unsupported) ∧
      (fs.NoInode ∧ last = fs ∨ ∃ ino, fs.FreeIno ino ∧ Abandoned id kind ino fs last) := by
  have meets : (Pondfs.create id name kind fs).Meets _ _ _ :=
    mounted.create opens.isCached opens.isDir
  cases ended : Pondfs.create id name kind fs with
  | ok child last =>
    rw [ended] at meets
    rcases meets with ⟨_, _, ino, _, middle, rewritten, _⟩
    have small := rewritten.length_le
    have fits := utf8ByteSize_le_serialize (List.mem_append_right (visible stored)
      (List.mem_singleton.mpr (Eq.refl (name, kind, ino))))
    dsimp only at fits small
    omega
  | error error last =>
    rw [ended] at meets
    rcases meets with ⟨_, ⟨entry, member, isName⟩, _⟩ | ⟨isError, _, failed⟩
    · have small := mounted.length_visible_le opens
      have fits := utf8ByteSize_le_serialize member
      rw [isName] at fits
      omega
    · exact ⟨error, last, rfl, isError, failed⟩
  | panic =>
    rw [ended] at meets
    rcases meets with ⟨ino, overflow⟩
    exact absurd overflow (Nat.not_le_of_lt (mounted.length_create_lt opens (by omega) kind ino))

theorem perform_create_long {name : String} (serves : Serves session nodes)
    (handles : session.handles = [0]) (opens : OpensDir session.fs nodes 0 stored)
    (isLong : name.utf8ByteSize = 65535) (kind : InodeKind) :
    ∃ error last, inode.perform ⟨0, .create name kind⟩ session = .error error ⟨last, [0]⟩ ∧
      (error = .noSpace ∨ error = .unsupported) ∧
      (session.fs.NoInode ∧ last = session.fs ∨
        ∃ ino, session.fs.FreeIno ino ∧ Abandoned 0 kind ino session.fs last) := by
  rcases serves.mounted.create_long opens isLong with ⟨error, last, fails, known⟩
  refine ⟨error, last, ?_, known⟩
  have isHandle : session.handles[0]? = some 0 := by rw [handles]; rfl
  rw [perform_of_some isHandle, ← handles]
  simp only [Inode.invoke, bind_apply, Inode.onFs]
  rw [show inode.create 0 name kind session.fs = .error error last from fails]

def FsInner.freeInodes (fs : FsInner) : Finset Nat :=
  (Finset.range fs.inodeCount).filter fun ino =>
    ino ≠ 0 ∧ (fs.diskInode ino).kind = inodeKindUnused

theorem mem_freeInodes {ino : Nat} : ino ∈ fs.freeInodes ↔ fs.FreeIno ino := by
  rw [FsInner.freeInodes, Finset.mem_filter, Finset.mem_range]
  exact ⟨fun known => ⟨known.2.1, known.1, known.2.2⟩,
    fun isFree => ⟨isFree.inTable, isFree.notZero, isFree.unused⟩⟩

theorem Mounted.freeInodes_abandoned {ino : Nat} (mounted : Mounted fs nodes)
    (isFree : fs.FreeIno ino) (abandoned : Abandoned id kind ino fs last) :
    last.freeInodes.card < fs.freeInodes.card := by
  have edits : Edits id (fs.writeInode ino (newRaw kind)) last := Emptied.edits abandoned
  have geometry := mounted.holds.synced.geometry
  have record : ∀ other < fs.inodeCount, last.diskInode other =
      if other = ino then newRaw kind else fs.diskInode other := by
    intro other inTable
    rw [edits.diskInode geometry inTable, FsInner.diskInode_writeInode]
  have sameCount : last.inodeCount = fs.inodeCount := edits.inodeCount
  apply Finset.card_lt_card
  rw [Finset.ssubset_iff_of_subset]
  · refine ⟨ino, mem_freeInodes.mpr isFree, fun isLeft => ?_⟩
    have unused := (mem_freeInodes.mp isLeft).unused
    rw [record ino isFree.inTable, if_pos rfl] at unused
    rcases kindCode_cases kind with isFile | isDir
    · exact absurd (isFile.symm.trans unused) (by decide)
    · exact absurd (isDir.symm.trans unused) (by decide)
  · intro other isLeft
    have left := mem_freeInodes.mp isLeft
    have inTable : other < fs.inodeCount := sameCount ▸ left.inTable
    have unused := left.unused
    rw [record other inTable] at unused
    split at unused
    · next same => exact mem_freeInodes.mpr (same ▸ isFree)
    · exact mem_freeInodes.mpr ⟨left.notZero, inTable, unused⟩

theorem exists_noInode {name : String} (isLong : name.utf8ByteSize = 65535) (bound : Nat) :
    ∀ session nodes stored, Serves session nodes → session.handles = [0] →
      OpensDir session.fs nodes 0 stored → session.fs.freeInodes.card ≤ bound →
      ∃ calls after nodes stored, Trace Comes session calls after ∧ Serves after nodes ∧
        after.handles = [0] ∧ OpensDir after.fs nodes 0 stored ∧ after.fs.NoInode := by
  induction bound with
  | zero =>
    intro session nodes stored serves handles opens few
    refine ⟨[], session, nodes, stored, .nil _, serves, handles, opens, fun ino isFree => ?_⟩
    have positive := Finset.card_pos.mpr ⟨ino, mem_freeInodes.mpr isFree⟩
    omega
  | succ bound induction =>
    intro session nodes stored serves handles opens few
    rcases perform_create_long serves handles opens isLong .file with
      ⟨error, last, fails, _, full | ⟨ino, isFree, abandoned⟩⟩
    · exact ⟨[], session, nodes, stored, .nil _, serves, handles, opens, full.1⟩
    · have fewer := serves.mounted.freeInodes_abandoned isFree abandoned
      have comes : Comes session ⟨0, .create name .file⟩ ⟨last, [0]⟩ := by
        rw [Comes, fails]
        rfl
      rcases serves.mounted.abandoned_opens opens isFree abandoned with ⟨mountedLast, opensLast⟩
      have servesLast : Serves ⟨last, [0]⟩ (nodes.abandon (session.fs.ino 0) .file ino) := by
        refine ⟨mountedLast, fun id isHandle => ?_⟩
        rw [List.mem_singleton.mp isHandle]
        exact (mountedLast.holds.cached opensLast.isCached).1
      rcases induction ⟨last, [0]⟩ _ [] servesLast rfl opensLast
        (Nat.le_of_lt_succ (Nat.lt_of_lt_of_le fewer few)) with
        ⟨calls, after, nodes, stored, trace, known⟩
      exact ⟨_ :: calls, after, nodes, stored, .cons comes trace, known⟩

end LongName

theorem smallSource_starts :
    (start? (fun _ => Block.zero) 262144 smallSource).map (fun session =>
      (decide (5 < session.fs.inodeCount), (session.fs.diskInode 5).kind,
        (readdir 0 session.fs).value?)) =
      some (true, inodeKindUnused, some [("a", .file), ("b", .dir)]) := by
  decide +kernel

/-- A `create` that fails with all inodes in use. -/
theorem failed_create_keeps_full :
    ∃ calls session after error, Run (fun _ => Block.zero) 262144 smallSource calls session ∧
      session.fs.NoInode ∧
      inode.perform ⟨0, .create longName .file⟩ session = .error error after ∧
      (error = .noSpace ∨ error = .unsupported) ∧ after = session := by
  have isLong : longName.utf8ByteSize = 65535 := utf8ByteSize_replicate 65535
  rcases Option.map_eq_some_iff.mp smallSource_starts with ⟨first, starts, _⟩
  rcases start?_eq_some starts with ⟨nodes, stored, handles, serves, opens, _⟩
  rcases exists_noInode isLong _ first nodes stored serves handles opens (Nat.le_refl _) with
    ⟨calls, session, nodes, stored, trace, serves, handles, opens, full⟩
  rcases perform_create_long serves handles opens isLong .file with ⟨error, last, fails, isError, _⟩
  have run : Run (fun _ => Block.zero) 262144 smallSource calls session := ⟨first, starts, trace⟩
  exact ⟨calls, session, ⟨last, [0]⟩, error, run, full, fails, isError,
    (failed_create_keeps _ _ _ _ _ _ _ _ _ _ run fails).1 full⟩

/-- A `create` with a name that does not fit empties the directory and takes an inode. -/
theorem failed_create_empties :
    ∃ session after error, Run (fun _ => Block.zero) 262144 smallSource [] session ∧
      inode.perform ⟨0, .create longName .file⟩ session = .error error after ∧
      (error = .noSpace ∨ error = .unsupported) ∧
      (readdir 0 session.fs).value? = some [("a", .file), ("b", .dir)] ∧
      readdir 0 after.fs = .ok [] after.fs ∧
      ∃ ino, ¬ session.fs.InUse ino ∧ after.fs.InUse ino := by
  have isLong : longName.utf8ByteSize = 65535 := utf8ByteSize_replicate 65535
  rcases Option.map_eq_some_iff.mp smallSource_starts with ⟨session, starts, facts⟩
  simp only [Prod.mk.injEq, decide_eq_true_eq] at facts
  rcases facts with ⟨inTable, unused, listing⟩
  rcases start?_eq_some starts with ⟨nodes, stored, handles, serves, opens, _⟩
  rcases perform_create_long serves handles opens isLong .file with ⟨error, last, fails, isError, _⟩
  have isHandle : session.handles[0]? = some 0 := by rw [handles]; rfl
  have available : ¬ session.fs.NoInode := fun full => full 5 ⟨by decide, inTable, unused⟩
  refine ⟨session, ⟨last, [0]⟩, error, ⟨session, starts, .nil _⟩, fails, isError, listing, ?_⟩
  exact serves.mounted.failed_create_loses opens available
    (error_of_create isHandle fails).1 isError

/-! ## Failed writes -/

section Writes

variable {fs last : FsInner} {nodes : Nodes} {id : StateId} {off : Nat} {buf : List UInt8}

theorem Holds.writeAt_takes (holds : Holds fs nodes) (id : StateId) (off : Nat) (buf : List UInt8) :
    (Pondfs.writeAt id off buf fs).Meets
      (fun _ _ => (fs.raw id).missing ((off + buf.length + 4095) / 4096) ≤ fs.freeBlocks.card)
      (fun error after => error = .isDir ∧ (fs.raw id).kind ≠ inodeKindFile ∧ after = fs ∨
        error = .unsupported ∧ 12 < (off + buf.length + 4095) / 4096 ∧ after = fs ∨
        error = .noSpace ∧ (off + buf.length + 4095) / 4096 ≤ 12 ∧ after.freeBlocks = ∅ ∧
          (fs.freeBlocks = ∅ → after = fs))
      (2 ^ 64 ≤ off + buf.length) := by
  by_cases isKind : (fs.raw id).kind = inodeKindFile
  · rw [Pondfs.writeAt, get_bind_apply, if_neg (Decidable.not_not.mpr isKind)]
    apply Outcome.Meets.bind ((holds.synced.writeFileAt_takes id off buf).imp_error _)
    · intro _ middle takes
      exact Nat.le_trans (Nat.le_add_left _ _) (Nat.le_of_eq takes.2)
    · intro error after failed
      rcases failed with early | ⟨isError, few, _, full, same⟩
      · exact .inr (.inl early)
      · exact .inr (.inr ⟨isError, few, full, same⟩)
  · rw [writeAt_of_ne isKind]
    exact .inl ⟨rfl, isKind, rfl⟩

end Writes

/-- What a failed write should leave alone: what the file reads as, and the free blocks. -/
structure KeepsFile (id : StateId) (before after : FsInner) : Prop where
  size : (after.raw id).size = (before.raw id).size
  reads : ∀ off len, (readAt id off len after).value? = (readAt id off len before).value?
  free : after.freeBlocks = before.freeBlocks

/-- A write that runs out of space keeps the file and the free blocks just if it is too long
for a file or no block was free; it changes nothing at all then. -/
theorem failed_write_keeps (img : Disk) (size : UInt64) (src : Mkpondfs.SourceDir)
    (calls : List Call) (session after : Session FsInner StateId) (handle off : Nat)
    (id : StateId) (buf : List UInt8) (error : FsError) (run : Run img size src calls session)
    (isHandle : session.handles[handle]? = some id)
    (fails : inode.perform ⟨handle, .writeAt off buf⟩ session = .error error after)
    (isError : error = .noSpace ∨ error = .unsupported) :
    (KeepsFile id session.fs after.fs ↔
      12 * 4096 < off + buf.length ∨ session.fs.freeBlocks = ∅) ∧
    (KeepsFile id session.fs after.fs → after = session) := by
  rcases run.serves with ⟨nodes, serves⟩
  rcases error_of_writeAt isHandle fails with ⟨failsFs, sameHandles⟩
  have meets := serves.mounted.holds.writeAt_takes id off buf
  rw [failsFs] at meets
  have keeps : after.fs = session.fs → KeepsFile id session.fs after.fs := by
    intro same
    rw [same]
    exact ⟨rfl, fun _ _ => rfl, rfl⟩
  rcases meets with ⟨rfl, _⟩ | ⟨_, many, same⟩ | ⟨_, few, full, same⟩
  · simp at isError
  · exact ⟨⟨fun _ => .inl (by omega), fun _ => keeps same⟩, fun _ => session_eq same sameHandles⟩
  · refine ⟨⟨fun kept => .inr (kept.free.symm.trans full), ?_⟩, ?_⟩
    · rintro (many | wasFull)
      · omega
      · exact keeps (same wasFull)
    · intro kept
      exact session_eq (same (kept.free.symm.trans full)) sameHandles

/-- The session that looks up a file of `smallSource`. -/
def opened? : Option (Session FsInner StateId) :=
  (start? (fun _ => Block.zero) 262144 smallSource).bind (after? · [⟨0, .lookup "a"⟩])

theorem opened?_far :
    opened?.map (fun session => (session.handles[1]?,
      (inode.perform ⟨1, .writeAt 49152 [1]⟩ session).fault?)) =
      some (some 1, some .unsupported) := by
  decide +kernel

/-- A write past the last slot of a file. -/
theorem failed_write_keeps_far :
    ∃ session after, Run (fun _ => Block.zero) 262144 smallSource [⟨0, .lookup "a"⟩] session ∧
      inode.perform ⟨1, .writeAt 49152 [1]⟩ session = .error .unsupported after ∧
      after = session := by
  rcases Option.map_eq_some_iff.mp opened?_far with ⟨session, isSession, facts⟩
  rcases Prod.mk.inj facts with ⟨isHandle, failed⟩
  rcases Option.bind_eq_some_iff.mp isSession with ⟨first, starts, comes⟩
  have run : Run (fun _ => Block.zero) 262144 smallSource [⟨0, .lookup "a"⟩] session :=
    ⟨first, starts, trace_of_after? comes⟩
  have fails := Outcome.eq_error_of_fault? failed session
  have kept := failed_write_keeps _ _ _ _ _ _ _ _ _ _ _ run isHandle fails (.inr rfl)
  exact ⟨session, _, run, fails, kept.2 (kept.1.mpr (.inl (by decide)))⟩

def fiveFiles : Mkpondfs.SourceDir where
  tree := .file "a" [] (.file "b" [] (.file "c" [] (.file "d" [] (.file "e" [] .empty))))
  valid := by decide

/-- Open all files and give twelve blocks to each of the first four. -/
def filling : List Call :=
  [⟨0, .lookup "a"⟩, ⟨0, .lookup "b"⟩, ⟨0, .lookup "c"⟩, ⟨0, .lookup "d"⟩, ⟨0, .lookup "e"⟩,
    ⟨1, .writeAt 45056 [1]⟩, ⟨2, .writeAt 45056 [1]⟩, ⟨3, .writeAt 45056 [1]⟩,
    ⟨4, .writeAt 45056 [1]⟩]

def filled? : Option (Session FsInner StateId) :=
  (start? (fun _ => Block.zero) 262144 fiveFiles).bind (after? · filling)

theorem filled?_space :
    filled?.map (fun session => (session.fs.freeBlocks.card, (session.fs.raw 5).missing 12,
      (session.fs.raw 5).kind, session.handles[5]?)) = some (11, 12, inodeKindFile, some 5) := by
  decide +kernel

/-- A write that needs one block more than there are takes them all and fails. -/
theorem failed_write_takes_all :
    ∃ session after, Run (fun _ => Block.zero) 262144 fiveFiles filling session ∧
      inode.perform ⟨5, .writeAt 45056 [1]⟩ session = .error .noSpace after ∧
      session.fs.freeBlocks.card = 11 ∧ after.fs.freeBlocks = ∅ := by
  rcases Option.map_eq_some_iff.mp filled?_space with ⟨session, isSession, facts⟩
  rcases Option.bind_eq_some_iff.mp isSession with ⟨first, starts, comes⟩
  simp only [Prod.mk.injEq] at facts
  rcases facts with ⟨free, missing, isKind, isHandle⟩
  have run : Run (fun _ => Block.zero) 262144 fiveFiles filling session :=
    ⟨first, starts, trace_of_after? comes⟩
  rcases run.serves with ⟨nodes, serves⟩
  have meets := serves.mounted.holds.writeAt_takes 5 45056 [1]
  refine ⟨session, ?_⟩
  rw [perform_of_some isHandle]
  simp only [Inode.invoke, bind_apply, Inode.onFs]
  rw [show inode.writeAt 5 45056 [1] session.fs = writeAt 5 45056 [1] session.fs from rfl]
  cases ended : writeAt 5 45056 [1] session.fs with
  | ok count last =>
    rw [ended] at meets
    have enough : (session.fs.raw 5).missing 12 ≤ session.fs.freeBlocks.card := meets
    omega
  | error error last =>
    rw [ended] at meets
    rcases meets with ⟨_, notFile, _⟩ | ⟨_, many, _⟩ | ⟨rfl, _, full, _⟩
    · exact absurd isKind notFile
    · exact absurd many (by decide)
    · exact ⟨⟨last, session.handles⟩, run, rfl, free, full⟩
  | panic =>
    rw [ended] at meets
    have overflow : 2 ^ 64 ≤ 45056 + 1 := meets
    exact absurd overflow (by decide)

end PersonaOS.Fs.Pondfs
