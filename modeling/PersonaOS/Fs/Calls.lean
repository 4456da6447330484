import PersonaOS.Fs.Mounted

/-! # The calls of a mounted volume

What each method of PondFS returns and which state it ends in, in terms of the catalog:
`create` adds an inode and an entry for it, `unlink` takes both away, `write_at` replaces
the bytes of a file. A call that fails half way leaves the directory it was working on
without entries in memory. -/

namespace PersonaOS.Fs.Pondfs

open Program

/-- A mounted volume with a catalog that is in order. -/
structure Mounted (fs : FsInner) (nodes : Nodes) : Prop where
  holds : Holds fs nodes
  catalog : Catalog nodes

/-! ## Loading an inode -/

/-- The handle `get_or_load` returns. -/
def FsInner.loadedId (fs : FsInner) (ino : Nat) : StateId := (fs.inodeCache ino).getD fs.stateCount

/-- The state `get_or_load` ends in. -/
def FsInner.loaded (fs : FsInner) (ino : Nat) : FsInner :=
  if (fs.inodeCache ino).isSome then fs else fs.insertState ⟨ino, fs.diskInode ino⟩

section Load

variable {fs : FsInner} {nodes : Nodes} {id : StateId} {ino : Nat}

theorem FsInner.loaded_of_cached (isCached : fs.inodeCache ino = some id) :
    fs.loadedId ino = id ∧ fs.loaded ino = fs := by
  rw [loadedId, loaded, isCached]
  exact ⟨rfl, rfl⟩

theorem FsInner.loaded_of_uncached (uncached : fs.inodeCache ino = none) :
    fs.loadedId ino = fs.stateCount ∧ fs.loaded ino = fs.insertState ⟨ino, fs.diskInode ino⟩ := by
  rw [loadedId, loaded, uncached]
  exact ⟨rfl, rfl⟩

theorem getOrLoad_eq (notZero : ino ≠ 0) (inTable : ino < fs.inodeCount) :
    getOrLoad ino fs = .ok (fs.loadedId ino) (fs.loaded ino) := by
  rw [getOrLoad, get_bind_apply]
  cases cachedAs : fs.inodeCache ino with
  | some id =>
    rw [(FsInner.loaded_of_cached cachedAs).1, (FsInner.loaded_of_cached cachedAs).2]
    rfl
  | none =>
    have loads : loadInode fs ino = .ok ⟨ino, fs.diskInode ino⟩ := by
      rw [loadInode, if_neg (by omega)]
    rw [(FsInner.loaded_of_uncached cachedAs).1, (FsInner.loaded_of_uncached cachedAs).2]
    simp only [loads]
    rfl

theorem Holds.getOrLoad (holds : Holds fs nodes) (isNode : nodes ino ≠ none) :
    getOrLoad ino fs = .ok (fs.loadedId ino) (fs.loaded ino) :=
  getOrLoad_eq (holds.ino_ne_zero isNode) (holds.inTable isNode)

theorem Holds.loaded (holds : Holds fs nodes) (isNode : nodes ino ≠ none) :
    Holds (fs.loaded ino) nodes := by
  cases cachedAs : fs.inodeCache ino with
  | some id => rwa [(FsInner.loaded_of_cached cachedAs).2]
  | none =>
    rw [(FsInner.loaded_of_uncached cachedAs).2]
    exact holds.insertState cachedAs isNode rfl

theorem FsInner.cache_loaded (fs : FsInner) (ino : Nat) :
    (fs.loaded ino).inodeCache ino = some (fs.loadedId ino) := by
  cases cachedAs : fs.inodeCache ino with
  | some id => rw [(loaded_of_cached cachedAs).1, (loaded_of_cached cachedAs).2, cachedAs]
  | none =>
    rw [(loaded_of_uncached cachedAs).1, (loaded_of_uncached cachedAs).2, cache_insertState,
      if_pos rfl]

theorem FsInner.cache_loaded_of_cached (isCached : fs.inodeCache ino = some id) (other : Nat) :
    (fs.loaded other).inodeCache ino = some id := by
  cases cachedAs : fs.inodeCache other with
  | some state => rwa [(loaded_of_cached cachedAs).2]
  | none =>
    have different : ino ≠ other := by
      rintro rfl
      rw [isCached] at cachedAs
      cases cachedAs
    rw [(loaded_of_uncached cachedAs).2, cache_insertState, if_neg different, isCached]

theorem FsInner.stateCount_loaded (fs : FsInner) (ino : Nat) :
    fs.stateCount ≤ (fs.loaded ino).stateCount := by
  rw [loaded]
  split
  · exact Nat.le_refl _
  · exact Nat.le_succ _

theorem FsInner.states_loaded (inRange : id < fs.stateCount) (ino : Nat) :
    (fs.loaded ino).states id = fs.states id := by
  rw [loaded]
  split
  · rfl
  · rw [states_insertState, if_neg (Nat.ne_of_lt inRange)]

theorem FsInner.ino_loaded (inRange : id < fs.stateCount) (other : Nat) :
    (fs.loaded other).ino id = fs.ino id := by
  rw [FsInner.ino, states_loaded inRange, FsInner.ino]

end Load

/-! ## Reading -/

section Reading

variable {fs : FsInner} {nodes : Nodes} {id : StateId}

theorem readAt_of_ne {off len : Nat} (notFile : (fs.raw id).kind ≠ inodeKindFile) :
    readAt id off len fs = .error .isDir fs := by
  rw [readAt, get_bind_apply, if_pos notFile]
  rfl

theorem Holds.readAt {bytes : List UInt8} {off len : Nat} (holds : Holds fs nodes)
    (isCached : fs.inodeCache (fs.ino id) = some id)
    (isFile : nodes (fs.ino id) = some (.file bytes))
    (noOverflow : off < bytes.length → off + len < 2 ^ 64) :
    readAt id off len fs = .ok ((bytes.drop off).take len) fs := by
  have isKind : (fs.raw id).kind = inodeKindFile := holds.raw_kind isCached isFile
  have stores : Stores fs.dev (fs.raw id) bytes := by
    rw [← FsInner.record_of_cached isCached]
    exact holds.contents isFile
  rw [Pondfs.readAt, get_bind_apply, if_neg (Decidable.not_not.mpr isKind),
    stores.begins.readFileAt noOverflow]

theorem readAt_state (fs : FsInner) (id : StateId) (off len : Nat) :
    (readAt id off len fs).Meets (fun _ after => after = fs) (fun _ after => after = fs)
      (2 ^ 64 ≤ off + len) := by
  rw [readAt, get_bind_apply]
  split
  · rfl
  · exact readFileAt_state fs (fs.raw id) off len

theorem readAt_eq_panic {off len : Nat} : readAt id off len fs = .panic ↔
    (fs.raw id).kind = inodeKindFile ∧ off < (fs.raw id).size.toNat ∧ 2 ^ 64 ≤ off + len := by
  by_cases isFile : (fs.raw id).kind = inodeKindFile
  · have reads : readAt id off len fs = readFileAt (fs.raw id) off len fs := by
      rw [readAt, get_bind_apply, if_neg (not_not_intro isFile)]
    by_cases behind : (fs.raw id).size.toNat ≤ off
    · rw [reads, readFileAt, if_pos behind]
      exact iff_of_false (by intro same; cases same) fun all => Nat.not_le.mpr all.2.1 behind
    · by_cases large : 2 ^ 64 ≤ off + len
      · rw [reads, readFileAt, if_neg behind, if_pos large]
        exact iff_of_true rfl ⟨isFile, Nat.not_le.mp behind, large⟩
      · have returns := (readAt_state fs id off len).ne_panic large
        exact iff_of_false returns fun all => large all.2.2
  · rw [readAt_of_ne isFile]
    exact iff_of_false (by intro same; cases same) fun all => isFile all.1

theorem writeAt_panics {off : Nat} {buf : List UInt8} (isFile : (fs.raw id).kind = inodeKindFile)
    (large : 2 ^ 64 ≤ off + buf.length) : writeAt id off buf fs = .panic := by
  have writes : writeFileAt id off buf fs = .panic := by
    rw [writeFileAt]
    simp only [if_pos large]
    rfl
  rw [writeAt, get_bind_apply, if_neg (not_not_intro isFile), bind_apply, writes]

theorem Mounted.dirReadEntries {stored : List DirEntry} (mounted : Mounted fs nodes)
    (isCached : fs.inodeCache (fs.ino id) = some id)
    (isDir : nodes (fs.ino id) = some (.dir stored)) :
    dirReadEntries (fs.raw id) fs = .ok (visible stored) fs := by
  have begins : Begins fs.dev (fs.raw id) (serialize stored) := by
    rw [← FsInner.record_of_cached isCached]
    exact mounted.holds.contents isDir
  exact begins.dirReadEntries (mounted.catalog.valid isDir)

theorem readdir_of_ne (notDir : (fs.raw id).kind ≠ inodeKindDir) :
    readdir id fs = .error .notDir fs := by
  rw [readdir, get_bind_apply, if_pos notDir]
  rfl

theorem lookup_of_ne {name : String} (notDir : (fs.raw id).kind ≠ inodeKindDir) :
    lookup id name fs = .error .notDir fs := by
  rw [lookup, get_bind_apply, if_pos notDir]
  rfl

theorem create_of_ne {name : String} {kind : InodeKind} (notDir : (fs.raw id).kind ≠ inodeKindDir) :
    create id name kind fs = .error .notDir fs := by
  rw [create, get_bind_apply, if_pos notDir]
  rfl

theorem unlink_of_ne {name : String} (notDir : (fs.raw id).kind ≠ inodeKindDir) :
    unlink id name fs = .error .notDir fs := by
  rw [unlink, get_bind_apply, if_pos notDir]
  rfl

theorem Mounted.readdir {stored : List DirEntry} (mounted : Mounted fs nodes)
    (isCached : fs.inodeCache (fs.ino id) = some id)
    (isDir : nodes (fs.ino id) = some (.dir stored)) :
    readdir id fs = .ok ((visible stored).map fun (name, kind, _) => (name, kind)) fs := by
  have isKind : (fs.raw id).kind = inodeKindDir := mounted.holds.raw_kind isCached isDir
  rw [Pondfs.readdir, get_bind_apply, if_neg (Decidable.not_not.mpr isKind), bind_apply,
    mounted.dirReadEntries isCached isDir]
  rfl

theorem Mounted.named (mounted : Mounted fs nodes) {dir : Nat} {entry : DirEntry}
    (member : entry ∈ nodes.entries dir) : nodes entry.2.2 ≠ none := by
  intro isFree
  have named := mounted.catalog.named member
  rw [isFree] at named
  cases named

theorem Mounted.lookup_missing {stored : List DirEntry} {name : String}
    (mounted : Mounted fs nodes) (isCached : fs.inodeCache (fs.ino id) = some id)
    (isDir : nodes (fs.ino id) = some (.dir stored))
    (missing : (visible stored).find? (fun entry => entry.1 = name) = none) :
    lookup id name fs = .error .notFound fs := by
  have isKind : (fs.raw id).kind = inodeKindDir := mounted.holds.raw_kind isCached isDir
  rw [lookup, get_bind_apply, if_neg (Decidable.not_not.mpr isKind), bind_apply,
    mounted.dirReadEntries isCached isDir]
  simp only [missing]
  rfl

theorem Mounted.lookup_found {stored : List DirEntry} {name : String} {entry : DirEntry}
    (mounted : Mounted fs nodes) (isCached : fs.inodeCache (fs.ino id) = some id)
    (isDir : nodes (fs.ino id) = some (.dir stored))
    (found : (visible stored).find? (fun entry => entry.1 = name) = some entry) :
    lookup id name fs = .ok (fs.loadedId entry.2.2) (fs.loaded entry.2.2) := by
  have isKind : (fs.raw id).kind = inodeKindDir := mounted.holds.raw_kind isCached isDir
  have member : entry ∈ nodes.entries (fs.ino id) := by
    rw [Nodes.entries_of_dir isDir]
    exact List.mem_of_find?_eq_some found
  rw [lookup, get_bind_apply, if_neg (Decidable.not_not.mpr isKind), bind_apply,
    mounted.dirReadEntries isCached isDir]
  simp only [found]
  exact mounted.holds.getOrLoad (mounted.named member)

end Reading

/-! ## Writing -/

section Writing

variable {fs after : FsInner} {nodes : Nodes} {id : StateId}

theorem writeAt_of_ne {off : Nat} {buf : List UInt8} (notFile : (fs.raw id).kind ≠ inodeKindFile) :
    writeAt id off buf fs = .error .isDir fs := by
  rw [writeAt, get_bind_apply, if_pos notFile]
  rfl

def FsInner.flushInode (fs : FsInner) (id : StateId) : FsInner :=
  fs.writeInode (fs.ino id) (fs.raw id)

theorem Holds.writeAt (holds : Holds fs nodes) (isKind : (fs.raw id).kind = inodeKindFile)
    (off : Nat) (buf : List UInt8) :
    (writeAt id off buf fs).Meets
      (fun count after => count = buf.length ∧
        ∃ middle, Written id off buf fs middle ∧ after = middle.flushInode id)
      (fun error after => (error = .noSpace ∨ error = .unsupported) ∧ Grown id fs after)
      (2 ^ 64 ≤ off + buf.length) := by
  rw [Pondfs.writeAt, get_bind_apply, if_neg (Decidable.not_not.mpr isKind)]
  apply Outcome.Meets.bind (holds.synced.writeFileAt id off buf)
  rintro count middle ⟨rfl, written⟩
  exact ⟨rfl, middle, written, rfl⟩

theorem setRaw_self (fs : FsInner) (id : StateId) : fs.setRaw id (fs.raw id) = fs := by
  rw [FsInner.setRaw, FsInner.ino, FsInner.raw, Function.update_eq_self]

def FsInner.truncated (fs : FsInner) (id : StateId) : FsInner :=
  fs.setRaw id { fs.raw id with size := 0 }

/-- What `dir_write_entries` leaves behind: blocks that are not needed any more were given
back, then the entries were written from the start. -/
def Rewritten (id : StateId) (stored : List DirEntry) (fs after : FsInner) : Prop :=
  ∃ freed start stop, Shrunk id start stop fs freed ∧
    ((fs.raw id).size.toNat ≤ (serialize stored).length → freed = fs) ∧
    Written id 0 (serialize stored) (freed.truncated id) after

/-- What `dir_write_entries` leaves behind when it fails. -/
def Emptied (id : StateId) (fs after : FsInner) : Prop :=
  ∃ freed start stop, Shrunk id start stop fs freed ∧ Grown id (freed.truncated id) after

theorem Written.setSize {buf : List UInt8} (written : Written id 0 buf fs after)
    (isEmpty : (fs.raw id).size = 0) :
    after.setRaw id { after.raw id with size := .ofNat buf.length } = after := by
  have isSize : (after.raw id).size = .ofNat buf.length := by
    rcases written with ⟨middle, writes, grown, _, _, _, rfl⟩
    have wasEmpty : ((middle.writeAll writes).raw id).size = 0 := grown.size.trans isEmpty
    rw [Nat.zero_add, FsInner.growSize, wasEmpty]
    split
    · rw [FsInner.raw_setRaw, if_pos rfl]
    · next isShort =>
      have none_ : buf.length = 0 := Nat.le_zero.mp (Nat.le_of_not_lt isShort)
      rw [wasEmpty, none_]
      rfl
  rw [← isSize]
  exact setRaw_self after id

theorem Holds.dirWriteEntries (holds : Holds fs nodes)
    (isCached : fs.inodeCache (fs.ino id) = some id) (stored : List DirEntry) :
    (dirWriteEntries id stored fs).Meets (fun _ after => Rewritten id stored fs after)
      (fun error after => (error = .noSpace ∨ error = .unsupported) ∧ Emptied id fs after)
      (2 ^ 64 ≤ (serialize stored).length) := by
  have frees : (forRange (freeSlot id)
      (min (((fs.raw id).size.toNat + 4095) / 4096) 12 - ((serialize stored).length + 4095) / 4096)
      (((serialize stored).length + 4095) / 4096) fs).Meets
      (fun _ freed => ∃ start stop, Shrunk id start stop fs freed ∧
        ((fs.raw id).size.toNat ≤ (serialize stored).length → freed = fs))
      (fun error after => (error = .noSpace ∨ error = .unsupported) ∧ Emptied id fs after)
      (2 ^ 64 ≤ (serialize stored).length) := by
    generalize isCount : min (((fs.raw id).size.toNat + 4095) / 4096) 12 -
      ((serialize stored).length + 4095) / 4096 = count
    cases count with
    | zero => exact ⟨0, 0, .refl holds.synced, fun _ => rfl⟩
    | succ count =>
      apply (holds.synced.freeSlots (by omega)
        fun i hasBlock => (holds.slot isCached hasBlock).1).mono
      · intro _ freed shrunk
        exact ⟨_, _, shrunk, fun _ => by omega⟩
      · exact fun _ _ => False.elim
      · exact False.elim
  rw [Pondfs.dirWriteEntries, foldl_pushEntry, get_bind_apply]
  apply Outcome.Meets.bind frees
  rintro _ freed ⟨start, stop, shrunk, isKept⟩
  rw [modify_bind_apply]
  have writes := (shrunk.resize 0).synced.writeFileAt id 0 (serialize stored)
  apply Outcome.Meets.bind (writes.mono (fun _ _ known => known) ?_ ?_)
  · rintro count middle ⟨_, written⟩
    have isEmpty : ((freed.truncated id).raw id).size = 0 := by
      rw [FsInner.truncated, FsInner.raw_setRaw, if_pos rfl]
    have isSame := written.setSize isEmpty
    have ends : (modify fun fs => fs.setRaw id { fs.raw id with
        size := .ofNat (serialize stored).length } : Program FsInner FsError PUnit) middle =
        .ok ⟨⟩ middle := by
      rw [modify_apply, isSame]
    rw [ends]
    exact ⟨freed, start, stop, shrunk, isKept, written⟩
  · rintro error after ⟨isError, grown⟩
    exact ⟨isError, freed, start, stop, shrunk, grown⟩
  · rw [Nat.zero_add]
    exact fun overflow => overflow

theorem Holds.edits_written {off : Nat} {buf : List UInt8} (holds : Holds fs nodes)
    (isCached : fs.inodeCache (fs.ino id) = some id) (written : Written id off buf fs after) :
    Edits id fs after := by
  rcases written with ⟨middle, writes, grown, _, copies, _, rfl⟩
  have cachedMiddle : middle.inodeCache (middle.ino id) = some id := by
    rw [grown.edits.cache, grown.edits.ino, isCached]
  have toData := (holds.grown isCached grown).copies_toData cachedMiddle copies
  exact (grown.edits.trans (.writeAll grown.synced.geometry toData)).trans (edits_growSize _ id _)

section Directory

variable {stored entries : List DirEntry}

theorem Holds.truncated {freed : FsInner} {start stop : Nat} (holds : Holds fs nodes)
    (isCached : fs.inodeCache (fs.ino id) = some id)
    (isDir : nodes (fs.ino id) = some (.dir stored)) (shrunk : Shrunk id start stop fs freed) :
    Holds (freed.truncated id) (Function.update nodes (fs.ino id) (some (.dir []))) := by
  apply holds.cleared isCached isDir (shrunk.resize 0)
  rw [FsInner.raw_setRaw, if_pos rfl]

theorem Holds.edits_rewritten (holds : Holds fs nodes)
    (isCached : fs.inodeCache (fs.ino id) = some id)
    (isDir : nodes (fs.ino id) = some (.dir stored)) (rewritten : Rewritten id entries fs after) :
    Edits id fs after := by
  rcases rewritten with ⟨freed, start, stop, shrunk, _, written⟩
  have edits : Edits id fs (freed.truncated id) := (shrunk.resize 0).edits
  apply edits.trans
  apply (holds.truncated isCached isDir shrunk).edits_written _ written
  rw [edits.cache, edits.ino, isCached]

theorem Holds.rewritten (holds : Holds fs nodes) (isCached : fs.inodeCache (fs.ino id) = some id)
    (isDir : nodes (fs.ino id) = some (.dir stored)) (rewritten : Rewritten id entries fs after) :
    Holds after (Function.update nodes (fs.ino id) (some (.dir entries))) := by
  rcases rewritten with ⟨freed, start, stop, shrunk, _, written⟩
  have edits : Edits id fs (freed.truncated id) := (shrunk.resize 0).edits
  have sameIno := edits.ino id
  have cleared := holds.truncated isCached isDir shrunk
  have cachedCleared : (freed.truncated id).inodeCache ((freed.truncated id).ino id) = some id := by
    rw [edits.cache, sameIno, isCached]
  have isEmpty : ((freed.truncated id).raw id).size = 0 := by
    rw [FsInner.truncated, FsInner.raw_setRaw, if_pos rfl]
  have isEmptyDir : Function.update nodes (fs.ino id) (some (.dir []))
      ((freed.truncated id).ino id) = some (.dir []) := by
    rw [sameIno, Function.update_self]
  have ends := cleared.written_dir cachedCleared isEmptyDir isEmpty written
  rwa [sameIno, Function.update_idem] at ends

theorem Holds.emptied (holds : Holds fs nodes) (isCached : fs.inodeCache (fs.ino id) = some id)
    (isDir : nodes (fs.ino id) = some (.dir stored)) (emptied : Emptied id fs after) :
    Holds after (Function.update nodes (fs.ino id) (some (.dir []))) := by
  rcases emptied with ⟨freed, start, stop, shrunk, grown⟩
  have edits : Edits id fs (freed.truncated id) := (shrunk.resize 0).edits
  apply (holds.truncated isCached isDir shrunk).grown _ grown
  rw [edits.cache, edits.ino, isCached]

theorem Emptied.edits (emptied : Emptied id fs after) : Edits id fs after := by
  rcases emptied with ⟨freed, start, stop, shrunk, grown⟩
  exact (shrunk.resize 0).edits.trans grown.edits

theorem Rewritten.length_le (rewritten : Rewritten id entries fs after) :
    (serialize entries).length ≤ 12 * 4096 := by
  rcases rewritten with ⟨_, _, _, _, _, _, _, _, _, _, small, _⟩
  rwa [Nat.zero_add] at small

theorem utf8ByteSize_le_serialize {entry : DirEntry} (member : entry ∈ entries) :
    entry.1.utf8ByteSize ≤ (serialize entries).length := by
  rcases List.append_of_mem member with ⟨before, behind, rfl⟩
  rw [serialize, List.flatMap_append, List.flatMap_cons, List.length_append, List.length_append,
    length_entryBytes, align4]
  omega

end Directory

end Writing

/-! ## Creating -/

/-- An inode that `alloc_inode` can return. -/
structure FsInner.FreeIno (fs : FsInner) (ino : Nat) : Prop where
  notZero : ino ≠ 0
  inTable : ino < fs.inodeCount
  unused : (fs.diskInode ino).kind = inodeKindUnused

/-- What a `create` that succeeds leaves behind. -/
def Created (id : StateId) (entries : List DirEntry) (entry : DirEntry) (fs after : FsInner) :
    Prop :=
  ∃ middle, Rewritten id (entries ++ [entry]) (fs.writeInode entry.2.2 (newRaw entry.2.1)) middle ∧
    after = (middle.flushInode id).insertState ⟨entry.2.2, newRaw entry.2.1⟩

/-- What a `create` that runs out of space leaves behind once it has an inode. -/
def Abandoned (id : StateId) (kind : InodeKind) (ino : Nat) (fs after : FsInner) : Prop :=
  Emptied id (fs.writeInode ino (newRaw kind)) after

section Create

variable {fs after : FsInner} {nodes : Nodes} {id : StateId} {ino : Nat} {stored : List DirEntry}
  {name : String} {kind : InodeKind}

theorem Holds.free_of_unused (holds : Holds fs nodes) (isFree : fs.FreeIno ino) :
    nodes ino = none := by
  by_contra isNode
  exact holds.onDisk isNode isFree.unused

theorem Holds.ne_of_free {other : Nat} {node : Node} (holds : Holds fs nodes)
    (isNode : nodes other = some node) (isFree : fs.FreeIno ino) : ino ≠ other :=
  Nodes.ne_of_free isNode (holds.free_of_unused isFree)

theorem Mounted.create (mounted : Mounted fs nodes)
    (isCached : fs.inodeCache (fs.ino id) = some id)
    (isDir : nodes (fs.ino id) = some (.dir stored)) :
    (create id name kind fs).Meets
      (fun child after => child = fs.stateCount ∧ (∀ entry ∈ visible stored, entry.1 ≠ name) ∧
        ∃ ino, fs.FreeIno ino ∧ Created id (visible stored) (name, kind, ino) fs after)
      (fun error after =>
        error = .exists_ ∧ (∃ entry ∈ visible stored, entry.1 = name) ∧ after = fs ∨
        (error = .noSpace ∨ error = .unsupported) ∧ (∀ entry ∈ visible stored, entry.1 ≠ name) ∧
          ((∀ ino, ¬ fs.FreeIno ino) ∧ after = fs ∨
            ∃ ino, fs.FreeIno ino ∧ Abandoned id kind ino fs after))
      (∃ ino, 2 ^ 64 ≤ (serialize (visible stored ++ [(name, kind, ino)])).length) := by
  have holds := mounted.holds
  have isKind : (fs.raw id).kind = inodeKindDir := holds.raw_kind isCached isDir
  rw [Pondfs.create, get_bind_apply, if_neg (Decidable.not_not.mpr isKind), bind_apply,
    mounted.dirReadEntries isCached isDir]
  dsimp only
  split
  · next exists_ =>
    rcases List.any_eq_true.mp exists_ with ⟨entry, member, isName⟩
    exact .inl ⟨rfl, ⟨entry, member, of_decide_eq_true isName⟩, rfl⟩
  · next absent =>
    have isNew : ∀ entry ∈ visible stored, entry.1 ≠ name := by
      intro entry member isName
      exact absent (List.any_eq_true.mpr ⟨entry, member, decide_eq_true isName⟩)
    apply Outcome.Meets.bind ((allocInode_spec holds.synced.geometry).mono
      (fun _ _ known => known) ?_ False.elim)
    rotate_left
    · rintro _ _ ⟨isError, rfl, full⟩
      exact .inr ⟨.inl isError, isNew, .inl ⟨fun ino isFree =>
        full ino isFree.notZero isFree.inTable isFree.unused, rfl⟩⟩
    rintro ino middle ⟨notZero, inTable, unused, rfl⟩
    have isFree : middle.FreeIno ino := ⟨notZero, inTable, unused⟩
    have holdsNew := holds.newInode (holds.free_of_unused isFree) notZero inTable kind
    have isOldDir : Function.update nodes ino (some (.empty kind)) (middle.ino id) =
        some (.dir stored) := by
      rw [Function.update_of_ne (holds.ne_of_free isDir isFree).symm, isDir]
    have writes : (dirWriteEntries id (visible stored ++ [(name, kind, ino)])
        (middle.writeInode ino (newRaw kind))).Meets _ _ _ :=
      holdsNew.dirWriteEntries isCached _
    simp only [Pondfs.writeInode, modify_bind_apply]
    apply Outcome.Meets.bind (writes.mono (fun _ _ known => known) ?_ fun overflow =>
      ⟨ino, overflow⟩)
    · rintro _ last rewritten
      have edits : Edits id (middle.writeInode ino (newRaw kind)) last :=
        holdsNew.edits_rewritten isCached isOldDir rewritten
      exact ⟨edits.count, isNew, ino, isFree, last, rewritten, rfl⟩
    · rintro error last ⟨isError, emptied⟩
      exact .inr ⟨isError, isNew, .inr ⟨ino, isFree, emptied⟩⟩

theorem Mounted.newInode (mounted : Mounted fs nodes) (isFree : fs.FreeIno ino)
    (kind : InodeKind) :
    Mounted (fs.writeInode ino (newRaw kind)) (Function.update nodes ino (some (.empty kind))) where
  holds := mounted.holds.newInode (mounted.holds.free_of_unused isFree) isFree.notZero
    isFree.inTable kind
  catalog := mounted.catalog.addNode (mounted.holds.free_of_unused isFree) kind

theorem Mounted.edits_created {middle : FsInner} {entries : List DirEntry}
    (mounted : Mounted fs nodes) (isCached : fs.inodeCache (fs.ino id) = some id)
    (isDir : nodes (fs.ino id) = some (.dir stored)) (isFree : fs.FreeIno ino)
    (rewritten : Rewritten id entries (fs.writeInode ino (newRaw kind)) middle) :
    Edits id (fs.writeInode ino (newRaw kind)) middle := by
  apply (mounted.newInode isFree kind).holds.edits_rewritten isCached _ rewritten
  exact stored
  exact (Function.update_of_ne (mounted.holds.ne_of_free isDir isFree).symm _ _).trans isDir

theorem Mounted.stateCount_created (mounted : Mounted fs nodes)
    (isCached : fs.inodeCache (fs.ino id) = some id)
    (isDir : nodes (fs.ino id) = some (.dir stored)) (isFree : fs.FreeIno ino)
    (created : Created id (visible stored) (name, kind, ino) fs after) :
    after.stateCount = fs.stateCount + 1 := by
  rcases created with ⟨middle, rewritten, rfl⟩
  have edits := mounted.edits_created isCached isDir isFree rewritten
  exact congrArg (· + 1) edits.count

theorem Mounted.created (mounted : Mounted fs nodes)
    (isCached : fs.inodeCache (fs.ino id) = some id)
    (isDir : nodes (fs.ino id) = some (.dir stored)) (isFree : fs.FreeIno ino)
    (isNew : ∀ entry ∈ visible stored, entry.1 ≠ name)
    (created : Created id (visible stored) (name, kind, ino) fs after) :
    Mounted after (nodes.create (fs.ino id) (name, kind, ino)) := by
  rcases created with ⟨middle, rewritten, rfl⟩
  have different := mounted.holds.ne_of_free isDir isFree
  have fresh := mounted.newInode isFree kind
  have isOldDir : Function.update nodes ino (some (.empty kind)) (fs.ino id) =
      some (.dir stored) := by
    rw [Function.update_of_ne different.symm, isDir]
  have holdsMiddle : Holds middle (Function.update (Function.update nodes ino (some (.empty kind)))
      (fs.ino id) (some (.dir (visible stored ++ [(name, kind, ino)])))) :=
    fresh.holds.rewritten isCached isOldDir rewritten
  have edits := mounted.edits_created isCached isDir isFree rewritten
  have sameIno : middle.ino id = fs.ino id := edits.ino id
  have isNodes : nodes.create (fs.ino id) (name, kind, ino) =
      Function.update (Function.update nodes ino (some (.empty kind))) (fs.ino id)
        (some (.dir (visible stored ++ [(name, kind, ino)]))) := by
    rw [Nodes.create, Nodes.entries_of_dir isDir]
  have short : (name, kind, ino).1.utf8ByteSize ≤ 65535 := by
    have small := rewritten.length_le
    have fits := utf8ByteSize_le_serialize
      (List.mem_append_right (visible stored) (List.mem_singleton.mpr (Eq.refl (name, kind, ino))))
    omega
  have isValid : ValidEntry (name, kind, ino) :=
    ⟨short, Nat.lt_trans isFree.inTable (UInt64.toNat_lt _)⟩
  constructor
  · rw [isNodes]
    have cachedMiddle : middle.inodeCache (middle.ino id) = some id := by
      rw [edits.cache, sameIno]
      exact isCached
    have uncached : middle.inodeCache ino = none := by
      rw [edits.cache]
      exact mounted.holds.uncached_of_free (mounted.holds.free_of_unused isFree)
    apply (holdsMiddle.writeInode cachedMiddle).insertState uncached
    · rw [Function.update_of_ne different, Function.update_self]
      exact Option.some_ne_none _
    · rw [FsInner.diskInode_writeInode, if_neg (sameIno ▸ different),
        edits.diskInode fresh.holds.synced.geometry isFree.inTable, FsInner.diskInode_writeInode,
        if_pos rfl]
  · exact mounted.catalog.create isDir (mounted.holds.free_of_unused isFree) isValid isNew

theorem Mounted.abandoned (mounted : Mounted fs nodes)
    (isCached : fs.inodeCache (fs.ino id) = some id)
    (isDir : nodes (fs.ino id) = some (.dir stored)) (isFree : fs.FreeIno ino)
    (abandoned : Abandoned id kind ino fs after) :
    Mounted after (nodes.abandon (fs.ino id) kind ino) := by
  have fresh := mounted.newInode isFree kind
  have isOldDir : Function.update nodes ino (some (.empty kind)) (fs.ino id) =
      some (.dir stored) := by
    rw [Function.update_of_ne (mounted.holds.ne_of_free isDir isFree).symm, isDir]
  constructor
  · exact fresh.holds.emptied isCached isOldDir abandoned
  · exact mounted.catalog.abandon isDir (mounted.holds.free_of_unused isFree) kind

end Create

/-! ## Unlinking -/

def Erased (ino : Nat) (fs after : FsInner) : Prop :=
  ∃ middle, Shrunk (fs.loadedId ino) 0 12 (fs.loaded ino) middle ∧
    after = middle.dropInode ino (fs.loadedId ino)

/-- What an `unlink` that succeeds leaves behind. -/
def Removed (id : StateId) (remaining : List DirEntry) (ino : Nat) (fs after : FsInner) : Prop :=
  ∃ erased middle, Erased ino fs erased ∧ Rewritten id remaining erased middle ∧
    after = middle.flushInode id

section Unlink

variable {fs after : FsInner} {nodes : Nodes} {id : StateId} {stored remaining : List DirEntry}
  {entry : DirEntry} {name : String}

theorem Mounted.unlink_missing (mounted : Mounted fs nodes)
    (isCached : fs.inodeCache (fs.ino id) = some id)
    (isDir : nodes (fs.ino id) = some (.dir stored))
    (missing : (visible stored).find? (fun entry => entry.1 = name) = none) :
    unlink id name fs = .error .notFound fs := by
  have isKind : (fs.raw id).kind = inodeKindDir := mounted.holds.raw_kind isCached isDir
  rw [unlink, get_bind_apply, if_neg (Decidable.not_not.mpr isKind), bind_apply,
    mounted.dirReadEntries isCached isDir]
  simp only [missing]
  rfl

theorem Mounted.erased (mounted : Mounted fs nodes)
    (isCached : fs.inodeCache (fs.ino id) = some id)
    (isDir : nodes (fs.ino id) = some (.dir stored)) (member : entry ∈ visible stored)
    (erased : Erased entry.2.2 fs after) :
    Holds after (Function.update nodes entry.2.2 none) ∧ after.ino id = fs.ino id ∧
      after.inodeCache (fs.ino id) = some id ∧
      Function.update nodes entry.2.2 none (fs.ino id) = some (.dir stored) := by
  rcases erased with ⟨middle, shrunk, rfl⟩
  have isEntry : entry ∈ nodes.entries (fs.ino id) := by rwa [Nodes.entries_of_dir isDir]
  have different : fs.ino id ≠ entry.2.2 := (mounted.catalog.ne_dir isEntry).symm
  have inRange := (mounted.holds.cached isCached).1
  have loaded := mounted.holds.loaded (mounted.named isEntry)
  refine ⟨loaded.erased (fs.cache_loaded entry.2.2) shrunk, ?_, ?_, ?_⟩
  · rw [ino_dropInode, shrunk.edits.ino, FsInner.ino_loaded inRange]
  · rw [cache_dropInode, if_neg different, shrunk.edits.cache]
    exact FsInner.cache_loaded_of_cached isCached _
  · rw [Function.update_of_ne different, isDir]

theorem Holds.eraseInode {ino : Nat} (holds : Holds fs nodes)
    (isCached : fs.inodeCache ino = some id) :
    (eraseInode id fs).Meets
      (fun _ after => ∃ middle, Shrunk id 0 12 fs middle ∧
        after = middle.setRaw id (erasedRaw (middle.raw id)))
      (fun _ _ => False) False := by
  have isIno := (holds.cached isCached).2.1
  rw [Pondfs.eraseInode]
  apply Outcome.Meets.bind (holds.synced.freeSlots (Nat.le_refl 12)
    fun i hasBlock => (holds.slot (isIno.symm ▸ isCached) hasBlock).1)
  intro _ middle shrunk
  exact ⟨middle, shrunk, rfl⟩

theorem Mounted.unlink_found (mounted : Mounted fs nodes)
    (isCached : fs.inodeCache (fs.ino id) = some id)
    (isDir : nodes (fs.ino id) = some (.dir stored))
    (found : (visible stored).find? (fun entry => entry.1 = name) = some entry) :
    (unlink id name fs).Meets
      (fun _ after => Removed id ((visible stored).eraseP fun entry => entry.1 = name) entry.2.2 fs
        after)
      (fun error after => (error = .noSpace ∨ error = .unsupported) ∧
        ∃ erased, Erased entry.2.2 fs erased ∧ Emptied id erased after)
      (2 ^ 64 ≤ (serialize ((visible stored).eraseP fun entry => entry.1 = name)).length) := by
  have isKind : (fs.raw id).kind = inodeKindDir := mounted.holds.raw_kind isCached isDir
  have member := List.mem_of_find?_eq_some found
  have isNode : nodes entry.2.2 ≠ none :=
    mounted.named (show entry ∈ nodes.entries (fs.ino id) by rwa [Nodes.entries_of_dir isDir])
  rw [unlink, get_bind_apply, if_neg (Decidable.not_not.mpr isKind), bind_apply,
    mounted.dirReadEntries isCached isDir]
  simp only [found, okOr_some, pure_bind_apply]
  rw [bind_apply, mounted.holds.getOrLoad isNode]
  have erases := (mounted.holds.loaded isNode).eraseInode (fs.cache_loaded entry.2.2)
  apply Outcome.Meets.bind (erases.mono (fun _ _ known => known) (fun _ _ => False.elim) False.elim)
  rintro _ cleared ⟨middle, shrunk, rfl⟩
  have isRaw : (middle.setRaw (fs.loadedId entry.2.2) (erasedRaw (middle.raw
      (fs.loadedId entry.2.2)))).raw (fs.loadedId entry.2.2) =
      erasedRaw (middle.raw (fs.loadedId entry.2.2)) := by
    rw [FsInner.raw_setRaw, if_pos rfl]
  simp only [get_bind_apply, Pondfs.writeInode, modify_bind_apply, isRaw]
  have erased : Erased entry.2.2 fs (middle.dropInode entry.2.2 (fs.loadedId entry.2.2)) :=
    ⟨middle, shrunk, rfl⟩
  rcases mounted.erased isCached isDir member erased with ⟨holds, sameIno, cachedStill, _⟩
  apply Outcome.Meets.bind ((holds.dirWriteEntries (sameIno.symm ▸ cachedStill) _).imp_error
    fun _ _ failed => ⟨failed.1, _, erased, failed.2⟩)
  intro _ last rewritten
  exact ⟨_, last, erased, rewritten, rfl⟩

theorem Mounted.removed (mounted : Mounted fs nodes)
    (isCached : fs.inodeCache (fs.ino id) = some id)
    (isDir : nodes (fs.ino id) = some (.dir stored)) (member : entry ∈ visible stored)
    (sublist : remaining.Sublist (visible stored)) (absent : entry ∉ remaining)
    (removed : Removed id remaining entry.2.2 fs after) :
    Mounted after (nodes.remove (fs.ino id) entry.2.2 remaining) := by
  rcases removed with ⟨erased, middle, isErased, rewritten, rfl⟩
  rcases mounted.erased isCached isDir member isErased with ⟨holds, sameIno, cachedStill, isStill⟩
  rw [← sameIno] at cachedStill isStill
  have edits := holds.edits_rewritten cachedStill isStill rewritten
  have ends := holds.rewritten cachedStill isStill rewritten
  rw [sameIno] at ends
  constructor
  · apply ends.writeInode
    rw [edits.cache, edits.ino, cachedStill]
  · exact mounted.catalog.remove isDir member sublist absent

theorem Mounted.removal_failed {erased : FsInner} (mounted : Mounted fs nodes)
    (isCached : fs.inodeCache (fs.ino id) = some id)
    (isDir : nodes (fs.ino id) = some (.dir stored)) (member : entry ∈ visible stored)
    (isErased : Erased entry.2.2 fs erased) (emptied : Emptied id erased after) :
    Mounted after (nodes.remove (fs.ino id) entry.2.2 []) := by
  rcases mounted.erased isCached isDir member isErased with ⟨holds, sameIno, cachedStill, isStill⟩
  rw [← sameIno] at cachedStill isStill
  have ends := holds.emptied cachedStill isStill emptied
  rw [sameIno] at ends
  exact ⟨ends, mounted.catalog.remove isDir member (List.nil_sublist _) List.not_mem_nil⟩

end Unlink

end PersonaOS.Fs.Pondfs
