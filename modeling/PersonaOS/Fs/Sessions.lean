import PersonaOS.Foundation.Trace
import PersonaOS.Fs.Calls

/-! # Sessions on a mounted volume

A session issues calls on the handles it has obtained so far. `Succeeds` and `Fails` list
what a call can do to the volume and its catalog. Whatever it does, the volume stays
mounted: all its handles have a state and the catalog stays in order. -/

namespace PersonaOS.Fs.Pondfs

open Program

/-! ## The effects of calls -/

section Effects

/-- What a method that returns does to the file system and its inodes. -/
inductive Succeeds (fs : FsInner) (nodes : Nodes) (id : StateId) : Method → FsInner → Nodes → Prop
  | kind : Succeeds fs nodes id .kind fs nodes
  | stat : Succeeds fs nodes id .stat fs nodes
  | readAt {off len : Nat} : Succeeds fs nodes id (.readAt off len) fs nodes
  | readdir : Succeeds fs nodes id .readdir fs nodes
  | lookup {name : String} {stored : List DirEntry} {entry : DirEntry}
      (isCached : fs.inodeCache (fs.ino id) = some id)
      (isDir : nodes (fs.ino id) = some (.dir stored))
      (found : (visible stored).find? (fun entry => entry.1 = name) = some entry) :
      Succeeds fs nodes id (.lookup name) (fs.loaded entry.2.2) nodes
  | writeAt {off : Nat} {buf bytes : List UInt8} {middle : FsInner}
      (isCached : fs.inodeCache (fs.ino id) = some id)
      (isFile : nodes (fs.ino id) = some (.file bytes)) (written : Written id off buf fs middle) :
      Succeeds fs nodes id (.writeAt off buf) (middle.flushInode id)
        (Function.update nodes (fs.ino id) (some (.file (splice bytes off buf))))
  | create {name : String} {kind : InodeKind} {stored : List DirEntry} {ino : Nat} {after : FsInner}
      (isCached : fs.inodeCache (fs.ino id) = some id)
      (isDir : nodes (fs.ino id) = some (.dir stored)) (isFree : fs.FreeIno ino)
      (isNew : ∀ entry ∈ visible stored, entry.1 ≠ name)
      (created : Created id (visible stored) (name, kind, ino) fs after) :
      Succeeds fs nodes id (.create name kind) after (nodes.create (fs.ino id) (name, kind, ino))
  | unlink {name : String} {stored : List DirEntry} {entry : DirEntry} {after : FsInner}
      (isCached : fs.inodeCache (fs.ino id) = some id)
      (isDir : nodes (fs.ino id) = some (.dir stored))
      (found : (visible stored).find? (fun entry => entry.1 = name) = some entry)
      (removed : Removed id ((visible stored).eraseP fun entry => entry.1 = name) entry.2.2 fs
        after) :
      Succeeds fs nodes id (.unlink name) after (nodes.remove (fs.ino id) entry.2.2
        ((visible stored).eraseP fun entry => entry.1 = name))

/-- What a method that fails leaves behind. -/
inductive Fails (fs : FsInner) (nodes : Nodes) (id : StateId) : Method → FsInner → Nodes → Prop
  | same {method : Method} : Fails fs nodes id method fs nodes
  | writeAt {off : Nat} {buf : List UInt8} {after : FsInner}
      (isCached : fs.inodeCache (fs.ino id) = some id) (grown : Grown id fs after) :
      Fails fs nodes id (.writeAt off buf) after nodes
  | create {name : String} {kind : InodeKind} {stored : List DirEntry} {ino : Nat} {after : FsInner}
      (isCached : fs.inodeCache (fs.ino id) = some id)
      (isDir : nodes (fs.ino id) = some (.dir stored)) (isFree : fs.FreeIno ino)
      (abandoned : Abandoned id kind ino fs after) :
      Fails fs nodes id (.create name kind) after (nodes.abandon (fs.ino id) kind ino)
  | unlink {name : String} {stored : List DirEntry} {entry : DirEntry} {erased after : FsInner}
      (isCached : fs.inodeCache (fs.ino id) = some id)
      (isDir : nodes (fs.ino id) = some (.dir stored))
      (found : (visible stored).find? (fun entry => entry.1 = name) = some entry)
      (isErased : Erased entry.2.2 fs erased) (emptied : Emptied id erased after) :
      Fails fs nodes id (.unlink name) after (nodes.remove (fs.ino id) entry.2.2 [])

variable {fs after : FsInner} {nodes next : Nodes} {id : StateId} {method : Method}

theorem Catalog.not_mem_eraseP (catalog : Catalog nodes) {dir : Nat} {stored : List DirEntry}
    {name : String} {entry : DirEntry} (isDir : nodes dir = some (.dir stored))
    (found : (visible stored).find? (fun entry => entry.1 = name) = some entry) :
    entry ∉ (visible stored).eraseP fun entry => entry.1 = name := by
  have distinct := catalog.names dir
  rw [Nodes.entries_of_dir isDir] at distinct
  intro again
  exact ne_of_mem_eraseP distinct again (name_of_find found)

theorem Succeeds.mounted (succeeds : Succeeds fs nodes id method after next)
    (mounted : Mounted fs nodes) : Mounted after next := by
  cases succeeds with
  | kind => exact mounted
  | stat => exact mounted
  | readAt => exact mounted
  | readdir => exact mounted
  | lookup isCached isDir found =>
    have member := List.mem_of_find?_eq_some found
    rw [← Nodes.entries_of_dir isDir] at member
    exact ⟨mounted.holds.loaded (mounted.named member), mounted.catalog⟩
  | writeAt isCached isFile written =>
    have edits := mounted.holds.edits_written isCached written
    refine ⟨(mounted.holds.written_file isCached isFile written).writeInode ?_,
      mounted.catalog.setBytes isFile _⟩
    rw [edits.cache, edits.ino, isCached]
  | create isCached isDir isFree isNew created =>
    exact mounted.created isCached isDir isFree isNew created
  | unlink isCached isDir found removed =>
    exact mounted.removed isCached isDir (List.mem_of_find?_eq_some found) List.eraseP_sublist
      (mounted.catalog.not_mem_eraseP isDir found) removed

theorem Fails.mounted (fails : Fails fs nodes id method after next)
    (mounted : Mounted fs nodes) : Mounted after next := by
  cases fails with
  | same => exact mounted
  | writeAt isCached grown => exact ⟨mounted.holds.grown isCached grown, mounted.catalog⟩
  | create isCached isDir isFree abandoned =>
    exact mounted.abandoned isCached isDir isFree abandoned
  | unlink isCached isDir found isErased emptied =>
    exact mounted.removal_failed isCached isDir (List.mem_of_find?_eq_some found) isErased emptied

theorem Mounted.stateCount_removed (mounted : Mounted fs nodes)
    (isCached : fs.inodeCache (fs.ino id) = some id) {stored remaining : List DirEntry}
    {entry : DirEntry} (isDir : nodes (fs.ino id) = some (.dir stored))
    (member : entry ∈ visible stored) (removed : Removed id remaining entry.2.2 fs after) :
    fs.stateCount ≤ after.stateCount := by
  rcases removed with ⟨erased, middle, isErased, rewritten, rfl⟩
  rcases mounted.erased isCached isDir member isErased with ⟨holds, sameIno, cachedStill, isStill⟩
  rw [← sameIno] at cachedStill isStill
  have rewrites : middle.stateCount = erased.stateCount :=
    (holds.edits_rewritten cachedStill isStill rewritten).count
  rcases isErased with ⟨dropped, shrunk, rfl⟩
  have drops : dropped.stateCount = (fs.loaded entry.2.2).stateCount := shrunk.edits.count
  exact Nat.le_trans (fs.stateCount_loaded entry.2.2) (Nat.le_of_eq (rewrites.trans drops).symm)

theorem Succeeds.stateCount_le (succeeds : Succeeds fs nodes id method after next)
    (mounted : Mounted fs nodes) : fs.stateCount ≤ after.stateCount := by
  cases succeeds with
  | kind => exact Nat.le_refl _
  | stat => exact Nat.le_refl _
  | readAt => exact Nat.le_refl _
  | readdir => exact Nat.le_refl _
  | lookup isCached isDir found => exact fs.stateCount_loaded _
  | writeAt isCached isFile written =>
    exact Nat.le_of_eq (mounted.holds.edits_written isCached written).count.symm
  | create isCached isDir isFree isNew created =>
    rw [mounted.stateCount_created isCached isDir isFree created]
    exact Nat.le_succ _
  | unlink isCached isDir found removed =>
    exact mounted.stateCount_removed isCached isDir (List.mem_of_find?_eq_some found) removed

theorem Fails.stateCount_le (fails : Fails fs nodes id method after next) :
    fs.stateCount ≤ after.stateCount := by
  cases fails with
  | same => exact Nat.le_refl _
  | writeAt isCached grown => exact Nat.le_of_eq grown.edits.count.symm
  | create isCached isDir isFree abandoned =>
    exact Nat.le_of_eq (Emptied.edits abandoned).count.symm
  | unlink isCached isDir found isErased emptied =>
    rcases isErased with ⟨dropped, shrunk, rfl⟩
    have drops : after.stateCount = (fs.loaded _).stateCount :=
      emptied.edits.count.trans shrunk.edits.count
    rw [drops]
    exact fs.stateCount_loaded _

end Effects

/-! ## Performing calls -/

/-- The session is one of a mounted file system with these inodes. -/
structure Serves (session : Session FsInner StateId) (nodes : Nodes) : Prop where
  mounted : Mounted session.fs nodes
  handles : ∀ id ∈ session.handles, id < session.fs.stateCount

section Perform

variable {session : Session FsInner StateId} {fs : FsInner} {nodes : Nodes} {id : StateId}

theorem onFs_meets {α : Type} {program : Program FsInner FsError α}
    {ok : α → FsInner → Prop} {error : FsError → FsInner → Prop} {panics : Prop}
    (meets : (program session.fs).Meets ok error panics) :
    (Inode.onFs program session).Meets
      (fun value after => ok value after.fs ∧ after.handles = session.handles)
      (fun fault after => error fault after.fs ∧ after.handles = session.handles) panics := by
  rw [Inode.onFs]
  cases ended : program session.fs with
  | ok value after =>
    rw [ended] at meets
    exact ⟨meets, rfl⟩
  | error fault after =>
    rw [ended] at meets
    exact ⟨meets, rfl⟩
  | panic =>
    rw [ended] at meets
    exact meets

def Performed (session : Session FsInner StateId) (nodes : Nodes) (id : StateId) (method : Method)
    (after : Session FsInner StateId) : Prop :=
  ∃ next, Succeeds session.fs nodes id method after.fs next ∧
    (after.handles = session.handles ∨
      ∃ child < after.fs.stateCount, after.handles = session.handles ++ [child])

def Failed (session : Session FsInner StateId) (nodes : Nodes) (id : StateId) (method : Method)
    (after : Session FsInner StateId) : Prop :=
  ∃ next, Fails session.fs nodes id method after.fs next ∧ after.handles = session.handles

theorem performed_of_meets {α : Type} {program : Program FsInner FsError α} {method : Method}
    {reply : α → Reply}
    (meets : (program session.fs).Meets
      (fun _ after => ∃ next, Succeeds session.fs nodes id method after next)
      (fun _ after => ∃ next, Fails session.fs nodes id method after next) True) :
    ((do let value ← Inode.onFs program; return reply value :
      Program (Session FsInner StateId) FsError Reply) session).Meets
      (fun _ after => Performed session nodes id method after)
      (fun _ after => Failed session nodes id method after) True := by
  apply Outcome.Meets.bind ((onFs_meets meets).mono (fun _ _ known => known) _ fun _ => trivial)
  · rintro value after ⟨⟨next, succeeds⟩, sameHandles⟩
    exact ⟨next, succeeds, .inl sameHandles⟩
  · rintro _ after ⟨⟨next, fails⟩, sameHandles⟩
    exact ⟨next, fails, sameHandles⟩

theorem performed_of_handle {program : Program FsInner FsError StateId} {method : Method}
    (meets : (program session.fs).Meets
      (fun child after => child < after.stateCount ∧
        ∃ next, Succeeds session.fs nodes id method after next)
      (fun _ after => ∃ next, Fails session.fs nodes id method after next) True) :
    ((do let child ← Inode.onFs program; Inode.keepHandle child :
      Program (Session FsInner StateId) FsError Reply) session).Meets
      (fun _ after => Performed session nodes id method after)
      (fun _ after => Failed session nodes id method after) True := by
  apply Outcome.Meets.bind ((onFs_meets meets).mono (fun _ _ known => known) _ fun _ => trivial)
  · rintro child after ⟨⟨inRange, next, succeeds⟩, sameHandles⟩
    exact ⟨next, succeeds, .inr ⟨child, inRange, by rw [← sameHandles]⟩⟩
  · rintro _ after ⟨⟨next, fails⟩, sameHandles⟩
    exact ⟨next, fails, sameHandles⟩

theorem Mounted.writeAt_effect (mounted : Mounted fs nodes) (inRange : id < fs.stateCount)
    (off : Nat) (buf : List UInt8) :
    (writeAt id off buf fs).Meets
      (fun _ after => ∃ next, Succeeds fs nodes id (.writeAt off buf) after next)
      (fun _ after => ∃ next, Fails fs nodes id (.writeAt off buf) after next) True := by
  by_cases isKind : (fs.raw id).kind = inodeKindFile
  · rcases mounted.holds.isFile inRange isKind with ⟨isCached, bytes, isFile⟩
    apply (mounted.holds.writeAt isKind off buf).mono
    · rintro _ after ⟨_, middle, written, rfl⟩
      exact ⟨_, .writeAt isCached isFile written⟩
    · rintro _ after ⟨_, grown⟩
      exact ⟨_, .writeAt isCached grown⟩
    · exact fun _ => trivial
  · rw [writeAt_of_ne isKind]
    exact ⟨_, .same⟩

theorem Mounted.lookup_effect (mounted : Mounted fs nodes) (inRange : id < fs.stateCount)
    (name : String) :
    (lookup id name fs).Meets
      (fun child after => child < after.stateCount ∧
        ∃ next, Succeeds fs nodes id (.lookup name) after next)
      (fun _ after => ∃ next, Fails fs nodes id (.lookup name) after next) True := by
  by_cases isKind : (fs.raw id).kind = inodeKindDir
  · rcases mounted.holds.isDir inRange isKind with ⟨isCached, stored, isDir⟩
    cases found : (visible stored).find? (fun entry => entry.1 = name) with
    | none =>
      rw [mounted.lookup_missing isCached isDir found]
      exact ⟨_, .same⟩
    | some entry =>
      have succeeds : Succeeds fs nodes id (.lookup name) (fs.loaded entry.2.2) nodes :=
        .lookup isCached isDir found
      have after := (succeeds.mounted mounted).holds.cached (fs.cache_loaded entry.2.2)
      rw [mounted.lookup_found isCached isDir found]
      exact ⟨after.1, _, succeeds⟩
  · rw [lookup_of_ne isKind]
    exact ⟨_, .same⟩

theorem Mounted.readdir_effect (mounted : Mounted fs nodes) (inRange : id < fs.stateCount) :
    (Pondfs.readdir id fs).Meets
      (fun _ after => ∃ next, Succeeds fs nodes id .readdir after next)
      (fun _ after => ∃ next, Fails fs nodes id .readdir after next) True := by
  by_cases isKind : (fs.raw id).kind = inodeKindDir
  · rcases mounted.holds.isDir inRange isKind with ⟨isCached, stored, isDir⟩
    rw [mounted.readdir isCached isDir]
    exact ⟨_, .readdir⟩
  · rw [readdir_of_ne isKind]
    exact ⟨_, .same⟩

theorem Mounted.create_effect (mounted : Mounted fs nodes) (inRange : id < fs.stateCount)
    (name : String) (kind : InodeKind) :
    (Pondfs.create id name kind fs).Meets
      (fun child after => child < after.stateCount ∧
        ∃ next, Succeeds fs nodes id (.create name kind) after next)
      (fun _ after => ∃ next, Fails fs nodes id (.create name kind) after next) True := by
  by_cases isKind : (fs.raw id).kind = inodeKindDir
  · rcases mounted.holds.isDir inRange isKind with ⟨isCached, stored, isDir⟩
    apply (mounted.create isCached isDir).mono
    · rintro child after ⟨rfl, isNew, ino, isFree, created⟩
      refine ⟨?_, _, .create isCached isDir isFree isNew created⟩
      rw [mounted.stateCount_created isCached isDir isFree created]
      exact Nat.lt_succ_self _
    · rintro _ after (⟨_, _, rfl⟩ | ⟨_, _, ⟨_, rfl⟩ | ⟨ino, isFree, abandoned⟩⟩)
      · exact ⟨_, .same⟩
      · exact ⟨_, .same⟩
      · exact ⟨_, .create isCached isDir isFree abandoned⟩
    · exact fun _ => trivial
  · rw [create_of_ne isKind]
    exact ⟨_, .same⟩

theorem Mounted.unlink_effect (mounted : Mounted fs nodes) (inRange : id < fs.stateCount)
    (name : String) :
    (unlink id name fs).Meets
      (fun _ after => ∃ next, Succeeds fs nodes id (.unlink name) after next)
      (fun _ after => ∃ next, Fails fs nodes id (.unlink name) after next) True := by
  by_cases isKind : (fs.raw id).kind = inodeKindDir
  · rcases mounted.holds.isDir inRange isKind with ⟨isCached, stored, isDir⟩
    cases found : (visible stored).find? (fun entry => entry.1 = name) with
    | none =>
      rw [mounted.unlink_missing isCached isDir found]
      exact ⟨_, .same⟩
    | some entry =>
      apply (mounted.unlink_found isCached isDir found).mono
      · intro _ after removed
        exact ⟨_, .unlink isCached isDir found removed⟩
      · rintro _ after ⟨_, erased, isErased, emptied⟩
        exact ⟨_, .unlink isCached isDir found isErased emptied⟩
      · exact fun _ => trivial
  · rw [unlink_of_ne isKind]
    exact ⟨_, .same⟩

theorem Mounted.invoke (mounted : Mounted session.fs nodes) (inRange : id < session.fs.stateCount)
    (method : Method) :
    (inode.invoke id method session).Meets
      (fun _ after => Performed session nodes id method after)
      (fun _ after => Failed session nodes id method after) True := by
  cases method with
  | kind => exact ⟨nodes, .kind, .inl rfl⟩
  | stat => exact ⟨nodes, .stat, .inl rfl⟩
  | readAt off len =>
    apply performed_of_meets
    apply (readAt_state session.fs id off len).mono
    · rintro _ _ rfl
      exact ⟨nodes, .readAt⟩
    · rintro _ _ rfl
      exact ⟨nodes, .same⟩
    · exact fun _ => trivial
  | writeAt off buf => exact performed_of_meets (mounted.writeAt_effect inRange off buf)
  | lookup name => exact performed_of_handle (mounted.lookup_effect inRange name)
  | readdir => exact performed_of_meets (mounted.readdir_effect inRange)
  | create name kind => exact performed_of_handle (mounted.create_effect inRange name kind)
  | unlink name => exact performed_of_meets (mounted.unlink_effect inRange name)

theorem Performed.serves {method : Method} {after : Session FsInner StateId}
    (performed : Performed session nodes id method after) (serves : Serves session nodes) :
    ∃ next, Succeeds session.fs nodes id method after.fs next ∧ Serves after next ∧
      ∃ more, after.handles = session.handles ++ more := by
  rcases performed with ⟨next, succeeds, handles⟩
  have grows := succeeds.stateCount_le serves.mounted
  have extends_ : ∃ more, after.handles = session.handles ++ more := by
    rcases handles with same | ⟨child, _, more⟩
    · exact ⟨[], by rw [same, List.append_nil]⟩
    · exact ⟨[child], more⟩
  refine ⟨next, succeeds, ⟨succeeds.mounted serves.mounted, ?_⟩, extends_⟩
  intro other isHandle
  rcases handles with same | ⟨child, inRange, more⟩
  · rw [same] at isHandle
    exact Nat.lt_of_lt_of_le (serves.handles other isHandle) grows
  · rw [more] at isHandle
    rcases List.mem_append.mp isHandle with isOld | isNew
    · exact Nat.lt_of_lt_of_le (serves.handles other isOld) grows
    · rwa [List.mem_singleton.mp isNew]

theorem Failed.serves {method : Method} {after : Session FsInner StateId}
    (failed : Failed session nodes id method after) (serves : Serves session nodes) :
    ∃ next, Serves after next := by
  rcases failed with ⟨next, fails, handles⟩
  refine ⟨next, fails.mounted serves.mounted, ?_⟩
  intro other isHandle
  rw [handles] at isHandle
  exact Nat.lt_of_lt_of_le (serves.handles other isHandle) fails.stateCount_le

theorem perform_of_none {call : Call} (missing : session.handles[call.handle]? = none) :
    inode.perform call session = .error .badFd session := by
  rw [Inode.perform, get_bind_apply, missing]
  rfl

theorem perform_of_some {call : Call} (isHandle : session.handles[call.handle]? = some id) :
    inode.perform call session = inode.invoke id call.method session := by
  rw [Inode.perform, get_bind_apply, isHandle]
  rfl

theorem Serves.perform (serves : Serves session nodes) (call : Call) :
    (inode.perform call session).Meets (fun _ after => ∃ next, Serves after next)
      (fun _ after => ∃ next, Serves after next) True := by
  cases isHandle : session.handles[call.handle]? with
  | none =>
    rw [perform_of_none isHandle]
    exact ⟨nodes, serves⟩
  | some handle =>
    have inRange := serves.handles handle (List.mem_of_getElem? isHandle)
    rw [perform_of_some isHandle]
    exact (serves.mounted.invoke inRange call.method).mono
      (fun _ _ performed => (performed.serves serves).imp fun _ known => known.2.1)
      (fun _ _ failed => failed.serves serves) fun known => known

end Perform

end PersonaOS.Fs.Pondfs
