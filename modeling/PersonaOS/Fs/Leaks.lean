import PersonaOS.Fs.Remount

/-! # What stays behind

`unlink` gives back the blocks of the inode it unlinks and the inode itself, but it does not
look into a directory: what was below stays in use and cannot be reached any more. An entry
with an empty name hides itself and every entry behind it, so the inode of such a `create`
is lost as well. As long as neither happens, an inode is in use just if it can be reached
from the root. -/

namespace PersonaOS.Fs.Pondfs

open Program

/-- The inodes that directory entries lead to from the root. -/
inductive Linked (fs : FsInner) : Nat → Prop
  | root : Linked fs rootIno
  | entry {dir : Nat} {entries : List DirEntry} {entry : DirEntry} (linked : Linked fs dir)
      (isDir : (fs.record dir).kind = inodeKindDir)
      (reads : dirReadEntries (fs.record dir) fs = .ok entries fs) (member : entry ∈ entries) :
      Linked fs entry.2.2

def FsInner.InUse (fs : FsInner) (ino : Nat) : Prop :=
  ino < fs.inodeCount ∧
    ((fs.record ino).kind = inodeKindFile ∨ (fs.record ino).kind = inodeKindDir)

section Links

variable {fs : FsInner} {nodes : Nodes} {ino : Nat}

theorem kindCode_cases (kind : InodeKind) :
    kindCode kind = inodeKindFile ∨ kindCode kind = inodeKindDir := by
  cases kind with
  | file => exact .inl rfl
  | dir => exact .inr rfl

theorem Holds.inUse (holds : Holds fs nodes) : fs.InUse ino ↔ nodes ino ≠ none := by
  constructor
  · rintro ⟨inTable, isKind⟩ isFree
    rw [(holds.free inTable isFree).1] at isKind
    rcases isKind with isFile | isDir
    · cases isFile
    · cases isDir
  · intro known
    rcases Option.ne_none_iff_exists'.mp known with ⟨node, isNode⟩
    refine ⟨holds.inTable known, ?_⟩
    rw [holds.kind isNode]
    exact kindCode_cases node.kind

theorem Mounted.read_record {stored : List DirEntry} (mounted : Mounted fs nodes)
    (isDir : nodes ino = some (.dir stored)) :
    Pondfs.dirReadEntries (fs.record ino) fs = .ok (visible stored) fs := by
  have begins : Begins fs.dev (fs.record ino) (serialize stored) := mounted.holds.contents isDir
  exact begins.dirReadEntries (mounted.catalog.valid isDir)

theorem Mounted.isNode_of_reach (mounted : Mounted fs nodes) (reach : Reach nodes ino) :
    nodes ino ≠ none := by
  cases reach with
  | root =>
    rcases mounted.catalog.root with ⟨stored, isRoot⟩
    exact isRoot ▸ Option.some_ne_none _
  | entry _ member => exact mounted.named member

theorem Mounted.linked (mounted : Mounted fs nodes) : Linked fs ino ↔ Reach nodes ino := by
  constructor
  · intro linked
    induction linked with
    | root => exact .root
    | @entry dir entries entry _ isKind reads member induction =>
      rcases Option.ne_none_iff_exists'.mp (mounted.isNode_of_reach induction) with ⟨node, known⟩
      rw [mounted.holds.kind known] at isKind
      rcases kindCode_dir isKind with ⟨stored, rfl⟩
      rw [mounted.read_record known] at reads
      cases reads
      exact induction.entry (by rwa [Nodes.entries_of_dir known])
  · intro reach
    induction reach with
    | root => exact .root
    | @entry dir entry reach member induction =>
      rcases Option.ne_none_iff_exists'.mp (mounted.isNode_of_reach reach) with ⟨node, known⟩
      cases node with
      | file bytes =>
        rw [Nodes.entries, known] at member
        cases member
      | dir stored =>
        rw [Nodes.entries_of_dir known] at member
        exact induction.entry (mounted.holds.kind known) (mounted.read_record known) member

end Links

/-! ## Tidy runs -/

/-- The method neither creates an entry without a name nor unlinks a directory that has
entries. -/
def TidyMethod (fs : FsInner) (id : StateId) : Method → Prop
  | .create name _ => name ≠ ""
  | .unlink name => ∀ child loaded, lookup id name fs = .ok child loaded →
      kind child loaded = .file ∨ readdir child loaded = .ok [] loaded
  | _ => True

def Tidy (session : Session FsInner StateId) (call : Call) : Prop :=
  ∀ id, session.handles[call.handle]? = some id → TidyMethod session.fs id call.method

def TidyRun (img : Disk) (size : UInt64) (src : Mkpondfs.SourceDir) (calls : List Call)
    (session : Session FsInner StateId) : Prop :=
  ∃ first, start? img size src = some first ∧
    Trace (fun current call next => Works current call next ∧ Tidy current call) first calls session

section TidyRuns

variable {session : Session FsInner StateId} {nodes next : Nodes} {id : StateId}

theorem Mounted.leaf_of_tidy {fs : FsInner} {stored : List DirEntry} {name : String}
    {entry : DirEntry} (mounted : Mounted fs nodes) (opens : OpensDir fs nodes id stored)
    (found : (visible stored).find? (fun entry => entry.1 = name) = some entry)
    (tidy : TidyMethod fs id (.unlink name)) : nodes.entries entry.2.2 = [] := by
  have member := List.mem_of_find?_eq_some found
  have isName := name_of_find found
  rcases entry with ⟨entryName, entryKind, ino⟩
  rcases isName with rfl
  rcases mounted.lookup_entry opens member with ⟨looks, loaded, isCached, isIno⟩
  have isEntry : (entryName, entryKind, ino) ∈ nodes.entries (fs.ino id) := by
    rwa [Nodes.entries_of_dir opens.isDir]
  rcases Option.ne_none_iff_exists'.mp (mounted.named isEntry) with ⟨node, isNode⟩
  cases node with
  | file bytes =>
    rw [Nodes.entries, isNode]
    rfl
  | dir below =>
    have isDir : nodes ((fs.loaded ino).ino (fs.loadedId ino)) = some (.dir below) := by
      rw [isIno, isNode]
    rw [Nodes.entries_of_dir isNode]
    rcases tidy _ _ looks with isFile | isEmpty
    · rw [loaded.holds.kind_eq isCached isDir] at isFile
      cases isFile
    · rw [loaded.readdir isCached isDir] at isEmpty
      exact List.map_eq_nil_iff.mp (Outcome.ok.inj isEmpty).1

theorem Succeeds.reached {fs last : FsInner} {method : Method}
    (succeeds : Succeeds fs nodes id method last next) (mounted : Mounted fs nodes)
    (tidy : TidyMethod fs id method) (reached : nodes.Reached) : next.Reached := by
  cases succeeds with
  | kind => exact reached
  | stat => exact reached
  | readAt => exact reached
  | readdir => exact reached
  | lookup isCached isDir found => exact reached
  | writeAt isCached isFile written => exact reached.setBytes isFile _
  | create isCached isDir isFree isNew created =>
    apply reached.create isDir (mounted.holds.free_of_unused isFree)
    exact Nat.pos_of_ne_zero fun isZero => tidy (String.utf8ByteSize_eq_zero_iff.mp isZero)
  | @unlink name stored entry _ isCached isDir found removed =>
    have member := List.mem_of_find?_eq_some found
    have isEntry : entry ∈ nodes.entries (fs.ino id) := by rwa [Nodes.entries_of_dir isDir]
    apply reached.remove isEntry (mounted.catalog.ne_dir isEntry)
    · exact mounted.leaf_of_tidy ⟨isCached, isDir⟩ found tidy
    · exact visible_of_sublist List.eraseP_sublist
    · intro other isOther different
      rw [Nodes.entries_of_dir isDir] at isOther
      apply mem_eraseP_of_ne isOther
      intro sameName
      have distinct := mounted.catalog.names (fs.ino id)
      rw [Nodes.entries_of_dir isDir] at distinct
      exact different (List.inj_on_of_nodup_map distinct isOther member
        (sameName.trans (name_of_find found).symm))

theorem TidyRun.reached {img : Disk} {size : UInt64} {src : Mkpondfs.SourceDir} {calls : List Call}
    (run : TidyRun img size src calls session) :
    ∃ nodes, Settled session nodes ∧ nodes.Reached := by
  rcases run with ⟨first, starts, trace⟩
  rcases start?_eq_some starts with ⟨nodes, _, handles, serves, _, _, durable, reached⟩
  have settled : Settled first nodes := ⟨serves, durable, by rw [handles]; rfl⟩
  apply trace.invariant (fun session => ∃ nodes, Settled session nodes ∧ nodes.Reached) _
    ⟨nodes, settled, reached⟩
  rintro current call after ⟨nodes, settled, reached⟩ ⟨works, tidy⟩
  rcases settled.works works with ⟨next, settledNext, effect⟩
  refine ⟨next, settledNext, ?_⟩
  rcases effect with ⟨_, rfl⟩ | ⟨id, isHandle, succeeds⟩
  · exact reached
  · exact succeeds.reached settled.serves.mounted (tidy id isHandle) reached

/-- After tidy changes that all returned, the inodes in use are those that can be reached
from the root, and the blocks taken are those they refer to. -/
theorem tidy_leaves_nothing (img : Disk) (size : UInt64) (src : Mkpondfs.SourceDir)
    (calls : List Call) (session : Session FsInner StateId)
    (run : TidyRun img size src calls session) :
    (∀ ino, session.fs.InUse ino ↔ Linked session.fs ino) ∧
    (∀ blk, session.fs.Taken blk ↔ blk ≠ 0 ∧
      ∃ ino, session.fs.InUse ino ∧ ∃ i, (session.fs.record ino).slot i = blk) ∧
    ∀ ino, session.fs.record ino = session.fs.diskInode ino := by
  rcases run.reached with ⟨nodes, settled, reached⟩
  have mounted := settled.serves.mounted
  have holds := mounted.holds
  refine ⟨?_, ?_, settled.durable.flushed.record⟩
  · intro ino
    rw [holds.inUse, mounted.linked]
    exact ⟨reached ino, mounted.isNode_of_reach⟩
  · intro blk
    constructor
    · intro taken
      rcases holds.ledger.complete taken with ⟨slot, refers⟩
      refine ⟨refers.2.1, slot.1, ?_, slot.2, refers.2.2⟩
      rw [holds.inUse]
      intro isFree
      exact refers.2.1 (refers.2.2 ▸ (holds.free refers.1 isFree).2 slot.2)
    · rintro ⟨notZero, ino, inUse, i, isBlock⟩
      have refers : session.fs.Refers (ino, i) blk := ⟨inUse.1, notZero, isBlock⟩
      exact holds.ledger.taken refers

/-- The session on `smallSource` in which a file is created and written to. -/
def written? : Option (Session FsInner StateId) :=
  (start? (fun _ => Block.zero) 262144 smallSource).bind
    (returns? · [⟨0, .create "x" .file⟩, ⟨1, .writeAt 0 [65]⟩])

theorem written?_unlinks :
    written?.map (fun session => (session.handles, (do
      let child ← lookup 0 "x"
      let fs ← get
      return kind child fs : Program FsInner FsError InodeKind) session.fs |>.value?,
      (returns? session [⟨0, .unlink "x"⟩]).isSome)) = some ([0, 1], some .file, true) := by
  decide +kernel

/-- A file is created, written and unlinked on an image of 64 blocks. -/
theorem tidy_leaves_nothing_unlinked :
    ∃ session, TidyRun (fun _ => Block.zero) 262144 smallSource
        [⟨0, .create "x" .file⟩, ⟨1, .writeAt 0 [65]⟩, ⟨0, .unlink "x"⟩] session ∧
      ∀ ino, session.fs.InUse ino ↔ Linked session.fs ino := by
  rcases Option.map_eq_some_iff.mp written?_unlinks with ⟨middle, isMiddle, facts⟩
  rcases Option.bind_eq_some_iff.mp isMiddle with ⟨first, starts, returns⟩
  simp only [Prod.mk.injEq] at facts
  rcases facts with ⟨handles, isFile, unlinks⟩
  rcases Option.isSome_iff_exists.mp unlinks with ⟨session, isSession⟩
  have tidy : Tidy middle ⟨0, .unlink "x"⟩ := by
    intro id isHandle child loaded found
    rw [handles] at isHandle
    cases isHandle
    rw [bind_apply, found] at isFile
    exact .inl (Option.some.inj isFile)
  cases trace_of_returns? returns with
  | cons creates rest =>
    cases rest with
    | cons writes rest =>
      cases rest
      cases trace_of_returns? isSession with
      | cons unlinks rest =>
        cases rest
        have run : TidyRun (fun _ => Block.zero) 262144 smallSource
            [⟨0, .create "x" .file⟩, ⟨1, .writeAt 0 [65]⟩, ⟨0, .unlink "x"⟩] session :=
          ⟨first, starts, .cons ⟨creates, fun _ _ => (by decide : "x" ≠ "")⟩
            (.cons ⟨writes, fun _ _ => trivial⟩ (.single ⟨unlinks, tidy⟩))⟩
        exact ⟨session, run, (tidy_leaves_nothing _ _ _ _ session run).1⟩

/-- The session on `smallSource` in which the directory is unlinked. -/
def unlinked? : Option (Session FsInner StateId) :=
  (start? (fun _ => Block.zero) 262144 smallSource).bind (returns? · [⟨0, .unlink "b"⟩])

theorem unlinked?_kinds :
    unlinked?.map (fun session => (decide (4 < session.fs.inodeCount), (session.fs.record 4).kind,
      (session.fs.record 2).kind)) = some (true, inodeKindFile, inodeKindFile) := by
  decide +kernel

theorem unlinked?_entries :
    unlinked?.map (fun session => (dirReadEntries (session.fs.record rootIno) session.fs).value?) =
      some (some [("a", .file, 2)]) := by
  decide +kernel

/-- Unlinking a directory that has a file leaves the file's inode in use, out of reach. -/
theorem unlink_leaks_children :
    ∃ session, WorkingRun (fun _ => Block.zero) 262144 smallSource [⟨0, .unlink "b"⟩] session ∧
      session.fs.InUse 4 ∧ ¬ Linked session.fs 4 := by
  rcases Option.map_eq_some_iff.mp unlinked?_kinds with ⟨session, isSession, kinds⟩
  rcases Option.bind_eq_some_iff.mp isSession with ⟨first, starts, returns⟩
  have entries := unlinked?_entries
  rw [isSession, Option.map_some, Option.some.injEq] at entries
  simp only [Prod.mk.injEq, decide_eq_true_eq] at kinds
  rcases kinds with ⟨inTable, isFile, otherFile⟩
  have reachable : ∀ {ino}, Linked session.fs ino → ino = rootIno ∨ ino = 2 := by
    intro ino linked
    induction linked with
    | root => exact .inl rfl
    | @entry dir listed entry _ isDir reads member induction =>
      rcases induction with rfl | rfl
      · rw [reads] at entries
        rcases Option.some.inj entries with rfl
        rw [List.mem_singleton.mp member]
        exact .inr rfl
      · rw [otherFile] at isDir
        cases isDir
  refine ⟨session, ⟨first, starts, trace_of_returns? returns⟩, ⟨inTable, .inl isFile⟩, ?_⟩
  intro linked
  rcases reachable linked with isRoot | isTwo
  · cases isRoot
  · cases isTwo

end TidyRuns

end PersonaOS.Fs.Pondfs
