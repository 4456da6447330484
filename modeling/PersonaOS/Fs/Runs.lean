import PersonaOS.Fs.Formatted
import PersonaOS.Fs.Sessions

/-! # Runs on a formatted image

A run mounts an image that `mkpondfs` wrote and issues calls on the handles it obtains.
Whichever calls return or fail, the volume stays mounted, so its blocks are in order. -/

namespace PersonaOS.Fs.Pondfs

open Program

/-- A call that comes back, with a result or with an error. -/
def Comes (session : Session FsInner StateId) (call : Call) (after : Session FsInner StateId) :
    Prop :=
  (inode.perform call session).final = some after

def start? (img : Disk) (size : UInt64) (src : Mkpondfs.SourceDir) :
    Option (Session FsInner StateId) :=
  match mkpondfs img size src with
  | none => none
  | some disk =>
    match mount disk with
    | .error _ => none
    | .ok (fs, root) => some ⟨fs, [root]⟩

/-- A run on the image that `mkpondfs` makes of an image file and a source directory. -/
def Run (img : Disk) (size : UInt64) (src : Mkpondfs.SourceDir) (calls : List Call)
    (session : Session FsInner StateId) : Prop :=
  ∃ first, start? img size src = some first ∧ Trace Comes first calls session

section Runs

variable {img : Disk} {size : UInt64} {src : Mkpondfs.SourceDir} {calls : List Call}
  {session : Session FsInner StateId}

theorem start?_eq_some {first : Session FsInner StateId}
    (starts : start? img size src = some first) :
    ∃ nodes stored, first.handles = [0] ∧ Serves first nodes ∧ OpensDir first.fs nodes 0 stored ∧
      Depicts nodes (visible stored) src.tree ∧ Durable first.fs ∧ nodes.Reached := by
  rw [start?] at starts
  cases made : mkpondfs img size src with
  | none =>
    rw [made] at starts
    cases starts
  | some disk =>
    rcases mkpondfs_mounted made with
      ⟨fs, nodes, stored, mounts, mounted, opens, depicts, _, durable, reached⟩
    rw [made] at starts
    simp only [mounts] at starts
    rcases Option.some.inj starts with rfl
    refine ⟨nodes, stored, rfl, ⟨mounted, ?_⟩, opens, depicts, durable, reached⟩
    intro id isRoot
    rw [List.mem_singleton.mp isRoot]
    exact (mounted.holds.cached opens.isCached).1

theorem Serves.comes {nodes : Nodes} {call : Call} {after : Session FsInner StateId}
    (serves : Serves session nodes) (comes : Comes session call after) :
    ∃ next, Serves after next :=
  (serves.perform call).of_final comes

theorem Run.serves (run : Run img size src calls session) : ∃ nodes, Serves session nodes := by
  rcases run with ⟨first, starts, trace⟩
  rcases start?_eq_some starts with ⟨nodes, _, _, serves, _⟩
  apply trace.invariant (fun session => ∃ nodes, Serves session nodes) _ ⟨nodes, serves⟩
  rintro current call next ⟨nodes, serves⟩ comes
  exact serves.comes comes

/-- The blocks of all inodes, with the records that count. -/
theorem blocks_owned (img : Disk) (size : UInt64) (src : Mkpondfs.SourceDir)
    (calls : List Call) (session : Session FsInner StateId) (run : Run img size src calls session) :
    (∀ ino < session.fs.inodeCount, ∀ i, (session.fs.record ino).slot i ≠ 0 →
      session.fs.IsData ((session.fs.record ino).slot i) ∧
        session.fs.Taken ((session.fs.record ino).slot i)) ∧
    session.fs.bitmap = diskBitmap session.fs.sb session.fs.dev ∧
    ∀ ino < session.fs.inodeCount, ∀ other < session.fs.inodeCount, ∀ i j,
      (session.fs.record ino).slot i ≠ 0 →
        (session.fs.record ino).slot i = (session.fs.record other).slot j →
        ino = other ∧ i = j := by
  rcases run.serves with ⟨nodes, serves⟩
  have holds := serves.mounted.holds
  refine ⟨?_, holds.synced.bitmap_eq, ?_⟩
  · intro ino inTable i hasBlock
    have refers : session.fs.Refers (ino, i) ((session.fs.record ino).slot i) :=
      ⟨inTable, hasBlock, rfl⟩
    exact ⟨holds.ledger.valid refers, holds.ledger.taken refers⟩
  · intro ino inTable other otherInTable i j hasBlock same
    have refers : session.fs.Refers (ino, i) ((session.fs.record ino).slot i) :=
      ⟨inTable, hasBlock, rfl⟩
    have otherRefers : session.fs.Refers (other, j) ((session.fs.record ino).slot i) :=
      ⟨otherInTable, hasBlock, same.symm⟩
    exact Prod.mk.inj (holds.ledger.exclusive _ _ _ refers otherRefers)

def after? (session : Session FsInner StateId) : List Call → Option (Session FsInner StateId)
  | [] => some session
  | call :: calls =>
    match (inode.perform call session).final with
    | none => none
    | some next => after? next calls

theorem trace_of_after? {last : Session FsInner StateId} (ends : after? session calls = some last) :
    Trace Comes session calls last := by
  induction calls generalizing session with
  | nil =>
    cases ends
    exact .nil _
  | cons call calls induction =>
    rw [after?] at ends
    cases comes : (inode.perform call session).final with
    | none =>
      rw [comes] at ends
      cases ends
    | some next =>
      rw [comes] at ends
      exact .cons comes (induction ends)

theorem run_of_isSome (img : Disk) (size : UInt64) (src : Mkpondfs.SourceDir) (calls : List Call)
    (ends : ((start? img size src).bind (after? · calls)).isSome = true) :
    ∃ session, Run img size src calls session := by
  rcases Option.isSome_iff_exists.mp ends with ⟨session, isSession⟩
  rcases Option.bind_eq_some_iff.mp isSession with ⟨first, starts, isLast⟩
  exact ⟨session, first, starts, trace_of_after? isLast⟩

/-- A file is created on an image of 64 blocks. -/
theorem blocks_owned_create :
    ∃ session, Run (fun _ => Block.zero) 262144 smallSource [⟨0, .create "x" .file⟩] session ∧
      session.fs.bitmap = diskBitmap session.fs.sb session.fs.dev := by
  rcases run_of_isSome (fun _ => Block.zero) 262144 smallSource [⟨0, .create "x" .file⟩]
    (by decide +kernel) with ⟨session, run⟩
  exact ⟨session, run, (blocks_owned _ _ _ _ session run).2.1⟩

/-- What a directory inode, in the cache or on the disk, reads as. -/
def FsInner.Lists (fs : FsInner) (dir : Nat) (entries : List DirEntry) : Prop :=
  dir < fs.inodeCount ∧ (fs.record dir).kind = inodeKindDir ∧
    dirReadEntries (fs.record dir) fs = .ok entries fs

theorem Mounted.lists {fs : FsInner} {nodes : Nodes} {dir : Nat} (mounted : Mounted fs nodes)
    (inTable : dir < fs.inodeCount) (isDir : (fs.record dir).kind = inodeKindDir) :
    fs.Lists dir (nodes.entries dir) := by
  cases isNode : nodes dir with
  | none =>
    rw [(mounted.holds.free inTable isNode).1] at isDir
    exact absurd isDir (by decide)
  | some node =>
    rcases kindCode_dir ((mounted.holds.kind isNode).symm.trans isDir) with ⟨stored, rfl⟩
    have begins : Begins fs.dev (fs.record dir) (serialize stored) := mounted.holds.contents isNode
    rw [Nodes.entries_of_dir isNode]
    exact ⟨inTable, isDir, begins.dirReadEntries (mounted.catalog.valid isNode)⟩

theorem Mounted.eq_of_lists {fs : FsInner} {nodes : Nodes} {dir : Nat} {entries : List DirEntry}
    (mounted : Mounted fs nodes) (lists : fs.Lists dir entries) : entries = nodes.entries dir := by
  have reads := (mounted.lists lists.1 lists.2.1).2.2
  rw [lists.2.2] at reads
  exact (Outcome.ok.inj reads).1

/-- Whatever calls were made, no inode has two entries and no directory lies below itself. -/
theorem directories_form_forest (img : Disk) (size : UInt64) (src : Mkpondfs.SourceDir)
    (calls : List Call) (session : Session FsInner StateId) (run : Run img size src calls session) :
    (∀ dir < session.fs.inodeCount, (session.fs.record dir).kind = inodeKindDir →
      ∃ entries, session.fs.Lists dir entries ∧ (entries.map Prod.fst).Nodup) ∧
    (∀ dir entries, session.fs.Lists dir entries → ∀ entry ∈ entries,
      entry.2.2 < session.fs.inodeCount ∧
      (session.fs.record entry.2.2).kind = kindCode entry.2.1 ∧
      ∀ other more, session.fs.Lists other more → ∀ same ∈ more, entry.2.2 = same.2.2 →
        dir = other ∧ entry = same) ∧
    ∃ rank : Nat → Nat, rank rootIno = 0 ∧ ∀ dir entries, session.fs.Lists dir entries →
      ∀ entry ∈ entries, rank dir < rank entry.2.2 := by
  rcases run.serves with ⟨nodes, serves⟩
  have mounted := serves.mounted
  rcases mounted.catalog.ranked with ⟨rank, atRoot, below⟩
  refine ⟨?_, ?_, rank, atRoot, ?_⟩
  · intro dir inTable isDir
    exact ⟨_, mounted.lists inTable isDir, mounted.catalog.names dir⟩
  · intro dir entries lists entry isEntry
    rw [mounted.eq_of_lists lists] at isEntry
    rcases Option.map_eq_some_iff.mp (mounted.catalog.named isEntry) with ⟨node, isNode, isKind⟩
    refine ⟨mounted.holds.inTable (mounted.named isEntry), isKind ▸ mounted.holds.kind isNode, ?_⟩
    intro other more otherLists same isSame sameIno
    rw [mounted.eq_of_lists otherLists] at isSame
    exact mounted.catalog.once isEntry isSame sameIno
  · intro dir entries lists entry isEntry
    rw [mounted.eq_of_lists lists] at isEntry
    exact below isEntry

theorem directories_form_forest_create :
    ∃ session, Run (fun _ => Block.zero) 262144 smallSource [⟨0, .create "x" .file⟩] session ∧
      ∃ rank : Nat → Nat, rank rootIno = 0 ∧ ∀ dir entries, session.fs.Lists dir entries →
        ∀ entry ∈ entries, rank dir < rank entry.2.2 := by
  rcases run_of_isSome (fun _ => Block.zero) 262144 smallSource [⟨0, .create "x" .file⟩]
    (by decide +kernel) with ⟨session, run⟩
  exact ⟨session, run, (directories_form_forest _ _ _ _ session run).2.2⟩

end Runs

/-! ## Runs in which nothing goes wrong -/

def changes : Method → Bool
  | .writeAt _ _ => true
  | .create _ _ => true
  | .unlink _ => true
  | _ => false

/-- A call that returns, or one that fails and could not have changed anything. -/
def Works (session : Session FsInner StateId) (call : Call) (after : Session FsInner StateId) :
    Prop :=
  Comes session call after ∧
    (changes call.method = true → ∃ reply, inode.perform call session = .ok reply after)

def WorkingRun (img : Disk) (size : UInt64) (src : Mkpondfs.SourceDir) (calls : List Call)
    (session : Session FsInner StateId) : Prop :=
  ∃ first, start? img size src = some first ∧ Trace Works first calls session

section WorkingRuns

variable {session after : Session FsInner StateId} {nodes : Nodes} {call : Call}

theorem Fails.eq_of_not_changes {fs last : FsInner} {next : Nodes} {id : StateId} {method : Method}
    (fails : Fails fs nodes id method last next) (unchanging : changes method = false) :
    last = fs ∧ next = nodes := by
  cases fails with
  | same => exact ⟨rfl, rfl⟩
  | writeAt => cases unchanging
  | create => cases unchanging
  | unlink => cases unchanging

theorem Serves.works (serves : Serves session nodes) (works : Works session call after) :
    ∃ next, Serves after next ∧ (∃ more, after.handles = session.handles ++ more) ∧
      (after.fs = session.fs ∧ next = nodes ∨
        ∃ id, session.handles[call.handle]? = some id ∧
          Succeeds session.fs nodes id call.method after.fs next) := by
  rcases works with ⟨comes, returns⟩
  rw [Comes] at comes
  cases isHandle : session.handles[call.handle]? with
  | none =>
    rw [perform_of_none isHandle] at comes
    rcases Option.some.inj comes with rfl
    exact ⟨nodes, serves, ⟨[], (List.append_nil _).symm⟩, .inl ⟨rfl, rfl⟩⟩
  | some id =>
    have inRange := serves.handles id (List.mem_of_getElem? isHandle)
    have meets := serves.mounted.invoke inRange call.method
    rw [perform_of_some isHandle] at comes returns
    cases ended : inode.invoke id call.method session with
    | ok reply last =>
      rw [ended] at comes meets
      rcases Option.some.inj comes with rfl
      rcases meets.serves serves with ⟨next, succeeds, servesNext, extends_⟩
      exact ⟨next, servesNext, extends_, .inr ⟨id, rfl, succeeds⟩⟩
    | error fault last =>
      rw [ended] at comes meets
      rcases Option.some.inj comes with rfl
      have unchanging : changes call.method = false := by
        by_contra changing
        rcases returns (Bool.eq_true_of_not_eq_false changing) with ⟨reply, isOk⟩
        rw [ended] at isOk
        cases isOk
      rcases meets with ⟨next, fails, sameHandles⟩
      rcases fails.eq_of_not_changes unchanging with ⟨sameFs, rfl⟩
      have same : last = session := by
        cases last
        cases session
        cases sameFs
        cases sameHandles
        rfl
      subst same
      exact ⟨next, serves, ⟨[], (List.append_nil _).symm⟩, .inl ⟨rfl, rfl⟩⟩
    | panic =>
      rw [ended] at comes
      cases comes

def returns? (session : Session FsInner StateId) : List Call → Option (Session FsInner StateId)
  | [] => some session
  | call :: calls =>
    match inode.perform call session with
    | .ok _ next => returns? next calls
    | .error _ _ => none
    | .panic => none

theorem trace_of_returns? {calls : List Call} {last : Session FsInner StateId}
    (ends : returns? session calls = some last) : Trace Works session calls last := by
  induction calls generalizing session with
  | nil =>
    cases ends
    exact .nil _
  | cons call calls induction =>
    rw [returns?] at ends
    cases ended : inode.perform call session with
    | ok reply next =>
      rw [ended] at ends
      have works : Works session call next := ⟨by rw [Comes, ended]; rfl, fun _ => ⟨reply, ended⟩⟩
      exact .cons works (induction ends)
    | error fault next =>
      rw [ended] at ends
      cases ends
    | panic =>
      rw [ended] at ends
      cases ends

theorem workingRun_of_isSome (img : Disk) (size : UInt64) (src : Mkpondfs.SourceDir)
    (calls : List Call) (ends : ((start? img size src).bind (returns? · calls)).isSome = true) :
    ∃ session, WorkingRun img size src calls session := by
  rcases Option.isSome_iff_exists.mp ends with ⟨session, isSession⟩
  rcases Option.bind_eq_some_iff.mp isSession with ⟨first, starts, isLast⟩
  exact ⟨session, first, starts, trace_of_returns? isLast⟩

end WorkingRuns

end PersonaOS.Fs.Pondfs
