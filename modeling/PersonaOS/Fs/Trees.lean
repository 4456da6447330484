import PersonaOS.Fs.Calls

/-! # The tree below a directory

`Depicts` reads a tree of names, kinds and contents off a catalog. Walking a mounted
volume with `readdir`, `lookup`, `size` and `read_at` returns that tree. -/

namespace PersonaOS.Fs

open Program

theorem Tree.depth_pos (tree : Tree) : 0 < tree.depth := by
  induction tree with
  | empty => exact Nat.one_pos
  | file name bytes rest induction => exact induction
  | dir name sub rest _ induction => exact Nat.lt_of_lt_of_le induction (Nat.le_max_right _ _)

namespace Inode

variable {σ H : Type} {inode : Inode σ H} {walk : H → Program σ FsError Tree} {dir child : H}
  {name : String} {entries : List (String × InodeKind)} {fs loaded walked after : σ} {rest : Tree}

theorem walkEntries_file {bytes : List UInt8} (looks : inode.lookup dir name fs = .ok child loaded)
    (isKind : inode.kind child loaded = .file)
    (reads : inode.readAt child 0 (inode.size child loaded) loaded = .ok bytes loaded)
    (isSize : bytes.length = inode.size child loaded)
    (walks : inode.walkEntries walk dir entries loaded = .ok rest after) :
    inode.walkEntries walk dir ((name, .file) :: entries) fs =
      .ok (.file name bytes rest) after := by
  rw [walkEntries, bind_apply, looks]
  simp only [get_bind_apply, isKind, if_true]
  rw [bind_apply, reads]
  simp only [isSize, if_true]
  rw [bind_apply, walks]
  rfl

theorem walkEntries_dir {sub : Tree} (looks : inode.lookup dir name fs = .ok child loaded)
    (isKind : inode.kind child loaded = .dir) (walksBelow : walk child loaded = .ok sub walked)
    (walks : inode.walkEntries walk dir entries walked = .ok rest after) :
    inode.walkEntries walk dir ((name, .dir) :: entries) fs = .ok (.dir name sub rest) after := by
  rw [walkEntries, bind_apply, looks]
  simp only [get_bind_apply, isKind, if_true]
  rw [bind_apply, walksBelow]
  simp only
  rw [bind_apply, walks]
  rfl

end Inode

end PersonaOS.Fs

namespace PersonaOS.Fs.Pondfs

open Program

/-- The tree that a list of directory entries leads to. -/
inductive Depicts (nodes : Nodes) : List DirEntry → Tree → Prop
  | empty : Depicts nodes [] .empty
  | file {name : String} {ino : Nat} {bytes : List UInt8} {entries : List DirEntry} {rest : Tree}
      (isFile : nodes ino = some (.file bytes)) (others : Depicts nodes entries rest) :
      Depicts nodes ((name, .file, ino) :: entries) (.file name bytes rest)
  | dir {name : String} {ino : Nat} {stored entries : List DirEntry} {sub rest : Tree}
      (isDir : nodes ino = some (.dir stored)) (below : Depicts nodes (visible stored) sub)
      (others : Depicts nodes entries rest) :
      Depicts nodes ((name, .dir, ino) :: entries) (.dir name sub rest)

/-! ## Every directory has a tree -/

section Exists

variable {nodes : Nodes}

theorem depicts_of_entries (catalog : Catalog nodes) {dir : Nat} {entries : List DirEntry}
    (members : ∀ entry ∈ entries, entry ∈ nodes.entries dir)
    (below : ∀ entry ∈ entries, ∀ stored, nodes entry.2.2 = some (.dir stored) →
      ∃ tree, Depicts nodes (visible stored) tree) : ∃ tree, Depicts nodes entries tree := by
  induction entries with
  | nil => exact ⟨.empty, .empty⟩
  | cons entry entries induction =>
    rcases induction (fun other isIn => members other (List.mem_cons_of_mem _ isIn))
      (fun other isIn => below other (List.mem_cons_of_mem _ isIn)) with ⟨rest, others⟩
    rcases entry with ⟨name, kind, ino⟩
    have named := catalog.named (members _ List.mem_cons_self)
    rcases Option.map_eq_some_iff.mp named with ⟨node, isNode, isKind⟩
    cases node with
    | file bytes =>
      rcases isKind with rfl
      exact ⟨_, .file isNode others⟩
    | dir stored =>
      rcases isKind with rfl
      rcases below _ List.mem_cons_self stored isNode with ⟨sub, isBelow⟩
      exact ⟨_, .dir isNode isBelow others⟩

theorem Catalog.depicts (catalog : Catalog nodes) {count : Nat}
    (bounded : ∀ {ino}, nodes ino ≠ none → ino < count) {dir : Nat} {stored : List DirEntry}
    (isDir : nodes dir = some (.dir stored)) : ∃ tree, Depicts nodes (visible stored) tree := by
  rcases catalog.ranked with ⟨rank, _, above⟩
  have highest : ∀ count : Nat, ∃ top, ∀ ino < count, rank ino ≤ top := by
    intro count
    induction count with
    | zero => exact ⟨0, fun ino inside => absurd inside (Nat.not_lt_zero ino)⟩
    | succ count induction =>
      rcases induction with ⟨top, below⟩
      refine ⟨max top (rank count), fun ino inside => ?_⟩
      rcases Nat.lt_succ_iff_lt_or_eq.mp inside with earlier | rfl
      · exact Nat.le_trans (below ino earlier) (Nat.le_max_left _ _)
      · exact Nat.le_max_right _ _
  rcases highest count with ⟨top, below⟩
  generalize isHeight : top - rank dir = height
  induction height using Nat.strongRecOn generalizing dir stored with
  | ind height induction =>
    apply depicts_of_entries catalog fun entry isIn => (Nodes.entries_of_dir isDir).symm ▸ isIn
    intro entry isIn sub isSub
    have lower : rank dir < rank entry.2.2 :=
      above ((Nodes.entries_of_dir isDir).symm ▸ isIn)
    have atMost := below entry.2.2 (bounded (isSub ▸ Option.some_ne_none _))
    exact induction (top - rank entry.2.2) (by omega) isSub rfl

end Exists

/-! ## Changing one directory -/

/-- Among what was there, only the directory itself was changed. -/
def Keeps (dir : Nat) (nodes after : Nodes) : Prop :=
  ∀ ino, ino ≠ dir → nodes ino ≠ none → after ino = nodes ino

section Keeps

variable {nodes after : Nodes} {dir : Nat}

theorem Keeps.trans {last : Nodes} (first : Keeps dir nodes after) (second : Keeps dir after last) :
    Keeps dir nodes last := by
  intro ino different known
  have same := first ino different known
  rw [second ino different (by rwa [same]), same]

theorem Depicts.keeps {tree : Tree} {entries : List DirEntry} {rank : Nat → Nat}
    (depicts : Depicts nodes entries tree) (keeps : Keeps dir nodes after)
    (above : ∀ {other entry}, entry ∈ nodes.entries other → rank other < rank entry.2.2)
    (deeper : ∀ entry ∈ entries, rank dir < rank entry.2.2) : Depicts after entries tree := by
  have differs : ∀ {ino : Nat}, rank dir < rank ino → ino ≠ dir := by
    rintro ino lower rfl
    exact Nat.lt_irrefl _ lower
  induction depicts with
  | empty => exact .empty
  | @file name ino bytes entries rest isFile _ induction =>
    have lower := deeper (name, .file, ino) List.mem_cons_self
    refine .file ?_ (induction fun entry member => deeper entry (List.mem_cons_of_mem _ member))
    rw [keeps ino (differs lower) (isFile ▸ Option.some_ne_none _), isFile]
  | @dir name ino stored entries sub rest isDir _ _ below induction =>
    have lower := deeper (name, .dir, ino) List.mem_cons_self
    refine .dir ?_ (below fun entry member => ?_)
      (induction fun entry member => deeper entry (List.mem_cons_of_mem _ member))
    · rw [keeps ino (differs lower) (isDir ▸ Option.some_ne_none _), isDir]
    · rw [← Nodes.entries_of_dir isDir] at member
      exact Nat.lt_trans lower (above member)

end Keeps

/-! ## Calls that only load inodes -/

structure Loads (fs after : FsInner) : Prop where
  dev : after.dev = fs.dev
  sb : after.sb = fs.sb
  bitmap : after.bitmap = fs.bitmap
  log : after.log = fs.log
  count : fs.stateCount ≤ after.stateCount
  states : ∀ id < fs.stateCount, after.states id = fs.states id
  cache : ∀ {ino id}, fs.inodeCache ino = some id → after.inodeCache ino = some id

namespace Loads

variable {fs middle after : FsInner}

theorem refl (fs : FsInner) : Loads fs fs :=
  ⟨rfl, rfl, rfl, rfl, Nat.le_refl _, fun _ _ => rfl, fun isCached => isCached⟩

theorem trans (first : Loads fs middle) (second : Loads middle after) : Loads fs after where
  dev := second.dev.trans first.dev
  sb := second.sb.trans first.sb
  bitmap := second.bitmap.trans first.bitmap
  log := second.log.trans first.log
  count := Nat.le_trans first.count second.count
  states id inRange :=
    (second.states id (Nat.lt_of_lt_of_le inRange first.count)).trans (first.states id inRange)
  cache isCached := second.cache (first.cache isCached)

theorem loaded (fs : FsInner) (ino : Nat) : Loads fs (fs.loaded ino) := by
  have same : (fs.loaded ino).dev = fs.dev ∧ (fs.loaded ino).sb = fs.sb ∧
      (fs.loaded ino).bitmap = fs.bitmap ∧ (fs.loaded ino).log = fs.log := by
    rw [FsInner.loaded]
    split <;> exact ⟨rfl, rfl, rfl, rfl⟩
  exact ⟨same.1, same.2.1, same.2.2.1, same.2.2.2, fs.stateCount_loaded ino,
    fun _ inRange => FsInner.states_loaded inRange ino,
    fun isCached => FsInner.cache_loaded_of_cached isCached ino⟩

theorem ino (loads : Loads fs after) {id : StateId} (inRange : id < fs.stateCount) :
    after.ino id = fs.ino id := by
  rw [FsInner.ino, loads.states id inRange, FsInner.ino]

end Loads

/-! ## Walking -/

section Walk

variable {fs : FsInner} {nodes : Nodes} {id : StateId} {stored entries : List DirEntry}

structure OpensDir (fs : FsInner) (nodes : Nodes) (id : StateId)
    (stored : List DirEntry) : Prop where
  isCached : fs.inodeCache (fs.ino id) = some id
  isDir : nodes (fs.ino id) = some (.dir stored)

theorem OpensDir.loads {after : FsInner} (opens : OpensDir fs nodes id stored)
    (holds : Holds fs nodes) (loads : Loads fs after) : OpensDir after nodes id stored := by
  have inRange := (holds.cached opens.isCached).1
  constructor
  · rw [loads.ino inRange, loads.cache opens.isCached]
  · rw [loads.ino inRange, opens.isDir]

theorem Mounted.length_visible_le (mounted : Mounted fs nodes)
    (opens : OpensDir fs nodes id stored) : (serialize (visible stored)).length ≤ 12 * 4096 := by
  have begins : Begins fs.dev (fs.record (fs.ino id)) (serialize stored) :=
    mounted.holds.contents opens.isDir
  exact Nat.le_trans (length_serialize_visible stored) begins.length_le

theorem Mounted.length_create_lt {name : String} (mounted : Mounted fs nodes)
    (opens : OpensDir fs nodes id stored) (short : name.utf8ByteSize < 2 ^ 63) (kind : InodeKind)
    (ino : Nat) : (serialize (visible stored ++ [(name, kind, ino)])).length < 2 ^ 64 := by
  have old := mounted.length_visible_le opens
  rw [length_serialize_concat, align4]
  omega

theorem Catalog.find_visible (catalog : Catalog nodes) {dir : Nat}
    (isDir : nodes dir = some (.dir stored)) {entry : DirEntry} (member : entry ∈ visible stored) :
    (visible stored).find? (fun other => other.1 = entry.1) = some entry := by
  have distinct := catalog.names dir
  rw [Nodes.entries_of_dir isDir] at distinct
  cases found : (visible stored).find? (fun other => other.1 = entry.1) with
  | none =>
    have absent := List.find?_eq_none.mp found entry member
    simp at absent
  | some other =>
    have isOther := List.mem_of_find?_eq_some found
    rw [List.inj_on_of_nodup_map distinct isOther member (name_of_find found)]

theorem Mounted.lookup_entry (mounted : Mounted fs nodes) (opens : OpensDir fs nodes id stored)
    {name : String} {kind : InodeKind} {ino : Nat} (member : (name, kind, ino) ∈ visible stored) :
    lookup id name fs = .ok (fs.loadedId ino) (fs.loaded ino) ∧ Mounted (fs.loaded ino) nodes ∧
      (fs.loaded ino).inodeCache ((fs.loaded ino).ino (fs.loadedId ino)) = some (fs.loadedId ino) ∧
      (fs.loaded ino).ino (fs.loadedId ino) = ino := by
  have isEntry : (name, kind, ino) ∈ nodes.entries (fs.ino id) := by
    rwa [Nodes.entries_of_dir opens.isDir]
  have holds := mounted.holds.loaded (mounted.named isEntry)
  have isCached := fs.cache_loaded ino
  have isIno := (holds.cached isCached).2.1
  refine ⟨mounted.lookup_found opens.isCached opens.isDir
    (mounted.catalog.find_visible opens.isDir member), ⟨holds, mounted.catalog⟩, ?_, isIno⟩
  rw [isIno, isCached]

theorem Holds.kind_eq (holds : Holds fs nodes) (isCached : fs.inodeCache (fs.ino id) = some id)
    {node : Node} (isNode : nodes (fs.ino id) = some node) : Pondfs.kind id fs = node.kind := by
  rw [Pondfs.kind, holds.raw_kind isCached isNode]
  cases node <;> rfl

theorem Holds.size_eq (holds : Holds fs nodes) (isCached : fs.inodeCache (fs.ino id) = some id)
    {bytes : List UInt8} (isFile : nodes (fs.ino id) = some (.file bytes)) :
    Pondfs.size id fs = bytes.length := by
  have stores : Stores fs.dev (fs.raw id) bytes := by
    rw [← FsInner.record_of_cached isCached]
    exact holds.contents isFile
  rw [Pondfs.size, stores.size]

theorem Mounted.walkEntries {tree : Tree} (depicts : Depicts nodes entries tree) (fuel : Nat)
    (enough : tree.depth ≤ fuel + 1) (mounted : Mounted fs nodes)
    (opens : OpensDir fs nodes id stored) (members : ∀ entry ∈ entries, entry ∈ visible stored) :
    ∃ after, inode.walkEntries (inode.walk fuel) id
        (entries.map fun (name, kind, _) => (name, kind)) fs = .ok tree after ∧
      Mounted after nodes ∧ Loads fs after := by
  induction depicts generalizing fs id stored fuel with
  | empty => exact ⟨fs, rfl, mounted, .refl fs⟩
  | @file name ino bytes entries rest isFile others induction =>
    rcases mounted.lookup_entry opens (members (name, .file, ino) List.mem_cons_self) with
      ⟨looks, loaded, isCached, isIno⟩
    have loads := Loads.loaded fs ino
    have isNode : nodes ((fs.loaded ino).ino (fs.loadedId ino)) = some (.file bytes) := by
      rw [isIno, isFile]
    have isSize := loaded.holds.size_eq isCached isNode
    have reads : readAt (fs.loadedId ino) 0 (Pondfs.size (fs.loadedId ino) (fs.loaded ino))
        (fs.loaded ino) = .ok bytes (fs.loaded ino) := by
      have small : Pondfs.size (fs.loadedId ino) (fs.loaded ino) < 2 ^ 64 := UInt64.toNat_lt _
      rw [loaded.holds.readAt isCached isNode (by omega), List.drop_zero,
        List.take_of_length_le (by omega)]
    rcases induction fuel enough loaded (opens.loads mounted.holds loads)
      (fun entry member => members entry (List.mem_cons_of_mem _ member)) with
      ⟨after, walks, afterwards, loadsRest⟩
    exact ⟨after, Inode.walkEntries_file looks (loaded.holds.kind_eq isCached isNode) reads
      isSize.symm walks, afterwards, loads.trans loadsRest⟩
  | @dir name ino below entries sub rest isDir depictsBelow others inductionBelow induction =>
    rcases mounted.lookup_entry opens (members (name, .dir, ino) List.mem_cons_self) with
      ⟨looks, loaded, isCached, isIno⟩
    have loads := Loads.loaded fs ino
    have isNode : nodes ((fs.loaded ino).ino (fs.loadedId ino)) = some (.dir below) := by
      rw [isIno, isDir]
    rw [Tree.depth] at enough
    cases fuel with
    | zero =>
      have positive := sub.depth_pos
      omega
    | succ fuel =>
      rcases inductionBelow fuel (by omega) loaded ⟨isCached, isNode⟩
        (fun entry member => member) with ⟨walked, walksBelow, mountedBelow, loadsBelow⟩
      have loadsBoth := loads.trans loadsBelow
      rcases induction (fuel + 1) (by omega) mountedBelow (opens.loads mounted.holds loadsBoth)
        (fun entry member => members entry (List.mem_cons_of_mem _ member)) with
        ⟨after, walks, afterwards, loadsRest⟩
      have walksSub : inode.walk (fuel + 1) (fs.loadedId ino) (fs.loaded ino) =
          .ok sub walked := by
        rw [Inode.walk, bind_apply]
        have lists : inode.readdir (fs.loadedId ino) (fs.loaded ino) = .ok _ _ :=
          loaded.readdir isCached isNode
        rw [lists]
        exact walksBelow
      exact ⟨after, Inode.walkEntries_dir looks (loaded.holds.kind_eq isCached isNode) walksSub
        walks, afterwards, loadsBoth.trans loadsRest⟩

theorem Mounted.walk {tree : Tree} (mounted : Mounted fs nodes)
    (opens : OpensDir fs nodes id stored)
    (depicts : Depicts nodes (visible stored) tree) {fuel : Nat} (enough : tree.depth ≤ fuel) :
    ∃ after, inode.walk fuel id fs = .ok tree after ∧ Mounted after nodes ∧ Loads fs after := by
  cases fuel with
  | zero =>
    have positive := tree.depth_pos
    omega
  | succ fuel =>
    have lists : inode.readdir id fs = .ok _ fs := mounted.readdir opens.isCached opens.isDir
    rw [Inode.walk, bind_apply, lists]
    exact mounted.walkEntries depicts fuel enough opens fun entry member => member

end Walk

end PersonaOS.Fs.Pondfs
