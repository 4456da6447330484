import PersonaOS.Foundation.Simulation
import PersonaOS.Fs.Runs
import PersonaOS.Fs.Volumes

/-! # RamFS and PondFS agree

The two file systems get the same calls on handles that correspond. Each inode of PondFS
that can be looked up has a twin in RamFS: a file with the same bytes, or a directory with
the same names for twins. As long as PondFS neither runs out of space nor meets a file that
is too large for it, the two answer every call alike. -/

namespace PersonaOS.Fs

open Program

/-! ## Twins -/

/-- The errors that RamFS knows nothing of. -/
def Exhausted (error : FsError) : Prop := error = .noSpace ∨ error = .unsupported

/-- `twin` takes the inodes of a mounted volume to inodes of RamFS that look alike. -/
structure Mirrors (fs : Pondfs.FsInner) (store : Ramfs.Store) (nodes : Pondfs.Nodes)
    (twin : Nat → Option Ramfs.NodeId) : Prop where
  mounted : Pondfs.Mounted fs nodes
  inUse : ∀ {ino other}, twin ino = some other → nodes ino ≠ none
  inRange : ∀ {ino other}, twin ino = some other → other < store.count
  distinct : ∀ {ino ino' other}, twin ino = some other → twin ino' = some other → ino = ino'
  file : ∀ {ino other bytes}, twin ino = some other → nodes ino = some (.file bytes) →
    (store.entries other).kind = .file ∧ (store.entries other).data = bytes
  dir : ∀ {ino other stored}, twin ino = some other → nodes ino = some (.dir stored) →
    (store.entries other).kind = .dir ∧
      ((store.entries other).children.map fun child => (child.1, some child.2)).Perm
        ((Pondfs.visible stored).map fun entry => (entry.1, twin entry.2.2))

def Stands (fs : Pondfs.FsInner) (twin : Nat → Option Ramfs.NodeId) (id : Pondfs.StateId)
    (other : Ramfs.NodeId) : Prop :=
  ∃ ino, Pondfs.node fs id = some ino ∧ twin ino = some other

/-- Both file systems have moved on together, and their old handles still correspond. -/
def Progress (fs : Pondfs.FsInner) (twin : Nat → Option Ramfs.NodeId) (after : Pondfs.FsInner)
    (store : Ramfs.Store) (next : Nat → Option Ramfs.NodeId) : Prop :=
  (∃ nodes, Mirrors after store nodes next) ∧
    ∀ id other, Stands fs twin id other → Stands after next id other

section Twins

variable {fs after : Pondfs.FsInner} {store : Ramfs.Store} {nodes : Pondfs.Nodes}
  {twin : Nat → Option Ramfs.NodeId} {id : Pondfs.StateId} {ino : Nat} {other : Ramfs.NodeId}

theorem Mirrors.kind (mirrors : Mirrors fs store nodes twin) (isTwin : twin ino = some other)
    {node : Pondfs.Node} (isNode : nodes ino = some node) :
    (store.entries other).kind = node.kind := by
  cases node with
  | file bytes => exact (mirrors.file isTwin isNode).1
  | dir stored => exact (mirrors.dir isTwin isNode).1

section Children

variable {stored : List Pondfs.DirEntry}

theorem Mirrors.names (mirrors : Mirrors fs store nodes twin) (isTwin : twin ino = some other)
    (isDir : nodes ino = some (.dir stored)) :
    ((store.entries other).children.map Prod.fst).Nodup := by
  have perm := (mirrors.dir isTwin isDir).2.map Prod.fst
  rw [List.map_map, List.map_map] at perm
  have distinct := mirrors.mounted.catalog.names ino
  rw [Pondfs.Nodes.entries_of_dir isDir] at distinct
  exact perm.nodup_iff.mpr distinct

theorem Mirrors.child (mirrors : Mirrors fs store nodes twin) (isTwin : twin ino = some other)
    (isDir : nodes ino = some (.dir stored)) {entry : Pondfs.DirEntry}
    (member : entry ∈ Pondfs.visible stored) :
    ∃ child, twin entry.2.2 = some child ∧
      Ramfs.getChild (store.entries other).children entry.1 = some child := by
  have isIn : (entry.1, twin entry.2.2) ∈
      (store.entries other).children.map fun child => (child.1, some child.2) :=
    (mirrors.dir isTwin isDir).2.mem_iff.mpr (List.mem_map_of_mem member)
  rcases List.mem_map.mp isIn with ⟨child, isChild, same⟩
  have sameName : child.1 = entry.1 := congrArg Prod.fst same
  have sameTwin : some child.2 = twin entry.2.2 := congrArg Prod.snd same
  refine ⟨child.2, sameTwin.symm, (Ramfs.getChild_eq_some (mirrors.names isTwin isDir)).mpr ?_⟩
  rw [← sameName]
  exact isChild

theorem Mirrors.no_child (mirrors : Mirrors fs store nodes twin) (isTwin : twin ino = some other)
    (isDir : nodes ino = some (.dir stored)) {name : String}
    (isNew : ∀ entry ∈ Pondfs.visible stored, entry.1 ≠ name) :
    Ramfs.getChild (store.entries other).children name = none := by
  cases found : Ramfs.getChild (store.entries other).children name with
  | none => rfl
  | some child =>
    have isChild := (Ramfs.getChild_eq_some (mirrors.names isTwin isDir)).mp found
    have isIn : (name, some child) ∈ (Pondfs.visible stored).map fun entry =>
        (entry.1, twin entry.2.2) :=
      (mirrors.dir isTwin isDir).2.mem_iff.mp (List.mem_map.mpr ⟨_, isChild, rfl⟩)
    rcases List.mem_map.mp isIn with ⟨entry, member, same⟩
    exact absurd (congrArg Prod.fst same) (isNew entry member)

end Children

theorem Mirrors.progress (mirrors : Mirrors fs store nodes twin) : Progress fs twin fs store twin :=
  ⟨⟨nodes, mirrors⟩, fun _ _ stands => stands⟩

theorem Stands.keeps (stands : Stands fs twin id other)
    (keeps : KeepsHandles Pondfs.node fs after) : Stands after twin id other := by
  rcases stands with ⟨ino, isNode, isTwin⟩
  exact ⟨ino, keeps _ _ isNode, isTwin⟩

end Twins

/-! ## Methods -/

structure FilePair (fs : Pondfs.FsInner) (store : Ramfs.Store) (nodes : Pondfs.Nodes)
    (twin : Nat → Option Ramfs.NodeId) (id : Pondfs.StateId) (other : Ramfs.NodeId)
    (bytes : List UInt8) : Prop where
  isCached : fs.inodeCache (fs.ino id) = some id
  isTwin : twin (fs.ino id) = some other
  isFile : nodes (fs.ino id) = some (.file bytes)
  kind : (fs.raw id).kind = Pondfs.inodeKindFile
  notDir : (fs.raw id).kind ≠ Pondfs.inodeKindDir
  otherKind : (store.entries other).kind = .file
  data : (store.entries other).data = bytes

structure DirPair (fs : Pondfs.FsInner) (store : Ramfs.Store) (nodes : Pondfs.Nodes)
    (twin : Nat → Option Ramfs.NodeId) (id : Pondfs.StateId) (other : Ramfs.NodeId)
    (stored : List Pondfs.DirEntry) : Prop where
  isCached : fs.inodeCache (fs.ino id) = some id
  isTwin : twin (fs.ino id) = some other
  isDir : nodes (fs.ino id) = some (.dir stored)
  kind : (fs.raw id).kind = Pondfs.inodeKindDir
  notFile : (fs.raw id).kind ≠ Pondfs.inodeKindFile
  otherKind : (store.entries other).kind = .dir

section Methods

variable {fs after : Pondfs.FsInner} {store : Ramfs.Store} {nodes : Pondfs.Nodes}
  {twin : Nat → Option Ramfs.NodeId} {id : Pondfs.StateId} {other : Ramfs.NodeId}

theorem Mirrors.cases (mirrors : Mirrors fs store nodes twin) (stands : Stands fs twin id other) :
    (∃ bytes, FilePair fs store nodes twin id other bytes) ∨
      ∃ stored, DirPair fs store nodes twin id other stored := by
  rcases stands with ⟨ino, isNode, isTwin⟩
  rcases Pondfs.node_eq_some.mp isNode with ⟨rfl, isCached⟩
  cases isNode : nodes (fs.ino id) with
  | none => exact absurd isNode (mirrors.inUse isTwin)
  | some node =>
    have isKind := mirrors.mounted.holds.raw_kind isCached isNode
    cases node with
    | file bytes =>
      have notDir : (fs.raw id).kind ≠ Pondfs.inodeKindDir := by
        rw [isKind]
        exact show Pondfs.inodeKindFile ≠ Pondfs.inodeKindDir by decide
      rcases mirrors.file isTwin isNode with ⟨otherKind, data⟩
      exact .inl ⟨bytes, isCached, isTwin, isNode, isKind, notDir, otherKind, data⟩
    | dir stored =>
      have notFile : (fs.raw id).kind ≠ Pondfs.inodeKindFile := by
        rw [isKind]
        exact show Pondfs.inodeKindDir ≠ Pondfs.inodeKindFile by decide
      exact .inr ⟨stored, isCached, isTwin, isNode, isKind, notFile,
        (mirrors.dir isTwin isNode).1⟩

theorem Mirrors.kind_eq (mirrors : Mirrors fs store nodes twin) (stands : Stands fs twin id other) :
    Pondfs.kind id fs = Ramfs.kind other store := by
  rcases mirrors.cases stands with ⟨bytes, pair⟩ | ⟨stored, pair⟩
  · rw [Pondfs.kind, if_neg pair.notDir, Ramfs.kind, pair.otherKind]
  · rw [Pondfs.kind, if_pos pair.kind, Ramfs.kind, pair.otherKind]

theorem FilePair.stores {bytes : List UInt8} (pair : FilePair fs store nodes twin id other bytes)
    (mirrors : Mirrors fs store nodes twin) : Pondfs.Stores fs.dev (fs.raw id) bytes := by
  rw [← Pondfs.FsInner.record_of_cached pair.isCached]
  exact mirrors.mounted.holds.contents pair.isFile

theorem Mirrors.size_eq (mirrors : Mirrors fs store nodes twin) (stands : Stands fs twin id other)
    (isFile : Pondfs.kind id fs = .file) : Pondfs.size id fs = Ramfs.size other store := by
  rcases mirrors.cases stands with ⟨bytes, pair⟩ | ⟨stored, pair⟩
  · rw [Pondfs.size, (pair.stores mirrors).size, Ramfs.size, pair.data]
  · rw [Pondfs.kind, if_pos pair.kind] at isFile
    cases isFile

theorem Mirrors.readAt (mirrors : Mirrors fs store nodes twin) (stands : Stands fs twin id other)
    {off len : Nat} (small : len < 2 ^ 63) :
    (Pondfs.readAt id off len fs).Relates Exhausted
      (fun bytes after otherBytes store' => bytes = otherBytes ∧ after = fs ∧ store' = store)
      (fun after store' => after = fs ∧ store' = store) (Ramfs.readAt other off len store) := by
  rcases mirrors.cases stands with ⟨bytes, pair⟩ | ⟨stored, pair⟩
  · have bound := (pair.stores mirrors).begins.length_le
    rw [mirrors.mounted.holds.readAt pair.isCached pair.isFile (by omega),
      Ramfs.readAt_of_file pair.otherKind, pair.data]
    exact .ok ⟨rfl, rfl, rfl⟩
  · rw [Pondfs.readAt_of_ne pair.notFile, Ramfs.readAt_of_dir pair.otherKind]
    exact .error ⟨rfl, rfl⟩

theorem Mirrors.readdir (mirrors : Mirrors fs store nodes twin) (stands : Stands fs twin id other) :
    (Pondfs.readdir id fs).Relates Exhausted
      (fun entries after otherEntries store' =>
        entries.Perm otherEntries ∧ after = fs ∧ store' = store)
      (fun after store' => after = fs ∧ store' = store) (Ramfs.readdir other store) := by
  rcases mirrors.cases stands with ⟨bytes, pair⟩ | ⟨stored, pair⟩
  · rw [Pondfs.readdir_of_ne pair.notDir, Ramfs.readdir_of_file pair.otherKind]
    exact .error ⟨rfl, rfl⟩
  · rw [mirrors.mounted.readdir pair.isCached pair.isDir, Ramfs.readdir_of_dir pair.otherKind]
    -- the kinds are those of the inodes that the names stand for
    have perm := (mirrors.dir pair.isTwin pair.isDir).2.map fun child =>
      (child.1, child.2.elim InodeKind.file fun node => (store.entries node).kind)
    rw [List.map_map, List.map_map] at perm
    have kinds : (Pondfs.visible stored).map ((fun child : String × Option Ramfs.NodeId =>
        (child.1, child.2.elim InodeKind.file fun node => (store.entries node).kind)) ∘
          fun entry => (entry.1, twin entry.2.2)) =
        (Pondfs.visible stored).map fun entry => (entry.1, entry.2.1) := by
      apply List.map_congr_left
      intro entry member
      rcases mirrors.child pair.isTwin pair.isDir member with ⟨child, isChild, _⟩
      rw [← Pondfs.Nodes.entries_of_dir pair.isDir] at member
      rcases Option.map_eq_some_iff.mp (mirrors.mounted.catalog.named member) with
        ⟨node, isNode, isKind⟩
      rw [Function.comp_apply, isChild, ← isKind, ← mirrors.kind isChild isNode]
      rfl
    rw [kinds] at perm
    exact .ok ⟨perm.symm, rfl, rfl⟩

theorem Mirrors.lookup (mirrors : Mirrors fs store nodes twin) (stands : Stands fs twin id other)
    (name : String) :
    (Pondfs.lookup id name fs).Relates Exhausted
      (fun child after otherChild store' => ∃ next, Progress fs twin after store' next ∧
        Stands after next child otherChild)
      (fun after store' => ∃ next, Progress fs twin after store' next)
      (Ramfs.lookup other name store) := by
  have mounted := mirrors.mounted
  rcases mirrors.cases stands with ⟨bytes, pair⟩ | ⟨stored, pair⟩
  · rw [Pondfs.lookup_of_ne pair.notDir, Ramfs.lookup_of_file pair.otherKind]
    exact .error ⟨twin, mirrors.progress⟩
  · rw [Ramfs.lookup_of_dir pair.otherKind]
    cases found : (Pondfs.visible stored).find? (fun entry => entry.1 = name) with
    | none =>
      have isNew : ∀ entry ∈ Pondfs.visible stored, entry.1 ≠ name := by
        intro entry member isName
        exact List.find?_eq_none.mp found entry member (decide_eq_true isName)
      rw [mounted.lookup_missing pair.isCached pair.isDir found,
        mirrors.no_child pair.isTwin pair.isDir isNew]
      exact .error ⟨twin, mirrors.progress⟩
    | some entry =>
      have member := List.mem_of_find?_eq_some found
      have isName := Pondfs.name_of_find found
      rcases mirrors.child pair.isTwin pair.isDir member with ⟨child, isChild, isNamed⟩
      rw [mounted.lookup_found pair.isCached pair.isDir found, ← isName, isNamed]
      have isNode := mirrors.inUse isChild
      have loaded : Mirrors (fs.loaded entry.2.2) store nodes twin :=
        ⟨⟨mounted.holds.loaded isNode, mounted.catalog⟩, mirrors.inUse, mirrors.inRange,
          mirrors.distinct, mirrors.file, mirrors.dir⟩
      exact .ok ⟨twin, ⟨⟨nodes, loaded⟩, fun _ _ stands => stands.keeps (mounted.keeps_loaded _)⟩,
        entry.2.2, mounted.node_loaded isNode, isChild⟩

theorem Mirrors.setBytes (mirrors : Mirrors fs store nodes twin) {bytes new : List UInt8}
    (pair : FilePair fs store nodes twin id other bytes)
    (mounted : Pondfs.Mounted after (Function.update nodes (fs.ino id) (some (.file new)))) :
    Mirrors after (store.setEntry other { store.entries other with data := new })
      (Function.update nodes (fs.ino id) (some (.file new))) twin where
  mounted := mounted
  inUse := by
    intro ino known isTwin
    rw [Function.update_apply]
    split
    · exact Option.some_ne_none _
    · exact mirrors.inUse isTwin
  inRange := mirrors.inRange
  distinct := mirrors.distinct
  file := by
    intro ino known bytes' isTwin isFile
    rw [Ramfs.entries_setEntry]
    rw [Function.update_apply] at isFile
    split at isFile
    · next same =>
      rw [same, pair.isTwin] at isTwin
      cases isTwin
      cases isFile
      rw [if_pos rfl]
      exact ⟨pair.otherKind, rfl⟩
    · next different =>
      have apart : known ≠ other := by
        intro same
        exact different (mirrors.distinct isTwin (same ▸ pair.isTwin))
      rw [if_neg apart]
      exact mirrors.file isTwin isFile
  dir := by
    intro ino known stored isTwin isDir
    rw [Function.update_apply] at isDir
    split at isDir
    · cases isDir
    · next different =>
      have apart : known ≠ other := by
        intro same
        exact different (mirrors.distinct isTwin (same ▸ pair.isTwin))
      rw [Ramfs.entries_setEntry, if_neg apart]
      exact mirrors.dir isTwin isDir

theorem Mirrors.writeAt (mirrors : Mirrors fs store nodes twin) (stands : Stands fs twin id other)
    (off : Nat) (buf : List UInt8) :
    (Pondfs.writeAt id off buf fs).Relates Exhausted
      (fun count after otherCount store' => count = otherCount ∧
        ∃ next, Progress fs twin after store' next)
      (fun after store' => ∃ next, Progress fs twin after store' next)
      (Ramfs.writeAt other off buf store) := by
  rcases mirrors.cases stands with ⟨bytes, pair⟩ | ⟨stored, pair⟩
  · have holds := mirrors.mounted.holds
    have writes := holds.writeAt pair.kind off buf
    cases ended : Pondfs.writeAt id off buf fs with
    | ok count after =>
      rw [ended] at writes
      rcases writes with ⟨rfl, middle, written, rfl⟩
      have edits := holds.edits_written pair.isCached written
      have succeeds : Pondfs.Succeeds fs nodes id (.writeAt off buf) (middle.flushInode id) _ :=
        .writeAt pair.isCached pair.isFile written
      have next := mirrors.setBytes pair (succeeds.mounted mirrors.mounted)
      have keeps : KeepsHandles Pondfs.node fs (middle.flushInode id) := by
        intro handle at_ isNode
        rcases Pondfs.node_eq_some.mp isNode with ⟨rfl, isCached⟩
        have sameIno : (middle.flushInode id).ino handle = fs.ino handle := edits.ino handle
        have sameCache : (middle.flushInode id).inodeCache = fs.inodeCache := edits.cache
        rw [Pondfs.node_eq_some, sameIno, sameCache]
        exact ⟨rfl, isCached⟩
      rcases written with ⟨_, _, _, _, _, small, _⟩
      rw [Ramfs.writeAt_of_file pair.otherKind (by omega), pair.data]
      exact .ok ⟨rfl, twin, ⟨_, next⟩, fun _ _ stands => stands.keeps keeps⟩
    | error fault after =>
      rw [ended] at writes
      exact .quit writes.1
    | panic =>
      rw [ended] at writes
      have large : 2 ^ 64 ≤ off + buf.length := writes
      rw [Ramfs.writeAt_panics pair.otherKind (by omega)]
      exact .panic
  · rw [Pondfs.writeAt_of_ne pair.notFile, Ramfs.writeAt_of_dir pair.otherKind]
    exact .error ⟨twin, mirrors.progress⟩

section Create

variable {name : String} {kind : InodeKind} {ino : Nat} {stored : List Pondfs.DirEntry}

theorem Mirrors.old_twins (mirrors : Mirrors fs store nodes twin) {dir : Nat}
    (isDir : nodes dir = some (.dir stored)) (isFree : nodes ino = none)
    (new : Option Ramfs.NodeId) :
    ((Pondfs.visible stored).map fun entry => (entry.1, Function.update twin ino new entry.2.2)) =
      (Pondfs.visible stored).map fun entry => (entry.1, twin entry.2.2) := by
  apply List.map_congr_left
  intro entry member
  rw [← Pondfs.Nodes.entries_of_dir isDir] at member
  have different := mirrors.mounted.catalog.unnamed_of_free isFree dir entry member
  rw [Function.update_of_ne different]

theorem Mirrors.create_new (mirrors : Mirrors fs store nodes twin)
    (pair : DirPair fs store nodes twin id other stored) (isFree : nodes ino = none)
    (isNamed : 0 < name.utf8ByteSize)
    (isNew : Ramfs.getChild (store.entries other).children name = none)
    (mounted : Pondfs.Mounted after (nodes.create (fs.ino id) (name, kind, ino))) :
    Mirrors after (store.addChild other name (Ramfs.emptyEntry kind))
      (nodes.create (fs.ino id) (name, kind, ino))
      (Function.update twin ino (some store.count)) := by
  have inRange := mirrors.inRange pair.isTwin
  have notIno : fs.ino id ≠ ino := (Pondfs.Nodes.ne_of_free pair.isDir isFree).symm
  have atNew : nodes.create (fs.ino id) (name, kind, ino) ino = some (.empty kind) :=
    Pondfs.Nodes.create_new notIno.symm
  have atDir : nodes.create (fs.ino id) (name, kind, ino) (fs.ino id) =
      some (.dir (Pondfs.visible stored ++ [(name, kind, ino)])) :=
    Pondfs.Nodes.create_dir pair.isDir
  have newEntry : (store.addChild other name (Ramfs.emptyEntry kind)).entries store.count =
      Ramfs.emptyEntry kind := by
    rw [Ramfs.entries_addChild, if_neg (Nat.ne_of_gt inRange), if_pos rfl]
  have sameEntry : ∀ {at_ known}, twin at_ = some known → at_ ≠ fs.ino id →
      (store.addChild other name (Ramfs.emptyEntry kind)).entries known =
        store.entries known := by
    intro at_ known isTwin notDir
    have apart : known ≠ other := by
      intro same
      exact notDir (mirrors.distinct isTwin (same ▸ pair.isTwin))
    rw [Ramfs.entries_addChild, if_neg apart, if_neg (Nat.ne_of_lt (mirrors.inRange isTwin))]
  refine ⟨mounted, ?_, ?_, ?_, ?_, ?_⟩
  · intro at_ known isTwin
    rw [Function.update_apply] at isTwin
    split at isTwin
    · next same =>
      rw [same, atNew]
      exact Option.some_ne_none _
    · next different =>
      by_cases isDir : at_ = fs.ino id
      · rw [isDir, atDir]
        exact Option.some_ne_none _
      · rw [Pondfs.Nodes.create_of_ne isDir different]
        exact mirrors.inUse isTwin
  · intro at_ known isTwin
    rw [Function.update_apply] at isTwin
    split at isTwin
    · cases isTwin
      exact Nat.lt_succ_self _
    · exact Nat.lt_succ_of_lt (mirrors.inRange isTwin)
  · intro at_ at_' known isTwin isTwin'
    rw [Function.update_apply] at isTwin isTwin'
    split at isTwin
    · next same =>
      cases isTwin
      split at isTwin'
      · next same' => rw [same, same']
      · exact absurd (mirrors.inRange isTwin') (Nat.lt_irrefl _)
    · split at isTwin'
      · cases isTwin'
        exact absurd (mirrors.inRange isTwin) (Nat.lt_irrefl _)
      · exact mirrors.distinct isTwin isTwin'
  · intro at_ known bytes isTwin isFile
    rw [Function.update_apply] at isTwin
    split at isTwin
    · next same =>
      cases isTwin
      rw [same, atNew] at isFile
      rw [newEntry]
      cases kind with
      | file =>
        cases isFile
        exact ⟨rfl, rfl⟩
      | dir => cases isFile
    · next different =>
      by_cases isDir : at_ = fs.ino id
      · rw [isDir, atDir] at isFile
        cases isFile
      · rw [Pondfs.Nodes.create_of_ne isDir different] at isFile
        rw [sameEntry isTwin isDir]
        exact mirrors.file isTwin isFile
  · intro at_ known stored' isTwin isDir
    rw [Function.update_apply] at isTwin
    split at isTwin
    · next same =>
      cases isTwin
      rw [same, atNew] at isDir
      rw [newEntry]
      cases kind with
      | file => cases isDir
      | dir =>
        cases isDir
        exact ⟨rfl, .nil⟩
    · next different =>
      by_cases isThis : at_ = fs.ino id
      · rw [isThis, pair.isTwin] at isTwin
        cases isTwin
        rw [isThis, atDir] at isDir
        cases isDir
        rw [Ramfs.kind_addChild inRange, Pondfs.visible_concat, if_pos isNamed, List.map_append,
          mirrors.old_twins pair.isDir isFree]
        refine ⟨pair.otherKind, ?_⟩
        rw [Ramfs.entries_addChild, if_pos rfl]
        have inserted := (Ramfs.insertChild_perm isNew store.count).map
          fun child => (child.1, some child.2)
        rw [List.map_append] at inserted
        apply inserted.trans
        rw [List.map_singleton, List.map_singleton, Function.update_self]
        exact (mirrors.dir pair.isTwin pair.isDir).2.append_right _
      · rw [Pondfs.Nodes.create_of_ne isThis different] at isDir
        rw [sameEntry isTwin isThis, mirrors.old_twins isDir isFree]
        exact mirrors.dir isTwin isDir

theorem Mirrors.create (mirrors : Mirrors fs store nodes twin) (stands : Stands fs twin id other)
    (isNamed : 0 < name.utf8ByteSize) (short : name.utf8ByteSize ≤ 65535) :
    (Pondfs.create id name kind fs).Relates Exhausted
      (fun child after otherChild store' => ∃ next, Progress fs twin after store' next ∧
        Stands after next child otherChild)
      (fun after store' => ∃ next, Progress fs twin after store' next)
      (Ramfs.create other name kind store) := by
  have mounted := mirrors.mounted
  rcases mirrors.cases stands with ⟨bytes, pair⟩ | ⟨stored, pair⟩
  · rw [Pondfs.create_of_ne pair.notDir, Ramfs.create_of_file pair.otherKind]
    exact .error ⟨twin, mirrors.progress⟩
  · have creates : (Pondfs.create id name kind fs).Meets _ _ _ :=
      mounted.create pair.isCached pair.isDir
    cases ended : Pondfs.create id name kind fs with
    | ok child after =>
      rw [ended] at creates
      rcases creates with ⟨rfl, isNew, ino, isFree, created⟩
      have unused := mounted.holds.free_of_unused isFree
      have missing := mirrors.no_child pair.isTwin pair.isDir isNew
      have next := mirrors.create_new pair unused isNamed missing
        (mounted.created pair.isCached pair.isDir isFree isNew created)
      rcases mounted.created_handles pair.isCached pair.isDir isFree created with
        ⟨keeps, isChild, _⟩
      rw [Ramfs.create_of_new pair.otherKind missing]
      refine .ok ⟨_, ⟨⟨_, next⟩, ?_⟩, ino, isChild, Function.update_self ..⟩
      intro handle known stands
      rcases stands with ⟨at_, isNode, isTwin⟩
      refine ⟨at_, keeps _ _ isNode, ?_⟩
      have different : at_ ≠ ino := by
        rintro rfl
        exact mirrors.inUse isTwin unused
      rw [Function.update_of_ne different, isTwin]
    | error fault after =>
      rw [ended] at creates
      rcases creates with ⟨rfl, ⟨entry, member, rfl⟩, rfl⟩ | ⟨isExhausted, _⟩
      · rcases mirrors.child pair.isTwin pair.isDir member with ⟨child, _, isChild⟩
        rw [Ramfs.create_of_child pair.otherKind isChild]
        exact .error ⟨twin, mirrors.progress⟩
      · exact .quit isExhausted
    | panic =>
      rw [ended] at creates
      rcases creates with ⟨ino, overflow⟩
      have fits := mounted.length_create_lt ⟨pair.isCached, pair.isDir⟩
        (Nat.lt_of_le_of_lt short (by decide)) kind ino
      exact absurd overflow (Nat.not_le.mpr fits)

end Create

end Methods

/-! ## Sessions -/

/-- Calls that both file systems know: a name has 1 to 65535 bytes, and a buffer is no longer
than a slice can be. -/
def Shared : Method → Prop
  | .readAt _ len => len < 2 ^ 63
  | .create name _ => 0 < name.utf8ByteSize ∧ name.utf8ByteSize ≤ 65535
  | .unlink _ => False
  | _ => True

/-- The same answer. Only files have a size that counts, and entries may come in any order. -/
def Reply.Matches : Reply → Reply → Prop
  | .stat kind₁ size₁, .stat kind₂ size₂ => kind₁ = kind₂ ∧ (kind₁ = .file → size₁ = size₂)
  | .listing entries, .listing entries' => entries.Perm entries'
  | reply, reply' => reply = reply'

def Alike (pond : Session Pondfs.FsInner Pondfs.StateId)
    (ram : Session Ramfs.Store Ramfs.NodeId) : Prop :=
  ∃ nodes twin, Mirrors pond.fs ram.fs nodes twin ∧
    List.Forall₂ (Stands pond.fs twin) pond.handles ram.handles

section Sessions

variable {pond : Session Pondfs.FsInner Pondfs.StateId} {ram : Session Ramfs.Store Ramfs.NodeId}

theorem relates_onFs {α β : Type} {program : Program Pondfs.FsInner FsError α}
    {other : Program Ramfs.Store FsError β} {ok : α → Pondfs.FsInner → β → Ramfs.Store → Prop}
    {error : Pondfs.FsInner → Ramfs.Store → Prop}
    (relates : (program pond.fs).Relates Exhausted ok error (other ram.fs)) :
    (Inode.onFs program pond).Relates Exhausted
      (fun value after otherValue ram' => ok value after.fs otherValue ram'.fs ∧
        after.handles = pond.handles ∧ ram'.handles = ram.handles)
      (fun after ram' => error after.fs ram'.fs ∧ after.handles = pond.handles ∧
        ram'.handles = ram.handles)
      (Inode.onFs other ram) := by
  rw [Inode.onFs, Inode.onFs]
  generalize program pond.fs = outcome at relates
  generalize other ram.fs = otherOutcome at relates
  cases relates with
  | ok known => exact .ok ⟨known, rfl, rfl⟩
  | error known => exact .error ⟨known, rfl, rfl⟩
  | quit known => exact .quit known
  | panic => exact .panic

variable {nodes : Pondfs.Nodes} {twin next : Nat → Option Ramfs.NodeId}

theorem Progress.alike {after : Session Pondfs.FsInner Pondfs.StateId}
    {ram' : Session Ramfs.Store Ramfs.NodeId}
    (progress : Progress pond.fs twin after.fs ram'.fs next)
    (stands : List.Forall₂ (Stands pond.fs twin) pond.handles ram.handles)
    (same : after.handles = pond.handles) (sameRam : ram'.handles = ram.handles) :
    Alike after ram' := by
  rcases progress with ⟨⟨nodes, mirrors⟩, keeps⟩
  refine ⟨nodes, next, mirrors, ?_⟩
  rw [same, sameRam]
  exact stands.imp keeps

theorem relates_reply {α β : Type} {program : Program Pondfs.FsInner FsError α}
    {other : Program Ramfs.Store FsError β} {answers : α → β → Prop} {reply : α → Reply}
    {otherReply : β → Reply}
    (stands : List.Forall₂ (Stands pond.fs twin) pond.handles ram.handles)
    (relates : (program pond.fs).Relates Exhausted
      (fun value after otherValue store' => answers value otherValue ∧
        ∃ next, Progress pond.fs twin after store' next)
      (fun after store' => ∃ next, Progress pond.fs twin after store' next) (other ram.fs))
    (matched : ∀ value otherValue, answers value otherValue →
      (reply value).Matches (otherReply otherValue)) :
    ((do let value ← Inode.onFs program; return reply value :
        Program (Session Pondfs.FsInner Pondfs.StateId) FsError Reply) pond).Relates Exhausted
      (fun reply after otherReply ram' => reply.Matches otherReply ∧ Alike after ram') Alike
      ((do let value ← Inode.onFs other; return otherReply value :
        Program (Session Ramfs.Store Ramfs.NodeId) FsError Reply) ram) := by
  apply Outcome.Relates.bind ((relates_onFs relates).mono (fun _ _ _ _ known => known) _)
  · intro value after otherValue ram' known
    rcases known with ⟨⟨isAnswer, next, progress⟩, same, sameRam⟩
    exact .ok ⟨matched _ _ isAnswer, progress.alike stands same sameRam⟩
  · intro after ram' known
    rcases known with ⟨⟨next, progress⟩, same, sameRam⟩
    exact progress.alike stands same sameRam

theorem relates_handle {program : Program Pondfs.FsInner FsError Pondfs.StateId}
    {other : Program Ramfs.Store FsError Ramfs.NodeId}
    (stands : List.Forall₂ (Stands pond.fs twin) pond.handles ram.handles)
    (relates : (program pond.fs).Relates Exhausted
      (fun child after otherChild store' => ∃ next, Progress pond.fs twin after store' next ∧
        Stands after next child otherChild)
      (fun after store' => ∃ next, Progress pond.fs twin after store' next) (other ram.fs)) :
    ((do let child ← Inode.onFs program; Inode.keepHandle child :
        Program (Session Pondfs.FsInner Pondfs.StateId) FsError Reply) pond).Relates Exhausted
      (fun reply after otherReply ram' => reply.Matches otherReply ∧ Alike after ram') Alike
      ((do let child ← Inode.onFs other; Inode.keepHandle child :
        Program (Session Ramfs.Store Ramfs.NodeId) FsError Reply) ram) := by
  apply Outcome.Relates.bind ((relates_onFs relates).mono (fun _ _ _ _ known => known) _)
  · intro child after otherChild ram' known
    rcases known with ⟨⟨next, progress, isChild⟩, same, sameRam⟩
    rcases progress with ⟨⟨nodes, mirrors⟩, keeps⟩
    refine .ok ⟨rfl, nodes, next, mirrors, ?_⟩
    have old := stands.imp keeps
    rw [← same, ← sameRam] at old
    exact List.rel_append old (.cons isChild .nil)
  · intro after ram' known
    rcases known with ⟨⟨next, progress⟩, same, sameRam⟩
    exact progress.alike stands same sameRam

theorem handle_pair {R : Pondfs.StateId → Ramfs.NodeId → Prop} {handles : List Pondfs.StateId}
    {others : List Ramfs.NodeId} (stands : List.Forall₂ R handles others) (number : Nat) :
    handles[number]? = none ∧ others[number]? = none ∨
      ∃ id other, handles[number]? = some id ∧ others[number]? = some other ∧ R id other := by
  induction stands generalizing number with
  | nil => exact .inl ⟨rfl, rfl⟩
  | @cons id other _ _ isPair _ induction =>
    cases number with
    | zero => exact .inr ⟨id, other, rfl, rfl, isPair⟩
    | succ number => exact induction number

theorem Alike.perform (alike : Alike pond ram) {call : Call} (shared : Shared call.method) :
    (Pondfs.inode.perform call pond).Relates Exhausted
      (fun reply after otherReply ram' => reply.Matches otherReply ∧ Alike after ram') Alike
      (Ramfs.inode.perform call ram) := by
  rcases alike with ⟨nodes, twin, mirrors, stands⟩
  have unchanged : Alike pond ram := ⟨nodes, twin, mirrors, stands⟩
  have stay : ∀ after store', after = pond.fs ∧ store' = ram.fs →
      ∃ next, Progress pond.fs twin after store' next := by
    intro after store' known
    rw [known.1, known.2]
    exact ⟨twin, mirrors.progress⟩
  rw [Inode.perform, Inode.perform, get_bind_apply, get_bind_apply]
  rcases handle_pair stands call.handle with
    ⟨missing, missingToo⟩ | ⟨id, other, isId, isOther, pair⟩
  · rw [missing, missingToo]
    exact .error unchanged
  rw [isId, isOther]
  rcases call with ⟨number, method⟩
  cases method with
  | kind => exact .ok ⟨congrArg Reply.kind (mirrors.kind_eq pair), unchanged⟩
  | stat => exact .ok ⟨⟨mirrors.kind_eq pair, mirrors.size_eq pair⟩, unchanged⟩
  | readAt off len =>
    have same : (Pondfs.readAt id off len pond.fs).Relates Exhausted _ _ _ :=
      mirrors.readAt pair shared
    have reads := same.mono (fun _ _ _ _ known => And.intro known.1 (stay _ _ known.2)) stay
    exact relates_reply stands reads fun _ _ same => congrArg Reply.bytes same
  | writeAt off buf =>
    exact relates_reply stands (mirrors.writeAt pair off buf) fun _ _ same =>
      congrArg Reply.count same
  | lookup name => exact relates_handle stands (mirrors.lookup pair name)
  | readdir =>
    have reads := (mirrors.readdir pair).mono
      (fun _ _ _ _ known => And.intro known.1 (stay _ _ known.2)) stay
    exact relates_reply stands reads fun _ _ same => same
  | create name kind => exact relates_handle stands (mirrors.create pair shared.1 shared.2)
  | unlink name => exact shared.elim

end Sessions

/-! ## Files do not share bytes -/

namespace Pondfs

section Apart

variable {fs after : FsInner} {nodes : Nodes} {id other : StateId} {off len : Nat}

theorem Mounted.readAt_congr {next : Nodes} (mounted : Mounted fs nodes)
    (mountedAfter : Mounted after next) (isCached : fs.inodeCache (fs.ino other) = some other)
    (sameIno : after.ino other = fs.ino other)
    (cachedAfter : after.inodeCache (fs.ino other) = some other)
    (sameNode : next (fs.ino other) = nodes (fs.ino other)) (small : len < 2 ^ 63) :
    (readAt other off len after).value? = (readAt other off len fs).value? := by
  cases isNode : nodes (fs.ino other) with
  | none => exact absurd isNode (mounted.holds.cached isCached).2.2
  | some node =>
    have isNext : next (after.ino other) = some node := by rw [sameIno, sameNode, isNode]
    rw [← sameIno] at cachedAfter
    cases node with
    | file bytes =>
      have stores : Stores fs.dev (fs.record (fs.ino other)) bytes :=
        mounted.holds.contents isNode
      have bound := stores.begins.length_le
      rw [mounted.holds.readAt isCached isNode (by omega),
        mountedAfter.holds.readAt cachedAfter isNext (by omega)]
      rfl
    | dir stored =>
      have different : inodeKindDir ≠ inodeKindFile := by decide
      have notFile : (fs.raw other).kind ≠ inodeKindFile := by
        rw [mounted.holds.raw_kind isCached isNode]
        exact different
      have notFileAfter : (after.raw other).kind ≠ inodeKindFile := by
        rw [mountedAfter.holds.raw_kind cachedAfter isNext]
        exact different
      rw [readAt_of_ne notFile, readAt_of_ne notFileAfter]
      rfl

theorem Mounted.write_apart (mounted : Mounted fs nodes) {off' : Nat} {buf : List UInt8}
    (isCached : fs.inodeCache (fs.ino id) = some id)
    (otherCached : fs.inodeCache (fs.ino other) = some other) (apart : fs.ino id ≠ fs.ino other)
    (ended : (writeAt id off' buf fs).final = some after) (small : len < 2 ^ 63) :
    (readAt other off len after).value? = (readAt other off len fs).value? := by
  have effect := mounted.writeAt_effect (mounted.holds.cached isCached).1 off' buf
  cases outcome : writeAt id off' buf fs with
  | panic =>
    rw [outcome] at ended
    cases ended
  | ok count last =>
    rw [outcome] at effect ended
    cases ended
    rcases effect with ⟨next, succeeds⟩
    have mountedAfter := succeeds.mounted mounted
    cases succeeds with
    | writeAt _ isFile written =>
      have edits := mounted.holds.edits_written isCached written
      exact mounted.readAt_congr mountedAfter otherCached (edits.ino other)
        ((congrFun edits.cache _).trans otherCached) (Function.update_of_ne apart.symm ..) small
  | error fault last =>
    rw [outcome] at effect ended
    cases ended
    rcases effect with ⟨next, fails⟩
    have mountedAfter := fails.mounted mounted
    cases fails with
    | same => rfl
    | writeAt _ grown =>
      exact mounted.readAt_congr mountedAfter otherCached (grown.edits.ino other)
        ((congrFun grown.edits.cache _).trans otherCached) rfl small

end Apart

section Calls

variable {session after : Session FsInner StateId} {number off len : Nat} {id : StateId}
  {buf : List UInt8}

theorem value?_readAt (isHandle : session.handles[number]? = some id) :
    (inode.perform ⟨number, .readAt off len⟩ session).value? =
      (readAt id off len session.fs).value?.map Reply.bytes := by
  rw [perform_of_some isHandle, Inode.invoke, bind_apply, Inode.onFs, inode]
  simp only
  cases readAt id off len session.fs <;> rfl

theorem final_writeAt (isHandle : session.handles[number]? = some id)
    (ended : (inode.perform ⟨number, .writeAt off buf⟩ session).final = some after) :
    after.handles = session.handles ∧ (writeAt id off buf session.fs).final = some after.fs := by
  rw [perform_of_some isHandle, Inode.invoke, bind_apply, Inode.onFs, inode] at ended
  simp only at ended
  cases outcome : writeAt id off buf session.fs with
  | panic =>
    rw [outcome] at ended
    cases ended
  | ok count last =>
    rw [outcome] at ended
    cases ended
    exact ⟨rfl, rfl⟩
  | error fault last =>
    rw [outcome] at ended
    cases ended
    exact ⟨rfl, rfl⟩

end Calls

end Pondfs

/-! ## Runs -/

/-- A call that comes back on both file systems, without PondFS running out of anything. -/
def Both (first : Session Pondfs.FsInner Pondfs.StateId × Session Ramfs.Store Ramfs.NodeId)
    (call : Call)
    (last : Session Pondfs.FsInner Pondfs.StateId × Session Ramfs.Store Ramfs.NodeId) : Prop :=
  Shared call.method ∧ (Pondfs.inode.perform call first.1).final = some last.1 ∧
    (Ramfs.inode.perform call first.2).final = some last.2 ∧
    ∀ fault, (Pondfs.inode.perform call first.1).fault? = some fault → ¬ Exhausted fault

section Runs

variable {img : Pondfs.Disk} {size : UInt64}

theorem alike_start {first : Session Pondfs.FsInner Pondfs.StateId}
    (starts : Pondfs.start? img size ⟨.empty, trivial⟩ = some first) :
    Alike first ⟨.new, [Ramfs.root]⟩ := by
  rcases Pondfs.start?_eq_some starts with ⟨nodes, stored, handles, serves, opens, depicts, _⟩
  have isEmpty : Pondfs.visible stored = [] := by
    generalize Pondfs.visible stored = entries at depicts
    cases depicts
    rfl
  have twins : ∀ {ino other},
      Function.update (fun _ => none) (first.fs.ino 0) (some Ramfs.root) ino = some other →
        ino = first.fs.ino 0 ∧ other = Ramfs.root := by
    intro ino other isTwin
    rw [Function.update_apply] at isTwin
    split at isTwin
    · next same => exact ⟨same, (Option.some.inj isTwin).symm⟩
    · cases isTwin
  refine ⟨nodes, Function.update (fun _ => none) (first.fs.ino 0) (some Ramfs.root), ?_, ?_⟩
  · refine ⟨serves.mounted, ?_, ?_, ?_, ?_, ?_⟩
    · intro ino other isTwin
      rw [(twins isTwin).1, opens.isDir]
      exact Option.some_ne_none _
    · intro ino other isTwin
      rw [(twins isTwin).2]
      exact Nat.zero_lt_one
    · intro ino ino' other isTwin isTwin'
      rw [(twins isTwin).1, (twins isTwin').1]
    · intro ino other bytes isTwin isFile
      rw [(twins isTwin).1, opens.isDir] at isFile
      cases isFile
    · intro ino other stored' isTwin isDir
      rw [(twins isTwin).1, opens.isDir] at isDir
      cases isDir
      rw [isEmpty]
      exact ⟨rfl, .nil⟩
  · rw [handles]
    refine .cons ⟨first.fs.ino 0, Pondfs.node_eq_some.mpr ⟨rfl, opens.isCached⟩, ?_⟩ .nil
    exact Function.update_self ..

theorem Alike.isCached {pond : Session Pondfs.FsInner Pondfs.StateId}
    {ram : Session Ramfs.Store Ramfs.NodeId} (alike : Alike pond ram) {number : Nat}
    {id : Pondfs.StateId} (isHandle : pond.handles[number]? = some id) :
    pond.fs.inodeCache (pond.fs.ino id) = some id := by
  rcases alike with ⟨nodes, twin, mirrors, stands⟩
  rcases handle_pair stands number with ⟨missing, _⟩ | ⟨known, other, isKnown, _, ino, isNode, _⟩
  · rw [missing] at isHandle
    cases isHandle
  · rw [isKnown] at isHandle
    cases isHandle
    exact (Pondfs.node_eq_some.mp isNode).2

theorem Alike.both {first last : Session Pondfs.FsInner Pondfs.StateId ×
      Session Ramfs.Store Ramfs.NodeId} {call : Call} (alike : Alike first.1 first.2)
    (both : Both first call last) : Alike last.1 last.2 := by
  rcases both with ⟨shared, ended, otherEnded, stays⟩
  have relates := (alike.perform shared).mono (fun _ _ _ _ known => known.2) fun _ _ known => known
  exact relates.of_final stays ended otherEnded

/-- An empty RamFS and PondFS on a new image answer the same calls alike until PondFS runs out of
something; and writing to a file changes no other file. -/
theorem ramfs_pondfs_agree (img : Pondfs.Disk) (size : UInt64)
    (start : Session Pondfs.FsInner Pondfs.StateId)
    (starts : Pondfs.start? img size ⟨.empty, trivial⟩ = some start) (calls : List Call)
    (pond : Session Pondfs.FsInner Pondfs.StateId) (ram : Session Ramfs.Store Ramfs.NodeId)
    (trace : Trace Both (start, ⟨.new, [Ramfs.root]⟩) calls (pond, ram)) (call : Call)
    (shared : Shared call.method) :
    (Pondfs.inode.perform call pond).Relates Exhausted
      (fun reply _ otherReply _ => reply.Matches otherReply) (fun _ _ => True)
      (Ramfs.inode.perform call ram) ∧
    ∀ number off buf id other otherId off' len after,
      pond.handles[number]? = some id → pond.handles[other]? = some otherId →
      pond.fs.ino id ≠ pond.fs.ino otherId → len < 2 ^ 63 →
      (Pondfs.inode.perform ⟨number, .writeAt off buf⟩ pond).final = some after →
      (Pondfs.inode.perform ⟨other, .readAt off' len⟩ after).value? =
        (Pondfs.inode.perform ⟨other, .readAt off' len⟩ pond).value? := by
  have alike : Alike pond ram := by
    apply trace.invariant (fun pair => Alike pair.1 pair.2) _ (alike_start starts)
    intro current call next alike both
    exact alike.both both
  constructor
  · exact (alike.perform shared).mono (fun _ _ _ _ known => known.1) fun _ _ _ => trivial
  · intro number off buf id other otherId off' len after isHandle isOther apart small ended
    rcases Pondfs.final_writeAt isHandle ended with ⟨sameHandles, writes⟩
    have otherAfter : after.handles[other]? = some otherId := sameHandles ▸ isOther
    have isCached := alike.isCached isHandle
    have otherCached := alike.isCached isOther
    rcases alike with ⟨nodes, twin, mirrors, stands⟩
    rw [Pondfs.value?_readAt otherAfter, Pondfs.value?_readAt isOther,
      mirrors.mounted.write_apart isCached otherCached apart writes small]

/-- A file on an image of 64 blocks. -/
theorem ramfs_pondfs_agree_file : ∃ start pond ram,
    Pondfs.start? (fun _ => Block.zero) 262144 ⟨.empty, trivial⟩ = some start ∧
    Trace Both (start, ⟨.new, [Ramfs.root]⟩) [⟨0, .create "a" .file⟩] (pond, ram) ∧
    (Pondfs.inode.perform ⟨0, .readdir⟩ pond).Relates Exhausted
      (fun reply _ otherReply _ => reply.Matches otherReply) (fun _ _ => True)
      (Ramfs.inode.perform ⟨0, .readdir⟩ ram) := by
  have creates : ((Pondfs.start? (fun _ => Block.zero) 262144 ⟨.empty, trivial⟩).bind fun start =>
      (Pondfs.inode.perform ⟨0, .create "a" .file⟩ start).value?.map fun _ => ()) = some () := by
    decide +kernel
  rcases Option.bind_eq_some_iff.mp creates with ⟨start, starts, returns⟩
  rcases Option.map_eq_some_iff.mp returns with ⟨reply, returned, _⟩
  have performed := Outcome.eq_ok_of_value? returned start
  generalize (Pondfs.inode.perform ⟨0, .create "a" .file⟩ start).final.getD start = pond
    at performed
  have step : Both (start, ⟨.new, [Ramfs.root]⟩) ⟨0, .create "a" .file⟩
      (pond, ⟨Ramfs.Store.new.addChild 0 "a" (Ramfs.newFile []), [0, 1]⟩) := by
    refine ⟨⟨by decide, by decide⟩, congrArg Outcome.final performed, rfl, ?_⟩
    intro fault failed
    rw [performed] at failed
    cases failed
  have trace := Trace.single step
  exact ⟨start, _, _, starts, trace, (ramfs_pondfs_agree _ _ start starts _ _ _ trace
    ⟨0, .readdir⟩ trivial).1⟩

end Runs

end PersonaOS.Fs
