import PersonaOS.Fs.Paths
import PersonaOS.Fs.Sessions

/-! # The mounted file systems

PondFS provides the directories of its catalog. The kernel has any number of file systems,
each of them RamFS or PondFS, under one type of handles. -/

namespace PersonaOS.Fs

open Program

namespace Pondfs

def Node.listing : Node → Option (List DirEntry)
  | .file _ => none
  | .dir stored => some (visible stored)

def Nodes.listing (nodes : Nodes) : Listings Nat := fun ino => (nodes ino).bind Node.listing

/-- The directories as a caller sees them. -/
def Shows (fs : FsInner) (dirs : Listings Nat) : Prop :=
  ∃ nodes, Mounted fs nodes ∧ dirs = nodes.listing

/-- The inode that a state in the cache stands for. -/
def node (fs : FsInner) (id : StateId) : Option Nat :=
  if fs.inodeCache (fs.ino id) = some id then some (fs.ino id) else none

section Listing

variable {fs after : FsInner} {nodes : Nodes} {id : StateId} {stored : List DirEntry}

theorem node_eq_some {at_ : Nat} :
    node fs id = some at_ ↔ at_ = fs.ino id ∧ fs.inodeCache (fs.ino id) = some id := by
  rw [node]
  split
  · next isCached =>
    rw [Option.some_inj]
    exact ⟨fun same => ⟨same.symm, isCached⟩, fun known => known.1.symm⟩
  · next uncached => exact iff_of_false (Option.some_ne_none _).symm fun known => uncached known.2

theorem Nodes.listing_of_dir {dir : Nat} (isDir : nodes dir = some (.dir stored)) :
    nodes.listing dir = some (visible stored) := by
  rw [Nodes.listing, isDir]
  rfl

theorem Nodes.listing_eq_some {dir : Nat} {entries : List DirEntry} :
    nodes.listing dir = some entries ↔
      ∃ stored, nodes dir = some (.dir stored) ∧ visible stored = entries := by
  rw [Nodes.listing, Option.bind_eq_some_iff]
  constructor
  · intro listed
    rcases listed with ⟨node, isNode, isListing⟩
    cases node with
    | file bytes => cases isListing
    | dir stored => exact ⟨stored, isNode, Option.some.inj isListing⟩
  · intro listed
    rcases listed with ⟨stored, isDir, rfl⟩
    exact ⟨_, isDir, rfl⟩

theorem Mounted.dir_or_not (mounted : Mounted fs nodes)
    (isCached : fs.inodeCache (fs.ino id) = some id) :
    (∃ stored, nodes (fs.ino id) = some (.dir stored)) ∨
      (fs.raw id).kind ≠ inodeKindDir ∧ nodes.listing (fs.ino id) = none := by
  cases isNode : nodes (fs.ino id) with
  | none => exact absurd isNode (mounted.holds.cached isCached).2.2
  | some node =>
    cases node with
    | dir stored => exact .inl ⟨stored, rfl⟩
    | file bytes =>
      right
      rw [mounted.holds.raw_kind isCached isNode, Nodes.listing, isNode]
      exact ⟨show inodeKindFile ≠ inodeKindDir by decide, rfl⟩

theorem Mounted.keeps_loaded (mounted : Mounted fs nodes) (ino : Nat) :
    KeepsHandles node fs (fs.loaded ino) := by
  intro handle at_ known
  rcases node_eq_some.mp known with ⟨rfl, isCached⟩
  have inRange := (mounted.holds.cached isCached).1
  rw [node_eq_some, FsInner.ino_loaded inRange]
  exact ⟨rfl, FsInner.cache_loaded_of_cached isCached ino⟩

theorem Mounted.node_loaded (mounted : Mounted fs nodes) {ino : Nat} (isNode : nodes ino ≠ none) :
    node (fs.loaded ino) (fs.loadedId ino) = some ino := by
  have isCached := fs.cache_loaded ino
  have isIno := ((mounted.holds.loaded isNode).cached isCached).2.1
  rw [node_eq_some, isIno]
  exact ⟨rfl, isCached⟩

theorem gains_create {dir : Nat} {entry : DirEntry} (isDir : nodes dir = some (.dir stored))
    (isFree : nodes entry.2.2 = none) (isNew : ∀ other ∈ visible stored, other.1 ≠ entry.1)
    (isNamed : entry.1 ≠ "") : nodes.listing.Gains (nodes.create dir entry).listing dir entry where
  here := by
    have size : 0 < entry.1.utf8ByteSize := by
      apply Nat.pos_of_ne_zero
      intro isEmpty
      exact isNamed (String.utf8ByteSize_eq_zero_iff.mp isEmpty)
    refine ⟨visible stored, [], ?_, ?_, ?_⟩
    · rw [List.append_nil, Nodes.listing_of_dir isDir]
    · rw [Nodes.listing_of_dir (Nodes.create_dir isDir), visible_concat, if_pos size]
    · rwa [List.append_nil]
  elsewhere := by
    intro other entries different isListed
    rcases Nodes.listing_eq_some.mp isListed with ⟨stored, isOther, rfl⟩
    apply Nodes.listing_of_dir
    have notNew : other ≠ entry.2.2 := (Nodes.ne_of_free isOther isFree).symm
    rw [Nodes.create_of_ne different notNew, isOther]

theorem Mounted.created_handles (mounted : Mounted fs nodes)
    (isCached : fs.inodeCache (fs.ino id) = some id)
    (isDir : nodes (fs.ino id) = some (.dir stored)) {name : String} {kind : InodeKind} {ino : Nat}
    (isFree : fs.FreeIno ino)
    (created : Created id (visible stored) (name, kind, ino) fs after) :
    KeepsHandles node fs after ∧ node after fs.stateCount = some ino ∧
      after.raw fs.stateCount = newRaw kind := by
  rcases created with ⟨middle, rewritten, rfl⟩
  have edits := mounted.edits_created isCached isDir isFree rewritten
  have sameCount : (middle.flushInode id).stateCount = fs.stateCount := edits.count
  have sameCache : (middle.flushInode id).inodeCache = fs.inodeCache := edits.cache
  have sameIno : ∀ other, (middle.flushInode id).ino other = fs.ino other := edits.ino
  have uncached := mounted.holds.uncached_of_free (mounted.holds.free_of_unused isFree)
  rw [← sameCount]
  generalize middle.flushInode id = flushed at *
  refine ⟨?_, ?_, ?_⟩
  · intro handle at_ known
    rcases node_eq_some.mp known with ⟨rfl, wasCached⟩
    have old : handle ≠ flushed.stateCount := by
      rw [sameCount]
      exact Nat.ne_of_lt (mounted.holds.cached wasCached).1
    have different : fs.ino handle ≠ ino := by
      intro same
      rw [same, uncached] at wasCached
      cases wasCached
    have isIno : (flushed.insertState ⟨ino, newRaw kind⟩).ino handle = fs.ino handle := by
      rw [FsInner.ino, FsInner.states_insertState, if_neg old, ← FsInner.ino, sameIno]
    rw [node_eq_some, isIno, FsInner.cache_insertState, if_neg different, sameCache]
    exact ⟨rfl, wasCached⟩
  · have isIno : (flushed.insertState ⟨ino, newRaw kind⟩).ino flushed.stateCount = ino := by
      rw [FsInner.ino, FsInner.states_insertState, if_pos rfl]
    rw [node_eq_some, isIno, FsInner.cache_insertState, if_pos rfl]
    exact ⟨rfl, rfl⟩
  · rw [FsInner.raw, FsInner.states_insertState, if_pos rfl]

end Listing

theorem provides : Provides inode Shows node where
  unique := by
    intro fs dirs shown handle other at_ known otherKnown
    rcases node_eq_some.mp known with ⟨rfl, isCached⟩
    rcases node_eq_some.mp otherKnown with ⟨same, otherCached⟩
    rw [← same, isCached] at otherCached
    exact Option.some.inj otherCached
  lookup := by
    intro fs dirs shown id at_ known name
    rcases shown with ⟨nodes, mounted, rfl⟩
    rcases node_eq_some.mp known with ⟨rfl, isCached⟩
    rcases mounted.dir_or_not isCached with ⟨stored, isDir⟩ | ⟨notDir, unlisted⟩
    · rw [Listings.child_of_dir (Nodes.listing_of_dir isDir)]
      generalize found : (visible stored).find? (fun entry => entry.1 = name) = result
      cases result with
      | none =>
        simp only [inode, mounted.lookup_missing isCached isDir found]
        exact ⟨⟨nodes, mounted, rfl⟩, KeepsHandles.refl node fs, rfl⟩
      | some entry =>
        have member := List.mem_of_find?_eq_some found
        rw [← Nodes.entries_of_dir isDir] at member
        have isNode := mounted.named member
        simp only [inode, mounted.lookup_found isCached isDir found]
        exact ⟨⟨nodes, ⟨mounted.holds.loaded isNode, mounted.catalog⟩, rfl⟩,
          mounted.keeps_loaded _, _, rfl, mounted.node_loaded isNode⟩
    · simp only [inode, lookup_of_ne notDir, Listings.child, unlisted]
      exact ⟨⟨nodes, mounted, rfl⟩, KeepsHandles.refl node fs, rfl⟩
  readdir := by
    intro fs dirs shown id at_ entries known isListed
    rcases shown with ⟨nodes, mounted, rfl⟩
    rcases node_eq_some.mp known with ⟨rfl, isCached⟩
    rcases Nodes.listing_eq_some.mp isListed with ⟨stored, isDir, rfl⟩
    exact mounted.readdir isCached isDir
  create := by
    intro fs dirs shown id at_ known name isNamed kind
    rcases shown with ⟨nodes, mounted, rfl⟩
    rcases node_eq_some.mp known with ⟨rfl, isCached⟩
    rcases mounted.dir_or_not isCached with ⟨stored, isDir⟩ | ⟨notDir, _⟩
    · apply (mounted.create isCached isDir).mono _ (fun _ _ _ => trivial) fun _ => trivial
      intro child after created
      rcases created with ⟨rfl, isNew, ino, isFree, created⟩
      have next := mounted.created isCached isDir isFree isNew created
      rcases mounted.created_handles isCached isDir isFree created with ⟨keeps, isChild, isRaw⟩
      refine ⟨_, ino, ⟨_, next, rfl⟩, keeps,
        gains_create isDir (mounted.holds.free_of_unused isFree) isNew isNamed, isChild, ?_, ?_⟩
      · simp only [inode, Pondfs.kind, isRaw]
        cases kind <;> rfl
      · simp only [inode, size, isRaw]
        rfl
    · simp only [inode, create_of_ne notDir]
      exact trivial

end Pondfs

/-! ## Volumes -/

/-- A mounted file system of either kind. -/
abbrev Volume := Ramfs.Store ⊕ Pondfs.FsInner

/-- An inode: its volume, and its number or state there. -/
abbrev Handle := Nat × Nat

namespace Volume

def inode : Inode (Nat → Volume) Handle := (Ramfs.inode.either Pondfs.inode).several

def Shows : (Nat → Volume) → Listings (Nat × Nat) → Prop :=
  ShowsAll (Sum.elim Ramfs.Shows Pondfs.Shows)

def node : (Nat → Volume) → Handle → Option (Nat × Nat) :=
  nodeOf (Sum.elim Ramfs.node Pondfs.node)

theorem provides : Provides inode Shows node := (Ramfs.provides.either Pondfs.provides).several

end Volume

end PersonaOS.Fs
