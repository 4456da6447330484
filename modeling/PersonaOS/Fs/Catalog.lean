import Mathlib.Data.List.Flatten
import Mathlib.Data.List.TakeWhile
import PersonaOS.Fs.Directory

/-! # The directories of a volume

What PondFS keeps, without blocks and records: each inode in use is a file with its bytes
or a directory with entries that name other inodes. In a catalog every entry names an inode of
its kind, no inode is named twice, and names lead away from the root. Directories that were
unlinked with entries in them leave their children behind, so not every inode need be named. -/

namespace PersonaOS.Fs.Pondfs

/-- What an inode in use stands for. -/
inductive Node where
  | file (bytes : List UInt8)
  | dir (stored : List DirEntry)

namespace Node

def kind : Node → InodeKind
  | .file _ => .file
  | .dir _ => .dir

/-- The entries that a reader of the directory comes to. -/
def entries : Node → List DirEntry
  | .file _ => []
  | .dir stored => visible stored

def empty : InodeKind → Node
  | .file => .file []
  | .dir => .dir []

/-- The blocks of the inode hold the node. -/
def StoredIn : Node → Disk → RawInode → Prop
  | .file bytes, dev, raw => Stores dev raw bytes
  | .dir stored, dev, raw => Begins dev raw (serialize stored)

@[simp] theorem kind_empty (kind : InodeKind) : (empty kind).kind = kind := by
  cases kind <;> rfl

@[simp] theorem entries_empty (kind : InodeKind) : (empty kind).entries = [] := by
  cases kind <;> rfl

theorem StoredIn.congr {node : Node} {dev dev' : Disk} {raw raw' : RawInode}
    (isStored : node.StoredIn dev raw) (size : raw'.size = raw.size)
    (old : ∀ i, raw.slot i ≠ 0 → raw'.slot i = raw.slot i ∧ dev' (raw.slot i) = dev (raw.slot i))
    (new : ∀ i, raw.slot i = 0 → raw'.slot i ≠ 0 → dev' (raw'.slot i) = Block.zero) :
    node.StoredIn dev' raw' := by
  cases node with
  | file bytes => exact Stores.congr isStored size old new
  | dir stored => exact Begins.congr isStored size old

theorem StoredIn.congr_dev {node : Node} {dev dev' : Disk} {raw : RawInode}
    (isStored : node.StoredIn dev raw)
    (same : ∀ i, raw.slot i ≠ 0 → dev' (raw.slot i) = dev (raw.slot i)) :
    node.StoredIn dev' raw :=
  isStored.congr rfl (fun i hasBlock => ⟨rfl, same i hasBlock⟩)
    fun _ isEmpty hasBlock => absurd isEmpty hasBlock

theorem storedIn_empty {kind : InodeKind} {dev : Disk} {raw : RawInode} (isEmpty : raw.size = 0)
    (noBlocks : ∀ i, raw.slot i = 0) : (empty kind).StoredIn dev raw := by
  cases kind with
  | file =>
    exact ⟨by rw [isEmpty]; rfl, fun i inside => absurd inside (Nat.not_lt_zero _),
      fun k hasBlock => absurd (noBlocks _) hasBlock⟩
  | dir => exact .of_size_zero isEmpty

end Node

/-! ## Visible entries -/

section Visible

variable {entries : List DirEntry}

theorem visible_sublist (entries : List DirEntry) : (visible entries).Sublist entries :=
  List.takeWhile_sublist _

theorem length_serialize_visible (entries : List DirEntry) :
    (serialize (visible entries)).length ≤ (serialize entries).length :=
  ((visible_sublist entries).flatMap entryBytes).length_le

theorem pos_of_mem_visible {entry : DirEntry} (shown : entry ∈ visible entries) :
    0 < entry.1.utf8ByteSize := by
  have isNamed := List.mem_takeWhile_imp shown
  exact of_decide_eq_true isNamed

theorem visible_of_forall (named : ∀ entry ∈ entries, 0 < entry.1.utf8ByteSize) :
    visible entries = entries :=
  List.takeWhile_eq_self_iff.mpr fun entry member => decide_eq_true (named entry member)

theorem visible_of_sublist {some_ : List DirEntry} (sublist : some_.Sublist (visible entries)) :
    visible some_ = some_ :=
  visible_of_forall fun _ member => pos_of_mem_visible (sublist.mem member)

theorem visible_concat (entries : List DirEntry) (entry : DirEntry) :
    visible (visible entries ++ [entry]) =
      if 0 < entry.1.utf8ByteSize then visible entries ++ [entry] else visible entries := by
  have all : ∀ entry ∈ visible entries, decide (0 < entry.1.utf8ByteSize) = true :=
    fun entry shown => decide_eq_true (pos_of_mem_visible shown)
  rw [visible, List.takeWhile_append_of_pos all]
  split
  · next isNamed => rw [List.takeWhile_cons_of_pos (by simpa using isNamed), List.takeWhile_nil]
  · next isBlank => rw [List.takeWhile_cons_of_neg (by simpa using isBlank), List.append_nil]

theorem ne_of_mem_eraseP {name : String} {entry : DirEntry}
    (distinct : (entries.map Prod.fst).Nodup)
    (member : entry ∈ entries.eraseP fun entry => entry.1 = name) : entry.1 ≠ name := by
  induction entries with
  | nil => cases member
  | cons first entries induction =>
    rw [List.map_cons, List.nodup_cons] at distinct
    by_cases isName : first.1 = name
    · rw [List.eraseP_cons_of_pos (by simpa using isName)] at member
      intro same
      exact distinct.1 (isName ▸ same ▸ List.mem_map_of_mem member)
    · rw [List.eraseP_cons_of_neg (by simpa using isName)] at member
      rcases List.mem_cons.mp member with isFirst | isLater
      · rwa [isFirst]
      · exact induction distinct.2 isLater

theorem mem_eraseP_of_ne {name : String} {entry : DirEntry} (member : entry ∈ entries)
    (different : entry.1 ≠ name) : entry ∈ entries.eraseP fun entry => entry.1 = name :=
  (List.mem_eraseP_of_neg (by simpa using different)).mpr member

theorem name_of_find {name : String} {entry : DirEntry}
    (found : entries.find? (fun entry => entry.1 = name) = some entry) : entry.1 = name := by
  have isName := List.find?_some found
  exact of_decide_eq_true isName

end Visible

/-! ## Catalogs -/

/-- The inodes in use, by number. -/
abbrev Nodes := Nat → Option Node

def Nodes.entries (nodes : Nodes) (ino : Nat) : List DirEntry := (nodes ino).elim [] Node.entries

/-- The directories form a forest: an inode has one entry at most, and the root has none. -/
structure Catalog (nodes : Nodes) : Prop where
  root : ∃ stored, nodes rootIno = some (.dir stored)
  valid : ∀ {ino stored}, nodes ino = some (.dir stored) → ∀ entry ∈ stored, ValidEntry entry
  names : ∀ ino, ((nodes.entries ino).map Prod.fst).Nodup
  named : ∀ {dir entry}, entry ∈ nodes.entries dir →
    (nodes entry.2.2).map Node.kind = some entry.2.1
  once : ∀ {dir other entry same}, entry ∈ nodes.entries dir → same ∈ nodes.entries other →
    entry.2.2 = same.2.2 → dir = other ∧ entry = same
  ranked : ∃ rank : Nat → Nat, rank rootIno = 0 ∧
    ∀ {dir entry}, entry ∈ nodes.entries dir → rank dir < rank entry.2.2

def Nodes.Unnamed (nodes : Nodes) (ino : Nat) : Prop :=
  ∀ dir, ∀ entry ∈ nodes.entries dir, entry.2.2 ≠ ino

/-- The inode is the root or is named by the entries on a path from it. -/
inductive Reach (nodes : Nodes) : Nat → Prop
  | root : Reach nodes rootIno
  | entry {dir : Nat} {entry : DirEntry} :
      Reach nodes dir → entry ∈ nodes.entries dir → Reach nodes entry.2.2

namespace Nodes

def create (nodes : Nodes) (dir : Nat) (entry : DirEntry) : Nodes :=
  Function.update (Function.update nodes entry.2.2 (some (.empty entry.2.1))) dir
    (some (.dir (nodes.entries dir ++ [entry])))

/-- A `create` that fails has taken an inode and emptied the directory. -/
def abandon (nodes : Nodes) (dir : Nat) (kind : InodeKind) (ino : Nat) : Nodes :=
  Function.update (Function.update nodes ino (some (.empty kind))) dir (some (.dir []))

def remove (nodes : Nodes) (dir ino : Nat) (remaining : List DirEntry) : Nodes :=
  Function.update (Function.update nodes ino none) dir (some (.dir remaining))

variable {nodes : Nodes} {ino other : Nat}

theorem entries_update (node : Option Node) :
    entries (Function.update nodes ino node) other =
      if other = ino then node.elim [] Node.entries else nodes.entries other := by
  rw [entries, Function.update_apply, apply_ite (Option.elim · [] Node.entries), ← entries]

theorem entries_of_none (isFree : nodes ino = none) : nodes.entries ino = [] := by
  rw [entries, isFree]
  rfl

theorem entries_of_dir {stored : List DirEntry} (isDir : nodes ino = some (.dir stored)) :
    nodes.entries ino = visible stored := by
  rw [entries, isDir]
  rfl

theorem ne_of_free {node : Node} (isNode : nodes other = some node)
    (isFree : nodes ino = none) : ino ≠ other := by
  rintro rfl
  rw [isFree] at isNode
  cases isNode

theorem entries_addNode (isFree : nodes ino = none) (kind : InodeKind) (dir : Nat) :
    entries (Function.update nodes ino (some (.empty kind))) dir = nodes.entries dir := by
  rw [entries_update]
  split
  · next isNew =>
    rw [isNew, entries_of_none isFree]
    exact Node.entries_empty kind
  · rfl

section Create

variable {dir : Nat} {entry : DirEntry} {stored : List DirEntry}

theorem create_dir (isDir : nodes dir = some (.dir stored)) :
    nodes.create dir entry dir = some (.dir (visible stored ++ [entry])) := by
  rw [create, Function.update_self, entries_of_dir isDir]

theorem create_new (different : entry.2.2 ≠ dir) :
    nodes.create dir entry entry.2.2 = some (.empty entry.2.1) := by
  rw [create, Function.update_of_ne different, Function.update_self]

theorem create_of_ne (notDir : ino ≠ dir) (notNew : ino ≠ entry.2.2) :
    nodes.create dir entry ino = nodes ino := by
  rw [create, Function.update_of_ne notDir, Function.update_of_ne notNew]

end Create

end Nodes

namespace Catalog

variable {nodes after : Nodes} (catalog : Catalog nodes)

include catalog

theorem ne_root {dir : Nat} {entry : DirEntry} (member : entry ∈ nodes.entries dir) :
    entry.2.2 ≠ rootIno := by
  rcases catalog.ranked with ⟨rank, isRoot, above⟩
  intro isEntry
  have higher := above member
  rw [isEntry, isRoot] at higher
  exact Nat.not_lt_zero _ higher

theorem ne_dir {dir : Nat} {entry : DirEntry} (member : entry ∈ nodes.entries dir) :
    entry.2.2 ≠ dir := by
  rcases catalog.ranked with ⟨rank, _, above⟩
  intro isEntry
  exact absurd (above member) (by rw [isEntry]; exact Nat.lt_irrefl _)

theorem unnamed_of_free {ino : Nat} (isFree : nodes ino = none) : nodes.Unnamed ino := by
  intro dir entry member isEntry
  have named := catalog.named member
  rw [isEntry, isFree] at named
  cases named

theorem of_sublist (root : ∃ stored, after rootIno = some (.dir stored))
    (valid : ∀ {ino stored}, after ino = some (.dir stored) → ∀ entry ∈ stored, ValidEntry entry)
    (fewer : ∀ dir, (after.entries dir).Sublist (nodes.entries dir))
    (kept : ∀ {dir entry}, entry ∈ after.entries dir →
      (after entry.2.2).map Node.kind = (nodes entry.2.2).map Node.kind) : Catalog after where
  root := root
  valid := valid
  names ino := (catalog.names ino).sublist ((fewer ino).map _)
  named member := by
    rw [kept member]
    exact catalog.named ((fewer _).mem member)
  once here there same := catalog.once ((fewer _).mem here) ((fewer _).mem there) same
  ranked := by
    rcases catalog.ranked with ⟨rank, isRoot, above⟩
    exact ⟨rank, isRoot, fun member => above ((fewer _).mem member)⟩

theorem addNode {ino : Nat} (isFree : nodes ino = none) (kind : InodeKind) :
    Catalog (Function.update nodes ino (some (.empty kind))) := by
  apply catalog.of_sublist
  · rcases catalog.root with ⟨stored, isRoot⟩
    have different := (Nodes.ne_of_free isRoot isFree).symm
    exact ⟨stored, by rw [Function.update_of_ne different, isRoot]⟩
  · intro other stored isDir
    rw [Function.update_apply] at isDir
    split at isDir
    · cases kind with
      | file => cases isDir
      | dir =>
        cases isDir
        simp
    · exact catalog.valid isDir
  · intro dir
    rw [Nodes.entries_addNode isFree]
  · intro dir entry member
    rw [Nodes.entries_addNode isFree] at member
    rw [Function.update_of_ne (catalog.unnamed_of_free isFree dir entry member)]

theorem setStored {dir : Nat} {stored fewer : List DirEntry}
    (isDir : nodes dir = some (.dir stored))
    (valid : ∀ entry ∈ fewer, ValidEntry entry)
    (sublist : (visible fewer).Sublist (visible stored)) :
    Catalog (Function.update nodes dir (some (.dir fewer))) := by
  apply catalog.of_sublist
  · rcases catalog.root with ⟨atRoot, isRoot⟩
    by_cases same : rootIno = dir
    · exact ⟨fewer, by rw [same, Function.update_self]⟩
    · exact ⟨atRoot, by rw [Function.update_of_ne same, isRoot]⟩
  · intro other atOther isOther
    rw [Function.update_apply] at isOther
    split at isOther
    · cases isOther
      exact valid
    · exact catalog.valid isOther
  · intro other
    rw [Nodes.entries_update]
    split
    · next same =>
      rw [same, Nodes.entries_of_dir isDir]
      exact sublist
    · exact .refl _
  · intro other entry _
    rw [Function.update_apply]
    split
    · next same =>
      rw [same, isDir]
      rfl
    · rfl

theorem setBytes {ino : Nat} {bytes : List UInt8} (isFile : nodes ino = some (.file bytes))
    (new : List UInt8) : Catalog (Function.update nodes ino (some (.file new))) := by
  have sameEntries : ∀ dir, Nodes.entries (Function.update nodes ino (some (.file new))) dir =
      nodes.entries dir := by
    intro dir
    rw [Nodes.entries_update]
    split
    · next same =>
      rw [same, Nodes.entries, isFile]
      rfl
    · rfl
  apply catalog.of_sublist
  · rcases catalog.root with ⟨stored, isRoot⟩
    have different : rootIno ≠ ino := by
      rintro rfl
      rw [isFile] at isRoot
      cases isRoot
    exact ⟨stored, by rw [Function.update_of_ne different, isRoot]⟩
  · intro other stored isDir
    rw [Function.update_apply] at isDir
    split at isDir
    · cases isDir
    · exact catalog.valid isDir
  · intro dir
    rw [sameEntries]
  · intro dir entry _
    rw [Function.update_apply]
    split
    · next same =>
      rw [same, isFile]
      rfl
    · rfl

theorem dropNode {ino : Nat} (unnamed : nodes.Unnamed ino) (notRoot : ino ≠ rootIno) :
    Catalog (Function.update nodes ino none) := by
  have fewer : ∀ dir, (Nodes.entries (Function.update nodes ino none) dir).Sublist
      (nodes.entries dir) := by
    intro dir
    rw [Nodes.entries_update]
    split
    · exact List.nil_sublist _
    · exact .refl _
  apply catalog.of_sublist
  · rcases catalog.root with ⟨stored, isRoot⟩
    exact ⟨stored, by rw [Function.update_of_ne notRoot.symm, isRoot]⟩
  · intro other stored isDir
    rw [Function.update_apply] at isDir
    split at isDir
    · cases isDir
    · exact catalog.valid isDir
  · exact fewer
  · intro dir entry member
    rw [Function.update_of_ne (unnamed dir entry ((fewer dir).mem member))]

theorem addEntry {dir ino : Nat} {stored : List DirEntry} {name : String} {kind : InodeKind}
    (isDir : nodes dir = some (.dir stored)) (isNode : nodes ino = some (.empty kind))
    (unnamed : nodes.Unnamed ino) (notRoot : ino ≠ rootIno) (notDir : ino ≠ dir)
    (valid : ValidEntry (name, kind, ino)) (isNew : ∀ entry ∈ visible stored, entry.1 ≠ name) :
    Catalog (Function.update nodes dir (some (.dir (visible stored ++ [(name, kind, ino)])))) := by
  have allValid : ∀ entry ∈ visible stored ++ [(name, kind, ino)], ValidEntry entry := by
    intro entry member
    rcases List.mem_append.mp member with isOld | isLast
    · exact catalog.valid isDir entry ((visible_sublist stored).mem isOld)
    · rw [List.mem_singleton.mp isLast]
      exact valid
  by_cases isBlank : ¬ 0 < name.utf8ByteSize
  · apply catalog.setStored isDir allValid
    rw [visible_concat, if_neg isBlank]
  · have isNamed : 0 < name.utf8ByteSize := Decidable.not_not.mp isBlank
    have mem_entries : ∀ other entry, entry ∈ Nodes.entries (Function.update nodes dir
        (some (.dir (visible stored ++ [(name, kind, ino)])))) other ↔
        entry ∈ nodes.entries other ∨ other = dir ∧ entry = (name, kind, ino) := by
      intro other entry
      rw [Nodes.entries_update]
      split
      · next same =>
        rw [same, Nodes.entries_of_dir isDir]
        simp only [Option.elim_some, Node.entries, visible_concat, if_pos isNamed, List.mem_append,
          List.mem_singleton, true_and]
      · next different => simp [different]
    have kinds : ∀ other, (Function.update nodes dir
        (some (.dir (visible stored ++ [(name, kind, ino)]))) other).map Node.kind =
        (nodes other).map Node.kind := by
      intro other
      rw [Function.update_apply]
      split
      · next same =>
        rw [same, isDir]
        rfl
      · rfl
    refine ⟨?_, ?_, ?_, ?_, ?_, ?_⟩
    · rcases catalog.root with ⟨atRoot, isRoot⟩
      by_cases same : rootIno = dir
      · exact ⟨_, by rw [same, Function.update_self]⟩
      · exact ⟨atRoot, by rw [Function.update_of_ne same, isRoot]⟩
    · intro other atOther isOther
      rw [Function.update_apply] at isOther
      split at isOther
      · cases isOther
        exact allValid
      · exact catalog.valid isOther
    · intro other
      rw [Nodes.entries_update]
      split
      · have distinct := catalog.names dir
        rw [Nodes.entries_of_dir isDir] at distinct
        simp only [Option.elim_some, Node.entries, visible_concat, if_pos isNamed, List.map_append,
          List.map_cons, List.map_nil]
        rw [List.nodup_append]
        refine ⟨distinct, List.nodup_singleton _, ?_⟩
        intro old isOld new isSame same
        rcases List.mem_map.mp isOld with ⟨entry, member, rfl⟩
        exact isNew entry member (same.trans (List.mem_singleton.mp isSame))
      · exact catalog.names other
    · intro other entry member
      rw [kinds]
      rcases (mem_entries other entry).mp member with isOld | isLast
      · exact catalog.named isOld
      · rw [isLast.2, isNode, Option.map_some, Node.kind_empty]
    · intro here there entry same isHere isThere sameIno
      rcases (mem_entries here entry).mp isHere with isOld | isLast
      · rcases (mem_entries there same).mp isThere with otherOld | otherLast
        · exact catalog.once isOld otherOld sameIno
        · rw [otherLast.2] at sameIno
          exact absurd sameIno (unnamed here entry isOld)
      · rcases (mem_entries there same).mp isThere with otherOld | otherLast
        · rw [isLast.2] at sameIno
          exact absurd sameIno.symm (unnamed there same otherOld)
        · exact ⟨isLast.1.trans otherLast.1.symm, isLast.2.trans otherLast.2.symm⟩
    · rcases catalog.ranked with ⟨rank, isRoot, above⟩
      have leaf : nodes.entries ino = [] := by
        rw [Nodes.entries, isNode]
        exact Node.entries_empty kind
      refine ⟨Function.update rank ino (rank dir + 1), ?_, ?_⟩
      · rw [Function.update_of_ne notRoot.symm, isRoot]
      · intro other entry member
        rcases (mem_entries other entry).mp member with isOld | isLast
        · have notLeaf : other ≠ ino := by
            intro same
            rw [same, leaf] at isOld
            cases isOld
          rw [Function.update_of_ne notLeaf, Function.update_of_ne (unnamed other entry isOld)]
          exact above isOld
        · rw [isLast.1, isLast.2, Function.update_self, Function.update_of_ne notDir.symm]
          exact Nat.lt_succ_self _

theorem create {dir ino : Nat} {stored : List DirEntry} {name : String} {kind : InodeKind}
    (isDir : nodes dir = some (.dir stored)) (isFree : nodes ino = none)
    (valid : ValidEntry (name, kind, ino)) (isNew : ∀ entry ∈ visible stored, entry.1 ≠ name) :
    Catalog (nodes.create dir (name, kind, ino)) := by
  rcases catalog.root with ⟨atRoot, isRoot⟩
  have different := Nodes.ne_of_free isDir isFree
  have isOldDir : Function.update nodes ino (some (.empty kind)) dir = some (.dir stored) := by
    rw [Function.update_of_ne different.symm, isDir]
  rw [Nodes.create, Nodes.entries_of_dir isDir]
  apply (catalog.addNode isFree kind).addEntry isOldDir (Function.update_self _ _ _) _
    (Nodes.ne_of_free isRoot isFree) different valid isNew
  intro other entry member
  rw [Nodes.entries_addNode isFree] at member
  exact catalog.unnamed_of_free isFree other entry member

theorem abandon {dir ino : Nat} {stored : List DirEntry} (isDir : nodes dir = some (.dir stored))
    (isFree : nodes ino = none) (kind : InodeKind) : Catalog (nodes.abandon dir kind ino) := by
  have isOldDir : Function.update nodes ino (some (.empty kind)) dir = some (.dir stored) := by
    rw [Function.update_of_ne (Nodes.ne_of_free isDir isFree).symm, isDir]
  exact (catalog.addNode isFree kind).setStored isOldDir (by simp) (List.nil_sublist _)

theorem remove {dir : Nat} {stored remaining : List DirEntry} {entry : DirEntry}
    (isDir : nodes dir = some (.dir stored)) (member : entry ∈ visible stored)
    (sublist : remaining.Sublist (visible stored)) (absent : entry ∉ remaining) :
    Catalog (nodes.remove dir entry.2.2 remaining) := by
  have shown : visible remaining = remaining := visible_of_sublist sublist
  have isEntry : entry ∈ nodes.entries dir := by rwa [Nodes.entries_of_dir isDir]
  have fewer : Catalog (Function.update nodes dir (some (.dir remaining))) := by
    apply catalog.setStored isDir
    · intro other isOther
      exact catalog.valid isDir other ((sublist.trans (visible_sublist stored)).mem isOther)
    · rwa [shown]
  have unnamed : Nodes.Unnamed (Function.update nodes dir (some (.dir remaining))) entry.2.2 := by
    intro other same isSame sameIno
    rw [Nodes.entries_update] at isSame
    split at isSame
    · have isRemaining : same ∈ remaining := shown ▸ isSame
      have wasEntry : same ∈ nodes.entries dir := by
        rw [Nodes.entries_of_dir isDir]
        exact sublist.mem isRemaining
      exact absent ((catalog.once isEntry wasEntry sameIno.symm).2 ▸ isRemaining)
    · next different => exact different (catalog.once isSame isEntry sameIno).1
  rw [Nodes.remove, Function.update_comm (catalog.ne_dir isEntry)]
  exact fewer.dropNode unnamed (catalog.ne_root isEntry)

end Catalog

/-! ## Reaching every inode -/

def Nodes.Reached (nodes : Nodes) : Prop := ∀ ino, nodes ino ≠ none → Reach nodes ino

section Reached

variable {nodes after : Nodes} {dir ino : Nat} {stored : List DirEntry}

theorem Reach.mono (more : ∀ dir entry, entry ∈ nodes.entries dir → entry ∈ after.entries dir)
    (reach : Reach nodes ino) : Reach after ino := by
  induction reach with
  | root => exact .root
  | entry _ member induction => exact .entry induction (more _ _ member)

namespace Nodes.Reached

theorem create {name : String} {kind : InodeKind} (reached : nodes.Reached)
    (isDir : nodes dir = some (.dir stored)) (isFree : nodes ino = none)
    (named : 0 < name.utf8ByteSize) : (nodes.create dir (name, kind, ino)).Reached := by
  have different := Nodes.ne_of_free isDir isFree
  have entries : ∀ other, (nodes.create dir (name, kind, ino)).entries other =
      if other = dir then nodes.entries dir ++ [(name, kind, ino)] else nodes.entries other := by
    intro other
    rw [Nodes.create, Nodes.entries_update]
    split
    · rw [Nodes.entries_of_dir isDir, Option.elim_some, Node.entries, visible_concat, if_pos named]
    · exact Nodes.entries_addNode isFree kind other
  have more : ∀ other entry, entry ∈ nodes.entries other →
      entry ∈ (nodes.create dir (name, kind, ino)).entries other := by
    intro other entry member
    rw [entries]
    split
    · next same => exact List.mem_append_left _ (same ▸ member)
    · exact member
  intro other known
  by_cases isNew : other = ino
  · have isEntry : (name, kind, ino) ∈ (nodes.create dir (name, kind, ino)).entries dir := by
      rw [entries, if_pos rfl]
      exact List.mem_append_right _ List.mem_cons_self
    have fromDir := (reached dir (isDir ▸ Option.some_ne_none _)).mono more
    exact isNew ▸ fromDir.entry isEntry
  · by_cases isParent : other = dir
    · rw [isParent]
      exact (reached dir (isDir ▸ Option.some_ne_none _)).mono more
    · rw [Nodes.create_of_ne isParent isNew] at known
      exact (reached other known).mono more

theorem setBytes {bytes : List UInt8} (reached : nodes.Reached)
    (isFile : nodes ino = some (.file bytes)) (new : List UInt8) :
    Nodes.Reached (Function.update nodes ino (some (.file new))) := by
  intro other known
  have wasNode : nodes other ≠ none := by
    rw [Function.update_apply] at known
    split at known
    · next same =>
      rw [same, isFile]
      exact Option.some_ne_none _
    · exact known
  apply (reached other wasNode).mono
  intro parent entry member
  rw [Nodes.entries_update]
  split
  · next same =>
    rw [same, Nodes.entries, isFile] at member
    exact member
  · exact member

theorem remove {entry : DirEntry} (reached : nodes.Reached) (isEntry : entry ∈ nodes.entries dir)
    (different : entry.2.2 ≠ dir) (leaf : nodes.entries entry.2.2 = []) {remaining : List DirEntry}
    (shown : visible remaining = remaining)
    (others : ∀ other ∈ nodes.entries dir, other ≠ entry → other ∈ remaining) :
    (nodes.remove dir entry.2.2 remaining).Reached := by
  have entries : ∀ {parent other}, other ∈ nodes.entries parent → other.2.2 ≠ entry.2.2 →
      parent ≠ entry.2.2 → other ∈ (nodes.remove dir entry.2.2 remaining).entries parent := by
    intro parent other member elsewhere notGone
    rw [Nodes.remove, Nodes.entries_update]
    split
    · next same =>
      rw [Option.elim_some, Node.entries, shown]
      exact others other (same ▸ member) fun equal => elsewhere (equal ▸ rfl)
    · rw [Nodes.entries_update, if_neg notGone]
      exact member
  have still : ∀ {target}, Reach nodes target → target ≠ entry.2.2 →
      Reach (nodes.remove dir entry.2.2 remaining) target := by
    intro target reach
    induction reach with
    | root => exact fun _ => .root
    | @entry parent other _ member induction =>
      intro elsewhere
      have notGone : parent ≠ entry.2.2 := by
        rintro rfl
        rw [leaf] at member
        cases member
      exact (induction notGone).entry (entries member elsewhere notGone)
  intro target known
  rw [Nodes.remove, Function.update_apply] at known
  split at known
  · next isDir =>
    rw [isDir]
    apply still _ different.symm
    apply reached
    intro isFree
    rw [Nodes.entries_of_none isFree] at isEntry
    cases isEntry
  · rw [Function.update_apply] at known
    split at known
    · exact absurd rfl known
    · next elsewhere => exact still (reached target known) elsewhere

end Nodes.Reached

end Reached

end PersonaOS.Fs.Pondfs
