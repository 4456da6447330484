import PersonaOS.Fs.Catalog
import PersonaOS.Fs.Editing

/-! # A mounted volume and its catalog

What counts for an inode is its state in the cache, and its record on disk if it is not
cached. `Holds` connects these records with a catalog: each inode of the catalog has a
record of its kind whose blocks hold its contents, all other records are empty, and the
blocks the records refer to are in order. Handles of unlinked inodes stay around,
but their state is marked as unused and no call goes through it. -/

namespace PersonaOS.Fs.Pondfs

open Program

def FsInner.record (fs : FsInner) (ino : Nat) : RawInode :=
  match fs.inodeCache ino with
  | some id => fs.raw id
  | none => fs.diskInode ino

/-- Slot `slot.2` of inode `slot.1` has the block. -/
def FsInner.Refers (fs : FsInner) (slot : Nat × Nat) (blk : Nat) : Prop :=
  slot.1 < fs.inodeCount ∧ blk ≠ 0 ∧ (fs.record slot.1).slot slot.2 = blk

structure Holds (fs : FsInner) (nodes : Nodes) : Prop where
  synced : Synced fs
  ledger : Ledger fs.IsData fs.Taken fs.Refers
  cached : ∀ {ino id}, fs.inodeCache ino = some id →
    id < fs.stateCount ∧ fs.ino id = ino ∧ nodes ino ≠ none
  current : ∀ id < fs.stateCount,
    fs.inodeCache (fs.ino id) = some id ∨ (fs.raw id).kind = inodeKindUnused
  nonzero : nodes 0 = none
  inTable : ∀ {ino}, nodes ino ≠ none → ino < fs.inodeCount
  onDisk : ∀ {ino}, nodes ino ≠ none → (fs.diskInode ino).kind ≠ inodeKindUnused
  kind : ∀ {ino node}, nodes ino = some node → (fs.record ino).kind = kindCode node.kind
  free : ∀ {ino}, ino < fs.inodeCount → nodes ino = none →
    (fs.record ino).kind = inodeKindUnused ∧ ∀ i, (fs.record ino).slot i = 0
  contents : ∀ {ino node}, nodes ino = some node → node.StoredIn fs.dev (fs.record ino)

section Records

variable {fs after : FsInner} {nodes : Nodes} {id : StateId} {ino : Nat}

theorem FsInner.record_of_cached (isCached : fs.inodeCache ino = some id) :
    fs.record ino = fs.raw id := by
  rw [FsInner.record, isCached]

theorem FsInner.record_of_uncached (uncached : fs.inodeCache ino = none) :
    fs.record ino = fs.diskInode ino := by
  rw [FsInner.record, uncached]

theorem Holds.uncached_of_free (holds : Holds fs nodes) (isFree : nodes ino = none) :
    fs.inodeCache ino = none := by
  cases isCached : fs.inodeCache ino with
  | none => rfl
  | some id => exact absurd isFree (holds.cached isCached).2.2

theorem Holds.isCached (holds : Holds fs nodes) (inRange : id < fs.stateCount)
    (inUse : (fs.raw id).kind ≠ inodeKindUnused) : fs.inodeCache (fs.ino id) = some id := by
  rcases holds.current id inRange with isCached | isUnused
  · exact isCached
  · exact absurd isUnused inUse

theorem Holds.raw_kind (holds : Holds fs nodes) (isCached : fs.inodeCache ino = some id)
    {node : Node} (isNode : nodes ino = some node) : (fs.raw id).kind = kindCode node.kind := by
  rw [← FsInner.record_of_cached isCached, holds.kind isNode]

theorem kindCode_file {node : Node} (isFile : kindCode node.kind = inodeKindFile) :
    ∃ bytes, node = .file bytes := by
  cases node with
  | file bytes => exact ⟨bytes, rfl⟩
  | dir stored => exact absurd isFile (show inodeKindDir ≠ inodeKindFile by decide)

theorem kindCode_dir {node : Node} (isDir : kindCode node.kind = inodeKindDir) :
    ∃ stored, node = .dir stored := by
  cases node with
  | file bytes => exact absurd isDir (show inodeKindFile ≠ inodeKindDir by decide)
  | dir stored => exact ⟨stored, rfl⟩

theorem Holds.isDir (holds : Holds fs nodes) (inRange : id < fs.stateCount)
    (isDir : (fs.raw id).kind = inodeKindDir) :
    fs.inodeCache (fs.ino id) = some id ∧ ∃ stored, nodes (fs.ino id) = some (.dir stored) := by
  have isCached := holds.isCached inRange (by rw [isDir]; decide)
  refine ⟨isCached, ?_⟩
  cases isNode : nodes (fs.ino id) with
  | none => exact absurd isNode (holds.cached isCached).2.2
  | some node =>
    rcases kindCode_dir ((holds.raw_kind isCached isNode).symm.trans isDir) with ⟨stored, rfl⟩
    exact ⟨stored, rfl⟩

theorem Holds.isFile (holds : Holds fs nodes) (inRange : id < fs.stateCount)
    (isFile : (fs.raw id).kind = inodeKindFile) :
    fs.inodeCache (fs.ino id) = some id ∧ ∃ bytes, nodes (fs.ino id) = some (.file bytes) := by
  have isCached := holds.isCached inRange (by rw [isFile]; decide)
  refine ⟨isCached, ?_⟩
  cases isNode : nodes (fs.ino id) with
  | none => exact absurd isNode (holds.cached isCached).2.2
  | some node =>
    rcases kindCode_file ((holds.raw_kind isCached isNode).symm.trans isFile) with ⟨bytes, rfl⟩
    exact ⟨bytes, rfl⟩

theorem Holds.cached_inTable (holds : Holds fs nodes) (isCached : fs.inodeCache ino = some id) :
    ino < fs.inodeCount :=
  holds.inTable (holds.cached isCached).2.2

/-! ## References after a change to one inode -/

theorem Edits.record_self (edits : Edits id fs after)
    (isCached : fs.inodeCache (fs.ino id) = some id) : after.record (fs.ino id) = after.raw id := by
  apply FsInner.record_of_cached
  rw [edits.cache, isCached]

theorem Holds.record_of_ne (holds : Holds fs nodes) (edits : Edits id fs after)
    (inTable : ino < fs.inodeCount) (different : ino ≠ fs.ino id) :
    after.record ino = fs.record ino := by
  cases cachedAs : fs.inodeCache ino with
  | none =>
    rw [FsInner.record_of_uncached cachedAs, ← edits.diskInode holds.synced.geometry inTable]
    apply FsInner.record_of_uncached
    rw [edits.cache, cachedAs]
  | some other =>
    have otherState : other ≠ id := by
      intro same
      exact different (same ▸ (holds.cached cachedAs).2.1.symm)
    rw [FsInner.record_of_cached cachedAs, ← edits.others other otherState]
    apply FsInner.record_of_cached
    rw [edits.cache, cachedAs]

theorem Holds.refers_self (holds : Holds fs nodes) (edits : Edits id fs after)
    (isCached : fs.inodeCache (fs.ino id) = some id) (i blk : Nat) :
    after.Refers (fs.ino id, i) blk ↔ blk ≠ 0 ∧ (after.raw id).slot i = blk := by
  rw [FsInner.Refers, edits.record_self isCached, edits.inodeCount]
  exact and_iff_right (holds.cached_inTable isCached)

theorem Holds.refers_of_ne (holds : Holds fs nodes) (edits : Edits id fs after)
    {slot : Nat × Nat} (different : slot.1 ≠ fs.ino id) (blk : Nat) :
    after.Refers slot blk ↔ fs.Refers slot blk := by
  rw [FsInner.Refers, FsInner.Refers, edits.inodeCount]
  refine and_congr_right fun inTable => ?_
  rw [holds.record_of_ne edits inTable different]

end Records

section Ledgers

variable {fs after : FsInner} {nodes : Nodes} {id : StateId}

theorem Holds.refers_raw (holds : Holds fs nodes) (isCached : fs.inodeCache (fs.ino id) = some id)
    (i blk : Nat) : fs.Refers (fs.ino id, i) blk ↔ blk ≠ 0 ∧ (fs.raw id).slot i = blk :=
  holds.refers_self (.refl fs) isCached i blk

theorem Holds.slot (holds : Holds fs nodes) (isCached : fs.inodeCache (fs.ino id) = some id)
    {i : Nat} (hasBlock : (fs.raw id).slot i ≠ 0) :
    fs.IsData ((fs.raw id).slot i) ∧ fs.Taken ((fs.raw id).slot i) := by
  have refers := (holds.refers_raw isCached i _).mpr ⟨hasBlock, rfl⟩
  exact ⟨holds.ledger.valid refers, holds.ledger.taken refers⟩

theorem Holds.distinct (holds : Holds fs nodes) (isCached : fs.inodeCache (fs.ino id) = some id) :
    (fs.raw id).Distinct := by
  intro i j same hasBlock
  have first := (holds.refers_raw isCached i _).mpr ⟨hasBlock, rfl⟩
  have second := (holds.refers_raw isCached j _).mpr ⟨hasBlock, same.symm⟩
  exact congrArg Prod.snd (holds.ledger.exclusive _ _ _ first second)

theorem Holds.grown_ledger (holds : Holds fs nodes)
    (isCached : fs.inodeCache (fs.ino id) = some id) (grown : Grown id fs after) :
    Ledger after.IsData after.Taken after.Refers := by
  have extended : Ledger fs.IsData after.Taken after.Refers := by
    apply holds.ledger.extend fun slot blk => slot.1 = fs.ino id ∧ Fresh id fs after slot.2 blk
    · exact fun isFresh => (grown.fresh isFresh.2).1
    · exact fun isFresh => (grown.fresh isFresh.2).2.1
    · rintro ⟨ino, i⟩ ⟨other, j⟩ blk ⟨rfl, here⟩ ⟨rfl, there⟩
      exact congrArg _ (grown.once here there)
    · intro blk
      rw [grown.taken]
      refine or_congr_right ⟨?_, ?_⟩
      · rintro ⟨i, isFresh⟩
        exact ⟨(fs.ino id, i), rfl, isFresh⟩
      · rintro ⟨slot, _, isFresh⟩
        exact ⟨slot.2, isFresh⟩
    · rintro ⟨ino, i⟩ blk
      by_cases same : ino = fs.ino id
      · subst same
        rw [holds.refers_self grown.edits isCached, holds.refers_raw isCached]
        by_cases hadBlock : (fs.raw id).slot i = 0
        · simp only [Fresh, hadBlock, true_and]
          constructor
          · exact fun now => .inr ⟨now.2, now.1⟩
          · rintro (was | now)
            · exact absurd was.2.symm was.1
            · exact ⟨now.2, now.1⟩
        · rw [grown.old i hadBlock]
          simp only [Fresh, hadBlock, false_and, and_false, or_false]
      · rw [holds.refers_of_ne grown.edits same]
        simp only [same, false_and, or_false]
  exact ⟨extended.complete, fun refer => grown.edits.isData.mpr (extended.valid refer),
    extended.taken, extended.exclusive⟩

theorem Holds.shrunk_ledger (holds : Holds fs nodes)
    (isCached : fs.inodeCache (fs.ino id) = some id) {start stop : Nat}
    (shrunk : Shrunk id start stop fs after) :
    Ledger after.IsData after.Taken after.Refers := by
  have released : Ledger fs.IsData after.Taken after.Refers := by
    apply holds.ledger.release fun slot => slot.1 = fs.ino id ∧ start ≤ slot.2 ∧ slot.2 < stop
    · intro blk
      rw [shrunk.taken]
      refine and_congr_right fun taken => ⟨?_, ?_⟩
      · rintro others ⟨ino, i⟩ ⟨rfl, behind, before⟩ refers
        exact others i behind before ((holds.refers_raw isCached i blk).mp refers).2
      · intro others i behind before same
        have notZero : blk ≠ 0 := by
          rintro rfl
          exact holds.synced.not_taken_zero taken
        exact others (fs.ino id, i) ⟨rfl, behind, before⟩
          ((holds.refers_raw isCached i blk).mpr ⟨notZero, same⟩)
    · rintro ⟨ino, i⟩ blk
      by_cases same : ino = fs.ino id
      · subst same
        rw [holds.refers_self shrunk.edits isCached, holds.refers_raw isCached, shrunk.slots]
        by_cases inRange : start ≤ i ∧ i < stop
        · rw [if_pos inRange]
          constructor
          · exact fun now => absurd now.2.symm now.1
          · exact fun both => absurd ⟨rfl, inRange⟩ both.2
        · rw [if_neg inRange]
          simp only [inRange, and_false, not_false_eq_true, and_true]
      · rw [holds.refers_of_ne shrunk.edits same]
        simp only [same, false_and, not_false_eq_true, and_true]
  exact ⟨released.complete, fun refer => shrunk.edits.isData.mpr (released.valid refer),
    released.taken, released.exclusive⟩

theorem Holds.same_slots (holds : Holds fs nodes) (edits : Edits id fs after)
    (isCached : fs.inodeCache (fs.ino id) = some id)
    (slots : ∀ i, (after.raw id).slot i = (fs.raw id).slot i)
    (bitmap : after.bitmap = fs.bitmap) : Ledger after.IsData after.Taken after.Refers := by
  have taken : ∀ blk, after.Taken blk ↔ fs.Taken blk := by
    intro blk
    rw [FsInner.Taken, FsInner.Taken, edits.dataStart, bitmap]
  have same : Ledger fs.IsData after.Taken after.Refers := by
    apply holds.ledger.congr taken
    rintro ⟨ino, i⟩ blk
    by_cases same : ino = fs.ino id
    · subst same
      rw [holds.refers_self edits isCached, holds.refers_raw isCached, slots]
    · rw [holds.refers_of_ne edits same]
  exact ⟨same.complete, fun refer => edits.isData.mpr (same.valid refer), same.taken,
    same.exclusive⟩

end Ledgers

/-! ## Changing one inode of the catalog -/

section Edit

variable {fs after : FsInner} {nodes : Nodes} {id : StateId} {node : Node}

theorem Holds.ino_ne_zero (holds : Holds fs nodes) {ino : Nat} (isNode : nodes ino ≠ none) :
    ino ≠ 0 := by
  rintro rfl
  exact isNode holds.nonzero

def FsInner.Shows (fs : FsInner) (ino : Nat) : Option Node → Prop
  | none => (fs.record ino).kind = inodeKindUnused ∧ ∀ i, (fs.record ino).slot i = 0
  | some node => (fs.diskInode ino).kind ≠ inodeKindUnused ∧
      (fs.record ino).kind = kindCode node.kind ∧ node.StoredIn fs.dev (fs.record ino)

theorem Holds.update {target : Nat} {node : Option Node} (holds : Holds fs nodes)
    (inTable : target < fs.inodeCount) (notZero : target ≠ 0)
    (count : after.inodeCount = fs.inodeCount) (synced : Synced after)
    (ledger : Ledger after.IsData after.Taken after.Refers)
    (cached : ∀ {ino id}, after.inodeCache ino = some id → id < after.stateCount ∧
      after.ino id = ino ∧ Function.update nodes target node ino ≠ none)
    (current : ∀ id < after.stateCount,
      after.inodeCache (after.ino id) = some id ∨ (after.raw id).kind = inodeKindUnused)
    (others : ∀ {ino}, ino < fs.inodeCount → ino ≠ target →
      after.record ino = fs.record ino ∧ after.diskInode ino = fs.diskInode ino)
    (blocks : ∀ {slot blk}, slot.1 ≠ target → fs.Refers slot blk → after.dev blk = fs.dev blk)
    (self : after.Shows target node) : Holds after (Function.update nodes target node) := by
  have isOther : ∀ {ino}, ino ≠ target → Function.update nodes target node ino = nodes ino :=
    fun different => Function.update_of_ne different _ _
  have old : ∀ {ino node}, nodes ino = some node → ino < fs.inodeCount := fun isNode =>
    holds.inTable (by rw [isNode]; exact Option.some_ne_none _)
  refine ⟨synced, ledger, cached, current, ?_, ?_, ?_, ?_, ?_, ?_⟩
  · rw [isOther notZero.symm]
    exact holds.nonzero
  · intro ino isNode
    by_cases same : ino = target
    · rwa [same, count]
    · rw [isOther same] at isNode
      rw [count]
      exact holds.inTable isNode
  · intro ino isNode
    by_cases same : ino = target
    · rw [same, Function.update_self] at isNode
      rcases Option.ne_none_iff_exists'.mp isNode with ⟨isNow, rfl⟩
      exact same ▸ self.1
    · rw [isOther same] at isNode
      rw [(others (holds.inTable isNode) same).2]
      exact holds.onDisk isNode
  · intro ino isNow isNode
    by_cases same : ino = target
    · rw [same, Function.update_self] at isNode
      subst isNode
      exact same ▸ self.2.1
    · rw [isOther same] at isNode
      rw [(others (old isNode) same).1]
      exact holds.kind isNode
  · intro ino inRange isFree
    by_cases same : ino = target
    · rw [same, Function.update_self] at isFree
      subst isFree
      exact same ▸ self
    · rw [isOther same] at isFree
      rw [count] at inRange
      rw [(others inRange same).1]
      exact holds.free inRange isFree
  · intro ino isNow isNode
    by_cases same : ino = target
    · rw [same, Function.update_self] at isNode
      subst isNode
      exact same ▸ self.2.2
    · rw [isOther same] at isNode
      rw [(others (old isNode) same).1]
      apply (holds.contents isNode).congr_dev
      intro i hasBlock
      have refers : fs.Refers (ino, i) ((fs.record ino).slot i) := ⟨old isNode, hasBlock, rfl⟩
      exact blocks same refers

theorem Holds.edit (holds : Holds fs nodes) (edits : Edits id fs after)
    (isCached : fs.inodeCache (fs.ino id) = some id) (synced : Synced after)
    (ledger : Ledger after.IsData after.Taken after.Refers)
    (isKind : (nodes (fs.ino id)).map Node.kind = some node.kind)
    (others : ∀ {slot blk}, slot.1 ≠ fs.ino id → fs.Refers slot blk → after.dev blk = fs.dev blk)
    (self : node.StoredIn after.dev (after.raw id)) :
    Holds after (Function.update nodes (fs.ino id) (some node)) := by
  have wasNode := (holds.cached isCached).2.2
  have inTable := holds.cached_inTable isCached
  have disk : ∀ {ino}, ino < fs.inodeCount → after.diskInode ino = fs.diskInode ino :=
    fun inRange => edits.diskInode holds.synced.geometry inRange
  apply holds.update inTable (holds.ino_ne_zero wasNode) edits.inodeCount synced ledger
  · intro ino other isState
    rw [edits.cache] at isState
    have was := holds.cached isState
    refine ⟨edits.count ▸ was.1, (edits.ino other).trans was.2.1, ?_⟩
    rw [Function.update_apply]
    split
    · exact Option.some_ne_none _
    · exact was.2.2
  · intro other inRange
    rw [edits.count] at inRange
    have sameKind : (after.raw other).kind = (fs.raw other).kind := by
      by_cases same : other = id
      · rw [same, edits.kind]
      · rw [edits.others other same]
    rw [edits.cache, edits.ino, sameKind]
    exact holds.current other inRange
  · exact fun inRange different => ⟨holds.record_of_ne edits inRange different, disk inRange⟩
  · exact others
  · rcases Option.map_eq_some_iff.mp isKind with ⟨before, wasBefore, sameKind⟩
    refine ⟨?_, ?_, ?_⟩
    · rw [disk inTable]
      exact holds.onDisk wasNode
    · rw [edits.record_self isCached, edits.kind, holds.raw_kind isCached wasBefore, sameKind]
    · rwa [edits.record_self isCached]

theorem update_node {ino : Nat} (isNode : nodes ino = some node) :
    Function.update nodes ino (some node) = nodes := by
  rw [← isNode, Function.update_eq_self]

theorem Holds.grown (holds : Holds fs nodes) (isCached : fs.inodeCache (fs.ino id) = some id)
    (grown : Grown id fs after) : Holds after nodes := by
  have keeps : ∀ {slot blk}, fs.Refers slot blk → after.dev blk = fs.dev blk := by
    intro slot blk refers
    apply grown.dev blk (holds.ledger.valid refers).1
    intro i isFresh
    exact (grown.fresh isFresh).2.1 (holds.ledger.taken refers)
  cases isNode : nodes (fs.ino id) with
  | none => exact absurd isNode (holds.cached isCached).2.2
  | some node =>
    rw [← update_node isNode]
    apply holds.edit grown.edits isCached grown.synced (holds.grown_ledger isCached grown)
    · rw [isNode]
      rfl
    · exact fun _ refers => keeps refers
    · have was := holds.contents isNode
      rw [FsInner.record_of_cached isCached] at was
      apply was.congr grown.size
      · intro i hasBlock
        exact ⟨grown.old i hasBlock, keeps ((holds.refers_raw isCached i _).mpr ⟨hasBlock, rfl⟩)⟩
      · intro i wasEmpty hasBlock
        exact (grown.fresh ⟨wasEmpty, rfl, hasBlock⟩).2.2

end Edit

/-! ## Copying bytes into blocks -/

section Copied

variable {fs : FsInner} {nodes : Nodes} {id : StateId} {node : Node} {off stop : Nat}
  {buf : List UInt8} {writes : List (Nat × Block 4096)}

theorem slot_growSize (fs : FsInner) (id : StateId) (stop i : Nat) :
    ((fs.growSize id stop).raw id).slot i = (fs.raw id).slot i := by
  rw [FsInner.growSize]
  split
  · rw [FsInner.raw_setRaw, if_pos rfl]
    rfl
  · rfl

theorem dev_growSize (fs : FsInner) (id : StateId) (stop : Nat) :
    (fs.growSize id stop).dev = fs.dev := by
  rw [FsInner.growSize]
  split <;> rfl

theorem bitmap_growSize (fs : FsInner) (id : StateId) (stop : Nat) :
    (fs.growSize id stop).bitmap = fs.bitmap := by
  rw [FsInner.growSize]
  split <;> rfl

theorem edits_growSize (fs : FsInner) (id : StateId) (stop : Nat) :
    Edits id fs (fs.growSize id stop) := by
  rw [FsInner.growSize]
  split
  · exact .setRaw rfl
  · exact .refl fs

theorem size_growSize (fs : FsInner) (id : StateId) (small : stop < 2 ^ 64) :
    ((fs.growSize id stop).raw id).size.toNat = max (fs.raw id).size.toNat stop := by
  rw [FsInner.growSize]
  split
  · next grows =>
    rw [FsInner.raw_setRaw, if_pos rfl, UInt64.toNat_ofNat_of_lt' small]
    omega
  · omega

theorem Holds.copies_toData (holds : Holds fs nodes)
    (isCached : fs.inodeCache (fs.ino id) = some id)
    (copies : Copies fs.dev (fs.raw id) off buf writes) :
    ∀ write ∈ writes, fs.dataStart ≤ write.1 := by
  intro write member
  rcases copies.places write member with ⟨i, _, _, isSlot, hasBlock⟩
  rw [← isSlot]
  exact (holds.slot isCached hasBlock).1.1

theorem Holds.copied (holds : Holds fs nodes) (isCached : fs.inodeCache (fs.ino id) = some id)
    (copies : Copies fs.dev (fs.raw id) off buf writes)
    (isKind : (nodes (fs.ino id)).map Node.kind = some node.kind)
    (self : node.StoredIn (replay fs.dev writes)
      (((fs.writeAll writes).growSize id stop).raw id)) :
    Holds ((fs.writeAll writes).growSize id stop)
      (Function.update nodes (fs.ino id) (some node)) := by
  have toData := holds.copies_toData isCached copies
  have table := holds.synced.geometry.table
  have edits : Edits id fs ((fs.writeAll writes).growSize id stop) :=
    (Edits.writeAll holds.synced.geometry toData).trans (edits_growSize _ id stop)
  have isDev : ((fs.writeAll writes).growSize id stop).dev = replay fs.dev writes :=
    dev_growSize _ id stop
  have bitmap : ((fs.writeAll writes).growSize id stop).bitmap = fs.bitmap :=
    bitmap_growSize _ id stop
  apply holds.edit edits isCached
  · apply holds.synced.congr edits.sb bitmap
    intro at_ before
    rw [isDev]
    apply replay_of_forall_ne
    intro write member same
    have behind := toData write member
    simp only [FsInner.inodeTableStart, FsInner.dataStart] at *
    omega
  · exact holds.same_slots edits isCached (slot_growSize _ id stop) bitmap
  · exact isKind
  · intro slot blk different refers
    rw [isDev]
    apply replay_of_forall_ne
    rintro write member rfl
    rcases copies.places write member with ⟨i, _, _, isSlot, hasBlock⟩
    have ours := (holds.refers_raw isCached i _).mpr ⟨hasBlock, rfl⟩
    rw [isSlot] at ours
    exact different (congrArg Prod.fst (holds.ledger.exclusive _ _ _ refers ours))
  · rw [isDev]
    exact self

theorem Holds.written_file {after : FsInner} {bytes : List UInt8} (holds : Holds fs nodes)
    (isCached : fs.inodeCache (fs.ino id) = some id)
    (isFile : nodes (fs.ino id) = some (.file bytes)) (written : Written id off buf fs after) :
    Holds after (Function.update nodes (fs.ino id) (some (.file (splice bytes off buf)))) := by
  rcases written with ⟨middle, writes, grown, backed, copies, small, rfl⟩
  have holdsMiddle := holds.grown isCached grown
  have sameIno := grown.edits.ino id
  have cachedMiddle : middle.inodeCache (middle.ino id) = some id := by
    rw [grown.edits.cache, sameIno, isCached]
  have stores : Stores middle.dev (middle.raw id) bytes := by
    rw [← sameIno] at isFile
    rw [← FsInner.record_of_cached cachedMiddle]
    exact holdsMiddle.contents isFile
  rw [← sameIno]
  apply holdsMiddle.copied cachedMiddle copies
  · rw [sameIno, isFile]
    rfl
  · have slots := slot_growSize (middle.writeAll writes) id (off + buf.length)
    have stream := copies.stream (holdsMiddle.distinct cachedMiddle)
    have isSize := size_growSize (middle.writeAll writes) id
      (show off + buf.length < 2 ^ 64 by omega)
    apply stores.write slots stream _ backed
    rw [isSize]
    exact congrArg (max · _) stores.size

theorem Holds.written_dir {after : FsInner} {stored : List DirEntry} (holds : Holds fs nodes)
    (isCached : fs.inodeCache (fs.ino id) = some id) (isDir : nodes (fs.ino id) = some (.dir []))
    (isEmpty : (fs.raw id).size = 0) (written : Written id 0 (serialize stored) fs after) :
    Holds after (Function.update nodes (fs.ino id) (some (.dir stored))) := by
  rcases written with ⟨middle, writes, grown, backed, copies, small, rfl⟩
  rw [Nat.zero_add] at backed small ⊢
  have holdsMiddle := holds.grown isCached grown
  have sameIno := grown.edits.ino id
  have cachedMiddle : middle.inodeCache (middle.ino id) = some id := by
    rw [grown.edits.cache, sameIno, isCached]
  rw [← sameIno]
  apply holdsMiddle.copied cachedMiddle copies
  · rw [sameIno, isDir]
    rfl
  · have slots := slot_growSize (middle.writeAll writes) id (serialize stored).length
    refine ⟨?_, ?_, ?_⟩
    · have wasEmpty : ((middle.writeAll writes).raw id).size.toNat = 0 := by
        have same : (middle.raw id).size = 0 := grown.size.trans isEmpty
        exact congrArg UInt64.toNat same
      rw [size_growSize _ id (by omega), wasEmpty, Nat.zero_max]
    · intro i inside
      rw [slots]
      exact backed i inside
    · intro k inside
      rw [Stores.fileStream_congr slots]
      have stream := copies.stream (holdsMiddle.distinct cachedMiddle)
      have isStream : fileStream (replay middle.dev writes) ((middle.writeAll writes).raw id) =
          patch (fileStream middle.dev (middle.raw id)) 0 (serialize stored) := stream
      rw [isStream, patch, if_pos (Nat.zero_le k), Nat.sub_zero, List.getD_eq_getElem?_getD,
        List.getD_eq_getElem?_getD, List.getElem?_eq_getElem inside, Option.getD_some,
        Option.getD_some]

end Copied

/-! ## Emptying a directory -/

theorem Holds.cleared {fs after : FsInner} {nodes : Nodes} {id : StateId} {start stop : Nat}
    {stored : List DirEntry} (holds : Holds fs nodes)
    (isCached : fs.inodeCache (fs.ino id) = some id)
    (isDir : nodes (fs.ino id) = some (.dir stored)) (shrunk : Shrunk id start stop fs after)
    (isEmpty : (after.raw id).size = 0) :
    Holds after (Function.update nodes (fs.ino id) (some (.dir []))) := by
  apply holds.edit shrunk.edits isCached shrunk.synced (holds.shrunk_ledger isCached shrunk)
  · rw [isDir]
    rfl
  · intro slot blk _ refers
    exact shrunk.dev blk (holds.ledger.valid refers).1
  · exact .of_size_zero isEmpty

/-! ## The inode table -/

section Table

variable {fs : FsInner} {nodes : Nodes} {id : StateId} {ino : Nat} {raw : RawInode}

theorem record_writeInode (fs : FsInner) (ino : Nat) (raw : RawInode) (other : Nat) :
    (fs.writeInode ino raw).record other =
      if other = ino ∧ fs.inodeCache ino = none then raw else fs.record other := by
  cases cachedAs : fs.inodeCache other with
  | none =>
    have uncached : (fs.writeInode ino raw).inodeCache other = none := cachedAs
    rw [FsInner.record_of_uncached uncached, FsInner.record_of_uncached cachedAs,
      FsInner.diskInode_writeInode]
    by_cases same : other = ino
    · rw [if_pos same, if_pos ⟨same, same ▸ cachedAs⟩]
    · rw [if_neg same, if_neg fun both => same both.1]
  | some id =>
    have isCached : (fs.writeInode ino raw).inodeCache other = some id := cachedAs
    have notBoth : ¬ (other = ino ∧ fs.inodeCache ino = none) := by
      rintro ⟨rfl, uncached⟩
      rw [uncached] at cachedAs
      cases cachedAs
    rw [FsInner.record_of_cached isCached, FsInner.record_of_cached cachedAs, if_neg notBoth]
    rfl

theorem Holds.dev_writeInode (holds : Holds fs nodes) (inTable : ino < fs.inodeCount)
    {slot : Nat × Nat} {blk : Nat} (refers : fs.Refers slot blk) :
    (fs.writeInode ino raw).dev blk = fs.dev blk :=
  FsInner.dev_writeInode holds.synced.geometry inTable (.inr (holds.ledger.valid refers).1)

theorem Holds.writeInode (holds : Holds fs nodes)
    (isCached : fs.inodeCache (fs.ino id) = some id) :
    Holds (fs.writeInode (fs.ino id) (fs.raw id)) nodes := by
  have inTable := holds.cached_inTable isCached
  have records : ∀ other, (fs.writeInode (fs.ino id) (fs.raw id)).record other =
      fs.record other := by
    intro other
    rw [record_writeInode, if_neg]
    rintro ⟨_, uncached⟩
    rw [isCached] at uncached
    cases uncached
  have refers : ∀ slot blk, (fs.writeInode (fs.ino id) (fs.raw id)).Refers slot blk ↔
      fs.Refers slot blk := by
    intro slot blk
    rw [FsInner.Refers, records]
    rfl
  refine ⟨holds.synced.writeInode inTable _, ?_, holds.cached, holds.current, holds.nonzero,
    holds.inTable, ?_, ?_, ?_, ?_⟩
  · exact holds.ledger.congr (fun _ => .rfl) refers
  · intro other isNode
    rw [FsInner.diskInode_writeInode]
    split
    · cases isOwn : nodes (fs.ino id) with
      | none => exact absurd isOwn (holds.cached isCached).2.2
      | some node =>
        rw [holds.raw_kind isCached isOwn]
        exact kindCode_ne_unused node.kind
    · exact holds.onDisk isNode
  · intro other node isNode
    rw [records]
    exact holds.kind isNode
  · intro other inRange isFree
    rw [records]
    exact holds.free inRange isFree
  · intro other node isNode
    have otherInTable : other < fs.inodeCount :=
      holds.inTable (by rw [isNode]; exact Option.some_ne_none _)
    rw [records]
    apply (holds.contents isNode).congr_dev
    intro i hasBlock
    have slotRefers : fs.Refers (other, i) ((fs.record other).slot i) :=
      ⟨otherInTable, hasBlock, rfl⟩
    exact holds.dev_writeInode inTable slotRefers

theorem slot_newRaw (kind : InodeKind) (i : Nat) : (newRaw kind).slot i = 0 := by
  by_cases inside : i < 12
  · rw [RawInode.slot, newRaw, Vector.getElem?_eq_getElem inside, Vector.getElem_replicate]
    rfl
  · exact RawInode.slot_of_le (Nat.le_of_not_lt inside)

theorem Holds.newInode (holds : Holds fs nodes) (isFree : nodes ino = none) (notZero : ino ≠ 0)
    (inTable : ino < fs.inodeCount) (kind : InodeKind) :
    Holds (fs.writeInode ino (newRaw kind)) (Function.update nodes ino (some (.empty kind))) := by
  have uncached := holds.uncached_of_free isFree
  have records : ∀ other, (fs.writeInode ino (newRaw kind)).record other =
      if other = ino then newRaw kind else fs.record other := by
    intro other
    rw [record_writeInode]
    simp only [uncached, and_true]
  have refers : ∀ slot blk, (fs.writeInode ino (newRaw kind)).Refers slot blk ↔
      fs.Refers slot blk := by
    rintro ⟨other, i⟩ blk
    have unfolded : (fs.writeInode ino (newRaw kind)).inodeCount = fs.inodeCount := rfl
    rw [FsInner.Refers, FsInner.Refers, records, unfolded]
    refine and_congr_right fun _ => ?_
    by_cases same : other = ino
    · have wasEmpty := (holds.free inTable isFree).2 i
      simp only [same, if_true, slot_newRaw, wasEmpty]
    · rw [if_neg same]
  have count : (fs.writeInode ino (newRaw kind)).inodeCount = fs.inodeCount := rfl
  apply holds.update inTable notZero count (holds.synced.writeInode inTable _)
    (holds.ledger.congr (fun _ => .rfl) refers)
  · intro other id isState
    have was := holds.cached isState
    refine ⟨was.1, was.2.1, ?_⟩
    rw [Function.update_of_ne]
    · exact was.2.2
    · rintro rfl
      exact was.2.2 isFree
  · exact holds.current
  · intro other _ different
    rw [records, if_neg different, FsInner.diskInode_writeInode, if_neg different]
    exact ⟨rfl, rfl⟩
  · exact fun _ refers => holds.dev_writeInode inTable refers
  · have isNew : (fs.writeInode ino (newRaw kind)).record ino = newRaw kind := by
      rw [records, if_pos rfl]
    rw [FsInner.Shows, isNew, FsInner.diskInode_writeInode, if_pos rfl, Node.kind_empty]
    exact ⟨kindCode_ne_unused kind, rfl, Node.storedIn_empty rfl (slot_newRaw kind)⟩

theorem Holds.insertState (holds : Holds fs nodes) (uncached : fs.inodeCache ino = none)
    (isNode : nodes ino ≠ none) (isRaw : raw = fs.diskInode ino) :
    Holds (fs.insertState ⟨ino, raw⟩) nodes := by
  have oldStates : ∀ {other id}, fs.inodeCache other = some id → id ≠ fs.stateCount :=
    fun isState => Nat.ne_of_lt (holds.cached isState).1
  have cache : ∀ other, (fs.insertState ⟨ino, raw⟩).inodeCache other =
      if other = ino then some fs.stateCount else fs.inodeCache other :=
    fun other => FsInner.cache_insertState other
  have records : ∀ other, (fs.insertState ⟨ino, raw⟩).record other = fs.record other := by
    intro other
    by_cases same : other = ino
    · have isCached : (fs.insertState ⟨ino, raw⟩).inodeCache other = some fs.stateCount := by
        rw [cache, if_pos same]
      rw [FsInner.record_of_cached isCached, FsInner.raw_insertState, if_pos rfl, isRaw, same,
        FsInner.record_of_uncached uncached]
    · cases cachedAs : fs.inodeCache other with
      | none =>
        have isUncached : (fs.insertState ⟨ino, raw⟩).inodeCache other = none := by
          rw [cache, if_neg same, cachedAs]
        rw [FsInner.record_of_uncached isUncached, FsInner.record_of_uncached cachedAs]
        rfl
      | some id =>
        have isCached : (fs.insertState ⟨ino, raw⟩).inodeCache other = some id := by
          rw [cache, if_neg same, cachedAs]
        rw [FsInner.record_of_cached isCached, FsInner.record_of_cached cachedAs,
          FsInner.raw_insertState, if_neg (oldStates cachedAs)]
  have refers : ∀ slot blk, (fs.insertState ⟨ino, raw⟩).Refers slot blk ↔ fs.Refers slot blk := by
    intro slot blk
    rw [FsInner.Refers, records]
    rfl
  refine ⟨holds.synced.congr rfl rfl fun _ _ => rfl, ?_, ?_, ?_, holds.nonzero, holds.inTable,
    holds.onDisk, ?_, ?_, ?_⟩
  · exact holds.ledger.congr (fun _ => .rfl) refers
  · intro other id isState
    rw [cache] at isState
    split at isState
    · next same =>
      rcases Option.some.inj isState with rfl
      exact ⟨Nat.lt_succ_self _, by rw [FsInner.ino_insertState, if_pos rfl, same], same ▸ isNode⟩
    · have was := holds.cached isState
      refine ⟨Nat.lt_succ_of_lt was.1, ?_, was.2.2⟩
      rw [FsInner.ino_insertState, if_neg (oldStates isState)]
      exact was.2.1
  · intro id inRange
    rw [FsInner.ino_insertState, FsInner.raw_insertState, cache]
    by_cases isNew : id = fs.stateCount
    · rw [if_pos isNew, if_pos rfl, isNew]
      exact .inl rfl
    · rw [if_neg isNew, if_neg isNew]
      have wasState : id < fs.stateCount := Nat.lt_of_le_of_ne (Nat.le_of_lt_succ inRange) isNew
      rcases holds.current id wasState with isCached | isUnused
      · have different : fs.ino id ≠ ino := by
          intro same
          rw [same, uncached] at isCached
          cases isCached
        rw [if_neg different]
        exact .inl isCached
      · exact .inr isUnused
  · intro other node isSome
    rw [records]
    exact holds.kind isSome
  · intro other inRange isFree
    rw [records]
    exact holds.free inRange isFree
  · intro other node isSome
    rw [records]
    exact holds.contents isSome

def erasedRaw (raw : RawInode) : RawInode :=
  { raw with kind := inodeKindUnused, size := 0, linkCount := 0 }

theorem slot_erasedRaw (raw : RawInode) (i : Nat) : (erasedRaw raw).slot i = raw.slot i := rfl

/-- The state after an inode's blocks were given back: its record is cleared in memory and
on disk, and it leaves the cache. -/
def FsInner.dropInode (fs : FsInner) (ino : Nat) (id : StateId) : FsInner :=
  ((fs.setRaw id (erasedRaw (fs.raw id))).writeInode ino (erasedRaw (fs.raw id))).uncache ino

section Drop

variable {middle : FsInner}

theorem raw_dropInode (other : StateId) :
    (middle.dropInode ino id).raw other =
      if other = id then erasedRaw (middle.raw id) else middle.raw other :=
  FsInner.raw_setRaw

theorem ino_dropInode (other : StateId) : (middle.dropInode ino id).ino other = middle.ino other :=
  FsInner.ino_setRaw

theorem cache_dropInode (other : Nat) :
    (middle.dropInode ino id).inodeCache other =
      if other = ino then none else middle.inodeCache other :=
  Function.update_apply _ _ _ _

theorem diskInode_dropInode (other : Nat) :
    (middle.dropInode ino id).diskInode other =
      if other = ino then erasedRaw (middle.raw id) else middle.diskInode other := by
  have cleared : (middle.dropInode ino id).diskInode other =
      ((middle.setRaw id (erasedRaw (middle.raw id))).writeInode ino
        (erasedRaw (middle.raw id))).diskInode other := rfl
  rw [cleared, FsInner.diskInode_writeInode]
  rfl

theorem Holds.record_dropInode (holds : Holds fs nodes) (isCached : fs.inodeCache ino = some id)
    (edits : Edits id fs middle) {other : Nat} (inTable : other < fs.inodeCount) :
    (middle.dropInode ino id).record other =
      if other = ino then erasedRaw (middle.raw id) else fs.record other := by
  by_cases same : other = ino
  · have uncached : (middle.dropInode ino id).inodeCache other = none := by
      rw [cache_dropInode, if_pos same]
    rw [FsInner.record_of_uncached uncached, diskInode_dropInode, if_pos same, if_pos same]
  · have isIno := (holds.cached isCached).2.1
    rw [if_neg same, ← holds.record_of_ne edits inTable (by rwa [isIno])]
    have sameCache : (middle.dropInode ino id).inodeCache other = middle.inodeCache other := by
      rw [cache_dropInode, if_neg same]
    cases cachedAs : middle.inodeCache other with
    | none =>
      rw [FsInner.record_of_uncached (sameCache.trans cachedAs),
        FsInner.record_of_uncached cachedAs, diskInode_dropInode, if_neg same]
    | some state =>
      have different : state ≠ id := by
        rintro rfl
        rw [edits.cache] at cachedAs
        exact same ((holds.cached cachedAs).2.1.symm.trans isIno)
      rw [FsInner.record_of_cached (sameCache.trans cachedAs),
        FsInner.record_of_cached cachedAs, raw_dropInode, if_neg different]

theorem Holds.erased (holds : Holds fs nodes) (isCached : fs.inodeCache ino = some id)
    (shrunk : Shrunk id 0 12 fs middle) :
    Holds (middle.dropInode ino id) (Function.update nodes ino none) := by
  have isIno := (holds.cached isCached).2.1
  have inTable := holds.cached_inTable isCached
  have inTableMiddle : ino < middle.inodeCount := by rwa [shrunk.edits.inodeCount]
  have count : (middle.dropInode ino id).inodeCount = fs.inodeCount := shrunk.edits.inodeCount
  have records : ∀ {other}, other < fs.inodeCount → (middle.dropInode ino id).record other =
      if other = ino then erasedRaw (middle.raw id) else fs.record other :=
    fun inRange => holds.record_dropInode isCached shrunk.edits inRange
  have noBlocks : ∀ i, (erasedRaw (middle.raw id)).slot i = 0 := by
    intro i
    rw [slot_erasedRaw, shrunk.slots]
    split
    · rfl
    · exact RawInode.slot_of_le (by omega)
  have synced : Synced (middle.dropInode ino id) := by
    have cleared : Synced (middle.setRaw id (erasedRaw (middle.raw id))) :=
      shrunk.synced.congr rfl rfl fun _ _ => rfl
    exact (cleared.writeInode inTableMiddle _).congr rfl rfl fun _ _ => rfl
  have sameDev : ∀ {slot blk}, fs.Refers slot blk →
      (middle.dropInode ino id).dev blk = fs.dev blk := by
    intro slot blk refers
    have isData := (holds.ledger.valid refers).1
    rw [← shrunk.dev blk isData]
    rw [← shrunk.edits.dataStart] at isData
    exact FsInner.dev_writeInode shrunk.synced.geometry inTableMiddle (.inr isData)
  have ledger : Ledger fs.IsData (middle.dropInode ino id).Taken
      (middle.dropInode ino id).Refers := by
    apply holds.ledger.release fun slot => slot.1 = ino
    · intro blk
      have isTaken : (middle.dropInode ino id).Taken blk ↔ middle.Taken blk := .rfl
      rw [isTaken, shrunk.taken]
      refine and_congr_right fun taken => ⟨?_, ?_⟩
      · rintro others ⟨other, i⟩ rfl refers
        rcases (holds.refers_raw (isIno.symm ▸ isCached) i blk).mp (isIno.symm ▸ refers) with
          ⟨notZero, isSlot⟩
        apply others i (Nat.zero_le i) _ isSlot
        apply Nat.lt_of_not_le
        intro outside
        exact notZero (isSlot.symm.trans (RawInode.slot_of_le outside))
      · intro others i _ _ isSlot
        have notZero : blk ≠ 0 := by
          rintro rfl
          exact holds.synced.not_taken_zero taken
        have refers := (holds.refers_raw (isIno.symm ▸ isCached) i blk).mpr ⟨notZero, isSlot⟩
        exact others (fs.ino id, i) isIno refers
    · rintro ⟨other, i⟩ blk
      rw [FsInner.Refers, FsInner.Refers, count, and_assoc]
      refine and_congr_right fun inRange => ?_
      rw [records inRange]
      by_cases same : other = ino
      · rw [if_pos same, noBlocks]
        constructor
        · exact fun now => absurd now.2.symm now.1
        · exact fun both => absurd same both.2
      · rw [if_neg same]
        simp only [same, not_false_eq_true, and_true]
  have sameCount : (middle.dropInode ino id).stateCount = fs.stateCount := shrunk.edits.count
  apply holds.update inTable (holds.ino_ne_zero (holds.cached isCached).2.2) count synced
    ⟨ledger.complete, fun refers => shrunk.edits.isData.mpr (ledger.valid refers), ledger.taken,
      ledger.exclusive⟩
  · intro other state isState
    rw [cache_dropInode] at isState
    split at isState
    · cases isState
    · next different =>
      rw [shrunk.edits.cache] at isState
      have was := holds.cached isState
      rw [sameCount, ino_dropInode, shrunk.edits.ino, Function.update_of_ne different]
      exact was
  · intro state inRange
    rw [sameCount] at inRange
    by_cases same : state = id
    · rw [raw_dropInode, if_pos same]
      exact .inr rfl
    · rw [raw_dropInode, if_neg same, shrunk.edits.others state same, ino_dropInode,
        shrunk.edits.ino,
        cache_dropInode, shrunk.edits.cache]
      rcases holds.current state inRange with wasCached | wasUnused
      · have different : fs.ino state ≠ ino := by
          intro sameIno
          rw [sameIno, isCached] at wasCached
          exact same (Option.some.inj wasCached).symm
        rw [if_neg different]
        exact .inl wasCached
      · exact .inr wasUnused
  · intro other inRange different
    rw [records inRange, if_neg different, diskInode_dropInode, if_neg different]
    exact ⟨rfl, shrunk.edits.diskInode holds.synced.geometry inRange⟩
  · exact fun _ refers => sameDev refers
  · rw [FsInner.Shows, records inTable, if_pos rfl]
    exact ⟨rfl, noBlocks⟩

end Drop

end Table

end PersonaOS.Fs.Pondfs
