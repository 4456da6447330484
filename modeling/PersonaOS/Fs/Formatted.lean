import PersonaOS.Fs.Formatting

/-! # Mounting what the formatter wrote

The kernel mounts every image that `mkpondfs` completes, and finds the source tree
in it. -/

namespace PersonaOS.Fs.Pondfs

open Program

namespace Mkpondfs

/-! ## Before the tables are written -/

section Start

variable {fmt : Formatter}

theorem blank_defaultRaw : Blank defaultRaw := ⟨rfl, slotOf_replicate⟩

theorem draft_new {img : Disk} {size : UInt64} {count : Nat}
    (isNew : Formatter.new img size.toNat count = some fmt) (laid : fmt.Laid) :
    Draft fmt (fun _ => none) [] := by
  rcases Formatter.new_eq_some isNew with ⟨_, isBitmap, isInodes, _⟩
  have inode : ∀ ino, fmt.inode ino = defaultRaw := by
    intro ino
    rw [Formatter.inode, isInodes, List.getD_eq_getElem?_getD, List.getElem?_replicate]
    split <;> rfl
  have noSlots : ∀ slot blk, ¬ fmt.Refers slot blk := by
    rintro slot blk ⟨_, notZero, isBlock⟩
    rw [inode, blank_defaultRaw.slots] at isBlock
    exact notZero isBlock.symm
  have noBits : ∀ blk, ¬ fmt.Taken blk := by
    rintro blk ⟨_, isSet⟩
    rw [isBitmap, Bitmap.test_replicate_zero] at isSet
    cases isSet
  refine ⟨laid, ⟨fun taken => absurd taken (noBits _), fun refers => absurd refers (noSlots _ _),
    fun refers => absurd refers (noSlots _ _),
    fun _ _ _ refers => absurd refers (noSlots _ _)⟩, rfl,
    fun known => absurd rfl known, fun isNode => (by cases isNode), ?_, by simp, List.nodup_nil,
    fun isNode => (by cases isNode)⟩
  intro ino _ _
  rw [inode]
  exact ⟨rfl, blank_defaultRaw⟩

def rootOnly : Nodes := Function.update (fun _ => none) rootIno (some (.dir []))

theorem reached_rootOnly : rootOnly.Reached := by
  intro ino known
  rw [rootOnly, Function.update_apply] at known
  split at known
  · next isRoot => exact isRoot ▸ .root
  · exact absurd rfl known

theorem catalog_rootOnly : Catalog rootOnly := by
  have noEntries : ∀ ino, rootOnly.entries ino = [] := by
    intro ino
    rw [rootOnly, Nodes.entries_update]
    split <;> rfl
  refine ⟨⟨[], Function.update_self _ _ _⟩, ?_, ?_, ?_, ?_, ⟨fun _ => 0, rfl, ?_⟩⟩
  · intro ino stored isDir
    rw [rootOnly, Function.update_apply] at isDir
    split at isDir
    · cases isDir
      simp
    · cases isDir
  · intro ino
    rw [noEntries]
    exact List.nodup_nil
  · intro dir entry member
    rw [noEntries] at member
    cases member
  · intro dir other entry same member
    rw [noEntries] at member
    cases member
  · intro dir entry member
    rw [noEntries] at member
    cases member

theorem visit_meets (draft : Draft fmt (fun _ => none) []) (src : SourceDir) :
    (visit rootIno src.tree (fmt.setInode rootIno { fmt.inode rootIno with
      kind := inodeKindDir, linkCount := 1 })).Meets
      (fun _ after => ∃ nodes stored, Draft after nodes [] ∧ Catalog nodes ∧ nodes.Reached ∧
        nodes rootIno = some (.dir stored) ∧ Depicts nodes (visible stored) src.tree)
      (fun _ _ => False) True := by
  have reserved : Draft (fmt.setInode rootIno { fmt.inode rootIno with
      kind := kindCode (Node.dir []).kind, linkCount := 1 }) rootOnly [rootIno] :=
    draft.reserve rfl (by decide) draft.laid.hasRoot
  have visiting : Visiting (fmt.setInode rootIno { fmt.inode rootIno with
      kind := inodeKindDir, linkCount := 1 }) rootOnly rootIno [] [] [] [] :=
    ⟨reserved, catalog_rootOnly, reached_rootOnly, Function.update_self _ _ _, rfl, .nil⟩
  apply Outcome.Meets.bind (visiting.scan src.tree src.valid (by simp))
  rintro seen middle ⟨nodes, stored, files, inos, rfl, seenAll, _, depicts⟩
  apply seenAll.finish.mono _ (fun _ _ never => never) (fun known => known)
  intro _ after finished
  refine ⟨nodes, stored, finished, seenAll.catalog, seenAll.reached, seenAll.isDir, ?_⟩
  have shown : visible stored = stored := seenAll.shown
  rwa [shown]

end Start

/-! ## The tables -/

/-- An image with `count` blocks written from `base + start` on. -/
def overlay (base : Nat) (block : Nat → Block 4096) (count start : Nat) (img : Disk) : Disk :=
  fun blk =>
    if base + start ≤ blk ∧ blk < base + start + count then block (blk - base) else img blk

def Formatter.image (fmt : Formatter) : Disk :=
  Function.update
    (overlay fmt.bitmapStart fmt.bitmapBlock fmt.bitmapBlocks 0
      (overlay fmt.inodeTableStart fmt.tableBlock fmt.inodeTableBlocks 0 fmt.img))
    0 (Block.write Superblock.codec Block.zero 0 fmt.superblock)

section Tables

variable {fmt : Formatter}

theorem forRange_setBlock (base : Nat) (block : Nat → Block 4096) (count start : Nat)
    (fmt : Formatter) :
    (forRange (fun i => modify fun current => current.setBlock (base + i) (block i)) count start :
      Program Formatter Empty PUnit) fmt =
      .ok ⟨⟩ { fmt with img := overlay base block count start fmt.img } := by
  induction count generalizing start fmt with
  | zero =>
    have same : overlay base block 0 start fmt.img = fmt.img := by
      funext blk
      rw [overlay, if_neg (by omega)]
    rw [same]
    rfl
  | succ count induction =>
    have same : overlay base block count (start + 1)
        (fmt.setBlock (base + start) (block start)).img =
        overlay base block (count + 1) start fmt.img := by
      funext blk
      rw [overlay, overlay, Formatter.img_setBlock]
      by_cases isFirst : blk = base + start
      · rw [if_neg (by omega), if_pos isFirst, if_pos (by omega), isFirst,
          Nat.add_sub_cancel_left]
      · rw [if_neg isFirst]
        split
        · rw [if_pos (by omega)]
        · rw [if_neg (by omega)]
    rw [forRange, modify_bind_apply, induction, same]
    rfl

theorem finalize_eq (fmt : Formatter) :
    finalize fmt = .ok ⟨⟩ { fmt with img := fmt.image } := by
  rw [finalize, get_bind_apply, bind_apply, forRange_setBlock]
  simp only
  rw [bind_apply, forRange_setBlock]
  rfl

theorem format_meets (draft : Draft fmt (fun _ => none) []) (src : SourceDir) :
    (format src fmt).Meets
      (fun _ after => ∃ last nodes stored, Draft last nodes [] ∧ Catalog nodes ∧ nodes.Reached ∧
        nodes rootIno = some (.dir stored) ∧ Depicts nodes (visible stored) src.tree ∧
        after.img = last.image)
      (fun _ _ => False) True := by
  rw [format, bind_apply, reserve, updateInode_eq (draft.laid.inodes.symm ▸ draft.laid.hasRoot)]
  apply Outcome.Meets.bind (visit_meets draft src)
  rintro _ last ⟨nodes, stored, finished, catalog, reached, isRoot, depicts⟩
  rw [finalize_eq]
  exact ⟨last, nodes, stored, finished, catalog, reached, isRoot, depicts, rfl⟩

theorem image_of_data (laid : fmt.Laid) {blk : Nat} (isData : fmt.dataStart ≤ blk) :
    fmt.image blk = fmt.img blk := by
  have start := laid.dataStart
  have table := laid.tableStart
  have bitmap := laid.bitmapStart
  rw [Formatter.image, Function.update_of_ne (by omega), overlay, if_neg (by omega), overlay,
    if_neg (by omega)]

theorem image_table (laid : fmt.Laid) {blkOff : Nat} (inside : blkOff < fmt.inodeTableBlocks) :
    fmt.image (fmt.inodeTableStart + blkOff) = fmt.tableBlock blkOff := by
  have table := laid.tableStart
  have bitmap := laid.bitmapStart
  rw [Formatter.image, Function.update_of_ne (by omega), overlay, if_neg (by omega), overlay,
    if_pos (by omega), Nat.add_sub_cancel_left]

theorem image_bitmap (laid : fmt.Laid) {blkOff : Nat} (inside : blkOff < fmt.bitmapBlocks) :
    fmt.image (fmt.bitmapStart + blkOff) = chunk fmt.bitmap blkOff := by
  have bitmap := laid.bitmapStart
  rw [Formatter.image, Function.update_of_ne (by omega), overlay, if_pos (by omega),
    Nat.add_sub_cancel_left]
  rfl

theorem read_superblock (fmt : Formatter) :
    Block.read Superblock.codec (fmt.image 0) 0 = fmt.superblock := by
  rw [Formatter.image, Function.update_self]
  exact Block.read_write_self _ (by decide)

theorem read_tableBlock {blkOff : Nat} (inside : blkOff * 32 + 32 ≤ fmt.inodes.length)
    (count : Nat) (few : count ≤ 32) {i : Nat} (written : i < count) :
    Block.read RawInode.codec
        ((List.range count).foldl (fmt.putInode blkOff) Block.zero) (i * 128) =
      fmt.inode (blkOff * 32 + i) := by
  induction count with
  | zero => exact absurd written (Nat.not_lt_zero i)
  | succ count induction =>
    have isInode : fmt.inodes[blkOff * 32 + count]? = some (fmt.inode (blkOff * 32 + count)) := by
      rw [Formatter.inode, List.getD_eq_getElem?_getD, List.getElem?_eq_getElem (by omega),
        Option.getD_some]
    rw [List.range_succ, List.foldl_append, List.foldl_cons, List.foldl_nil, Formatter.putInode,
      isInode]
    simp only
    rcases Nat.lt_succ_iff_lt_or_eq.mp written with earlier | rfl
    · rw [Block.read_write_of_disjoint, induction (by omega) earlier]
      rw [RawInode.size_codec]
      omega
    · apply Block.read_write_self
      rw [RawInode.size_codec]
      omega

end Tables

end Mkpondfs

/-! ## The mount -/

section Mount

open Mkpondfs

variable {fmt : Formatter}

def bare (dev : Disk) (sb : Superblock) : FsInner :=
  ⟨dev, sb, diskBitmap sb dev, fun _ => none, fun _ => default, 0, []⟩

/-- The state that `mount` returns: the root has been loaded. -/
def mountedFs (dev : Disk) (sb : Superblock) : FsInner :=
  (bare dev sb).insertState ⟨rootIno, (bare dev sb).diskInode rootIno⟩

/-- A device with a superblock that `mount` accepts. -/
structure Labelled (dev : Disk) (sb : Superblock) : Prop where
  read : Block.read Superblock.codec (dev 0) 0 = sb
  magic : sb.magic = pondMagic
  version : sb.version = pondVersion
  hasRoot : rootIno < sb.inodeCount.toNat

theorem Labelled.mount {dev : Disk} {sb : Superblock} (labelled : Labelled dev sb) :
    mount dev = .ok (mountedFs dev sb, 0) := by
  have hasRoot : rootIno < (bare dev sb).inodeCount := labelled.hasRoot
  have loads : loadInode (bare dev sb) rootIno =
      .ok ⟨rootIno, (bare dev sb).diskInode rootIno⟩ := by
    rw [loadInode, if_neg]
    have isRoot : rootIno = 1 := rfl
    omega
  rw [Pondfs.mount]
  simp only [labelled.read]
  rw [if_neg (Decidable.not_not.mpr labelled.magic),
    if_neg (Decidable.not_not.mpr labelled.version)]
  exact congrArg (fun loaded => (do
    let rootState ← loaded
    pure ((bare dev sb).insertState rootState, (bare dev sb).stateCount) :
      Except FsError (FsInner × StateId))) loads

/-- What the cache has of an inode is what the disk has. -/
def FsInner.Flushed (fs : FsInner) : Prop :=
  ∀ ino id, fs.inodeCache ino = some id → fs.raw id = fs.diskInode ino

theorem FsInner.Flushed.record {fs : FsInner} (flushed : fs.Flushed) (ino : Nat) :
    fs.record ino = fs.diskInode ino := by
  cases cachedAs : fs.inodeCache ino with
  | some id => rw [FsInner.record_of_cached cachedAs, flushed ino id cachedAs]
  | none => rw [FsInner.record_of_uncached cachedAs]

/-- Everything that was done is on the device, which can be mounted again. -/
structure Durable (fs : FsInner) : Prop where
  flushed : fs.Flushed
  labelled : Labelled fs.dev fs.sb
  root : fs.inodeCache rootIno = some 0

theorem Labelled.durable {dev : Disk} {sb : Superblock} (labelled : Labelled dev sb) :
    Durable (mountedFs dev sb) := by
  refine ⟨?_, labelled, rfl⟩
  intro ino id isCached
  rw [mountedFs, FsInner.cache_insertState] at isCached
  split at isCached
  · next isRoot =>
    rcases Option.some.inj isCached with rfl
    rw [isRoot]
    rfl
  · cases isCached

abbrev inner (fmt : Formatter) : FsInner := bare fmt.image fmt.superblock

/-- The superblock has the numbers of the formatter. -/
structure Records (fmt : Formatter) (fs : FsInner) : Prop where
  totalBlocks : fs.totalBlocks = fmt.totalBlocks
  inodeCount : fs.inodeCount = fmt.inodeCount
  bitmapStart : fs.bitmapStart = fmt.bitmapStart
  bitmapBlocks : fs.bitmapBlocks = fmt.bitmapBlocks
  inodeTableStart : fs.inodeTableStart = fmt.inodeTableStart
  inodeTableBlocks : fs.inodeTableBlocks = fmt.inodeTableBlocks
  dataStart : fs.dataStart = fmt.dataStart

theorem records_inner (laid : fmt.Laid) : Records fmt (inner fmt) := by
  have bitmap := laid.bitmapStart
  have table := laid.tableStart
  have data := laid.dataStart
  have count := laid.count
  have fits := laid.fits
  have small := laid.small
  refine ⟨?_, ?_, ?_, ?_, ?_, ?_, ?_⟩ <;>
    exact UInt64.toNat_ofNat_of_lt' (show _ < 2 ^ 64 by omega)

theorem geometry_superblock (laid : fmt.Laid) : Geometry fmt.superblock := by
  have records := records_inner laid
  have bitmapStart : fmt.superblock.bitmapStart.toNat = _ := records.bitmapStart
  have bitmapBlocks : fmt.superblock.bitmapBlocks.toNat = _ := records.bitmapBlocks
  have tableStart : fmt.superblock.inodeTableStart.toNat = _ := records.inodeTableStart
  have tableBlocks : fmt.superblock.inodeTableBlocks.toNat = _ := records.inodeTableBlocks
  have dataStart : fmt.superblock.dataStart.toNat = _ := records.dataStart
  have inodeCount : fmt.superblock.inodeCount.toNat = _ := records.inodeCount
  have totalBlocks : fmt.superblock.totalBlocks.toNat = _ := records.totalBlocks
  have bitmap := laid.bitmapStart
  have table := laid.tableStart
  have data := laid.dataStart
  have count := laid.count
  have fits := laid.fits
  have bits := laid.bits
  constructor <;> omega

theorem bitmap_inner (laid : fmt.Laid) : (inner fmt).bitmap = fmt.bitmap := by
  have records := records_inner laid
  have bitmapStart : fmt.superblock.bitmapStart.toNat = _ := records.bitmapStart
  have bitmapBlocks : fmt.superblock.bitmapBlocks.toNat = _ := records.bitmapBlocks
  have length := laid.bitmap
  apply List.ext_getElem?
  intro byte
  by_cases inside : byte < fmt.bitmap.length
  · have isLoaded : (diskBitmap fmt.superblock fmt.image)[byte]? = _ :=
      getElem?_diskBitmap _ _ (by rw [bitmapBlocks]; omega)
    rw [bitmapStart, image_bitmap laid (by omega), chunk_apply, List.getD_eq_getElem?_getD,
      List.getElem?_eq_getElem inside, Option.getD_some] at isLoaded
    rw [List.getElem?_eq_getElem inside]
    exact isLoaded
  · have sameLength : (inner fmt).bitmap.length = fmt.bitmap.length := by
      rw [length, ← bitmapBlocks]
      exact length_diskBitmap _ _
    rw [List.getElem?_eq_none (by omega), List.getElem?_eq_none (by omega)]

theorem diskInode_inner (laid : fmt.Laid) {ino : Nat} (inTable : ino < fmt.inodeCount) :
    (inner fmt).diskInode ino = fmt.inode ino := by
  have count := laid.count
  have inodes := laid.inodes
  have isBlock : (inner fmt).dev (fmt.inodeTableStart + ino / 32) = fmt.tableBlock (ino / 32) :=
    image_table laid (by omega)
  rw [FsInner.diskInode, (records_inner laid).inodeTableStart, isBlock, Formatter.tableBlock,
    read_tableBlock (by omega) 32 (Nat.le_refl 32) (Nat.mod_lt _ (by decide)),
    show ino / 32 * 32 + ino % 32 = ino by omega]

theorem holds_inner {nodes : Nodes} (draft : Draft fmt nodes []) : Holds (inner fmt) nodes := by
  have laid := draft.laid
  have records := records_inner laid
  have record : ∀ {ino}, ino < fmt.inodeCount → (inner fmt).record ino = fmt.inode ino :=
    fun inTable => (FsInner.record_of_uncached rfl).trans (diskInode_inner laid inTable)
  have inTable : ∀ {ino node}, nodes ino = some node → ino < fmt.inodeCount :=
    fun isNode => draft.inTable (isNode ▸ Option.some_ne_none _)
  have isData : ∀ blk, (inner fmt).IsData blk ↔ fmt.IsData blk := by
    intro blk
    rw [FsInner.IsData, records.dataStart, records.totalBlocks, Formatter.IsData]
  have isTaken : ∀ blk, (inner fmt).Taken blk ↔ fmt.Taken blk := by
    intro blk
    rw [FsInner.Taken, records.dataStart, bitmap_inner laid, Formatter.Taken]
  have refers : ∀ slot blk, (inner fmt).Refers slot blk ↔ fmt.Refers slot blk := by
    intro slot blk
    rw [FsInner.Refers, Formatter.Refers, records.inodeCount, and_congr_right_iff]
    intro inside
    rw [record inside]
  refine ⟨synced_of_bitmap_eq (geometry_superblock laid) rfl, ?_,
    fun isCached => (by cases isCached),
    fun id inRange => absurd inRange (Nat.not_lt_zero _), draft.nonzero, ?_, ?_, ?_, ?_, ?_⟩
  · have ledger := draft.ledger.congr isTaken refers
    exact ⟨ledger.complete, fun refer => (isData _).mpr (ledger.valid refer), ledger.taken,
      ledger.exclusive⟩
  · intro ino isNode
    rw [records.inodeCount]
    exact draft.inTable isNode
  · intro ino isNode
    rcases Option.ne_none_iff_exists'.mp isNode with ⟨node, isSome⟩
    rw [diskInode_inner laid (draft.inTable isNode), draft.kind isSome]
    exact kindCode_ne_unused _
  · intro ino node isNode
    rw [record (inTable isNode), draft.kind isNode]
  · intro ino inside isFree
    rw [records.inodeCount] at inside
    rw [record inside]
    have free := draft.free inside isFree
    exact ⟨free.1, free.2.slots⟩
  · intro ino node isNode
    rw [record (inTable isNode)]
    apply (draft.contents isNode List.not_mem_nil).congr_dev
    intro i hasBlock
    have inUse : fmt.Refers (ino, i) ((fmt.inode ino).slot i) := ⟨inTable isNode, hasBlock, rfl⟩
    exact image_of_data laid (draft.ledger.valid inUse).1

theorem labelled_image (laid : fmt.Laid) : Labelled fmt.image fmt.superblock := by
  refine ⟨read_superblock fmt, rfl, rfl, ?_⟩
  have records := records_inner laid
  have count : fmt.superblock.inodeCount.toNat = _ := records.inodeCount
  rw [count]
  exact laid.hasRoot

theorem Mkpondfs.format_mounted {last : Formatter} {src : SourceDir}
    (draft : Draft fmt (fun _ => none) []) (made : (format src fmt).final = some last) :
    ∃ fs nodes stored, mount last.img = .ok (fs, 0) ∧ Mounted fs nodes ∧
      OpensDir fs nodes 0 stored ∧ Depicts nodes (visible stored) src.tree ∧ fs.dev = last.img ∧
      Durable fs ∧ nodes.Reached := by
  have formats := format_meets draft src
  cases ended : format src fmt with
  | error fault after =>
    rw [ended] at formats
    exact formats.elim
  | panic =>
    rw [ended] at made
    cases made
  | ok _ after =>
    rw [ended] at made formats
    cases made
    rcases formats with ⟨last, nodes, stored, draft, catalog, reached, isRoot, depicts, isImage⟩
    have holds : Holds (mountedFs last.image last.superblock) nodes :=
      (holds_inner draft).insertState rfl (isRoot ▸ Option.some_ne_none _) rfl
    have labelled := labelled_image draft.laid
    rw [isImage]
    exact ⟨_, nodes, stored, labelled.mount, ⟨holds, catalog⟩, ⟨rfl, isRoot⟩, depicts, rfl,
      labelled.durable, reached⟩

theorem mkpondfs_mounted {img disk : Disk} {size : UInt64} {src : SourceDir}
    (made : mkpondfs img size src = some disk) :
    ∃ fs nodes stored, mount disk = .ok (fs, 0) ∧ Mounted fs nodes ∧ OpensDir fs nodes 0 stored ∧
      Depicts nodes (visible stored) src.tree ∧ fs.dev = disk ∧ Durable fs ∧ nodes.Reached := by
  rw [mkpondfs] at made
  split at made
  · cases made
  · next fmt isNew =>
    rcases Option.map_eq_some_iff.mp made with ⟨last, isLast, rfl⟩
    have laid := (Formatter.new_eq_some isNew).2.2.2 (by decide) (by decide)
      (Formatter.fits_of_new isNew)
    exact format_mounted (draft_new isNew laid) isLast

/-- Walking the mounted image gives the source tree back, and the bitmap on the image marks
just the blocks that inodes on the image refer to. -/
theorem mkpondfs_walk (img disk : Disk) (size : UInt64) (src : SourceDir)
    (made : mkpondfs img size src = some disk) :
    ∃ fs root, mount disk = .ok (fs, root) ∧ fs.dev = disk ∧
      (∀ fuel, src.tree.depth ≤ fuel → (inode.walk fuel root fs).value? = some src.tree) ∧
      ∀ bit, Bitmap.test (diskBitmap fs.sb disk) bit = true ↔
        fs.IsData (fs.dataStart + bit) ∧
          ∃ ino < fs.inodeCount, ∃ i < 12, (fs.diskInode ino).slot i = fs.dataStart + bit := by
  rcases mkpondfs_mounted made with
    ⟨fs, nodes, stored, mounts, mounted, opens, depicts, isDisk, durable, _⟩
  refine ⟨fs, 0, mounts, isDisk, ?_, ?_⟩
  · intro fuel enough
    rcases mounted.walk opens depicts enough with ⟨after, walks, _⟩
    rw [walks]
    rfl
  · intro bit
    have ledger := mounted.holds.ledger
    have positive := mounted.holds.synced.dataStart_pos
    have isTaken : Bitmap.test (diskBitmap fs.sb disk) bit = true ↔
        fs.Taken (fs.dataStart + bit) := by
      rw [FsInner.Taken, Nat.add_sub_cancel_left, mounted.holds.synced.bitmap_eq, isDisk]
      exact ⟨fun isSet => ⟨Nat.le_add_right _ _, isSet⟩, fun taken => taken.2⟩
    rw [isTaken]
    constructor
    · intro taken
      rcases ledger.complete taken with ⟨slot, refers⟩
      refine ⟨ledger.valid refers, slot.1, refers.1, slot.2, ?_, ?_⟩
      · apply Nat.lt_of_not_le
        intro outside
        exact refers.2.1 (refers.2.2 ▸ RawInode.slot_of_le outside)
      · rw [← durable.flushed.record]
        exact refers.2.2
    · rintro ⟨_, ino, inTable, i, _, isBlock⟩
      have refers : fs.Refers (ino, i) (fs.dataStart + bit) :=
        ⟨inTable, by omega, by rw [durable.flushed.record, isBlock]⟩
      exact ledger.taken refers

/-- A source directory with a file and a directory that has a file. -/
def smallSource : SourceDir where
  tree := .file "a" [1, 2, 3] (.dir "b" (.file "c" [] .empty) .empty)
  valid := by decide

theorem smallSource_made : (mkpondfs (fun _ => Block.zero) 262144 smallSource).isSome = true := by
  decide +kernel

/-- The smallest image that `mkpondfs` accepts. -/
theorem mkpondfs_walk_small :
    ∃ disk fs root, mount disk = .ok (fs, root) ∧ fs.dev = disk ∧
      (∀ fuel, smallSource.tree.depth ≤ fuel →
        (inode.walk fuel root fs).value? = some smallSource.tree) ∧
      ∀ bit, Bitmap.test (diskBitmap fs.sb disk) bit = true ↔
        fs.IsData (fs.dataStart + bit) ∧
          ∃ ino < fs.inodeCount, ∃ i < 12, (fs.diskInode ino).slot i = fs.dataStart + bit := by
  rcases Option.isSome_iff_exists.mp smallSource_made with ⟨disk, made⟩
  exact ⟨disk, mkpondfs_walk (fun _ => Block.zero) disk 262144 smallSource made⟩

end Mount

end PersonaOS.Fs.Pondfs
