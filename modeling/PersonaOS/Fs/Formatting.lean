import PersonaOS.Fs.Mkpondfs
import PersonaOS.Fs.Trees

/-! # What the formatter writes

While the formatter goes through the source tree, the catalog it aims at is ahead of the
inodes: a directory that is being visited and a file whose body has not been written yet
are in the catalog, but their inodes are still blank. `Draft` lists these pending inodes
and says that everything else is in place. -/

namespace PersonaOS.Fs.Pondfs.Mkpondfs

open Program

/-! ## Layout -/

theorem bitmapLoop_eq (totalBlocks inodeTableBlocks fuel : Nat) :
    bitmapLoop totalBlocks inodeTableBlocks (fuel + 2) 1 =
      max 1 ((totalBlocks - (2 + inodeTableBlocks) + 32767) / 32768) := by
  rw [bitmapLoop]
  split
  · omega
  · rw [bitmapLoop, if_pos (by omega)]
    omega

/-- The same loop without a bound on the number of turns. The bitmap never gets larger than the
image, so there is a last turn. -/
def bitmapWhile (totalBlocks inodeTableBlocks bitmapBlocks : Nat) : Nat :=
  let reserved := 1 + bitmapBlocks + inodeTableBlocks
  let dataBlocks := totalBlocks - reserved
  let need := (dataBlocks + 32767) / 32768
  if need ≤ bitmapBlocks then bitmapBlocks
  else bitmapWhile totalBlocks inodeTableBlocks need
termination_by totalBlocks - bitmapBlocks
decreasing_by
  omega

theorem bitmapLoop_eq_while (totalBlocks inodeTableBlocks fuel : Nat) :
    bitmapLoop totalBlocks inodeTableBlocks (fuel + 2) 1 =
      bitmapWhile totalBlocks inodeTableBlocks 1 := by
  rw [bitmapLoop, bitmapWhile]
  by_cases small : (totalBlocks - (1 + 1 + inodeTableBlocks) + 32767) / 32768 ≤ 1
  · rw [if_pos small, if_pos small]
  · rw [if_neg small, if_neg small, bitmapLoop, bitmapWhile, if_pos (by omega), if_pos (by omega)]

namespace Formatter

def inode (fmt : Formatter) (ino : Nat) : RawInode := fmt.inodes.getD ino defaultRaw

def setInode (fmt : Formatter) (ino : Nat) (raw : RawInode) : Formatter :=
  { fmt with inodes := fmt.inodes.set ino raw }

def IsData (fmt : Formatter) (blk : Nat) : Prop :=
  fmt.dataStart ≤ blk ∧ blk < fmt.totalBlocks

def Taken (fmt : Formatter) (blk : Nat) : Prop :=
  fmt.dataStart ≤ blk ∧ Bitmap.test fmt.bitmap (blk - fmt.dataStart) = true

/-- Slot `slot.2` of inode `slot.1` has the block. -/
def Refers (fmt : Formatter) (slot : Nat × Nat) (blk : Nat) : Prop :=
  slot.1 < fmt.inodeCount ∧ blk ≠ 0 ∧ (fmt.inode slot.1).slot slot.2 = blk

structure Laid (fmt : Formatter) : Prop where
  bitmapStart : fmt.bitmapStart = 1
  tableStart : fmt.inodeTableStart = 1 + fmt.bitmapBlocks
  dataStart : fmt.dataStart = fmt.inodeTableStart + fmt.inodeTableBlocks
  count : fmt.inodeCount = fmt.inodeTableBlocks * 32
  hasRoot : rootIno < fmt.inodeCount
  fits : fmt.dataStart ≤ fmt.totalBlocks
  small : fmt.totalBlocks < 2 ^ 59
  bits : fmt.totalBlocks - fmt.dataStart ≤ fmt.bitmapBlocks * 32768
  bitmap : fmt.bitmap.length = fmt.bitmapBlocks * 4096
  inodes : fmt.inodes.length = fmt.inodeCount

theorem inode_setInode {fmt : Formatter} {ino : Nat} (inTable : ino < fmt.inodes.length)
    (raw : RawInode) (other : Nat) :
    (fmt.setInode ino raw).inode other = if other = ino then raw else fmt.inode other := by
  rw [inode, setInode, List.getD_eq_getElem?_getD, List.getElem?_set, inode]
  by_cases same : ino = other
  · rw [if_pos same, if_pos same.symm, if_pos inTable, Option.getD_some]
  · rw [if_neg same, if_neg (Ne.symm same), List.getD_eq_getElem?_getD]

theorem img_setBlock (fmt : Formatter) (blk : Nat) (data : Block 4096) (at_ : Nat) :
    (fmt.setBlock blk data).img at_ = if at_ = blk then data else fmt.img at_ :=
  Function.update_apply _ _ _ _

theorem Laid.setInode {fmt : Formatter} (laid : Laid fmt) (ino : Nat) (raw : RawInode) :
    Laid (fmt.setInode ino raw) :=
  { laid with inodes := (List.length_set ..).trans laid.inodes }

/-- What `new` returns. -/
structure IsNew (fmt : Formatter) (totalBytes count : Nat) : Prop where
  enough : 64 ≤ fmt.totalBlocks
  totalBlocks : fmt.totalBlocks = totalBytes / 4096
  inodeCount : fmt.inodeCount = count
  bitmapStart : fmt.bitmapStart = 1
  loop : fmt.bitmapBlocks = bitmapWhile fmt.totalBlocks fmt.inodeTableBlocks 1
  bitmapBlocks : fmt.bitmapBlocks =
    max 1 ((fmt.totalBlocks - (2 + fmt.inodeTableBlocks) + 32767) / 32768)
  tableStart : fmt.inodeTableStart = 1 + fmt.bitmapBlocks
  tableBlocks : fmt.inodeTableBlocks = (count + 31) / 32
  dataStart : fmt.dataStart = fmt.inodeTableStart + fmt.inodeTableBlocks
  bitmap : fmt.bitmap = List.replicate (fmt.bitmapBlocks * 4096) 0
  inodes : fmt.inodes = List.replicate fmt.inodeCount defaultRaw

theorem isNew_of_new {img : Disk} {totalBytes count : Nat} {fmt : Formatter}
    (isSome : new img totalBytes count = some fmt) : fmt.IsNew totalBytes count := by
  rw [new] at isSome
  dsimp only at isSome
  split at isSome
  · cases isSome
  · next enough =>
    have fuel : totalBytes / 4096 = totalBytes / 4096 - 2 + 2 := by omega
    cases isSome
    refine ⟨Nat.le_of_not_lt enough, rfl, rfl, rfl, ?_, ?_, rfl, rfl, rfl, rfl, rfl⟩
    · change bitmapLoop _ _ (totalBytes / 4096) 1 = _
      rw [fuel, bitmapLoop_eq_while, ← fuel]
    · change bitmapLoop _ _ (totalBytes / 4096) 1 = _
      rw [fuel, bitmapLoop_eq, ← fuel]

/-- A new formatter has an empty bitmap and unused inodes. If its inodes fill whole blocks
and the tables fit into the image, it has the layout. -/
theorem new_eq_some {img : Disk} {size : UInt64} {count : Nat} {fmt : Formatter}
    (isSome : new img size.toNat count = some fmt) :
    fmt.inodeCount = count ∧ fmt.bitmap = List.replicate (fmt.bitmapBlocks * 4096) 0 ∧
      fmt.inodes = List.replicate fmt.inodeCount defaultRaw ∧
      (count % 32 = 0 → rootIno < count → fmt.dataStart ≤ fmt.totalBlocks → Laid fmt) := by
  have isNew := isNew_of_new isSome
  refine ⟨isNew.inodeCount, isNew.bitmap, isNew.inodes, ?_⟩
  intro whole hasRoot fits
  rcases isNew with ⟨_, totalBlocks, isCount, bitmapStart, _, bitmapBlocks, tableStart, tableBlocks,
    dataStart, bitmap, inodes⟩
  have sized := size.toNat_lt
  refine ⟨bitmapStart, tableStart, dataStart, by omega, isCount ▸ hasRoot, fits, by omega, by omega,
    ?_, ?_⟩
  · rw [bitmap, List.length_replicate]
  · rw [inodes, List.length_replicate]

theorem fits_of_new {img : Disk} {size : UInt64} {fmt : Formatter}
    (isSome : new img size.toNat 64 = some fmt) : fmt.dataStart ≤ fmt.totalBlocks := by
  rcases isNew_of_new isSome with ⟨enough, _, _, _, _, bitmapBlocks, tableStart, tableBlocks,
    dataStart, _, _⟩
  omega

end Formatter

/-! ## Inodes -/

section Inodes

variable {fmt : Formatter} {ino : Nat}

theorem allocInode_meets (fmt : Formatter) :
    (allocInode fmt).Meets
      (fun ino after => after = fmt ∧ ino ≠ 0 ∧ ino < fmt.inodes.length ∧
        (fmt.inode ino).kind = inodeKindUnused) (fun _ _ => False) True := by
  rw [allocInode, get_bind_apply]
  generalize found : List.find? _ (fmt.inodes.zipIdx.drop 1) = result
  cases result with
  | none => trivial
  | some pair =>
    have passes := List.find?_some found
    have isUnused : pair.1.kind = inodeKindUnused := of_decide_eq_true passes
    rcases List.getElem_of_mem (List.mem_of_find?_eq_some found) with ⟨position, inside, isPair⟩
    rw [List.length_drop, List.length_zipIdx] at inside
    rw [List.getElem_drop, List.getElem_zipIdx] at isPair
    rcases isPair with rfl
    refine ⟨rfl, by omega, by omega, ?_⟩
    rw [Nat.zero_add, Formatter.inode, List.getD_eq_getElem?_getD,
      List.getElem?_eq_getElem (by omega)]
    exact isUnused

theorem updateInode_eq (inTable : ino < fmt.inodes.length) (change : RawInode → RawInode) :
    updateInode ino change fmt = .ok ⟨⟩ (fmt.setInode ino (change (fmt.inode ino))) := by
  have isInode : fmt.inodes[ino]? = some (fmt.inode ino) := by
    rw [Formatter.inode, List.getD_eq_getElem?_getD, List.getElem?_eq_getElem inTable,
      Option.getD_some]
  rw [updateInode, get_bind_apply, isInode]
  rfl

end Inodes

/-! ## File bodies -/

def slotOf (direct : Vector UInt64 12) (i : Nat) : Nat := (direct[i]?.getD 0).toNat

/-- What the formatter has done once it has written the first `count` chunks. -/
structure Filled (fmt : Formatter) (bytes : List UInt8) (count : Nat) (direct : Vector UInt64 12)
    (after : Formatter) : Prop where
  same : after = { fmt with img := after.img, bitmap := after.bitmap }
  length : after.bitmap.length = fmt.bitmap.length
  unset : ∀ i, count ≤ i → slotOf direct i = 0
  fresh : ∀ i < count, fmt.IsData (slotOf direct i) ∧ ¬ fmt.Taken (slotOf direct i) ∧
    after.img (slotOf direct i) = chunk bytes i
  once : ∀ i < count, ∀ j < count, slotOf direct i = slotOf direct j → i = j
  taken : ∀ blk, after.Taken blk ↔ fmt.Taken blk ∨ ∃ i < count, slotOf direct i = blk
  img : ∀ blk, (∀ i < count, slotOf direct i ≠ blk) → after.img blk = fmt.img blk

section Bodies

variable {fmt after : Formatter} {bytes : List UInt8} {direct : Vector UInt64 12} {i blk : Nat}

theorem slotOf_set (inside : i < 12) (small : blk < 2 ^ 64) (j : Nat) :
    slotOf (direct.setIfInBounds i (.ofNat blk)) j = if j = i then blk else slotOf direct j := by
  rw [slotOf, Vector.getElem?_setIfInBounds]
  by_cases same : i = j
  · rw [if_pos same, if_pos inside, if_pos same.symm, Option.getD_some,
      UInt64.toNat_ofNat_of_lt' small]
  · rw [if_neg same, if_neg (Ne.symm same), slotOf]

theorem slotOf_replicate (i : Nat) : slotOf (.replicate 12 0) i = 0 := by
  rw [slotOf]
  by_cases inside : i < 12
  · rw [Vector.getElem?_eq_getElem inside, Vector.getElem_replicate]
    rfl
  · rw [Vector.getElem?_eq_none (by omega)]
    rfl

def Formatter.mark (fmt : Formatter) (blk : Nat) : Formatter :=
  let i := blk - fmt.dataStart
  { fmt with bitmap := fmt.bitmap.set (i / 8) (Bitmap.setBit (fmt.bitmap.getD (i / 8) 0) (i % 8)) }

theorem Formatter.Laid.byte_eq (laid : fmt.Laid) (inside : i < fmt.totalBlocks - fmt.dataStart) :
    fmt.bitmap[i / 8]? = some (fmt.bitmap.getD (i / 8) 0) := by
  have bits := laid.bits
  have length := laid.bitmap
  rw [List.getD_eq_getElem?_getD, List.getElem?_eq_getElem (by omega), Option.getD_some]

theorem Formatter.Laid.taken_mark (laid : fmt.Laid) (isData : fmt.IsData blk) (other : Nat) :
    (fmt.mark blk).Taken other ↔ fmt.Taken other ∨ other = blk := by
  rcases isData with ⟨behind, before⟩
  have bits : ∀ j, Bitmap.test (fmt.mark blk).bitmap j =
      (decide (j = blk - fmt.dataStart) || Bitmap.test fmt.bitmap j) :=
    Bitmap.test_set_setBit (laid.byte_eq (by omega))
  have unfolded : (fmt.mark blk).dataStart = fmt.dataStart := rfl
  have sameBlock : fmt.dataStart ≤ other ∧ other - fmt.dataStart = blk - fmt.dataStart ↔
      other = blk := by omega
  rw [Taken, Taken, unfolded, bits, Bool.or_eq_true, decide_eq_true_iff, and_or_left, sameBlock,
    or_comm]

theorem Formatter.Laid.allocLoop (laid : fmt.Laid) (count i : Nat)
    (fits : i + count ≤ fmt.totalBlocks - fmt.dataStart) :
    (allocLoop count i fmt).Meets
      (fun blk after => fmt.IsData blk ∧ ¬ fmt.Taken blk ∧ after = fmt.mark blk)
      (fun _ _ => False) True := by
  induction count generalizing i with
  | zero => trivial
  | succ count induction =>
    have isByte := laid.byte_eq (show i < fmt.totalBlocks - fmt.dataStart by omega)
    rw [Mkpondfs.allocLoop, get_bind_apply, isByte]
    simp only
    split
    · next isClear =>
      have back : fmt.dataStart + i - fmt.dataStart = i := Nat.add_sub_cancel_left _ _
      refine ⟨⟨Nat.le_add_right _ _, by omega⟩, ?_, ?_⟩
      · rw [Bitmap.isClear_eq (Nat.mod_lt _ (by decide)), ← Bitmap.test_eq isByte] at isClear
        intro taken
        rw [Taken, back] at taken
        rw [taken.2] at isClear
        cases isClear
      · rw [mark, back]
    · exact induction (i + 1) (by omega)

theorem Formatter.Laid.allocDataBlock (laid : fmt.Laid) :
    (allocDataBlock fmt).Meets
      (fun blk after => fmt.IsData blk ∧ ¬ fmt.Taken blk ∧ after = fmt.mark blk)
      (fun _ _ => False) True :=
  laid.allocLoop _ 0 (Nat.le_of_eq (Nat.zero_add _))

theorem Filled.refl (fmt : Formatter) (bytes : List UInt8) :
    Filled fmt bytes 0 (.replicate 12 0) fmt where
  same := rfl
  length := rfl
  unset i _ := slotOf_replicate i
  fresh i before := absurd before (Nat.not_lt_zero i)
  once i before := absurd before (Nat.not_lt_zero i)
  taken blk := by simp
  img _ _ := rfl

theorem Filled.laid {count : Nat} (filled : Filled fmt bytes count direct after)
    (laid : fmt.Laid) : after.Laid := by
  rw [filled.same]
  exact { laid with bitmap := filled.length.trans laid.bitmap }

theorem Filled.isData {count : Nat} (filled : Filled fmt bytes count direct after) :
    after.IsData blk ↔ fmt.IsData blk := by
  rw [filled.same]
  rfl

theorem Filled.succ {count : Nat} (filled : Filled fmt bytes count direct after) (laid : fmt.Laid)
    (inside : count < 12) (isData : fmt.IsData blk) (free : ¬ after.Taken blk) :
    Filled fmt bytes (count + 1) (direct.setIfInBounds count (.ofNat blk))
      ((after.mark blk).setBlock blk (chunk bytes count)) := by
  have small : blk < 2 ^ 64 := by
    have before := isData.2
    have limit := laid.small
    omega
  have slots : ∀ j, slotOf (direct.setIfInBounds count (.ofNat blk)) j =
      if j = count then blk else slotOf direct j := slotOf_set inside small
  have older : ∀ i < count, slotOf direct i ≠ blk := by
    intro i before same
    exact free ((filled.taken blk).mpr (.inr ⟨i, before, same⟩))
  have slot_old : ∀ i < count, slotOf (direct.setIfInBounds count (.ofNat blk)) i =
      slotOf direct i := by
    intro i before
    rw [slots, if_neg (by omega)]
  have slot_new : slotOf (direct.setIfInBounds count (.ofNat blk)) count = blk := by
    rw [slots, if_pos rfl]
  have isImg : ∀ at_, ((after.mark blk).setBlock blk (chunk bytes count)).img at_ =
      if at_ = blk then chunk bytes count else after.img at_ :=
    Formatter.img_setBlock _ _ _
  refine ⟨?_, ?_, ?_, ?_, ?_, ?_, ?_⟩
  · rw [filled.same]
    rfl
  · exact (List.length_set ..).trans filled.length
  · intro i behind
    rw [slots, if_neg (by omega), filled.unset i (by omega)]
  · intro i before
    rcases Nat.lt_succ_iff_lt_or_eq.mp before with earlier | rfl
    · rw [slot_old i earlier, isImg, if_neg (older i earlier)]
      exact filled.fresh i earlier
    · rw [slot_new, isImg, if_pos rfl]
      exact ⟨isData, fun taken => free ((filled.taken blk).mpr (.inl taken)), rfl⟩
  · intro i before j beforeToo same
    rcases Nat.lt_succ_iff_lt_or_eq.mp before with earlier | rfl
    · rcases Nat.lt_succ_iff_lt_or_eq.mp beforeToo with earlierToo | rfl
      · rw [slot_old i earlier, slot_old j earlierToo] at same
        exact filled.once i earlier j earlierToo same
      · rw [slot_old i earlier, slot_new] at same
        exact absurd same (older i earlier)
    · rcases Nat.lt_succ_iff_lt_or_eq.mp beforeToo with earlierToo | rfl
      · rw [slot_old j earlierToo, slot_new] at same
        exact absurd same.symm (older j earlierToo)
      · rfl
  · intro other
    have marked : ((after.mark blk).setBlock blk (chunk bytes count)).Taken other ↔
        after.Taken other ∨ other = blk :=
      (filled.laid laid).taken_mark (filled.isData.mpr isData) other
    rw [marked, filled.taken]
    constructor
    · rintro ((isOld | ⟨i, before, same⟩) | isNew)
      · exact .inl isOld
      · exact .inr ⟨i, by omega, by rw [slot_old i before, same]⟩
      · exact .inr ⟨count, by omega, by rw [slot_new, isNew]⟩
    · rintro (isOld | ⟨i, before, same⟩)
      · exact .inl (.inl isOld)
      · rcases Nat.lt_succ_iff_lt_or_eq.mp before with earlier | rfl
        · rw [slot_old i earlier] at same
          exact .inl (.inr ⟨i, earlier, same⟩)
        · rw [slot_new] at same
          exact .inr same.symm
  · intro other elsewhere
    have notNew : other ≠ blk := by
      intro same
      exact elsewhere count (by omega) (by rw [slot_new, same])
    rw [isImg, if_neg notNew]
    apply filled.img
    intro i before
    rw [← slot_old i before]
    exact elsewhere i (by omega)

theorem Filled.writeChunks {done : Nat} (filled : Filled fmt bytes done direct after)
    (laid : fmt.Laid) (count : Nat) (few : done + count ≤ 12) :
    (writeChunks bytes count done direct after).Meets
      (fun direct last => Filled fmt bytes (done + count) direct last) (fun _ _ => False) True := by
  induction count generalizing done direct after with
  | zero => exact filled
  | succ count induction =>
    rw [Mkpondfs.writeChunks]
    apply Outcome.Meets.bind (filled.laid laid).allocDataBlock
    rintro blk _ ⟨isData, free, rfl⟩
    rw [modify_bind_apply]
    have next := filled.succ laid (by omega) (filled.isData.mp isData) free
    have rest := induction next (by omega)
    rwa [Nat.add_right_comm] at rest

theorem chunk_apply (bytes : List UInt8) (position : Nat) :
    chunk bytes (position / 4096) (Fin.ofNat 4096 position) = bytes.getD position 0 := by
  have inBlock := Nat.mod_lt position (show 0 < 4096 by decide)
  rw [chunk, Block.overwrite, if_pos (Nat.zero_le _), Nat.sub_zero, Fin.val_ofNat,
    List.getD_eq_getElem?_getD, List.getElem?_take_of_lt inBlock, List.getElem?_drop,
    List.getD_eq_getElem?_getD, show position / 4096 * 4096 + position % 4096 = position by omega]
  rfl

theorem Filled.stores {raw : RawInode}
    (filled : Filled fmt bytes ((bytes.length + 4095) / 4096) direct after)
    (isDirect : raw.direct = direct) (isSize : raw.size.toNat = bytes.length)
    (laid : fmt.Laid) : Stores after.img raw bytes := by
  have slots : ∀ i, raw.slot i = slotOf direct i := by
    intro i
    rw [← isDirect]
    rfl
  have positive : 0 < fmt.dataStart := by
    have start := laid.dataStart
    have table := laid.tableStart
    omega
  refine ⟨isSize, ?_, ?_⟩
  · intro i inside
    have isData := (filled.fresh i (by omega)).1
    rw [slots]
    exact Nat.ne_of_gt (Nat.lt_of_lt_of_le positive isData.1)
  · intro k hasBlock
    rw [slots] at hasBlock
    have inside : k / 4096 < (bytes.length + 4095) / 4096 := by
      apply Nat.lt_of_not_le
      intro beyond
      exact hasBlock (filled.unset _ beyond)
    rw [fileStream, streamOf, slots, (filled.fresh _ inside).2.2, chunk_apply]

end Bodies

/-! ## Drafts -/

structure Blank (raw : RawInode) : Prop where
  size : raw.size = 0
  slots : ∀ i, raw.slot i = 0

/-- The catalog is in place, but for the contents of the pending inodes. -/
structure Draft (fmt : Formatter) (nodes : Nodes) (pending : List Nat) : Prop where
  laid : fmt.Laid
  ledger : Ledger fmt.IsData fmt.Taken fmt.Refers
  nonzero : nodes 0 = none
  inTable : ∀ {ino}, nodes ino ≠ none → ino < fmt.inodeCount
  kind : ∀ {ino node}, nodes ino = some node → (fmt.inode ino).kind = kindCode node.kind
  free : ∀ {ino}, ino < fmt.inodeCount → nodes ino = none →
    (fmt.inode ino).kind = inodeKindUnused ∧ Blank (fmt.inode ino)
  blank : ∀ {ino}, ino ∈ pending → nodes ino ≠ none ∧ Blank (fmt.inode ino)
  distinct : pending.Nodup
  contents : ∀ {ino node}, nodes ino = some node → ino ∉ pending →
    node.StoredIn fmt.img (fmt.inode ino)

namespace Draft

variable {fmt : Formatter} {nodes : Nodes} {pending : List Nat} {ino : Nat} {node : Node}

theorem inode_lt (draft : Draft fmt nodes pending) (isNode : nodes ino ≠ none) :
    ino < fmt.inodes.length := by
  rw [draft.laid.inodes]
  exact draft.inTable isNode

theorem free_of_unused (draft : Draft fmt nodes pending)
    (unused : (fmt.inode ino).kind = inodeKindUnused) : nodes ino = none := by
  cases isNode : nodes ino with
  | none => rfl
  | some node =>
    rw [draft.kind isNode] at unused
    exact absurd unused (kindCode_ne_unused _)

theorem retarget (draft : Draft fmt nodes pending) (isPending : ino ∈ pending) {old : Node}
    (isOld : nodes ino = some old) (sameKind : node.kind = old.kind) :
    Draft fmt (Function.update nodes ino (some node)) pending := by
  have isNode : ∀ {other}, Function.update nodes ino (some node) other ≠ none →
      nodes other ≠ none := by
    intro other
    rw [Function.update_apply]
    split
    · next same =>
      rw [same, isOld]
      simp
    · exact fun known => known
  refine ⟨draft.laid, draft.ledger, ?_, fun known => draft.inTable (isNode known), ?_, ?_, ?_,
    draft.distinct, ?_⟩
  · have notZero : (0 : Nat) ≠ ino := by
      rintro rfl
      rw [draft.nonzero] at isOld
      cases isOld
    rw [Function.update_of_ne notZero, draft.nonzero]
  · intro other otherNode isOther
    rw [Function.update_apply] at isOther
    split at isOther
    · next same =>
      rw [← Option.some.inj isOther, same, draft.kind isOld, sameKind]
    · exact draft.kind isOther
  · intro other inTable isFree
    rw [Function.update_apply] at isFree
    split at isFree
    · cases isFree
    · exact draft.free inTable isFree
  · intro other otherPending
    refine ⟨?_, (draft.blank otherPending).2⟩
    rw [Function.update_apply]
    split
    · exact Option.some_ne_none _
    · exact (draft.blank otherPending).1
  · intro other otherNode isOther settled
    have different : other ≠ ino := by
      rintro rfl
      exact settled isPending
    rw [Function.update_of_ne different] at isOther
    exact draft.contents isOther settled

theorem reserve (draft : Draft fmt nodes pending) (isFree : nodes ino = none) (notZero : ino ≠ 0)
    (inTable : ino < fmt.inodeCount) :
    Draft (fmt.setInode ino { fmt.inode ino with kind := kindCode node.kind, linkCount := 1 })
      (Function.update nodes ino (some node)) (ino :: pending) := by
  have inode := Formatter.inode_setInode (draft.laid.inodes.symm ▸ inTable)
    { fmt.inode ino with kind := kindCode node.kind, linkCount := 1 }
  have blank := (draft.free inTable isFree).2
  have sameSlots : ∀ other i, ((fmt.setInode ino { fmt.inode ino with
      kind := kindCode node.kind, linkCount := 1 }).inode other).slot i =
      (fmt.inode other).slot i := by
    intro other i
    rw [inode]
    split
    · next same => rw [same]; rfl
    · rfl
  refine ⟨draft.laid.setInode _ _, ?_, ?_, ?_, ?_, ?_, ?_, ?_, ?_⟩
  · apply draft.ledger.congr (fun _ => Iff.rfl)
    intro slot blk
    rw [Formatter.Refers, sameSlots]
    rfl
  · rw [Function.update_of_ne notZero.symm, draft.nonzero]
  · intro other isNode
    rw [Function.update_apply] at isNode
    split at isNode
    · next same => rwa [same]
    · exact draft.inTable isNode
  · intro other otherNode isOther
    rw [Function.update_apply] at isOther
    rw [inode]
    split at isOther
    · next same =>
      rw [if_pos same, ← Option.some.inj isOther]
    · next different =>
      rw [if_neg different]
      exact draft.kind isOther
  · intro other otherInTable otherFree
    rw [Function.update_apply] at otherFree
    rw [inode]
    split at otherFree
    · cases otherFree
    · next different =>
      rw [if_neg different]
      exact draft.free otherInTable otherFree
  · intro other isPending
    rw [inode, Function.update_apply]
    by_cases same : other = ino
    · rw [if_pos same, if_pos same]
      exact ⟨Option.some_ne_none _, blank.size, blank.slots⟩
    · rw [if_neg same, if_neg same]
      exact draft.blank (List.mem_of_ne_of_mem same isPending)
  · exact List.nodup_cons.mpr ⟨fun isPending => (draft.blank isPending).1 isFree, draft.distinct⟩
  · intro other otherNode isOther settled
    have different : other ≠ ino := fun same => settled (same ▸ List.mem_cons_self)
    rw [Function.update_of_ne different] at isOther
    rw [inode, if_neg different]
    exact draft.contents isOther fun isPending => settled (List.mem_cons_of_mem _ isPending)

theorem fill {after : Formatter} {bytes : List UInt8} {direct : Vector UInt64 12} {raw : RawInode}
    (draft : Draft fmt nodes (ino :: pending))
    (isNode : nodes ino = some node)
    (filled : Filled fmt bytes ((bytes.length + 4095) / 4096) direct after)
    (isKind : raw.kind = kindCode node.kind) (isDirect : raw.direct = direct)
    (isStored : node.StoredIn after.img raw) :
    Draft (after.setInode ino raw) nodes pending := by
  have known : nodes ino ≠ none := by
    rw [isNode]
    exact Option.some_ne_none _
  have laid := filled.laid draft.laid
  have sameInodes : after.inodes = fmt.inodes := by rw [filled.same]
  have sameCount : after.inodeCount = fmt.inodeCount := by rw [filled.same]
  have wasInode : ∀ other, after.inode other = fmt.inode other := by
    intro other
    rw [Formatter.inode, sameInodes, Formatter.inode]
  have inode := Formatter.inode_setInode (sameInodes ▸ draft.inode_lt known) raw
  have slots : ∀ i, raw.slot i = slotOf direct i := by
    intro i
    rw [← isDirect]
    rfl
  have wasBlank := (draft.blank List.mem_cons_self).2
  have sameData : (after.setInode ino raw).IsData = fmt.IsData := by
    rw [filled.same]
    rfl
  have positive : 0 < fmt.dataStart := by
    have start := draft.laid.dataStart
    have table := draft.laid.tableStart
    omega
  have settled : ∀ {other}, other ≠ ino → other ∉ pending → other ∉ ino :: pending :=
    fun different elsewhere => List.not_mem_cons_of_ne_of_not_mem different elsewhere
  refine ⟨laid.setInode _ _, ?_, draft.nonzero, ?_, ?_, ?_, ?_, draft.distinct.of_cons, ?_⟩
  · rw [sameData]
    apply draft.ledger.extend fun slot blk => slot.1 = ino ∧
      slot.2 < (bytes.length + 4095) / 4096 ∧ slotOf direct slot.2 = blk
    · rintro slot blk ⟨_, inside, rfl⟩
      exact (filled.fresh _ inside).1
    · rintro slot blk ⟨_, inside, rfl⟩
      exact (filled.fresh _ inside).2.1
    · rintro slot other blk ⟨here, inside, isBlock⟩ ⟨there, otherInside, otherBlock⟩
      exact Prod.ext (here.trans there.symm)
        (filled.once _ inside _ otherInside (isBlock.trans otherBlock.symm))
    · intro blk
      have marked : (after.setInode ino raw).Taken blk ↔ after.Taken blk := Iff.rfl
      rw [marked, filled.taken]
      constructor
      · rintro (isOld | ⟨i, inside, isBlock⟩)
        · exact .inl isOld
        · exact .inr ⟨(ino, i), rfl, inside, isBlock⟩
      · rintro (isOld | ⟨slot, _, inside, isBlock⟩)
        · exact .inl isOld
        · exact .inr ⟨slot.2, inside, isBlock⟩
    · intro slot blk
      have count : (after.setInode ino raw).inodeCount = fmt.inodeCount := sameCount
      rw [Formatter.Refers, Formatter.Refers, inode, wasInode, count]
      by_cases same : slot.1 = ino
      · rw [if_pos same, slots, same, wasBlank.slots]
        constructor
        · rintro ⟨_, notZero, isBlock⟩
          refine .inr ⟨rfl, ?_, isBlock⟩
          apply Nat.lt_of_not_le
          intro beyond
          exact notZero (isBlock ▸ filled.unset _ beyond)
        · rintro (⟨_, notZero, isZero⟩ | ⟨_, inside, rfl⟩)
          · exact absurd isZero.symm notZero
          · have isData := (filled.fresh _ inside).1
            exact ⟨draft.inTable known,
              Nat.ne_of_gt (Nat.lt_of_lt_of_le positive isData.1), rfl⟩
      · rw [if_neg same]
        exact ⟨.inl, fun either => either.resolve_right fun isFresh => same isFresh.1⟩
  · intro other isOther
    exact sameCount.symm ▸ draft.inTable isOther
  · intro other otherNode isOther
    rw [inode]
    split
    · next same =>
      rw [same, isNode] at isOther
      rw [isKind, Option.some.inj isOther]
    · rw [wasInode]
      exact draft.kind isOther
  · intro other inTable isFree
    have different : other ≠ ino := by
      rintro rfl
      exact known isFree
    rw [inode, if_neg different, wasInode]
    exact draft.free (sameCount ▸ inTable) isFree
  · intro other isPending
    have different : other ≠ ino := by
      rintro rfl
      exact (List.nodup_cons.mp draft.distinct).1 isPending
    rw [inode, if_neg different, wasInode]
    exact draft.blank (List.mem_cons_of_mem _ isPending)
  · intro other otherNode isOther elsewhere
    rw [inode]
    split
    · next same =>
      rw [same, isNode] at isOther
      rw [← Option.some.inj isOther]
      exact isStored
    · next different =>
      rw [wasInode]
      apply (draft.contents isOther (settled different elsewhere)).congr_dev
      intro i hasBlock
      apply filled.img
      intro j inside same
      have inUse : fmt.Refers (other, i) ((fmt.inode other).slot i) :=
        ⟨draft.inTable (isOther ▸ Option.some_ne_none _), hasBlock, rfl⟩
      exact (filled.fresh j inside).2.1 (same ▸ draft.ledger.taken inUse)

end Draft

/-! ## Writing files and directories -/

def coded (entry : DirEntry) : Entry := (entry.1, kindCode entry.2.1, entry.2.2)

theorem foldl_pushEntry_coded (stored : List DirEntry) :
    (stored.map coded).foldl pushEntry [] = serialize stored := by
  rw [List.foldl_map]
  exact foldl_pushEntry stored

def bodyRaw (raw : RawInode) (bytes : List UInt8) (direct : Vector UInt64 12) : RawInode :=
  { raw with kind := inodeKindFile, linkCount := 1, size := .ofNat bytes.length, direct }

section Writing

variable {fmt : Formatter} {nodes : Nodes} {pending : List Nat} {ino : Nat} {bytes : List UInt8}

theorem Draft.body (draft : Draft fmt nodes (ino :: pending)) (bytes : List UInt8) :
    (writeFileBytes ino bytes fmt).Meets
      (fun _ after => ∃ middle direct,
        Filled fmt bytes ((bytes.length + 4095) / 4096) direct middle ∧
        bytes.length < 2 ^ 64 ∧ ino < middle.inodes.length ∧
        after = middle.setInode ino (bodyRaw (fmt.inode ino) bytes direct))
      (fun _ _ => False) True := by
  rw [writeFileBytes]
  split
  · trivial
  · next few =>
    apply Outcome.Meets.bind ((Filled.refl fmt bytes).writeChunks draft.laid _ (by omega))
    intro direct middle filled
    rw [Nat.zero_add] at filled
    have sameInodes : middle.inodes = fmt.inodes := by rw [filled.same]
    have inTable : ino < middle.inodes.length :=
      sameInodes ▸ draft.inode_lt (draft.blank List.mem_cons_self).1
    have wasInode : middle.inode ino = fmt.inode ino := by
      rw [Formatter.inode, sameInodes, Formatter.inode]
    rw [updateInode_eq inTable, wasInode]
    exact ⟨middle, direct, filled, by omega, inTable, rfl⟩

theorem Draft.writeFileBytes (draft : Draft fmt nodes (ino :: pending))
    (isFile : nodes ino = some (.file bytes)) :
    (writeFileBytes ino bytes fmt).Meets (fun _ after => Draft after nodes pending)
      (fun _ _ => False) True := by
  apply (draft.body bytes).mono _ (fun _ _ never => never) (fun known => known)
  rintro _ _ ⟨middle, direct, filled, small, _, rfl⟩
  exact draft.fill isFile filled rfl rfl
    (filled.stores rfl (UInt64.toNat_ofNat_of_lt' small) draft.laid)

theorem setInode_setInode (fmt : Formatter) (ino : Nat) (first second : RawInode) :
    (fmt.setInode ino first).setInode ino second = fmt.setInode ino second := by
  rw [Formatter.setInode, Formatter.setInode, Formatter.setInode, List.set_set]

theorem Draft.writeDirectory {stored : List DirEntry} (draft : Draft fmt nodes (ino :: pending))
    (isDir : nodes ino = some (.dir stored)) :
    (writeDirectory ino (stored.map coded) fmt).Meets (fun _ after => Draft after nodes pending)
      (fun _ _ => False) True := by
  rw [Mkpondfs.writeDirectory, foldl_pushEntry_coded]
  apply Outcome.Meets.bind (draft.body (serialize stored))
  rintro _ _ ⟨middle, direct, filled, small, inTable, rfl⟩
  have stillInTable : ino < (middle.setInode ino
      (bodyRaw (fmt.inode ino) (serialize stored) direct)).inodes.length := by
    rw [Formatter.setInode, List.length_set]
    exact inTable
  rw [updateInode_eq stillInTable, Formatter.inode_setInode inTable, if_pos rfl, setInode_setInode]
  exact draft.fill isDir filled rfl rfl
    (filled.stores rfl (UInt64.toNat_ofNat_of_lt' small) draft.laid).begins

end Writing

/-! ## Visiting -/

/-- A directory that is being visited: its entries so far, and the files whose bodies are
still to be written, with their inodes. -/
structure Visiting (fmt : Formatter) (nodes : Nodes) (dir : Nat) (stored : List DirEntry)
    (files : List (List UInt8 × String)) (inos outer : List Nat) : Prop where
  draft : Draft fmt nodes (inos ++ dir :: outer)
  catalog : Catalog nodes
  reached : nodes.Reached
  isDir : nodes dir = some (.dir stored)
  shown : visible stored = stored
  files : List.Forall₂ (fun file ino => (file.2, .file, ino) ∈ stored ∧
    nodes ino = some (.file file.1)) files inos

section Visit

variable {fmt : Formatter} {nodes after : Nodes} {dir : Nat} {stored : List DirEntry}
  {files : List (List UInt8 × String)} {inos outer pending : List Nat}

theorem find_coded (catalog : Catalog nodes) (isDir : nodes dir = some (.dir stored))
    (shown : visible stored = stored) {entry : DirEntry} (member : entry ∈ stored) :
    (stored.map coded).find? (fun other => other.1 = entry.1) = some (coded entry) := by
  have found := catalog.find_visible isDir (shown.symm ▸ member)
  rw [shown] at found
  rw [List.find?_map]
  exact congrArg (Option.map coded) found

theorem Draft.writeFiles (draft : Draft fmt nodes (inos ++ pending)) (catalog : Catalog nodes)
    (isDir : nodes dir = some (.dir stored)) (shown : visible stored = stored)
    (isFiles : List.Forall₂ (fun file ino => (file.2, .file, ino) ∈ stored ∧
      nodes ino = some (.file file.1)) files inos) :
    (writeFiles (stored.map coded) files fmt).Meets (fun _ after => Draft after nodes pending)
      (fun _ _ => False) True := by
  induction isFiles generalizing fmt with
  | nil => exact draft
  | @cons file ino files inos isFile _ induction =>
    have found := find_coded catalog isDir shown isFile.1
    rw [Mkpondfs.writeFiles, found]
    apply Outcome.Meets.bind (draft.writeFileBytes isFile.2)
    intro _ middle rest
    exact induction rest

theorem Visiting.finish (visiting : Visiting fmt nodes dir stored files inos outer) :
    (finish dir (stored.map coded, files) fmt).Meets (fun _ after => Draft after nodes outer)
      (fun _ _ => False) True := by
  apply Outcome.Meets.bind (visiting.draft.writeFiles visiting.catalog visiting.isDir
    visiting.shown visiting.files)
  intro _ middle draft
  exact draft.writeDirectory visiting.isDir

theorem Draft.perm {other : List Nat} (draft : Draft fmt nodes pending)
    (same : pending.Perm other) : Draft fmt nodes other where
  laid := draft.laid
  ledger := draft.ledger
  nonzero := draft.nonzero
  inTable := draft.inTable
  kind := draft.kind
  free := draft.free
  blank isPending := draft.blank (same.mem_iff.mpr isPending)
  distinct := same.nodup_iff.mp draft.distinct
  contents isNode settled :=
    draft.contents isNode fun isPending => settled (same.mem_iff.mp isPending)

variable {ino : Nat} {name : String} {kind : InodeKind}

theorem Visiting.free (visiting : Visiting fmt nodes dir stored files inos outer)
    (inside : ino < fmt.inodes.length) (unused : (fmt.inode ino).kind = inodeKindUnused) :
    nodes ino = none ∧ ino ≠ dir ∧ ino < fmt.inodeCount := by
  have isFree := visiting.draft.free_of_unused unused
  exact ⟨isFree, Nodes.ne_of_free visiting.isDir isFree, visiting.draft.laid.inodes ▸ inside⟩

theorem keeps_create (isFree : nodes ino = none) :
    Keeps dir nodes (nodes.create dir (name, kind, ino)) := by
  intro other different known
  have notNew : other ≠ ino := by
    rintro rfl
    exact known isFree
  rw [Nodes.create_of_ne different notNew]

theorem Visiting.create (visiting : Visiting fmt nodes dir stored files inos outer)
    (notZero : ino ≠ 0) (inside : ino < fmt.inodes.length)
    (unused : (fmt.inode ino).kind = inodeKindUnused)
    (short : name.utf8ByteSize ≤ 65535) (isNew : ∀ entry ∈ stored, entry.1 ≠ name)
    (kind : InodeKind) :
    Draft (fmt.setInode ino { fmt.inode ino with kind := kindCode kind, linkCount := 1 })
        (nodes.create dir (name, kind, ino)) (ino :: (inos ++ dir :: outer)) ∧
      Catalog (nodes.create dir (name, kind, ino)) ∧
      nodes.create dir (name, kind, ino) dir = some (.dir (stored ++ [(name, kind, ino)])) := by
  rcases visiting.free inside unused with ⟨isFree, different, inTable⟩
  have isEntries : nodes.entries dir = stored := by
    rw [Nodes.entries_of_dir visiting.isDir, visiting.shown]
  have isDirThen : Function.update nodes ino (some (.empty kind)) dir = some (.dir stored) := by
    rw [Function.update_of_ne different.symm, visiting.isDir]
  have isPending : dir ∈ ino :: (inos ++ dir :: outer) :=
    List.mem_cons_of_mem _ (List.mem_append_right _ List.mem_cons_self)
  have reserved : Draft _ (Function.update nodes ino (some (.empty kind)))
      (ino :: (inos ++ dir :: outer)) := visiting.draft.reserve isFree notZero inTable
  have small : ino < 2 ^ 64 := by
    have count := visiting.draft.laid.count
    have start := visiting.draft.laid.dataStart
    have fits := visiting.draft.laid.fits
    have limit := visiting.draft.laid.small
    omega
  refine ⟨?_, ?_, ?_⟩
  · rw [Nodes.create]
    rw [Node.kind_empty] at reserved
    exact reserved.retarget isPending isDirThen rfl
  · apply visiting.catalog.create visiting.isDir isFree ⟨short, small⟩
    rwa [visiting.shown]
  · rw [Nodes.create, Function.update_self, isEntries]

theorem Visiting.files_keep {more : List DirEntry}
    (visiting : Visiting fmt nodes dir stored files inos outer) (keeps : Keeps dir nodes after) :
    List.Forall₂ (fun file ino => (file.2, .file, ino) ∈ stored ++ more ∧
      after ino = some (.file file.1)) files inos := by
  apply visiting.files.imp
  rintro file ino ⟨member, isFile⟩
  have different : ino ≠ dir := by
    rintro rfl
    rw [visiting.isDir] at isFile
    cases isFile
  refine ⟨List.mem_append_left _ member, ?_⟩
  rw [keeps ino different (isFile ▸ Option.some_ne_none _), isFile]

theorem visible_push (shown : visible stored = stored) (named : 1 ≤ name.utf8ByteSize) :
    visible (stored ++ [(name, kind, ino)]) = stored ++ [(name, kind, ino)] := by
  have pushed := visible_concat stored (name, kind, ino)
  rw [if_pos (show 0 < name.utf8ByteSize from named), shown] at pushed
  exact pushed

theorem Visiting.file (visiting : Visiting fmt nodes dir stored files inos outer)
    (notZero : ino ≠ 0) (inside : ino < fmt.inodes.length)
    (unused : (fmt.inode ino).kind = inodeKindUnused)
    (length : 1 ≤ name.utf8ByteSize ∧ name.utf8ByteSize ≤ 65535)
    (isNew : ∀ entry ∈ stored, entry.1 ≠ name) (bytes : List UInt8) :
    ∃ next, Visiting
        (fmt.setInode ino { fmt.inode ino with kind := kindCode .file, linkCount := 1 }) next dir
        (stored ++ [(name, .file, ino)]) (files ++ [(bytes, name)]) (inos ++ [ino]) outer ∧
      Keeps dir nodes next ∧ next ino = some (.file bytes) := by
  rcases visiting.free inside unused with ⟨isFree, different, _⟩
  rcases visiting.create notZero inside unused length.2 isNew .file with ⟨draft, catalog, isDir⟩
  have isEmpty : nodes.create dir (name, .file, ino) ino = some (.file []) :=
    Nodes.create_new different
  have keeps : Keeps dir nodes (Function.update (nodes.create dir (name, .file, ino)) ino
      (some (.file bytes))) := by
    intro other otherDifferent known
    have notNew : other ≠ ino := by
      rintro rfl
      exact known isFree
    rw [Function.update_of_ne notNew, keeps_create isFree other otherDifferent known]
  have filled := draft.retarget List.mem_cons_self isEmpty
    (show (Node.file bytes).kind = _ from rfl)
  have reached : (nodes.create dir (name, .file, ino)).Reached :=
    visiting.reached.create visiting.isDir isFree length.1
  refine ⟨_, ⟨filled.perm ?_, catalog.setBytes isEmpty bytes, reached.setBytes isEmpty bytes, ?_,
    visible_push visiting.shown length.1, ?_⟩, keeps, Function.update_self _ _ _⟩
  · rw [List.append_assoc]
    exact List.perm_middle.symm
  · rw [Function.update_of_ne different.symm, isDir]
  · apply List.rel_append (visiting.files_keep keeps)
    exact .cons ⟨List.mem_append_right _ List.mem_cons_self, Function.update_self _ _ _⟩ .nil

theorem Visiting.enter (visiting : Visiting fmt nodes dir stored files inos outer)
    (notZero : ino ≠ 0) (inside : ino < fmt.inodes.length)
    (unused : (fmt.inode ino).kind = inodeKindUnused)
    (length : 1 ≤ name.utf8ByteSize ∧ name.utf8ByteSize ≤ 65535)
    (isNew : ∀ entry ∈ stored, entry.1 ≠ name) :
    Visiting (fmt.setInode ino { fmt.inode ino with kind := kindCode .dir, linkCount := 1 })
      (nodes.create dir (name, .dir, ino)) ino [] [] [] (inos ++ dir :: outer) := by
  rcases visiting.free inside unused with ⟨isFree, different, _⟩
  rcases visiting.create notZero inside unused length.2 isNew .dir with ⟨draft, catalog, _⟩
  exact ⟨draft, catalog, visiting.reached.create visiting.isDir isFree length.1,
    Nodes.create_new different, rfl, .nil⟩

theorem Visiting.leave {middle : Formatter}
    (visiting : Visiting fmt nodes dir stored files inos outer)
    (isFree : nodes ino = none) (different : ino ≠ dir) (named : 1 ≤ name.utf8ByteSize)
    (isDir : nodes.create dir (name, .dir, ino) dir = some (.dir (stored ++ [(name, .dir, ino)])))
    (keeps : Keeps ino (nodes.create dir (name, .dir, ino)) after)
    (draft : Draft middle after (inos ++ dir :: outer)) (catalog : Catalog after)
    (reached : after.Reached) :
    Visiting middle after dir (stored ++ [(name, .dir, ino)]) files inos outer ∧
      Keeps dir nodes after := by
  have keepsBoth : Keeps dir nodes after := by
    intro other otherDifferent known
    have notNew : other ≠ ino := by
      rintro rfl
      exact known isFree
    have same : nodes.create dir (name, .dir, ino) other = nodes other :=
      keeps_create isFree other otherDifferent known
    rw [keeps other notNew (by rwa [same]), same]
  refine ⟨⟨draft, catalog, reached, ?_, visible_push visiting.shown named,
    visiting.files_keep keepsBoth⟩, keepsBoth⟩
  rw [keeps dir different.symm (isDir ▸ Option.some_ne_none _), isDir]

theorem isNew_push {name : String} {rest : List String} {entry : DirEntry}
    (isNew : ∀ other ∈ name :: rest, ∀ entry ∈ stored, entry.1 ≠ other) (absent : name ∉ rest)
    (isName : entry.1 = name) :
    ∀ other ∈ rest, ∀ known ∈ stored ++ [entry], known.1 ≠ other := by
  intro other isOther known member
  rcases List.mem_append.mp member with isOld | isLast
  · exact isNew other (List.mem_cons_of_mem _ isOther) known isOld
  · rw [List.mem_singleton.mp isLast, isName]
    rintro rfl
    exact absent isOther

theorem Visiting.scan (tree : Tree) (valid : tree.ValidNames)
    (isNew : ∀ name ∈ tree.names, ∀ entry ∈ stored, entry.1 ≠ name)
    (visiting : Visiting fmt nodes dir stored files inos outer) :
    (scan tree (stored.map coded) files fmt).Meets
      (fun seen last => ∃ next new newFiles newInos,
        seen = ((stored ++ new).map coded, files ++ newFiles) ∧
        Visiting last next dir (stored ++ new) (files ++ newFiles) (inos ++ newInos) outer ∧
        Keeps dir nodes next ∧ Depicts next new tree)
      (fun _ _ => False) True := by
  induction tree generalizing fmt nodes dir stored files inos outer with
  | empty =>
    refine ⟨nodes, [], [], [], ?_, ?_, fun _ _ _ => rfl, .empty⟩
    · rw [List.append_nil, List.append_nil]
    · rwa [List.append_nil, List.append_nil, List.append_nil]
  | file name bytes rest induction =>
    rcases valid with ⟨absent, length, validRest⟩
    have notYet := isNew name List.mem_cons_self
    rw [Mkpondfs.scan]
    apply Outcome.Meets.bind (allocInode_meets fmt)
    rintro ino _ ⟨rfl, notZero, inside, unused⟩
    rw [Mkpondfs.reserve, bind_apply, updateInode_eq inside]
    rcases visiting.file notZero inside unused length notYet bytes with
      ⟨next, visitingNext, keeps, isFile⟩
    have stillNew : ∀ other ∈ rest.names, ∀ entry ∈ stored ++ [(name, .file, ino)],
        entry.1 ≠ other := isNew_push isNew absent rfl
    have scans := induction validRest stillNew visitingNext
    rw [List.map_append] at scans
    apply scans.mono _ (fun _ _ never => never) (fun known => known)
    rintro seen last ⟨after, new, newFiles, newInos, rfl, visitingLast, keepsLast, depicts⟩
    simp only [List.append_assoc, List.singleton_append] at visitingLast ⊢
    refine ⟨after, (name, .file, ino) :: new, (bytes, name) :: newFiles, ino :: newInos, rfl,
      visitingLast, keeps.trans keepsLast, .file ?_ depicts⟩
    have different := (visiting.free inside unused).2.1
    rw [keepsLast ino different (isFile ▸ Option.some_ne_none _), isFile]
  | dir name sub rest inductionSub induction =>
    rcases valid with ⟨absent, length, validSub, validRest⟩
    have notYet := isNew name List.mem_cons_self
    rw [Mkpondfs.scan]
    apply Outcome.Meets.bind (allocInode_meets fmt)
    rintro ino _ ⟨rfl, notZero, inside, unused⟩
    rw [Mkpondfs.reserve, bind_apply, updateInode_eq inside]
    rcases visiting.free inside unused with ⟨isFree, different, _⟩
    have isDir := (visiting.create notZero inside unused length.2 notYet .dir).2.2
    have entered := visiting.enter notZero inside unused length notYet
    apply Outcome.Meets.bind (inductionSub validSub (by simp) entered)
    rintro seen middle ⟨below, stored', newFiles, newInos, rfl, visited, keepsBelow, depictsBelow⟩
    apply Outcome.Meets.bind visited.finish
    intro _ left draft
    rcases visiting.leave isFree different length.1 isDir keepsBelow draft visited.catalog
      visited.reached with ⟨visitingNext, keeps⟩
    have stillNew : ∀ other ∈ rest.names, ∀ entry ∈ stored ++ [(name, .dir, ino)],
        entry.1 ≠ other := isNew_push isNew absent rfl
    have scans := induction validRest stillNew visitingNext
    rw [List.map_append] at scans
    apply scans.mono _ (fun _ _ never => never) (fun known => known)
    rintro seen last ⟨after, new, moreFiles, moreInos, rfl, visitingLast, keepsLast, depicts⟩
    simp only [List.append_assoc, List.singleton_append] at visitingLast ⊢
    refine ⟨after, (name, .dir, ino) :: new, moreFiles, moreInos, rfl, visitingLast,
      keeps.trans keepsLast, ?_⟩
    have isBelow : below ino = some (.dir stored') := visited.isDir
    have shownBelow : visible stored' = stored' := visited.shown
    rcases visited.catalog.ranked with ⟨rank, _, above⟩
    have isEntry : (name, .dir, ino) ∈ below.entries dir := by
      rw [Nodes.entries_of_dir visitingNext.isDir, visitingNext.shown]
      exact List.mem_append_right _ List.mem_cons_self
    apply Depicts.dir
    · rw [keepsLast ino different (isBelow ▸ Option.some_ne_none _), isBelow]
    · rw [shownBelow]
      apply depictsBelow.keeps keepsLast above
      intro entry member
      rw [← shownBelow, ← Nodes.entries_of_dir isBelow] at member
      exact Nat.lt_trans (above isEntry) (above member)
    · exact depicts

end Visit

end PersonaOS.Fs.Pondfs.Mkpondfs
