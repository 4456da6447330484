import PersonaOS.Fs.Pondfs

/-! # What the primitives of PondFS do to a volume

A volume shows three things: which data blocks the bitmap marks as taken, the records of the
inode table, and the contents of data blocks. Each lies in its own region of the device, so a
primitive that writes one of them leaves the others as they are. -/

namespace PersonaOS.Fs.Pondfs

open Program

/-! ## Geometry -/

/-- The regions of the device follow one another, and the bitmap has a bit for every data
block. -/
structure Geometry (sb : Superblock) : Prop where
  superblock : 0 < sb.bitmapStart.toNat
  bitmap : sb.bitmapStart.toNat + sb.bitmapBlocks.toNat ≤ sb.inodeTableStart.toNat
  table : sb.inodeTableStart.toNat + sb.inodeTableBlocks.toNat ≤ sb.dataStart.toNat
  inodes : sb.inodeCount.toNat = sb.inodeTableBlocks.toNat * 32
  data : sb.dataStart.toNat ≤ sb.totalBlocks.toNat
  bits : sb.totalBlocks.toNat - sb.dataStart.toNat ≤ sb.bitmapBlocks.toNat * 32768

structure Synced (fs : FsInner) : Prop where
  geometry : Geometry fs.sb
  length : fs.bitmap.length = fs.bitmapBlocks * 4096
  onDisk : ∀ byte < fs.bitmap.length,
    fs.bitmap[byte]? = some (fs.dev (fs.bitmapStart + byte / 4096) (Fin.ofNat 4096 byte))

def FsInner.IsData (fs : FsInner) (blk : Nat) : Prop := fs.dataStart ≤ blk ∧ blk < fs.totalBlocks

def FsInner.Taken (fs : FsInner) (blk : Nat) : Prop :=
  fs.dataStart ≤ blk ∧ Bitmap.test fs.bitmap (blk - fs.dataStart) = true

def RawInode.slot (raw : RawInode) (i : Nat) : Nat := (raw.direct[i]?.getD 0).toNat

def RawInode.setSlot (raw : RawInode) (i blk : Nat) : RawInode :=
  { raw with direct := raw.direct.setIfInBounds i (.ofNat blk) }

namespace RawInode

variable {raw : RawInode} {i blk : Nat}

theorem direct_eq (inside : i < 12) : raw.direct[i]? = some (.ofNat (raw.slot i)) := by
  rw [slot, Vector.getElem?_eq_getElem inside, Option.getD_some, UInt64.ofNat_toNat]

theorem slot_of_le (outside : 12 ≤ i) : raw.slot i = 0 := by
  rw [slot, Vector.getElem?_eq_none outside]
  rfl

theorem slot_lt : raw.slot i < 2 ^ 64 := UInt64.toNat_lt _

theorem slot_setSlot (inside : i < 12) (small : blk < 2 ^ 64) (j : Nat) :
    (raw.setSlot i blk).slot j = if j = i then blk else raw.slot j := by
  rw [slot, setSlot, Vector.getElem?_setIfInBounds]
  by_cases same : i = j
  · rw [if_pos same, if_pos inside, if_pos same.symm, Option.getD_some,
      UInt64.toNat_ofNat_of_lt' small]
  · rw [if_neg same, if_neg fun equal => same equal.symm, slot]

end RawInode

theorem ofNat_eq_zero {value : Nat} (small : value < 2 ^ 64) :
    UInt64.ofNat value = 0 ↔ value = 0 := by
  rw [← UInt64.toNat_inj, UInt64.toNat_ofNat_of_lt' small]
  rfl

namespace FsInner

variable {fs : FsInner} {id other : StateId} {raw : RawInode} {blk : Nat}

/-! ## Single updates -/

theorem states_setRaw :
    (fs.setRaw id raw).states other = if other = id then ⟨fs.ino id, raw⟩ else fs.states other :=
  Function.update_apply _ _ _ _

theorem raw_setRaw : (fs.setRaw id raw).raw other = if other = id then raw else fs.raw other := by
  rw [FsInner.raw, states_setRaw, apply_ite InodeState.raw, FsInner.raw]

theorem ino_setRaw : (fs.setRaw id raw).ino other = fs.ino other := by
  rw [FsInner.ino, states_setRaw]
  split
  · next same => rw [same]
  · rfl

theorem states_insertState {state : InodeState} :
    (fs.insertState state).states id = if id = fs.stateCount then state else fs.states id :=
  Function.update_apply _ _ _ _

theorem raw_insertState {state : InodeState} :
    (fs.insertState state).raw id = if id = fs.stateCount then state.raw else fs.raw id := by
  rw [FsInner.raw, states_insertState, apply_ite InodeState.raw, FsInner.raw]

theorem ino_insertState {state : InodeState} :
    (fs.insertState state).ino id = if id = fs.stateCount then state.ino else fs.ino id := by
  rw [FsInner.ino, states_insertState, apply_ite InodeState.ino, FsInner.ino]

theorem cache_insertState {state : InodeState} (ino : Nat) :
    (fs.insertState state).inodeCache ino =
      if ino = state.ino then some fs.stateCount else fs.inodeCache ino :=
  Function.update_apply _ _ _ _

theorem cache_uncache (ino gone : Nat) :
    (fs.uncache gone).inodeCache ino = if ino = gone then none else fs.inodeCache ino :=
  Function.update_apply _ _ _ _

theorem dev_setBlock {buf : Block 4096} (at_ : Nat) :
    (fs.setBlock blk buf).dev at_ = if at_ = blk then buf else fs.dev at_ :=
  Function.update_apply _ _ _ _

/-! ## Regions -/

theorem diskInode_congr (after : FsInner) (geometry : Geometry fs.sb) (sameSb : after.sb = fs.sb)
    (sameDev : ∀ at_, fs.inodeTableStart ≤ at_ → at_ < fs.dataStart → after.dev at_ = fs.dev at_)
    {ino : Nat} (inTable : ino < fs.inodeCount) : after.diskInode ino = fs.diskInode ino := by
  have sameStart : after.inodeTableStart = fs.inodeTableStart := by
    rw [inodeTableStart, sameSb, inodeTableStart]
  have inside : fs.inodeTableStart + ino / 32 < fs.dataStart := by
    have inodes := geometry.inodes
    have table := geometry.table
    simp only [inodeCount, inodeTableStart, dataStart] at *
    omega
  rw [diskInode, sameStart, sameDev _ (Nat.le_add_right _ _) inside, diskInode]

theorem diskInode_writeInode (ino other : Nat) :
    (fs.writeInode ino raw).diskInode other = if other = ino then raw else fs.diskInode other := by
  have inBlock := Nat.mod_lt ino (show 0 < 32 by decide)
  by_cases sameBlock : other / 32 = ino / 32
  · have isBlock : (fs.writeInode ino raw).dev (fs.inodeTableStart + other / 32) =
        Block.write RawInode.codec (fs.dev (fs.inodeTableStart + ino / 32)) (ino % 32 * 128)
          raw := by
      rw [sameBlock, writeInode, dev_setBlock, if_pos rfl]
    have unfolded : (fs.writeInode ino raw).diskInode other = Block.read RawInode.codec
        ((fs.writeInode ino raw).dev (fs.inodeTableStart + other / 32)) (other % 32 * 128) := rfl
    rw [unfolded, isBlock]
    by_cases same : other = ino
    · rw [if_pos same, same]
      apply Block.read_write_self
      rw [RawInode.size_codec]
      omega
    · rw [if_neg same, Block.read_write_of_disjoint, diskInode, sameBlock]
      rw [RawInode.size_codec]
      omega
  · have different : other ≠ ino := fun same => sameBlock (same ▸ rfl)
    have sameDev : (fs.writeInode ino raw).dev (fs.inodeTableStart + other / 32) =
        fs.dev (fs.inodeTableStart + other / 32) := by
      rw [writeInode, dev_setBlock, if_neg (by omega)]
    rw [if_neg different, diskInode, diskInode, ← sameDev]
    rfl

theorem dev_writeInode (geometry : Geometry fs.sb) {ino at_ : Nat} (inTable : ino < fs.inodeCount)
    (outside : at_ < fs.inodeTableStart ∨ fs.dataStart ≤ at_) :
    (fs.writeInode ino raw).dev at_ = fs.dev at_ := by
  have inodes := geometry.inodes
  have table := geometry.table
  rw [writeInode, dev_setBlock, if_neg]
  simp only [inodeCount, inodeTableStart, dataStart] at *
  omega

end FsInner

namespace Synced

variable {fs after : FsInner}

theorem congr (synced : Synced fs) (sameSb : after.sb = fs.sb)
    (sameBitmap : after.bitmap = fs.bitmap)
    (sameDev : ∀ at_ < fs.inodeTableStart, after.dev at_ = fs.dev at_) : Synced after where
  geometry := sameSb ▸ synced.geometry
  length := by rw [sameBitmap, synced.length, FsInner.bitmapBlocks, FsInner.bitmapBlocks, sameSb]
  onDisk byte inside := by
    rw [sameBitmap] at inside
    have isBitmap : fs.bitmapStart + byte / 4096 < fs.inodeTableStart := by
      have bitmap := synced.geometry.bitmap
      have length := synced.length
      simp only [FsInner.bitmapStart, FsInner.bitmapBlocks, FsInner.inodeTableStart] at *
      omega
    have sameStart : after.bitmapStart = fs.bitmapStart := by
      rw [FsInner.bitmapStart, sameSb, FsInner.bitmapStart]
    rw [sameBitmap, synced.onDisk byte inside, sameStart, sameDev _ isBitmap]

theorem setBlock (synced : Synced fs) {blk : Nat} (isData : fs.dataStart ≤ blk) (buf : Block 4096) :
    Synced (fs.setBlock blk buf) := by
  refine synced.congr rfl rfl fun at_ before => ?_
  have table := synced.geometry.table
  rw [FsInner.dev_setBlock, if_neg]
  simp only [FsInner.inodeTableStart, FsInner.dataStart] at *
  omega

theorem writeInode (synced : Synced fs) {ino : Nat} (inTable : ino < fs.inodeCount)
    (raw : RawInode) : Synced (fs.writeInode ino raw) :=
  synced.congr rfl rfl fun _ before =>
    FsInner.dev_writeInode synced.geometry inTable (.inl before)

theorem dev_flushByte (synced : Synced fs) {byte : Nat} (inside : byte < fs.bitmap.length)
    (value : UInt8) {at_ : Nat} (outside : fs.inodeTableStart ≤ at_) :
    (fs.flushByte byte value).dev at_ = fs.dev at_ := by
  have bitmap := synced.geometry.bitmap
  have length := synced.length
  rw [FsInner.flushByte, FsInner.dev_setBlock, if_neg]
  simp only [FsInner.bitmapStart, FsInner.bitmapBlocks, FsInner.inodeTableStart] at *
  omega

theorem flushByte (synced : Synced fs) {byte : Nat} (inside : byte < fs.bitmap.length)
    (value : UInt8) : Synced (fs.flushByte byte value) where
  geometry := synced.geometry
  length := by
    have sameLength : (fs.flushByte byte value).bitmap.length = fs.bitmap.length :=
      List.length_set
    rw [sameLength]
    exact synced.length
  onDisk other otherInside := by
    have isBitmap : (fs.flushByte byte value).bitmap = fs.bitmap.set byte value := rfl
    have isDev : (fs.flushByte byte value).dev (fs.bitmapStart + other / 4096) =
        if other / 4096 = byte / 4096 then
          (fs.dev (fs.bitmapStart + byte / 4096)).overwrite (byte % 4096) [value]
        else fs.dev (fs.bitmapStart + other / 4096) := by
      rw [FsInner.flushByte, FsInner.dev_setBlock]
      simp only [Nat.add_left_cancel_iff]
    have unfolded : (fs.flushByte byte value).bitmapStart = fs.bitmapStart := rfl
    rw [isBitmap, List.length_set] at otherInside
    rw [isBitmap, unfolded, isDev]
    by_cases same : other = byte
    · subst same
      rw [if_pos rfl, List.getElem?_set_self inside, Block.overwrite,
        if_pos (Nat.le_of_eq (Fin.val_ofNat ..).symm), Fin.val_ofNat, Nat.sub_self]
      rfl
    · rw [List.getElem?_set_ne (Ne.symm same), synced.onDisk other otherInside]
      by_cases sameBlock : other / 4096 = byte / 4096
      · rw [if_pos sameBlock, Block.overwrite_of_outside, sameBlock]
        rw [Fin.val_ofNat, List.length_singleton]
        omega
      · rw [if_neg sameBlock]

end Synced

/-! ## Taking and giving back blocks -/

namespace FsInner

def mark (fs : FsInner) (blk : Nat) : FsInner :=
  let i := blk - fs.dataStart
  fs.flushByte (i / 8) (Bitmap.setBit (fs.bitmap.getD (i / 8) 0) (i % 8))

def unmark (fs : FsInner) (blk : Nat) : FsInner :=
  let i := blk - fs.dataStart
  fs.flushByte (i / 8) (Bitmap.clearBit (fs.bitmap.getD (i / 8) 0) (i % 8))

end FsInner

namespace Synced

variable {fs : FsInner} {blk : Nat}

theorem byte_lt (synced : Synced fs) {i : Nat} (inside : i < fs.totalBlocks - fs.dataStart) :
    i / 8 < fs.bitmap.length := by
  have bits := synced.geometry.bits
  have length := synced.length
  simp only [FsInner.totalBlocks, FsInner.dataStart, FsInner.bitmapBlocks] at *
  omega

theorem byte_eq (synced : Synced fs) {i : Nat} (inside : i < fs.totalBlocks - fs.dataStart) :
    fs.bitmap[i / 8]? = some (fs.bitmap.getD (i / 8) 0) := by
  have isByte := synced.byte_lt inside
  rw [List.getD_eq_getElem?_getD, List.getElem?_eq_getElem isByte, Option.getD_some]

theorem taken_mark (synced : Synced fs) (isData : fs.IsData blk) (other : Nat) :
    (fs.mark blk).Taken other ↔ fs.Taken other ∨ other = blk := by
  rcases isData with ⟨behind, before⟩
  have inside : blk - fs.dataStart < fs.totalBlocks - fs.dataStart := by omega
  have bits : ∀ j, Bitmap.test (fs.mark blk).bitmap j =
      (decide (j = blk - fs.dataStart) || Bitmap.test fs.bitmap j) :=
    Bitmap.test_set_setBit (synced.byte_eq inside)
  have unfolded : (fs.mark blk).dataStart = fs.dataStart := rfl
  have sameBlock : fs.dataStart ≤ other ∧ other - fs.dataStart = blk - fs.dataStart ↔
      other = blk := by omega
  rw [FsInner.Taken, FsInner.Taken, unfolded, bits, Bool.or_eq_true, decide_eq_true_iff,
    and_or_left, sameBlock, or_comm]

theorem taken_unmark (synced : Synced fs) (isData : fs.IsData blk) (other : Nat) :
    (fs.unmark blk).Taken other ↔ fs.Taken other ∧ other ≠ blk := by
  rcases isData with ⟨behind, before⟩
  have inside : blk - fs.dataStart < fs.totalBlocks - fs.dataStart := by omega
  have bits : ∀ j, Bitmap.test (fs.unmark blk).bitmap j =
      (!decide (j = blk - fs.dataStart) && Bitmap.test fs.bitmap j) :=
    Bitmap.test_set_clearBit (synced.byte_eq inside)
  have unfolded : (fs.unmark blk).dataStart = fs.dataStart := rfl
  have sameBlock : fs.dataStart ≤ other → (¬ other - fs.dataStart = blk - fs.dataStart ↔
      other ≠ blk) := by omega
  rw [FsInner.Taken, FsInner.Taken, unfolded, bits, Bool.and_eq_true, Bool.not_eq_true',
    decide_eq_false_iff_not, and_assoc, and_congr_right_iff]
  intro isBehind
  rw [sameBlock isBehind, and_comm]

theorem mark (synced : Synced fs) (isData : fs.IsData blk) : Synced (fs.mark blk) :=
  synced.flushByte (synced.byte_lt (Nat.sub_lt_sub_right isData.1 isData.2)) _

theorem unmark (synced : Synced fs) (isData : fs.IsData blk) : Synced (fs.unmark blk) :=
  synced.flushByte (synced.byte_lt (Nat.sub_lt_sub_right isData.1 isData.2)) _

theorem allocLoop (synced : Synced fs) (count i : Nat)
    (fits : i + count ≤ fs.totalBlocks - fs.dataStart) :
    (allocLoop count i fs).Meets
      (fun blk after => fs.IsData blk ∧ ¬ fs.Taken blk ∧ after = fs.mark blk)
      (fun error after => error = .noSpace ∧ after = fs ∧
        ∀ j, i ≤ j → j < i + count → fs.Taken (fs.dataStart + j)) False := by
  induction count generalizing i with
  | zero => exact ⟨rfl, rfl, fun j behind before => by omega⟩
  | succ count induction =>
    have inside : i < fs.totalBlocks - fs.dataStart := by omega
    have isByte := synced.byte_eq inside
    have back : fs.dataStart + i - fs.dataStart = i := Nat.add_sub_cancel_left _ _
    rw [Pondfs.allocLoop, get_bind_apply, isByte]
    simp only
    split
    · next isClear =>
      refine ⟨⟨Nat.le_add_right _ _, by omega⟩, ?_, ?_⟩
      · rw [Bitmap.isClear_eq (Nat.mod_lt _ (by decide)), ← Bitmap.test_eq isByte] at isClear
        intro taken
        rw [FsInner.Taken, back] at taken
        rw [taken.2] at isClear
        cases isClear
      · rw [FsInner.mark, back]
    · next isSet =>
      rw [Bitmap.isClear_eq (Nat.mod_lt _ (by decide)), ← Bitmap.test_eq isByte,
        Bool.not_eq_true', Bool.not_eq_false] at isSet
      apply (induction (i + 1) (by omega)).mono (fun _ _ known => known) _ False.elim
      rintro _ _ ⟨isError, same, taken⟩
      refine ⟨isError, same, fun j behind before => ?_⟩
      rcases Nat.eq_or_lt_of_le behind with rfl | later
      · exact ⟨Nat.le_add_right _ _, back.symm ▸ isSet⟩
      · exact taken j later (by omega)

theorem allocDataBlock (synced : Synced fs) :
    (allocDataBlock fs).Meets
      (fun blk after => fs.IsData blk ∧ ¬ fs.Taken blk ∧ after = fs.mark blk)
      (fun error after => error = .noSpace ∧ after = fs ∧ ∀ blk, fs.IsData blk → fs.Taken blk)
      False := by
  have fits : fs.dataStart ≤ fs.totalBlocks := synced.geometry.data
  rw [Pondfs.allocDataBlock, get_bind_apply, if_neg (Nat.not_lt.mpr fits)]
  apply (synced.allocLoop _ 0 (Nat.le_of_eq (Nat.zero_add _))).mono (fun _ _ known => known) _
    False.elim
  rintro _ _ ⟨isError, same, taken⟩
  refine ⟨isError, same, fun blk isData => ?_⟩
  have isTaken := taken (blk - fs.dataStart) (Nat.zero_le _) (by
    rw [Nat.zero_add]
    exact Nat.sub_lt_sub_right isData.1 isData.2)
  rwa [Nat.add_sub_cancel' isData.1] at isTaken

theorem freeDataBlock (synced : Synced fs) (isData : fs.IsData blk) :
    freeDataBlock blk fs = .ok ⟨⟩ (fs.unmark blk) := by
  have isByte := synced.byte_eq (Nat.sub_lt_sub_right isData.1 isData.2)
  have inRegion : ¬(blk < fs.dataStart ∨ fs.totalBlocks ≤ blk) := by
    have := isData.1
    have := isData.2
    omega
  rw [Pondfs.freeDataBlock, get_bind_apply, if_neg inRegion]
  simp only [isByte]
  rfl

end Synced

/-! ## Slots -/

namespace FsInner

def setSlot (fs : FsInner) (id : StateId) (i blk : Nat) : FsInner :=
  fs.setRaw id ((fs.raw id).setSlot i blk)

def attach (fs : FsInner) (id : StateId) (i blk : Nat) : FsInner :=
  ((fs.mark blk).setBlock blk Block.zero).setSlot id i blk

def detach (fs : FsInner) (id : StateId) (i : Nat) : FsInner :=
  (fs.unmark ((fs.raw id).slot i)).setSlot id i 0

end FsInner

section Slots

variable {fs : FsInner} {id : StateId} {i : Nat}

theorem fillSlot_of_ne (inside : i < 12) (hasBlock : (fs.raw id).slot i ≠ 0) :
    fillSlot id i fs = .ok ⟨⟩ fs := by
  have notZero : UInt64.ofNat ((fs.raw id).slot i) ≠ 0 :=
    fun isZero => hasBlock ((ofNat_eq_zero RawInode.slot_lt).mp isZero)
  rw [fillSlot, get_bind_apply, RawInode.direct_eq inside]
  simp only [if_neg notZero]
  rfl

theorem Synced.fillSlot (synced : Synced fs) (inside : i < 12) :
    (fillSlot id i fs).Meets
      (fun _ after => (fs.raw id).slot i ≠ 0 ∧ after = fs ∨
        (fs.raw id).slot i = 0 ∧ ∃ blk, fs.IsData blk ∧ ¬ fs.Taken blk ∧ after = fs.attach id i blk)
      (fun error after => error = .noSpace ∧ after = fs ∧ (fs.raw id).slot i = 0 ∧
        ∀ blk, fs.IsData blk → fs.Taken blk) False := by
  by_cases isZero : (fs.raw id).slot i = 0
  · have isUnset : UInt64.ofNat ((fs.raw id).slot i) = 0 :=
      (ofNat_eq_zero RawInode.slot_lt).mpr isZero
    rw [Pondfs.fillSlot, get_bind_apply, RawInode.direct_eq inside]
    simp only [if_pos isUnset]
    apply Outcome.Meets.bind (synced.allocDataBlock.imp_error
      fun _ _ failed => ⟨failed.1, failed.2.1, isZero, failed.2.2⟩)
    intro blk middle allocated
    rcases allocated with ⟨isData, free, isMarked⟩
    rw [isMarked]
    exact .inr ⟨isZero, blk, isData, free, rfl⟩
  · rw [fillSlot_of_ne inside isZero]
    exact .inl ⟨isZero, rfl⟩

theorem freeSlot_of_zero (inside : i < 12) (isZero : (fs.raw id).slot i = 0) :
    freeSlot id i fs = .ok ⟨⟩ fs := by
  rw [freeSlot, get_bind_apply, RawInode.direct_eq inside, isZero]
  rfl

theorem Synced.freeSlot (synced : Synced fs) (inside : i < 12) (hasBlock : (fs.raw id).slot i ≠ 0)
    (isData : fs.IsData ((fs.raw id).slot i)) : freeSlot id i fs = .ok ⟨⟩ (fs.detach id i) := by
  have notZero : UInt64.ofNat ((fs.raw id).slot i) ≠ 0 :=
    fun isZero => hasBlock ((ofNat_eq_zero RawInode.slot_lt).mp isZero)
  rw [Pondfs.freeSlot, get_bind_apply, RawInode.direct_eq inside]
  simp only [if_pos notZero, UInt64.toNat_ofNat_of_lt' RawInode.slot_lt]
  rw [bind_apply, synced.freeDataBlock isData]
  rfl

end Slots

/-! ## The inode table -/

theorem allocInode_scans (fs : FsInner) :
    (allocInode fs).Meets
      (fun ino after => ino ≠ 0 ∧ ino / 32 < fs.inodeTableBlocks ∧
        (fs.diskInode ino).kind = inodeKindUnused ∧ after = fs)
      (fun error after => error = .noSpace ∧ after = fs ∧
        ∀ ino, ino ≠ 0 → ino / 32 < fs.inodeTableBlocks →
          (fs.diskInode ino).kind ≠ inodeKindUnused)
      False := by
  rw [allocInode, get_bind_apply]
  generalize found : (List.range fs.inodeTableBlocks).findSome? _ = answer
  cases answer with
  | none =>
    refine ⟨rfl, rfl, ?_⟩
    intro ino notZero inTable isUnused
    have inBlock := List.findSome?_eq_none_iff.mp found (ino / 32) (List.mem_range.mpr inTable)
    have isSlot : ino % 32 ∈ List.range 32 := List.mem_range.mpr (Nat.mod_lt _ (by decide))
    have skipped := List.findSome?_eq_none_iff.mp inBlock (ino % 32) isSlot
    rw [FsInner.diskInode] at isUnused
    rw [show ino / 32 * 32 + ino % 32 = ino by omega, if_neg notZero, if_pos isUnused] at skipped
    cases skipped
  | some ino =>
    rcases List.exists_of_findSome?_eq_some found with ⟨blkOff, isBlock, inBlock⟩
    rcases List.exists_of_findSome?_eq_some inBlock with ⟨i, isSlot, chosen⟩
    rw [List.mem_range] at isBlock isSlot
    simp only at chosen
    split at chosen
    · cases chosen
    · next notFirst =>
      split at chosen
      · next isUnused =>
        rcases Option.some.inj chosen with rfl
        have sameBlock : (blkOff * 32 + i) / 32 = blkOff := by omega
        have sameSlot : (blkOff * 32 + i) % 32 = i := by omega
        refine ⟨notFirst, ?_, ?_, rfl⟩
        · rwa [sameBlock]
        · rwa [FsInner.diskInode, sameBlock, sameSlot]
      · cases chosen

theorem allocInode_spec {fs : FsInner} (geometry : Geometry fs.sb) :
    (allocInode fs).Meets
      (fun ino after => ino ≠ 0 ∧ ino < fs.inodeCount ∧
        (fs.diskInode ino).kind = inodeKindUnused ∧ after = fs)
      (fun error after => error = .noSpace ∧ after = fs ∧
        ∀ ino, ino ≠ 0 → ino < fs.inodeCount → (fs.diskInode ino).kind ≠ inodeKindUnused)
      False := by
  have inTable : ∀ ino, ino / 32 < fs.inodeTableBlocks ↔ ino < fs.inodeCount := by
    intro ino
    rw [FsInner.inodeCount, geometry.inodes, FsInner.inodeTableBlocks]
    omega
  simp only [← inTable]
  exact allocInode_scans fs

end PersonaOS.Fs.Pondfs
