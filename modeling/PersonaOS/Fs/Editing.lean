import PersonaOS.Foundation.Ledger
import PersonaOS.Fs.Directory

/-! # Changing one inode

The loops of PondFS work on the record of one inode: they give its slots blocks, take
blocks away again, and copy bytes into them. Each loop is described by the states it can
end in, and by what holds of the device between any two of its block writes. -/

namespace PersonaOS.Fs.Pondfs

open Program

/-! ## The bitmap on disk -/

def diskBitmap (sb : Superblock) (dev : Disk) : List UInt8 :=
  (List.range sb.bitmapBlocks.toNat).flatMap fun i => List.ofFn (dev (sb.bitmapStart.toNat + i))

section DiskBitmap

variable {fs : FsInner}

theorem length_diskBitmap (sb : Superblock) (dev : Disk) :
    (diskBitmap sb dev).length = sb.bitmapBlocks.toNat * 4096 := by
  rw [diskBitmap, flatMap_ofFn_eq_window, length_window]

theorem getElem?_diskBitmap (sb : Superblock) (dev : Disk) {byte : Nat}
    (inside : byte < sb.bitmapBlocks.toNat * 4096) :
    (diskBitmap sb dev)[byte]? =
      some (dev (sb.bitmapStart.toNat + byte / 4096) (Fin.ofNat 4096 byte)) := by
  have sameBlock : (sb.bitmapStart.toNat * 4096 + byte) / 4096 =
      sb.bitmapStart.toNat + byte / 4096 := by omega
  have sameOffset : Fin.ofNat 4096 (sb.bitmapStart.toNat * 4096 + byte) = Fin.ofNat 4096 byte := by
    apply Fin.ext
    rw [Fin.val_ofNat, Fin.val_ofNat, Nat.mul_add_mod_self_right]
  rw [diskBitmap, flatMap_ofFn_eq_window, getElem?_window, if_pos inside, streamOf, sameBlock,
    sameOffset]

theorem Synced.bitmap_eq (synced : Synced fs) : fs.bitmap = diskBitmap fs.sb fs.dev := by
  apply List.ext_getElem?
  intro byte
  by_cases inside : byte < fs.bitmap.length
  · rw [synced.onDisk byte inside]
    rw [synced.length] at inside
    exact (getElem?_diskBitmap fs.sb fs.dev inside).symm
  · have sameLength : (diskBitmap fs.sb fs.dev).length = fs.bitmap.length := by
      rw [length_diskBitmap, synced.length, FsInner.bitmapBlocks]
    rw [List.getElem?_eq_none (Nat.le_of_not_lt inside),
      List.getElem?_eq_none (sameLength ▸ Nat.le_of_not_lt inside)]

theorem synced_of_bitmap_eq (geometry : Geometry fs.sb)
    (same : fs.bitmap = diskBitmap fs.sb fs.dev) : Synced fs where
  geometry := geometry
  length := by rw [same, length_diskBitmap, FsInner.bitmapBlocks]
  onDisk byte inside := by
    rw [same, length_diskBitmap] at inside
    rw [same, getElem?_diskBitmap fs.sb fs.dev inside]
    rfl

end DiskBitmap

/-! ## The device between two writes -/

/-- The block writes from one state to the other, and what holds of the device before,
between and after them. -/
def Issues (holds : Disk → Prop) (fs after : FsInner) : Prop :=
  ∃ writes, after.log = fs.log ++ writes ∧ after.dev = replay fs.dev writes ∧
    Survives holds fs.dev writes

namespace Issues

variable {holds weaker : Disk → Prop} {fs middle after : FsInner}

theorem refl (initial : holds fs.dev) (sameDev : after.dev = fs.dev)
    (sameLog : after.log = fs.log) :
    Issues holds fs after :=
  ⟨[], by rw [sameLog, List.append_nil], sameDev, .nil initial⟩

theorem trans (first : Issues holds fs middle) (second : Issues holds middle after) :
    Issues holds fs after := by
  rcases first with ⟨writes, isLog, isDev, survives⟩
  rcases second with ⟨more, isMoreLog, isMoreDev, survivesMore⟩
  rw [isDev] at survivesMore
  exact ⟨writes ++ more, by rw [isMoreLog, isLog, List.append_assoc],
    by rw [isMoreDev, isDev, replay_append], survives.append survivesMore⟩

theorem single {blk : Nat} {buf : Block 4096} (before : holds fs.dev)
    (isLog : after.log = fs.log ++ [(blk, buf)])
    (isDev : after.dev = Function.update fs.dev blk buf)
    (finally_ : holds after.dev) : Issues holds fs after :=
  ⟨[(blk, buf)], isLog, isDev, .singleton before (isDev ▸ finally_)⟩

end Issues

/-- The device has kept all that counted in the given state; blocks may have been taken and
blocks that were free may have been written. -/
structure Extends (fs : FsInner) (disk : Disk) : Prop where
  fixed : ∀ at_, at_ < fs.bitmapStart ∨ fs.inodeTableStart ≤ at_ ∧ at_ < fs.dataStart →
    disk at_ = fs.dev at_
  kept : ∀ blk, fs.Taken blk → disk blk = fs.dev blk
  marked : ∀ blk, fs.Taken blk → Bitmap.test (diskBitmap fs.sb disk) (blk - fs.dataStart) = true

/-! ## What stays the same -/

/-- Apart from the bitmap, the data blocks and the record of one state, all is as it was.
That record keeps its kind. -/
structure Edits (id : StateId) (fs after : FsInner) : Prop where
  sb : after.sb = fs.sb
  cache : after.inodeCache = fs.inodeCache
  count : after.stateCount = fs.stateCount
  ino : ∀ other, after.ino other = fs.ino other
  others : ∀ other, other ≠ id → after.raw other = fs.raw other
  kind : (after.raw id).kind = (fs.raw id).kind
  fixed : ∀ at_, at_ < fs.bitmapStart ∨ fs.inodeTableStart ≤ at_ ∧ at_ < fs.dataStart →
    after.dev at_ = fs.dev at_

namespace Edits

variable {id : StateId} {fs middle after : FsInner}

theorem refl (fs : FsInner) : Edits id fs fs :=
  ⟨rfl, rfl, rfl, fun _ => rfl, fun _ _ => rfl, rfl, fun _ _ => rfl⟩

theorem inodeCount (edits : Edits id fs after) : after.inodeCount = fs.inodeCount := by
  rw [FsInner.inodeCount, edits.sb, FsInner.inodeCount]

theorem dataStart (edits : Edits id fs after) : after.dataStart = fs.dataStart := by
  rw [FsInner.dataStart, edits.sb, FsInner.dataStart]

theorem isData (edits : Edits id fs after) {blk : Nat} : after.IsData blk ↔ fs.IsData blk := by
  rw [FsInner.IsData, FsInner.IsData, edits.dataStart, FsInner.totalBlocks, edits.sb,
    FsInner.totalBlocks]

theorem trans (first : Edits id fs middle) (second : Edits id middle after) :
    Edits id fs after where
  sb := second.sb.trans first.sb
  cache := second.cache.trans first.cache
  count := second.count.trans first.count
  ino other := (second.ino other).trans (first.ino other)
  others other different := (second.others other different).trans (first.others other different)
  kind := second.kind.trans first.kind
  fixed at_ outside := by
    rw [second.fixed at_ _, first.fixed at_ outside]
    rwa [FsInner.bitmapStart, FsInner.inodeTableStart, first.sb, first.dataStart]

theorem diskInode (edits : Edits id fs after) (geometry : Geometry fs.sb) {ino : Nat}
    (inTable : ino < fs.inodeCount) : after.diskInode ino = fs.diskInode ino :=
  FsInner.diskInode_congr after geometry edits.sb
    (fun at_ behind before => edits.fixed at_ (.inr ⟨behind, before⟩)) inTable

theorem setRaw {raw : RawInode} (sameKind : raw.kind = (fs.raw id).kind) :
    Edits id fs (fs.setRaw id raw) where
  sb := rfl
  cache := rfl
  count := rfl
  ino _ := FsInner.ino_setRaw
  others _ different := by rw [FsInner.raw_setRaw, if_neg different]
  kind := by rw [FsInner.raw_setRaw, if_pos rfl, sameKind]
  fixed _ _ := rfl

theorem flushByte (synced : Synced fs) {byte : Nat} (inside : byte < fs.bitmap.length)
    (value : UInt8) : Edits id fs (fs.flushByte byte value) where
  sb := rfl
  cache := rfl
  count := rfl
  ino _ := rfl
  others _ _ := rfl
  kind := rfl
  fixed at_ outside := by
    rcases outside with before | ⟨behind, _⟩
    · rw [FsInner.flushByte, FsInner.dev_setBlock, if_neg (by omega)]
    · exact synced.dev_flushByte inside value behind

theorem writeAll (geometry : Geometry fs.sb) {writes : List (Nat × Block 4096)}
    (toData : ∀ write ∈ writes, fs.dataStart ≤ write.1) : Edits id fs (fs.writeAll writes) where
  sb := rfl
  cache := rfl
  count := rfl
  ino _ := rfl
  others _ _ := rfl
  kind := rfl
  fixed at_ outside := by
    apply replay_of_forall_ne
    intro write member same
    have bitmap := geometry.bitmap
    have table := geometry.table
    have isData := toData write member
    simp only [FsInner.bitmapStart, FsInner.inodeTableStart, FsInner.dataStart] at *
    omega

end Edits

/-! ## Giving a slot a block and taking it away -/

section Attach

variable {fs : FsInner} {id : StateId} {i blk : Nat}

theorem Synced.dataStart_pos (synced : Synced fs) : 0 < fs.dataStart := by
  have superblock := synced.geometry.superblock
  have bitmap := synced.geometry.bitmap
  have table := synced.geometry.table
  rw [FsInner.dataStart]
  omega

theorem FsInner.IsData.lt (isData : fs.IsData blk) : blk < 2 ^ 64 :=
  Nat.lt_trans isData.2 (UInt64.toNat_lt _)

theorem Synced.not_taken_zero (synced : Synced fs) : ¬ fs.Taken 0 :=
  fun taken => Nat.not_le_of_lt synced.dataStart_pos taken.1

theorem Synced.ne_zero_of_isData (synced : Synced fs) (isData : fs.IsData blk) : blk ≠ 0 := by
  have positive := synced.dataStart_pos
  have behind := isData.1
  omega

theorem raw_setSlot (fs : FsInner) (id : StateId) (i blk : Nat) :
    (fs.setSlot id i blk).raw id = (fs.raw id).setSlot i blk := by
  rw [FsInner.setSlot, FsInner.raw_setRaw, if_pos rfl]

theorem slot_attach (inside : i < 12) (isData : fs.IsData blk) (j : Nat) :
    ((fs.attach id i blk).raw id).slot j = if j = i then blk else (fs.raw id).slot j := by
  rw [FsInner.attach, raw_setSlot]
  exact RawInode.slot_setSlot inside isData.lt j

theorem slot_detach (inside : i < 12) (j : Nat) :
    ((fs.detach id i).raw id).slot j = if j = i then 0 else (fs.raw id).slot j := by
  rw [FsInner.detach, raw_setSlot]
  exact RawInode.slot_setSlot inside (by decide) j

theorem Synced.edits_mark (synced : Synced fs) (isData : fs.IsData blk) :
    Edits id fs (fs.mark blk) :=
  .flushByte synced (synced.byte_lt (Nat.sub_lt_sub_right isData.1 isData.2)) _

theorem Synced.edits_unmark (synced : Synced fs) (isData : fs.IsData blk) :
    Edits id fs (fs.unmark blk) :=
  .flushByte synced (synced.byte_lt (Nat.sub_lt_sub_right isData.1 isData.2)) _

theorem Synced.edits_attach (synced : Synced fs) (isData : fs.IsData blk) :
    Edits id fs (fs.attach id i blk) := by
  have zeroed : Edits id (fs.mark blk) ((fs.mark blk).writeAll [(blk, Block.zero)]) := by
    apply Edits.writeAll (synced.mark isData).geometry
    intro write member
    rw [List.mem_singleton.mp member]
    exact isData.1
  exact ((synced.edits_mark isData).trans zeroed).trans (.setRaw rfl)

theorem Synced.edits_detach (synced : Synced fs) (isData : fs.IsData ((fs.raw id).slot i)) :
    Edits id fs (fs.detach id i) :=
  (synced.edits_unmark isData).trans (.setRaw rfl)

theorem Synced.attach (synced : Synced fs) (isData : fs.IsData blk) :
    Synced (fs.attach id i blk) :=
  ((synced.mark isData).setBlock isData.1 Block.zero).congr rfl rfl fun _ _ => rfl

theorem Synced.detach (synced : Synced fs) (isData : fs.IsData ((fs.raw id).slot i)) :
    Synced (fs.detach id i) :=
  (synced.unmark isData).congr rfl rfl fun _ _ => rfl

theorem Synced.taken_attach (synced : Synced fs) (isData : fs.IsData blk) (other : Nat) :
    (fs.attach id i blk).Taken other ↔ fs.Taken other ∨ other = blk :=
  synced.taken_mark isData other

theorem Synced.taken_detach (synced : Synced fs) (isData : fs.IsData ((fs.raw id).slot i))
    (other : Nat) :
    (fs.detach id i).Taken other ↔ fs.Taken other ∧ other ≠ (fs.raw id).slot i :=
  synced.taken_unmark isData other

theorem Synced.dev_mark (synced : Synced fs) (isData : fs.IsData blk) {at_ : Nat}
    (behind : fs.inodeTableStart ≤ at_) : (fs.mark blk).dev at_ = fs.dev at_ :=
  synced.dev_flushByte (synced.byte_lt (Nat.sub_lt_sub_right isData.1 isData.2)) _ behind

theorem Synced.dev_unmark (synced : Synced fs) (isData : fs.IsData blk) {at_ : Nat}
    (behind : fs.inodeTableStart ≤ at_) : (fs.unmark blk).dev at_ = fs.dev at_ :=
  synced.dev_flushByte (synced.byte_lt (Nat.sub_lt_sub_right isData.1 isData.2)) _ behind

theorem Synced.dev_attach (synced : Synced fs) (isData : fs.IsData blk) {at_ : Nat}
    (behind : fs.inodeTableStart ≤ at_) :
    (fs.attach id i blk).dev at_ = if at_ = blk then Block.zero else fs.dev at_ := by
  have unfolded : (fs.attach id i blk).dev at_ =
      ((fs.mark blk).setBlock blk Block.zero).dev at_ := rfl
  rw [unfolded, FsInner.dev_setBlock, synced.dev_mark isData behind]

end Attach

/-! ## Filling slots -/

def Fresh (id : StateId) (fs after : FsInner) (i blk : Nat) : Prop :=
  (fs.raw id).slot i = 0 ∧ (after.raw id).slot i = blk ∧ blk ≠ 0

/-- Slots of the inode that were empty got blocks that were free, filled with zeros. -/
structure Grown (id : StateId) (fs after : FsInner) : Prop where
  edits : Edits id fs after
  synced : Synced after
  size : (after.raw id).size = (fs.raw id).size
  old : ∀ i, (fs.raw id).slot i ≠ 0 → (after.raw id).slot i = (fs.raw id).slot i
  fresh : ∀ {i blk}, Fresh id fs after i blk →
    fs.IsData blk ∧ ¬ fs.Taken blk ∧ after.dev blk = Block.zero
  once : ∀ {i j blk}, Fresh id fs after i blk → Fresh id fs after j blk → i = j
  taken : ∀ blk, after.Taken blk ↔ fs.Taken blk ∨ ∃ i, Fresh id fs after i blk
  dev : ∀ blk, fs.dataStart ≤ blk → (∀ i, ¬ Fresh id fs after i blk) → after.dev blk = fs.dev blk
  issues : Issues (Extends fs) fs after

section Grown

variable {fs after : FsInner} {id : StateId} {i blk : Nat}

theorem Synced.extends_ (synced : Synced fs) : Extends fs fs.dev where
  fixed _ _ := rfl
  kept _ _ := rfl
  marked blk taken := by
    rw [← synced.bitmap_eq]
    exact taken.2

theorem not_fresh_self (fs : FsInner) (id : StateId) (i blk : Nat) : ¬ Fresh id fs fs i blk :=
  fun fresh => fresh.2.2 (fresh.2.1.symm.trans fresh.1)

theorem Grown.refl (synced : Synced fs) : Grown id fs fs where
  edits := .refl fs
  synced := synced
  size := rfl
  old _ _ := rfl
  fresh isFresh := absurd isFresh (not_fresh_self _ _ _ _)
  once isFresh := absurd isFresh (not_fresh_self _ _ _ _)
  taken blk := by
    constructor
    · exact .inl
    · rintro (taken | ⟨i, isFresh⟩)
      · exact taken
      · exact absurd isFresh (not_fresh_self _ _ _ _)
  dev _ _ _ := rfl
  issues := .refl synced.extends_ rfl rfl

theorem Grown.extends_ (grown : Grown id fs after) (later : FsInner) (synced : Synced later)
    (edits : Edits id fs later) (taken : ∀ blk, after.Taken blk → later.Taken blk)
    (dev : ∀ blk, after.Taken blk → later.dev blk = after.dev blk) : Extends fs later.dev where
  fixed := edits.fixed
  kept blk isTaken := by
    have notFresh : ∀ i, ¬ Fresh id fs after i blk := fun i isFresh =>
      (grown.fresh isFresh).2.1 isTaken
    rw [dev blk ((grown.taken blk).mpr (.inl isTaken)), grown.dev blk isTaken.1 notFresh]
  marked blk isTaken := by
    have marked := (taken blk ((grown.taken blk).mpr (.inl isTaken))).2
    rwa [synced.bitmap_eq, edits.sb, edits.dataStart] at marked

theorem Grown.fresh_attach (grown : Grown id fs after) (inside : i < 12)
    (isEmpty : (after.raw id).slot i = 0) (isData : after.IsData blk) (j other : Nat) :
    Fresh id fs (after.attach id i blk) j other ↔
      Fresh id fs after j other ∨ j = i ∧ other = blk := by
  have notZero := grown.synced.ne_zero_of_isData isData
  have wasEmpty : (fs.raw id).slot i = 0 := by
    by_contra hadBlock
    exact hadBlock ((grown.old i hadBlock).symm.trans isEmpty)
  rw [Fresh, Fresh, slot_attach inside isData]
  by_cases same : j = i
  · rw [if_pos same, same]
    constructor
    · intro isFresh
      exact .inr ⟨rfl, isFresh.2.1.symm⟩
    · rintro (isFresh | isNew)
      · exact absurd (isFresh.2.1.symm.trans isEmpty) isFresh.2.2
      · exact ⟨wasEmpty, isNew.2.symm, isNew.2 ▸ notZero⟩
  · rw [if_neg same]
    constructor
    · exact .inl
    · rintro (isFresh | isNew)
      · exact isFresh
      · exact absurd isNew.1 same

theorem Grown.issues_attach (grown : Grown id fs after) (isData : after.IsData blk)
    (free : ¬ after.Taken blk) : Issues (Extends fs) after (after.attach id i blk) := by
  have synced := grown.synced
  have behind : ∀ {at_}, after.Taken at_ → after.inodeTableStart ≤ at_ := by
    intro at_ taken
    have table := synced.geometry.table
    have isBehind := taken.1
    simp only [FsInner.inodeTableStart, FsInner.dataStart] at *
    omega
  have marked : Extends fs (after.mark blk).dev := by
    refine grown.extends_ _ (synced.mark isData)
      (grown.edits.trans (synced.edits_mark isData)) ?_ ?_
    · exact fun other taken => (synced.taken_mark isData other).mpr (.inl taken)
    · exact fun other taken => synced.dev_mark isData (behind taken)
  have zeroed : Extends fs (after.attach id i blk).dev := by
    refine grown.extends_ _ (synced.attach isData) (grown.edits.trans (synced.edits_attach isData))
      ?_ ?_
    · exact fun other taken => (synced.taken_attach isData other).mpr (.inl taken)
    · intro other taken
      have different : other ≠ blk := fun same => free (same ▸ taken)
      rw [synced.dev_attach isData (behind taken), if_neg different]
  have initial : Extends fs after.dev :=
    grown.extends_ after synced grown.edits (fun _ taken => taken) fun _ _ => rfl
  have first : Issues (Extends fs) after (after.mark blk) := .single initial rfl rfl marked
  exact first.trans (.single marked rfl rfl zeroed)

theorem Grown.attach (grown : Grown id fs after) (inside : i < 12)
    (isEmpty : (after.raw id).slot i = 0) (isData : after.IsData blk) (free : ¬ after.Taken blk) :
    Grown id fs (after.attach id i blk) := by
  have isFresh := grown.fresh_attach inside isEmpty isData
  have edits : Edits id fs (after.attach id i blk) :=
    grown.edits.trans (grown.synced.edits_attach isData)
  have table := grown.synced.geometry.table
  have behind : ∀ {at_}, fs.dataStart ≤ at_ → after.inodeTableStart ≤ at_ := by
    intro at_ isBehind
    rw [← grown.edits.dataStart] at isBehind
    simp only [FsInner.inodeTableStart, FsInner.dataStart] at *
    omega
  have wasFree : ∀ other, fs.Taken other → other ≠ blk := by
    intro other taken same
    exact free ((grown.taken blk).mpr (.inl (same ▸ taken)))
  refine ⟨edits, grown.synced.attach isData, ?_, ?_, ?_, ?_, ?_, ?_, ?_⟩
  · rw [FsInner.attach, raw_setSlot]
    exact grown.size
  · intro j hadBlock
    have kept := grown.old j hadBlock
    rw [slot_attach inside isData, if_neg, kept]
    intro same
    rw [same] at kept hadBlock
    exact hadBlock (kept.symm.trans isEmpty)
  · intro j other fresh
    rcases (isFresh j other).mp fresh with wasFresh | isNew
    · have was := grown.fresh wasFresh
      have different : other ≠ blk := by
        intro same
        exact free ((grown.taken blk).mpr (.inr ⟨j, same ▸ wasFresh⟩))
      refine ⟨was.1, was.2.1, ?_⟩
      rw [grown.synced.dev_attach isData (behind was.1.1), if_neg different]
      exact was.2.2
    · rw [isNew.2]
      refine ⟨grown.edits.isData.mp isData, fun taken => wasFree blk taken rfl, ?_⟩
      rw [grown.synced.dev_attach isData (behind (grown.edits.isData.mp isData).1), if_pos rfl]
  · intro j k other first second
    rcases (isFresh j other).mp first with wasFirst | isFirst
    · rcases (isFresh k other).mp second with wasSecond | isSecond
      · exact grown.once wasFirst wasSecond
      · exact absurd ((grown.taken blk).mpr (.inr ⟨j, isSecond.2 ▸ wasFirst⟩)) free
    · rcases (isFresh k other).mp second with wasSecond | isSecond
      · exact absurd ((grown.taken blk).mpr (.inr ⟨k, isFirst.2 ▸ wasSecond⟩)) free
      · rw [isFirst.1, isSecond.1]
  · intro other
    rw [grown.synced.taken_attach isData, grown.taken]
    simp only [isFresh]
    constructor
    · rintro ((taken | ⟨j, wasFresh⟩) | isNew)
      · exact .inl taken
      · exact .inr ⟨j, .inl wasFresh⟩
      · exact .inr ⟨i, .inr ⟨rfl, isNew⟩⟩
    · rintro (taken | ⟨j, wasFresh | isNew⟩)
      · exact .inl (.inl taken)
      · exact .inl (.inr ⟨j, wasFresh⟩)
      · exact .inr isNew.2
  · intro other isBehind notFresh
    have different : other ≠ blk := fun same => notFresh i
      ((isFresh i other).mpr (.inr ⟨rfl, same⟩))
    rw [grown.synced.dev_attach isData (behind isBehind), if_neg different]
    exact grown.dev other isBehind fun j fresh => notFresh j ((isFresh j other).mpr (.inl fresh))
  · exact grown.issues.trans (grown.issues_attach isData free)

theorem Synced.fillSlots (synced : Synced fs) {needed : Nat} (few : needed ≤ 12) :
    (forRange (Pondfs.fillSlot id) needed 0 fs).Meets
      (fun _ after => Grown id fs after ∧ ∀ i < needed, (after.raw id).slot i ≠ 0)
      (fun error after => error = .noSpace ∧ Grown id fs after) False := by
  have turn : ∀ i after, 0 ≤ i → i < 0 + needed →
      (Grown id fs after ∧ ∀ j < i, (after.raw id).slot j ≠ 0) →
      (Pondfs.fillSlot id i after).Meets
        (fun _ next => Grown id fs next ∧ ∀ j < i + 1, (next.raw id).slot j ≠ 0)
        (fun error next => error = .noSpace ∧ Grown id fs next) False := by
    intro i after _ inRange known
    rcases known with ⟨grown, filled⟩
    have inside : i < 12 := by omega
    apply (grown.synced.fillSlot inside).mono
    · rintro _ next (⟨hasBlock, rfl⟩ | ⟨isEmpty, blk, isData, free, rfl⟩)
      · refine ⟨grown, fun j before => ?_⟩
        rcases Nat.lt_succ_iff_lt_or_eq.mp before with earlier | rfl
        · exact filled j earlier
        · exact hasBlock
      · refine ⟨grown.attach inside isEmpty isData free, fun j before => ?_⟩
        rw [slot_attach inside isData]
        split
        · exact grown.synced.ne_zero_of_isData isData
        · exact filled j (by omega)
    · rintro error next ⟨isError, rfl, _⟩
      exact ⟨isError, grown⟩
    · exact False.elim
  have loop := Outcome.Meets.forRange
    (fun i after => Grown id fs after ∧ ∀ j < i, (after.raw id).slot j ≠ 0)
    ⟨.refl synced, fun _ inside => absurd inside (Nat.not_lt_zero _)⟩ turn
  rwa [Nat.zero_add] at loop

end Grown

/-! ## Emptying slots -/

/-- The slots from `start` to `stop` were emptied and their blocks given back. -/
structure Shrunk (id : StateId) (start stop : Nat) (fs after : FsInner) : Prop where
  edits : Edits id fs after
  synced : Synced after
  slots : ∀ i, (after.raw id).slot i =
    if start ≤ i ∧ i < stop then 0 else (fs.raw id).slot i
  taken : ∀ blk, after.Taken blk ↔
    fs.Taken blk ∧ ∀ i, start ≤ i → i < stop → (fs.raw id).slot i ≠ blk
  dev : ∀ blk, fs.dataStart ≤ blk → after.dev blk = fs.dev blk

section Shrunk

variable {fs after : FsInner} {id : StateId} {start stop : Nat}

theorem Shrunk.refl (synced : Synced fs) : Shrunk id start start fs fs where
  edits := .refl fs
  synced := synced
  slots i := by rw [if_neg (by omega)]
  taken blk := by
    constructor
    · exact fun taken => ⟨taken, fun i _ _ => by omega⟩
    · exact fun both => both.1
  dev _ _ := rfl

theorem Shrunk.skip (shrunk : Shrunk id start stop fs after)
    (isEmpty : (after.raw id).slot stop = 0) : Shrunk id start (stop + 1) fs after where
  edits := shrunk.edits
  synced := shrunk.synced
  slots i := by
    by_cases isNew : i = stop
    · rw [isNew, isEmpty]
      by_cases behind : start ≤ stop
      · rw [if_pos ⟨behind, Nat.lt_succ_self stop⟩]
      · have same := shrunk.slots stop
        rw [if_neg (by omega)] at same
        rw [if_neg (by omega), ← same, isEmpty]
    · rw [shrunk.slots i]
      simp only [show i < stop + 1 ↔ i < stop by omega]
  taken blk := by
    rw [shrunk.taken]
    refine and_congr_right fun taken => ⟨fun others i behind before => ?_,
      fun others i behind before =>
      others i behind (Nat.lt_succ_of_lt before)⟩
    rcases Nat.lt_succ_iff_lt_or_eq.mp before with earlier | rfl
    · exact others i behind earlier
    · have same := shrunk.slots i
      rw [if_neg (by omega), isEmpty] at same
      intro isZero
      have positive : fs.dataStart ≤ 0 := (same.trans isZero) ▸ taken.1
      have dataStart := shrunk.synced.dataStart_pos
      rw [shrunk.edits.dataStart] at dataStart
      omega
  dev := shrunk.dev

theorem Shrunk.detach (shrunk : Shrunk id start stop fs after) (inside : stop < 12)
    (isData : after.IsData ((after.raw id).slot stop)) (behind : start ≤ stop) :
    Shrunk id start (stop + 1) fs (after.detach id stop) := by
  have was : (after.raw id).slot stop = (fs.raw id).slot stop := by
    rw [shrunk.slots, if_neg (by omega)]
  refine ⟨shrunk.edits.trans (shrunk.synced.edits_detach isData), shrunk.synced.detach isData, ?_,
    ?_, ?_⟩
  · intro i
    rw [slot_detach inside]
    by_cases isNew : i = stop
    · rw [if_pos isNew, if_pos (by omega)]
    · rw [if_neg isNew, shrunk.slots i]
      simp only [show i < stop + 1 ↔ i < stop by omega]
  · intro blk
    rw [shrunk.synced.taken_detach isData, shrunk.taken, was]
    constructor
    · rintro ⟨⟨taken, others⟩, different⟩
      refine ⟨taken, fun i isBehind before => ?_⟩
      rcases Nat.lt_succ_iff_lt_or_eq.mp before with earlier | rfl
      · exact others i isBehind earlier
      · exact different.symm
    · rintro ⟨taken, others⟩
      exact ⟨⟨taken, fun i isBehind before => others i isBehind (Nat.lt_succ_of_lt before)⟩,
        (others stop behind (Nat.lt_succ_self stop)).symm⟩
  · intro blk isBehind
    have table := shrunk.synced.geometry.table
    have inTable : after.inodeTableStart ≤ blk := by
      rw [← shrunk.edits.dataStart] at isBehind
      simp only [FsInner.inodeTableStart, FsInner.dataStart] at *
      omega
    have unfolded : (after.detach id stop).dev blk =
        (after.unmark ((after.raw id).slot stop)).dev blk := rfl
    rw [unfolded, shrunk.synced.dev_unmark isData inTable, shrunk.dev blk isBehind]

theorem Shrunk.resize (shrunk : Shrunk id start stop fs after) (size : UInt64) :
    Shrunk id start stop fs (after.setRaw id { after.raw id with size := size }) where
  edits := shrunk.edits.trans (.setRaw rfl)
  synced := shrunk.synced.congr rfl rfl fun _ _ => rfl
  slots i := by
    rw [FsInner.raw_setRaw, if_pos rfl]
    exact shrunk.slots i
  taken := shrunk.taken
  dev := shrunk.dev

theorem Synced.freeSlots (synced : Synced fs) {count : Nat} (few : start + count ≤ 12)
    (isData : ∀ i, (fs.raw id).slot i ≠ 0 → fs.IsData ((fs.raw id).slot i)) :
    (forRange (Pondfs.freeSlot id) count start fs).Meets
      (fun _ after => Shrunk id start (start + count) fs after) (fun _ _ => False) False := by
  have turn : ∀ i after, start ≤ i → i < start + count → Shrunk id start i fs after →
      (Pondfs.freeSlot id i after).Meets (fun _ next => Shrunk id start (i + 1) fs next)
        (fun _ _ => False) False := by
    intro i after behind before shrunk
    have inside : i < 12 := by omega
    have was : (after.raw id).slot i = (fs.raw id).slot i := by
      rw [shrunk.slots, if_neg (by omega)]
    by_cases isEmpty : (after.raw id).slot i = 0
    · rw [freeSlot_of_zero inside isEmpty]
      exact shrunk.skip isEmpty
    · have slotData : after.IsData ((after.raw id).slot i) := by
        rw [shrunk.edits.isData, was]
        exact isData i (was ▸ isEmpty)
      rw [shrunk.synced.freeSlot inside isEmpty slotData]
      exact shrunk.detach inside slotData behind
  exact Outcome.Meets.forRange (fun i after => Shrunk id start i fs after) (.refl synced) turn

end Shrunk

/-! ## Writing bytes -/

/-- `if end > raw.size { raw.size = end; }` -/
def FsInner.growSize (fs : FsInner) (id : StateId) (stop : Nat) : FsInner :=
  if (fs.raw id).size.toNat < stop then fs.setRaw id { fs.raw id with size := .ofNat stop } else fs

/-- What `write_file_at` leaves behind: missing blocks were added, then the bytes were
copied, then the size was adjusted. -/
def Written (id : StateId) (off : Nat) (buf : List UInt8) (fs after : FsInner) : Prop :=
  ∃ middle writes, Grown id fs middle ∧
    (∀ i, i * 4096 < off + buf.length → (middle.raw id).slot i ≠ 0) ∧
    Copies middle.dev (middle.raw id) off buf writes ∧ off + buf.length ≤ 12 * 4096 ∧
    after = (middle.writeAll writes).growSize id (off + buf.length)

theorem Synced.writeFileAt {fs : FsInner} (synced : Synced fs) (id : StateId) (off : Nat)
    (buf : List UInt8) :
    (writeFileAt id off buf fs).Meets
      (fun count after => count = buf.length ∧ Written id off buf fs after)
      (fun error after => (error = .noSpace ∨ error = .unsupported) ∧ Grown id fs after)
      (2 ^ 64 ≤ off + buf.length) := by
  rw [Pondfs.writeFileAt]
  dsimp only
  split
  · next overflow => exact overflow
  · split
    · exact ⟨.inr rfl, .refl synced⟩
    · next small few =>
      apply Outcome.Meets.bind ((synced.fillSlots (Nat.le_of_not_lt few)).mono
        (fun _ _ known => known) (fun _ _ failed => ⟨.inl failed.1, failed.2⟩) False.elim)
      intro _ middle known
      rcases known with ⟨grown, filled⟩
      have backed : ∀ i, i * 4096 < off + buf.length → (middle.raw id).slot i ≠ 0 :=
        fun i inside => filled i (by omega)
      rcases writeLoop_eq buf.length off buf (Nat.le_refl _)
        (fun i before _ => backed i before) with ⟨writes, copies, ends⟩
      rw [bind_apply, ends]
      exact ⟨rfl, middle, writes, grown, backed, copies, by omega, rfl⟩

end PersonaOS.Fs.Pondfs
