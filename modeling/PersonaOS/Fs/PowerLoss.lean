import PersonaOS.Fs.Remount

/-! # Power failures during a write

A write takes the blocks it needs, copies its bytes and writes the record of the inode last. So
wherever it is cut off, the blocks that the records on the device refer to are marked in the
bitmap on the device, and no other inode has changed. -/

namespace PersonaOS.Fs.Pondfs

/-- On the device every record refers to data blocks of its own that are marked, and all inodes
but one are what they were. -/
structure Intact (fs : FsInner) (id : StateId) (disk : Disk) : Prop where
  marked : ∀ slot blk, (bare disk fs.sb).Refers slot blk →
    fs.IsData blk ∧ (bare disk fs.sb).Taken blk
  exclusive : Exclusive (bare disk fs.sb).Refers
  others : ∀ ino < fs.inodeCount, ino ≠ fs.ino id →
    (bare disk fs.sb).record ino = fs.record ino ∧
      ∀ i, (fs.record ino).slot i ≠ 0 →
        disk ((fs.record ino).slot i) = fs.dev ((fs.record ino).slot i)

theorem Synced.taken_bare {later : FsInner} {sb : Superblock} {blk : Nat} (synced : Synced later)
    (sameSb : later.sb = sb) (taken : later.Taken blk) : (bare later.dev sb).Taken blk := by
  have isMarked := taken.2
  rw [synced.bitmap_eq] at isMarked
  rw [← sameSb]
  exact ⟨taken.1, isMarked⟩

section Writing

variable {fs middle after : FsInner} {nodes : Nodes} {id : StateId} {disk : Disk} {off : Nat}
  {buf : List UInt8} {writes : List (Nat × Block 4096)}

theorem Grown.dev_copying (grown : Grown id fs middle)
    (copies : Copies middle.dev (middle.raw id) off buf writes) (n blk : Nat)
    (isTaken : fs.Taken blk) (notOwn : ∀ i, (fs.raw id).slot i ≠ blk) :
    replay middle.dev (writes.take n) blk = fs.dev blk := by
  have notFresh : ∀ i, ¬ Fresh id fs middle i blk := fun i fresh => (grown.fresh fresh).2.1 isTaken
  rw [replay_of_forall_ne, grown.dev blk isTaken.1 notFresh]
  intro write isWritten same
  rcases copies.places write (List.mem_of_mem_take isWritten) with ⟨i, _, _, isSlot, hasBlock⟩
  have isBlock := isSlot.trans same
  by_cases wasEmpty : (fs.raw id).slot i = 0
  · exact notFresh i ⟨wasEmpty, isBlock, isBlock ▸ hasBlock⟩
  · exact notOwn i ((grown.old i wasEmpty).symm.trans isBlock)

variable (holds : Holds fs nodes) (isCached : fs.inodeCache (fs.ino id) = some id)

include holds isCached

/-- The record of the inode itself may be an old or a new one, as long as its blocks are marked. -/
theorem Grown.intact (grown : Grown id fs middle) (own : RawInode)
    (slots : ∀ i, own.slot i ≠ 0 → own.slot i = (middle.raw id).slot i)
    (records : ∀ ino < fs.inodeCount, (bare disk fs.sb).record ino =
      if ino = fs.ino id then own else fs.record ino)
    (marked : ∀ blk, middle.Taken blk → (bare disk fs.sb).Taken blk)
    (kept : ∀ blk, fs.Taken blk → (∀ i, (fs.raw id).slot i ≠ blk) → disk blk = fs.dev blk) :
    Intact fs id disk := by
  have ledger := holds.grown_ledger isCached grown
  have refers : ∀ slot blk, (bare disk fs.sb).Refers slot blk → middle.Refers slot blk := by
    rintro ⟨ino, i⟩ blk ⟨inTable, hasBlock, isBlock⟩
    rw [records ino inTable] at isBlock
    split at isBlock
    · next isOwn =>
      rw [isOwn, holds.refers_self grown.edits isCached]
      exact ⟨hasBlock, (slots i (isBlock ▸ hasBlock)).symm.trans isBlock⟩
    · next different =>
      rw [holds.refers_of_ne grown.edits different]
      exact ⟨inTable, hasBlock, isBlock⟩
  refine ⟨?_, ?_, ?_⟩
  · intro slot blk isReferred
    have referred := refers slot blk isReferred
    exact ⟨grown.edits.isData.mp (ledger.valid referred), marked blk (ledger.taken referred)⟩
  · intro slot other blk here there
    exact ledger.exclusive slot other blk (refers _ _ here) (refers _ _ there)
  · intro ino inTable different
    refine ⟨(records ino inTable).trans (if_neg different), ?_⟩
    intro i hasBlock
    have here : fs.Refers (ino, i) ((fs.record ino).slot i) := ⟨inTable, hasBlock, rfl⟩
    apply kept _ (holds.ledger.taken here)
    intro j same
    have there := (holds.refers_raw isCached j _).mpr ⟨hasBlock, same⟩
    exact different (congrArg Prod.fst (holds.ledger.exclusive _ _ _ here there))

variable (flushed : fs.Flushed)

include flushed

theorem Grown.intact_of_table (grown : Grown id fs middle)
    (table : ∀ at_, fs.inodeTableStart ≤ at_ → at_ < fs.dataStart → disk at_ = fs.dev at_)
    (marked : ∀ blk, middle.Taken blk → (bare disk fs.sb).Taken blk)
    (kept : ∀ blk, fs.Taken blk → (∀ i, (fs.raw id).slot i ≠ blk) → disk blk = fs.dev blk) :
    Intact fs id disk := by
  apply grown.intact holds isCached (fs.raw id) (fun i hasBlock => (grown.old i hasBlock).symm)
    _ marked kept
  intro ino inTable
  rw [← FsInner.record_of_cached isCached, ite_eq_right_iff.mpr (congrArg fs.record ·.symm),
    flushed.record, FsInner.record_of_uncached rfl]
  exact FsInner.diskInode_congr (bare disk fs.sb) holds.synced.geometry rfl table inTable

theorem Grown.issues_intact (grown : Grown id fs middle) : Issues (Intact fs id) fs middle := by
  rcases grown.issues with ⟨taking, isLog, isDev, survives⟩
  refine ⟨taking, isLog, isDev, ?_⟩
  intro n
  have kept := survives n
  apply (Grown.refl holds.synced).intact_of_table holds isCached flushed
  · exact fun at_ behind before => kept.fixed at_ (.inr ⟨behind, before⟩)
  · exact fun blk taken => ⟨taken.1, kept.marked blk taken⟩
  · exact fun blk taken _ => kept.kept blk taken

theorem Grown.intact_copying (grown : Grown id fs middle)
    (copies : Copies middle.dev (middle.raw id) off buf writes) (n : Nat) :
    Intact fs id (replay middle.dev (writes.take n)) := by
  have cachedMiddle : middle.inodeCache (middle.ino id) = some id := by
    rw [grown.edits.cache, grown.edits.ino, isCached]
  have toData := (holds.grown isCached grown).copies_toData cachedMiddle copies
  have below : ∀ at_ < middle.dataStart, replay middle.dev (writes.take n) at_ =
      middle.dev at_ := by
    intro at_ before
    apply replay_of_forall_ne
    intro write isWritten same
    have isData := toData write (List.mem_of_mem_take isWritten)
    omega
  have synced : Synced (middle.writeAll (writes.take n)) := by
    refine grown.synced.congr rfl rfl ?_
    intro at_ before
    apply below
    have table := grown.synced.geometry.table
    simp only [FsInner.inodeTableStart, FsInner.dataStart] at *
    omega
  apply grown.intact_of_table holds isCached flushed _
    (fun blk taken => synced.taken_bare grown.edits.sb taken) (grown.dev_copying copies n)
  intro at_ behind before
  have fixed := grown.edits.fixed at_ (.inr ⟨behind, before⟩)
  exact (below at_ (grown.edits.dataStart ▸ before)).trans fixed

theorem Written.issues_intact {bytes : List UInt8}
    (isFile : nodes (fs.ino id) = some (.file bytes)) (written : Written id off buf fs after) :
    Issues (Intact fs id) fs (after.flushInode id) := by
  have edits := holds.edits_written isCached written
  have synced := (holds.written_file isCached isFile written).synced
  have inTable : after.ino id < after.inodeCount := by
    rw [edits.ino, edits.inodeCount]
    exact holds.cached_inTable isCached
  rcases written with ⟨middle, writes, grown, _, copies, _, isAfter⟩
  have isDev : after.dev = replay middle.dev writes := isAfter ▸ dev_growSize _ id _
  have isLog : after.log = middle.log ++ writes := by
    rw [isAfter, FsInner.growSize]
    split <;> rfl
  have copying := grown.intact_copying holds isCached flushed copies
  have copied := copying writes.length
  rw [List.take_length, ← isDev] at copied
  have recorded : Intact fs id (after.flushInode id).dev := by
    apply grown.intact holds isCached (after.raw id) (fun i _ => isAfter ▸ slot_growSize _ id _ i)
    · intro ino isRecord
      rw [← edits.ino id, flushed.record, ← edits.diskInode holds.synced.geometry isRecord,
        ← FsInner.diskInode_writeInode, FsInner.record_of_uncached rfl, ← edits.sb]
      rfl
    · intro blk taken
      have sameBits : after.bitmap = middle.bitmap := isAfter ▸ bitmap_growSize _ id _
      have sameStart := edits.dataStart.trans grown.edits.dataStart.symm
      apply (synced.writeInode inTable _).taken_bare edits.sb
      exact ⟨sameStart ▸ taken.1, sameStart ▸ sameBits ▸ taken.2⟩
    · intro blk isTaken notOwn
      have same := grown.dev_copying copies writes.length blk isTaken notOwn
      rw [List.take_length, ← isDev] at same
      rw [← same]
      exact FsInner.dev_writeInode synced.geometry inTable (.inr (edits.dataStart ▸ isTaken.1))
  exact ((grown.issues_intact holds isCached flushed).trans ⟨writes, isLog, isDev, copying⟩).trans
    (.single copied rfl rfl recorded)

end Writing

/-- Wherever a write to a file is cut off, whether it would return or fail, and whatever calls
that all returned came before it, the device is intact. -/
theorem write_survives_power_loss (img : Disk) (size : UInt64) (src : Mkpondfs.SourceDir)
    (calls : List Call) (session : Session FsInner StateId)
    (run : WorkingRun img size src calls session) (id : StateId)
    (inRange : id < session.fs.stateCount) (isKind : (session.fs.raw id).kind = inodeKindFile)
    (off : Nat) (buf : List UInt8) (after : FsInner)
    (ends : (writeAt id off buf session.fs).final = some after) :
    Issues (Intact session.fs id) session.fs after := by
  rcases run.settled with ⟨nodes, settled⟩
  have holds := settled.serves.mounted.holds
  have flushed := settled.durable.flushed
  rcases holds.isFile inRange isKind with ⟨isCached, bytes, isFile⟩
  have meets := (holds.writeAt isKind off buf).mono
    (fun _ last returned => show Issues (Intact session.fs id) session.fs last by
      rcases returned.2 with ⟨middle, written, rfl⟩
      exact written.issues_intact holds isCached flushed isFile)
    (fun _ _ failed => failed.2.issues_intact holds isCached flushed) fun overflow => overflow
  exact meets.of_final ends

/-- A file of an image of 64 blocks gets its first block. -/
theorem write_survives_power_loss_file :
    ∃ session after, WorkingRun (fun _ => Block.zero) 262144 smallSource [⟨0, .create "x" .file⟩]
        session ∧ (writeAt 1 0 [65] session.fs).final = some after ∧
      Issues (Intact session.fs 1) session.fs after := by
  have small : ((start? (fun _ => Block.zero) 262144 smallSource).bind
      (returns? · [⟨0, .create "x" .file⟩])).map
        (fun session => (decide (1 < session.fs.stateCount),
        (session.fs.raw 1).kind, (writeAt 1 0 [65] session.fs).final.isSome)) =
      some (true, inodeKindFile, true) := by
    decide +kernel
  rcases Option.map_eq_some_iff.mp small with ⟨session, isSession, facts⟩
  rcases Option.bind_eq_some_iff.mp isSession with ⟨first, starts, returns⟩
  simp only [Prod.mk.injEq, decide_eq_true_eq] at facts
  rcases Option.isSome_iff_exists.mp facts.2.2 with ⟨after, ends⟩
  have run : WorkingRun _ _ _ _ session := ⟨first, starts, trace_of_returns? returns⟩
  exact ⟨session, after, run, ends,
    write_survives_power_loss _ _ _ _ session run 1 facts.1 facts.2.1 0 [65] after ends⟩

end PersonaOS.Fs.Pondfs
