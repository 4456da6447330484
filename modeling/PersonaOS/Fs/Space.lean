import Mathlib.Data.Finset.Card
import PersonaOS.Fs.Mounted

/-! # The space that is left

The free data blocks of a volume, counted. Filling the slots of an inode takes one of them
for each slot that has no block, and it fails only after it has taken them all. -/

namespace PersonaOS.Fs.Pondfs

open Program

instance (fs : FsInner) : DecidablePred fs.IsData := fun _ => inferInstanceAs (Decidable (_ ∧ _))

instance (fs : FsInner) : DecidablePred fs.Taken := fun _ => inferInstanceAs (Decidable (_ ∧ _))

/-- The data blocks that no inode has. -/
def FsInner.freeBlocks (fs : FsInner) : Finset Nat :=
  (Finset.range fs.totalBlocks).filter fun blk => fs.IsData blk ∧ ¬ fs.Taken blk

/-- How many of the first slots have no block. -/
def RawInode.missing (raw : RawInode) : Nat → Nat
  | 0 => 0
  | count + 1 => raw.missing count + if raw.slot count = 0 then 1 else 0

section Space

variable {fs after : FsInner} {id : StateId} {blk i : Nat}

theorem mem_freeBlocks : blk ∈ fs.freeBlocks ↔ fs.IsData blk ∧ ¬ fs.Taken blk := by
  rw [FsInner.freeBlocks, Finset.mem_filter, Finset.mem_range]
  exact ⟨fun known => known.2, fun known => ⟨known.1.2, known⟩⟩

theorem freeBlocks_eq_empty : fs.freeBlocks = ∅ ↔ ∀ blk, fs.IsData blk → fs.Taken blk := by
  simp only [Finset.eq_empty_iff_forall_notMem, mem_freeBlocks, not_and, Decidable.not_not]

theorem freeBlocks_congr (sameSb : after.sb = fs.sb) (sameBitmap : after.bitmap = fs.bitmap) :
    after.freeBlocks = fs.freeBlocks := by
  ext blk
  simp only [mem_freeBlocks, FsInner.IsData, FsInner.Taken, FsInner.dataStart,
    FsInner.totalBlocks, sameSb, sameBitmap]

theorem Synced.freeBlocks_attach (synced : Synced fs) (isData : fs.IsData blk) :
    (fs.attach id i blk).freeBlocks = fs.freeBlocks.erase blk := by
  ext other
  rw [mem_freeBlocks, Finset.mem_erase, mem_freeBlocks, synced.taken_attach isData,
    (synced.edits_attach isData).isData, not_or]
  exact ⟨fun known => ⟨known.2.2, known.1, known.2.1⟩, fun known => ⟨known.2.1, known.2.2, known.1⟩⟩

theorem Synced.fillSlots_takes (synced : Synced fs) {needed : Nat} (few : needed ≤ 12) :
    (forRange (Pondfs.fillSlot id) needed 0 fs).Meets
      (fun _ after => (∀ i, needed ≤ i → (after.raw id).slot i = (fs.raw id).slot i) ∧
        after.freeBlocks.card + (fs.raw id).missing needed = fs.freeBlocks.card)
      (fun error after => error = .noSpace ∧ fs.freeBlocks.card < (fs.raw id).missing needed ∧
        after.freeBlocks = ∅ ∧ (fs.freeBlocks = ∅ → after = fs)) False := by
  have missing_le : ∀ {i j : Nat}, i ≤ j → (fs.raw id).missing i ≤ (fs.raw id).missing j := by
    intro i j before
    induction before with
    | refl => exact Nat.le_refl _
    | step _ induction => exact Nat.le_trans induction (Nat.le_add_right _ _)
  have turn : ∀ i after, 0 ≤ i → i < 0 + needed →
      (Synced after ∧ (∀ j, i ≤ j → (after.raw id).slot j = (fs.raw id).slot j) ∧
        after.freeBlocks.card + (fs.raw id).missing i = fs.freeBlocks.card ∧
        (fs.freeBlocks = ∅ → after = fs)) →
      (Pondfs.fillSlot id i after).Meets
        (fun _ next => Synced next ∧
          (∀ j, i + 1 ≤ j → (next.raw id).slot j = (fs.raw id).slot j) ∧
          next.freeBlocks.card + (fs.raw id).missing (i + 1) = fs.freeBlocks.card ∧
          (fs.freeBlocks = ∅ → next = fs))
        (fun error next => error = .noSpace ∧ fs.freeBlocks.card < (fs.raw id).missing needed ∧
          next.freeBlocks = ∅ ∧ (fs.freeBlocks = ∅ → next = fs)) False := by
    intro i after _ inRange known
    rcases known with ⟨syncedAfter, sameSlots, counts, unchanged⟩
    have inside : i < 12 := by omega
    have isMissing : (fs.raw id).missing (i + 1) =
        (fs.raw id).missing i + if (after.raw id).slot i = 0 then 1 else 0 := by
      rw [sameSlots i (Nat.le_refl i)]
      rfl
    apply (syncedAfter.fillSlot inside).mono
    · intro _ next ends
      rcases ends with ⟨hasBlock, rfl⟩ | ⟨isEmpty, blk, isData, free, rfl⟩
      · rw [if_neg hasBlock] at isMissing
        exact ⟨syncedAfter, fun j behind => sameSlots j (by omega), by omega, unchanged⟩
      · have isFree : blk ∈ after.freeBlocks := mem_freeBlocks.mpr ⟨isData, free⟩
        have positive := Finset.card_pos.mpr ⟨blk, isFree⟩
        rw [if_pos isEmpty] at isMissing
        refine ⟨syncedAfter.attach isData, ?_, ?_, ?_⟩
        · intro j behind
          rw [slot_attach inside isData, if_neg (by omega)]
          exact sameSlots j (by omega)
        · rw [syncedAfter.freeBlocks_attach isData, Finset.card_erase_of_mem isFree]
          omega
        · intro isFull
          rw [isFull, Finset.card_empty] at counts
          omega
    · intro error next ends
      rcases ends with ⟨isError, rfl, isEmpty, full⟩
      have none_ := freeBlocks_eq_empty.mpr full
      refine ⟨isError, ?_, none_, unchanged⟩
      rw [if_pos isEmpty] at isMissing
      rw [none_, Finset.card_empty] at counts
      have := missing_le (show i + 1 ≤ needed by omega)
      omega
    · exact False.elim
  apply (Outcome.Meets.forRange _ ⟨synced, fun _ _ => rfl, rfl, fun _ => rfl⟩ turn).mono
  · intro _ after known
    rw [Nat.zero_add] at known
    exact ⟨known.2.1, known.2.2.1⟩
  · exact fun _ _ known => known
  · exact fun panics => panics

theorem Synced.writeFileAt_takes (synced : Synced fs) (id : StateId) (off : Nat)
    (buf : List UInt8) :
    (Pondfs.writeFileAt id off buf fs).Meets
      (fun _ after => (∀ i, (off + buf.length + 4095) / 4096 ≤ i →
          (after.raw id).slot i = (fs.raw id).slot i) ∧
        after.freeBlocks.card + (fs.raw id).missing ((off + buf.length + 4095) / 4096) =
          fs.freeBlocks.card)
      (fun error after =>
        error = .unsupported ∧ 12 < (off + buf.length + 4095) / 4096 ∧ after = fs ∨
        error = .noSpace ∧ (off + buf.length + 4095) / 4096 ≤ 12 ∧
          fs.freeBlocks.card < (fs.raw id).missing ((off + buf.length + 4095) / 4096) ∧
          after.freeBlocks = ∅ ∧ (fs.freeBlocks = ∅ → after = fs))
      (2 ^ 64 ≤ off + buf.length) := by
  rw [Pondfs.writeFileAt]
  dsimp only
  split
  · next overflow => exact overflow
  · split
    · next many => exact .inl ⟨rfl, many, rfl⟩
    · next small few =>
      have fills : (forRange (Pondfs.fillSlot id) _ 0 fs).Meets _ _ _ :=
        (synced.fillSlots (Nat.le_of_not_lt few)).and
          (synced.fillSlots_takes (Nat.le_of_not_lt few))
      apply Outcome.Meets.bind (fills.mono (fun _ _ known => known)
        (fun _ _ failed => .inr ⟨failed.2.1, Nat.le_of_not_lt few, failed.2.2⟩) False.elim)
      intro _ middle known
      rcases known with ⟨⟨grown, filled⟩, slots, takes⟩
      rcases writeLoop_eq buf.length off buf (Nat.le_refl _)
        (fun i before _ => filled i (by omega)) with ⟨writes, copies, ends⟩
      rw [bind_apply, ends]
      have same : ((middle.writeAll writes).growSize id (off + buf.length)).freeBlocks =
          middle.freeBlocks :=
        freeBlocks_congr (edits_growSize _ id _).sb (bitmap_growSize _ id _)
      exact ⟨fun i behind => (slot_growSize _ id _ i).trans (slots i behind),
        (congrArg (fun free => free.card + _) same).trans takes⟩

end Space

end PersonaOS.Fs.Pondfs
