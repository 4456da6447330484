import PersonaOS.Fs.Corrupt

/-! # The regions of an image

`Formatter::new` of `tools/mkpondfs` divides an image into the superblock, the bitmap, the inode
table and the data blocks. There is a bit for every data block and a record for every inode, so a
search for a free block stays inside the bitmap, in the formatter as in the kernel. -/

namespace PersonaOS.Fs.Pondfs

open Program

namespace Mkpondfs

/-- The regions of an image of `total` blocks follow each other, and the tables have room. -/
structure Formatter.Splits (fmt : Formatter) (total count : Nat) : Prop where
  totalBlocks : fmt.totalBlocks = total
  inodeCount : fmt.inodeCount = count
  bitmapStart : fmt.bitmapStart = 1
  tableStart : fmt.inodeTableStart = fmt.bitmapStart + fmt.bitmapBlocks
  dataStart : fmt.dataStart = fmt.inodeTableStart + fmt.inodeTableBlocks
  hasData : fmt.dataStart < fmt.totalBlocks
  inodes : fmt.inodeCount ≤ fmt.inodeTableBlocks * 32
  bitmap : fmt.bitmap.length = fmt.bitmapBlocks * 4096
  bits : fmt.totalBlocks - fmt.dataStart ≤ fmt.bitmap.length * 8

theorem Formatter.IsNew.splits {fmt : Formatter} {totalBytes count : Nat}
    (isNew : fmt.IsNew totalBytes count) (fits : (count + 31) / 32 ≤ totalBytes / 4096 - 3) :
    fmt.Splits (totalBytes / 4096) count := by
  rcases isNew with ⟨enough, totalBlocks, isCount, bitmapStart, _, bitmapBlocks, tableStart,
    tableBlocks, dataStart, bitmap, _⟩
  have length : fmt.bitmap.length = fmt.bitmapBlocks * 4096 := by
    rw [bitmap, List.length_replicate]
  refine ⟨totalBlocks, isCount, bitmapStart, by omega, dataStart, by omega, by omega, length, ?_⟩
  omega

theorem allocLoop_panics (fmt : Formatter) (count i : Nat)
    (bits : i + count ≤ fmt.bitmap.length * 8) :
    (allocLoop count i fmt).Meets (fun _ _ => True) (fun _ _ => True)
      (∀ j, i ≤ j → j < i + count → Bitmap.test fmt.bitmap j = true) := by
  induction count generalizing i with
  | zero => exact fun j behind before => absurd before (Nat.not_lt.mpr behind)
  | succ count induction =>
    have isByte : fmt.bitmap[i / 8]? = some fmt.bitmap[i / 8] :=
      List.getElem?_eq_getElem (by omega)
    rw [allocLoop, get_bind_apply, isByte]
    simp only
    split
    · trivial
    · next isSet =>
      rw [Bitmap.isClear_eq (Nat.mod_lt _ (by decide)), ← Bitmap.test_eq isByte,
        Bool.not_eq_true', Bool.not_eq_false] at isSet
      apply (induction (i + 1) (by omega)).mono (fun _ _ _ => trivial) (fun _ _ _ => trivial)
      intro rest j behind before
      rcases Nat.eq_or_lt_of_le behind with same | later
      · rw [← same]
        exact isSet
      · exact rest j later (by omega)

theorem Formatter.Splits.covered {fmt : Formatter} {total count : Nat}
    (splits : fmt.Splits total count) (small : total < 2 ^ 64) {dev : Disk} {fs : FsInner}
    {root : StateId} (mounts : mount dev = .ok (fs, root)) (isSb : fs.sb = fmt.superblock) :
    Covered fs := by
  rcases splits with ⟨isTotal, _, _, tableStart, dataStart, hasData, _, bitmap, bits⟩
  have length : fs.bitmap.length = fs.bitmapBlocks * 4096 := by
    rcases eq_of_mount mounts with ⟨sb, state, _, rfl, _⟩
    exact length_diskBitmap sb dev
  have back {number : Nat} (inImage : number ≤ total) : (UInt64.ofNat number).toNat = number :=
    UInt64.toNat_ofNat_of_lt' (Nat.lt_of_le_of_lt inImage small)
  have sameTotal : fs.totalBlocks = fmt.totalBlocks := by
    rw [FsInner.totalBlocks, isSb]
    exact back (by omega)
  have sameStart : fs.dataStart = fmt.dataStart := by
    rw [FsInner.dataStart, isSb]
    exact back (by omega)
  have sameBlocks : fs.bitmapBlocks = fmt.bitmapBlocks := by
    rw [FsInner.bitmapBlocks, isSb]
    exact back (by omega)
  constructor
  · omega
  · omega

/-- The formatter splits every image that has room for the inodes and for some data, and no
search for a free block leaves the bitmap. -/
theorem new_splits_image (img : Disk) (size count : UInt64) (enough : 64 ≤ size.toNat / 4096)
    (fits : (count.toNat + 31) / 32 ≤ size.toNat / 4096 - 3) :
    ∃ fmt, Formatter.new img size.toNat count.toNat = some fmt ∧
      fmt.bitmapBlocks = bitmapWhile (size.toNat / 4096) ((count.toNat + 31) / 32) 1 ∧
      fmt.Splits (size.toNat / 4096) count.toNat ∧
      (∀ bits, bits.length = fmt.bitmap.length →
        allocDataBlock { fmt with bitmap := bits } = .panic →
        ∀ i < fmt.totalBlocks - fmt.dataStart, Bitmap.test bits i = true) ∧
      ∀ dev fs root, mount dev = .ok (fs, root) → fs.sb = fmt.superblock →
        ∀ after : FsInner, after.sb = fs.sb → after.bitmap.length = fs.bitmap.length →
          Pondfs.allocDataBlock after ≠ .panic := by
  cases isSome : Formatter.new img size.toNat count.toNat with
  | none =>
    rw [Formatter.new] at isSome
    simp only [if_neg (Nat.not_lt.mpr enough)] at isSome
    cases isSome
  | some fmt =>
    have isNew := Formatter.isNew_of_new isSome
    have splits := isNew.splits fits
    refine ⟨fmt, rfl, ?_, splits, ?_, ?_⟩
    · rw [isNew.loop, isNew.totalBlocks, isNew.tableBlocks]
    · intro bits sameLength stops i inside
      have hasBits : 0 + (fmt.totalBlocks - fmt.dataStart) ≤ bits.length * 8 := by
        rw [Nat.zero_add, sameLength]
        exact splits.bits
      have meets := allocLoop_panics { fmt with bitmap := bits } _ 0 hasBits
      rw [allocDataBlock, get_bind_apply] at stops
      rw [stops] at meets
      exact meets i (Nat.zero_le i) (by omega)
    · intro dev fs root mounts isSb after sameSb sameLength stops
      have covered := splits.covered (by have := size.toNat_lt; omega) mounts isSb
      have keeps := (covered.of_same sameSb sameLength).allocDataBlock
      rw [KeepsSteady, stops] at keeps
      exact keeps

/-- The smallest image, with room for 64 inodes. -/
theorem new_splits_image_small : ∃ fmt, Formatter.new (fun _ => Block.zero) 262144 64 = some fmt ∧
    fmt.bitmapBlocks = bitmapWhile 64 2 1 ∧ fmt.Splits 64 64 := by
  rcases new_splits_image (fun _ => Block.zero) 262144 64 (by decide) (by decide) with
    ⟨fmt, isSome, loop, splits, _⟩
  exact ⟨fmt, isSome, loop, splits⟩

end Mkpondfs

end PersonaOS.Fs.Pondfs
