import PersonaOS.Foundation.WriteLog
import PersonaOS.Fs.Volume

/-! # File contents

The blocks in the slots of an inode form a stream of bytes. Reading returns a window of
it and writing patches it, block by block. `Begins` says that an inode holds given bytes
and `Stores` that the rest of its blocks is zero as well. -/

namespace PersonaOS.Fs.Pondfs

open Program

def fileStream (dev : Disk) (raw : RawInode) : Nat → UInt8 := streamOf fun i => dev (raw.slot i)

/-! ## Reading -/

section Reading

variable {dev : Disk} {raw : RawInode} {stop : Nat}

theorem readLoop_eq (backed : ∀ i, i * 4096 < stop → raw.slot i ≠ 0) (fuel cursor : Nat)
    (enough : stop - cursor ≤ fuel) :
    readLoop dev raw stop fuel cursor =
      .ok (window (fileStream dev raw) cursor (stop - cursor)) := by
  induction fuel generalizing cursor with
  | zero =>
    have done : stop - cursor = 0 := Nat.le_zero.mp enough
    rw [readLoop, done]
    rfl
  | succ fuel induction =>
    rw [readLoop]
    split
    · next more =>
      have hasBlock := backed (cursor / 4096) (by omega)
      have inside : cursor / 4096 < 12 := by
        apply Nat.lt_of_not_le
        intro outside
        exact hasBlock (RawInode.slot_of_le outside)
      have notZero : UInt64.ofNat (raw.slot (cursor / 4096)) ≠ 0 :=
        fun isZero => hasBlock ((ofNat_eq_zero RawInode.slot_lt).mp isZero)
      have piece := slice_eq_window (fun i => dev (raw.slot i))
        (show cursor % 4096 + min (4096 - cursor % 4096) (stop - cursor) ≤ 4096 by omega)
      rw [RawInode.direct_eq inside]
      simp only [if_neg notZero, UInt64.toNat_ofNat_of_lt' RawInode.slot_lt]
      rw [induction _ (by omega), piece]
      simp only [pure, Except.pure, bind, Except.bind]
      have rest : stop - (cursor + min (4096 - cursor % 4096) (stop - cursor)) =
          stop - cursor - min (4096 - cursor % 4096) (stop - cursor) := by omega
      rw [rest, ← fileStream, window_append, Nat.add_sub_cancel' (Nat.min_le_right _ _)]
    · next done =>
      rw [Nat.sub_eq_zero_of_le (Nat.le_of_not_lt done)]
      rfl

theorem readFileAt_eq {fs : FsInner} (backed : ∀ i, i * 4096 < raw.size.toNat → raw.slot i ≠ 0)
    {off len : Nat} (noOverflow : off < raw.size.toNat → off + len < 2 ^ 64) :
    readFileAt raw off len fs =
      .ok (window (fileStream fs.dev raw) off (min raw.size.toNat (off + len) - off)) fs := by
  rw [readFileAt]
  split
  · next behind =>
    have nothing : min raw.size.toNat (off + len) - off = 0 := by omega
    rw [nothing]
    rfl
  · next before =>
    have small := noOverflow (Nat.lt_of_not_le before)
    rw [if_neg (by omega), get_bind_apply, readLoop_eq (fun i inside => backed i (by omega)) _ _
      (Nat.le_refl _)]
    rfl

theorem readFileAt_state (fs : FsInner) (raw : RawInode) (off len : Nat) :
    (readFileAt raw off len fs).Meets (fun _ after => after = fs) (fun _ after => after = fs)
      (2 ^ 64 ≤ off + len) := by
  rw [readFileAt]
  split
  · rfl
  · split
    · next overflow => exact overflow
    · rw [get_bind_apply]
      cases readLoop fs.dev raw (min raw.size.toNat (off + len))
        (min raw.size.toNat (off + len) - off) off with
      | ok bytes => rfl
      | error error => rfl

end Reading

/-! ## Writing -/

section Writing

variable {fs : FsInner} {id : StateId}

def RawInode.Distinct (raw : RawInode) : Prop :=
  ∀ i j, raw.slot i = raw.slot j → raw.slot i ≠ 0 → i = j

theorem fileStream_setBlock {dev : Disk} {raw : RawInode} (distinct : raw.Distinct) {cursor : Nat}
    (hasBlock : raw.slot (cursor / 4096) ≠ 0) {bytes : List UInt8}
    (inside : cursor % 4096 + bytes.length ≤ 4096) :
    fileStream (Function.update dev (raw.slot (cursor / 4096))
      ((dev (raw.slot (cursor / 4096))).overwrite (cursor % 4096) bytes)) raw =
      patch (fileStream dev raw) cursor bytes := by
  rw [fileStream, fileStream, ← streamOf_overwrite inside]
  congr 1
  funext i
  by_cases same : i = cursor / 4096
  · rw [same, Function.update_self, Function.update_self]
  · have different : raw.slot i ≠ raw.slot (cursor / 4096) := by
      intro equal
      exact same (distinct _ _ equal.symm hasBlock).symm
    rw [Function.update_of_ne different, Function.update_of_ne same]

def FsInner.writeAll (fs : FsInner) (writes : List (Nat × Block 4096)) : FsInner :=
  { fs with dev := replay fs.dev writes, log := fs.log ++ writes }

theorem FsInner.setBlock_writeAll (blk : Nat) (buf : Block 4096)
    (writes : List (Nat × Block 4096)) :
    (fs.setBlock blk buf).writeAll writes = fs.writeAll ((blk, buf) :: writes) := by
  simp only [writeAll, setBlock, replay_cons, List.append_assoc, List.singleton_append]

/-- What copying `buf` to offset `cursor` writes: blocks of the inode between the two ends,
each of them once. -/
structure Copies (dev : Disk) (raw : RawInode) (cursor : Nat) (buf : List UInt8)
    (writes : List (Nat × Block 4096)) : Prop where
  count : writes.length ≤ buf.length
  places : ∀ write ∈ writes, ∃ i, i * 4096 < cursor + buf.length ∧ cursor < i * 4096 + 4096 ∧
    raw.slot i = write.1 ∧ raw.slot i ≠ 0
  once : raw.Distinct → (writes.map Prod.fst).Nodup
  stream : raw.Distinct →
    fileStream (replay dev writes) raw = patch (fileStream dev raw) cursor buf

theorem Copies.nil (dev : Disk) (raw : RawInode) (cursor : Nat) : Copies dev raw cursor [] [] where
  count := Nat.le_refl 0
  places := by simp
  once _ := List.nodup_nil
  stream _ := (patch_nil _ _).symm

theorem Copies.cons {dev : Disk} {raw : RawInode} {cursor take : Nat} {buf : List UInt8}
    {writes : List (Nat × Block 4096)} (isTake : take = min (4096 - cursor % 4096) buf.length)
    (more : 0 < buf.length) (hasBlock : raw.slot (cursor / 4096) ≠ 0)
    (rest : Copies (Function.update dev (raw.slot (cursor / 4096))
      ((dev (raw.slot (cursor / 4096))).overwrite (cursor % 4096) (buf.take take))) raw
      (cursor + take) (buf.drop take) writes) :
    Copies dev raw cursor buf ((raw.slot (cursor / 4096),
      (dev (raw.slot (cursor / 4096))).overwrite (cursor % 4096) (buf.take take)) :: writes) where
  count := by
    have counted := rest.count
    rw [List.length_drop] at counted
    rw [List.length_cons]
    omega
  places write member := by
    rcases List.mem_cons.mp member with isFirst | isLater
    · exact ⟨cursor / 4096, by omega, by omega, by rw [isFirst], hasBlock⟩
    · rcases rest.places write isLater with ⟨i, before, behind, isSlot, notZero⟩
      rw [List.length_drop] at before
      exact ⟨i, by omega, by omega, isSlot, notZero⟩
  once distinct := by
    rw [List.map_cons, List.nodup_cons]
    refine ⟨?_, rest.once distinct⟩
    intro again
    rcases List.mem_map.mp again with ⟨write, member, same⟩
    rcases rest.places write member with ⟨i, before, behind, isSlot, notZero⟩
    have isFirst : i = cursor / 4096 := distinct _ _ (isSlot.trans same) notZero
    have counted := rest.count
    have some_ := List.length_pos_of_mem member
    rw [List.length_drop] at counted before
    omega
  stream distinct := by
    have lengthTake : (buf.take take).length = take := by
      rw [List.length_take]
      omega
    have first : fileStream (Function.update dev (raw.slot (cursor / 4096))
        ((dev (raw.slot (cursor / 4096))).overwrite (cursor % 4096) (buf.take take))) raw =
        patch (fileStream dev raw) cursor (buf.take take) :=
      fileStream_setBlock distinct hasBlock (by omega)
    have next := patch_append (fileStream dev raw) cursor (buf.take take) (buf.drop take)
    rw [lengthTake, List.take_append_drop] at next
    rw [replay_cons, rest.stream distinct, ← next, ← first]

theorem writeLoop_eq (fuel cursor : Nat) (buf : List UInt8) (enough : buf.length ≤ fuel)
    (backed : ∀ i, i * 4096 < cursor + buf.length → cursor < i * 4096 + 4096 →
      (fs.raw id).slot i ≠ 0) :
    ∃ writes, Copies fs.dev (fs.raw id) cursor buf writes ∧
      writeLoop id fuel cursor buf fs = .ok ⟨⟩ (fs.writeAll writes) := by
  induction fuel generalizing fs cursor buf with
  | zero =>
    rw [List.length_eq_zero_iff.mp (Nat.le_zero.mp enough)]
    exact ⟨[], .nil _ _ _, by rw [writeLoop, FsInner.writeAll, List.append_nil]; rfl⟩
  | succ fuel induction =>
    by_cases isEmpty : buf = []
    · rw [writeLoop, if_pos isEmpty, isEmpty]
      exact ⟨[], .nil _ _ _, by rw [FsInner.writeAll, List.append_nil]; rfl⟩
    · have more : 0 < buf.length := List.length_pos_iff.mpr isEmpty
      have hasBlock := backed (cursor / 4096) (by omega) (by omega)
      have inside : cursor / 4096 < 12 := by
        apply Nat.lt_of_not_le
        intro outside
        exact hasBlock (RawInode.slot_of_le outside)
      let take := min (4096 - cursor % 4096) buf.length
      let blk := (fs.raw id).slot (cursor / 4096)
      let turned := fs.setBlock blk ((fs.dev blk).overwrite (cursor % 4096) (buf.take take))
      have turn : writeLoop id (fuel + 1) cursor buf fs =
          writeLoop id fuel (cursor + take) (buf.drop take) turned := by
        rw [writeLoop, if_neg isEmpty, get_bind_apply, RawInode.direct_eq inside]
        simp only [UInt64.toNat_ofNat_of_lt' RawInode.slot_lt]
        rfl
      rcases @induction turned (cursor + take) (buf.drop take)
        (by rw [List.length_drop]; omega)
        (fun i before behind => backed i (by rw [List.length_drop] at before; omega) (by omega))
        with ⟨writes, copies, ends⟩
      exact ⟨_, copies.cons rfl more hasBlock, by rw [turn, ends, FsInner.setBlock_writeAll]⟩

end Writing

/-! ## Contents -/

/-- The first bytes of the inode's stream are the given ones, and its size is their
number. -/
structure Begins (dev : Disk) (raw : RawInode) (bytes : List UInt8) : Prop where
  size : raw.size.toNat = bytes.length
  backed : ∀ i, i * 4096 < bytes.length → raw.slot i ≠ 0
  stream : ∀ k < bytes.length, fileStream dev raw k = bytes.getD k 0

namespace Begins

variable {dev dev' : Disk} {raw raw' : RawInode} {bytes : List UInt8} {off len : Nat}

theorem window_eq (begins : Begins dev raw bytes) :
    window (fileStream dev raw) off (min bytes.length (off + len) - off) =
      (bytes.drop off).take len := by
  apply List.ext_getElem?
  intro k
  rw [getElem?_window, List.getElem?_take, List.getElem?_drop]
  by_cases inside : off + k < bytes.length
  · rw [begins.stream _ inside, List.getD_eq_getElem?_getD, List.getElem?_eq_getElem inside,
      Option.getD_some]
    by_cases within : k < len
    · rw [if_pos within, if_pos (by omega)]
    · rw [if_neg within, if_neg (by omega)]
  · rw [if_neg (by omega), List.getElem?_eq_none (Nat.le_of_not_lt inside)]
    split <;> rfl

theorem readFileAt {fs : FsInner} (begins : Begins fs.dev raw bytes)
    (noOverflow : off < bytes.length → off + len < 2 ^ 64) :
    readFileAt raw off len fs = .ok ((bytes.drop off).take len) fs := by
  have backed : ∀ i, i * 4096 < raw.size.toNat → raw.slot i ≠ 0 := by
    rw [begins.size]
    exact begins.backed
  rw [readFileAt_eq backed (by rwa [begins.size]), begins.size, begins.window_eq]

theorem length_le (begins : Begins dev raw bytes) : bytes.length ≤ 12 * 4096 := by
  by_contra tooLong
  exact begins.backed 12 (Nat.lt_of_not_le tooLong) (RawInode.slot_of_le (Nat.le_refl 12))

theorem congr (begins : Begins dev raw bytes) (size : raw'.size = raw.size)
    (same : ∀ i, raw.slot i ≠ 0 → raw'.slot i = raw.slot i ∧ dev' (raw.slot i) = dev (raw.slot i)) :
    Begins dev' raw' bytes where
  size := by rw [size, begins.size]
  backed i inside := by
    have hasBlock := begins.backed i inside
    rw [(same i hasBlock).1]
    exact hasBlock
  stream k inside := by
    have hasBlock := begins.backed (k / 4096) (by omega)
    rw [← begins.stream k inside, fileStream, fileStream, streamOf, streamOf,
      (same _ hasBlock).1, (same _ hasBlock).2]

theorem of_size_zero (isEmpty : raw.size = 0) : Begins dev raw [] where
  size := by rw [isEmpty]; rfl
  backed i inside := absurd inside (Nat.not_lt_zero _)
  stream k inside := absurd inside (Nat.not_lt_zero _)

end Begins

/-- The inode holds the given bytes: its stream starts with them, and whatever follows in
its blocks is zero, which is what a write behind the end of a file leaves a hole of. -/
structure Stores (dev : Disk) (raw : RawInode) (bytes : List UInt8) : Prop where
  size : raw.size.toNat = bytes.length
  backed : ∀ i, i * 4096 < bytes.length → raw.slot i ≠ 0
  stream : ∀ k, raw.slot (k / 4096) ≠ 0 → fileStream dev raw k = bytes.getD k 0

namespace Stores

variable {dev dev' : Disk} {raw raw' : RawInode} {bytes : List UInt8} {off : Nat}

theorem begins (stores : Stores dev raw bytes) : Begins dev raw bytes where
  size := stores.size
  backed := stores.backed
  stream k inside := stores.stream k (stores.backed (k / 4096) (by omega))

theorem congr (stores : Stores dev raw bytes) (size : raw'.size = raw.size)
    (old : ∀ i, raw.slot i ≠ 0 → raw'.slot i = raw.slot i ∧ dev' (raw.slot i) = dev (raw.slot i))
    (new : ∀ i, raw.slot i = 0 → raw'.slot i ≠ 0 → dev' (raw'.slot i) = Block.zero) :
    Stores dev' raw' bytes where
  size := by rw [size, stores.size]
  backed i inside := by
    have hasBlock := stores.backed i inside
    rw [(old i hasBlock).1]
    exact hasBlock
  stream k hasBlock := by
    rw [fileStream, streamOf]
    by_cases wasEmpty : raw.slot (k / 4096) = 0
    · have beyond : bytes.length ≤ k := by
        apply Nat.le_of_not_lt
        intro inside
        exact stores.backed (k / 4096) (by omega) wasEmpty
      rw [new _ wasEmpty hasBlock, List.getD_eq_getElem?_getD, List.getElem?_eq_none beyond]
      rfl
    · rw [(old _ wasEmpty).1, (old _ wasEmpty).2]
      exact stores.stream k wasEmpty

theorem fileStream_congr (sameSlots : ∀ i, raw'.slot i = raw.slot i) :
    fileStream dev raw' = fileStream dev raw := by
  simp only [fileStream, sameSlots]

theorem write {buf : List UInt8} (stores : Stores dev raw bytes)
    (sameSlots : ∀ i, raw'.slot i = raw.slot i)
    (isStream : fileStream dev' raw = patch (fileStream dev raw) off buf)
    (isSize : raw'.size.toNat = max bytes.length (off + buf.length))
    (backed : ∀ i, i * 4096 < off + buf.length → raw.slot i ≠ 0) :
    Stores dev' raw' (splice bytes off buf) where
  size := by rw [isSize, length_splice]
  backed i inside := by
    rw [length_splice] at inside
    rw [sameSlots]
    by_cases old : i * 4096 < bytes.length
    · exact stores.backed i old
    · exact backed i (by omega)
  stream k hasBlock := by
    rw [sameSlots] at hasBlock
    rw [fileStream_congr sameSlots, isStream, List.getD_eq_getElem?_getD]
    by_cases inside : k < max bytes.length (off + buf.length)
    · rw [getElem?_splice _ _ _ _ inside, Option.getD_some, patch, patch, stores.stream k hasBlock]
    · have beyond : buf.length ≤ k - off := by omega
      rw [List.getElem?_eq_none (by rw [length_splice]; omega), Option.getD_none, patch,
        if_pos (by omega), List.getD_eq_getElem?_getD, List.getElem?_eq_none beyond,
        Option.getD_none, stores.stream k hasBlock, List.getD_eq_getElem?_getD,
        List.getElem?_eq_none (by omega), Option.getD_none]

end Stores

end PersonaOS.Fs.Pondfs
