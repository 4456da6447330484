import Mathlib.Logic.Function.Basic
import PersonaOS.Foundation.Codec

/-! # Blocks of bytes

A block holds a fixed number of bytes. Slices are read from it and written over it, and
a record can be kept at any offset. A sequence of blocks is a stream of bytes: reading
or overwriting a piece of one block is reading or overwriting that piece of the stream. -/

namespace PersonaOS

/-- `[u8; size]` -/
abbrev Block (size : Nat) := Fin size → UInt8

namespace Block

variable {size : Nat}

def zero : Block size := fun _ => 0

/-- `block[start..start + count]` -/
def slice (block : Block size) (start count : Nat) : List UInt8 :=
  ((List.ofFn block).drop start).take count

/-- `block[start..start + bytes.len()].copy_from_slice(bytes)` -/
def overwrite (block : Block size) (start : Nat) (bytes : List UInt8) : Block size := fun index =>
  if start ≤ index then bytes.getD (index - start) (block index) else block index

theorem getElem?_slice (block : Block size) (start count index : Nat) :
    (block.slice start count)[index]? =
      if inside : index < count ∧ start + index < size then some (block ⟨start + index, inside.2⟩)
      else none := by
  rw [slice, List.getElem?_take, List.getElem?_drop, List.getElem?_ofFn]
  by_cases within : index < count
  · by_cases inBlock : start + index < size
    · rw [if_pos within, dif_pos inBlock, dif_pos ⟨within, inBlock⟩]
    · rw [if_pos within, dif_neg inBlock, dif_neg fun both => inBlock both.2]
  · rw [if_neg within, dif_neg fun both => within both.1]

theorem length_slice {block : Block size} {start count : Nat} (inside : start + count ≤ size) :
    (block.slice start count).length = count := by
  simp only [slice, List.length_take, List.length_drop, List.length_ofFn]
  omega

theorem slice_congr {block other : Block size} {start count : Nat}
    (same : ∀ index : Fin size, start ≤ index → index < start + count →
      block index = other index) :
    block.slice start count = other.slice start count := by
  apply List.ext_getElem?
  intro index
  rw [getElem?_slice, getElem?_slice]
  by_cases inside : index < count ∧ start + index < size
  · rw [dif_pos inside, dif_pos inside, same ⟨start + index, inside.2⟩ (Nat.le_add_right _ _)
      (Nat.add_lt_add_left inside.1 start)]
  · rw [dif_neg inside, dif_neg inside]

theorem slice_overwrite_self {block : Block size} {start : Nat} {bytes : List UInt8}
    (inside : start + bytes.length ≤ size) :
    (block.overwrite start bytes).slice start bytes.length = bytes := by
  apply List.ext_getElem?
  intro index
  rw [getElem?_slice]
  by_cases within : index < bytes.length
  · rw [dif_pos ⟨within, by omega⟩, overwrite, if_pos (Nat.le_add_right start index)]
    simp only [Nat.add_sub_cancel_left, List.getD_eq_getElem?_getD, List.getElem?_eq_getElem within,
      Option.getD_some]
  · rw [dif_neg fun both => within both.1, List.getElem?_eq_none (Nat.le_of_not_lt within)]

theorem overwrite_of_outside {block : Block size} {start : Nat} {bytes : List UInt8}
    {index : Fin size} (outside : index < start ∨ start + bytes.length ≤ index) :
    block.overwrite start bytes index = block index := by
  unfold overwrite
  split
  · next behind =>
    have beyond : bytes.length ≤ index - start := by omega
    rw [List.getD_eq_getElem?_getD, List.getElem?_eq_none beyond, Option.getD_none]
  · rfl

theorem slice_overwrite_of_disjoint {block : Block size} {start other count : Nat}
    {bytes : List UInt8} (apart : other + count ≤ start ∨ start + bytes.length ≤ other) :
    (block.overwrite start bytes).slice other count = block.slice other count := by
  apply slice_congr
  intro index behind before
  apply overwrite_of_outside
  omega

/-! ## Records -/

variable {α : Type u}

/-- `*(block.as_ptr().add(offset) as *const α)` -/
def read (codec : Codec α) (block : Block size) (offset : Nat) : α :=
  codec.decode (block.slice offset codec.size)

/-- `*(block.as_mut_ptr().add(offset) as *mut α) = value` -/
def write (codec : Codec α) (block : Block size) (offset : Nat) (value : α) : Block size :=
  block.overwrite offset (codec.encode value)

theorem slice_write_self (codec : Codec α) {block : Block size} {offset : Nat} {value : α}
    (inside : offset + codec.size ≤ size) :
    (write codec block offset value).slice offset codec.size = codec.encode value := by
  have fits : offset + (codec.encode value).length ≤ size := by rwa [codec.length_encode]
  rw [← codec.length_encode value]
  exact slice_overwrite_self fits

theorem read_write_self (codec : Codec α) {block : Block size} {offset : Nat} {value : α}
    (inside : offset + codec.size ≤ size) :
    read codec (write codec block offset value) offset = value := by
  rw [read, slice_write_self codec inside, codec.decode_encode]

theorem read_write_of_disjoint (codec : Codec α) {block : Block size} {offset other : Nat}
    {value : α} (apart : other + codec.size ≤ offset ∨ offset + codec.size ≤ other) :
    read codec (write codec block offset value) other = read codec block other := by
  rw [read, write, slice_overwrite_of_disjoint (by rwa [codec.length_encode]), read]

end Block

/-! ## Streams -/

section Stream

variable {size : Nat} [NeZero size]

def streamOf (blocks : Nat → Block size) (position : Nat) : UInt8 :=
  blocks (position / size) (Fin.ofNat size position)

/-- The stream with `bytes` written over it from `start` on. -/
def patch (stream : Nat → UInt8) (start : Nat) (bytes : List UInt8) (position : Nat) : UInt8 :=
  if start ≤ position then bytes.getD (position - start) (stream position) else stream position

/-- The bytes at `start`, `start + 1`, … of a stream. -/
def window (stream : Nat → UInt8) (start count : Nat) : List UInt8 :=
  (List.range' start count).map stream

@[simp] theorem length_window (stream : Nat → UInt8) (start count : Nat) :
    (window stream start count).length = count := by
  rw [window, List.length_map, List.length_range']

theorem window_append (stream : Nat → UInt8) (start count more : Nat) :
    window stream start count ++ window stream (start + count) more =
      window stream start (count + more) := by
  rw [window, window, window, ← List.map_append, List.range'_append_1]

theorem getElem?_window (stream : Nat → UInt8) (start count index : Nat) :
    (window stream start count)[index]? =
      if index < count then some (stream (start + index)) else none := by
  rw [window, List.getElem?_map]
  by_cases within : index < count
  · rw [if_pos within, List.getElem?_range' within, Nat.one_mul, Option.map_some]
  · rw [if_neg within, List.getElem?_eq_none (by simpa using within), Option.map_none]

theorem window_congr {stream other : Nat → UInt8} {start count : Nat}
    (same : ∀ position, start ≤ position → position < start + count →
      stream position = other position) :
    window stream start count = window other start count := by
  apply List.map_congr_left
  intro position member
  rcases List.mem_range'_1.mp member with ⟨behind, before⟩
  exact same position behind before

theorem slice_eq_window (blocks : Nat → Block size) {cursor count : Nat}
    (inside : cursor % size + count ≤ size) :
    (blocks (cursor / size)).slice (cursor % size) count =
      window (streamOf blocks) cursor count := by
  apply List.ext_getElem?
  intro index
  rw [Block.getElem?_slice, getElem?_window]
  by_cases within : index < count
  · have inBlock : cursor % size + index < size := by omega
    have sameBlock : (cursor + index) / size = cursor / size := by
      rw [← Nat.div_add_mod cursor size, Nat.add_assoc,
        Nat.mul_add_div (Nat.pos_of_neZero size), Nat.mul_add_div (Nat.pos_of_neZero size),
        Nat.div_eq_of_lt inBlock, Nat.div_eq_of_lt (Nat.mod_lt _ (Nat.pos_of_neZero size))]
    have sameOffset : (cursor + index) % size = cursor % size + index := by
      rw [Nat.add_mod, Nat.mod_eq_of_lt (show index < size by omega), Nat.mod_eq_of_lt inBlock]
    rw [dif_pos ⟨within, inBlock⟩, if_pos within, streamOf, sameBlock]
    congr 2
    apply Fin.ext
    exact sameOffset.symm
  · rw [dif_neg fun both => within both.1, if_neg within]

theorem ofFn_eq_window (blocks : Nat → Block size) (index : Nat) :
    List.ofFn (blocks index) = window (streamOf blocks) (index * size) size := by
  apply List.ext_getElem?
  intro offset
  rw [List.getElem?_ofFn, getElem?_window]
  by_cases inside : offset < size
  · have sameBlock : (index * size + offset) / size = index := by
      rw [Nat.mul_comm, Nat.mul_add_div (Nat.pos_of_neZero size), Nat.div_eq_of_lt inside,
        Nat.add_zero]
    rw [dif_pos inside, if_pos inside, streamOf, sameBlock]
    congr 2
    apply Fin.ext
    rw [Fin.val_ofNat, Nat.mul_comm, Nat.mul_add_mod, Nat.mod_eq_of_lt inside]
  · rw [dif_neg inside, if_neg inside]

theorem flatMap_ofFn_eq_window (blocks : Nat → Block size) (start count : Nat) :
    ((List.range count).flatMap fun i => List.ofFn (blocks (start + i))) =
      window (streamOf blocks) (start * size) (count * size) := by
  induction count with
  | zero => simp [window]
  | succ count induction =>
    rw [List.range_succ, List.flatMap_append, induction, List.flatMap_singleton, ofFn_eq_window,
      Nat.add_mul, window_append, Nat.succ_mul]

theorem streamOf_overwrite {blocks : Nat → Block size} {cursor : Nat} {bytes : List UInt8}
    (inside : cursor % size + bytes.length ≤ size) :
    streamOf (Function.update blocks (cursor / size)
      ((blocks (cursor / size)).overwrite (cursor % size) bytes)) =
      patch (streamOf blocks) cursor bytes := by
  have positive : 0 < size := Nat.pos_of_neZero size
  have isCursor := Nat.div_add_mod cursor size
  funext position
  have isPosition := Nat.div_add_mod position size
  have inBlock := Nat.mod_lt position positive
  by_cases sameBlock : position / size = cursor / size
  · have shift : cursor % size ≤ position % size ↔ cursor ≤ position := by
      rw [sameBlock] at isPosition
      omega
    have distance : position % size - cursor % size = position - cursor := by
      rw [sameBlock] at isPosition
      omega
    rw [streamOf, patch, streamOf, sameBlock, Function.update_self, Block.overwrite]
    simp only [Fin.val_ofNat, shift, distance]
  · rw [streamOf, patch, Function.update_of_ne sameBlock]
    split
    · next behind =>
      have laterBlock : cursor / size + 1 ≤ position / size :=
        Nat.lt_of_le_of_ne (Nat.div_le_div_right behind) (Ne.symm sameBlock)
      have later := Nat.mul_le_mul_left size laterBlock
      have beyond : bytes.length ≤ position - cursor := by
        rw [Nat.mul_add, Nat.mul_one] at later
        omega
      rw [List.getD_eq_getElem?_getD, List.getElem?_eq_none beyond, Option.getD_none, streamOf]
    · rfl

@[simp] theorem patch_nil (stream : Nat → UInt8) (start : Nat) :
    patch stream start [] = stream := by
  funext position
  simp [patch]

theorem window_patch (stream : Nat → UInt8) (start : Nat) (bytes : List UInt8) :
    window (patch stream start bytes) start bytes.length = bytes := by
  apply List.ext_getElem?
  intro index
  rw [getElem?_window]
  split
  · next within =>
    rw [patch, if_pos (Nat.le_add_right start index), Nat.add_sub_cancel_left,
      List.getD_eq_getElem?_getD, List.getElem?_eq_getElem within, Option.getD_some]
  · next beyond => rw [List.getElem?_eq_none (Nat.le_of_not_lt beyond)]

theorem patch_append (stream : Nat → UInt8) (start : Nat) (bytes more : List UInt8) :
    patch (patch stream start bytes) (start + bytes.length) more =
      patch stream start (bytes ++ more) := by
  funext position
  simp only [patch, List.getD_eq_getElem?_getD]
  by_cases behind : start ≤ position
  · by_cases beyond : start + bytes.length ≤ position
    · have inMore : bytes.length ≤ position - start := by omega
      rw [if_pos beyond, if_pos behind, if_pos behind, List.getElem?_eq_none inMore,
        List.getElem?_append_right inMore, Option.getD_none, Nat.sub_sub]
    · rw [if_neg beyond, if_pos behind, if_pos behind, List.getElem?_append_left (by omega)]
  · rw [if_neg (by omega), if_neg behind, if_neg behind]

end Stream

/-! ## Growing files -/

/-- `bytes` with `more` written over it from `start` on. A gap is filled with zeros. -/
def splice (bytes : List UInt8) (start : Nat) (more : List UInt8) : List UInt8 :=
  let bytes := bytes ++ List.replicate (start + more.length - bytes.length) 0
  bytes.take start ++ more ++ bytes.drop (start + more.length)

theorem length_splice (bytes more : List UInt8) (start : Nat) :
    (splice bytes start more).length = max bytes.length (start + more.length) := by
  simp only [splice, List.length_append, List.length_take, List.length_drop, List.length_replicate]
  omega

theorem getElem?_splice (bytes more : List UInt8) (start position : Nat)
    (inside : position < max bytes.length (start + more.length)) :
    (splice bytes start more)[position]? =
      some (patch (fun k => bytes.getD k 0) start more position) := by
  have extended : ∀ k, k < max bytes.length (start + more.length) →
      (bytes ++ List.replicate (start + more.length - bytes.length) 0)[k]? =
        some (bytes.getD k 0) := by
    intro k small
    rw [List.getElem?_append, List.getD_eq_getElem?_getD]
    split
    · next within => rw [List.getElem?_eq_getElem within, Option.getD_some]
    · next beyond =>
      rw [List.getElem?_eq_none (Nat.le_of_not_lt beyond), Option.getD_none,
        List.getElem?_replicate, if_pos (by omega)]
  have lengthTake : ((bytes ++ List.replicate (start + more.length - bytes.length) 0).take
      start).length = start := by
    simp only [List.length_take, List.length_append, List.length_replicate]
    omega
  simp only [splice, patch]
  by_cases behind : start ≤ position
  · rw [if_pos behind, List.append_assoc, List.getElem?_append_right (by omega), lengthTake]
    by_cases written : position - start < more.length
    · rw [List.getElem?_append_left written, List.getElem?_eq_getElem written,
        List.getD_eq_getElem?_getD, List.getElem?_eq_getElem written, Option.getD_some]
    · have beyond := Nat.le_of_not_lt written
      have shifted : start + more.length + (position - start - more.length) = position := by omega
      have unwritten : more.getD (position - start) (bytes.getD position 0) =
          bytes.getD position 0 := by
        rw [List.getD_eq_getElem?_getD, List.getElem?_eq_none beyond, Option.getD_none]
      rw [List.getElem?_append_right beyond, List.getElem?_drop, shifted, extended position inside,
        unwritten]
  · have before := Nat.lt_of_not_le behind
    rw [if_neg behind, List.append_assoc, List.getElem?_append_left (by omega),
      List.getElem?_take_of_lt before, extended position inside]

end PersonaOS
