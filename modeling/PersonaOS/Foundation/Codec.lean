import Mathlib.Algebra.Ring.Nat
import Mathlib.Logic.Basic

/-! # Binary formats of fixed size

A `Codec` lays a value out in a fixed number of bytes from which it can be read back.
The formats of records are put together from those of little-endian integers, one field
after the other. -/

namespace PersonaOS

/-- The lowest `width` bytes of a number, least significant byte first. -/
def leBytes : (width value : Nat) → List UInt8
  | 0, _ => []
  | width + 1, value => UInt8.ofNat value :: leBytes width (value / 256)

def ofLeBytes : List UInt8 → Nat
  | [] => 0
  | byte :: bytes => byte.toNat + 256 * ofLeBytes bytes

@[simp] theorem length_leBytes (width value : Nat) : (leBytes width value).length = width := by
  induction width generalizing value with
  | zero => rfl
  | succ width induction => rw [leBytes, List.length_cons, induction]

theorem ofLeBytes_leBytes (width value : Nat) :
    ofLeBytes (leBytes width value) = value % 256 ^ width := by
  induction width generalizing value with
  | zero => rw [leBytes, ofLeBytes, Nat.pow_zero, Nat.mod_one]
  | succ width induction =>
    have lowest : (UInt8.ofNat value).toNat = value % 256 := UInt8.toNat_ofNat'
    rw [leBytes, ofLeBytes, induction, lowest, Nat.pow_succ', Nat.mod_mul]

/-- A binary format that takes `size` bytes for every value. -/
structure Codec (α : Type u) where
  size : Nat
  encode : α → List UInt8
  decode : List UInt8 → α
  length_encode : ∀ value, (encode value).length = size
  decode_encode : ∀ value, decode (encode value) = value

namespace Codec

attribute [simp] length_encode decode_encode

variable {α : Type u} {β : Type v}

/-- An unsigned integer of `width` bytes, least significant byte first. -/
def littleEndian (width : Nat) (toNat : α → Nat) (ofNat : Nat → α)
    (bound : ∀ value, toNat value < 256 ^ width)
    (ofNat_toNat : ∀ value, ofNat (toNat value) = value) :
    Codec α where
  size := width
  encode value := leBytes width (toNat value)
  decode bytes := ofNat (ofLeBytes bytes)
  length_encode value := length_leBytes width (toNat value)
  decode_encode value := by rw [ofLeBytes_leBytes, Nat.mod_eq_of_lt (bound value), ofNat_toNat]

def u8 : Codec UInt8 :=
  .littleEndian 1 UInt8.toNat UInt8.ofNat UInt8.toNat_lt fun _ => UInt8.ofNat_toNat

def u16 : Codec UInt16 :=
  .littleEndian 2 UInt16.toNat UInt16.ofNat UInt16.toNat_lt fun _ => UInt16.ofNat_toNat

def u32 : Codec UInt32 :=
  .littleEndian 4 UInt32.toNat UInt32.ofNat UInt32.toNat_lt fun _ => UInt32.ofNat_toNat

def u64 : Codec UInt64 :=
  .littleEndian 8 UInt64.toNat UInt64.ofNat UInt64.toNat_lt fun _ => UInt64.ofNat_toNat

def prod (first : Codec α) (second : Codec β) : Codec (α × β) where
  size := first.size + second.size
  encode value := first.encode value.1 ++ second.encode value.2
  decode bytes := (first.decode (bytes.take first.size), second.decode (bytes.drop first.size))
  length_encode value := by
    rw [List.length_append, first.length_encode, second.length_encode]
  decode_encode value := by
    rw [List.take_left' (first.length_encode _), List.drop_left' (first.length_encode _),
      first.decode_encode, second.decode_encode]

def map (codec : Codec α) (toβ : α → β) (ofβ : β → α) (toβ_ofβ : ∀ value, toβ (ofβ value) = value) :
    Codec β where
  size := codec.size
  encode value := codec.encode (ofβ value)
  decode bytes := toβ (codec.decode bytes)
  length_encode value := codec.length_encode (ofβ value)
  decode_encode value := by rw [codec.decode_encode, toβ_ofβ]

/-- Bytes that are there for alignment only. They are written as zeros and not read. -/
def padding (width : Nat) : Codec Unit where
  size := width
  encode _ := List.replicate width 0
  decode _ := ⟨⟩
  length_encode _ := List.length_replicate
  decode_encode _ := rfl

theorem drop_flatMap_encode (codec : Codec α) (values : List α) (index : Nat) :
    (values.flatMap codec.encode).drop (index * codec.size) =
      (values.drop index).flatMap codec.encode := by
  induction index generalizing values with
  | zero => simp
  | succ index induction =>
    cases values with
    | nil => simp
    | cons value values =>
      rw [List.flatMap_cons, Nat.succ_mul, Nat.add_comm, List.drop_succ_cons, ← induction,
        ← List.drop_drop, List.drop_left' (codec.length_encode value)]

def vector (codec : Codec α) (count : Nat) : Codec (Vector α count) where
  size := count * codec.size
  encode values := values.toList.flatMap codec.encode
  decode bytes := .ofFn fun index =>
    codec.decode ((bytes.drop (index * codec.size)).take codec.size)
  length_encode values := by
    simp [List.length_flatMap, List.map_const']
  decode_encode values := by
    ext index inside
    have split : values.toList.drop index =
        values[index] :: values.toList.drop (index + 1) := by
      rw [List.drop_eq_getElem_cons (by simpa using inside), Vector.getElem_toList]
    rw [Vector.getElem_ofFn, drop_flatMap_encode, split, List.flatMap_cons,
      List.take_left' (codec.length_encode _), codec.decode_encode]

end Codec

end PersonaOS
