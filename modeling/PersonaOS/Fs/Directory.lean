import PersonaOS.Fs.Files

/-! # Directories as bytes

A directory is a file whose bytes are its entries, one after the other. What
`dir_write_entries` serializes, `dir_read_entries` parses back. -/

namespace PersonaOS.Fs.Pondfs

open Program

def entryBytes (entry : DirEntry) : List UInt8 := pushEntry [] entry

def serialize (entries : List DirEntry) : List UInt8 := entries.flatMap entryBytes

structure ValidEntry (entry : DirEntry) : Prop where
  short : entry.1.utf8ByteSize ≤ 65535
  ino : entry.2.2 < 2 ^ 64

/-- The entries that are read back: an empty name ends the directory. -/
def visible (entries : List DirEntry) : List DirEntry :=
  entries.takeWhile fun entry => 0 < entry.1.utf8ByteSize

theorem length_nameBytes (name : String) : (nameBytes name).length = name.utf8ByteSize := rfl

theorem fromUTF8_nameBytes (name : String) :
    String.fromUTF8? ⟨(nameBytes name).toArray⟩ = some name := by
  rw [nameBytes, Array.toArray_toList]
  exact dif_pos name.isValidUTF8

/-! ## Serializing -/

theorem length_padTo4 (buf : List UInt8) : (padTo4 buf).length = align4 buf.length := by
  rw [padTo4, List.length_append, List.length_replicate, align4]
  omega

theorem length_entryBytes (entry : DirEntry) :
    (entryBytes entry).length = align4 (16 + entry.1.utf8ByteSize) := by
  rw [entryBytes, pushEntry, length_padTo4, List.nil_append, List.length_append,
    DirEntryHeader.codec.length_encode, length_nameBytes, DirEntryHeader.size_codec]

/-- Entries start at multiples of four, so an entry is padded alike wherever it starts. -/
theorem pushEntry_eq {buf : List UInt8} (aligned : buf.length % 4 = 0) (entry : DirEntry) :
    pushEntry buf entry = buf ++ entryBytes entry := by
  simp only [entryBytes, pushEntry, padTo4, List.nil_append, List.append_assoc, List.length_append]
  congr 4
  omega

theorem foldl_pushEntry_eq {buf : List UInt8} (aligned : buf.length % 4 = 0)
    (entries : List DirEntry) :
    entries.foldl pushEntry buf = buf ++ serialize entries := by
  induction entries generalizing buf with
  | nil => exact (List.append_nil buf).symm
  | cons entry entries induction =>
    have alignedNext : (buf ++ entryBytes entry).length % 4 = 0 := by
      rw [List.length_append, length_entryBytes, align4]
      omega
    rw [List.foldl_cons, pushEntry_eq aligned, induction alignedNext, List.append_assoc]
    rfl

theorem foldl_pushEntry (entries : List DirEntry) :
    entries.foldl pushEntry [] = serialize entries :=
  foldl_pushEntry_eq rfl entries

theorem length_serialize_concat (entries : List DirEntry) (name : String) (kind : InodeKind)
    (ino : Nat) : (serialize (entries ++ [(name, kind, ino)])).length =
      (serialize entries).length + align4 (16 + name.utf8ByteSize) := by
  rw [serialize, List.flatMap_append, List.flatMap_singleton, List.length_append,
    length_entryBytes, ← serialize]

theorem length_le_serialize (entries : List DirEntry) :
    entries.length ≤ (serialize entries).length := by
  induction entries with
  | nil => exact Nat.le_refl 0
  | cons entry entries induction =>
    rw [serialize, List.flatMap_cons, List.length_append, length_entryBytes, ← serialize,
      List.length_cons, align4]
    omega

/-! ## Parsing -/

def headerOf (entry : DirEntry) : DirEntryHeader :=
  ⟨.ofNat entry.2.2, .ofNat (nameBytes entry.1).length, kindCode entry.2.1⟩

section Entry

variable {buf rest : List UInt8} {i : Nat} {entry : DirEntry}

theorem entryBytes_eq (entry : DirEntry) : ∃ padding, entryBytes entry =
    DirEntryHeader.codec.encode (headerOf entry) ++ (nameBytes entry.1 ++ padding) := by
  rcases entry with ⟨name, kind, ino⟩
  simp only [entryBytes, pushEntry, padTo4, List.nil_append, List.append_assoc]
  exact ⟨_, rfl⟩

theorem length_header (entry : DirEntry) :
    (DirEntryHeader.codec.encode (headerOf entry)).length = 16 :=
  DirEntryHeader.codec.length_encode _

theorem take_header (isEntry : buf.drop i = entryBytes entry ++ rest) :
    (buf.drop i).take 16 = DirEntryHeader.codec.encode (headerOf entry) := by
  rcases entryBytes_eq entry with ⟨padding, isBytes⟩
  rw [isEntry, isBytes, List.append_assoc, List.take_left' (length_header entry)]

theorem take_name (isEntry : buf.drop i = entryBytes entry ++ rest) :
    (buf.drop (i + 16)).take entry.1.utf8ByteSize = nameBytes entry.1 := by
  rcases entryBytes_eq entry with ⟨padding, isBytes⟩
  rw [← List.drop_drop, isEntry, isBytes, List.append_assoc, List.drop_left' (length_header entry),
    List.append_assoc, List.take_left' (length_nameBytes entry.1)]

theorem length_of_entry (isEntry : buf.drop i = entryBytes entry ++ rest) :
    i + align4 (16 + entry.1.utf8ByteSize) ≤ buf.length := by
  have lengths := congrArg List.length isEntry
  rw [List.length_drop, List.length_append, length_entryBytes, align4] at lengths
  rw [align4]
  omega

theorem drop_entry (aligned : i % 4 = 0) (isEntry : buf.drop i = entryBytes entry ++ rest) :
    buf.drop (align4 (i + 16 + entry.1.utf8ByteSize)) = rest := by
  have next : align4 (i + 16 + entry.1.utf8ByteSize) =
      i + align4 (16 + entry.1.utf8ByteSize) := by
    simp only [align4]
    omega
  rw [next, ← List.drop_drop, isEntry, List.drop_left' (length_entryBytes entry)]

end Entry

theorem parseLoop_eq {buf : List UInt8} (entries : List DirEntry)
    (valid : ∀ entry ∈ entries, ValidEntry entry) (fuel i : Nat) (enough : entries.length ≤ fuel)
    (aligned : i % 4 = 0) (isRest : buf.drop i = serialize entries) :
    parseLoop buf fuel i = .ok (visible entries) := by
  induction entries generalizing fuel i with
  | nil =>
    cases fuel with
    | zero => rfl
    | succ fuel =>
      have done : buf.length ≤ i := List.drop_eq_nil_iff.mp isRest
      rw [parseLoop, if_neg (by omega)]
      rfl
  | cons entry entries induction =>
    cases fuel with
    | zero => exact absurd enough (Nat.not_succ_le_zero _)
    | succ fuel =>
      have isValid := valid entry List.mem_cons_self
      have room := length_of_entry isRest
      rw [align4] at room
      have nameLen : (headerOf entry).nameLen.toNat = entry.1.utf8ByteSize :=
        UInt16.toNat_ofNat_of_lt' (Nat.lt_succ_of_le isValid.short)
      rw [parseLoop, if_pos (by omega)]
      simp only [take_header isRest, Codec.decode_encode]
      by_cases isEmpty : entry.1.utf8ByteSize = 0
      · have isZero : (headerOf entry).nameLen = 0 := by
          rw [← UInt16.toNat_inj, nameLen, isEmpty]
          rfl
        rw [if_pos isZero, visible, List.takeWhile_cons_of_neg (by simp [isEmpty])]
      have notEmpty : (headerOf entry).nameLen ≠ 0 := by
        intro isZero
        rw [isZero] at nameLen
        exact isEmpty nameLen.symm
      have isIno : (headerOf entry).inode.toNat = entry.2.2 :=
        UInt64.toNat_ofNat_of_lt' isValid.ino
      have isKind : ofKindCode (headerOf entry).kind = some entry.2.1 :=
        ofKindCode_kindCode entry.2.1
      have next : parseLoop buf fuel (align4 (i + 16 + entry.1.utf8ByteSize)) =
          .ok (visible entries) :=
        induction (fun entry member => valid entry (List.mem_cons_of_mem _ member))
          fuel _ (Nat.le_of_succ_le_succ enough) (Nat.mul_mod_left _ 4)
          (drop_entry aligned isRest)
      have shown : visible (entry :: entries) = entry :: visible entries :=
        List.takeWhile_cons_of_pos (by simpa using Nat.pos_of_ne_zero isEmpty)
      rw [if_neg notEmpty, nameLen, if_neg (by omega), take_name isRest, fromUTF8_nameBytes]
      simp only [isKind, isIno, next, shown]
      rfl

theorem Begins.dirReadEntries {fs : FsInner} {raw : RawInode} {entries : List DirEntry}
    (begins : Begins fs.dev raw (serialize entries))
    (valid : ∀ entry ∈ entries, ValidEntry entry) :
    dirReadEntries raw fs = .ok (visible entries) fs := by
  have small := begins.length_le
  have parses : parseLoop (serialize entries) (serialize entries).length 0 =
      .ok (visible entries) :=
    parseLoop_eq entries valid _ 0 (length_le_serialize entries) rfl rfl
  rw [Pondfs.dirReadEntries, begins.size, if_neg (by omega), bind_apply,
    begins.readFileAt (fun _ => by omega)]
  simp only [List.drop_zero, List.take_length, Nat.sub_self, List.replicate_zero, List.append_nil,
    parses]
  rfl

end PersonaOS.Fs.Pondfs
