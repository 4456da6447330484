import PersonaOS.Fs.Runs
import PersonaOS.Fs.Space

/-! # Listings are read back

What `dir_write_entries` writes into a directory, `dir_read_entries` reads from it, whatever
was there before, as long as there are enough blocks. The loop that reads is written out
once more, with every access to the buffer checked. -/

namespace PersonaOS.Fs.Pondfs

open Program

/-! ## The loop over a buffer -/

/-- `buf[start..start + len]` -/
def bytesAt (buf : List UInt8) (start len : Nat) : Option (List UInt8) :=
  if start + len ≤ buf.length then some ((buf.drop start).take len) else none

theorem bytesAt_eq {buf : List UInt8} {start len : Nat} (inside : start + len ≤ buf.length) :
    bytesAt buf start len = some ((buf.drop start).take len) := if_pos inside

theorem lt_align4 (i len : Nat) : i < align4 (i + 16 + len) := by
  rw [align4]
  omega

/-- The loop of `dir_read_entries` from offset `i` on. It has no result if it reads outside
of the buffer. -/
def parseWhile (buf : List UInt8) (i : Nat) : Option (Except FsError (List DirEntry)) :=
  if _more : i + 16 ≤ buf.length then do
    let hdr := DirEntryHeader.codec.decode (← bytesAt buf i 16)
    if hdr.nameLen = 0 then
      return .ok []
    else if buf.length < i + 16 + hdr.nameLen.toNat then
      return .error .io
    else
      let nameBytes ← bytesAt buf (i + 16) hdr.nameLen.toNat
      match String.fromUTF8? ⟨nameBytes.toArray⟩ with
      | none => return .error .io
      | some name =>
        match ofKindCode hdr.kind with
        | none => return .error .io
        | some kind =>
          let rest ← parseWhile buf (align4 (i + 16 + hdr.nameLen.toNat))
          return rest.map ((name, kind, hdr.inode.toNat) :: ·)
  else
    some (.ok [])
termination_by buf.length - i
decreasing_by
  apply Nat.sub_lt_sub_left (by omega)
  exact lt_align4 _ _

theorem parseWhile_eq (buf : List UInt8) (fuel i : Nat) (enough : buf.length - i ≤ fuel) :
    parseWhile buf i = some (parseLoop buf fuel i) := by
  induction fuel generalizing i with
  | zero =>
    rw [parseWhile, dif_neg (by omega)]
    rfl
  | succ fuel induction =>
    rw [parseWhile, parseLoop]
    by_cases more : i + 16 ≤ buf.length
    · rw [dif_pos more, if_pos more, bytesAt_eq more]
      simp only [Option.bind_eq_bind, Option.bind_some]
      generalize DirEntryHeader.codec.decode ((buf.drop i).take 16) = hdr
      split
      · rfl
      · split
        · rfl
        · next inside =>
          rw [bytesAt_eq (Nat.le_of_not_lt inside), Option.bind_some]
          have passes := lt_align4 i hdr.nameLen.toNat
          rw [induction _ (by omega)]
          cases String.fromUTF8? ⟨((buf.drop (i + 16)).take hdr.nameLen.toNat).toArray⟩ with
          | none => rfl
          | some name =>
            cases ofKindCode hdr.kind with
            | none => rfl
            | some kind =>
              cases parseLoop buf fuel (align4 (i + 16 + hdr.nameLen.toNat)) with
              | error error => rfl
              | ok entries => rfl
    · rw [dif_neg more, if_neg more]

/-! ## Writing a listing -/

/-- The blocks an inode has are those its size asks for. -/
def RawInode.Compact (raw : RawInode) : Prop :=
  ∀ i < 12, raw.slot i ≠ 0 ↔ i < (raw.size.toNat + 4095) / 4096

section Write

variable {fs after : FsInner} {nodes : Nodes} {id : StateId} {stored entries : List DirEntry}

theorem missing_congr {raw other : RawInode} {count : Nat}
    (same : ∀ i < count, other.slot i = raw.slot i) : other.missing count = raw.missing count := by
  induction count with
  | zero => rfl
  | succ count induction =>
    rw [RawInode.missing, RawInode.missing, same count (Nat.lt_succ_self count),
      induction fun i inside => same i (Nat.lt_succ_of_lt inside)]

theorem Shrunk.freeBlocks_subset {start stop : Nat} (shrunk : Shrunk id start stop fs after) :
    fs.freeBlocks ⊆ after.freeBlocks := by
  intro blk isFree
  rw [mem_freeBlocks] at isFree ⊢
  exact ⟨shrunk.edits.isData.mpr isFree.1, fun taken => isFree.2 ((shrunk.taken blk).mp taken).1⟩

/-- With enough blocks the listing is written. Behind it there are the blocks that were
there before and not in use for the old listing. -/
theorem Holds.dirWriteEntries_slots (holds : Holds fs nodes)
    (isCached : fs.inodeCache (fs.ino id) = some id)
    (small : (serialize entries).length ≤ 12 * 4096)
    (room : (fs.raw id).missing (((serialize entries).length + 4095) / 4096) ≤ fs.freeBlocks.card) :
    (Pondfs.dirWriteEntries id entries fs).Meets
      (fun _ after => ∀ i, ((serialize entries).length + 4095) / 4096 ≤ i → i < 12 →
        (after.raw id).slot i =
          if i < ((fs.raw id).size.toNat + 4095) / 4096 then 0 else (fs.raw id).slot i)
      (fun _ _ => False) False := by
  generalize isNeeded : ((serialize entries).length + 4095) / 4096 = needed at room ⊢
  generalize isCount : min (((fs.raw id).size.toNat + 4095) / 4096) 12 - needed = count
  have frees : (forRange (freeSlot id) count needed fs).Meets _ _ _ :=
    holds.synced.freeSlots (by omega) fun i hasBlock => (holds.slot isCached hasBlock).1
  rw [Pondfs.dirWriteEntries, foldl_pushEntry, get_bind_apply, isNeeded, isCount]
  apply Outcome.Meets.bind frees
  intro _ freed shrunk
  rw [modify_bind_apply]
  have slots : ∀ i, ((freed.truncated id).raw id).slot i = (freed.raw id).slot i := by
    intro i
    rw [FsInner.truncated, FsInner.raw_setRaw, if_pos rfl]
    rfl
  have writes := (shrunk.resize 0).synced.writeFileAt_takes id 0 (serialize entries)
  rw [Nat.zero_add, isNeeded] at writes
  apply Outcome.Meets.bind (writes.mono (fun _ _ known => known) ?_ (by omega))
  · intro _ middle known i behind inside
    have sameRange : (needed ≤ i ∧ i < needed + count) ↔
        i < ((fs.raw id).size.toNat + 4095) / 4096 := by omega
    have isKept := (known.1 i behind).trans (slots i)
    rw [shrunk.slots, if_congr sameRange rfl rfl] at isKept
    rw [FsInner.raw_setRaw, if_pos rfl]
    exact isKept
  · intro error after failed
    rcases failed with ⟨_, many, _⟩ | ⟨_, short, _⟩
    · omega
    · have sameMissing : ((freed.truncated id).raw id).missing needed =
          (fs.raw id).missing needed :=
        missing_congr fun i inside => by rw [slots, shrunk.slots, if_neg (by omega)]
      have more := Finset.card_le_card (shrunk.resize 0).freeBlocks_subset
      rw [FsInner.truncated] at sameMissing
      omega

/-- A listing that fits is read back from the directory it was written to, and the directory
stays compact. The loop that reads ends in every buffer and stays inside of it. -/
theorem listing_round_trips (fs : FsInner) (nodes : Nodes) (id : StateId)
    (stored entries : List DirEntry) (holds : Holds fs nodes) (opens : OpensDir fs nodes id stored)
    (valid : ∀ entry ∈ entries,
      1 ≤ entry.1.utf8ByteSize ∧ entry.1.utf8ByteSize ≤ 65535 ∧ entry.2.2 < 2 ^ 64)
    (small : (serialize entries).length ≤ 12 * 4096)
    (room : (fs.raw id).missing (((serialize entries).length + 4095) / 4096) ≤
      fs.freeBlocks.card) :
    (∃ after, dirWriteEntries id entries fs = .ok ⟨⟩ after ∧
      dirReadEntries (after.raw id) after = .ok entries after ∧
      ((fs.raw id).Compact → (after.raw id).Compact)) ∧
    ∀ buf, parseWhile buf 0 = some (parseLoop buf buf.length 0) := by
  refine ⟨?_, fun buf => parseWhile_eq buf _ 0 (Nat.sub_le _ _)⟩
  have both := (holds.dirWriteEntries opens.isCached entries).and
    (holds.dirWriteEntries_slots opens.isCached small room)
  rcases (both.mono (fun _ _ known => known) (fun _ _ failed => failed.2) (by omega)).returns with
    ⟨_, after, writes, rewritten, slots⟩
  have edits := holds.edits_rewritten opens.isCached opens.isDir rewritten
  have isListing := (holds.rewritten opens.isCached opens.isDir rewritten).contents
    (Function.update_self (fs.ino id) _ nodes)
  rw [edits.record_self opens.isCached] at isListing
  have begins : Begins after.dev (after.raw id) (serialize entries) := isListing
  refine ⟨after, writes, ?_, ?_⟩
  · have isVisible : visible entries = entries :=
      List.takeWhile_eq_self_iff.mpr fun entry member => decide_eq_true (valid entry member).1
    have areValid : ∀ entry ∈ entries, ValidEntry entry := fun entry member =>
      ⟨(valid entry member).2.1, (valid entry member).2.2⟩
    rw [begins.dirReadEntries areValid, isVisible]
  · intro compact i inside
    rw [begins.size]
    constructor
    · intro hasBlock
      by_contra behind
      rw [slots i (Nat.le_of_not_lt behind) inside] at hasBlock
      split at hasBlock
      · exact hasBlock rfl
      · next notOld => exact notOld ((compact i inside).mp hasBlock)
    · intro before
      exact begins.backed i (by omega)

/-- Three hundred and one entries, padded to 20 bytes each: one of them lies on a block
boundary. -/
def longListing : List DirEntry := ("motd", .file, 7) :: List.replicate 300 ("etc", .dir, 8)

theorem length_longListing : (serialize longListing).length = 6020 := by
  have lengths : (entryBytes ("motd", .file, 7)).length = 20 ∧
      (entryBytes ("etc", .dir, 8)).length = 20 :=
    ⟨length_entryBytes ("motd", .file, 7), length_entryBytes ("etc", .dir, 8)⟩
  rw [serialize, longListing, List.flatMap_cons, List.length_append, List.length_flatMap,
    List.map_replicate, List.sum_replicate_nat, lengths.1, lengths.2]

theorem smallSource_spare :
    (start? (fun _ => Block.zero) 262144 smallSource).map (fun session =>
      decide (0 < session.fs.freeBlocks.card)) = some true := by
  decide +kernel

/-- The root of an image with two entries gets 301 entries. -/
theorem listing_round_trips_long : ∃ fs nodes stored, Holds fs nodes ∧
    OpensDir fs nodes 0 stored ∧
    ((∃ after, dirWriteEntries 0 longListing fs = .ok ⟨⟩ after ∧
      dirReadEntries (after.raw 0) after = .ok longListing after ∧
      ((fs.raw 0).Compact → (after.raw 0).Compact)) ∧
    ∀ buf, parseWhile buf 0 = some (parseLoop buf buf.length 0)) := by
  rcases Option.map_eq_some_iff.mp smallSource_spare with ⟨⟨fs, handles⟩, starts, spare⟩
  rcases start?_eq_some starts with ⟨nodes, stored, _, serves, opens, depicts, _⟩
  have notEmpty : stored ≠ [] := by
    intro isEmpty
    rw [isEmpty] at depicts
    cases depicts
  have hasBlock : (fs.raw 0).slot 0 ≠ 0 := by
    have begins := serves.mounted.holds.contents opens.isDir
    rw [FsInner.record_of_cached opens.isCached] at begins
    apply begins.backed 0
    exact Nat.lt_of_lt_of_le (List.length_pos_iff.mpr notEmpty) (length_le_serialize stored)
  have room : (fs.raw 0).missing (((serialize longListing).length + 4095) / 4096) ≤
      fs.freeBlocks.card := by
    have isSpare : 0 < fs.freeBlocks.card := of_decide_eq_true spare
    have one : (if (fs.raw 0).slot 1 = 0 then 1 else 0) ≤ 1 := by
      split <;> decide
    rw [length_longListing]
    simp only [RawInode.missing, hasBlock]
    exact (Nat.le_of_eq (Nat.zero_add _)).trans (one.trans isSpare)
  have valid : ∀ entry ∈ longListing,
      1 ≤ entry.1.utf8ByteSize ∧ entry.1.utf8ByteSize ≤ 65535 ∧ entry.2.2 < 2 ^ 64 := by
    intro entry member
    rcases List.mem_cons.mp member with rfl | later
    · decide
    · rw [List.eq_of_mem_replicate later]
      decide
  exact ⟨fs, nodes, stored, serves.mounted.holds, opens,
    listing_round_trips fs nodes 0 stored longListing serves.mounted.holds opens valid
      (by rw [length_longListing]; decide) room⟩

end Write

end PersonaOS.Fs.Pondfs
