import PersonaOS.Foundation.Bitmap
import PersonaOS.Fs.Layout

/-! # PondFS

The file system of `fs/pondfs/mod.rs`, statement by statement: an error leaves in place
whatever was written before it, to memory or to the device.

The device never fails. An `Arc<InodeState>` is a number under which the state is kept,
so two handles to one state see each other's changes; a state gets its number when it is
put into the inode cache, which is when others can get hold of it. Mutexes are not
modelled: no two calls overlap. -/

namespace PersonaOS.Fs.Pondfs

open Program

abbrev Disk := Nat → Block 4096

abbrev StateId := Nat

structure InodeState where
  ino : Nat
  raw : RawInode
  deriving Inhabited

structure FsInner where
  dev : Disk
  sb : Superblock
  /-- In-memory copy of the bitmap. -/
  bitmap : List UInt8
  inodeCache : Nat → Option StateId
  states : StateId → InodeState
  /-- How many states there are. -/
  stateCount : Nat
  /-- The block writes issued since the mount; the kernel keeps no such record. -/
  log : List (Nat × Block 4096)

namespace FsInner

def totalBlocks (fs : FsInner) : Nat := fs.sb.totalBlocks.toNat

def inodeCount (fs : FsInner) : Nat := fs.sb.inodeCount.toNat

def bitmapStart (fs : FsInner) : Nat := fs.sb.bitmapStart.toNat

def bitmapBlocks (fs : FsInner) : Nat := fs.sb.bitmapBlocks.toNat

def inodeTableStart (fs : FsInner) : Nat := fs.sb.inodeTableStart.toNat

def inodeTableBlocks (fs : FsInner) : Nat := fs.sb.inodeTableBlocks.toNat

def dataStart (fs : FsInner) : Nat := fs.sb.dataStart.toNat

def raw (fs : FsInner) (id : StateId) : RawInode := (fs.states id).raw

def ino (fs : FsInner) (id : StateId) : Nat := (fs.states id).ino

/-- `write_block` -/
def setBlock (fs : FsInner) (blk : Nat) (buf : Block 4096) : FsInner :=
  { fs with dev := Function.update fs.dev blk buf, log := fs.log ++ [(blk, buf)] }

def setRaw (fs : FsInner) (id : StateId) (raw : RawInode) : FsInner :=
  { fs with states := Function.update fs.states id ⟨fs.ino id, raw⟩ }

/-- `fs.inode_cache.insert(state.ino, Arc::new(state))` -/
def insertState (fs : FsInner) (state : InodeState) : FsInner :=
  { fs with
    inodeCache := Function.update fs.inodeCache state.ino (some fs.stateCount)
    states := Function.update fs.states fs.stateCount state
    stateCount := fs.stateCount + 1 }

/-- `fs.inode_cache.remove(&ino)` -/
def uncache (fs : FsInner) (ino : Nat) : FsInner :=
  { fs with inodeCache := Function.update fs.inodeCache ino none }

def diskInode (fs : FsInner) (ino : Nat) : RawInode :=
  Block.read RawInode.codec (fs.dev (fs.inodeTableStart + ino / 32)) (ino % 32 * 128)

/-- `write_inode` -/
def writeInode (fs : FsInner) (ino : Nat) (raw : RawInode) : FsInner :=
  let blk := fs.inodeTableStart + ino / 32
  fs.setBlock blk (Block.write RawInode.codec (fs.dev blk) (ino % 32 * 128) raw)

def flushByte (fs : FsInner) (byte : Nat) (value : UInt8) : FsInner :=
  let bitmapBlk := fs.bitmapStart + byte / 4096
  { fs with bitmap := fs.bitmap.set byte value }.setBlock bitmapBlk
    ((fs.dev bitmapBlk).overwrite (byte % 4096) [value])

end FsInner

/-! ## Inodes -/

def loadInode (fs : FsInner) (ino : Nat) : Except FsError InodeState :=
  if ino = 0 ∨ fs.inodeCount ≤ ino then
    .error .notFound
  else
    .ok ⟨ino, fs.diskInode ino⟩

def writeInode (ino : Nat) (raw : RawInode) : Program FsInner FsError PUnit :=
  modify fun fs => fs.writeInode ino raw

def getOrLoad (ino : Nat) : Program FsInner FsError StateId := do
  let fs ← get
  match fs.inodeCache ino with
  | some id => return id
  | none =>
    let state ← ofExcept (loadInode fs ino)
    modify fun fs => fs.insertState state
    return fs.stateCount

/-- `PondFs::mount`: the file system and its root handle. -/
def mount (dev : Disk) : Except FsError (FsInner × StateId) :=
  let sb := Block.read Superblock.codec (dev 0) 0
  if sb.magic ≠ pondMagic then
    .error .io
  else if sb.version ≠ pondVersion then
    .error .io
  else do
    let bitmap := (List.range sb.bitmapBlocks.toNat).flatMap fun i =>
      List.ofFn (dev (sb.bitmapStart.toNat + i))
    let inner : FsInner := ⟨dev, sb, bitmap, fun _ => none, fun _ => default, 0, []⟩
    let rootState ← loadInode inner rootIno
    return (inner.insertState rootState, inner.stateCount)

/-! ## The bitmap -/

/-- The loop of `alloc_data_block` from data block `i` on, with `count` blocks to go. -/
def allocLoop : (count i : Nat) → Program FsInner FsError Nat
  | 0, _ => throw .noSpace
  | count + 1, i => do
      let fs ← get
      match fs.bitmap[i / 8]? with
      | none => abort
      | some value =>
        if Bitmap.isClear value (i % 8) then
          modify fun fs => fs.flushByte (i / 8) (Bitmap.setBit value (i % 8))
          return fs.dataStart + i
        else
          allocLoop count (i + 1)

def allocDataBlock : Program FsInner FsError Nat := do
  let fs ← get
  if fs.totalBlocks < fs.dataStart then
    abort
  else
    allocLoop (fs.totalBlocks - fs.dataStart) 0

def freeDataBlock (blk : Nat) : Program FsInner FsError PUnit := do
  let fs ← get
  if blk < fs.dataStart ∨ fs.totalBlocks ≤ blk then
    throw .io
  else
    let i := blk - fs.dataStart
    match fs.bitmap[i / 8]? with
    | none => abort
    | some value => modify fun fs => fs.flushByte (i / 8) (Bitmap.clearBit value (i % 8))

/-- The first unused inode of the table on disk. Inode 0 is reserved. -/
def allocInode : Program FsInner FsError Nat := do
  let fs ← get
  okOr ((List.range fs.inodeTableBlocks).findSome? fun blkOff =>
    let buf := fs.dev (fs.inodeTableStart + blkOff)
    (List.range 32).findSome? fun i =>
      let ino := blkOff * 32 + i
      if ino = 0 then none
      else if (Block.read RawInode.codec buf (i * 128)).kind = inodeKindUnused then some ino
      else none) .noSpace

/-! ## File data -/

/-- The loop of `read_file_at` up to `stop`. Each turn reads at least one byte. -/
def readLoop (dev : Disk) (raw : RawInode) (stop : Nat) :
    (fuel cursor : Nat) → Except FsError (List UInt8)
  | 0, _ => .ok []
  | fuel + 1, cursor =>
    if cursor < stop then
      match raw.direct[cursor / 4096]? with
      | none => .error .unsupported
      | some blk =>
        if blk = 0 then
          .error .io
        else do
          let inBlk := cursor % 4096
          let take := min (4096 - inBlk) (stop - cursor)
          let bytes := (dev blk.toNat).slice inBlk take
          let rest ← readLoop dev raw stop fuel (cursor + take)
          return bytes ++ rest
    else
      .ok []

def readFileAt (raw : RawInode) (off len : Nat) : Program FsInner FsError (List UInt8) :=
  if raw.size.toNat ≤ off then
    pure []
  else if 2 ^ 64 ≤ off + len then
    abort
  else do
    let fs ← get
    let stop := min raw.size.toNat (off + len)
    ofExcept (readLoop fs.dev raw stop (stop - off) off)

/-- `raw.direct[i] = blk` -/
def setDirect (id : StateId) (i : Nat) (blk : Nat) : Program FsInner FsError PUnit :=
  modify fun fs =>
    fs.setRaw id { fs.raw id with direct := (fs.raw id).direct.setIfInBounds i (.ofNat blk) }

/-- Give slot `i` a zeroed block if it has none. -/
def fillSlot (id : StateId) (i : Nat) : Program FsInner FsError PUnit := do
  let fs ← get
  match (fs.raw id).direct[i]? with
  | none => abort
  | some blk =>
    if blk = 0 then
      let newBlk ← allocDataBlock
      modify fun fs => fs.setBlock newBlk Block.zero
      setDirect id i newBlk
    else
      pure ⟨⟩

/-- The loop of `write_file_at` that copies. Each turn writes at least one byte. -/
def writeLoop (id : StateId) :
    (fuel cursor : Nat) → (buf : List UInt8) → Program FsInner FsError PUnit
  | 0, _, _ => pure ⟨⟩
  | fuel + 1, cursor, buf =>
    if buf = [] then
      pure ⟨⟩
    else do
      let fs ← get
      match (fs.raw id).direct[cursor / 4096]? with
      | none => abort
      | some blk =>
        let inBlk := cursor % 4096
        let take := min (4096 - inBlk) buf.length
        modify fun fs =>
          fs.setBlock blk.toNat ((fs.dev blk.toNat).overwrite inBlk (buf.take take))
        writeLoop id fuel (cursor + take) (buf.drop take)

def writeFileAt (id : StateId) (off : Nat) (buf : List UInt8) : Program FsInner FsError Nat :=
  let stop := off + buf.length
  if 2 ^ 64 ≤ stop then
    abort
  else
    let neededBlocks := (stop + 4095) / 4096
    if 12 < neededBlocks then
      throw .unsupported
    else do
      forRange (fillSlot id) neededBlocks 0
      writeLoop id buf.length off buf
      modify fun fs =>
        if (fs.raw id).size.toNat < stop then
          fs.setRaw id { fs.raw id with size := .ofNat stop }
        else
          fs
      return buf.length

/-! ## Directories -/

abbrev DirEntry := String × InodeKind × Nat

/-- `name.as_bytes()` -/
def nameBytes (name : String) : List UInt8 := name.toByteArray.data.toList

/-- The loop of `dir_read_entries` from offset `i` on. Each turn passes a header. -/
def parseLoop (buf : List UInt8) : (fuel i : Nat) → Except FsError (List DirEntry)
  | 0, _ => .ok []
  | fuel + 1, i =>
    if i + 16 ≤ buf.length then
      let hdr := DirEntryHeader.codec.decode ((buf.drop i).take 16)
      if hdr.nameLen = 0 then
        .ok []
      else
        let nameStart := i + 16
        let nameEnd := nameStart + hdr.nameLen.toNat
        if buf.length < nameEnd then
          .error .io
        else
          match String.fromUTF8? ⟨((buf.drop nameStart).take hdr.nameLen.toNat).toArray⟩ with
          | none => .error .io
          | some name =>
            match ofKindCode hdr.kind with
            | none => .error .io
            | some kind => do
                let rest ← parseLoop buf fuel (align4 nameEnd)
                return (name, kind, hdr.inode.toNat) :: rest
    else
      .ok []

def dirReadEntries (raw : RawInode) : Program FsInner FsError (List DirEntry) := do
  -- `vec![0u8; raw.size as usize]`, which has at most `isize::MAX` bytes
  if 2 ^ 63 ≤ raw.size.toNat then
    abort
  else
    let read ← readFileAt raw 0 raw.size.toNat
    let buf := read ++ List.replicate (raw.size.toNat - read.length) 0
    ofExcept (parseLoop buf buf.length 0)

/-- `while !buf.len().is_multiple_of(4) { buf.push(0) }` -/
def padTo4 (buf : List UInt8) : List UInt8 :=
  buf ++ List.replicate ((4 - buf.length % 4) % 4) 0

def pushEntry (buf : List UInt8) : DirEntry → List UInt8
  | (name, kind, ino) =>
    let hdr : DirEntryHeader := ⟨.ofNat ino, .ofNat (nameBytes name).length, kindCode kind⟩
    padTo4 (buf ++ DirEntryHeader.codec.encode hdr ++ nameBytes name)

/-- Free the block in slot `i` if there is one. -/
def freeSlot (id : StateId) (i : Nat) : Program FsInner FsError PUnit := do
  let fs ← get
  match (fs.raw id).direct[i]? with
  | none => abort
  | some blk =>
    if blk ≠ 0 then
      freeDataBlock blk.toNat
      setDirect id i 0
    else
      pure ⟨⟩

def dirWriteEntries (id : StateId) (entries : List DirEntry) : Program FsInner FsError PUnit := do
  let buf := entries.foldl pushEntry []
  let fs ← get
  let oldBlocks := ((fs.raw id).size.toNat + 4095) / 4096
  let newBlocks := (buf.length + 4095) / 4096
  forRange (freeSlot id) (min oldBlocks 12 - newBlocks) newBlocks
  modify fun fs => fs.setRaw id { fs.raw id with size := 0 }
  let _ ← writeFileAt id 0 buf
  modify fun fs => fs.setRaw id { fs.raw id with size := .ofNat buf.length }

/-! ## `impl Inode for PondInode` -/

def kind (id : StateId) (fs : FsInner) : InodeKind :=
  if (fs.raw id).kind = inodeKindDir then .dir else .file

def size (id : StateId) (fs : FsInner) : Nat := (fs.raw id).size.toNat

def readAt (id : StateId) (off len : Nat) : Program FsInner FsError (List UInt8) := do
  let fs ← get
  if (fs.raw id).kind ≠ inodeKindFile then
    throw .isDir
  else
    readFileAt (fs.raw id) off len

def writeAt (id : StateId) (off : Nat) (buf : List UInt8) : Program FsInner FsError Nat := do
  let fs ← get
  if (fs.raw id).kind ≠ inodeKindFile then
    throw .isDir
  else
    let n ← writeFileAt id off buf
    let fs ← get
    writeInode (fs.ino id) (fs.raw id)
    return n

def lookup (id : StateId) (name : String) : Program FsInner FsError StateId := do
  let fs ← get
  if (fs.raw id).kind ≠ inodeKindDir then
    throw .notDir
  else
    let entries ← dirReadEntries (fs.raw id)
    let (_, _, ino) ← okOr (entries.find? fun entry => entry.1 = name) .notFound
    getOrLoad ino

def readdir (id : StateId) : Program FsInner FsError (List (String × InodeKind)) := do
  let fs ← get
  if (fs.raw id).kind ≠ inodeKindDir then
    throw .notDir
  else
    let entries ← dirReadEntries (fs.raw id)
    return entries.map fun (name, kind, _) => (name, kind)

def newRaw (kind : InodeKind) : RawInode :=
  ⟨kindCode kind, 0, 1, 0, 0, 0, .replicate 12 0⟩

def create (id : StateId) (name : String) (kind : InodeKind) :
    Program FsInner FsError StateId := do
  let fs ← get
  if (fs.raw id).kind ≠ inodeKindDir then
    throw .notDir
  else
    let entries ← dirReadEntries (fs.raw id)
    if entries.any fun entry => entry.1 = name then
      throw .exists_
    else
      let newIno ← allocInode
      writeInode newIno (newRaw kind)
      dirWriteEntries id (entries ++ [(name, kind, newIno)])
      let fs ← get
      writeInode (fs.ino id) (fs.raw id)
      modify fun fs => fs.insertState ⟨newIno, newRaw kind⟩
      return fs.stateCount

def eraseInode (id : StateId) : Program FsInner FsError PUnit := do
  forRange (freeSlot id) 12 0
  modify fun fs =>
    fs.setRaw id { fs.raw id with kind := inodeKindUnused, size := 0, linkCount := 0 }

def unlink (id : StateId) (name : String) : Program FsInner FsError PUnit := do
  let fs ← get
  if (fs.raw id).kind ≠ inodeKindDir then
    throw .notDir
  else
    let entries ← dirReadEntries (fs.raw id)
    let (_, _, ino) ← okOr (entries.find? fun entry => entry.1 = name) .notFound
    let target ← getOrLoad ino
    eraseInode target
    let fs ← get
    writeInode ino (fs.raw target)
    modify fun fs => fs.uncache ino
    dirWriteEntries id (entries.eraseP fun entry => entry.1 = name)
    let fs ← get
    writeInode (fs.ino id) (fs.raw id)

/-- `impl Inode for PondInode` -/
def inode : Inode FsInner StateId where
  kind := kind
  size := size
  readAt := readAt
  writeAt := writeAt
  lookup := lookup
  readdir := readdir
  create := create
  unlink := unlink

end PersonaOS.Fs.Pondfs
