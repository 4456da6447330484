import PersonaOS.Fs.Pondfs

/-! # The host formatter

`mkpondfs` writes a source directory into an image: `tools/mkpondfs/src/main.rs`, which
declares the on-disk records a second time with the same fields. It panics where it
cannot go on, so its programs return or panic. The image is taken as the device it will
be; what it held before matters nowhere. -/

namespace PersonaOS.Fs.Pondfs.Mkpondfs

open Program

/-- A directory of the host: what `read_dir` returns, in that order, and below it the
same for its subdirectories. -/
structure SourceDir where
  tree : Tree
  valid : tree.ValidNames

structure Formatter where
  img : Disk
  totalBlocks : Nat
  inodeCount : Nat
  inodes : List RawInode
  /-- Data-block bitmap, one bit per data block, least significant bit first. -/
  bitmap : List UInt8
  bitmapStart : Nat
  bitmapBlocks : Nat
  inodeTableStart : Nat
  inodeTableBlocks : Nat
  dataStart : Nat

/-- `RawInode::default()` -/
def defaultRaw : RawInode := ⟨inodeKindUnused, 0, 0, 0, 0, 0, .replicate 12 0⟩

/-- The loop that sizes the bitmap. Each turn but the last raises `bitmap_blocks`. -/
def bitmapLoop (totalBlocks inodeTableBlocks : Nat) : (fuel bitmapBlocks : Nat) → Nat
  | 0, bitmapBlocks => bitmapBlocks
  | fuel + 1, bitmapBlocks =>
    let reserved := 1 + bitmapBlocks + inodeTableBlocks
    let dataBlocks := totalBlocks - reserved
    let need := (dataBlocks + 32767) / 32768
    if need ≤ bitmapBlocks then bitmapBlocks
    else bitmapLoop totalBlocks inodeTableBlocks fuel need

namespace Formatter

def new (img : Disk) (totalBytes inodeCount : Nat) : Option Formatter :=
  let totalBlocks := totalBytes / 4096
  if totalBlocks < 64 then
    none
  else
    let inodeTableBlocks := (inodeCount + 31) / 32
    let bitmapBlocks := bitmapLoop totalBlocks inodeTableBlocks totalBlocks 1
    let bitmapStart := 1
    let inodeTableStart := bitmapStart + bitmapBlocks
    let dataStart := inodeTableStart + inodeTableBlocks
    some
      { img, totalBlocks, inodeCount, bitmapStart, bitmapBlocks, inodeTableStart,
        inodeTableBlocks, dataStart
        bitmap := List.replicate (bitmapBlocks * 4096) 0
        inodes := List.replicate inodeCount defaultRaw }

/-- `write_block` -/
def setBlock (fmt : Formatter) (blk : Nat) (data : Block 4096) : Formatter :=
  { fmt with img := Function.update fmt.img blk data }

end Formatter

/-- The loop of `alloc_data_block` from data block `i` on, with `count` blocks to go. -/
def allocLoop : (count i : Nat) → Program Formatter Empty Nat
  | 0, _ => abort
  | count + 1, i => do
      let fmt ← get
      match fmt.bitmap[i / 8]? with
      | none => abort
      | some value =>
        if Bitmap.isClear value (i % 8) then
          modify fun fmt =>
            { fmt with bitmap := fmt.bitmap.set (i / 8) (Bitmap.setBit value (i % 8)) }
          return fmt.dataStart + i
        else
          allocLoop count (i + 1)

def allocDataBlock : Program Formatter Empty Nat := do
  let fmt ← get
  allocLoop (fmt.totalBlocks - fmt.dataStart) 0

def allocInode : Program Formatter Empty Nat := do
  let fmt ← get
  match (fmt.inodes.zipIdx.drop 1).find? fun (inode, _) => inode.kind = inodeKindUnused with
  | some (_, i) => return i
  | none => abort

/-- Change `inodes[ino]`. -/
def updateInode (ino : Nat) (change : RawInode → RawInode) : Program Formatter Empty PUnit := do
  let fmt ← get
  match fmt.inodes[ino]? with
  | none => abort
  | some inode => modify fun fmt => { fmt with inodes := fmt.inodes.set ino (change inode) }

/-- `inodes[ino].kind = kind; inodes[ino].link_count = 1` -/
def reserve (ino : Nat) (kind : UInt16) : Program Formatter Empty PUnit :=
  updateInode ino fun inode => { inode with kind, linkCount := 1 }

/-- Chunk `i` of the bytes, filled up with zeros. -/
def chunk (bytes : List UInt8) (i : Nat) : Block 4096 :=
  Block.zero.overwrite 0 ((bytes.drop (i * 4096)).take 4096)

/-- The loop of `write_file_bytes` over the chunks from `i` on. -/
def writeChunks (bytes : List UInt8) :
    (count i : Nat) → (direct : Vector UInt64 12) → Program Formatter Empty (Vector UInt64 12)
  | 0, _, direct => pure direct
  | count + 1, i, direct => do
      let blk ← allocDataBlock
      modify fun fmt => fmt.setBlock blk (chunk bytes i)
      writeChunks bytes count (i + 1) (direct.setIfInBounds i (.ofNat blk))

def writeFileBytes (ino : Nat) (bytes : List UInt8) : Program Formatter Empty PUnit :=
  let needed := (bytes.length + 4095) / 4096
  if 12 < needed then
    abort
  else do
    let direct ← writeChunks bytes needed 0 (.replicate 12 0)
    updateInode ino fun inode =>
      { inode with kind := inodeKindFile, linkCount := 1, size := .ofNat bytes.length, direct }

abbrev Entry := String × UInt16 × Nat

def pushEntry (buf : List UInt8) : Entry → List UInt8
  | (name, kind, ino) =>
    let hdr : DirEntryHeader := ⟨.ofNat ino, .ofNat (nameBytes name).length, kind⟩
    padTo4 (buf ++ DirEntryHeader.codec.encode hdr ++ nameBytes name)

def writeDirectory (ino : Nat) (entries : List Entry) : Program Formatter Empty PUnit := do
  writeFileBytes ino (entries.foldl pushEntry [])
  -- `write_file_bytes` has made it a file.
  updateInode ino fun inode => { inode with kind := inodeKindDir }

/-- Write the bodies of files, each to the inode that `entries` has for its name. -/
def writeFiles (entries : List Entry) : List (List UInt8 × String) → Program Formatter Empty PUnit
  | [] => pure ⟨⟩
  | (data, name) :: files => do
      match entries.find? fun entry => entry.1 = name with
      | none => abort
      | some (_, _, ino) =>
        writeFileBytes ino data
        writeFiles entries files

/-- What `visit` does once it has seen all of a directory: the entries it collected, and the
files whose bodies it still has to write. -/
def finish (dirIno : Nat) (seen : List Entry × List (List UInt8 × String)) :
    Program Formatter Empty PUnit := do
  writeFiles seen.1 seen.2
  writeDirectory dirIno seen.1

/-- The loop of `visit` over the entries of a directory. It visits subdirectories on the
way. -/
def scan : Tree → (entries : List Entry) → (files : List (List UInt8 × String)) →
    Program Formatter Empty (List Entry × List (List UInt8 × String))
  | .empty, entries, files => pure (entries, files)
  | .dir name sub rest, entries, files => do
      let newIno ← allocInode
      reserve newIno inodeKindDir
      let seen ← scan sub [] []
      finish newIno seen
      scan rest (entries ++ [(name, inodeKindDir, newIno)]) files
  | .file name bytes rest, entries, files => do
      let ino ← allocInode
      -- Marked now so that a later `alloc_inode` does not return it again.
      reserve ino inodeKindFile
      scan rest (entries ++ [(name, inodeKindFile, ino)]) (files ++ [(bytes, name)])

def visit (dirIno : Nat) (src : Tree) : Program Formatter Empty PUnit := do
  let seen ← scan src [] []
  finish dirIno seen

/-! ## Writing the tables -/

namespace Formatter

/-- Put record `i` of a block of the inode table into its place. -/
def putInode (fmt : Formatter) (blkOff : Nat) (buf : Block 4096) (i : Nat) : Block 4096 :=
  match fmt.inodes[blkOff * 32 + i]? with
  | none => buf
  | some inode => Block.write RawInode.codec buf (i * 128) inode

def tableBlock (fmt : Formatter) (blkOff : Nat) : Block 4096 :=
  (List.range 32).foldl (fmt.putInode blkOff) Block.zero

def bitmapBlock (fmt : Formatter) (blkOff : Nat) : Block 4096 :=
  Block.zero.overwrite 0 ((fmt.bitmap.drop (blkOff * 4096)).take 4096)

def superblock (fmt : Formatter) : Superblock where
  magic := pondMagic
  version := pondVersion
  totalBlocks := .ofNat fmt.totalBlocks
  inodeCount := .ofNat fmt.inodeCount
  bitmapStart := .ofNat fmt.bitmapStart
  bitmapBlocks := .ofNat fmt.bitmapBlocks
  inodeTableStart := .ofNat fmt.inodeTableStart
  inodeTableBlocks := .ofNat fmt.inodeTableBlocks
  dataStart := .ofNat fmt.dataStart

end Formatter

def finalize : Program Formatter Empty PUnit := do
  let fmt ← get
  forRange (fun blkOff => modify fun current =>
    current.setBlock (fmt.inodeTableStart + blkOff) (fmt.tableBlock blkOff)) fmt.inodeTableBlocks 0
  forRange (fun blkOff => modify fun current =>
    current.setBlock (fmt.bitmapStart + blkOff) (fmt.bitmapBlock blkOff)) fmt.bitmapBlocks 0
  modify fun current =>
    current.setBlock 0 (Block.write Superblock.codec Block.zero 0 fmt.superblock)

def format (src : SourceDir) : Program Formatter Empty PUnit := do
  reserve rootIno inodeKindDir
  visit rootIno src.tree
  finalize

end Mkpondfs

open Mkpondfs in
/-- The image that `mkpondfs` makes of an image file of `size` bytes, unless it panics. -/
def mkpondfs (img : Disk) (size : UInt64) (src : SourceDir) : Option Disk :=
  match Formatter.new img size.toNat 64 with
  | none => none
  | some fmt => (format src fmt).final.map Formatter.img

end PersonaOS.Fs.Pondfs
