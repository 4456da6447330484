import PersonaOS.Foundation.Blocks
import PersonaOS.Fs.Inode

/-! # The on-disk format of PondFS

Constants and records of `layout.rs`, with the bytes that `repr(C)` gives them on a
little-endian machine. Blocks have 4096 bytes (`BLOCK_SIZE`), inodes 128 (`INODE_SIZE`),
so that 32 of them fit into a block (`INODES_PER_BLOCK`), and an inode points to at most
12 blocks (`DIRECT_BLOCKS`). -/

namespace PersonaOS.Fs.Pondfs

def pondMagic : Vector UInt8 4 := #v[0x50, 0x4F, 0x4E, 0x44]

def pondVersion : UInt32 := 1

def inodeKindUnused : UInt16 := 0

def inodeKindFile : UInt16 := 1

def inodeKindDir : UInt16 := 2

def rootIno : Nat := 1

structure Superblock where
  magic : Vector UInt8 4
  version : UInt32
  totalBlocks : UInt64
  inodeCount : UInt64
  bitmapStart : UInt64
  bitmapBlocks : UInt64
  inodeTableStart : UInt64
  inodeTableBlocks : UInt64
  dataStart : UInt64
  deriving DecidableEq

open Codec in
def Superblock.codec : Codec Superblock :=
  ((u8.vector 4).prod (u32.prod (u64.prod (u64.prod (u64.prod (u64.prod (u64.prod
    (u64.prod u64)))))))).map
    (fun (magic, version, totalBlocks, inodeCount, bitmapStart, bitmapBlocks, inodeTableStart,
        inodeTableBlocks, dataStart) =>
      ⟨magic, version, totalBlocks, inodeCount, bitmapStart, bitmapBlocks, inodeTableStart,
        inodeTableBlocks, dataStart⟩)
    (fun sb => (sb.magic, sb.version, sb.totalBlocks, sb.inodeCount, sb.bitmapStart,
      sb.bitmapBlocks, sb.inodeTableStart, sb.inodeTableBlocks, sb.dataStart))
    (fun _ => rfl)

structure RawInode where
  kind : UInt16
  pad0 : UInt16
  linkCount : UInt32
  size : UInt64
  mtime : UInt64
  pad1 : UInt64
  direct : Vector UInt64 12
  deriving DecidableEq, Inhabited

open Codec in
def RawInode.codec : Codec RawInode :=
  (u16.prod (u16.prod (u32.prod (u64.prod (u64.prod (u64.prod (u64.vector 12))))))).map
    (fun (kind, pad0, linkCount, size, mtime, pad1, direct) =>
      ⟨kind, pad0, linkCount, size, mtime, pad1, direct⟩)
    (fun raw => (raw.kind, raw.pad0, raw.linkCount, raw.size, raw.mtime, raw.pad1, raw.direct))
    (fun _ => rfl)

@[simp] theorem RawInode.size_codec : RawInode.codec.size = 128 := rfl

structure DirEntryHeader where
  inode : UInt64
  nameLen : UInt16
  kind : UInt16
  deriving DecidableEq

/-- The last field is followed by four bytes of padding, which nobody reads. -/
def DirEntryHeader.codec : Codec DirEntryHeader :=
  (Codec.u64.prod (Codec.u16.prod (Codec.u16.prod (Codec.padding 4)))).map
    (fun (inode, nameLen, kind, _) => ⟨inode, nameLen, kind⟩)
    (fun header => (header.inode, header.nameLen, header.kind, ⟨⟩))
    (fun _ => rfl)

@[simp] theorem DirEntryHeader.size_codec : DirEntryHeader.codec.size = 16 := rfl

/-- `(x + 3) & !3` -/
def align4 (x : Nat) : Nat := (x + 3) / 4 * 4

/-- The `u16` that stands for a kind on disk. -/
def kindCode : InodeKind → UInt16
  | .file => inodeKindFile
  | .dir => inodeKindDir

def ofKindCode (code : UInt16) : Option InodeKind :=
  if code = inodeKindFile then some .file
  else if code = inodeKindDir then some .dir
  else none

@[simp] theorem ofKindCode_kindCode (kind : InodeKind) :
    ofKindCode (kindCode kind) = some kind := by
  cases kind <;> rfl

theorem kindCode_ne_unused (kind : InodeKind) : kindCode kind ≠ inodeKindUnused := by
  cases kind <;> decide

end PersonaOS.Fs.Pondfs
