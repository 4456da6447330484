import PersonaOS.Mm.Vmm

/-! # Loading a program

`sys_spawn` reads a file, parses it as an ELF executable, maps its segments into a new
address space and adds a stack. Parsing is done by a library, so a file is given here by
what the parser makes of it: the entry point and the program headers, with whatever
values the file's author has put there. -/

namespace PersonaOS.User

open Program Mm

/-- A 64-bit program header of type `PT_LOAD`. -/
structure ProgramHeader where
  virtualAddr : Nat
  offset : Nat
  fileSize : Nat
  memSize : Nat
  flags : Nat
  deriving DecidableEq, Repr

/-- A program header as the parser sees it. -/
inductive Header where
  | load64 (header : ProgramHeader)
  /-- A `PT_LOAD` header of a 32-bit file. -/
  | load32
  | other
  deriving DecidableEq, Repr

structure ElfFile where
  entryPoint : Nat
  headers : List Header
  /-- The length of the file. -/
  inputLen : Nat
  deriving DecidableEq, Repr

inductive ElfError where
  | parse
  | map
  | copy
  deriving DecidableEq, Repr

/-- `load_seg`. The segment is mapped writable while it is filled, and stays so. -/
def loadSeg (inputLen : Nat) (header : ProgramHeader) (pml4 : Frame)
    (zeros bytes : Scribble) : Program Machine ElfError PUnit :=
  let pageOff := header.virtualAddr &&& 0xFFF
  let alignedVirt := header.virtualAddr - pageOff
  if pageOff + header.memSize < 2 ^ 64 then do
    let pages := (pageOff + header.memSize + 4095) / 4096
    let mapFlags : MapFlags := ⟨true, true, header.flags &&& 0x1 = 0, false⟩
    mapError (fun _ => .map) (mapAnon pml4 alignedVirt pages mapFlags)
    mapError (fun _ => .copy) (zeroUser pml4 header.virtualAddr header.memSize zeros)
    if header.offset + header.fileSize < 2 ^ 64 ∧ header.offset + header.fileSize ≤ inputLen then
      mapError (fun _ => .copy) (copyToUser pml4 header.virtualAddr header.fileSize bytes)
    else
      abort
  else
    abort

/-- The loop of `load` over the program headers, with the data that `zero_user` and
`copy_to_user` write for each of them. -/
def loadHeaders (inputLen : Nat) (pml4 : Frame) (zeros bytes : ProgramHeader → Scribble) :
    List Header → Program Machine ElfError PUnit
  | [] => pure ⟨⟩
  | .load64 header :: rest => do
    loadSeg inputLen header pml4 (zeros header) (bytes header)
    loadHeaders inputLen pml4 zeros bytes rest
  | .load32 :: _ => throw .parse
  | .other :: rest => loadHeaders inputLen pml4 zeros bytes rest

/-- `elf::load`; `none` stands for a file that the parser rejects. -/
def load (file : Option ElfFile) (pml4 : Frame) (zeros bytes : ProgramHeader → Scribble) :
    Program Machine ElfError Nat :=
  match file with
  | none => throw .parse
  | some elf => do
    loadHeaders elf.inputLen pml4 zeros bytes elf.headers
    return elf.entryPoint

inductive SpawnError where
  | fs
  | addressSpace
  | elf
  | stack
  deriving DecidableEq, Repr

def userStackTop : Nat := 0x7FFFF000

def userStackPages : Nat := 4

/-- The part of `spawn_from_path` that builds the address space. The outer `none` stands
for a file that cannot be read. An error leaves the address space behind: nothing frees
its tables or pages. -/
def spawnFromPath (kernelPml4 : Frame) (file : Option (Option ElfFile))
    (zeros bytes : ProgramHeader → Scribble) : Program Machine SpawnError (Frame × Nat) := do
  let file ← okOr file .fs
  match ← mapError (fun _ => .addressSpace) (newUser kernelPml4) with
  | none => throw .addressSpace
  | some pml4 => do
    let entry ← mapError (fun _ => .elf) (load file pml4 zeros bytes)
    mapError (fun _ => .stack)
      (mapAnon pml4 (userStackTop - userStackPages * 4096) userStackPages .userData)
    return (pml4, entry)

end PersonaOS.User
