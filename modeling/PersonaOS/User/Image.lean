import Mathlib.Order.Interval.Finset.Nat
import PersonaOS.Foundation.Codec
import PersonaOS.Mm.PageView
import PersonaOS.User.Spawn

/-! # The image of a loaded program

The loader writes bytes, while the memory manager is modelled over frames read as page tables.
Here a frame is kept in both readings at once: its entries from 512 on, which no table has,
stand for its bytes. How the processor would read those bytes as a table is left open, so
nothing is assumed about what a program's data look like. -/

namespace PersonaOS.User

open Program Mm

/-! ## Bytes in frames -/

/-- How the processor reads the bytes of a frame as a page table. -/
abbrev TableReading := (Nat → UInt8) → Nat → PageTableEntry

def frameByte (content : Nat → PageTableEntry) (offset : Nat) : UInt8 :=
  UInt8.ofNat (content (512 + offset)).frame

def frameOfBytes (reading : TableReading) (bytes : Nat → UInt8) : Nat → PageTableEntry :=
  fun index => if index < 512 then reading bytes index else ⟨(bytes (index - 512)).toNat, .empty⟩

theorem frameByte_frameOfBytes (reading : TableReading) (bytes : Nat → UInt8) (offset : Nat) :
    frameByte (frameOfBytes reading bytes) offset = bytes offset := by
  rw [frameByte, frameOfBytes, if_neg (by omega), Nat.add_sub_cancel_left]
  exact UInt8.ofNat_toNat

theorem frameByte_unused (offset : Nat) : frameByte (fun _ => .unused) offset = 0 := rfl

/-- What a write of `len` bytes at `virt` does to the frame of a page: the bytes of the range
that lie in the page are replaced. -/
def writeRange (reading : TableReading) (virt len : Nat) (byteAt : Nat → UInt8) : Scribble :=
  fun page content => frameOfBytes reading fun offset =>
    let address := page * 4096 + offset
    if virt ≤ address ∧ address < virt + len then byteAt (address - virt)
    else frameByte content offset

def userByte (memory : Memory) (pml4 : Frame) (virt : Nat) : Option UInt8 :=
  (physForVirt memory pml4 virt).map fun phys => frameByte (memory (phys / 4096)) (phys % 4096)

theorem address_parts (frame offset : Nat) (inPage : offset < 4096) :
    (frame * 4096 + offset) / 4096 = frame ∧ (frame * 4096 + offset) % 4096 = offset := by
  omega

theorem userByte_eq {memory : Memory} {pml4 : Frame} {virt : Nat} (user : virt < 2 ^ 47) :
    userByte memory pml4 virt =
      (pageView memory pml4 (virt / 4096)).map fun view =>
        frameByte view.content (virt % 4096) := by
  rw [userByte, physForVirt_eq user, pageView, Option.map_map, Option.map_map]
  apply Option.map_congr
  intro entry _
  have parts := address_parts entry.frame (virt % 4096) (Nat.mod_lt _ (by decide))
  simp only [Function.comp_apply, parts.1, parts.2]

/-! ## The loader -/

/-- The data of `zero_user(virt, mem_size)` -/
def zeroFill (reading : TableReading) (header : ProgramHeader) : Scribble :=
  writeRange reading header.virtualAddr header.memSize fun _ => 0

/-- The data of `copy_to_user(virt, &elf.input[start..end])` -/
def fileFill (reading : TableReading) (input : List UInt8) (header : ProgramHeader) : Scribble :=
  writeRange reading header.virtualAddr header.fileSize fun k => input.getD (header.offset + k) 0

/-- `elf::load` of a file; `parse` is the library's reading of the headers. -/
def loadFile (reading : TableReading) (parse : List UInt8 → Option ElfFile) (input : List UInt8)
    (pml4 : Frame) : Program Machine ElfError Nat :=
  load ((parse input).map fun elf => { elf with inputLen := input.length }) pml4
    (zeroFill reading) (fileFill reading input)

/-- A reader of 64-bit files that reports the fields of the headers as they stand. -/
def readElf64 (input : List UInt8) : Option ElfFile :=
  let field (place width : Nat) := ofLeBytes ((input.drop place).take width)
  let header (place : Nat) : Header :=
    if field place 4 = 1 then
      .load64 ⟨field (place + 16) 8, field (place + 8) 8, field (place + 32) 8,
        field (place + 40) 8, field (place + 4) 4⟩
    else
      .other
  if input.take 5 = [0x7F, 0x45, 0x4C, 0x46, 2] ∧ 64 ≤ input.length then
    some ⟨field 24 8,
      (List.range (field 56 2)).map fun i => header (field 32 8 + i * field 54 2), input.length⟩
  else
    none

def fileOf (header : ProgramHeader) (data : List UInt8) : List UInt8 :=
  [0x7F, 0x45, 0x4C, 0x46, 2, 1, 1] ++ List.replicate 9 0 ++ leBytes 2 2 ++ leBytes 2 62 ++
    leBytes 4 1 ++ leBytes 8 header.virtualAddr ++ leBytes 8 64 ++ leBytes 8 0 ++ leBytes 4 0 ++
    leBytes 2 64 ++ leBytes 2 56 ++ leBytes 2 1 ++ leBytes 2 64 ++ leBytes 2 0 ++ leBytes 2 0 ++
    leBytes 4 1 ++ leBytes 4 header.flags ++ leBytes 8 header.offset ++
    leBytes 8 header.virtualAddr ++ leBytes 8 header.virtualAddr ++ leBytes 8 header.fileSize ++
    leBytes 8 header.memSize ++ leBytes 8 0x1000 ++ data

def smallMachine : Machine where
  memory _ _ := .unused
  free := Finset.Icc 4 20
  supply call _ := some (call + 4)
  calls := 0

def smallSpace : Machine := (newUser 0 smallMachine).final.getD smallMachine

theorem smallSpace_created : newUser 0 smallMachine = .ok (some 4) smallSpace :=
  Outcome.eq_ok_of_value? (by decide +kernel) smallMachine

def emptyReading : TableReading := fun _ _ => .unused

def smallLoaded (input : List UInt8) : Machine :=
  (loadFile emptyReading readElf64 input 4 smallSpace).final.getD smallSpace

def smallHeader (flags : Nat) : ProgramHeader := ⟨0x400078, 120, 3, 5, flags⟩

def smallFile (flags : Nat) : List UInt8 := fileOf (smallHeader flags) [0xAA, 0xBB, 0xCC]

/-! ## One segment -/

namespace ProgramHeader

/-- The number of pages `load_seg` maps. -/
def pages (header : ProgramHeader) : Nat :=
  (header.virtualAddr % 4096 + header.memSize + 4095) / 4096

/-- The page is one of those `load_seg` maps. -/
def Covers (header : ProgramHeader) (page : Nat) : Prop :=
  header.virtualAddr / 4096 ≤ page ∧ page < header.virtualAddr / 4096 + header.pages

def leaf (header : ProgramHeader) : PageTableFlags :=
  MapFlags.leaf ⟨true, true, header.flags &&& 0x1 = 0, false⟩

end ProgramHeader

/-- What `load_seg` does to an address space. -/
structure LoadsSegment (pml4 : Frame) (header : ProgramHeader) (zeros bytes : Scribble)
    (before mapped zeroed after : Memory) : Prop where
  adds : AddsPages pml4 header.leaf (header.virtualAddr / 4096) header.pages before mapped
  zeros : Scribbles pml4 zeros (Touches header.virtualAddr 0 header.memSize) mapped zeroed
  copies : Scribbles pml4 bytes (Touches header.virtualAddr 0 header.fileSize) zeroed after

section Load

variable {κ : Type} {roots : Set Frame} {others : Outside κ} {hand : Multiset Frame}
  {machine : Machine} {pml4 : Frame} {inputLen : Nat} {header : ProgramHeader}

theorem loadSeg_loads {zeros bytes : Scribble} (owned : Owned roots others machine hand)
    (isRoot : pml4 ∈ roots)
    (user : header.virtualAddr + max header.memSize header.fileSize ≤ 2 ^ 47) :
    (loadSeg inputLen header pml4 zeros bytes machine).Meets
      (fun _ after => Owned roots others after hand ∧ ∃ mapped zeroed,
        LoadsSegment pml4 header zeros bytes machine.memory mapped zeroed after.memory)
      (fun _ _ => True) True := by
  have inMemory : header.virtualAddr + header.memSize ≤ 2 ^ 47 := by omega
  have inFile : header.virtualAddr + header.fileSize ≤ 2 ^ 47 := by omega
  have isFirst : (header.virtualAddr - header.virtualAddr % 4096) / 4096 =
      header.virtualAddr / 4096 := by omega
  rw [loadSeg]
  simp only [pageOffset_eq]
  split
  · have maps := owned.mapAnonLoop_view isRoot
      ⟨true, true, decide (header.flags &&& 1 = 0), false⟩ 0
      ((header.virtualAddr % 4096 + header.memSize + 4095) / 4096)
      (fun i inside => show header.virtualAddr - header.virtualAddr % 4096 + i * 4096 < 2 ^ 47 by
        omega)
    rw [isFirst, Nat.add_zero] at maps
    apply Outcome.Meets.bind maps.mapError
    intro _ mapped adds
    have writesZeros := adds.1.writeUserLoop_view zeros isRoot inMemory header.memSize 0 (by omega)
    apply Outcome.Meets.bind (writesZeros.mono (fun _ _ ok => ok) (fun _ _ _ => trivial)
      False.elim).mapError
    intro _ zeroed writtenZeros
    split
    · have writesBytes := writtenZeros.1.writeUserLoop_view bytes isRoot inFile header.fileSize 0
        (by omega)
      apply (writesBytes.mono (fun _ _ ok => ok) (fun _ _ _ => trivial) False.elim).mapError.mono _
        (fun _ _ => id) id
      intro _ after copied
      exact ⟨copied.1, mapped.memory, zeroed.memory, adds.2, writtenZeros.2, copied.2⟩
    · trivial
  · trivial

end Load

/-- The byte that the loader leaves at an address of a segment's pages. -/
def ProgramHeader.loadedByte (header : ProgramHeader) (input : List UInt8)
    (address : Nat) : UInt8 :=
  if header.virtualAddr ≤ address ∧ address < header.virtualAddr + header.fileSize then
    input.getD (header.offset + (address - header.virtualAddr)) 0
  else
    0

theorem ProgramHeader.covers_of_touches {header : ProgramHeader} {len page : Nat}
    (within : header.virtualAddr % 4096 + len ≤ header.pages * 4096)
    (touches : Touches header.virtualAddr 0 len page) : header.Covers page := by
  rcases touches with ⟨k, _, inside, isPage⟩
  unfold Covers
  omega

namespace LoadsSegment

variable {pml4 : Frame} {header : ProgramHeader} {zeros bytes : Scribble}
  {before mapped zeroed after : Memory}

theorem mapped_covered (loads : LoadsSegment pml4 header zeros bytes before mapped zeroed after)
    {page : Nat} (covers : header.Covers page) :
    pageView mapped pml4 page = some ⟨header.leaf, fun _ => .unused⟩ := by
  rw [loads.adds.view]
  exact if_pos covers

theorem mapped_uncovered (loads : LoadsSegment pml4 header zeros bytes before mapped zeroed after)
    {page : Nat} (uncovered : ¬ header.Covers page) :
    pageView mapped pml4 page = pageView before pml4 page := by
  rw [loads.adds.view]
  exact if_neg uncovered

theorem flags_scribbles {scribble : Scribble} {Touched : Nat → Prop}
    (scribbles : Scribbles pml4 scribble Touched before after) (page : Nat) :
    (pageView after pml4 page).map (·.flags) = (pageView before pml4 page).map (·.flags) := by
  by_cases touched : Touched page
  · rcases scribbles.touched page touched with ⟨view, isBefore, isAfter⟩
    rw [isBefore, isAfter]
    rfl
  · rw [scribbles.untouched page touched]

theorem flags (loads : LoadsSegment pml4 header zeros bytes before mapped zeroed after)
    (page : Nat) : (pageView after pml4 page).map (·.flags) =
      (pageView mapped pml4 page).map (·.flags) := by
  rw [flags_scribbles loads.copies, flags_scribbles loads.zeros]

end LoadsSegment

/-! ## All segments -/

/-- What the loader leaves of the headers, as far as `look` shows it: the pages of a segment
were not mapped before and look as `Shown` says, and no other page looks different. -/
structure Loads {γ : Type} (pml4 : Frame) (look : PageView → γ)
    (Shown : ProgramHeader → Nat → γ → Prop) (headers : List Header) (before after : Memory) :
    Prop where
  covered : ∀ header, .load64 header ∈ headers → ∀ page, header.Covers page →
    pageView before pml4 page = none ∧
      ∃ value, (pageView after pml4 page).map look = some value ∧ Shown header page value
  uncovered : ∀ page, (∀ header, .load64 header ∈ headers → ¬ header.Covers page) →
    (pageView after pml4 page).map look = (pageView before pml4 page).map look

theorem Loads.nil {γ : Type} (pml4 : Frame) (look : PageView → γ)
    (Shown : ProgramHeader → Nat → γ → Prop) (memory : Memory) :
    Loads pml4 look Shown [] memory memory where
  covered _ member := absurd member List.not_mem_nil
  uncovered _ _ := rfl

theorem Loads.skip {γ : Type} {pml4 : Frame} {look : PageView → γ}
    {Shown : ProgramHeader → Nat → γ → Prop} {headers : List Header} {before after : Memory}
    (loads : Loads pml4 look Shown headers before after) :
    Loads pml4 look Shown (.other :: headers) before after where
  covered header member page covers := by
    rcases List.mem_cons.mp member with impossible | later
    · cases impossible
    · exact loads.covered header later page covers
  uncovered page uncovered :=
    loads.uncovered page fun header later => uncovered header (List.mem_cons_of_mem _ later)

theorem Loads.cons {γ : Type} {pml4 : Frame} {look : PageView → γ}
    {Shown : ProgramHeader → Nat → γ → Prop} {header : ProgramHeader} {headers : List Header}
    {before middle after : Memory}
    (first : Loads pml4 look Shown [.load64 header] before middle)
    (rest : Loads pml4 look Shown headers middle after) :
    Loads pml4 look Shown (.load64 header :: headers) before after where
  covered other member page covers := by
    rcases List.mem_cons.mp member with isFirst | later
    · cases isFirst
      rcases first.covered header (List.mem_singleton.mpr rfl) page covers with
        ⟨unmapped, value, isValue, shown⟩
      refine ⟨unmapped, value, ?_, shown⟩
      rw [rest.uncovered page, isValue]
      intro other later covers
      rw [(rest.covered other later page covers).1] at isValue
      cases isValue
    · rcases rest.covered other later page covers with ⟨unmapped, shows⟩
      refine ⟨?_, shows⟩
      have same := first.uncovered page fun other member covers => by
        rcases first.covered other member page covers with ⟨_, value, isValue, _⟩
        rw [unmapped] at isValue
        cases isValue
      rw [unmapped, Option.map_none] at same
      exact Option.map_eq_none_iff.mp same.symm
  uncovered page uncovered := by
    rw [rest.uncovered page fun other later => uncovered other (List.mem_cons_of_mem _ later)]
    apply first.uncovered
    intro other member
    cases List.mem_singleton.mp member
    exact uncovered header List.mem_cons_self

theorem loadHeaders_loads {γ κ : Type} {roots : Set Frame} {others : Outside κ}
    {hand : Multiset Frame} {machine : Machine} {pml4 : Frame} {inputLen : Nat}
    {zeros bytes : ProgramHeader → Scribble} {look : PageView → γ}
    {Shown : ProgramHeader → Nat → γ → Prop} {headers : List Header}
    (owned : Owned roots others machine hand)
    (step : ∀ header, .load64 header ∈ headers → ∀ machine, Owned roots others machine hand →
      (loadSeg inputLen header pml4 (zeros header) (bytes header) machine).Meets
        (fun _ after => Owned roots others after hand ∧
          Loads pml4 look Shown [.load64 header] machine.memory after.memory)
        (fun _ _ => True) True) :
    (loadHeaders inputLen pml4 zeros bytes headers machine).Meets
      (fun _ after => Owned roots others after hand ∧
        Loads pml4 look Shown headers machine.memory after.memory)
      (fun _ _ => True) True := by
  induction headers generalizing machine with
  | nil => exact ⟨owned, .nil pml4 look Shown machine.memory⟩
  | cons header rest induction =>
    have stepRest := fun other later => step other (List.mem_cons_of_mem header later)
    cases header with
    | load64 header =>
      apply Outcome.Meets.bind (step header List.mem_cons_self machine owned)
      intro _ middle first
      apply (induction first.1 stepRest).mono _ (fun _ _ => id) id
      intro _ after loads
      exact ⟨loads.1, first.2.cons loads.2⟩
    | load32 => trivial
    | other =>
      apply (induction owned stepRest).mono _ (fun _ _ => id) id
      intro _ after loads
      exact ⟨loads.1, loads.2.skip⟩

theorem loadFile_ok {reading : TableReading} {parse : List UInt8 → Option ElfFile}
    {input : List UInt8} {elf : ElfFile} {pml4 : Frame} {fresh after : Machine} {entry : Nat}
    (parsed : parse input = some elf)
    (loaded : loadFile reading parse input pml4 fresh = .ok entry after) :
    entry = elf.entryPoint ∧
      loadHeaders input.length pml4 (zeroFill reading) (fileFill reading input) elf.headers fresh =
        .ok ⟨⟩ after := by
  rw [loadFile, parsed, Option.map_some, load] at loaded
  simp only [bind_apply] at loaded
  split at loaded
  · next ended =>
    cases loaded
    exact ⟨rfl, ended⟩
  · cases loaded
  · cases loaded

section Fresh

variable {kernelPml4 pml4 : Frame} {machine fresh : Machine}
  (created : newUser kernelPml4 machine = .ok (some pml4) fresh)

include created

theorem owned_fresh : Owned (insert pml4 ∅) ⟨fun _ : Empty => 0, ∅⟩ fresh 0 := by
  have none : Owned ∅ ⟨fun _ : Empty => 0, ∅⟩ machine 0 := .of_no_roots machine ∅ fun _ _ _ _ =>
    Set.notMem_empty _
  have owned := none.newUser kernelPml4
  rw [created] at owned
  exact owned

theorem pageView_fresh (page : Nat) : pageView fresh.memory pml4 page = none := by
  rw [pageView, pageMap_of_empty (newUser_empty created), Option.map_none]

theorem loadFile_loads {γ : Type} {look : PageView → γ} {Shown : ProgramHeader → Nat → γ → Prop}
    {reading : TableReading} {parse : List UInt8 → Option ElfFile} {input : List UInt8}
    {elf : ElfFile} {after : Machine} {entry : Nat} (parsed : parse input = some elf)
    (loaded : loadFile reading parse input pml4 fresh = .ok entry after)
    (step : ∀ header, .load64 header ∈ elf.headers → ∀ machine,
      Owned (insert pml4 ∅) ⟨fun _ : Empty => 0, ∅⟩ machine 0 →
      (loadSeg input.length header pml4 (zeroFill reading header) (fileFill reading input header)
        machine).Meets
        (fun _ after => Owned (insert pml4 ∅) ⟨fun _ : Empty => 0, ∅⟩ after 0 ∧
          Loads pml4 look Shown [.load64 header] machine.memory after.memory)
        (fun _ _ => True) True) :
    Owned (insert pml4 ∅) ⟨fun _ : Empty => 0, ∅⟩ after 0 ∧
      Loads pml4 look Shown elf.headers fresh.memory after.memory := by
  have runs := loadHeaders_loads (owned_fresh created) step
  rw [(loadFile_ok parsed loaded).2] at runs
  exact runs

end Fresh

/-! ## Rights -/

def ProgramHeader.InUserHalf (header : ProgramHeader) : Prop :=
  header.virtualAddr + max header.memSize header.fileSize ≤ 2 ^ 47

instance (header : ProgramHeader) : Decidable header.InUserHalf := by
  unfold ProgramHeader.InUserHalf
  infer_instance

theorem LoadsSegment.loads_bytes {reading : TableReading} {input : List UInt8} {pml4 : Frame}
    {header : ProgramHeader} {before mapped zeroed after : Memory}
    (loads : LoadsSegment pml4 header (zeroFill reading header) (fileFill reading input header)
      before mapped zeroed after) (within : header.fileSize ≤ header.memSize) :
    Loads pml4 (·.content)
      (fun header page content => ∀ offset < 4096,
        frameByte content offset = header.loadedByte input (page * 4096 + offset))
      [.load64 header] before after where
  covered other member page covers := by
    cases List.mem_singleton.mp member
    refine ⟨loads.adds.unmapped page covers.1 covers.2, ?_⟩
    have isMapped := loads.mapped_covered covers
    have isZero : ∃ view, pageView zeroed pml4 page = some view ∧
        ∀ offset, frameByte view.content offset = 0 := by
      by_cases touched : Touches header.virtualAddr 0 header.memSize page
      · rcases loads.zeros.touched page touched with ⟨view, wasMapped, isView⟩
        cases isMapped.symm.trans wasMapped
        refine ⟨_, isView, fun offset => ?_⟩
        simp only [zeroFill, writeRange, frameByte_frameOfBytes, frameByte_unused, ite_self]
      · refine ⟨_, (loads.zeros.untouched page touched).trans isMapped, fun offset => ?_⟩
        exact frameByte_unused offset
    rcases isZero with ⟨view, isZeroed, zero⟩
    by_cases touched : Touches header.virtualAddr 0 header.fileSize page
    · rcases loads.copies.touched page touched with ⟨_, wasZeroed, isView⟩
      cases isZeroed.symm.trans wasZeroed
      refine ⟨_, by rw [isView, Option.map_some], fun offset _ => ?_⟩
      simp only [fileFill, writeRange, frameByte_frameOfBytes, zero, ProgramHeader.loadedByte]
    · refine ⟨view.content, by rw [loads.copies.untouched page touched, isZeroed, Option.map_some],
        fun offset inPage => ?_⟩
      rw [zero, ProgramHeader.loadedByte, if_neg]
      intro inside
      exact touched ⟨page * 4096 + offset - header.virtualAddr, by omega, by omega, by omega⟩
  uncovered page uncovered := by
    have notHere := uncovered header (List.mem_singleton.mpr rfl)
    have covered : ∀ {len}, len ≤ header.memSize → ¬ Touches header.virtualAddr 0 len page := by
      intro len small touches
      apply notHere (ProgramHeader.covers_of_touches _ touches)
      unfold ProgramHeader.pages
      omega
    rw [loads.copies.untouched page (covered within),
      loads.zeros.untouched page (covered (le_refl _)), loads.mapped_uncovered notHere]

/-- The header describes a part of the file and of the user half. -/
structure ProgramHeader.WellFormed (header : ProgramHeader) (inputLen : Nat) : Prop where
  fits : header.fileSize ≤ header.memSize
  inFile : header.offset + header.fileSize ≤ inputLen
  inUserHalf : header.virtualAddr + header.memSize ≤ 2 ^ 47

theorem loadSeg_bytes {κ : Type} {roots : Set Frame} {others : Outside κ}
    {hand : Multiset Frame} {machine : Machine} {pml4 : Frame} {reading : TableReading}
    {input : List UInt8} {header : ProgramHeader} (owned : Owned roots others machine hand)
    (isRoot : pml4 ∈ roots) (wellFormed : header.WellFormed input.length) :
    (loadSeg input.length header pml4 (zeroFill reading header) (fileFill reading input header)
      machine).Meets
      (fun _ after => Owned roots others after hand ∧
        Loads pml4 (·.content)
          (fun header page content => ∀ offset < 4096,
            frameByte content offset = header.loadedByte input (page * 4096 + offset))
          [.load64 header] machine.memory after.memory)
      (fun _ _ => True) True := by
  have fits := wellFormed.fits
  have inUserHalf := wellFormed.inUserHalf
  apply (loadSeg_loads owned isRoot (by omega)).mono _ (fun _ _ => id) id
  intro _ after loaded
  rcases loaded with ⟨ownedAfter, mapped, zeroed, loads⟩
  exact ⟨ownedAfter, loads.loads_bytes fits⟩

/-- The address lies in the segment or before it in its first page. -/
def ProgramHeader.Reaches (header : ProgramHeader) (address : Nat) : Prop :=
  header.virtualAddr / 4096 * 4096 ≤ address ∧ address < header.virtualAddr + header.memSize

theorem ProgramHeader.covers_iff (header : ProgramHeader) (page : Nat) :
    header.Covers page ↔ ∃ address, header.Reaches address ∧ address / 4096 = page := by
  unfold Covers Reaches pages
  constructor
  · intro covers
    by_cases isFirst : page = header.virtualAddr / 4096
    · exact ⟨header.virtualAddr / 4096 * 4096, by omega, by omega⟩
    · exact ⟨page * 4096, by omega, by omega⟩
  · intro reaches
    rcases reaches with ⟨address, reaches, isPage⟩
    omega

/-- The image of a loaded program is the one its headers describe. -/
theorem loaded_image (reading : TableReading) (parse : List UInt8 → Option ElfFile)
    (input : List UInt8) (elf : ElfFile) (kernelPml4 pml4 : Frame)
    (machine fresh after : Machine) (entry : Nat)
    (created : newUser kernelPml4 machine = .ok (some pml4) fresh)
    (parsed : parse input = some elf)
    (wellFormed : ∀ header, .load64 header ∈ elf.headers → header.WellFormed input.length)
    (loaded : loadFile reading parse input pml4 fresh = .ok entry after) :
    entry = elf.entryPoint ∧
    (∀ virt < 2 ^ 47, (physForVirt after.memory pml4 virt).isSome = true ↔
      ∃ header, .load64 header ∈ elf.headers ∧
        ∃ address, header.Reaches address ∧ address / 4096 = virt / 4096) ∧
    (∀ header, .load64 header ∈ elf.headers →
      (∀ k < header.fileSize, userByte after.memory pml4 (header.virtualAddr + k) =
        input[header.offset + k]?) ∧
      ∀ k, header.fileSize ≤ k → k < header.memSize →
        userByte after.memory pml4 (header.virtualAddr + k) = some 0) ∧
    (∀ virt < 2 ^ 47, (physForVirt after.memory pml4 virt).isSome = true →
      (∀ header, .load64 header ∈ elf.headers →
        ¬ (header.virtualAddr ≤ virt ∧ virt < header.virtualAddr + header.memSize)) →
      userByte after.memory pml4 virt = some 0) := by
  have isRoot : pml4 ∈ insert pml4 (∅ : Set Frame) := Set.mem_insert _ _
  rcases loadFile_loads created parsed loaded fun header member _ owned =>
    loadSeg_bytes owned isRoot (wellFormed header member) with ⟨_, loads⟩
  have byteAt : ∀ header, .load64 header ∈ elf.headers → ∀ virt < 2 ^ 47,
      header.Covers (virt / 4096) →
      userByte after.memory pml4 virt = some (header.loadedByte input virt) := by
    intro header member virt low covers
    rcases (loads.covered header member _ covers).2 with ⟨content, isContent, shows⟩
    rcases Option.map_eq_some_iff.mp isContent with ⟨view, isView, rfl⟩
    have isByte := shows (virt % 4096) (Nat.mod_lt _ (by decide))
    have isVirt : virt / 4096 * 4096 + virt % 4096 = virt := by omega
    rw [userByte_eq low, isView, Option.map_some, isByte, isVirt]
  have mappedBy : ∀ virt < 2 ^ 47, (physForVirt after.memory pml4 virt).isSome = true ↔
      ∃ header, .load64 header ∈ elf.headers ∧ header.Covers (virt / 4096) := by
    intro virt low
    rw [physForVirt_eq low, Option.isSome_map, ← pageView_isSome]
    constructor
    · intro isMapped
      by_contra uncovered
      have same := loads.uncovered (virt / 4096) fun header member covers =>
        uncovered ⟨header, member, covers⟩
      rw [pageView_fresh created, Option.map_none, Option.map_eq_none_iff] at same
      rw [same] at isMapped
      cases isMapped
    · intro covered
      rcases covered with ⟨header, member, covers⟩
      rcases (loads.covered header member _ covers).2 with ⟨content, isContent, _⟩
      rcases Option.map_eq_some_iff.mp isContent with ⟨view, isView, _⟩
      rw [isView]
      rfl
  refine ⟨(loadFile_ok parsed loaded).1, ?_, ?_, ?_⟩
  · intro virt low
    rw [mappedBy virt low]
    simp only [ProgramHeader.covers_iff]
  · intro header member
    have formed := wellFormed header member
    have inside : ∀ k < header.memSize, userByte after.memory pml4 (header.virtualAddr + k) =
        some (header.loadedByte input (header.virtualAddr + k)) := by
      intro k small
      have low := formed.inUserHalf
      apply byteAt header member _ (by omega)
      exact (header.covers_iff _).mpr ⟨header.virtualAddr + k, ⟨by omega, by omega⟩, rfl⟩
    constructor
    · intro k small
      have fits := formed.fits
      have inFile := formed.inFile
      rw [inside k (by omega), ProgramHeader.loadedByte, if_pos (by omega), Nat.add_sub_cancel_left,
        List.getD_eq_getElem?_getD, List.getElem?_eq_getElem (by omega), Option.getD_some]
    · intro k behind small
      rw [inside k small, ProgramHeader.loadedByte, if_neg (by omega)]
  · intro virt low isMapped outside
    rcases (mappedBy virt low).mp isMapped with ⟨header, member, covers⟩
    have fits := (wellFormed header member).fits
    have notInside := outside header member
    rw [byteAt header member virt low covers, ProgramHeader.loadedByte, if_neg (by omega)]

theorem loaded_image_small :
    readElf64 (smallFile 6) = some ⟨0x400078, [.load64 (smallHeader 6)], 123⟩ ∧
      loadFile emptyReading readElf64 (smallFile 6) 4 smallSpace =
        .ok 0x400078 (smallLoaded (smallFile 6)) ∧
      userByte (smallLoaded (smallFile 6)).memory 4 0x40007A = some 0xCC ∧
      userByte (smallLoaded (smallFile 6)).memory 4 0x40007C = some 0 := by
  have parsed : readElf64 (smallFile 6) = some ⟨0x400078, [.load64 (smallHeader 6)], 123⟩ := by
    decide +kernel
  have loaded : loadFile emptyReading readElf64 (smallFile 6) 4 smallSpace =
      .ok 0x400078 (smallLoaded (smallFile 6)) :=
    Outcome.eq_ok_of_value? (by decide +kernel) smallSpace
  have image := loaded_image emptyReading readElf64 (smallFile 6) _ 0 4 smallMachine smallSpace
    _ _ smallSpace_created parsed
    (fun header member => by
      cases List.mem_singleton.mp member
      exact ⟨by decide, by decide +kernel, by decide⟩) loaded
  rcases image.2.2.1 (smallHeader 6) List.mem_cons_self with ⟨fromFile, beyond⟩
  have lastByte : (smallFile 6)[(smallHeader 6).offset + 2]? = some 0xCC := by decide
  exact ⟨parsed, loaded, (fromFile 2 (by decide)).trans lastByte, beyond 4 (by decide) (by decide)⟩

end PersonaOS.User
