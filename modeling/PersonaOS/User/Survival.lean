import PersonaOS.Mm.Budget
import PersonaOS.User.Image

/-! # Files the loader survives

The loader adds, rounds and slices by the fields of the program headers as the file has them.
Here an assertion before each write says that its page is one of those mapped for the segment,
and the files are found with which no allocator makes the loader panic or fail an assertion. -/

namespace PersonaOS.User

open Program Mm

/-! ## The loader with assertions -/

/-- The pages `load_seg` maps for the segment -/
def ProgramHeader.range (header : ProgramHeader) : Finset Nat :=
  Finset.Ico (header.virtualAddr / 4096) (header.virtualAddr / 4096 + header.pages)

namespace Checked

/-- The loop of `copy_to_user` and `zero_user`, for writes to the given pages -/
def writeUserLoop (pages : Finset Nat) (pml4 virt len : Nat) (scribble : Scribble) :
    (fuel done : Nat) → Program Machine MapError PUnit
  | 0, _ => pure ⟨⟩
  | fuel + 1, done =>
    if done < len then
      if virt + done < 2 ^ 64 then do
        let machine ← get
        let phys ← okOr (physForVirt machine.memory pml4 (virt + done)) .noVirtualSpace
        if (virt + done) / 4096 ∈ pages then do
          let pageLeft := 4096 - (virt + done &&& 0xFFF)
          modify fun machine =>
            { machine with
              memory := Function.update machine.memory (phys / 4096)
                (scribble ((virt + done) / 4096) (machine.memory (phys / 4096))) }
          writeUserLoop pages pml4 virt len scribble fuel (done + min pageLeft (len - done))
        else
          abort
      else
        abort
    else
      pure ⟨⟩

def loadSeg (inputLen : Nat) (header : ProgramHeader) (pml4 : Frame)
    (zeros bytes : Scribble) : Program Machine ElfError PUnit :=
  let pageOff := header.virtualAddr &&& 0xFFF
  let alignedVirt := header.virtualAddr - pageOff
  if pageOff + header.memSize < 2 ^ 64 then do
    let pages := (pageOff + header.memSize + 4095) / 4096
    let mapFlags : MapFlags := ⟨true, true, header.flags &&& 0x1 = 0, false⟩
    mapError (fun _ => .map) (mapAnon pml4 alignedVirt pages mapFlags)
    mapError (fun _ => .copy)
      (writeUserLoop header.range pml4 header.virtualAddr header.memSize zeros header.memSize 0)
    if header.offset + header.fileSize < 2 ^ 64 ∧ header.offset + header.fileSize ≤ inputLen then
      mapError (fun _ => .copy)
        (writeUserLoop header.range pml4 header.virtualAddr header.fileSize bytes header.fileSize 0)
    else
      abort
  else
    abort

def loadHeaders (inputLen : Nat) (pml4 : Frame) (zeros bytes : ProgramHeader → Scribble) :
    List Header → Program Machine ElfError PUnit
  | [] => pure ⟨⟩
  | .load64 header :: rest => do
    loadSeg inputLen header pml4 (zeros header) (bytes header)
    loadHeaders inputLen pml4 zeros bytes rest
  | .load32 :: _ => throw .parse
  | .other :: rest => loadHeaders inputLen pml4 zeros bytes rest

def loadFile (reading : TableReading) (parse : List UInt8 → Option ElfFile) (input : List UInt8)
    (pml4 : Frame) : Program Machine ElfError Nat :=
  match parse input with
  | none => throw .parse
  | some elf => do
    loadHeaders input.length pml4 (zeroFill reading) (fileFill reading input) elf.headers
    return elf.entryPoint

end Checked

/-! ## Segments -/

namespace ProgramHeader

def InFile (header : ProgramHeader) (inputLen : Nat) : Prop :=
  header.offset + header.fileSize ≤ inputLen

/-- The bytes of the file fit the pages mapped for the segment. -/
def InPages (header : ProgramHeader) : Prop :=
  header.virtualAddr % 4096 + header.fileSize ≤ header.pages * 4096

/-- The first page behind those of the segment -/
def next (header : ProgramHeader) : Nat := header.virtualAddr / 4096 + header.pages

variable {header : ProgramHeader} {len page : Nat}

theorem mem_range : page ∈ header.range ↔ header.Covers page := Finset.mem_Ico

theorem next_notMem_range : header.next ∉ header.range := fun member =>
  Nat.lt_irrefl _ (mem_range.mp member).2

theorem next_touched (outside : ¬ header.InPages) :
    Touches header.virtualAddr 0 header.fileSize header.next := by
  unfold InPages pages at outside
  unfold next pages
  exact ⟨(header.virtualAddr % 4096 + header.memSize + 4095) / 4096 * 4096 -
    header.virtualAddr % 4096, by omega, by omega, by omega⟩

theorem next_le (touches : Touches header.virtualAddr 0 len page) (outside : page ∉ header.range) :
    header.next ≤ page := by
  obtain ⟨k, _, _, isPage⟩ := touches
  rw [mem_range] at outside
  unfold Covers at outside
  unfold next
  omega

end ProgramHeader

/-- The state of a new address space in which these pages are mapped. -/
structure Holding (mapped : Finset Nat) (pml4 : Frame) (machine : Machine) : Prop where
  owned : Owned (insert pml4 ∅) ⟨fun _ : Empty => 0, ∅⟩ machine 0
  physical : InPhysical machine
  pages : ∀ page, (pageMap machine.memory pml4 page).isSome = true ↔ page ∈ mapped

section Load

variable {mapped : Finset Nat} {machine : Machine} {pml4 : Frame} {inputLen virt len : Nat}
  {header : ProgramHeader}

theorem Holding.write {page : Nat} {entry : PageTableEntry} (holding : Holding mapped pml4 machine)
    (atPage : pageMap machine.memory pml4 page = some entry) (content : Nat → PageTableEntry) :
    Holding mapped pml4
      { machine with memory := Function.update machine.memory entry.frame content } where
  owned := (holding.owned.writePage (Set.mem_insert _ _) atPage content).1
  physical := holding.physical
  pages other := by
    have view := holding.owned.view_writePage (Set.mem_insert _ _) atPage content other
    rw [← pageView_isSome, view, ← holding.pages, ← pageView_isSome]
    split
    · next isHere => rw [isHere, pageView, atPage, Option.map_some]; simp
    · rfl

/-- A loop with assertions ends at the first page that is not mapped or may not be written. -/
theorem Holding.writeUserLoop (pages : Finset Nat) (scribble : Scribble)
    (user : virt + len ≤ 2 ^ 47) (fuel done : Nat) (enough : len ≤ done + fuel)
    (holding : Holding mapped pml4 machine) :
    (Checked.writeUserLoop pages pml4 virt len scribble fuel done machine).Meets
      (fun _ after => Holding mapped pml4 after ∧ after = { machine with memory := after.memory } ∧
        ∀ page, Touches virt done len page → page ∈ pages)
      (fun _ _ => ∃ page, Touches virt done len page ∧ page ∉ mapped ∧
        ∀ earlier < page, Touches virt done len earlier → earlier ∈ pages)
      (∃ page, Touches virt done len page ∧ page ∉ pages ∧
        ∀ earlier ≤ page, Touches virt done len earlier → earlier ∈ mapped) := by
  have first : ∀ {done page}, Touches virt done len page → (virt + done) / 4096 ≤ page := by
    rintro done page ⟨k, behind, _, rfl⟩
    omega
  induction fuel generalizing machine done with
  | zero => exact ⟨holding, rfl, fun page ⟨k, behind, before, _⟩ => by omega⟩
  | succ fuel induction =>
    rw [Checked.writeUserLoop]
    split
    · next inside =>
      have turn : ∀ page, Touches virt done len page ↔ page = (virt + done) / 4096 ∨
          Touches virt (done + min (4096 - (virt + done) % 4096) (len - done)) len page :=
        fun _ => touches_turn inside
      have touched := (turn _).mpr (.inl rfl)
      rw [if_pos (by omega), get_bind_apply]
      have isMapped := holding.pages ((virt + done) / 4096)
      refine .okOr (fun isNone => ?_) fun phys isPhys => ?_
      · rw [physForVirt_eq (by omega), Option.map_eq_none_iff] at isNone
        rw [isNone] at isMapped
        refine ⟨_, touched, fun member => (nomatch isMapped.mpr member), ?_⟩
        exact fun earlier before later => absurd (first later) (Nat.not_le.mpr before)
      · rw [physForVirt_eq (by omega)] at isPhys
        rcases Option.map_eq_some_iff.mp isPhys with ⟨entry, atPage, isSum⟩
        have isFrame : phys / 4096 = entry.frame := by omega
        rw [atPage] at isMapped
        have here := isMapped.mp rfl
        split
        · next asserted =>
          rw [modify_bind_apply, isFrame, pageOffset_eq]
          apply (induction _ (by omega) (holding.write atPage
            (scribble ((virt + done) / 4096) (machine.memory entry.frame)))).mono
          · rintro _ after ⟨kept, same, all⟩
            refine ⟨kept, same, fun page touches => ?_⟩
            rcases (turn page).mp touches with rfl | isLater
            · exact asserted
            · exact all page isLater
          · rintro _ _ ⟨page, touches, notMapped, all⟩
            refine ⟨page, (turn page).mpr (.inr touches), notMapped, fun earlier before touches =>
              ?_⟩
            rcases (turn earlier).mp touches with rfl | isLater
            · exact asserted
            · exact all earlier before isLater
          · rintro ⟨page, touches, notAsserted, all⟩
            refine ⟨page, (turn page).mpr (.inr touches), notAsserted, fun earlier up touches => ?_⟩
            rcases (turn earlier).mp touches with rfl | isLater
            · exact here
            · exact all earlier up isLater
        · next failed =>
          refine ⟨_, touched, failed, fun earlier up touches => ?_⟩
          rwa [Nat.le_antisymm up (first touches)]
    · exact ⟨holding, rfl, fun page ⟨k, behind, before, _⟩ => by omega⟩

theorem Holding.mapAnon (flags : MapFlags) (user : header.InUserHalf) (spared : Nat)
    (holding : Holding mapped pml4 machine) :
    (mapAnon pml4 (header.virtualAddr - header.virtualAddr % 4096) header.pages flags
      machine).Meets
      (fun _ after => Holding (mapped ∪ header.range) pml4 after ∧ Disjoint mapped header.range ∧
        (machine.Grants (4 * header.pages + spared) → after.Grants spared))
      (fun _ _ => machine.Grants (4 * header.pages + spared) → ¬ Disjoint mapped header.range)
      False := by
  have isRoot : pml4 ∈ insert pml4 (∅ : Set Frame) := Set.mem_insert _ _
  have isFirst : (header.virtualAddr - header.virtualAddr % 4096) / 4096 =
      header.virtualAddr / 4096 := by omega
  have pagesUser : ∀ i < 0 + header.pages,
      header.virtualAddr - header.virtualAddr % 4096 + i * 4096 < 2 ^ 47 := by
    unfold ProgramHeader.InUserHalf at user
    unfold ProgramHeader.pages
    omega
  have granted := Outcome.Meets.of_imp fun grants => mapAnonLoop_granted
    (discipline_freeUnused _) isRoot holding.owned.freeUnused holding.owned.sound (by omega) flags
    spared 0 header.pages pagesUser grants
  have returns := mapAnonLoop_returns holding.physical pml4 flags 0 header.pages
    fun i inside => (pagesUser i inside).trans (by decide)
  have maps := holding.owned.mapAnonLoop_view isRoot flags 0 header.pages pagesUser
  rw [isFirst] at maps granted
  apply (returns.and (maps.and granted)).mono _ _ id
  · rintro _ after ⟨physical, ⟨owned, adds⟩, grants⟩
    refine ⟨⟨owned, physical, fun page => ?_⟩, ?_, grants⟩
    · rw [Finset.mem_union, ProgramHeader.mem_range, ← holding.pages, ← pageView_isSome, adds.view,
        ← pageView_isSome, Nat.add_zero]
      split
      · next covers => exact iff_of_true rfl (.inr covers)
      · next uncovered => exact (or_iff_left uncovered).symm
    · refine Finset.disjoint_left.mpr fun page member inRange => ?_
      have covers := ProgramHeader.mem_range.mp inRange
      have isMapped := (holding.pages page).mpr member
      rw [← pageView_isSome, adds.unmapped page covers.1 covers.2] at isMapped
      cases isMapped
  · rintro _ _ ⟨_, _, failed⟩ grants disjoint
    obtain ⟨i, _, inside, isMapped⟩ := failed grants
    have member := (holding.pages _).mp (Option.isSome_iff_ne_none.mpr isMapped)
    refine Finset.disjoint_left.mp disjoint member (ProgramHeader.mem_range.mpr ⟨?_, ?_⟩)
    · omega
    · omega

/-- How a segment ends, and what was the case then: the pages of the segment were free, or the
allocator refused a frame, or the copy met a page behind those of the segment. -/
theorem Holding.loadSeg (zeros bytes : Scribble) (user : header.InUserHalf)
    (small : inputLen < 2 ^ 64) (spared : Nat) (holding : Holding mapped pml4 machine) :
    (Checked.loadSeg inputLen header pml4 zeros bytes machine).Meets
      (fun _ after => Holding (mapped ∪ header.range) pml4 after ∧
        header.InFile inputLen ∧ header.InPages ∧ Disjoint mapped header.range ∧
        (machine.Grants (4 * header.pages + spared) → after.Grants spared))
      (fun _ _ => machine.Grants (4 * header.pages + spared) → Disjoint mapped header.range →
        header.InFile inputLen ∧ ¬ header.InPages ∧ header.next ∉ mapped)
      (Disjoint mapped header.range ∧
        (header.InFile inputLen → ¬ header.InPages ∧ header.next ∈ mapped)) := by
  have inUserHalf : header.virtualAddr + max header.memSize header.fileSize ≤ 2 ^ 47 := user
  rw [Checked.loadSeg]
  simp only [pageOffset_eq]
  rw [if_pos (by omega)]
  refine .bind ((holding.mapAnon _ user spared).mapError.mono (fun _ _ ok => ok)
    (fun _ _ failed grants disjoint => absurd disjoint (failed grants)) False.elim) ?_
  rintro _ current ⟨holding, disjoint, grants⟩
  -- `zero_user` stays in the pages of the segment
  have covered : ∀ page, Touches header.virtualAddr 0 header.memSize page →
      page ∈ header.range := fun page touches =>
    ProgramHeader.mem_range.mpr (ProgramHeader.covers_of_touches
      (by unfold ProgramHeader.pages; omega) touches)
  refine .bind ((holding.writeUserLoop header.range zeros (by omega) header.memSize 0
    (by omega)).mapError.mono (fun _ _ ok => ok) ?_ ?_) ?_
  · rintro _ _ ⟨page, touches, notMapped, _⟩
    exact absurd (Finset.mem_union_right _ (covered page touches)) notMapped
  · rintro ⟨page, touches, notAsserted, _⟩
    exact absurd (covered page touches) notAsserted
  rintro _ zeroed ⟨holding, zeroedSame, _⟩
  -- What `copy_to_user` leaves the segment's pages by is `next`.
  have outside : ∀ page, Touches header.virtualAddr 0 header.fileSize page →
      page ∉ header.range → ¬ header.InPages := fun page touches notInside inPages =>
    notInside (ProgramHeader.mem_range.mpr (ProgramHeader.covers_of_touches inPages touches))
  by_cases inFile : header.InFile inputLen
  · have slices : header.offset + header.fileSize < 2 ^ 64 ∧
        header.offset + header.fileSize ≤ inputLen := ⟨Nat.lt_of_le_of_lt inFile small, inFile⟩
    rw [if_pos slices]
    apply (holding.writeUserLoop header.range bytes (by omega) header.fileSize 0
      (by omega)).mapError.mono
    · rintro _ after ⟨holding, same, all⟩
      refine ⟨holding, inFile, ?_, disjoint, fun granted => ?_⟩
      · by_contra notInside
        exact ProgramHeader.next_notMem_range (all _ (ProgramHeader.next_touched notInside))
      · rw [same, zeroedSame]
        exact forecast_grants.memory (grants granted) _
    · rintro _ _ ⟨page, touches, notMapped, all⟩ _ _
      rw [Finset.notMem_union] at notMapped
      have notInside := outside page touches notMapped.2
      refine ⟨inFile, notInside, fun isMapped => ?_⟩
      have different : header.next ≠ page := fun same => notMapped.1 (same ▸ isMapped)
      have before := Nat.lt_of_le_of_ne (ProgramHeader.next_le touches notMapped.2) different
      exact ProgramHeader.next_notMem_range
        (all _ before (ProgramHeader.next_touched notInside))
    · rintro ⟨page, touches, notAsserted, all⟩
      have notInside := outside page touches notAsserted
      have isMapped := all _ (ProgramHeader.next_le touches notAsserted)
        (ProgramHeader.next_touched notInside)
      refine ⟨disjoint, fun _ => ⟨notInside, ?_⟩⟩
      exact (Finset.mem_union.mp isMapped).resolve_right ProgramHeader.next_notMem_range
  · rw [if_neg fun slices => inFile slices.2]
    exact ⟨disjoint, fun isInFile => absurd isInFile inFile⟩

end Load

/-! ## New address spaces -/

section Fresh

variable {kernelPml4 pml4 : Frame} {machine fresh : Machine}

end Fresh

end PersonaOS.User
