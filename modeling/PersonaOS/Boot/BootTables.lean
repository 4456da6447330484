import PersonaOS.Boot.Personaboot
import PersonaOS.Mm.Translation

/-! # The page tables the kernel starts on

The bootloader's tables form a tree in frames that it has allocated. Seen through the tree, the
third level is an array of entries, each of which is unused, maps a page of 2 MiB or points to a
table of 4 KiB pages. -/

namespace PersonaOS.Boot

open Program Mm

def fourLevels : Radix.Region Nat where
  depth := 4
  top _ := True

abbrev follow (memory : Memory) (root : Frame) (path : List Nat) : Option Frame :=
  Radix.walk PageTableEntry.next memory root path

theorem follow_concat (memory : Memory) (root : Frame) (path : List Nat) (index : Nat) :
    follow memory root (path ++ [index]) =
      (follow memory root path).bind fun last => (memory last index).next :=
  Radix.walk_concat _ _ _ _ _

abbrev IsTable (memory : Memory) (root frame : Frame) : Prop :=
  Radix.IsNode PageTableEntry.next fourLevels memory {root} frame

theorem addresses_of_length {path : List Nat} (short : path.length < 4) :
    fourLevels.Addresses path :=
  ⟨⟨Nat.le_of_lt short, fun _ _ => trivial⟩, short⟩

theorem isTable_of_follow {memory : Memory} {root table : Frame} {path : List Nat}
    (short : path.length < 4) (reached : follow memory root path = some table) :
    IsTable memory root table :=
  ⟨root, rfl, path, addresses_of_length short, reached⟩

@[simp] theorem next_unused : PageTableEntry.unused.next = none := rfl

abbrev Slot := Nat × Nat × Nat

def slotOf (virt : Nat) : Slot := (pml4Idx virt, pdptIdx virt, pdIdx virt)

def slotPath (slot : Slot) : List Nat := [slot.1, slot.2.1, slot.2.2]

/-- The third-level entry of a slot; without a table there the slot is unused. -/
def pdEntry (memory : Memory) (root : Frame) (slot : Slot) : PageTableEntry :=
  match follow memory root [slot.1, slot.2.1] with
  | some pd => memory pd slot.2.2
  | none => .unused

def pointer (table : Frame) : PageTableEntry := ⟨table, writableFlags⟩

theorem pointer_ne_unused (table : Frame) : pointer table ≠ .unused := by
  intro same
  have present := congrArg (·.flags.present) same
  cases present

@[simp] theorem next_pointer (table : Frame) : (pointer table).next = some table := rfl

/-! ## Allocations -/

def Allocation.Covers (allocation : Allocation) (frame : Nat) : Prop :=
  allocation.base ≤ frame * 4096 ∧ frame * 4096 < allocation.base + allocation.pages * 4096

instance (allocation : Allocation) (frame : Nat) : Decidable (allocation.Covers frame) := by
  unfold Allocation.Covers
  infer_instance

def Taken (allocated : List Allocation) (frame : Nat) : Prop :=
  ∃ allocation ∈ allocated, allocation.Covers frame

def totalPages (allocated : List Allocation) : Nat := (allocated.map (·.pages)).sum

inductive Firmware.Gave (firmware : Firmware) : List Allocation → Prop
  | nil : firmware.Gave []
  | cons {allocated base pages} (purpose) :
      firmware.Gave allocated →
      firmware.allocatePages allocated pages = some base →
      firmware.Gave (⟨purpose, base, pages⟩ :: allocated)

/-- The firmware can give away `limit` pages, all of them in the lower half of the direct
map. -/
def Firmware.Generous (firmware : Firmware) (limit : Nat) : Prop :=
  ∀ allocated pages, firmware.Gave allocated → totalPages allocated + pages ≤ limit →
    ∃ base, firmware.allocatePages allocated pages = some base ∧ base < 2 ^ 46

/-- The tables at `pml4` show `view` at the third level. -/
structure Tree (memory : Memory) (pml4 : Frame) (view : Slot → PageTableEntry) : Prop where
  unshared : Radix.Unshared PageTableEntry.next fourLevels memory {pml4}
  /-- In the first two levels an entry is unused or points to a table. -/
  upper : ∀ path table index, path.length < 2 → follow memory pml4 path = some table →
    memory table index = .unused ∨ ∃ next, memory table index = pointer next
  shows : ∀ slot, pdEntry memory pml4 slot = view slot
  /-- A third-level entry that points to no table is unused or maps a page. -/
  middle : ∀ slot, view slot = .unused ∨ (view slot).flags.hugePage = true ∨
    ∃ next, view slot = pointer next

/-- The bootloader at work: its tables lie in allocated frames, the allocations go back to
`start`, and `left` more pages may be allocated within the limit. -/
structure Tables (firmware : Firmware) (start : List Allocation) (limit : Nat) (pml4 : Frame)
    (view : Slot → PageTableEntry) (left : Nat) (loader : Loader) : Prop where
  tree : Tree loader.memory pml4 view
  taken : ∀ table, IsTable loader.memory pml4 table → Taken loader.allocated table
  gave : firmware.Gave loader.allocated
  grown : start <:+ loader.allocated
  budget : totalPages loader.allocated + left ≤ limit

/-! ## Writing frames that are no tables -/

section Congr

variable {memory other : Memory} {pml4 : Frame} {view : Slot → PageTableEntry}
  (same : ∀ table, IsTable memory pml4 table → other table = memory table)

include same

theorem follow_congr {path : List Nat} (short : path.length ≤ 4) :
    follow other pml4 path = follow memory pml4 path := by
  apply Radix.walk_congr
  intro before index node within reached
  have shorter := within.length_le
  rw [List.length_append, List.length_singleton] at shorter
  rw [same node (isTable_of_follow (by omega) reached)]

theorem isTable_congr {table : Frame} (isTable : IsTable other pml4 table) :
    IsTable memory pml4 table := by
  rcases isTable with ⟨root, isRoot, path, addresses, reached⟩
  rw [Set.mem_singleton_iff.mp isRoot] at reached
  exact ⟨pml4, rfl, path, addresses, (follow_congr same addresses.1.1).symm.trans reached⟩

theorem Tree.congr (tree : Tree memory pml4 view) : Tree other pml4 view where
  unshared := tree.unshared.congr fun root isRoot path addresses => by
    rw [Set.mem_singleton_iff.mp isRoot]
    exact follow_congr same addresses.1.1
  upper := by
    intro path table index short reached
    rw [follow_congr same (by omega)] at reached
    rw [same table (isTable_of_follow (by omega) reached)]
    exact tree.upper path table index short reached
  shows := by
    intro slot
    rw [← tree.shows slot, pdEntry, pdEntry, follow_congr same (by simp)]
    split
    · next pd reached => rw [same pd (isTable_of_follow (by simp) reached)]
    · rfl
  middle := tree.middle

end Congr

section Steps

variable {firmware : Firmware} {start : List Allocation} {limit left : Nat} {pml4 : Frame}
  {view : Slot → PageTableEntry} {loader : Loader}

theorem writeFrames_of_isTable {first count : Nat} (contents : Nat → Nat → PageTableEntry)
    (unused : ∀ frame, first ≤ frame → frame < first + count → ¬IsTable loader.memory pml4 frame)
    (table : Frame) (isTable : IsTable loader.memory pml4 table) :
    (loader.writeFrames first count contents).memory table = loader.memory table :=
  if_neg fun inside => unused table inside.1 inside.2 isTable

theorem isTable_writeFrames {first count : Nat} (contents : Nat → Nat → PageTableEntry)
    (unused : ∀ frame, first ≤ frame → frame < first + count → ¬IsTable loader.memory pml4 frame)
    {table : Frame}
    (isTable : IsTable (loader.writeFrames first count contents).memory pml4 table) :
    IsTable loader.memory pml4 table :=
  isTable_congr (writeFrames_of_isTable contents unused) isTable

theorem Tables.writeFrames {first count : Nat} (contents : Nat → Nat → PageTableEntry)
    (tables : Tables firmware start limit pml4 view left loader)
    (unused : ∀ frame, first ≤ frame → frame < first + count → ¬IsTable loader.memory pml4 frame) :
    Tables firmware start limit pml4 view left (loader.writeFrames first count contents) where
  tree := tables.tree.congr (writeFrames_of_isTable contents unused)
  taken table isTable := tables.taken table (isTable_writeFrames contents unused isTable)
  gave := tables.gave
  grown := tables.grown
  budget := tables.budget

/-! ## Allocation -/

variable {panics : Prop}

theorem allocPages_spec (purpose : Purpose) (pages : Nat) (gave : firmware.Gave loader.allocated)
    (budget : totalPages loader.allocated + (left + pages) ≤ limit)
    (refused : ¬firmware.Generous limit → panics) :
    (allocPages firmware purpose pages loader).Meets
      (fun base after =>
        after = { loader with allocated := ⟨purpose, base, pages⟩ :: loader.allocated } ∧
        firmware.Gave after.allocated ∧ totalPages after.allocated + left ≤ limit ∧
        4096 ∣ base ∧ (firmware.Generous limit → base < 2 ^ 46) ∧
        ∀ frame, base / 4096 ≤ frame → frame < base / 4096 + pages → ¬Taken loader.allocated frame)
      (fun _ _ => False) panics := by
  unfold allocPages
  cases answers : firmware.allocatePages loader.allocated pages with
  | none =>
    apply refused
    intro generous
    rcases generous loader.allocated pages gave (by omega) with ⟨base, gives, _⟩
    rw [answers] at gives
    cases gives
  | some base =>
    refine ⟨rfl, .cons purpose gave answers, ?_, firmware.aligned answers, ?_, ?_⟩
    · simp only [totalPages, List.map_cons, List.sum_cons] at budget ⊢
      omega
    · intro generous
      rcases generous loader.allocated pages gave (by omega) with ⟨other, gives, small⟩
      rw [answers] at gives
      cases gives
      exact small
    · intro frame above below holds
      rcases holds with ⟨allocation, isAllocation, covers⟩
      have apart := firmware.apart answers allocation isAllocation
      have aligned := firmware.aligned answers
      unfold Allocation.Covers at covers
      omega

theorem Tables.allocPages (purpose : Purpose) (pages : Nat)
    (tables : Tables firmware start limit pml4 view (left + pages) loader)
    (refused : ¬firmware.Generous limit → panics) :
    (allocPages firmware purpose pages loader).Meets
      (fun base after => Tables firmware start limit pml4 view left after ∧
        after = { loader with allocated := ⟨purpose, base, pages⟩ :: loader.allocated } ∧
        4096 ∣ base ∧ (firmware.Generous limit → base < 2 ^ 46) ∧
        ∀ frame, base / 4096 ≤ frame → frame < base / 4096 + pages →
          ¬IsTable after.memory pml4 frame)
      (fun _ _ => False) panics := by
  apply (allocPages_spec purpose pages tables.gave tables.budget refused).mono _ (fun _ _ => id) id
  intro base after holds
  rcases holds with ⟨isAfter, gave, budget, aligned, small, fresh⟩
  subst isAfter
  refine ⟨⟨tables.tree, ?_, gave, ?_, budget⟩, rfl, aligned, small, ?_⟩
  · intro table isTable
    rcases tables.taken table isTable with ⟨allocation, isAllocation, covers⟩
    exact ⟨allocation, List.mem_cons_of_mem _ isAllocation, covers⟩
  · exact tables.grown.trans (List.suffix_cons _ _)
  · exact fun frame above below isTable => fresh frame above below (tables.taken frame isTable)

end Steps

/-! ## Writing entries -/

section Entries

variable {memory : Memory} {pml4 table fresh : Frame} {view : Slot → PageTableEntry}
  {path : List Nat} {index : Nat}

theorem Tree.ne_of_length (tree : Tree memory pml4 view) {other : Frame} {otherPath : List Nat}
    (short : path.length < 4) (reached : follow memory pml4 path = some table)
    (otherShort : otherPath.length < 4) (otherReached : follow memory pml4 otherPath = some other)
    (lengths : path.length ≠ otherPath.length) : table ≠ other := by
  intro same
  subst same
  have samePath := (tree.unshared rfl rfl (addresses_of_length short)
    (addresses_of_length otherShort) reached otherReached).2
  exact lengths (congrArg List.length samePath)

theorem pdEntry_of_follow {pd : Frame} {slot : Slot}
    (reached : follow memory pml4 [slot.1, slot.2.1] = some pd) :
    pdEntry memory pml4 slot = memory pd slot.2.2 := by
  rw [pdEntry, reached]

theorem pdEntry_of_none {slot : Slot} (absent : follow memory pml4 [slot.1, slot.2.1] = none) :
    pdEntry memory pml4 slot = .unused := by
  rw [pdEntry, absent]

theorem slotPath_eq_concat {slot : Slot} :
    path ++ [index] = slotPath slot ↔ path = [slot.1, slot.2.1] ∧ index = slot.2.2 := by
  rw [slotPath, ← List.concat_eq_append, List.concat_eq_append]
  constructor
  · intro same
    have split : path ++ [index] = [slot.1, slot.2.1] ++ [slot.2.2] := same
    have parts := List.append_inj' split rfl
    exact ⟨parts.1, List.singleton_inj.mp parts.2⟩
  · intro same
    rw [same.1, same.2]
    rfl

section Attach

variable (tree : Tree memory pml4 view) (short : path.length ≤ 2)
  (reached : follow memory pml4 path = some table) (vacant : memory table index = .unused)
  (unused : ¬IsTable memory pml4 fresh) (empty : ∀ position, memory fresh position = .unused)

include tree short reached vacant in
theorem follow_attach_of_some {other : Frame} {otherPath : List Nat}
    (otherShort : otherPath.length < 4)
    (otherReached : follow memory pml4 otherPath = some other) :
    follow (Radix.setEntry memory table index (pointer fresh)) pml4 otherPath = some other :=
  Radix.walk_attach_of_some tree.unshared rfl
    (addresses_of_length (by rw [List.length_append, List.length_singleton]; omega)) reached
    (by rw [vacant]; rfl) rfl (addresses_of_length otherShort).1 otherReached

include tree short reached unused empty in
theorem follow_attach_cases {other : Frame} {otherPath : List Nat}
    (otherShort : otherPath.length < 4)
    (otherReached :
      follow (Radix.setEntry memory table index (pointer fresh)) pml4 otherPath = some other) :
    follow memory pml4 otherPath = some other ∨ otherPath = path ++ [index] ∧ other = fresh := by
  have cases := Radix.walk_attach_cases tree.unshared rfl
    (addresses_of_length (by rw [List.length_append, List.length_singleton]; omega)) reached
    (next_pointer fresh) unused (fun position => by rw [empty]; rfl) rfl
    (addresses_of_length otherShort).1 otherReached
  rcases cases with isOld | ⟨_, isPath, isFresh⟩
  · exact Or.inl isOld
  · exact Or.inr ⟨isPath, isFresh⟩

include short reached unused empty in
theorem entry_attach_fresh (position : Nat) :
    Radix.setEntry memory table index (pointer fresh) fresh position = .unused := by
  rw [Radix.setEntry_of_ne, empty]
  intro same
  exact unused (same.1 ▸ isTable_of_follow (by omega) reached)

include tree short reached vacant unused empty in
theorem pdEntry_attach (slot : Slot) :
    pdEntry (Radix.setEntry memory table index (pointer fresh)) pml4 slot =
      if path ++ [index] = slotPath slot then pointer fresh else pdEntry memory pml4 slot := by
  have length : [slot.1, slot.2.1].length < 4 := by simp
  cases reachedNow : follow (Radix.setEntry memory table index (pointer fresh)) pml4
      [slot.1, slot.2.1] with
  | none =>
    have absent : follow memory pml4 [slot.1, slot.2.1] = none := by
      cases before : follow memory pml4 [slot.1, slot.2.1] with
      | none => rfl
      | some pd =>
        rw [follow_attach_of_some tree short reached vacant length before] at reachedNow
        cases reachedNow
    have elsewhere : ¬path ++ [index] = slotPath slot := by
      intro same
      rw [slotPath_eq_concat] at same
      rw [same.1, absent] at reached
      cases reached
    rw [pdEntry_of_none reachedNow, pdEntry_of_none absent, if_neg elsewhere]
  | some pd =>
    rw [pdEntry_of_follow reachedNow]
    rcases follow_attach_cases tree short reached unused empty length reachedNow with
      isOld | ⟨isPath, isFresh⟩
    · have samePath : pd = table ↔ path = [slot.1, slot.2.1] := by
        constructor
        · intro same
          subst same
          exact (tree.unshared rfl rfl (addresses_of_length (by omega))
            (addresses_of_length length) reached isOld).2
        · intro same
          rw [same, isOld] at reached
          exact Option.some.inj reached
      have here : pd = table ∧ slot.2.2 = index ↔ path ++ [index] = slotPath slot := by
        rw [slotPath_eq_concat, samePath, eq_comm (a := index)]
      rw [pdEntry_of_follow isOld, Radix.setEntry_apply]
      simp only [here]
    · have elsewhere : ¬path ++ [index] = slotPath slot := by
        intro same
        have lengths := congrArg List.length (isPath.trans same)
        simp [slotPath] at lengths
      have absent : follow memory pml4 [slot.1, slot.2.1] = none := by
        rw [isPath, follow_concat, reached]
        simp [vacant]
      rw [if_neg elsewhere, pdEntry_of_none absent, isFresh,
        entry_attach_fresh short reached unused empty]

include tree short reached vacant unused empty in
theorem Tree.attach : Tree (Radix.setEntry memory table index (pointer fresh)) pml4
    fun slot => if path ++ [index] = slotPath slot then pointer fresh else view slot where
  unshared := tree.unshared.attach rfl
    (addresses_of_length (by rw [List.length_append, List.length_singleton]; omega)) reached
    (next_pointer fresh) unused (fun position => by rw [empty]; rfl)
  upper := by
    intro otherPath other position otherShort otherReached
    rcases follow_attach_cases tree short reached unused empty (by omega) otherReached with
      isOld | ⟨_, isFresh⟩
    · rw [Radix.setEntry_apply]
      split
      · exact Or.inr ⟨fresh, rfl⟩
      · exact tree.upper otherPath other position otherShort isOld
    · rw [isFresh, entry_attach_fresh short reached unused empty]
      exact Or.inl rfl
  shows := by
    intro slot
    rw [pdEntry_attach tree short reached vacant unused empty, tree.shows]
  middle := by
    intro slot
    split
    · exact Or.inr (Or.inr ⟨fresh, rfl⟩)
    · exact tree.middle slot

include tree short reached unused empty in
theorem isTable_attach {other : Frame}
    (isTable : IsTable (Radix.setEntry memory table index (pointer fresh)) pml4 other) :
    IsTable memory pml4 other ∨ other = fresh := by
  rcases isTable with ⟨root, isRoot, otherPath, addresses, otherReached⟩
  rw [Set.mem_singleton_iff.mp isRoot] at otherReached
  rcases follow_attach_cases tree short reached unused empty addresses.2 otherReached with
    isOld | ⟨_, isFresh⟩
  · exact Or.inl ⟨pml4, rfl, otherPath, addresses, isOld⟩
  · exact Or.inr isFresh

end Attach

theorem Tree.setBigPage (slot : Slot) (entry : PageTableEntry) {pd : Frame}
    (tree : Tree memory pml4 view)
    (reached : follow memory pml4 [slot.1, slot.2.1] = some pd)
    (noTable : (view slot).next = none) (isBig : entry.flags.hugePage = true) :
    Tree (Radix.setEntry memory pd slot.2.2 entry) pml4 (Function.update view slot entry) ∧
      ∀ path, follow (Radix.setEntry memory pd slot.2.2 entry) pml4 path =
        follow memory pml4 path := by
  have length : [slot.1, slot.2.1].length < 4 := by simp
  have follows : ∀ path, follow (Radix.setEntry memory pd slot.2.2 entry) pml4 path =
      follow memory pml4 path := by
    intro path
    apply Radix.walk_setEntry_of_child_eq
    rw [← pdEntry_of_follow reached, tree.shows, noTable, PageTableEntry.next, if_pos isBig]
  refine ⟨?_, follows⟩
  exact
    { unshared := tree.unshared.congr fun root isRoot path _ => by
        rw [Set.mem_singleton_iff.mp isRoot]
        exact follows path
      upper := by
        intro path table index short tableReached
        rw [follows] at tableReached
        have different : table ≠ pd := tree.ne_of_length (by omega) tableReached length reached
          (by simp; omega)
        rw [Radix.setEntry_of_ne fun same => different same.1]
        exact tree.upper path table index short tableReached
      shows := by
        intro other
        by_cases same : other = slot
        · subst same
          rw [pdEntry_of_follow ((follows _).trans reached), Radix.setEntry_self,
            Function.update_self]
        · rw [Function.update_of_ne same, ← tree.shows, pdEntry, pdEntry, follows]
          split
          · next otherPd otherReached =>
            rw [Radix.setEntry_of_ne]
            intro here
            apply same
            rw [here.1] at otherReached
            have samePath := (tree.unshared rfl rfl (addresses_of_length (by simp))
              (addresses_of_length length) otherReached reached).2
            simp only [List.cons.injEq, and_true] at samePath
            exact Prod.ext samePath.1 (Prod.ext samePath.2 here.2)
          · rfl
      middle := by
        intro other
        by_cases same : other = slot
        · subst same
          rw [Function.update_self]
          exact Or.inr (Or.inl isBig)
        · rw [Function.update_of_ne same]
          exact tree.middle other }

theorem Tree.setPage (index : Nat) (entry : PageTableEntry) {pt : Frame}
    (tree : Tree memory pml4 view)
    (depth : path.length = 3) (reached : follow memory pml4 path = some pt) :
    Tree (Radix.setEntry memory pt index entry) pml4 view ∧
      ∀ other, other.length < 4 → follow (Radix.setEntry memory pt index entry) pml4 other =
        follow memory pml4 other := by
  have follows : ∀ other : List Nat, other.length < 4 →
      follow (Radix.setEntry memory pt index entry) pml4 other = follow memory pml4 other :=
    fun other short => Radix.walk_setEntry_last tree.unshared rfl (addresses_of_length (by omega))
      (by simp [fourLevels, depth]) reached rfl (addresses_of_length short)
  refine ⟨?_, follows⟩
  exact
    { unshared := tree.unshared.congr fun root isRoot path addresses => by
        rw [Set.mem_singleton_iff.mp isRoot]
        exact follows path addresses.2
      upper := by
        intro other table position short tableReached
        rw [follows other (by omega)] at tableReached
        have different : table ≠ pt := tree.ne_of_length (by omega) tableReached (by omega) reached
          (by omega)
        rw [Radix.setEntry_of_ne fun same => different same.1]
        exact tree.upper other table position short tableReached
      shows := by
        intro slot
        rw [← tree.shows, pdEntry, pdEntry, follows _ (by simp)]
        split
        · next pd pdReached =>
          have different : pd ≠ pt := tree.ne_of_length (by simp) pdReached (by omega) reached
            (by simp [depth])
          rw [Radix.setEntry_of_ne fun same => different same.1]
        · rfl
      middle := tree.middle }

end Entries

/-! ## The walk down -/

section Walk

variable {start : List Allocation} {limit left : Nat} {pml4 table : Frame}
  {view : Slot → PageTableEntry} {loader : Loader} {firmware : Firmware} {panics : Prop}

theorem Tables.ensureChild (path : List Nat) (index : Nat)
    (tables : Tables firmware start limit pml4 view (left + 1) loader)
    (refused : ¬firmware.Generous limit → panics) (short : path.length ≤ 2)
    (reached : follow loader.memory pml4 path = some table)
    (tidy : loader.memory table index = .unused ∨
      ∃ next, loader.memory table index = pointer next) :
    (ensureChild firmware table index loader).Meets
      (fun child after => follow after.memory pml4 (path ++ [index]) = some child ∧
        ∃ view', Tables firmware start limit pml4 view' left after ∧
          ∀ slot, view' slot = view slot ∨
            path ++ [index] = slotPath slot ∧ view' slot = pointer child)
      (fun _ _ => False) panics := by
  unfold Boot.ensureChild
  rw [get_bind_apply]
  rcases tidy with vacant | ⟨next, isPointer⟩
  · rw [if_pos vacant]
    apply Outcome.Meets.bind (tables.allocPages .pageTable 1 refused)
    intro base taken holds
    rcases holds with ⟨tables', isTaken, aligned, small, unused⟩
    subst isTaken
    rw [modify_bind_apply]
    have zeroed := tables'.writeFrames (fun _ _ => .unused) unused
    generalize isZeroed : Loader.writeFrames _ _ _ _ = current at zeroed ⊢
    have empty : ∀ position, current.memory (base / 4096) position = .unused := by
      intro position
      subst isZeroed
      simp [Loader.writeFrames]
    have same : ∀ table, IsTable loader.memory pml4 table →
        current.memory table = loader.memory table := by
      intro table isTable
      subst isZeroed
      exact if_neg fun inside => unused table inside.1 inside.2 isTable
    have reached' : follow current.memory pml4 path = some table :=
      (follow_congr same (by omega)).trans reached
    have vacant' : current.memory table index = .unused := by
      rw [same table (isTable_of_follow (by omega) reached), vacant]
    have unused' : ¬IsTable current.memory pml4 (base / 4096) := fun isTable =>
      unused _ (Nat.le_refl _) (by omega) (isTable_congr same isTable)
    have isAllocated : Taken current.allocated (base / 4096) := by
      subst isZeroed
      have covers : base ≤ base / 4096 * 4096 ∧ base / 4096 * 4096 < base + 1 * 4096 := by omega
      exact ⟨⟨.pageTable, base, 1⟩, List.mem_cons_self, covers⟩
    unfold setAddr
    split
    · simp only [modify_bind_apply, pure_apply]
      refine ⟨?_, _, ⟨zeroed.tree.attach short reached' vacant' unused' empty, ?_, zeroed.gave,
        zeroed.grown, zeroed.budget⟩, ?_⟩
      · exact Radix.walk_attach_self reached' (next_pointer _) zeroed.tree.unshared rfl
          (addresses_of_length (by rw [List.length_append, List.length_singleton]; omega))
      · intro other isTable
        rcases isTable_attach zeroed.tree short reached' unused' empty isTable with isOld | isNew
        · exact zeroed.taken other isOld
        · rw [isNew]
          exact isAllocated
      · intro slot
        split
        · next here => exact Or.inr ⟨here, rfl⟩
        · exact Or.inl rfl
    · next large =>
      apply refused
      intro generous
      have inHalf := small generous
      omega
  · have used : ¬loader.memory table index = .unused := by
      rw [isPointer]
      exact pointer_ne_unused next
    rw [if_neg used, isPointer]
    refine ⟨?_, view, ⟨tables.tree, tables.taken, tables.gave, tables.grown, ?_⟩,
      fun _ => Or.inl rfl⟩
    · rw [follow_concat, reached, Option.bind_some, isPointer]
      exact next_pointer next
    · have budget := tables.budget
      omega

theorem Tables.tidy_upper (path : List Nat) (index : Nat)
    (tables : Tables firmware start limit pml4 view left loader)
    (short : path.length < 2) (reached : follow loader.memory pml4 path = some table) :
    loader.memory table index = .unused ∨ ∃ next, loader.memory table index = pointer next :=
  tables.tree.upper path table index short reached

theorem Tables.walkToPd (virt : Nat)
    (tables : Tables firmware start limit pml4 view (left + 2) loader)
    (refused : ¬firmware.Generous limit → panics) :
    (walkToPd firmware pml4 virt loader).Meets
      (fun pd after => follow after.memory pml4 [pml4Idx virt, pdptIdx virt] = some pd ∧
        Tables firmware start limit pml4 view left after)
      (fun _ _ => False) panics := by
  have unchanged {view' : Slot → PageTableEntry} {path : List Nat} {index : Nat} {child : Frame}
      (short : path.length < 2)
      (agrees : ∀ slot, view' slot = view slot ∨
        path ++ [index] = slotPath slot ∧ view' slot = pointer child) : view' = view := by
    funext slot
    rcases agrees slot with same | ⟨here, _⟩
    · exact same
    · have lengths := congrArg List.length here
      simp only [List.length_append, slotPath, List.length_cons, List.length_nil] at lengths
      omega
  have top : ([] : List Nat).length < 2 := by decide
  have second : [pml4Idx virt].length < 2 := by simp
  unfold Boot.walkToPd
  apply Outcome.Meets.bind (tables.ensureChild [] _ refused (Nat.le_of_lt top) rfl
    (tables.tidy_upper [] _ top rfl))
  intro pdpt loader' holds
  rcases holds with ⟨reached, view', tables', agrees⟩
  rw [unchanged top agrees] at tables'
  have next := tables'.ensureChild [pml4Idx virt] (pdptIdx virt) refused (Nat.le_of_lt second)
    reached (tables'.tidy_upper _ _ second reached)
  apply next.mono _ (fun _ _ => id) id
  intro pd after holds
  rcases holds with ⟨reached, view', tables', agrees⟩
  rw [unchanged second agrees] at tables'
  exact ⟨reached, tables'⟩

def Accepts (virt phys : Nat) : Prop := virt < 2 ^ 64 ∧ Canonical virt ∧ phys < 2 ^ 52

def bigPage (phys : Nat) (flags : PageTableFlags) : PageTableEntry :=
  ⟨phys / 4096, { flags with hugePage := true }⟩

theorem Tables.mapPage2m {virt phys : Nat} {flags : PageTableFlags}
    (tables : Tables firmware start limit pml4 view (left + 2) loader)
    (refused : ¬firmware.Generous limit → panics) (rejected : ¬Accepts virt phys → panics)
    (noTable : (view (slotOf virt)).next = none) :
    (mapPage2m firmware pml4 virt phys flags loader).Meets
      (fun _ => Tables firmware start limit pml4
        (Function.update view (slotOf virt) (bigPage phys flags)) left)
      (fun _ _ => False) panics := by
  unfold Boot.mapPage2m
  split
  · next accepted =>
    apply Outcome.Meets.bind (tables.walkToPd virt refused)
    intro pd loader' holds
    rcases holds with ⟨reached, tables'⟩
    unfold setAddr
    split
    · have written := tables'.tree.setBigPage (slotOf virt) (bigPage phys flags) reached
        noTable rfl
      refine ⟨written.1, ?_, tables'.gave, tables'.grown, tables'.budget⟩
      intro table holds
      rcases holds with ⟨root, isRoot, path, addresses, tableReached⟩
      rw [Set.mem_singleton_iff.mp isRoot] at tableReached
      exact tables'.taken table
        ⟨pml4, rfl, path, addresses, (written.2 path).symm.trans tableReached⟩
    · next large => exact rejected fun accepts => large accepts.2.2
  · next refuses => exact rejected fun accepts => refuses ⟨accepts.1, accepts.2.1⟩

theorem Tables.mapPage4k {virt phys : Nat} {flags : PageTableFlags}
    (tables : Tables firmware start limit pml4 view (left + 3) loader)
    (refused : ¬firmware.Generous limit → panics) (rejected : ¬Accepts virt phys → panics)
    (noPage : (view (slotOf virt)).flags.hugePage = false) :
    (mapPage4k firmware pml4 virt phys flags loader).Meets
      (fun _ after => ∃ view', Tables firmware start limit pml4 view' left after ∧
        ∀ slot, view' slot = view slot ∨
          slot = slotOf virt ∧ (view' slot).flags.hugePage = false)
      (fun _ _ => False) panics := by
  unfold Boot.mapPage4k
  split
  · next accepted =>
    unfold walkToPt
    have walks : ((Boot.walkToPd firmware pml4 virt >>= fun pd =>
        Boot.ensureChild firmware pd (pdIdx virt)) loader).Meets
        (fun pt after => follow after.memory pml4 (slotPath (slotOf virt)) = some pt ∧
          ∃ view', Tables firmware start limit pml4 view' left after ∧
            ∀ slot, view' slot = view slot ∨
              slot = slotOf virt ∧ (view' slot).flags.hugePage = false)
        (fun _ _ => False) panics := by
      have budget : left + 3 = left + 1 + 2 := rfl
      rw [budget] at tables
      apply Outcome.Meets.bind (tables.walkToPd virt refused)
      intro pd loader' holds
      rcases holds with ⟨reached, tables'⟩
      have tidy : loader'.memory pd (pdIdx virt) = .unused ∨
          ∃ next, loader'.memory pd (pdIdx virt) = pointer next := by
        have shows := tables'.tree.shows (slotOf virt)
        rw [pdEntry_of_follow reached] at shows
        rcases tables'.tree.middle (slotOf virt) with vacant | isPage | ⟨next, isPointer⟩
        · exact Or.inl (shows.trans vacant)
        · rw [noPage] at isPage
          cases isPage
        · exact Or.inr ⟨next, shows.trans isPointer⟩
      apply (tables'.ensureChild [pml4Idx virt, pdptIdx virt] (pdIdx virt) refused (by simp)
        reached tidy).mono _ (fun _ _ => id) id
      intro pt after holds
      rcases holds with ⟨ptReached, view', tables', agrees⟩
      refine ⟨ptReached, view', tables', ?_⟩
      intro slot
      rcases agrees slot with same | ⟨here, isPointer⟩
      · exact Or.inl same
      · right
        rw [slotPath_eq_concat] at here
        simp only [List.cons.injEq, and_true] at here
        refine ⟨Prod.ext here.1.1.symm (Prod.ext here.1.2.symm here.2.symm), ?_⟩
        rw [isPointer]
        rfl
    apply Outcome.Meets.bind walks
    intro pt loader' holds
    rcases holds with ⟨reached, view', tables', agrees⟩
    unfold setAddr
    split
    · have written := tables'.tree.setPage (ptIdx virt) ⟨phys / 4096, flags⟩
        (by simp [slotPath]) reached
      refine ⟨view', ⟨written.1, ?_, tables'.gave, tables'.grown, tables'.budget⟩, agrees⟩
      intro table holds
      rcases holds with ⟨root, isRoot, path, addresses, tableReached⟩
      rw [Set.mem_singleton_iff.mp isRoot] at tableReached
      exact tables'.taken table
        ⟨pml4, rfl, path, addresses, (written.2 path addresses.2).symm.trans tableReached⟩
    · next large => exact rejected fun accepts => large accepts.2.2
  · next refuses => exact rejected fun accepts => refuses ⟨accepts.1, accepts.2.1⟩

end Walk

end PersonaOS.Boot
