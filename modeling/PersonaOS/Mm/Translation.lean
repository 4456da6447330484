import PersonaOS.Mm.PageMap

/-! # What the processor translates

To translate an address the processor reads one entry in each table on the way down, until an
entry is absent or maps a page. At the last level every present entry does, at the two levels
above it one with the huge-page bit. -/

namespace PersonaOS.Mm

/-- The index of `virt` in a table `level` levels above the last. -/
def levelIdx (virt level : Nat) : Nat := virt / 2 ^ (12 + 9 * level) % 512

theorem levelIdx_top (virt : Nat) : levelIdx virt 3 = pml4Idx virt :=
  (index_eq virt 39).symm

def PageTableEntry.next (entry : PageTableEntry) : Option Frame :=
  if entry.flags.hugePage then none else entry.child

theorem PageTableEntry.child_of_next {entry : PageTableEntry} {frame : Frame}
    (goesOn : entry.next = some frame) : entry.child = some frame := by
  unfold next at goesOn
  split at goesOn
  · cases goesOn
  · exact goesOn

/-- The entries read to translate `virt`, from a table `level` levels above the last on. -/
def slots (memory : Memory) (virt : Nat) : (level : Nat) → (table : Frame) → List (Frame × Nat)
  | 0, table => [(table, levelIdx virt 0)]
  | level + 1, table =>
    (table, levelIdx virt (level + 1)) ::
      match (memory table (levelIdx virt (level + 1))).next with
      | some next => slots memory virt level next
      | none => []

structure Translation where
  phys : Nat
  rights : Rights
  writeThrough : Bool
  noCache : Bool
  deriving DecidableEq, Repr

/-- The translation of `virt` by the entries on the way down. The huge-page bit is
reserved in a top-level entry, which then translates nothing. -/
def Translation.ofEntries (virt : Nat) (entries : List PageTableEntry) : Option Translation := do
  let last ← entries.getLast?
  if last.flags.present ∧ 1 < entries.length then
    return {
      phys := last.frame * 4096 + virt % 2 ^ (12 + 9 * (4 - entries.length))
      rights := (entries.map (·.flags.rights)).foldl Rights.meet ⟨true, true, false⟩
      writeThrough := last.flags.writeThrough
      noCache := last.flags.noCache }
  else
    none

def translate (memory : Memory) (pml4 : Frame) (virt : Nat) : Option Translation :=
  Translation.ofEntries virt ((slots memory virt 3 pml4).map fun slot => memory slot.1 slot.2)

section Congr

variable {memory other : Memory} {virt level : Nat} {table : Frame}

theorem slots_congr
    (same : ∀ slot ∈ slots memory virt level table, other slot.1 slot.2 = memory slot.1 slot.2) :
    slots other virt level table = slots memory virt level table := by
  induction level generalizing table with
  | zero => rfl
  | succ level induction =>
    unfold slots at same ⊢
    have here : other table (levelIdx virt (level + 1)) =
        memory table (levelIdx virt (level + 1)) :=
      same (table, levelIdx virt (level + 1)) List.mem_cons_self
    rw [here]
    cases goesOn : (memory table (levelIdx virt (level + 1))).next with
    | none => rfl
    | some next =>
      rw [goesOn] at same
      simp only
      rw [induction fun slot below => same slot (List.mem_cons_of_mem _ below)]

theorem translate_congr
    (same : ∀ slot ∈ slots memory virt 3 table, other slot.1 slot.2 = memory slot.1 slot.2) :
    translate other table virt = translate memory table virt := by
  unfold translate
  rw [slots_congr same, List.map_congr_left same]

theorem translate_of_same_entry {root : Frame}
    (same : memory root (levelIdx virt 3) = memory table (levelIdx virt 3)) :
    translate memory root virt = translate memory table virt := by
  have cons : ∀ top, slots memory virt 3 top = (top, levelIdx virt 3) ::
      match (memory top (levelIdx virt 3)).next with
      | some next => slots memory virt 2 next
      | none => [] := fun _ => rfl
  unfold translate
  rw [cons root, cons table, List.map_cons, List.map_cons, same]

end Congr

def UpperHalf (virt : Nat) : Prop := 256 ≤ pml4Idx virt

theorem UpperHalf.index {virt : Nat} (upper : UpperHalf virt) :
    256 ≤ levelIdx virt 3 ∧ levelIdx virt 3 < 512 := by
  rw [levelIdx_top]
  refine ⟨upper, ?_⟩
  rw [← levelIdx_top]
  exact Nat.mod_lt _ (by decide)

theorem isTable_of_slot {memory : Memory} {root table : Frame} {virt level : Nat}
    {path : List Nat} (lower : pml4Idx virt < 256) (depth : path.length + level = 3)
    (addresses : userHalf.Addresses path) (reached : walk memory root path = some table)
    {slot : Frame × Nat} (isRead : slot ∈ slots memory virt level table) :
    IsTable memory {root} slot.1 := by
  induction level generalizing path table with
  | zero =>
    rw [List.mem_singleton.mp isRead]
    exact ⟨root, rfl, path, addresses, reached⟩
  | succ level induction =>
    rcases List.mem_cons.mp isRead with isHere | isBelow
    · rw [isHere]
      exact ⟨root, rfl, path, addresses, reached⟩
    · cases goesOn : (memory table (levelIdx virt (level + 1))).next with
      | none =>
        rw [goesOn] at isBelow
        exact absurd isBelow List.not_mem_nil
      | some next =>
        rw [goesOn] at isBelow
        have onward : walk memory root (path ++ [levelIdx virt (level + 1)]) = some next := by
          rw [walk_concat, reached]
          exact PageTableEntry.child_of_next goesOn
        have longer : (path ++ [levelIdx virt (level + 1)]).length + level = 3 := by
          rw [List.length_append, List.length_singleton]
          omega
        apply induction longer _ onward isBelow
        refine ⟨⟨?_, ?_⟩, ?_⟩
        · simp only [userHalf]
          omega
        · intro first isFirst
          cases path with
          | nil =>
            obtain rfl : level = 2 := by simpa using depth
            obtain rfl : levelIdx virt 3 = first := by simpa using isFirst
            rw [levelIdx_top]
            exact lower
          | cons head rest => exact addresses.1.2 first isFirst
        · simp only [userHalf]
          omega

end PersonaOS.Mm
