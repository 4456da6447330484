import PersonaOS.Mm.Vmm

/-! # The shape of the page tables

The tables of the user halves of a set of address spaces form a forest of radix trees.
`Sound` is the invariant of that forest: no table is shared, intermediate entries
grant everything but user access, and user access wherever a user page lies below.
Intermediate tables only ever grow, so the four kinds of write the manager does
(widen an entry, zero a frame that is no table, attach it, write a leaf) are treated
here once, for any number of address spaces. -/

namespace PersonaOS.Mm

/-- The lower half of an address space: four levels, top-level indices below 256. -/
def userHalf : Radix.Region Nat where
  depth := 4
  top index := index < 256

/-- Follow the present entries of the tables below `root`. -/
abbrev walk (memory : Memory) (root : Frame) (path : List Nat) : Option Frame :=
  Radix.walk PageTableEntry.child memory root path

theorem walk_concat (memory : Memory) (root : Frame) (path : List Nat) (index : Nat) :
    walk memory root (path ++ [index]) =
      (walk memory root path).bind fun table => (memory table index).child :=
  Radix.walk_concat _ memory root path index

/-- The frame holds a user-half table of one of the address spaces. -/
abbrev IsTable (memory : Memory) (roots : Set Frame) (frame : Frame) : Prop :=
  Radix.IsNode PageTableEntry.child userHalf memory roots frame

/-! ## Pages -/

def tablePath (page : Nat) : List Nat :=
  [page / 2 ^ 27 % 512, page / 2 ^ 18 % 512, page / 2 ^ 9 % 512]

@[simp] theorem length_tablePath (page : Nat) : (tablePath page).length = 3 := by
  simp [tablePath]

theorem addresses_tablePath {page : Nat} (user : page < 2 ^ 35) :
    userHalf.Addresses (tablePath page) := by
  refine ⟨⟨by simp [userHalf], ?_⟩, by simp [userHalf]⟩
  intro index isFirst
  simp only [tablePath, List.head?_cons, Option.mem_some_iff] at isFirst
  change index < 256
  omega

theorem page_ext {page other : Nat} (user : page < 2 ^ 35) (otherUser : other < 2 ^ 35)
    (samePath : tablePath page = tablePath other) (sameIndex : page % 512 = other % 512) :
    page = other := by
  simp only [tablePath, List.cons.injEq, and_true] at samePath
  omega

def PageTableEntry.mapped (entry : PageTableEntry) : Option PageTableEntry :=
  if entry.flags.present then some entry else none

theorem PageTableEntry.mapped_eq_some {entry page : PageTableEntry} :
    entry.mapped = some page ↔ entry = page ∧ entry.flags.present = true := by
  unfold mapped
  split <;> simp_all

/-- The partial map from page numbers to (frame, leaf flags) that the tables below
`pml4` stand for. -/
def pageMap (memory : Memory) (pml4 : Frame) (page : Nat) : Option PageTableEntry :=
  if page < 2 ^ 35 then
    (walk memory pml4 (tablePath page)).bind fun pt => (memory pt (page % 512)).mapped
  else
    none

theorem pageMap_eq_some {memory : Memory} {pml4 : Frame} {page : Nat}
    {entry : PageTableEntry} :
    pageMap memory pml4 page = some entry ↔
      page < 2 ^ 35 ∧ ∃ pt, walk memory pml4 (tablePath page) = some pt ∧
        memory pt (page % 512) = entry ∧ entry.flags.present = true := by
  unfold pageMap
  split
  · next user =>
    simp only [user, true_and, Option.bind_eq_some_iff, PageTableEntry.mapped_eq_some]
    refine exists_congr fun pt => and_congr_right fun _ => and_congr_right fun same => ?_
    rw [same]
  · next notUser => exact ⟨nofun, fun mapped => absurd mapped.1 notUser⟩

/-! ## The invariant -/

structure Sound (memory : Memory) (roots : Set Frame) : Prop where
  unshared : Radix.Unshared PageTableEntry.child userHalf memory roots
  /-- Intermediate entries forbid neither writing nor execution. -/
  permissive : ∀ root ∈ roots, ∀ path index table,
    userHalf.Addresses (path ++ [index]) → walk memory root path = some table →
    (memory table index).flags.present = true →
    (memory table index).flags.writable = true ∧ (memory table index).flags.noExecute = false
  /-- All intermediate entries above a user page admit the user. -/
  admits : ∀ root ∈ roots, ∀ page entry,
    pageMap memory root page = some entry → entry.flags.userAccessible = true →
    ∀ path index table, path ++ [index] <+: tablePath page →
      walk memory root path = some table →
      (memory table index).flags.userAccessible = true

/-- What the growth of the intermediate tables leaves alone. -/
structure Grows (roots : Set Frame) (before after : Memory) : Prop where
  walks : ∀ root ∈ roots, ∀ path, userHalf.Spans path → ∀ frame,
    walk before root path = some frame → walk after root path = some frame
  pages : ∀ root ∈ roots, ∀ page, pageMap after root page = pageMap before root page
  /-- Intermediate entries lose no user access. -/
  admits : ∀ root ∈ roots, ∀ path index table, userHalf.Addresses (path ++ [index]) →
    walk before root path = some table → (before table index).flags.present = true →
    (before table index).flags.userAccessible = true →
    (after table index).flags.userAccessible = true

theorem Grows.refl (roots : Set Frame) (memory : Memory) : Grows roots memory memory where
  walks _ _ _ _ _ reached := reached
  pages _ _ _ := rfl
  admits _ _ _ _ _ _ _ _ user := user

theorem Grows.trans {roots : Set Frame} {first second third : Memory}
    (left : Grows roots first second) (right : Grows roots second third) :
    Grows roots first third where
  walks root isRoot path spans frame reached :=
    right.walks root isRoot path spans frame (left.walks root isRoot path spans frame reached)
  pages root isRoot page := (right.pages root isRoot page).trans (left.pages root isRoot page)
  admits root isRoot path index table addresses reached present user := by
    have kept := left.walks root isRoot path addresses.of_concat.1 table reached
    -- The entry is still present after the first change because the walk through it is.
    have onward := left.walks root isRoot (path ++ [index]) addresses.1
      (first table index).frame (by
        rw [walk_concat, reached]
        exact PageTableEntry.child_of_present present)
    rw [walk_concat, kept] at onward
    exact right.admits root isRoot path index table addresses kept
      (PageTableEntry.child_eq_some.mp onward).1
      (left.admits root isRoot path index table addresses reached present user)

/-! ## Widening an entry -/

section Widen

variable {memory : Memory} {roots : Set Frame} {root table : Frame} {path : List Nat}
  {index : Nat}

theorem Sound.pt_ne_of_addresses {pml4 pt : Frame} {page : Nat} (sound : Sound memory roots)
    (isRoot : root ∈ roots) (addresses : userHalf.Addresses (path ++ [index]))
    (reached : walk memory root path = some table)
    (pml4IsRoot : pml4 ∈ roots) (user : page < 2 ^ 35)
    (atPage : walk memory pml4 (tablePath page) = some pt) : pt ≠ table := by
  rintro rfl
  obtain ⟨-, rfl⟩ := sound.unshared isRoot pml4IsRoot addresses.of_concat
    (addresses_tablePath user) reached atPage
  have tooDeep := addresses.2
  simp [userHalf] at tooDeep

theorem Sound.leaf_setEntry {pml4 pt : Frame} {page : Nat} {entry : PageTableEntry}
    (sound : Sound memory roots)
    (isRoot : root ∈ roots) (addresses : userHalf.Addresses (path ++ [index]))
    (reached : walk memory root path = some table)
    (pml4IsRoot : pml4 ∈ roots) (user : page < 2 ^ 35)
    (atPage : walk memory pml4 (tablePath page) = some pt) :
    Radix.setEntry memory table index entry pt (page % 512) = memory pt (page % 512) :=
  Radix.setEntry_of_ne fun same =>
    sound.pt_ne_of_addresses isRoot addresses reached pml4IsRoot user atPage same.1

theorem walk_widen (memory : Memory) (table : Frame) (index : Nat)
    (interFlags : PageTableFlags) (present : (memory table index).flags.present = true)
    (root : Frame) (path : List Nat) :
    walk (Radix.setEntry memory table index
      { memory table index with flags := (memory table index).flags.union interFlags })
      root path = walk memory root path := by
  refine Radix.walk_setEntry_of_child_eq ?_ root path
  simp [PageTableEntry.child, PageTableFlags.union, present]

theorem Sound.grows_widen (sound : Sound memory roots) (interFlags : PageTableFlags)
    (isRoot : root ∈ roots)
    (addresses : userHalf.Addresses (path ++ [index]))
    (reached : walk memory root path = some table)
    (present : (memory table index).flags.present = true) :
    Grows roots memory (Radix.setEntry memory table index
      { memory table index with flags := (memory table index).flags.union interFlags }) where
  walks other otherIsRoot otherPath _ frame placed := by
    rw [walk_widen memory table index interFlags present, placed]
  pages pml4 pml4IsRoot page := by
    unfold pageMap
    rw [walk_widen memory table index interFlags present]
    split
    · next user =>
      cases atPage : walk memory pml4 (tablePath page) with
      | none => rfl
      | some pt =>
        simp only [Option.bind_some]
        rw [sound.leaf_setEntry isRoot addresses reached pml4IsRoot user atPage]
    · rfl
  admits other _ otherPath position place _ _ _ user := by
    by_cases here : place = table ∧ position = index
    · obtain ⟨rfl, rfl⟩ := here
      simp [PageTableFlags.union, user]
    · rw [Radix.setEntry_of_ne here, user]

theorem Sound.widen (sound : Sound memory roots) {interFlags : PageTableFlags}
    (isRoot : root ∈ roots)
    (addresses : userHalf.Addresses (path ++ [index]))
    (reached : walk memory root path = some table)
    (present : (memory table index).flags.present = true)
    (interExecutes : interFlags.noExecute = false) :
    Sound (Radix.setEntry memory table index
      { memory table index with flags := (memory table index).flags.union interFlags })
      roots where
  unshared := sound.unshared.congr fun other _ otherPath _ =>
    walk_widen memory table index interFlags present other otherPath
  permissive other otherIsRoot otherPath position place otherAddresses placed
      placePresent := by
    rw [walk_widen memory table index interFlags present] at placed
    by_cases here : place = table ∧ position = index
    · obtain ⟨rfl, rfl⟩ := here
      have old := sound.permissive other otherIsRoot otherPath position place otherAddresses
        placed present
      simp [PageTableFlags.union, old, interExecutes]
    · rw [Radix.setEntry_of_ne here] at placePresent ⊢
      exact sound.permissive other otherIsRoot otherPath position place otherAddresses placed
        placePresent
  admits pml4 pml4IsRoot page entry atPage user otherPath position place within placed := by
    have grows := sound.grows_widen interFlags isRoot addresses reached present
    rw [grows.pages pml4 pml4IsRoot page] at atPage
    rw [walk_widen memory table index interFlags present] at placed
    have old := sound.admits pml4 pml4IsRoot page entry atPage user otherPath position place
      within placed
    by_cases here : place = table ∧ position = index
    · obtain ⟨rfl, rfl⟩ := here
      simp [PageTableFlags.union, old]
    · rw [Radix.setEntry_of_ne here, old]

end Widen

/-! ## Overwriting a frame that is no table -/

section Overwrite

variable {memory : Memory} {roots : Set Frame} {frame : Frame} {entries : Nat → PageTableEntry}

theorem walk_overwrite (unused : ¬ IsTable memory roots frame) {root : Frame} {path : List Nat}
    (isRoot : root ∈ roots) (spans : userHalf.Spans path) :
    walk (Function.update memory frame entries) root path = walk memory root path :=
  Radix.walk_update_of_not_isNode unused isRoot spans

theorem entry_overwrite (unused : ¬ IsTable memory roots frame) {root table : Frame}
    {path : List Nat} (isRoot : root ∈ roots) (addresses : userHalf.Addresses path)
    (reached : walk memory root path = some table) :
    Function.update memory frame entries table = memory table := by
  refine Function.update_of_ne ?_ _ _
  rintro rfl
  exact unused ⟨root, isRoot, path, addresses, reached⟩

theorem isTable_overwrite (unused : ¬ IsTable memory roots frame) {table : Frame} :
    IsTable (Function.update memory frame entries) roots table ↔
      IsTable memory roots table := by
  refine exists_congr fun root => and_congr_right fun isRoot =>
    exists_congr fun path => and_congr_right fun addresses => ?_
  exact iff_of_eq (congrArg (· = some table) (walk_overwrite unused isRoot addresses.1))

theorem pageMap_overwrite (unused : ¬ IsTable memory roots frame) {root : Frame}
    (isRoot : root ∈ roots) (page : Nat) :
    pageMap (Function.update memory frame entries) root page =
      pageMap memory root page := by
  unfold pageMap
  split
  · next user =>
    have addresses := addresses_tablePath user
    rw [walk_overwrite unused isRoot addresses.1]
    cases atPage : walk memory root (tablePath page) with
    | none => rfl
    | some pt =>
      simp only [Option.bind_some]
      rw [entry_overwrite unused isRoot addresses atPage]
  · rfl

theorem grows_overwrite (unused : ¬ IsTable memory roots frame) :
    Grows roots memory (Function.update memory frame entries) where
  walks root isRoot path spans place reached := by
    rw [walk_overwrite unused isRoot spans, reached]
  pages root isRoot page := pageMap_overwrite unused isRoot page
  admits root isRoot path index table addresses reached _ user := by
    rw [entry_overwrite unused isRoot addresses.of_concat reached, user]

theorem Sound.overwrite (sound : Sound memory roots) (unused : ¬ IsTable memory roots frame) :
    Sound (Function.update memory frame entries) roots where
  unshared := sound.unshared.congr fun _ isRoot _ addresses =>
    walk_overwrite unused isRoot addresses.1
  permissive root isRoot path index table addresses reached present := by
    rw [walk_overwrite unused isRoot addresses.of_concat.1] at reached
    rw [entry_overwrite unused isRoot addresses.of_concat reached] at present ⊢
    exact sound.permissive root isRoot path index table addresses reached present
  admits root isRoot page entry atPage user path index table within reached := by
    rw [pageMap_overwrite unused isRoot] at atPage
    have addresses := (addresses_tablePath (pageMap_eq_some.mp atPage).1).1.addresses_initial within
    rw [walk_overwrite unused isRoot addresses.1] at reached
    rw [entry_overwrite unused isRoot addresses reached]
    exact sound.admits root isRoot page entry atPage user path index table within reached

end Overwrite

/-! ## Attaching a new table -/

theorem walk_prefix_of_pageMap {memory : Memory} {root : Frame} {page : Nat}
    {entry : PageTableEntry} {path : List Nat} (atPage : pageMap memory root page = some entry)
    (within : path <+: tablePath page) : ∃ table, walk memory root path = some table := by
  obtain ⟨-, pt, reached, -⟩ := pageMap_eq_some.mp atPage
  obtain ⟨rest, whole⟩ := within
  rw [← whole, walk, Radix.walk_append] at reached
  cases split : Radix.walk PageTableEntry.child memory root path with
  | none => simp [split] at reached
  | some table => exact ⟨table, split⟩

section Attach

variable {memory : Memory} {roots : Set Frame} {root table fresh : Frame} {path : List Nat}
  {index : Nat} {interFlags : PageTableFlags}
  (sound : Sound memory roots) (isRoot : root ∈ roots)
  (addresses : userHalf.Addresses (path ++ [index]))
  (reached : walk memory root path = some table)
  (vacant : (memory table index).flags.present = false)
  (unused : ¬ IsTable memory roots fresh)
  (empty : ∀ position, memory fresh position = .unused)
  (interPresent : interFlags.present = true)

include sound isRoot addresses reached unused empty interPresent in
theorem walk_attach_cases {other place : Frame} {otherPath : List Nat}
    (otherIsRoot : other ∈ roots) (spans : userHalf.Spans otherPath)
    (placed : walk (Radix.setEntry memory table index ⟨fresh, interFlags⟩) other otherPath =
      some place) :
    walk memory other otherPath = some place ∨
      other = root ∧ otherPath = path ++ [index] ∧ place = fresh :=
  Radix.walk_attach_cases sound.unshared isRoot addresses reached
    (PageTableEntry.child_of_present interPresent) unused
    (fun position => by rw [empty]; rfl) otherIsRoot spans placed

include sound isRoot addresses reached vacant in
theorem walk_attach_of_some {other place : Frame} {otherPath : List Nat}
    (otherIsRoot : other ∈ roots) (spans : userHalf.Spans otherPath)
    (placed : walk memory other otherPath = some place) :
    walk (Radix.setEntry memory table index ⟨fresh, interFlags⟩) other otherPath =
      some place :=
  Radix.walk_attach_of_some sound.unshared isRoot addresses reached
    (PageTableEntry.child_of_absent vacant) otherIsRoot spans placed

include isRoot addresses reached unused empty in
theorem entry_attach_fresh (position : Nat) :
    Radix.setEntry memory table index ⟨fresh, interFlags⟩ fresh position = .unused := by
  rw [Radix.setEntry_of_ne, empty]
  rintro ⟨rfl, -⟩
  exact unused ⟨root, isRoot, path, addresses.of_concat, reached⟩

include sound isRoot addresses reached vacant unused empty interPresent in
theorem pageMap_attach {pml4 : Frame} (pml4IsRoot : pml4 ∈ roots) (page : Nat) :
    pageMap (Radix.setEntry memory table index ⟨fresh, interFlags⟩) pml4 page =
      pageMap memory pml4 page := by
  refine Option.ext fun entry => ?_
  rw [pageMap_eq_some, pageMap_eq_some]
  refine and_congr_right fun user => ⟨?_, ?_⟩
  · rintro ⟨pt, atPage, isEntry, present⟩
    rcases walk_attach_cases sound isRoot addresses reached unused empty interPresent
      pml4IsRoot (addresses_tablePath user).1 atPage with old | ⟨rfl, -, rfl⟩
    · rw [sound.leaf_setEntry isRoot addresses reached pml4IsRoot user old] at isEntry
      exact ⟨pt, old, isEntry, present⟩
    · rw [entry_attach_fresh isRoot addresses reached unused empty] at isEntry
      subst isEntry
      cases present
  · rintro ⟨pt, atPage, isEntry, present⟩
    refine ⟨pt, walk_attach_of_some sound isRoot addresses reached vacant pml4IsRoot
      (addresses_tablePath user).1 atPage, ?_, present⟩
    rw [sound.leaf_setEntry isRoot addresses reached pml4IsRoot user atPage, isEntry]

include sound isRoot addresses reached vacant unused empty interPresent in
theorem Sound.grows_attach :
    Grows roots memory (Radix.setEntry memory table index ⟨fresh, interFlags⟩) where
  walks other otherIsRoot otherPath spans place placed :=
    walk_attach_of_some sound isRoot addresses reached vacant otherIsRoot spans placed
  pages pml4 pml4IsRoot page :=
    pageMap_attach sound isRoot addresses reached vacant unused empty interPresent
      pml4IsRoot page
  admits other _ otherPath position place _ _ present user := by
    rw [Radix.setEntry_of_ne, user]
    rintro ⟨rfl, rfl⟩
    rw [vacant] at present
    cases present

include sound isRoot addresses reached vacant unused empty interPresent in
theorem Sound.attach (interWrites : interFlags.writable = true)
    (interExecutes : interFlags.noExecute = false) :
    Sound (Radix.setEntry memory table index ⟨fresh, interFlags⟩) roots where
  unshared := sound.unshared.attach isRoot addresses reached
    (PageTableEntry.child_of_present interPresent) unused (fun position => by rw [empty]; rfl)
  permissive other otherIsRoot otherPath position place otherAddresses placed
      placePresent := by
    rcases walk_attach_cases sound isRoot addresses reached unused empty interPresent
      otherIsRoot otherAddresses.of_concat.1 placed with old | ⟨rfl, -, rfl⟩
    · by_cases here : place = table ∧ position = index
      · obtain ⟨rfl, rfl⟩ := here
        simp [interWrites, interExecutes]
      · rw [Radix.setEntry_of_ne here] at placePresent ⊢
        exact sound.permissive other otherIsRoot otherPath position place otherAddresses old
          placePresent
    · rw [entry_attach_fresh isRoot addresses reached unused empty] at placePresent
      cases placePresent
  admits pml4 pml4IsRoot page entry atPage user otherPath position place within placed := by
    rw [pageMap_attach sound isRoot addresses reached vacant unused empty interPresent
      pml4IsRoot] at atPage
    have pageAddresses := addresses_tablePath (pageMap_eq_some.mp atPage).1
    have otherAddresses := pageAddresses.1.addresses_initial within
    -- The walk to a mapped page does not pass through the entry that was vacant.
    have onward : ∀ {place}, walk memory pml4 otherPath = some place →
        (memory place position).flags.present = true := by
      intro place placed
      obtain ⟨next, reachedNext⟩ := walk_prefix_of_pageMap atPage within
      rw [walk_concat, placed] at reachedNext
      exact (PageTableEntry.child_eq_some.mp reachedNext).1
    rcases walk_attach_cases sound isRoot addresses reached unused empty interPresent
      pml4IsRoot otherAddresses.1 placed with old | ⟨rfl, rfl, rfl⟩
    · rw [Radix.setEntry_of_ne]
      · exact sound.admits pml4 pml4IsRoot page entry atPage user otherPath position place
          within old
      · rintro ⟨rfl, rfl⟩
        rw [onward old] at vacant
        cases vacant
    · obtain ⟨next, reachedNext⟩ :=
        walk_prefix_of_pageMap atPage ((List.prefix_append _ _).trans within)
      rw [walk_concat, reached] at reachedNext
      rw [(PageTableEntry.child_eq_some.mp reachedNext).1] at vacant
      cases vacant

end Attach

/-! ## Writing a leaf -/

section Leaf

variable {memory : Memory} {roots : Set Frame} {pml4 pt : Frame} {page : Nat}
  {leaf : PageTableEntry}
  (sound : Sound memory roots) (isRoot : pml4 ∈ roots) (user : page < 2 ^ 35)
  (atPage : walk memory pml4 (tablePath page) = some pt)

include sound isRoot user atPage in
theorem walk_setLeaf {root : Frame} {path : List Nat} (otherIsRoot : root ∈ roots)
    (addresses : userHalf.Addresses path) :
    walk (Radix.setEntry memory pt (page % 512) leaf) root path = walk memory root path :=
  Radix.walk_setEntry_last sound.unshared isRoot (addresses_tablePath user) rfl atPage
    otherIsRoot addresses

include sound isRoot user atPage in
theorem isTable_setLeaf {frame : Frame} :
    IsTable (Radix.setEntry memory pt (page % 512) leaf) roots frame ↔
      IsTable memory roots frame := by
  refine exists_congr fun root => and_congr_right fun otherIsRoot =>
    exists_congr fun path => and_congr_right fun addresses => ?_
  exact iff_of_eq (congrArg (· = some frame)
    (walk_setLeaf sound isRoot user atPage otherIsRoot addresses))

include sound isRoot user atPage in
theorem entry_setLeaf {root table : Frame} {path : List Nat} {index : Nat}
    (otherIsRoot : root ∈ roots) (addresses : userHalf.Addresses (path ++ [index]))
    (reached : walk memory root path = some table) (position : Nat) :
    Radix.setEntry memory pt (page % 512) leaf table position = memory table position :=
  Radix.setEntry_of_ne fun same =>
    sound.pt_ne_of_addresses otherIsRoot addresses reached isRoot user atPage same.1.symm

include sound isRoot user atPage in
theorem pageMap_setLeaf {root : Frame} (otherIsRoot : root ∈ roots) (other : Nat) :
    pageMap (Radix.setEntry memory pt (page % 512) leaf) root other =
      if root = pml4 ∧ other = page then leaf.mapped else pageMap memory root other := by
  unfold pageMap
  by_cases otherUser : other < 2 ^ 35
  · rw [if_pos otherUser, if_pos otherUser,
      walk_setLeaf sound isRoot user atPage otherIsRoot (addresses_tablePath otherUser)]
    by_cases here : root = pml4 ∧ other = page
    · obtain ⟨rfl, rfl⟩ := here
      simp [atPage]
    · rw [if_neg here]
      cases otherAt : walk memory root (tablePath other) with
      | none => rfl
      | some place =>
        simp only [Option.bind_some]
        rw [Radix.setEntry_of_ne]
        rintro ⟨rfl, sameIndex⟩
        obtain ⟨sameRoot, samePath⟩ := sound.unshared otherIsRoot isRoot
          (addresses_tablePath otherUser) (addresses_tablePath user) otherAt atPage
        exact here ⟨sameRoot, page_ext otherUser user samePath sameIndex⟩
  · have different : ¬ (root = pml4 ∧ other = page) := fun same => otherUser (same.2 ▸ user)
    rw [if_neg otherUser, if_neg otherUser, if_neg different]

include sound isRoot user atPage in
theorem Sound.setLeaf
    (admits : leaf.flags.present = true → leaf.flags.userAccessible = true →
      ∀ path index table, path ++ [index] <+: tablePath page →
        walk memory pml4 path = some table →
        (memory table index).flags.userAccessible = true) :
    Sound (Radix.setEntry memory pt (page % 512) leaf) roots where
  unshared := sound.unshared.congr fun _ otherIsRoot _ addresses =>
    walk_setLeaf sound isRoot user atPage otherIsRoot addresses
  permissive root otherIsRoot path index table addresses reached present := by
    rw [walk_setLeaf sound isRoot user atPage otherIsRoot addresses.of_concat] at reached
    rw [entry_setLeaf sound isRoot user atPage otherIsRoot addresses reached] at present ⊢
    exact sound.permissive root otherIsRoot path index table addresses reached present
  admits root otherIsRoot other entry otherAt userEntry path index table within reached := by
    have otherUser := (pageMap_eq_some.mp otherAt).1
    have tableAddresses := addresses_tablePath otherUser
    have addresses := tableAddresses.1.addresses_initial within
    have inner := tableAddresses.of_initial within
    rw [walk_setLeaf sound isRoot user atPage otherIsRoot addresses] at reached
    rw [entry_setLeaf sound isRoot user atPage otherIsRoot inner reached]
    rw [pageMap_setLeaf sound isRoot user atPage otherIsRoot] at otherAt
    split at otherAt
    · next here =>
      obtain ⟨rfl, rfl⟩ := here
      obtain ⟨rfl, present⟩ := PageTableEntry.mapped_eq_some.mp otherAt
      exact admits present userEntry path index table within reached
    · exact sound.admits root otherIsRoot other entry otherAt userEntry path index table
        within reached

end Leaf

end PersonaOS.Mm
