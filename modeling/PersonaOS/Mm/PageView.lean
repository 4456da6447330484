import PersonaOS.Mm.Spares

/-! # Pages and what they hold

An address space as its owner sees it: for each page the flags of its mapping and the
contents of its frame. Since a frame has one owner, mapping new pages leaves the contents of
the old ones alone, and writing to one page is seen in no other. -/

namespace PersonaOS.Mm

open Program

/-- A mapped page: its flags, and its frame read as a page table. -/
@[ext] structure PageView where
  flags : PageTableFlags
  content : Nat → PageTableEntry

def pageView (memory : Memory) (pml4 : Frame) (page : Nat) : Option PageView :=
  (pageMap memory pml4 page).map fun entry => ⟨entry.flags, memory entry.frame⟩

theorem pageView_isSome (memory : Memory) (pml4 : Frame) (page : Nat) :
    (pageView memory pml4 page).isSome = (pageMap memory pml4 page).isSome := by
  rw [pageView, Option.isSome_map]

section Owned

variable {κ : Type} {roots : Set Frame} {others : Outside κ} {machine after : Machine}
  {hand : Multiset Frame} {pml4 frame : Frame} {virt : Nat}

theorem Owned.unwritten {place : Place κ} (owned : Owned roots others machine hand)
    (accounts : Accounts roots machine after) (there : Holds roots others machine hand place frame)
    (notFree : place ≠ .free) (notTable : place ≠ .table) :
    after.memory frame = machine.memory frame := by
  funext index
  by_contra changed
  rcases accounts.writes frame index changed with supplied | isTable
  · exact notFree (owned.exclusive place .free frame there (owned.holds_of_supplies supplied))
  · exact notTable (owned.exclusive place .table frame there isTable.1)

theorem Owned.view_intoPage {number : Nat} {flags : PageTableFlags}
    (owned : Owned roots others machine (frame ::ₘ hand)) (isRoot : pml4 ∈ roots)
    (accounts : Accounts roots machine after)
    (changes : ChangesPage roots pml4 number (some ⟨frame, flags⟩) machine after) (page : Nat) :
    pageView after.memory pml4 page =
      if page = number then some ⟨flags, machine.memory frame⟩
      else pageView machine.memory pml4 page := by
  rw [pageView, changes pml4 isRoot page]
  by_cases here : page = number
  · have isHeld : Holds roots others machine (frame ::ₘ hand) .hand frame :=
      Multiset.mem_cons_self _ _
    have kept := owned.unwritten accounts isHeld (by intro same; cases same)
      (by intro same; cases same)
    rw [if_pos ⟨rfl, here⟩, if_pos here, Option.map_some, kept]
  · rw [if_neg (fun both => here both.2), if_neg here, pageView]
    apply Option.map_congr
    intro entry atPage
    have isPage : Holds roots others machine (frame ::ₘ hand) (.page pml4 page) entry.frame :=
      ⟨isRoot, by rw [atPage]; rfl⟩
    rw [owned.unwritten accounts isPage (by intro same; cases same) (by intro same; cases same)]

theorem Owned.view_writePage {number : Nat} {entry : PageTableEntry}
    (owned : Owned roots others machine hand) (isRoot : pml4 ∈ roots)
    (atPage : pageMap machine.memory pml4 number = some entry)
    (content : Nat → PageTableEntry) (page : Nat) :
    pageView (Function.update machine.memory entry.frame content) pml4 page =
      if page = number then some ⟨entry.flags, content⟩ else pageView machine.memory pml4 page := by
  have isPage : Holds roots others machine hand (.page pml4 number) entry.frame :=
    ⟨isRoot, by rw [atPage]; rfl⟩
  have notTable : ¬ IsTable machine.memory roots entry.frame :=
    fun isTable => nomatch owned.exclusive _ .table _ isPage isTable
  rw [pageView, pageMap_overwrite notTable isRoot]
  split
  · next here => rw [here, atPage, Option.map_some, Function.update_self]
  · next different =>
    rw [pageView]
    apply Option.map_congr
    intro other atOther
    have isOther : Holds roots others machine hand (.page pml4 page) other.frame :=
      ⟨isRoot, by rw [atOther]; rfl⟩
    have apart : other.frame ≠ entry.frame := by
      intro same
      rw [same] at isOther
      cases owned.exclusive _ _ _ isOther isPage
      exact different rfl
    rw [Function.update_of_ne apart]

theorem Owned.view_overwrite (owned : Owned roots others machine hand) (isRoot : pml4 ∈ roots)
    (supplied : machine.Supplies frame) (content : Nat → PageTableEntry) (page : Nat) :
    pageView (Function.update machine.memory frame content) pml4 page =
      pageView machine.memory pml4 page := by
  rw [pageView, pageMap_overwrite (owned.freeUnused frame supplied) isRoot, pageView]
  apply Option.map_congr
  intro entry atPage
  have isPage : Holds roots others machine hand (.page pml4 page) entry.frame :=
    ⟨isRoot, by rw [atPage]; rfl⟩
  have apart : entry.frame ≠ frame := by
    intro same
    rw [same] at isPage
    exact nomatch owned.exclusive _ .free _ isPage (owned.holds_of_supplies supplied)
  rw [Function.update_of_ne apart]

/-! ## Mapping fresh pages -/

/-- The pages of a range have been added, all empty; none of them was mapped before. -/
structure AddsPages (pml4 : Frame) (flags : PageTableFlags) (first pages : Nat)
    (before after : Memory) : Prop where
  view : ∀ page, pageView after pml4 page =
    if first ≤ page ∧ page < first + pages then some ⟨flags, fun _ => .unused⟩
    else pageView before pml4 page
  unmapped : ∀ page, first ≤ page → page < first + pages → pageView before pml4 page = none

theorem AddsPages.cons {flags : PageTableFlags} {first pages : Nat} {start next last : Memory}
    (view : ∀ page, pageView next pml4 page =
      if page = first then some ⟨flags, fun _ => .unused⟩ else pageView start pml4 page)
    (unmapped : pageView start pml4 first = none)
    (rest : AddsPages pml4 flags (first + 1) pages next last) :
    AddsPages pml4 flags first (pages + 1) start last where
  view page := by
    rw [rest.view, view]
    by_cases isFirst : page = first
    · rw [if_neg (by omega), if_pos isFirst, if_pos (by omega)]
    · rw [if_neg isFirst]
      by_cases inside : first + 1 ≤ page ∧ page < first + 1 + pages
      · rw [if_pos inside, if_pos (by omega)]
      · rw [if_neg inside, if_neg (by omega)]
  unmapped page behind before := by
    by_cases isFirst : page = first
    · rw [isFirst, unmapped]
    · have absent := rest.unmapped page (by omega) (by omega)
      rwa [view, if_neg isFirst] at absent

theorem Owned.mapAnonLoop_view (owned : Owned roots others machine hand) (isRoot : pml4 ∈ roots)
    (flags : MapFlags) (done pages : Nat) (user : ∀ i < done + pages, virt + i * 4096 < 2 ^ 47) :
    (Mm.mapAnonLoop pml4 virt flags done pages machine).Meets
      (fun _ after => Owned roots others after hand ∧
        AddsPages pml4 flags.leaf (virt / 4096 + done) pages machine.memory after.memory)
      (fun _ _ => True) True := by
  induction pages generalizing machine done with
  | zero =>
    refine ⟨owned, fun page => ?_, fun page inside before => ?_⟩
    · rw [if_neg (by omega)]
    · omega
  | succ pages induction =>
    rw [Mm.mapAnonLoop]
    simp only [bind_apply, allocFrame]
    cases offered : machine.offer with
    | none => trivial
    | some frame =>
      have supplied := Machine.supplies_of_offer offered
      have taken : Owned roots others ((machine.afterAlloc (some frame)).zeroFrame frame)
          (frame ::ₘ hand) := (owned.take offered).overwrite (owned.freeUnused frame supplied)
      have sameView : ∀ page, pageView ((machine.afterAlloc (some frame)).zeroFrame frame).memory
          pml4 page = pageView machine.memory pml4 page :=
        owned.view_overwrite isRoot supplied _
      have isZero : ((machine.afterAlloc (some frame)).zeroFrame frame).memory frame =
          fun _ => .unused := Function.update_self _ _ _
      simp only [okOr_some, pure_apply, modify_apply]
      generalize (machine.afterAlloc (some frame)).zeroFrame frame = zeroed
        at taken sameView isZero
      split
      · have here : (virt + done * 4096) / 4096 = virt / 4096 + done := by omega
        have maps := map4k_spec (discipline_freeUnused roots) taken.freeUnused taken.sound
          isRoot (user done (by omega)) (frame * 4096) flags
        rw [here, Nat.mul_div_cancel frame (by decide)] at maps
        apply Outcome.Meets.bind (maps.imp_error fun _ _ _ => trivial)
        intro _ mapped ok
        rcases ok with ⟨_, _, unmapped, accounts, changes⟩
        have kept := taken.intoPage accounts changes
        have view := taken.view_intoPage isRoot accounts changes
        apply (induction kept (done + 1) fun i inside => user i (by omega)).mono _
          (fun _ _ => id) id
        intro _ after adds
        refine ⟨adds.1, AddsPages.cons (fun page => ?_) ?_ adds.2⟩
        · rw [view, isZero, sameView]
        · rw [← sameView, pageView, unmapped, Option.map_none]
      · trivial

/-! ## Writing data -/

/-- Some byte of the range, from the `done`-th on, lies in the page. -/
def Touches (virt done len page : Nat) : Prop :=
  ∃ k, done ≤ k ∧ k < len ∧ (virt + k) / 4096 = page

structure Scribbles (pml4 : Frame) (scribble : Scribble) (Touched : Nat → Prop)
    (before after : Memory) : Prop where
  touched : ∀ page, Touched page → ∃ view, pageView before pml4 page = some view ∧
    pageView after pml4 page = some ⟨view.flags, scribble page view.content⟩
  untouched : ∀ page, ¬ Touched page → pageView after pml4 page = pageView before pml4 page

theorem touches_turn {done len page : Nat} (inside : done < len) :
    Touches virt done len page ↔ page = (virt + done) / 4096 ∨
      Touches virt (done + min (4096 - (virt + done) % 4096) (len - done)) len page := by
  constructor
  · intro touches
    rcases touches with ⟨k, behind, before, isPage⟩
    by_cases isHere : page = (virt + done) / 4096
    · exact .inl isHere
    · exact .inr ⟨k, by omega, before, isPage⟩
  · intro touches
    rcases touches with isHere | ⟨k, behind, before, isPage⟩
    · exact ⟨done, le_refl _, inside, isHere.symm⟩
    · exact ⟨k, by omega, before, isPage⟩

theorem not_touches_turn {done len : Nat} :
    ¬ Touches virt (done + min (4096 - (virt + done) % 4096) (len - done)) len
      ((virt + done) / 4096) := by
  intro touches
  rcases touches with ⟨k, behind, before, isPage⟩
  omega

theorem Scribbles.turn {scribble : Scribble} {done len : Nat} {entry : PageTableEntry}
    {start last : Memory} (inside : done < len)
    (atPage : pageMap start pml4 ((virt + done) / 4096) = some entry)
    (view : ∀ page, pageView (Function.update start entry.frame
      (scribble ((virt + done) / 4096) (start entry.frame))) pml4 page =
        if page = (virt + done) / 4096 then
          some ⟨entry.flags, scribble ((virt + done) / 4096) (start entry.frame)⟩
        else pageView start pml4 page)
    (rest : Scribbles pml4 scribble
      (Touches virt (done + min (4096 - (virt + done) % 4096) (len - done)) len)
      (Function.update start entry.frame (scribble ((virt + done) / 4096) (start entry.frame)))
      last) :
    Scribbles pml4 scribble (Touches virt done len) start last where
  touched page touches := by
    rcases (touches_turn inside).mp touches with isHere | isLater
    · refine ⟨⟨entry.flags, start entry.frame⟩, by rw [isHere, pageView, atPage]; rfl, ?_⟩
      rw [rest.untouched page (isHere ▸ not_touches_turn), view, if_pos isHere, isHere]
    · have notHere : page ≠ (virt + done) / 4096 := fun isHere =>
        not_touches_turn (isHere ▸ isLater)
      have found := rest.touched page isLater
      rwa [view, if_neg notHere] at found
  untouched page untouched := by
    have notHere : page ≠ (virt + done) / 4096 := fun isHere =>
      untouched ((touches_turn inside).mpr (.inl isHere))
    rw [rest.untouched page fun isLater => untouched ((touches_turn inside).mpr (.inr isLater)),
      view,
      if_neg notHere]

theorem scribbles_nothing (scribble : Scribble) {done len : Nat} (finished : len ≤ done)
    (memory : Memory) : Scribbles pml4 scribble (Touches virt done len) memory memory where
  touched page touches := by
    rcases touches with ⟨k, behind, before, _⟩
    omega
  untouched _ _ := rfl

/-- The loops of `copy_to_user` and `zero_user` write over the pages of their range. In the
user half they never panic. -/
theorem Owned.writeUserLoop_view {len : Nat} (scribble : Scribble)
    (owned : Owned roots others machine hand) (isRoot : pml4 ∈ roots)
    (user : virt + len ≤ 2 ^ 47) (fuel done : Nat) (enough : len ≤ done + fuel) :
    (Mm.writeUserLoop pml4 virt len scribble fuel done machine).Meets
      (fun _ after => Owned roots others after hand ∧
        Scribbles pml4 scribble (Touches virt done len) machine.memory after.memory)
      (fun _ _ => True) False := by
  induction fuel generalizing machine done with
  | zero => exact ⟨owned, scribbles_nothing scribble enough machine.memory⟩
  | succ fuel induction =>
    rw [Mm.writeUserLoop]
    split
    · next inside =>
      rw [if_pos (by omega), get_bind_apply]
      refine .okOr (fun _ => trivial) fun phys isPhys => ?_
      rw [physForVirt_eq (by omega)] at isPhys
      rcases Option.map_eq_some_iff.mp isPhys with ⟨entry, atPage, isSum⟩
      have isFrame : phys / 4096 = entry.frame := by omega
      rw [modify_bind_apply, isFrame, pageOffset_eq]
      have kept := owned.writePage isRoot atPage
        (scribble ((virt + done) / 4096) (machine.memory entry.frame))
      have view := owned.view_writePage isRoot atPage
        (scribble ((virt + done) / 4096) (machine.memory entry.frame))
      apply (induction kept.1 _ (by omega)).mono _ (fun _ _ => id) id
      intro _ after rest
      exact ⟨rest.1, rest.2.turn inside atPage view⟩
    · next finished =>
      exact ⟨owned, scribbles_nothing scribble (Nat.le_of_not_lt finished) machine.memory⟩

end Owned

/-! ## Panics -/

/-- The allocator hands out frames of a physical memory with 52-bit addresses. -/
def InPhysical (machine : Machine) : Prop := ∀ frame ∈ machine.free, frame * 4096 < 2 ^ 52

section Panics

variable {machine : Machine}

theorem ensureChild_returns (physical : InPhysical machine) (table : Frame) (index : Nat)
    (interFlags : PageTableFlags) :
    (ensureChild table index interFlags machine).Meets (fun _ => InPhysical)
      (fun _ => InPhysical) False := by
  have shrinks : ∀ {after : Machine}, after.free ⊆ machine.free → InPhysical after :=
    fun subset frame isFree => physical frame (subset isFree)
  rw [ensureChild, get_bind_apply]
  split
  · simp only
    split
    · exact physical
    · exact physical
  · simp only [bind_apply, allocFrame]
    cases offered : machine.offer with
    | none => exact shrinks (afterAlloc_free_subset machine none)
    | some frame =>
      have small := physical frame (Machine.mem_free_of_offer offered)
      simp only [okOr_some, pure_apply, modify_apply, setAddr]
      rw [if_pos small]
      exact shrinks (afterAlloc_free_subset machine (some frame))

theorem map4k_returns (physical : InPhysical machine) (pml4 : Frame) (virt : Nat) {phys : Nat}
    (small : phys < 2 ^ 52) (flags : MapFlags) :
    (map4k pml4 virt phys flags machine).Meets (fun _ => InPhysical) (fun _ => InPhysical)
      False := by
  rw [map4k]
  split
  · exact physical
  · apply Outcome.Meets.bind (ensureChild_returns physical _ _ _)
    intro pdpt first physical
    apply Outcome.Meets.bind (ensureChild_returns physical _ _ _)
    intro pd second physical
    apply Outcome.Meets.bind (ensureChild_returns physical _ _ _)
    intro pt third physical
    rw [get_bind_apply]
    split
    · exact physical
    · rw [setAddr, if_pos small]
      exact physical

theorem mapAnonLoop_returns (physical : InPhysical machine) (pml4 : Frame) {virt : Nat}
    (flags : MapFlags) (done pages : Nat) (fits : ∀ i < done + pages, virt + i * 4096 < 2 ^ 64) :
    (mapAnonLoop pml4 virt flags done pages machine).Meets (fun _ => InPhysical)
      (fun _ => InPhysical) False := by
  induction pages generalizing machine done with
  | zero => exact physical
  | succ pages induction =>
    rw [mapAnonLoop]
    simp only [bind_apply, allocFrame]
    cases offered : machine.offer with
    | none => exact fun frame isFree => physical frame (afterAlloc_free_subset machine none isFree)
    | some frame =>
      have small := physical frame (Machine.mem_free_of_offer offered)
      have taken : InPhysical ((machine.afterAlloc (some frame)).zeroFrame frame) :=
        fun other isFree => physical other (afterAlloc_free_subset machine (some frame) isFree)
      simp only [okOr_some, pure_apply, modify_apply]
      rw [if_pos (fits done (by omega))]
      apply Outcome.Meets.bind (map4k_returns taken pml4 _ small flags)
      intro _ mapped physical
      exact induction physical (done + 1) fun i inside => fits i (by omega)

end Panics

end PersonaOS.Mm
