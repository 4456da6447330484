import Mathlib.Algebra.Order.Group.Multiset
import PersonaOS.Foundation.Exclusive
import PersonaOS.Mm.PageMap

/-! # Who owns a frame

A frame that is handed around has one owner at a time: the allocator, one page of one address
space, the caller of the memory manager, or someone else outside of all address spaces. The
operations of the memory manager move frames between the first three and never leave one in two
of them. -/

namespace PersonaOS.Mm

open Program

/-- Where a frame can be. `hand` stands for the frames the running code holds in a
variable, `other` for those that the holders of type `κ` keep. -/
inductive Place (κ : Type) where
  | free
  | table
  | page (root : Frame) (number : Nat)
  | hand
  | other (holder : κ)

section Owned

variable {κ : Type}

/-- The frames that others hold, and those that the allocator keeps back: it may have them among
its free frames, but never hands one out. -/
structure Outside (κ : Type) where
  holders : κ → Multiset Frame
  withheld : Set Frame

def Holds (roots : Set Frame) (others : Outside κ) (machine : Machine)
    (hand : Multiset Frame) : Place κ → Frame → Prop
  | .free, frame => frame ∈ machine.free ∧ frame ∉ others.withheld
  | .table, frame => IsTable machine.memory roots frame
  | .page root number, frame =>
    root ∈ roots ∧ (pageMap machine.memory root number).map (·.frame) = some frame
  | .hand, frame => frame ∈ hand
  | .other holder, frame => frame ∈ others.holders holder

/-- Every frame is in one place, and there only once. -/
structure Owned (roots : Set Frame) (others : Outside κ) (machine : Machine)
    (hand : Multiset Frame) : Prop where
  sound : Sound machine.memory roots
  exclusive : Exclusive (Holds roots others machine hand)
  handOnce : hand.Nodup
  othersOnce : ∀ holder, (others.holders holder).Nodup
  withheld : ∀ call memory frame, machine.supply call memory = some frame → frame ∉ others.withheld

def framesOf (pages : List Nat) : Multiset Frame := (pages.map (· / 4096) : List Frame)

@[simp] theorem framesOf_nil : framesOf [] = 0 := rfl

@[simp] theorem framesOf_cons (phys : Nat) (pages : List Nat) :
    framesOf (phys :: pages) = (phys / 4096) ::ₘ framesOf pages := rfl

@[simp] theorem framesOf_append (pages others : List Nat) :
    framesOf (pages ++ others) = framesOf pages + framesOf others := by
  simp [framesOf]

/-- What can be handed out is no table: all that the mapping operations ask of the allocator. -/
def FreeUnused (roots : Set Frame) (machine : Machine) : Prop :=
  ∀ frame, machine.Supplies frame → ¬ IsTable machine.memory roots frame

theorem discipline_freeUnused (roots : Set Frame) : Discipline roots (FreeUnused roots) where
  offer unused offered := unused _ (Machine.supplies_of_offer offered)
  kept unused accounts frame supplied isTable := by
    rcases accounts.tables frame isTable with older | ⟨_, notFree⟩
    · exact unused frame (accounts.supplies supplied) older
    · exact notFree supplied.1

variable {roots : Set Frame} {others : Outside κ} {machine after : Machine}
  {hand : Multiset Frame} {frame pml4 : Frame} {virt phys : Nat}

namespace Owned

variable (owned : Owned roots others machine hand)

include owned

theorem holds_of_supplies (supplied : machine.Supplies frame) :
    Holds roots others machine hand .free frame := by
  obtain ⟨call, memory, isSupplied⟩ := supplied.2
  exact ⟨supplied.1, owned.withheld call memory frame isSupplied⟩

theorem freeUnused : FreeUnused roots machine :=
  fun frame supplied isTable =>
    nomatch owned.exclusive .free .table frame (owned.holds_of_supplies supplied) isTable

/-! ## Single moves -/

theorem table_moves {now : Multiset Frame} (accounts : Accounts roots machine after)
    (isTable : IsTable after.memory roots frame) :
    IsTable machine.memory roots frame ∨ Holds roots others machine hand .free frame ∧
      ¬ Holds roots others after now .free frame := by
  rcases accounts.tables frame isTable with older | ⟨supplied, notFree⟩
  · exact .inl older
  · exact .inr ⟨owned.holds_of_supplies supplied, fun still => notFree still.1⟩

theorem accounts (accounts : Accounts roots machine after)
    (same : SamePages roots machine after) : Owned roots others after hand where
  sound := accounts.sound
  exclusive := by
    apply owned.exclusive.reassign fun _ _ => .table
    intro place thing there
    cases place with
    | free => exact .inl ⟨accounts.free there.1, there.2⟩
    | table =>
      exact (owned.table_moves accounts there).imp_right fun moved =>
        ⟨.free, moved.1, rfl, moved.2⟩
    | page root number => exact .inl ⟨there.1, by rw [← same root there.1, there.2]⟩
    | hand => exact .inl there
    | other holder => exact .inl there
  handOnce := owned.handOnce
  othersOnce := owned.othersOnce
  withheld := accounts.supply ▸ owned.withheld

theorem overwrite {entries : Nat → PageTableEntry}
    (unused : ¬ IsTable machine.memory roots frame) :
    Owned roots others { machine with memory := Function.update machine.memory frame entries }
      hand where
  sound := owned.sound.overwrite unused
  exclusive := by
    apply owned.exclusive.mono
    intro place thing there
    cases place with
    | table => exact (isTable_overwrite unused).mp there
    | page root number =>
      exact ⟨there.1, by rw [← pageMap_overwrite unused there.1]; exact there.2⟩
    | free | hand | other => exact there
  handOnce := owned.handOnce
  othersOnce := owned.othersOnce
  withheld := owned.withheld

theorem forget {fewer : Multiset Frame} (le : fewer ≤ hand) :
    Owned roots others machine fewer where
  sound := owned.sound
  exclusive := by
    apply owned.exclusive.mono
    intro place thing there
    cases place with
    | hand => exact Multiset.mem_of_le le there
    | free | table | page | other => exact there
  handOnce := Multiset.nodup_of_le le owned.handOnce
  othersOnce := owned.othersOnce
  withheld := owned.withheld

theorem reserve (nowhere : ∀ place, ¬ Holds roots others machine hand place frame) :
    Owned roots others machine (frame ::ₘ hand) where
  sound := owned.sound
  exclusive := by
    intro place other thing here there
    have origin : ∀ {place}, Holds roots others machine (frame ::ₘ hand) place thing →
        thing = frame ∧ place = .hand ∨ Holds roots others machine hand place thing := by
      intro place there
      cases place with
      | hand =>
        rcases Multiset.mem_cons.mp there with isNew | isOld
        · exact .inl ⟨isNew, rfl⟩
        · exact .inr isOld
      | free | table | page | other => exact .inr there
    rcases origin here with ⟨isFrame, isHand⟩ | wasHere
    · rcases origin there with ⟨_, otherIsHand⟩ | wasThere
      · rw [isHand, otherIsHand]
      · exact absurd (isFrame ▸ wasThere) (nowhere other)
    · rcases origin there with ⟨isFrame, _⟩ | wasThere
      · exact absurd (isFrame ▸ wasHere) (nowhere place)
      · exact owned.exclusive place other thing wasHere wasThere
  handOnce := Multiset.nodup_cons.mpr ⟨nowhere .hand, owned.handOnce⟩
  othersOnce := owned.othersOnce
  withheld := owned.withheld

theorem take (offered : machine.offer = some frame) :
    Owned roots others (machine.afterAlloc (some frame)) (frame ::ₘ hand) where
  sound := owned.sound
  exclusive := by
    apply owned.exclusive.reassign fun _ _ => .hand
    intro place thing there
    cases place with
    | free => exact .inl ⟨Finset.mem_of_mem_erase there.1, there.2⟩
    | hand =>
      rcases Multiset.mem_cons.mp there with isNew | isOld
      · subst isNew
        exact .inr ⟨.free, owned.holds_of_supplies (Machine.supplies_of_offer offered), rfl,
          fun still => Finset.notMem_erase _ _ still.1⟩
      · exact .inl isOld
    | table | page | other => exact .inl there
  handOnce := by
    apply Multiset.nodup_cons.mpr
    refine ⟨fun isHeld => ?_, owned.handOnce⟩
    exact nomatch owned.exclusive .hand .free frame isHeld
      (owned.holds_of_supplies (Machine.supplies_of_offer offered))
  othersOnce := owned.othersOnce
  withheld := owned.withheld

omit owned in
theorem release (owned : Owned roots others machine (frame ::ₘ hand)) :
    Owned roots others (machine.freeFrame frame) hand where
  sound := owned.sound
  exclusive := by
    apply owned.exclusive.reassign fun _ _ => .free
    intro place thing there
    cases place with
    | free =>
      rcases Finset.mem_insert.mp there.1 with isNew | isOld
      · subst isNew
        exact .inr ⟨.hand, Multiset.mem_cons_self _ _, rfl,
          (Multiset.nodup_cons.mp owned.handOnce).1⟩
      · exact .inl ⟨isOld, there.2⟩
    | hand => exact .inl (Multiset.mem_cons_of_mem there)
    | table | page | other => exact .inl there
  handOnce := (Multiset.nodup_cons.mp owned.handOnce).2
  othersOnce := owned.othersOnce
  withheld := owned.withheld

omit owned in
theorem intoPage {number : Nat} {flags : PageTableFlags}
    (owned : Owned roots others machine (frame ::ₘ hand))
    (accounts : Accounts roots machine after)
    (changes : ChangesPage roots pml4 number (some ⟨frame, flags⟩) machine after) :
    Owned roots others after hand where
  sound := accounts.sound
  exclusive := by
    apply owned.exclusive.reassign fun source _ => match source with
      | .hand => .page pml4 number
      | _ => .table
    intro place thing there
    cases place with
    | free => exact .inl ⟨accounts.free there.1, there.2⟩
    | table =>
      exact (owned.table_moves accounts there).imp_right fun moved =>
        ⟨.free, moved.1, rfl, moved.2⟩
    | page root other =>
      rcases there with ⟨isRoot, isFrame⟩
      rw [changes root isRoot other] at isFrame
      split at isFrame
      · next here =>
        obtain rfl : frame = thing := Option.some.inj isFrame
        refine .inr ⟨.hand, Multiset.mem_cons_self _ _, ?_,
          (Multiset.nodup_cons.mp owned.handOnce).1⟩
        rw [here.1, here.2]
      · exact .inl ⟨isRoot, isFrame⟩
    | hand => exact .inl (Multiset.mem_cons_of_mem there)
    | other holder => exact .inl there
  handOnce := (Multiset.nodup_cons.mp owned.handOnce).2
  othersOnce := owned.othersOnce
  withheld := accounts.supply ▸ owned.withheld

theorem outOfPage {number : Nat} {entry : PageTableEntry} (isRoot : pml4 ∈ roots)
    (accounts : Accounts roots machine after)
    (atPage : pageMap machine.memory pml4 number = some entry)
    (changes : ChangesPage roots pml4 number none machine after) :
    Owned roots others after (entry.frame ::ₘ hand) where
  sound := accounts.sound
  exclusive := by
    apply owned.exclusive.reassign fun source _ => match source with
      | .free => .table
      | _ => .hand
    intro place thing there
    cases place with
    | free => exact .inl ⟨accounts.free there.1, there.2⟩
    | table =>
      exact (owned.table_moves accounts there).imp_right fun moved =>
        ⟨.free, moved.1, rfl, moved.2⟩
    | page root other =>
      rcases there with ⟨isRoot, isFrame⟩
      rw [changes root isRoot other] at isFrame
      split at isFrame
      · cases isFrame
      · exact .inl ⟨isRoot, isFrame⟩
    | hand =>
      rcases Multiset.mem_cons.mp there with isNew | isOld
      · refine .inr ⟨.page pml4 number, ⟨isRoot, by rw [atPage, isNew]; rfl⟩, rfl, ?_⟩
        rintro ⟨_, stillThere⟩
        rw [changes pml4 isRoot number, if_pos ⟨rfl, rfl⟩] at stillThere
        cases stillThere
      · exact .inl isOld
    | other holder => exact .inl there
  handOnce := by
    apply Multiset.nodup_cons.mpr
    refine ⟨fun isHeld => ?_, owned.handOnce⟩
    have inPage : Holds roots others machine hand (.page pml4 number) entry.frame :=
      ⟨isRoot, by rw [atPage]; rfl⟩
    exact nomatch owned.exclusive .hand _ entry.frame isHeld inPage
  othersOnce := owned.othersOnce
  withheld := accounts.supply ▸ owned.withheld

/-! ## Mapping and unmapping -/

omit owned in
theorem map4k (owned : Owned roots others machine ((phys / 4096) ::ₘ hand))
    (isRoot : pml4 ∈ roots) (user : virt < 2 ^ 47) (flags : MapFlags) :
    (Mm.map4k pml4 virt phys flags machine).Meets (fun _ after => Owned roots others after hand)
      (fun _ after => Owned roots others after ((phys / 4096) ::ₘ hand)) True := by
  apply (map4k_spec (discipline_freeUnused roots) owned.freeUnused owned.sound isRoot user phys
    flags).mono
  · intro _ after ok
    exact owned.intoPage ok.2.2.2.1 ok.2.2.2.2
  · intro _ after error
    exact owned.accounts error.1 error.2
  · exact id

theorem unmap4k (isRoot : pml4 ∈ roots) (user : virt < 2 ^ 47) :
    (Mm.unmap4k pml4 virt machine).Meets
      (fun result after => (∀ phys ∈ result, phys % 4096 = 0) ∧
        Owned roots others after (framesOf result.toList + hand))
      (fun _ _ => False) False := by
  apply (unmap4k_spec owned.sound isRoot user).mono
  · intro result after ok
    rcases ok with ⟨returned, accounts, changes⟩
    refine ⟨fun phys isPhys => ?_, ?_⟩
    · rw [returned] at isPhys
      obtain ⟨entry, _, rfl⟩ := Option.map_eq_some_iff.mp isPhys
      exact Nat.mul_mod_left _ _
    cases atPage : pageMap machine.memory pml4 (virt / 4096) with
    | none =>
      rw [returned, atPage]
      have same : SamePages roots machine after := by
        intro root rootIsRoot other
        rw [changes root rootIsRoot other]
        split
        · next here => rw [here.1, here.2, atPage]
        · rfl
      simpa using owned.accounts accounts same
    | some entry =>
      rw [returned, atPage]
      have unmapped := owned.outOfPage isRoot accounts atPage changes
      simpa [Nat.mul_div_cancel] using unmapped
  · exact fun _ _ => id
  · exact id

/-! ## The loops -/

theorem mapAnonLoop (isRoot : pml4 ∈ roots) (flags : MapFlags) (done pages : Nat)
    (user : ∀ i < done + pages, virt + i * 4096 < 2 ^ 47) :
    (Mm.mapAnonLoop pml4 virt flags done pages machine).Meets
      (fun _ after => Owned roots others after hand)
      (fun _ after => Owned roots others after hand) True := by
  induction pages generalizing machine done with
  | zero => exact owned
  | succ pages induction =>
    unfold Mm.mapAnonLoop
    simp only [bind_apply, allocFrame]
    cases offered : machine.offer with
    | none => exact owned.accounts (.afterAlloc owned.sound none) fun _ _ _ => rfl
    | some frame =>
      have unused := owned.freeUnused frame (Machine.supplies_of_offer offered)
      have zeroed : Owned roots others ((machine.afterAlloc (some frame)).zeroFrame frame)
          ((frame * 4096 / 4096) ::ₘ hand) := by
        rw [Nat.mul_div_cancel frame (by decide)]
        exact (owned.take offered).overwrite unused
      simp only [okOr_some, pure_apply, modify_apply]
      split
      · have mapped : (Mm.map4k pml4 (virt + done * 4096) (frame * 4096) flags
            ((machine.afterAlloc (some frame)).zeroFrame frame)).Meets
            (fun _ after => Owned roots others after hand)
            (fun _ after => Owned roots others after hand) True := by
          apply (zeroed.map4k isRoot (user done (by omega)) flags).mono
          · exact fun _ _ kept => kept
          · exact fun _ _ leaked => leaked.forget (Multiset.le_cons_self _ _)
          · exact id
        apply Outcome.Meets.bind mapped
        intro _ current kept
        apply induction kept
        intro i inside
        exact user i (by omega)
      · exact trivial

omit owned in
theorem mapBack {frames : List Nat}
    (owned : Owned roots others machine (framesOf frames + hand)) (isRoot : pml4 ∈ roots)
    (done : Nat) (user : ∀ i < done + frames.length, virt + i * 4096 < 2 ^ 47) :
    (Mm.mapBack pml4 virt done frames machine).Meets
      (fun _ after => Owned roots others after hand)
      (fun _ after => Owned roots others after hand) True := by
  induction frames generalizing machine done with
  | nil => simpa [Mm.mapBack] using owned
  | cons phys rest induction =>
    rw [framesOf_cons, Multiset.cons_add] at owned
    simp only [List.length_cons] at user
    unfold Mm.mapBack
    apply Outcome.Meets.bind (owned.map4k isRoot (user done (by omega)) .userData).attempt
    intro result current kept
    -- A frame that cannot be mapped back is lost.
    have kept : Owned roots others current (framesOf rest + hand) := by
      cases result with
      | ok _ => exact kept
      | error _ => exact kept.forget (Multiset.le_cons_self _ _)
    apply induction kept
    intro i inside
    exact user i (by omega)

omit owned in
theorem stealLoop {stolen : List Nat}
    (owned : Owned roots others machine (framesOf stolen + hand)) (isRoot : pml4 ∈ roots)
    (pages : Nat) (user : ∀ i < stolen.length + pages, virt + i * 4096 < 2 ^ 47)
    (aligned : ∀ phys ∈ stolen, phys % 4096 = 0) :
    (Mm.stealLoop pml4 virt stolen pages machine).Meets
      (fun result after => result.length = stolen.length + pages ∧
        (∀ phys ∈ result, phys % 4096 = 0) ∧ Owned roots others after (framesOf result + hand))
      (fun _ after => Owned roots others after hand) True := by
  induction pages generalizing machine stolen with
  | zero => exact ⟨rfl, aligned, owned⟩
  | succ pages induction =>
    unfold Mm.stealLoop
    split
    · have unmapped := owned.unmap4k isRoot (user stolen.length (by omega))
      apply Outcome.Meets.bind (unmapped.mono (fun _ _ kept => kept) (fun _ _ => False.elim)
        False.elim)
      rintro result current ⟨isAligned, kept⟩
      cases result with
      | none =>
        simp only [Option.toList_none, framesOf_nil, zero_add] at kept
        have restored := kept.mapBack isRoot 0 fun i inside => user i (by omega)
        exact .bind restored fun _ _ done => done
      | some phys =>
        have longer : (stolen ++ [phys]).length = stolen.length + 1 := by simp
        have moved : Owned roots others current (framesOf (stolen ++ [phys]) + hand) := by
          rw [framesOf_append, add_comm (framesOf stolen), add_assoc]
          exact kept
        have movedAligned : ∀ other ∈ stolen ++ [phys], other % 4096 = 0 := by
          simpa [or_imp, forall_and] using ⟨aligned, isAligned phys rfl⟩
        apply (induction moved (fun i inside => user i (by omega)) movedAligned).mono
        · rintro result after ⟨length, done⟩
          exact ⟨by omega, done⟩
        · exact fun _ _ done => done
        · exact id
    · exact trivial

omit owned in
/-- Installing hands the frames over to pages. When it fails, some of the pages are
mapped, in the one address space. -/
theorem installLoop {frames : List Nat}
    (owned : Owned roots others machine (framesOf frames + hand)) (isRoot : pml4 ∈ roots)
    (done : Nat) (user : ∀ i < done + frames.length, virt + i * 4096 < 2 ^ 47) :
    (Mm.installLoop pml4 virt done frames machine).Meets
      (fun _ after => Owned roots others after hand)
      (fun _ after => Accounts roots machine after ∧ ∀ root ∈ roots, root ≠ pml4 →
        ∀ page, pageMap after.memory root page = pageMap machine.memory root page) True := by
  induction frames generalizing machine done with
  | nil => simpa [Mm.installLoop] using owned
  | cons phys rest induction =>
    rw [framesOf_cons, Multiset.cons_add] at owned
    simp only [List.length_cons] at user
    unfold Mm.installLoop
    split
    · have mapped := map4k_spec (discipline_freeUnused roots) owned.freeUnused owned.sound
        isRoot (user done (by omega)) phys .userData
      apply Outcome.Meets.bind (mapped.mono (fun _ _ ok => ok.2.2.2)
        (fun _ _ error => ⟨error.1, fun root rootIsRoot _ => error.2 root rootIsRoot⟩) id)
      rintro _ current ⟨accounts, changes⟩
      have elsewhere : ∀ root ∈ roots, root ≠ pml4 → ∀ page,
          pageMap current.memory root page = pageMap machine.memory root page := by
        intro root rootIsRoot different page
        rw [changes root rootIsRoot page, if_neg fun here => different here.1]
      apply (induction (owned.intoPage accounts changes) (done + 1)
        fun i inside => user i (by omega)).mono
      · exact fun _ _ kept => kept
      · rintro _ after ⟨later, same⟩
        refine ⟨accounts.trans later, fun root rootIsRoot different page => ?_⟩
        rw [same root rootIsRoot different, elsewhere root rootIsRoot different]
      · exact id
    · exact trivial

/-! ## New address spaces -/

omit owned in
theorem of_no_roots (machine : Machine) (kept : Set Frame)
    (withheld : ∀ call memory frame, machine.supply call memory = some frame → frame ∉ kept) :
    Owned ∅ ⟨fun _ : κ => 0, kept⟩ machine 0 where
  sound := sound_of_no_roots machine.memory
  exclusive := by
    have onlyFree : ∀ place frame, Holds ∅ ⟨fun _ : κ => 0, kept⟩ machine 0 place frame →
        place = .free := by
      intro place frame there
      cases place with
      | free => rfl
      | table => exact absurd there.choose_spec.1 (Set.notMem_empty _)
      | page root number => exact absurd there.1 (Set.notMem_empty _)
      | hand | other => exact absurd there (Multiset.notMem_zero _)
    intro place other frame here there
    rw [onlyFree place frame here, onlyFree other frame there]
  handOnce := Multiset.nodup_zero
  othersOnce _ := Multiset.nodup_zero
  withheld := withheld

theorem fewerRoots {fewer : Set Frame} (subset : fewer ⊆ roots) :
    Owned fewer others machine hand where
  sound :=
    { unshared := fun _ _ _ _ _ isRoot otherIsRoot =>
        owned.sound.unshared (subset isRoot) (subset otherIsRoot)
      permissive := fun root isRoot => owned.sound.permissive root (subset isRoot)
      admits := fun root isRoot => owned.sound.admits root (subset isRoot) }
  exclusive := by
    apply owned.exclusive.mono
    intro place frame there
    cases place with
    | table =>
      rcases there with ⟨root, isRoot, walked⟩
      exact ⟨root, subset isRoot, walked⟩
    | page root number => exact ⟨subset there.1, there.2⟩
    | free | hand | other => exact there
  handOnce := owned.handOnce
  othersOnce := owned.othersOnce
  withheld := owned.withheld

theorem newRoot (entries : Nat → PageTableEntry) (offered : machine.offer = some frame)
    (empty : ∀ index < 256, entries index = .unused) :
    Owned (insert frame roots) others
      { machine.afterAlloc (some frame) with
        memory := Function.update machine.memory frame entries } hand := by
  have supplied := Machine.supplies_of_offer offered
  have unused := owned.freeUnused frame supplied
  have cleared : ∀ index < 256, Function.update machine.memory frame entries frame index =
      .unused := by
    intro index low
    rw [Function.update_self, empty index low]
  have stillUnused : ¬ IsTable (Function.update machine.memory frame entries) roots frame :=
    mt (isTable_overwrite unused).mp unused
  exact
    { sound := (owned.sound.overwrite unused).insertEmpty cleared stillUnused
      exclusive := by
        apply owned.exclusive.reassign fun _ _ => .table
        intro place thing there
        cases place with
        | free => exact .inl ⟨Finset.mem_of_mem_erase there.1, there.2⟩
        | table =>
          rcases isTable_insert_of_empty cleared there with isNew | isOld
          · subst isNew
            exact .inr ⟨.free, owned.holds_of_supplies supplied, rfl,
              fun still => Finset.notMem_erase _ _ still.1⟩
          · exact .inl ((isTable_overwrite unused).mp isOld)
        | page root number =>
          rcases there with ⟨isNew | isRoot, isFrame⟩
          · subst isNew
            have unmapped := pageMap_of_empty cleared number
            rw [unmapped] at isFrame
            cases isFrame
          · have same : pageMap (Function.update machine.memory frame entries) root number =
                pageMap machine.memory root number := pageMap_overwrite unused isRoot number
            rw [same] at isFrame
            exact .inl ⟨isRoot, isFrame⟩
        | hand | other => exact .inl there
      handOnce := owned.handOnce
      othersOnce := owned.othersOnce
      withheld := owned.withheld }

theorem newUser (kernelPml4 : Frame) :
    (Mm.newUser kernelPml4 machine).Meets
      (fun created after => match created with
        | some pml4 => Owned (insert pml4 roots) others after hand
        | none => Owned roots others after hand)
      (fun _ _ => False) False := by
  unfold Mm.newUser
  simp only [bind_apply, allocFrame]
  cases offered : machine.offer with
  | none => exact owned.accounts (.afterAlloc owned.sound none) fun _ _ _ => rfl
  | some frame =>
    let zeroed := (machine.afterAlloc (some frame)).zeroFrame frame
    let entries := fun index =>
      if 256 ≤ index ∧ index < 512 then zeroed.memory kernelPml4 index
      else zeroed.memory frame index
    have empty : ∀ index < 256, entries index = .unused := by
      intro index low
      have lower : ¬(256 ≤ index ∧ index < 512) := by omega
      simp [entries, lower, zeroed, Machine.zeroFrame]
    have created := owned.newRoot entries offered empty
    have overwritten : Function.update zeroed.memory frame entries =
        Function.update machine.memory frame entries := Function.update_idem _ _ _
    rw [← overwritten] at created
    exact created

end Owned

end Owned

end PersonaOS.Mm
