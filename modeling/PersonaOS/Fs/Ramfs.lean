import Mathlib.Algebra.Ring.Nat
import PersonaOS.Foundation.Blocks
import PersonaOS.Fs.Directories

/-! # RamFS

The file system of `fs/ramfs.rs`. An `Arc<RamInode>` is a number under which the inode is
kept. Inodes keep their number when they are unlinked, so that handles to them stay good.

Memory does not run out, but a file of 2⁶³ bytes or more does not fit into a `Vec`. -/

namespace PersonaOS.Fs.Ramfs

open Program

abbrev NodeId := Nat

/-- `struct Entry`, with the children in the order of their names. -/
structure Entry where
  kind : InodeKind
  data : List UInt8
  children : List (String × NodeId)

def newFile (data : List UInt8) : Entry := ⟨.file, data, []⟩

def newDir : Entry := ⟨.dir, [], []⟩

structure Store where
  entries : NodeId → Entry
  /-- How many inodes there are. -/
  count : Nat

/-- `RamFs::new` -/
def Store.new : Store := ⟨fun _ => newDir, 1⟩

/-- The handle `RamFs::root` returns. -/
def root : NodeId := 0

namespace Store

def setEntry (store : Store) (id : NodeId) (entry : Entry) : Store :=
  { store with entries := Function.update store.entries id entry }

/-- `Arc::new(..)` -/
def push (store : Store) (entry : Entry) : Store :=
  ⟨Function.update store.entries store.count entry, store.count + 1⟩

end Store

/-- `children.get(name)` -/
def getChild (children : List (String × NodeId)) (name : String) : Option NodeId :=
  (children.find? fun child => child.1 = name).map Prod.snd

/-- `children.insert(name, node)` -/
def insertChild (name : String) (node : NodeId) :
    List (String × NodeId) → List (String × NodeId)
  | [] => [(name, node)]
  | child :: children =>
    if name < child.1 then
      (name, node) :: child :: children
    else if name = child.1 then
      (name, node) :: children
    else
      child :: insertChild name node children

/-! ## `impl Inode for RamInode` -/

def kind (id : NodeId) (store : Store) : InodeKind := (store.entries id).kind

def size (id : NodeId) (store : Store) : Nat := (store.entries id).data.length

def readAt (id : NodeId) (off len : Nat) : Program Store FsError (List UInt8) := do
  let store ← get
  let g := store.entries id
  if g.kind ≠ .file then
    throw .isDir
  else if g.data.length ≤ off then
    return []
  else
    return (g.data.drop off).take (min len (g.data.length - off))

/-- `data.resize(end, 0)` if `end > data.len()` -/
def resize (data : List UInt8) (stop : Nat) : List UInt8 :=
  data ++ List.replicate (stop - data.length) 0

def writeAt (id : NodeId) (off : Nat) (buf : List UInt8) : Program Store FsError Nat := do
  let store ← get
  let g := store.entries id
  if g.kind ≠ .file then
    throw .isDir
  else
    let stop := off + buf.length
    if 2 ^ 63 ≤ stop then
      abort
    else
      let data := resize g.data stop
      modify fun store =>
        store.setEntry id { g with data := data.take off ++ buf ++ data.drop stop }
      return buf.length

def lookup (id : NodeId) (name : String) : Program Store FsError NodeId := do
  let store ← get
  let g := store.entries id
  if g.kind ≠ .dir then
    throw .notDir
  else
    okOr (getChild g.children name) .notFound

def readdir (id : NodeId) : Program Store FsError (List (String × InodeKind)) := do
  let store ← get
  let g := store.entries id
  if g.kind ≠ .dir then
    throw .notDir
  else
    return g.children.map fun child => (child.1, (store.entries child.2).kind)

def create (id : NodeId) (name : String) (kind : InodeKind) : Program Store FsError NodeId := do
  let store ← get
  let g := store.entries id
  if g.kind ≠ .dir then
    throw .notDir
  else if (getChild g.children name).isSome then
    throw .exists_
  else
    let node := match kind with
      | .file => newFile []
      | .dir => newDir
    modify fun store => (store.push node).setEntry id
      { g with children := insertChild name store.count g.children }
    return store.count

def unlink (id : NodeId) (name : String) : Program Store FsError PUnit := do
  let store ← get
  let g := store.entries id
  if g.kind ≠ .dir then
    throw .notDir
  else
    let _ ← okOr (getChild g.children name) .notFound
    modify fun store => store.setEntry id
      { g with children := g.children.eraseP fun child => child.1 = name }

/-- `impl Inode for RamInode` -/
def inode : Inode Store NodeId where
  kind := kind
  size := size
  readAt := readAt
  writeAt := writeAt
  lookup := lookup
  readdir := readdir
  create := create
  unlink := unlink

/-! ## Seeding -/

/-- A call whose result is `expect`ed. -/
def expect {α : Type} (program : Program Store FsError α) : Program Store FsError α := do
  match ← attempt program with
  | .ok value => return value
  | .error _ => abort

def lookupOrCreate (dir : NodeId) (name : Text) (kind : InodeKind) :
    Program Store FsError NodeId := do
  match ← attempt (lookup dir (String.ofList name)) with
  | .ok node => return node
  | .error _ => expect (create dir (String.ofList name) kind)

def putFile (path : Text) (bytes : List UInt8) : Program Store FsError PUnit :=
  if path.head? ≠ some '/' then
    abort
  else
    match (components path).getLast? with
    | none => abort
    | some last => do
        let dir ← (components path).dropLast.foldlM (fun node name =>
          lookupOrCreate node name .dir) root
        let file ← lookupOrCreate dir last .file
        let _ ← expect (writeAt file 0 bytes)

/-! ## The directories of a store -/

namespace Store

def Linked (store : Store) : Prop :=
  ∀ id < store.count, ∀ child ∈ (store.entries id).children, child.2 < store.count

def listing (store : Store) : Listings NodeId := fun id =>
  if id < store.count ∧ (store.entries id).kind = .dir then
    some ((store.entries id).children.map fun child =>
      (child.1, (store.entries child.2).kind, child.2))
  else
    none

def addChild (store : Store) (dir : NodeId) (name : String) (entry : Entry) : Store :=
  (store.push entry).setEntry dir { store.entries dir with
    children := insertChild name store.count (store.entries dir).children }

end Store

def Shows (store : Store) (dirs : Listings NodeId) : Prop := store.Linked ∧ dirs = store.listing

def node (store : Store) (id : NodeId) : Option NodeId := if id < store.count then some id else none

section Listing

variable {store : Store} {id : NodeId} {name : String}

theorem node_eq_some {at_ : NodeId} : node store id = some at_ ↔ at_ = id ∧ id < store.count := by
  rw [node]
  split
  · next inRange =>
    rw [Option.some_inj]
    exact ⟨fun same => ⟨same.symm, inRange⟩, fun known => known.1.symm⟩
  · next outside => exact iff_of_false (Option.some_ne_none _).symm fun known => outside known.2

theorem linked_new : Store.new.Linked := by
  intro id _ child isChild
  cases isChild

theorem Store.listing_of_dir (inRange : id < store.count)
    (isDir : (store.entries id).kind = .dir) : store.listing id =
      some ((store.entries id).children.map fun child =>
        (child.1, (store.entries child.2).kind, child.2)) :=
  if_pos ⟨inRange, isDir⟩

theorem Store.child_of_file (isFile : (store.entries id).kind ≠ .dir) :
    store.listing.child id name = .error .notDir := by
  rw [Listings.child, Store.listing, if_neg fun known => isFile known.2]

theorem Store.child_of_dir (inRange : id < store.count)
    (isDir : (store.entries id).kind = .dir) : store.listing.child id name =
      match getChild (store.entries id).children name with
      | none => .error .notFound
      | some child => .ok child := by
  rw [Listings.child_of_dir (store.listing_of_dir inRange isDir), List.find?_map, getChild]
  have sameName : ((fun entry : String × InodeKind × NodeId => decide (entry.1 = name)) ∘
      fun child : String × NodeId => (child.1, (store.entries child.2).kind, child.2)) =
      fun child => decide (child.1 = name) := rfl
  rw [sameName]
  generalize (store.entries id).children.find? (fun child => child.1 = name) = found
  cases found <;> rfl

theorem insertChild_eq {children : List (String × NodeId)} (isNew : getChild children name = none)
    (node : NodeId) : ∃ before after, children = before ++ after ∧
      insertChild name node children = before ++ (name, node) :: after := by
  induction children with
  | nil => exact ⟨[], [], rfl, rfl⟩
  | cons child children induction =>
    rw [getChild, Option.map_eq_none_iff, List.find?_eq_none] at isNew
    have different : name ≠ child.1 := by
      intro same
      exact isNew child List.mem_cons_self (decide_eq_true same.symm)
    rw [insertChild]
    split
    · exact ⟨[], child :: children, rfl, rfl⟩
    · have rest : getChild children name = none := by
        rw [getChild, Option.map_eq_none_iff, List.find?_eq_none]
        exact fun other isIn => isNew other (List.mem_cons_of_mem _ isIn)
      rcases induction rest with ⟨before, after, whole, inserted⟩
      rw [inserted, whole]
      exact ⟨child :: before, after, rfl, rfl⟩

theorem insertChild_perm {children : List (String × NodeId)}
    (isNew : getChild children name = none) (node : NodeId) :
    (insertChild name node children).Perm (children ++ [(name, node)]) := by
  rcases insertChild_eq isNew node with ⟨before, after, rfl, inserted⟩
  rw [inserted]
  exact List.perm_middle.trans (List.perm_append_singleton (name, node) (before ++ after)).symm

theorem ne_of_getChild {children : List (String × NodeId)} (isNew : getChild children name = none) :
    ∀ child ∈ children, child.1 ≠ name := by
  rw [getChild, Option.map_eq_none_iff, List.find?_eq_none] at isNew
  intro child isChild same
  exact isNew child isChild (decide_eq_true same)

end Listing

/-! ### Creating -/

section Create

variable {store : Store} {dir : NodeId} {name : String} {entry : Entry}

theorem entries_setEntry (id : NodeId) : (store.setEntry dir entry).entries id =
    if id = dir then entry else store.entries id :=
  Function.update_apply ..

theorem entries_addChild (id : NodeId) : (store.addChild dir name entry).entries id =
    if id = dir then { store.entries dir with
      children := insertChild name store.count (store.entries dir).children }
    else if id = store.count then entry else store.entries id := by
  rw [Store.addChild, Store.setEntry, Store.push]
  simp only [Function.update_apply]

theorem kind_addChild {id : NodeId} (inRange : id < store.count) :
    ((store.addChild dir name entry).entries id).kind = (store.entries id).kind := by
  rw [entries_addChild]
  split
  · next same => rw [same]
  · rw [if_neg (Nat.ne_of_lt inRange)]

theorem linked_addChild (linked : store.Linked) (inRange : dir < store.count)
    (isNew : getChild (store.entries dir).children name = none) (isEmpty : entry.children = []) :
    (store.addChild dir name entry).Linked := by
  have old : ∀ {id}, id < store.count → id < (store.addChild dir name entry).count :=
    fun inRange => Nat.lt_succ_of_lt inRange
  intro id inside child isChild
  rw [entries_addChild] at isChild
  split at isChild
  · rcases insertChild_eq isNew store.count with ⟨before, after, children, inserted⟩
    simp only [inserted] at isChild
    rcases List.mem_append.mp isChild with isOld | isLater
    · exact old (linked dir inRange child (children ▸ List.mem_append_left _ isOld))
    rcases List.mem_cons.mp isLater with rfl | isOld
    · exact Nat.lt_succ_self _
    · exact old (linked dir inRange child (children ▸ List.mem_append_right _ isOld))
  · split at isChild
    · rw [isEmpty] at isChild
      cases isChild
    · next fresh =>
      have known : id < store.count :=
        Nat.lt_of_le_of_ne (Nat.le_of_lt_succ inside) fresh
      exact old (linked id known child isChild)

theorem gains_addChild (linked : store.Linked) (inRange : dir < store.count)
    (isDir : (store.entries dir).kind = .dir)
    (isNew : getChild (store.entries dir).children name = none) :
    store.listing.Gains (store.addChild dir name entry).listing dir
      (name, entry.kind, store.count) where
  here := by
    rcases insertChild_eq isNew store.count with ⟨before, after, children, inserted⟩
    have members : ∀ child ∈ before ++ after, child.2 < store.count := by
      intro child isChild
      exact linked dir inRange child (children ▸ isChild)
    have kinds : ∀ some_ : List (String × NodeId), (∀ child ∈ some_, child.2 < store.count) →
        some_.map (fun child => (child.1,
          ((store.addChild dir name entry).entries child.2).kind, child.2)) =
        some_.map fun child => (child.1, (store.entries child.2).kind, child.2) := by
      intro some_ inside
      apply List.map_congr_left
      intro child isChild
      rw [kind_addChild (inside child isChild)]
    have newKind : ((store.addChild dir name entry).entries store.count).kind = entry.kind := by
      rw [entries_addChild, if_neg (Nat.ne_of_gt inRange), if_pos rfl]
    refine ⟨before.map fun child => (child.1, (store.entries child.2).kind, child.2),
      after.map fun child => (child.1, (store.entries child.2).kind, child.2), ?_, ?_, ?_⟩
    · rw [store.listing_of_dir inRange isDir, children, List.map_append]
    · rw [Store.listing_of_dir (Nat.lt_succ_of_lt inRange) ((kind_addChild inRange).trans isDir)]
      have isEntry : ((store.addChild dir name entry).entries dir).children =
          before ++ (name, store.count) :: after := by
        rw [entries_addChild, if_pos rfl]
        exact inserted
      rw [isEntry, List.map_append, List.map_cons, newKind,
        kinds before fun child isIn => members child (List.mem_append_left _ isIn),
        kinds after fun child isIn => members child (List.mem_append_right _ isIn)]
    · intro other isIn
      rw [← List.map_append, ← children] at isIn
      rcases List.mem_map.mp isIn with ⟨child, isChild, rfl⟩
      exact ne_of_getChild isNew child isChild
  elsewhere := by
    intro other entries different isDir
    rw [Store.listing] at isDir
    split at isDir
    · next known =>
      rw [← Option.some.inj isDir, Store.listing_of_dir (Nat.lt_succ_of_lt known.1)
        ((kind_addChild known.1).trans known.2)]
      congr 1
      have same : (store.addChild dir name entry).entries other = store.entries other := by
        rw [entries_addChild, if_neg different, if_neg (Nat.ne_of_lt known.1)]
      rw [same]
      apply List.map_congr_left
      intro child isChild
      rw [kind_addChild (linked other known.1 child isChild)]
    · cases isDir

end Create

/-! ### Answers -/

section Answers

variable {store : Store} {id child : NodeId} {name : String} {off len : Nat} {buf : List UInt8}

theorem getChild_eq_some {children : List (String × NodeId)}
    (distinct : (children.map Prod.fst).Nodup) :
    getChild children name = some child ↔ (name, child) ∈ children := by
  induction children with
  | nil => exact iff_of_false (fun found => by cases found) List.not_mem_nil
  | cons first children induction =>
    rw [List.map_cons, List.nodup_cons] at distinct
    by_cases isName : first.1 = name
    · have found : getChild (first :: children) name = some first.2 := by
        rw [getChild, List.find?_cons_of_pos (by simpa using isName), Option.map_some]
      rw [found, Option.some_inj, List.mem_cons]
      constructor
      · intro same
        exact .inl (Prod.ext isName.symm same.symm)
      · intro isIn
        rcases isIn with isFirst | isLater
        · exact (congrArg Prod.snd isFirst).symm
        · exact absurd (isName ▸ List.mem_map_of_mem isLater) distinct.1
    · have skipped : getChild (first :: children) name = getChild children name := by
        rw [getChild, List.find?_cons_of_neg (by simpa using isName), getChild]
      rw [skipped, induction distinct.2, List.mem_cons]
      constructor
      · exact .inr
      · intro isIn
        rcases isIn with isFirst | isLater
        · exact absurd (congrArg Prod.fst isFirst).symm isName
        · exact isLater

/-- The inode that `create` makes. -/
def emptyEntry : InodeKind → Entry
  | .file => newFile []
  | .dir => newDir

theorem readAt_of_file (isFile : (store.entries id).kind = .file) :
    readAt id off len store = .ok (((store.entries id).data.drop off).take len) store := by
  rw [readAt, get_bind_apply]
  simp only [isFile, ne_eq, not_true_eq_false, if_false]
  split
  · next behind =>
    rw [List.drop_of_length_le behind, List.take_nil]
    rfl
  · rw [← List.length_drop, ← List.take_eq_take_min]
    rfl

theorem readAt_of_dir (isDir : (store.entries id).kind = .dir) :
    readAt id off len store = .error .isDir store := by
  rw [readAt, get_bind_apply]
  simp only [isDir]
  rfl

theorem writeAt_of_file (isFile : (store.entries id).kind = .file)
    (small : off + buf.length < 2 ^ 63) :
    writeAt id off buf store = .ok buf.length (store.setEntry id
      { store.entries id with data := splice (store.entries id).data off buf }) := by
  rw [writeAt, get_bind_apply]
  simp only [isFile, ne_eq, not_true_eq_false, if_false, if_neg (Nat.not_le.mpr small)]
  rfl

theorem writeAt_panics (isFile : (store.entries id).kind = .file)
    (large : 2 ^ 63 ≤ off + buf.length) : writeAt id off buf store = .panic := by
  rw [writeAt, get_bind_apply]
  simp only [isFile, ne_eq, not_true_eq_false, if_false, if_pos large]
  rfl

theorem writeAt_of_dir (isDir : (store.entries id).kind = .dir) :
    writeAt id off buf store = .error .isDir store := by
  rw [writeAt, get_bind_apply]
  simp only [isDir]
  rfl

theorem lookup_of_file (isFile : (store.entries id).kind = .file) :
    lookup id name store = .error .notDir store := by
  rw [lookup, get_bind_apply]
  simp only [isFile]
  rfl

theorem lookup_of_dir (isDir : (store.entries id).kind = .dir) :
    lookup id name store = okOr (getChild (store.entries id).children name) .notFound store := by
  rw [lookup, get_bind_apply]
  simp only [isDir]
  rfl

theorem readdir_of_file (isFile : (store.entries id).kind = .file) :
    readdir id store = .error .notDir store := by
  rw [readdir, get_bind_apply]
  simp only [isFile]
  rfl

theorem readdir_of_dir (isDir : (store.entries id).kind = .dir) :
    readdir id store = .ok ((store.entries id).children.map fun child =>
      (child.1, (store.entries child.2).kind)) store := by
  rw [readdir, get_bind_apply]
  simp only [isDir]
  rfl

theorem create_of_file {kind : InodeKind} (isFile : (store.entries id).kind = .file) :
    create id name kind store = .error .notDir store := by
  simp only [create, get_bind_apply, isFile]
  rfl

theorem create_of_child {kind : InodeKind} (isDir : (store.entries id).kind = .dir)
    (isChild : getChild (store.entries id).children name = some child) :
    create id name kind store = .error .exists_ store := by
  simp only [create, get_bind_apply, isDir, isChild]
  rfl

theorem create_of_new {kind : InodeKind} (isDir : (store.entries id).kind = .dir)
    (isNew : getChild (store.entries id).children name = none) :
    create id name kind store = .ok store.count (store.addChild id name (emptyEntry kind)) := by
  have missing : ¬ (getChild (store.entries id).children name).isSome = true := by
    rw [isNew]
    exact Bool.false_ne_true
  simp only [create, get_bind_apply]
  rw [if_neg (Decidable.not_not.mpr isDir), if_neg missing]
  cases kind <;> rfl

end Answers

theorem provides : Provides inode Shows node where
  unique := by
    intro store dirs shown handle other at_ known otherKnown
    rw [node_eq_some] at known otherKnown
    exact known.1.symm.trans otherKnown.1
  lookup := by
    intro store dirs shown id at_ known name
    rcases shown with ⟨linked, rfl⟩
    rcases node_eq_some.mp known with ⟨rfl, inRange⟩
    have keeps := KeepsHandles.refl node store
    simp only [inode, lookup, get_bind_apply]
    by_cases isDir : (store.entries at_).kind = .dir
    · rw [if_neg (Decidable.not_not.mpr isDir), Store.child_of_dir inRange isDir]
      cases found : getChild (store.entries at_).children name with
      | none => exact ⟨⟨linked, rfl⟩, keeps, rfl⟩
      | some child =>
        rcases Option.map_eq_some_iff.mp found with ⟨entry, isEntry, rfl⟩
        have isChild := List.mem_of_find?_eq_some isEntry
        exact ⟨⟨linked, rfl⟩, keeps, entry.2, rfl,
          node_eq_some.mpr ⟨rfl, linked at_ inRange entry isChild⟩⟩
    · rw [if_pos isDir, Store.child_of_file isDir]
      exact ⟨⟨linked, rfl⟩, keeps, rfl⟩
  readdir := by
    intro store dirs shown id at_ entries known isDir
    rcases shown with ⟨linked, rfl⟩
    rcases node_eq_some.mp known with ⟨rfl, inRange⟩
    rw [Store.listing] at isDir
    split at isDir
    · next known =>
      cases isDir
      simp only [inode, readdir, get_bind_apply, known.2, ne_eq, not_true_eq_false, if_false,
        List.map_map]
      rfl
    · cases isDir
  create := by
    intro store dirs shown id at_ known name _ kind
    rcases shown with ⟨linked, rfl⟩
    rcases node_eq_some.mp known with ⟨rfl, inRange⟩
    simp only [inode, create, get_bind_apply]
    split
    · exact trivial
    · next isDir =>
      split
      · exact trivial
      · next isNew =>
        rw [Decidable.not_not] at isDir
        have missing : getChild (store.entries at_).children name = none :=
          Option.not_isSome_iff_eq_none.mp isNew
        have creates : ∀ entry : Entry, entry.kind = kind → entry.children = [] →
            entry.data = [] → ∃ next new, Shows (store.addChild at_ name entry) next ∧
              KeepsHandles node store (store.addChild at_ name entry) ∧
              store.listing.Gains next at_ (name, kind, new) ∧
              node (store.addChild at_ name entry) store.count = some new ∧
              Ramfs.kind store.count (store.addChild at_ name entry) = kind ∧
              size store.count (store.addChild at_ name entry) = 0 := by
          intro entry isKind noChildren noData
          have newEntry : (store.addChild at_ name entry).entries store.count = entry := by
            rw [entries_addChild, if_neg (Nat.ne_of_gt inRange), if_pos rfl]
          refine ⟨_, store.count, ⟨linked_addChild linked inRange missing noChildren, rfl⟩, ?_,
            isKind ▸ gains_addChild linked inRange isDir missing,
            node_eq_some.mpr ⟨rfl, Nat.lt_succ_self _⟩, ?_, ?_⟩
          · intro other found isFound
            rcases node_eq_some.mp isFound with ⟨same, inside⟩
            exact node_eq_some.mpr ⟨same, Nat.lt_succ_of_lt inside⟩
          · rw [Ramfs.kind, newEntry, isKind]
          · rw [size, newEntry, noData]
            rfl
        cases kind with
        | file => exact creates (newFile []) rfl rfl rfl
        | dir => exact creates newDir rfl rfl rfl

end PersonaOS.Fs.Ramfs
