import PersonaOS.Fs.MountTable

/-! # File systems as directories

What a path walk sees of a file system: for each directory its entries, and for each handle the
inode it stands for. `Provides` says that the methods of a file system look names up, list them
and create them accordingly. Several file systems side by side, as behind `Arc<dyn Inode>`,
provide the directories of all of them. -/

namespace PersonaOS.Fs

open Program

/-! ## Listings -/

abbrev Listings (N : Type) := N → Option (List (String × InodeKind × N))

namespace Listings

variable {N : Type}

def child (dirs : Listings N) (dir : N) (name : String) : Except FsError N :=
  match dirs dir with
  | none => .error .notDir
  | some entries =>
    match entries.find? fun entry => entry.1 = name with
    | none => .error .notFound
    | some entry => .ok entry.2.2

def walk (dirs : Listings N) : List String → N → Except FsError N
  | [], node => .ok node
  | name :: names, node =>
    match dirs.child node name with
    | .ok next => walk dirs names next
    | .error error => .error error

structure Gains (dirs next : Listings N) (dir : N) (entry : String × InodeKind × N) : Prop where
  here : ∃ before after, dirs dir = some (before ++ after) ∧
    next dir = some (before ++ entry :: after) ∧ ∀ other ∈ before ++ after, other.1 ≠ entry.1
  elsewhere : ∀ {other entries}, other ≠ dir → dirs other = some entries →
    next other = some entries

variable {dirs next : Listings N} {dir : N} {entry : String × InodeKind × N}

theorem child_of_dir {entries : List (String × InodeKind × N)} (isDir : dirs dir = some entries)
    (name : String) : dirs.child dir name =
      match entries.find? fun entry => entry.1 = name with
      | none => .error .notFound
      | some entry => .ok entry.2.2 := by
  rw [child, isDir]

theorem child_eq_ok {name : String} {node : N} : dirs.child dir name = .ok node ↔
    ∃ entries entry, dirs dir = some entries ∧
      entries.find? (fun entry => entry.1 = name) = some entry ∧ entry.2.2 = node := by
  constructor
  · intro found
    rw [child] at found
    cases isDir : dirs dir with
    | none =>
      rw [isDir] at found
      cases found
    | some entries =>
      simp only [isDir] at found
      generalize isEntry : entries.find? (fun entry => entry.1 = name) = result at found
      cases result with
      | none => cases found
      | some entry => exact ⟨entries, entry, rfl, isEntry, Except.ok.inj found⟩
  · intro found
    rcases found with ⟨entries, entry, isDir, isEntry, rfl⟩
    rw [child_of_dir isDir, isEntry]

theorem walk_append (dirs : Listings N) (names more : List String) (node : N) :
    dirs.walk (names ++ more) node =
      match dirs.walk names node with
      | .ok next => dirs.walk more next
      | .error error => .error error := by
  induction names generalizing node with
  | nil => rfl
  | cons name names induction =>
    rw [List.cons_append, walk, walk]
    cases dirs.child node name with
    | ok next => exact induction next
    | error error => rfl

theorem walk_concat {names : List String} {name : String} {node dir : N}
    (leads : dirs.walk names node = .ok dir) :
    dirs.walk (names ++ [name]) node = dirs.child dir name := by
  rw [walk_append, leads]
  simp only [walk]
  cases dirs.child dir name <;> rfl

/-! ### A new entry -/

theorem Gains.child_new (gains : Gains dirs next dir entry) :
    next.child dir entry.1 = .ok entry.2.2 := by
  rcases gains.here with ⟨before, after, _, isDir, isNew⟩
  refine child_eq_ok.mpr ⟨_, entry, isDir, ?_, rfl⟩
  have missing : before.find? (fun other => other.1 = entry.1) = none := by
    apply List.find?_eq_none.mpr
    intro other isIn
    simpa using isNew other (List.mem_append_left _ isIn)
  rw [List.find?_append, missing, Option.none_or, List.find?_cons_of_pos (by simp)]

theorem Gains.child_old (gains : Gains dirs next dir entry) {other node : N} {name : String}
    (found : dirs.child other name = .ok node) : next.child other name = .ok node := by
  rcases child_eq_ok.mp found with ⟨entries, old, isOld, isEntry, rfl⟩
  by_cases same : other = dir
  · subst same
    rcases gains.here with ⟨before, after, wasDir, isDir, isNew⟩
    rw [wasDir] at isOld
    cases isOld
    have different : entry.1 ≠ name := by
      intro same
      have isName := List.find?_some isEntry
      exact isNew old (List.mem_of_find?_eq_some isEntry)
        ((of_decide_eq_true isName).trans same.symm)
    refine child_eq_ok.mpr ⟨_, old, isDir, ?_, rfl⟩
    rw [List.find?_append, List.find?_cons_of_neg (by simpa using different), ← List.find?_append,
      isEntry]
  · exact child_eq_ok.mpr ⟨entries, old, gains.elsewhere same isOld, isEntry, rfl⟩

theorem Gains.walk_old (gains : Gains dirs next dir entry) {names : List String} {start node : N}
    (leads : dirs.walk names start = .ok node) : next.walk names start = .ok node := by
  induction names generalizing start with
  | nil => exact leads
  | cons name names induction =>
    rw [walk] at leads ⊢
    cases found : dirs.child start name with
    | error error =>
      rw [found] at leads
      cases leads
    | ok child =>
      rw [found] at leads
      rw [gains.child_old found]
      exact induction leads

end Listings

/-! ## File systems that provide directories -/

section Provides

variable {σ H N : Type}

def KeepsHandles (node : σ → H → Option N) (fs after : σ) : Prop :=
  ∀ handle inode, node fs handle = some inode → node after handle = some inode

theorem KeepsHandles.refl (node : σ → H → Option N) (fs : σ) : KeepsHandles node fs fs :=
  fun _ _ known => known

theorem KeepsHandles.trans {node : σ → H → Option N} {fs middle after : σ}
    (first : KeepsHandles node fs middle) (second : KeepsHandles node middle after) :
    KeepsHandles node fs after :=
  fun handle inode known => second handle inode (first handle inode known)

/-- A file system whose directories are those of `Shows`, with `node` for the inode of a
handle that can be used. -/
structure Provides (inode : Inode σ H) (Shows : σ → Listings N → Prop) (node : σ → H → Option N) :
    Prop where
  unique : ∀ {fs dirs}, Shows fs dirs → ∀ {handle other at_}, node fs handle = some at_ →
    node fs other = some at_ → handle = other
  lookup : ∀ {fs dirs}, Shows fs dirs → ∀ {handle at_}, node fs handle = some at_ → ∀ name,
    (inode.lookup handle name fs).Meets
      (fun child after => Shows after dirs ∧ KeepsHandles node fs after ∧
        ∃ found, dirs.child at_ name = .ok found ∧ node after child = some found)
      (fun error after => Shows after dirs ∧ KeepsHandles node fs after ∧
        dirs.child at_ name = .error error) False
  readdir : ∀ {fs dirs}, Shows fs dirs → ∀ {handle at_ entries}, node fs handle = some at_ →
    dirs at_ = some entries →
    inode.readdir handle fs = .ok (entries.map fun entry => (entry.1, entry.2.1)) fs
  create : ∀ {fs dirs}, Shows fs dirs → ∀ {handle at_}, node fs handle = some at_ →
    ∀ {name}, name ≠ "" → ∀ kind, (inode.create handle name kind fs).Meets
      (fun child after => ∃ next new, Shows after next ∧ KeepsHandles node fs after ∧
        dirs.Gains next at_ (name, kind, new) ∧ node after child = some new ∧
        inode.kind child after = kind ∧ inode.size child after = 0)
      (fun _ _ => True) True

variable {inode : Inode σ H} {Shows : σ → Listings N → Prop} {node : σ → H → Option N}

theorem Provides.walk (provides : Provides inode Shows node) {fs : σ} {dirs : Listings N}
    (shows_ : Shows fs dirs) {handle : H} {start : N} (known : node fs handle = some start)
    (names : List Text) :
    (names.foldlM (fun node comp => inode.lookup node (String.ofList comp)) handle fs).Meets
      (fun child after => Shows after dirs ∧ KeepsHandles node fs after ∧
        ∃ found, dirs.walk (names.map String.ofList) start = .ok found ∧
          node after child = some found)
      (fun error after => Shows after dirs ∧ KeepsHandles node fs after ∧
        dirs.walk (names.map String.ofList) start = .error error) False := by
  induction names generalizing fs handle start with
  | nil => exact ⟨shows_, KeepsHandles.refl node fs, start, rfl, known⟩
  | cons name names induction =>
    rw [List.foldlM_cons]
    simp only [List.map_cons, Listings.walk]
    apply Outcome.Meets.bind ((provides.lookup shows_ known (String.ofList name)).imp_error _)
    · intro child middle met
      rcases met with ⟨shown, keeps, found, isChild, isFound⟩
      rw [isChild]
      apply (induction shown isFound).mono _ _ fun stops => stops
      · intro last after met
        exact ⟨met.1, keeps.trans met.2.1, met.2.2⟩
      · intro error after met
        exact ⟨met.1, keeps.trans met.2.1, met.2.2⟩
    · intro error after met
      rw [met.2.2]
      exact ⟨met.1, met.2.1, rfl⟩

end Provides

/-! ## One of two kinds of file systems -/

section Either

variable {σ τ H N : Type}

def either {α : Type} (left : Program σ FsError α) (right : Program τ FsError α) :
    Program (σ ⊕ τ) FsError α :=
  Sum.elim (fun fs => (left fs).within id .inl) fun fs => (right fs).within id .inr

/-- A file system of either kind, behind one type of handles. -/
def Inode.either (left : Inode σ H) (right : Inode τ H) : Inode (σ ⊕ τ) H where
  kind handle := Sum.elim (left.kind handle) (right.kind handle)
  size handle := Sum.elim (left.size handle) (right.size handle)
  readAt handle off len := Fs.either (left.readAt handle off len) (right.readAt handle off len)
  writeAt handle off buf := Fs.either (left.writeAt handle off buf) (right.writeAt handle off buf)
  lookup handle name := Fs.either (left.lookup handle name) (right.lookup handle name)
  readdir handle := Fs.either (left.readdir handle) (right.readdir handle)
  create handle name kind :=
    Fs.either (left.create handle name kind) (right.create handle name kind)
  unlink handle name := Fs.either (left.unlink handle name) (right.unlink handle name)

theorem Provides.either {left : Inode σ H} {right : Inode τ H} {ShowsLeft : σ → Listings N → Prop}
    {ShowsRight : τ → Listings N → Prop} {nodeLeft : σ → H → Option N}
    {nodeRight : τ → H → Option N} (onLeft : Provides left ShowsLeft nodeLeft)
    (onRight : Provides right ShowsRight nodeRight) :
    Provides (left.either right) (Sum.elim ShowsLeft ShowsRight) (Sum.elim nodeLeft nodeRight) where
  unique {fs} := by
    cases fs with
    | inl fs => exact onLeft.unique
    | inr fs => exact onRight.unique
  lookup {fs} := by
    cases fs with
    | inl fs =>
      intro dirs shown handle at_ known name
      exact Outcome.meets_within.mpr (onLeft.lookup shown known name)
    | inr fs =>
      intro dirs shown handle at_ known name
      exact Outcome.meets_within.mpr (onRight.lookup shown known name)
  readdir {fs} := by
    cases fs with
    | inl fs =>
      intro dirs shown handle at_ entries known isDir
      exact congrArg (Outcome.within id Sum.inl) (onLeft.readdir shown known isDir)
    | inr fs =>
      intro dirs shown handle at_ entries known isDir
      exact congrArg (Outcome.within id Sum.inr) (onRight.readdir shown known isDir)
  create {fs} := by
    cases fs with
    | inl fs =>
      intro dirs shown handle at_ known name isNamed kind
      exact Outcome.meets_within.mpr (onLeft.create shown known isNamed kind)
    | inr fs =>
      intro dirs shown handle at_ known name isNamed kind
      exact Outcome.meets_within.mpr (onRight.create shown known isNamed kind)

end Either

/-! ## Several file systems -/

section Several

variable {ι σ H N : Type} [DecidableEq ι]

def onOne {α β : Type} (volume : ι) (value : α → β) (program : Program σ FsError α) :
    Program (ι → σ) FsError β :=
  fun volumes => (program (volumes volume)).within value (Function.update volumes volume)

/-- Several file systems; a handle belongs to one of them. -/
def Inode.several (inode : Inode σ H) : Inode (ι → σ) (ι × H) where
  kind handle volumes := inode.kind handle.2 (volumes handle.1)
  size handle volumes := inode.size handle.2 (volumes handle.1)
  readAt handle off len := onOne handle.1 id (inode.readAt handle.2 off len)
  writeAt handle off buf := onOne handle.1 id (inode.writeAt handle.2 off buf)
  lookup handle name := onOne handle.1 (handle.1, ·) (inode.lookup handle.2 name)
  readdir handle := onOne handle.1 id (inode.readdir handle.2)
  create handle name kind := onOne handle.1 (handle.1, ·) (inode.create handle.2 name kind)
  unlink handle name := onOne handle.1 id (inode.unlink handle.2 name)

namespace Listings

def tag (volume : ι) (entry : String × InodeKind × N) : String × InodeKind × ι × N :=
  (entry.1, entry.2.1, volume, entry.2.2)

def gather (each : ι → Listings N) : Listings (ι × N) := fun node =>
  (each node.1 node.2).map (List.map (tag node.1))

omit [DecidableEq ι] in
theorem child_gather (each : ι → Listings N) (volume : ι) (dir : N) (name : String) :
    (gather each).child (volume, dir) name = ((each volume).child dir name).map (volume, ·) := by
  rw [child, child, gather]
  cases each volume dir with
  | none => rfl
  | some entries =>
    simp only [Option.map_some, List.find?_map]
    have sameName : ((fun entry => decide (entry.1 = name)) ∘ tag volume) =
        fun entry : String × InodeKind × N => decide (entry.1 = name) := rfl
    rw [sameName]
    generalize entries.find? (fun entry => entry.1 = name) = found
    cases found <;> rfl

theorem Gains.gather {each : ι → Listings N} {volume : ι} {next : Listings N} {dir : N}
    {entry : String × InodeKind × N} (gains : Gains (each volume) next dir entry) :
    Gains (Listings.gather each) (Listings.gather (Function.update each volume next)) (volume, dir)
      (tag volume entry) where
  here := by
    rcases gains.here with ⟨before, after, wasDir, isDir, isNew⟩
    refine ⟨before.map (tag volume), after.map (tag volume), ?_, ?_, ?_⟩
    · rw [Listings.gather, wasDir, Option.map_some, List.map_append]
    · simp only [Listings.gather, Function.update_self]
      rw [isDir, Option.map_some, List.map_append, List.map_cons]
    · intro other isIn
      rw [← List.map_append] at isIn
      rcases List.mem_map.mp isIn with ⟨old, isOld, rfl⟩
      exact isNew old isOld
  elsewhere := by
    intro other entries different isDir
    rcases other with ⟨at_, node⟩
    by_cases same : at_ = volume
    · subst same
      rcases Option.map_eq_some_iff.mp isDir with ⟨old, isOld, rfl⟩
      simp only [Listings.gather, Function.update_self]
      have differentNode : node ≠ dir := fun same => different (congrArg _ same)
      rw [gains.elsewhere differentNode isOld, Option.map_some]
    · simp only [Listings.gather, Function.update_of_ne same]
      exact isDir

end Listings

def ShowsAll (Shows : σ → Listings N → Prop) (volumes : ι → σ) (dirs : Listings (ι × N)) : Prop :=
  ∃ each, (∀ volume, Shows (volumes volume) (each volume)) ∧ dirs = Listings.gather each

def nodeOf (node : σ → H → Option N) (volumes : ι → σ) (handle : ι × H) : Option (ι × N) :=
  (node (volumes handle.1) handle.2).map (handle.1, ·)

variable {inode : Inode σ H} {Shows : σ → Listings N → Prop} {node : σ → H → Option N}
  {volumes : ι → σ}

omit [DecidableEq ι] in
theorem nodeOf_eq_some {handle : ι × H} {at_ : ι × N} :
    nodeOf node volumes handle = some at_ ↔
      at_.1 = handle.1 ∧ node (volumes handle.1) handle.2 = some at_.2 := by
  rcases at_ with ⟨volume, inner⟩
  rw [nodeOf, Option.map_eq_some_iff]
  constructor
  · intro known
    rcases known with ⟨found, isFound, same⟩
    cases same
    exact ⟨rfl, isFound⟩
  · intro known
    exact ⟨inner, known.2, by rw [← known.1]⟩

theorem KeepsHandles.several {volume : ι} {after : σ}
    (keeps : KeepsHandles node (volumes volume) after) :
    KeepsHandles (nodeOf node) volumes (Function.update volumes volume after) := by
  intro handle at_ known
  rw [nodeOf_eq_some] at known ⊢
  refine ⟨known.1, ?_⟩
  by_cases same : handle.1 = volume
  · rw [same, Function.update_self]
    exact keeps _ _ (same ▸ known.2)
  · rw [Function.update_of_ne same]
    exact known.2

theorem ShowsAll.update {each : ι → Listings N} {volume : ι} {after : σ} {next : Listings N}
    (shown : ∀ volume, Shows (volumes volume) (each volume)) (shows_ : Shows after next) :
    ShowsAll Shows (Function.update volumes volume after)
      (Listings.gather (Function.update each volume next)) := by
  refine ⟨_, ?_, rfl⟩
  intro other
  by_cases same : other = volume
  · rw [same, Function.update_self, Function.update_self]
    exact shows_
  · rw [Function.update_of_ne same, Function.update_of_ne same]
    exact shown other

theorem Provides.several (provides : Provides inode Shows node) :
    Provides (inode.several : Inode (ι → σ) (ι × H)) (ShowsAll Shows) (nodeOf node) where
  unique := by
    intro volumes dirs shows_ handle other at_ known otherKnown
    rcases shows_ with ⟨each, shown, rfl⟩
    rw [nodeOf_eq_some] at known otherKnown
    have sameVolume : handle.1 = other.1 := known.1.symm.trans otherKnown.1
    rw [← sameVolume] at otherKnown
    exact Prod.ext sameVolume (provides.unique (shown _) known.2 otherKnown.2)
  lookup := by
    intro volumes dirs shows_ handle at_ known name
    rcases shows_ with ⟨each, shown, rfl⟩
    rcases handle with ⟨volume, handle⟩
    rcases at_ with ⟨same, at_⟩
    rw [nodeOf_eq_some] at known
    rcases known with ⟨rfl, known⟩
    apply Outcome.meets_within.mpr
    rw [Listings.child_gather]
    have unchanged : Function.update each same (each same) = each := Function.update_eq_self _ _
    apply (provides.lookup (shown same) known name).mono _ _ fun stops => stops
    · intro child after met
      rcases met with ⟨shows_, keeps, found, isChild, isFound⟩
      have shownAfter : ShowsAll Shows (Function.update volumes same after)
          (Listings.gather (Function.update each same (each same))) := .update shown shows_
      rw [unchanged] at shownAfter
      refine ⟨shownAfter, keeps.several, (same, found), by rw [isChild]; rfl, ?_⟩
      rw [nodeOf_eq_some, Function.update_self]
      exact ⟨rfl, isFound⟩
    · intro error after met
      have shownAfter : ShowsAll Shows (Function.update volumes same after)
          (Listings.gather (Function.update each same (each same))) := .update shown met.1
      rw [unchanged] at shownAfter
      exact ⟨shownAfter, KeepsHandles.several met.2.1, by rw [met.2.2]; rfl⟩
  readdir := by
    intro volumes dirs shows_ handle at_ entries known isDir
    rcases shows_ with ⟨each, shown, rfl⟩
    rw [nodeOf_eq_some] at known
    rcases Option.map_eq_some_iff.mp isDir with ⟨old, isOld, rfl⟩
    rw [known.1] at isOld
    have lists := provides.readdir (shown handle.1) known.2 isOld
    have unchanged : Function.update volumes handle.1 (volumes handle.1) = volumes :=
      Function.update_eq_self _ _
    simp only [Inode.several, onOne, lists, Outcome.within, unchanged, List.map_map]
    rfl
  create := by
    intro volumes dirs shows_ handle at_ known name isNamed kind
    rcases shows_ with ⟨each, shown, rfl⟩
    rcases handle with ⟨volume, handle⟩
    rcases at_ with ⟨same, at_⟩
    rw [nodeOf_eq_some] at known
    rcases known with ⟨rfl, known⟩
    apply Outcome.meets_within.mpr
    apply (provides.create (shown same) known isNamed kind).mono _ (fun _ _ met => met)
      fun stops => stops
    intro child after met
    rcases met with ⟨next, new, shows_, keeps, gains, isNew, isKind, isEmpty⟩
    refine ⟨_, (same, new), .update shown shows_, keeps.several, gains.gather, ?_, ?_, ?_⟩
    · rw [nodeOf_eq_some, Function.update_self]
      exact ⟨rfl, isNew⟩
    · simp only [Inode.several, Function.update_self]
      exact isKind
    · simp only [Inode.several, Function.update_self]
      exact isEmpty

end Several

end PersonaOS.Fs
