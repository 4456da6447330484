import PersonaOS.Fs.Volumes
import PersonaOS.Kernel.Dispatch
import PersonaOS.Kernel.Wakeup

/-! # Opening files

The file layer behind the system calls: the mounted volumes, the mount table and the
tables of open files. `sys_open` with `FD_CREATE` resolves the path, and if nothing is
there the parent, each with a search of the mount table of its own. Where the two searches
agree, it creates the file that the path names, and no other path changes its meaning. -/

namespace PersonaOS

open Program Sched Fs

/-! ## The file layer -/

/-- `struct FdTable` -/
structure FdTable where
  slots : Int → Option (OpenFile Handle)
  next : Int

/-- `FdTable::install`; the number of the next file is an `i32`. -/
def FdTable.install (fds : FdTable) (file : OpenFile Handle) : Option (Int × FdTable) :=
  if fds.next + 1 < 2 ^ 31 then
    some (fds.next, ⟨Function.update fds.slots fds.next (some file), fds.next + 1⟩)
  else
    none

def FdTable.close (fds : FdTable) (fd : Int) : Bool × FdTable :=
  ((fds.slots fd).isSome, { fds with slots := Function.update fds.slots fd none })

structure Files (δ : Type) where
  volumes : Nat → Volume
  /-- `MOUNTS`; a file system is known by the handle of its root. -/
  mounts : List (Fs.Text × Handle)
  fds : TaskId → FdTable
  /-- Everything else that system calls reach. -/
  devices : δ

namespace Files

variable {δ : Type}

def onVolumes {α : Type} (program : Program (Nat → Volume) FsError α) :
    Program (Files δ) FsError α :=
  fun files => (program files.volumes).within id fun volumes => { files with volumes }

/-- The methods of the inodes that handles stand for. -/
def inode : Inode (Files δ) Handle where
  kind handle files := Volume.inode.kind handle files.volumes
  size handle files := Volume.inode.size handle files.volumes
  readAt handle off len := onVolumes (Volume.inode.readAt handle off len)
  writeAt handle off buf := onVolumes (Volume.inode.writeAt handle off buf)
  lookup handle name := onVolumes (Volume.inode.lookup handle name)
  readdir handle := onVolumes (Volume.inode.readdir handle)
  create handle name kind := onVolumes (Volume.inode.create handle name kind)
  unlink handle name := onVolumes (Volume.inode.unlink handle name)

/-- `fs::lookup` -/
def lookup (path : Fs.Text) : Program (Files δ) FsError Handle := fun files =>
  onVolumes (Fs.lookup Volume.inode id files.mounts path) files

def setFds (files : Files δ) (task : TaskId) (fds : FdTable) : Files δ :=
  { files with fds := Function.update files.fds task fds }

def install (task : TaskId) (file : OpenFile Handle) : Program (Files δ) FsError Int := do
  let files ← get
  match (files.fds task).install file with
  | none => abort
  | some (fd, fds) =>
    modify fun files => files.setFds task fds
    return fd

def close (task : TaskId) (fd : Int) (files : Files δ) : Bool × Files δ :=
  let (found, fds) := (files.fds task).close fd
  (found, files.setFds task fds)

/-- `file.offset.store(offset)` -/
def setOffset (task : TaskId) (fd : Int) (offset : Nat) (files : Files δ) : Files δ :=
  let fds := files.fds task
  files.setFds task { fds with
    slots := Function.update fds.slots fd ((fds.slots fd).map fun file => { file with offset }) }

end Files

/-- The services of the file layer, next to the `others`. -/
def fileServices {δ : Type} (others : Services (Files δ) Handle) : Services (Files δ) Handle :=
  { others with
    inode := Files.inode
    getFd := fun task fd files => (files.fds task).slots fd
    install := Files.install
    close := Files.close
    setOffset := Files.setOffset
    lookup := fun path => Files.lookup path.toList
    splitParent := fun path =>
      (splitParent path.toList).map fun parts => (String.ofList parts.1, String.ofList parts.2) }

namespace Files

variable {δ : Type}

/-! ## Names -/

/-- The file systems are in order, and the roots that are mounted can be used. -/
structure Sound (files : Files δ) : Prop where
  shown : ∃ dirs, Volume.Shows files.volumes dirs
  rooted : ∀ entry ∈ files.mounts, ∃ at_, Volume.node files.volumes entry.2 = some at_

def Names (files : Files δ) (path : Fs.Text) (at_ : Nat × Nat) : Prop :=
  ∃ handle after, lookup path files = .ok handle after ∧
    Volume.node after.volumes handle = some at_

def Lists (files : Files δ) (path : Fs.Text) (entries : List (String × InodeKind)) : Prop :=
  ∃ handle after, lookup path files = .ok handle after ∧
    inode.readdir handle after = .ok entries after

structure Stands (files : Files δ) (mounts : List (Fs.Text × Handle)) (base : Handle → Nat × Nat)
    (dirs : Listings (Nat × Nat)) : Prop where
  mounted : files.mounts = mounts
  shown : Volume.Shows files.volumes dirs
  rooted : ∀ entry ∈ mounts, Volume.node files.volumes entry.2 = some (base entry.2)

variable {files after : Files δ} {mounts : List (Fs.Text × Handle)} {base : Handle → Nat × Nat}
  {dirs next : Listings (Nat × Nat)}

theorem Sound.stands (sound : files.Sound) :
    ∃ base dirs, files.Stands files.mounts base dirs := by
  rcases sound.shown with ⟨dirs, shown⟩
  refine ⟨fun root => (Volume.node files.volumes root).getD (0, 0), dirs, rfl, shown, ?_⟩
  intro entry isEntry
  rcases sound.rooted entry isEntry with ⟨at_, isRoot⟩
  rw [isRoot, Option.getD_some]

theorem Stands.keep (stands : files.Stands mounts base dirs) (sameMounts : after.mounts = mounts)
    (shown : Volume.Shows after.volumes next)
    (keeps : KeepsHandles Volume.node files.volumes after.volumes) :
    after.Stands mounts base next :=
  ⟨sameMounts, shown, fun entry isEntry => keeps _ _ (stands.rooted entry isEntry)⟩

theorem Stands.lookup (stands : files.Stands mounts base dirs) (path : Fs.Text) :
    (Files.lookup path files).Meets
      (fun handle after => after.Stands mounts base dirs ∧
        KeepsHandles Volume.node files.volumes after.volumes ∧
        ∃ found, dirs.resolve base mounts path = .ok found ∧
          Volume.node after.volumes handle = some found)
      (fun error after => after.Stands mounts base dirs ∧
        KeepsHandles Volume.node files.volumes after.volumes ∧
        dirs.resolve base mounts path = .error error) False := by
  rw [Files.lookup, onVolumes, stands.mounted]
  apply Outcome.meets_within.mpr
  apply (Volume.provides.lookup_path stands.shown stands.rooted path).mono _ _ fun stops => stops
  · intro handle volumes met
    exact ⟨stands.keep rfl met.1 met.2.1, met.2.1, met.2.2⟩
  · intro error volumes met
    exact ⟨stands.keep rfl met.1 met.2.1, met.2.1, met.2.2⟩

theorem Stands.lookup_of_resolve (stands : files.Stands mounts base dirs) {path : Fs.Text}
    {at_ : Nat × Nat} (resolved : dirs.resolve base mounts path = .ok at_) :
    ∃ handle after, Files.lookup path files = .ok handle after ∧ after.Stands mounts base dirs ∧
      KeepsHandles Volume.node files.volumes after.volumes ∧
      Volume.node after.volumes handle = some at_ := by
  have meets := stands.lookup path
  rw [resolved] at meets
  cases ended : Files.lookup path files with
  | ok handle after =>
    rw [ended] at meets
    rcases meets with ⟨standsAfter, keeps, found, same, isFound⟩
    cases same
    exact ⟨handle, after, rfl, standsAfter, keeps, isFound⟩
  | error error after =>
    rw [ended] at meets
    cases meets.2.2
  | panic =>
    rw [ended] at meets
    exact meets.elim

theorem Stands.names_iff (stands : files.Stands mounts base dirs) {path : Fs.Text}
    {at_ : Nat × Nat} :
    files.Names path at_ ↔ dirs.resolve base mounts path = .ok at_ := by
  constructor
  · intro names
    rcases names with ⟨handle, after, ended, isNode⟩
    have meets := stands.lookup path
    rw [ended] at meets
    rcases meets with ⟨_, _, found, resolved, isFound⟩
    rw [isNode] at isFound
    cases isFound
    exact resolved
  · intro resolved
    rcases stands.lookup_of_resolve resolved with ⟨handle, after, ended, _, _, isNode⟩
    exact ⟨handle, after, ended, isNode⟩

theorem Stands.lists (stands : files.Stands mounts base dirs) {path : Fs.Text} {dir : Nat × Nat}
    {entries : List (String × InodeKind × Nat × Nat)}
    (resolved : dirs.resolve base mounts path = .ok dir) (isDir : dirs dir = some entries) :
    files.Lists path (entries.map fun entry => (entry.1, entry.2.1)) := by
  rcases stands.lookup_of_resolve resolved with ⟨handle, after, ended, standsAfter, _, isNode⟩
  have reads := Volume.provides.readdir standsAfter.shown isNode isDir
  refine ⟨handle, after, ended, ?_⟩
  simp only [inode, onVolumes, reads, Outcome.within, id]

theorem Stands.create (stands : files.Stands mounts base dirs) {dir child : Handle}
    {at_ : Nat × Nat} {name : String} (isNode : Volume.node files.volumes dir = some at_)
    (isNamed : name ≠ "") {kind : InodeKind}
    (created : inode.create dir name kind files = .ok child after) :
    ∃ next new, after.Stands mounts base next ∧ dirs.Gains next at_ (name, kind, new) ∧
      Volume.node after.volumes child = some new ∧ inode.kind child after = kind ∧
      inode.size child after = 0 := by
  rcases Outcome.within_eq_ok.mp created with ⟨result, volumes, isCreated, rfl, rfl⟩
  have meets := Volume.provides.create stands.shown isNode isNamed kind
  rw [isCreated] at meets
  rcases meets with ⟨next, new, shown, keeps, gains, isNew, isKind, isEmpty⟩
  exact ⟨next, new, stands.keep stands.mounted shown keeps, gains, isNew, isKind, isEmpty⟩

end Files

section Open

variable {δ : Type} {others : Services (Files δ) Handle} {world after : World (Files δ)}

theorem onSystem_eq_ok {α : Type} {program : Program (Files δ) FsError α} {value : α} :
    onSystem program world = .ok value after ↔
      ∃ system, program world.system = .ok value system ∧ after = { world with system } := by
  rw [onSystem]
  cases program world.system with
  | ok result system =>
    constructor
    · intro returns
      cases returns
      exact ⟨system, rfl, rfl⟩
    · intro returns
      rcases returns with ⟨_, same, rfl⟩
      cases same
      rfl
  | error fault system =>
    apply iff_of_false (by intro same; cases same)
    intro returns
    rcases returns with ⟨_, same, _⟩
    cases same
  | panic =>
    apply iff_of_false (by intro same; cases same)
    intro returns
    rcases returns with ⟨_, same, _⟩
    cases same

theorem openInode_creates {path : String} {flags : Nat} {missed : Files δ} {child : Handle}
    (creates : flags.testBit 2 = true)
    (missing : Files.lookup path.toList world.system = .error .notFound missed)
    (opened : openInode (fileServices others) path flags world = .ok child after) :
    ∃ parent name dir found created, splitParent path.toList = some (parent, name) ∧
      Files.lookup parent missed = .ok dir found ∧
      Files.inode.create dir (String.ofList name) .file found = .ok child created ∧
      after = { world with system := created } := by
  have tries : trySystem ((fileServices others).lookup path) world =
      .ok (.error .notFound) { world with system := missed } := by
    rw [trySystem]
    simp only [fileServices, missing]
  rw [openInode, bind_apply, tries] at opened
  simp only [creates, true_and, if_true] at opened
  rcases bind_eq_ok.mp opened with ⟨parts, _, splits, behindSplit⟩
  rcases okOr_eq_ok.mp splits with ⟨isParts, rfl⟩
  rcases Option.map_eq_some_iff.mp isParts with ⟨⟨parent, name⟩, isSplit, rfl⟩
  rcases bind_eq_ok.mp behindSplit with ⟨dir, _, finds, makes⟩
  rcases onSystem_eq_ok.mp finds with ⟨found, isParent, rfl⟩
  rcases onSystem_eq_ok.mp makes with ⟨created, isCreated, rfl⟩
  simp only [fileServices, String.toList_ofList] at isParent
  exact ⟨parent, name, dir, found, created, isSplit, isParent, isCreated, rfl⟩

theorem install_eq_ok {files last : Files δ} {task : TaskId} {file : OpenFile Handle} {fd : Int}
    (installed : Files.install task file files = .ok fd last) :
    last.volumes = files.volumes ∧ last.mounts = files.mounts ∧
      (last.fds task).slots fd = some file := by
  rw [Files.install, get_bind_apply] at installed
  cases fits : (files.fds task).install file with
  | none =>
    simp only [fits] at installed
    cases installed
  | some result =>
    rcases result with ⟨number, fds⟩
    simp only [fits] at installed
    cases installed
    rw [FdTable.install] at fits
    split at fits
    · cases fits
      refine ⟨rfl, rfl, ?_⟩
      simp only [Files.setFds, Function.update_self]
    · cases fits

theorem sysOpen_eq_ok {ptr len flags : Nat} {path : String} {fd : Int}
    (isPath : String.fromUTF8? ⟨(window world.memory ptr len).toArray⟩ = some path)
    (opened : sysOpen (fileServices others) ptr len flags world = .ok fd after) :
    ∃ handle middle task, openInode (fileServices others) path flags world =
        .ok handle middle ∧ after.system.volumes = middle.system.volumes ∧
      after.system.mounts = middle.system.mounts ∧ middle.kernel.sched.current = some task ∧
      (after.system.fds task).slots fd = some ⟨handle, 0, flags⟩ := by
  rw [sysOpen] at opened
  split at opened
  · cases opened
  · rcases bind_eq_ok.mp opened with ⟨text, _, reads, behindPath⟩
    rcases bind_eq_ok.mp reads with ⟨bytes, _, isRead, decodes⟩
    cases isRead
    rcases okOr_eq_ok.mp decodes with ⟨isText, rfl⟩
    rw [isPath] at isText
    cases isText
    rcases bind_eq_ok.mp behindPath with ⟨handle, middle, isOpen, behindInode⟩
    rcases bind_eq_ok.mp behindInode with ⟨task, _, asks, installs⟩
    rw [currentTask, get_bind_apply] at asks
    rcases okOr_eq_ok.mp asks with ⟨isTask, rfl⟩
    rcases onSystem_eq_ok.mp installs with ⟨last, installed, rfl⟩
    rcases install_eq_ok installed with ⟨sameVolumes, sameMounts, isSlot⟩
    exact ⟨handle, _, task, isOpen, sameVolumes, sameMounts, isTask, isSlot⟩

/-- `sys_open` with `FD_CREATE` of a path that named nothing: if it succeeds, the new file
is what the path names, its directory has one more entry, and every other path names what
it named. No mount point other than `/` may end in a slash. -/
theorem sysOpen_creates (others : Services (Files δ) Handle) (world after : World (Files δ))
    (ptr len flags : Nat) (path : String) (missed : Files δ) (fd : Int)
    (sound : world.system.Sound)
    (points : ∀ entry ∈ world.system.mounts, entry.1.getLast? = some '/' → entry.1 = ['/'])
    (isPath : String.fromUTF8? ⟨(window world.memory ptr len).toArray⟩ = some path)
    (creates : flags.testBit 2 = true)
    (missing : Files.lookup path.toList world.system = .error .notFound missed)
    (opened : sysOpen (fileServices others) ptr len flags world = .ok fd after) :
    ∃ task child last parent name before behind, world.kernel.sched.current = some task ∧
      (after.system.fds task).slots fd = some ⟨child, 0, flags⟩ ∧
      Files.lookup path.toList after.system = .ok child last ∧
      Files.inode.kind child after.system = .file ∧ Files.inode.size child after.system = 0 ∧
      splitParent path.toList = some (parent, name) ∧
      world.system.Lists parent (before ++ behind) ∧
      after.system.Lists parent (before ++ (String.ofList name, .file) :: behind) ∧
      String.ofList name ∉ (before ++ behind).map Prod.fst ∧
      ∀ other at_, world.system.Names other at_ → after.system.Names other at_ := by
  rcases sysOpen_eq_ok isPath opened with
    ⟨child, middle, task, isOpen, volumes, mounts, isTask, isSlot⟩
  rcases openInode_creates creates missing isOpen with
    ⟨parent, name, dir, found, created, isSplit, isParent, isCreated, rfl⟩
  rcases splitParent_eq_some isSplit with ⟨_, _, _, isName, _⟩
  rcases sound.stands with ⟨base, dirs, stands⟩
  have misses := stands.lookup path.toList
  rw [missing] at misses
  have finds := misses.1.lookup parent
  rw [isParent] at finds
  rcases finds with ⟨standsFound, _, at_, atParent, isDir⟩
  have isNamed : String.ofList name ≠ "" := by
    intro isEmpty
    exact isName.1 (String.ofList_inj.mp isEmpty)
  rcases standsFound.create isDir isNamed isCreated with
    ⟨next, new, standsCreated, gains, isNew, isKind, isEmpty⟩
  have standsAfter : after.system.Stands world.system.mounts base next :=
    ⟨mounts.trans standsCreated.mounted, volumes ▸ standsCreated.shown,
      volumes ▸ standsCreated.rooted⟩
  have resolved := gains.resolve_new points isSplit misses.2.2 atParent
  rcases standsAfter.lookup_of_resolve resolved with ⟨handle, last, looked, standsLast, keeps, same⟩
  have isChild : handle = child := by
    apply Volume.provides.unique standsLast.shown same
    apply keeps
    rw [volumes]
    exact isNew
  subst isChild
  rcases gains.here with ⟨before, behind, wasDir, isDir, newName⟩
  have lists := stands.lists atParent wasDir
  have listsAfter := standsAfter.lists (gains.resolve_old atParent) isDir
  rw [List.map_append] at lists
  rw [List.map_append, List.map_cons] at listsAfter
  refine ⟨task, handle, last, parent, name, _, _, isTask, isSlot, looked, ?_, ?_, isSplit, lists,
    listsAfter, ?_, ?_⟩
  · rw [← isKind]
    exact congrArg (Volume.inode.kind handle) volumes
  · rw [← isEmpty]
    exact congrArg (Volume.inode.size handle) volumes
  · intro isOld
    rw [← List.map_append, List.map_map] at isOld
    rcases List.mem_map.mp isOld with ⟨entry, isEntry, sameName⟩
    exact newName entry isEntry sameName
  · intro other found names
    exact standsAfter.names_iff.mpr (gains.resolve_old (stands.names_iff.mp names))

end Open

/-! ## A path through a mount point -/

/-- No device is there and no program can be loaded. -/
def idleServices : Services (Files Unit) Handle where
  inode := Files.inode
  getFd _ _ _ := none
  install := Files.install
  close := Files.close
  setOffset := Files.setOffset
  lookup path := Files.lookup path.toList
  splitParent _ := none
  spawnFromPath _ _ := throw ⟨⟩
  displayInfo _ := none
  displayClear _ system := (-1, system)
  displayFillRect _ _ _ _ _ system := (-1, system)
  drawText _ _ _ _ system := (-1, system)
  pollEventByte system := (none, system)
  netConfigure system := (Vector.replicate 40 0, system)
  netInfo _ := Vector.replicate 40 0
  playTone _ _ system := (Vector.replicate 4 0, system)
  audioInfo _ := Vector.replicate 4 0
  keys := Kernel.adjacentKeys
  resume state := state

/-- A RAM file system with an empty directory `boot`. -/
def bootDirStore : Ramfs.Store :=
  (Ramfs.create Ramfs.root "boot" .dir Ramfs.Store.new).final.getD Ramfs.Store.new

def openingWorld (mounts : List (Fs.Text × Handle)) (path : String) : World (Files Unit) where
  kernel := .boot none ⟨fun _ _ => .unused, ∅, fun _ _ => none, 0⟩
  system :=
    { volumes := fun volume => .inl (if volume = 0 then bootDirStore else .new)
      mounts
      fds := fun _ => ⟨fun _ => none, 3⟩
      devices := ⟨⟩ }
  memory := patch (fun _ => 0) 4096 path.toUTF8.toList

theorem openingWorld_sound {mounts : List (Fs.Text × Handle)} (path : String)
    (roots : ∀ entry ∈ mounts, entry.2.2 = 0) : (openingWorld mounts path).system.Sound where
  shown := by
    refine ⟨_, fun volume => (if volume = 0 then bootDirStore else .new).listing, ?_, rfl⟩
    intro volume
    refine ⟨?_, rfl⟩
    split
    · have linked : ∀ id < bootDirStore.count, ∀ child ∈ (bootDirStore.entries id).children,
          child.2 < bootDirStore.count := by decide +kernel
      exact linked
    · exact Ramfs.linked_new
  rooted := by
    intro entry isEntry
    rcases entry with ⟨mp, volume, root⟩
    have isRoot : root = 0 := roots _ isEntry
    refine ⟨(volume, 0), nodeOf_eq_some.mpr ⟨rfl, Ramfs.node_eq_some.mpr ⟨isRoot.symm, ?_⟩⟩⟩
    simp only [isRoot]
    split
    · decide +kernel
    · decide +kernel

/-- The file is created behind the mount point. -/
theorem sysOpen_creates_in_boot : ∃ after,
    sysOpen (fileServices idleServices) 4096 8 4
      (openingWorld [("/boot".toList, 1, 0), ("/".toList, 0, 0)] "/boot//x") = .ok 3 after ∧
    ∃ child last, Files.lookup "/boot//x".toList after.system = .ok child last ∧
      Files.inode.kind child after.system = .file := by
  generalize isWorld :
    openingWorld [("/boot".toList, 1, 0), ("/".toList, 0, 0)] "/boot//x" = world
  have misses : (Files.lookup "/boot//x".toList world.system).fault? = some .notFound := by
    subst isWorld
    decide +kernel
  have opens : (sysOpen (fileServices idleServices) 4096 8 4 world).value? = some 3 := by
    subst isWorld
    decide +kernel
  have opened := Outcome.eq_ok_of_value? opens world
  have isPath : String.fromUTF8? ⟨(window world.memory 4096 8).toArray⟩ = some "/boot//x" := by
    subst isWorld
    decide +kernel
  have sound : world.system.Sound := by
    subst isWorld
    exact openingWorld_sound _ (by decide)
  have points : ∀ entry ∈ world.system.mounts, entry.1.getLast? = some '/' → entry.1 = ['/'] := by
    subst isWorld
    decide
  rcases sysOpen_creates idleServices world _ 4096 8 4 "/boot//x" _ 3 sound points isPath
    (by decide) (Outcome.eq_error_of_fault? misses world.system) opened with
    ⟨_, child, last, _, _, _, _, _, _, looked, isKind, _⟩
  exact ⟨_, opened, child, last, looked, isKind⟩

/-- `/boot/` as a mount point. -/
def slashMounts : List (Fs.Text × Handle) :=
  mountAll [("/boot/".toList, 1, 0), ("/".toList, 0, 0)]

theorem slashMounts_eq : slashMounts = [("/boot/".toList, 1, 0), ("/".toList, 0, 0)] :=
  mountAll_pair (by decide) (by decide)

/-- With a mount point that ends in a slash, `/boot/x` is in the mounted file system and
its parent `/boot` is a directory of the root: the file is created there and cannot be
looked up. -/
theorem sysOpen_creates_elsewhere : ∃ after,
    (openingWorld slashMounts "/boot/x").system.Sound ∧
    (Files.lookup "/boot/x".toList (openingWorld slashMounts "/boot/x").system).fault? =
      some .notFound ∧
    sysOpen (fileServices idleServices) 4096 7 4 (openingWorld slashMounts "/boot/x") =
      .ok 3 after ∧
    (Files.lookup "/boot/x".toList after.system).fault? = some .notFound := by
  rw [slashMounts_eq]
  generalize isWorld :
    openingWorld [("/boot/".toList, 1, 0), ("/".toList, 0, 0)] "/boot/x" = world
  have opens : (sysOpen (fileServices idleServices) 4096 7 4 world).value? = some 3 := by
    subst isWorld
    decide +kernel
  refine ⟨_, ?_, ?_, Outcome.eq_ok_of_value? opens world, ?_⟩
  · subst isWorld
    exact openingWorld_sound _ (by decide)
  · subst isWorld
    decide +kernel
  · subst isWorld
    decide +kernel

end PersonaOS
