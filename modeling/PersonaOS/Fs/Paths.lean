import PersonaOS.Fs.Ramfs

/-! # Spellings of a path

A walk only sees the non-empty components of a path, but mount points are compared with
the path as it is spelled. `target` is what `resolve_mount` leaves to the walk. Two
spellings have the same target just if mount points of the same file system and length cover
them, and a path and its parent as `split_parent` has it differ by the last component if no
mount point other than `/` ends in a slash. -/

namespace PersonaOS.Fs

open Program

instance (mp path : Text) : Decidable (Covers mp path) := inferInstanceAs (Decidable (_ ∨ _ ∧ _))

/-! ## What is left to walk -/

section Target

variable {φ : Type}

/-- The file system a path is in, and the components to walk from its root. -/
def target (mounts : List (Text × φ)) (path : Text) : Option (φ × List Text) :=
  (resolveMount mounts path).map fun found => (found.1, components found.2)

theorem target_cons (mp : Text) (fs : φ) (mounts : List (Text × φ)) (path : Text) :
    target ((mp, fs) :: mounts) path =
      if Covers mp path then some (fs, (components path).drop (components mp).length)
      else target mounts path := by
  rw [target]
  split
  · next covers =>
    rcases resolveMount_of_covers mounts fs covers with ⟨rest, isFound, whole⟩
    rw [isFound, whole, List.drop_left]
    rfl
  · next uncovered => rw [resolveMount_of_not_covers uncovered, target]

theorem lookup_of_target {σ H : Type} (inode : Inode σ H) (root : φ → H)
    (mounts : List (Text × φ)) {path : Text} (isAbsolute : path.head? = some '/') :
    lookup inode root mounts path = okOr (target mounts path) .notFound >>= fun found =>
      found.2.foldlM (fun node comp => inode.lookup node (String.ofList comp)) (root found.1) := by
  rw [lookup, if_neg (Decidable.not_not.mpr isAbsolute), target]
  cases resolveMount mounts path <;> rfl

end Target

/-! ## Repeated slashes -/

section Covering

variable {φ : Type}

/-- The file system of the first mount point that covers a path, and how many components
that mount point has. -/
def covering (mounts : List (Text × φ)) (path : Text) : Option (φ × Nat) :=
  (mounts.find? fun entry => Covers entry.1 path).map fun entry =>
    (entry.2, (components entry.1).length)

theorem target_eq (mounts : List (Text × φ)) (path : Text) :
    target mounts path =
      (covering mounts path).map fun found => (found.1, (components path).drop found.2) := by
  induction mounts with
  | nil => rfl
  | cons entry mounts induction =>
    rcases entry with ⟨mp, fs⟩
    rw [target_cons, covering, List.find?_cons]
    by_cases covers : Covers mp path
    · simp [covers]
    · simp only [covers, if_false, decide_false]
      exact induction

theorem covering_le {mounts : List (Text × φ)} {path : Text} {found : φ × Nat}
    (isFound : covering mounts path = some found) : found.2 ≤ (components path).length := by
  rcases Option.map_eq_some_iff.mp isFound with ⟨entry, first, rfl⟩
  have holds := List.find?_some first
  have covers : Covers entry.1 path := of_decide_eq_true holds
  rw [covers.components_eq, List.length_append]
  exact Nat.le_add_right _ _

/-- A file system in which every name leads somewhere, and an inode is the way to it. -/
def tracer (φ : Type) : Inode Unit (φ × List String) where
  kind _ _ := .dir
  size _ _ := 0
  readAt _ _ _ := throw .isDir
  writeAt _ _ _ := throw .isDir
  lookup node name := pure (node.1, node.2 ++ [name])
  readdir _ := pure []
  create _ _ _ := throw .unsupported
  unlink _ _ := throw .unsupported

theorem foldlM_tracer (comps : List Text) (node : φ × List String) :
    (comps.foldlM (fun node comp => (tracer φ).lookup node (String.ofList comp)) node) () =
      .ok (node.1, node.2 ++ comps.map String.ofList) () := by
  induction comps generalizing node with
  | nil => simp [pure_apply]
  | cons comp comps induction =>
    rw [List.foldlM_cons, bind_apply]
    simp only [tracer, pure_apply] at induction ⊢
    rw [induction, List.map_cons, List.append_assoc, List.singleton_append]

theorem lookup_tracer {mounts : List (Text × φ)} {path : Text}
    (isAbsolute : path.head? = some '/') :
    (lookup (tracer φ) (fun fs => (fs, [])) mounts path ()).value? =
      (target mounts path).map fun found => (found.1, found.2.map String.ofList) := by
  rw [lookup_of_target _ _ mounts isAbsolute]
  cases target mounts path with
  | none => rfl
  | some found =>
    rw [okOr_some, pure_bind_apply, foldlM_tracer]
    rfl

end Covering

/-- Two spellings of a path name the same file, whatever is mounted, just if the first mount
points that cover them have the same file system and equally many components. -/
theorem lookup_of_same_components {φ : Type} (mounts : List (Text × φ)) (path other : Text)
    (isAbsolute : path.head? = some '/') (otherAbsolute : other.head? = some '/')
    (same : components path = components other) :
    (∀ (σ H : Type) (inode : Inode σ H) (root : φ → H),
      lookup inode root mounts path = lookup inode root mounts other) ↔
    covering mounts path = covering mounts other := by
  constructor
  · intro alike
    have traced := congrArg (fun program => (program ()).value?)
      (alike Unit _ (tracer φ) fun fs => (fs, []))
    simp only [lookup_tracer isAbsolute, lookup_tracer otherAbsolute, target_eq, ← same,
      Option.map_map] at traced
    cases first : covering mounts path with
    | none =>
      rw [first] at traced
      exact (Option.map_eq_none_iff.mp traced.symm).symm
    | some found =>
      rw [first] at traced
      rcases Option.map_eq_some_iff.mp traced.symm with ⟨otherFound, second, isSame⟩
      rcases Prod.mk.inj isSame with ⟨sameFs, sameRest⟩
      have counted := congrArg List.length sameRest
      simp only [List.length_map, List.length_drop] at counted
      have fits := covering_le first
      have otherFits := covering_le second
      rw [← same] at otherFits
      rw [second, Option.some.injEq]
      exact Prod.ext sameFs.symm (by omega)
  · intro alike σ H inode root
    rw [lookup_of_target inode root mounts isAbsolute,
      lookup_of_target inode root mounts otherAbsolute, target_eq, target_eq, alike, same]

def bootStore : Ramfs.Store :=
  (Ramfs.putFile "/hello.txt".toList "hello from ramfs\n".toUTF8.toList Ramfs.Store.new).final.getD
    Ramfs.Store.new

def bootMounts : List (Text × Ramfs.NodeId) :=
  mountAll [("/boot".toList, Ramfs.root), ("/".toList, Ramfs.root)]

theorem bootMounts_eq : bootMounts = [("/boot".toList, 0), ("/".toList, 0)] :=
  mountAll_pair (by decide) (by decide)

/-- Slashes behind the mount point do not matter. -/
theorem lookup_of_same_components_behind :
    lookup Ramfs.inode id bootMounts "/boot/hello.txt".toList =
      lookup Ramfs.inode id bootMounts "/boot//hello.txt".toList := by
  apply (lookup_of_same_components bootMounts _ _ (by decide) (by decide) (by decide)).mpr
  rw [bootMounts_eq]
  decide

/-- A slash in front of the mount point does: `//boot` is not `/boot`. -/
theorem lookup_of_same_components_before :
    components "/boot/hello.txt".toList = components "//boot/hello.txt".toList ∧
      (lookup Ramfs.inode id bootMounts "/boot/hello.txt".toList bootStore).value? = some 1 ∧
      (lookup Ramfs.inode id bootMounts "//boot/hello.txt".toList bootStore).fault? =
        some .notFound := by
  rw [bootMounts_eq]
  exact ⟨by decide, by decide +kernel, by decide +kernel⟩

/-! ## Parents -/

/-- `path.rfind('/')` -/
def rfindSlash (path : Text) : Option Nat :=
  (path.reverse.findIdx? (· = '/')).map fun i => path.length - 1 - i

def splitParent (path : Text) : Option (Text × Text) :=
  if path.head? ≠ some '/' then
    none
  else
    (rfindSlash path).bind fun idx =>
      let name := path.drop (idx + 1)
      if name.isEmpty then
        none
      else
        some (if idx = 0 then ['/'] else path.take idx, name)

/-- The parent of `stem/name`. -/
def parentOf (stem : Text) : Text := if stem = [] then ['/'] else stem

theorem rfindSlash_eq_some {path : Text} {idx : Nat} (found : rfindSlash path = some idx) :
    ∃ stem name, path = stem ++ '/' :: name ∧ stem.length = idx ∧ '/' ∉ name := by
  rcases Option.map_eq_some_iff.mp found with ⟨i, isFound, rfl⟩
  rcases List.findIdx?_eq_some_iff_getElem.mp isFound with ⟨inside, isSlash, earlier⟩
  have whole := List.take_append_drop i path.reverse
  rw [List.drop_eq_getElem_cons inside, of_decide_eq_true isSlash] at whole
  refine ⟨(path.reverse.drop (i + 1)).reverse, (path.reverse.take i).reverse, ?_, ?_, ?_⟩
  · have reversed := congrArg List.reverse whole
    rw [List.reverse_append, List.reverse_cons, List.reverse_reverse, List.append_assoc] at reversed
    exact reversed.symm
  · rw [List.length_reverse, List.length_drop, List.length_reverse]
    omega
  · intro isIn
    rw [List.mem_reverse] at isIn
    rcases List.mem_take_iff_getElem.mp isIn with ⟨j, before, same⟩
    have notSlash := earlier j (by omega)
    rw [same] at notSlash
    exact notSlash (decide_eq_true rfl)

theorem splitParent_eq_some {path parent name : Text}
    (split_ : splitParent path = some (parent, name)) :
    ∃ stem, path = stem ++ '/' :: name ∧ parent = parentOf stem ∧ IsName name ∧
      path.head? = some '/' := by
  rw [splitParent] at split_
  split at split_
  · cases split_
  · next isAbsolute =>
    rw [Decidable.not_not] at isAbsolute
    rcases Option.bind_eq_some_iff.mp split_ with ⟨idx, isIdx, parts⟩
    rcases rfindSlash_eq_some isIdx with ⟨stem, last, rfl, rfl, isLast⟩
    have behind : (stem ++ '/' :: last).drop (stem.length + 1) = last := by
      rw [← List.drop_drop, List.drop_left, List.drop_one, List.tail_cons]
    simp only [behind, List.take_left] at parts
    split at parts
    · cases parts
    · next nonempty =>
      cases parts
      have isName : IsName name := ⟨fun isEmpty => nonempty (by rw [isEmpty]; rfl), isLast⟩
      refine ⟨stem, rfl, ?_, isName, isAbsolute⟩
      rw [parentOf]
      simp only [List.length_eq_zero_iff]

theorem components_parent {stem name : Text} (isName : IsName name) :
    components (stem ++ '/' :: name) = components (parentOf stem) ++ [name] := by
  rw [components_append_slash, components_name isName, parentOf]
  split
  · next isEmpty => rw [isEmpty]; rfl
  · rfl

theorem head_parent {stem name : Text} (isAbsolute : (stem ++ '/' :: name).head? = some '/') :
    (parentOf stem).head? = some '/' := by
  rw [parentOf]
  split
  · rfl
  · next nonempty =>
    rcases List.exists_cons_of_ne_nil nonempty with ⟨first, rest, rfl⟩
    exact isAbsolute

/-! ### Mount points over a path and its parent -/

theorem covers_slash {path : Text} (isAbsolute : path.head? = some '/') : Covers ['/'] path := by
  rcases List.head?_eq_some_iff.mp isAbsolute with ⟨rest, rfl⟩
  exact .inr ⟨⟨rest, rfl⟩, .inl rfl⟩

theorem covers_of_not_slash {mp path : Text} (noSlash : mp.getLast? ≠ some '/') :
    Covers mp path ↔ path = mp ∨ ∃ rest, path = mp ++ '/' :: rest := by
  constructor
  · intro covers
    rcases covers with same | ⟨⟨rest, rfl⟩, atEnd | behind⟩
    · exact .inl same
    · exact absurd atEnd noSlash
    · rw [List.getElem?_append_right (Nat.le_refl _), Nat.sub_self] at behind
      cases rest with
      | nil => cases behind
      | cons first rest =>
        cases behind
        exact .inr ⟨rest, rfl⟩
  · intro parts
    rcases parts with same | ⟨rest, rfl⟩
    · exact .inl same
    · refine .inr ⟨List.prefix_append _ _, .inr ?_⟩
      rw [List.getElem?_append_right (Nat.le_refl _), Nat.sub_self]
      rfl

theorem covers_parent {mp stem name : Text} (isName : IsName name)
    (isAbsolute : (stem ++ '/' :: name).head? = some '/')
    (point : mp.getLast? = some '/' → mp = ['/']) (different : stem ++ '/' :: name ≠ mp) :
    Covers mp (stem ++ '/' :: name) ↔ Covers mp (parentOf stem) := by
  by_cases slash : mp.getLast? = some '/'
  · rw [point slash]
    exact iff_of_true (covers_slash isAbsolute) (covers_slash (head_parent isAbsolute))
  rw [covers_of_not_slash slash, covers_of_not_slash slash, or_iff_right different]
  constructor
  · intro behind
    rcases behind with ⟨rest, whole⟩
    rcases List.append_eq_append_iff.mp whole with ⟨more, rfl, parts⟩ | ⟨more, rfl, parts⟩
    · cases more with
      | nil =>
        rw [List.append_nil, parentOf]
        split
        · next isEmpty => exact .inr ⟨[], by rw [isEmpty]; rfl⟩
        · exact .inl rfl
      | cons first more =>
        rw [List.cons_append] at parts
        have inName : '/' ∈ name := by
          rw [(List.cons.inj parts).2]
          exact List.mem_append_right _ List.mem_cons_self
        exact absurd inName isName.2
    · cases more with
      | nil =>
        rw [List.append_nil, parentOf]
        split
        · next isEmpty => exact .inr ⟨[], by rw [isEmpty]; rfl⟩
        · exact .inl rfl
      | cons first more =>
        rw [List.cons_append] at parts
        rw [parentOf, if_neg (by simp), ← (List.cons.inj parts).1]
        exact .inr ⟨more, rfl⟩
  · intro onParent
    rw [parentOf] at onParent
    split at onParent
    · next isEmpty =>
      subst isEmpty
      rcases onParent with same | ⟨rest, whole⟩
      · rw [← same] at slash
        exact absurd rfl slash
      · cases mp with
        | nil => exact ⟨name, rfl⟩
        | cons first mp =>
          rw [List.cons_append] at whole
          have tooLong := (List.cons.inj whole).2
          cases mp <;> cases tooLong
    · rcases onParent with rfl | ⟨rest, rfl⟩
      · exact ⟨name, rfl⟩
      · exact ⟨rest ++ '/' :: name, by rw [List.append_assoc, List.cons_append]⟩

theorem target_parent {φ : Type} {mounts : List (Text × φ)} {stem name : Text}
    (isName : IsName name) (isAbsolute : (stem ++ '/' :: name).head? = some '/')
    (points : ∀ entry ∈ mounts, entry.1.getLast? = some '/' → entry.1 = ['/']) :
    (∃ fs, target mounts (stem ++ '/' :: name) = some (fs, [])) ∨
      target mounts (stem ++ '/' :: name) =
        (target mounts (parentOf stem)).map fun found => (found.1, found.2 ++ [name]) := by
  induction mounts with
  | nil => exact .inr rfl
  | cons entry mounts induction =>
    rcases entry with ⟨mp, fs⟩
    have rest := induction fun entry isEntry => points entry (List.mem_cons_of_mem _ isEntry)
    have point := points (mp, fs) List.mem_cons_self
    rw [target_cons, target_cons]
    by_cases same : stem ++ '/' :: name = mp
    · rw [if_pos (.inl same), same, List.drop_length]
      exact .inl ⟨fs, rfl⟩
    have sameCover := covers_parent isName isAbsolute point same
    by_cases covers : Covers mp (stem ++ '/' :: name)
    · have whole := (sameCover.mp covers).components_eq
      rw [if_pos covers, if_pos (sameCover.mp covers), components_parent isName, whole,
        List.drop_left, List.append_assoc, List.drop_left]
      exact .inr rfl
    · rw [if_neg covers, if_neg fun onParent => covers (sameCover.mpr onParent)]
      exact rest

/-! ## Resolving on listings -/

namespace Listings

variable {φ N : Type}

/-- The inode a path names, with the roots of the file systems given by `base`. -/
def resolve (dirs : Listings N) (base : φ → N) (mounts : List (Text × φ)) (path : Text) :
    Except FsError N :=
  if path.head? ≠ some '/' then
    .error .invalidPath
  else
    match target mounts path with
    | none => .error .notFound
    | some found => dirs.walk (found.2.map String.ofList) (base found.1)

variable {dirs next : Listings N} {base : φ → N} {mounts : List (Text × φ)} {path : Text}

theorem resolve_eq_ok {node : N} : dirs.resolve base mounts path = .ok node ↔
    path.head? = some '/' ∧ ∃ found, target mounts path = some found ∧
      dirs.walk (found.2.map String.ofList) (base found.1) = .ok node := by
  rw [resolve]
  split
  · next relative => exact iff_of_false (by intro same; cases same) fun known => relative known.1
  · next isAbsolute =>
    rw [Decidable.not_not] at isAbsolute
    cases isTarget : target mounts path with
    | none =>
      apply iff_of_false
      · intro same
        cases same
      · intro known
        rcases known.2 with ⟨found, isFound, _⟩
        cases isFound
    | some found =>
      constructor
      · intro leads
        exact ⟨isAbsolute, found, rfl, leads⟩
      · intro known
        rcases known.2 with ⟨other, isOther, leads⟩
        cases isOther
        exact leads

theorem Gains.resolve_old {dir node : N} {entry : String × InodeKind × N}
    (gains : Gains dirs next dir entry) (resolved : dirs.resolve base mounts path = .ok node) :
    next.resolve base mounts path = .ok node := by
  rw [resolve_eq_ok] at resolved ⊢
  rcases resolved with ⟨isAbsolute, found, isFound, leads⟩
  exact ⟨isAbsolute, found, isFound, gains.walk_old leads⟩

theorem Gains.resolve_new {dir new : N} {parent name : Text} {kind : InodeKind}
    (gains : Gains dirs next dir (String.ofList name, kind, new))
    (points : ∀ entry ∈ mounts, entry.1.getLast? = some '/' → entry.1 = ['/'])
    (isSplit : splitParent path = some (parent, name))
    (missing : dirs.resolve base mounts path = .error .notFound)
    (isParent : dirs.resolve base mounts parent = .ok dir) :
    next.resolve base mounts path = .ok new := by
  rcases splitParent_eq_some isSplit with ⟨stem, rfl, rfl, isName, isAbsolute⟩
  rcases resolve_eq_ok.mp isParent with ⟨_, found, isFound, leads⟩
  rcases target_parent isName isAbsolute points with ⟨fs, atMount⟩ | below
  · rw [resolve, if_neg (Decidable.not_not.mpr isAbsolute), atMount] at missing
    cases missing
  · rw [isFound, Option.map_some] at below
    refine resolve_eq_ok.mpr ⟨isAbsolute, _, below, ?_⟩
    rw [List.map_append, List.map_singleton, walk_concat (gains.walk_old leads)]
    exact gains.child_new

end Listings

/-! ### Walking a path -/

theorem target_mem {φ : Type} {mounts : List (Text × φ)} {path : Text} {found : φ × List Text}
    (isTarget : target mounts path = some found) : ∃ entry ∈ mounts, entry.2 = found.1 := by
  rcases Option.map_eq_some_iff.mp isTarget with ⟨⟨fs, rest⟩, resolved, rfl⟩
  rcases resolveMount_eq_some resolved with ⟨before, mp, after, rfl, _⟩
  exact ⟨(mp, fs), List.mem_append_right _ List.mem_cons_self, rfl⟩

theorem Provides.lookup_path {φ σ H N : Type} {inode : Inode σ H} {Shows : σ → Listings N → Prop}
    {node : σ → H → Option N} (provides : Provides inode Shows node) {fs : σ} {dirs : Listings N}
    (shows_ : Shows fs dirs) {mounts : List (Text × φ)} {root : φ → H} {base : φ → N}
    (rooted : ∀ entry ∈ mounts, node fs (root entry.2) = some (base entry.2)) (path : Text) :
    (Fs.lookup inode root mounts path fs).Meets
      (fun handle after => Shows after dirs ∧ KeepsHandles node fs after ∧
        ∃ found, dirs.resolve base mounts path = .ok found ∧ node after handle = some found)
      (fun error after => Shows after dirs ∧ KeepsHandles node fs after ∧
        dirs.resolve base mounts path = .error error) False := by
  by_cases isAbsolute : path.head? = some '/'
  · rw [lookup_of_target inode root mounts isAbsolute, Listings.resolve,
      if_neg (Decidable.not_not.mpr isAbsolute)]
    cases isTarget : target mounts path with
    | none => exact ⟨shows_, KeepsHandles.refl node fs, rfl⟩
    | some found =>
      rcases target_mem isTarget with ⟨entry, isEntry, same⟩
      have known := rooted entry isEntry
      rw [same] at known
      exact provides.walk shows_ known found.2
  · rw [Fs.lookup, if_pos isAbsolute, Listings.resolve, if_pos isAbsolute]
    exact ⟨shows_, KeepsHandles.refl node fs, rfl⟩

end PersonaOS.Fs
