import Mathlib.Data.List.Induction
import PersonaOS.Fs.Inode

/-! # The mount table

`mount` keeps the table sorted by descending length of the mount points, and
`resolve_mount` takes the first mount point that is the path, or a prefix of it that ends
at a slash. On normalized absolute paths that is the mount point with the longest list of
components among those that are component prefixes of the path.

A string is the list of its characters; where the source measures one, it counts UTF-8
bytes. -/

namespace PersonaOS.Fs

open Program

abbrev Text := List Char

/-- `str::len` -/
def Text.byteLen : Text → Nat
  | [] => 0
  | first :: rest => first.utf8Size + byteLen rest

/-- `text.split('/').filter(|c| !c.is_empty())` -/
def components (text : Text) : List Text := (text.splitOn '/').filter fun comp => !comp.isEmpty

/-! ## The table -/

section Table

variable {φ : Type}

/-- `if let Some(slot) = m.iter_mut().find(|(p, _)| p == path) { slot.1 = fs; return; }` -/
def replace (path : Text) (fs : φ) : List (Text × φ) → Option (List (Text × φ))
  | [] => none
  | (point, old) :: rest =>
    if point = path then some ((point, fs) :: rest)
    else (replace path fs rest).map ((point, old) :: ·)

def mount (mounts : List (Text × φ)) (path : Text) (fs : φ) : List (Text × φ) :=
  match replace path fs mounts with
  | some replaced => replaced
  | none =>
    (mounts ++ [(path, fs)]).mergeSort fun a b => decide (b.1.byteLen ≤ a.1.byteLen)

/-- The table after `mount` calls with the given arguments. -/
def mountAll (calls : List (Text × φ)) : List (Text × φ) :=
  calls.foldl (fun mounts call => mount mounts call.1 call.2) []

def resolveMount : List (Text × φ) → Text → Option (φ × Text)
  | [], _ => none
  | (mp, fs) :: mounts, path =>
    if path = mp then
      some (fs, ['/'])
    else if mp.isPrefixOf path ∧ (mp.getLast? = some '/' ∨ path[mp.length]? = some '/') then
      let rest := path.drop mp.length
      some (fs, if rest.isEmpty then ['/'] else rest)
    else
      resolveMount mounts path

def lookup {σ H : Type} (inode : Inode σ H) (root : φ → H) (mounts : List (Text × φ))
    (path : Text) : Program σ FsError H :=
  if path.head? ≠ some '/' then
    throw .invalidPath
  else do
    let (fs, rest) ← okOr (resolveMount mounts path) .notFound
    (components rest).foldlM (fun node comp => inode.lookup node (String.ofList comp)) (root fs)

end Table

/-! ## Normalized paths -/

/-- A component: not empty, and without a slash. -/
def IsName (name : Text) : Prop := name ≠ [] ∧ '/' ∉ name

instance (name : Text) : Decidable (IsName name) := inferInstanceAs (Decidable (_ ∧ _))

/-- The absolute path of the given components: `/`, or each component behind a slash. -/
def absolute : List Text → Text
  | [] => ['/']
  | name :: names => (name :: names).flatMap ('/' :: ·)

def Normalized (path : Text) : Prop :=
  ∃ names : List Text, (∀ name ∈ names, IsName name) ∧ path = absolute names

@[simp] theorem components_nil : components [] = [] := rfl

theorem components_append_slash (before after : Text) :
    components (before ++ '/' :: after) = components before ++ components after := by
  rw [components, List.splitOn_append_cons_self, List.filter_append, components, components]

@[simp] theorem components_slash (after : Text) : components ('/' :: after) = components after :=
  components_append_slash [] after

theorem components_name {name : Text} (isName : IsName name) : components name = [name] := by
  rw [components, List.splitOn_eq_singleton isName.2]
  simp [isName.1]

def behindSlashes (names : List Text) : Text := names.flatMap ('/' :: ·)

theorem absolute_of_ne {names : List Text} (notRoot : names ≠ []) :
    absolute names = behindSlashes names := by
  cases names with
  | nil => exact absurd rfl notRoot
  | cons name names => rfl

theorem behindSlashes_append (names more : List Text) :
    behindSlashes (names ++ more) = behindSlashes names ++ behindSlashes more :=
  List.flatMap_append

theorem behindSlashes_cons (name : Text) (names : List Text) :
    behindSlashes (name :: names) = '/' :: (name ++ behindSlashes names) := by
  simp [behindSlashes]

theorem components_behindSlashes {names : List Text} (areNames : ∀ name ∈ names, IsName name) :
    components (behindSlashes names) = names := by
  induction names with
  | nil => rfl
  | cons name names induction =>
    have isName := areNames name List.mem_cons_self
    have rest := induction fun other isIn => areNames other (List.mem_cons_of_mem _ isIn)
    rw [behindSlashes_cons, components_slash]
    cases names with
    | nil => rw [behindSlashes, List.flatMap_nil, List.append_nil, components_name isName]
    | cons next names =>
      rw [behindSlashes_cons, components_slash] at rest
      rw [behindSlashes_cons, components_append_slash, components_name isName, rest]
      rfl

theorem components_absolute {names : List Text} (areNames : ∀ name ∈ names, IsName name) :
    components (absolute names) = names := by
  cases names with
  | nil => rfl
  | cons name names => exact components_behindSlashes areNames

theorem Normalized.absolute_components {path : Text} (normalized : Normalized path) :
    absolute (components path) = path := by
  rcases normalized with ⟨names, areNames, rfl⟩
  rw [components_absolute areNames]

theorem Normalized.areNames {path : Text} (normalized : Normalized path) :
    ∀ name ∈ components path, IsName name := by
  rcases normalized with ⟨names, areNames, rfl⟩
  rwa [components_absolute areNames]

/-! ## Matching one mount point -/

/-- The test `resolve_mount` makes on one entry of the table. -/
def Covers (mp path : Text) : Prop :=
  path = mp ∨ mp <+: path ∧ (mp.getLast? = some '/' ∨ path[mp.length]? = some '/')

/-- Where a mount point covers a path, its components are the first of the path's, and
what is behind it has the others. -/
theorem Covers.components_eq {mp path : Text} (covers : Covers mp path) :
    components path = components mp ++ components (path.drop mp.length) := by
  rcases covers with rfl | ⟨⟨rest, rfl⟩, boundary⟩
  · rw [List.drop_length, components_nil, List.append_nil]
  rw [List.drop_left]
  rcases boundary with atEnd | behind
  · rcases List.getLast?_eq_some_iff.mp atEnd with ⟨start, rfl⟩
    rw [List.append_assoc, List.singleton_append, components_append_slash,
      components_append_slash, components_nil, List.append_nil]
  · rw [List.getElem?_append_right (Nat.le_refl _), Nat.sub_self] at behind
    cases rest with
    | nil => cases behind
    | cons first rest =>
      cases behind
      rw [components_append_slash, components_slash]

theorem covers_iff {mp path : Text} (point : Normalized mp) (normalized : Normalized path) :
    Covers mp path ↔ components mp <+: components path := by
  constructor
  · intro covers
    rw [covers.components_eq]
    exact List.prefix_append _ _
  · intro initial
    rcases initial with ⟨rest, whole⟩
    rw [← point.absolute_components, ← normalized.absolute_components, ← whole]
    cases rest with
    | nil => exact .inl (by rw [List.append_nil])
    | cons name rest =>
      have notRoot : components mp ++ name :: rest ≠ [] := by simp
      rw [absolute_of_ne notRoot, behindSlashes_append]
      right
      by_cases atRoot : components mp = []
      · rw [atRoot]
        exact ⟨⟨name ++ behindSlashes rest, by rw [behindSlashes_cons]; rfl⟩, .inl rfl⟩
      · rw [absolute_of_ne atRoot]
        refine ⟨List.prefix_append _ _, .inr ?_⟩
        rw [List.getElem?_append_right (Nat.le_refl _), Nat.sub_self, behindSlashes_cons]
        rfl

/-! ## Searching the table -/

section Search

variable {φ : Type} {mounts : List (Text × φ)} {mp path : Text} {fs : φ}

theorem resolveMount_of_covers (mounts : List (Text × φ)) (fs : φ) (covers : Covers mp path) :
    ∃ rest, resolveMount ((mp, fs) :: mounts) path = some (fs, rest) ∧
      components path = components mp ++ components rest := by
  rw [resolveMount]
  by_cases same : path = mp
  · rw [if_pos same]
    exact ⟨_, rfl, by rw [same, components_slash, components_nil, List.append_nil]⟩
  · have behind := covers.resolve_left same
    rw [if_neg same, if_pos ⟨List.isPrefixOf_iff_prefix.mpr behind.1, behind.2⟩]
    refine ⟨_, rfl, ?_⟩
    rw [covers.components_eq]
    split
    · next empty => rw [List.isEmpty_iff.mp empty, components_slash]
    · rfl

theorem resolveMount_of_not_covers (uncovered : ¬ Covers mp path) :
    resolveMount ((mp, fs) :: mounts) path = resolveMount mounts path := by
  rw [Covers, not_or, ← List.isPrefixOf_iff_prefix] at uncovered
  rw [resolveMount, if_neg uncovered.1, if_neg uncovered.2]

theorem resolveMount_eq_some {rest : Text}
    (resolved : resolveMount mounts path = some (fs, rest)) :
    ∃ before mp after, mounts = before ++ (mp, fs) :: after ∧
      (∀ entry ∈ before, ¬ Covers entry.1 path) ∧ Covers mp path ∧
      components path = components mp ++ components rest := by
  induction mounts with
  | nil => cases resolved
  | cons entry mounts induction =>
    rcases entry with ⟨mp, first⟩
    by_cases covers : Covers mp path
    · rcases resolveMount_of_covers mounts first covers with ⟨found, isFound, whole⟩
      rw [isFound] at resolved
      cases resolved
      exact ⟨[], mp, mounts, rfl, nofun, covers, whole⟩
    · rw [resolveMount_of_not_covers covers] at resolved
      rcases induction resolved with ⟨before, point, after, rfl, uncovered, found⟩
      refine ⟨(mp, first) :: before, point, after, rfl, ?_, found⟩
      intro entry isIn
      rcases List.mem_cons.mp isIn with rfl | isIn
      · exact covers
      · exact uncovered entry isIn

theorem resolveMount_eq_none :
    resolveMount mounts path = none ↔ ∀ entry ∈ mounts, ¬ Covers entry.1 path := by
  induction mounts with
  | nil => exact iff_of_true rfl nofun
  | cons entry mounts induction =>
    rcases entry with ⟨mp, first⟩
    rw [List.forall_mem_cons]
    by_cases covers : Covers mp path
    · rcases resolveMount_of_covers mounts first covers with ⟨found, isFound, _⟩
      rw [isFound]
      exact iff_of_false (Option.some_ne_none _) fun all => all.1 covers
    · rw [resolveMount_of_not_covers covers, induction]
      exact ⟨fun rest => ⟨covers, rest⟩, fun all => all.2⟩

end Search

/-! ## Building the table -/

section Building

variable {φ : Type} {calls mounts : List (Text × φ)} {path point : Text} {fs : φ}

/-- `fs` is what was mounted at `point` last. -/
def LatestAt (calls : List (Text × φ)) (point : Text) (fs : φ) : Prop :=
  ∃ before after, calls = before ++ (point, fs) :: after ∧ ∀ call ∈ after, call.1 ≠ point

theorem latestAt_concat {other : φ} : LatestAt (calls ++ [(path, fs)]) point other ↔
    (point = path ∧ other = fs) ∨ point ≠ path ∧ LatestAt calls point other := by
  constructor
  · intro latest
    rcases latest with ⟨before, after, whole, last⟩
    rcases List.eq_nil_or_concat after with rfl | ⟨after, call, rfl⟩
    · rcases List.append_inj' whole rfl with ⟨_, sameCall⟩
      cases sameCall
      exact .inl ⟨rfl, rfl⟩
    · rw [List.concat_eq_append] at whole last
      rw [← List.cons_append, ← List.append_assoc] at whole
      rcases List.append_inj' whole rfl with ⟨rfl, sameCall⟩
      cases sameCall
      refine .inr ⟨(last (path, fs) (by simp)).symm, before, after, rfl, ?_⟩
      intro call isIn
      exact last call (List.mem_append_left _ isIn)
  · intro cases_
    rcases cases_ with ⟨rfl, rfl⟩ | ⟨different, before, after, rfl, last⟩
    · exact ⟨calls, [], rfl, nofun⟩
    · refine ⟨before, after ++ [(path, fs)], by simp, ?_⟩
      intro call isIn
      rcases List.mem_append.mp isIn with isIn | isIn
      · exact last call isIn
      · rw [List.mem_singleton.mp isIn]
        exact different.symm

/-- The table holds what was mounted last at each point, each point once, the longest
points first. -/
structure Table (calls mounts : List (Text × φ)) : Prop where
  sorted : (mounts.map Prod.fst).Pairwise fun a b => b.byteLen ≤ a.byteLen
  distinct : (mounts.map Prod.fst).Nodup
  latest : ∀ point fs, (point, fs) ∈ mounts ↔ LatestAt calls point fs

theorem replace_eq_none (missing : replace path fs mounts = none) :
    path ∉ mounts.map Prod.fst := by
  induction mounts with
  | nil => exact List.not_mem_nil
  | cons entry mounts induction =>
    rw [replace] at missing
    split at missing
    · cases missing
    · next different =>
      rw [List.map_cons, List.mem_cons, not_or]
      exact ⟨Ne.symm different, induction (Option.map_eq_none_iff.mp missing)⟩

theorem replace_eq_some {replaced : List (Text × φ)}
    (isReplaced : replace path fs mounts = some replaced)
    (distinct : (mounts.map Prod.fst).Nodup) :
    path ∈ mounts.map Prod.fst ∧ replaced.map Prod.fst = mounts.map Prod.fst ∧
      ∀ point other, (point, other) ∈ replaced ↔
        (point = path ∧ other = fs) ∨ point ≠ path ∧ (point, other) ∈ mounts := by
  induction mounts generalizing replaced with
  | nil => cases isReplaced
  | cons entry mounts induction =>
    rcases entry with ⟨first, old⟩
    rw [List.map_cons, List.nodup_cons] at distinct
    rw [replace] at isReplaced
    split at isReplaced
    · next same =>
      subst same
      cases isReplaced
      refine ⟨List.mem_cons_self, rfl, fun point other => ?_⟩
      have elsewhere : (first, other) ∉ mounts := fun isIn =>
        distinct.1 (List.mem_map.mpr ⟨(first, other), isIn, rfl⟩)
      by_cases same : point = first
      · subst same
        simp [elsewhere]
      · simp [same]
    · next different =>
      rcases Option.map_eq_some_iff.mp isReplaced with ⟨rest, isRest, rfl⟩
      rcases induction isRest distinct.2 with ⟨isIn, sameKeys, members⟩
      refine ⟨List.mem_cons_of_mem _ isIn, by rw [List.map_cons, sameKeys, List.map_cons], ?_⟩
      intro point other
      rw [List.mem_cons, List.mem_cons, members]
      by_cases same : point = path
      · subst same
        simp [Ne.symm different]
      · simp [same]

theorem Table.mount (table : Table calls mounts) :
    Table (calls ++ [(path, fs)]) (Fs.mount mounts path fs) := by
  rw [Fs.mount]
  split
  · next replaced isReplaced =>
    rcases replace_eq_some isReplaced table.distinct with ⟨_, sameKeys, members⟩
    exact {
      sorted := by
        rw [sameKeys]
        exact table.sorted
      distinct := by
        rw [sameKeys]
        exact table.distinct
      latest := by
        intro point other
        rw [members, latestAt_concat, table.latest] }
  · next missing =>
    have isNew := replace_eq_none missing
    have perm := List.mergeSort_perm (mounts ++ [(path, fs)])
      fun a b => decide (b.1.byteLen ≤ a.1.byteLen)
    exact {
      sorted := by
        rw [List.pairwise_map]
        have sorted : ((mounts ++ [(path, fs)]).mergeSort fun a b =>
            decide (b.1.byteLen ≤ a.1.byteLen)).Pairwise fun a b =>
              decide (b.1.byteLen ≤ a.1.byteLen) = true := by
          apply List.pairwise_mergeSort
          · intro a b c
            simp only [decide_eq_true_eq]
            omega
          · intro a b
            simp only [Bool.or_eq_true, decide_eq_true_eq]
            omega
        simpa using sorted
      distinct := by
        rw [(perm.map Prod.fst).nodup_iff, List.map_append]
        apply List.nodup_append.mpr ⟨table.distinct, by simp, _⟩
        intro point isOld other isOther same
        rw [same, List.mem_singleton.mp isOther] at isOld
        exact isNew isOld
      latest := by
        intro point other
        rw [perm.mem_iff, latestAt_concat, List.mem_append, List.mem_singleton, ← table.latest]
        have missing : (path, other) ∉ mounts := fun isIn =>
          isNew (List.mem_map.mpr ⟨(path, other), isIn, rfl⟩)
        by_cases same : point = path
        · subst same
          simp [missing]
        · simp [same] }

theorem exists_latestAt {call : Text × φ} (isCall : call ∈ calls) :
    ∃ fs, LatestAt calls call.1 fs := by
  induction calls using List.reverseRecOn with
  | nil => cases isCall
  | append_singleton calls last induction =>
    by_cases same : call.1 = last.1
    · exact ⟨last.2, latestAt_concat.mpr (.inl ⟨same, rfl⟩)⟩
    · have earlier : call ∈ calls := by
        rcases List.mem_append.mp isCall with earlier | isLast
        · exact earlier
        · exact absurd (congrArg Prod.fst (List.mem_singleton.mp isLast)) same
      rcases induction earlier with ⟨fs, latest⟩
      exact ⟨fs, latestAt_concat.mpr (.inr ⟨same, latest⟩)⟩

theorem LatestAt.isCall (latest : LatestAt calls point fs) : (point, fs) ∈ calls := by
  rcases latest with ⟨before, after, rfl, _⟩
  exact List.mem_append_right _ List.mem_cons_self

theorem table_mountAll (calls : List (Text × φ)) : Table calls (mountAll calls) := by
  induction calls using List.reverseRecOn with
  | nil =>
    exact {
      sorted := .nil
      distinct := .nil
      latest := by
        intro point fs
        apply iff_of_false List.not_mem_nil
        intro latest
        rcases latest with ⟨before, after, whole, _⟩
        simp at whole }
  | append_singleton calls call induction =>
    rw [mountAll, List.foldl_append]
    exact induction.mount

theorem mountAll_pair {longer shorter : Text × φ} (different : longer.1 ≠ shorter.1)
    (bytes : shorter.1.byteLen ≤ longer.1.byteLen) :
    mountAll [longer, shorter] = [longer, shorter] := by
  have isNew : replace shorter.1 shorter.2 [longer] = none := by
    rw [replace, if_neg different]
    rfl
  rw [mountAll, List.foldl_cons, List.foldl_cons, List.foldl_nil, Fs.mount, Fs.mount, replace,
    List.nil_append, List.mergeSort_singleton, isNew]
  apply List.mergeSort_of_pairwise
  simp [bytes]

end Building

/-! ## The longest mount point -/

theorem byteLen_append (first second : Text) :
    (first ++ second).byteLen = first.byteLen + second.byteLen := by
  induction first with
  | nil => rw [List.nil_append, Text.byteLen, Nat.zero_add]
  | cons char rest induction =>
    rw [List.cons_append, Text.byteLen, Text.byteLen, induction, Nat.add_assoc]

theorem byteLen_pos {text : Text} (nonempty : text ≠ []) : 0 < text.byteLen := by
  cases text with
  | nil => exact absurd rfl nonempty
  | cons first rest =>
    have positive := first.utf8Size_pos
    rw [Text.byteLen]
    omega

theorem byteLen_absolute_lt {names more : List Text} (areNames : ∀ name ∈ more, IsName name)
    (someMore : more ≠ []) :
    (absolute names).byteLen < (absolute (names ++ more)).byteLen := by
  rcases List.exists_cons_of_ne_nil someMore with ⟨name, rest, rfl⟩
  have notRoot : names ++ name :: rest ≠ [] := by simp
  have positive := byteLen_pos (areNames name List.mem_cons_self).1
  have slash : Text.byteLen ['/'] = 1 := rfl
  have behind : (behindSlashes (name :: rest)).byteLen =
      1 + (name.byteLen + (behindSlashes rest).byteLen) := by
    rw [behindSlashes_cons, ← List.singleton_append, byteLen_append, byteLen_append, slash]
  rw [absolute_of_ne notRoot, behindSlashes_append, byteLen_append, behind]
  by_cases atRoot : names = []
  · subst atRoot
    rw [absolute, slash]
    omega
  · rw [absolute_of_ne atRoot]
    omega

/-- Of two component prefixes of one path, the one with no fewer bytes has no fewer
components. -/
theorem length_le_of_byteLen_le {mp other path : Text} (point : Normalized mp)
    (otherPoint : Normalized other) (initial : components mp <+: components path)
    (otherInitial : components other <+: components path)
    (bytes : other.byteLen ≤ mp.byteLen) :
    (components other).length ≤ (components mp).length := by
  by_contra longer
  rcases List.prefix_of_prefix_length_le initial otherInitial (by omega) with ⟨more, whole⟩
  have someMore : more ≠ [] := by
    rintro rfl
    rw [← whole, List.append_nil] at longer
    omega
  have areNames : ∀ name ∈ more, IsName name := by
    intro name isIn
    apply otherPoint.areNames
    rw [← whole]
    exact List.mem_append_right _ isIn
  have fewer : (absolute (components mp)).byteLen < (absolute (components mp ++ more)).byteLen :=
    byteLen_absolute_lt areNames someMore
  rw [whole, point.absolute_components, otherPoint.absolute_components] at fewer
  omega

/-- The file system that a path resolves to is the one mounted last at the mount point
with the longest component prefix of the path, and the remainder has the rest of the
components; nothing is found just if no mount point is a component prefix. -/
theorem resolveMount_longest {φ : Type} (calls : List (Text × φ))
    (points : ∀ call ∈ calls, Normalized call.1) (path : Text) (normalized : Normalized path) :
    (∀ fs rest, resolveMount (mountAll calls) path = some (fs, rest) →
      ∃ mp, LatestAt calls mp fs ∧ components path = components mp ++ components rest ∧
        ∀ call ∈ calls, components call.1 <+: components path →
          (components call.1).length ≤ (components mp).length) ∧
    (resolveMount (mountAll calls) path = none ↔
      ∀ call ∈ calls, ¬ components call.1 <+: components path) := by
  have table := table_mountAll calls
  constructor
  · intro fs rest resolved
    rcases resolveMount_eq_some resolved with ⟨before, mp, after, whole, uncovered, covers, parts⟩
    have latest : LatestAt calls mp fs := by
      rw [← table.latest, whole]
      exact List.mem_append_right _ List.mem_cons_self
    have point := points _ latest.isCall
    refine ⟨mp, latest, parts, ?_⟩
    intro call isCall initial
    have otherPoint := points call isCall
    have otherCovers := (covers_iff otherPoint normalized).mpr initial
    rcases exists_latestAt isCall with ⟨other, otherLatest⟩
    rw [← table.latest, whole] at otherLatest
    rcases List.mem_append.mp otherLatest with isBefore | isHere
    · exact absurd otherCovers (uncovered (call.1, other) isBefore)
    rcases List.mem_cons.mp isHere with isFound | isAfter
    · have samePoint : call.1 = mp := congrArg Prod.fst isFound
      exact Nat.le_of_eq (by rw [samePoint])
    · have sorted := table.sorted
      rw [whole, List.map_append, List.pairwise_append, List.map_cons, List.pairwise_cons] at sorted
      have bytes := sorted.2.1.1 call.1 (List.mem_map.mpr ⟨_, isAfter, rfl⟩)
      exact length_le_of_byteLen_le point otherPoint ((covers_iff point normalized).mp covers)
        initial bytes
  · rw [resolveMount_eq_none]
    constructor
    · intro uncovered call isCall initial
      rcases exists_latestAt isCall with ⟨fs, latest⟩
      rw [← table.latest] at latest
      exact uncovered _ latest ((covers_iff (points call isCall) normalized).mpr initial)
    · intro missing entry isEntry covers
      have isCall := ((table.latest entry.1 entry.2).mp isEntry).isCall
      exact missing _ isCall ((covers_iff (points _ isCall) normalized).mp covers)

/-- `/boot` does not capture `/bootx`. -/
theorem resolveMount_longest_boot :
    ∃ fs rest, resolveMount (mountAll [("/boot".toList, 1), ("/".toList, 0)]) "/bootx/a".toList =
        some (fs, rest) ∧
      ∃ mp, LatestAt [("/boot".toList, 1), ("/".toList, 0)] mp fs ∧
        components "/bootx/a".toList = components mp ++ components rest ∧
        ∀ call ∈ [("/boot".toList, 1), ("/".toList, 0)],
          components call.1 <+: components "/bootx/a".toList →
            (components call.1).length ≤ (components mp).length := by
  have points : ∀ call ∈ [("/boot".toList, 1), ("/".toList, 0)], Normalized call.1 := by
    intro call isCall
    simp only [List.mem_cons, List.not_mem_nil, or_false] at isCall
    rcases isCall with rfl | rfl
    · exact ⟨["boot".toList], by decide, by decide⟩
    · exact ⟨[], by simp, by decide⟩
  have normalized : Normalized "/bootx/a".toList :=
    ⟨["bootx".toList, "a".toList], by decide, by decide⟩
  have sorted : mountAll [("/boot".toList, 1), ("/".toList, 0)] =
      [("/boot".toList, 1), ("/".toList, 0)] := mountAll_pair (by decide) (by decide)
  have resolved : resolveMount (mountAll [("/boot".toList, 1), ("/".toList, 0)])
      "/bootx/a".toList = some (0, "bootx/a".toList) := by
    rw [sorted]
    decide
  exact ⟨0, _, resolved,
    (resolveMount_longest _ points _ normalized).1 _ _ resolved⟩

end PersonaOS.Fs
