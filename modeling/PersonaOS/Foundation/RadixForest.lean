import Mathlib.Data.List.Induction
import Mathlib.Data.List.Infix
import Mathlib.Data.Set.Insert
import Mathlib.Logic.Function.Basic

/-! # Radix trees in a store

A store gives every node a table of entries, and an entry may point to a child node. Walking a
path of indices from a root follows one entry at each index. A forest of such trees shares no
node: a node of a given region is reached from one root along one path only. That is what makes
an update local. -/

namespace PersonaOS.Radix

variable {ν : Type u} {ι : Type v} {ε : Type w} (child : ε → Option ν)

/-- Follow the entries at the indices of `path`, starting at `node`. -/
def walk (store : ν → ι → ε) : ν → List ι → Option ν
  | node, [] => some node
  | node, index :: path => (child (store node index)).bind fun next => walk store next path

@[simp] theorem walk_nil (store : ν → ι → ε) (node : ν) : walk child store node [] = some node :=
  rfl

theorem walk_append (store : ν → ι → ε) (node : ν) (path rest : List ι) :
    walk child store node (path ++ rest) =
      (walk child store node path).bind fun middle => walk child store middle rest := by
  induction path generalizing node with
  | nil => rfl
  | cons index path induction =>
    cases step : child (store node index) with
    | none => simp [walk, step]
    | some next => simpa [walk, step] using induction next

theorem walk_concat (store : ν → ι → ε) (node : ν) (path : List ι) (index : ι) :
    walk child store node (path ++ [index]) =
      (walk child store node path).bind fun last => child (store last index) := by
  rw [walk_append]
  cases walk child store node path with
  | none => rfl
  | some last => cases step : child (store last index) <;> simp [walk, step]

theorem walk_congr {store other : ν → ι → ε} {root : ν} {path : List ι}
    (agree : ∀ before index node, before ++ [index] <+: path →
      walk child store root before = some node →
      child (other node index) = child (store node index)) :
    walk child other root path = walk child store root path := by
  induction path using List.reverseRecOn with
  | nil => rfl
  | append_singleton path last induction =>
    have same := induction fun before index node within =>
      agree before index node (within.trans (List.prefix_append path [last]))
    rw [walk_concat, walk_concat, same]
    cases reached : walk child store root path with
    | none => rfl
    | some node => exact agree path last node (List.prefix_refl _) reached

/-! ## Regions and forests -/

/-- The paths of interest: at most `depth` indices, the first one from `top`. -/
structure Region (ι : Type v) where
  depth : Nat
  top : ι → Prop

namespace Region

variable (region : Region ι)

/-- Paths from a root to a node or to what a last-level entry points to. -/
def Spans (path : List ι) : Prop :=
  path.length ≤ region.depth ∧ ∀ index ∈ path.head?, region.top index

def Addresses (path : List ι) : Prop :=
  region.Spans path ∧ path.length < region.depth

variable {region}

theorem Spans.of_initial {path before : List ι} (spans : region.Spans path)
    (within : before <+: path) : region.Spans before := by
  refine ⟨within.length_le.trans spans.1, fun first isFirst => spans.2 first ?_⟩
  obtain ⟨rest, rfl⟩ := within
  cases before with
  | nil => simp at isFirst
  | cons head tail => simpa using isFirst

theorem Addresses.of_initial {path before : List ι} (addresses : region.Addresses path)
    (within : before <+: path) : region.Addresses before :=
  ⟨addresses.1.of_initial within, within.length_le.trans_lt addresses.2⟩

theorem Spans.addresses_initial {path before : List ι} {index : ι}
    (spans : region.Spans path) (within : before ++ [index] <+: path) :
    region.Addresses before := by
  have shorter := within.length_le
  rw [List.length_append, List.length_singleton] at shorter
  exact ⟨spans.of_initial ((List.prefix_append _ _).trans within),
    (Nat.lt_of_succ_le shorter).trans_le spans.1⟩

theorem Addresses.of_concat {path : List ι} {index : ι}
    (addresses : region.Addresses (path ++ [index])) : region.Addresses path :=
  addresses.1.addresses_initial (List.prefix_refl _)

theorem addresses_nil (deep : 0 < region.depth) : region.Addresses [] :=
  ⟨⟨Nat.zero_le _, by simp⟩, deep⟩

end Region

/-- `node` is a table of the trees at `roots`. -/
def IsNode (region : Region ι) (store : ν → ι → ε) (roots : Set ν) (node : ν) : Prop :=
  ∃ root ∈ roots, ∃ path, region.Addresses path ∧ walk child store root path = some node

/-- Each table is reached from one root along one path. -/
def Unshared (region : Region ι) (store : ν → ι → ε) (roots : Set ν) : Prop :=
  ∀ ⦃root path other otherPath node⦄, root ∈ roots → other ∈ roots →
    region.Addresses path → region.Addresses otherPath →
    walk child store root path = some node →
    walk child store other otherPath = some node →
    root = other ∧ path = otherPath

variable {child} {region : Region ι} {store : ν → ι → ε} {roots : Set ν}

theorem Unshared.congr {other : ν → ι → ε} (unshared : Unshared child region store roots)
    (same : ∀ root ∈ roots, ∀ path, region.Addresses path →
      walk child other root path = walk child store root path) :
    Unshared child region other roots := by
  intro root path root' path' node isRoot isRoot' addresses addresses' reached reached'
  rw [same root isRoot path addresses] at reached
  rw [same root' isRoot' path' addresses'] at reached'
  exact unshared isRoot isRoot' addresses addresses' reached reached'

variable [DecidableEq ν] [DecidableEq ι]

/-! ## Writing one entry -/

/-- Overwrite the entry of `node` at `index`. -/
def setEntry (store : ν → ι → ε) (node : ν) (index : ι) (entry : ε) : ν → ι → ε :=
  Function.update store node (Function.update (store node) index entry)

@[simp] theorem setEntry_self (node : ν) (index : ι) (entry : ε) :
    setEntry store node index entry node index = entry := by
  simp [setEntry]

theorem setEntry_of_ne {node place : ν} {index position : ι} {entry : ε}
    (different : ¬ (place = node ∧ position = index)) :
    setEntry store node index entry place position = store place position := by
  unfold setEntry
  by_cases here : place = node
  · subst here
    have elsewhere : position ≠ index := fun same => different ⟨rfl, same⟩
    rw [Function.update_self, Function.update_of_ne elsewhere]
  · rw [Function.update_of_ne here]

theorem setEntry_apply (node place : ν) (index position : ι) (entry : ε) :
    setEntry store node index entry place position =
      if place = node ∧ position = index then entry else store place position := by
  split
  · next here => rw [here.1, here.2, setEntry_self]
  · next elsewhere => exact setEntry_of_ne elsewhere

theorem walk_setEntry_of_child_eq {node : ν} {index : ι} {entry : ε}
    (same : child entry = child (store node index)) (root : ν) (path : List ι) :
    walk child (setEntry store node index entry) root path = walk child store root path := by
  refine walk_congr child fun before position place _ _ => ?_
  by_cases here : place = node ∧ position = index
  · obtain ⟨rfl, rfl⟩ := here
    rw [setEntry_self, same]
  · rw [setEntry_of_ne here]

/-- A write is seen only by the walks through the written entry. -/
theorem walk_setEntry_of_avoids (unshared : Unshared child region store roots)
    {root other node : ν} {path otherPath : List ι} {index : ι} {entry : ε}
    (isRoot : root ∈ roots) (addresses : region.Addresses path)
    (reached : walk child store root path = some node)
    (otherIsRoot : other ∈ roots) (spans : region.Spans otherPath)
    (avoids : ¬ (other = root ∧ path ++ [index] <+: otherPath)) :
    walk child (setEntry store node index entry) other otherPath =
      walk child store other otherPath := by
  refine walk_congr child fun before position place within placed => ?_
  rw [setEntry_of_ne]
  rintro ⟨rfl, rfl⟩
  obtain ⟨sameRoot, samePath⟩ := unshared otherIsRoot isRoot
    (spans.addresses_initial within) addresses placed reached
  subst samePath
  exact avoids ⟨sameRoot, within⟩

theorem walk_setEntry_last (unshared : Unshared child region store roots)
    {root other node : ν} {path otherPath : List ι} {index : ι} {entry : ε}
    (isRoot : root ∈ roots) (addresses : region.Addresses path)
    (last : path.length + 1 = region.depth)
    (reached : walk child store root path = some node)
    (otherIsRoot : other ∈ roots) (otherAddresses : region.Addresses otherPath) :
    walk child (setEntry store node index entry) other otherPath =
      walk child store other otherPath := by
  refine walk_setEntry_of_avoids unshared isRoot addresses reached otherIsRoot
    otherAddresses.1 ?_
  rintro ⟨-, within⟩
  have longer := within.length_le
  have shallow := otherAddresses.2
  rw [List.length_append, List.length_singleton] at longer
  omega

/-! ## Writing a frame that is no table -/

omit [DecidableEq ι] in
theorem walk_update_of_not_isNode {fresh : ν} {entries : ι → ε}
    (unused : ¬ IsNode child region store roots fresh)
    {root : ν} {path : List ι} (isRoot : root ∈ roots) (spans : region.Spans path) :
    walk child (Function.update store fresh entries) root path =
      walk child store root path := by
  refine walk_congr child fun before index node within reached => ?_
  have different : node ≠ fresh := by
    rintro rfl
    exact unused ⟨root, isRoot, before, spans.addresses_initial within, reached⟩
  rw [Function.update_of_ne different]

/-! ## Attaching a new table -/

section Attach

variable {root node fresh : ν} {path : List ι} {index : ι} {entry : ε}
  (unshared : Unshared child region store roots) (isRoot : root ∈ roots)
  (addresses : region.Addresses (path ++ [index]))
  (reached : walk child store root path = some node)
  (vacant : child (store node index) = none)
  (pointsTo : child entry = some fresh)
  (unused : ¬ IsNode child region store roots fresh)
  (empty : ∀ position, child (store fresh position) = none)

include reached pointsTo in
theorem walk_attach_self (unshared : Unshared child region store roots)
    (isRoot : root ∈ roots) (addresses : region.Addresses (path ++ [index])) :
    walk child (setEntry store node index entry) root (path ++ [index]) = some fresh := by
  have before : walk child (setEntry store node index entry) root path = some node := by
    rw [walk_setEntry_of_avoids unshared isRoot addresses.of_concat reached isRoot
      addresses.of_concat.1, reached]
    rintro ⟨-, within⟩
    have longer := within.length_le
    rw [List.length_append, List.length_singleton] at longer
    omega
  rw [walk_concat, before]
  simpa using pointsTo

include unshared isRoot addresses reached vacant in
/-- No walk of the old forest went through the vacant entry, so all are kept. -/
theorem walk_attach_of_some {other place : ν} {otherPath : List ι}
    (otherIsRoot : other ∈ roots) (spans : region.Spans otherPath)
    (placed : walk child store other otherPath = some place) :
    walk child (setEntry store node index entry) other otherPath = some place := by
  rw [walk_setEntry_of_avoids unshared isRoot addresses.of_concat reached otherIsRoot spans,
    placed]
  rintro ⟨rfl, rest, rfl⟩
  rw [walk_append, walk_concat, reached] at placed
  simp [vacant] at placed

include unshared isRoot addresses reached pointsTo unused empty in
theorem walk_attach_cases {other place : ν} {otherPath : List ι}
    (otherIsRoot : other ∈ roots) (spans : region.Spans otherPath)
    (placed : walk child (setEntry store node index entry) other otherPath = some place) :
    walk child store other otherPath = some place ∨
      other = root ∧ otherPath = path ++ [index] ∧ place = fresh := by
  by_cases through : other = root ∧ path ++ [index] <+: otherPath
  · obtain ⟨rfl, rest, rfl⟩ := through
    right
    rw [walk_append, walk_attach_self reached pointsTo unshared isRoot addresses] at placed
    have notWritten : fresh ≠ node := by
      rintro rfl
      exact unused ⟨other, isRoot, path, addresses.of_concat, reached⟩
    cases rest with
    | nil =>
      refine ⟨rfl, by simp, ?_⟩
      simpa using placed.symm
    | cons position rest =>
      have absent : child (setEntry store node index entry fresh position) = none := by
        rw [setEntry_of_ne (fun same => notWritten same.1), empty]
      simp [walk, absent] at placed
  · left
    rw [← placed, walk_setEntry_of_avoids unshared isRoot addresses.of_concat reached
      otherIsRoot spans through]

include unshared isRoot addresses reached pointsTo unused empty in
theorem Unshared.attach : Unshared child region (setEntry store node index entry) roots := by
  intro first firstPath second secondPath place firstIsRoot secondIsRoot
    firstAddresses secondAddresses firstPlaced secondPlaced
  have firstCases := walk_attach_cases unshared isRoot addresses reached pointsTo unused
    empty firstIsRoot firstAddresses.1 firstPlaced
  have secondCases := walk_attach_cases unshared isRoot addresses reached pointsTo unused
    empty secondIsRoot secondAddresses.1 secondPlaced
  rcases firstCases with firstOld | ⟨rfl, rfl, rfl⟩ <;>
    rcases secondCases with secondOld | ⟨sameRoot, samePath, samePlace⟩
  · exact unshared firstIsRoot secondIsRoot firstAddresses secondAddresses firstOld secondOld
  · subst samePlace
    exact absurd ⟨first, firstIsRoot, firstPath, firstAddresses, firstOld⟩ unused
  · exact absurd ⟨second, secondIsRoot, secondPath, secondAddresses, secondOld⟩ unused
  · exact ⟨sameRoot.symm, samePath.symm⟩

end Attach

end PersonaOS.Radix
