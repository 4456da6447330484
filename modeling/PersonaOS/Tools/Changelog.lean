import PersonaOS.Foundation.Regex
import Mathlib.Data.List.DropRight
import Mathlib.Data.List.Sort
import Mathlib.Data.String.Basic

namespace PersonaOS.Tools

/-! # The changelog tool

`tools/gen-changelog-manifest.py`: what it reads of a file, the drafts it promotes and what it
publishes. A function whose call can end in an exception returns `none` there. -/

/-- What the tool takes from Python's library. A time is counted in microseconds from the
start of the year 1, on the clock of its zone and with the zone's offset, if it names one. -/
structure Library where
  fromisoformat : Text → Option (Int × Option Int)
  fromisoformat_empty : fromisoformat [] = none
  int : Text → Option Int
  isoformat : Int → Text

/-- The times in UTC that a `datetime` can hold: up to the end of the year 9999. -/
def InRange (time : Int) : Prop := 0 ≤ time ∧ time < 3652059 * 86400000000

instance (time : Int) : Decidable (InRange time) := inferInstanceAs (Decidable (_ ∧ _))

open Pattern

def isSpace (char : Char) : Bool :=
  let code := char.toNat
  (9 ≤ code && code ≤ 13) || (28 ≤ code && code ≤ 32) || (0x2000 ≤ code && code ≤ 0x200a) ||
    [0x85, 0xa0, 0x1680, 0x2028, 0x2029, 0x202f, 0x205f, 0x3000].contains code

def isLineBreak (char : Char) : Bool :=
  let code := char.toNat
  (10 ≤ code && code ≤ 13) || (28 ≤ code && code ≤ 30) || [0x85, 0x2028, 0x2029].contains code

def isKeyChar (char : Char) : Bool := char.isAlphanum || char == '_' || char == '-'

def strip (dropped : Char → Bool) (text : Text) : Text :=
  (text.dropWhile dropped).rdropWhile dropped

def splitlines : Text → List Text
  | [] => []
  | '\r' :: '\n' :: text => [] :: splitlines text
  | char :: text =>
    if isLineBreak char then [] :: splitlines text
    else (char :: (splitlines text).headD []) :: (splitlines text).tail

/-- `\s*` -/
def spaces : Piece := .many 0 none false isSpace

/-- `^---\s*\n(.*?)\n---\s*\n?(.*)$` -/
def frontmatterRe : Pattern :=
  literal "---".toList ++ spaces :: .one (· == '\n') :: .many 0 none true (fun _ => true) ::
    (literal "\n---".toList ++ [spaces, .many 0 (some 1) false (· == '\n'),
      .many 0 none false fun _ => true, .atEnd])

/-- `^([A-Za-z0-9_-]+)\s*:\s*(.*)$` -/
def scalarRe : Pattern :=
  [.many 1 none false isKeyChar, spaces, .one (· == ':'), spaces,
    .many 0 none false (· != '\n'), .atEnd]

/-- `\|\|\s*revealAt\s*=\s*(?P<ts>[^|]+?)\s*\|\|(?P<body>.*?)\|\|` -/
def spoilerRe : Pattern :=
  literal "||".toList ++ spaces :: (literal "revealAt".toList ++ spaces :: (literal "=".toList ++
    spaces :: .many 1 none true (· != '|') :: spaces :: (literal "||".toList ++
      .many 0 none true (fun _ => true) :: literal "||".toList)))

inductive Value where
  | text (text : Text)
  | list (items : List Text)
deriving DecidableEq, Repr

def wrapped (first last : Char) (text : Text) : Bool :=
  text.head? == some first && text.getLast? == some last

def parseValue (val : Text) : Value :=
  let val := if wrapped '"' '"' val || wrapped '\'' '\'' val then val.tail.dropLast else val
  if wrapped '[' ']' val then
    .list (((val.tail.dropLast.splitOn ',').filter (strip isSpace · ≠ [])).map fun item =>
      strip (fun char => char == '\'' || char == '"') (strip isSpace item))
  else .text val

/-- The block between the dashes and the body after it. -/
def matchFrontmatter (text : Text) : Option (Text × Text) :=
  (matchHere frontmatterRe text).map fun found => (found.1.getD 1 [], found.1.getD 4 [])

def parseLine (data : Text → Option Value) (line : Text) : Text → Option Value :=
  match matchHere scalarRe line with
  | none => data
  | some found =>
    Function.update data (found.1.getD 0 [])
      (some (parseValue (strip isSpace (found.1.getD 3 []))))

def parseFrontmatter (text : Text) : (Text → Option Value) × Text :=
  match matchFrontmatter text with
  | none => (fun _ => none, text)
  | some found => ((splitlines found.1).foldl parseLine fun _ => none, found.2)

namespace Library

variable (lib : Library)

def parseTime (raw : Text) : Option Int :=
  if raw = [] then none
  else
    let raw := strip isSpace raw
    let raw := if raw.getLast? = some 'Z' then raw.dropLast ++ "+00:00".toList else raw
    -- A time without a zone is in UTC.
    (lib.fromisoformat raw).map fun read => read.1 - read.2.getD 0

/-- `parse_ts`; a list has no `strip`. -/
def parseTs : Value → Option (Option Int)
  | .text raw => some (lib.parseTime raw)
  | .list [] => some none
  | .list (_ :: _) => none

def iso (time : Int) : Option Text :=
  -- `astimezone` is an `OverflowError` for a time that UTC puts out of range.
  if InRange time then
    sub (literal "+00:00".toList) (fun _ => some "Z".toList) 0 (lib.isoformat time)
  else none

def placeholder (time : Int) : Option Text :=
  (lib.iso time).map fun iso =>
    "<span class=\"spoiler-locked\" data-reveal-at=\"".toList ++ iso ++ "\"></span>".toList

def replaceSpoiler (now : Int) (captures : List Text) : Option Text :=
  match lib.parseTime (captures.getD 3 []) with
  | none => some (captures.getD 5 [])
  | some reveal => if reveal ≤ now then some (captures.getD 5 []) else lib.placeholder reveal

def redactSpoilers (body : Text) (now : Int) : Option Text :=
  sub spoilerRe (lib.replaceSpoiler now) 0 body

end Library

/-! ## Promotion and publishing -/

abbrev File := Text × Text

/-- The files in `changelog/` and, if it is there, in `changelog/_drafts/`. -/
structure Tree where
  src : List File
  drafts : Option (List File)

def globMd (files : List File) : List File :=
  (files.filter fun file => ".md".toList.isSuffixOf file.1).insertionSort fun left right =>
    left.1 ≤ right.1

def Tree.srcFiles (tree : Tree) : List File :=
  (globMd tree.src).filter fun file => file.1.map Char.toLower ≠ "readme.md".toList

def Tree.draftFiles (tree : Tree) : List File := globMd (tree.drafts.getD [])

inductive Entry where
  | locked (build : Int) (publishAt : Text)
  | published (file : Text) (build : Int) (codename version date summary : Value)
deriving DecidableEq, Repr

def Entry.build : Entry → Int
  | locked build _ => build
  | published _ build _ _ _ _ => build

structure Published where
  manifest : List Entry
  bodies : Text → Option Text

namespace Library

variable (lib : Library) (now : Int)

def publishAt (raw : Text) : Option (Option Int) :=
  lib.parseTs (((parseFrontmatter raw).1 "publishAt".toList).getD (.text []))

def promoteDraft (tree : Tree) (draft : File) : Option Tree := do
  match ← lib.publishAt draft.2 with
  | none => some tree
  | some time =>
    if now < time then some tree
    -- A shipped file of the name is not overwritten.
    else if tree.src.any (·.1 = draft.1) then some tree
    else some ⟨tree.src ++ [draft], tree.drafts.map (·.filter (·.1 ≠ draft.1))⟩

def promoteReadyDrafts (tree : Tree) : Option Tree :=
  match tree.drafts with
  | none => some tree
  | some drafts =>
    if InRange now then (globMd drafts).foldlM (lib.promoteDraft now) tree else none

/-- `int(data.get("build", "0"))`; a list is a `TypeError`, which is not caught. -/
def build (data : Text → Option Value) : Option Int :=
  match (data "build".toList).getD (.text "0".toList) with
  | .text raw => some ((lib.int raw).getD 0)
  | .list _ => none

def publishedEntry (file : File) (build : Int) : Option (Entry × Option Text) :=
  let field (key : String) := ((parseFrontmatter file.2).1 key.toList).getD (.text [])
  (lib.redactSpoilers (parseFrontmatter file.2).2 now).map fun redacted =>
    (.published file.1 build (field "codename") (field "version") (field "date")
        (field "summary"),
      match matchFrontmatter file.2 with
      | none => some redacted
      | some found => some ("---\n".toList ++ found.1 ++ "\n---\n".toList ++ redacted))

def buildEntry (file : File) : Option (Entry × Option Text) := do
  let publishAt ← lib.publishAt file.2
  guard (InRange now)
  let build ← lib.build (parseFrontmatter file.2).1
  match publishAt with
  | none => lib.publishedEntry now file build
  | some time =>
    if now < time then (lib.iso time).map fun iso => (.locked build iso, none)
    else lib.publishedEntry now file build

def collect (gathered : Published) (file : File) : Option Published := do
  let built ← lib.buildEntry now file
  some ⟨gathered.manifest ++ [built.1],
    built.2.elim gathered.bodies fun body => Function.update gathered.bodies file.1 (some body)⟩

/-- A run with an output directory: every other file in the directory is deleted. -/
def main (tree : Tree) : Option (Tree × Published) := do
  let after ← lib.promoteReadyDrafts now tree
  let gathered ← (after.srcFiles ++ after.draftFiles).foldlM (lib.collect now) ⟨[], fun _ => none⟩
  some (after, ⟨gathered.manifest.insertionSort fun left right => right.build ≤ left.build,
    gathered.bodies⟩)

/-- What is listed and written comes from the files of the changelog, and a draft gives at
most a placeholder. -/
structure NoLeak (after : Tree) (out : Published) : Prop where
  bodies : ∀ name body, out.bodies name = some body →
    ∃ content entry, (name, content) ∈ after.srcFiles ∧
      lib.buildEntry now (name, content) = some (entry, some body)
  listed : ∀ entry ∈ out.manifest, (∃ build time, entry = .locked build time) ∨
    ∃ file ∈ after.srcFiles, ∃ body, lib.buildEntry now file = some (entry, some body)
  drafts : ∀ file ∈ after.draftFiles, ∃ build time,
    lib.buildEntry now file = some (.locked build time, none)

/-- Where the entries and bodies gathered come from. -/
structure ComesFrom (files : List File) (gathered : Published) : Prop where
  bodies : ∀ name body, gathered.bodies name = some body →
    ∃ content entry, (name, content) ∈ files ∧
      lib.buildEntry now (name, content) = some (entry, some body)
  listed : ∀ entry ∈ gathered.manifest,
    ∃ file ∈ files, ∃ body, lib.buildEntry now file = some (entry, body)

variable {lib now}

theorem collect_comesFrom {files : List File} {gathered next : Published} {file : File}
    (comes : lib.ComesFrom now files gathered) (member : file ∈ files)
    (collected : lib.collect now gathered file = some next) : lib.ComesFrom now files next := by
  rcases Option.bind_eq_some_iff.mp collected with ⟨⟨entry, body⟩, built, rest⟩
  obtain rfl := Option.some.inj rest
  constructor
  case bodies =>
    intro name written isWritten
    cases body with
    | none => exact comes.bodies name written isWritten
    | some body =>
      by_cases same : name = file.1
      · subst same
        have isBody : body = written := by simpa using isWritten
        subst isBody
        exact ⟨file.2, entry, member, built⟩
      · apply comes.bodies name written
        simpa [Function.update_of_ne same] using isWritten
  case listed =>
    intro other isOther
    rcases List.mem_append.mp isOther with earlier | last
    · exact comes.listed other earlier
    · obtain rfl := List.mem_singleton.mp last
      exact ⟨file, member, body, built⟩

theorem foldlM_collect {files : List File} : ∀ (rest : List File) {gathered last : Published},
    lib.ComesFrom now files gathered → (∀ file ∈ rest, file ∈ files) →
      rest.foldlM (lib.collect now) gathered = some last →
        lib.ComesFrom now files last ∧ ∀ file ∈ rest, ∃ built, lib.buildEntry now file = some built
  | [], _, _, comes, _, collected => by
      obtain rfl := Option.some.inj collected
      exact ⟨comes, fun file member => absurd member List.not_mem_nil⟩
  | file :: rest, _, _, comes, members, collected => by
      rw [List.foldlM_cons] at collected
      rcases Option.bind_eq_some_iff.mp collected with ⟨next, first, others⟩
      rcases Option.bind_eq_some_iff.mp first with ⟨built, isBuilt, _⟩
      obtain ⟨last, all⟩ := foldlM_collect rest
        (collect_comesFrom comes (members file List.mem_cons_self) first)
        (fun other member => members other (List.mem_cons_of_mem file member)) others
      exact ⟨last, List.forall_mem_cons.mpr ⟨⟨built, isBuilt⟩, all⟩⟩

def Upcoming (lib : Library) (now : Int) (file : File) : Prop :=
  ∃ time, lib.publishAt file.2 = some (some time) ∧ now < time

theorem buildEntry_cases {file : File} {built : Entry × Option Text}
    (isBuilt : lib.buildEntry now file = some built) :
    (lib.Upcoming now file ∧ ∃ build time, built = (.locked build time, none)) ∨
      ¬ lib.Upcoming now file ∧ ∃ text, built.2 = some text := by
  rcases Option.bind_eq_some_iff.mp isBuilt with ⟨publishAt, isTime, rest⟩
  rcases Option.bind_eq_some_iff.mp rest with ⟨_, _, rest⟩
  rcases Option.bind_eq_some_iff.mp rest with ⟨build, _, rest⟩
  have hasBody : lib.publishedEntry now file build = some built →
      ∃ text, built.2 = some text := by
    intro same
    obtain ⟨redacted, _, rfl⟩ := Option.map_eq_some_iff.mp same
    cases matchFrontmatter file.2 with
    | none => exact ⟨_, rfl⟩
    | some found => exact ⟨_, rfl⟩
  have isUpcoming : lib.Upcoming now file ↔ ∃ time, publishAt = some time ∧ now < time := by
    simp only [Upcoming, isTime, Option.some.injEq]
  cases publishAt with
  | none => exact .inr ⟨by simp [isUpcoming], hasBody rest⟩
  | some time =>
    by_cases future : now < time
    · simp only [future, if_true] at rest
      obtain ⟨iso, _, same⟩ := Option.map_eq_some_iff.mp rest
      exact .inl ⟨isUpcoming.mpr ⟨time, rfl, future⟩, build, iso, same.symm⟩
    · simp only [future, if_false] at rest
      exact .inr ⟨by simpa [isUpcoming] using future, hasBody rest⟩

/-- Drafts stay private in a run exactly if each file left among them has a time the tool can
read, and that time is still to come. -/
theorem noLeak_iff (tree after : Tree) (out : Published)
    (ran : lib.main now tree = some (after, out)) :
    lib.NoLeak now after out ↔
      ∀ file ∈ after.draftFiles, ∃ time, lib.publishAt file.2 = some (some time) ∧ now < time := by
  rcases Option.bind_eq_some_iff.mp ran with ⟨promoted, _, rest⟩
  rcases Option.bind_eq_some_iff.mp rest with ⟨gathered, collected, rest⟩
  obtain ⟨rfl, rfl⟩ := Prod.mk.inj (Option.some.inj rest)
  have empty : lib.ComesFrom now (promoted.srcFiles ++ promoted.draftFiles) ⟨[], fun _ => none⟩ :=
    { bodies := fun _ _ impossible => nomatch impossible
      listed := fun _ member => absurd member List.not_mem_nil }
  obtain ⟨comes, all⟩ := foldlM_collect _ empty (fun _ member => member) collected
  constructor
  · intro noLeak file member
    rcases noLeak.drafts file member with ⟨build, time, built⟩
    rcases buildEntry_cases built with ⟨upcoming, _⟩ | ⟨_, text, isSome⟩
    · exact upcoming
    · cases isSome
  · intro upcoming
    have drafts : ∀ file ∈ promoted.draftFiles, ∃ build time,
        lib.buildEntry now file = some (.locked build time, none) := by
      intro file member
      obtain ⟨built, isBuilt⟩ := all file (List.mem_append_right _ member)
      rcases buildEntry_cases isBuilt with ⟨_, build, time, rfl⟩ | ⟨past, _⟩
      · exact ⟨build, time, isBuilt⟩
      · exact absurd (upcoming file member) past
    have shipped : ∀ file ∈ promoted.srcFiles ++ promoted.draftFiles, ∀ {entry body},
        lib.buildEntry now file = some (entry, some body) → file ∈ promoted.srcFiles := by
      intro file member entry body built
      rcases List.mem_append.mp member with isSrc | isDraft
      · exact isSrc
      · obtain ⟨build, time, isLocked⟩ := drafts file isDraft
        rw [isLocked] at built
        cases built
    constructor
    case drafts => exact drafts
    case bodies =>
      intro name body written
      obtain ⟨content, entry, member, built⟩ := comes.bodies name body written
      exact ⟨content, entry, shipped _ member built, built⟩
    case listed =>
      intro entry member
      obtain ⟨file, isFile, body, built⟩ :=
        comes.listed entry ((List.mem_insertionSort _).mp member)
      rcases buildEntry_cases built with ⟨_, build, time, same⟩ | ⟨_, text, isSome⟩
      · exact .inl ⟨build, time, congrArg Prod.fst same⟩
      · change body = some text at isSome
        subst isSome
        exact .inr ⟨file, shipped file isFile built, text, built⟩

def dated : Library where
  fromisoformat text :=
    if text = "2026-05-10".toList then some (739745 * 86400000000, none)
    -- an hour before the last midnight, on a clock five hours behind UTC
    else if text = "9999-12-31T23:00:00-05:00".toList then
      some (3652059 * 86400000000 - 3600000000, some (-18000000000))
    else none
  fromisoformat_empty := by decide
  int _ := none
  isoformat _ := "2026-05-10T00:00:00+00:00".toList

def undatedDraft : File := ("next.md".toList, "not yet".toList)

theorem noLeak_iff_upcoming : ∃ after out,
    dated.main 0 ⟨[], some [("next.md".toList, "---\npublishAt: 2026-05-10\n---\n".toList)]⟩ =
      some (after, out) ∧ dated.NoLeak 0 after out := by
  have ran : (dated.main 0
      ⟨[], some [("next.md".toList, "---\npublishAt: 2026-05-10\n---\n".toList)]⟩).map
        (·.1.draftFiles) =
      some [("next.md".toList, "---\npublishAt: 2026-05-10\n---\n".toList)] := by decide +kernel
  obtain ⟨⟨after, out⟩, ran, drafts⟩ := Option.map_eq_some_iff.mp ran
  have upcoming : ∀ file ∈ after.draftFiles,
      ∃ time, dated.publishAt file.2 = some (some time) ∧ 0 < time := by
    intro file member
    rw [drafts] at member
    obtain rfl := List.mem_singleton.mp member
    exact ⟨739745 * 86400000000, by decide +kernel, by decide⟩
  exact ⟨after, out, ran, (noLeak_iff _ after out ran).mpr upcoming⟩

theorem undated_draft_leaks : ∃ after out,
    dated.main 0 ⟨[], some [undatedDraft]⟩ = some (after, out) ∧
      undatedDraft ∈ after.draftFiles ∧ out.bodies undatedDraft.1 = some undatedDraft.2 ∧
        ¬ dated.NoLeak 0 after out := by
  have ran : (dated.main 0 ⟨[], some [undatedDraft]⟩).map (fun result =>
      (result.1.draftFiles, result.2.bodies undatedDraft.1)) =
        some ([undatedDraft], some undatedDraft.2) := by decide +kernel
  obtain ⟨⟨after, out⟩, ran, same⟩ := Option.map_eq_some_iff.mp ran
  obtain ⟨drafts, written⟩ := Prod.mk.inj same
  have member : undatedDraft ∈ after.draftFiles := by simp [drafts]
  have built : (dated.buildEntry 0 undatedDraft).map Prod.snd = some (some undatedDraft.2) := by
    decide +kernel
  have leaks : ¬ dated.NoLeak 0 after out := by
    intro noLeak
    obtain ⟨build, time, isLocked⟩ := noLeak.drafts undatedDraft member
    rw [isLocked] at built
    cases built
  exact ⟨after, out, ran, member, written, leaks⟩

end Library

end PersonaOS.Tools
