import PersonaOS.Tools.Changelog

namespace PersonaOS.Tools

/-! # What redaction shows of a document

A document is a row of plain texts and spoiler blocks. The pattern finds the blocks one after
the other, and what stands for a locked block comes from its time alone. A block locked until
a time that UTC puts past the year 9999 ends the tool in an exception. -/

open Pattern

inductive Segment where
  | plain (text : Text)
  | spoiler (time hidden : Text)

namespace Segment

variable (lib : Library) (now : Int)

def render : Segment → Text
  | plain text => text
  | spoiler time hidden =>
    "||".toList ++ ("revealAt".toList ++ ("=".toList ++ (time ++ ("||".toList ++
      (hidden ++ "||".toList)))))

def WellFormed : Segment → Prop
  | plain text => '|' ∉ text
  | spoiler time hidden => '|' ∉ time ∧ '|' ∉ hidden ∧ (lib.parseTime time).isSome

def shown : Segment → Text
  | plain text => text
  | spoiler time hidden =>
    (lib.parseTime time).elim [] fun reveal =>
      if reveal ≤ now then hidden else (lib.placeholder reveal).getD []

/-- The time of a locked block is one a `datetime` holds in UTC. -/
def Datable : Segment → Prop
  | plain _ => True
  | spoiler time _ => ∀ reveal ∈ lib.parseTime time, now < reveal → InRange reveal

/-- Equal but for the hidden text of a locked block. -/
def SameButLocked : Segment → Segment → Prop
  | plain text, plain other => text = other
  | spoiler time hidden, spoiler otherTime other =>
    time = otherTime ∧ (hidden = other ∨ ∀ reveal ∈ lib.parseTime time, now < reveal)
  | _, _ => False

end Segment

theorem strip_decomposes (text : Text) : ∃ lead trail : Text,
    text = lead ++ (strip isSpace text ++ trail) ∧
      (∀ char ∈ lead, isSpace char = true) ∧ ∀ char ∈ trail, isSpace char = true :=
  ⟨text.takeWhile isSpace, (text.dropWhile isSpace).rtakeWhile isSpace,
    by rw [strip, List.rdropWhile_append_rtakeWhile, List.takeWhile_append_dropWhile],
    fun _ => List.mem_takeWhile_imp, fun _ => List.mem_rtakeWhile_imp⟩

theorem strip_head (text : Text) : ∀ char ∈ (strip isSpace text).head?, isSpace char = false := by
  intro char isHead
  obtain ⟨after, same⟩ := List.rdropWhile_prefix isSpace (text.dropWhile isSpace)
  have isFirst : (text.dropWhile isSpace).head? = some char := by
    rw [← same, List.head?_append]
    exact Option.or_eq_some_iff.mpr (.inl isHead)
  have refused := List.head?_dropWhile_not isSpace text
  rwa [isFirst] at refused

theorem strip_strip (text : Text) : strip isSpace (strip isSpace text) = strip isSpace text := by
  have first : (strip isSpace text).dropWhile isSpace = strip isSpace text := by
    have head := strip_head text
    cases stripped : strip isSpace text with
    | nil => rfl
    | cons char rest =>
      rw [stripped] at head
      simp [head char rfl]
  rw [strip, first, strip, List.rdropWhile_idempotent]

theorem matchHere_bars_none_of_head (pattern : Pattern) {text : Text} (after : Text)
    (nonempty : text ≠ []) (noBar : '|' ∉ text) :
    matchHere (literal "||".toList ++ pattern) (text ++ after) = none := by
  cases text with
  | nil => exact absurd rfl nonempty
  | cons char text =>
    have isOther : char ≠ '|' := fun same => noBar (same ▸ List.mem_cons_self)
    have bars : literal "||".toList ++ pattern =
        .one (· == '|') :: .one (· == '|') :: pattern := rfl
    rw [bars]
    exact matchHere_one_none (by simpa using isOther)

/-- Bars do not follow the spaces at the start of a text that holds something else. -/
theorem matchHere_spaces_bars_none (pattern : Pattern) {text : Text} (after : Text)
    (noBar : '|' ∉ text) (notBlank : ∃ char ∈ text, isSpace char = false) :
    matchHere (spaces :: (literal "||".toList ++ pattern)) (text ++ after) = none := by
  have whole := List.takeWhile_append_dropWhile (p := isSpace) (l := text)
  have nonempty : text.dropWhile isSpace ≠ [] := by
    simpa using notBlank
  rw [← whole, List.append_assoc]
  apply matchHere_greedy_none
  · exact fun _ => List.mem_takeWhile_imp
  · intro char isHead
    have refused := List.head?_dropWhile_not isSpace text
    cases rest : text.dropWhile isSpace with
    | nil => exact absurd rest nonempty
    | cons first rest' =>
      rw [rest] at isHead refused
      cases isHead
      simpa using refused
  · intro length _
    rw [← List.append_assoc]
    apply matchHere_bars_none_of_head
    · simp [nonempty]
    · intro member
      rw [← whole] at noBar
      rcases List.mem_append.mp member with early | late
      · exact noBar (List.mem_append_left _ (List.mem_of_mem_drop early))
      · exact noBar (List.mem_append_right _ late)

/-- At a block the pattern matches the block, and takes its time without the spaces around it
and its hidden text. -/
theorem matchHere_spoiler (time hidden after : Text) (noBar : '|' ∉ time)
    (noBarInside : '|' ∉ hidden) (notBlank : strip isSpace time ≠ []) : ∃ lead trail,
    matchHere spoilerRe ((Segment.spoiler time hidden).render ++ after) =
      some ([[], [], lead, strip isSpace time, trail, hidden], after) := by
  obtain ⟨lead, trail, whole, leads, trails⟩ := strip_decomposes time
  refine ⟨lead, trail, ?_⟩
  have noBarCore : '|' ∉ strip isSpace time ++ trail := by
    intro member
    rw [whole] at noBar
    exact noBar (List.mem_append_right _ member)
  have body : matchHere (.many 0 none true (fun _ => true) :: literal "||".toList)
      (hidden ++ ("||".toList ++ after)) = some ([hidden], after) := by
    apply matchHere_lazy hidden (fun _ _ => rfl) (Nat.zero_le _)
    · intro length short _
      have nonempty : hidden.drop length ≠ [] := by simpa using short
      have rest := matchHere_bars_none_of_head [] ("||".toList ++ after) nonempty
        fun member => noBarInside (List.mem_of_mem_drop member)
      rwa [List.append_nil] at rest
    · have rest := matchHere_literal [] after "||".toList
      rwa [List.append_nil] at rest
  have close : matchHere (spaces :: (literal "||".toList ++
      .many 0 none true (fun _ => true) :: literal "||".toList))
      (trail ++ ("||".toList ++ (hidden ++ ("||".toList ++ after)))) =
        some ([trail, hidden], after) := by
    apply matchHere_greedy trail trails _ (Nat.zero_le _)
    · rw [matchHere_literal, body]
    · intro char isHead
      cases isHead
      decide
  have ends : matchHere (.many 1 none true (· != '|') :: spaces :: (literal "||".toList ++
      .many 0 none true (fun _ => true) :: literal "||".toList))
      (strip isSpace time ++ (trail ++ ("||".toList ++ (hidden ++ ("||".toList ++ after))))) =
        some ([strip isSpace time, trail, hidden], after) := by
    apply matchHere_lazy _ _ (List.length_pos_iff.mpr notBlank) _ close
    · intro char member
      have isOther : char ≠ '|' := fun same =>
        noBarCore (List.mem_append_left _ (same ▸ member))
      simpa using isOther
    · intro length short _
      rw [← List.append_assoc]
      apply matchHere_spaces_bars_none
      · intro member
        rcases List.mem_append.mp member with early | late
        · exact noBarCore (List.mem_append_left _ (List.mem_of_mem_drop early))
        · exact noBarCore (List.mem_append_right _ late)
      · have last : ¬ isSpace ((strip isSpace time).getLast notBlank) = true :=
          List.rdropWhile_last_not isSpace (time.dropWhile isSpace) notBlank
        have rest : (strip isSpace time).drop length ≠ [] := by simpa using short
        rw [← List.getLast_drop rest] at last
        exact ⟨_, List.mem_append_left _ (List.getLast_mem rest), by simpa using last⟩
  have noSpaces : ∀ {pattern : Pattern} {text left : Text} {captures : List Text},
      (∀ char ∈ text.head?, isSpace char = false) →
        matchHere pattern text = some (captures, left) →
          matchHere (spaces :: pattern) text = some ([] :: captures, left) := by
    intro pattern text left captures noSpace found
    exact matchHere_greedy [] (fun _ => False.elim ∘ List.not_mem_nil) noSpace (Nat.le_refl 0) found
  have render : (Segment.spoiler time hidden).render ++ after = "||".toList ++
      ("revealAt".toList ++ ("=".toList ++ (lead ++ (strip isSpace time ++
        (trail ++ ("||".toList ++ (hidden ++ ("||".toList ++ after)))))))) := by
    nth_rewrite 1 [Segment.render, whole]
    simp only [List.append_assoc]
  rw [render, spoilerRe, matchHere_literal]
  apply noSpaces
  · intro char isHead
    cases isHead
    decide
  rw [matchHere_literal]
  apply noSpaces
  · intro char isHead
    cases isHead
    decide
  rw [matchHere_literal]
  apply matchHere_greedy lead leads _ (Nat.zero_le _) ends
  intro char isHead
  cases stripped : strip isSpace time with
  | nil => exact absurd stripped notBlank
  | cons first rest =>
    rw [stripped] at isHead
    apply strip_head time
    rw [stripped]
    exact isHead

variable (lib : Library) (now : Int)

theorem Library.placeholder_isSome (time : Int) :
    (lib.placeholder time).isSome ↔ InRange time := by
  rw [Library.placeholder, Option.isSome_map, Library.iso]
  by_cases inRange : InRange time
  · simp only [inRange, if_true, iff_true]
    exact sub_isSome (fun _ => rfl) 0 _
  · simp [inRange]

/-- What redaction puts for a segment. -/
def Segment.redacted : Segment → Option Text
  | plain text => some text
  | spoiler time hidden =>
    (lib.parseTime time).elim none fun reveal =>
      if reveal ≤ now then some hidden else lib.placeholder reveal

theorem redact_spoiler (time hidden after : Text)
    (wellFormed : (Segment.spoiler time hidden).WellFormed lib) :
    lib.redactSpoilers ((Segment.spoiler time hidden).render ++ after) now =
      ((Segment.spoiler time hidden).redacted lib now).bind fun put =>
        (lib.redactSpoilers after now).map (put ++ ·) := by
  obtain ⟨noBar, noBarInside, parsed⟩ := wellFormed
  obtain ⟨reveal, isReveal⟩ := Option.isSome_iff_exists.mp parsed
  have notBlank : strip isSpace time ≠ [] := by
    intro blank
    rw [Library.parseTime, blank] at isReveal
    simp [lib.fromisoformat_empty] at isReveal
  have stripped : lib.parseTime (strip isSpace time) = some reveal := by
    rw [← isReveal, Library.parseTime, Library.parseTime, strip_strip, if_neg notBlank, if_neg]
    intro empty
    exact notBlank (by rw [empty]; rfl)
  obtain ⟨lead, trail, found⟩ := matchHere_spoiler time hidden after noBar noBarInside notBlank
  rw [Library.redactSpoilers, sub_match _ (by simp [Segment.render]) found]
  congr 1
  simp only [Library.replaceSpoiler, List.getD_cons_succ, List.getD_cons_zero, stripped,
    Segment.redacted, isReveal, Option.elim_some]

theorem redact_segments (document : List Segment) :
    (∀ segment ∈ document, segment.WellFormed lib) →
      lib.redactSpoilers (document.flatMap Segment.render) now =
        (document.mapM (Segment.redacted lib now)).map List.flatten := by
  induction document with
  | nil => exact fun _ => rfl
  | cons segment document ih =>
    intro wellFormed
    have rest := ih fun other member => wellFormed other (List.mem_cons_of_mem segment member)
    have first := wellFormed segment List.mem_cons_self
    have redacted : lib.redactSpoilers (segment.render ++ document.flatMap Segment.render) now =
        (segment.redacted lib now).bind fun put =>
          (lib.redactSpoilers (document.flatMap Segment.render) now).map (put ++ ·) := by
      cases segment with
      | plain text =>
        have bars : spoilerRe = .one (· == '|') :: spoilerRe.tail := rfl
        rw [Library.redactSpoilers, bars]
        apply sub_plain
        intro char member
        have isOther : char ≠ '|' := fun same => first (same ▸ member)
        simpa using isOther
      | spoiler time hidden => exact redact_spoiler lib now time hidden _ first
    rw [List.flatMap_cons, redacted, rest, List.mapM_cons]
    cases segment.redacted lib now with
    | none => rfl
    | some put => cases document.mapM (Segment.redacted lib now) <;> rfl

theorem Segment.SameButLocked.redacted {segment other : Segment}
    (same : segment.SameButLocked lib now other) :
    segment.redacted lib now = other.redacted lib now := by
  cases segment with
  | plain text =>
    cases other with
    | plain other => exact congrArg some same
    | spoiler time hidden => exact same.elim
  | spoiler time hidden =>
    cases other with
    | plain text => exact same.elim
    | spoiler otherTime other =>
      obtain ⟨rfl, sameText | locked⟩ := same
      · rw [sameText]
      · cases parsed : lib.parseTime time with
        | none => simp [Segment.redacted, parsed]
        | some reveal =>
          have future : ¬ reveal ≤ now := Int.not_le.mpr (locked reveal parsed)
          simp [Segment.redacted, parsed, future]

theorem Segment.redacted_cases {segment : Segment} (wellFormed : segment.WellFormed lib) :
    (segment.Datable lib now ∧ segment.redacted lib now = some (segment.shown lib now)) ∨
      (¬ segment.Datable lib now ∧ segment.redacted lib now = none) := by
  cases segment with
  | plain text => exact .inl ⟨trivial, rfl⟩
  | spoiler time hidden =>
    obtain ⟨reveal, isReveal⟩ := Option.isSome_iff_exists.mp wellFormed.2.2
    simp only [Segment.redacted, Segment.shown, Segment.Datable, isReveal, Option.elim_some,
      Option.mem_some_iff, forall_eq']
    by_cases passed : reveal ≤ now
    · simp [passed, Int.not_lt.mpr passed]
    · simp only [passed, if_false, Int.not_le.mp passed, true_imp_iff,
        ← lib.placeholder_isSome reveal]
      cases lib.placeholder reveal <;> simp

/-- A document is redacted as a whole just if each of its segments is. -/
theorem mapM_redacted (document : List Segment) :
    (∀ segment ∈ document, segment.WellFormed lib) →
      ((document.mapM (Segment.redacted lib now)).map List.flatten =
          some (document.flatMap (Segment.shown lib now)) ↔
        ∀ segment ∈ document, segment.Datable lib now) := by
  induction document with
  | nil => simp
  | cons segment document ih =>
    intro wellFormed
    have rest := ih fun other member => wellFormed other (List.mem_cons_of_mem segment member)
    rw [List.forall_mem_cons, ← rest, List.mapM_cons]
    rcases segment.redacted_cases lib now (wellFormed segment List.mem_cons_self) with
      ⟨datable, isSome⟩ | ⟨undatable, isNone⟩
    · rw [isSome]
      cases document.mapM (Segment.redacted lib now) <;> simp [datable]
    · simp [isNone, undatable]

/-- Redaction keeps the plain texts, opens the blocks whose time has come and puts for every
other block what its time gives, just if UTC has a date for each of these times; the text a
locked block hides changes nothing. -/
theorem redactSpoilers_hides (document : List Segment)
    (wellFormed : ∀ segment ∈ document, segment.WellFormed lib) :
    (lib.redactSpoilers (document.flatMap Segment.render) now =
        some (document.flatMap (Segment.shown lib now)) ↔
      ∀ segment ∈ document, segment.Datable lib now) ∧
      ∀ other : List Segment, (∀ segment ∈ other, segment.WellFormed lib) →
        List.Forall₂ (Segment.SameButLocked lib now) document other →
          lib.redactSpoilers (other.flatMap Segment.render) now =
            lib.redactSpoilers (document.flatMap Segment.render) now := by
  have redacted := redact_segments lib now document wellFormed
  constructor
  · rw [redacted]
    exact mapM_redacted lib now document wellFormed
  · intro other otherWellFormed same
    rw [redacted, redact_segments lib now other otherWellFormed]
    clear redacted wellFormed otherWellFormed
    congr 1
    induction same with
    | nil => rfl
    | cons first _ ih => rw [List.mapM_cons, List.mapM_cons, ih, first.redacted]

def lockedPage (first second : Text) : List Segment :=
  [.plain "a".toList, .spoiler " 2026-05-10".toList first, .spoiler "2026-05-10".toList second]

theorem redactSpoilers_hides_page :
    Library.dated.redactSpoilers ((lockedPage "b".toList []).flatMap Segment.render) 0 =
        some ((lockedPage "b".toList []).flatMap (Segment.shown Library.dated 0)) ∧
      Library.dated.redactSpoilers ((lockedPage [] "c".toList).flatMap Segment.render) 0 =
        Library.dated.redactSpoilers ((lockedPage "b".toList []).flatMap Segment.render) 0 := by
  have wellFormed : ∀ first second, '|' ∉ first → '|' ∉ second →
      ∀ segment ∈ lockedPage first second, segment.WellFormed Library.dated := by
    intro first second noBar noBarSecond
    simp only [lockedPage, List.forall_mem_cons, Segment.WellFormed]
    exact ⟨by decide, ⟨by decide, noBar, by decide +kernel⟩,
      ⟨by decide, noBarSecond, by decide +kernel⟩, fun _ member => nomatch member⟩
  have parsed : ∀ time ∈ [" 2026-05-10".toList, "2026-05-10".toList],
      Library.dated.parseTime time = some (739745 * 86400000000) := by decide +kernel
  have hides := redactSpoilers_hides Library.dated 0 (lockedPage "b".toList [])
    (wellFormed _ _ (by decide) (by decide))
  constructor
  · apply hides.1.mpr
    simp only [lockedPage, List.forall_mem_cons, Segment.Datable]
    exact ⟨trivial, by rw [parsed _ (by simp)]; simp [InRange],
      by rw [parsed _ (by simp)]; simp [InRange], fun _ member => nomatch member⟩
  · apply hides.2 _ (wellFormed _ _ (by decide) (by decide))
    exact .cons rfl (.cons ⟨rfl, .inr (by decide +kernel)⟩
      (.cons ⟨rfl, .inr (by decide +kernel)⟩ .nil))

/-- A block locked until the last hours of the year 9999 in a zone behind UTC. -/
theorem redactSpoilers_overflow :
    (Segment.spoiler "9999-12-31T23:00:00-05:00".toList "b".toList).WellFormed Library.dated ∧
      Library.dated.redactSpoilers
        (Segment.spoiler "9999-12-31T23:00:00-05:00".toList "b".toList).render 0 = none := by
  constructor
  · exact ⟨by decide, by decide, by decide +kernel⟩
  · decide +kernel

end PersonaOS.Tools
