import Mathlib.Data.List.Basic

namespace PersonaOS

/-! # Patterns matched by backtracking

A pattern is a row of pieces, each one character or a repetition of one character class, and
the match found is the first in the order in which the alternatives are tried: a lazy
repetition tries its shortest text first, a greedy one its longest. -/

abbrev Text := List Char

inductive Piece where
  | one (accepts : Char → Bool)
  | many (least : Nat) (most : Option Nat) (lazy : Bool) (accepts : Char → Bool)
  | atEnd

abbrev Pattern := List Piece

namespace Pattern

def literal (text : Text) : Pattern := text.map fun char => .one (· == char)

/-- The lengths a repetition tries, in its order. -/
def lengths (least : Nat) (most : Option Nat) (lazy : Bool) (accepts : Char → Bool)
    (text : Text) : List Nat :=
  let run := (text.takeWhile accepts).length
  let tried := (List.range ((most.elim run (min run)) + 1)).filter (least ≤ ·)
  if lazy then tried else tried.reverse

/-- The first match at the start of a text: what each repetition took, and what is left. -/
def matchHere : Pattern → Text → Option (List Text × Text)
  | [], text => some ([], text)
  | .one accepts :: rest, text =>
    match text with
    | [] => none
    | char :: text => if accepts char then matchHere rest text else none
  | .many least most lazy accepts :: rest, text =>
    (lengths least most lazy accepts text).findSome? fun length =>
      (matchHere rest (text.drop length)).map fun found =>
        (text.take length :: found.1, found.2)
  | .atEnd :: rest, text =>
    -- The end of the text, or the newline that ends it.
    if text = [] ∨ text = ['\n'] then matchHere rest text else none

/-- Every match from the left is replaced; `skip` characters belong to the last match. -/
def sub (pattern : Pattern) (replace : List Text → Option Text) : Nat → Text → Option Text
  | _, [] => some []
  | skip + 1, _ :: text => sub pattern replace skip text
  | 0, char :: text =>
    match matchHere pattern (char :: text) with
    | some found =>
      (replace found.1).bind fun put =>
        (sub pattern replace (text.length - found.2.length) text).map (put ++ ·)
    | none => (sub pattern replace 0 text).map (char :: ·)

variable {pattern : Pattern} {accepts : Char → Bool} {least : Nat} {text left : Text}
  {captures : List Text}

theorem matchHere_literal (pattern : Pattern) (text : Text) : ∀ letters : Text,
    matchHere (literal letters ++ pattern) (letters ++ text) = matchHere pattern text
  | [] => rfl
  | letter :: letters => by
      simp only [literal, List.map_cons, List.cons_append, matchHere, beq_self_eq_true, if_true]
      exact matchHere_literal pattern text letters

theorem matchHere_one_none (refused : ∀ char ∈ text.head?, accepts char = false) :
    matchHere (.one accepts :: pattern) text = none := by
  cases text with
  | nil => rfl
  | cons char text => simp [matchHere, refused char rfl]

section Repetition

variable (run : Text) (accepted : ∀ char ∈ run, accepts char = true)

include accepted

theorem takeWhile_run (ends : ∀ char ∈ text.head?, accepts char = false) :
    (run ++ text).takeWhile accepts = run := by
  rw [List.takeWhile_append_of_pos accepted]
  cases text with
  | nil => simp
  | cons char text => simp [ends char rfl]

/-- A greedy repetition takes its whole run if the rest of the pattern matches after it. -/
theorem matchHere_greedy (ends : ∀ char ∈ text.head?, accepts char = false)
    (enough : least ≤ run.length) (found : matchHere pattern text = some (captures, left)) :
    matchHere (.many least none false accepts :: pattern) (run ++ text) =
      some (run :: captures, left) := by
  have tried : lengths least none false accepts (run ++ text) =
      run.length :: ((List.range run.length).filter (least ≤ ·)).reverse := by
    simp [lengths, takeWhile_run run accepted ends, List.range_succ, enough]
  simp [matchHere, tried, found]

theorem matchHere_greedy_none (ends : ∀ char ∈ text.head?, accepts char = false)
    (missing : ∀ length ≤ run.length, matchHere pattern (run.drop length ++ text) = none) :
    matchHere (.many least none false accepts :: pattern) (run ++ text) = none := by
  rw [matchHere, List.findSome?_eq_none_iff]
  intro length member
  simp only [lengths, takeWhile_run run accepted ends, Option.elim_none, Bool.false_eq_true,
    if_false, List.mem_reverse, List.mem_filter, List.mem_range] at member
  have short : length ≤ run.length := by omega
  rw [List.drop_append_of_le_length short, missing length short]
  rfl

/-- A lazy repetition takes the shortest text after which the rest of the pattern matches. -/
theorem matchHere_lazy (enough : least ≤ run.length)
    (missing : ∀ length < run.length, least ≤ length →
      matchHere pattern (run.drop length ++ text) = none)
    (found : matchHere pattern text = some (captures, left)) :
    matchHere (.many least none true accepts :: pattern) (run ++ text) =
      some (run :: captures, left) := by
  have tried : ∃ longer, lengths least none true accepts (run ++ text) =
      (List.range run.length).filter (least ≤ ·) ++ run.length :: longer := by
    have split := @List.range_add run.length ((text.takeWhile accepts).length + 1)
    rw [List.range_succ_eq_map, List.map_cons, Nat.add_zero, ← Nat.add_assoc] at split
    simp [lengths, List.takeWhile_append_of_pos accepted, split, enough]
  obtain ⟨longer, tried⟩ := tried
  have shorter : ((List.range run.length).filter (least ≤ ·)).findSome? (fun length =>
      (matchHere pattern ((run ++ text).drop length)).map fun found =>
        ((run ++ text).take length :: found.1, found.2)) = none := by
    rw [List.findSome?_eq_none_iff]
    intro length member
    simp only [List.mem_filter, List.mem_range, decide_eq_true_eq] at member
    rw [List.drop_append_of_le_length (Nat.le_of_lt member.1),
      missing length member.1 member.2]
    rfl
  rw [matchHere, tried, List.findSome?_append, shorter]
  simp [found]

end Repetition

theorem sub_skip (replace : List Text → Option Text) (text : Text) : ∀ skipped : Text,
    sub pattern replace skipped.length (skipped ++ text) = sub pattern replace 0 text
  | [] => rfl
  | _ :: skipped => sub_skip replace text skipped

theorem sub_match (replace : List Text → Option Text) {matched : Text} (nonempty : matched ≠ [])
    (found : matchHere pattern (matched ++ text) = some (captures, text)) :
    sub pattern replace 0 (matched ++ text) =
      (replace captures).bind fun put => (sub pattern replace 0 text).map (put ++ ·) := by
  cases matched with
  | nil => exact absurd rfl nonempty
  | cons char matched =>
    rw [List.cons_append] at found ⊢
    simp only [sub, found, List.length_append, Nat.add_sub_cancel, sub_skip]

theorem sub_plain (replace : List Text → Option Text) (text : Text) : ∀ plain : Text,
    (∀ char ∈ plain, accepts char = false) →
      sub (.one accepts :: pattern) replace 0 (plain ++ text) =
        (sub (.one accepts :: pattern) replace 0 text).map (plain ++ ·)
  | [], _ => Option.map_id'.symm
  | char :: plain, refused => by
      have missing : matchHere (.one accepts :: pattern) (char :: (plain ++ text)) = none := by
        simp [matchHere, refused char List.mem_cons_self]
      simp only [List.cons_append, sub, missing]
      rw [sub_plain replace text plain fun other member =>
        refused other (List.mem_cons_of_mem char member), Option.map_map]
      rfl

theorem sub_isSome {replace : List Text → Option Text}
    (replaces : ∀ captures, (replace captures).isSome) (skip : Nat) (text : Text) :
    (sub pattern replace skip text).isSome := by
  fun_induction sub pattern replace skip text with
  | case1 => rfl
  | case2 skip char text rest => exact rest
  | case3 char text found _ rest =>
    obtain ⟨put, isPut⟩ := Option.isSome_iff_exists.mp (replaces found.1)
    rw [isPut]
    simpa using rest
  | case4 char text _ rest => simpa using rest

end Pattern

end PersonaOS
