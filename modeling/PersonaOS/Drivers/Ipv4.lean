import PersonaOS.Drivers.Dhcp

/-! # The header checksum

`ipv4_checksum` of `kernel/src/drivers/e1000.rs` and the frame it is used for. An addition that
leaves 32 bits panics; this is `none` here, as an index out of range is. -/

namespace PersonaOS.Drivers.Ipv4

open Dhcp

/-- `left + right` -/
def add32 (left right : Nat) : Option Nat :=
  if left + right < 2 ^ 32 then some (left + right) else none

def sumLoop (bytes : List UInt8) (i sum : Nat) : Option Nat :=
  if i + 1 < bytes.length then do
    let word ← readBe16 bytes i
    let sum ← add32 sum word
    sumLoop bytes (i + 2) sum
  else
    some sum
termination_by bytes.length - i
decreasing_by
  omega

theorem fold_eq (sum : Nat) :
    (sum &&& 0xFFFF) + (sum >>> 16) = sum % 65536 + sum / 65536 := by
  rw [Nat.shiftRight_eq_div_pow]
  exact congrArg (· + sum / 65536) (Nat.and_two_pow_sub_one_eq_mod sum 16)

def foldLoop (sum : Nat) : Option Nat :=
  if _isWide : sum >>> 16 ≠ 0 then
    if (sum &&& 0xFFFF) + (sum >>> 16) < 2 ^ 32 then
      foldLoop ((sum &&& 0xFFFF) + (sum >>> 16))
    else
      none
  else
    some sum
termination_by sum
decreasing_by
  rw [Nat.shiftRight_eq_div_pow] at _isWide
  rw [fold_eq]
  omega

def ipv4Checksum (bytes : List UInt8) : Option UInt16 := do
  let sum ← sumLoop bytes 0 0
  let sum ← foldLoop sum
  return ~~~ UInt16.ofNat sum

/-- `buf[off..off + bytes.len()].copy_from_slice(&bytes)` -/
def copyTo (buf : List UInt8) (off : Nat) (bytes : List UInt8) : Option (List UInt8) :=
  if off + bytes.length ≤ buf.length then
    some (buf.take off ++ bytes ++ buf.drop (off + bytes.length))
  else
    none

/-- `to_be_bytes` -/
def be16Bytes (value : UInt16) : List UInt8 := [(value >>> 8).toUInt8, value.toUInt8]

def putBe16 (buf : List UInt8) (off : Nat) (value : UInt16) : Option (List UInt8) :=
  copyTo buf off (be16Bytes value)

/-! ## Sums of words -/

def wordSum : List UInt8 → Nat
  | high :: low :: rest => high.toNat * 256 + low.toNat + wordSum rest
  | _ => 0

theorem wordSum_le (bytes : List UInt8) : wordSum bytes ≤ 65535 * (bytes.length / 2) := by
  fun_induction wordSum bytes with
  | case1 high low rest induction =>
    have highBound := high.toNat_lt
    have lowBound := low.toNat_lt
    rw [List.length_cons, List.length_cons]
    omega
  | case2 => exact Nat.zero_le _

theorem wordSum_append (front rest : List UInt8) (even : front.length % 2 = 0) :
    wordSum (front ++ rest) = wordSum front + wordSum rest := by
  fun_induction wordSum front with
  | case1 high low front induction =>
    rw [List.length_cons, List.length_cons] at even
    rw [List.cons_append, List.cons_append, wordSum, induction (by omega)]
    omega
  | case2 front isShort =>
    cases front with
    | nil => rw [List.nil_append, Nat.zero_add]
    | cons first front =>
      cases front with
      | nil => cases even
      | cons second front => exact absurd rfl (isShort first second front)

theorem wordSum_drop {bytes : List UInt8} {i : Nat} (inside : i + 1 < bytes.length) :
    ∃ word, readBe16 bytes i = some word ∧
      wordSum (bytes.drop i) = word + wordSum (bytes.drop (i + 2)) := by
  have isHigh : i < bytes.length := Nat.lt_of_succ_lt inside
  refine ⟨bytes[i].toNat * 256 + bytes[i + 1].toNat, ?_, ?_⟩
  · rw [readBe16, List.getElem?_eq_getElem isHigh, List.getElem?_eq_getElem inside]
    rfl
  · rw [List.drop_eq_getElem_cons isHigh, List.drop_eq_getElem_cons inside, wordSum]

theorem wordSum_of_short {bytes : List UInt8} (isShort : bytes.length ≤ 1) :
    wordSum bytes = 0 := by
  have bound := wordSum_le bytes
  omega

theorem sumLoop_eq (bytes : List UInt8) (i sum : Nat)
    (small : sum + wordSum (bytes.drop i) < 2 ^ 32) :
    sumLoop bytes i sum = some (sum + wordSum (bytes.drop i)) := by
  rw [sumLoop]
  by_cases inside : i + 1 < bytes.length
  · rcases wordSum_drop inside with ⟨word, isWord, isSum⟩
    rw [isSum, ← Nat.add_assoc] at small ⊢
    have adds : add32 sum word = some (sum + word) :=
      if_pos (Nat.lt_of_le_of_lt (Nat.le_add_right _ _) small)
    simp only [if_pos inside, isWord, adds, Option.bind_eq_bind, Option.bind_some]
    exact sumLoop_eq bytes (i + 2) _ small
  · have isShort : (bytes.drop i).length ≤ 1 := by
      rw [List.length_drop]
      omega
    rw [if_neg inside, wordSum_of_short isShort, Nat.add_zero]
termination_by bytes.length - i
decreasing_by
  omega

theorem foldLoop_eq (sum : Nat) (small : sum < 2 ^ 32) :
    ∃ folded, foldLoop sum = some folded ∧ folded < 65536 ∧ folded % 65535 = sum % 65535 ∧
      (folded = 0 ↔ sum = 0) := by
  induction sum using Nat.strongRecOn with
  | ind sum induction =>
    rw [foldLoop]
    by_cases isWide : sum >>> 16 ≠ 0
    · rw [dif_pos isWide, fold_eq]
      rw [Nat.shiftRight_eq_div_pow] at isWide
      have smaller : sum % 65536 + sum / 65536 < sum := by omega
      have nextSmall := Nat.lt_trans smaller small
      rw [if_pos nextSmall]
      rcases induction _ smaller nextSmall with ⟨folded, ends, isShort, sameRest, isZero⟩
      refine ⟨folded, ends, isShort, ?_, ?_⟩
      · rw [sameRest]
        omega
      · rw [isZero]
        omega
    · rw [dif_neg isWide]
      rw [Nat.shiftRight_eq_div_pow] at isWide
      exact ⟨sum, rfl, by omega, rfl, Iff.rfl⟩

theorem ipv4Checksum_eq {bytes : List UInt8} (short : bytes.length ≤ 65534) :
    ∃ folded, ipv4Checksum bytes = some (~~~ UInt16.ofNat folded) ∧ folded < 65536 ∧
      folded % 65535 = wordSum bytes % 65535 ∧ (folded = 0 ↔ wordSum bytes = 0) := by
  have bound := wordSum_le bytes
  have small : wordSum bytes < 2 ^ 32 := by omega
  rcases foldLoop_eq (wordSum bytes) small with ⟨folded, ends, known⟩
  refine ⟨folded, ?_, known⟩
  have isSum : sumLoop bytes 0 0 = some (wordSum bytes) := by
    have sums := sumLoop_eq bytes 0 0 (by rw [List.drop_zero, Nat.zero_add]; exact small)
    rw [List.drop_zero, Nat.zero_add] at sums
    exact sums
  simp only [ipv4Checksum, isSum, ends, Option.bind_eq_bind, Option.bind_some]
  rfl

theorem toNat_complement {folded : Nat} (isShort : folded < 65536) :
    (~~~ UInt16.ofNat folded).toNat = 65535 - folded := by
  rw [UInt16.toNat_not, UInt16.toNat_ofNat_of_lt' isShort]
  rfl

theorem length_be16Bytes (value : UInt16) : (be16Bytes value).length = 2 := rfl

theorem wordSum_be16Bytes (value : UInt16) : wordSum (be16Bytes value) = value.toNat := by
  have bound := value.toNat_lt
  simp only [be16Bytes, wordSum, UInt16.toNat_toUInt8, UInt16.toNat_shiftRight]
  rw [Nat.shiftRight_eq_div_pow]
  change value.toNat / 256 % 256 * 256 + value.toNat % 256 + 0 = value.toNat
  omega

theorem eq_append_zeros {bytes : List UInt8} {off : Nat} (first : bytes[off]? = some 0)
    (second : bytes[off + 1]? = some 0) :
    bytes = bytes.take off ++ [0, 0] ++ bytes.drop (off + 2) := by
  rcases List.getElem?_eq_some_iff.mp first with ⟨inFirst, isFirst⟩
  rcases List.getElem?_eq_some_iff.mp second with ⟨inSecond, isSecond⟩
  conv => lhs; rw [← List.take_append_drop off bytes]
  rw [List.drop_eq_getElem_cons inFirst, List.drop_eq_getElem_cons inSecond, isFirst, isSecond,
    List.append_assoc]
  rfl

/-- With the checksum in its place the sum is a multiple of 65535, and not zero. -/
theorem checksum_verifies (bytes : List UInt8) (even : bytes.length % 2 = 0)
    (short : bytes.length ≤ 65534) (off : Nat) (evenOff : off % 2 = 0)
    (first : bytes[off]? = some 0) (second : bytes[off + 1]? = some 0) :
    ∃ csum stored, ipv4Checksum bytes = some csum ∧ putBe16 bytes off csum = some stored ∧
      ipv4Checksum stored = some 0 := by
  rcases ipv4Checksum_eq short with ⟨folded, isChecksum, isShort, sameRest, isZero⟩
  have inside := (List.getElem?_eq_some_iff.mp second).1
  have isPut : putBe16 bytes off (~~~ UInt16.ofNat folded) =
      some (bytes.take off ++ be16Bytes (~~~ UInt16.ofNat folded) ++ bytes.drop (off + 2)) :=
    if_pos inside
  refine ⟨_, _, isChecksum, isPut, ?_⟩
  have evenFront : (bytes.take off).length % 2 = 0 := by
    rw [List.length_take]
    omega
  have total : wordSum (bytes.take off ++ be16Bytes (~~~ UInt16.ofNat folded) ++
      bytes.drop (off + 2)) = wordSum bytes + (65535 - folded) := by
    have before : wordSum bytes =
        wordSum (bytes.take off) + (0 + wordSum (bytes.drop (off + 2))) := by
      conv => lhs; rw [eq_append_zeros first second]
      rw [List.append_assoc, wordSum_append _ _ evenFront, wordSum_append _ _ rfl]
      rfl
    have evenWord : (be16Bytes (~~~ UInt16.ofNat folded)).length % 2 = 0 := by
      rw [length_be16Bytes]
    rw [List.append_assoc, wordSum_append _ _ evenFront, wordSum_append _ _ evenWord,
      wordSum_be16Bytes, toNat_complement isShort, before]
    omega
  have shortStored : (bytes.take off ++ be16Bytes (~~~ UInt16.ofNat folded) ++
      bytes.drop (off + 2)).length ≤ 65534 := by
    rw [List.length_append, List.length_append, List.length_take, List.length_drop,
      length_be16Bytes]
    omega
  rcases ipv4Checksum_eq shortStored with ⟨again, isAgain, againShort, againRest, againZero⟩
  rw [total] at againRest againZero
  have isOnes : again = 65535 := by omega
  rw [isAgain, isOnes]
  rfl

/-- A string of ones with a place for the checksum. -/
theorem checksum_verifies_ones : ∃ csum stored,
    ipv4Checksum [0xFF, 0xFF, 0, 0, 0xFF, 0xFF] = some csum ∧
      putBe16 [0xFF, 0xFF, 0, 0, 0xFF, 0xFF] 2 csum = some stored ∧ ipv4Checksum stored = some 0 :=
  checksum_verifies [0xFF, 0xFF, 0, 0, 0xFF, 0xFF] rfl (by decide) 2 rfl rfl rfl

end PersonaOS.Drivers.Ipv4
