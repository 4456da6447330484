import Mathlib.Algebra.Ring.Nat
import Mathlib.Data.List.Induction

/-! # DHCP offers

`parse_dhcp_offer` of `kernel/src/drivers/e1000.rs` reads a frame from the network by index. It
is compared with a decoder of the option list that takes the bytes apart from the front. -/

namespace PersonaOS.Drivers.Dhcp

/-! ## The parser

Every function that reads by index returns `none` if an index is out of range. -/

/-- `buf[start..stop]` -/
def slice (buf : List UInt8) (start stop : Nat) : Option (List UInt8) :=
  if start ≤ stop ∧ stop ≤ buf.length then some ((buf.drop start).take (stop - start)) else none

def readBe16 (buf : List UInt8) (off : Nat) : Option Nat := do
  let high ← buf[off]?
  let low ← buf[off + 1]?
  return high.toNat * 256 + low.toNat

def readBe32 (buf : List UInt8) (off : Nat) : Option Nat := do
  let high ← readBe16 buf off
  let low ← readBe16 buf (off + 2)
  return high * 65536 + low

def dhcpXid : Nat := 0x706f7335

structure DhcpOffer where
  yiaddr : List UInt8
  router : List UInt8
  dns : List UInt8
  deriving DecidableEq, Repr

structure Found where
  msgType : UInt8
  router : List UInt8
  dns : List UInt8

def Found.new : Found := { msgType := 0, router := [0, 0, 0, 0], dns := [0, 0, 0, 0] }

/-- The `match` on an option whose value is at `pos`. -/
def Found.update (found : Found) (packet : List UInt8) (opt : UInt8) (len pos : Nat) :
    Option Found :=
  if opt = 53 ∧ 1 ≤ len then do
    let msgType ← packet[pos]?
    return { found with msgType }
  else if opt = 3 ∧ 4 ≤ len then do
    let router ← slice packet pos (pos + 4)
    return { found with router }
  else if opt = 6 ∧ 4 ≤ len then do
    let dns ← slice packet pos (pos + 4)
    return { found with dns }
  else
    return found

/-- The `while` loop over the options. -/
def optionLoop (packet : List UInt8) (pos : Nat) (found : Found) : Option Found :=
  if pos < packet.length then do
    let opt ← packet[pos]?
    if opt = 255 then
      return found
    else if opt = 0 then
      optionLoop packet (pos + 1) found
    else if packet.length ≤ pos + 1 then
      return found
    else do
      let len ← packet[pos + 1]?
      if packet.length < pos + 2 + len.toNat then
        return found
      else do
        let found ← found.update packet opt len.toNat (pos + 2)
        optionLoop packet (pos + 2 + len.toNat) found
  else
    return found
termination_by packet.length - pos

def parseDhcpOffer (packet : List UInt8) (mac : Vector UInt8 6) : Option (Option DhcpOffer) := do
  if packet.length < 14 + 20 + 8 + 240 then return none
  if (← packet[12]?) ≠ 0x08 then return none
  if (← packet[13]?) ≠ 0x00 then return none
  let ip := 14
  let ihl := ((← packet[ip]?) &&& 0x0F).toNat * 4
  if ihl < 20 then return none
  if packet.length < ip + ihl + 8 + 240 then return none
  if (← packet[ip + 9]?) ≠ 17 then return none
  let udp := ip + ihl
  if (← readBe16 packet udp) ≠ 67 then return none
  if (← readBe16 packet (udp + 2)) ≠ 68 then return none
  let dhcp := udp + 8
  if (← packet[dhcp]?) ≠ 2 then return none
  if (← packet[dhcp + 1]?) ≠ 1 then return none
  if (← packet[dhcp + 2]?) ≠ 6 then return none
  if (← readBe32 packet (dhcp + 4)) ≠ dhcpXid then return none
  if (← slice packet (dhcp + 28) (dhcp + 34)) ≠ mac.toList then return none
  if (← slice packet (dhcp + 236) (dhcp + 240)) ≠ [99, 130, 83, 99] then return none
  let found ← optionLoop packet (dhcp + 240) Found.new
  if found.msgType ≠ 2 then return none
  let yiaddr ← slice packet (dhcp + 16) (dhcp + 20)
  return some { yiaddr, router := found.router, dns := found.dns }

/-! ## The format -/

/-- The options of a list of bytes: `0` is padding, `255` ends the list, and everything else
has a length and a value. What is cut off is left out. -/
def options : List UInt8 → List (UInt8 × List UInt8)
  | [] => []
  | [_] => []
  | code :: len :: rest =>
    if code = 255 then
      []
    else if code = 0 then
      options (len :: rest)
    else if len.toNat ≤ rest.length then
      (code, rest.take len.toNat) :: options (rest.drop len.toNat)
    else
      []
termination_by bytes => bytes.length
decreasing_by
  · simp only [List.length_cons]
    omega
  · simp only [List.length_cons, List.length_drop]
    omega

def lastValue (code : UInt8) (least : Nat) (found : List (UInt8 × List UInt8)) :
    Option (List UInt8) :=
  (found.filter fun item => item.1 == code && decide (least ≤ item.2.length)).getLast?.map Prod.snd

def byteAt (packet : List UInt8) (off : Nat) : UInt8 := packet.getD off 0

def be16 (packet : List UInt8) (off : Nat) : Nat :=
  (byteAt packet off).toNat * 256 + (byteAt packet (off + 1)).toNat

def be32 (packet : List UInt8) (off : Nat) : Nat :=
  be16 packet off * 65536 + be16 packet (off + 2)

def bytesAt (packet : List UInt8) (off count : Nat) : List UInt8 := (packet.drop off).take count

def headerLength (packet : List UInt8) : Nat := (byteAt packet 14 &&& 0x0F).toNat * 4

/-- The UDP header comes behind those of Ethernet and IPv4. -/
def udp (packet : List UInt8) : Nat := 14 + headerLength packet

def bootp (packet : List UInt8) : Nat := udp packet + 8

/-- The frame is a reply to the request of this machine. -/
structure IsReply (packet : List UInt8) (mac : Vector UInt8 6) : Prop where
  hasHeader : 20 ≤ headerLength packet
  isLong : bootp packet + 240 ≤ packet.length
  etherType : byteAt packet 12 = 0x08 ∧ byteAt packet 13 = 0x00
  protocol : byteAt packet (14 + 9) = 17
  source : be16 packet (udp packet) = 67
  destination : be16 packet (udp packet + 2) = 68
  op : byteAt packet (bootp packet) = 2
  htype : byteAt packet (bootp packet + 1) = 1
  hlen : byteAt packet (bootp packet + 2) = 6
  xid : be32 packet (bootp packet + 4) = dhcpXid
  chaddr : bytesAt packet (bootp packet + 28) 6 = mac.toList
  cookie : bytesAt packet (bootp packet + 236) 4 = [99, 130, 83, 99]

def optionsOf (packet : List UInt8) : List (UInt8 × List UInt8) :=
  options (packet.drop (bootp packet + 240))

def IsOffer (packet : List UInt8) (mac : Vector UInt8 6) : Prop :=
  IsReply packet mac ∧ ((lastValue 53 1 (optionsOf packet)).bind fun value => value.head?) = some 2

def offerOf (packet : List UInt8) : DhcpOffer where
  yiaddr := bytesAt packet (bootp packet + 16) 4
  router := ((lastValue 3 4 (optionsOf packet)).map fun value => value.take 4).getD [0, 0, 0, 0]
  dns := ((lastValue 6 4 (optionsOf packet)).map fun value => value.take 4).getD [0, 0, 0, 0]

/-! ## Options -/

section Options

variable {packet : List UInt8}

theorem slice_eq {start stop : Nat} (inOrder : start ≤ stop) (inside : stop ≤ packet.length) :
    slice packet start stop = some ((packet.drop start).take (stop - start)) :=
  if_pos ⟨inOrder, inside⟩

theorem options_nil : options [] = [] := by
  rw [options]

theorem options_end (rest : List UInt8) : options (255 :: rest) = [] := by
  cases rest with
  | nil => rw [options]
  | cons len rest => rw [options, if_pos rfl]

theorem options_pad (rest : List UInt8) : options (0 :: rest) = options rest := by
  cases rest with
  | nil => rw [options, options]
  | cons len rest => rw [options, if_neg (by decide), if_pos rfl]

theorem options_code (code : UInt8) : options [code] = [] := by
  rw [options]

theorem options_cons {code : UInt8} (notEnd : code ≠ 255) (notPad : code ≠ 0) (len : UInt8)
    (rest : List UInt8) :
    options (code :: len :: rest) =
      if len.toNat ≤ rest.length then
        (code, rest.take len.toNat) :: options (rest.drop len.toNat)
      else
        [] := by
  rw [options, if_neg notEnd, if_neg notPad]

def Found.apply (found : Found) (item : UInt8 × List UInt8) : Found :=
  if item.1 = 53 ∧ 1 ≤ item.2.length then
    { found with msgType := item.2.headD 0 }
  else if item.1 = 3 ∧ 4 ≤ item.2.length then
    { found with router := item.2.take 4 }
  else if item.1 = 6 ∧ 4 ≤ item.2.length then
    { found with dns := item.2.take 4 }
  else
    found

theorem update_eq (found : Found) (opt : UInt8) {len pos : Nat}
    (inside : pos + len ≤ packet.length) :
    found.update packet opt len pos = some (found.apply (opt, (packet.drop pos).take len)) := by
  have isLength : ((packet.drop pos).take len).length = len := by
    rw [List.length_take, List.length_drop]
    omega
  have isValue (isLong : 4 ≤ len) :
      slice packet pos (pos + 4) = some (((packet.drop pos).take len).take 4) := by
    rw [slice_eq (by omega) (by omega), List.take_take, Nat.add_sub_cancel_left,
      Nat.min_eq_left isLong]
  simp only [Found.update, Found.apply, isLength]
  split
  · next isType =>
    have isByte : pos < packet.length := by omega
    have isHead : packet[pos]? = some (((packet.drop pos).take len).headD 0) := by
      rw [List.headD_eq_head?_getD, List.head?_take, if_neg (by omega), List.head?_drop,
        List.getElem?_eq_getElem isByte, Option.getD_some]
    rw [isHead]
    rfl
  · split
    · next isRouter =>
      rw [isValue isRouter.2]
      rfl
    · split
      · next isDns =>
        rw [isValue isDns.2]
        rfl
      · rfl

theorem optionLoop_eq (pos : Nat) (found : Found) :
    optionLoop packet pos found = some ((options (packet.drop pos)).foldl Found.apply found) := by
  induction left : packet.length - pos using Nat.strongRecOn generalizing pos found with
  | ind left induction =>
    rw [optionLoop]
    by_cases inside : pos < packet.length
    · rw [if_pos inside, List.getElem?_eq_getElem inside, List.drop_eq_getElem_cons inside]
      generalize packet[pos] = opt
      by_cases isEnd : opt = 255
      · rw [isEnd, options_end]
        rfl
      by_cases isPad : opt = 0
      · rw [isPad, options_pad]
        exact induction _ (by omega) (pos + 1) found rfl
      simp only [Option.bind_eq_bind, Option.bind_some, if_neg isEnd, if_neg isPad]
      by_cases hasLength : pos + 1 < packet.length
      · rw [if_neg (Nat.not_le.mpr hasLength), List.getElem?_eq_getElem hasLength,
          List.drop_eq_getElem_cons hasLength, options_cons isEnd isPad, List.length_drop,
          Option.bind_some]
        generalize packet[pos + 1] = len
        by_cases hasValue : pos + 2 + len.toNat ≤ packet.length
        · rw [if_neg (Nat.not_lt.mpr hasValue), if_pos (by omega), update_eq found opt hasValue,
            Option.bind_some, induction _ (by omega) _ _ rfl, List.foldl_cons, List.drop_drop]
        · rw [if_pos (Nat.lt_of_not_le hasValue), if_neg (by omega)]
          rfl
      · rw [if_pos (Nat.le_of_not_lt hasLength),
          List.drop_eq_nil_of_le (Nat.le_of_not_lt hasLength), options_code]
        rfl
    · rw [if_neg inside, List.drop_eq_nil_of_le (Nat.le_of_not_lt inside), options_nil]
      rfl

/-- A field that some elements set has the value from the last one of them. -/
theorem foldl_eq_last {γ ι δ : Type} {apply : γ → ι → γ} (field : γ → δ) {sets : ι → Bool}
    {value : ι → δ}
    (spec : ∀ state item, field (apply state item) = if sets item then value item else field state)
    (items : List ι) (state : γ) :
    field (items.foldl apply state) =
      ((items.filter sets).getLast?.map value).getD (field state) := by
  induction items using List.reverseRecOn with
  | nil => rfl
  | append_singleton items last induction =>
    rw [List.foldl_append, List.foldl_cons, List.foldl_nil, spec, induction, List.filter_append]
    by_cases isSet : sets last = true
    · simp [isSet]
    · simp [isSet]

theorem msgType_foldl (items : List (UInt8 × List UInt8)) :
    (items.foldl Found.apply .new).msgType =
      ((lastValue 53 1 items).map fun value => value.headD 0).getD 0 := by
  rw [lastValue, Option.map_map]
  apply foldl_eq_last Found.msgType
  intro found item
  grind [Found.apply]

theorem router_foldl (items : List (UInt8 × List UInt8)) :
    (items.foldl Found.apply .new).router =
      ((lastValue 3 4 items).map fun value => value.take 4).getD [0, 0, 0, 0] := by
  rw [lastValue, Option.map_map]
  apply foldl_eq_last Found.router
  intro found item
  grind [Found.apply]

theorem dns_foldl (items : List (UInt8 × List UInt8)) :
    (items.foldl Found.apply .new).dns =
      ((lastValue 6 4 items).map fun value => value.take 4).getD [0, 0, 0, 0] := by
  rw [lastValue, Option.map_map]
  apply foldl_eq_last Found.dns
  intro found item
  grind [Found.apply]

end Options

/-! ## Frames -/

section Frames

variable {packet : List UInt8}

/-- No index is out of range, and the offer is returned exactly if the frame is accepted. -/
def Returns (outcome : Option (Option DhcpOffer)) (accepted : Prop) (offer : DhcpOffer) : Prop :=
  ∃ result, outcome = some result ∧ ∀ other, result = some other ↔ accepted ∧ other = offer

theorem Returns.reject {accepted : Prop} (isRejected : ¬ accepted) (offer : DhcpOffer) :
    Returns (pure none) accepted offer :=
  ⟨none, rfl, fun _ => iff_of_false (by intro same; cases same) fun both => isRejected both.1⟩

theorem Returns.accept {accepted : Prop} (isAccepted : accepted) (offer : DhcpOffer) :
    Returns (pure (some offer)) accepted offer := by
  refine ⟨some offer, rfl, fun other => ?_⟩
  rw [Option.some_inj, eq_comm]
  exact ⟨fun same => ⟨isAccepted, same⟩, fun both => both.2⟩

theorem Returns.check {fails : Prop} [Decidable fails] {rest : Option (Option DhcpOffer)}
    {accepted : Prop} {offer : DhcpOffer} (passes : accepted → ¬ fails)
    (goesOn : ¬ fails → Returns rest accepted offer) :
    Returns (if fails then pure none else rest) accepted offer := by
  by_cases isBad : fails
  · rw [if_pos isBad]
    exact .reject (fun isAccepted => passes isAccepted isBad) offer
  · rw [if_neg isBad]
    exact goesOn isBad

theorem Returns.read {α : Type} {value : α} {reads : Option α}
    {next : α → Option (Option DhcpOffer)} {accepted : Prop} {offer : DhcpOffer}
    (inRange : reads = some value) (goesOn : Returns (next value) accepted offer) :
    Returns (reads >>= next) accepted offer := by
  rw [inRange]
  exact goesOn

theorem getElem?_eq_byteAt {off : Nat} (inside : off < packet.length) :
    packet[off]? = some (byteAt packet off) := by
  rw [byteAt, List.getD_eq_getElem?_getD, List.getElem?_eq_getElem inside, Option.getD_some]

theorem readBe16_eq {off : Nat} (inside : off + 2 ≤ packet.length) :
    readBe16 packet off = some (be16 packet off) := by
  rw [readBe16, getElem?_eq_byteAt (by omega), getElem?_eq_byteAt (by omega)]
  rfl

theorem readBe32_eq {off : Nat} (inside : off + 4 ≤ packet.length) :
    readBe32 packet off = some (be32 packet off) := by
  rw [readBe32, readBe16_eq (by omega), readBe16_eq (by omega)]
  rfl

theorem slice_eq_bytesAt {start count : Nat} (inside : start + count ≤ packet.length) :
    slice packet start (start + count) = some (bytesAt packet start count) := by
  rw [slice_eq (by omega) inside, Nat.add_sub_cancel_left, bytesAt]

theorem msgType_eq_two_iff (items : List (UInt8 × List UInt8)) :
    ((lastValue 53 1 items).map fun value => value.headD 0).getD 0 = 2 ↔
      ((lastValue 53 1 items).bind fun value => value.head?) = some 2 := by
  cases lastValue 53 1 items with
  | none => simp
  | some value =>
    cases value with
    | nil => simp
    | cons first rest => simp

/-- Parsing is total and exact. -/
theorem parseDhcpOffer_returns (packet : List UInt8) (mac : Vector UInt8 6) :
    ∃ result, parseDhcpOffer packet mac = some result ∧
      ∀ offer, result = some offer ↔ IsOffer packet mac ∧ offer = offerOf packet := by
  simp only [parseDhcpOffer]
  apply Returns.check
  · intro accepted isShort
    have isLong := accepted.1.isLong
    have hasHeader := accepted.1.hasHeader
    rw [bootp, udp] at isLong
    omega
  intro atLeast
  apply Returns.read (getElem?_eq_byteAt (by omega))
  apply Returns.check fun accepted fails => fails accepted.1.etherType.1
  intro typeHigh
  apply Returns.read (getElem?_eq_byteAt (by omega))
  apply Returns.check fun accepted fails => fails accepted.1.etherType.2
  intro typeLow
  apply Returns.read (getElem?_eq_byteAt (by omega))
  apply Returns.check fun accepted => Nat.not_lt.mpr accepted.1.hasHeader
  intro hasHeader
  apply Returns.check fun accepted => Nat.not_lt.mpr accepted.1.isLong
  intro notShort
  have isLong : bootp packet + 240 ≤ packet.length := Nat.le_of_not_lt notShort
  have isBehind : udp packet + 8 = bootp packet := rfl
  change Returns (packet[14 + 9]? >>= _) _ _
  apply Returns.read (getElem?_eq_byteAt (by omega))
  apply Returns.check fun accepted fails => fails accepted.1.protocol
  intro isProtocol
  change Returns (readBe16 packet (udp packet) >>= _) _ _
  apply Returns.read (readBe16_eq (by omega))
  apply Returns.check fun accepted fails => fails accepted.1.source
  intro isSource
  change Returns (readBe16 packet (udp packet + 2) >>= _) _ _
  apply Returns.read (readBe16_eq (by omega))
  apply Returns.check fun accepted fails => fails accepted.1.destination
  intro isDestination
  change Returns (packet[bootp packet]? >>= _) _ _
  apply Returns.read (getElem?_eq_byteAt (by omega))
  apply Returns.check fun accepted fails => fails accepted.1.op
  intro isOp
  change Returns (packet[bootp packet + 1]? >>= _) _ _
  apply Returns.read (getElem?_eq_byteAt (by omega))
  apply Returns.check fun accepted fails => fails accepted.1.htype
  intro isHtype
  change Returns (packet[bootp packet + 2]? >>= _) _ _
  apply Returns.read (getElem?_eq_byteAt (by omega))
  apply Returns.check fun accepted fails => fails accepted.1.hlen
  intro isHlen
  change Returns (readBe32 packet (bootp packet + 4) >>= _) _ _
  apply Returns.read (readBe32_eq (by omega))
  apply Returns.check fun accepted fails => fails accepted.1.xid
  intro isXid
  change Returns (slice packet (bootp packet + 28) (bootp packet + 28 + 6) >>= _) _ _
  apply Returns.read (slice_eq_bytesAt (by omega))
  apply Returns.check fun accepted fails => fails accepted.1.chaddr
  intro isChaddr
  change Returns (slice packet (bootp packet + 236) (bootp packet + 236 + 4) >>= _) _ _
  apply Returns.read (slice_eq_bytesAt (by omega))
  apply Returns.check fun accepted fails => fails accepted.1.cookie
  intro isCookie
  change Returns (optionLoop packet (bootp packet + 240) Found.new >>= _) _ _
  apply Returns.read (optionLoop_eq _ _)
  rw [msgType_foldl]
  apply Returns.check fun accepted fails => fails ((msgType_eq_two_iff _).mpr accepted.2)
  intro isType
  change Returns (slice packet (bootp packet + 16) (bootp packet + 16 + 4) >>= _) _ _
  apply Returns.read (slice_eq_bytesAt (by omega))
  rw [router_foldl, dns_foldl]
  have isReply : IsReply packet mac :=
    { hasHeader := Nat.le_of_not_lt hasHeader
      isLong
      etherType := ⟨not_not.mp typeHigh, not_not.mp typeLow⟩
      protocol := not_not.mp isProtocol
      source := not_not.mp isSource
      destination := not_not.mp isDestination
      op := not_not.mp isOp
      htype := not_not.mp isHtype
      hlen := not_not.mp isHlen
      xid := not_not.mp isXid
      chaddr := not_not.mp isChaddr
      cookie := not_not.mp isCookie }
  exact Returns.accept ⟨isReply, (msgType_eq_two_iff _).mp (not_not.mp isType)⟩ (offerOf packet)

end Frames

end PersonaOS.Drivers.Dhcp
