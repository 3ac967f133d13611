import SmsEcho.Client.NodeRun

/-! The bytes a handler reads from a packet, against the bytes the packet has. -/

namespace SmsEcho
open ByteBuffer PartialRun SmsEchoClient

/-- The memory from a packet's first byte on: the packet, and whatever lies behind it. -/
def memory (bytes : Bytes) (beyond : ℕ → UInt8) (offset : ℕ) : UInt8 :=
  bytes.getD offset (beyond offset)

/-- The offsets that `HandleRead` and `DecodeFilesForAdv` read at. -/
def offsetsRead (byteAt : ℕ → UInt8) : List ℕ :=
  -- `CopyData` is never asked for more than the packet has; its copies are indexed as here
  if byteAt 0 = 0 then
    0 :: 1 :: (List.range (byteAt 1).toNat).flatMap fun i =>
      [2 + 2 * (i * 2), 2 + 2 * (i * 2) + 1, 2 + 2 * (i * 2 + 1), 2 + 2 * (i * 2 + 1) + 1]
  else if byteAt 0 = 1 then 0 :: List.range 16
  else if byteAt 0 = 2 then 0 :: List.range 20
  else [0]

def packetLength (packetType count : UInt8) : ℕ :=
  if packetType = 0 then 2 + 4 * count.toNat
  else if packetType = 1 then 16
  else if packetType = 2 then 20
  else 1

def LongEnough (bytes : Bytes) : Prop :=
  packetLength (bytes.getD 0 0) (bytes.getD 1 0) ≤ bytes.length

instance (bytes : Bytes) : Decidable (LongEnough bytes) :=
  inferInstanceAs (Decidable (_ ≤ _))

theorem packetLength_pos (packetType count : UInt8) : 0 < packetLength packetType count := by
  unfold packetLength
  split_ifs <;> omega

theorem packetLength_of_ne {packetType : UInt8} (h : packetType ≠ 0) (count count' : UInt8) :
    packetLength packetType count = packetLength packetType count' := by
  unfold packetLength
  rw [if_neg h, if_neg h]

theorem mem_offsetsRead {byteAt : ℕ → UInt8} {o : ℕ} :
    o ∈ offsetsRead byteAt ↔ o < packetLength (byteAt 0) (byteAt 1) := by
  unfold offsetsRead packetLength
  split_ifs
  · simp only [List.mem_cons, List.mem_flatMap, List.mem_range, List.not_mem_nil, or_false]
    constructor
    · rintro (rfl | rfl | ⟨i, hi, h⟩) <;> omega
    · intro ho
      by_cases htwo : o < 2
      · omega
      · -- the pair the byte belongs to
        exact .inr (.inr ⟨(o - 2) / 4, by omega, by omega⟩)
  · simp only [List.mem_cons, List.mem_range]
    omega
  · simp only [List.mem_cons, List.mem_range]
    omega
  · simp

theorem memory_of_lt {bytes : Bytes} {o : ℕ} (h : o < bytes.length) (beyond : ℕ → UInt8)
    (b : UInt8) : memory bytes beyond o = bytes.getD o b := by
  unfold memory
  rw [List.getD_eq_getElem _ _ h, List.getD_eq_getElem _ _ h]

theorem packetLength_memory_le_iff {bytes : Bytes} {beyond : ℕ → UInt8} :
    packetLength (memory bytes beyond 0) (memory bytes beyond 1) ≤ bytes.length ↔
      LongEnough bytes := by
  unfold LongEnough
  by_cases h0 : 0 < bytes.length
  · rw [memory_of_lt h0 beyond 0]
    by_cases h1 : 1 < bytes.length
    · rw [memory_of_lt h1 beyond 0]
    · by_cases ht : bytes.getD 0 0 = 0
      · rw [ht]
        unfold packetLength
        rw [if_pos rfl, if_pos rfl]
        exact iff_of_false (by omega) (by omega)
      · rw [packetLength_of_ne ht]
  · have hpos := packetLength_pos (memory bytes beyond 0) (memory bytes beyond 1)
    have hpos' := packetLength_pos (bytes.getD 0 0) (bytes.getD 1 0)
    exact iff_of_false (by omega) (by omega)

theorem offsetsRead_inside_iff {bytes : Bytes} {beyond : ℕ → UInt8} :
    (∀ o ∈ offsetsRead (memory bytes beyond), o < bytes.length) ↔ LongEnough bytes := by
  rw [← @packetLength_memory_le_iff bytes beyond]
  have hpos := packetLength_pos (memory bytes beyond 0) (memory bytes beyond 1)
  constructor
  · intro h
    have hlast := h _ (mem_offsetsRead.mpr (Nat.sub_lt hpos Nat.one_pos))
    omega
  · intro hle o ho
    exact (mem_offsetsRead.mp ho).trans_le hle

theorem RequestHeader.ofBytes_isSome (raw : Bytes) : (ofBytes raw).isSome ↔ 16 ≤ raw.length := by
  constructor
  · intro h
    obtain ⟨header, hheader⟩ := Option.isSome_iff_exists.mp h
    simp only [ofBytes, Option.bind_eq_bind, Option.bind_eq_some_iff] at hheader
    obtain ⟨_, _, _, _, _, _, chunkId, hlast, _⟩ := hheader
    exact (read32_isSome raw 12).mp (Option.isSome_of_mem hlast)
  · intro h
    have h0 := read8_of_lt (h.trans' (show 0 + 1 ≤ 16 by decide)) 0
    obtain ⟨receiver, h4⟩ := exists_read32 (h.trans' (show 4 + 4 ≤ 16 by decide))
    obtain ⟨fileId, h8⟩ := exists_read32 (h.trans' (show 8 + 4 ≤ 16 by decide))
    obtain ⟨chunkId, h12⟩ := exists_read32 (h.trans' (show 12 + 4 ≤ 16 by decide))
    simp [ofBytes, h0, h4, h8, h12]

theorem ReplyHeader.ofBytes_isSome (raw : Bytes) : (ofBytes raw).isSome ↔ 20 ≤ raw.length := by
  constructor
  · intro h
    obtain ⟨header, hheader⟩ := Option.isSome_iff_exists.mp h
    simp only [ofBytes, Option.bind_eq_bind, Option.bind_eq_some_iff] at hheader
    obtain ⟨_, _, _, _, _, _, _, _, chunkId, hlast, _⟩ := hheader
    exact (read32_isSome raw 16).mp (Option.isSome_of_mem hlast)
  · intro h
    have h0 := read8_of_lt (h.trans' (show 0 + 1 ≤ 20 by decide)) 0
    obtain ⟨requester, h4⟩ := exists_read32 (h.trans' (show 4 + 4 ≤ 20 by decide))
    obtain ⟨fileId, h8⟩ := exists_read32 (h.trans' (show 8 + 4 ≤ 20 by decide))
    obtain ⟨fileSize, h12⟩ := exists_read32 (h.trans' (show 12 + 4 ≤ 20 by decide))
    obtain ⟨chunkId, h16⟩ := exists_read32 (h.trans' (show 16 + 4 ≤ 20 by decide))
    simp [ofBytes, h0, h4, h8, h12, h16]

theorem orFault_map_error_iff {α : Type} {o : Option α} {f : α → Message} :
    (do let a ← orFault Fault.outOfBounds o; return f a) = .error .outOfBounds ↔
      ¬ o.isSome := by
  cases o with
  | none => exact iff_of_true rfl (by simp)
  | some a => exact iff_of_false (by simp [pure, Except.pure]) (by simp)

theorem Message.parse_outOfBounds_iff (bytes : Bytes) :
    parse bytes = .error .outOfBounds ↔ ¬ LongEnough bytes := by
  unfold LongEnough packetLength
  cases bytes with
  | nil => exact iff_of_true rfl (by simp)
  | cons packetType rest =>
    rw [parse, read8_zero_cons, orFault_some, ok_bind, List.getD_cons_zero]
    by_cases h0 : packetType = 0
    · rw [if_pos h0, if_pos h0]
      cases rest with
      | nil => exact iff_of_true rfl (by simp)
      | cons num raw =>
        rw [read8_one_cons_cons, orFault_some, ok_bind]
        have hpairs : (readPairs raw num.toNat).isSome ↔ 4 * num.toNat ≤ raw.length :=
          readPairs_isSome_iff
        refine orFault_map_error_iff.trans (not_congr (hpairs.trans ?_))
        simp only [List.getD_cons_succ, List.getD_cons_zero, List.length_cons]
        omega
    · rw [if_neg h0, if_neg h0]
      by_cases h1 : packetType = 1
      · rw [if_pos h1, if_pos h1]
        exact orFault_map_error_iff.trans (not_congr (RequestHeader.ofBytes_isSome _))
      · rw [if_neg h1, if_neg h1]
        by_cases h2 : packetType = 2
        · rw [if_pos h2, if_pos h2]
          exact orFault_map_error_iff.trans (not_congr (ReplyHeader.ofBytes_isSome _))
        · rw [if_neg h2, if_neg h2]
          exact iff_of_false (by simp) (by simp)

theorem readPairs_take {raw : Bytes} {num k : ℕ} (h : 4 * num ≤ k) (hk : k ≤ raw.length) :
    readPairs (raw.take k) num = readPairs raw num := by
  induction num with
  | zero => rfl
  | succ num ih =>
    have hpair : readPair (raw.take k) num = readPair raw num := by
      unfold readPair
      rw [read16_take (by omega) hk, read16_take (by omega) hk]
    rw [readPairs_succ, readPairs_succ, ih (by omega), hpair]

theorem RequestHeader.ofBytes_take {raw : Bytes} {k : ℕ} (h : 16 ≤ k) (hk : k ≤ raw.length) :
    ofBytes (raw.take k) = ofBytes raw := by
  unfold ofBytes
  rw [read8_take (h.trans' (by decide)) hk, read32_take (h.trans' (by decide)) hk,
    read32_take (h.trans' (by decide)) hk, read32_take h hk]

theorem ReplyHeader.ofBytes_take {raw : Bytes} {k : ℕ} (h : 20 ≤ k) (hk : k ≤ raw.length) :
    ofBytes (raw.take k) = ofBytes raw := by
  unfold ofBytes
  rw [read8_take (h.trans' (by decide)) hk, read32_take (h.trans' (by decide)) hk,
    read32_take (h.trans' (by decide)) hk, read32_take (h.trans' (by decide)) hk,
    read32_take h hk]

theorem Message.parse_take {bytes : Bytes} {k : ℕ} (hk : k ≤ bytes.length)
    (h : packetLength (bytes.getD 0 0) (bytes.getD 1 0) ≤ k) :
    parse (bytes.take k) = parse bytes := by
  have hpos : 0 < k := (packetLength_pos _ _).trans_le h
  rw [parse, parse, read8_take hpos hk, read8_of_lt (hpos.trans_le hk) 0, orFault_some, ok_bind,
    ok_bind]
  unfold packetLength at h
  split_ifs at h ⊢
  · have hone : 1 < k := by omega
    rw [read8_take hone hk, read8_of_lt (hone.trans_le hk) 0, orFault_some, ok_bind, ok_bind,
      List.drop_take, readPairs_take (by omega) (by rw [List.length_drop]; omega)]
  · rw [RequestHeader.ofBytes_take h hk]
  · rw [ReplyHeader.ofBytes_take h hk]
  · rfl

namespace SmsEchoClient

/-- The packet is read within its bounds, and one that is too short is dropped. -/
structure ParsesInside (n : SmsEchoClient) (d : Datagram) (rand : ℕ → ℚ) : Prop where
  inside : ∀ beyond, ∀ o ∈ offsetsRead (memory d.bytes beyond), o < d.bytes.length
  short : ¬ LongEnough d.bytes → ∃ fl n', n.handlePacket d rand = .ok (fl, n') ∧
    n'.files = n.files ∧ n'.seenNodes = n.seenNodes

variable {n : SmsEchoClient} {d : Datagram}

theorem handlePacket_of_short (h : ¬ LongEnough d.bytes) (rand : ℕ → ℚ) :
    n.handlePacket d rand = .error .outOfBounds := by
  rw [handlePacket_eq, (Message.parse_outOfBounds_iff d.bytes).mpr h]
  rfl

/-- No packet that is too short is read within its bounds, whatever lies behind it. -/
theorem handlePacket_parsesInside_iff (n : SmsEchoClient) (d : Datagram) (rand : ℕ → ℚ) :
    (¬ LongEnough d.bytes → n.handlePacket d rand = .error .outOfBounds ∧
      ∀ beyond, ∃ o ∈ offsetsRead (memory d.bytes beyond), d.bytes.length ≤ o) ∧
    (n.ParsesInside d rand ↔ LongEnough d.bytes) := by
  refine ⟨fun hshort => ⟨handlePacket_of_short hshort rand, fun beyond => ?_⟩, ?_, ?_⟩
  · have hout := mt (@offsetsRead_inside_iff d.bytes beyond).mp hshort
    push Not at hout
    exact hout
  · intro h
    exact offsetsRead_inside_iff.mp (h.inside fun _ => 0)
  · intro hlong
    exact ⟨fun _ => offsetsRead_inside_iff.mpr hlong, fun hshort => absurd hlong hshort⟩

/-- An advertisement of one file that ends after its count. -/
def cutAdvertisement : Datagram := ⟨9, [0, 1]⟩

/-- By the time the missing pair is read, the sender is among the seen nodes. -/
theorem not_parsesInside_cut :
    ¬ listener.ParsesInside cutAdvertisement (fun _ => 0) ∧
      listener.seenNodes = [] ∧
      (listener.cancelAllEvents.addNodeToSeenList 9).seenNodes = [9] ∧
      (listener.cancelAllEvents.addNodeToSeenList 9).decodeFilesForAdv [] 1 9 =
        .error .outOfBounds := by
  refine ⟨fun h => ?_, rfl, rfl, rfl⟩
  have hpast := h.inside (fun _ => 0) 5 (mem_offsetsRead.mpr (by decide))
  exact absurd hpast (by decide)

end SmsEchoClient
end SmsEcho
