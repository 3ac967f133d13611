import SmsEcho.General.PartialRun
import SmsEcho.General.ByteBuffer
import SmsEcho.Client.FileChunks

/-! The three packet formats: an advertisement is a type byte, a count byte and pairs
of 16-bit ids and sizes; a request and a reply are their header structs, laid out by
the compiler with three padding bytes after the type. -/

namespace SmsEcho
open ByteBuffer PartialRun

/-- What ends the program, or leaves its behaviour undefined, in the middle of a handler. -/
inductive Fault where
  /-- a call of `abort()` -/
  | abort
  /-- an index or a copy outside its buffer -/
  | outOfBounds
  /-- `m_socket_send` is null -/
  | nullSocket
  /-- a failed `NS_ASSERT` -/
  | assertFailed
  /-- a loop that never ends -/
  | endless
deriving DecidableEq, Repr

structure RequestHeader where
  packetType : UInt8
  receiverAddress : Ipv4Address
  fileId : UInt32
  chunkId : UInt32
deriving DecidableEq, Repr

structure ReplyHeader where
  packetType : UInt8
  originalRequester : Ipv4Address
  fileId : UInt32
  fileSize : UInt32
  chunkId : UInt32
deriving DecidableEq, Repr

/-- The bytes of the struct; `pad` is what its padding happens to hold. -/
def RequestHeader.toBytes (h : RequestHeader) (pad : ℕ → UInt8) : Bytes :=
  [h.packetType, pad 1, pad 2, pad 3] ++ (le32 h.receiverAddress ++ (le32 h.fileId ++ le32 h.chunkId))

def ReplyHeader.toBytes (h : ReplyHeader) (pad : ℕ → UInt8) : Bytes :=
  [h.packetType, pad 1, pad 2, pad 3] ++
    (le32 h.originalRequester ++ (le32 h.fileId ++ (le32 h.fileSize ++ le32 h.chunkId)))

/-- `memcpy(&request, raw_packet, sizeof(request_header))`. -/
def RequestHeader.ofBytes (raw : Bytes) : Option RequestHeader := do
  let packetType ← read8 raw 0
  let receiverAddress ← read32 raw 4
  let fileId ← read32 raw 8
  let chunkId ← read32 raw 12
  return { packetType, receiverAddress, fileId, chunkId }

/-- `memcpy(&reply, raw_packet, sizeof(reply_header))`. -/
def ReplyHeader.ofBytes (raw : Bytes) : Option ReplyHeader := do
  let packetType ← read8 raw 0
  let originalRequester ← read32 raw 4
  let fileId ← read32 raw 8
  let fileSize ← read32 raw 12
  let chunkId ← read32 raw 16
  return { packetType, originalRequester, fileId, fileSize, chunkId }

theorem RequestHeader.toBytes_length (h : RequestHeader) (pad : ℕ → UInt8) :
    (h.toBytes pad).length = 16 := by simp [toBytes]

theorem ReplyHeader.toBytes_length (h : ReplyHeader) (pad : ℕ → UInt8) :
    (h.toBytes pad).length = 20 := by simp [toBytes]

theorem RequestHeader.ofBytes_toBytes (h : RequestHeader) (pad : ℕ → UInt8) (rest : Bytes) :
    ofBytes (h.toBytes pad ++ rest) = some h := by
  have h4 : read32 (h.toBytes pad ++ rest) 4 = some h.receiverAddress :=
    read32_of_append ([h.packetType, pad 1, pad 2, pad 3])
      (le32 h.fileId ++ (le32 h.chunkId ++ rest)) (by simp [toBytes]) rfl
  have h8 : read32 (h.toBytes pad ++ rest) 8 = some h.fileId :=
    read32_of_append ([h.packetType, pad 1, pad 2, pad 3] ++ le32 h.receiverAddress)
      (le32 h.chunkId ++ rest) (by simp [toBytes]) (by simp)
  have h12 : read32 (h.toBytes pad ++ rest) 12 = some h.chunkId :=
    read32_of_append
      ([h.packetType, pad 1, pad 2, pad 3] ++ (le32 h.receiverAddress ++ le32 h.fileId))
      rest (by simp [toBytes]) (by simp)
  have h0 : read8 (h.toBytes pad ++ rest) 0 = some h.packetType := read8_zero_cons ..
  simp [ofBytes, h0, h4, h8, h12]

theorem ReplyHeader.ofBytes_toBytes (h : ReplyHeader) (pad : ℕ → UInt8) (rest : Bytes) :
    ofBytes (h.toBytes pad ++ rest) = some h := by
  have h4 : read32 (h.toBytes pad ++ rest) 4 = some h.originalRequester :=
    read32_of_append ([h.packetType, pad 1, pad 2, pad 3])
      (le32 h.fileId ++ (le32 h.fileSize ++ (le32 h.chunkId ++ rest)))
      (by simp [toBytes]) rfl
  have h8 : read32 (h.toBytes pad ++ rest) 8 = some h.fileId :=
    read32_of_append ([h.packetType, pad 1, pad 2, pad 3] ++ le32 h.originalRequester)
      (le32 h.fileSize ++ (le32 h.chunkId ++ rest)) (by simp [toBytes]) (by simp)
  have h12 : read32 (h.toBytes pad ++ rest) 12 = some h.fileSize :=
    read32_of_append
      ([h.packetType, pad 1, pad 2, pad 3] ++ (le32 h.originalRequester ++ le32 h.fileId))
      (le32 h.chunkId ++ rest) (by simp [toBytes]) (by simp)
  have h16 : read32 (h.toBytes pad ++ rest) 16 = some h.chunkId :=
    read32_of_append
      ([h.packetType, pad 1, pad 2, pad 3] ++
        (le32 h.originalRequester ++ (le32 h.fileId ++ le32 h.fileSize)))
      rest (by simp [toBytes]) (by simp)
  have h0 : read8 (h.toBytes pad ++ rest) 0 = some h.packetType := read8_zero_cons ..
  simp [ofBytes, h0, h4, h8, h12, h16]

/-- `array[i*2]` and `array[i*2+1]` of the raw bytes seen as 16-bit cells. -/
def readPair (rawArray : Bytes) (i : ℕ) : Option (UInt16 × UInt16) := do
  let id ← read16 rawArray (2 * (i * 2))
  let size ← read16 rawArray (2 * (i * 2 + 1))
  return (id, size)

def readPairs (rawArray : Bytes) (num : ℕ) : Option (List (UInt16 × UInt16)) :=
  (List.range num).mapM (readPair rawArray)

def pairBytes (p : UInt16 × UInt16) : Bytes := le16 p.1 ++ le16 p.2

@[simp] theorem pairBytes_length (p : UInt16 × UInt16) : (pairBytes p).length = 4 := by
  simp [pairBytes]

theorem flatMap_pairBytes_length (ps : List (UInt16 × UInt16)) :
    (ps.flatMap pairBytes).length = 4 * ps.length := by
  induction ps with
  | nil => rfl
  | cons p ps ih =>
    simp only [List.flatMap_cons, List.length_append, pairBytes_length, ih, List.length_cons]
    omega

theorem readPair_append (front back : List (UInt16 × UInt16)) (p : UInt16 × UInt16) (rest : Bytes) :
    readPair ((front ++ p :: back).flatMap pairBytes ++ rest) front.length = some p := by
  have hid : read16 ((front ++ p :: back).flatMap pairBytes ++ rest) (2 * (front.length * 2)) =
      some p.1 :=
    read16_of_append (front.flatMap pairBytes)
      (le16 p.2 ++ (back.flatMap pairBytes ++ rest)) (by simp [pairBytes])
      (by rw [flatMap_pairBytes_length]; omega)
  have hsize : read16 ((front ++ p :: back).flatMap pairBytes ++ rest)
      (2 * (front.length * 2 + 1)) = some p.2 :=
    read16_of_append (front.flatMap pairBytes ++ le16 p.1)
      (back.flatMap pairBytes ++ rest) (by simp [pairBytes])
      (by rw [List.length_append, flatMap_pairBytes_length, le16_length]; omega)
  rw [readPair, hid, Option.bind_eq_bind, Option.bind_some, hsize]
  rfl

theorem readPairs_succ (raw : Bytes) (num : ℕ) :
    readPairs raw (num + 1) = do
      let ps ← readPairs raw num
      let p ← readPair raw num
      return ps ++ [p] := by
  rw [readPairs, readPairs, List.range_succ, List.mapM_append, List.mapM_cons, List.mapM_nil]
  cases (List.range num).mapM (readPair raw) with
  | none => rfl
  | some ps => cases readPair raw num <;> rfl

theorem readPairs_length {raw : Bytes} {num : ℕ} {ps : List (UInt16 × UInt16)}
    (h : readPairs raw num = some ps) : ps.length = num := by
  induction num generalizing ps with
  | zero =>
    obtain rfl : [] = ps := by simpa [readPairs] using h
    rfl
  | succ num ih =>
    rw [readPairs_succ] at h
    obtain ⟨qs, hqs, h⟩ := Option.bind_eq_some_iff.mp h
    obtain ⟨p, _, h⟩ := Option.bind_eq_some_iff.mp h
    obtain rfl : qs ++ [p] = ps := Option.some.inj h
    rw [List.length_append, ih hqs, List.length_singleton]

theorem readPairs_flatMap (ps : List (UInt16 × UInt16)) (rest : Bytes) {num : ℕ}
    (hn : num ≤ ps.length) : readPairs (ps.flatMap pairBytes ++ rest) num = some (ps.take num) := by
  induction num with
  | zero => simp [readPairs]
  | succ num ih =>
    have hlt : num < ps.length := hn
    have hsplit : ps = ps.take num ++ ps[num] :: ps.drop (num + 1) := by
      rw [List.getElem_cons_drop, List.take_append_drop]
    have hp : readPair (ps.flatMap pairBytes ++ rest) num = some ps[num] := by
      have h := readPair_append (ps.take num) (ps.drop (num + 1)) ps[num] rest
      rw [← hsplit, List.length_take, min_eq_left hlt.le] at h
      exact h
    rw [readPairs_succ, ih hlt.le, hp, List.take_succ_eq_append_getElem hlt]
    rfl

theorem readPairs_isSome_iff {raw : Bytes} {num : ℕ} :
    (readPairs raw num).isSome ↔ 4 * num ≤ raw.length := by
  induction num with
  | zero => simp [readPairs]
  | succ num ih =>
    have hp : (readPair raw num).isSome ↔ 4 * (num + 1) ≤ raw.length := by
      rw [readPair]
      cases h1 : read16 raw (2 * (num * 2)) with
      | none =>
        have hn := read16_isSome raw (2 * (num * 2))
        rw [h1] at hn
        simp at hn ⊢
        omega
      | some a =>
        have hn := read16_isSome raw (2 * (num * 2 + 1))
        cases h2 : read16 raw (2 * (num * 2 + 1)) with
        | none => rw [h2] at hn; simp at hn ⊢; omega
        | some b => rw [h2] at hn; simp at hn ⊢; omega
    rw [readPairs_succ]
    cases hq : readPairs raw num with
    | none => rw [hq] at ih; simp at ih ⊢; omega
    | some qs =>
      rw [← hp]
      cases readPair raw num <;> simp

inductive Message where
  | advertisement (files : List (UInt16 × UInt16))
  | request (header : RequestHeader)
  | reply (header : ReplyHeader)
deriving DecidableEq

/-- The reads `HandleRead` makes from a packet, by its type byte. -/
def Message.parse (bytes : Bytes) : Except Fault Message := do
  let packetType ← orFault .outOfBounds (read8 bytes 0)
  if packetType = 0 then
    let numOfFiles ← orFault .outOfBounds (read8 bytes 1)
    let files ← orFault .outOfBounds (readPairs (bytes.drop 2) numOfFiles.toNat)
    return .advertisement files
  else if packetType = 1 then
    let header ← orFault .outOfBounds (RequestHeader.ofBytes bytes)
    return .request header
  else if packetType = 2 then
    let header ← orFault .outOfBounds (ReplyHeader.ofBytes bytes)
    return .reply header
  else
    .error .abort

theorem Message.parse_request (h : RequestHeader) (pad : ℕ → UInt8) (rest : Bytes)
    (ht : h.packetType = 1) : parse (h.toBytes pad ++ rest) = .ok (.request h) := by
  have h0 : read8 (h.toBytes pad ++ rest) 0 = some h.packetType := read8_zero_cons ..
  simp [parse, h0, ht, RequestHeader.ofBytes_toBytes, pure, Except.pure]

theorem Message.parse_reply (h : ReplyHeader) (pad : ℕ → UInt8) (rest : Bytes)
    (ht : h.packetType = 2) : parse (h.toBytes pad ++ rest) = .ok (.reply h) := by
  have h0 : read8 (h.toBytes pad ++ rest) 0 = some h.packetType := read8_zero_cons ..
  simp [parse, h0, ht, ReplyHeader.ofBytes_toBytes, pure, Except.pure]

theorem Message.parse_zero {bs : Bytes} {m : Message} (h : parse (0 :: bs) = .ok m) :
    ∃ ps, m = .advertisement ps := by
  rw [parse, read8_zero_cons, orFault_some, ok_bind, if_pos rfl] at h
  obtain ⟨num, -, h⟩ := bind_eq_ok.mp h
  obtain ⟨ps, -, h⟩ := bind_eq_ok.mp h
  exact ⟨ps, (Except.ok.inj h).symm⟩

theorem Message.parse_advertisement (num : UInt8) (ps : List (UInt16 × UInt16)) (rest : Bytes)
    (hn : num.toNat ≤ ps.length) :
    parse (0 :: num :: (ps.flatMap pairBytes ++ rest)) = .ok (.advertisement (ps.take num.toNat)) := by
  simp [parse, readPairs_flatMap ps rest hn, pure, Except.pure]

end SmsEcho
