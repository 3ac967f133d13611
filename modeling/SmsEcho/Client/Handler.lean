import SmsEcho.Client.Selection
import SmsEcho.Client.EncodeLoop
import SmsEcho.Client.FillLoop

/-! What a node does when an event of its own fires, and when a packet arrives. The
handler reads raw bytes as the source does; `handlePacket_eq` splits it into reading a
message, absorbing it, and arming the events that follow. -/

namespace SmsEcho
open ByteBuffer PartialRun

/-- What uninitialised memory happens to hold: the array `EncodeFilesForAdv` allocates,
and the packet being built (for a header struct, its padding). -/
structure Garbage where
  array : ℕ → UInt16
  bytes : ℕ → UInt8

structure Datagram where
  sender : Ipv4Address
  bytes : Bytes
deriving DecidableEq

/-- How the body of the receive loop ends: with `return`, or by running on. -/
inductive Flow where
  | ret
  | next
deriving DecidableEq, Repr

namespace SmsEchoClient

/-- `SetFill` takes its two sizes as `uint32_t`; as they are equal, its loop is not entered. -/
def send (n : SmsEchoClient) (g : Garbage) : Except Fault (SmsEchoClient × Bytes) :=
  if n.timers.simulator.isExpired n.timers.mSendEvent then do
    let numFiles := UInt8.ofNat n.getNumOfFullFiles
    let (encodedFiles, n) ← n.encodeFilesForAdv g.array
    let fullLengthOfPacket := 1 * 2 + 2 * n.files.length * 2
    let fullPacket := malloc g.bytes fullLengthOfPacket
    let fullPacket ← orFault .outOfBounds (memcpy fullPacket 0 [0])
    let fullPacket ← orFault .outOfBounds (memcpy fullPacket 1 [numFiles])
    let fullPacket ← orFault .outOfBounds
      (memcpy fullPacket 2 (encodedFiles.take (2 * n.getNumOfFullFiles * 2)))
    let size := UInt32.ofNat fullLengthOfPacket
    match ← n.setFillBytes fullPacket size size g.bytes 0 with
    | none => .error .endless
    | some n => if n.mSocketSend then return (n, n.mData) else .error .nullSocket
  else .error .assertFailed

def requestFor (sender : Ipv4Address) (file : FileSMSChunks) : RequestHeader :=
  { packetType := 1, receiverAddress := sender, fileId := file.mId,
    chunkId := file.getFirstMissingChunk }

def requestPacket (n : SmsEchoClient) (sender : Ipv4Address) (fileToRequest : FileSMSChunks)
    (g : Garbage) : Except Fault (SmsEchoClient × Bytes) :=
  if n.mSocketSend then .ok (n, (requestFor sender fileToRequest).toBytes g.bytes)
  else .error .nullSocket

/-- The payload behind the header is never written, and so is what the stack held. -/
def reply (n : SmsEchoClient) (header : ReplyHeader) (chunkSize : UInt16) (g : Garbage) :
    Except Fault (SmsEchoClient × Bytes) :=
  if n.mSocketSend then
    .ok (n, header.toBytes g.bytes ++ malloc (fun i => g.bytes (20 + i)) chunkSize.toNat)
  else .error .nullSocket

def runAction (n : SmsEchoClient) (g : Garbage) : Action → Except Fault (SmsEchoClient × Bytes)
  | .send => n.send g
  | .requestPacket sender fileToRequest => n.requestPacket sender fileToRequest g
  | .reply header chunkSize => n.reply header chunkSize g

def fire (n : SmsEchoClient) (e : Event Delay Action) (g : Garbage) :
    Except Fault (SmsEchoClient × Bytes) :=
  runAction { n with timers := n.timers.cancel (some e.uid) } g e.action

def replyTo (sender : Ipv4Address) (request : RequestHeader) (file : FileSMSChunks) : ReplyHeader :=
  { packetType := 2, originalRequester := sender, fileId := file.mId,
    fileSize := file.mFileSize.toUInt32, chunkId := request.chunkId }

/-- The body of the loop of `HandleRead`; `rand` gives the random draws it makes, in order. -/
def handlePacket (n : SmsEchoClient) (d : Datagram) (rand : ℕ → ℚ) :
    Except Fault (Flow × SmsEchoClient) := do
  let packetType ← orFault .outOfBounds (read8 d.bytes 0)
  if packetType = 0 then
    let n := n.cancelAllEvents.addNodeToSeenList d.sender
    let numOfFiles ← orFault .outOfBounds (read8 d.bytes 1)
    let (_, n) ← n.decodeFilesForAdv (d.bytes.drop 2) numOfFiles d.sender
    let fileToRequest := n.getFileToRequest d.sender
    if fileToRequest.isFull then
      return (.ret, n.schedule (n.getTimeAdvertisement false (rand 0)) .send)
    else
      -- `get_time_request` makes a second draw for its warning
      let n := n.schedule (n.getTimeRequest (rand 0)) (.requestPacket d.sender fileToRequest)
      return (.next, n.schedule (n.getTimeAdvertisement false (rand 2)) .send)
  else if packetType = 1 then
    let n := n.cancelAllEvents
    let request ← orFault .outOfBounds (RequestHeader.ofBytes d.bytes)
    if request.receiverAddress ≠ n.address then
      return (.ret, n.schedule (n.getTimeAdvertisement false (rand 0)) .send)
    else
      let (fileRequested, index) := n.getFileById request.fileId
      if index = -1 then .error .abort
      else
        let chunkSize := fileRequested.getSizeOfChunk request.chunkId
        let n := n.schedule 0 (.reply (replyTo d.sender request fileRequested) chunkSize)
        return (.next, n.schedule (n.getTimeAdvertisement false (rand 0)) .send)
  else if packetType = 2 then
    let n := n.cancelAllEvents
    let reply ← orFault .outOfBounds (ReplyHeader.ofBytes d.bytes)
    let (_, n) ← n.addNewChunk reply.fileId reply.fileSize reply.chunkId d.sender
    if reply.originalRequester = n.address then
      let fileToRequest := n.getFileToRequest d.sender
      if fileToRequest.isFull then
        return (.ret, n.schedule (n.getTimeAdvertisement false (rand 0)) .send)
      else
        let n := n.schedule 0 (.requestPacket d.sender fileToRequest)
        return (.next, n.schedule (n.getTimeAdvertisement false (rand 0)) .send)
    else
      return (.next, n.schedule (n.getTimeAdvertisement false (rand 0)) .send)
  else
    .error .abort

/-- `HandleRead` on the packets waiting on the socket; what it leaves there is returned. -/
def handleRead (n : SmsEchoClient) :
    List (Datagram × (ℕ → ℚ)) → Except Fault (SmsEchoClient × List (Datagram × (ℕ → ℚ)))
  | [] => .ok (n, [])
  | packet :: queue => do
    let (flow, n) ← n.handlePacket packet.1 packet.2
    match flow with
    | .ret => return (n, queue)
    | .next => handleRead n queue

def absorbAdvertisement (n : SmsEchoClient) (sender : Ipv4Address) (ps : List (UInt16 × UInt16)) :
    SmsEchoClient :=
  { n.addNodeToSeenList sender with
    maximumFullFilesSeen := max n.maximumFullFilesSeen ps.length
    files := (ps.map receivedFile).foldl (noteAdvertised sender) n.files }

def absorb (n : SmsEchoClient) (sender : Ipv4Address) : Message → Except Fault SmsEchoClient
  | .advertisement ps => .ok (n.absorbAdvertisement sender ps)
  | .request h =>
    if h.receiverAddress = n.address ∧ n.fileIndex h.fileId = -1 then .error .abort else .ok n
  | .reply h => (n.addNewChunk h.fileId h.fileSize h.chunkId sender).map Prod.snd

def nextRequest (n : SmsEchoClient) (sender : Ipv4Address) : Option Action :=
  if (n.getFileToRequest sender).isFull then none
  else some (.requestPacket sender (n.getFileToRequest sender))

def followUp (n : SmsEchoClient) (sender : Ipv4Address) : Message → Option Action
  | .advertisement _ => n.nextRequest sender
  | .request h =>
    if h.receiverAddress = n.address then
      some (.reply (replyTo sender h (n.getFileById h.fileId).1)
        ((n.getFileById h.fileId).1.getSizeOfChunk h.chunkId))
    else none
  | .reply h => if h.originalRequester = n.address then n.nextRequest sender else none

def withTimers (n : SmsEchoClient) (t : Timers) : SmsEchoClient := { n with timers := t }

def arm (n : SmsEchoClient) (delay sendDelay : Delay) (a : Option Action) : SmsEchoClient :=
  n.withTimers (n.timers.arm delay sendDelay a)

/-- How long the follow-up waits: only a request that answers an advertisement does. -/
def followUpDelay (n : SmsEchoClient) (rand : ℕ → ℚ) : Message → Delay
  | .advertisement _ => n.getTimeRequest (rand 0)
  | _ => 0

def sendDraw : Message → Option Action → ℕ
  | .advertisement _, some _ => 2
  | _, _ => 0

def flow (n : SmsEchoClient) : Message → Option Action → Flow
  | .reply h, none => if h.originalRequester = n.address then .ret else .next
  | _, none => .ret
  | _, some _ => .next

def respond (n : SmsEchoClient) (sender : Ipv4Address) (rand : ℕ → ℚ) (m : Message) :
    Flow × SmsEchoClient :=
  let a := n.followUp sender m
  (n.flow m a,
    n.arm (n.followUpDelay rand m) (n.getTimeAdvertisement false (rand (sendDraw m a))) a)

@[simp] theorem cancelAllEvents_address (n : SmsEchoClient) :
    n.cancelAllEvents.address = n.address := rfl

theorem decodeFilesForAdv_addNodeToSeenList (n : SmsEchoClient) (raw : Bytes) (num : UInt8)
    (sender : Ipv4Address) :
    (n.addNodeToSeenList sender).decodeFilesForAdv raw num sender =
      (orFault .outOfBounds (readPairs raw num.toNat)).map
        fun ps => (ps.map receivedFile, n.absorbAdvertisement sender ps) := by
  rw [decodeFilesForAdv]
  cases h : readPairs raw num.toNat with
  | none => rfl
  | some ps =>
    have hlen := readPairs_length h
    have hmax : (n.addNodeToSeenList sender).maximumFullFilesSeen = n.maximumFullFilesSeen := by
      unfold addNodeToSeenList
      split <;> rfl
    simp only [orFault_some, ok_bind, Except.map, pure, Except.pure, absorbAdvertisement, hlen,
      hmax, addNodeToSeenList_files]

theorem handlePacket_eq (n : SmsEchoClient) (d : Datagram) (rand : ℕ → ℚ) :
    n.handlePacket d rand = (do
      let m ← Message.parse d.bytes
      let n' ← n.cancelAllEvents.absorb d.sender m
      return n'.respond d.sender rand m) := by
  rw [handlePacket, Message.parse]
  cases read8 d.bytes 0 with
  | none => rfl
  | some packetType =>
    simp only [orFault_some, ok_bind]
    by_cases h0 : packetType = 0
    · simp only [if_pos h0]
      cases read8 d.bytes 1 with
      | none => rfl
      | some num =>
        simp only [orFault_some, ok_bind, decodeFilesForAdv_addNodeToSeenList]
        cases readPairs (d.bytes.drop 2) num.toNat with
        | none => rfl
        | some ps =>
          simp only [orFault_some, Except.map, ok_bind, pure, Except.pure, absorb, respond,
            followUp, nextRequest]
          cases ((n.cancelAllEvents.absorbAdvertisement d.sender ps).getFileToRequest
            d.sender).isFull <;> rfl
    · simp only [if_neg h0]
      by_cases h1 : packetType = 1
      · simp only [if_pos h1]
        cases RequestHeader.ofBytes d.bytes with
        | none => rfl
        | some h =>
          simp only [orFault_some, ok_bind, pure, Except.pure, absorb, respond, followUp, ne_eq]
          by_cases ha : h.receiverAddress = n.cancelAllEvents.address
          · by_cases he : (n.cancelAllEvents.getFileById h.fileId).2 = -1
            · simp [ha, fileIndex, he]
            · simp [ha, fileIndex, he, flow, sendDraw, followUpDelay]
              rfl
          · rw [cancelAllEvents_address] at ha
            simp [ha, flow, sendDraw]
            rfl
      · simp only [if_neg h1]
        by_cases h2 : packetType = 2
        · simp only [if_pos h2]
          cases ReplyHeader.ofBytes d.bytes with
          | none => rfl
          | some h =>
            simp only [orFault_some, ok_bind, pure, Except.pure, absorb]
            cases hadd : n.cancelAllEvents.addNewChunk h.fileId h.fileSize h.chunkId d.sender with
            | error e => rfl
            | ok r =>
              simp only [Except.map, ok_bind, respond, followUp, nextRequest]
              by_cases ha : h.originalRequester = r.2.address
              · simp only [if_pos ha]
                cases (r.2.getFileToRequest d.sender).isFull <;>
                  simp [flow, sendDraw, followUpDelay, ha] <;> rfl
              · simp [ha, flow, sendDraw]
                rfl
        · simp only [if_neg h2]
          rfl

theorem withTimers_addNodeToSeenList (n : SmsEchoClient) (t : Timers) (a : Ipv4Address) :
    (n.withTimers t).addNodeToSeenList a = (n.addNodeToSeenList a).withTimers t := by
  unfold addNodeToSeenList
  change (if n.seenNodes.contains a then _ else _) = _
  split <;> rfl

theorem addNewChunk_withTimers (n : SmsEchoClient) (t : Timers) (id fileSize c : UInt32)
    (sender : Ipv4Address) :
    (n.withTimers t).addNewChunk id fileSize c sender =
      (n.addNewChunk id fileSize c sender).map fun r => (r.1, r.2.withTimers t) := by
  have hindex : (n.withTimers t).fileIndex id = n.fileIndex id := rfl
  have hfiles : (n.withTimers t).files = n.files := rfl
  simp only [addNewChunk, hindex, hfiles]
  split_ifs
  · rfl
  · rfl
  · cases n.files[sizeT (n.fileIndex id)]? with
    | none => rfl
    | some file =>
      simp only [orFault_some, ok_bind]
      cases file.chunks[c.toNat]? with
      | none => rfl
      | some there => cases there <;> rfl

theorem absorb_withTimers (n : SmsEchoClient) (t : Timers) (sender : Ipv4Address) (m : Message) :
    (n.withTimers t).absorb sender m = (n.absorb sender m).map fun n₁ => n₁.withTimers t := by
  cases m with
  | advertisement ps =>
    simp only [absorb, absorbAdvertisement, withTimers_addNodeToSeenList, Except.map]
    rfl
  | request h =>
    have hindex : (n.withTimers t).fileIndex h.fileId = n.fileIndex h.fileId := rfl
    have ha : (n.withTimers t).address = n.address := rfl
    simp only [absorb, hindex, ha]
    split <;> rfl
  | reply h =>
    rw [absorb, absorb, addNewChunk_withTimers]
    cases n.addNewChunk h.fileId h.fileSize h.chunkId sender <;> rfl

/-- All that a packet handled without a fault can do: the store absorbs its message, every
pending event is cancelled, and a Send is armed with at most one event before it. -/
theorem handlePacket_armed {n n' : SmsEchoClient} {d : Datagram} {rand : ℕ → ℚ} {fl : Flow}
    (h : n.handlePacket d rand = .ok (fl, n')) :
    ∃ m, Message.parse d.bytes = .ok m ∧ n.absorb d.sender m = .ok (n'.withTimers n.timers) ∧
      n'.timers = n.timers.cancelAllEvents.arm (n'.followUpDelay rand m)
        (n'.getTimeAdvertisement false (rand (sendDraw m (n'.followUp d.sender m))))
        (n'.followUp d.sender m) := by
  rw [handlePacket_eq] at h
  obtain ⟨m, hm, h⟩ := bind_eq_ok.mp h
  obtain ⟨n₁, hn₁, h⟩ := bind_eq_ok.mp h
  obtain ⟨-, rfl⟩ := Prod.mk.inj (Except.ok.inj h)
  change (n.withTimers n.timers.cancelAllEvents).absorb d.sender m = .ok n₁ at hn₁
  rw [absorb_withTimers] at hn₁
  cases ha : n.absorb d.sender m with
  | error e => simp [ha, Except.map] at hn₁
  | ok n₂ =>
    rw [ha] at hn₁
    obtain rfl : n₂.withTimers n.timers.cancelAllEvents = n₁ := Except.ok.inj hn₁
    have htimers : n₂.timers = n.timers := by
      have hself := absorb_withTimers n n.timers d.sender m
      have hn : n.withTimers n.timers = n := rfl
      rw [hn, ha] at hself
      have heq : n₂ = n₂.withTimers n.timers := Except.ok.inj hself
      rw [heq]
      rfl
    refine ⟨m, hm, ?_, rfl⟩
    rw [ha]
    exact congrArg Except.ok (by rw [← htimers]; rfl)

theorem handlePacket_cases {n n' : SmsEchoClient} {d : Datagram} {rand : ℕ → ℚ} {fl : Flow}
    (h : n.handlePacket d rand = .ok (fl, n')) :
    ∃ m delay sendDelay, Message.parse d.bytes = .ok m ∧
      n.absorb d.sender m = .ok (n'.withTimers n.timers) ∧
      n'.timers = n.timers.cancelAllEvents.arm delay sendDelay (n'.followUp d.sender m) := by
  obtain ⟨m, hm, ha, ht⟩ := handlePacket_armed h
  exact ⟨m, _, _, hm, ha, ht⟩

theorem handlePacket_of_absorb {n n₁ : SmsEchoClient} {d : Datagram} {m : Message} (rand : ℕ → ℚ)
    (hm : Message.parse d.bytes = .ok m)
    (ha : n.cancelAllEvents.absorb d.sender m = .ok n₁) :
    n.handlePacket d rand = .ok (n₁.respond d.sender rand m) := by
  rw [handlePacket_eq, hm, ok_bind, ha]
  rfl

end SmsEchoClient
end SmsEcho
