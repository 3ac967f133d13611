import SmsEcho.General.LabelledTrace
import SmsEcho.Client.Advertisement

/-! The steps of a running node: it handles a packet, or one of its pending events fires.
What a handled packet changes, what it makes the node say next, and what a fired event puts
on the wire. -/

namespace SmsEcho
open ByteBuffer PartialRun KeyedList LabelledTrace SmsEchoClient

def Message.kind : Message → EventKind
  | .advertisement _ => .send
  | .request _ => .request
  | .reply _ => .reply

def Message.Invites (address : Ipv4Address) : Message → Prop
  | .advertisement _ => True
  | .request _ => False
  | .reply h => h.originalRequester = address

def Action.WellTyped : Action → Prop
  | .reply header _ => header.packetType = 2
  | _ => True

namespace SmsEchoClient

theorem absorb_request {n n' : SmsEchoClient} {sender : Ipv4Address} {h : RequestHeader}
    (ha : n.absorb sender (.request h) = .ok n') :
    n' = n ∧ (h.receiverAddress = n.address → n.entry h.fileId ≠ none) := by
  rw [absorb] at ha
  split_ifs at ha with hc
  exact ⟨(Except.ok.inj ha).symm, fun haddr hnone => hc ⟨haddr, fileIndex_of_none hnone⟩⟩

theorem absorb_reply {n n' : SmsEchoClient} {sender : Ipv4Address} {h : ReplyHeader}
    (ha : n.absorb sender (.reply h) = .ok n') :
    ∃ b, n.addNewChunk h.fileId h.fileSize h.chunkId sender = .ok (b, n') :=
  process_reply ha

theorem absorb_frame {n n' : SmsEchoClient} {sender : Ipv4Address} {m : Message}
    (ha : n.absorb sender m = .ok n') :
    n'.address = n.address ∧ n'.mSocket = n.mSocket ∧ n'.mSocketSend = n.mSocketSend := by
  cases m with
  | advertisement ps =>
    obtain rfl : n.absorbAdvertisement sender ps = n' := Except.ok.inj ha
    unfold absorbAdvertisement addNodeToSeenList
    split <;> exact ⟨rfl, rfl, rfl⟩
  | request h =>
    obtain ⟨rfl, -⟩ := absorb_request ha
    exact ⟨rfl, rfl, rfl⟩
  | reply h =>
    obtain ⟨b, hb⟩ := absorb_reply ha
    obtain ⟨seen, files, rfl, -⟩ := addNewChunk_frame hb
    exact ⟨rfl, rfl, rfl⟩

theorem length_le_noteAdvertised (sender : Ipv4Address) (files : List FileSMSChunks)
    (r : FileSMSChunks) : files.length ≤ (noteAdvertised sender files r).length := by
  induction files with
  | nil => exact Nat.zero_le _
  | cons f fs ih =>
    rw [noteAdvertised]
    split_ifs
    · exact le_rfl
    · exact Nat.succ_le_succ ih

theorem length_le_foldl_noteAdvertised (sender : Ipv4Address) (rs files : List FileSMSChunks) :
    files.length ≤ (rs.foldl (noteAdvertised sender) files).length := by
  induction rs generalizing files with
  | nil => exact le_rfl
  | cons r rs ih => exact (length_le_noteAdvertised sender files r).trans (ih _)

theorem absorb_length_le {n n' : SmsEchoClient} {sender : Ipv4Address} {m : Message}
    (ha : n.absorb sender m = .ok n') : n.files.length ≤ n'.files.length := by
  cases m with
  | advertisement ps =>
    obtain rfl : n.absorbAdvertisement sender ps = n' := Except.ok.inj ha
    exact length_le_foldl_noteAdvertised sender _ n.files
  | request h =>
    obtain ⟨rfl, -⟩ := absorb_request ha
    exact le_rfl
  | reply h =>
    obtain ⟨b, hb⟩ := absorb_reply ha
    obtain ⟨seen, files, rfl, hle, -⟩ := addNewChunk_frame hb
    exact hle

theorem absorb_reply_cases {n n' : SmsEchoClient} {sender : Ipv4Address} {h : ReplyHeader}
    (hlen : n.files.length < 2 ^ 32) (ha : n.absorb sender (.reply h) = .ok n') :
    h.chunkId < (n.target h.fileId h.fileSize).fileSizeInChunks ∧
      ((n.target h.fileId h.fileSize).Has h.chunkId.toNat ∧ n' = n ∨
        ¬ (n.target h.fileId h.fileSize).Has h.chunkId.toNat ∧
          n' = noteFullFiles { n with
            files := n.storedFiles h.fileId h.fileSize h.chunkId sender }) := by
  obtain ⟨b, hb⟩ := absorb_reply ha
  obtain ⟨hc, ⟨hhas, -, heq⟩ | ⟨hnew, -, heq⟩⟩ :=
    addNewChunk_cases (indexed_of_addNewChunk hlen hb) hb
  · exact ⟨hc, Or.inl ⟨hhas, heq⟩⟩
  · exact ⟨hc, Or.inr ⟨hnew, heq⟩⟩

theorem absorb_storeInv {n n' : SmsEchoClient} {sender : Ipv4Address} {m : Message}
    (hlen : n.files.length < 2 ^ 32) (h : StoreInv n.files) (ha : n.absorb sender m = .ok n') :
    StoreInv n'.files := by
  cases m with
  | advertisement ps =>
    obtain rfl : n.absorbAdvertisement sender ps = n' := Except.ok.inj ha
    exact h.absorb sender ps
  | request hd =>
    obtain ⟨rfl, -⟩ := absorb_request ha
    exact h
  | reply hd =>
    obtain ⟨hc, ⟨-, rfl⟩ | ⟨hnew, rfl⟩⟩ := absorb_reply_cases hlen ha
    · exact h
    · exact h.storedFiles sender hc hnew

theorem absorb_storeExtends {n n' : SmsEchoClient} {sender : Ipv4Address} {m : Message}
    (hlen : n.files.length < 2 ^ 32) (ha : n.absorb sender m = .ok n') :
    StoreExtends n.files n'.files := by
  cases m with
  | advertisement ps =>
    obtain rfl : n.absorbAdvertisement sender ps = n' := Except.ok.inj ha
    exact storeExtends_foldl_noteAdvertised sender _ n.files
  | request h =>
    obtain ⟨rfl, -⟩ := absorb_request ha
    exact .refl _
  | reply h =>
    obtain ⟨hc, ⟨-, rfl⟩ | ⟨-, rfl⟩⟩ := absorb_reply_cases hlen ha
    · exact .refl _
    · exact storeExtends_storedFiles sender hc

theorem handlePacket_ne_outOfBounds {n : SmsEchoClient} {d : Datagram} {m : Message}
    (hm : Message.parse d.bytes = .ok m)
    (hreply : ∀ h, m = .reply h → n.InRange (.reply h.fileId h.fileSize h.chunkId d.sender))
    (rand : ℕ → ℚ) : n.handlePacket d rand ≠ .error .outOfBounds := by
  have hok : ∀ n₁, n.cancelAllEvents.absorb d.sender m = .ok n₁ →
      n.handlePacket d rand ≠ .error .outOfBounds := by
    intro n₁ ha
    rw [handlePacket_of_absorb rand hm ha]
    simp
  cases m with
  | advertisement ps => exact hok _ rfl
  | request h =>
    by_cases hc : h.receiverAddress = n.cancelAllEvents.address ∧
        n.cancelAllEvents.fileIndex h.fileId = -1
    · have habort : n.cancelAllEvents.absorb d.sender (.request h) = .error .abort := by
        rw [absorb, if_pos hc]
      rw [handlePacket_eq, hm, ok_bind, habort]
      simp
    · exact hok n.cancelAllEvents (by rw [absorb, if_neg hc])
  | reply h =>
    have hrange : n.cancelAllEvents.InRange (.reply h.fileId h.fileSize h.chunkId d.sender) :=
      hreply h rfl
    obtain ⟨n₁, hn₁⟩ := hrange.process_ok
    exact hok n₁ hn₁

theorem nextRequest_eq_some {n : SmsEchoClient} {sender : Ipv4Address} {a : Action} :
    n.nextRequest sender = some a ↔ (n.getFileToRequest sender).isFull = false ∧
      a = .requestPacket sender (n.getFileToRequest sender) := by
  unfold nextRequest
  cases (n.getFileToRequest sender).isFull <;> simp [eq_comm]

theorem followUp_eq_some {n : SmsEchoClient} {sender : Ipv4Address} {m : Message} {a : Action}
    (h : n.followUp sender m = some a) :
    (m.Invites n.address ∧ (n.getFileToRequest sender).isFull = false ∧
        a = .requestPacket sender (n.getFileToRequest sender)) ∨
      ∃ hd, m = .request hd ∧ hd.receiverAddress = n.address ∧
        a = .reply (replyTo sender hd (n.getFileById hd.fileId).1)
          ((n.getFileById hd.fileId).1.getSizeOfChunk hd.chunkId) := by
  cases m with
  | advertisement ps => exact Or.inl ⟨trivial, nextRequest_eq_some.mp h⟩
  | request hd =>
    rw [followUp] at h
    split_ifs at h with haddr
    exact Or.inr ⟨hd, rfl, haddr, (Option.some.inj h).symm⟩
  | reply hd =>
    rw [followUp] at h
    split_ifs at h with haddr
    exact Or.inl ⟨haddr, nextRequest_eq_some.mp h⟩

theorem followUp_eq_request {n : SmsEchoClient} {sender peer : Ipv4Address} {m : Message}
    {f : FileSMSChunks} (h : n.followUp sender m = some (.requestPacket peer f)) :
    peer = sender ∧ m.Invites n.address ∧ f = n.getFileToRequest sender ∧ f.isFull = false := by
  rcases followUp_eq_some h with ⟨hinvites, hfull, heq⟩ | ⟨q, -, -, heq⟩
  · obtain ⟨rfl, rfl⟩ := Action.requestPacket.inj heq
    exact ⟨rfl, hinvites, rfl, hfull⟩
  · exact absurd heq (by simp)

theorem followUp_eq_reply {n : SmsEchoClient} {sender : Ipv4Address} {m : Message}
    {hd : ReplyHeader} {size : UInt16} (h : n.followUp sender m = some (.reply hd size)) :
    ∃ q, m = .request q ∧ q.receiverAddress = n.address ∧
      hd = replyTo sender q (n.getFileById q.fileId).1 := by
  rcases followUp_eq_some h with ⟨-, -, heq⟩ | ⟨q, rfl, haddr, heq⟩
  · exact absurd heq (by simp)
  · exact ⟨q, rfl, haddr, (Action.reply.inj heq).1⟩

theorem followUp_kind_ne_send {n : SmsEchoClient} {sender : Ipv4Address} {m : Message} {a : Action}
    (h : n.followUp sender m = some a) : a.kind ≠ .send := by
  rcases followUp_eq_some h with ⟨-, -, rfl⟩ | ⟨hd, -, -, rfl⟩ <;> simp [Action.kind]

theorem followUp_wellTyped {n : SmsEchoClient} {sender : Ipv4Address} {m : Message} {a : Action}
    (h : n.followUp sender m = some a) : a.WellTyped := by
  rcases followUp_eq_some h with ⟨-, -, rfl⟩ | ⟨hd, -, -, rfl⟩
  · trivial
  · rfl

section Handled
variable {n n' : SmsEchoClient} {d : Datagram} {rand : ℕ → ℚ} {fl : Flow}

theorem handlePacket_absorb {m : Message} (hm : Message.parse d.bytes = .ok m)
    (h : n.handlePacket d rand = .ok (fl, n')) :
    n.absorb d.sender m = .ok (n'.withTimers n.timers) := by
  obtain ⟨m', -, -, hm', habsorb, -⟩ := handlePacket_cases h
  obtain rfl : m = m' := Except.ok.inj (hm.symm.trans hm')
  exact habsorb

theorem handlePacket_known {q : RequestHeader} (hm : Message.parse d.bytes = .ok (.request q))
    (h : n.handlePacket d rand = .ok (fl, n')) (hto : q.receiverAddress = n'.address) :
    n'.entry q.fileId ≠ none := by
  obtain ⟨hn, hknown⟩ := absorb_request (handlePacket_absorb hm h)
  have haddr : n'.address = n.address := (congrArg SmsEchoClient.address hn :)
  have hfiles : n'.files = n.files := (congrArg SmsEchoClient.files hn :)
  rw [entry, hfiles]
  exact hknown (hto.trans haddr)

theorem handlePacket_disciplined (hrec : n.timers.Recorded)
    (h : n.handlePacket d rand = .ok (fl, n')) : n'.timers.Disciplined := by
  obtain ⟨m, delay, sendDelay, -, -, htimers⟩ := handlePacket_cases h
  have hempty := Timers.cancelAllEvents_pending hrec
  rw [htimers]
  exact Timers.disciplined_arm hempty _ _ fun a ha => followUp_kind_ne_send ha

theorem handlePacket_pending (hrec : n.timers.Recorded)
    (h : n.handlePacket d rand = .ok (fl, n')) :
    ∃ m delay sendDelay, Message.parse d.bytes = .ok m ∧
      n'.timers.pending = (n'.followUp d.sender m).toList.map
          (fun a => ⟨n.timers.simulator.nextUid, delay, a⟩) ++
        [⟨n.timers.simulator.nextUid + (n'.followUp d.sender m).toList.length, sendDelay, .send⟩] := by
  obtain ⟨m, delay, sendDelay, hm, -, htimers⟩ := handlePacket_cases h
  refine ⟨m, delay, sendDelay, hm, ?_⟩
  rw [htimers, Timers.arm_pending (Timers.cancelAllEvents_pending hrec),
    Timers.cancelAllEvents_nextUid]

theorem handlePacket_rearms (hrec : n.timers.Recorded)
    (h : n.handlePacket d rand = .ok (fl, n')) :
    ∃ e ∈ n'.timers.pending, e.action = .send := by
  obtain ⟨m, delay, sendDelay, -, hp⟩ := handlePacket_pending hrec h
  rw [hp]
  exact ⟨_, List.mem_append_right _ (List.mem_singleton_self _), rfl⟩

theorem handlePacket_delays (hrec : n.timers.Recorded) (h : n.handlePacket d rand = .ok (fl, n')) :
    ∀ e ∈ n'.timers.pending,
      (e.action ≠ .send ∧ (e.delay = 0 ∨ e.delay = n'.getTimeRequest (rand 0))) ∨
        (e.action = .send ∧ ∃ i, e.delay = n'.getTimeAdvertisement false (rand i)) := by
  obtain ⟨m, -, -, htimers⟩ := handlePacket_armed h
  intro e he
  rw [htimers, Timers.arm_pending (Timers.cancelAllEvents_pending hrec), List.mem_append,
    List.mem_map, List.mem_singleton] at he
  rcases he with ⟨a, ha, rfl⟩ | rfl
  · refine Or.inl ⟨fun hsend => ?_, ?_⟩
    · exact followUp_kind_ne_send (Option.mem_toList.mp ha) (congrArg Action.kind hsend)
    · cases m with
      | advertisement ps => exact Or.inr rfl
      | request header => exact Or.inl rfl
      | reply header => exact Or.inl rfl
  · exact Or.inr ⟨rfl, _, rfl⟩

theorem handlePacket_events (hrec : n.timers.Recorded) (h : n.handlePacket d rand = .ok (fl, n')) :
    ∃ m, Message.parse d.bytes = .ok m ∧ ∀ e ∈ n'.timers.pending,
      e.action = .send ∨ n'.followUp d.sender m = some e.action := by
  obtain ⟨m, delay, sendDelay, hm, hp⟩ := handlePacket_pending hrec h
  refine ⟨m, hm, fun e he => ?_⟩
  rw [hp, List.mem_append, List.mem_map, List.mem_singleton] at he
  rcases he with ⟨a, hfollow, rfl⟩ | rfl
  · exact Or.inr (Option.mem_toList.mp hfollow)
  · exact Or.inl rfl

end Handled

def emission (n : SmsEchoClient) (g : Garbage) : Action → Bytes
  | .send => n.onWire g
  | .requestPacket sender fileToRequest => (requestFor sender fileToRequest).toBytes g.bytes
  | .reply header chunkSize =>
    header.toBytes g.bytes ++ malloc (fun i => g.bytes (20 + i)) chunkSize.toNat

def announced (n : SmsEchoClient) : Action → Message
  | .send => .advertisement n.advertisedPairs
  | .requestPacket sender fileToRequest => .request (requestFor sender fileToRequest)
  | .reply header _ => .reply header

@[simp] theorem announced_kind (n : SmsEchoClient) (a : Action) : (n.announced a).kind = a.kind := by
  cases a <;> rfl

theorem announced_eq_request {n : SmsEchoClient} {a : Action} {r : RequestHeader}
    (h : n.announced a = .request r) : ∃ peer f, a = .requestPacket peer f ∧ r = requestFor peer f := by
  cases a with
  | send => exact absurd h (by simp [announced])
  | requestPacket peer f => exact ⟨peer, f, rfl, (Message.request.inj h).symm⟩
  | reply header size => exact absurd h (by simp [announced])

theorem announced_eq_reply {n : SmsEchoClient} {a : Action} {r : ReplyHeader}
    (h : n.announced a = .reply r) : ∃ size, a = .reply r size := by
  cases a with
  | send => exact absurd h (by simp [announced])
  | requestPacket peer f => exact absurd h (by simp [announced])
  | reply header size => exact ⟨size, congrArg (fun x => Action.reply x size) (Message.reply.inj h)⟩

theorem parse_emission_of_ne_send (n : SmsEchoClient) (g : Garbage) {a : Action}
    (ha : a.WellTyped) (hne : a ≠ .send) :
    Message.parse (n.emission g a) = .ok (n.announced a) := by
  cases a with
  | send => exact absurd rfl hne
  | requestPacket sender f =>
    have h := Message.parse_request (requestFor sender f) g.bytes [] rfl
    rwa [List.append_nil] at h
  | reply header chunkSize => exact Message.parse_reply header g.bytes _ ha

theorem parse_emission {n : SmsEchoClient} (hlen : n.files.length < 2 ^ 30) (g : Garbage)
    {a : Action} (ha : a.WellTyped) : Message.parse (n.emission g a) = .ok (n.announced a) := by
  by_cases hne : a = .send
  · rw [hne]
    exact parse_onWire hlen g
  · exact parse_emission_of_ne_send n g ha hne

/-- An advertisement too long for a `uint32_t` is cut off, but can be read as nothing else. -/
theorem kind_of_parse_emission {n : SmsEchoClient} {g : Garbage} {a : Action} (ha : a.WellTyped)
    {m : Message} (h : Message.parse (n.emission g a) = .ok m) : m.kind = a.kind := by
  by_cases hne : a = .send
  · subst hne
    obtain ⟨ps, rfl⟩ := advertisement_of_onWire h
    rfl
  · rw [parse_emission_of_ne_send n g ha hne] at h
    obtain rfl := Except.ok.inj h
    exact announced_kind n a

theorem fire_inversion {n n' : SmsEchoClient} {e : Event Delay Action} {g : Garbage}
    {bytes : Bytes} (h : n.fire e g = .ok (n', bytes)) :
    n.mSocketSend = true ∧ bytes = n.emission g e.action ∧ ∃ seen data,
      (seen = n.maximumFullFilesSeen ∨ seen = max n.maximumFullFilesSeen n.getNumOfFullFiles) ∧
      n' = { n with
        timers := n.timers.cancel (some e.uid)
        maximumFullFilesSeen := seen
        mData := data } := by
  rw [fire] at h
  cases ha : e.action with
  | send =>
    rw [ha, runAction] at h
    obtain ⟨-, hopen, rfl, rfl⟩ := send_cases h
    exact ⟨hopen, rfl, _, _, Or.inr rfl, rfl⟩
  | requestPacket sender f =>
    rw [ha, runAction, requestPacket] at h
    split_ifs at h with hopen
    obtain ⟨rfl, rfl⟩ := Prod.mk.inj (Except.ok.inj h)
    exact ⟨hopen, rfl, _, _, Or.inl rfl, rfl⟩
  | reply header chunkSize =>
    rw [ha, runAction, reply] at h
    split_ifs at h with hopen
    obtain ⟨rfl, rfl⟩ := Prod.mk.inj (Except.ok.inj h)
    exact ⟨hopen, rfl, _, _, Or.inl rfl, rfl⟩

theorem fire_cases {n n' : SmsEchoClient} {e : Event Delay Action} {g : Garbage} {bytes : Bytes}
    (h : n.fire e g = .ok (n', bytes)) :
    n.mSocketSend = true ∧ bytes = n.emission g e.action ∧ ∃ seen data, n' = { n with
      timers := n.timers.cancel (some e.uid)
      maximumFullFilesSeen := seen
      mData := data } := by
  obtain ⟨hopen, hbytes, seen, data, -, heq⟩ := fire_inversion h
  exact ⟨hopen, hbytes, seen, data, heq⟩

theorem parse_of_fire {n n' : SmsEchoClient} {e : Event Delay Action} {g : Garbage} {bytes : Bytes}
    (hlen : n.files.length < 2 ^ 30) (ha : e.action.WellTyped)
    (h : n.fire e g = .ok (n', bytes)) : Message.parse bytes = .ok (n.announced e.action) := by
  obtain ⟨-, rfl, -⟩ := fire_cases h
  exact parse_emission hlen g ha

theorem parse_of_fire_of_ne_send {n n' : SmsEchoClient} {e : Event Delay Action} {g : Garbage}
    {bytes : Bytes} (hne : e.action ≠ .send) (ha : e.action.WellTyped)
    (h : n.fire e g = .ok (n', bytes)) : Message.parse bytes = .ok (n.announced e.action) := by
  obtain ⟨-, rfl, -⟩ := fire_cases h
  exact parse_emission_of_ne_send n g ha hne

theorem kind_of_fire {n n' : SmsEchoClient} {e : Event Delay Action} {g : Garbage} {bytes : Bytes}
    (ha : e.action.WellTyped) (h : n.fire e g = .ok (n', bytes)) {m : Message}
    (hm : Message.parse bytes = .ok m) : m.kind = e.action.kind := by
  obtain ⟨-, rfl, -⟩ := fire_cases h
  exact kind_of_parse_emission ha hm

theorem announced_of_fire {n n' : SmsEchoClient} {e : Event Delay Action} {g : Garbage}
    {bytes : Bytes} (ha : e.action.WellTyped) (h : n.fire e g = .ok (n', bytes)) {m : Message}
    (hm : Message.parse bytes = .ok m) (hk : m.kind ≠ .send) : m = n.announced e.action := by
  have hne : e.action ≠ .send := by
    intro hsend
    rw [kind_of_fire ha h hm, hsend] at hk
    exact hk rfl
  exact Except.ok.inj (hm.symm.trans (parse_of_fire_of_ne_send hne ha h))

theorem fire_of_ne_send {n : SmsEchoClient} {e : Event Delay Action} (hopen : n.mSocketSend = true)
    (hne : e.action ≠ .send) (g : Garbage) :
    ∃ n', n.fire e g = .ok (n', n.emission g e.action) := by
  refine ⟨{ n with timers := n.timers.cancel (some e.uid) }, ?_⟩
  rw [fire]
  cases ha : e.action with
  | send => exact absurd ha hne
  | requestPacket sender f =>
    rw [runAction, requestPacket, if_pos hopen]
    rfl
  | reply header chunkSize =>
    rw [runAction, reply, if_pos hopen]
    rfl

theorem fire_eq {n : SmsEchoClient} {e : Event Delay Action} (hn : n.CountersFit)
    (hrec : n.timers.Recorded) (he : e ∈ n.timers.pending) (hopen : n.mSocketSend = true)
    (g : Garbage) : ∃ n', n.fire e g = .ok (n', n.emission g e.action) := by
  by_cases ha : e.action = .send
  · have hx := TimerQueue.Recorded.isExpired_of_fire hrec he
    rw [ha] at hx
    refine ⟨({ n with timers := n.timers.cancel (some e.uid) } : SmsEchoClient).sent g, ?_⟩
    have hsend := send_eq (n := { n with timers := n.timers.cancel (some e.uid) }) hx hn g
    rw [fire, ha, runAction, hsend, if_pos hopen]
    rfl
  · exact fire_of_ne_send hopen ha g

structure Orderly (n : SmsEchoClient) : Prop where
  disciplined : n.timers.Disciplined
  socket : n.mSocketSend = true
  wellTyped : ∀ e ∈ n.timers.pending, e.action.WellTyped

theorem startApplication_pending {n : SmsEchoClient} (h : n.timers.pending = []) (rand : ℚ) :
    (n.startApplication rand).timers.pending =
      [⟨n.timers.simulator.nextUid, n.getTimeAdvertisement true rand, .send⟩] :=
  Timers.arm_pending h 0 (n.getTimeAdvertisement true rand) none

theorem send_of_mem_startApplication {n : SmsEchoClient} (h : n.timers.pending = []) (rand : ℚ) :
    ∀ e ∈ (n.startApplication rand).timers.pending, e.action = .send := by
  intro e he
  rw [startApplication_pending h, List.mem_singleton] at he
  rw [he]

theorem orderly_start {n : SmsEchoClient} (h : n.timers.pending = []) (rand : ℚ) :
    (n.startApplication rand).Orderly where
  disciplined :=
    Timers.disciplined_arm h 0 (n.getTimeAdvertisement true rand) (a := none) (by simp)
  socket := rfl
  wellTyped e he := by
    rw [send_of_mem_startApplication h rand e he]
    trivial

theorem Orderly.handle {n n' : SmsEchoClient} (h : n.Orderly) {d : Datagram} {rand : ℕ → ℚ}
    {fl : Flow} (hstep : n.handlePacket d rand = .ok (fl, n')) : n'.Orderly := by
  obtain ⟨m, hm, hevents⟩ := handlePacket_events h.disciplined.recorded hstep
  have hsocket : n'.mSocketSend = n.mSocketSend :=
    (absorb_frame (handlePacket_absorb hm hstep)).2.2
  refine ⟨handlePacket_disciplined h.disciplined.recorded hstep, hsocket.trans h.socket, ?_⟩
  intro e he
  rcases hevents e he with hsend | hfollow
  · rw [hsend]
    trivial
  · exact followUp_wellTyped hfollow

theorem Orderly.fire {n n' : SmsEchoClient} (h : n.Orderly) {e : Event Delay Action} {g : Garbage}
    {bytes : Bytes} (hstep : n.fire e g = .ok (n', bytes)) : n'.Orderly := by
  obtain ⟨-, -, seen, data, rfl⟩ := fire_cases hstep
  refine ⟨h.disciplined.cancel _, h.socket, fun e' he' => ?_⟩
  exact h.wellTyped e' (Timers.mem_cancel_pending.mp he').1

def listener : SmsEchoClient := (boot 0 1 [⟨7, 2⟩]).startApplication 0

theorem listener_storeInv : StoreInv listener.files :=
  storeInv_map_construct (l := [⟨7, 2⟩]) (by decide)

def provider : SmsEchoClient := (boot 0 2 [⟨9, 2⟩]).startApplication 0

def firstHeard : Datagram := ⟨2, [0, 1, 9, 0, 2, 0]⟩

theorem parse_firstHeard : Message.parse firstHeard.bytes = .ok (.advertisement [(9, 2)]) := by
  decide

def zeroed : Garbage := ⟨fun _ => 0, fun _ => 0⟩

def informed : SmsEchoClient :=
  ((listener.cancelAllEvents.absorbAdvertisement 2 [(9, 2)]).respond 2 (fun _ => 0)
    (.advertisement [(9, 2)])).2

theorem listener_hears :
    ∃ fl, listener.handlePacket firstHeard (fun _ => 0) = .ok (fl, informed) := by
  exact ⟨_, handlePacket_of_absorb (fun _ => 0) parse_firstHeard rfl⟩

theorem informed_orderly : informed.Orderly := by
  obtain ⟨fl, hstep⟩ := listener_hears
  exact (orderly_start (n := boot 0 1 [⟨7, 2⟩]) rfl 0).handle hstep

theorem informed_choice : (informed.getFileToRequest 2).isFull = false ∧
    (informed.getFileToRequest 2).mId = 9 := by
  decide +kernel

theorem informed_pending : ∃ e ∈ informed.timers.pending,
    e.action = .requestPacket 2 (informed.getFileToRequest 2) := by
  obtain ⟨fl, hstep⟩ := listener_hears
  obtain ⟨m, delay, sendDelay, hm, hp⟩ := handlePacket_pending
    (orderly_start (n := boot 0 1 [⟨7, 2⟩]) rfl 0).disciplined.recorded hstep
  obtain rfl := Except.ok.inj (parse_firstHeard.symm.trans hm)
  have hnext : informed.followUp firstHeard.sender (.advertisement [(9, 2)]) =
      some (.requestPacket 2 (informed.getFileToRequest 2)) :=
    nextRequest_eq_some.mpr ⟨informed_choice.1, rfl⟩
  rw [hnext] at hp
  exact ⟨_, by rw [hp]; exact List.mem_cons_self .., rfl⟩

theorem informed_request : ∃ e ∈ informed.timers.pending, ∃ listener' bytes,
    informed.fire e zeroed = .ok (listener', bytes) ∧ e.action.kind = .request ∧
      Message.parse bytes = .ok (.request (requestFor 2 (informed.getFileToRequest 2))) := by
  obtain ⟨e, he, ha⟩ := informed_pending
  obtain ⟨listener', hfire⟩ := fire_of_ne_send informed_orderly.socket (e := e)
    (by rw [ha]; simp) zeroed
  have hsaid := parse_of_fire_of_ne_send (by rw [ha]; simp) (informed_orderly.wellTyped e he) hfire
  have hrequest : informed.announced e.action =
      .request (requestFor 2 (informed.getFileToRequest 2)) := by
    rw [ha]
    rfl
  exact ⟨e, he, listener', _, hfire, by rw [ha]; rfl, hrequest ▸ hsaid⟩

end SmsEchoClient

def newEvents (n n' : SmsEchoClient) : List (Event Delay Action) :=
  n'.timers.pending.filter fun e => n.timers.simulator.nextUid ≤ e.uid

/-- What can be seen of a step: a packet handled and the events its handler scheduled, or an
event that fired and the packet it broadcast. -/
inductive Observation where
  | handled (d : Datagram) (scheduled : List (Event Delay Action))
  | emitted (e : Event Delay Action) (bytes : Bytes)

/-- Whatever a packet is, its handler ends with `get_time_advertisement`, and so with
`GetNumOfFullFiles`: it returns only while a `uint32_t` can count the files
(`countLoop_endless`). -/
inductive NodeStep : SmsEchoClient → Observation → SmsEchoClient → Prop
  | handle {n n' : SmsEchoClient} {d : Datagram} {rand : ℕ → ℚ} {fl : Flow} :
      n.handlePacket d rand = .ok (fl, n') → n'.files.length < 2 ^ 32 →
      NodeStep n (.handled d (newEvents n n')) n'
  | fire {n n' : SmsEchoClient} {e : Event Delay Action} {g : Garbage} {bytes : Bytes} :
      e ∈ n.timers.pending → n.fire e g = .ok (n', bytes) → NodeStep n (.emitted e bytes) n'

abbrev NodeTrace (n₀ : SmsEchoClient) : List Observation → SmsEchoClient → Prop :=
  Trace NodeStep n₀

namespace Observation

def packet : Observation → Option Datagram
  | handled d _ => some d
  | emitted .. => none

def isHandled : Observation → Bool
  | handled .. => true
  | emitted .. => false

def broadcasts (k : EventKind) : Observation → Bool
  | handled .. => false
  | emitted _ bytes =>
    match Message.parse bytes with
    | .ok m => m.kind = k
    | .error _ => false

end Observation

end SmsEcho
