import SmsEcho.Client.FreshRequest

/-! A download session. A node that has heard an advertisement asks its sender for a chunk,
stores it when the reply comes, asks for the next, and so on. The rounds are as many as the
chunks it misses of all files it lists the sender for, and file follows file. -/

namespace SmsEcho
open ByteBuffer PartialRun KeyedList LabelledTrace SmsEchoClient

structure Session where
  asker : SmsEchoClient
  provider : SmsEchoClient

structure Asked where
  node : SmsEchoClient
  request : RequestHeader

/-- One round: the request event fires, the other node handles the request, its reply event
fires, and the asking node handles the reply. Nothing else happens in between. -/
inductive SessionRound : Session → Asked → Session → Prop
  | mk {b b₁ b₂ r r₁ r₂ : SmsEchoClient} {e e' : Event Delay Action} {g g' : Garbage}
      {bytes bytes' : Bytes} {rand rand' : ℕ → ℚ} {fl fl' : Flow} {h : RequestHeader} :
      b.timers.current .request = some e →
      b.fire e g = .ok (b₁, bytes) →
      Message.parse bytes = .ok (.request h) →
      r.handlePacket ⟨b.address, bytes⟩ rand = .ok (fl, r₁) →
      r₁.timers.current .reply = some e' →
      r₁.fire e' g' = .ok (r₂, bytes') →
      b₁.handlePacket ⟨r.address, bytes'⟩ rand' = .ok (fl', b₂) →
      SessionRound ⟨b, r⟩ ⟨b, h⟩ ⟨b₂, r₂⟩

/-- The chunks that the node misses of the files it lists the peer for. -/
def totalMissing (n : SmsEchoClient) (peer : Ipv4Address) : ℕ :=
  ((n.files.filter fun f => f.seenInNode peer).map missing).sum

section Stored
variable {f : FileSMSChunks} {c : UInt32}

theorem missing_storeChunk (hf : f.CounterExact) (hc : c < f.fileSizeInChunks)
    (hnew : ¬ f.Has c.toNat) : missing (f.storeChunk c) + 1 = missing f := by
  have hcount := FileSMSChunks.count_storeChunk hc hnew
  have hle := (f.storeChunk c).count_le
  have hafter := FileSMSChunks.toNat_getNumOfMissingChunks
    (FileSMSChunks.storeChunk_counterExact hf hc hnew)
  have hbefore := FileSMSChunks.toNat_getNumOfMissingChunks hf
  rw [FileSMSChunks.storeChunk_fileSizeInChunks] at hle hafter
  rw [missing, missing, hafter, hbefore]
  omega

theorem missing_eq_zero_iff (hf : f.CounterExact) : missing f = 0 ↔ f.isFull = true := by
  have hle := f.count_le
  rw [missing, FileSMSChunks.toNat_getNumOfMissingChunks hf, FileSMSChunks.isFull_iff_count hf,
    f.chunks_length]
  omega

variable {n n' : SmsEchoClient} {peer : Ipv4Address} {front back : List FileSMSChunks}

theorem totalMissing_stored (hf : f.CounterExact) (hc : c < f.fileSizeInChunks)
    (hnew : ¬ f.Has c.toNat) (hpeer : peer ∈ f.nodesWhoHaveFile)
    (hn : n.files = front ++ f :: back) (hn' : n'.files = front ++ f.storeChunk c :: back) :
    totalMissing n' peer + 1 = totalMissing n peer := by
  have hone := missing_storeChunk hf hc hnew
  have hseen : f.seenInNode peer = true := FileSMSChunks.seenInNode_iff.mpr hpeer
  -- storing a chunk changes no holders, so both sums range over the same files
  have hkeep : (f :: back).filter (fun f => f.seenInNode peer) =
      f :: back.filter fun f => f.seenInNode peer := List.filter_cons_of_pos hseen
  have hkeep' : (f.storeChunk c :: back).filter (fun f => f.seenInNode peer) =
      f.storeChunk c :: back.filter fun f => f.seenInNode peer := List.filter_cons_of_pos hseen
  rw [totalMissing, totalMissing, hn, hn', List.filter_append, List.filter_append, hkeep, hkeep',
    List.map_append, List.map_append, List.map_cons, List.map_cons, List.sum_append,
    List.sum_append, List.sum_cons, List.sum_cons, ← hone]
  ac_rfl

theorem mem_stored (hn : n.files = front ++ f :: back)
    (hn' : n'.files = front ++ f.storeChunk c :: back) {g : FileSMSChunks} (hg : g ∈ n'.files) :
    ∃ g₀ ∈ n.files, g₀.mId = g.mId ∧ g₀.nodesWhoHaveFile = g.nodesWhoHaveFile := by
  rw [hn', List.mem_append, List.mem_cons] at hg
  rw [hn]
  rcases hg with hg | rfl | hg
  · exact ⟨g, List.mem_append_left _ hg, rfl, rfl⟩
  · exact ⟨f, by simp, rfl, rfl⟩
  · exact ⟨g, List.mem_append_right _ (List.mem_cons_of_mem _ hg), rfl, rfl⟩

theorem choice_stored (hs : n'.seenNodes ≠ []) (hf : f.CounterExact) (hc : c < f.fileSizeInChunks)
    (hnew : ¬ f.Has c.toNat) (hpeer : peer ∈ f.nodesWhoHaveFile)
    (hbest : ∀ g ∈ n.files, Wanted peer g → missing f ≤ missing g)
    (hn : n.files = front ++ f :: back) (hn' : n'.files = front ++ f.storeChunk c :: back) :
    FullIn n'.files f.mId ∨
      (n'.getFileToRequest peer).isFull = false ∧ (n'.getFileToRequest peer).mId = f.mId := by
  have hmem : f.storeChunk c ∈ n'.files := by
    rw [hn']
    simp
  cases hfull : (f.storeChunk c).isFull with
  | true => exact Or.inl ⟨_, hmem, rfl, hfull⟩
  | false =>
    have hwanted : Wanted peer (f.storeChunk c) := ⟨hfull, hpeer⟩
    have hchoice : (n'.getFileToRequest peer).isFull = false := by
      by_contra hne
      rw [Bool.not_eq_false, getFileToRequest_full_iff hs] at hne
      exact hne _ hmem hwanted
    obtain ⟨hin, hholder, hleast⟩ := getFileToRequest_of_not_full hchoice
    refine Or.inr ⟨hchoice, ?_⟩
    -- any other file misses at least as much as this one did before
    have hother : n'.getFileToRequest peer ∈ n.files →
        (n'.getFileToRequest peer).mId = f.mId := by
      intro hold
      have h1 := hbest _ hold ⟨hchoice, hholder⟩
      have h2 := hleast _ hmem hwanted
      have h3 := missing_storeChunk hf hc hnew
      omega
    rw [hn', List.mem_append, List.mem_cons] at hin
    rcases hin with hin | heq | hin
    · exact hother (by rw [hn]; exact List.mem_append_left _ hin)
    · rw [heq]
      rfl
    · exact hother (by rw [hn]; exact List.mem_append_right _ (List.mem_cons_of_mem _ hin))

end Stored

section Handlers
variable {n n' : SmsEchoClient} {d : Datagram} {rand : ℕ → ℚ} {fl : Flow}

theorem handlePacket_current {m : Message} (hm : Message.parse d.bytes = .ok m)
    (h : n.handlePacket d rand = .ok (fl, n')) {k : EventKind} (hk : k ≠ .send) :
    (n'.timers.current k).map Event.action =
      (n'.followUp d.sender m).filter fun a => a.kind = k := by
  obtain ⟨m', delay, sendDelay, hm', -, htimers⟩ := handlePacket_cases h
  obtain rfl : m = m' := Except.ok.inj (hm.symm.trans hm')
  rw [htimers]
  exact Timers.current_arm n.timers delay sendDelay _ hk

theorem handlePacket_next {m : Message} (hm : Message.parse d.bytes = .ok m)
    (hinvites : n'.followUp d.sender m = n'.nextRequest d.sender)
    (h : n.handlePacket d rand = .ok (fl, n')) :
    (n'.timers.current .request).map Event.action = n'.nextRequest d.sender := by
  rw [handlePacket_current hm h (by decide), hinvites, nextRequest]
  cases (n'.getFileToRequest d.sender).isFull <;> rfl

theorem handlePacket_answer {q : RequestHeader} (hm : Message.parse d.bytes = .ok (.request q))
    (hto : q.receiverAddress = n.address) (h : n.handlePacket d rand = .ok (fl, n')) :
    n'.files = n.files ∧ n'.address = n.address ∧ n'.mSocketSend = n.mSocketSend ∧
      ∃ hd size, (n'.timers.current .reply).map Event.action = some (.reply hd size) ∧
        hd.packetType = 2 ∧ hd.originalRequester = d.sender ∧ hd.fileId = q.fileId ∧
        hd.chunkId = q.chunkId := by
  obtain ⟨hn, -⟩ := absorb_request (handlePacket_absorb hm h)
  have hfiles : n'.files = n.files := (congrArg SmsEchoClient.files hn :)
  have haddr : n'.address = n.address := (congrArg SmsEchoClient.address hn :)
  have hsocket : n'.mSocketSend = n.mSocketSend := (congrArg SmsEchoClient.mSocketSend hn :)
  have hknown := handlePacket_known hm h (hto.trans haddr.symm)
  have hcurrent := handlePacket_current hm h (k := .reply) (by decide)
  rw [followUp, if_pos (hto.trans haddr.symm)] at hcurrent
  exact ⟨hfiles, haddr, hsocket, _, _, hcurrent, rfl, rfl, getFileById_fst_mId hknown, rfl⟩

theorem handlePacket_stored {hd : ReplyHeader} (hm : Message.parse d.bytes = .ok (.reply hd))
    (hlen : n.files.length < 2 ^ 32) (hinv : StoreInv n.files) {f : FileSMSChunks}
    (hf : f ∈ n.files) (hpeer : d.sender ∈ f.nodesWhoHaveFile) (hid : hd.fileId = f.mId)
    (hnew : ¬ f.Has hd.chunkId.toNat) (h : n.handlePacket d rand = .ok (fl, n')) :
    n'.seenNodes = n.seenNodes ∧ ∃ front back, n.files = front ++ f :: back ∧
      n'.files = front ++ f.storeChunk hd.chunkId :: back := by
  have hlookup : lookup fileKey n.files f.mId = some f := lookup_of_mem hinv.distinct hf
  have htarget : n.target hd.fileId hd.fileSize = f := by
    rw [hid]
    exact target_of_mem hinv.distinct hf hd.fileSize
  obtain ⟨-, ⟨hhas, -⟩ | ⟨-, hn⟩⟩ := absorb_reply_cases hlen (handlePacket_absorb hm h)
  · rw [htarget] at hhas
    exact absurd hhas hnew
  · have hfiles : n'.files = n.storedFiles hd.fileId hd.fileSize hd.chunkId d.sender :=
      (congrArg SmsEchoClient.files hn :)
    have hseen : n'.seenNodes = n.seenNodes := (congrArg SmsEchoClient.seenNodes hn :)
    rw [storedFiles, hid] at hfiles
    obtain ⟨front, back, hsplit, hup⟩ := exists_split_upsert
      (fun f => (f.addNodeToSeenList d.sender).storeChunk hd.chunkId)
      (((FileSMSChunks.construct f.mId hd.fileSize.toUInt64 false).addNodeToSeenList
        d.sender).storeChunk hd.chunkId) hlookup
    rw [hup, FileSMSChunks.addNodeToSeenList_of_mem hpeer] at hfiles
    exact ⟨hseen, front, back, hsplit, hfiles⟩

end Handlers

def Pursues (n : SmsEchoClient) (peer : Ipv4Address) (id : UInt32) : Prop :=
  (n.getFileToRequest peer).isFull = false ∧ (n.getFileToRequest peer).mId = id

/-- Between two rounds the request slot holds the best request, if there is one. -/
structure InSession (peer : Ipv4Address) (S : Session) : Prop where
  store : StoreInv S.asker.files
  askerSmall : S.asker.files.length ≤ 2 ^ 31
  providerSmall : S.provider.files.length < 2 ^ 32
  askerOpen : S.asker.mSocketSend = true
  providerOpen : S.provider.mSocketSend = true
  address : S.provider.address = peer
  seen : S.asker.seenNodes ≠ []
  knows : ∀ f ∈ S.asker.files, peer ∈ f.nodesWhoHaveFile → S.provider.entry f.mId ≠ none
  next : (S.asker.timers.current .request).map Event.action = S.asker.nextRequest peer

structure Progress (peer : Ipv4Address) (S : Session) (o : Asked) (S' : Session) : Prop where
  node : o.node = S.asker
  pursued : Pursues S.asker peer o.request.fileId
  lowest : ∃ f, o.node.entry o.request.fileId = some f ∧ LowestMissing f o.request.chunkId
  fewer : totalMissing S'.asker peer + 1 = totalMissing S.asker peer
  keeps : ∀ id, FullIn S.asker.files id → FullIn S'.asker.files id
  onward : FullIn S'.asker.files o.request.fileId ∨ Pursues S'.asker peer o.request.fileId

section Rounds
variable {peer : Ipv4Address} {S S' : Session} {o : Asked}

theorem inSession_of_advertisement {n n' r : SmsEchoClient} {d : Datagram} {rand : ℕ → ℚ}
    {fl : Flow} {ps : List (UInt16 × UInt16)} (hstore : StoreInv n.files)
    (hopen : n.mSocketSend = true) (hopen' : r.mSocketSend = true) (hsender : d.sender = r.address)
    (hm : Message.parse d.bytes = .ok (.advertisement ps))
    (h : n.handlePacket d rand = .ok (fl, n')) (hlen : n'.files.length ≤ 2 ^ 31)
    (hlen' : r.files.length < 2 ^ 32)
    (hknows : ∀ f ∈ n'.files, r.address ∈ f.nodesWhoHaveFile → r.entry f.mId ≠ none) :
    InSession r.address ⟨n', r⟩ := by
  have hnext := handlePacket_next hm rfl h
  have habsorb := handlePacket_absorb hm h
  have hbefore : n.files.length < 2 ^ 32 :=
    ((absorb_length_le habsorb).trans hlen).trans_lt (by norm_num)
  have hinv : StoreInv (n'.withTimers n.timers).files := absorb_storeInv hbefore hstore habsorb
  have hsocket : n'.mSocketSend = n.mSocketSend := (absorb_frame habsorb).2.2
  have hseen : n'.seenNodes = (n.addNodeToSeenList d.sender).seenNodes :=
    (congrArg SmsEchoClient.seenNodes (Except.ok.inj habsorb) :).symm
  refine ⟨hinv, hlen, hlen', hsocket.trans hopen, hopen', rfl, ?_, hknows, hsender ▸ hnext⟩
  have hmem : d.sender ∈ n'.seenNodes := by
    rw [hseen]
    exact mem_addNodeToSeenList n d.sender
  exact List.ne_nil_of_mem hmem

theorem InSession.asks (h : InSession peer S) {n : SmsEchoClient} {e : Event Delay Action}
    {g : Garbage} {bytes : Bytes} (he : S.asker.timers.current .request = some e)
    (hfire : S.asker.fire e g = .ok (n, bytes)) :
    (S.asker.getFileToRequest peer).isFull = false ∧
      Message.parse bytes = .ok (.request (requestFor peer (S.asker.getFileToRequest peer))) ∧
      n.files = S.asker.files ∧ n.seenNodes = S.asker.seenNodes ∧ n.address = S.asker.address ∧
      n.mSocketSend = true := by
  have hnext := h.next
  rw [he] at hnext
  obtain ⟨hfull, haction⟩ := nextRequest_eq_some.mp hnext.symm
  have hsaid := parse_of_fire_of_ne_send (by rw [haction]; simp) (by rw [haction]; trivial) hfire
  rw [haction] at hsaid
  obtain ⟨hopen, -, seen, data, rfl⟩ := fire_cases hfire
  exact ⟨hfull, hsaid, rfl, rfl, rfl, hopen⟩

theorem provider_answers {r r₁ r₂ : SmsEchoClient} {d : Datagram} {rand : ℕ → ℚ} {fl : Flow}
    {e : Event Delay Action} {g : Garbage} {bytes : Bytes} {q : RequestHeader}
    (hm : Message.parse d.bytes = .ok (.request q)) (hto : q.receiverAddress = r.address)
    (hask : r.handlePacket d rand = .ok (fl, r₁)) (he : r₁.timers.current .reply = some e)
    (hfire : r₁.fire e g = .ok (r₂, bytes)) :
    r₂.files = r.files ∧ r₂.address = r.address ∧ r₂.mSocketSend = true ∧
      ∃ hd, Message.parse bytes = .ok (.reply hd) ∧ hd.originalRequester = d.sender ∧
        hd.fileId = q.fileId ∧ hd.chunkId = q.chunkId := by
  obtain ⟨hfiles, haddr, -, hd, size, hanswer, htype, hfacts⟩ := handlePacket_answer hm hto hask
  rw [he] at hanswer
  have haction : e.action = .reply hd size := Option.some.inj hanswer
  have hsaid := parse_of_fire_of_ne_send (by rw [haction]; simp) (by rw [haction]; exact htype) hfire
  rw [haction] at hsaid
  obtain ⟨hopen, -, seen, data, rfl⟩ := fire_cases hfire
  exact ⟨hfiles, haddr, hopen, hd, hsaid, hfacts⟩

theorem handlePacket_reply {n n' : SmsEchoClient} {d : Datagram} {rand : ℕ → ℚ} {fl : Flow}
    {hd : ReplyHeader} (hlen : n.files.length < 2 ^ 32) (hinv : StoreInv n.files)
    (hm : Message.parse d.bytes = .ok (.reply hd))
    (hmine : hd.originalRequester = n.address) (h : n.handlePacket d rand = .ok (fl, n')) :
    StoreInv n'.files ∧ StoreExtends n.files n'.files ∧ n'.mSocketSend = n.mSocketSend ∧
      (n'.timers.current .request).map Event.action = n'.nextRequest d.sender := by
  have habsorb := handlePacket_absorb hm h
  obtain ⟨haddr, -, hsocket⟩ := absorb_frame habsorb
  have hinvited : n'.followUp d.sender (.reply hd) = n'.nextRequest d.sender :=
    if_pos (hmine.trans haddr.symm)
  have hinv' : StoreInv (n'.withTimers n.timers).files := absorb_storeInv hlen hinv habsorb
  have hextends : StoreExtends n.files (n'.withTimers n.timers).files :=
    absorb_storeExtends hlen habsorb
  exact ⟨hinv', hextends, hsocket, handlePacket_next hm hinvited h⟩

theorem InSession.round (h : InSession peer S) (hr : SessionRound S o S') :
    InSession peer S' ∧ Progress peer S o S' := by
  cases hr with
  | @mk b b₁ b₂ r r₁ r₂ e e' g g' bytes bytes' rand rand' fl fl' q he hfire hasked hask he' hfire'
      hheard =>
    -- the request is for the lowest missing chunk of the choice
    obtain ⟨hfull, hsaid, hfiles₁, hseen₁, haddr₁, hopen₁⟩ := h.asks he hfire
    obtain rfl := Message.request.inj (Except.ok.inj (hsaid.symm.trans hasked))
    obtain ⟨hfiles', haddr', hopen', hd, hreply, hmine, hid, hchunk⟩ :=
      provider_answers hasked h.address.symm hask he' hfire'
    have hstore : StoreInv b.files := h.store
    obtain ⟨hmem, hpeer, hbest⟩ := getFileToRequest_of_not_full hfull
    have hexact := hstore.counters _ hmem
    have hlow := lowestMissing_getFirstMissingChunk hexact hfull
    obtain rfl : r.address = peer := h.address
    -- the answer brings that chunk, and it is stored in the entry it was asked for
    have hnew : ¬ (b.getFileToRequest r.address).Has hd.chunkId.toNat := hchunk ▸ hlow.lacks
    have hrange : hd.chunkId < (b.getFileToRequest r.address).fileSizeInChunks :=
      hchunk ▸ hlow.inRange
    have hsmall : b.files.length ≤ 2 ^ 31 := h.askerSmall
    have hlen : b₁.files.length < 2 ^ 32 := by
      rw [hfiles₁]
      exact hsmall.trans_lt (by norm_num)
    obtain ⟨hstore₂, hextends, hopen₂, hnext⟩ :=
      handlePacket_reply hlen (hfiles₁ ▸ hstore) hreply (hmine.trans haddr₁.symm) hheard
    obtain ⟨hseen₂, front, back, hbefore, hafter⟩ :=
      handlePacket_stored hreply hlen (hfiles₁ ▸ hstore) (hfiles₁ ▸ hmem) hpeer hid hnew hheard
    rw [hfiles₁] at hextends hbefore
    have hsmall₂ : b₂.files.length ≤ 2 ^ 31 := by
      rw [hbefore, List.length_append, List.length_cons] at hsmall
      rwa [hafter, List.length_append, List.length_cons]
    have hsmall' : r₂.files.length < 2 ^ 32 := by
      rw [hfiles']
      exact h.providerSmall
    have hseen : b₂.seenNodes ≠ [] := by
      rw [hseen₂, hseen₁]
      exact h.seen
    constructor
    · refine ⟨hstore₂, hsmall₂, hsmall', hopen₂.trans hopen₁, hopen', haddr', hseen, ?_, hnext⟩
      -- every entry stands for one that was there before the round
      intro f hf hholder
      obtain ⟨f₀, hf₀, hid₀, hholders₀⟩ := mem_stored hbefore hafter hf
      rw [entry, hfiles', ← hid₀]
      exact h.knows f₀ hf₀ (hholders₀ ▸ hholder)
    · refine ⟨rfl, ⟨hfull, rfl⟩, ⟨_, lookup_of_mem hstore.distinct hmem, hlow⟩, ?_, ?_, ?_⟩
      · exact totalMissing_stored hexact hrange hnew hpeer hbefore hafter
      · exact fun id => hextends.fullIn hstore.counters hstore₂.counters
      · exact choice_stored hseen hexact hrange hnew hpeer hbest hbefore hafter

theorem totalMissing_eq_zero_iff {n : SmsEchoClient} (hinv : StoreInv n.files) :
    totalMissing n peer = 0 ↔ ∀ f ∈ n.files, peer ∈ f.nodesWhoHaveFile → f.isFull = true := by
  rw [totalMissing, List.sum_eq_zero_iff, List.forall_mem_map]
  constructor
  · intro h f hf hpeer
    rw [← missing_eq_zero_iff (hinv.counters f hf)]
    exact h f (List.mem_filter.mpr ⟨hf, FileSMSChunks.seenInNode_iff.mpr hpeer⟩)
  · intro h f hf
    obtain ⟨hmem, hseen⟩ := List.mem_filter.mp hf
    rw [missing_eq_zero_iff (hinv.counters f hmem)]
    exact h f hmem (FileSMSChunks.seenInNode_iff.mp hseen)

theorem InSession.not_full_iff (h : InSession peer S) :
    (S.asker.getFileToRequest peer).isFull = false ↔ 0 < totalMissing S.asker peer := by
  rw [← Bool.not_eq_true, getFileToRequest_full_iff h.seen, Nat.pos_iff_ne_zero, ne_eq,
    totalMissing_eq_zero_iff h.store, not_iff_not]
  refine forall₂_congr fun f _ => ?_
  rw [Wanted, not_and']
  simp

theorem exists_answer {r : SmsEchoClient} {d : Datagram} {q : RequestHeader}
    (hm : Message.parse d.bytes = .ok (.request q)) (hto : q.receiverAddress = r.address)
    (hopen : r.mSocketSend = true) (hlen : r.files.length < 2 ^ 32)
    (hknown : r.entry q.fileId ≠ none) : ∃ fl r₁ e r₂ bytes, r.handlePacket d (fun _ => 0) = .ok (fl, r₁) ∧
      r₁.timers.current .reply = some e ∧ r₁.fire e zeroed = .ok (r₂, bytes) := by
  have habsorb : r.cancelAllEvents.absorb d.sender (.request q) = .ok r.cancelAllEvents := by
    obtain ⟨f, hf⟩ := Option.ne_none_iff_exists'.mp hknown
    rw [absorb, if_neg]
    exact fun hunknown => fileIndex_ne hf hlen hunknown.2
  have hheard := handlePacket_of_absorb (fun _ => 0) hm habsorb
  obtain ⟨-, -, hsocket, hd, size, hcurrent, -⟩ := handlePacket_answer hm hto hheard
  obtain ⟨e, he, haction⟩ := Option.map_eq_some_iff.mp hcurrent
  obtain ⟨r₂, hfire⟩ := fire_of_ne_send (hsocket.trans hopen) (e := e) (by rw [haction]; simp) zeroed
  exact ⟨_, _, e, r₂, _, hheard, he, hfire⟩

theorem exists_handlePacket_reply {n : SmsEchoClient} {d : Datagram} {hd : ReplyHeader}
    (hm : Message.parse d.bytes = .ok (.reply hd)) (hindex : n.Indexed hd.fileId)
    (hrange : hd.chunkId < (n.target hd.fileId hd.fileSize).fileSizeInChunks) :
    ∃ fl n', n.handlePacket d (fun _ => 0) = .ok (fl, n') := by
  have hin : n.cancelAllEvents.InRange (.reply hd.fileId hd.fileSize hd.chunkId d.sender) :=
    ⟨hindex, hrange⟩
  obtain ⟨n₁, hn₁⟩ := hin.process_ok
  exact ⟨_, _, handlePacket_of_absorb (fun _ => 0) hm hn₁⟩

theorem InSession.exists_round (h : InSession peer S) (hpos : 0 < totalMissing S.asker peer) :
    ∃ o S', SessionRound S o S' := by
  obtain ⟨b, r⟩ := S
  obtain rfl : r.address = peer := h.address
  have hfull : (b.getFileToRequest r.address).isFull = false := h.not_full_iff.mpr hpos
  have hnext := h.next
  rw [nextRequest_eq_some.mpr ⟨hfull, rfl⟩, Option.map_eq_some_iff] at hnext
  obtain ⟨e, he, haction⟩ := hnext
  obtain ⟨b₁, hfire⟩ := fire_of_ne_send h.askerOpen (e := e) (by rw [haction]; simp) zeroed
  obtain ⟨-, hsaid, hfiles₁, -, -, -⟩ := h.asks he hfire
  obtain ⟨hmem, hpeer, -⟩ := getFileToRequest_of_not_full hfull
  -- the other node knows the file, or it would abort
  obtain ⟨fl, r₁, e', r₂, bytes, hask, he', hfire'⟩ :=
    exists_answer (d := ⟨b.address, _⟩) hsaid rfl h.providerOpen h.providerSmall
      (h.knows _ hmem hpeer)
  obtain ⟨-, -, -, hd, hreply, -, hid, hchunk⟩ := provider_answers hsaid rfl hask he' hfire'
  have htarget : b₁.target hd.fileId hd.fileSize = b.getFileToRequest r.address := by
    rw [hid]
    exact target_of_mem (hfiles₁ ▸ h.store.distinct) (hfiles₁ ▸ hmem) hd.fileSize
  have hlow := lowestMissing_getFirstMissingChunk (h.store.counters _ hmem) hfull
  have hindex : b₁.Indexed hd.fileId := indexed_of_length (hfiles₁ ▸ h.askerSmall) hd.fileId
  obtain ⟨fl', b₂, hheard⟩ := exists_handlePacket_reply (d := ⟨r.address, bytes⟩) hreply hindex
    (by rw [htarget, hchunk]; exact hlow.inRange)
  exact ⟨_, _, .mk he hfire hsaid hask he' hfire' hheard⟩

end Rounds

structure SessionLog (peer : Ipv4Address) (tr : List Asked) (S : Session) : Prop where
  state : InSession peer S
  lowest : ∀ o ∈ tr, ∃ f, o.node.entry o.request.fileId = some f ∧ LowestMissing f o.request.chunkId
  fileByFile : tr.Pairwise fun later earlier => later.request.fileId = earlier.request.fileId ∨
    FullIn later.node.files earlier.request.fileId
  onward : ∀ o ∈ tr, FullIn S.asker.files o.request.fileId ∨ Pursues S.asker peer o.request.fileId

theorem sessionLog_trace {peer : Ipv4Address} {S₀ S : Session} {tr : List Asked}
    (h₀ : InSession peer S₀) (h : Trace SessionRound S₀ tr S) : SessionLog peer tr S := by
  refine h.invariant ⟨h₀, by simp, .nil, by simp⟩ ?_
  rintro tr S o S' ⟨hstate, hlowest, hpairs, honward⟩ hr
  obtain ⟨hstate', hp⟩ := hstate.round hr
  refine ⟨hstate', List.forall_mem_cons.mpr ⟨hp.lowest, hlowest⟩, hpairs.cons fun o' ho' => ?_,
    List.forall_mem_cons.mpr ⟨hp.onward, fun o' ho' => ?_⟩⟩
  · -- a node pursues one file at a time
    rw [hp.node]
    rcases honward o' ho' with hfull | hpursues
    · exact Or.inr hfull
    · exact Or.inl (hp.pursued.2.symm.trans hpursues.2)
  · rcases honward o' ho' with hfull | hpursues
    · exact Or.inl (hp.keeps _ hfull)
    · rw [← hpursues.2, hp.pursued.2]
      exact hp.onward

theorem recorded_round {S S' : Session} {o : Asked} (h : S.asker.timers.Recorded)
    (hr : SessionRound S o S') : S'.asker.timers.Recorded := by
  cases hr with
  | mk _ hfire _ _ _ _ hheard =>
    obtain ⟨-, -, seen, data, rfl⟩ := fire_cases hfire
    exact (handlePacket_disciplined (h.cancel _) hheard).recorded

theorem InSession.next_eq_none {S : Session} {peer : Ipv4Address} (h : InSession peer S)
    (hdone : totalMissing S.asker peer = 0) : S.asker.timers.current .request = none := by
  have hfull : (S.asker.getFileToRequest peer).isFull = true := by
    rw [← Bool.not_eq_false, h.not_full_iff, hdone]
    exact lt_irrefl 0
  have hnext := h.next
  rw [nextRequest, if_pos hfull] at hnext
  exact Option.map_eq_none_iff.mp hnext

/-- A session that starts with an advertisement of the other node, which knows every file it
is now listed for, has exactly as many rounds as chunks are missing of these files. Each
round asks for the lowest chunk that the asking node lacks, no other file is asked for before
the last one is full, and afterwards all are full and no request is pending. The two lengths are
what the `int32_t` of `getFileById` and the `uint32_t` of `GetNumOfFullFiles` allow for. -/
theorem download_session {n b r : SmsEchoClient} {d : Datagram} {rand : ℕ → ℚ} {fl : Flow}
    {ps : List (UInt16 × UInt16)} (hstore : StoreInv n.files) (hopen : n.mSocketSend = true)
    (hopen' : r.mSocketSend = true) (hsender : d.sender = r.address)
    (hm : Message.parse d.bytes = .ok (.advertisement ps))
    (h : n.handlePacket d rand = .ok (fl, b)) (hlen : b.files.length ≤ 2 ^ 31)
    (hlen' : r.files.length < 2 ^ 32)
    (hknows : ∀ f ∈ b.files, r.address ∈ f.nodesWhoHaveFile → r.entry f.mId ≠ none) :
    (∃ tr S, Trace SessionRound ⟨b, r⟩ tr S ∧ tr.length = totalMissing b r.address) ∧
    ∀ tr S, Trace SessionRound ⟨b, r⟩ tr S →
      tr.length ≤ totalMissing b r.address ∧
      ((∃ o S', SessionRound S o S') ↔ tr.length < totalMissing b r.address) ∧
      (∀ o ∈ tr, ∃ f, o.node.entry o.request.fileId = some f ∧
        LowestMissing f o.request.chunkId) ∧
      (tr.Pairwise fun later earlier => later.request.fileId = earlier.request.fileId ∨
        FullIn later.node.files earlier.request.fileId) ∧
      (tr.length = totalMissing b r.address →
        (∀ f ∈ S.asker.files, r.address ∈ f.nodesWhoHaveFile → f.isFull = true) ∧
        S.asker.timers.current .request = none ∧
        (n.timers.Recorded → ∀ e ∈ S.asker.timers.pending, e.action.kind ≠ .request)) := by
  have h₀ := inSession_of_advertisement hstore hopen hopen' hsender hm h hlen hlen' hknows
  have hdrop : ∀ S o S', InSession r.address S → SessionRound S o S' →
      InSession r.address S' ∧
        totalMissing S'.asker r.address + 1 = totalMissing S.asker r.address :=
    fun S o S' hS hr => ⟨(hS.round hr).1, (hS.round hr).2.fewer⟩
  have hgo : ∀ S, InSession r.address S → 0 < totalMissing S.asker r.address →
      ∃ o S', SessionRound S o S' := fun S hS hpos => hS.exists_round hpos
  refine ⟨exists_complete_trace hdrop hgo h₀, fun tr S htr => ?_⟩
  obtain ⟨hS, hlen⟩ := htr.length_add hdrop h₀
  have hlog := sessionLog_trace h₀ htr
  refine ⟨hlen ▸ Nat.le_add_right _ _, htr.goes_on_iff hdrop hgo h₀, hlog.lowest,
    hlog.fileByFile, fun hall => ?_⟩
  have hdone : totalMissing S.asker r.address = 0 := by
    rw [hall] at hlen
    exact Nat.add_eq_left.mp hlen
  have hnone := hS.next_eq_none hdone
  refine ⟨(totalMissing_eq_zero_iff hS.store).mp hdone, hnone, fun hrec => ?_⟩
  have hrecorded : S.asker.timers.Recorded :=
    htr.invariant (P := fun _ S => S.asker.timers.Recorded)
      (handlePacket_disciplined hrec h).recorded
      fun _ _ _ _ hrec hr => recorded_round hrec hr
  exact Timers.kind_ne_of_current_none hrecorded hnone

theorem download_session_witness :
    ∃ tr S, Trace SessionRound ⟨informed, provider⟩ tr S ∧ tr.length = 2 ∧
      (∀ f ∈ S.asker.files, provider.address ∈ f.nodesWhoHaveFile → f.isFull = true) ∧
      S.asker.timers.current .request = none := by
  obtain ⟨fl, hheard⟩ := listener_hears
  have hknows : ∀ f ∈ informed.files, provider.address ∈ f.nodesWhoHaveFile →
      provider.entry f.mId ≠ none := by decide
  have hmissing : totalMissing informed provider.address = 2 := by decide +kernel
  obtain ⟨⟨tr, S, htr, hlen⟩, hall⟩ :=
    download_session listener_storeInv rfl rfl rfl parse_firstHeard hheard (by decide) (by decide)
      hknows
  obtain ⟨-, -, -, -, hend⟩ := hall tr S htr
  obtain ⟨hfull, hnone, -⟩ := hend hlen
  exact ⟨tr, S, htr, hlen.trans hmissing, hfull, hnone⟩

end SmsEcho
