import SmsEcho.Network.Holdings
import SmsEcho.Network.ChannelExclusion
import SmsEcho.Network.ReliableBroadcast
import SmsEcho.Client.FreshRequest

/-! Runs in which everyone handles a broadcast before anything else happens. They are runs of
the lossy network, and each reply in them brings the node that asked a chunk it lacks: how
many replies there are is settled by how many chunks are lacking. -/

namespace SmsEcho
open ByteBuffer PartialRun KeyedList LabelledTrace Dissemination SmsEchoClient

variable {k : ℕ}

theorem kind_eq_send {a : Action} : a.kind = .send ↔ a = .send := by
  cases a <;> simp [Action.kind]

theorem exists_request_of_kind {a : Action} (h : a.kind = .request) :
    ∃ peer f, a = .requestPacket peer f := by
  cases a with
  | send => exact absurd h (by simp [Action.kind])
  | requestPacket peer f => exact ⟨peer, f, rfl⟩
  | reply hd size => exact absurd h (by simp [Action.kind])

theorem exists_reply_of_kind {a : Action} (h : a.kind = .reply) :
    ∃ hd size, a = .reply hd size := by
  cases a with
  | send => exact absurd h (by simp [Action.kind])
  | requestPacket peer f => exact absurd h (by simp [Action.kind])
  | reply hd size => exact ⟨hd, size, rfl⟩

structure Utterance (k : ℕ) where
  speaker : Fin k
  event : Event Delay Action
  bytes : Bytes

namespace Utterance

def kind (o : Utterance k) : EventKind := o.event.action.kind

def isReply (o : Utterance k) : Bool := o.kind = .reply

theorem kind_of_announced {o : Utterance k} {n : SmsEchoClient} {m : Message}
    (h : n.announced o.event.action = m) : o.kind = m.kind := by
  rw [← h, announced_kind]
  rfl

theorem exists_request {o : Utterance k} (h : o.kind = .request) (n : SmsEchoClient) :
    ∃ q, n.announced o.event.action = .request q := by
  obtain ⟨peer, f, ha⟩ := exists_request_of_kind h
  exact ⟨requestFor peer f, by rw [ha]; rfl⟩

theorem announced_of_reply {o : Utterance k} {n : SmsEchoClient} {hd : ReplyHeader} {size : UInt16}
    (h : o.event.action = .reply hd size) : n.announced o.event.action = .reply hd := by
  rw [h]
  rfl

theorem announced_of_send {o : Utterance k} {n : SmsEchoClient} (h : o.event.action = .send) :
    n.announced o.event.action = .advertisement n.advertisedPairs := by
  rw [h]
  rfl

end Utterance

def SpokenRound (nodes : Fin k → SmsEchoClient) (o : Utterance k)
    (nodes' : Fin k → SmsEchoClient) : Prop := Round nodes o.speaker o.event o.bytes nodes'

namespace Deployment

structure InRounds (D : Deployment k) (nodes : Fin k → SmsEchoClient) : Prop where
  reachable : ∃ ether, D.Reachable ⟨nodes, ether⟩
  sockets : ∀ i, (nodes i).mSocket = true
  fresh : ∀ i, FreshRequests (nodes i)
  choice : ∀ i, ∀ e ∈ (nodes i).timers.pending, ∀ peer f, e.action = .requestPacket peer f →
    f = (nodes i).getFileToRequest peer
  answers : ∀ i, ∀ e ∈ (nodes i).timers.pending, ∀ hd size, e.action = .reply hd size →
    ∃ j, j ≠ i ∧ D.address j = hd.originalRequester ∧
      ¬ (nodes j).HasChunk hd.fileId hd.chunkId.toNat

variable {D : Deployment k} {nodes nodes' : Fin k → SmsEchoClient} {o : Utterance k}

theorem InRounds.sound (h : D.InRounds nodes) : ∃ ether, D.Sound ⟨nodes, ether⟩ := by
  obtain ⟨ether, hs⟩ := h.reachable
  exact ⟨ether, sound_of_reachable hs⟩

theorem InRounds.fullIn_given (h : D.InRounds nodes) {i : Fin k} {f : FileSMS}
    (hf : f ∈ D.lists i) : FullIn (nodes i).files f.mId := by
  obtain ⟨ether, hs⟩ := h.sound
  exact hs.initial i f hf

theorem InRounds.asks_for (h : D.InRounds nodes) (haddr : Function.Injective D.address)
    {i j : Fin k} (hnot : ((nodes i).getFileToRequest (D.address j)).isFull = false) :
    ((nodes i).getFileToRequest (D.address j)).toFileSMS ∈ D.catalogue.files ∧
      FullIn (nodes j).files ((nodes i).getFileToRequest (D.address j)).mId ∧
      ¬ FullIn (nodes i).files ((nodes i).getFileToRequest (D.address j)).mId := by
  obtain ⟨ether, hs⟩ := h.sound
  obtain ⟨hmem, hpeer, -⟩ := getFileToRequest_of_not_full hnot
  have hentry := hs.entries i _ hmem
  refine ⟨hentry.known, (hentry.holders _ hpeer).fullIn haddr, fun hfull => ?_⟩
  have hdone := (hs.store i).isFull_of_fullIn hmem hfull
  exact absurd hdone (by simp [hnot])

theorem InRounds.address (h : D.InRounds nodes) (i : Fin k) : (nodes i).address = D.address i := by
  obtain ⟨ether, hs⟩ := h.sound
  exact hs.address i

theorem InRounds.tuned (h : D.InRounds nodes) : Tuned D.address nodes where
  orderly i := (h.fresh i).orderly
  address := h.address

theorem send_of_started (D : Deployment k) (rand : Fin k → ℚ) (i : Fin k) :
    ∀ e ∈ ((D.started rand).nodes i).timers.pending, e.action = .send :=
  send_of_mem_startApplication (n := boot (D.memory i) (D.address i) (D.lists i)) rfl (rand i)

theorem inRounds_started (D : Deployment k) (rand : Fin k → ℚ) :
    D.InRounds (D.started rand).nodes where
  reachable := by
    have hall := reachable_started D rand Finset.univ
    exact ⟨[], by simpa using hall⟩
  sockets _ := rfl
  fresh i := freshRequests_start (D.memory i) (D.address i) (D.distinct i) (rand i)
  choice i e he peer f ha := by
    rw [D.send_of_started rand i e he] at ha
    exact absurd ha (by simp)
  answers i e he hd size ha := by
    rw [D.send_of_started rand i e he] at ha
    exact absurd ha (by simp)

theorem reachable_of_round {ether : List (Packet k)} (hs : D.Reachable ⟨nodes, ether⟩)
    (hsockets : ∀ i, (nodes i).mSocket = true) (hr : SpokenRound nodes o nodes') :
    D.Reachable ⟨nodes', ⟨o.speaker, o.bytes⟩ :: ether⟩ := by
  obtain ⟨g, hfire⟩ := hr.fires
  have hspoken : D.Reachable
      ⟨Function.update nodes o.speaker (nodes' o.speaker), ⟨o.speaker, o.bytes⟩ :: ether⟩ :=
    hs.tail (.fire o.speaker hr.pending hfire)
  have hsender : (nodes o.speaker).address = D.address o.speaker :=
    (sound_of_reachable hs).address o.speaker
  -- the others hear it one after the other
  have hheard := reaches_piecewise D.Step
    (fun n => (⟨n, ⟨o.speaker, o.bytes⟩ :: ether⟩ : Network k))
    (Function.update nodes o.speaker (nodes' o.speaker)) nodes' (Finset.univ.erase o.speaker)
    (by
      intro S _ j hj hjS
      have hne : j ≠ o.speaker := Finset.ne_of_mem_erase hj
      obtain ⟨rand, fl, hstep⟩ := hr.heard j hne
      have hnode : S.piecewise nodes' (Function.update nodes o.speaker (nodes' o.speaker)) j =
          nodes j := by
        rw [Finset.piecewise_eq_of_notMem _ _ _ hjS, Function.update_of_ne hne]
      rw [hsender, ← hnode] at hstep
      have hsocket : (S.piecewise nodes' (Function.update nodes o.speaker (nodes' o.speaker))
          j).mSocket = true := by
        rw [hnode]
        exact hsockets j
      exact .deliver (s := ⟨S.piecewise nodes' _, ⟨o.speaker, o.bytes⟩ :: ether⟩) j
        (p := ⟨o.speaker, o.bytes⟩) List.mem_cons_self hne hsocket hstep)
  have hall : (Finset.univ.erase o.speaker).piecewise nodes'
      (Function.update nodes o.speaker (nodes' o.speaker)) = nodes' := by
    funext j
    by_cases hj : j = o.speaker
    · subst hj
      rw [Finset.piecewise_eq_of_notMem _ _ _ (Finset.notMem_erase _ _), Function.update_self]
    · rw [Finset.piecewise_eq_of_mem _ _ _ (Finset.mem_erase.mpr ⟨hj, Finset.mem_univ j⟩)]
  rw [hall] at hheard
  exact hspoken.trans hheard

theorem InRounds.length_lt (h : D.InRounds nodes) (i : Fin k) : (nodes i).files.length < 2 ^ 30 := by
  obtain ⟨ether, hs⟩ := h.sound
  exact hs.length_lt i

theorem InRounds.countersFit (h : D.InRounds nodes) (i : Fin k) : (nodes i).CountersFit :=
  countersFit_of_length ((h.length_lt i).trans (by norm_num))

theorem InRounds.length_lt_round (h : D.InRounds nodes) (hr : SpokenRound nodes o nodes')
    (i : Fin k) : (nodes' i).files.length < 2 ^ 32 := by
  obtain ⟨ether, hs⟩ := h.reachable
  have hsound := sound_of_reachable (reachable_of_round hs h.sockets hr)
  exact (hsound.length_lt i).trans (by norm_num)

theorem InRounds.spoken (h : D.InRounds nodes) (hr : SpokenRound nodes o nodes') :
    Message.parse o.bytes = .ok ((nodes o.speaker).announced o.event.action) ∧
      (nodes' o.speaker).files = (nodes o.speaker).files ∧
      ∀ j, j ≠ o.speaker → Learns (nodes j) (nodes' j)
        (some (D.address o.speaker, (nodes o.speaker).announced o.event.action)) := by
  obtain ⟨g, hfire⟩ := hr.fires
  have hsaid := parse_of_fire (h.length_lt o.speaker)
    ((h.fresh o.speaker).orderly.wellTyped o.event hr.pending) hfire
  obtain ⟨-, -, seen, data, heq⟩ := fire_cases hfire
  refine ⟨hsaid, by rw [heq], fun j hj => ?_⟩
  obtain ⟨rand, fl, hstep⟩ := hr.heard j hj
  have hlearns := (NodeStep.handle hstep (h.length_lt_round hr j)).learns
  rwa [Observation.heard_handled hsaid, h.address] at hlearns

theorem InRounds.lacks_asked (h : D.InRounds nodes) (hr : SpokenRound nodes o nodes')
    {q : RequestHeader} (hq : (nodes o.speaker).announced o.event.action = .request q) :
    ¬ (nodes o.speaker).HasChunk q.fileId q.chunkId.toNat := by
  obtain ⟨peer, f, ha, rfl⟩ := announced_eq_request hq
  have hfresh := h.fresh o.speaker
  obtain ⟨hmem, hfull⟩ := hfresh.fresh o.event hr.pending peer f ha
  have hlow := lowestMissing_getFirstMissingChunk (hfresh.store.counters f hmem) hfull
  rintro ⟨g, hg, hhas⟩
  have hentry : (nodes o.speaker).entry f.mId = some f := lookup_of_mem hfresh.store.distinct hmem
  obtain rfl : g = f := Option.some.inj (hg.symm.trans hentry)
  exact hlow.lacks hhas

theorem InRounds.answers_round (h : D.InRounds nodes) (hr : SpokenRound nodes o nodes')
    {i : Fin k} {e : Event Delay Action} (he : e ∈ (nodes' i).timers.pending) {hd : ReplyHeader}
    {size : UInt16} (ha : e.action = .reply hd size) :
    ∃ j, j ≠ i ∧ D.address j = hd.originalRequester ∧
      ¬ (nodes' j).HasChunk hd.fileId hd.chunkId.toNat := by
  obtain ⟨hsaid, hkeep, hlearns⟩ := h.spoken hr
  by_cases hi : i = o.speaker
  · subst hi
    obtain ⟨g, hfire⟩ := hr.fires
    obtain ⟨-, -, seen, data, heq⟩ := fire_cases hfire
    have hold : e ∈ (nodes o.speaker).timers.pending := by
      rw [heq] at he
      exact (Timers.mem_cancel_pending.mp he).1
    obtain ⟨j, hj, haddr, hlacks⟩ := h.answers o.speaker e hold hd size ha
    refine ⟨j, hj, haddr, ?_⟩
    -- with an answer still to give, the speaker can only have advertised
    have hsend : o.event.action.kind = .send := by
      by_contra hk
      have hquiet := h.tuned.quiet_after_fire hr hk e he
      rw [ha] at hquiet
      exact absurd hquiet (by simp [Action.kind])
    rw [(hlearns j hj).hasChunk_iff, not_or]
    refine ⟨hlacks, ?_⟩
    rintro ⟨sender, hd', heq', -, -⟩
    have hk : o.kind = EventKind.reply :=
      Utterance.kind_of_announced (Prod.mk.inj (Option.some.inj heq')).2
    rw [Utterance.kind, hsend] at hk
    exact absurd hk (by simp)
  · obtain ⟨rand, fl, hstep⟩ := hr.heard i hi
    obtain ⟨m, hm, hevents⟩ :=
      handlePacket_events (h.fresh i).orderly.disciplined.recorded hstep
    obtain rfl := Except.ok.inj (hsaid.symm.trans hm)
    have hfollow := (hevents e he).resolve_left (by simp [ha])
    rw [ha] at hfollow
    obtain ⟨q, hq, hto, rfl⟩ := followUp_eq_reply hfollow
    rw [hq] at hm
    have hknown := handlePacket_known hm hstep hto
    refine ⟨o.speaker, Ne.symm hi, (h.address o.speaker).symm, ?_⟩
    have hlacks := h.lacks_asked hr hq
    have hid : (replyTo (nodes o.speaker).address q ((nodes' i).getFileById q.fileId).1).fileId =
        q.fileId := getFileById_fst_mId hknown
    rw [SmsEchoClient.hasChunk_iff, hkeep, hid]
    exact hlacks

theorem InRounds.round (h : D.InRounds nodes) (hr : SpokenRound nodes o nodes') :
    D.InRounds nodes' where
  reachable := by
    obtain ⟨ether, hs⟩ := h.reachable
    exact ⟨_, reachable_of_round hs h.sockets hr⟩
  sockets i := by
    by_cases hi : i = o.speaker
    · subst hi
      obtain ⟨g, hfire⟩ := hr.fires
      obtain ⟨-, -, seen, data, heq⟩ := fire_cases hfire
      rw [heq]
      exact h.sockets o.speaker
    · obtain ⟨rand, fl, hstep⟩ := hr.heard i hi
      obtain ⟨m, -, -, -, habsorb, -⟩ := handlePacket_cases hstep
      exact (absorb_frame habsorb).2.1.trans (h.sockets i)
  fresh i := by
    by_cases hi : i = o.speaker
    · subst hi
      obtain ⟨g, hfire⟩ := hr.fires
      exact (h.fresh o.speaker).fire hfire
    · obtain ⟨rand, fl, hstep⟩ := hr.heard i hi
      exact (h.fresh i).handle hstep (h.length_lt_round hr i)
  choice i e he peer f ha := by
    by_cases hi : i = o.speaker
    · subst hi
      obtain ⟨g, hfire⟩ := hr.fires
      obtain ⟨-, -, seen, data, heq⟩ := fire_cases hfire
      rw [heq] at he ⊢
      exact h.choice o.speaker e (Timers.mem_cancel_pending.mp he).1 peer f ha
    · obtain ⟨rand, fl, hstep⟩ := hr.heard i hi
      obtain ⟨m, -, hevents⟩ := handlePacket_events (h.fresh i).orderly.disciplined.recorded hstep
      have hfollow := (hevents e he).resolve_left (by simp [ha])
      rw [ha] at hfollow
      obtain ⟨rfl, -, hf, -⟩ := followUp_eq_request hfollow
      exact hf
  answers _ _ he _ _ ha := h.answers_round hr he ha

theorem InRounds.holdings_round (h : D.InRounds nodes) (haddr : Function.Injective D.address)
    (hr : SpokenRound nodes o nodes') :
    (∀ hd size, o.event.action = .reply hd size →
      (hd.fileId, hd.chunkId.toNat) ∈ D.holdings nodes o.speaker ∧
      D.holdings nodes' = receive (D.holdings nodes) (Finset.univ.erase o.speaker)
        (hd.fileId, hd.chunkId.toNat)) ∧
    (o.kind ≠ .reply → D.holdings nodes' = D.holdings nodes) := by
  obtain ⟨hsaid, hkeep, hlearns⟩ := h.spoken hr
  -- what has been said is in the ether of the lossy network, where all is sound
  obtain ⟨ether, hs⟩ := h.reachable
  have hsound := sound_of_reachable (reachable_of_round hs h.sockets hr)
  have hcarried : ∀ hd, (nodes o.speaker).announced o.event.action = .reply hd →
      (hd.fileId, hd.chunkId.toNat) ∈ D.holdings nodes o.speaker := by
    intro hd hreply
    rw [hreply] at hsaid
    have hmem := hsound.mem_holdings_of_reply haddr (p := ⟨o.speaker, o.bytes⟩)
      List.mem_cons_self hsaid
    rw [mem_holdings] at hmem ⊢
    rwa [SmsEchoClient.hasChunk_iff, ← hkeep]
  have hboth := holdings_of_learns (D := D) nodes nodes' (R := Finset.univ.erase o.speaker)
    (fun j hj => ⟨_, hlearns j (Finset.ne_of_mem_erase hj)⟩)
    (fun j hj => by
      have hself : j = o.speaker := by simpa using hj
      rw [hself]
      exact hkeep)
    (fun hd hreply => (mem_holdings.mp (hcarried hd hreply)).1)
  constructor
  · intro hd size ha
    have hreply := Utterance.announced_of_reply (n := nodes o.speaker) ha
    exact ⟨hcarried hd hreply, hboth.1 hd hreply⟩
  · intro hk
    exact hboth.2 fun hd hreply => hk (Utterance.kind_of_announced hreply)

theorem InRounds.holdings_mono (h : D.InRounds nodes) (haddr : Function.Injective D.address)
    (hr : SpokenRound nodes o nodes') (i : Fin k) : D.holdings nodes i ⊆ D.holdings nodes' i := by
  obtain ⟨hreply, hother⟩ := h.holdings_round haddr hr
  by_cases hk : o.kind = .reply
  · obtain ⟨hd, size, ha⟩ := exists_reply_of_kind hk
    rw [(hreply hd size ha).2]
    exact subset_receive _ _ _ i
  · rw [hother hk]

theorem InRounds.fullIn_iff (h : D.InRounds nodes) {i : Fin k} {f : FileSMS}
    (hf : f ∈ D.catalogue.files) (hsize : ∀ i, ∀ f ∈ D.lists i, f.mFileSize ≠ 0) :
    FullIn (nodes i).files f.mId ↔
      ∀ c < (chunkCount f.mFileSize).toNat, (f.mId, c) ∈ D.holdings nodes i := by
  obtain ⟨ether, hs⟩ := h.sound
  obtain ⟨j, hj⟩ := hf
  exact hs.fullIn_iff_holdings ⟨j, hj⟩ (hsize j f hj)

theorem InRounds.fullIn_round (h : D.InRounds nodes) (haddr : Function.Injective D.address)
    (hsize : ∀ i, ∀ f ∈ D.lists i, f.mFileSize ≠ 0) (hr : SpokenRound nodes o nodes') {i : Fin k}
    {f : FileSMS} (hf : f ∈ D.catalogue.files) (hfull : FullIn (nodes i).files f.mId) :
    FullIn (nodes' i).files f.mId := by
  rw [h.fullIn_iff hf hsize] at hfull
  rw [(h.round hr).fullIn_iff hf hsize]
  exact fun c hc => h.holdings_mono haddr hr i (hfull c hc)

theorem InRounds.fullIn_of_send (h : D.InRounds nodes) (haddr : Function.Injective D.address)
    (hsize : ∀ i, ∀ f ∈ D.lists i, f.mFileSize ≠ 0) (hr : SpokenRound nodes o nodes')
    (hsend : o.event.action = .send) {i : Fin k} {f : FileSMS} (hf : f ∈ D.catalogue.files) :
    FullIn (nodes' i).files f.mId ↔ FullIn (nodes i).files f.mId := by
  have hk : o.kind ≠ .reply := by simp [Utterance.kind, hsend, Action.kind]
  rw [(h.round hr).fullIn_iff hf hsize, h.fullIn_iff hf hsize, (h.holdings_round haddr hr).2 hk]

theorem InRounds.lacking_round (h : D.InRounds nodes) (haddr : Function.Injective D.address)
    (hr : SpokenRound nodes o nodes') :
    ∃ gained, lacking D.chunks (D.holdings nodes') + gained = lacking D.chunks (D.holdings nodes) ∧
      (o.kind = .reply → 1 ≤ gained ∧ gained ≤ k - 1) ∧ (o.kind ≠ .reply → gained = 0) := by
  obtain ⟨hreply, hother⟩ := h.holdings_round haddr hr
  cases ha : o.event.action with
  | reply hd size =>
    obtain ⟨hmem, hreceive⟩ := hreply hd size ha
    refine ⟨(gainers (D.holdings nodes) (Finset.univ.erase o.speaker)
      (hd.fileId, hd.chunkId.toNat)).card, ?_, fun _ => ⟨?_, ?_⟩, fun hk => ?_⟩
    · rw [hreceive]
      exact lacking_receive (Finset.univ.erase o.speaker) (mem_holdings.mp hmem).1
    · obtain ⟨j, hj, -, hlacks⟩ := h.answers o.speaker o.event hr.pending hd size ha
      refine Finset.card_pos.mpr ⟨j, Finset.mem_filter.mpr ⟨?_, fun hin => ?_⟩⟩
      · exact Finset.mem_erase.mpr ⟨hj, Finset.mem_univ j⟩
      · exact hlacks (mem_holdings.mp hin).2
    · have hcard := Finset.card_filter_le (Finset.univ.erase o.speaker)
        fun i => (hd.fileId, hd.chunkId.toNat) ∉ D.holdings nodes i
      rwa [Finset.card_erase_of_mem (Finset.mem_univ _), Finset.card_univ, Fintype.card_fin] at hcard
    · exact absurd (by rw [Utterance.kind, ha]; rfl) hk
  | send =>
    have hk : o.kind ≠ .reply := by simp [Utterance.kind, ha, Action.kind]
    exact ⟨0, by rw [hother hk, add_zero], fun h => absurd h hk, fun _ => rfl⟩
  | requestPacket peer f =>
    have hk : o.kind ≠ .reply := by simp [Utterance.kind, ha, Action.kind]
    exact ⟨0, by rw [hother hk, add_zero], fun h => absurd h hk, fun _ => rfl⟩

theorem InRounds.exists_round (h : D.InRounds nodes) (haddr : Function.Injective D.address)
    {i : Fin k} {e : Event Delay Action} (he : e ∈ (nodes i).timers.pending)
    (rand : Fin k → ℕ → ℚ) :
    ∃ bytes nodes', SpokenRound nodes ⟨i, e, bytes⟩ nodes' ∧ ∀ j, j ≠ i → ∃ fl,
      (nodes j).handlePacket ⟨(nodes i).address, bytes⟩ (rand j) = .ok (fl, nodes' j) := by
  have horderly := (h.fresh i).orderly
  obtain ⟨n', hfire⟩ :=
    fire_eq (h.countersFit i) horderly.disciplined.recorded he horderly.socket zeroed
  obtain ⟨ether, hs⟩ := h.reachable
  have hstep : D.Step ⟨nodes, ether⟩ _ := .fire i he hfire
  have hsound := sound_of_reachable (hs.tail hstep)
  have hheard : ∀ j, ∃ n₁, j ≠ i → ∃ fl, (nodes j).handlePacket
      ⟨(nodes i).address, (nodes i).emission zeroed e.action⟩ (rand j) = .ok (fl, n₁) := by
    intro j
    by_cases hj : j = i
    · exact ⟨n', fun hne => absurd hj hne⟩
    · have hnode : Function.update nodes i n' j = nodes j := Function.update_of_ne hj _ _
      obtain ⟨fl, n₁, hok⟩ := hsound.handlePacket_ok
        (p := ⟨i, (nodes i).emission zeroed e.action⟩) List.mem_cons_self j (rand j)
        (by
          intro q hq hto
          obtain ⟨m, hm, hsaid⟩ := hsound.ether ⟨i, _⟩ List.mem_cons_self
          obtain rfl : .request q = m := Except.ok.inj (hq.symm.trans hm)
          obtain ⟨f, hf, -⟩ := hsound.asked haddr hsaid (hto.trans (hsound.address j))
          rw [hf]
          simp)
      change (Function.update nodes i n' j).handlePacket _ _ = _ at hok
      rw [hnode] at hok
      rw [h.address i]
      exact ⟨n₁, fun _ => ⟨fl, hok⟩⟩
  choose others hothers using hheard
  refine ⟨(nodes i).emission zeroed e.action, Function.update others i n',
    ⟨he, ⟨zeroed, ?_⟩, ?_⟩, ?_⟩
  · rw [Function.update_self]
    exact hfire
  · intro j hj
    obtain ⟨fl, hok⟩ := hothers j hj
    rw [Function.update_of_ne hj]
    exact ⟨rand j, fl, hok⟩
  · intro j hj
    rw [Function.update_of_ne hj]
    exact hothers j hj

theorem inRounds_trace {rand : Fin k → ℚ} {tr : List (Utterance k)}
    (h : Trace SpokenRound (D.started rand).nodes tr nodes) : D.InRounds nodes :=
  h.invariant (P := fun _ nodes => D.InRounds nodes) (inRounds_started D rand)
    fun _ _ _ _ hn hr => hn.round hr

/-- Every reply delivers at least one lacking chunk, and at most one to each hearer: so many
replies are said in any run, no more and no fewer. -/
theorem replies_account_for_lacking (D : Deployment k) (haddr : Function.Injective D.address)
    (rand : Fin k → ℚ) {tr : List (Utterance k)}
    (h : Trace SpokenRound (D.started rand).nodes tr nodes) :
    lacking D.chunks (D.holdings nodes) + tr.countP Utterance.isReply ≤
        lacking D.chunks (D.holdings (D.started rand).nodes) ∧
      lacking D.chunks (D.holdings (D.started rand).nodes) ≤
        lacking D.chunks (D.holdings nodes) + (k - 1) * tr.countP Utterance.isReply := by
  induction h with
  | nil => simp
  | @cons tr nodes nodes' o htr hr ih =>
    obtain ⟨gained, hsum, hreply, hother⟩ := (inRounds_trace htr).lacking_round haddr hr
    obtain ⟨hupper, hlower⟩ := ih
    by_cases hk : o.kind = .reply
    · have hcount : (o :: tr).countP Utterance.isReply = tr.countP Utterance.isReply + 1 :=
        List.countP_cons_of_pos (decide_eq_true hk)
      obtain ⟨hone, hmost⟩ := hreply hk
      rw [hcount, Nat.mul_add, Nat.mul_one]
      constructor
      · omega
      · omega
    · have hcount : (o :: tr).countP Utterance.isReply = tr.countP Utterance.isReply :=
        List.countP_cons_of_neg (by simpa [Utterance.isReply] using hk)
      have hzero := hother hk
      rw [hcount]
      constructor
      · omega
      · omega

theorem pair_converses : ∃ o₁ o₂ o₃ nodes,
    Trace SpokenRound (pair.started fun _ => 0).nodes [o₃, o₂, o₁] nodes ∧
      o₁.kind = .send ∧ o₂.kind = .request ∧ o₃.kind = .reply := by
  let nodes₀ := (pair.started fun _ => 0).nodes
  let nodes₁ := after nodes₀ 1 .send
  let nodes₂ := after nodes₁ 0 .request
  obtain ⟨e₁, bytes₁, hadvertised, hsend, -⟩ :=
    round_of_said nodes₀ 1 .send (.advertisement [(9, 1)]) (by decide +kernel)
  obtain ⟨e₂, bytes₂, hrequested, hrequest, -⟩ :=
    round_of_said nodes₁ 0 .request (.request ⟨1, 2, 9, 0⟩) (by decide +kernel)
  obtain ⟨e₃, bytes₃, hreplied, hreply, -⟩ :=
    round_of_said nodes₂ 1 .reply (.reply ⟨2, 1, 9, 1, 0⟩) (by decide +kernel)
  have hfirst : SpokenRound nodes₀ ⟨1, e₁, bytes₁⟩ nodes₁ := hadvertised
  have hsecond : SpokenRound nodes₁ ⟨0, e₂, bytes₂⟩ nodes₂ := hrequested
  have hthird : SpokenRound nodes₂ ⟨1, e₃, bytes₃⟩ _ := hreplied
  exact ⟨_, _, _, _, ((Trace.nil.cons hfirst).cons hsecond).cons hthird, hsend, hrequest, hreply⟩

theorem replies_account_for_lacking_witness :
    ∃ (tr : List (Utterance 2)) (nodes : Fin 2 → SmsEchoClient),
      Trace SpokenRound (pair.started fun _ => 0).nodes tr nodes ∧
        tr.countP Utterance.isReply = 1 ∧
        lacking pair.chunks (pair.holdings nodes) + 1 ≤
          lacking pair.chunks (pair.holdings (pair.started fun _ => 0).nodes) ∧
        lacking pair.chunks (pair.holdings (pair.started fun _ => 0).nodes) ≤
          lacking pair.chunks (pair.holdings nodes) + (2 - 1) * 1 := by
  obtain ⟨o₁, o₂, o₃, nodes, htr, hsend, hrequest, hreply⟩ := pair_converses
  have hcount : [o₃, o₂, o₁].countP Utterance.isReply = 1 := by
    simp [Utterance.isReply, hsend, hrequest, hreply]
  have hboth := replies_account_for_lacking pair (by decide) (fun _ => 0) htr
  rw [hcount] at hboth
  exact ⟨_, nodes, htr, hcount, hboth⟩

end Deployment
end SmsEcho
