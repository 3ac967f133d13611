import SmsEcho.Network.TimedRounds

/-! What is said next in the network under the clock. While files are few, requests go before
Sends, answers come at once, and so each broadcast settles what can follow it. -/

namespace SmsEcho
open ByteBuffer PartialRun KeyedList LabelledTrace Dissemination SmsEchoClient

variable {k : ℕ}

namespace Deployment
variable {D : Deployment k} {s s' s'' : TimedNetwork k} {o o' : Spoken k}

/-- Between two rounds: nodes know how many full files they have, and a Send is due after
whatever else its node has pending. -/
structure OnTime (D : Deployment k) (s : TimedNetwork k) : Prop where
  rounds : D.InRounds s.nodes
  noted : ∀ i, (s.nodes i).getNumOfFullFiles ≤ (s.nodes i).maximumFullFilesSeen
  sendLast : ∀ i, ∀ e ∈ (s.nodes i).timers.pending, ∀ e' ∈ (s.nodes i).timers.pending,
    e.action ≠ .send → e'.action = .send → s.due i e < s.due i e'

theorem onTime_start (h : D.TimedStart s) : D.OnTime s := by
  obtain ⟨rand, -, hnodes, -⟩ := h
  refine ⟨?_, ?_, ?_⟩
  · rw [hnodes]
    exact inRounds_started D rand
  · intro i
    have hcount := setFiles_getNumOfFullFiles
      ((construct (D.memory i)).setIPAdress (D.address i)) (D.lists i)
    rw [hnodes]
    exact hcount.le.trans (le_max_right _ _)
  · intro i e he e' _ hne
    rw [hnodes] at he
    exact absurd (D.send_of_started rand i e he) hne

section Few
variable (hsize : ∀ i, ∀ f ∈ D.lists i, f.mFileSize ≠ 0) (hfew : D.distinctFiles.card ≤ 50)

include hsize in
theorem OnTime.noted_round (h : D.OnTime s) (hr : TimedRound s o s') (i : Fin k) :
    (s'.nodes i).getNumOfFullFiles ≤ (s'.nodes i).maximumFullFilesSeen := by
  obtain ⟨hsaid, hkeep, hlearns⟩ := h.rounds.spoken hr.spokenRound
  by_cases hi : i = o.speaker
  · subst hi
    obtain ⟨g, hfire⟩ := hr.fires
    have hspoke := (NodeStep.fire hr.pending hfire).learns
    exact hspoke.noted (h.noted o.speaker) (by simp [Observation.heard])
  · refine (hlearns i hi).noted (h.noted i) fun sender ps heq p hp => ?_
    obtain ⟨-, hps⟩ := Prod.mk.inj (Option.some.inj heq)
    obtain ⟨ether, hs⟩ := h.rounds.reachable
    have hsound := sound_of_reachable (reachable_of_round hs h.rounds.sockets hr.spokenRound)
    obtain ⟨m, hm, hadv⟩ := hsound.ether ⟨o.speaker, o.bytes⟩ List.mem_cons_self
    obtain rfl := Except.ok.inj (hsaid.symm.trans hm)
    rw [hps] at hadv
    obtain ⟨f, ⟨j, hf⟩, rfl, -⟩ := hadv p hp
    intro hzero
    change f.mFileSize.toUInt16 = 0 at hzero
    refine hsize j f hf ?_
    rw [← toUInt64_toUInt16 (D.sixteenBit j f hf).2, hzero]
    rfl

include hfew in
theorem InRounds.few_of_request {nodes : Fin k → SmsEchoClient} (h : D.InRounds nodes) {i : Fin k}
    {peer : Ipv4Address} (hnot : ((nodes i).getFileToRequest peer).isFull = false) :
    (nodes i).getNumOfFullFiles < 50 := by
  obtain ⟨ether, hs⟩ := h.sound
  have hmem := (getFileToRequest_of_not_full hnot).1
  exact (hs.getNumOfFullFiles_lt hmem hnot).trans_le hfew

include hsize hfew in
theorem OnTime.round (h : D.OnTime s) (hr : TimedRound s o s') : D.OnTime s' where
  rounds := h.rounds.round hr.spokenRound
  noted := h.noted_round hsize hr
  sendLast i e he e' he' hne hsend := by
    obtain ⟨hsaid, -, -⟩ := h.rounds.spoken hr.spokenRound
    by_cases hi : i = o.speaker
    · subst hi
      obtain ⟨hold, -, hdue⟩ := hr.due_speaker he
      obtain ⟨hold', -, hdue'⟩ := hr.due_speaker he'
      rw [hdue, hdue']
      exact h.sendLast o.speaker e hold e' hold' hne hsend
    · have hnoted := h.noted_round hsize hr i
      obtain ⟨rand, hrand, hcase⟩ := hr.due_hearer hsaid hi (h.rounds.recorded i) he
      obtain ⟨rand', hrand', hcase'⟩ := hr.due_hearer hsaid hi (h.rounds.recorded i) he'
      obtain ⟨hfollow, hdue⟩ := hcase.resolve_right fun hs => hne hs.1
      obtain ⟨-, x, hdue'⟩ := hcase'.resolve_left fun hs =>
        followUp_kind_ne_send hs.1 (congrArg Action.kind hsend)
      have hwaits : (s'.nodes i).followUpDelay rand
          ((s.nodes o.speaker).announced o.event.action) <
            (s'.nodes i).getTimeAdvertisement false (rand' x) := by
        have hpos := getTimeAdvertisement_pos hnoted (hrand' x)
        cases hm : (s.nodes o.speaker).announced o.event.action with
        | advertisement ps =>
          -- only here does the follow-up wait, and it is a request
          rw [hm] at hfollow
          obtain ⟨hnot, -⟩ := nextRequest_eq_some.mp hfollow
          have hfew' := (h.rounds.round hr.spokenRound).few_of_request hfew hnot
          exact getTimeRequest_lt_getTimeAdvertisement hfew' hnoted (hrand 0) (hrand' x)
        | request q => exact hpos
        | reply hd => exact hpos
      rw [hdue, hdue']
      exact WithTop.add_lt_add_left WithTop.coe_ne_top hwaits

include hsize hfew in
theorem TimedReachable.onTime (h : D.TimedReachable s) : D.OnTime s := by
  obtain ⟨s₀, tr, hstart, htr⟩ := h
  exact htr.invariant (P := fun _ s => D.OnTime s) (onTime_start hstart)
    fun _ _ _ _ hs hr => hs.round hsize hfew hr

end Few

structure NextUp (s : TimedNetwork k) (i : Fin k) (e : Event Delay Action) (t : ℚ) : Prop where
  pending : e ∈ (s.nodes i).timers.pending
  due : s.due i e = t
  only : ∀ j, ∀ e' ∈ (s.nodes j).timers.pending, s.due j e' ≤ t → j = i ∧ e' = e

theorem NextUp.forced {i : Fin k} {e : Event Delay Action} {t : ℚ} (h : NextUp s i e t)
    (hr : TimedRound s o s') : o.speaker = i ∧ o.event = e ∧ o.time = t := by
  have hbefore := hr.earliest i e h.pending
  rw [h.due] at hbefore
  obtain ⟨hi, he⟩ := h.only o.speaker o.event hr.pending (hr.due.le.trans hbefore)
  refine ⟨hi, he, WithTop.coe_inj.mp ?_⟩
  rw [← hr.due, hi, he, h.due]

theorem NextUp.ticking {i : Fin k} {e : Event Delay Action} {t : ℚ} (h : NextUp s i e t) :
    Ticking s :=
  ⟨i, e, h.pending, by rw [h.due]; exact WithTop.coe_ne_top⟩

def Quiet (s : TimedNetwork k) : Prop :=
  ∀ i, ∀ e ∈ (s.nodes i).timers.pending, e.action = .send

theorem InRounds.listed (h : D.InRounds s.nodes) (hfew : D.distinctFiles.card ≤ 255)
    (hr : TimedRound s o s') (hsend : o.event.action = .send) {j : Fin k} (hj : j ≠ o.speaker)
    {id : UInt32} (hfull : FullIn (s.nodes o.speaker).files id) :
    Lists (s'.nodes j).files id (D.address o.speaker) := by
  obtain ⟨hsaid, -, -⟩ := h.spoken hr.spokenRound
  rw [Utterance.announced_of_send hsend] at hsaid
  obtain ⟨rand, fl, -, hstep⟩ := hr.heard j hj
  rw [h.address] at hstep
  obtain ⟨g, hg, rfl, hgfull⟩ := hfull
  obtain ⟨ether, hs⟩ := h.sound
  have hcount : (s.nodes o.speaker).getNumOfFullFiles % 256 =
      (s.nodes o.speaker).fullFiles.length := by
    have hle : (s.nodes o.speaker).getNumOfFullFiles ≤ D.distinctFiles.card :=
      hs.getNumOfFullFiles_le o.speaker
    rw [fullFiles_length]
    exact Nat.mod_eq_of_lt (by omega)
  rw [handlePacket_advertisement_files hsaid hstep, lists_foldl_noteAdvertised]
  obtain ⟨i, hknown⟩ := (hs.entries o.speaker g hg).known
  refine Or.inr ⟨rfl, filePair g, ?_, toUInt32_toUInt16 (D.sixteenBit i _ hknown).1⟩
  rw [advertisedPairs, hcount, ← List.length_map filePair, List.take_length]
  exact List.mem_map_of_mem (List.mem_filter.mpr ⟨hg, hgfull⟩)

theorem InRounds.offered (h : D.InRounds s.nodes) (hfew : D.distinctFiles.card ≤ 255)
    (hr : TimedRound s o s') (hsend : o.event.action = .send) {j : Fin k} (hj : j ≠ o.speaker)
    {id : UInt32} (hfull : FullIn (s.nodes o.speaker).files id)
    (hnot : ¬ FullIn (s'.nodes j).files id) :
    ((s'.nodes j).getFileToRequest (D.address o.speaker)).isFull = false := by
  obtain ⟨hsaid, -, hlearns⟩ := h.spoken hr.spokenRound
  rw [Utterance.announced_of_send hsend] at hsaid
  obtain ⟨rand, fl, -, hstep⟩ := hr.heard j hj
  rw [h.address] at hstep
  have habsorb := handlePacket_absorb hsaid hstep
  have hseen : (s'.nodes j).seenNodes ≠ [] := by
    have hsame : (s'.nodes j).seenNodes =
        ((s.nodes j).addNodeToSeenList (D.address o.speaker)).seenNodes :=
      (congrArg SmsEchoClient.seenNodes (Except.ok.inj habsorb) :).symm
    rw [hsame]
    exact List.ne_nil_of_mem (mem_addNodeToSeenList (s.nodes j) (D.address o.speaker))
  obtain ⟨f, hf, hid, hpeer⟩ := h.listed hfew hr hsend hj hfull
  by_contra hdone
  rw [Bool.not_eq_false, getFileToRequest_full_iff hseen] at hdone
  refine hdone f hf ⟨?_, hpeer⟩
  rw [← Bool.not_eq_true]
  exact fun hfullf => hnot ⟨f, hf, hid, hfullf⟩

section Next
variable (hsize : ∀ i, ∀ f ∈ D.lists i, f.mFileSize ≠ 0)
include hsize

theorem OnTime.send_later (h : D.OnTime s) (hr : TimedRound s o s') (hk : o.kind ≠ .send)
    {j : Fin k} {e : Event Delay Action} (he : e ∈ (s'.nodes j).timers.pending)
    (hsend : e.action = .send) : (o.time : Delay) < s'.due j e := by
  by_cases hj : j = o.speaker
  · subst hj
    obtain ⟨hold, -, hdue⟩ := hr.due_speaker he
    rw [hdue, ← hr.due]
    exact h.sendLast o.speaker o.event hr.pending e hold (mt kind_eq_send.mpr hk) hsend
  · obtain ⟨hsaid, -, -⟩ := h.rounds.spoken hr.spokenRound
    obtain ⟨rand, hrand, ⟨hfollow, -⟩ | ⟨-, x, hdue⟩⟩ :=
      hr.due_hearer hsaid hj (h.rounds.recorded j) he
    · exact absurd (kind_eq_send.mpr hsend) (followUp_kind_ne_send hfollow)
    · rw [hdue]
      have hpos := getTimeAdvertisement_pos (h.noted_round hsize hr j) (hrand x)
      calc (o.time : Delay) = o.time + 0 := (add_zero _).symm
        _ < o.time + (s'.nodes j).getTimeAdvertisement false (rand x) :=
          WithTop.add_lt_add_left WithTop.coe_ne_top hpos

theorem OnTime.nextUp (h : D.OnTime s) (hr : TimedRound s o s') (hk : o.kind ≠ .send) {i : Fin k}
    {e : Event Delay Action} (he : e ∈ (s'.nodes i).timers.pending) (hdue : s'.due i e = o.time)
    (honly : ∀ j, ∀ e' ∈ (s'.nodes j).timers.pending, e'.action ≠ .send →
      j = i ∧ e'.action.kind = e.action.kind) : NextUp s' i e o.time where
  pending := he
  due := hdue
  only j e' he' hsoon := by
    have hother : e'.action ≠ .send := by
      intro hsend
      exact absurd hsoon (not_le.mpr (h.send_later hsize hr hk he' hsend))
    obtain ⟨rfl, hkind⟩ := honly j e' he' hother
    have horderly := ((h.rounds.round hr.spokenRound).fresh j).orderly
    exact ⟨rfl, horderly.disciplined.recorded.eq_of_kind_eq he' he hkind⟩

theorem OnTime.answered (h : D.OnTime s) (haddr : Function.Injective D.address)
    (hr : TimedRound s o s') {q : RequestHeader}
    (hq : (s.nodes o.speaker).announced o.event.action = .request q) :
    ∃ a e, a ≠ o.speaker ∧ D.address a = q.receiverAddress ∧ NextUp s' a e o.time ∧
      ∃ hd size, e.action = .reply hd size ∧ hd.originalRequester = D.address o.speaker ∧
        hd.fileId = q.fileId ∧ hd.chunkId = q.chunkId := by
  obtain ⟨hsaid, hkeep, -⟩ := h.rounds.spoken hr.spokenRound
  rw [hq] at hsaid
  have hrounds := h.rounds.round hr.spokenRound
  have hk : o.kind = .request := Utterance.kind_of_announced hq
  -- the node that is asked holds the chunk, and the node that asks does not
  obtain ⟨ether, hs⟩ := h.rounds.reachable
  have hsound := sound_of_reachable (reachable_of_round hs h.rounds.sockets hr.spokenRound)
  obtain ⟨m, hm, hrequest⟩ := hsound.ether ⟨o.speaker, o.bytes⟩ List.mem_cons_self
  obtain rfl : .request q = m := Except.ok.inj (hsaid.symm.trans hm)
  obtain ⟨f, hf, hid, hchunk, a, ha, hfull⟩ := hrequest
  have hne : a ≠ o.speaker := by
    rintro rfl
    have hhas := hsound.hasChunk_of_fullIn hf hfull (UInt32.lt_iff_toNat_lt.mp hchunk)
    change (s'.nodes o.speaker).HasChunk _ _ at hhas
    rw [SmsEchoClient.hasChunk_iff, hkeep, ← hid] at hhas
    exact h.rounds.lacks_asked hr.spokenRound hq hhas
  have hto : q.receiverAddress = (s'.nodes a).address := ha.symm.trans (hrounds.address a).symm
  have hfollow : (s'.nodes a).followUp (s.nodes o.speaker).address (.request q) = some _ := if_pos hto
  obtain ⟨e, he, haction, rand, -, hdue⟩ := hr.exists_followUp hsaid hne (h.rounds.recorded a) hfollow
  obtain ⟨rand', fl, -, hstep⟩ := hr.heard a hne
  have hknown := handlePacket_known hsaid hstep hto
  refine ⟨a, e, hne, ha, ?_, _, _, haction, h.rounds.address o.speaker, getFileById_fst_mId hknown,
    rfl⟩
  refine h.nextUp hsize hr (by rw [hk]; decide) he ?_ ?_
  · rw [hdue]
    exact add_zero _
  · intro j e' he' hother
    rcases h.rounds.tuned.planned hr.spokenRound hsaid (by simp [Message.kind]) he'
      (mt kind_eq_send.mp hother) with ⟨hinv, -⟩ | ⟨q', heq, hto', hkind⟩
    · exact hinv.elim
    · obtain rfl := Message.request.inj heq
      have hsame : D.address j = D.address a := by rw [ha, hto', hrounds.address j]
      exact ⟨haddr hsame, by rw [hkind, haction]; rfl⟩

theorem OnTime.continued (h : D.OnTime s) (haddr : Function.Injective D.address)
    (hr : TimedRound s o s') {hd : ReplyHeader}
    (hreply : (s.nodes o.speaker).announced o.event.action = .reply hd) {b : Fin k}
    (hb : D.address b = hd.originalRequester) (hne : b ≠ o.speaker) :
    (((s'.nodes b).getFileToRequest (D.address o.speaker)).isFull = false →
      ∃ e, NextUp s' b e o.time ∧ e.action = .requestPacket (D.address o.speaker)
        ((s'.nodes b).getFileToRequest (D.address o.speaker))) ∧
    (((s'.nodes b).getFileToRequest (D.address o.speaker)).isFull = true → Quiet s') := by
  obtain ⟨hsaid, -, -⟩ := h.rounds.spoken hr.spokenRound
  rw [hreply] at hsaid
  have hrounds := h.rounds.round hr.spokenRound
  have hk : o.kind = .reply := Utterance.kind_of_announced hreply
  have hmine : hd.originalRequester = (s'.nodes b).address := hb.symm.trans (hrounds.address b).symm
  have hfollow : (s'.nodes b).followUp (s.nodes o.speaker).address (.reply hd) =
      (s'.nodes b).nextRequest (D.address o.speaker) := by
    rw [followUp, if_pos hmine, h.rounds.address]
  -- nobody but the node that had asked plans anything
  have honly : ∀ j, ∀ e ∈ (s'.nodes j).timers.pending, e.action ≠ .send →
      j = b ∧ e.action.kind = .request := by
    intro j e he hother
    rcases h.rounds.tuned.planned hr.spokenRound hsaid (by simp [Message.kind]) he
      (mt kind_eq_send.mp hother) with ⟨hinv, hkind⟩ | ⟨q', heq, -, -⟩
    · have hsame : D.address j = D.address b := by rw [hb, ← hrounds.address j]; exact Eq.symm hinv
      exact ⟨haddr hsame, hkind⟩
    · exact absurd heq (by simp)
  constructor
  · intro hnot
    rw [nextRequest_eq_some.mpr ⟨hnot, rfl⟩] at hfollow
    obtain ⟨e, he, haction, rand, -, hdue⟩ := hr.exists_followUp hsaid hne (h.rounds.recorded b) hfollow
    refine ⟨e, h.nextUp hsize hr (by rw [hk]; decide) he ?_ ?_, haction⟩
    · rw [hdue]
      exact add_zero _
    · intro j e' he' hother
      obtain ⟨rfl, hkind⟩ := honly j e' he' hother
      exact ⟨rfl, by rw [hkind, haction]; rfl⟩
  · intro hfull j e he
    by_contra hother
    obtain ⟨rfl, -⟩ := honly j e he hother
    obtain ⟨rand, -, ⟨hfollow', -⟩ | ⟨hsend, -⟩⟩ := hr.due_hearer hsaid hne (h.rounds.recorded j) he
    · rw [hfollow, nextRequest, if_pos hfull] at hfollow'
      exact absurd hfollow' (by simp)
    · exact hother hsend

omit hsize in
theorem OnTime.silent_after_send (h : D.OnTime s) (hr : TimedRound s o s')
    (hsend : o.event.action = .send) : ∀ e, e ∉ (s'.nodes o.speaker).timers.pending := by
  intro e he
  obtain ⟨hold, huid, -⟩ := hr.due_speaker he
  by_cases ha : e.action = .send
  · have hsame := (h.rounds.recorded o.speaker).eq_of_kind_eq hold hr.pending (by rw [ha, hsend])
    exact huid (congrArg Event.uid hsame)
  · have hsooner := h.sendLast o.speaker e hold o.event hr.pending ha hsend
    rw [hr.due] at hsooner
    exact absurd (hr.earliest o.speaker e hold) (not_le.mpr hsooner)

omit hsize in
theorem OnTime.after_send (h : D.OnTime s) (hr : TimedRound s o s') (hsend : o.event.action = .send)
    (hr' : TimedRound s' o' s'') : o'.speaker ≠ o.speaker ∧
      ((s'.nodes o'.speaker).nextRequest (D.address o.speaker) = some o'.event.action ∨
        o'.event.action = .send ∧ ∃ rand, Draws rand ∧ ∃ x, (o'.time : Delay) =
          o.time + (s'.nodes o'.speaker).getTimeAdvertisement false (rand x)) := by
  have hne : o'.speaker ≠ o.speaker := by
    intro heq
    have hpending := hr'.pending
    rw [heq] at hpending
    exact h.silent_after_send hr hsend _ hpending
  obtain ⟨hsaid, -, -⟩ := h.rounds.spoken hr.spokenRound
  rw [Utterance.announced_of_send hsend] at hsaid
  refine ⟨hne, ?_⟩
  obtain ⟨rand, hrand, ⟨hfollow, -⟩ | ⟨hsend', x, hdue⟩⟩ :=
    hr.due_hearer hsaid hne (h.rounds.recorded o'.speaker) hr'.pending
  · rw [h.rounds.address] at hfollow
    exact Or.inl hfollow
  · rw [hr'.due] at hdue
    exact Or.inr ⟨hsend', rand, hrand, x, hdue⟩

/-- With at most 14 files in all, an advertisement that offers anything to anyone is followed
by a request to its sender. -/
theorem OnTime.pursued (h : D.OnTime s) (hfew : D.distinctFiles.card ≤ 14)
    (hr : TimedRound s o s') (hsend : o.event.action = .send) {j : Fin k} (hj : j ≠ o.speaker)
    (hnot : ((s'.nodes j).getFileToRequest (D.address o.speaker)).isFull = false)
    (hr' : TimedRound s' o' s'') :
    (s'.nodes o'.speaker).nextRequest (D.address o.speaker) = some o'.event.action := by
  obtain ⟨hsaid, -, -⟩ := h.rounds.spoken hr.spokenRound
  rw [Utterance.announced_of_send hsend] at hsaid
  have hrounds := h.rounds.round hr.spokenRound
  -- this request is due within 24 milliseconds, and every Send later
  have hfollow : (s'.nodes j).followUp (s.nodes o.speaker).address
      (.advertisement (s.nodes o.speaker).advertisedPairs) = some (.requestPacket
        (D.address o.speaker) ((s'.nodes j).getFileToRequest (D.address o.speaker))) := by
    rw [h.rounds.address]
    exact nextRequest_eq_some.mpr ⟨hnot, rfl⟩
  obtain ⟨e, he, -, rand, hrand, hdue⟩ := hr.exists_followUp hsaid hj (h.rounds.recorded j) hfollow
  have hsoon : s'.due j e ≤ o.time + milliseconds 24 := by
    rw [hdue]
    refine add_le_add_right ?_ _
    obtain ⟨ether, hs⟩ := hrounds.sound
    have hlt := hs.getNumOfFullFiles_lt (getFileToRequest_of_not_full hnot).1 hnot
    exact getTimeRequest_le_twentyFour (Nat.le_of_lt_succ (hlt.trans_le hfew)) (hrand 0)
  obtain ⟨-, hnext | ⟨-, rand', hrand', x, htime⟩⟩ := h.after_send hr hsend hr'
  · exact hnext
  · have hlate := twentyFour_lt_getTimeAdvertisement (h.noted_round hsize hr o'.speaker) (hrand' x)
    have hafter : (o.time : Delay) + milliseconds 24 < o'.time := by
      rw [htime]
      exact WithTop.add_lt_add_left WithTop.coe_ne_top hlate
    exact absurd ((hr'.earliest j e he).trans hsoon) (not_le.mpr hafter)

theorem OnTime.send_asked (h : D.OnTime s) (haddr : Function.Injective D.address)
    (hfew : D.distinctFiles.card ≤ 14) (hr : TimedRound s o s') (hsend : o.event.action = .send)
    {f : FileSMS} (hf : f ∈ D.catalogue.files) (hfull : FullIn (s.nodes o.speaker).files f.mId)
    {j : Fin k} (hnot : ¬ FullIn (s.nodes j).files f.mId) (hr' : TimedRound s' o' s'') :
    (s'.nodes o'.speaker).nextRequest (D.address o.speaker) = some o'.event.action := by
  have hj : j ≠ o.speaker := by
    rintro rfl
    exact hnot hfull
  have hnot' : ¬ FullIn (s'.nodes j).files f.mId := by
    rwa [h.rounds.fullIn_of_send haddr hsize hr.spokenRound hsend hf]
  have hoffered := h.rounds.offered (hfew.trans (by decide)) hr hsend hj hfull hnot'
  exact h.pursued hsize hfew hr hsend hj hoffered hr'

end Next

/-- With at most 14 files in all, an advertisement is followed by a request exactly if its
sender has a file that someone lacks, and that request goes to the sender; otherwise the next
thing said is an advertisement again. -/
theorem advertisement_pursued_iff (D : Deployment k) (haddr : Function.Injective D.address)
    (hsize : ∀ i, ∀ f ∈ D.lists i, f.mFileSize ≠ 0) (hfew : D.distinctFiles.card ≤ 14)
    (hs : D.TimedReachable s) (hr : TimedRound s o s') (hsend : o.kind = .send)
    (hr' : TimedRound s' o' s'') :
    ((∃ f ∈ D.catalogue.files, FullIn (s.nodes o.speaker).files f.mId ∧
        ∃ j, ¬ FullIn (s.nodes j).files f.mId) ↔
      ∃ f, o'.event.action = .requestPacket (D.address o.speaker) f) ∧
    ((∃ f, o'.event.action = .requestPacket (D.address o.speaker) f) ∨ o'.event.action = .send) := by
  have h := hs.onTime hsize (hfew.trans (by decide))
  have ha : o.event.action = .send := kind_eq_send.mp hsend
  have hrounds := h.rounds.round hr.spokenRound
  refine ⟨⟨?_, ?_⟩, ?_⟩
  · rintro ⟨f, hf, hfull, j, hnot⟩
    have hnext := h.send_asked hsize haddr hfew hr ha hf hfull hnot hr'
    exact ⟨_, (nextRequest_eq_some.mp hnext).2⟩
  · rintro ⟨f, hrequest⟩
    -- what is asked for is an entry that lists the sender
    obtain ⟨-, hnext | ⟨hsend', -⟩⟩ := h.after_send hr ha hr'
    · obtain ⟨hnot, -⟩ := nextRequest_eq_some.mp hnext
      obtain ⟨hknown, hheld, hlacks⟩ := hrounds.asks_for haddr hnot
      refine ⟨_, hknown, ?_, o'.speaker, ?_⟩
      · exact (h.rounds.fullIn_of_send haddr hsize hr.spokenRound ha hknown).mp hheld
      · exact mt (h.rounds.fullIn_of_send haddr hsize hr.spokenRound ha hknown).mpr hlacks
    · rw [hrequest] at hsend'
      exact absurd hsend' (by simp)
  · obtain ⟨-, hnext | ⟨hsend', -⟩⟩ := h.after_send hr ha hr'
    · exact Or.inl ⟨_, (nextRequest_eq_some.mp hnext).2⟩
    · exact Or.inr hsend'

theorem pair_asks : ∃ (s' s'' : TimedNetwork 2) (o o' : Spoken 2),
    TimedRound pairStart o s' ∧ o.kind = .send ∧ TimedRound s' o' s'' ∧
      (s'.nodes o'.speaker).nextRequest (pair.address o.speaker) = some o'.event.action := by
  have hstart := pairStart_timedReachable
  have haddr : Function.Injective pair.address := by decide
  obtain ⟨o, s', hr⟩ := pairStart_speaks
  have hontime := hstart.onTime (D := pair) (by decide) (by decide)
  have hsend : o.event.action = .send := pair.send_of_started (fun _ => 0) _ _ hr.pending
  obtain ⟨f, hf, j, hnot⟩ := pairStart_lacks o.speaker
  obtain ⟨ether, hsound⟩ := hontime.rounds.sound
  obtain ⟨o', s'', hr'⟩ := (hstart.step hr).rounds.exists_timedRound haddr
    (hontime.rounds.ticking le_rfl (by decide) hr)
  refine ⟨s', s'', o, o', hr, kind_eq_send.mpr hsend, hr', ?_⟩
  exact hontime.send_asked (by decide) haddr (by decide) hr hsend ⟨o.speaker, hf⟩
    (hsound.initial o.speaker f hf) hnot hr'

theorem advertisement_pursued_iff_witness : ∃ (s' s'' : TimedNetwork 2) (o o' : Spoken 2),
    TimedRound pairStart o s' ∧ o.kind = .send ∧ TimedRound s' o' s'' ∧
    ∃ f, o'.event.action = .requestPacket (pair.address o.speaker) f := by
  obtain ⟨s', s'', o, o', hr, hsend, hr', -⟩ := pair_asks
  refine ⟨s', s'', o, o', hr, hsend, hr', ?_⟩
  apply (advertisement_pursued_iff pair (by decide) (by decide) (by decide)
    pairStart_timedReachable hr hsend hr').1.mp
  obtain ⟨f, hf, hlacks⟩ := pairStart_lacks o.speaker
  exact ⟨f, ⟨o.speaker, hf⟩, pairStart_timedReachable.rounds.fullIn_given hf, hlacks⟩

theorem pair_answers : ∃ (o₁ o₂ o₃ : Spoken 2) (s : TimedNetwork 2),
    Trace TimedRound pairStart [o₃, o₂, o₁] s ∧
      o₁.kind = .send ∧ o₂.kind = .request ∧ o₃.kind = .reply := by
  obtain ⟨s', s'', o, o', hr, hsend, hr', hnext⟩ := pair_asks
  obtain ⟨-, haction⟩ := nextRequest_eq_some.mp hnext
  have haddr : Function.Injective pair.address := by decide
  have hs' := pairStart_timedReachable.step hr
  have hontime := hs'.onTime (D := pair) (by decide) (by decide)
  have hsaid : (s'.nodes o'.speaker).announced o'.event.action = .request (requestFor
      (pair.address o.speaker) ((s'.nodes o'.speaker).getFileToRequest (pair.address o.speaker))) := by
    rw [haction]
    rfl
  obtain ⟨a, e, -, -, hanswer, hd, size, hreply, -⟩ :=
    hontime.answered (by decide) haddr hr' hsaid
  obtain ⟨o'', s, hr''⟩ := (hs'.step hr').rounds.exists_timedRound haddr hanswer.ticking
  obtain ⟨-, hevent, -⟩ := hanswer.forced hr''
  refine ⟨o, o', o'', s, ((Trace.nil.cons hr).cons hr').cons hr'', hsend, ?_, ?_⟩
  · rw [Utterance.kind, haction]
    rfl
  · rw [Utterance.kind, hevent, hreply]
    rfl

end Deployment
end SmsEcho
