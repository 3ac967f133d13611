import SmsEcho.Network.Distribution

/-! What a run costs. Each request is answered at once and brings something, so that there are no
more of them than chunks lacking; and between one advertisement and the next there are at most two
pauses, both of them short. -/

namespace SmsEcho
open ByteBuffer PartialRun KeyedList LabelledTrace Dissemination SmsEchoClient

variable {k : ℕ}

def tally (kind : EventKind) (tr : List (Spoken k)) : ℕ := tr.countP fun o => o.kind = kind

theorem tally_cons (kind : EventKind) (o : Spoken k) (tr : List (Spoken k)) :
    tally kind (o :: tr) = tally kind tr + if o.kind = kind then 1 else 0 := by
  unfold tally
  rw [List.countP_cons]
  simp only [decide_eq_true_eq]

def awaiting : List (Spoken k) → Bool
  | [] => false
  | o :: _ => o.kind = .request

namespace Deployment
variable {D : Deployment k} {s₀ s s' s'' : TimedNetwork k} {o o' : Spoken k}
  {tr : List (Spoken k)}

def NoAnswers (s : TimedNetwork k) : Prop :=
  ∀ i, ∀ e ∈ (s.nodes i).timers.pending, e.action.kind ≠ .reply

theorem InRounds.noAnswers_round (h : D.InRounds s.nodes) (hr : TimedRound s o s')
    (hk : o.kind ≠ .request) (hbefore : o.kind = .reply ∨ NoAnswers s) : NoAnswers s' := by
  intro i e he hreply
  obtain ⟨hd, size, ha⟩ := exists_reply_of_kind hreply
  by_cases hi : i = o.speaker
  · subst hi
    obtain ⟨hold, huid, -⟩ := hr.due_speaker he
    rcases hbefore with hsaid | hnone
    · have hsame := (h.recorded o.speaker).eq_of_kind_eq hold hr.pending (hreply.trans hsaid.symm)
      exact huid (congrArg Event.uid hsame)
    · exact hnone o.speaker e hold hreply
  · obtain ⟨hsaid, -, -⟩ := h.spoken hr.spokenRound
    obtain ⟨rand, -, ⟨hfollow, -⟩ | ⟨hsend, -⟩⟩ := hr.due_hearer hsaid hi (h.recorded i) he
    · rw [ha] at hfollow
      obtain ⟨q, hq, -⟩ := followUp_eq_reply hfollow
      exact hk (Utterance.kind_of_announced hq)
    · rw [hsend] at ha
      exact absurd ha (by simp)

theorem noAnswers_start (h : D.TimedStart s) : NoAnswers s := by
  obtain ⟨rand, -, hnodes, -⟩ := h
  intro i e he
  rw [hnodes] at he
  rw [D.send_of_started rand i e he]
  decide

/-- The books of a run that found `L` chunks lacking. -/
structure Account (D : Deployment k) (L : ℕ) (tr : List (Spoken k)) (s : TimedNetwork k) :
    Prop where
  gained : D.shortfall s + tally .reply tr ≤ L
  paired : tally .request tr = tally .reply tr + if awaiting tr then 1 else 0
  owed : awaiting tr = true → ∃ a e t, NextUp s a e t ∧ e.action.kind = .reply
  settled : awaiting tr = false → NoAnswers s

section Asked
variable (haddr : Function.Injective D.address)
include haddr

theorem Account.of_reply {L : ℕ} (hbooks : D.Account L tr s) (h : D.InRounds s.nodes)
    (hr : TimedRound s o s') (hk : o.kind = .reply) : D.Account L (o :: tr) s' := by
  have hclosed : awaiting (o :: tr) = false := by simp [awaiting, hk]
  have hnone : NoAnswers s' := h.noAnswers_round hr (by rw [hk]; decide) (Or.inl hk)
  -- there was a request to answer
  have hopen : awaiting tr = true := by
    by_contra hnot
    exact hbooks.settled (Bool.eq_false_of_not_eq_true hnot) o.speaker o.event hr.pending hk
  obtain ⟨gained, hsum, hreply, -⟩ := h.lacking_round haddr hr.spokenRound
  obtain ⟨hone, -⟩ := hreply hk
  have hpaired := hbooks.paired
  have hspent := hbooks.gained
  unfold shortfall at hspent
  refine ⟨?_, ?_, fun htrue => ?_, fun _ => hnone⟩
  · rw [tally_cons, if_pos hk, shortfall]
    omega
  · rw [tally_cons, tally_cons, if_pos hk, if_neg (by rw [hk]; decide), hclosed, hpaired, hopen]
    rfl
  · rw [hclosed] at htrue
    exact absurd htrue (by decide)

theorem Account.of_not_reply {L : ℕ} (hbooks : D.Account L tr s)
    (hsize : ∀ i, ∀ f ∈ D.lists i, f.mFileSize ≠ 0) (h : D.OnTime s) (hr : TimedRound s o s')
    (hk : o.kind ≠ .reply) : D.Account L (o :: tr) s' := by
  -- what is owed is what comes next
  have hclosed : awaiting tr = false := by
    by_contra hnot
    obtain ⟨a, e, t, hnext, hreply⟩ := hbooks.owed (Bool.eq_true_of_not_eq_false hnot)
    obtain ⟨-, rfl, -⟩ := hnext.forced hr
    exact hk hreply
  have hnone := hbooks.settled hclosed
  obtain ⟨gained, hsum, -, hother⟩ := h.rounds.lacking_round haddr hr.spokenRound
  have hspent := hbooks.gained
  unfold shortfall at hspent
  have hpaired := hbooks.paired
  rw [hclosed] at hpaired
  have hzero := hother hk
  constructor
  · rw [tally_cons, if_neg hk, shortfall]
    omega
  · rw [tally_cons, tally_cons, if_neg hk, hpaired]
    by_cases hask : o.kind = .request
    · simp [awaiting, hask]
    · simp [awaiting, hask]
  · intro hopen
    have hask : o.kind = .request := of_decide_eq_true hopen
    obtain ⟨q, hq⟩ := Utterance.exists_request hask (s.nodes o.speaker)
    obtain ⟨a, e, -, -, hnext, hd, size, haction, -⟩ := h.answered hsize haddr hr hq
    exact ⟨a, e, o.time, hnext, by rw [haction]; rfl⟩
  · intro hnot
    exact h.rounds.noAnswers_round hr (of_decide_eq_false hnot) (Or.inr hnone)

variable (hsize : ∀ i, ∀ f ∈ D.lists i, f.mFileSize ≠ 0) (hfew : D.distinctFiles.card ≤ 50)
include hsize hfew

theorem account_of_trace (hstart : D.TimedStart s₀) (htr : Trace TimedRound s₀ tr s) :
    D.OnTime s ∧ D.Account (D.shortfall s₀) tr s := by
  induction htr with
  | nil => exact ⟨onTime_start hstart, le_rfl, rfl, by simp [awaiting],
      fun _ => noAnswers_start hstart⟩
  | @cons tr s s' o htr hr ih =>
    obtain ⟨hontime, hbooks⟩ := ih
    refine ⟨hontime.round hsize hfew hr, ?_⟩
    by_cases hk : o.kind = .reply
    · exact hbooks.of_reply haddr hontime.rounds hr hk
    · exact hbooks.of_not_reply haddr hsize hontime hr hk

omit hsize hfew in
theorem Account.lacking_pos {L : ℕ} (hbooks : D.Account L tr s) (h : D.InRounds s.nodes)
    (hopen : awaiting tr = true) : 0 < D.shortfall s := by
  obtain ⟨a, e, t, hnext, hreply⟩ := hbooks.owed hopen
  obtain ⟨o, s', hr⟩ := h.exists_timedRound haddr hnext.ticking
  obtain ⟨-, rfl, -⟩ := hnext.forced hr
  obtain ⟨gained, hsum, hgain, -⟩ := h.lacking_round haddr hr.spokenRound
  obtain ⟨hone, -⟩ := hgain hreply
  unfold shortfall
  omega

end Asked

/-- With at most 50 files in all, every request is answered by the very next packet, and in any
run there are no more of them than chunks that were lacking in the beginning. -/
theorem requests_answered (D : Deployment k) (haddr : Function.Injective D.address)
    (hsize : ∀ i, ∀ f ∈ D.lists i, f.mFileSize ≠ 0) (hfew : D.distinctFiles.card ≤ 50)
    (hstart : D.TimedStart s₀) (htr : Trace TimedRound s₀ tr s) :
    tally .request tr = tally .reply tr + (if awaiting tr then 1 else 0) ∧
      tally .request tr ≤ D.shortfall s₀ := by
  obtain ⟨hontime, hbooks⟩ := account_of_trace haddr hsize hfew hstart htr
  refine ⟨hbooks.paired, ?_⟩
  have hgained := hbooks.gained
  rw [hbooks.paired]
  cases hopen : awaiting tr with
  | false => exact (Nat.le_add_left ..).trans hgained
  | true =>
    have hpos := hbooks.lacking_pos haddr hontime.rounds hopen
    simp only [if_true]
    omega

theorem requests_answered_witness : ∃ (tr : List (Spoken 2)) (s : TimedNetwork 2),
    Trace TimedRound pairStart tr s ∧ tally .request tr = 1 ∧ awaiting tr = false ∧
      tally .request tr = tally .reply tr ∧ tally .request tr ≤ pair.shortfall pairStart := by
  obtain ⟨o₁, o₂, o₃, s, htr, hsend, hrequest, hreply⟩ := pair_answers
  obtain ⟨hpaired, hfew⟩ :=
    requests_answered pair (by decide) (by decide) (by decide) pairStart_timedStart htr
  have hsettled : awaiting [o₃, o₂, o₁] = false := by simp [awaiting, hreply]
  rw [hsettled] at hpaired
  exact ⟨_, s, htr, by simp [tally, hsend, hrequest, hreply], hsettled, hpaired, hfew⟩

/-- The longest pause, in seconds, while nobody counts more than `M` full files. -/
def pause (M : ℕ) : ℚ := (M + 75) / 1000

def Capped (M : ℕ) (s : TimedNetwork k) : Prop := ∀ i, (s.nodes i).maximumFullFilesSeen ≤ M

section Pauses
variable {M : ℕ} (hcard : D.distinctFiles.card ≤ M)
include hcard

theorem capped_start (hmemory : ∀ i, D.memory i ≤ M) (h : D.TimedStart s) : Capped M s := by
  obtain ⟨rand, -, hnodes, -⟩ := h
  intro i
  rw [hnodes]
  refine max_le (hmemory i) ?_
  have hsub : (D.lists i).toFinset ⊆ D.distinctFiles := fun f hf =>
    mem_distinctFiles.mpr ⟨i, List.mem_toFinset.mp hf⟩
  calc (D.lists i).length = (D.lists i).toFinset.card := (D.card_list i).symm
    _ ≤ D.distinctFiles.card := Finset.card_le_card hsub
    _ ≤ M := hcard

theorem InRounds.getNumOfFullFiles_le {nodes : Fin k → SmsEchoClient} (h : D.InRounds nodes)
    (i : Fin k) : (nodes i).getNumOfFullFiles ≤ M := by
  obtain ⟨ether, hs⟩ := h.sound
  exact (hs.getNumOfFullFiles_le i).trans hcard

theorem Capped.round (hcap : Capped M s) (h : D.InRounds s.nodes) (hr : TimedRound s o s') :
    Capped M s' := by
  have h' := h.round hr.spokenRound
  obtain ⟨-, -, hlearns⟩ := h.spoken hr.spokenRound
  intro i
  have hown := h.getNumOfFullFiles_le hcard i
  have hown' := h'.getNumOfFullFiles_le hcard i
  by_cases hi : i = o.speaker
  · subst hi
    obtain ⟨g, hfire⟩ := hr.fires
    have hspoke := (NodeStep.fire hr.pending hfire).learns
    refine hspoke.maximumFullFilesSeen_le (hcap o.speaker) hown hown' ?_
    simp [Observation.heard]
  · refine (hlearns i hi).maximumFullFilesSeen_le (hcap i) hown hown' fun sender ps heq => ?_
    obtain ⟨-, hps⟩ := Prod.mk.inj (Option.some.inj heq)
    rw [Utterance.announced_of_send (kind_eq_send.mp (Utterance.kind_of_announced hps))] at hps
    obtain rfl := Message.advertisement.inj hps
    exact (advertisedPairs_length_le _).trans (h.getNumOfFullFiles_le hcard o.speaker)

omit hcard in
theorem pause_nonneg (M : ℕ) : 0 ≤ pause M := by
  unfold pause
  positivity

omit hcard in
theorem Capped.getTimeAdvertisement_le (hcap : Capped M s) {i : Fin k}
    (hF : 1 ≤ (s.nodes i).getNumOfFullFiles) {r : ℚ} (hr : r ∈ Set.Icc (0 : ℚ) 1) :
    (s.nodes i).getTimeAdvertisement false r ≤ pause M := by
  rw [getTimeAdvertisement_eq hF]
  refine WithTop.coe_le_coe.mpr ?_
  have hM : ((s.nodes i).maximumFullFilesSeen : ℚ) ≤ M := by exact_mod_cast hcap i
  have hF' : (1 : ℚ) ≤ (s.nodes i).getNumOfFullFiles := by exact_mod_cast hF
  have hquot : 50 / ((s.nodes i).getNumOfFullFiles : ℚ) ≤ 50 := div_le_self (by norm_num) hF'
  obtain ⟨-, h1⟩ := hr
  unfold pause
  linarith

omit hcard in
theorem Capped.next_le (hcap' : Capped M s') (h : D.InRounds s.nodes) (hk : 2 ≤ k)
    (hfiles : ∀ i, D.lists i ≠ []) (hr : TimedRound s o s') (hr' : TimedRound s' o' s'') :
    o'.time ≤ o.time + pause M := by
  have hnontrivial : Nontrivial (Fin k) := Fin.nontrivial_iff_two_le.mpr hk
  obtain ⟨j, hj⟩ := exists_ne o.speaker
  obtain ⟨hsaid, -, -⟩ := h.spoken hr.spokenRound
  obtain ⟨rand, fl, -, hstep⟩ := hr.heard j hj
  obtain ⟨e, he, hsend⟩ := handlePacket_rearms (h.recorded j) hstep
  obtain ⟨rand', hrand', ⟨hfollow, -⟩ | ⟨-, x, hdue⟩⟩ := hr.due_hearer hsaid hj (h.recorded j) he
  · exact absurd (congrArg Action.kind hsend) (followUp_kind_ne_send hfollow)
  · have hfull := (h.round hr.spokenRound).someFull hfiles j
    have hsoon : s'.due j e ≤ ((o.time + pause M : ℚ) : Delay) := by
      rw [hdue, WithTop.coe_add]
      exact add_le_add_right (hcap'.getTimeAdvertisement_le hfull (hrand' x)) _
    exact WithTop.coe_le_coe.mp ((hr'.earliest j e he).trans hsoon)

end Pauses

theorem TimedStart.first_le (h : D.TimedStart s) (hfiles : ∀ i, D.lists i ≠ [])
    (hr : TimedRound s o s') : o.kind = .send ∧ o.time ≤ 2 + 65 / 1000 := by
  obtain ⟨rand, hrand, hnodes, hscheduled⟩ := h
  have hpending := hr.pending
  rw [hnodes] at hpending
  refine ⟨kind_eq_send.mpr (D.send_of_started rand _ _ hpending), ?_⟩
  have hF := (inRounds_started D rand).someFull hfiles o.speaker
  have hlist := startApplication_pending
    (n := boot (D.memory o.speaker) (D.address o.speaker) (D.lists o.speaker)) rfl (rand o.speaker)
  change ((D.started rand).nodes o.speaker).timers.pending = _ at hlist
  rw [hlist] at hpending
  have hdue := hr.due
  rw [TimedNetwork.due, hscheduled, List.mem_singleton.mp hpending] at hdue
  have hsoon : (o.time : Delay) ≤ ((2 + 65 / 1000 : ℚ) : Delay) := by
    rw [← hdue, WithTop.coe_add]
    exact add_le_add_right (getTimeAdvertisement_start_le hF (hrand o.speaker)) _
  exact WithTop.coe_le_coe.mp hsoon

theorem OnTime.at_once (h : D.OnTime s) (haddr : Function.Injective D.address)
    (hsize : ∀ i, ∀ f ∈ D.lists i, f.mFileSize ≠ 0) (hr : TimedRound s o s')
    (hk : o.kind ≠ .send) (hr' : TimedRound s' o' s'') (hk' : o'.kind ≠ .send) :
    o'.time = o.time := by
  cases hkind : o.kind with
  | send => exact absurd hkind hk
  | request =>
    obtain ⟨q, hq⟩ := Utterance.exists_request hkind (s.nodes o.speaker)
    obtain ⟨a, e, -, -, hnext, -⟩ := h.answered hsize haddr hr hq
    exact (hnext.forced hr').2.2
  | reply =>
    obtain ⟨hd, size, ha⟩ := exists_reply_of_kind hkind
    have hsaid := Utterance.announced_of_reply (n := s.nodes o.speaker) ha
    obtain ⟨b, hne, hb, -⟩ := h.rounds.answers o.speaker o.event hr.pending hd size ha
    obtain ⟨honward, hquiet⟩ := h.continued hsize haddr hr hsaid hb hne
    cases hfull : ((s'.nodes b).getFileToRequest (D.address o.speaker)).isFull with
    | false =>
      obtain ⟨e, hnext, -⟩ := honward hfull
      exact (hnext.forced hr').2.2
    | true =>
      have hsend := hquiet hfull o'.speaker o'.event hr'.pending
      exact absurd (kind_eq_send.mpr hsend) hk'

section Paced
variable {M : ℕ} (hk : 2 ≤ k) (haddr : Function.Injective D.address)
  (hsize : ∀ i, ∀ f ∈ D.lists i, f.mFileSize ≠ 0) (hfew : D.distinctFiles.card ≤ 50)
  (hfiles : ∀ i, D.lists i ≠ []) (hmemory : ∀ i, D.memory i ≤ M)
  (hcard : D.distinctFiles.card ≤ M)

include hmemory hcard in
theorem capped_of_trace (hstart : D.TimedStart s₀) (htr : Trace TimedRound s₀ tr s) :
    Capped M s := by
  induction htr with
  | nil => exact capped_start hcard hmemory hstart
  | cons htr hr ih => exact ih.round hcard (TimedReachable.rounds ⟨_, _, hstart, htr⟩) hr

include hk hfiles hmemory hcard in
theorem next_le (hstart : D.TimedStart s₀) (htr : Trace TimedRound s₀ (o :: tr) s)
    (hr' : TimedRound s o' s') : o'.time ≤ o.time + pause M := by
  have hcap := capped_of_trace hmemory hcard hstart htr
  obtain ⟨s₁, htr₁, hr⟩ := htr.last
  exact hcap.next_le (TimedReachable.rounds ⟨s₀, tr, hstart, htr₁⟩) hk hfiles hr hr'

include hk haddr hsize hfew hfiles hmemory hcard

theorem time_le (hstart : D.TimedStart s₀) (htr : Trace TimedRound s₀ (o :: tr) s) :
    o.time + (if o.kind = .send then 0 else pause M) ≤
      2 + 65 / 1000 + 2 * tally .send tr * pause M := by
  have hpause := pause_nonneg M
  induction tr generalizing o s with
  | nil =>
    obtain ⟨s₁, htr₁, hr⟩ := htr.last
    cases htr₁
    obtain ⟨hsend, hfirst⟩ := hstart.first_le hfiles hr
    rw [if_pos hsend, tally, List.countP_nil]
    simpa using hfirst
  | cons o₁ tr ih =>
    obtain ⟨s₁, htr₁, hr⟩ := htr.last
    have hbefore := ih htr₁
    have hnext := next_le hk hfiles hmemory hcard hstart htr₁ hr
    rw [tally_cons]
    by_cases hsend₁ : o₁.kind = .send
    · rw [if_pos hsend₁] at hbefore ⊢
      push_cast
      split_ifs <;> linarith
    · rw [if_neg hsend₁] at hbefore ⊢
      rw [Nat.add_zero]
      by_cases hsend : o.kind = .send
      · rw [if_pos hsend]
        linarith
      · obtain ⟨s₂, htr₂, hr₁⟩ := htr₁.last
        have hontime := TimedReachable.onTime hsize hfew ⟨s₀, tr, hstart, htr₂⟩
        rw [if_neg hsend, hontime.at_once haddr hsize hr₁ hsend₁ hr hsend]
        exact hbefore

end Paced

/-- Two nodes or more are never silent for longer than a pause, and whenever something is
said, there have been at most two pauses for each advertisement said before. -/
theorem paced_by_advertisements (D : Deployment k) (hk : 2 ≤ k)
    (haddr : Function.Injective D.address) (hsize : ∀ i, ∀ f ∈ D.lists i, f.mFileSize ≠ 0)
    (hfiles : ∀ i, D.lists i ≠ []) (hfew : D.distinctFiles.card ≤ 50) {M : ℕ}
    (hmemory : ∀ i, D.memory i ≤ M) (hcard : D.distinctFiles.card ≤ M) (hstart : D.TimedStart s₀)
    (htr : Trace TimedRound s₀ (o :: tr) s) :
    o.time ≤ 2 + 65 / 1000 + 2 * tally .send tr * pause M ∧
      (∃ o' s', TimedRound s o' s') ∧
      ∀ o' s', TimedRound s o' s' → o.time ≤ o'.time ∧ o'.time ≤ o.time + pause M := by
  have hs : D.TimedReachable s := ⟨s₀, _, hstart, htr⟩
  refine ⟨?_, hs.rounds.exists_timedRound haddr (hs.ticking hk hfiles), fun o' s' hr' => ⟨?_, ?_⟩⟩
  · have htime := time_le hk haddr hsize hfew hfiles hmemory hcard hstart htr
    have hpause := pause_nonneg M
    split_ifs at htime <;> linarith
  · obtain ⟨s₁, htr₁, hr⟩ := htr.last
    have hrounds := TimedReachable.rounds ⟨s₀, tr, hstart, htr₁⟩
    have hlater := hrounds.due_later hr o'.speaker hr'.pending
    rw [hr'.due] at hlater
    exact WithTop.coe_le_coe.mp hlater
  · exact next_le hk hfiles hmemory hcard hstart htr hr'

theorem paced_by_advertisements_witness : ∃ (o : Spoken 2) (s : TimedNetwork 2),
    TimedRound pairStart o s ∧ ∃ o' s', TimedRound s o' s' ∧ o'.time ≤ o.time + pause 5 := by
  obtain ⟨o, s, hr⟩ := pairStart_speaks
  obtain ⟨-, ⟨o', s', hr'⟩, hnext⟩ := paced_by_advertisements pair (M := 5) le_rfl (by decide)
    (by decide) (by decide) (by decide) (by decide) (by decide) pairStart_timedStart (.cons .nil hr)
  exact ⟨o, s, hr, o', s', hr', (hnext o' s' hr').2⟩

end Deployment
end SmsEcho
