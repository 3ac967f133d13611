import SmsEcho.Network.Conversation
import SmsEcho.Network.DownloadSession

/-! A download under the clock. From its first request to its last answer it takes no time, and
nobody else gets a word in. -/

namespace SmsEcho
open ByteBuffer PartialRun KeyedList LabelledTrace SmsEchoClient

variable {k : ℕ}

namespace Timers

theorem current_of_mem {t : Timers} (h : t.Recorded) {e : Event Delay Action} (he : e ∈ t.pending) :
    t.current e.action.kind = some e := by
  cases hc : t.current e.action.kind with
  | none => exact absurd rfl (kind_ne_of_current_none h hc e he)
  | some e' =>
    have hmem : e' ∈ t.pending := List.mem_of_find?_eq_some hc
    have hfound := List.find?_some hc
    obtain ⟨hkind, -⟩ := of_decide_eq_true hfound
    exact congrArg some (h.eq_of_kind_eq hmem he hkind)

end Timers

theorem seenNodes_ne_nil_of_request {n : SmsEchoClient} {peer : Ipv4Address}
    (h : (n.getFileToRequest peer).isFull = false) : n.seenNodes ≠ [] := by
  rcases getFileToRequest_spec n peer with ⟨hnothing, -⟩ | ⟨front, back, -, hseen, -⟩
  · rw [hnothing] at h
    exact absurd h (by decide)
  · exact hseen

namespace Deployment
variable {D : Deployment k} {s s₁ s₂ s' : TimedNetwork k} {o o' : Spoken k} {a b : Fin k} {t : ℚ}
  {m : ℕ}

/-- The rounds after the first request, latest first: node `a` answers and node `b` asks by
turns, always at time `t`. -/
def Alternates (b a : Fin k) (t : ℚ) : List (Spoken k) → Prop
  | [] => True
  | o :: tr => o.time = t ∧
    (if tr.length % 2 = 0 then o.speaker = a ∧ o.kind = .reply
      else o.speaker = b ∧ o.kind = .request) ∧
    Alternates b a t tr

theorem InRounds.inSession {nodes : Fin k → SmsEchoClient} (h : D.InRounds nodes)
    (haddr : Function.Injective D.address) {e : Event Delay Action}
    (he : e ∈ (nodes b).timers.pending) {f : FileSMSChunks}
    (ha : e.action = .requestPacket (D.address a) f) :
    InSession (D.address a) ⟨nodes b, nodes a⟩ := by
  have hchoice := h.choice b e he _ f ha
  obtain ⟨hmem, hnot⟩ := (h.fresh b).fresh e he _ f ha
  rw [hchoice] at hnot
  have hsmall : (nodes b).files.length ≤ 2 ^ 31 := ((h.length_lt b).trans (by norm_num)).le
  have hsmall' : (nodes a).files.length < 2 ^ 32 := (h.length_lt a).trans (by norm_num)
  refine ⟨(h.fresh b).store, hsmall, hsmall', (h.fresh b).orderly.socket,
    (h.fresh a).orderly.socket, h.address a, seenNodes_ne_nil_of_request hnot,
    fun g hg hpeer => ?_, ?_⟩
  · obtain ⟨ether, hs⟩ := h.sound
    have hfull := ((hs.entries b g hg).holders _ hpeer).fullIn haddr
    obtain ⟨g', hg', -⟩ := hs.entry_of_fullIn hfull
    rw [hg']
    simp
  · have hcurrent := Timers.current_of_mem (h.recorded b) he
    rw [ha] at hcurrent
    change (nodes b).timers.current .request = some e at hcurrent
    rw [hcurrent, Option.map_some, ha, hchoice]
    exact (nextRequest_eq_some.mpr ⟨hnot, rfl⟩).symm

theorem OnTime.sessionRound (h : D.OnTime s) (hr : TimedRound s o s₁) (hr' : TimedRound s₁ o' s₂)
    (hne : o'.speaker ≠ o.speaker) {q : RequestHeader}
    (hq : (s.nodes o.speaker).announced o.event.action = .request q) (hk : o'.kind = .reply) :
    SessionRound ⟨s.nodes o.speaker, s.nodes o'.speaker⟩ ⟨s.nodes o.speaker, q⟩
      ⟨s₂.nodes o.speaker, s₂.nodes o'.speaker⟩ := by
  have hrounds := h.rounds.round hr.spokenRound
  obtain ⟨hsaid, -, -⟩ := h.rounds.spoken hr.spokenRound
  obtain ⟨g, hfire⟩ := hr.fires
  obtain ⟨rand, fl, -, hask⟩ := hr.heard o'.speaker hne
  obtain ⟨g', hfire'⟩ := hr'.fires
  obtain ⟨rand', fl', -, hheard⟩ := hr'.heard o.speaker hne.symm
  have hcurrent := Timers.current_of_mem (h.rounds.recorded o.speaker) hr.pending
  have hcurrent' := Timers.current_of_mem (hrounds.recorded o'.speaker) hr'.pending
  have hkind : o.event.action.kind = .request := Utterance.kind_of_announced hq
  have hkind' : o'.event.action.kind = .reply := hk
  rw [hkind] at hcurrent
  rw [hkind'] at hcurrent'
  rw [hq] at hsaid
  rw [hrounds.address, ← h.rounds.address] at hheard
  exact .mk hcurrent hfire hsaid hask hcurrent' hfire' hheard

def JustAsked (D : Deployment k) (b a : Fin k) (t : ℚ) (m : ℕ) (s₁ : TimedNetwork k) : Prop :=
  ∃ s o q, D.OnTime s ∧ TimedRound s o s₁ ∧ o.speaker = b ∧ o.time = t ∧
    (s.nodes o.speaker).announced o.event.action = .request q ∧ q.receiverAddress = D.address a ∧
    totalMissing (s.nodes b) (D.address a) = m

structure JustAnswered (D : Deployment k) (b a : Fin k) (t : ℚ) (m : ℕ) (s : TimedNetwork k) :
    Prop where
  onTime : D.OnTime s
  left : totalMissing (s.nodes b) (D.address a) = m
  next : 0 < m → ∃ e, NextUp s b e t ∧ e.action = .requestPacket (D.address a)
    ((s.nodes b).getFileToRequest (D.address a))
  done : m = 0 → (∀ f ∈ (s.nodes b).files, D.address a ∈ f.nodesWhoHaveFile → f.isFull = true) ∧
    Quiet s

section Halves
variable (haddr : Function.Injective D.address) (hsize : ∀ i, ∀ f ∈ D.lists i, f.mFileSize ≠ 0)
  (hfew : D.distinctFiles.card ≤ 50)
include haddr hsize

theorem JustAsked.nextUp (h : D.JustAsked b a t m s₁) : a ≠ b ∧ ∃ e, NextUp s₁ a e t ∧
    e.action.kind = .reply := by
  obtain ⟨s, o, q, hs, hr, rfl, rfl, hq, hto, -⟩ := h
  obtain ⟨a', e, hne, ha', hnext, hd, size, haction, -⟩ := hs.answered hsize haddr hr hq
  obtain rfl : a' = a := haddr (ha'.trans hto)
  exact ⟨hne, e, hnext, by rw [haction]; rfl⟩

include hfew

theorem JustAsked.step (h : D.JustAsked b a t m s₁) (hr' : TimedRound s₁ o' s₂) :
    (o'.time = t ∧ o'.speaker = a ∧ o'.kind = .reply) ∧
      ∃ m', m' + 1 = m ∧ D.JustAnswered b a t m' s₂ := by
  obtain ⟨hab, e', hnext, hkind⟩ := h.nextUp haddr hsize
  obtain ⟨rfl, rfl, rfl⟩ := hnext.forced hr'
  refine ⟨⟨rfl, rfl, hkind⟩, ?_⟩
  obtain ⟨s, o, q, hs, hr, rfl, htime, hq, hto, rfl⟩ := h
  have hs₁ := hs.round hsize hfew hr
  have hs₂ := hs₁.round hsize hfew hr'
  -- the request event names the node that is asked
  obtain ⟨peer, f, haction, rfl⟩ := announced_eq_request hq
  obtain rfl : peer = D.address o'.speaker := hto
  have hsession := hs.rounds.inSession haddr hr.pending haction
  obtain ⟨hsession', hprogress⟩ :=
    hsession.round (hs.sessionRound hr hr' hab hq hkind)
  obtain ⟨hd, size, hreply⟩ := exists_reply_of_kind hkind
  have hsaid' := Utterance.announced_of_reply (n := s₁.nodes o'.speaker) hreply
  have hrequester : D.address o.speaker = hd.originalRequester := by
    obtain ⟨a', e'', -, ha', hnext', hd', size', haction', horig, -⟩ :=
      hs.answered hsize haddr hr hq
    obtain ⟨rfl, rfl, -⟩ := hnext'.forced hr'
    rw [hreply] at haction'
    obtain ⟨rfl, -⟩ := Action.reply.inj haction'
    exact horig.symm
  obtain ⟨honward, hquiet⟩ := hs₁.continued hsize haddr hr' hsaid' hrequester hab.symm
  refine ⟨totalMissing (s₂.nodes o.speaker) (D.address o'.speaker), hprogress.fewer, hs₂, rfl, ?_, ?_⟩
  · intro hpos
    exact honward (hsession'.not_full_iff.mpr hpos)
  · intro hzero
    refine ⟨(totalMissing_eq_zero_iff hsession'.store).mp hzero, hquiet ?_⟩
    rw [← Bool.not_eq_false, hsession'.not_full_iff, Nat.not_lt, Nat.le_zero]
    exact hzero

omit hsize hfew haddr in
theorem JustAnswered.step (h : D.JustAnswered b a t m s) (hpos : 0 < m) (hr : TimedRound s o s₁) :
    (o.time = t ∧ o.speaker = b ∧ o.kind = .request) ∧ D.JustAsked b a t m s₁ := by
  obtain ⟨e, hnext, haction⟩ := h.next hpos
  obtain ⟨rfl, rfl, rfl⟩ := hnext.forced hr
  refine ⟨⟨rfl, rfl, by rw [Utterance.kind, haction]; rfl⟩, ?_⟩
  refine ⟨s, o, requestFor (D.address a) ((s.nodes o.speaker).getFileToRequest (D.address a)),
    h.onTime, hr, rfl, rfl, ?_, rfl, h.left⟩
  rw [haction]
  rfl

theorem JustAsked.run {tr : List (Spoken k)} (h : D.JustAsked b a t m s₁)
    (htr : Trace TimedRound s₁ tr s') (hlen : tr.length < 2 * m) : Alternates b a t tr ∧
      (tr.length % 2 = 0 → ∃ m', m' + tr.length / 2 = m ∧ D.JustAsked b a t m' s') ∧
      (tr.length % 2 = 1 → ∃ m', m' + (tr.length + 1) / 2 = m ∧ D.JustAnswered b a t m' s') := by
  induction htr with
  | nil => exact ⟨trivial, fun _ => ⟨m, by simp, h⟩, fun hodd => absurd hodd (by simp)⟩
  | @cons tr s s' o htr hr ih =>
    rw [List.length_cons] at hlen ⊢
    obtain ⟨halt, heven, hodd⟩ := ih (by omega)
    rcases Nat.mod_two_eq_zero_or_one tr.length with hpar | hpar
    · obtain ⟨m', hm', hasked⟩ := heven hpar
      obtain ⟨⟨htime, hspeaker, hkind⟩, m'', hm'', hanswered⟩ := hasked.step haddr hsize hfew hr
      refine ⟨⟨htime, ?_, halt⟩, fun hp => by omega, fun _ => ⟨m'', by omega, hanswered⟩⟩
      rw [if_pos hpar]
      exact ⟨hspeaker, hkind⟩
    · obtain ⟨m', hm', hanswered⟩ := hodd hpar
      obtain ⟨⟨htime, hspeaker, hkind⟩, hasked⟩ := hanswered.step (by omega) hr
      refine ⟨⟨htime, ?_, halt⟩, fun _ => ⟨m', by omega, hasked⟩, fun hp => by omega⟩
      rw [if_neg (by omega)]
      exact ⟨hspeaker, hkind⟩

theorem JustAsked.exists_run (h : D.JustAsked b a t m s₁) {x : ℕ} (hx : x < 2 * m) :
    ∃ tr s', Trace TimedRound s₁ tr s' ∧ tr.length = x := by
  induction x with
  | zero => exact ⟨[], s₁, .nil, rfl⟩
  | succ x ih =>
    obtain ⟨tr, s', htr, rfl⟩ := ih (by omega)
    obtain ⟨-, heven, hodd⟩ := h.run haddr hsize hfew htr (by omega)
    -- whose turn it is, can speak
    obtain ⟨hrounds, hticking⟩ : D.InRounds s'.nodes ∧ Ticking s' := by
      rcases Nat.mod_two_eq_zero_or_one tr.length with hpar | hpar
      · obtain ⟨m', -, hasked⟩ := heven hpar
        obtain ⟨-, e, hnext, -⟩ := hasked.nextUp haddr hsize
        obtain ⟨s, o, q, hs, hr, -⟩ := hasked
        exact ⟨hs.rounds.round hr.spokenRound, hnext.ticking⟩
      · obtain ⟨m', hm', hanswered⟩ := hodd hpar
        obtain ⟨e, hnext, -⟩ := hanswered.next (by omega)
        exact ⟨hanswered.onTime.rounds, hnext.ticking⟩
    obtain ⟨o, s'', hr⟩ := hrounds.exists_timedRound haddr hticking
    exact ⟨o :: tr, s'', htr.cons hr, rfl⟩

end Halves

/-- With at most 50 files in all, a node that asks another one is answered, asks again, and so
on for as long as it lacks a chunk of a file it lists the other for; all at one instant, and
without a word from anyone else. -/
theorem download_uninterrupted (D : Deployment k) (haddr : Function.Injective D.address)
    (hsize : ∀ i, ∀ f ∈ D.lists i, f.mFileSize ≠ 0) (hfew : D.distinctFiles.card ≤ 50)
    (hs : D.TimedReachable s) (hr : TimedRound s o s₁) {q : RequestHeader}
    (hq : Message.parse o.bytes = .ok (.request q)) (ha : q.receiverAddress = D.address a) :
    (∃ tr s', Trace TimedRound s₁ tr s' ∧
      tr.length + 1 = 2 * totalMissing (s.nodes o.speaker) (D.address a)) ∧
    ∀ tr s', Trace TimedRound s₁ tr s' →
      tr.length < 2 * totalMissing (s.nodes o.speaker) (D.address a) →
      Alternates o.speaker a o.time tr ∧
      (tr.length + 1 = 2 * totalMissing (s.nodes o.speaker) (D.address a) →
        (∀ f ∈ (s'.nodes o.speaker).files, D.address a ∈ f.nodesWhoHaveFile → f.isFull = true) ∧
        Quiet s') := by
  have hontime := hs.onTime hsize hfew
  obtain ⟨hsaid, -, -⟩ := hontime.rounds.spoken hr.spokenRound
  have hannounced := Except.ok.inj (hsaid.symm.trans hq)
  have hasked : D.JustAsked o.speaker a o.time (totalMissing (s.nodes o.speaker) (D.address a)) s₁ :=
    ⟨s, o, q, hontime, hr, rfl, rfl, hannounced, ha, rfl⟩
  have hpos : 0 < totalMissing (s.nodes o.speaker) (D.address a) := by
    obtain ⟨peer, f, haction, rfl⟩ := announced_eq_request hannounced
    obtain rfl : peer = D.address a := ha
    have hsession := hontime.rounds.inSession haddr hr.pending haction
    obtain ⟨-, hnot⟩ := (hontime.rounds.fresh o.speaker).fresh o.event hr.pending _ f haction
    rw [hontime.rounds.choice o.speaker o.event hr.pending _ f haction] at hnot
    exact hsession.not_full_iff.mp hnot
  constructor
  · obtain ⟨tr, s', htr, hlen⟩ := hasked.exists_run haddr hsize hfew
      (x := 2 * totalMissing (s.nodes o.speaker) (D.address a) - 1) (by omega)
    exact ⟨tr, s', htr, by omega⟩
  · intro tr s' htr hlen
    obtain ⟨halt, -, hodd⟩ := hasked.run haddr hsize hfew htr hlen
    refine ⟨halt, fun hall => ?_⟩
    obtain ⟨m', hm', hanswered⟩ := hodd (by omega)
    exact hanswered.done (by omega)

theorem download_uninterrupted_witness : ∃ (s s₁ : TimedNetwork 2) (o : Spoken 2) (a : Fin 2),
    TimedRound s o s₁ ∧ o.kind = .request ∧ ∃ tr s', Trace TimedRound s₁ tr s' ∧
      tr.length + 1 = 2 * totalMissing (s.nodes o.speaker) (pair.address a) := by
  obtain ⟨s, s₁, o₀, o, hr₀, -, hr, hnext⟩ := pair_asks
  obtain ⟨-, haction⟩ := nextRequest_eq_some.mp hnext
  have hs := pairStart_timedReachable.step hr₀
  obtain ⟨hsaid, -, -⟩ := hs.rounds.spoken hr.spokenRound
  rw [haction] at hsaid
  obtain ⟨hexists, -⟩ :=
    download_uninterrupted pair (by decide) (by decide) (by decide) hs hr hsaid rfl
  exact ⟨s, s₁, o, o₀.speaker, hr, by rw [Utterance.kind, haction]; rfl, hexists⟩

end Deployment
end SmsEcho
