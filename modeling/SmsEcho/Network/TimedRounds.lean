import SmsEcho.Network.RoundRuns
import SmsEcho.Client.EventTimes

/-! The network under the simulator's clock and over an ideal radio: what is said is heard
by every other node at that instant. What may be said next, and when, follows from the
delays. -/

namespace SmsEcho
open ByteBuffer PartialRun KeyedList LabelledTrace Dissemination SmsEchoClient

variable {k : ℕ}

/-- `scheduled i uid` is the time, in seconds, at which node `i` scheduled its event `uid`. -/
structure TimedNetwork (k : ℕ) where
  nodes : Fin k → SmsEchoClient
  scheduled : Fin k → ℕ → ℚ

structure Spoken (k : ℕ) extends Utterance k where
  time : ℚ

/-- `Simulator::Schedule` makes an event due after its delay. -/
def TimedNetwork.due (s : TimedNetwork k) (i : Fin k) (e : Event Delay Action) : Delay :=
  (s.scheduled i e.uid : Delay) + e.delay

/-- The event that is due first fires. The radio is an assumption in place of the one that
`main` configures: every packet is heard by every other node at the instant it is said, none is
lost, and there is no air time and no range. -/
structure TimedRound (s : TimedNetwork k) (o : Spoken k) (s' : TimedNetwork k) : Prop where
  pending : o.event ∈ (s.nodes o.speaker).timers.pending
  due : s.due o.speaker o.event = o.time
  earliest : ∀ j, ∀ e ∈ (s.nodes j).timers.pending, (o.time : Delay) ≤ s.due j e
  fires : ∃ g, (s.nodes o.speaker).fire o.event g = .ok (s'.nodes o.speaker, o.bytes)
  heard : ∀ j, j ≠ o.speaker → ∃ rand fl, Draws rand ∧
    (s.nodes j).handlePacket ⟨(s.nodes o.speaker).address, o.bytes⟩ rand = .ok (fl, s'.nodes j)
  scheduled : ∀ j uid, s'.scheduled j uid =
    if (s.nodes j).timers.simulator.nextUid ≤ uid then o.time else s.scheduled j uid

variable {s s' s'' : TimedNetwork k} {o o' : Spoken k}

theorem TimedRound.spokenRound (h : TimedRound s o s') :
    SpokenRound s.nodes o.toUtterance s'.nodes where
  pending := h.pending
  fires := h.fires
  heard j hj := by
    obtain ⟨rand, fl, -, hstep⟩ := h.heard j hj
    exact ⟨rand, fl, hstep⟩

theorem TimedRound.due_heard (h : TimedRound s o s') {m : Message}
    (hm : Message.parse o.bytes = .ok m) {j : Fin k} (hrec : (s.nodes j).timers.Recorded)
    {rand : ℕ → ℚ} {fl : Flow}
    (hstep : (s.nodes j).handlePacket ⟨(s.nodes o.speaker).address, o.bytes⟩ rand =
      .ok (fl, s'.nodes j)) {e : Event Delay Action} (he : e ∈ (s'.nodes j).timers.pending) :
    (s'.nodes j).followUp (s.nodes o.speaker).address m = some e.action ∧
        s'.due j e = o.time + (s'.nodes j).followUpDelay rand m ∨
      e.action = .send ∧
        ∃ i, s'.due j e = o.time + (s'.nodes j).getTimeAdvertisement false (rand i) := by
  obtain ⟨huid, hdelay⟩ := handlePacket_scheduled hrec hm hstep he
  have hdue : s'.due j e = o.time + e.delay := by
    rw [TimedNetwork.due, h.scheduled, if_pos huid]
  rcases hdelay with ⟨hfollow, hd⟩ | ⟨hsend, i, hd⟩
  · exact Or.inl ⟨hfollow, by rw [hdue, hd]⟩
  · exact Or.inr ⟨hsend, i, by rw [hdue, hd]⟩

theorem TimedRound.due_hearer (h : TimedRound s o s') {m : Message}
    (hm : Message.parse o.bytes = .ok m) {j : Fin k} (hj : j ≠ o.speaker)
    (hrec : (s.nodes j).timers.Recorded) {e : Event Delay Action}
    (he : e ∈ (s'.nodes j).timers.pending) : ∃ rand, Draws rand ∧
      ((s'.nodes j).followUp (s.nodes o.speaker).address m = some e.action ∧
          s'.due j e = o.time + (s'.nodes j).followUpDelay rand m ∨
        e.action = .send ∧
          ∃ i, s'.due j e = o.time + (s'.nodes j).getTimeAdvertisement false (rand i)) := by
  obtain ⟨rand, fl, hrand, hstep⟩ := h.heard j hj
  exact ⟨rand, hrand, h.due_heard hm hrec hstep he⟩

theorem TimedRound.exists_followUp (h : TimedRound s o s') {m : Message}
    (hm : Message.parse o.bytes = .ok m) {j : Fin k} (hj : j ≠ o.speaker)
    (hrec : (s.nodes j).timers.Recorded) {a : Action}
    (ha : (s'.nodes j).followUp (s.nodes o.speaker).address m = some a) :
    ∃ e ∈ (s'.nodes j).timers.pending, e.action = a ∧ ∃ rand, Draws rand ∧
      s'.due j e = o.time + (s'.nodes j).followUpDelay rand m := by
  obtain ⟨rand, fl, hrand, hstep⟩ := h.heard j hj
  obtain ⟨e, he, hea, hdelay⟩ := exists_scheduled_followUp hrec hm hstep ha
  obtain ⟨huid, -⟩ := handlePacket_scheduled hrec hm hstep he
  refine ⟨e, he, hea, rand, hrand, ?_⟩
  rw [TimedNetwork.due, h.scheduled, if_pos huid, hdelay]

theorem TimedRound.due_speaker (h : TimedRound s o s') {e : Event Delay Action}
    (he : e ∈ (s'.nodes o.speaker).timers.pending) :
    e ∈ (s.nodes o.speaker).timers.pending ∧ e.uid ≠ o.event.uid ∧
      s'.due o.speaker e = s.due o.speaker e := by
  obtain ⟨g, hfire⟩ := h.fires
  obtain ⟨-, -, seen, data, heq⟩ := fire_cases hfire
  rw [heq] at he
  obtain ⟨hmem, hne⟩ := Timers.mem_cancel_pending.mp he
  have hold := (s.nodes o.speaker).timers.simulator.uid_lt e hmem
  refine ⟨hmem, fun huid => hne (congrArg some huid), ?_⟩
  rw [TimedNetwork.due, TimedNetwork.due, h.scheduled, if_neg (Nat.not_le.mpr hold)]

namespace Deployment

/-- `main` has all applications start at 2 seconds. -/
def TimedStart (D : Deployment k) (s : TimedNetwork k) : Prop :=
  ∃ rand : Fin k → ℚ, (∀ i, rand i ∈ Set.Icc (0 : ℚ) 1) ∧ s.nodes = (D.started rand).nodes ∧
    ∀ i uid, s.scheduled i uid = 2

def TimedReachable (D : Deployment k) (s : TimedNetwork k) : Prop :=
  ∃ s₀ tr, D.TimedStart s₀ ∧ Trace TimedRound s₀ tr s

variable {D : Deployment k}

theorem TimedReachable.rounds (h : D.TimedReachable s) : D.InRounds s.nodes := by
  obtain ⟨s₀, tr, ⟨rand, -, hnodes, -⟩, htr⟩ := h
  refine htr.invariant (P := fun _ s => D.InRounds s.nodes) ?_ ?_
  · rw [hnodes]
    exact inRounds_started D rand
  · exact fun _ _ _ _ hs hr => hs.round hr.spokenRound

theorem InRounds.recorded {nodes : Fin k → SmsEchoClient} (h : D.InRounds nodes) (i : Fin k) :
    (nodes i).timers.Recorded := (h.fresh i).orderly.disciplined.recorded

theorem InRounds.due_later (h : D.InRounds s.nodes) (hr : TimedRound s o s') (j : Fin k)
    {e : Event Delay Action} (he : e ∈ (s'.nodes j).timers.pending) :
    (o.time : Delay) ≤ s'.due j e := by
  by_cases hj : j = o.speaker
  · subst hj
    obtain ⟨hold, -, hdue⟩ := hr.due_speaker he
    rw [hdue]
    exact hr.earliest o.speaker e hold
  · obtain ⟨hsaid, -, -⟩ := h.spoken hr.spokenRound
    obtain ⟨rand, hrand, ⟨-, hdue⟩ | ⟨-, x, hdue⟩⟩ := hr.due_hearer hsaid hj (h.recorded j) he
    · rw [hdue]
      exact le_add_of_nonneg_right (followUpDelay_nonneg hrand _)
    · rw [hdue]
      exact le_add_of_nonneg_right (getTimeAdvertisement_nonneg (hrand x))

theorem InRounds.someFull {nodes : Fin k → SmsEchoClient} (h : D.InRounds nodes)
    (hfiles : ∀ i, D.lists i ≠ []) (i : Fin k) : 1 ≤ (nodes i).getNumOfFullFiles := by
  obtain ⟨f, hf⟩ := List.exists_mem_of_ne_nil _ (hfiles i)
  obtain ⟨g, hg, -, hfull⟩ := h.fullIn_given hf
  exact List.countP_pos_iff.mpr ⟨g, hg, hfull⟩

def Ticking (s : TimedNetwork k) : Prop := ∃ i, ∃ e ∈ (s.nodes i).timers.pending, s.due i e ≠ ⊤

theorem ticking_start (hk : 2 ≤ k) (hfiles : ∀ i, D.lists i ≠ []) (h : D.TimedStart s) :
    Ticking s := by
  obtain ⟨rand, -, hnodes, -⟩ := h
  let i : Fin k := ⟨0, by omega⟩
  have hrounds := inRounds_started D rand
  have hpending := startApplication_pending (n := boot (D.memory i) (D.address i) (D.lists i)) rfl
    (rand i)
  refine ⟨i, _, by rw [hnodes]; exact hpending ▸ List.mem_singleton_self _, ?_⟩
  have hdelay := getTimeAdvertisement_ne_top (hrounds.someFull hfiles i) true (rand i)
  exact WithTop.add_ne_top.mpr ⟨WithTop.coe_ne_top, hdelay⟩

theorem InRounds.ticking (h : D.InRounds s.nodes) (hk : 2 ≤ k) (hfiles : ∀ i, D.lists i ≠ [])
    (hr : TimedRound s o s') : Ticking s' := by
  have hnontrivial : Nontrivial (Fin k) := Fin.nontrivial_iff_two_le.mpr hk
  obtain ⟨j, hj⟩ := exists_ne o.speaker
  obtain ⟨hsaid, -, -⟩ := h.spoken hr.spokenRound
  obtain ⟨rand, fl, -, hstep⟩ := hr.heard j hj
  obtain ⟨e, he, hsend⟩ := handlePacket_rearms (h.recorded j) hstep
  refine ⟨j, e, he, ?_⟩
  obtain ⟨rand', -, ⟨hfollow, -⟩ | ⟨-, x, hdue⟩⟩ := hr.due_hearer hsaid hj (h.recorded j) he
  · exact absurd (congrArg Action.kind hsend) (followUp_kind_ne_send hfollow)
  · have hfull := (h.round hr.spokenRound).someFull hfiles j
    rw [hdue]
    exact WithTop.add_ne_top.mpr
      ⟨WithTop.coe_ne_top, getTimeAdvertisement_ne_top hfull false (rand' x)⟩

theorem InRounds.exists_timedRound_of_due (h : D.InRounds s.nodes)
    (haddr : Function.Injective D.address) {i : Fin k} {e : Event Delay Action}
    (he : e ∈ (s.nodes i).timers.pending) {t : ℚ} (hdue : s.due i e = t)
    (hfirst : ∀ j, ∀ e' ∈ (s.nodes j).timers.pending, (t : Delay) ≤ s.due j e')
    (rand : Fin k → ℕ → ℚ) (hrand : ∀ j, Draws (rand j)) :
    ∃ bytes s', TimedRound s ⟨⟨i, e, bytes⟩, t⟩ s' ∧ ∀ j, j ≠ i → ∃ fl,
      (s.nodes j).handlePacket ⟨(s.nodes i).address, bytes⟩ (rand j) = .ok (fl, s'.nodes j) := by
  obtain ⟨bytes, nodes', hround, hheard⟩ := h.exists_round haddr he rand
  refine ⟨bytes, ⟨nodes', _⟩, ⟨he, hdue, hfirst, hround.fires, ?_, fun _ _ => rfl⟩, hheard⟩
  intro j hj
  obtain ⟨fl, hstep⟩ := hheard j hj
  exact ⟨rand j, fl, hrand j, hstep⟩

theorem InRounds.exists_timedRound (h : D.InRounds s.nodes) (haddr : Function.Injective D.address)
    (hticking : Ticking s) : ∃ o s', TimedRound s o s' := by
  obtain ⟨i₀, e₀, he₀, hfinite⟩ := hticking
  -- the event that is due first
  let all : Finset (Σ _ : Fin k, Event Delay Action) :=
    Finset.univ.sigma fun i => (s.nodes i).timers.pending.toFinset
  have hmem : ∀ i e, ⟨i, e⟩ ∈ all ↔ e ∈ (s.nodes i).timers.pending := by
    intro i e
    simp [all]
  obtain ⟨⟨i, e⟩, hin, hleast⟩ := all.exists_min_image (fun x => s.due x.1 x.2)
    ⟨⟨i₀, e₀⟩, (hmem i₀ e₀).mpr he₀⟩
  have hdue : s.due i e ≠ ⊤ :=
    ne_top_of_le_ne_top hfinite (hleast ⟨i₀, e₀⟩ ((hmem i₀ e₀).mpr he₀))
  obtain ⟨t, ht⟩ := WithTop.ne_top_iff_exists.mp hdue
  have hfirst : ∀ j, ∀ e' ∈ (s.nodes j).timers.pending, (t : Delay) ≤ s.due j e' := by
    intro j e' he'
    rw [ht]
    exact hleast ⟨j, e'⟩ ((hmem j e').mpr he')
  obtain ⟨bytes, s', hr, -⟩ := h.exists_timedRound_of_due haddr ((hmem i e).mp hin) ht.symm hfirst
    (fun _ _ => 0) fun _ _ => ⟨le_rfl, zero_le_one⟩
  exact ⟨_, s', hr⟩

theorem TimedReachable.step (hs : D.TimedReachable s) (hr : TimedRound s o s') :
    D.TimedReachable s' := by
  obtain ⟨s₀, tr, hstart, htr⟩ := hs
  exact ⟨s₀, o :: tr, hstart, htr.cons hr⟩

theorem TimedReachable.ticking (hs : D.TimedReachable s) (hk : 2 ≤ k)
    (hfiles : ∀ i, D.lists i ≠ []) : Ticking s := by
  obtain ⟨s₀, tr, hstart, htr⟩ := hs
  cases htr with
  | nil => exact ticking_start hk hfiles hstart
  | cons htr hr => exact TimedReachable.rounds ⟨s₀, _, hstart, htr⟩ |>.ticking hk hfiles hr

/-- Under the clock the network only does what the lossy network can do, time does not run
backwards, and there is always something more to say. -/
theorem timed_runs (D : Deployment k) (hk : 2 ≤ k) (haddr : Function.Injective D.address)
    (hfiles : ∀ i, D.lists i ≠ []) (hs : D.TimedReachable s) :
    (∃ ether, D.Reachable ⟨s.nodes, ether⟩) ∧ (∃ o s', TimedRound s o s') ∧
      ∀ o s' o' s'', TimedRound s o s' → TimedRound s' o' s'' → o.time ≤ o'.time := by
  refine ⟨hs.rounds.reachable, hs.rounds.exists_timedRound haddr (hs.ticking hk hfiles), ?_⟩
  intro o s' o' s'' hr hr'
  have hlater := hs.rounds.due_later hr o'.speaker hr'.pending
  rw [hr'.due] at hlater
  exact WithTop.coe_le_coe.mp hlater

def pairStart : TimedNetwork 2 := ⟨(pair.started fun _ => 0).nodes, fun _ _ => 2⟩

theorem pairStart_timedStart : pair.TimedStart pairStart :=
  ⟨fun _ => 0, fun _ => ⟨le_rfl, zero_le_one⟩, rfl, fun _ _ => rfl⟩

theorem pairStart_timedReachable : pair.TimedReachable pairStart :=
  ⟨pairStart, [], pairStart_timedStart, .nil⟩

theorem pairStart_speaks : ∃ o s', TimedRound pairStart o s' := by
  have hticking := pairStart_timedReachable.ticking le_rfl (by decide)
  exact pairStart_timedReachable.rounds.exists_timedRound (by decide) hticking

theorem timed_runs_witness : ∃ o s', TimedRound pairStart o s' :=
  (timed_runs pair le_rfl (by decide) (by decide) pairStart_timedReachable).2.1

theorem pairStart_lacks : ∀ i : Fin 2, ∃ f ∈ pair.lists i, ∃ j,
    ¬ FullIn (pairStart.nodes j).files f.mId := by
  unfold FullIn
  decide

end Deployment
end SmsEcho
