import SmsEcho.Network.Report

/-! Three nodes can starve one of them. A node that has just advertised waits for another to do
so, and two nodes that have the same files can go on like this for ever, each before a third one
comes to speak. -/

namespace SmsEcho
open ByteBuffer PartialRun KeyedList LabelledTrace SmsEchoClient

variable {k : ℕ}

def first (i j : Fin k) : ℚ := if j = i then 0 else 1

theorem first_mem (i j : Fin k) : first i j ∈ Set.Icc (0 : ℚ) 1 := by
  unfold first
  split_ifs
  · exact ⟨le_rfl, zero_le_one⟩
  · exact ⟨zero_le_one, le_rfl⟩

namespace Deployment

/-- Everyone has the files of the start, only advertisements are planned, and that of `w` is due
first. -/
structure Turn (D : Deployment k) (w : Fin k) (s : TimedNetwork k) : Prop where
  rounds : D.InRounds s.nodes
  only : ∀ i, ∀ f ∈ D.catalogue.files, FullIn (s.nodes i).files f.mId → f ∈ D.lists i
  seen : ∀ i, (s.nodes i).maximumFullFilesSeen = (D.lists i).length
  quiet : Quiet s
  due : ∃ e ∈ (s.nodes w).timers.pending, ∃ t : ℚ, s.due w e = t ∧
    ∀ j, ∀ e' ∈ (s.nodes j).timers.pending, (t : Delay) ≤ s.due j e'

variable {D : Deployment k} {s s' : TimedNetwork k} {o : Spoken k} {v w w' : Fin k}

theorem InRounds.getNumOfFullFiles_eq (h : D.InRounds s.nodes) {i : Fin k}
    (honly : ∀ f ∈ D.catalogue.files, FullIn (s.nodes i).files f.mId → f ∈ D.lists i) :
    (s.nodes i).getNumOfFullFiles = (D.lists i).length := by
  obtain ⟨ether, hs⟩ := h.sound
  have hsub : fullSet (s.nodes i) ⊆ (D.lists i).toFinset := by
    intro f hf
    obtain ⟨hknown, hfull⟩ := hs.mem_fullSet_iff.mp hf
    exact List.mem_toFinset.mpr (honly f hknown hfull)
  have hset := hsub.antisymm (hs.list_subset_fullSet i)
  rw [← card_fullSet (hs.store i), hset, D.card_list i]

section Shared
variable (hshared : ∀ j, D.lists w ⊆ D.lists j)
include hshared

theorem length_le_of_shared (j : Fin k) : (D.lists w).length ≤ (D.lists j).length :=
  ((D.nodup_list w).subperm (hshared j)).length_le

theorem InRounds.nothing_offered (h : D.InRounds s'.nodes)
    (honly : ∀ f ∈ D.catalogue.files, FullIn (s'.nodes w).files f.mId → f ∈ D.lists w)
    (haddr : Function.Injective D.address) (j : Fin k) :
    ((s'.nodes j).getFileToRequest (D.address w)).isFull = true := by
  by_contra hnot
  obtain ⟨hknown, hfull, hlacks⟩ := h.asks_for haddr (Bool.eq_false_of_not_eq_true hnot)
  exact hlacks (h.fullIn_given (hshared j (honly _ hknown hfull)))

theorem delay_le (hmany : 4 ≤ (D.lists w).length) (j : Fin k) :
    (D.lists w).length + 10 + 50 / (D.lists w).length + 15 * first w w ≤
      ((D.lists j).length + 10 + 50 / (D.lists j).length + 15 * first w j : ℚ) ∧
    50 / (D.lists w).length + 15 * first w w ≤
      (50 / (D.lists j).length + 15 * first w j : ℚ) := by
  by_cases hj : j = w
  · subst hj
    exact ⟨le_rfl, le_rfl⟩
  · have hle : ((D.lists w).length : ℚ) ≤ (D.lists j).length := by
      exact_mod_cast length_le_of_shared hshared j
    have hfour : (4 : ℚ) ≤ (D.lists w).length := by exact_mod_cast hmany
    have hquot : 50 / ((D.lists w).length : ℚ) ≤ 15 := by
      rw [div_le_iff₀ (by linarith)]
      linarith
    have hnonneg : 0 ≤ 50 / ((D.lists j).length : ℚ) := by positivity
    unfold first
    rw [if_pos rfl, if_neg hj]
    constructor <;> linarith

end Shared

theorem Turn.seen_round {o : Spoken k} (h : D.Turn o.speaker s) (hr : TimedRound s o s')
    (hshared : ∀ j, D.lists o.speaker ⊆ D.lists j) (i : Fin k) :
    (s'.nodes i).maximumFullFilesSeen = (D.lists i).length := by
  have hsend : o.event.action = .send := h.quiet o.speaker o.event hr.pending
  obtain ⟨-, -, hlearns⟩ := h.rounds.spoken hr.spokenRound
  rw [Utterance.announced_of_send hsend] at hlearns
  by_cases hi : i = o.speaker
  · subst hi
    obtain ⟨g, hfire⟩ := hr.fires
    have hspoke := (NodeStep.fire hr.pending hfire).learns
    cases hspoke with
    | spoke _ _ hmax =>
      rcases hmax with hmax | hmax
      · rw [hmax, h.seen]
      · rw [hmax, h.seen, h.rounds.getNumOfFullFiles_eq (h.only o.speaker), max_self]
  · cases hlearns i hi with
    | advertisement _ _ hmax =>
      rw [hmax, h.seen]
      apply max_eq_left
      calc (s.nodes o.speaker).advertisedPairs.length
          ≤ (s.nodes o.speaker).getNumOfFullFiles := advertisedPairs_length_le _
        _ = (D.lists o.speaker).length := h.rounds.getNumOfFullFiles_eq (h.only o.speaker)
        _ ≤ (D.lists i).length := length_le_of_shared hshared i

theorem Turn.step (h : D.Turn w s) (haddr : Function.Injective D.address)
    (hsize : ∀ i, ∀ f ∈ D.lists i, f.mFileSize ≠ 0) (hshared : ∀ j, D.lists w ⊆ D.lists j)
    (hne : w' ≠ w) (hshared' : ∀ j, D.lists w' ⊆ D.lists j) (hmany : 4 ≤ (D.lists w').length) :
    ∃ o s', TimedRound s o s' ∧ o.speaker = w ∧ D.Turn w' s' := by
  obtain ⟨e, he, t, hdue, hearliest⟩ := h.due
  have hsend : e.action = .send := h.quiet w e he
  obtain ⟨bytes, s', hr, hheard⟩ := h.rounds.exists_timedRound_of_due haddr he hdue hearliest
    (fun j _ => first w' j) fun j _ => first_mem w' j
  have hrounds := h.rounds.round hr.spokenRound
  obtain ⟨hsaid, -, -⟩ := h.rounds.spoken hr.spokenRound
  rw [Utterance.announced_of_send hsend] at hsaid
  have honly : ∀ i, ∀ f ∈ D.catalogue.files, FullIn (s'.nodes i).files f.mId → f ∈ D.lists i :=
    fun i f hf hfull =>
      h.only i f hf ((h.rounds.fullIn_of_send haddr hsize hr.spokenRound hsend hf).mp hfull)
  have hcount : ∀ i, (s'.nodes i).getNumOfFullFiles = (D.lists i).length :=
    fun i => hrounds.getNumOfFullFiles_eq (honly i)
  have hseen : ∀ i, (s'.nodes i).maximumFullFilesSeen = (D.lists i).length :=
    Turn.seen_round h hr hshared
  -- the speaker has nothing pending, and the hearers have their next advertisement
  have hsilent : ∀ e', e' ∉ (s'.nodes w).timers.pending := by
    intro e' he'
    obtain ⟨hold, huid, -⟩ := hr.due_speaker he'
    have hsame := (h.rounds.recorded w).eq_of_kind_eq hold he
      (by rw [h.quiet w e' hold, hsend])
    exact huid (congrArg Event.uid hsame)
  have hpending : ∀ j, ∀ e' ∈ (s'.nodes j).timers.pending, e'.action = .send ∧ s'.due j e' =
      t + milliseconds ((D.lists j).length + 10 + 50 / (D.lists j).length + 15 * first w' j) := by
    intro j e' he'
    have hj : j ≠ w := by
      rintro rfl
      exact hsilent e' he'
    obtain ⟨fl, hstep⟩ := hheard j hj
    rcases hr.due_heard hsaid (h.rounds.recorded j) hstep he' with ⟨hfollow, -⟩ | ⟨hsend', x, hd⟩
    · obtain ⟨hnot, -⟩ := nextRequest_eq_some.mp hfollow
      rw [h.rounds.address, hrounds.nothing_offered hshared (honly w) haddr j] at hnot
      exact absurd hnot (by simp)
    · refine ⟨hsend', ?_⟩
      have hsome : 1 ≤ (s'.nodes j).getNumOfFullFiles := by
        rw [hcount]
        exact (show 1 ≤ 4 by decide).trans (hmany.trans (length_le_of_shared hshared' j))
      rw [hd, getTimeAdvertisement_eq hsome, hseen, hcount]
  obtain ⟨fl, hstep⟩ := hheard w' hne
  obtain ⟨e', he', -⟩ := handlePacket_rearms (h.rounds.recorded w') hstep
  refine ⟨_, s', hr, rfl, hrounds, honly, hseen, fun j e he => (hpending j e he).1, e', he',
    t + ((D.lists w').length + 10 + 50 / (D.lists w').length + 15 * first w' w') / 1000, ?_, ?_⟩
  · rw [(hpending w' e' he').2, milliseconds, WithTop.coe_add]
  · intro j e'' he''
    rw [(hpending j e'' he'').2, WithTop.coe_add]
    exact add_le_add_right (milliseconds_le.mpr (delay_le hshared' hmany j).1) _

theorem exists_turn (D : Deployment k) (hmemory : ∀ i, D.memory i ≤ (D.lists i).length)
    (hshared : ∀ j, D.lists w ⊆ D.lists j) (hmany : 4 ≤ (D.lists w).length) :
    ∃ s, D.TimedStart s ∧ D.Turn w s := by
  have hrounds := inRounds_started D (first w)
  have honly : ∀ i, ∀ f ∈ D.catalogue.files,
      FullIn ((D.started (first w)).nodes i).files f.mId → f ∈ D.lists i := by
    rintro i f hf ⟨g, hg, hid, -⟩
    obtain ⟨x, hx, rfl⟩ := List.mem_map.mp hg
    obtain rfl : x = f := D.catalogue.oneSize x ⟨i, hx⟩ f hf hid
    exact hx
  let s : TimedNetwork k := ⟨(D.started (first w)).nodes, fun _ _ => 2⟩
  have hdue : ∀ j, (s.nodes j).timers.pending ≠ [] ∧ ∀ e ∈ (s.nodes j).timers.pending,
      s.due j e = 2 + milliseconds (50 / (D.lists j).length + 15 * first w j) := by
    intro j
    have hpending := startApplication_pending (n := boot (D.memory j) (D.address j) (D.lists j)) rfl
      (first w j)
    have hcount : (boot (D.memory j) (D.address j) (D.lists j)).getNumOfFullFiles =
        (D.lists j).length := InRounds.getNumOfFullFiles_eq (s := s) hrounds (honly j)
    change (s.nodes j).timers.pending = _ at hpending
    rw [hpending]
    refine ⟨by simp, fun e he => ?_⟩
    rw [List.mem_singleton.mp he, TimedNetwork.due, getTimeAdvertisement_start_eq, hcount]
    · rfl
    · rw [hcount]
      exact (show 1 ≤ 4 by decide).trans (hmany.trans (length_le_of_shared hshared j))
  obtain ⟨e, he⟩ := List.exists_mem_of_ne_nil _ (hdue w).1
  refine ⟨s, ⟨first w, first_mem w, rfl, fun _ _ => rfl⟩, hrounds, honly, ?_, ?_, e, he,
    2 + (50 / (D.lists w).length + 15 * first w w) / 1000, ?_, ?_⟩
  · exact fun i => max_eq_right (hmemory i)
  · exact fun i e he => D.send_of_started (first w) i e he
  · rw [(hdue w).2 e he, milliseconds, WithTop.coe_add]
    rfl
  · intro j e' he'
    rw [(hdue j).2 e' he', WithTop.coe_add]
    exact add_le_add_right (milliseconds_le.mpr (delay_le hshared hmany j).2) _

/-- Among three nodes or more, let all but one have the same four files or more, and that one
these files at least. Then there is a run without end in which that node never says anything, and
in which nobody ever comes to have a file it did not start with. -/
theorem starved_execution (D : Deployment k) (hk : 3 ≤ k) (haddr : Function.Injective D.address)
    (hsize : ∀ i, ∀ f ∈ D.lists i, f.mFileSize ≠ 0)
    (hmemory : ∀ i, D.memory i ≤ (D.lists i).length)
    (hshared : ∀ i, i ≠ v → ∀ j, D.lists i ⊆ D.lists j)
    (hmany : ∀ i, i ≠ v → 4 ≤ (D.lists i).length) :
    ∃ run said, D.Execution run said ∧ ∀ n, (said n).speaker ≠ v ∧
      ∀ i, ∀ f ∈ D.catalogue.files, FullIn ((run n).nodes i).files f.mId ↔ f ∈ D.lists i := by
  have htwo : 1 < (Finset.univ.erase v).card := by
    rw [Finset.card_erase_of_mem (Finset.mem_univ v), Finset.card_fin]
    omega
  obtain ⟨a, ha, b, hb, hab⟩ := Finset.one_lt_card.mp htwo
  have hav := Finset.ne_of_mem_erase ha
  have hbv := Finset.ne_of_mem_erase hb
  obtain ⟨s, hstart, hturn⟩ := exists_turn D hmemory (hshared a hav) (hmany a hav)
  have hgo : ∀ s, D.Turn a s ∨ D.Turn b s → ∃ o s',
      (TimedRound s o s' ∧ o.speaker ≠ v) ∧ (D.Turn a s' ∨ D.Turn b s') := by
    rintro s (h | h)
    · obtain ⟨o, s', hr, rfl, hnext⟩ :=
        h.step haddr hsize (hshared _ hav) hab.symm (hshared b hbv) (hmany b hbv)
      exact ⟨o, s', ⟨hr, hav⟩, Or.inr hnext⟩
    · obtain ⟨o, s', hr, rfl, hnext⟩ :=
        h.step haddr hsize (hshared _ hbv) hab (hshared a hav) (hmany a hav)
      exact ⟨o, s', ⟨hr, hbv⟩, Or.inl hnext⟩
  obtain ⟨run, said, rfl, hrun, hturns⟩ := exists_forever hgo (Or.inl hturn)
  refine ⟨run, said, ⟨hstart, fun n => (hrun n).1⟩, fun n => ⟨(hrun n).2, fun i f hf => ?_⟩⟩
  have hkept : ∃ w, D.Turn w (run n) := (hturns n).elim (fun h => ⟨a, h⟩) fun h => ⟨b, h⟩
  obtain ⟨w, h⟩ := hkept
  obtain ⟨ether, hs⟩ := h.rounds.sound
  exact ⟨h.only i f hf, hs.initial i f⟩

def crowd : Deployment 3 where
  address := ![1, 2, 3]
  memory := ![0, 0, 0]
  lists := ![[⟨4, 2⟩, ⟨5, 2⟩, ⟨6, 2⟩, ⟨7, 2⟩], [⟨4, 2⟩, ⟨5, 2⟩, ⟨6, 2⟩, ⟨7, 2⟩],
    [⟨4, 2⟩, ⟨5, 2⟩, ⟨6, 2⟩, ⟨7, 2⟩, ⟨9, 1⟩]]
  distinct := by decide
  oneSize := by decide
  sixteenBit := by decide

theorem starved_execution_witness : ∃ run said, crowd.Execution run said ∧
    ∀ n, (said n).speaker ≠ 2 ∧ ∀ i, ∀ f ∈ crowd.catalogue.files,
      FullIn ((run n).nodes i).files f.mId ↔ f ∈ crowd.lists i :=
  starved_execution crowd le_rfl (by decide) (by decide) (by decide) (by decide) (by decide)

end Deployment
end SmsEcho
