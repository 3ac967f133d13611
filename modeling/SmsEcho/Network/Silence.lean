import SmsEcho.Network.RoundRuns

/-! A network that is no longer heard. Nothing is ever said again but what is planned already, and
of that there is little: no packet that is lost is sent once more. -/

namespace SmsEcho
open ByteBuffer PartialRun LabelledTrace SmsEchoClient

variable {k : ℕ}

theorem Timers.Disciplined.length_le {t : Timers} (h : t.Disciplined) : t.pending.length ≤ 2 := by
  have hnodup := h.recorded.kinds_nodup
  rw [← List.length_map fun e : Event Delay Action => e.action.kind,
    ← List.toFinset_card_of_nodup hnodup]
  by_cases hrequest : EventKind.request ∈ t.pending.map fun e => e.action.kind
  · obtain ⟨e, he, hk⟩ := List.mem_map.mp hrequest
    have hsub : (t.pending.map fun e => e.action.kind).toFinset ⊆ {.send, .request} := by
      intro x hx
      obtain ⟨e', he', rfl⟩ := List.mem_map.mp (List.mem_toFinset.mp hx)
      have hother := h.exclusive e he e' he' hk
      cases hx' : e'.action.kind <;> simp_all
    exact (Finset.card_le_card hsub).trans (by decide)
  · have hsub : (t.pending.map fun e => e.action.kind).toFinset ⊆ {.send, .reply} := by
      intro x hx
      have hx' := List.mem_toFinset.mp hx
      cases x with
      | send => decide
      | request => exact absurd hx' hrequest
      | reply => decide
    exact (Finset.card_le_card hsub).trans (by decide)

inductive Unheard : Network k → Packet k → Network k → Prop
  | fire {s : Network k} (i : Fin k) {e : Event Delay Action} {g : Garbage} {n' : SmsEchoClient}
      {bytes : Bytes} : e ∈ (s.nodes i).timers.pending →
      (s.nodes i).fire e g = .ok (n', bytes) →
      Unheard s ⟨i, bytes⟩ ⟨Function.update s.nodes i n', ⟨i, bytes⟩ :: s.ether⟩

def planned (s : Network k) : ℕ := ∑ i, (s.nodes i).timers.pending.length

namespace Deployment

/-- Over the radio, while no application starts or stops. -/
inductive Radio (D : Deployment k) : Network k → Network k → Prop
  | said {s s' : Network k} {p : Packet k} : Unheard s p s' → Radio D s s'
  | heard {s : Network k} (i : Fin k) {p : Packet k} {rand : ℕ → ℚ} {fl : Flow}
      {n' : SmsEchoClient} : p ∈ s.ether → i ≠ p.origin →
      (s.nodes i).handlePacket (D.datagram p) rand = .ok (fl, n') →
      Radio D s { s with nodes := Function.update s.nodes i n' }

def OnAir (D : Deployment k) (s : Network k) : Prop :=
  ∃ rand, Relation.ReflTransGen D.Radio ⟨(D.started rand).nodes, []⟩ s

end Deployment

variable {D : Deployment k} {s s' : Network k} {p : Packet k}

structure Ready (s : Network k) : Prop where
  orderly : ∀ i, (s.nodes i).Orderly
  countersFit : ∀ i, (s.nodes i).CountersFit

theorem Unheard.files (h : Unheard s p s') (i : Fin k) :
    (s'.nodes i).files = (s.nodes i).files := by
  cases h with
  | fire j he hfire =>
    obtain ⟨-, -, seen, data, rfl⟩ := fire_cases hfire
    by_cases hi : i = j
    · subst hi
      simp only [Function.update_self]
    · simp only [Function.update_of_ne hi]

theorem Unheard.step (hs : Ready s) (h : Unheard s p s') :
    Ready s' ∧ planned s' + 1 = planned s := by
  have hfits : ∀ i, (s'.nodes i).CountersFit := by
    intro i
    rw [CountersFit, SmsEchoClient.getNumOfFullFiles, h.files i]
    exact hs.countersFit i
  cases h with
  | @fire i e g n' bytes he hfire =>
    constructor
    · refine ⟨?_, hfits⟩
      apply (Function.forall_update_iff s.nodes fun _ n => n.Orderly).mpr
      exact ⟨(hs.orderly i).fire hfire, fun j _ => hs.orderly j⟩
    · obtain ⟨-, -, seen, data, rfl⟩ := fire_cases hfire
      have hlen : ((s.nodes i).timers.cancel (some e.uid)).pending.length + 1 =
          (s.nodes i).timers.pending.length := (TimerQueue.cons_cancel_perm he).length_eq
      unfold planned
      rw [← Finset.add_sum_erase _ _ (Finset.mem_univ i),
        ← Finset.add_sum_erase _ _ (Finset.mem_univ i)]
      have hothers : ∀ j ∈ Finset.univ.erase i, (Function.update s.nodes i
          { s.nodes i with
            timers := (s.nodes i).timers.cancel (some e.uid)
            maximumFullFilesSeen := seen
            mData := data } j).timers.pending.length = (s.nodes j).timers.pending.length := by
        intro j hj
        rw [Function.update_of_ne (Finset.ne_of_mem_erase hj)]
      rw [Finset.sum_congr rfl hothers]
      simp only [Function.update_self]
      rw [← hlen]
      exact Nat.add_right_comm ..

theorem exists_unheard (hs : Ready s) (hpos : 0 < planned s) :
    ∃ p s', Unheard s p s' := by
  obtain ⟨i, -, hi⟩ := Finset.exists_ne_zero_of_sum_ne_zero hpos.ne'
  obtain ⟨e, he⟩ := List.exists_mem_of_length_pos (Nat.pos_of_ne_zero hi)
  obtain ⟨n', hfire⟩ := fire_eq (hs.countersFit i) (hs.orderly i).disciplined.recorded he
    (hs.orderly i).socket zeroed
  exact ⟨_, _, .fire i he hfire⟩

namespace Deployment

theorem OnAir.ready (h : D.OnAir s) : Ready s := by
  obtain ⟨rand, hrun⟩ := h
  have hstart : D.Reachable ⟨(D.started rand).nodes, []⟩ := by
    have hall := reachable_started D rand Finset.univ
    simpa using hall
  have hkept : D.Sound s ∧ ∀ i, (s.nodes i).Orderly := by
    refine reaches_invariant (P := fun t => D.Sound t ∧ ∀ i, (t.nodes i).Orderly)
      (fun t t' ⟨hsound, horderly⟩ hstep => ?_) hrun
      ⟨sound_of_reachable hstart, fun i => ((inRounds_started D rand).fresh i).orderly⟩
    cases hstep with
    | said hsaid =>
      cases hsaid with
      | fire i he hfire =>
        refine ⟨hsound.fire he hfire, ?_⟩
        apply (Function.forall_update_iff t.nodes fun _ n => n.Orderly).mpr
        exact ⟨(horderly i).fire hfire, fun j _ => horderly j⟩
    | heard i hp hne hhandle =>
      refine ⟨hsound.deliver hp hhandle, ?_⟩
      apply (Function.forall_update_iff t.nodes fun _ n => n.Orderly).mpr
      exact ⟨(horderly i).handle hhandle, fun j _ => horderly j⟩
  obtain ⟨hsound, horderly⟩ := hkept
  exact ⟨horderly, fun i => countersFit_of_length ((hsound.length_le i).trans_lt (by norm_num))⟩

/-- A network that is on air can fall silent at any time, if nothing gets through any more. It
then says just what is planned, two packets a node at most, and nobody gains anything by it. -/
theorem falls_silent (D : Deployment k) (hs : D.OnAir s) :
    planned s ≤ 2 * k ∧
    (∃ tr s', Trace Unheard s tr s' ∧ tr.length = planned s) ∧
    ∀ tr s', Trace Unheard s tr s' → ((∃ p s'', Unheard s' p s'') ↔ tr.length < planned s) ∧
      ∀ i, (s'.nodes i).files = (s.nodes i).files := by
  have hready := hs.ready
  have hdrop : ∀ (t : Network k) p t', Ready t → Unheard t p t' →
      Ready t' ∧ planned t' + 1 = planned t := fun t p t' ht h => h.step ht
  have hgo : ∀ t : Network k, Ready t → 0 < planned t → ∃ p t', Unheard t p t' :=
    fun t => exists_unheard
  refine ⟨?_, exists_complete_trace hdrop hgo hready, fun tr s' htr =>
    ⟨htr.goes_on_iff hdrop hgo hready, fun i => ?_⟩⟩
  · calc planned s ≤ ∑ _i : Fin k, 2 :=
          Finset.sum_le_sum fun i _ => (hready.orderly i).disciplined.length_le
      _ = 2 * k := by simp [Nat.mul_comm]
  · exact htr.invariant (P := fun _ t => (t.nodes i).files = (s.nodes i).files) rfl
      fun _ _ _ _ ht hsaid => (hsaid.files i).trans ht

theorem falls_silent_witness : ∃ s : Network 2, planned s = 2 ∧
    ∃ tr s', Trace Unheard s tr s' ∧ tr.length = planned s :=
  ⟨⟨(pair.started fun _ => 0).nodes, []⟩, by decide,
    (falls_silent pair ⟨fun _ => 0, .refl⟩).2.1⟩

end Deployment
end SmsEcho
