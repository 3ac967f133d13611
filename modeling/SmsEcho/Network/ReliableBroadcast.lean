import SmsEcho.Network.LossyNetwork
import SmsEcho.Client.AdvertisementDelay

/-! The same nodes, all started, over a radio that delivers every broadcast to every other node
once, in any order. Each run is one of the lossy network; and the nodes never fall silent. -/

namespace SmsEcho
open ByteBuffer PartialRun KeyedList SmsEchoClient

variable {k : ℕ}

/-- A packet in flight is paired with the node it is on its way to. -/
structure ReliableNetwork (k : ℕ) where
  nodes : Fin k → SmsEchoClient
  inFlight : List (Packet k × Fin k)

/-- A broadcast goes to every node but its origin. -/
def copies (p : Packet k) : List (Packet k × Fin k) :=
  ((List.finRange k).filter fun j => j ≠ p.origin).map fun j => (p, j)

theorem mem_copies {p : Packet k} {x : Packet k × Fin k} :
    x ∈ copies p ↔ x.1 = p ∧ x.2 ≠ p.origin := by
  rw [copies, List.mem_map]
  constructor
  · rintro ⟨j, hj, rfl⟩
    exact ⟨rfl, of_decide_eq_true (List.mem_filter.mp hj).2⟩
  · rintro ⟨rfl, hne⟩
    exact ⟨x.2, List.mem_filter.mpr ⟨List.mem_finRange _, decide_eq_true hne⟩, rfl⟩

theorem copies_ne_nil (hk : 2 ≤ k) (p : Packet k) : copies p ≠ [] := by
  have hnontrivial : Nontrivial (Fin k) := Fin.nontrivial_iff_two_le.mpr hk
  obtain ⟨j, hj⟩ := exists_ne p.origin
  have hmem : (p, j) ∈ copies p := mem_copies.mpr ⟨rfl, hj⟩
  exact List.ne_nil_of_mem hmem

namespace Deployment

def started (D : Deployment k) (rand : Fin k → ℚ) : ReliableNetwork k where
  nodes i := (boot (D.memory i) (D.address i) (D.lists i)).startApplication (rand i)
  inFlight := []

inductive ReliableStep (D : Deployment k) : ReliableNetwork k → ReliableNetwork k → Prop
  | fire {s : ReliableNetwork k} (i : Fin k) {e : Event Delay Action} {g : Garbage}
      {n' : SmsEchoClient} {bytes : Bytes} : e ∈ (s.nodes i).timers.pending →
      (s.nodes i).fire e g = .ok (n', bytes) →
      ReliableStep D s ⟨Function.update s.nodes i n', s.inFlight ++ copies ⟨i, bytes⟩⟩
  | deliver {s : ReliableNetwork k} (i : Fin k) {p : Packet k} {before after : List (Packet k × Fin k)}
      {rand : ℕ → ℚ} {fl : Flow} {n' : SmsEchoClient} : s.inFlight = before ++ (p, i) :: after →
      (s.nodes i).handlePacket (D.datagram p) rand = .ok (fl, n') →
      ReliableStep D s ⟨Function.update s.nodes i n', before ++ after⟩

def ReliablyReachable (D : Deployment k) (s : ReliableNetwork k) : Prop :=
  ∃ rand, Relation.ReflTransGen D.ReliableStep (D.started rand) s

variable {D : Deployment k} {s s' : ReliableNetwork k}

structure Mirrors (s : ReliableNetwork k) (t : Network k) : Prop where
  nodes : t.nodes = s.nodes
  inFlight : ∀ x ∈ s.inFlight, x.1 ∈ t.ether ∧ x.2 ≠ x.1.origin
  sockets : ∀ i, (s.nodes i).mSocket = true

theorem reachable_started (D : Deployment k) (rand : Fin k → ℚ) (S : Finset (Fin k)) :
    D.Reachable ⟨fun i => if i ∈ S then (D.started rand).nodes i else D.initial.nodes i, []⟩ := by
  induction S using Finset.induction_on with
  | empty => exact Relation.ReflTransGen.refl
  | insert i S hi ih =>
    have hstep := ih.tail (.start i (rand i))
    have hnodes : Function.update
        (fun j => if j ∈ S then (D.started rand).nodes j else D.initial.nodes j) i
        ((if i ∈ S then (D.started rand).nodes i else D.initial.nodes i).startApplication
          (rand i)) =
        fun j => if j ∈ insert i S then (D.started rand).nodes j else D.initial.nodes j := by
      funext j
      by_cases hj : j = i
      · subst hj
        rw [Function.update_self, if_neg hi, if_pos (Finset.mem_insert_self j S)]
        rfl
      · have hmem : j ∈ insert i S ↔ j ∈ S := by
          rw [Finset.mem_insert]
          exact or_iff_right hj
        rw [Function.update_of_ne hj]
        exact if_congr hmem.symm rfl rfl
    change D.Reachable ⟨Function.update _ i _, []⟩ at hstep
    rwa [hnodes] at hstep

theorem mirrors_started (D : Deployment k) (rand : Fin k → ℚ) :
    Mirrors (D.started rand) ⟨(D.started rand).nodes, []⟩ where
  nodes := rfl
  inFlight x hx := by
    change x ∈ [] at hx
    simp at hx
  sockets _ := rfl

theorem Mirrors.step {t : Network k} (h : Mirrors s t) (hstep : D.ReliableStep s s') :
    ∃ t', D.Step t t' ∧ Mirrors s' t' := by
  cases hstep with
  | @fire i e g n' bytes he hfire =>
    rw [← h.nodes] at he hfire
    refine ⟨_, .fire i he hfire, by rw [h.nodes], ?_, ?_⟩
    · intro x hx
      rcases List.mem_append.mp hx with hx | hx
      · exact ⟨List.mem_cons_of_mem _ (h.inFlight x hx).1, (h.inFlight x hx).2⟩
      · obtain ⟨hp, hne⟩ := mem_copies.mp hx
        rw [hp]
        exact ⟨List.mem_cons_self .., hne⟩
    · obtain ⟨-, -, seen, data, rfl⟩ := fire_cases hfire
      apply (Function.forall_update_iff s.nodes fun _ n => n.mSocket = true).mpr
      refine ⟨?_, fun j _ => h.sockets j⟩
      rw [h.nodes]
      exact h.sockets i
  | @deliver i p before after rand fl n' hsplit hhandle =>
    have hx := h.inFlight (p, i) (by rw [hsplit]; simp)
    rw [← h.nodes] at hhandle
    have hsocket : (t.nodes i).mSocket = true := by
      rw [h.nodes]
      exact h.sockets i
    refine ⟨_, .deliver i hx.1 hx.2 hsocket hhandle, by rw [h.nodes], ?_, ?_⟩
    · intro y hy
      apply h.inFlight y
      rw [hsplit]
      rcases List.mem_append.mp hy with hy | hy
      · exact List.mem_append_left _ hy
      · exact List.mem_append_right _ (List.mem_cons_of_mem _ hy)
    · obtain ⟨m, -, habsorb, -⟩ := handlePacket_armed hhandle
      have hsame : n'.mSocket = (t.nodes i).mSocket := (absorb_frame habsorb).2.1
      apply (Function.forall_update_iff s.nodes fun _ n => n.mSocket = true).mpr
      exact ⟨hsame.trans hsocket, fun j _ => h.sockets j⟩

theorem ReliablyReachable.exists_mirror (hs : D.ReliablyReachable s) :
    ∃ t, D.Reachable t ∧ Mirrors s t := by
  obtain ⟨rand, hs⟩ := hs
  have hstart : D.Reachable ⟨(D.started rand).nodes, []⟩ := by
    have hall := reachable_started D rand Finset.univ
    simpa using hall
  obtain ⟨t, ht, hmirror⟩ := reaches_simulation (R := Mirrors)
    (fun _ _ _ h hstep => h.step hstep) hs (mirrors_started D rand)
  exact ⟨t, hstart.trans ht, hmirror⟩

structure Punctual (s : ReliableNetwork k) : Prop where
  orderly : ∀ i, (s.nodes i).Orderly
  finite : ∀ i, ∀ e ∈ (s.nodes i).timers.pending, e.delay ≠ ⊤

def Awake (s : ReliableNetwork k) : Prop :=
  s.inFlight ≠ [] ∨ ∃ i, ∃ e ∈ (s.nodes i).timers.pending, e.action = .send

theorem ReliablyReachable.someFull (hs : D.ReliablyReachable s) (hfiles : ∀ i, D.lists i ≠ [])
    (i : Fin k) : 1 ≤ (s.nodes i).getNumOfFullFiles := by
  obtain ⟨t, ht, hmirror⟩ := hs.exists_mirror
  obtain ⟨f, hf⟩ := List.exists_mem_of_ne_nil _ (hfiles i)
  obtain ⟨g, hg, -, hfull⟩ := (sound_of_reachable ht).initial i f hf
  rw [← hmirror.nodes]
  exact List.countP_pos_iff.mpr ⟨g, hg, hfull⟩

theorem ReliablyReachable.countersFit (hs : D.ReliablyReachable s) (i : Fin k) :
    (s.nodes i).CountersFit := by
  obtain ⟨t, ht, hmirror⟩ := hs.exists_mirror
  have hlen := (sound_of_reachable ht).length_le i
  rw [hmirror.nodes] at hlen
  exact countersFit_of_length (hlen.trans_lt (by norm_num))

theorem punctual_started (hfiles : ∀ i, D.lists i ≠ []) (rand : Fin k → ℚ) :
    Punctual (D.started rand) where
  orderly i := orderly_start rfl (rand i)
  finite i e he := by
    have hcount := setFiles_getNumOfFullFiles
      ((construct (D.memory i)).setIPAdress (D.address i)) (D.lists i)
    have hF : 1 ≤ (boot (D.memory i) (D.address i) (D.lists i)).getNumOfFullFiles :=
      hcount ▸ List.length_pos_of_ne_nil (hfiles i)
    have hpending := startApplication_pending (n := boot (D.memory i) (D.address i) (D.lists i)) rfl
      (rand i)
    change e ∈ ((boot (D.memory i) (D.address i) (D.lists i)).startApplication
      (rand i)).timers.pending at he
    rw [hpending, List.mem_singleton] at he
    rw [he]
    exact getTimeAdvertisement_ne_top hF true (rand i)

theorem Punctual.step (h : Punctual s) (hstep : D.ReliableStep s s')
    (hfull : ∀ i, 1 ≤ (s'.nodes i).getNumOfFullFiles) : Punctual s' := by
  cases hstep with
  | @fire i e g n' bytes he hfire =>
    constructor
    · apply (Function.forall_update_iff s.nodes fun _ n => n.Orderly).mpr
      exact ⟨(h.orderly i).fire hfire, fun j _ => h.orderly j⟩
    · obtain ⟨-, -, seen, data, rfl⟩ := fire_cases hfire
      apply (Function.forall_update_iff s.nodes
        fun _ n => ∀ e ∈ n.timers.pending, e.delay ≠ ⊤).mpr
      refine ⟨fun e' he' => ?_, fun j _ => h.finite j⟩
      exact h.finite i e' (Timers.mem_cancel_pending.mp he').1
  | @deliver i p before after rand fl n' hsplit hhandle =>
    constructor
    · apply (Function.forall_update_iff s.nodes fun _ n => n.Orderly).mpr
      exact ⟨(h.orderly i).handle hhandle, fun j _ => h.orderly j⟩
    · have hF := hfull i
      change 1 ≤ (Function.update s.nodes i n' i).getNumOfFullFiles at hF
      rw [Function.update_self] at hF
      apply (Function.forall_update_iff s.nodes
        fun _ n => ∀ e ∈ n.timers.pending, e.delay ≠ ⊤).mpr
      refine ⟨fun e he => ?_, fun j _ => h.finite j⟩
      rcases handlePacket_delays (h.orderly i).disciplined.recorded hhandle e he with
        ⟨-, hdelay | hdelay⟩ | ⟨-, r, hdelay⟩
      · rw [hdelay]
        exact WithTop.zero_ne_top
      · rw [hdelay]
        exact WithTop.coe_ne_top
      · rw [hdelay]
        exact getTimeAdvertisement_ne_top hF false (rand r)

theorem ReliablyReachable.punctual (hs : D.ReliablyReachable s) (hfiles : ∀ i, D.lists i ≠ []) :
    Punctual s := by
  obtain ⟨rand, hs⟩ := hs
  induction hs with
  | refl => exact punctual_started hfiles rand
  | tail hs hstep ih => exact ih.step hstep (someFull ⟨rand, hs.tail hstep⟩ hfiles)

theorem awake_of_step (hk : 2 ≤ k) (h : Punctual s) (hstep : D.ReliableStep s s') : Awake s' := by
  cases hstep with
  | @fire i e g n' bytes he hfire =>
    -- the broadcast is on its way to some other node
    exact Or.inl (List.append_ne_nil_of_right_ne_nil _ (copies_ne_nil hk _))
  | @deliver i p before after rand fl n' hsplit hhandle =>
    -- its receiver has scheduled its next advertisement
    have hnode : Function.update s.nodes i n' i = n' := Function.update_self i n' s.nodes
    have hsend := handlePacket_rearms (h.orderly i).disciplined.recorded hhandle
    rw [← hnode] at hsend
    exact Or.inr ⟨i, hsend⟩

theorem ReliablyReachable.awake (hs : D.ReliablyReachable s) (hk : 2 ≤ k)
    (hfiles : ∀ i, D.lists i ≠ []) : Awake s := by
  obtain ⟨rand, hs⟩ := hs
  cases hs with
  | refl =>
    let i : Fin k := ⟨0, by omega⟩
    have hpending := startApplication_pending (n := boot (D.memory i) (D.address i) (D.lists i)) rfl
      (rand i)
    have hmem := hpending ▸ List.mem_singleton_self _
    exact Or.inr ⟨i, _, hmem, rfl⟩
  | tail hs hstep => exact awake_of_step hk (punctual ⟨rand, hs⟩ hfiles) hstep

theorem ReliablyReachable.handlePacket_ok (hs : D.ReliablyReachable s)
    (haddr : Function.Injective D.address) {x : Packet k × Fin k} (hx : x ∈ s.inFlight)
    (rand : ℕ → ℚ) :
    ∃ fl n', (s.nodes x.2).handlePacket (D.datagram x.1) rand = .ok (fl, n') := by
  obtain ⟨t, ht, hmirror⟩ := hs.exists_mirror
  have hsound := sound_of_reachable ht
  rw [← hmirror.nodes]
  refine hsound.handlePacket_ok (hmirror.inFlight x hx).1 x.2 rand fun r hr hto => ?_
  obtain ⟨m, hm, hsaid⟩ := hsound.ether x.1 (hmirror.inFlight x hx).1
  obtain rfl : .request r = m := Except.ok.inj (hr.symm.trans hm)
  obtain ⟨g, hg, -⟩ := hsound.asked haddr hsaid (hto.trans (hsound.address x.2))
  rw [hg]
  simp

theorem reliably_never_quiet (D : Deployment k) (hk : 2 ≤ k) (hfiles : ∀ i, D.lists i ≠ [])
    {s : ReliableNetwork k} (hs : D.ReliablyReachable s) :
    (s.inFlight ≠ [] ∨
      ∃ i, ∃ e ∈ (s.nodes i).timers.pending, e.action = .send ∧ e.delay ≠ ⊤) ∧
    (Function.Injective D.address → ∀ x ∈ s.inFlight, ∀ rand, ∃ fl n',
      (s.nodes x.2).handlePacket (D.datagram x.1) rand = .ok (fl, n')) ∧
    ∀ i, ∀ e ∈ (s.nodes i).timers.pending, ∀ g, ∃ n' bytes, (s.nodes i).fire e g = .ok (n', bytes) := by
  have hpunctual := hs.punctual hfiles
  refine ⟨?_, fun haddr x hx rand => hs.handlePacket_ok haddr hx rand, fun i e he g => ?_⟩
  · rcases hs.awake hk hfiles with hflight | ⟨i, e, he, ha⟩
    · exact Or.inl hflight
    · exact Or.inr ⟨i, e, he, ha, hpunctual.finite i e he⟩
  · obtain ⟨n', hfire⟩ := fire_eq (hs.countersFit i) (hpunctual.orderly i).disciplined.recorded he
      (hpunctual.orderly i).socket g
    exact ⟨n', _, hfire⟩

theorem pair_broadcasting : ∃ s : ReliableNetwork 2, pair.ReliablyReachable s ∧ s.inFlight ≠ [] := by
  obtain ⟨e, he⟩ := List.exists_mem_of_ne_nil ((boot 0 1 [⟨7, 2⟩]).startApplication 0).timers.pending
    (by decide)
  have horderly := orderly_start (n := boot 0 1 [⟨7, 2⟩]) rfl 0
  have hfits := ReliablyReachable.countersFit (D := pair) ⟨fun _ => 0, .refl⟩ 0
  obtain ⟨n', hfire⟩ :=
    fire_eq hfits horderly.disciplined.recorded he horderly.socket zeroed
  have hstep : pair.ReliableStep (pair.started fun _ => 0) _ := .fire 0 he hfire
  refine ⟨_, ⟨fun _ => 0, Relation.ReflTransGen.single hstep⟩, ?_⟩
  exact List.append_ne_nil_of_right_ne_nil _ (copies_ne_nil le_rfl _)

theorem reliably_never_quiet_witness : ∃ s : ReliableNetwork 2, pair.ReliablyReachable s ∧
    s.inFlight ≠ [] ∧
    (s.inFlight ≠ [] ∨
      ∃ i, ∃ e ∈ (s.nodes i).timers.pending, e.action = .send ∧ e.delay ≠ ⊤) ∧
    ∀ x ∈ s.inFlight, ∀ rand, ∃ fl n',
      (s.nodes x.2).handlePacket (pair.datagram x.1) rand = .ok (fl, n') := by
  obtain ⟨s, hs, hflight⟩ := pair_broadcasting
  obtain ⟨hquiet, hok, -⟩ := reliably_never_quiet pair le_rfl (by decide) hs
  exact ⟨s, hs, hflight, hquiet, hok (by decide)⟩

end Deployment
end SmsEcho
