import SmsEcho.Client.NodeRun

/-! One call of `HandleRead` on all the packets that wait on the socket, against a call for
each of them. The loop has branches that return; what waits behind such a packet stays. -/

namespace SmsEcho
open PartialRun SmsEchoClient

def Message.EndsEarly (n : SmsEchoClient) (sender : Ipv4Address) : Message → Prop
  | .advertisement _ => (n.getFileToRequest sender).isFull = true
  | .request h => h.receiverAddress ≠ n.address
  | .reply h => h.originalRequester = n.address ∧ (n.getFileToRequest sender).isFull = true

namespace SmsEchoClient

/-- The packet is a request for another node, or one after which there is nothing to ask its
sender for, though the node could ask. -/
def EndsEarly (n : SmsEchoClient) (d : Datagram) : Prop :=
  ∃ m n₁, Message.parse d.bytes = .ok m ∧ n.absorb d.sender m = .ok n₁ ∧ m.EndsEarly n₁ d.sender

def readEach (n : SmsEchoClient) (queue : List (Datagram × (ℕ → ℚ))) : Except Fault SmsEchoClient :=
  run (fun n packet => (n.handleRead [packet]).map Prod.fst) n queue

def NoneEndsEarly (n : SmsEchoClient) (queue : List (Datagram × (ℕ → ℚ))) : Prop :=
  ∀ before packet after, queue = before ++ packet :: after → after ≠ [] →
    ∀ n', n.readEach before = .ok n' → ¬ n'.EndsEarly packet.1

variable {n n' : SmsEchoClient} {packet : Datagram × (ℕ → ℚ)}
  {queue : List (Datagram × (ℕ → ℚ))} {fl : Flow}

theorem nextRequest_eq_none {sender : Ipv4Address} :
    n.nextRequest sender = none ↔ (n.getFileToRequest sender).isFull = true := by
  unfold nextRequest
  split_ifs with hfull
  · exact iff_of_true rfl hfull
  · exact iff_of_false (by simp) hfull

theorem flow_eq_ret_iff {sender : Ipv4Address} {m : Message} :
    n.flow m (n.followUp sender m) = .ret ↔ m.EndsEarly n sender := by
  cases m with
  | advertisement ps =>
    rw [followUp, Message.EndsEarly, ← nextRequest_eq_none]
    cases n.nextRequest sender <;> simp [flow]
  | request h =>
    rw [followUp, Message.EndsEarly]
    by_cases haddr : h.receiverAddress = n.address
    · simp [flow, haddr]
    · simp [flow, haddr]
  | reply h =>
    rw [followUp, Message.EndsEarly, ← nextRequest_eq_none]
    by_cases haddr : h.originalRequester = n.address
    · rw [if_pos haddr]
      cases n.nextRequest sender <;> simp [flow, haddr]
    · simp [flow, haddr]

theorem handlePacket_flow {d : Datagram} {rand : ℕ → ℚ}
    (h : n.handlePacket d rand = .ok (fl, n')) : fl = .ret ↔ n.EndsEarly d := by
  obtain ⟨m, hm, habsorb, -⟩ := handlePacket_armed h
  rw [handlePacket_eq, hm, ok_bind] at h
  obtain ⟨n₁, -, h⟩ := bind_eq_ok.mp h
  obtain ⟨rfl, rfl⟩ := Prod.mk.inj (Except.ok.inj h)
  -- the timers have no part in what there is to ask for
  have hsame : m.EndsEarly n₁ d.sender ↔
      m.EndsEarly (SmsEchoClient.withTimers (n₁.respond d.sender rand m).2 n.timers) d.sender := by
    cases m <;> exact Iff.rfl
  rw [flow_eq_ret_iff, hsame]
  constructor
  · intro hends
    exact ⟨m, _, hm, habsorb, hends⟩
  · rintro ⟨m', n₂, hm', habsorb', hends⟩
    obtain rfl : m = m' := Except.ok.inj (hm.symm.trans hm')
    obtain rfl := Except.ok.inj (habsorb.symm.trans habsorb')
    exact hends

theorem handleRead_cons_ret (h : n.handlePacket packet.1 packet.2 = .ok (.ret, n')) :
    n.handleRead (packet :: queue) = .ok (n', queue) := by
  rw [handleRead, h]
  rfl

theorem handleRead_cons_next (h : n.handlePacket packet.1 packet.2 = .ok (.next, n')) :
    n.handleRead (packet :: queue) = n'.handleRead queue := by
  rw [handleRead, h]
  rfl

theorem handleRead_singleton (h : n.handlePacket packet.1 packet.2 = .ok (fl, n')) :
    n.handleRead [packet] = .ok (n', []) := by
  cases fl with
  | ret => exact handleRead_cons_ret h
  | next => exact handleRead_cons_next h

theorem handleRead_singleton_eq_ok :
    (n.handleRead [packet]).map Prod.fst = .ok n' ↔
      ∃ fl, n.handlePacket packet.1 packet.2 = .ok (fl, n') := by
  cases h : n.handlePacket packet.1 packet.2 with
  | error e =>
    rw [handleRead, h]
    simp [Except.map]
  | ok r =>
    obtain ⟨fl, n₁⟩ := r
    rw [handleRead_singleton h]
    simp [Except.map]

theorem readEach_cons_eq_ok {t : SmsEchoClient} : n.readEach (packet :: queue) = .ok t ↔
    ∃ fl n', n.handlePacket packet.1 packet.2 = .ok (fl, n') ∧ n'.readEach queue = .ok t := by
  unfold readEach
  rw [run_cons_eq_ok]
  simp only [handleRead_singleton_eq_ok]
  constructor
  · rintro ⟨n', ⟨fl, hp⟩, ht⟩
    exact ⟨fl, n', hp, ht⟩
  · rintro ⟨fl, n', hp, ht⟩
    exact ⟨n', ⟨fl, hp⟩, ht⟩

theorem noneEndsEarly_singleton : n.NoneEndsEarly [packet] := by
  intro before p after hsplit hne
  cases before with
  | nil =>
    rw [List.nil_append] at hsplit
    exact absurd (List.cons.inj hsplit).2.symm hne
  | cons b before => exact absurd (List.cons.inj hsplit).2 (by simp)

theorem noneEndsEarly_cons (h : n.handlePacket packet.1 packet.2 = .ok (fl, n'))
    (hne : queue ≠ []) :
    n.NoneEndsEarly (packet :: queue) ↔ ¬ n.EndsEarly packet.1 ∧ n'.NoneEndsEarly queue := by
  constructor
  · intro hnone
    refine ⟨hnone [] packet queue rfl hne n rfl, ?_⟩
    intro before p after hsplit hafter t ht
    apply hnone (packet :: before) p after _ hafter t
    · exact readEach_cons_eq_ok.mpr ⟨fl, n', h, ht⟩
    · rw [hsplit]
      rfl
  · rintro ⟨hhead, htail⟩ before p after hsplit hafter t ht
    cases before with
    | nil =>
      obtain ⟨rfl, rfl⟩ := List.cons.inj hsplit
      obtain rfl : n = t := Except.ok.inj ht
      exact hhead
    | cons b before =>
      obtain ⟨rfl, rfl⟩ := List.cons.inj hsplit
      obtain ⟨fl', n₁, hp, ht⟩ := readEach_cons_eq_ok.mp ht
      obtain ⟨-, rfl⟩ := Prod.mk.inj (Except.ok.inj (h.symm.trans hp))
      exact htail before p after rfl hafter t ht

theorem handleRead_takes {t : SmsEchoClient} (h : n.readEach queue = .ok t) :
    ∃ taken rest n', queue = taken ++ rest ∧ n.handleRead queue = .ok (n', rest) ∧
      n.readEach taken = .ok n' ∧ n'.readEach rest = .ok t := by
  induction queue generalizing n with
  | nil => exact ⟨[], [], n, rfl, rfl, rfl, h⟩
  | cons packet queue ih =>
    obtain ⟨fl, n₁, hp, ht⟩ := readEach_cons_eq_ok.mp h
    cases fl with
    | ret =>
      refine ⟨[packet], queue, n₁, rfl, handleRead_cons_ret hp, ?_, ht⟩
      exact readEach_cons_eq_ok.mpr ⟨_, _, hp, rfl⟩
    | next =>
      obtain ⟨taken, rest, n', rfl, hread, htaken, hrest⟩ := ih ht
      refine ⟨packet :: taken, rest, n', rfl, ?_, ?_, hrest⟩
      · rw [handleRead_cons_next hp, hread]
      · exact readEach_cons_eq_ok.mpr ⟨_, _, hp, htaken⟩

/-- One call handles the whole queue, and as a call for each packet would, exactly when no
packet but the last ends the loop early. -/
theorem handleRead_drains_iff {t : SmsEchoClient} (h : n.readEach queue = .ok t) :
    n.handleRead queue = .ok (t, []) ↔ n.NoneEndsEarly queue := by
  induction queue generalizing n with
  | nil =>
    obtain rfl : n = t := Except.ok.inj h
    refine iff_of_true rfl ?_
    intro before p after hsplit
    exact absurd hsplit (by simp)
  | cons packet queue ih =>
    obtain ⟨fl, n₁, hp, ht⟩ := readEach_cons_eq_ok.mp h
    by_cases hq : queue = []
    · subst hq
      obtain rfl : n₁ = t := Except.ok.inj ht
      exact iff_of_true (handleRead_singleton hp) noneEndsEarly_singleton
    · rw [noneEndsEarly_cons hp hq, ← handlePacket_flow hp, ← ih ht]
      cases fl with
      | ret =>
        rw [handleRead_cons_ret hp]
        simp [hq]
      | next =>
        rw [handleRead_cons_next hp]
        simp

theorem handleRead_drains_iff_witness : ∃ t,
    listener.readEach [(firstHeard, fun _ => 0), (firstHeard, fun _ => 0)] = .ok t ∧
      listener.handleRead [(firstHeard, fun _ => 0), (firstHeard, fun _ => 0)] = .ok (t, []) := by
  obtain ⟨fl, hfirst⟩ := listener_hears
  have hsecond := handlePacket_of_absorb (n := informed) (d := firstHeard) (fun _ => 0)
    parse_firstHeard rfl
  have hboth : listener.readEach [(firstHeard, fun _ => 0), (firstHeard, fun _ => 0)] = .ok _ :=
    readEach_cons_eq_ok.mpr ⟨_, _, hfirst, readEach_cons_eq_ok.mpr ⟨_, _, hsecond, rfl⟩⟩
  refine ⟨_, hboth, (handleRead_drains_iff hboth).mpr ?_⟩
  refine (noneEndsEarly_cons hfirst (by simp)).mpr ⟨?_, noneEndsEarly_singleton⟩
  -- after the first packet there is something to ask node 2 for
  rintro ⟨m, n₁, hm, habsorb, hends⟩
  obtain rfl := Except.ok.inj (parse_firstHeard.symm.trans hm)
  obtain rfl := Except.ok.inj habsorb
  have hfull : (informed.getFileToRequest 2).isFull = true := hends
  rw [informed_choice.1] at hfull
  exact absurd hfull (by decide)

/-- Node 3 asks node 5 for a chunk of file 7. -/
def askedElsewhere : Datagram := ⟨3, [1, 0, 0, 0, 5, 0, 0, 0, 7, 0, 0, 0, 0, 0, 0, 0]⟩

theorem handleRead_leaves_advertisement : ∃ n' t,
    listener.readEach [(askedElsewhere, fun _ => 0), (firstHeard, fun _ => 0)] = .ok t ∧
      listener.handleRead [(askedElsewhere, fun _ => 0), (firstHeard, fun _ => 0)] =
        .ok (n', [(firstHeard, fun _ => 0)]) ∧
      2 ∈ t.seenNodes ∧ 2 ∉ n'.seenNodes := by
  have hm : Message.parse askedElsewhere.bytes = .ok (.request ⟨1, 5, 7, 0⟩) := by decide
  have hfirst := handlePacket_of_absorb (n := listener) (d := askedElsewhere) (fun _ => 0) hm rfl
  have hsecond := handlePacket_of_absorb
    (n := (listener.cancelAllEvents.respond 3 (fun _ => 0) (.request ⟨1, 5, 7, 0⟩)).2)
    (d := firstHeard) (fun _ => 0) parse_firstHeard rfl
  have hboth : listener.readEach [(askedElsewhere, fun _ => 0), (firstHeard, fun _ => 0)] = .ok _ :=
    readEach_cons_eq_ok.mpr ⟨_, _, hfirst, readEach_cons_eq_ok.mpr ⟨_, _, hsecond, rfl⟩⟩
  exact ⟨_, _, hboth, handleRead_cons_ret hfirst, by decide, by decide⟩

end SmsEchoClient
end SmsEcho
