import SmsEcho.Client.EventDiscipline

/-! `StopApplication` closes the sockets and cancels the Send event; what it leaves pending. -/

namespace SmsEcho
open ByteBuffer PartialRun LabelledTrace SmsEchoClient

namespace SmsEchoClient

theorem ownSlots_start (memory : ℕ) (address : Ipv4Address) (l : List FileSMS) (rand : ℚ) :
    ((boot memory address l).startApplication rand).timers.OwnSlots :=
  Timers.ownSlots_unset.schedule _ _

theorem ownSlots_trace {memory : ℕ} {address : Ipv4Address} {l : List FileSMS} {rand : ℚ}
    {tr : List Observation} {n : SmsEchoClient}
    (h : NodeTrace ((boot memory address l).startApplication rand) tr n) : n.timers.OwnSlots := by
  refine h.invariant (P := fun _ n => n.timers.OwnSlots) (ownSlots_start memory address l rand) ?_
  intro tr n o n' hown hstep
  cases hstep with
  | handle hstep =>
    obtain ⟨m, delay, sendDelay, -, -, htimers⟩ := handlePacket_cases hstep
    rw [htimers]
    exact hown.cancelAllEvents.arm _ _ _
  | fire he hstep =>
    obtain ⟨-, -, seen, data, rfl⟩ := fire_cases hstep
    exact hown.cancel _

/-- The stopped node still has its request and reply events, and only these. -/
theorem mem_stopApplication_pending {n : SmsEchoClient} (hr : n.timers.Recorded)
    (ho : n.timers.OwnSlots) {e : Event Delay Action} :
    e ∈ n.stopApplication.timers.pending ↔ e ∈ n.timers.pending ∧ e.action.kind ≠ .send :=
  TimerQueue.mem_cancel_slot hr ho (k := .send)

theorem kind_eq_send_iff {a : Action} : a.kind = .send ↔ a = .send := by
  cases a <;> simp [Action.kind]

theorem fire_of_closed {n : SmsEchoClient} {e : Event Delay Action} (hclosed : n.mSocketSend = false)
    (hne : e.action ≠ .send) (g : Garbage) : n.fire e g = .error .nullSocket := by
  rw [fire]
  cases ha : e.action with
  | send => exact absurd ha hne
  | requestPacket sender f => simp [runAction, requestPacket, hclosed]
  | reply header size => simp [runAction, reply, hclosed]

def OnlySendPending (n : SmsEchoClient) : Prop := ∀ e ∈ n.timers.pending, e.action = .send

/-- After `StopApplication` no event of the node is left, and none uses the closed socket. -/
structure CleanShutdown (n : SmsEchoClient) : Prop where
  nothingLeft : n.stopApplication.timers.pending = []
  socketUnused : ∀ e ∈ n.stopApplication.timers.pending, ∀ g,
    n.stopApplication.fire e g ≠ .error .nullSocket

theorem nothingLeft_iff {n : SmsEchoClient} (hr : n.timers.Recorded) (ho : n.timers.OwnSlots) :
    n.stopApplication.timers.pending = [] ↔ OnlySendPending n := by
  rw [List.eq_nil_iff_forall_not_mem]
  refine forall_congr' fun e => ?_
  rw [mem_stopApplication_pending hr ho, ne_eq, kind_eq_send_iff]
  tauto

theorem socketUnused_iff {n : SmsEchoClient} (hr : n.timers.Recorded) (ho : n.timers.OwnSlots) :
    (∀ e ∈ n.stopApplication.timers.pending, ∀ g,
      n.stopApplication.fire e g ≠ .error .nullSocket) ↔ OnlySendPending n := by
  constructor
  · intro hunused e he
    by_contra hne
    have hleft := (mem_stopApplication_pending hr ho).mpr ⟨he, mt kind_eq_send_iff.mp hne⟩
    exact hunused e hleft zeroed (fire_of_closed rfl hne zeroed)
  · intro honly e he
    rw [(nothingLeft_iff hr ho).mpr honly] at he
    simp at he

end SmsEchoClient

theorem Ledger.onlySendPending_iff {start : List (Event Delay Action)} {tr : List Observation}
    {n : SmsEchoClient} (h : Ledger start tr n) :
    OnlySendPending n ↔ ∀ e ∈ scheduledLast start tr, e.action ≠ .send →
      e ∈ (sinceHandled tr).filterMap Observation.fired := by
  constructor
  · intro honly e he hne
    rcases List.mem_append.mp (h.balance.mem_iff.mpr he) with hfired | hpending
    · exact hfired
    · exact absurd (honly e hpending) hne
  · intro hsent e he
    by_contra hne
    have hfired := hsent e (h.mem_scheduledLast he) hne
    -- an event is not both fired and pending
    have hnodup := h.balance.nodup_iff.mpr (List.Nodup.of_map _ h.kinds)
    exact (List.nodup_append.mp hnodup).2.2 e hfired e he rfl

theorem cleanShutdown_iff (memory : ℕ) (address : Ipv4Address) (l : List FileSMS) (rand : ℚ)
    {tr : List Observation} {n : SmsEchoClient}
    (h : NodeTrace ((boot memory address l).startApplication rand) tr n) :
    (CleanShutdown n ↔ OnlySendPending n) ∧
      (OnlySendPending n ↔
        ∀ e ∈ scheduledLast ((boot memory address l).startApplication rand).timers.pending tr,
          e.action ≠ .send → e ∈ (sinceHandled tr).filterMap Observation.fired) := by
  have hl := ledger_trace rfl h
  have hr := hl.orderly.disciplined.recorded
  have ho := ownSlots_trace h
  refine ⟨⟨fun hclean => (nothingLeft_iff hr ho).mp hclean.nothingLeft, fun honly => ?_⟩,
    hl.onlySendPending_iff⟩
  exact ⟨(nothingLeft_iff hr ho).mpr honly, (socketUnused_iff hr ho).mpr honly⟩

theorem informed_asked : ∃ e ∈ informed.timers.pending, ∃ n bytes,
    informed.fire e zeroed = .ok (n, bytes) ∧ e.action.kind = .request ∧ OnlySendPending n := by
  obtain ⟨e, he, n, bytes, hfire, hk, -⟩ := informed_request
  refine ⟨e, he, n, bytes, hfire, hk, fun e' he' => ?_⟩
  obtain ⟨-, -, seen, data, rfl⟩ := fire_cases hfire
  obtain ⟨hmem, hne⟩ := Timers.mem_cancel_pending.mp he'
  have hkinds : ∀ e ∈ informed.timers.pending, e.action.kind = .send ∨ e.action.kind = .request := by
    decide +kernel
  refine kind_eq_send_iff.mp ((hkinds e' hmem).resolve_right fun hrequest => hne ?_)
  have hsame := informed_orderly.disciplined.recorded.eq_of_kind_eq hmem he (hrequest.trans hk.symm)
  exact congrArg (fun x : Event Delay Action => some x.uid) hsame

theorem cleanShutdown_iff_witness : ¬ CleanShutdown informed ∧
    ∃ e tr n bytes, NodeTrace listener (.emitted e bytes :: tr) n ∧ e.action.kind = .request ∧
      CleanShutdown n := by
  constructor
  · intro hclean
    obtain ⟨e, he, ha⟩ := informed_pending
    have honly := (cleanShutdown_iff 0 1 [⟨7, 2⟩] 0 listener_trace).1.mp hclean e he
    rw [ha] at honly
    exact absurd honly (by simp)
  · obtain ⟨e, he, n, bytes, hfire, hk, honly⟩ := informed_asked
    have htr := listener_trace.cons (.fire he hfire)
    exact ⟨e, _, n, bytes, htr, hk, (cleanShutdown_iff 0 1 [⟨7, 2⟩] 0 htr).1.mpr honly⟩

/-- Stopped between hearing an advertisement and asking for a chunk, a node asks on a closed
socket. -/
theorem not_cleanShutdown_informed :
    ∃ tr, NodeTrace listener tr informed ∧ ¬ CleanShutdown informed ∧
      ∃ e ∈ informed.stopApplication.timers.pending, ∀ g,
        informed.stopApplication.fire e g = .error .nullSocket := by
  obtain ⟨e, he, ha⟩ := informed_pending
  have hr := informed_orderly.disciplined.recorded
  have ho : informed.timers.OwnSlots := ownSlots_trace listener_trace
  have hleft := (mem_stopApplication_pending hr ho).mpr ⟨he, by rw [ha]; simp [Action.kind]⟩
  refine ⟨_, listener_trace, fun hclean => ?_, e, hleft, fun g => ?_⟩
  · rw [hclean.nothingLeft] at hleft
    simp at hleft
  · exact fire_of_closed rfl (by rw [ha]; simp) g

end SmsEcho
