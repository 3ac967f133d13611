import SmsEcho.General.BlockLedger
import SmsEcho.Client.EventDiscipline
import SmsEcho.Client.NodeHistory

/-! The headers that answers are scheduled with. `HandleRead` allocates one for each answer, and
the answer frees it; a header whose answer is cancelled is never freed. -/

namespace SmsEcho
open ByteBuffer PartialRun LabelledTrace SmsEchoClient

/-- `argument uid` is the pointer that the event `uid` was scheduled with. -/
structure Headers where
  ledger : BlockLedger
  argument : ℕ → ℕ

/-- `HandleRead` calls `malloc` where it schedules an answer, and `reply` ends with `free`. -/
def Headers.step (h : Headers) : Observation → Option Headers
  | .handled _ scheduled =>
    match scheduled.find? fun e => e.action.kind = .reply with
    | some e => some ⟨h.ledger.alloc.2, Function.update h.argument e.uid h.ledger.alloc.1⟩
    | none => some h
  | .emitted e _ =>
    if e.action.kind = .reply then
      (h.ledger.free (h.argument e.uid)).map fun ledger => ⟨ledger, h.argument⟩
    else some h

def Headers.run : List (SmsEchoClient × Observation) → Option Headers
  | [] => some ⟨.empty, fun _ => 0⟩
  | x :: hist => (Headers.run hist).bind fun h => h.step x.2

namespace SmsEchoClient

def pendingKinds (n : SmsEchoClient) : List EventKind :=
  n.timers.pending.map fun e => e.action.kind

def cancelsAnswer (x : SmsEchoClient × Observation) : Bool :=
  x.2.isHandled && decide (.reply ∈ x.1.pendingKinds)

structure HeadersOwned (hist : List (SmsEchoClient × Observation)) (n : SmsEchoClient)
    (h : Headers) : Prop where
  argument : ∀ e ∈ n.timers.pending, e.action.kind = .reply → h.argument e.uid ∈ h.ledger.live
  balance : h.ledger.live.card = n.pendingKinds.count .reply + hist.countP cancelsAnswer

variable {hist : List (SmsEchoClient × Observation)} {n n' : SmsEchoClient} {h : Headers}

theorem Orderly.count_reply (hn : n.Orderly) :
    n.pendingKinds.count .reply = if .reply ∈ n.pendingKinds then 1 else 0 :=
  hn.disciplined.recorded.kinds_nodup.count

theorem HeadersOwned.left_behind (hown : HeadersOwned hist n h) (hn : n.Orderly) (d : Datagram)
    (scheduled : List (Event Delay Action)) :
    ((n, .handled d scheduled) :: hist).countP cancelsAnswer = h.ledger.live.card := by
  have hcancels : cancelsAnswer (n, .handled d scheduled) = decide (.reply ∈ n.pendingKinds) := rfl
  rw [List.countP_cons, hcancels, hown.balance, hn.count_reply]
  simp only [decide_eq_true_eq]
  exact Nat.add_comm ..

theorem HeadersOwned.handle (hown : HeadersOwned hist n h) (hn : n.Orderly) {d : Datagram}
    {rand : ℕ → ℚ} {fl : Flow} (hstep : n.handlePacket d rand = .ok (fl, n')) :
    ∃ h', h.step (.handled d (newEvents n n')) = some h' ∧
      HeadersOwned ((n, .handled d (newEvents n n')) :: hist) n' h' := by
  have hn' := hn.handle hstep
  have hleft := hown.left_behind hn d (newEvents n n')
  have hnew := newEvents_eq_pending hn.disciplined.recorded hstep
  cases hfind : (newEvents n n').find? fun e => e.action.kind = .reply with
  | none =>
    have hnone : ∀ e ∈ n'.timers.pending, e.action.kind ≠ .reply := by
      intro e he hreply
      rw [hnew] at hfind
      exact absurd (List.find?_eq_none.mp hfind e he) (by simp [hreply])
    have hkinds : .reply ∉ n'.pendingKinds := by
      intro hmem
      obtain ⟨e, he, hreply⟩ := List.mem_map.mp hmem
      exact hnone e he hreply
    refine ⟨h, by rw [Headers.step, hfind], fun e he hreply => absurd hreply (hnone e he), ?_⟩
    rw [hleft, hn'.count_reply, if_neg hkinds, Nat.zero_add]
  | some e =>
    have hreply : e.action.kind = .reply := by simpa using List.find?_some hfind
    have he : e ∈ n'.timers.pending := hnew ▸ List.mem_of_find?_eq_some hfind
    refine ⟨_, by rw [Headers.step, hfind], fun e' he' hreply' => ?_, ?_⟩
    · obtain rfl : e' = e :=
        hn'.disciplined.recorded.eq_of_kind_eq he' he (hreply'.trans hreply.symm)
      simp only [Function.update_self]
      exact h.ledger.alloc_fst_mem
    · have hkinds : .reply ∈ n'.pendingKinds := List.mem_map.mpr ⟨e, he, hreply⟩
      rw [hleft, hn'.count_reply, if_pos hkinds, h.ledger.card_alloc, Nat.add_comm]

theorem HeadersOwned.fire (hown : HeadersOwned hist n h) (hn : n.Orderly)
    {e : Event Delay Action} {g : Garbage} {bytes : Bytes} (he : e ∈ n.timers.pending)
    (hstep : n.fire e g = .ok (n', bytes)) : ∃ h', h.step (.emitted e bytes) = some h' ∧
      HeadersOwned ((n, .emitted e bytes) :: hist) n' h' := by
  obtain ⟨-, -, seen, data, heq⟩ := fire_cases hstep
  have hpending : n'.timers = n.timers.cancel (some e.uid) := by rw [heq]
  have hcancels : ((n, Observation.emitted e bytes) :: hist).countP cancelsAnswer =
      hist.countP cancelsAnswer := List.countP_cons_of_neg (by simp [cancelsAnswer, Observation.isHandled])
  -- the event that fires is taken off
  have hcount : n.pendingKinds.count .reply =
      n'.pendingKinds.count .reply + if e.action.kind = .reply then 1 else 0 := by
    have hperm := (Timers.cons_cancel_perm he).map fun e => e.action.kind
    rw [← hpending, List.map_cons] at hperm
    rw [pendingKinds, ← hperm.count_eq, List.count_cons]
    simp only [beq_iff_eq]
    rfl
  have hold : ∀ e' ∈ n'.timers.pending, e' ∈ n.timers.pending ∧ e'.uid ≠ e.uid := by
    intro e' he'
    rw [hpending] at he'
    obtain ⟨hmem, hne⟩ := Timers.mem_cancel_pending.mp he'
    exact ⟨hmem, fun huid => hne (congrArg some huid)⟩
  by_cases hreply : e.action.kind = .reply
  · obtain ⟨ledger, hfree, hcard⟩ := BlockLedger.exists_free (hown.argument e he hreply)
    refine ⟨⟨ledger, h.argument⟩, by rw [Headers.step, if_pos hreply, hfree]; rfl, ?_, ?_⟩
    · intro e' he' hreply'
      obtain ⟨hmem, hne⟩ := hold e' he'
      have hsame := hn.disciplined.recorded.eq_of_kind_eq hmem he (hreply'.trans hreply.symm)
      exact absurd (congrArg Event.uid hsame) hne
    · have hbalance := hown.balance
      rw [hcount, if_pos hreply] at hbalance
      change ledger.live.card = _
      rw [hcancels]
      omega
  · refine ⟨h, by rw [Headers.step, if_neg hreply], ?_, ?_⟩
    · exact fun e' he' hreply' => hown.argument e' (hold e' he').1 hreply'
    · rw [hcancels, hown.balance, hcount, if_neg hreply, Nat.add_zero]

end SmsEchoClient

/-- No header is freed twice, or used after it has been freed. At any time that of the pending
answer is live, if there is one, and besides it one for each packet that cancelled an answer. -/
theorem headers_accounted_for (memory : ℕ) (address : Ipv4Address) (l : List FileSMS) (rand : ℚ)
    {hist : List (SmsEchoClient × Observation)} {n : SmsEchoClient}
    (hrun : NodeHistory ((boot memory address l).startApplication rand) hist n) :
    ∃ h, Headers.run hist = some h ∧
      (∀ e ∈ n.timers.pending, e.action.kind = .reply → h.argument e.uid ∈ h.ledger.live) ∧
      h.ledger.live.card = n.pendingKinds.count .reply + hist.countP cancelsAnswer := by
  have howned : n.Orderly ∧ ∃ h, Headers.run hist = some h ∧ HeadersOwned hist n h := by
    induction hrun with
    | nil =>
      refine ⟨orderly_start rfl rand, _, rfl, fun e he hreply => ?_, ?_⟩
      · rw [send_of_mem_startApplication rfl rand e he] at hreply
        exact absurd hreply (by decide)
      · rw [pendingKinds, startApplication_pending rfl]
        rfl
    | @cons hist n n' x _ hx ih =>
      obtain ⟨hn, h, hh, hown⟩ := ih
      obtain ⟨m, o⟩ := x
      obtain ⟨hsame, hstep⟩ := hx
      change m = n at hsame
      subst hsame
      change NodeStep m o n' at hstep
      cases hstep with
      | handle hhandle =>
        obtain ⟨h', hh', hown'⟩ := hown.handle hn hhandle
        exact ⟨hn.handle hhandle, h', by rw [Headers.run, hh]; exact hh', hown'⟩
      | fire he hfire =>
        obtain ⟨h', hh', hown'⟩ := hown.fire hn he hfire
        exact ⟨hn.fire hfire, h', by rw [Headers.run, hh]; exact hh', hown'⟩
  obtain ⟨-, h, hh, hown⟩ := howned
  exact ⟨h, hh, hown.argument, hown.balance⟩

/-- Node 2 asks the listener for its file. -/
def demand : Datagram := ⟨2, [1, 0, 0, 0, 1, 0, 0, 0, 7, 0, 0, 0, 0, 0, 0, 0]⟩

def answering (n : SmsEchoClient) : SmsEchoClient :=
  (n.cancelAllEvents.respond 2 (fun _ => 0) (.request ⟨1, 1, 7, 0⟩)).2

theorem handlePacket_demand {n : SmsEchoClient}
    (h : n.cancelAllEvents.absorb 2 (.request ⟨1, 1, 7, 0⟩) = .ok n.cancelAllEvents) :
    ∃ fl, n.handlePacket demand (fun _ => 0) = .ok (fl, answering n) :=
  ⟨_, handlePacket_of_absorb (fun _ => 0) (by decide) h⟩

theorem headers_accounted_for_witness : ∃ hist n h, NodeHistory listener hist n ∧
    Headers.run hist = some h ∧ n.pendingKinds.count .reply = 1 ∧ h.ledger.live.card = 2 := by
  obtain ⟨fl, hfirst⟩ := handlePacket_demand (n := listener) rfl
  obtain ⟨fl', hsecond⟩ := handlePacket_demand (n := answering listener) rfl
  have hrun : NodeHistory listener
      [(answering listener, .handled demand (newEvents (answering listener) (answering (answering listener)))),
        (listener, .handled demand (newEvents listener (answering listener)))]
      (answering (answering listener)) :=
    .cons (.cons .nil ⟨rfl, .handle hfirst (by decide)⟩) ⟨rfl, .handle hsecond (by decide)⟩
  obtain ⟨h, hh, -, hcard⟩ := headers_accounted_for 0 1 [⟨7, 2⟩] 0 hrun
  exact ⟨_, _, h, hrun, hh, by decide, hcard.trans (by decide)⟩

end SmsEcho
