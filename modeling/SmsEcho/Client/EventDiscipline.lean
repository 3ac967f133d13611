import SmsEcho.Client.NodeRun

/-! The events of a started node over a whole run: at most one of each kind, each in its
slot, and each owed to the packet handled last. -/

namespace SmsEcho
open ByteBuffer PartialRun LabelledTrace SmsEchoClient

namespace Observation

def fired : Observation → Option (Event Delay Action)
  | handled .. => none
  | emitted e _ => some e

end Observation

def lastHandled : List Observation → Option Observation := lastMarked Observation.isHandled

def sinceHandled : List Observation → List Observation := since Observation.isHandled

def scheduledLast (start : List (Event Delay Action)) (tr : List Observation) :
    List (Event Delay Action) :=
  match lastHandled tr with
  | some (.handled _ scheduled) => scheduled
  | _ => start

/-- What a packet has to do with the events its handler schedules at the node at `address`:
a request event asks the packet's sender, a reply event answers the request it was. -/
structure Answers (address : Ipv4Address) (d : Datagram) (m : Message)
    (scheduled : List (Event Delay Action)) : Prop where
  parsed : Message.parse d.bytes = .ok m
  request : ∀ e ∈ scheduled, ∀ peer f, e.action = .requestPacket peer f →
    peer = d.sender ∧ m.Invites address
  reply : ∀ e ∈ scheduled, ∀ h size, e.action = .reply h size →
    ∃ q, m = .request q ∧ q.receiverAddress = address ∧ h.originalRequester = d.sender ∧
      h.fileId = q.fileId ∧ h.chunkId = q.chunkId

/-- The accounts of a run: what the last packet scheduled is what has fired since and what
is still pending. -/
structure Ledger (start : List (Event Delay Action)) (tr : List Observation)
    (n : SmsEchoClient) : Prop where
  orderly : n.Orderly
  kinds : ((scheduledLast start tr).map fun e => e.action.kind).Nodup
  balance : ((sinceHandled tr).filterMap Observation.fired ++ n.timers.pending).Perm
    (scheduledLast start tr)
  answers : ∀ d scheduled, lastHandled tr = some (.handled d scheduled) →
    ∃ m, Answers n.address d m scheduled
  faithful : ∀ e bytes, .emitted e bytes ∈ tr →
    ∀ m, Message.parse bytes = .ok m → m.kind = e.action.kind

namespace SmsEchoClient

theorem getFileById_fst_mId {n : SmsEchoClient} {id : UInt32} (h : n.entry id ≠ none) :
    (n.getFileById id).1.mId = id := by
  obtain ⟨f, hf⟩ := Option.ne_none_iff_exists'.mp h
  have hid := KeyedList.key_of_lookup hf
  rw [(getFileById_of_entry_some hf).1]
  exact hid

theorem newEvents_eq_pending {n n' : SmsEchoClient} {d : Datagram} {rand : ℕ → ℚ} {fl : Flow}
    (hrec : n.timers.Recorded) (h : n.handlePacket d rand = .ok (fl, n')) :
    newEvents n n' = n'.timers.pending := by
  obtain ⟨m, delay, sendDelay, -, hp⟩ := handlePacket_pending hrec h
  refine List.filter_eq_self.mpr fun e he => decide_eq_true ?_
  rw [hp, List.mem_append, List.mem_map, List.mem_singleton] at he
  rcases he with ⟨a, -, rfl⟩ | rfl
  · exact le_rfl
  · exact Nat.le_add_right ..

theorem handlePacket_answers {n n' : SmsEchoClient} {d : Datagram} {rand : ℕ → ℚ} {fl : Flow}
    (hrec : n.timers.Recorded) (h : n.handlePacket d rand = .ok (fl, n')) :
    ∃ m, Answers n'.address d m n'.timers.pending := by
  obtain ⟨m, hm, hevents⟩ := handlePacket_events hrec h
  refine ⟨m, hm, ?_, ?_⟩
  · intro e he peer f ha
    have hrequest := (hevents e he).resolve_left (by simp [ha])
    rw [ha] at hrequest
    obtain ⟨rfl, hinvites, -, -⟩ := followUp_eq_request hrequest
    exact ⟨rfl, hinvites⟩
  · intro e he hd size ha
    have hreply := (hevents e he).resolve_left (by simp [ha])
    rw [ha] at hreply
    obtain ⟨q, rfl, haddr, rfl⟩ := followUp_eq_reply hreply
    have hfile := getFileById_fst_mId (handlePacket_known hm h haddr)
    exact ⟨q, rfl, haddr, rfl, hfile, rfl⟩

theorem ledger_start {n : SmsEchoClient} (h : n.timers.pending = []) (rand : ℚ) :
    Ledger (n.startApplication rand).timers.pending [] (n.startApplication rand) := by
  refine ⟨orderly_start h rand, ?_, List.Perm.refl _, ?_, by simp⟩
  · change ((n.startApplication rand).timers.pending.map _).Nodup
    rw [startApplication_pending h]
    simp
  · intro d scheduled hlast
    exact absurd hlast (by simp [lastHandled, lastMarked])

end SmsEchoClient

theorem Ledger.handle {start : List (Event Delay Action)} {tr : List Observation}
    {n n' : SmsEchoClient} (h : Ledger start tr n) {d : Datagram} {rand : ℕ → ℚ} {fl : Flow}
    (hstep : n.handlePacket d rand = .ok (fl, n')) :
    Ledger start (.handled d (newEvents n n') :: tr) n' := by
  have horderly := h.orderly.handle hstep
  obtain ⟨m, hans⟩ := handlePacket_answers h.orderly.disciplined.recorded hstep
  have hnew := newEvents_eq_pending h.orderly.disciplined.recorded hstep
  refine ⟨horderly, ?_, ?_, ?_, ?_⟩
  · change ((newEvents n n').map _).Nodup
    rw [hnew]
    exact horderly.disciplined.recorded.kinds_nodup
  · change (([] : List (Event Delay Action)) ++ n'.timers.pending).Perm (newEvents n n')
    rw [hnew]
    exact List.Perm.refl _
  · intro d' scheduled hlast
    obtain ⟨rfl, rfl⟩ := Observation.handled.inj (Option.some.inj hlast)
    rw [hnew]
    exact ⟨m, hans⟩
  · intro e bytes he
    rcases List.mem_cons.mp he with heq | he
    · exact absurd heq (by simp)
    · exact h.faithful e bytes he

theorem Ledger.fire {start : List (Event Delay Action)} {tr : List Observation}
    {n n' : SmsEchoClient} (h : Ledger start tr n) {e : Event Delay Action} {g : Garbage}
    {bytes : Bytes} (he : e ∈ n.timers.pending) (hstep : n.fire e g = .ok (n', bytes)) :
    Ledger start (.emitted e bytes :: tr) n' := by
  have horderly := h.orderly.fire hstep
  have hkind := fun m hm => kind_of_fire (m := m) (h.orderly.wellTyped e he) hstep hm
  obtain ⟨-, -, seen, data, rfl⟩ := fire_cases hstep
  refine ⟨horderly, h.kinds, ?_, h.answers, ?_⟩
  · have hcons : (sinceHandled (.emitted e bytes :: tr)).filterMap Observation.fired =
        e :: (sinceHandled tr).filterMap Observation.fired := by
      rw [sinceHandled, since_cons_of_not rfl]
      rfl
    rw [hcons]
    -- the event goes from the pending ones to the fired ones
    refine List.Perm.trans ?_ h.balance
    refine List.perm_middle.symm.trans ?_
    exact (Timers.cons_cancel_perm he).append_left _
  · intro e' bytes' he'
    rcases List.mem_cons.mp he' with heq | he'
    · obtain ⟨rfl, rfl⟩ := Observation.emitted.inj heq
      exact hkind
    · exact h.faithful e' bytes' he'

theorem Ledger.step {start : List (Event Delay Action)} {tr : List Observation}
    {n n' : SmsEchoClient} {o : Observation} (h : Ledger start tr n) (hstep : NodeStep n o n') :
    Ledger start (o :: tr) n' := by
  cases hstep with
  | handle hstep _ => exact h.handle hstep
  | fire he hstep => exact h.fire he hstep

theorem ledger_trace {n n' : SmsEchoClient} {rand : ℚ} {tr : List Observation}
    (h₀ : n.timers.pending = []) (h : NodeTrace (n.startApplication rand) tr n') :
    Ledger (n.startApplication rand).timers.pending tr n' :=
  h.invariant (ledger_start h₀ rand) fun _ _ _ _ hl hstep => hl.step hstep

structure EventDiscipline (tr : List Observation) (n : SmsEchoClient) : Prop where
  atMostOne : ∀ k, n.timers.pending.countP (fun e => e.action.kind = k) ≤ 1
  inSlot : ∀ e ∈ n.timers.pending, n.timers.slot e.action.kind = some e.uid
  exclusive : ∀ e ∈ n.timers.pending, ∀ e' ∈ n.timers.pending,
    e.action.kind = .request → e'.action.kind ≠ .reply
  /-- Right after a handled packet a Send is pending. -/
  sendArmed : ∀ d scheduled tr', tr = .handled d scheduled :: tr' →
    n.timers.pending.countP (fun e => e.action.kind = .send) = 1
  /-- Whatever is broadcast was scheduled by the packet handled last. -/
  caused : ∀ e bytes tr' d scheduled, tr = .emitted e bytes :: tr' →
    lastHandled tr' = some (.handled d scheduled) → e ∈ scheduled
  requests : ∀ e bytes tr' h, tr = .emitted e bytes :: tr' →
    Message.parse bytes = .ok (.request h) →
    ∃ d scheduled m, lastHandled tr' = some (.handled d scheduled) ∧ e ∈ scheduled ∧
      Message.parse d.bytes = .ok m ∧ m.Invites n.address ∧ h.receiverAddress = d.sender
  replies : ∀ e bytes tr' h, tr = .emitted e bytes :: tr' →
    Message.parse bytes = .ok (.reply h) →
    ∃ d scheduled q, lastHandled tr' = some (.handled d scheduled) ∧ e ∈ scheduled ∧
      Message.parse d.bytes = .ok (.request q) ∧ q.receiverAddress = n.address ∧
      h.originalRequester = d.sender ∧ h.fileId = q.fileId ∧ h.chunkId = q.chunkId
  /-- Since a handled packet at most one packet of each kind has been broadcast. -/
  onePerPacket : ∀ k, (sinceHandled tr).countP (Observation.broadcasts k) ≤ 1
  assertion : ∀ e ∈ n.timers.pending, e.action = .send →
    (n.timers.cancel (some e.uid)).simulator.isExpired n.timers.mSendEvent = true
  fires : n.files.length < 2 ^ 31 →
    ∀ e ∈ n.timers.pending, ∀ g, ∃ n' bytes, n.fire e g = .ok (n', bytes)

theorem Timers.Disciplined.atMostOne {t : Timers} (h : t.Disciplined) (k : EventKind) :
    t.pending.countP (fun e => e.action.kind = k) ≤ 1 := by
  have hcount := List.nodup_iff_count_le_one.mp h.recorded.kinds_nodup k
  rw [List.count, List.countP_map] at hcount
  refine le_trans (le_of_eq ?_) hcount
  exact List.countP_congr fun e _ => by simp

namespace Ledger
variable {start : List (Event Delay Action)} {tr : List Observation} {n n' : SmsEchoClient}
  {e : Event Delay Action} {bytes : Bytes}

theorem mem_scheduledLast (h : Ledger start tr n) (he : e ∈ n.timers.pending) :
    e ∈ scheduledLast start tr :=
  h.balance.subset (List.mem_append_right _ he)

theorem sendArmed (h : Ledger start tr n) {d : Datagram} {rand : ℕ → ℚ} {fl : Flow}
    (hstep : n.handlePacket d rand = .ok (fl, n')) :
    n'.timers.pending.countP (fun e => e.action.kind = .send) = 1 := by
  have hrec := h.orderly.disciplined.recorded
  have hdisc := handlePacket_disciplined hrec hstep
  obtain ⟨m, delay, sendDelay, -, hp⟩ := handlePacket_pending hrec hstep
  apply le_antisymm (hdisc.atMostOne .send)
  rw [hp, List.countP_append]
  exact Nat.le_add_left ..

theorem answers_of_emitted (h : Ledger start tr n) (hstart : ∀ e ∈ start, e.action = .send)
    (hstep : NodeStep n (.emitted e bytes) n') :
    (∀ m, Message.parse bytes = .ok m → m.kind ≠ .send → m = n.announced e.action) ∧
      n'.address = n.address ∧
      (∀ d scheduled, lastHandled tr = some (.handled d scheduled) → e ∈ scheduled) ∧
      (e.action ≠ .send → ∃ d scheduled m, lastHandled tr = some (.handled d scheduled) ∧
        e ∈ scheduled ∧ Answers n.address d m scheduled) := by
  cases hstep with | fire he hf => ?_
  have hparse := fun m hm hk =>
    announced_of_fire (m := m) (h.orderly.wellTyped e he) hf hm hk
  obtain ⟨-, -, seen, data, rfl⟩ := fire_cases hf
  have hmem := h.mem_scheduledLast he
  refine ⟨hparse, rfl, ?_, ?_⟩
  · intro d scheduled hlast
    rwa [scheduledLast, hlast] at hmem
  · intro hne
    cases hlast : lastHandled tr with
    | none =>
      -- before the first packet there is only the Send of the start
      rw [scheduledLast, hlast] at hmem
      exact absurd (hstart e hmem) hne
    | some o =>
      cases o with
      | handled d scheduled =>
        rw [scheduledLast, hlast] at hmem
        obtain ⟨m, hans⟩ := h.answers d scheduled hlast
        exact ⟨d, scheduled, m, rfl, hmem, hans⟩
      | emitted e' bytes' =>
        exact absurd (marked_of_lastMarked hlast) (by simp [Observation.isHandled])

theorem onePerPacket (h : Ledger start tr n) (k : EventKind) :
    (sinceHandled tr).countP (Observation.broadcasts k) ≤ 1 := by
  have hcount : (sinceHandled tr).countP (Observation.broadcasts k) ≤
      (((sinceHandled tr).filterMap Observation.fired).map fun e => e.action.kind).count k := by
    rw [List.count, List.countP_map, List.countP_filterMap]
    refine List.countP_mono_left fun o ho hbroadcast => ?_
    cases o with
    | handled d scheduled => exact absurd hbroadcast (by simp [Observation.broadcasts])
    | emitted e bytes =>
      have hkind := h.faithful e bytes (mem_of_mem_since ho)
      cases hm : Message.parse bytes with
      | error fault => simp [Observation.broadcasts, hm] at hbroadcast
      | ok m =>
        simp only [Observation.broadcasts, hm, decide_eq_true_eq] at hbroadcast
        simp [Observation.fired, ← hkind m hm, hbroadcast]
  -- what has fired is part of what the last packet scheduled, one event of each kind at most
  have hsub : (((sinceHandled tr).filterMap Observation.fired).map fun e => e.action.kind).Sublist
      (((sinceHandled tr).filterMap Observation.fired ++ n.timers.pending).map
        fun e => e.action.kind) := by
    rw [List.map_append]
    exact List.sublist_append_left ..
  have hperm := h.balance.map fun e => e.action.kind
  have hnodup := hperm.nodup_iff.mpr h.kinds
  exact hcount.trans (List.nodup_iff_count_le_one.mp (hsub.nodup hnodup) k)

end Ledger

theorem started_eventDiscipline (memory : ℕ) (address : Ipv4Address) (l : List FileSMS) (rand : ℚ)
    {tr : List Observation} {n : SmsEchoClient}
    (h : NodeTrace ((boot memory address l).startApplication rand) tr n) :
    EventDiscipline tr n := by
  have hl := ledger_trace rfl h
  have hstart := send_of_mem_startApplication (n := boot memory address l) rfl rand
  refine
    { atMostOne := hl.orderly.disciplined.atMostOne
      inSlot := hl.orderly.disciplined.recorded
      exclusive := hl.orderly.disciplined.exclusive
      sendArmed := ?_
      caused := ?_
      requests := ?_
      replies := ?_
      onePerPacket := hl.onePerPacket
      assertion := ?_
      fires := ?_ }
  · rintro d scheduled tr' rfl
    obtain ⟨u, hu, hstep⟩ := h.last
    cases hstep with
    | handle hstep _ => exact (ledger_trace rfl hu).sendArmed hstep
  · rintro e bytes tr' d scheduled rfl hlast
    obtain ⟨u, hu, hstep⟩ := h.last
    exact ((ledger_trace rfl hu).answers_of_emitted hstart hstep).2.2.1 d scheduled hlast
  · rintro e bytes tr' r rfl hr
    obtain ⟨u, hu, hstep⟩ := h.last
    obtain ⟨hm, haddr, -, hans⟩ := (ledger_trace rfl hu).answers_of_emitted hstart hstep
    have hsaid := hm _ hr (by simp [Message.kind])
    obtain ⟨peer, f, ha, rfl⟩ := announced_eq_request hsaid.symm
    obtain ⟨d, scheduled, m, hlast, hmem, hanswers⟩ := hans (by rw [ha]; simp)
    obtain ⟨rfl, hinvites⟩ := hanswers.request e hmem peer f ha
    exact ⟨d, scheduled, m, hlast, hmem, hanswers.parsed, haddr ▸ hinvites, rfl⟩
  · rintro e bytes tr' r rfl hr
    obtain ⟨u, hu, hstep⟩ := h.last
    obtain ⟨hm, haddr, -, hans⟩ := (ledger_trace rfl hu).answers_of_emitted hstart hstep
    have hsaid := hm _ hr (by simp [Message.kind])
    obtain ⟨size, ha⟩ := announced_eq_reply hsaid.symm
    obtain ⟨d, scheduled, m, hlast, hmem, hanswers⟩ := hans (by rw [ha]; simp)
    obtain ⟨q, rfl, hq, hreq, hfile, hchunk⟩ := hanswers.reply e hmem r size ha
    exact ⟨d, scheduled, q, hlast, hmem, hanswers.parsed, haddr ▸ hq, hreq, hfile, hchunk⟩
  · intro e he ha
    have hx := TimerQueue.Recorded.isExpired_of_fire hl.orderly.disciplined.recorded he
    rwa [ha] at hx
  · intro hlen e he g
    obtain ⟨n', hn'⟩ := fire_eq (countersFit_of_length hlen) hl.orderly.disciplined.recorded he
      hl.orderly.socket g
    exact ⟨n', _, hn'⟩

theorem listener_trace :
    NodeTrace listener [.handled firstHeard (newEvents listener informed)] informed := by
  obtain ⟨fl, hstep⟩ := listener_hears
  exact .cons .nil (.handle hstep (by decide))

theorem started_eventDiscipline_witness :
    ∃ scheduled e bytes n, e.action.kind = .request ∧
      EventDiscipline [.emitted e bytes, .handled firstHeard scheduled] n := by
  obtain ⟨e, he, n', bytes, hfire, hk, -⟩ := informed_request
  exact ⟨_, e, bytes, n', hk,
    started_eventDiscipline 0 1 [⟨7, 2⟩] 0 (listener_trace.cons (.fire he hfire))⟩

end SmsEcho
