import SmsEcho.Client.NodeHistory

/-! A network in which everyone handles a broadcast before anything else happens. After a
request only the node it addresses has an event to answer with, and after a reply only the
node that had asked: two downloads never interleave. -/

namespace SmsEcho
open ByteBuffer PartialRun SmsEchoClient

variable {k : ℕ}

structure Round (nodes : Fin k → SmsEchoClient) (i : Fin k) (e : Event Delay Action)
    (bytes : Bytes) (nodes' : Fin k → SmsEchoClient) : Prop where
  pending : e ∈ (nodes i).timers.pending
  fires : ∃ g, (nodes i).fire e g = .ok (nodes' i, bytes)
  heard : ∀ j, j ≠ i → ∃ rand fl,
    (nodes j).handlePacket ⟨(nodes i).address, bytes⟩ rand = .ok (fl, nodes' j)

def RoundStep (nodes nodes' : Fin k → SmsEchoClient) : Prop :=
  ∃ i e bytes, Round nodes i e bytes nodes'

def Started (address : Fin k → Ipv4Address) (nodes : Fin k → SmsEchoClient) : Prop :=
  ∀ i, ∃ memory l rand, nodes i = (boot memory (address i) l).startApplication rand

/-- At most one request or reply event is pending anywhere, and it is of the given kind and
at the node with the given address. -/
def OnlyAt (nodes : Fin k → SmsEchoClient) (a : Ipv4Address) (kind : EventKind) : Prop :=
  ∀ j, ∀ e ∈ (nodes j).timers.pending, e.action.kind ≠ .send →
    (nodes j).address = a ∧ e.action.kind = kind ∧
      ∀ j', ∀ e' ∈ (nodes j').timers.pending, e'.action.kind ≠ .send → j' = j ∧ e' = e

structure Tuned (address : Fin k → Ipv4Address) (nodes : Fin k → SmsEchoClient) : Prop where
  orderly : ∀ i, (nodes i).Orderly
  address : ∀ i, (nodes i).address = address i

section
variable {address : Fin k → Ipv4Address} {nodes nodes' : Fin k → SmsEchoClient}
  {i : Fin k} {e : Event Delay Action} {bytes : Bytes}

theorem Started.tuned (h : Started address nodes) : Tuned address nodes where
  orderly i := by
    obtain ⟨memory, l, rand, hi⟩ := h i
    rw [hi]
    exact orderly_start rfl rand
  address i := by
    obtain ⟨memory, l, rand, hi⟩ := h i
    rw [hi]
    rfl

theorem Tuned.round (h : Tuned address nodes) (hr : Round nodes i e bytes nodes') :
    Tuned address nodes' := by
  have hnode : ∀ j, (nodes' j).Orderly ∧ (nodes' j).address = (nodes j).address := by
    intro j
    by_cases hj : j = i
    · subst hj
      obtain ⟨g, hfire⟩ := hr.fires
      have horderly := (h.orderly j).fire hfire
      obtain ⟨-, -, seen, data, heq⟩ := fire_cases hfire
      exact ⟨horderly, by rw [heq]⟩
    · obtain ⟨rand, fl, hstep⟩ := hr.heard j hj
      obtain ⟨m, -, -, -, habsorb, -⟩ := handlePacket_cases hstep
      exact ⟨(h.orderly j).handle hstep, (absorb_frame habsorb).1⟩
  exact ⟨fun j => (hnode j).1, fun j => (hnode j).2.trans (h.address j)⟩

theorem tuned_of_reachable {nodes₀ : Fin k → SmsEchoClient} (h₀ : Started address nodes₀)
    (hs : Relation.ReflTransGen RoundStep nodes₀ nodes) : Tuned address nodes := by
  refine reaches_invariant (fun _ _ h hstep => ?_) hs h₀.tuned
  obtain ⟨i, e, bytes, hr⟩ := hstep
  exact h.round hr

theorem Tuned.quiet_after_fire (h : Tuned address nodes) (hr : Round nodes i e bytes nodes')
    (hk : e.action.kind ≠ .send) : ∀ e' ∈ (nodes' i).timers.pending, e'.action.kind = .send := by
  obtain ⟨g, hfire⟩ := hr.fires
  obtain ⟨-, -, seen, data, heq⟩ := fire_cases hfire
  have hd := (h.orderly i).disciplined
  intro e' he'
  rw [heq] at he'
  obtain ⟨hmem, hne⟩ := Timers.mem_cancel_pending.mp he'
  have hkind : e'.action.kind ≠ e.action.kind := by
    intro hsame
    exact hne (congrArg (fun x => some x.uid) (hd.recorded.eq_of_kind_eq hmem hr.pending hsame))
  -- of the three kinds, one has just left the queue and one excludes it
  cases h1 : e.action.kind with
  | send => exact absurd h1 hk
  | request =>
    cases h2 : e'.action.kind with
    | send => rfl
    | request => exact absurd (h2.trans h1.symm) hkind
    | reply => exact absurd h2 (hd.exclusive e hr.pending e' hmem h1)
  | reply =>
    cases h2 : e'.action.kind with
    | send => rfl
    | request => exact absurd h1 (hd.exclusive e' hmem e hr.pending h2)
    | reply => exact absurd (h2.trans h1.symm) hkind

theorem Tuned.kind_eq (h : Tuned address nodes) (hr : Round nodes i e bytes nodes') {m : Message}
    (hm : Message.parse bytes = .ok m) : m.kind = e.action.kind := by
  obtain ⟨g, hfire⟩ := hr.fires
  exact kind_of_fire ((h.orderly i).wellTyped e hr.pending) hfire hm

theorem Tuned.planned (h : Tuned address nodes) (hr : Round nodes i e bytes nodes') {m : Message}
    (hm : Message.parse bytes = .ok m) (hsend : m.kind ≠ .send) {j : Fin k}
    {e' : Event Delay Action} (he' : e' ∈ (nodes' j).timers.pending)
    (hk : e'.action.kind ≠ .send) :
    m.Invites (nodes' j).address ∧ e'.action.kind = .request ∨
      ∃ q, m = .request q ∧ q.receiverAddress = (nodes' j).address ∧ e'.action.kind = .reply := by
  -- the node that spoke has nothing left to say
  have hj : j ≠ i := by
    rintro rfl
    rw [h.kind_eq hr hm] at hsend
    exact hk (h.quiet_after_fire hr hsend e' he')
  obtain ⟨rand, fl, hstep⟩ := hr.heard j hj
  obtain ⟨m', hm', hevents⟩ := handlePacket_events (h.orderly j).disciplined.recorded hstep
  obtain rfl : m = m' := Except.ok.inj (hm.symm.trans hm')
  have hfollow := (hevents e' he').resolve_left fun hsend => hk (by rw [hsend]; rfl)
  rcases followUp_eq_some hfollow with ⟨hinv, -, ha⟩ | ⟨q, rfl, hq, ha⟩
  · exact Or.inl ⟨hinv, by rw [ha]; rfl⟩
  · exact Or.inr ⟨q, rfl, hq, by rw [ha]; rfl⟩

theorem Tuned.onlyAt (h : Tuned address nodes) (haddr : Function.Injective address)
    {a : Ipv4Address} {kind : EventKind}
    (hall : ∀ j, ∀ e ∈ (nodes j).timers.pending, e.action.kind ≠ .send →
      (nodes j).address = a ∧ e.action.kind = kind) : OnlyAt nodes a kind := by
  intro j e he hk
  obtain ⟨ha, hkind⟩ := hall j e he hk
  refine ⟨ha, hkind, fun j' e' he' hk' => ?_⟩
  obtain ⟨ha', hkind'⟩ := hall j' e' he' hk'
  have hj : j' = j := by
    have hsame : address j' = address j := by rw [← h.address j', ← h.address j, ha, ha']
    exact haddr hsame
  subst hj
  exact ⟨rfl, (h.orderly j').disciplined.recorded.eq_of_kind_eq he' he (hkind'.trans hkind.symm)⟩

end

theorem round_channel_exclusion {address : Fin k → Ipv4Address}
    (haddr : Function.Injective address) {nodes₀ nodes nodes' : Fin k → SmsEchoClient}
    (h₀ : Started address nodes₀) (hs : Relation.ReflTransGen RoundStep nodes₀ nodes)
    {i : Fin k} {e : Event Delay Action} {bytes : Bytes} (hr : Round nodes i e bytes nodes') :
    (∀ h, Message.parse bytes = .ok (.request h) → OnlyAt nodes' h.receiverAddress .reply) ∧
      ∀ h, Message.parse bytes = .ok (.reply h) → OnlyAt nodes' h.originalRequester .request := by
  have hbefore := tuned_of_reachable h₀ hs
  have hafter := hbefore.round hr
  constructor
  · intro h hm
    refine hafter.onlyAt haddr fun j e' he' hk => ?_
    rcases hbefore.planned hr hm (by simp [Message.kind]) he' hk with
      ⟨hinv, -⟩ | ⟨q, hq, hto, hreply⟩
    · exact hinv.elim
    · obtain rfl := Message.request.inj hq
      exact ⟨hto.symm, hreply⟩
  · intro h hm
    refine hafter.onlyAt haddr fun j e' he' hk => ?_
    rcases hbefore.planned hr hm (by simp [Message.kind]) he' hk with
      ⟨hinv, hrequest⟩ | ⟨q, hq, -, -⟩
    · exact ⟨Eq.symm hinv, hrequest⟩
    · exact absurd hq (by simp)

def said (nodes : Fin k → SmsEchoClient) (i : Fin k) (kind : EventKind) :
    Option (Event Delay Action × Bytes × (Fin k → SmsEchoClient)) := do
  let e ← (nodes i).timers.pending.find? fun e => e.action.kind = kind
  let (n', bytes) ← ((nodes i).fire e zeroed).toOption
  let d : Datagram := ⟨(nodes i).address, bytes⟩
  if ∀ j, j ≠ i → ((nodes j).handlePacket d fun _ => 0).isOk = true then
    some (e, bytes, fun j => if j = i then n' else (nodes j).hears d)
  else none

def after (nodes : Fin k → SmsEchoClient) (i : Fin k) (kind : EventKind) : Fin k → SmsEchoClient :=
  ((said nodes i kind).map fun x => x.2.2).getD nodes

theorem round_of_said (nodes : Fin k → SmsEchoClient) (i : Fin k) (kind : EventKind) (m : Message)
    (h : (said nodes i kind).map (fun x => Message.parse x.2.1) = some (.ok m)) :
    ∃ e bytes, Round nodes i e bytes (after nodes i kind) ∧ e.action.kind = kind ∧
      Message.parse bytes = .ok m := by
  obtain ⟨⟨e, bytes, nodes'⟩, hsaid, hm⟩ := Option.map_eq_some_iff.mp h
  have hafter : after nodes i kind = nodes' := by
    rw [after, hsaid]
    rfl
  rw [hafter]
  unfold said at hsaid
  obtain ⟨e', he', hsaid⟩ := Option.bind_eq_some_iff.mp hsaid
  obtain ⟨⟨n', bytes'⟩, hfire, hsaid⟩ := Option.bind_eq_some_iff.mp hsaid
  simp only at hsaid
  split_ifs at hsaid with hheard
  obtain ⟨rfl, rfl, rfl⟩ : e' = e ∧ bytes' = bytes ∧ _ = nodes' := by simpa using hsaid
  have hkind : e'.action.kind = kind := by simpa using List.find?_some he'
  refine ⟨e', bytes', ⟨List.mem_of_find?_eq_some he', ⟨zeroed, ?_⟩, fun j hj => ?_⟩, hkind, hm⟩
  · rw [if_pos rfl]
    cases hf : (nodes i).fire e' zeroed with
    | error err => simp [hf, Except.toOption] at hfire
    | ok r => simpa [hf, Except.toOption] using hfire
  · rw [if_neg hj]
    have hok := hheard j hj
    cases hh : (nodes j).handlePacket ⟨(nodes i).address, bytes'⟩ fun _ => 0 with
    | error err => simp [hh, Except.isOk, Except.toBool] at hok
    | ok r => exact ⟨fun _ => 0, r.1, by rw [hears, hh]⟩

theorem listener_provider_started : Started ![1, 2] ![listener, provider] :=
  Fin.forall_fin_two.mpr ⟨⟨0, [⟨7, 2⟩], 0, rfl⟩, ⟨0, [⟨9, 2⟩], 0, rfl⟩⟩

def advertised : Fin 2 → SmsEchoClient := after ![listener, provider] 1 .send

def requested : Fin 2 → SmsEchoClient := after advertised 0 .request

theorem round_channel_exclusion_witness :
    (∃ e bytes, Round advertised 0 e bytes requested ∧
      Message.parse bytes = .ok (.request ⟨1, 2, 9, 0⟩) ∧ OnlyAt requested 2 .reply) ∧
    ∃ e bytes, Round requested 1 e bytes (after requested 1 .reply) ∧
      Message.parse bytes = .ok (.reply ⟨2, 1, 9, 2, 0⟩) ∧
      OnlyAt (after requested 1 .reply) 1 .request := by
  obtain ⟨e₁, bytes₁, hadvertised, -, -⟩ :=
    round_of_said ![listener, provider] 1 .send (.advertisement [(9, 2)]) (by decide +kernel)
  obtain ⟨e₂, bytes₂, hrequested, -, hrequest⟩ :=
    round_of_said advertised 0 .request (.request ⟨1, 2, 9, 0⟩) (by decide +kernel)
  obtain ⟨e₃, bytes₃, hreplied, -, hreply⟩ :=
    round_of_said requested 1 .reply (.reply ⟨2, 1, 9, 2, 0⟩) (by decide +kernel)
  have hfirst : Relation.ReflTransGen RoundStep ![listener, provider] advertised :=
    .single ⟨1, e₁, bytes₁, hadvertised⟩
  have hsecond := hfirst.tail ⟨0, e₂, bytes₂, hrequested⟩
  constructor
  · exact ⟨e₂, bytes₂, hrequested, hrequest, (round_channel_exclusion (by decide)
      listener_provider_started hfirst hrequested).1 _ hrequest⟩
  · exact ⟨e₃, bytes₃, hreplied, hreply, (round_channel_exclusion (by decide)
      listener_provider_started hsecond hreplied).2 _ hreply⟩

end SmsEcho
