import SmsEcho.Network.SoundMessages

/-! A network of nodes over a radio that may lose, delay, reorder and repeat packets: what
has been broadcast stays in the ether, and any other node may receive it at any time, any
number of times, or never. -/

namespace SmsEcho
open ByteBuffer PartialRun KeyedList SmsEchoClient

/-- The nodes of a network and the files they are given. `memory` is what the storage of each
node object happened to hold before its constructor ran. -/
structure Deployment (k : ℕ) where
  address : Fin k → Ipv4Address
  memory : Fin k → ℕ
  lists : Fin k → List FileSMS
  distinct : ∀ i, DistinctIds (lists i)
  oneSize : ∀ i, ∀ f ∈ lists i, ∀ j, ∀ g ∈ lists j, f.mId = g.mId → f.mFileSize = g.mFileSize
  sixteenBit : ∀ i, ∀ f ∈ lists i, SixteenBit f

structure Packet (k : ℕ) where
  origin : Fin k
  bytes : Bytes

structure Network (k : ℕ) where
  nodes : Fin k → SmsEchoClient
  ether : List (Packet k)

variable {k : ℕ}

namespace Deployment

def catalogue (D : Deployment k) : Catalogue where
  files := {f | ∃ i, f ∈ D.lists i}
  oneSize := by
    rintro f ⟨i, hf⟩ g ⟨j, hg⟩ hid
    have hsize := D.oneSize i f hf j g hg hid
    cases f
    cases g
    exact congrArg₂ FileSMS.mk hid hsize
  sixteenBit := by
    rintro f ⟨i, hf⟩
    exact D.sixteenBit i f hf

def initial (D : Deployment k) : Network k where
  nodes i := boot (D.memory i) (D.address i) (D.lists i)
  ether := []

def datagram (D : Deployment k) (p : Packet k) : Datagram := ⟨D.address p.origin, p.bytes⟩

inductive Step (D : Deployment k) : Network k → Network k → Prop
  | start {s : Network k} (i : Fin k) (rand : ℚ) :
      Step D s { s with nodes := Function.update s.nodes i ((s.nodes i).startApplication rand) }
  | stop {s : Network k} (i : Fin k) :
      Step D s { s with nodes := Function.update s.nodes i (s.nodes i).stopApplication }
  | fire {s : Network k} (i : Fin k) {e : Event Delay Action} {g : Garbage} {n' : SmsEchoClient}
      {bytes : Bytes} : e ∈ (s.nodes i).timers.pending →
      (s.nodes i).fire e g = .ok (n', bytes) →
      Step D s ⟨Function.update s.nodes i n', ⟨i, bytes⟩ :: s.ether⟩
  | deliver {s : Network k} (i : Fin k) {p : Packet k} {rand : ℕ → ℚ} {fl : Flow}
      {n' : SmsEchoClient} : p ∈ s.ether → i ≠ p.origin → (s.nodes i).mSocket = true →
      (s.nodes i).handlePacket (D.datagram p) rand = .ok (fl, n') →
      Step D s { s with nodes := Function.update s.nodes i n' }

def Reachable (D : Deployment k) : Network k → Prop := Relation.ReflTransGen D.Step D.initial

def Holds (D : Deployment k) (s : Network k) (a : Ipv4Address) (id : UInt32) : Prop :=
  ∃ j, D.address j = a ∧ FullIn (s.nodes j).files id

/-- Every node believes sound things only, is about to say sound things only, and nothing
else is in the ether. -/
structure Sound (D : Deployment k) (s : Network k) : Prop where
  address : ∀ i, (s.nodes i).address = D.address i
  store : ∀ i, StoreInv (s.nodes i).files
  entries : ∀ i, ∀ f ∈ (s.nodes i).files, EntrySound D.catalogue (D.Holds s) f
  initial : ∀ i, ∀ f ∈ D.lists i, FullIn (s.nodes i).files f.mId
  pending : ∀ i, ∀ e ∈ (s.nodes i).timers.pending,
    ActionSound D.catalogue (D.Holds s) (D.address i) e.action
  ether : ∀ p ∈ s.ether, ∃ m, Message.parse p.bytes = .ok m ∧
    MessageSound D.catalogue (D.Holds s) (D.address p.origin) m

variable {D : Deployment k} {s s' : Network k}

theorem sound_initial : D.Sound D.initial where
  address _ := rfl
  store i := storeInv_map_construct (D.distinct i)
  entries i f hf := by
    obtain ⟨g, hg, rfl⟩ := List.mem_map.mp hf
    exact ⟨⟨i, hg⟩, by simp⟩
  initial i f hf := ⟨_, List.mem_map_of_mem hf, rfl, FileSMSChunks.construct_isFull ..⟩
  pending i e he := by
    change e ∈ [] at he
    simp at he
  ether p hp := by
    change p ∈ [] at hp
    simp at hp

theorem Sound.update (h : D.Sound s) {i : Fin k} {n' : SmsEchoClient} (new : List (Packet k))
    (haddr : n'.address = D.address i) (hstore : StoreInv n'.files)
    (hgrow : StoreExtends (s.nodes i).files n'.files)
    (hentries : ∀ f ∈ n'.files, EntrySound D.catalogue (D.Holds s) f)
    (hpending : ∀ e ∈ n'.timers.pending,
      ActionSound D.catalogue (D.Holds s) (D.address i) e.action)
    (hnew : ∀ p ∈ new, ∃ m, Message.parse p.bytes = .ok m ∧
      MessageSound D.catalogue (D.Holds s) (D.address p.origin) m) :
    D.Sound ⟨Function.update s.nodes i n', new ++ s.ether⟩ := by
  have hfull : ∀ j id, FullIn (s.nodes j).files id →
      FullIn (Function.update s.nodes i n' j).files id := by
    intro j id hj
    by_cases hij : j = i
    · subst hij
      rw [Function.update_self]
      exact hgrow.fullIn (h.store j).counters hstore.counters hj
    · rwa [Function.update_of_ne hij]
  have hholds : ∀ a id, D.Holds s a id →
      D.Holds ⟨Function.update s.nodes i n', new ++ s.ether⟩ a id := by
    rintro a id ⟨j, hj, hf⟩
    exact ⟨j, hj, hfull j id hf⟩
  -- a fact about each node is one about the changed node and one about the others
  have hnode : ∀ P : Fin k → SmsEchoClient → Prop, P i n' → (∀ j, P j (s.nodes j)) →
      ∀ j, P j (Function.update s.nodes i n' j) := by
    intro P hi hall
    apply (Function.forall_update_iff s.nodes fun j n => P j n).mpr
    exact ⟨hi, fun j _ => hall j⟩
  refine ⟨?_, ?_, ?_, ?_, ?_, ?_⟩
  · exact hnode (fun j n => n.address = D.address j) haddr h.address
  · exact hnode (fun _ n => StoreInv n.files) hstore h.store
  · exact hnode (fun _ n => ∀ f ∈ n.files, EntrySound D.catalogue _ f)
      (fun f hf => (hentries f hf).mono hholds) fun j f hf => (h.entries j f hf).mono hholds
  · exact fun j f hf => hfull j f.mId (h.initial j f hf)
  · exact hnode (fun j n => ∀ e ∈ n.timers.pending, ActionSound D.catalogue _ (D.address j) e.action)
      (fun e he => (hpending e he).mono hholds) fun j e he => (h.pending j e he).mono hholds
  · intro p hp
    rcases List.mem_append.mp hp with hp | hp
    · obtain ⟨m, hm, hsound⟩ := hnew p hp
      exact ⟨m, hm, hsound.mono hholds⟩
    · obtain ⟨m, hm, hsound⟩ := h.ether p hp
      exact ⟨m, hm, hsound.mono hholds⟩

theorem Sound.length_le (h : D.Sound s) (i : Fin k) : (s.nodes i).files.length ≤ 2 ^ 16 :=
  length_le_of_entrySound (h.entries i) (h.store i).distinct

theorem Sound.length_lt (h : D.Sound s) (i : Fin k) : (s.nodes i).files.length < 2 ^ 30 :=
  (h.length_le i).trans_lt (by norm_num)

theorem Sound.deliver (h : D.Sound s) {i : Fin k} {p : Packet k} {rand : ℕ → ℚ} {fl : Flow}
    {n' : SmsEchoClient} (hp : p ∈ s.ether)
    (hstep : (s.nodes i).handlePacket (D.datagram p) rand = .ok (fl, n')) :
    D.Sound { s with nodes := Function.update s.nodes i n' } := by
  obtain ⟨m, delay, sendDelay, hm, habsorb, htimers⟩ := handlePacket_cases hstep
  obtain ⟨m', hm', hsound⟩ := h.ether p hp
  obtain rfl : m = m' := Except.ok.inj (hm.symm.trans hm')
  have haddr : n'.address = (s.nodes i).address := (absorb_frame habsorb).1
  have hlen : (s.nodes i).files.length < 2 ^ 32 := (h.length_lt i).trans (by norm_num)
  have hstore : StoreInv (n'.withTimers (s.nodes i).timers).files :=
    absorb_storeInv hlen (h.store i) habsorb
  have hentries : ∀ f ∈ (n'.withTimers (s.nodes i).timers).files,
      EntrySound D.catalogue (D.Holds s) f := absorb_entrySound hlen (h.entries i) hsound habsorb
  have hasked : ∀ hd, m = .request hd → hd.receiverAddress = n'.address →
      n'.entry hd.fileId ≠ none := by
    rintro hd rfl hto
    exact handlePacket_known hm hstep hto
  have hgrow : StoreExtends (s.nodes i).files (n'.withTimers (s.nodes i).timers).files :=
    absorb_storeExtends hlen habsorb
  refine h.update [] (haddr.trans (h.address i)) hstore hgrow hentries ?_ (by simp)
  intro e he
  rw [htimers] at he
  -- an event that is pending now was pending before, or the packet has armed it
  rcases Timers.mem_arm_pending he with he | hsend | hfollow
  · exact h.pending i e (Timers.mem_cancelAllEvents_pending he)
  · rw [hsend]
    trivial
  · have haction : ActionSound D.catalogue (D.Holds s) n'.address e.action :=
      followUp_actionSound hentries hstore hsound hasked hfollow
    rwa [haddr, h.address i] at haction

theorem Sound.length_lt_of_deliver (h : D.Sound s) {i : Fin k} {p : Packet k} {rand : ℕ → ℚ}
    {fl : Flow} {n' : SmsEchoClient} (hp : p ∈ s.ether)
    (hstep : (s.nodes i).handlePacket (D.datagram p) rand = .ok (fl, n')) :
    n'.files.length < 2 ^ 32 := by
  have hlen : (Function.update s.nodes i n' i).files.length ≤ 2 ^ 16 :=
    (h.deliver hp hstep).length_le i
  rw [Function.update_self] at hlen
  exact hlen.trans_lt (by norm_num)

theorem Sound.fire (h : D.Sound s) {i : Fin k} {e : Event Delay Action} {g : Garbage}
    {n' : SmsEchoClient} {bytes : Bytes} (he : e ∈ (s.nodes i).timers.pending)
    (hstep : (s.nodes i).fire e g = .ok (n', bytes)) :
    D.Sound ⟨Function.update s.nodes i n', ⟨i, bytes⟩ :: s.ether⟩ := by
  obtain ⟨-, rfl, seen, data, rfl⟩ := fire_cases hstep
  have haction := h.pending i e he
  have hown : ∀ id, FullIn (s.nodes i).files id → D.Holds s (D.address i) id :=
    fun id hid => ⟨i, rfl, hid⟩
  refine h.update [⟨i, _⟩] (h.address i) (h.store i) (.refl _) (h.entries i) ?_ ?_
  · exact fun e' he' => h.pending i e' (Timers.mem_cancel_pending.mp he').1
  · intro p hp
    rw [List.mem_singleton.mp hp]
    exact ⟨_, parse_emission (h.length_lt i) g haction.wellTyped,
      announced_messageSound (h.entries i) hown haction⟩

theorem Sound.step (h : D.Sound s) (hstep : D.Step s s') : D.Sound s' := by
  cases hstep with
  | start i rand =>
    refine h.update [] (h.address i) (h.store i) (.refl _) (h.entries i) ?_ (by simp)
    intro e he
    rcases List.mem_append.mp he with he | he
    · exact h.pending i e he
    · rw [List.mem_singleton.mp he]
      trivial
  | stop i =>
    refine h.update [] (h.address i) (h.store i) (.refl _) (h.entries i) ?_ (by simp)
    exact fun e he => h.pending i e (Timers.mem_cancel_pending.mp he).1
  | fire i he hstep => exact h.fire he hstep
  | deliver i hp _ _ hstep => exact h.deliver hp hstep

theorem sound_of_reachable (hs : D.Reachable s) : D.Sound s :=
  reaches_invariant (fun _ _ h hstep => h.step hstep) hs sound_initial

end Deployment

def pair : Deployment 2 where
  address := ![1, 2]
  memory := ![0, 0]
  lists := ![[⟨7, 2⟩], [⟨9, 1⟩]]
  distinct := by decide
  oneSize := by decide
  sixteenBit := by decide

def Network.begins (s : Network k) (i : Fin k) : Network k :=
  { s with nodes := Function.update s.nodes i ((s.nodes i).startApplication 0) }

def Network.speaks (s : Network k) (i : Fin k) (kind : EventKind) : Network k :=
  match (s.nodes i).timers.pending.find? fun e => e.action.kind = kind with
  | none => s
  | some e =>
    match (s.nodes i).fire e zeroed with
    | .ok (n', bytes) => ⟨Function.update s.nodes i n', ⟨i, bytes⟩ :: s.ether⟩
    | .error _ => s

namespace Deployment
variable {D : Deployment k} {s s' : Network k}

def listens (D : Deployment k) (s : Network k) (i : Fin k) : Network k :=
  match s.ether with
  | [] => s
  | p :: _ =>
    if i ≠ p.origin ∧ (s.nodes i).mSocket = true then
      match (s.nodes i).handlePacket (D.datagram p) fun _ => 0 with
      | .ok (_, n') => { s with nodes := Function.update s.nodes i n' }
      | .error _ => s
    else s

theorem Reachable.speaks (h : D.Reachable s) (i : Fin k) (kind : EventKind) :
    D.Reachable (s.speaks i kind) := by
  unfold Network.speaks
  split
  · exact h
  · rename_i e he
    split
    · rename_i n' bytes hfire
      exact h.tail (.fire i (List.mem_of_find?_eq_some he) hfire)
    · exact h

theorem Reachable.listens (h : D.Reachable s) (i : Fin k) : D.Reachable (D.listens s i) := by
  unfold Deployment.listens
  split
  · exact h
  · rename_i p ether hether
    split_ifs with hopen
    · split
      · rename_i fl n' hstep
        have hp : p ∈ s.ether := hether ▸ List.mem_cons_self
        exact h.tail (.deliver i hp hopen.1 hopen.2 hstep)
      · exact h
    · exact h

/-- Both nodes start, node `j` advertises, node `i` asks, and node `j` answers. -/
def exchange (D : Deployment k) (i j : Fin k) : Network k :=
  let s := (D.initial.begins i).begins j
  let s := D.listens (s.speaks j .send) i
  let s := D.listens (s.speaks i .request) j
  D.listens (s.speaks j .reply) i

theorem reachable_exchange (D : Deployment k) (i j : Fin k) : D.Reachable (D.exchange i j) := by
  have hstart : D.Reachable ((D.initial.begins i).begins j) :=
    (Relation.ReflTransGen.single (.start i 0)).tail (.start j 0)
  have hadvertised := (hstart.speaks j .send).listens i
  have hasked := (hadvertised.speaks i .request).listens j
  exact (hasked.speaks j .reply).listens i

end Deployment

@[irreducible] def exchanged : Network 2 := pair.exchange ⟨0, Nat.two_pos⟩ ⟨1, Nat.one_lt_two⟩

theorem exchanged_reachable : pair.Reachable exchanged := by
  unfold exchanged
  exact pair.reachable_exchange _ _

theorem exchanged_holder : ∃ f ∈ (exchanged.nodes 0).files, f.mId = 9 ∧ 2 ∈ f.nodesWhoHaveFile := by
  decide +kernel

theorem exchanged_fullIn : FullIn (exchanged.nodes 0).files 9 := by
  unfold FullIn
  decide +kernel

theorem exchanged_request : ∃ p ∈ exchanged.ether,
    Message.parse p.bytes = .ok (.request ⟨1, 2, 9, 0⟩) := by
  decide +kernel

theorem exchanged_reply : ∃ p ∈ exchanged.ether,
    Message.parse p.bytes = .ok (.reply ⟨2, 1, 9, 1, 0⟩) := by
  decide +kernel

namespace Deployment
variable {D : Deployment k} {s s' : Network k}

theorem Holds.fullIn (haddr : Function.Injective D.address) {i : Fin k} {id : UInt32}
    (h : D.Holds s (D.address i) id) : FullIn (s.nodes i).files id := by
  obtain ⟨j, hj, hf⟩ := h
  exact haddr hj ▸ hf

theorem Sound.entry_of_fullIn (h : D.Sound s) {i : Fin k} {id : UInt32}
    (hf : FullIn (s.nodes i).files id) : ∃ g, (s.nodes i).entry id = some g ∧
      g.isFull = true ∧ ∀ c < g.fileSizeInChunks.toNat, g.Has c := by
  obtain ⟨g, hg, rfl, hfull⟩ := hf
  have hall := (FileSMSChunks.isFull_iff_has ((h.store i).counters g hg)).mp hfull
  exact ⟨g, lookup_of_mem (h.store i).distinct hg, hfull, hall⟩

theorem Sound.asked (h : D.Sound s) (haddr : Function.Injective D.address) {i : Fin k}
    {r : RequestHeader} (hr : RequestSound D.catalogue (D.Holds s) r)
    (hto : r.receiverAddress = D.address i) :
    ∃ g, (s.nodes i).entry r.fileId = some g ∧ g.isFull = true ∧ g.Has r.chunkId.toNat := by
  obtain ⟨c, hc, hid, hchunk, hhold⟩ := hr
  rw [hto] at hhold
  obtain ⟨g, hg, hfull, hall⟩ := h.entry_of_fullIn (hhold.fullIn haddr)
  have hkey : g.mId = c.mId := by
    have hk := key_of_lookup hg
    exact hk
  have hfile : g.toFileSMS = c :=
    D.catalogue.oneSize _ (h.entries i g (mem_of_lookup hg)).known _ hc hkey
  refine ⟨g, hid ▸ hg, hfull, hall _ ?_⟩
  rwa [g.fileSizeInChunks_eq, hfile, ← UInt32.lt_iff_toNat_lt]

theorem Sound.handlePacket_ok (h : D.Sound s) {p : Packet k} (hp : p ∈ s.ether) (i : Fin k)
    (rand : ℕ → ℚ)
    (hasked : ∀ r, Message.parse p.bytes = .ok (.request r) →
      r.receiverAddress = (s.nodes i).address → (s.nodes i).entry r.fileId ≠ none) :
    ∃ fl n', (s.nodes i).handlePacket (D.datagram p) rand = .ok (fl, n') := by
  obtain ⟨m, hm, hsound⟩ := h.ether p hp
  have hentries : ∀ f ∈ (s.nodes i).cancelAllEvents.files, EntrySound D.catalogue (D.Holds s) f :=
    h.entries i
  have hlen : (s.nodes i).cancelAllEvents.files.length ≤ 2 ^ 31 :=
    (h.length_le i).trans (by norm_num)
  obtain ⟨n₁, hn₁⟩ := absorb_ok hlen hentries hsound fun r hr hto => hasked r (hr ▸ hm) hto
  exact ⟨_, _, handlePacket_of_absorb rand (d := D.datagram p) hm hn₁⟩

theorem reachable_holders_full (D : Deployment k) (haddr : Function.Injective D.address)
    {s : Network k} (hs : D.Reachable s) :
    (∀ i, ∀ f ∈ (s.nodes i).files, ∀ a ∈ f.nodesWhoHaveFile, ∃ j, (s.nodes j).address = a ∧
      ∃ g, (s.nodes j).entry f.mId = some g ∧ g.isFull = true) ∧
    (∀ p ∈ s.ether, ∀ r, Message.parse p.bytes = .ok (.request r) →
      ∀ i, (s.nodes i).address = r.receiverAddress →
        ∃ g, (s.nodes i).entry r.fileId = some g ∧ g.Has r.chunkId.toNat) ∧
    ∀ p ∈ s.ether, ∀ i rand, (s.nodes i).handlePacket (D.datagram p) rand ≠ .error .abort := by
  have h := sound_of_reachable hs
  have hrequest : ∀ p ∈ s.ether, ∀ r, Message.parse p.bytes = .ok (.request r) →
      ∀ i, (s.nodes i).address = r.receiverAddress →
        ∃ g, (s.nodes i).entry r.fileId = some g ∧ g.Has r.chunkId.toNat := by
    intro p hp r hr i hto
    obtain ⟨m, hm, hsound⟩ := h.ether p hp
    obtain rfl : .request r = m := Except.ok.inj (hr.symm.trans hm)
    obtain ⟨g, hg, -, hhas⟩ := h.asked haddr hsound (hto.symm.trans (h.address i))
    exact ⟨g, hg, hhas⟩
  refine ⟨?_, hrequest, ?_⟩
  · intro i f hf a ha
    obtain ⟨j, hj, hfull⟩ := (h.entries i f hf).holders a ha
    obtain ⟨g, hg, hgf, -⟩ := h.entry_of_fullIn hfull
    exact ⟨j, (h.address j).trans hj, g, hg, hgf⟩
  · intro p hp i rand
    obtain ⟨fl, n', hok⟩ := h.handlePacket_ok hp i rand fun r hr hto => by
      obtain ⟨g, hg, -⟩ := hrequest p hp r hr i hto.symm
      rw [hg]
      simp
    rw [hok]
    simp

theorem reachable_holders_full_witness :
    (∃ f ∈ (exchanged.nodes 0).files, 2 ∈ f.nodesWhoHaveFile ∧
      ∃ j, (exchanged.nodes j).address = 2 ∧
        ∃ g, (exchanged.nodes j).entry f.mId = some g ∧ g.isFull = true) ∧
    (∃ p ∈ exchanged.ether, Message.parse p.bytes = .ok (.request ⟨1, 2, 9, 0⟩) ∧
      ∀ i, (exchanged.nodes i).address = 2 →
        ∃ g, (exchanged.nodes i).entry 9 = some g ∧ g.Has 0) ∧
    ∃ p ∈ exchanged.ether, Message.parse p.bytes = .ok (.reply ⟨2, 1, 9, 1, 0⟩) ∧
      ∀ i rand, (exchanged.nodes i).handlePacket (pair.datagram p) rand ≠ .error .abort := by
  obtain ⟨hholders, hrequests, habort⟩ :=
    reachable_holders_full pair (by decide) exchanged_reachable
  obtain ⟨f, hf, -, ha⟩ := exchanged_holder
  obtain ⟨p, hp, hrequest⟩ := exchanged_request
  obtain ⟨q, hq, hreply⟩ := exchanged_reply
  exact ⟨⟨f, hf, ha, hholders 0 f hf 2 ha⟩, ⟨p, hp, hrequest, hrequests p hp _ hrequest⟩,
    q, hq, hreply, habort q hq⟩

theorem reachable_geometry (D : Deployment k) {s : Network k} (hs : D.Reachable s) :
    (∀ i j, ∀ f ∈ (s.nodes i).files, ∀ g ∈ (s.nodes j).files, f.mId = g.mId →
      f.mFileSize = g.mFileSize ∧ f.fileSizeInChunks = g.fileSizeInChunks) ∧
    (∀ p ∈ s.ether, ∀ r, Message.parse p.bytes = .ok (.request r) →
      ∃ i, ∃ f ∈ D.lists i, f.mId = r.fileId ∧ r.chunkId < chunkCount f.mFileSize) ∧
    (∀ p ∈ s.ether, ∀ r, Message.parse p.bytes = .ok (.reply r) →
      (∃ i, ∃ f ∈ D.lists i, f.mId = r.fileId ∧ r.chunkId < chunkCount f.mFileSize) ∧
      ∀ j, r.chunkId < ((s.nodes j).target r.fileId r.fileSize).fileSizeInChunks) ∧
    ∀ p ∈ s.ether, ∀ j rand, (s.nodes j).handlePacket (D.datagram p) rand ≠ .error .outOfBounds := by
  have h := sound_of_reachable hs
  have hreply : ∀ p ∈ s.ether, ∀ r, Message.parse p.bytes = .ok (.reply r) →
      (∃ i, ∃ f ∈ D.lists i, f.mId = r.fileId ∧ r.chunkId < chunkCount f.mFileSize) ∧
      ∀ j, r.chunkId < ((s.nodes j).target r.fileId r.fileSize).fileSizeInChunks := by
    intro p hp r hr
    obtain ⟨m, hm, hsound⟩ := h.ether p hp
    obtain rfl : .reply r = m := Except.ok.inj (hr.symm.trans hm)
    obtain ⟨c, ⟨i, hc⟩, hid, hsize, hchunk, -⟩ := hsound
    refine ⟨⟨i, c, hc, hid.symm, hchunk⟩, fun j => ?_⟩
    rw [hid, hsize, target_fileSizeInChunks (h.entries j) ⟨i, hc⟩]
    exact hchunk
  refine ⟨?_, ?_, hreply, ?_⟩
  · intro i j f hf g hg hid
    have hsame : g.toFileSMS = f.toFileSMS :=
      D.catalogue.oneSize _ (h.entries j g hg).known _ (h.entries i f hf).known hid.symm
    exact ⟨(congrArg FileSMS.mFileSize hsame).symm,
      (FileSMSChunks.fileSizeInChunks_of_same hsame).symm⟩
  · intro p hp r hr
    obtain ⟨m, hm, hsound⟩ := h.ether p hp
    obtain rfl : .request r = m := Except.ok.inj (hr.symm.trans hm)
    obtain ⟨c, ⟨i, hc⟩, hid, hchunk, -⟩ := hsound
    exact ⟨i, c, hc, hid.symm, hchunk⟩
  · intro p hp j rand
    obtain ⟨m, hm, -⟩ := h.ether p hp
    refine handlePacket_ne_outOfBounds (d := D.datagram p) hm ?_ rand
    rintro r rfl
    have hlen : (s.nodes j).files.length ≤ 2 ^ 31 := (h.length_le j).trans (by norm_num)
    exact ⟨indexed_of_length hlen r.fileId, (hreply p hp r hm).2 j⟩

theorem reachable_geometry_witness :
    (∃ f ∈ (exchanged.nodes 0).files, f.mId = 9 ∧ ∀ g ∈ (exchanged.nodes 1).files, g.mId = 9 →
      f.mFileSize = g.mFileSize ∧ f.fileSizeInChunks = g.fileSizeInChunks) ∧
    (∃ p ∈ exchanged.ether, Message.parse p.bytes = .ok (.request ⟨1, 2, 9, 0⟩) ∧
      ∃ i, ∃ f ∈ pair.lists i, f.mId = 9 ∧ 0 < chunkCount f.mFileSize) ∧
    ∃ p ∈ exchanged.ether, Message.parse p.bytes = .ok (.reply ⟨2, 1, 9, 1, 0⟩) ∧
      (∀ j, 0 < ((exchanged.nodes j).target 9 1).fileSizeInChunks) ∧
      ∀ j rand, (exchanged.nodes j).handlePacket (pair.datagram p) rand ≠ .error .outOfBounds := by
  obtain ⟨hsame, hrequests, hreplies, hinside⟩ := reachable_geometry pair exchanged_reachable
  obtain ⟨f, hf, hid, -⟩ := exchanged_holder
  obtain ⟨p, hp, hrequest⟩ := exchanged_request
  obtain ⟨q, hq, hreply⟩ := exchanged_reply
  refine ⟨⟨f, hf, hid, ?_⟩, ⟨p, hp, hrequest, ?_⟩, q, hq, hreply, ?_, ?_⟩
  · exact fun g hg hg' => hsame 0 1 f hf g hg (hid.trans hg'.symm)
  · exact hrequests p hp _ hrequest
  · exact (hreplies q hq _ hreply).2
  · exact hinside q hq

end Deployment
end SmsEcho
