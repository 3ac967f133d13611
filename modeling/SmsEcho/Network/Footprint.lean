import SmsEcho.Client.Holders
import SmsEcho.Network.Holdings

/-! How much the nodes remember and how long their packets are, over whole runs. -/

namespace SmsEcho
open ByteBuffer PartialRun KeyedList SmsEchoClient

variable {k : ℕ}

theorem FileSMSChunks.getSizeOfChunk_le (f : FileSMSChunks) (c : UInt32) :
    (f.getSizeOfChunk c).toNat ≤ CHUNK_SIZE := by
  unfold FileSMSChunks.getSizeOfChunk
  split_ifs
  · rw [f.sizeOfLastChunk_eq, lastChunkSize, UInt16.toNat_ofNat']
    exact (Nat.mod_le _ _).trans (Nat.mod_lt _ (by decide)).le
  · decide

theorem nodup_seenNodes {n : SmsEchoClient} (h : n.seenNodes.Nodup) (a : Ipv4Address) :
    (n.addNodeToSeenList a).seenNodes.Nodup := by
  unfold SmsEchoClient.addNodeToSeenList
  split_ifs with hmem
  · exact h
  · rw [List.contains_iff_mem] at hmem
    exact List.nodup_append.mpr ⟨h, by simp, fun b hb c hc =>
      List.mem_singleton.mp hc ▸ fun heq => hmem (heq ▸ hb)⟩

theorem mem_seenNodes {n : SmsEchoClient} {a b : Ipv4Address}
    (h : b ∈ (n.addNodeToSeenList a).seenNodes) : b ∈ n.seenNodes ∨ b = a := by
  unfold SmsEchoClient.addNodeToSeenList at h
  split_ifs at h with hmem
  · exact Or.inl h
  · simpa using h

namespace Deployment

def OfOther (D : Deployment k) (i : Fin k) (a : Ipv4Address) : Prop := ∃ j, j ≠ i ∧ D.address j = a

structure Remembers (D : Deployment k) (i : Fin k) (n : SmsEchoClient) : Prop where
  listed : ∀ id a, Lists n.files id a → D.OfOther i a
  seen : ∀ a ∈ n.seenNodes, D.OfOther i a
  seenOnce : n.seenNodes.Nodup
  answers : ∀ e ∈ n.timers.pending, ∀ hd size, e.action = .reply hd size →
    size.toNat ≤ CHUNK_SIZE

def maxPacket (D : Deployment k) : ℕ := max (2 + 4 * D.distinctFiles.card) (20 + CHUNK_SIZE)

structure Compact (D : Deployment k) (s : Network k) : Prop where
  nodes : ∀ i, D.Remembers i (s.nodes i)
  packets : ∀ p ∈ s.ether, p.bytes.length ≤ D.maxPacket

variable {D : Deployment k} {s s' : Network k} {i : Fin k} {n n' : SmsEchoClient}

theorem OfOther.ne (haddr : Function.Injective D.address) {a : Ipv4Address}
    (h : D.OfOther i a) : a ≠ D.address i := by
  obtain ⟨j, hj, rfl⟩ := h
  exact fun heq => hj (haddr heq)

theorem length_lt_of_ofOther {l : List Ipv4Address} (hnodup : l.Nodup)
    (hother : ∀ a ∈ l, D.OfOther i a) : l.length < k := by
  have hsub : l.toFinset ⊆ (Finset.univ.erase i).image D.address := by
    intro a ha
    obtain ⟨j, hj, rfl⟩ := hother a (List.mem_toFinset.mp ha)
    exact Finset.mem_image_of_mem _ (Finset.mem_erase.mpr ⟨hj, Finset.mem_univ j⟩)
  calc l.length = l.toFinset.card := (List.toFinset_card_of_nodup hnodup).symm
    _ ≤ ((Finset.univ.erase i).image D.address).card := Finset.card_le_card hsub
    _ ≤ (Finset.univ.erase i).card := Finset.card_image_le
    _ < (Finset.univ : Finset (Fin k)).card := Finset.card_erase_lt_of_mem (Finset.mem_univ i)
    _ = k := Finset.card_fin k

theorem Sound.files_length_le (h : D.Sound s) (i : Fin k) :
    (s.nodes i).files.length ≤ D.distinctFiles.card := by
  have hnodup : ((s.nodes i).files.map FileSMSChunks.toFileSMS).Nodup := by
    refine List.Nodup.of_map FileSMS.mId ?_
    rw [List.map_map]
    exact (h.store i).distinct
  rw [← List.length_map FileSMSChunks.toFileSMS, ← List.toFinset_card_of_nodup hnodup]
  apply Finset.card_le_card
  intro f hf
  obtain ⟨g, hg, rfl⟩ := List.mem_map.mp (List.mem_toFinset.mp hf)
  exact mem_distinctFiles.mpr (h.entries i g hg).known

theorem remembers_boot (D : Deployment k) (i : Fin k) : D.Remembers i (D.initial.nodes i) where
  listed id a h := by
    obtain ⟨f, hf, -, ha⟩ := h
    obtain ⟨g, -, rfl⟩ := List.mem_map.mp hf
    simp at ha
  seen a ha := by
    change a ∈ [] at ha
    simp at ha
  seenOnce := List.nodup_nil
  answers e he := by
    change e ∈ [] at he
    simp at he

theorem Remembers.learns (h : D.Remembers i n) {a : Ipv4Address} (ha : D.OfOther i a)
    {m : Message} (hlearns : Learns n n' (some (a, m)))
    (hanswers : ∀ e ∈ n'.timers.pending, ∀ hd size, e.action = .reply hd size →
      size.toNat ≤ CHUNK_SIZE) : D.Remembers i n' := by
  have hlisted : ∀ id b, Lists n'.files id b → D.OfOther i b := by
    intro id b hb
    rcases hlearns.lists_iff.mp hb with hb | ⟨m', heq, -, -⟩
    · exact h.listed id b hb
    · rw [← (Prod.mk.inj (Option.some.inj heq)).1]
      exact ha
  have hseen : n'.seenNodes = n.seenNodes ∨ n'.seenNodes = (n.addNodeToSeenList a).seenNodes := by
    cases hlearns with
    | advertisement _ hsame _ => exact Or.inr hsame
    | request _ hsame _ => exact Or.inl hsame
    | repeated _ _ _ hsame _ => exact Or.inl hsame
    | stored _ _ _ _ hsame _ => exact Or.inl hsame
  rcases hseen with hsame | hadded
  · exact ⟨hlisted, hsame ▸ h.seen, hsame ▸ h.seenOnce, hanswers⟩
  · refine ⟨hlisted, fun b hb => ?_, hadded ▸ nodup_seenNodes h.seenOnce a, hanswers⟩
    rw [hadded] at hb
    rcases mem_seenNodes hb with hb | rfl
    · exact h.seen b hb
    · exact ha

theorem Remembers.hears (h : D.Remembers i n) {d : Datagram} (ha : D.OfOther i d.sender)
    {rand : ℕ → ℚ} {fl : Flow} (hstep : n.handlePacket d rand = .ok (fl, n'))
    (hlen : n'.files.length < 2 ^ 32) : D.Remembers i n' := by
  obtain ⟨m, delay, sendDelay, hm, -, htimers⟩ := handlePacket_cases hstep
  have hlearns := (NodeStep.handle hstep hlen).learns
  rw [Observation.heard_handled hm] at hlearns
  refine h.learns ha hlearns fun e he hd size haction => ?_
  rw [htimers] at he
  rcases Timers.mem_arm_pending he with he | hsend | hfollow
  · exact h.answers e (Timers.mem_cancelAllEvents_pending he) hd size haction
  · rw [hsend] at haction
    exact absurd haction (by simp)
  · rw [haction] at hfollow
    rcases followUp_eq_some hfollow with ⟨-, -, heq⟩ | ⟨q, -, -, heq⟩
    · exact absurd heq (by simp)
    · rw [(Action.reply.inj heq).2]
      exact FileSMSChunks.getSizeOfChunk_le _ _

theorem Sound.length_of_fire (h : D.Sound s) (hsmall : D.Remembers i (s.nodes i))
    {e : Event Delay Action} (he : e ∈ (s.nodes i).timers.pending) (g : Garbage) :
    ((s.nodes i).emission g e.action).length ≤ D.maxPacket := by
  unfold maxPacket
  cases haction : e.action with
  | send =>
    have hfiles := h.files_length_le i
    rw [emission, onWire_length, wireLength_eq (h.length_lt i)]
    omega
  | requestPacket peer f =>
    rw [emission, RequestHeader.toBytes_length]
    exact le_max_of_le_right (by decide)
  | reply hd size =>
    have hsize := hsmall.answers e he hd size haction
    rw [emission, List.length_append, ReplyHeader.toBytes_length, malloc_length]
    omega

theorem Compact.step (h : D.Compact s) (hsound : D.Sound s) (hstep : D.Step s s') :
    D.Compact s' := by
  -- one node takes the step, and the others stay as they are
  have hnodes : ∀ {i n'}, D.Remembers i n' →
      ∀ j, D.Remembers j (Function.update s.nodes i n' j) := by
    intro i n' hn'
    apply (Function.forall_update_iff s.nodes fun j n => D.Remembers j n).mpr
    exact ⟨hn', fun j _ => h.nodes j⟩
  cases hstep with
  | start i rand =>
    obtain ⟨hlisted, hseen, honce, hanswers⟩ := h.nodes i
    refine ⟨hnodes ⟨hlisted, hseen, honce, fun e he hd size ha => ?_⟩, h.packets⟩
    rcases List.mem_append.mp he with he | he
    · exact hanswers e he hd size ha
    · rw [List.mem_singleton.mp he] at ha
      exact absurd ha (by simp)
  | stop i =>
    obtain ⟨hlisted, hseen, honce, hanswers⟩ := h.nodes i
    refine ⟨hnodes ⟨hlisted, hseen, honce, fun e he => ?_⟩, h.packets⟩
    exact hanswers e (Timers.mem_cancel_pending.mp he).1
  | @fire i e g n' bytes he hfire =>
    obtain ⟨-, rfl, seen, data, rfl⟩ := fire_cases hfire
    obtain ⟨hlisted, hseen, honce, hanswers⟩ := h.nodes i
    refine ⟨hnodes ⟨hlisted, hseen, honce, fun e' he' => ?_⟩, ?_⟩
    · exact hanswers e' (Timers.mem_cancel_pending.mp he').1
    · intro p hp
      rcases List.mem_cons.mp hp with rfl | hp
      · exact hsound.length_of_fire (h.nodes i) he g
      · exact h.packets p hp
  | @deliver i p rand fl n' hp hne _ hhandle =>
    have hlen := hsound.length_lt_of_deliver hp hhandle
    exact ⟨hnodes ((h.nodes i).hears ⟨p.origin, Ne.symm hne, rfl⟩ hhandle hlen), h.packets⟩

theorem compact_of_reachable (hs : D.Reachable s) : D.Compact s := by
  have hinitial : D.Compact D.initial := by
    refine ⟨remembers_boot D, fun p hp => ?_⟩
    change p ∈ [] at hp
    simp at hp
  have hstep : ∀ t t', D.Sound t ∧ D.Compact t → D.Step t t' → D.Sound t' ∧ D.Compact t' :=
    fun t t' h hstep => ⟨h.1.step hstep, h.2.step h.1 hstep⟩
  exact (reaches_invariant hstep hs ⟨sound_initial, hinitial⟩).2

theorem reachable_footprint (D : Deployment k) (haddr : Function.Injective D.address)
    (hs : D.Reachable s) :
    (∀ i, (s.nodes i).files.length ≤ D.distinctFiles.card ∧
      (s.nodes i).seenNodes.length < k ∧ (s.nodes i).address ∉ (s.nodes i).seenNodes ∧
      ∀ f ∈ (s.nodes i).files, f.nodesWhoHaveFile.length < k ∧
        (s.nodes i).address ∉ f.nodesWhoHaveFile) ∧
    ∀ p ∈ s.ether, p.bytes.length ≤ max (2 + 4 * D.distinctFiles.card) (20 + CHUNK_SIZE) := by
  have hsound := sound_of_reachable hs
  have hcompact := compact_of_reachable hs
  refine ⟨fun i => ?_, hcompact.packets⟩
  have hnode := hcompact.nodes i
  rw [hsound.address i]
  refine ⟨hsound.files_length_le i, length_lt_of_ofOther hnode.seenOnce hnode.seen, ?_, ?_⟩
  · exact fun hself => (hnode.seen _ hself).ne haddr rfl
  · intro f hf
    have hother : ∀ a ∈ f.nodesWhoHaveFile, D.OfOther i a :=
      fun a ha => hnode.listed f.mId a ⟨f, hf, rfl, ha⟩
    refine ⟨length_lt_of_ofOther ((hsound.store i).holders f hf) hother, ?_⟩
    exact fun hself => (hother _ hself).ne haddr rfl

theorem reachable_footprint_witness :
    (∃ f ∈ (exchanged.nodes 0).files, 2 ∈ f.nodesWhoHaveFile ∧ f.nodesWhoHaveFile.length < 2 ∧
      (exchanged.nodes 0).address ∉ f.nodesWhoHaveFile) ∧
    ∃ p ∈ exchanged.ether, Message.parse p.bytes = .ok (.reply ⟨2, 1, 9, 1, 0⟩) ∧
      p.bytes.length ≤ max (2 + 4 * pair.distinctFiles.card) (20 + CHUNK_SIZE) := by
  obtain ⟨hnodes, hpackets⟩ := reachable_footprint pair (by decide) exchanged_reachable
  obtain ⟨f, hf, -, ha⟩ := exchanged_holder
  obtain ⟨p, hp, hreply⟩ := exchanged_reply
  obtain ⟨-, -, -, hfiles⟩ := hnodes 0
  exact ⟨⟨f, hf, ha, hfiles f hf⟩, p, hp, hreply, hpackets p hp⟩

end Deployment
end SmsEcho
