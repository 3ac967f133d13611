import SmsEcho.General.Dissemination
import SmsEcho.Network.LossyNetwork
import SmsEcho.Client.DeliveryOrder
import SmsEcho.Client.NodeHistory

/-! What the nodes of a network hold, as a dissemination of chunks. Every run of the lossy
network is one of the dissemination, whatever the radio does. -/

namespace SmsEcho
open ByteBuffer PartialRun KeyedList Dissemination SmsEchoClient

variable {k : ℕ}

namespace SmsEchoClient

instance (n : SmsEchoClient) (id : UInt32) (c : ℕ) : Decidable (n.HasChunk id c) :=
  inferInstanceAs (Decidable (∃ f ∈ n.entry id, f.Has c))

theorem hasChunk_iff {n : SmsEchoClient} {id : UInt32} {c : ℕ} :
    n.HasChunk id c ↔ c ∈ chunksIn n.files id := Iff.rfl

theorem Learns.hasChunk_iff {n n' : SmsEchoClient} {heard : Option (Ipv4Address × Message)}
    (h : Learns n n' heard) {id : UInt32} {c : ℕ} : n'.HasChunk id c ↔ n.HasChunk id c ∨
      ∃ sender hd, heard = some (sender, .reply hd) ∧ hd.fileId = id ∧ hd.chunkId.toNat = c := by
  rw [SmsEchoClient.hasChunk_iff, SmsEchoClient.hasChunk_iff]
  cases h with
  | advertisement hfiles => rw [hfiles, chunksIn_foldl_noteAdvertised]; simp
  | request hfiles => rw [hfiles]; simp
  | @repeated sender hd hindex hhas hfiles =>
    rw [hfiles, iff_self_or]
    rintro ⟨sender', hd', heq, rfl, rfl⟩
    obtain ⟨rfl, rfl⟩ : sender = sender' ∧ hd = hd' := by simpa using heq
    exact hhas
  | @stored sender hd hindex hc hnew hfiles =>
    rw [hfiles, chunksIn_storedFiles sender hc]
    refine or_congr Iff.rfl ⟨?_, ?_⟩
    · rintro ⟨rfl, rfl⟩
      exact ⟨sender, hd, rfl, rfl, rfl⟩
    · rintro ⟨sender', hd', heq, rfl, rfl⟩
      obtain ⟨rfl, rfl⟩ : sender = sender' ∧ hd = hd' := by simpa using heq
      exact ⟨rfl, rfl⟩
  | spoke hfiles => rw [hfiles]; simp

end SmsEchoClient

namespace Deployment

def distinctFiles (D : Deployment k) : Finset FileSMS :=
  Finset.univ.biUnion fun i => (D.lists i).toFinset

def chunks (D : Deployment k) : Finset (UInt32 × ℕ) := D.distinctFiles.biUnion fun f =>
  (Finset.range (chunkCount f.mFileSize).toNat).image fun c => (f.mId, c)

def holdings (D : Deployment k) (nodes : Fin k → SmsEchoClient) (i : Fin k) :
    Finset (UInt32 × ℕ) := D.chunks.filter fun x => (nodes i).HasChunk x.1 x.2

variable {D : Deployment k} {s s' : Network k} {nodes nodes' : Fin k → SmsEchoClient}

theorem mem_distinctFiles {f : FileSMS} : f ∈ D.distinctFiles ↔ f ∈ D.catalogue.files := by
  unfold distinctFiles
  rw [Finset.mem_biUnion]
  constructor
  · rintro ⟨i, -, hf⟩
    exact ⟨i, List.mem_toFinset.mp hf⟩
  · rintro ⟨i, hf⟩
    exact ⟨i, Finset.mem_univ i, List.mem_toFinset.mpr hf⟩

theorem nodup_list (D : Deployment k) (i : Fin k) : (D.lists i).Nodup := (D.distinct i).of_map

theorem card_list (D : Deployment k) (i : Fin k) :
    (D.lists i).toFinset.card = (D.lists i).length := List.toFinset_card_of_nodup (D.nodup_list i)

theorem mem_chunks {id : UInt32} {c : ℕ} : (id, c) ∈ D.chunks ↔
    ∃ f ∈ D.catalogue.files, f.mId = id ∧ c < (chunkCount f.mFileSize).toNat := by
  unfold chunks
  simp only [Finset.mem_biUnion, Finset.mem_image, Finset.mem_range, Prod.mk.injEq,
    mem_distinctFiles]
  constructor
  · rintro ⟨f, hf, c', hc, hid, rfl⟩
    exact ⟨f, hf, hid, hc⟩
  · rintro ⟨f, hf, hid, hc⟩
    exact ⟨f, hf, c, hc, hid, rfl⟩

theorem mem_holdings {i : Fin k} {id : UInt32} {c : ℕ} :
    (id, c) ∈ D.holdings nodes i ↔ (id, c) ∈ D.chunks ∧ (nodes i).HasChunk id c :=
  Finset.mem_filter

theorem chunkCount_pos_of_known {f : FileSMS} (hf : f ∈ D.catalogue.files)
    (hsize : f.mFileSize ≠ 0) : 0 < (chunkCount f.mFileSize).toNat := by
  refine FileSMSChunks.chunkCount_pos (Nat.pos_of_ne_zero fun hzero => hsize ?_) ?_
  · rwa [← UInt64.toNat_inj]
  · exact (D.catalogue.sixteenBit f hf).2.trans (by decide)

theorem Sound.hasChunk_of_fullIn (h : D.Sound s) {i : Fin k} {f : FileSMS}
    (hf : f ∈ D.catalogue.files) (hfull : FullIn (s.nodes i).files f.mId) {c : ℕ}
    (hc : c < (chunkCount f.mFileSize).toNat) : (s.nodes i).HasChunk f.mId c := by
  obtain ⟨g, hg, -, hall⟩ := h.entry_of_fullIn hfull
  have hkey : g.mId = f.mId := by
    have hk := key_of_lookup hg
    exact hk
  have hsame : g.toFileSMS = f :=
    D.catalogue.oneSize _ (h.entries i g (mem_of_lookup hg)).known _ hf hkey
  refine ⟨g, hg, hall c ?_⟩
  rwa [g.fileSizeInChunks_eq, hsame]

theorem Sound.fullIn_iff_hasChunk (h : D.Sound s) {i : Fin k} {f : FileSMS}
    (hf : f ∈ D.catalogue.files) (hsize : f.mFileSize ≠ 0) : FullIn (s.nodes i).files f.mId ↔
      ∀ c < (chunkCount f.mFileSize).toNat, (s.nodes i).HasChunk f.mId c := by
  constructor
  · exact fun hfull c hc => h.hasChunk_of_fullIn hf hfull hc
  · intro hall
    have hpos : 0 < (chunkCount f.mFileSize).toNat := chunkCount_pos_of_known hf hsize
    obtain ⟨g, hg, -⟩ := hall 0 hpos
    have hmem : g ∈ (s.nodes i).files := mem_of_lookup hg
    have hkey : g.mId = f.mId := by
      have hk := key_of_lookup hg
      exact hk
    have hsame : g.toFileSMS = f := D.catalogue.oneSize _ (h.entries i g hmem).known _ hf hkey
    refine ⟨g, hmem, hkey, (FileSMSChunks.isFull_iff_has ((h.store i).counters g hmem)).mpr ?_⟩
    intro c hc
    rw [g.fileSizeInChunks_eq, hsame] at hc
    obtain ⟨g', hg', hhas⟩ := hall c hc
    obtain rfl : g = g' := Option.some.inj (hg.symm.trans hg')
    exact hhas

theorem Sound.fullIn_iff_holdings (h : D.Sound s) {i : Fin k} {f : FileSMS}
    (hf : f ∈ D.catalogue.files) (hsize : f.mFileSize ≠ 0) : FullIn (s.nodes i).files f.mId ↔
      ∀ c < (chunkCount f.mFileSize).toNat, (f.mId, c) ∈ D.holdings s.nodes i := by
  rw [h.fullIn_iff_hasChunk hf hsize]
  refine forall₂_congr fun c hc => ?_
  rw [mem_holdings]
  exact (and_iff_right (mem_chunks.mpr ⟨f, hf, rfl, hc⟩)).symm

def fullSet (n : SmsEchoClient) : Finset FileSMS :=
  (n.fullFiles.map FileSMSChunks.toFileSMS).toFinset

theorem mem_fullSet {n : SmsEchoClient} {f : FileSMS} :
    f ∈ fullSet n ↔ ∃ g ∈ n.files, g.isFull = true ∧ g.toFileSMS = f := by
  unfold fullSet fullFiles
  simp only [List.mem_toFinset, List.mem_map, List.mem_filter]
  constructor
  · rintro ⟨g, ⟨hg, hfull⟩, hsame⟩
    exact ⟨g, hg, hfull, hsame⟩
  · rintro ⟨g, hg, hfull, hsame⟩
    exact ⟨g, ⟨hg, hfull⟩, hsame⟩

theorem card_fullSet {n : SmsEchoClient} (h : StoreInv n.files) :
    (fullSet n).card = n.getNumOfFullFiles := by
  have hids : (n.fullFiles.map fileKey).Nodup := (List.filter_sublist.map fileKey).nodup h.distinct
  have hnodup : (n.fullFiles.map FileSMSChunks.toFileSMS).Nodup := by
    refine List.Nodup.of_map FileSMS.mId ?_
    rwa [List.map_map]
  rw [← fullFiles_length, ← List.length_map FileSMSChunks.toFileSMS]
  exact List.toFinset_card_of_nodup hnodup

theorem Sound.fullSet_subset (h : D.Sound s) (i : Fin k) :
    fullSet (s.nodes i) ⊆ D.distinctFiles := by
  intro f hf
  obtain ⟨g, hg, -, rfl⟩ := mem_fullSet.mp hf
  exact mem_distinctFiles.mpr (h.entries i g hg).known

theorem Sound.getNumOfFullFiles_le (h : D.Sound s) (i : Fin k) :
    (s.nodes i).getNumOfFullFiles ≤ D.distinctFiles.card := by
  rw [← card_fullSet (h.store i)]
  exact Finset.card_le_card (h.fullSet_subset i)

theorem Sound.getNumOfFullFiles_lt (h : D.Sound s) {i : Fin k} {f : FileSMSChunks}
    (hf : f ∈ (s.nodes i).files) (hnot : f.isFull = false) :
    (s.nodes i).getNumOfFullFiles < D.distinctFiles.card := by
  rw [← card_fullSet (h.store i)]
  refine Finset.card_lt_card ((Finset.ssubset_iff_of_subset (h.fullSet_subset i)).mpr ?_)
  refine ⟨f.toFileSMS, mem_distinctFiles.mpr (h.entries i f hf).known, fun hin => ?_⟩
  obtain ⟨g, hg, hfull, hsame⟩ := mem_fullSet.mp hin
  obtain rfl : g = f :=
    List.inj_on_of_nodup_map (h.store i).distinct hg hf (congrArg FileSMS.mId hsame)
  rw [hnot] at hfull
  exact absurd hfull (by simp)

theorem holdings_of_learns (nodes nodes' : Fin k → SmsEchoClient) {R : Finset (Fin k)}
    {m : Message}
    (hheard : ∀ j ∈ R, ∃ sender, Learns (nodes j) (nodes' j) (some (sender, m)))
    (hrest : ∀ j, j ∉ R → (nodes' j).files = (nodes j).files)
    (hchunk : ∀ hd, m = .reply hd → (hd.fileId, hd.chunkId.toNat) ∈ D.chunks) :
    (∀ hd, m = .reply hd → D.holdings nodes' =
        receive (D.holdings nodes) R (hd.fileId, hd.chunkId.toNat)) ∧
      ((∀ hd, m ≠ .reply hd) → D.holdings nodes' = D.holdings nodes) := by
  have hquiet : ∀ j, j ∉ R → ∀ id c, (nodes' j).HasChunk id c ↔ (nodes j).HasChunk id c := by
    intro j hj id c
    rw [SmsEchoClient.hasChunk_iff, SmsEchoClient.hasChunk_iff, hrest j hj]
  constructor
  · rintro hd rfl
    funext j
    ext ⟨id, c⟩
    rw [mem_receive, mem_holdings, mem_holdings]
    by_cases hj : j ∈ R
    · obtain ⟨sender, hlearns⟩ := hheard j hj
      rw [hlearns.hasChunk_iff, and_or_left]
      refine or_congr Iff.rfl ⟨?_, ?_⟩
      · rintro ⟨-, sender', hd', heq, rfl, rfl⟩
        obtain ⟨-, rfl⟩ : sender = sender' ∧ hd = hd' := by simpa using heq
        exact ⟨hj, rfl⟩
      · rintro ⟨-, heq⟩
        obtain ⟨rfl, rfl⟩ := Prod.mk.inj heq
        exact ⟨hchunk hd rfl, sender, hd, rfl, rfl, rfl⟩
    · rw [hquiet j hj]
      exact (or_iff_left fun h => hj h.1).symm
  · intro hne
    funext j
    ext ⟨id, c⟩
    rw [mem_holdings, mem_holdings]
    refine and_congr Iff.rfl ?_
    by_cases hj : j ∈ R
    · obtain ⟨sender, hlearns⟩ := hheard j hj
      rw [hlearns.hasChunk_iff]
      refine or_iff_left ?_
      rintro ⟨sender', hd, heq, -, -⟩
      exact hne hd (Prod.mk.inj (Option.some.inj heq)).2
    · exact hquiet j hj id c

theorem Sound.mem_holdings_of_reply (h : D.Sound s) (haddr : Function.Injective D.address)
    {p : Packet k} {hd : ReplyHeader} (hp : p ∈ s.ether)
    (hm : Message.parse p.bytes = .ok (.reply hd)) :
    (hd.fileId, hd.chunkId.toNat) ∈ D.holdings s.nodes p.origin := by
  obtain ⟨m, hm', hsound⟩ := h.ether p hp
  obtain rfl : .reply hd = m := Except.ok.inj (hm.symm.trans hm')
  obtain ⟨f, hf, hid, -, hchunk, hhold⟩ := hsound
  have hlt : hd.chunkId.toNat < (chunkCount f.mFileSize).toNat := UInt32.lt_iff_toNat_lt.mp hchunk
  rw [mem_holdings, hid]
  exact ⟨mem_chunks.mpr ⟨f, hf, rfl, hlt⟩, h.hasChunk_of_fullIn hf (hhold.fullIn haddr) hlt⟩

theorem Sound.spreads (h : D.Sound s) (haddr : Function.Injective D.address)
    (hstep : D.Step s s') :
    D.holdings s'.nodes = D.holdings s.nodes ∨
      Spread (D.holdings s.nodes) (D.holdings s'.nodes) := by
  -- a node that keeps its files changes nothing
  have hkeep : ∀ i n', n'.files = (s.nodes i).files →
      D.holdings (Function.update s.nodes i n') = D.holdings s.nodes := by
    intro i n' hfiles
    have hnone := holdings_of_learns (D := D) s.nodes (Function.update s.nodes i n')
      (R := ∅) (m := .advertisement []) (by simp)
      (fun j _ => by
        by_cases hj : j = i
        · subst hj
          rw [Function.update_self, hfiles]
        · rw [Function.update_of_ne hj]) (by simp)
    exact hnone.2 (by simp)
  cases hstep with
  | start i rand => exact Or.inl (hkeep i _ rfl)
  | stop i => exact Or.inl (hkeep i _ rfl)
  | fire i he hfire =>
    obtain ⟨-, -, seen, data, rfl⟩ := fire_cases hfire
    exact Or.inl (hkeep i _ rfl)
  | @deliver i p rand fl n' hp hne hopen hhandle =>
    obtain ⟨m, -, -, hm, -, -⟩ := handlePacket_cases hhandle
    have hlearns := (NodeStep.handle hhandle (h.length_lt_of_deliver hp hhandle)).learns
    rw [Observation.heard_handled hm] at hlearns
    have hholdings := holdings_of_learns (D := D) s.nodes (Function.update s.nodes i n')
      (R := {i}) (m := m)
      (fun j hj => by
        obtain rfl := Finset.mem_singleton.mp hj
        rw [Function.update_self]
        exact ⟨_, hlearns⟩)
      (fun j hj => by rw [Function.update_of_ne fun heq => hj (Finset.mem_singleton.mpr heq)])
      (fun hd hreply => by
        rw [hreply] at hm
        exact (mem_holdings.mp (h.mem_holdings_of_reply haddr hp hm)).1)
    by_cases hreply : ∃ hd, m = .reply hd
    · obtain ⟨hd, rfl⟩ := hreply
      exact Or.inr ⟨_, {i}, ⟨p.origin, h.mem_holdings_of_reply haddr hp hm⟩, hholdings.1 hd rfl⟩
    · exact Or.inl (hholdings.2 fun hd heq => hreply ⟨hd, heq⟩)

/-- Whatever the radio loses, repeats or reorders, the chunks that the nodes hold only ever
spread from a node that holds them. -/
theorem lossy_disseminates (D : Deployment k) (haddr : Function.Injective D.address)
    {s s' : Network k} (hs : D.Reachable s) (hs' : Relation.ReflTransGen D.Step s s') :
    Relation.ReflTransGen Spread (D.holdings s.nodes) (D.holdings s'.nodes) := by
  induction hs' with
  | refl => exact .refl
  | tail hrun hstep ih =>
    have hsound := sound_of_reachable (hs.trans hrun)
    rcases hsound.spreads haddr hstep with hsame | hspread
    · rwa [hsame]
    · exact ih.tail hspread

theorem lossy_disseminates_witness : FullIn (exchanged.nodes 0).files 9 ∧
    Relation.ReflTransGen Spread (pair.holdings pair.initial.nodes)
      (pair.holdings exchanged.nodes) := by
  exact ⟨exchanged_fullIn, lossy_disseminates pair (by decide) .refl exchanged_reachable⟩

end Deployment
end SmsEcho
