import SmsEcho.General.JoinRun
import SmsEcho.Client.StoreInvariant

/-! The order in which advertisements and replies arrive does not matter, nor how often each
of them does: every delivery joins its ids and chunks onto what the node has. -/

namespace SmsEcho
open ByteBuffer PartialRun KeyedList JoinRun SmsEchoClient

def knownIn (files : List FileSMSChunks) : Set UInt32 := {id | id ∈ files.map fileKey}

theorem mem_knownIn {files : List FileSMSChunks} {id : UInt32} :
    id ∈ knownIn files ↔ ∃ f ∈ files, f.mId = id := List.mem_map

def chunksIn (files : List FileSMSChunks) (id : UInt32) : Set ℕ :=
  {c | ∃ f, lookup fileKey files id = some f ∧ f.Has c}

/-- The known ids, the chunk set of each id, and the largest count of full files seen. -/
abbrev Inventory := Set UInt32 × (UInt32 → Set ℕ) × ℕ

namespace SmsEchoClient

def inventory (n : SmsEchoClient) : Inventory :=
  (knownIn n.files, chunksIn n.files, n.maximumFullFilesSeen)

def fullCount (n : SmsEchoClient) : Inventory := (∅, fun _ => ∅, n.getNumOfFullFiles)

end SmsEchoClient

namespace Delivery

def ids : Delivery → Set UInt32
  | advertisement raw num _ =>
    {id | ∃ ps, readPairs raw num.toNat = some ps ∧ ∃ p ∈ ps, p.1.toUInt32 = id}
  | reply fileId _ _ _ => {fileId}

def chunks : Delivery → UInt32 → Set ℕ
  | advertisement .. => fun _ => ∅
  | reply fileId _ chunkId _ => fun id => {c | id = fileId ∧ c = chunkId.toNat}

def count : Delivery → ℕ
  | advertisement _ num _ => num.toNat
  | reply .. => 0

def contribution (d : Delivery) : Inventory := (d.ids, d.chunks, d.count)

def Consistent (size : UInt32 → UInt64) : Delivery → Prop
  | advertisement raw num _ => ∃ ps, readPairs raw num.toNat = some ps ∧
      ∀ p ∈ ps, p.2.toUInt64 = size p.1.toUInt32 ∧ 0 < p.2.toNat
  | reply fileId fileSize chunkId _ => fileSize.toUInt64 = size fileId ∧ 0 < fileSize.toNat ∧
      chunkId < chunkCount (size fileId)

end Delivery

structure Measured (size : UInt32 → UInt64) (files : List FileSMSChunks) : Prop where
  distinct : (files.map fileKey).Nodup
  counters : ∀ f ∈ files, f.CounterExact
  sizes : ∀ f ∈ files, f.mFileSize = size f.mId

structure Agrees (size : UInt32 → UInt64) (n : SmsEchoClient) : Prop where
  files : Measured size n.files
  noted : n.getNumOfFullFiles ≤ n.maximumFullFilesSeen

section Upsert
variable {id : UInt32} {change : FileSMSChunks → FileSMSChunks} {fresh : FileSMSChunks}
  {files : List FileSMSChunks}

theorem knownIn_upsert (hc : ∀ f, fileKey f = id → fileKey (change f) = id)
    (hf : fileKey fresh = id) :
    knownIn (upsert fileKey id change fresh files) = knownIn files ∪ {id} := by
  ext j
  exact mem_map_key_upsert hc hf

theorem chunksIn_upsert (hc : ∀ f, fileKey f = id → fileKey (change f) = id)
    (hf : fileKey fresh = id) (C : Set ℕ)
    (hchange : ∀ f, lookup fileKey files id = some f → ∀ c, (change f).Has c ↔ f.Has c ∨ c ∈ C)
    (hfresh : lookup fileKey files id = none → ∀ c, fresh.Has c ↔ c ∈ C) :
    chunksIn (upsert fileKey id change fresh files) =
      chunksIn files ⊔ fun j => {c | j = id ∧ c ∈ C} := by
  funext j
  ext c
  change (∃ f, lookup fileKey (upsert fileKey id change fresh files) j = some f ∧ f.Has c) ↔
    (∃ f, lookup fileKey files j = some f ∧ f.Has c) ∨ j = id ∧ c ∈ C
  rw [lookup_upsert hc hf]
  by_cases hj : j = id
  · subst hj
    rw [if_pos rfl]
    cases hl : lookup fileKey files j with
    | none => simp [hfresh hl c]
    | some f => simp [hchange f hl c]
  · simp [hj]

end Upsert

theorem knownIn_foldl_noteAdvertised (sender : Ipv4Address) (ps : List (UInt16 × UInt16))
    (files : List FileSMSChunks) :
    knownIn ((ps.map receivedFile).foldl (noteAdvertised sender) files) =
      knownIn files ∪ {id | ∃ p ∈ ps, p.1.toUInt32 = id} := by
  induction ps generalizing files with
  | nil =>
    ext id
    simp
  | cons p ps ih =>
    have hnote : knownIn (noteAdvertised sender files (receivedFile p)) =
        knownIn files ∪ {p.1.toUInt32} := by
      rw [noteAdvertised_eq_upsert]
      exact knownIn_upsert (by simp) (by simp)
    rw [List.map_cons, List.foldl_cons, ih, hnote]
    ext id
    simp only [Set.mem_union, Set.mem_singleton_iff, Set.mem_ofPred_eq, List.exists_mem_cons_iff,
      or_assoc, eq_comm]

theorem chunksIn_foldl_noteAdvertised (sender : Ipv4Address) (ps : List (UInt16 × UInt16))
    (files : List FileSMSChunks) :
    chunksIn ((ps.map receivedFile).foldl (noteAdvertised sender) files) = chunksIn files := by
  induction ps generalizing files with
  | nil => rfl
  | cons p ps ih =>
    have hnote : chunksIn (noteAdvertised sender files (receivedFile p)) = chunksIn files := by
      rw [noteAdvertised_eq_upsert, chunksIn_upsert (by simp) (by simp) ∅]
      · funext j
        ext c
        simp
      · simp
      · intro _ c
        simp [receivedFile, FileSMSChunks.construct_not_has]
    rw [List.map_cons, List.foldl_cons, ih, hnote]

theorem knownIn_storedFiles (n : SmsEchoClient) (id size c : UInt32) (sender : Ipv4Address) :
    knownIn (n.storedFiles id size c sender) = knownIn n.files ∪ {id} :=
  knownIn_upsert (by simp) (by simp)

theorem chunksIn_storedFiles {n : SmsEchoClient} {id size c : UInt32} (sender : Ipv4Address)
    (hc : c < (n.target id size).fileSizeInChunks) :
    chunksIn (n.storedFiles id size c sender) =
      chunksIn n.files ⊔ fun j => {k | j = id ∧ k ∈ ({c.toNat} : Set ℕ)} := by
  refine chunksIn_upsert (by simp) (by simp) {c.toNat} (fun f hf k => ?_) fun hnone k => ?_
  · rw [target_of_some hf] at hc
    rw [FileSMSChunks.storeChunk_has (by simpa using hc), FileSMSChunks.addNodeToSeenList_has,
      Set.mem_singleton_iff]
  · rw [target_of_none hnone] at hc
    rw [FileSMSChunks.storeChunk_has (by simpa using hc), FileSMSChunks.addNodeToSeenList_has]
    simp [FileSMSChunks.construct_not_has]

namespace Measured
variable {size : UInt32 → UInt64} {files files' : List FileSMSChunks}

theorem fullIn_iff (h : Measured size files) {id : UInt32} :
    FullIn files id ↔ id ∈ knownIn files ∧
      ∀ c < (chunkCount (size id)).toNat, c ∈ chunksIn files id := by
  constructor
  · rintro ⟨f, hf, rfl, hfull⟩
    refine ⟨mem_knownIn.mpr ⟨f, hf, rfl⟩, fun c hc => ⟨f, lookup_of_mem h.distinct hf, ?_⟩⟩
    apply (FileSMSChunks.isFull_iff_has (h.counters f hf)).mp hfull c
    rwa [f.fileSizeInChunks_eq, h.sizes f hf]
  · rintro ⟨hknown, hall⟩
    obtain ⟨f, hf, rfl⟩ := mem_knownIn.mp hknown
    refine ⟨f, hf, rfl, (FileSMSChunks.isFull_iff_has (h.counters f hf)).mpr fun c hc => ?_⟩
    rw [f.fileSizeInChunks_eq, h.sizes f hf] at hc
    obtain ⟨g, hg, hgc⟩ := hall c hc
    have hself := lookup_of_mem h.distinct hf
    obtain rfl : f = g := Option.some.inj (hself.symm.trans hg)
    exact hgc

theorem length_le_ncard (h : Measured size files) {ids : Set UInt32}
    (hknown : knownIn files ⊆ ids) : files.length ≤ ids.ncard := by
  have hset : knownIn files = ((files.map fileKey).toFinset : Set UInt32) := by
    ext id
    rw [Finset.mem_coe, List.mem_toFinset]
    rfl
  calc files.length = (files.map fileKey).toFinset.card := by
        rw [List.toFinset_card_of_nodup h.distinct, List.length_map]
    _ = (knownIn files).ncard := by rw [hset, Set.ncard_coe_finset]
    _ ≤ ids.ncard := Set.ncard_le_ncard hknown

theorem fullIn_of_le (h : Measured size files) (h' : Measured size files')
    (hknown : knownIn files ⊆ knownIn files') (hchunks : chunksIn files ≤ chunksIn files')
    (id : UInt32) (hfull : FullIn files id) : FullIn files' id := by
  rw [h.fullIn_iff] at hfull
  exact h'.fullIn_iff.mpr ⟨hknown hfull.1, fun c hc => hchunks id (hfull.2 c hc)⟩

theorem absorb (h : Measured size files) (sender : Ipv4Address) {ps : List (UInt16 × UInt16)}
    (hps : ∀ p ∈ ps, p.2.toUInt64 = size p.1.toUInt32) :
    Measured size ((ps.map receivedFile).foldl (noteAdvertised sender) files) where
  distinct := nodup_foldl_noteAdvertised sender _ h.distinct
  counters := counterExact_foldl_noteAdvertised sender ps h.counters
  sizes := by
    refine forall_mem_foldl_noteAdvertised h.sizes (fun f hf _ => ?_) fun p hp => ?_
    · rw [FileSMSChunks.addNodeToSeenList_toFileSMS]
      exact hf
    · rw [FileSMSChunks.addNodeToSeenList_toFileSMS]
      exact hps p hp

/-- An advertised file is not full when it is new: it has a chunk, and the node has none. -/
theorem fullIn_absorb (h : Measured size files) (sender : Ipv4Address)
    {ps : List (UInt16 × UInt16)}
    (hps : ∀ p ∈ ps, p.2.toUInt64 = size p.1.toUInt32 ∧ 0 < p.2.toNat) (id : UInt32) :
    FullIn ((ps.map receivedFile).foldl (noteAdvertised sender) files) id ↔ FullIn files id := by
  have h' := h.absorb sender fun p hp => (hps p hp).1
  rw [h.fullIn_iff, h'.fullIn_iff, knownIn_foldl_noteAdvertised, chunksIn_foldl_noteAdvertised]
  refine and_congr_left fun hall => ?_
  rw [Set.mem_union]
  constructor
  · rintro (hid | ⟨p, hp, rfl⟩)
    · exact hid
    · have hlt : p.2.toUInt64.toNat < 2 ^ 32 := by
        rw [UInt16.toNat_toUInt64]
        exact p.2.toNat_lt.trans (by decide)
      have hpos : 0 < (chunkCount p.2.toUInt64).toNat :=
        FileSMSChunks.chunkCount_pos (by rw [UInt16.toNat_toUInt64]; exact (hps p hp).2) hlt
      rw [(hps p hp).1] at hpos
      obtain ⟨f, hf, -⟩ := hall 0 hpos
      have hkey := key_of_lookup hf
      exact mem_knownIn.mpr ⟨f, mem_of_lookup hf, hkey⟩
  · exact Or.inl

theorem stored {n : SmsEchoClient} (h : Measured size n.files) {id fileSize c : UInt32}
    (sender : Ipv4Address) (hsize : fileSize.toUInt64 = size id)
    (hc : c < (n.target id fileSize).fileSizeInChunks)
    (hnew : ¬ (n.target id fileSize).Has c.toNat) :
    Measured size (n.storedFiles id fileSize c sender) where
  distinct := nodup_storedFiles h.distinct id fileSize c sender
  counters := counterExact_storedFiles h.counters sender hc hnew
  sizes := by
    have ht : (n.target id fileSize).mFileSize = size (n.target id fileSize).mId :=
      target_induction h.sizes hsize
    apply forall_mem_storedFiles h.sizes
    rw [FileSMSChunks.storeChunk_toFileSMS, FileSMSChunks.addNodeToSeenList_toFileSMS]
    exact ht

end Measured

namespace Agrees
variable {size : UInt32 → UInt64} {n : SmsEchoClient}

theorem fullCount_le_inventory (h : Agrees size n) : n.fullCount ≤ n.inventory :=
  ⟨Set.empty_subset _, fun _ => Set.empty_subset _, h.noted⟩

theorem advertisement (h : Agrees size n) {raw : Bytes} {num : UInt8} {sender : Ipv4Address}
    (hd : Delivery.Consistent size (.advertisement raw num sender)) :
    ∃ n', n.process (.advertisement raw num sender) = .ok n' ∧ Agrees size n' ∧
      n.fullCount ≤ n'.fullCount ∧
      n'.inventory = n.inventory ⊔ (Delivery.advertisement raw num sender).contribution ⊔
        n'.fullCount := by
  obtain ⟨ps, hps, hsizes⟩ := hd
  obtain ⟨n', hn'⟩ : ∃ n', n.process (.advertisement raw num sender) = .ok n' :=
    InRange.process_ok (readPairs_isSome_iff.mp (by rw [hps]; rfl))
  obtain ⟨ps', hps', heq⟩ := process_advertisement hn'
  obtain rfl : ps = ps' := Option.some.inj (hps.symm.trans hps')
  have hfiles : n'.files = (ps.map receivedFile).foldl (noteAdvertised sender) n.files := by
    rw [heq]
  have hmax : n'.maximumFullFilesSeen = max n.maximumFullFilesSeen num.toNat := by rw [heq]
  have hmeasured : Measured size n'.files :=
    hfiles ▸ h.files.absorb sender fun p hp => (hsizes p hp).1
  have hfull : ∀ id, FullIn n'.files id ↔ FullIn n.files id :=
    hfiles ▸ h.files.fullIn_absorb sender hsizes
  have hcount : n'.getNumOfFullFiles = n.getNumOfFullFiles :=
    le_antisymm (getNumOfFullFiles_le hmeasured.distinct fun id => (hfull id).mp)
      (getNumOfFullFiles_le h.files.distinct fun id => (hfull id).mpr)
  have hnoted : n'.getNumOfFullFiles ≤ n'.maximumFullFilesSeen := by
    rw [hcount, hmax]
    exact h.noted.trans (le_max_left _ _)
  refine ⟨n', hn', ⟨hmeasured, hnoted⟩, ⟨le_rfl, le_rfl, hcount.ge⟩, ?_⟩
  have hids : (Delivery.advertisement raw num sender).ids =
      {id | ∃ p ∈ ps, p.1.toUInt32 = id} := by
    ext id
    simp [Delivery.ids, hps]
  refine Prod.ext ?_ (Prod.ext ?_ ?_)
  · change knownIn n'.files = knownIn n.files ∪ (Delivery.advertisement raw num sender).ids ∪ ∅
    rw [hfiles, knownIn_foldl_noteAdvertised, hids, Set.union_empty]
  · change chunksIn n'.files = (chunksIn n.files ⊔ fun _ => ∅) ⊔ fun _ => ∅
    rw [hfiles, chunksIn_foldl_noteAdvertised]
    funext id
    simp
  · change n'.maximumFullFilesSeen =
      max (max n.maximumFullFilesSeen num.toNat) n'.getNumOfFullFiles
    rw [← hmax, max_eq_left hnoted]

theorem reply (h : Agrees size n) {fileId fileSize chunkId : UInt32} {sender : Ipv4Address}
    (hindex : n.Indexed fileId)
    (hd : Delivery.Consistent size (.reply fileId fileSize chunkId sender)) :
    ∃ n', n.process (.reply fileId fileSize chunkId sender) = .ok n' ∧ Agrees size n' ∧
      n.fullCount ≤ n'.fullCount ∧
      n'.inventory = n.inventory ⊔ (Delivery.reply fileId fileSize chunkId sender).contribution ⊔
        n'.fullCount := by
  obtain ⟨hsize, -, hchunk⟩ := hd
  have htarget : (n.target fileId fileSize).mFileSize = size (n.target fileId fileSize).mId :=
    target_induction h.files.sizes hsize
  have hc : chunkId < (n.target fileId fileSize).fileSizeInChunks := by
    rw [FileSMSChunks.fileSizeInChunks_eq, htarget, target_mId]
    exact hchunk
  obtain ⟨n', hn'⟩ : ∃ n', n.process (.reply fileId fileSize chunkId sender) = .ok n' :=
    InRange.process_ok ⟨hindex, hc⟩
  obtain ⟨b, hb⟩ := process_reply hn'
  obtain ⟨-, ⟨hhas, -, rfl⟩ | ⟨hnew, -, heq⟩⟩ := addNewChunk_cases hindex hb
  · -- a chunk that is there already: its entry is known
    obtain ⟨f, hf, hfc⟩ := entry_of_target_has hhas
    have hid := key_of_lookup hf
    have hkey : fileId ∈ knownIn n'.files := mem_knownIn.mpr ⟨f, mem_of_lookup hf, hid⟩
    refine ⟨n', hn', h, le_rfl, ?_⟩
    rw [sup_assoc, left_eq_sup, sup_le_iff]
    refine ⟨⟨Set.singleton_subset_iff.mpr hkey, ?_, Nat.zero_le _⟩, h.fullCount_le_inventory⟩
    rintro id c ⟨rfl, rfl⟩
    exact ⟨f, hf, hfc⟩
  · have hfiles : n'.files = n.storedFiles fileId fileSize chunkId sender := by
      rw [heq]
      rfl
    have hmax : n'.maximumFullFilesSeen = max n.maximumFullFilesSeen n'.getNumOfFullFiles := by
      rw [heq]
      rfl
    have hmeasured : Measured size n'.files := hfiles ▸ h.files.stored sender hsize hc hnew
    have hknown : knownIn n'.files = knownIn n.files ∪ {fileId} :=
      hfiles ▸ knownIn_storedFiles n fileId fileSize chunkId sender
    have hchunks := chunksIn_storedFiles sender hc
    rw [← hfiles] at hchunks
    have hcount : n.getNumOfFullFiles ≤ n'.getNumOfFullFiles := by
      apply getNumOfFullFiles_le h.files.distinct
      apply h.files.fullIn_of_le hmeasured
      · exact hknown ▸ Set.subset_union_left
      · exact hchunks ▸ le_sup_left
    have hnoted : n'.getNumOfFullFiles ≤ n'.maximumFullFilesSeen := hmax ▸ le_max_right _ _
    refine ⟨n', hn', ⟨hmeasured, hnoted⟩, ⟨le_rfl, le_rfl, hcount⟩, ?_⟩
    refine Prod.ext ?_ (Prod.ext ?_ ?_)
    · change knownIn n'.files = knownIn n.files ∪ {fileId} ∪ ∅
      rw [hknown, Set.union_empty]
    · change chunksIn n'.files =
        (chunksIn n.files ⊔ fun id => {c | id = fileId ∧ c = chunkId.toNat}) ⊔ fun _ => ∅
      rw [hchunks]
      exact (sup_bot_eq _).symm
    · change n'.maximumFullFilesSeen =
        max (max n.maximumFullFilesSeen 0) n'.getNumOfFullFiles
      rw [Nat.max_zero, hmax]

theorem process (h : Agrees size n) (hlen : n.files.length ≤ 2 ^ 31) {d : Delivery}
    (hd : d.Consistent size) :
    ∃ n', n.process d = .ok n' ∧ Agrees size n' ∧ n.fullCount ≤ n'.fullCount ∧
      n'.inventory = n.inventory ⊔ d.contribution ⊔ n'.fullCount := by
  cases d with
  | advertisement raw num sender => exact h.advertisement hd
  | reply fileId fileSize chunkId sender => exact h.reply (indexed_of_length hlen fileId) hd

theorem run (h : Agrees size n) {ids : Set UInt32} (hroom : ids.ncard ≤ 2 ^ 31)
    (hknown : knownIn n.files ⊆ ids) {ds : List Delivery}
    (hds : ∀ d ∈ ds, d.Consistent size ∧ d.ids ⊆ ids) :
    ∃ n', PartialRun.run SmsEchoClient.process n ds = .ok n' ∧ Agrees size n' ∧
      n'.inventory = n.inventory ⊔ joinOf Delivery.contribution ds ⊔ n'.fullCount := by
  have hstep : ∀ m d, Agrees size m ∧ knownIn m.files ⊆ ids → d.Consistent size ∧ d.ids ⊆ ids →
      ∃ m', m.process d = .ok m' ∧ (Agrees size m' ∧ knownIn m'.files ⊆ ids) ∧
        m.fullCount ≤ m'.fullCount ∧
        m'.inventory = m.inventory ⊔ d.contribution ⊔ m'.fullCount := by
    rintro m d ⟨hm, hmids⟩ ⟨hd, hdids⟩
    have hlen := (hm.files.length_le_ncard hmids).trans hroom
    obtain ⟨m', hm', hagrees, hle, hinv⟩ := hm.process hlen hd
    have hids : knownIn m'.files = knownIn m.files ∪ d.ids ∪ ∅ := congrArg Prod.fst hinv
    refine ⟨m', hm', ⟨hagrees, ?_⟩, hle, hinv⟩
    rw [hids, Set.union_empty]
    exact Set.union_subset hmids hdids
  obtain ⟨n', hrun, ⟨hagrees, -⟩, -, hinv⟩ :=
    run_eq_join hstep hds ⟨h, hknown⟩ h.fullCount_le_inventory
  exact ⟨n', hrun, hagrees, hinv⟩

end Agrees

def deliveredChunks (ds : List Delivery) (id : UInt32) : Set ℕ :=
  {c | ∃ fileSize chunkId sender, .reply id fileSize chunkId sender ∈ ds ∧ c = chunkId.toNat}

theorem joinOf_contribution_chunks (ds : List Delivery) (id : UInt32) :
    (joinOf Delivery.contribution ds).2.1 id = deliveredChunks ds id := by
  induction ds with
  | nil =>
    ext c
    change False ↔ ∃ _ _ _, _ ∧ _
    simp
  | cons d ds ih =>
    have hcons : (joinOf Delivery.contribution (d :: ds)).2.1 id =
        d.chunks id ∪ (joinOf Delivery.contribution ds).2.1 id := rfl
    rw [hcons, ih]
    ext c
    cases d with
    | advertisement raw num sender => simp [Delivery.chunks, deliveredChunks]
    | reply fileId fileSize chunkId sender =>
      simp only [Delivery.chunks, deliveredChunks, Set.mem_union, Set.mem_ofPred_eq, List.mem_cons,
        Delivery.reply.injEq]
      constructor
      · rintro (⟨rfl, rfl⟩ | ⟨s, k, a, hmem, rfl⟩)
        · exact ⟨fileSize, chunkId, sender, Or.inl ⟨rfl, rfl, rfl, rfl⟩, rfl⟩
        · exact ⟨s, k, a, Or.inr hmem, rfl⟩
      · rintro ⟨s, k, a, ⟨rfl, rfl, rfl, rfl⟩ | hmem, rfl⟩
        · exact Or.inl ⟨rfl, rfl⟩
        · exact Or.inr ⟨s, k, a, hmem, rfl⟩

def deliveredIds (ds : List Delivery) : Set UInt32 := {id | ∃ d ∈ ds, id ∈ d.ids}

/-- Two runs from one state that deliver the same things, in any order and any number of
times, end alike. The source finds a file by an `int32_t` index, which the ids known or delivered
must not outgrow. -/
theorem run_process_order_independent {size : UInt32 → UInt64} {n : SmsEchoClient}
    (h : Agrees size n) {ds : List Delivery} (hds : ∀ d ∈ ds, d.Consistent size)
    (hroom : (knownIn n.files ∪ deliveredIds ds).ncard ≤ 2 ^ 31) :
    ∃ n', run process n ds = .ok n' ∧
      (∀ id, chunksIn n'.files id = chunksIn n.files id ∪ deliveredChunks ds id) ∧
      ∀ es : List Delivery, (∀ d, d ∈ es ↔ d ∈ ds) → ∃ n'', run process n es = .ok n'' ∧
        knownIn n''.files = knownIn n'.files ∧ chunksIn n''.files = chunksIn n'.files ∧
        (∀ id, FullIn n''.files id ↔ FullIn n'.files id) ∧
        n''.maximumFullFilesSeen = n'.maximumFullFilesSeen := by
  have hids : ∀ d ∈ ds, d.Consistent size ∧ d.ids ⊆ knownIn n.files ∪ deliveredIds ds :=
    fun d hd => ⟨hds d hd, fun id hid => Or.inr ⟨d, hd, hid⟩⟩
  obtain ⟨n', hrun, hagrees, hinv⟩ := h.run hroom Set.subset_union_left hids
  refine ⟨n', hrun, fun id => ?_, fun es hes => ?_⟩
  · have hchunks := congrArg (fun i : Inventory => i.2.1 id) hinv
    change chunksIn n'.files id =
      (chunksIn n.files id ∪ (joinOf Delivery.contribution ds).2.1 id) ∪ ∅ at hchunks
    rw [hchunks, joinOf_contribution_chunks, Set.union_empty]
  · obtain ⟨n'', hrun', hagrees', hinv'⟩ :=
      h.run hroom Set.subset_union_left fun d hd => hids d ((hes d).mp hd)
    rw [joinOf_congr Delivery.contribution hes] at hinv'
    have hknown : knownIn n''.files = knownIn n'.files :=
      (congrArg Prod.fst hinv').trans (congrArg Prod.fst hinv).symm
    have hchunks : chunksIn n''.files = chunksIn n'.files :=
      (congrArg (fun i : Inventory => i.2.1) hinv').trans
        (congrArg (fun i : Inventory => i.2.1) hinv).symm
    have hfull : ∀ id, FullIn n''.files id ↔ FullIn n'.files id := by
      intro id
      rw [hagrees.files.fullIn_iff, hagrees'.files.fullIn_iff, hknown, hchunks]
    have hcount : n''.getNumOfFullFiles = n'.getNumOfFullFiles :=
      le_antisymm (getNumOfFullFiles_le hagrees'.files.distinct fun id => (hfull id).mp)
        (getNumOfFullFiles_le hagrees.files.distinct fun id => (hfull id).mpr)
    have hseen := congrArg (fun i : Inventory => i.2.2) hinv
    have hseen' := congrArg (fun i : Inventory => i.2.2) hinv'
    change n'.maximumFullFilesSeen = max (max n.maximumFullFilesSeen
      (joinOf Delivery.contribution ds).2.2) n'.getNumOfFullFiles at hseen
    change n''.maximumFullFilesSeen = max (max n.maximumFullFilesSeen
      (joinOf Delivery.contribution ds).2.2) n''.getNumOfFullFiles at hseen'
    refine ⟨n'', hrun', hknown, hchunks, hfull, ?_⟩
    rw [hseen, hseen', hcount]

theorem run_process_order_independent_witness :
    ∃ n' n'', run process ((construct 0).setFiles [⟨3, 2⟩])
        [.advertisement [5, 0, 2, 0] 1 9, .reply 5 2 1 9] = .ok n' ∧
      run process ((construct 0).setFiles [⟨3, 2⟩])
        [.reply 5 2 1 9, .advertisement [5, 0, 2, 0] 1 9, .reply 5 2 1 9] = .ok n'' ∧
      knownIn n''.files = knownIn n'.files ∧ chunksIn n''.files = chunksIn n'.files ∧
      (∀ id, FullIn n''.files id ↔ FullIn n'.files id) ∧
      n''.maximumFullFilesSeen = n'.maximumFullFilesSeen := by
  have hagrees : Agrees (fun _ => 2) ((construct 0).setFiles [⟨3, 2⟩]) :=
    ⟨⟨by decide, (storeInv_map_construct (l := [⟨3, 2⟩]) (by decide)).counters, by decide⟩,
      by decide⟩
  have hds : ∀ d ∈ [Delivery.advertisement [5, 0, 2, 0] 1 9, .reply 5 2 1 9],
      d.Consistent fun _ => 2 := by
    intro d hd
    rcases List.mem_cons.mp hd with rfl | hd
    · exact ⟨[(5, 2)], by decide, by simp⟩
    · rw [List.mem_singleton.mp hd]
      exact ⟨by decide, by decide, by decide⟩
  have hids : knownIn ((construct 0).setFiles [⟨3, 2⟩]).files ∪
      deliveredIds [.advertisement [5, 0, 2, 0] 1 9, .reply 5 2 1 9] ⊆ {3, 5} := by
    rintro id (hid | ⟨d, hd, hid⟩)
    · exact Or.inl (List.mem_singleton.mp hid)
    · right
      rcases List.mem_cons.mp hd with rfl | hd
      · obtain ⟨ps, hps, p, hp, rfl⟩ := hid
        obtain rfl : [(5, 2)] = ps := Option.some.inj hps
        rw [List.mem_singleton.mp hp]
        rfl
      · rw [List.mem_singleton.mp hd] at hid
        exact hid
  have hpair : ({3, 5} : Set UInt32).ncard = 2 := Set.ncard_pair (by decide)
  have hroom := (Set.ncard_le_ncard hids).trans (hpair.trans_le (by norm_num : 2 ≤ 2 ^ 31))
  obtain ⟨n', hn', -, hsame⟩ := run_process_order_independent hagrees hds hroom
  obtain ⟨n'', hn'', hend⟩ := hsame
    [.reply 5 2 1 9, .advertisement [5, 0, 2, 0] 1 9, .reply 5 2 1 9]
    (fun d => by simp only [List.mem_cons, List.not_mem_nil]; tauto)
  exact ⟨n', n'', hn', hn'', hend⟩

end SmsEcho
