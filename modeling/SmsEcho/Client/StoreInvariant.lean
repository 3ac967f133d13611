import SmsEcho.Client.Handler

/-! The representation invariant of a node's files, kept by every operation, and the
order in which files only ever grow: ids and sizes stay, chunks and holders are added. -/

namespace SmsEcho
open ByteBuffer PartialRun KeyedList SmsEchoClient

namespace FileSMSChunks

structure Extends (f g : FileSMSChunks) : Prop where
  same : g.toFileSMS = f.toFileSMS
  has : ∀ c, f.Has c → g.Has c
  holders : ∀ a ∈ f.nodesWhoHaveFile, a ∈ g.nodesWhoHaveFile

theorem Extends.refl (f : FileSMSChunks) : f.Extends f := ⟨rfl, fun _ h => h, fun _ h => h⟩

theorem Extends.trans {f g h : FileSMSChunks} (hfg : f.Extends g) (hgh : g.Extends h) :
    f.Extends h :=
  ⟨hgh.same.trans hfg.same, fun c hc => hgh.has c (hfg.has c hc),
    fun a ha => hgh.holders a (hfg.holders a ha)⟩

theorem fileSizeInChunks_of_same {f g : FileSMSChunks} (h : g.toFileSMS = f.toFileSMS) :
    g.fileSizeInChunks = f.fileSizeInChunks := by
  rw [f.fileSizeInChunks_eq, g.fileSizeInChunks_eq, h]

theorem Extends.isFull {f g : FileSMSChunks} (h : f.Extends g) (hf : f.CounterExact)
    (hg : g.CounterExact) (hfull : f.isFull = true) : g.isFull = true := by
  rw [isFull_iff_has hf] at hfull
  rw [isFull_iff_has hg, fileSizeInChunks_of_same h.same]
  exact fun c hc => h.has c (hfull c hc)

theorem extends_addNodeToSeenList (f : FileSMSChunks) (a : Ipv4Address) :
    f.Extends (f.addNodeToSeenList a) where
  same := addNodeToSeenList_toFileSMS f a
  has _ hc := addNodeToSeenList_has.mpr hc
  holders _ hb := mem_addNodeToSeenList.mpr (Or.inl hb)

theorem extends_storeChunk {f : FileSMSChunks} {c : UInt32} (hc : c < f.fileSizeInChunks) :
    f.Extends (f.storeChunk c) where
  same := rfl
  has _ hd := (storeChunk_has hc).mpr (Or.inl hd)
  holders _ ha := ha

end FileSMSChunks

structure StoreInv (files : List FileSMSChunks) : Prop where
  distinct : (files.map fileKey).Nodup
  counters : ∀ f ∈ files, f.CounterExact
  holders : ∀ f ∈ files, f.nodesWhoHaveFile.Nodup

def StoreExtends (files files' : List FileSMSChunks) : Prop :=
  ∀ f ∈ files, ∃ g ∈ files', f.Extends g

theorem StoreExtends.refl (files : List FileSMSChunks) : StoreExtends files files :=
  fun f hf => ⟨f, hf, .refl f⟩

theorem StoreExtends.trans {a b c : List FileSMSChunks} (hab : StoreExtends a b)
    (hbc : StoreExtends b c) : StoreExtends a c := by
  intro f hf
  obtain ⟨g, hg, hfg⟩ := hab f hf
  obtain ⟨h, hh, hgh⟩ := hbc g hg
  exact ⟨h, hh, hfg.trans hgh⟩

def FullIn (files : List FileSMSChunks) (id : UInt32) : Prop :=
  ∃ f ∈ files, f.mId = id ∧ f.isFull = true

def fullIds (n : SmsEchoClient) : List UInt32 :=
  (n.files.filter FileSMSChunks.isFull).map fileKey

theorem fullIds_length (n : SmsEchoClient) : (fullIds n).length = n.getNumOfFullFiles := by
  rw [fullIds, List.length_map, getNumOfFullFiles, List.countP_eq_length_filter]

theorem mem_fullIds {n : SmsEchoClient} {id : UInt32} : id ∈ fullIds n ↔ FullIn n.files id := by
  unfold fullIds FullIn
  constructor
  · intro h
    obtain ⟨f, hf, rfl⟩ := List.mem_map.mp h
    exact ⟨f, (List.mem_filter.mp hf).1, rfl, (List.mem_filter.mp hf).2⟩
  · rintro ⟨f, hf, rfl, hfull⟩
    exact List.mem_map_of_mem (List.mem_filter.mpr ⟨hf, hfull⟩)

theorem getNumOfFullFiles_le {n n' : SmsEchoClient} (hn : (n.files.map fileKey).Nodup)
    (h : ∀ id, FullIn n.files id → FullIn n'.files id) :
    n.getNumOfFullFiles ≤ n'.getNumOfFullFiles := by
  have hnodup : (fullIds n).Nodup := (List.filter_sublist.map fileKey).nodup hn
  have hsub : fullIds n ⊆ fullIds n' := fun id hid => mem_fullIds.mpr (h id (mem_fullIds.mp hid))
  have hlen := (hnodup.subperm hsub).length_le
  rwa [fullIds_length, fullIds_length] at hlen

theorem StoreExtends.fullIn {files files' : List FileSMSChunks} (h : StoreExtends files files')
    (hi : ∀ f ∈ files, f.CounterExact) (hi' : ∀ f ∈ files', f.CounterExact) {id : UInt32}
    (hfull : FullIn files id) : FullIn files' id := by
  obtain ⟨f, hf, rfl, hff⟩ := hfull
  obtain ⟨g, hg, hfg⟩ := h f hf
  exact ⟨g, hg, by rw [hfg.same], hfg.isFull (hi f hf) (hi' g hg) hff⟩

theorem StoreInv.isFull_of_fullIn {files : List FileSMSChunks} (h : StoreInv files)
    {f : FileSMSChunks} (hf : f ∈ files) (hfull : FullIn files f.mId) : f.isFull = true := by
  obtain ⟨g, hg, hid, hgfull⟩ := hfull
  obtain rfl : g = f := List.inj_on_of_nodup_map h.distinct hg hf hid
  exact hgfull

theorem storeInv_map_construct {l : List FileSMS} (hl : DistinctIds l) :
    StoreInv (l.map fun f => FileSMSChunks.construct f.mId f.mFileSize true) where
  distinct := by
    rw [List.map_map]
    exact hl
  counters := by
    intro f hf
    obtain ⟨g, -, rfl⟩ := List.mem_map.mp hf
    exact FileSMSChunks.construct_counterExact ..
  holders := by
    intro f hf
    obtain ⟨g, -, rfl⟩ := List.mem_map.mp hf
    exact List.nodup_nil

@[simp] theorem receivedFile_mId (p : UInt16 × UInt16) : (receivedFile p).mId = p.1.toUInt32 := rfl

theorem forall_mem_noteAdvertised {P : FileSMSChunks → Prop} {sender : Ipv4Address}
    {files : List FileSMSChunks} {r : FileSMSChunks} (h : ∀ f ∈ files, P f)
    (hadd : ∀ f ∈ files, f.mId = r.mId → P (f.addNodeToSeenList sender))
    (hnew : P (r.addNodeToSeenList sender)) : ∀ f ∈ noteAdvertised sender files r, P f := by
  rw [noteAdvertised_eq_upsert]
  refine forall_mem_upsert h (fun f hf => ?_) fun _ => hnew
  have hid := key_of_lookup hf
  exact hadd f (mem_of_lookup hf) hid

theorem forall_mem_foldl_noteAdvertised {P : FileSMSChunks → Prop} {sender : Ipv4Address}
    {ps : List (UInt16 × UInt16)} {files : List FileSMSChunks} (h : ∀ f ∈ files, P f)
    (hadd : ∀ f, P f → (∃ p ∈ ps, p.1.toUInt32 = f.mId) → P (f.addNodeToSeenList sender))
    (hnew : ∀ p ∈ ps, P ((receivedFile p).addNodeToSeenList sender)) :
    ∀ f ∈ (ps.map receivedFile).foldl (noteAdvertised sender) files, P f := by
  induction ps generalizing files with
  | nil => exact h
  | cons p ps ih =>
    rw [List.map_cons, List.foldl_cons]
    refine ih ?_ (fun f hf hp => hadd f hf ?_) fun q hq => hnew q (List.mem_cons_of_mem _ hq)
    · refine forall_mem_noteAdvertised h (fun f hf hid => hadd f (h f hf) ⟨p, by simp, hid.symm⟩) ?_
      exact hnew p (List.mem_cons_self ..)
    · obtain ⟨q, hq, hid⟩ := hp
      exact ⟨q, List.mem_cons_of_mem _ hq, hid⟩

theorem storeExtends_noteAdvertised (sender : Ipv4Address) (files : List FileSMSChunks)
    (r : FileSMSChunks) : StoreExtends files (noteAdvertised sender files r) := by
  intro f hf
  have hcase : f ∈ noteAdvertised sender files r ∨ lookup fileKey files r.mId = some f ∧
      f.addNodeToSeenList sender ∈ noteAdvertised sender files r := by
    rw [noteAdvertised_eq_upsert]
    exact exists_mem_upsert hf
  rcases hcase with h | ⟨-, h⟩
  · exact ⟨f, h, .refl f⟩
  · exact ⟨_, h, f.extends_addNodeToSeenList sender⟩

theorem storeExtends_foldl_noteAdvertised (sender : Ipv4Address) (rs files : List FileSMSChunks) :
    StoreExtends files (rs.foldl (noteAdvertised sender) files) := by
  induction rs generalizing files with
  | nil => exact .refl files
  | cons r rs ih => exact (storeExtends_noteAdvertised sender files r).trans (ih _)

theorem nodup_foldl_noteAdvertised (sender : Ipv4Address) (rs : List FileSMSChunks)
    {files : List FileSMSChunks} (h : (files.map fileKey).Nodup) :
    ((rs.foldl (noteAdvertised sender) files).map fileKey).Nodup := by
  induction rs generalizing files with
  | nil => exact h
  | cons r rs ih =>
    apply ih
    rw [noteAdvertised_eq_upsert]
    exact nodup_upsert (by simp) (by simp) h

theorem counterExact_foldl_noteAdvertised (sender : Ipv4Address) (ps : List (UInt16 × UInt16))
    {files : List FileSMSChunks} (h : ∀ f ∈ files, f.CounterExact) :
    ∀ f ∈ (ps.map receivedFile).foldl (noteAdvertised sender) files, f.CounterExact :=
  forall_mem_foldl_noteAdvertised h
    (fun _ hf _ => FileSMSChunks.addNodeToSeenList_counterExact.mpr hf)
    fun _ _ => FileSMSChunks.addNodeToSeenList_counterExact.mpr
      (FileSMSChunks.construct_counterExact ..)

theorem StoreInv.absorb {files : List FileSMSChunks} (h : StoreInv files) (sender : Ipv4Address)
    (ps : List (UInt16 × UInt16)) :
    StoreInv ((ps.map receivedFile).foldl (noteAdvertised sender) files) where
  distinct := nodup_foldl_noteAdvertised sender _ h.distinct
  counters := counterExact_foldl_noteAdvertised sender ps h.counters
  holders := forall_mem_foldl_noteAdvertised h.holders
    (fun _ hf _ => FileSMSChunks.nodup_addNodeToSeenList hf sender)
    fun _ _ => FileSMSChunks.nodup_addNodeToSeenList List.nodup_nil sender

theorem target_mId (n : SmsEchoClient) (id size : UInt32) : (n.target id size).mId = id := by
  unfold target
  cases h : n.entry id with
  | none => rfl
  | some f =>
    have hid := key_of_lookup h
    exact hid

theorem target_of_mem {n : SmsEchoClient} (hd : (n.files.map fileKey).Nodup) {f : FileSMSChunks}
    (hf : f ∈ n.files) (size : UInt32) : n.target f.mId size = f := by
  have hentry : n.entry f.mId = some f := lookup_of_mem hd hf
  exact target_of_some hentry size

theorem target_induction {n : SmsEchoClient} {id size : UInt32} {P : FileSMSChunks → Prop}
    (h : ∀ f ∈ n.files, P f) (hnew : P (FileSMSChunks.construct id size.toUInt64 false)) :
    P (n.target id size) := by
  unfold target
  cases he : n.entry id with
  | none => exact hnew
  | some f => exact h f (mem_of_lookup he)

theorem entry_of_target_has {n : SmsEchoClient} {id size : UInt32} {c : ℕ}
    (h : (n.target id size).Has c) : ∃ f, n.entry id = some f ∧ f.Has c := by
  cases he : n.entry id with
  | none =>
    rw [target_of_none he] at h
    exact absurd h (FileSMSChunks.construct_not_has _ _ _)
  | some f =>
    rw [target_of_some he] at h
    exact ⟨f, rfl, h⟩

theorem forall_mem_storedFiles {P : FileSMSChunks → Prop} {n : SmsEchoClient}
    {id size c : UInt32} {sender : Ipv4Address} (h : ∀ f ∈ n.files, P f)
    (ht : P (((n.target id size).addNodeToSeenList sender).storeChunk c)) :
    ∀ f ∈ n.storedFiles id size c sender, P f := by
  refine forall_mem_upsert h (fun f hf => ?_) fun hnone => ?_
  · rwa [target_of_some hf] at ht
  · rwa [target_of_none hnone] at ht

theorem storeExtends_storedFiles {n : SmsEchoClient} {id size c : UInt32} (sender : Ipv4Address)
    (hc : c < (n.target id size).fileSizeInChunks) :
    StoreExtends n.files (n.storedFiles id size c sender) := by
  intro f hf
  have hcase : f ∈ n.storedFiles id size c sender ∨ lookup fileKey n.files id = some f ∧
      (f.addNodeToSeenList sender).storeChunk c ∈ n.storedFiles id size c sender :=
    exists_mem_upsert hf
  rcases hcase with h | ⟨hl, h⟩
  · exact ⟨f, h, .refl f⟩
  · rw [target_of_some hl] at hc
    refine ⟨_, h, (f.extends_addNodeToSeenList sender).trans ?_⟩
    exact FileSMSChunks.extends_storeChunk (by simpa using hc)

theorem nodup_storedFiles {n : SmsEchoClient} (h : (n.files.map fileKey).Nodup)
    (id size c : UInt32) (sender : Ipv4Address) :
    ((n.storedFiles id size c sender).map fileKey).Nodup :=
  nodup_upsert (by simp) (by simp) h

theorem counterExact_storedFiles {n : SmsEchoClient} (h : ∀ f ∈ n.files, f.CounterExact)
    {id size c : UInt32} (sender : Ipv4Address) (hc : c < (n.target id size).fileSizeInChunks)
    (hnew : ¬ (n.target id size).Has c.toNat) :
    ∀ f ∈ n.storedFiles id size c sender, f.CounterExact := by
  have ht : (n.target id size).CounterExact :=
    target_induction h (FileSMSChunks.construct_counterExact ..)
  have hadd : ((n.target id size).addNodeToSeenList sender).CounterExact :=
    FileSMSChunks.addNodeToSeenList_counterExact.mpr ht
  apply forall_mem_storedFiles h
  exact FileSMSChunks.storeChunk_counterExact hadd (by simpa using hc) (by simpa using hnew)

theorem StoreInv.storedFiles {n : SmsEchoClient} (h : StoreInv n.files) {id size c : UInt32}
    (sender : Ipv4Address) (hc : c < (n.target id size).fileSizeInChunks)
    (hnew : ¬ (n.target id size).Has c.toNat) : StoreInv (n.storedFiles id size c sender) where
  distinct := nodup_storedFiles h.distinct id size c sender
  counters := counterExact_storedFiles h.counters sender hc hnew
  holders := by
    have ht : (n.target id size).nodesWhoHaveFile.Nodup :=
      target_induction h.holders List.nodup_nil
    apply forall_mem_storedFiles h.holders
    exact FileSMSChunks.nodup_addNodeToSeenList ht sender

theorem indexed_of_addNewChunk {n : SmsEchoClient} (hlen : n.files.length < 2 ^ 32)
    {id size c : UInt32} {sender : Ipv4Address} {r : Bool × SmsEchoClient}
    (h : n.addNewChunk id size c sender = .ok r) : n.Indexed id := by
  by_contra hindex
  rw [addNewChunk_of_not_indexed hindex hlen] at h
  exact absurd h (by simp)

theorem addNewChunk_cases {n n' : SmsEchoClient} {id size c : UInt32} {sender : Ipv4Address}
    {b : Bool} (hindex : n.Indexed id) (h : n.addNewChunk id size c sender = .ok (b, n')) :
    c < (n.target id size).fileSizeInChunks ∧
      ((n.target id size).Has c.toNat ∧ b = false ∧ n' = n ∨
        ¬ (n.target id size).Has c.toNat ∧ b = true ∧
          n' = noteFullFiles { n with files := n.storedFiles id size c sender }) := by
  rw [addNewChunk_eq hindex] at h
  split_ifs at h with hc hhas
  · obtain ⟨rfl, rfl⟩ := Prod.mk.inj (Except.ok.inj h)
    exact ⟨hc, Or.inl ⟨hhas, rfl, rfl⟩⟩
  · obtain ⟨rfl, rfl⟩ := Prod.mk.inj (Except.ok.inj h)
    exact ⟨hc, Or.inr ⟨hhas, rfl, rfl⟩⟩

/-- The two ways a node's files change: arguments of `DecodeFilesForAdv` and of `add_new_chunk`. -/
inductive Delivery where
  | advertisement (rawArray : Bytes) (numAdvertisedFiles : UInt8) (sender : Ipv4Address)
  | reply (fileId fileSize chunkId : UInt32) (sender : Ipv4Address)
deriving DecidableEq

def SmsEchoClient.process (n : SmsEchoClient) : Delivery → Except Fault SmsEchoClient
  | .advertisement raw num sender => (n.decodeFilesForAdv raw num sender).map Prod.snd
  | .reply id size c sender => (n.addNewChunk id size c sender).map Prod.snd

/-- The payload holds the advertised pairs. The file of a reply, if it is known, is at a place an
`int32_t` can hold, and the chunk id is one of its entry's. -/
def SmsEchoClient.InRange (n : SmsEchoClient) : Delivery → Prop
  | .advertisement raw num _ => 4 * num.toNat ≤ raw.length
  | .reply id size c _ => n.Indexed id ∧ c < (n.target id size).fileSizeInChunks

instance (n : SmsEchoClient) (d : Delivery) : Decidable (n.InRange d) :=
  match d with
  | .advertisement raw num _ => inferInstanceAs (Decidable (4 * num.toNat ≤ raw.length))
  | .reply _ _ _ _ => inferInstanceAs (Decidable (_ ∧ _))

/-- Each delivery is in range when its turn comes, and the files are always few enough for the
`uint32_t` that counts them in `GetNumOfFullFiles`, and in `SetFiles`. -/
def AllInRange : SmsEchoClient → List Delivery → Prop
  | n, [] => n.files.length < 2 ^ 32
  | n, d :: ds => n.files.length < 2 ^ 32 ∧ n.InRange d ∧
      ∀ n', n.process d = .ok n' → AllInRange n' ds

theorem process_advertisement {n n' : SmsEchoClient} {raw : Bytes} {num : UInt8}
    {sender : Ipv4Address} (h : n.process (.advertisement raw num sender) = .ok n') :
    ∃ ps, readPairs raw num.toNat = some ps ∧ n' = { n with
      maximumFullFilesSeen := max n.maximumFullFilesSeen num.toNat
      files := (ps.map receivedFile).foldl (noteAdvertised sender) n.files } := by
  rw [process] at h
  cases hd : n.decodeFilesForAdv raw num sender with
  | error e => simp [hd, Except.map] at h
  | ok r =>
    obtain ⟨received, n₁⟩ := r
    obtain ⟨ps, hps, rfl, rfl⟩ := decodeFilesForAdv_eq_ok.mp hd
    rw [hd] at h
    exact ⟨ps, hps, (Except.ok.inj h).symm⟩

theorem process_reply {n n' : SmsEchoClient} {id size c : UInt32} {sender : Ipv4Address}
    (h : n.process (.reply id size c sender) = .ok n') :
    ∃ b, n.addNewChunk id size c sender = .ok (b, n') := by
  rw [process] at h
  cases ha : n.addNewChunk id size c sender with
  | error e => simp [ha, Except.map] at h
  | ok r =>
    obtain ⟨b, n₁⟩ := r
    rw [ha] at h
    exact ⟨b, congrArg (fun x => Except.ok (b, x)) (Except.ok.inj h)⟩

theorem SmsEchoClient.InRange.process_ok {n : SmsEchoClient} {d : Delivery} (h : n.InRange d) :
    ∃ n', n.process d = .ok n' := by
  cases d with
  | advertisement raw num sender =>
    rw [InRange, ← readPairs_isSome_iff] at h
    obtain ⟨ps, hps⟩ := Option.isSome_iff_exists.mp h
    rw [process, decodeFilesForAdv, hps]
    exact ⟨_, rfl⟩
  | reply id size c sender =>
    obtain ⟨hindex, hc⟩ := h
    rw [process, addNewChunk_eq hindex, if_pos hc]
    split_ifs <;> exact ⟨_, rfl⟩

theorem StoreInv.process {n n' : SmsEchoClient} (h : StoreInv n.files) {d : Delivery}
    (hin : n.InRange d) (hd : n.process d = .ok n') : StoreInv n'.files := by
  cases d with
  | advertisement raw num sender =>
    obtain ⟨ps, -, rfl⟩ := process_advertisement hd
    exact h.absorb sender ps
  | reply id size c sender =>
    obtain ⟨b, ha⟩ := process_reply hd
    obtain ⟨hc, ⟨-, -, rfl⟩ | ⟨hnew, -, rfl⟩⟩ := addNewChunk_cases hin.1 ha
    · exact h
    · exact h.storedFiles sender hc hnew

theorem run_process_of_allInRange {n : SmsEchoClient} {ds : List Delivery}
    (h : AllInRange n ds) : ∃ n', run process n ds = .ok n' := by
  induction ds generalizing n with
  | nil => exact ⟨n, rfl⟩
  | cons d ds ih =>
    obtain ⟨-, hin, hrest⟩ := h
    obtain ⟨n₁, hn₁⟩ := hin.process_ok
    obtain ⟨n', hn'⟩ := ih (hrest n₁ hn₁)
    exact ⟨n', run_cons_eq_ok.mpr ⟨n₁, hn₁, hn'⟩⟩

theorem StoreInv.run_process {n n' : SmsEchoClient} {ds : List Delivery} (h : StoreInv n.files)
    (hds : AllInRange n ds) (hrun : run SmsEchoClient.process n ds = .ok n') :
    StoreInv n'.files := by
  induction ds generalizing n with
  | nil =>
    obtain rfl : n = n' := Except.ok.inj hrun
    exact h
  | cons d ds ih =>
    obtain ⟨-, hin, hlater⟩ := hds
    obtain ⟨n₁, hd, hrest⟩ := run_cons_eq_ok.mp hrun
    exact ih (h.process hin hd) (hlater n₁ hd) hrest

structure EntryFacts (f : FileSMSChunks) : Prop where
  chunks_size : f.chunks.length = f.fileSizeInChunks.toNat
  counter : f.numOfReceivedChunks.toNat = f.chunks.count true
  no_underflow : f.numOfReceivedChunks ≤ f.fileSizeInChunks
  missing : f.getNumOfMissingChunks.toNat = f.chunks.count false
  full_iff_all : f.isFull = true ↔ ∀ b ∈ f.chunks, b = true
  full_iff_first : f.isFull = true ↔ f.getFirstMissingChunk = f.fileSizeInChunks
  holders : f.nodesWhoHaveFile.Nodup

theorem StoreInv.entryFacts {files : List FileSMSChunks} (h : StoreInv files) {f : FileSMSChunks}
    (hf : f ∈ files) : EntryFacts f where
  chunks_size := f.chunks_length
  counter := h.counters f hf
  no_underflow := by
    rw [UInt32.le_iff_toNat_le, h.counters f hf]
    exact f.count_le
  missing := by
    -- what is not there is what is left of the bitmap
    have hsum := List.length_eq_countP_add_countP (· == true) (l := f.chunks)
    have hfalse : f.chunks.countP (fun b => decide ¬ (b == true) = true) = f.chunks.count false := by
      refine List.countP_congr fun b _ => ?_
      cases b <;> decide
    rw [FileSMSChunks.toNat_getNumOfMissingChunks (h.counters f hf), ← f.chunks_length, hsum, hfalse]
    exact Nat.add_sub_cancel_left ..
  full_iff_all := FileSMSChunks.isFull_iff (h.counters f hf)
  full_iff_first := FileSMSChunks.isFull_iff_getFirstMissingChunk (h.counters f hf)
  holders := h.holders f hf

theorem setFiles_run_storeInv :
    (∀ numOfFiles draws l, getInitialFileList numOfFiles draws = some l → DistinctIds l) ∧
    ∀ (n : SmsEchoClient) (l : List FileSMS), DistinctIds l → ∀ ds, AllInRange (n.setFiles l) ds →
      ∃ n', run process (n.setFiles l) ds = .ok n' ∧ (n'.files.map fileKey).Nodup ∧
        ∀ f ∈ n'.files, EntryFacts f := by
  refine ⟨fun _ _ _ h => getInitialFileList_distinctIds h, fun n l hl ds hds => ?_⟩
  obtain ⟨n', hn'⟩ := run_process_of_allInRange hds
  have hinv := (storeInv_map_construct hl).run_process (n := n.setFiles l) hds hn'
  exact ⟨n', hn', hinv.distinct, fun f hf => hinv.entryFacts hf⟩

theorem setFiles_run_storeInv_witness :
    ∃ n', run process ((construct 7).setFiles [⟨3, 2⟩])
        [.advertisement [5, 0, 2, 0, 5, 0, 2, 0] 2 9, .reply 5 2 1 9] = .ok n' ∧
      (n'.files.map fileKey).Nodup ∧ ∀ f ∈ n'.files, EntryFacts f := by
  refine setFiles_run_storeInv.2 (construct 7) [⟨3, 2⟩] (by decide) _ ⟨by decide, by decide, ?_⟩
  intro n' hn'
  obtain ⟨ps, hps, rfl⟩ := process_advertisement hn'
  obtain rfl : [(5, 2), (5, 2)] = ps := Option.some.inj hps
  refine ⟨by decide, by decide, fun n'' hn'' => ?_⟩
  obtain ⟨b, ha⟩ := process_reply hn''
  obtain ⟨-, files, rfl, -, hle⟩ := addNewChunk_frame ha
  exact hle.trans_lt (by decide)

end SmsEcho
