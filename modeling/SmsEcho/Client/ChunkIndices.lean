import SmsEcho.Client.NodeRun

/-! The two indices of `add_new_chunk`: the one into `chunks` comes off the wire unchecked, and
the one into `files` is used once more by the log after the paths have joined again. -/

namespace SmsEcho
open ByteBuffer PartialRun KeyedList

namespace SmsEchoClient

def RefusesBadChunk (n : SmsEchoClient) (fileId fileSize chunkId : UInt32) (sender : Ipv4Address) :
    Prop :=
  ¬ chunkId < (n.target fileId fileSize).fileSizeInChunks →
    n.addNewChunk fileId fileSize chunkId sender = .ok (false, n)

/-- Where a chunk is stored the operation ends with `GetNumOfFullFiles`, which returns only while
a `uint32_t` can count the files. -/
def KeepsStoreInv (n : SmsEchoClient) (fileId fileSize chunkId : UInt32) (sender : Ipv4Address) :
    Prop :=
  ∃ stored n', n.addNewChunk fileId fileSize chunkId sender = .ok (stored, n') ∧
    StoreInv n'.files ∧ (stored = true → n'.files.length < 2 ^ 32)

/-- There is nothing to store, or the files can still be counted after that. -/
def CountFits (n : SmsEchoClient) (fileId fileSize chunkId : UInt32) : Prop :=
  (n.target fileId fileSize).Has chunkId.toNat ∨
    n.files.length + (if n.entry fileId = none then 1 else 0) < 2 ^ 32

variable {n : SmsEchoClient} {fileId fileSize chunkId : UInt32} {sender : Ipv4Address}

theorem addNewChunk_of_bad (hindex : n.Indexed fileId)
    (hbad : ¬ chunkId < (n.target fileId fileSize).fileSizeInChunks) (sender : Ipv4Address) :
    n.addNewChunk fileId fileSize chunkId sender = .error .outOfBounds := by
  rw [addNewChunk_eq hindex, if_neg hbad]

theorem handlePacket_of_bad {d : Datagram} {h : ReplyHeader}
    (hm : Message.parse d.bytes = .ok (.reply h)) (hindex : n.Indexed h.fileId)
    (hbad : ¬ h.chunkId < (n.target h.fileId h.fileSize).fileSizeInChunks) (rand : ℕ → ℚ) :
    n.handlePacket d rand = .error .outOfBounds := by
  have hadd : n.cancelAllEvents.addNewChunk h.fileId h.fileSize h.chunkId d.sender =
      .error .outOfBounds := addNewChunk_of_bad (n := n.cancelAllEvents) hindex hbad d.sender
  rw [handlePacket_eq, hm, ok_bind, absorb, hadd]
  rfl

theorem length_le_of_distinct {files : List FileSMSChunks} (h : (files.map fileKey).Nodup) :
    files.length ≤ 2 ^ 32 := by
  have hids : (files.map fun f => f.mId.toFin).Nodup := by
    have hmap := h.map (f := UInt32.toFin) fun _ _ => UInt32.toFin_inj.mp
    rwa [List.map_map] at hmap
  have hcard := hids.length_le_card
  rw [List.length_map, Fintype.card_fin] at hcard
  exact hcard

/-- The `int32_t` of a file at place `2^32 - 1` is the -1 of an unknown one: the operation then
adds a second entry. Any other place from `2^31` on is read out of bounds. -/
theorem addNewChunk_past_index (hindex : ¬ n.Indexed fileId) (hlen : n.files.length ≤ 2 ^ 32)
    {stored : Bool} {n' : SmsEchoClient}
    (h : n.addNewChunk fileId fileSize chunkId sender = .ok (stored, n')) :
    stored = true ∧ 2 ^ 32 < n'.files.length := by
  have hall : n.files.length = 2 ^ 32 := by
    by_contra hne
    rw [addNewChunk_of_not_indexed hindex (lt_of_le_of_ne hlen hne)] at h
    exact absurd h (by simp)
  rw [Indexed, not_or, not_lt] at hindex
  obtain ⟨f, hf⟩ := Option.ne_none_iff_exists'.mp hindex.1
  have hsize := le_sizeT_of_neg (toInt_fileIndex_neg hf hindex.2 hlen)
  have hnone : n.files[sizeT (n.fileIndex fileId)]? = none := List.getElem?_eq_none (by omega)
  rw [addNewChunk] at h
  simp only [hnone] at h
  split_ifs at h
  · obtain ⟨rfl, rfl⟩ := Prod.mk.inj (Except.ok.inj h)
    refine ⟨rfl, ?_⟩
    change 2 ^ 32 < (n.files ++ [_]).length
    rw [List.length_append, List.length_singleton, hall]
    exact Nat.lt_succ_self _
  · exact absurd h (by simp [orFault, bind, Except.bind])

theorem not_refusesBadChunk_of_bad (h : StoreInv n.files)
    (hbad : ¬ chunkId < (n.target fileId fileSize).fileSizeInChunks) :
    ¬ n.RefusesBadChunk fileId fileSize chunkId sender := by
  intro hrefuses
  have hfalse := hrefuses hbad
  by_cases hindex : n.Indexed fileId
  · rw [addNewChunk_of_bad hindex hbad] at hfalse
    exact absurd hfalse (by simp)
  · have hlen := length_le_of_distinct h.distinct
    exact absurd (addNewChunk_past_index hindex hlen hfalse).1 (by simp)

theorem keepsStoreInv_iff (h : StoreInv n.files) (sender : Ipv4Address) :
    n.KeepsStoreInv fileId fileSize chunkId sender ↔
      n.Indexed fileId ∧ chunkId < (n.target fileId fileSize).fileSizeInChunks ∧
        n.CountFits fileId fileSize chunkId := by
  constructor
  · rintro ⟨stored, n', hadd, hinv, hcount⟩
    have hindex : n.Indexed fileId := by
      by_contra hnot
      have hmore := addNewChunk_past_index hnot (length_le_of_distinct h.distinct) hadd
      exact absurd (length_le_of_distinct hinv.distinct) (not_le.mpr hmore.2)
    obtain ⟨hc, ⟨hhas, -, -⟩ | ⟨-, rfl, rfl⟩⟩ := addNewChunk_cases hindex hadd
    · exact ⟨hindex, hc, Or.inl hhas⟩
    · refine ⟨hindex, hc, Or.inr ?_⟩
      rw [← length_storedFiles]
      exact hcount rfl
  · rintro ⟨hindex, hc, hcount⟩
    have hrange : n.InRange (.reply fileId fileSize chunkId sender) := ⟨hindex, hc⟩
    obtain ⟨n', hn'⟩ := hrange.process_ok
    obtain ⟨stored, hadd⟩ := process_reply hn'
    refine ⟨stored, n', hadd, h.process hrange hn', ?_⟩
    rintro rfl
    obtain ⟨-, ⟨-, hfalse, -⟩ | ⟨hnew, -, rfl⟩⟩ := addNewChunk_cases hindex hadd
    · exact absurd hfalse (by decide)
    · have hroom := hcount.resolve_left hnew
      rwa [← length_storedFiles] at hroom

/-- No bad reply is refused. So a reply is dealt with as it should be exactly when it is not bad,
its file, if it is known, is at a place that the index can hold, and the files can be counted. -/
theorem addNewChunk_refuses_iff (h : StoreInv n.files) (fileId fileSize chunkId : UInt32)
    (sender : Ipv4Address) :
    (¬ chunkId < (n.target fileId fileSize).fileSizeInChunks →
      ¬ n.RefusesBadChunk fileId fileSize chunkId sender) ∧
    (n.RefusesBadChunk fileId fileSize chunkId sender ∧
        n.KeepsStoreInv fileId fileSize chunkId sender ↔
      n.Indexed fileId ∧ chunkId < (n.target fileId fileSize).fileSizeInChunks ∧
        n.CountFits fileId fileSize chunkId) := by
  refine ⟨not_refusesBadChunk_of_bad h, ?_⟩
  rw [keepsStoreInv_iff h]
  constructor
  · exact And.right
  · exact fun hc => ⟨fun hbad => absurd hc.2.1 hbad, hc⟩

theorem addNewChunk_refuses_iff_witness :
    listener.RefusesBadChunk 7 2 1 9 ∧ listener.KeepsStoreInv 7 2 1 9 ∧
      ¬ listener.RefusesBadChunk 7 2 2 9 := by
  have hgood := (addNewChunk_refuses_iff listener_storeInv 7 2 1 9).2.mpr
    ⟨indexed_of_length (by decide) 7, by decide, Or.inl (by decide)⟩
  exact ⟨hgood.1, hgood.2, (addNewChunk_refuses_iff listener_storeInv 7 2 2 9).1 (by decide)⟩

/-- Node 9 gives node 5 chunk 0 of file 5, which by its size has no chunks. -/
def emptyFileReply : Datagram :=
  ⟨9, [2, 0, 0, 0, 5, 0, 0, 0, 5, 0, 0, 0, 0, 0, 0, 0, 0, 0, 0, 0]⟩

theorem not_refusesBadChunk_emptyFile :
    StoreInv listener.files ∧ ¬ listener.RefusesBadChunk 5 0 0 9 ∧
      listener.handlePacket emptyFileReply (fun _ => 0) = .error .outOfBounds := by
  have hbad : ¬ 0 < (listener.target 5 0).fileSizeInChunks := by decide
  have hm : Message.parse emptyFileReply.bytes = .ok (.reply ⟨2, 5, 5, 0, 0⟩) := by decide
  have hindex : listener.Indexed 5 := indexed_of_length (by decide) 5
  exact ⟨listener_storeInv, not_refusesBadChunk_of_bad listener_storeInv hbad,
    handlePacket_of_bad hm hindex hbad _⟩

/-- `add_new_chunk` at the log level INFO. The last component is the entry whose
`num_of_received_chunks` the last log line reports, where that line is reached. -/
def addNewChunkInfo (n : SmsEchoClient) (fileId fileSize chunkId : UInt32) (sender : Ipv4Address) :
    Except Fault (Bool × SmsEchoClient × Option FileSMSChunks) :=
  let index := n.fileIndex fileId
  if index = -1 then
    let file := (FileSMSChunks.construct fileId fileSize.toUInt64 false).addNodeToSeenList sender
    if chunkId.toNat < file.chunks.length then do
      let n := noteFullFiles { n with files := n.files ++ [file.storeChunk chunkId] }
      let reported ← orFault .outOfBounds n.files[sizeT index]?
      return (true, n, some reported)
    else .error .outOfBounds
  else do
    let file ← orFault .outOfBounds n.files[sizeT index]?
    let there ← orFault .outOfBounds file.chunks[chunkId.toNat]?
    if there then return (false, n, none)
    else
      let file := (file.addNodeToSeenList sender).storeChunk chunkId
      let n := noteFullFiles { n with files := n.files.set (sizeT index) file }
      let reported ← orFault .outOfBounds n.files[sizeT index]?
      return (true, n, some reported)

def updatedEntry (n : SmsEchoClient) (fileId fileSize chunkId : UInt32) (sender : Ipv4Address) :
    FileSMSChunks :=
  ((n.target fileId fileSize).addNodeToSeenList sender).storeChunk chunkId

def LogsUpdated (n : SmsEchoClient) (fileId fileSize chunkId : UInt32) (sender : Ipv4Address) :
    Prop :=
  ∃ stored n', n.addNewChunkInfo fileId fileSize chunkId sender = .ok (stored, n',
      if stored then some (n.updatedEntry fileId fileSize chunkId sender) else none) ∧
    (stored = true → n'.entry fileId = some (n.updatedEntry fileId fileSize chunkId sender))

theorem addNewChunkInfo_of_neg (h : (n.fileIndex fileId).toInt < 0)
    (hlen : n.files.length ≤ 2 ^ 32) (sender : Ipv4Address) :
    n.addNewChunkInfo fileId fileSize chunkId sender = .error .outOfBounds := by
  have hsize := le_sizeT_of_neg h
  unfold addNewChunkInfo
  by_cases hone : n.fileIndex fileId = -1
  · simp only [if_pos hone]
    split_ifs
    · have hnone : ∀ f, (n.files ++ [f])[sizeT (n.fileIndex fileId)]? = none := by
        intro f
        apply List.getElem?_eq_none
        rw [List.length_append, List.length_singleton]
        omega
      simp only [noteFullFiles, hnone]
      rfl
    · rfl
  · have hnone : n.files[sizeT (n.fileIndex fileId)]? = none :=
      List.getElem?_eq_none (by omega)
    simp only [if_neg hone, hnone]
    rfl

theorem addNewChunkInfo_of_lt {f : FileSMSChunks} (hentry : n.entry fileId = some f)
    (hplace : n.place fileId < 2 ^ 31) (sender : Ipv4Address) :
    n.addNewChunkInfo fileId fileSize chunkId sender =
      if chunkId < f.fileSizeInChunks then
        if f.Has chunkId.toNat then .ok (false, n, none)
        else .ok (true,
          noteFullFiles { n with
            files := n.files.set (n.place fileId) ((f.addNodeToSeenList sender).storeChunk chunkId) },
          some ((f.addNodeToSeenList sender).storeChunk chunkId))
      else .error .outOfBounds := by
  obtain ⟨-, hget, -⟩ := getFileById_of_entry_some hentry
  have hone := fileIndex_ne_of_lt hentry hplace
  have hsize := sizeT_fileIndex hentry hplace
  have hwrite : ∀ g, (n.files.set (n.place fileId) g)[n.place fileId]? = some g :=
    fun _ => List.getElem?_set_self (place_lt hentry)
  have hlen : chunkId < f.fileSizeInChunks ↔ chunkId.toNat < f.chunks.length := by
    rw [f.chunks_length, UInt32.lt_iff_toNat_lt]
  unfold addNewChunkInfo
  simp only [if_neg hone, hsize, hget, orFault_some, ok_bind, noteFullFiles, hwrite]
  by_cases hc : chunkId < f.fileSizeInChunks
  · have hlt := hlen.mp hc
    rw [if_pos hc]
    cases hb : f.chunks[chunkId.toNat] <;>
      simp [FileSMSChunks.Has, List.getElem?_eq_getElem hlt, hb, pure, Except.pure]
  · rw [if_neg hc, List.getElem?_eq_none (not_lt.mp (mt hlen.mpr hc))]
    rfl

theorem lookup_storedFiles (sender : Ipv4Address) :
    lookup fileKey (n.storedFiles fileId fileSize chunkId sender) fileId =
      some (n.updatedEntry fileId fileSize chunkId sender) := by
  have hkey : ∀ f : FileSMSChunks, fileKey f = fileId →
      fileKey ((f.addNodeToSeenList sender).storeChunk chunkId) = fileId := by
    intro f hf
    simpa using hf
  unfold storedFiles updatedEntry target entry
  rw [lookup_upsert hkey (hkey _ rfl), if_pos rfl]
  cases lookup fileKey n.files fileId with
  | none => rfl
  | some f => rfl

theorem not_logsUpdated_of_neg (h : (n.fileIndex fileId).toInt < 0)
    (hlen : n.files.length ≤ 2 ^ 32) (sender : Ipv4Address) :
    ¬ n.LogsUpdated fileId fileSize chunkId sender := by
  rintro ⟨stored, n', hadd, -⟩
  rw [addNewChunkInfo_of_neg h hlen] at hadd
  exact absurd hadd (by simp)

theorem logsUpdated_of_lt {f : FileSMSChunks} (hentry : n.entry fileId = some f)
    (hplace : n.place fileId < 2 ^ 31) (hc : chunkId < f.fileSizeInChunks) :
    n.LogsUpdated fileId fileSize chunkId sender := by
  obtain ⟨-, -, hwrite⟩ := getFileById_of_entry_some hentry
  have hset : n.files.set (n.place fileId) ((f.addNodeToSeenList sender).storeChunk chunkId) =
      n.storedFiles fileId fileSize chunkId sender :=
    hwrite (fun f => (f.addNodeToSeenList sender).storeChunk chunkId) _
  have hinfo : n.addNewChunkInfo fileId fileSize chunkId sender = _ :=
    addNewChunkInfo_of_lt hentry hplace sender
  have hupdated : n.updatedEntry fileId fileSize chunkId sender =
      (f.addNodeToSeenList sender).storeChunk chunkId := by
    rw [updatedEntry, target_of_some hentry]
  rw [if_pos hc, ← hupdated] at hinfo
  by_cases hhas : f.Has chunkId.toNat
  · rw [if_pos hhas] at hinfo
    exact ⟨false, n, hinfo, by simp⟩
  · rw [if_neg hhas, hupdated, hset, ← hupdated] at hinfo
    exact ⟨true, _, hinfo, fun _ => lookup_storedFiles sender⟩

theorem position_unique (h : StoreInv n.files) {i j : ℕ} {f g : FileSMSChunks}
    (hf : n.files[i]? = some f) (hg : n.files[j]? = some g) (hid : f.mId = g.mId) : i = j := by
  have hkeys : (n.files.map fileKey)[i]? = (n.files.map fileKey)[j]? := by
    rw [List.getElem?_map, List.getElem?_map, hf, hg]
    exact congrArg some hid
  have hlt : i < (n.files.map fileKey).length := by
    rw [List.length_map]
    exact (List.getElem?_eq_some_iff.mp hf).1
  exact (List.getElem?_inj hlt h.distinct).mp hkeys

theorem addNewChunkInfo_logsUpdated_iff (h : StoreInv n.files)
    (hc : chunkId < (n.target fileId fileSize).fileSizeInChunks) (sender : Ipv4Address) :
    n.LogsUpdated fileId fileSize chunkId sender ↔
      ∃ j < 2 ^ 31, ∃ f, n.files[j]? = some f ∧ f.mId = fileId := by
  have hlen := length_le_of_distinct h.distinct
  cases hentry : n.entry fileId with
  | none =>
    have hneg : (n.fileIndex fileId).toInt < 0 := by
      rw [fileIndex_of_none hentry]
      decide
    refine iff_of_false (not_logsUpdated_of_neg hneg hlen sender) ?_
    rintro ⟨j, -, f, hf, hid⟩
    have hmem : f ∈ n.files := List.mem_of_getElem? hf
    exact lookup_eq_none.mp hentry (hid ▸ List.mem_map_of_mem hmem)
  | some f =>
    obtain ⟨-, hget, -⟩ := getFileById_of_entry_some hentry
    have hmId : fileKey f = fileId := key_of_lookup hentry
    rw [target_of_some hentry] at hc
    by_cases hplace : n.place fileId < 2 ^ 31
    · exact iff_of_true (logsUpdated_of_lt hentry hplace hc)
        ⟨n.place fileId, hplace, f, hget, hmId⟩
    · have hneg := toInt_fileIndex_neg hentry (not_lt.mp hplace) hlen
      refine iff_of_false (not_logsUpdated_of_neg hneg hlen sender) ?_
      rintro ⟨i, hi, g, hg, hid⟩
      exact hplace (position_unique h hg hget (hid.trans hmId.symm) ▸ hi)

theorem informed_storeInv : StoreInv informed.files := by
  obtain ⟨fl, hstep⟩ := listener_hears
  have hnext : StoreInv (informed.withTimers listener.timers).files :=
    absorb_storeInv (by decide) listener_storeInv (handlePacket_absorb parse_firstHeard hstep)
  exact hnext

theorem addNewChunkInfo_logsUpdated_iff_witness : informed.LogsUpdated 9 2 1 2 := by
  apply (addNewChunkInfo_logsUpdated_iff informed_storeInv (by decide) 2).mpr
  exact ⟨1, by norm_num, (FileSMSChunks.construct 9 2 false).addNodeToSeenList 2, rfl, rfl⟩

theorem not_logsUpdated_unknown :
    StoreInv listener.files ∧ 0 < (listener.target 5 2).fileSizeInChunks ∧
      listener.addNewChunkInfo 5 2 0 9 = .error .outOfBounds ∧ ¬ listener.LogsUpdated 5 2 0 9 := by
  have hneg : (listener.fileIndex 5).toInt < 0 := by decide
  have hlen : listener.files.length ≤ 2 ^ 32 := by decide
  exact ⟨listener_storeInv, by decide, addNewChunkInfo_of_neg hneg hlen 9,
    not_logsUpdated_of_neg hneg hlen 9⟩

theorem addNewChunk_of_info {stored : Bool} {n' : SmsEchoClient} {reported : Option FileSMSChunks}
    (h : n.addNewChunkInfo fileId fileSize chunkId sender = .ok (stored, n', reported)) :
    n.addNewChunk fileId fileSize chunkId sender = .ok (stored, n') := by
  rw [addNewChunkInfo] at h
  rw [addNewChunk]
  simp only at h ⊢
  split_ifs at h ⊢ with hone hc
  · obtain ⟨_, -, hr⟩ := bind_eq_ok.mp h
    obtain ⟨rfl, rfl, -⟩ := Except.ok.inj hr
    rfl
  · obtain ⟨file, hfile, h⟩ := bind_eq_ok.mp h
    obtain ⟨there, hthere, h⟩ := bind_eq_ok.mp h
    rw [hfile, ok_bind, hthere, ok_bind]
    split_ifs at h ⊢
    · obtain ⟨rfl, rfl, -⟩ := Except.ok.inj h
      rfl
    · obtain ⟨_, -, hr⟩ := bind_eq_ok.mp h
      obtain ⟨rfl, rfl, -⟩ := Except.ok.inj hr
      rfl

end SmsEchoClient
end SmsEcho
