import SmsEcho.Client.StoreInvariant

/-! What decoding an advertisement makes of the files: the entries there are stay in place and
learn the sender where their id is advertised, and behind them come the files that are new. -/

namespace SmsEcho
open ByteBuffer PartialRun KeyedList

namespace SmsEchoClient

def pairId (p : UInt16 × UInt16) : UInt32 := p.1.toUInt32

def withHolder (sender : Ipv4Address) (f : FileSMSChunks) : FileSMSChunks :=
  { f with nodesWhoHaveFile :=
      if sender ∈ f.nodesWhoHaveFile then f.nodesWhoHaveFile else f.nodesWhoHaveFile ++ [sender] }

/-- A file of the advertised size, with no chunk, known to be at the sender. -/
def newcomer (sender : Ipv4Address) (p : UInt16 × UInt16) : FileSMSChunks :=
  { FileSMSChunks.construct (pairId p) p.2.toUInt64 false with nodesWhoHaveFile := [sender] }

def advertisedFiles (sender : Ipv4Address) (ps : List (UInt16 × UInt16))
    (files : List FileSMSChunks) : List FileSMSChunks :=
  (files.map fun f => if f.mId ∈ ps.map pairId then withHolder sender f else f) ++
    (newcomers pairId (files.map fileKey) ps).map (newcomer sender)

theorem addNodeToSeenList_eq_withHolder (f : FileSMSChunks) (sender : Ipv4Address) :
    f.addNodeToSeenList sender = withHolder sender f := by
  unfold FileSMSChunks.addNodeToSeenList withHolder
  by_cases h : sender ∈ f.nodesWhoHaveFile
  · simp [h]
  · simp [h]

theorem receivedFile_eq_newcomer (sender : Ipv4Address) (p : UInt16 × UInt16) :
    (receivedFile p).addNodeToSeenList sender = newcomer sender p := by
  rw [addNodeToSeenList_eq_withHolder]
  rfl

theorem withHolder_withHolder (sender : Ipv4Address) (f : FileSMSChunks) :
    withHolder sender (withHolder sender f) = withHolder sender f := by
  have hmem : sender ∈ (withHolder sender f).nodesWhoHaveFile := by
    rw [← addNodeToSeenList_eq_withHolder]
    exact FileSMSChunks.mem_addNodeToSeenList.mpr (Or.inr rfl)
  rw [← addNodeToSeenList_eq_withHolder]
  exact FileSMSChunks.addNodeToSeenList_of_mem hmem

theorem absorbing_withHolder (sender : Ipv4Address) :
    Absorbing fileKey pairId (withHolder sender) (newcomer sender) where
  key_change _ := rfl
  key_fresh _ := rfl
  change_change := withHolder_withHolder sender
  change_fresh p := by
    rw [← addNodeToSeenList_eq_withHolder]
    exact FileSMSChunks.addNodeToSeenList_of_mem (List.mem_singleton_self sender)

theorem foldl_noteAdvertised_eq (sender : Ipv4Address) (ps : List (UInt16 × UInt16))
    (files : List FileSMSChunks) :
    (ps.map receivedFile).foldl (noteAdvertised sender) files =
      upsertAll fileKey pairId (withHolder sender) (newcomer sender) files ps := by
  rw [List.foldl_map, upsertAll]
  congr 1
  funext l p
  rw [noteAdvertised_eq_upsert, receivedFile_eq_newcomer]
  congr 1
  funext f
  exact addNodeToSeenList_eq_withHolder f sender

/-- Decoding a payload that is long enough has this effect on the files, raises the largest
count seen, and does nothing else; decoding it again does nothing. -/
theorem decodeFilesForAdv_effect {n : SmsEchoClient} (hn : (n.files.map fileKey).Nodup)
    {raw : Bytes} {num : UInt8} (hlen : 4 * num.toNat ≤ raw.length) (sender : Ipv4Address) :
    ∃ ps received n', readPairs raw num.toNat = some ps ∧
      n.decodeFilesForAdv raw num sender = .ok (received, n') ∧
      n' = { n with
        maximumFullFilesSeen := max n.maximumFullFilesSeen num.toNat
        files := advertisedFiles sender ps n.files } ∧
      n'.decodeFilesForAdv raw num sender = .ok (received, n') := by
  obtain ⟨ps, hps⟩ := Option.isSome_iff_exists.mp (readPairs_isSome_iff.mpr hlen)
  have habsorbing := absorbing_withHolder sender
  have heffect : upsertAll fileKey pairId (withHolder sender) (newcomer sender) n.files ps =
      advertisedFiles sender ps n.files := upsertAll_eq habsorbing hn ps
  have hagain : upsertAll fileKey pairId (withHolder sender) (newcomer sender)
      (advertisedFiles sender ps n.files) ps = advertisedFiles sender ps n.files := by
    rw [← heffect]
    exact upsertAll_upsertAll habsorbing hn ps
  refine ⟨ps, ps.map receivedFile, _, hps, ?_, rfl, ?_⟩
  · apply decodeFilesForAdv_eq_ok.mpr
    refine ⟨ps, hps, rfl, ?_⟩
    rw [foldl_noteAdvertised_eq, heffect]
  · apply decodeFilesForAdv_eq_ok.mpr
    refine ⟨ps, hps, rfl, ?_⟩
    rw [foldl_noteAdvertised_eq, hagain, max_assoc, max_self]

def repeatedPairs : Bytes := [9, 0, 2, 0, 7, 0, 5, 0, 9, 0, 3, 0]

theorem decodeFilesForAdv_effect_witness : ∃ received n',
    (boot 0 1 [⟨7, 2⟩]).decodeFilesForAdv repeatedPairs 3 2 = .ok (received, n') ∧
      n'.files = [withHolder 2 (FileSMSChunks.construct 7 2 true), newcomer 2 (9, 2)] ∧
      n'.decodeFilesForAdv repeatedPairs 3 2 = .ok (received, n') := by
  have hn : ((boot 0 1 [⟨7, 2⟩]).files.map fileKey).Nodup := by decide
  have hlen : 4 * (3 : UInt8).toNat ≤ repeatedPairs.length := by decide
  obtain ⟨ps, received, n', hps, hdecode, heq, hagain⟩ := decodeFilesForAdv_effect hn hlen 2
  have hpairs : readPairs repeatedPairs (3 : UInt8).toNat = some [(9, 2), (7, 5), (9, 3)] := by
    decide
  obtain rfl := Option.some.inj (hpairs.symm.trans hps)
  refine ⟨received, n', hdecode, ?_, hagain⟩
  rw [heq]
  decide

end SmsEchoClient
end SmsEcho
