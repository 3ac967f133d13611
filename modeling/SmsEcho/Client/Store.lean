import SmsEcho.General.KeyedList
import SmsEcho.Client.NodeState

/-! The three operations on `files`: lookup by id, absorbing an advertisement and
absorbing a chunk. The source searches by index; each search is shown to be the lookup,
and each update the point update, of the vector read as a partial map from ids. -/

namespace SmsEcho
open ByteBuffer PartialRun KeyedList

abbrev fileKey (f : FileSMSChunks) : UInt32 := f.mId

namespace SmsEchoClient

/-- The loop of `getFileById` over the entries from index `i` on; the pairs that it returns are
built with a `uint32_t`. -/
def findFrom (id : UInt32) : List FileSMSChunks → ℕ → FileSMSChunks × UInt32
  | [], _ => (FileSMSChunks.construct 0 0 true, -1)
  | f :: fs, i => if f.mId == id then (f, UInt32.ofNat i) else findFrom id fs (i + 1)

/-- The `uint32_t` becomes an `int32_t` in the result. -/
def getFileById (n : SmsEchoClient) (id : UInt32) : FileSMSChunks × Int32 :=
  let (file, index) := findFrom id n.files 0
  (file, index.toInt32)

def fileIndex (n : SmsEchoClient) (id : UInt32) : Int32 := (n.getFileById id).2

/-- What `files[index]` indexes with: the `int32_t` converted to a `size_t`. -/
def sizeT (index : Int32) : ℕ := (index.toInt % 2 ^ 64).toNat

/-- `maximum_full_files_seen = MAX(maximum_full_files_seen,GetNumOfFullFiles())`. -/
def noteFullFiles (n : SmsEchoClient) : SmsEchoClient :=
  { n with maximumFullFilesSeen := max n.maximumFullFilesSeen n.getNumOfFullFiles }

/-- `add_new_chunk` at the log level of `main`, which leaves the arguments of
`NS_LOG_INFO` unevaluated. -/
def addNewChunk (n : SmsEchoClient) (fileId fileSize chunkId : UInt32) (sender : Ipv4Address) :
    Except Fault (Bool × SmsEchoClient) :=
  let index := n.fileIndex fileId
  if index = -1 then
    let file := (FileSMSChunks.construct fileId fileSize.toUInt64 false).addNodeToSeenList sender
    if chunkId.toNat < file.chunks.length then
      .ok (true, noteFullFiles { n with files := n.files ++ [file.storeChunk chunkId] })
    else .error .outOfBounds
  else do
    let file ← orFault .outOfBounds n.files[sizeT index]?
    let there ← orFault .outOfBounds file.chunks[chunkId.toNat]?
    if there then .ok (false, n)
    else
      let file := (file.addNodeToSeenList sender).storeChunk chunkId
      .ok (true, noteFullFiles { n with files := n.files.set (sizeT index) file })

/-- One round of the outer loop of `DecodeFilesForAdv`: the first entry equal to the
received file learns the sender, or the received file is appended. -/
def noteAdvertised (sender : Ipv4Address) :
    List FileSMSChunks → FileSMSChunks → List FileSMSChunks
  | [], received => [received.addNodeToSeenList sender]
  | f :: fs, received =>
    if f.toFileSMS.operatorEq received.toFileSMS then f.addNodeToSeenList sender :: fs
    else f :: noteAdvertised sender fs received

def receivedFile (p : UInt16 × UInt16) : FileSMSChunks :=
  FileSMSChunks.construct p.1.toUInt32 p.2.toUInt64 false

def decodeFilesForAdv (n : SmsEchoClient) (rawArray : Bytes) (numAdvertisedFiles : UInt8)
    (sender : Ipv4Address) : Except Fault (List FileSMSChunks × SmsEchoClient) := do
  let n := { n with maximumFullFilesSeen := max n.maximumFullFilesSeen numAdvertisedFiles.toNat }
  let pairs ← orFault .outOfBounds (readPairs rawArray numAdvertisedFiles.toNat)
  let receivedFiles := pairs.map receivedFile
  return (receivedFiles, { n with files := receivedFiles.foldl (noteAdvertised sender) n.files })

def entry (n : SmsEchoClient) (id : UInt32) : Option FileSMSChunks := lookup fileKey n.files id

theorem findFrom_of_lookup_none {id : UInt32} {fs : List FileSMSChunks}
    (h : lookup fileKey fs id = none) (i : ℕ) :
    findFrom id fs i = (FileSMSChunks.construct 0 0 true, -1) := by
  induction fs generalizing i with
  | nil => rfl
  | cons f fs ih =>
    rw [lookup_cons] at h
    split_ifs at h with hf
    rw [findFrom, if_neg (by simpa using hf)]
    exact ih h (i + 1)

def place (n : SmsEchoClient) (id : UInt32) : ℕ := n.files.findIdx fun f => f.mId == id

/-- A file that is there is at a place that fits the `int32_t` of `getFileById`. -/
def Indexed (n : SmsEchoClient) (id : UInt32) : Prop := n.entry id = none ∨ n.place id < 2 ^ 31

instance (n : SmsEchoClient) (id : UInt32) : Decidable (n.Indexed id) :=
  inferInstanceAs (Decidable (_ ∨ _))

theorem findFrom_of_lookup_some {id : UInt32} {fs : List FileSMSChunks} {f : FileSMSChunks}
    (h : lookup fileKey fs id = some f) (i : ℕ) :
    findFrom id fs i = (f, UInt32.ofNat (i + fs.findIdx fun f => f.mId == id)) ∧
      fs[fs.findIdx fun f => f.mId == id]? = some f ∧
      ∀ change fresh, fs.set (fs.findIdx fun f => f.mId == id) (change f) =
        upsert fileKey id change fresh fs := by
  induction fs generalizing i with
  | nil => simp at h
  | cons g fs ih =>
    rw [lookup_cons] at h
    split_ifs at h with hg
    · obtain rfl : g = f := Option.some.inj h
      have hfirst : (g :: fs).findIdx (fun f => f.mId == id) = 0 := by
        rw [List.findIdx_cons, beq_iff_eq.mpr hg, cond_true]
      refine ⟨?_, by rw [hfirst]; rfl, fun change fresh => ?_⟩
      · rw [findFrom, if_pos (by simpa using hg), hfirst]
        rfl
      · rw [upsert, if_pos hg, hfirst]
        rfl
    · obtain ⟨hfind, hget, hset⟩ := ih h (i + 1)
      have hnext : (g :: fs).findIdx (fun f => f.mId == id) =
          (fs.findIdx fun f => f.mId == id) + 1 := by
        rw [List.findIdx_cons, beq_eq_false_iff_ne.mpr hg, cond_false]
      refine ⟨?_, by rw [hnext]; simpa using hget, fun change fresh => ?_⟩
      · rw [findFrom, if_neg (by simpa using hg), hfind, hnext, Nat.add_right_comm, Nat.add_assoc]
      · rw [upsert, if_neg hg, hnext, List.set_cons_succ, hset change fresh]

theorem getFileById_of_entry_none {n : SmsEchoClient} {id : UInt32} (h : n.entry id = none) :
    n.getFileById id = (FileSMSChunks.construct 0 0 true, -1) := by
  rw [getFileById, findFrom_of_lookup_none h 0]
  rfl

theorem fileIndex_of_none {n : SmsEchoClient} {id : UInt32} (h : n.entry id = none) :
    n.fileIndex id = -1 := by
  rw [fileIndex, getFileById_of_entry_none h]

section Known
variable {n : SmsEchoClient} {id : UInt32} {f : FileSMSChunks}

theorem getFileById_of_entry_some (h : n.entry id = some f) :
    n.getFileById id = (f, (UInt32.ofNat (n.place id)).toInt32) ∧ n.files[n.place id]? = some f ∧
      ∀ change fresh, n.files.set (n.place id) (change f) =
        upsert fileKey id change fresh n.files := by
  obtain ⟨hfind, hget, hset⟩ := findFrom_of_lookup_some h 0
  refine ⟨?_, hget, hset⟩
  rw [getFileById, hfind, Nat.zero_add]
  rfl

theorem place_lt (h : n.entry id = some f) : n.place id < n.files.length :=
  (List.getElem?_eq_some_iff.mp (getFileById_of_entry_some h).2.1).1

theorem toInt_fileIndex (h : n.entry id = some f) :
    (n.fileIndex id).toInt = (n.place id : ℤ).bmod (2 ^ 32) := by
  rw [fileIndex, (getFileById_of_entry_some h).1, UInt32.toInt32_ofNat', Int32.toInt_ofNat']
  rfl

theorem toInt_fileIndex_of_lt (h : n.entry id = some f) (hplace : n.place id < 2 ^ 31) :
    (n.fileIndex id).toInt = n.place id := by
  rw [toInt_fileIndex h, Int.bmod_def]
  omega

theorem fileIndex_ne_of_lt (h : n.entry id = some f) (hplace : n.place id < 2 ^ 31) :
    n.fileIndex id ≠ -1 := by
  intro heq
  have hint := toInt_fileIndex_of_lt h hplace
  have hone : (-1 : Int32).toInt = -1 := rfl
  rw [heq, hone] at hint
  omega

theorem toInt_fileIndex_neg (h : n.entry id = some f) (hplace : 2 ^ 31 ≤ n.place id)
    (hlen : n.files.length ≤ 2 ^ 32) : (n.fileIndex id).toInt < 0 := by
  have hlt := place_lt h
  rw [toInt_fileIndex h, Int.bmod_def]
  omega

/-- Only at the last place that a `uint32_t` can name is a known file taken for an unknown one. -/
theorem fileIndex_ne (h : n.entry id = some f) (hlen : n.files.length < 2 ^ 32) :
    n.fileIndex id ≠ -1 := by
  intro heq
  have hlt := place_lt h
  have hint := toInt_fileIndex h
  have hone : (-1 : Int32).toInt = -1 := rfl
  rw [heq, hone, Int.bmod_def] at hint
  omega

theorem sizeT_fileIndex (h : n.entry id = some f) (hplace : n.place id < 2 ^ 31) :
    sizeT (n.fileIndex id) = n.place id := by
  rw [sizeT, toInt_fileIndex_of_lt h hplace]
  omega

end Known

theorem le_sizeT_of_neg {index : Int32} (h : index.toInt < 0) : 2 ^ 63 ≤ sizeT index := by
  have hge := index.le_toInt
  unfold sizeT
  omega

theorem indexed_of_length {n : SmsEchoClient} (h : n.files.length ≤ 2 ^ 31) (id : UInt32) :
    n.Indexed id := by
  cases hentry : n.entry id with
  | none => exact Or.inl hentry
  | some f => exact Or.inr ((place_lt hentry).trans_le h)

theorem noteAdvertised_eq_upsert (sender : Ipv4Address) (files : List FileSMSChunks)
    (received : FileSMSChunks) :
    noteAdvertised sender files received =
      upsert fileKey received.mId (fun f => f.addNodeToSeenList sender)
        (received.addNodeToSeenList sender) files := by
  induction files with
  | nil => rfl
  | cons f fs ih =>
    rw [noteAdvertised, upsert, ih]
    simp [FileSMS.operatorEq, fileKey]

def target (n : SmsEchoClient) (id fileSize : UInt32) : FileSMSChunks :=
  (n.entry id).getD (FileSMSChunks.construct id fileSize.toUInt64 false)

theorem target_of_some {n : SmsEchoClient} {id : UInt32} {f : FileSMSChunks}
    (h : n.entry id = some f) (fileSize : UInt32) : n.target id fileSize = f := by
  rw [target, h, Option.getD_some]

theorem target_of_none {n : SmsEchoClient} {id : UInt32} (h : n.entry id = none)
    (fileSize : UInt32) :
    n.target id fileSize = FileSMSChunks.construct id fileSize.toUInt64 false := by
  rw [target, h, Option.getD_none]

def storedFiles (n : SmsEchoClient) (id fileSize c : UInt32) (sender : Ipv4Address) :
    List FileSMSChunks :=
  upsert fileKey id (fun f => (f.addNodeToSeenList sender).storeChunk c)
    (((FileSMSChunks.construct id fileSize.toUInt64 false).addNodeToSeenList sender).storeChunk c)
    n.files

theorem length_storedFiles (n : SmsEchoClient) (id fileSize c : UInt32) (sender : Ipv4Address) :
    (n.storedFiles id fileSize c sender).length =
      n.files.length + if n.entry id = none then 1 else 0 := length_upsert n.files

theorem addNewChunk_eq {n : SmsEchoClient} {id : UInt32} (hindex : n.Indexed id)
    (fileSize c : UInt32) (sender : Ipv4Address) :
    n.addNewChunk id fileSize c sender =
      if c < (n.target id fileSize).fileSizeInChunks then
        if (n.target id fileSize).Has c.toNat then .ok (false, n)
        else .ok (true, noteFullFiles { n with files := n.storedFiles id fileSize c sender })
      else .error .outOfBounds := by
  cases h : n.entry id with
  | none =>
    have htarget := target_of_none h fileSize
    have hnot : id ∉ n.files.map fileKey := lookup_eq_none.mp h
    have hlen : c.toNat < ((FileSMSChunks.construct id fileSize.toUInt64 false).addNodeToSeenList
        sender).chunks.length ↔ c < chunkCount fileSize.toUInt64 := by
      rw [FileSMSChunks.chunks_length, FileSMSChunks.addNodeToSeenList_fileSizeInChunks,
        FileSMSChunks.construct_fileSizeInChunks, UInt32.lt_iff_toNat_lt]
    rw [addNewChunk, fileIndex_of_none h, htarget,
      FileSMSChunks.construct_fileSizeInChunks, if_neg (FileSMSChunks.construct_not_has _ _ _),
      storedFiles, upsert_of_notMem hnot]
    by_cases hc : c < chunkCount fileSize.toUInt64
    · simp only [↓reduceIte, if_pos hc, if_pos (hlen.mpr hc)]
    · simp only [↓reduceIte, if_neg hc, if_neg (mt hlen.mp hc)]
  | some f =>
    have htarget := target_of_some h fileSize
    obtain ⟨-, hget, hset⟩ := getFileById_of_entry_some h
    have hplace : n.place id < 2 ^ 31 := hindex.resolve_left (by simp [h])
    rw [addNewChunk, htarget]
    simp only [if_neg (fileIndex_ne_of_lt h hplace), sizeT_fileIndex h hplace, hget, orFault_some, ok_bind]
    by_cases hc : c < f.fileSizeInChunks
    · have hlen : c.toNat < f.chunks.length := by
        rwa [f.chunks_length, ← UInt32.lt_iff_toNat_lt]
      rw [if_pos hc, storedFiles,
        ← hset (fun f => (f.addNodeToSeenList sender).storeChunk c)]
      cases hb : f.chunks[c.toNat] <;>
        simp [FileSMSChunks.Has, List.getElem?_eq_getElem hlen, hb]
    · have hnone : f.chunks[c.toNat]? = none := by
        rw [List.getElem?_eq_none_iff, f.chunks_length]
        rwa [UInt32.not_lt, UInt32.le_iff_toNat_le] at hc
      rw [if_neg hc, hnone]
      rfl

theorem addNewChunk_of_not_indexed {n : SmsEchoClient} {id : UInt32} (hindex : ¬ n.Indexed id)
    (hlen : n.files.length < 2 ^ 32) (fileSize c : UInt32) (sender : Ipv4Address) :
    n.addNewChunk id fileSize c sender = .error .outOfBounds := by
  rw [Indexed, not_or, not_lt] at hindex
  obtain ⟨f, hf⟩ := Option.ne_none_iff_exists'.mp hindex.1
  have hsize := le_sizeT_of_neg (toInt_fileIndex_neg hf hindex.2 hlen.le)
  have hnone : n.files[sizeT (n.fileIndex id)]? = none := List.getElem?_eq_none (by omega)
  rw [addNewChunk]
  simp only [if_neg (fileIndex_ne hf hlen), hnone]
  rfl

theorem addNewChunk_frame {n n' : SmsEchoClient} {id fileSize c : UInt32} {sender : Ipv4Address}
    {b : Bool} (h : n.addNewChunk id fileSize c sender = .ok (b, n')) :
    ∃ seen files, n' = { n with maximumFullFilesSeen := seen, files := files } ∧
      n.files.length ≤ files.length ∧ files.length ≤ n.files.length + 1 := by
  rw [addNewChunk] at h
  simp only at h
  split_ifs at h with hone hc
  · obtain ⟨-, rfl⟩ := Prod.mk.inj (Except.ok.inj h)
    refine ⟨_, _, rfl, ?_⟩
    rw [List.length_append, List.length_singleton]
    exact ⟨Nat.le_succ _, le_rfl⟩
  · obtain ⟨file, -, h⟩ := bind_eq_ok.mp h
    obtain ⟨there, -, h⟩ := bind_eq_ok.mp h
    split_ifs at h
    · obtain ⟨-, rfl⟩ := Prod.mk.inj (Except.ok.inj h)
      exact ⟨_, _, rfl, le_rfl, Nat.le_succ _⟩
    · obtain ⟨-, rfl⟩ := Prod.mk.inj (Except.ok.inj h)
      refine ⟨_, _, rfl, ?_⟩
      rw [List.length_set]
      exact ⟨le_rfl, Nat.le_succ _⟩

theorem decodeFilesForAdv_eq_ok {n n' : SmsEchoClient} {raw : Bytes} {num : UInt8}
    {sender : Ipv4Address} {received : List FileSMSChunks} :
    n.decodeFilesForAdv raw num sender = .ok (received, n') ↔
      ∃ pairs, readPairs raw num.toNat = some pairs ∧ received = pairs.map receivedFile ∧
        n' = { n with
          maximumFullFilesSeen := max n.maximumFullFilesSeen num.toNat
          files := received.foldl (noteAdvertised sender) n.files } := by
  unfold decodeFilesForAdv
  rw [bind_eq_ok]
  simp only [orFault_eq_ok, pure, Except.pure, Except.ok.injEq, Prod.mk.injEq]
  constructor
  · rintro ⟨pairs, hp, rfl, rfl⟩
    exact ⟨pairs, hp, rfl, rfl⟩
  · rintro ⟨pairs, hp, rfl, rfl⟩
    exact ⟨pairs, hp, rfl, rfl⟩

end SmsEchoClient
end SmsEcho
