import Mathlib

/-! `FileSMS` and `FileSMSChunks`: a catalogue file, the bitmap of its chunks, the
counter of received chunks kept beside the bitmap, and the nodes known to hold it.
The sizes of vectors are natural numbers. Indices and counters that are narrower than a
`size_t` have the width they are declared with: those of `getFileById`, `add_new_chunk`,
`EncodeFilesForAdv` and `SetFill`. A step ends only where `GetNumOfFullFiles` does. -/

namespace SmsEcho

/-- An `Ipv4Address`, as the number `Get` returns. -/
abbrev Ipv4Address := UInt32

def CHUNK_SIZE : ℕ := 1450

structure FileSMS where
  mId : UInt32
  mFileSize : UInt64
deriving DecidableEq, Repr

/-- `FileSMS::operator==` compares the ids only. -/
def FileSMS.operatorEq (a b : FileSMS) : Bool := a.mId == b.mId

/-- `(uint32_t) std::ceil(1000*size/((double) CHUNK_SIZE))`; the product is a `size_t`. -/
def chunkCount (size : UInt64) : UInt32 :=
  UInt32.ofNat (((1000 * size).toNat + (CHUNK_SIZE - 1)) / CHUNK_SIZE)

def lastChunkSize (size : UInt64) : UInt16 := UInt16.ofNat ((1000 * size).toNat % CHUNK_SIZE)

/-- The two sizes are set by the constructor and never written again, and nothing
resizes `chunks`, so every value carries what the constructor established. -/
structure FileSMSChunks extends FileSMS where
  chunks : List Bool
  sizeOfLastChunk : UInt16
  fileSizeInChunks : UInt32
  numOfReceivedChunks : UInt32
  nodesWhoHaveFile : List Ipv4Address
  fileSizeInChunks_eq : fileSizeInChunks = chunkCount mFileSize
  sizeOfLastChunk_eq : sizeOfLastChunk = lastChunkSize mFileSize
  chunks_length : chunks.length = fileSizeInChunks.toNat
deriving DecidableEq

namespace FileSMSChunks

def construct (id : UInt32) (size : UInt64) (iHaveFullFile : Bool) : FileSMSChunks where
  mId := id
  mFileSize := size
  chunks := List.replicate (chunkCount size).toNat iHaveFullFile
  sizeOfLastChunk := lastChunkSize size
  fileSizeInChunks := chunkCount size
  numOfReceivedChunks := if iHaveFullFile then chunkCount size else 0
  nodesWhoHaveFile := []
  fileSizeInChunks_eq := rfl
  sizeOfLastChunk_eq := rfl
  chunks_length := List.length_replicate

def isFull (f : FileSMSChunks) : Bool := f.numOfReceivedChunks == f.fileSizeInChunks

def seenInNode (f : FileSMSChunks) (node : Ipv4Address) : Bool := f.nodesWhoHaveFile.contains node

/-- The loop stops at the first chunk that is not there, or at `file_size_in_chunks`. -/
def getFirstMissingChunk (f : FileSMSChunks) : UInt32 := UInt32.ofNat (f.chunks.findIdx fun b => !b)

def getSizeOfChunk (f : FileSMSChunks) (chunkId : UInt32) : UInt16 :=
  if chunkId == f.fileSizeInChunks - 1 then f.sizeOfLastChunk else UInt16.ofNat CHUNK_SIZE

/-- The popularity as an exact quotient; `⊤` where the source divides by zero, which
compares like the infinity or the NaN it gets. The parameter is a `uint32_t`, which holds the
size of `seen_nodes`: the addresses in there are 32 bits, none is listed twice, and a node
does not hear itself. -/
def getPopularity (f : FileSMSChunks) (totalNumberOfNodes : ℕ) : WithTop ℚ :=
  if totalNumberOfNodes = 0 then ⊤
  else ((f.nodesWhoHaveFile.length : ℚ) / totalNumberOfNodes : ℚ)

def getNumOfMissingChunks (f : FileSMSChunks) : UInt32 := f.fileSizeInChunks - f.numOfReceivedChunks

def addNodeToSeenList (f : FileSMSChunks) (node : Ipv4Address) : FileSMSChunks :=
  if f.nodesWhoHaveFile.contains node then f
  else { f with nodesWhoHaveFile := f.nodesWhoHaveFile ++ [node] }

/-- `chunks[chunk_id] = true; num_of_received_chunks += 1`, for an index inside `chunks`. -/
def storeChunk (f : FileSMSChunks) (chunkId : UInt32) : FileSMSChunks :=
  { f with
    chunks := f.chunks.set chunkId.toNat true
    numOfReceivedChunks := f.numOfReceivedChunks + 1
    chunks_length := by rw [List.length_set, f.chunks_length] }

def Has (f : FileSMSChunks) (c : ℕ) : Prop := f.chunks[c]? = some true

instance (f : FileSMSChunks) (c : ℕ) : Decidable (f.Has c) :=
  inferInstanceAs (Decidable (f.chunks[c]? = some true))

def CounterExact (f : FileSMSChunks) : Prop := f.numOfReceivedChunks.toNat = f.chunks.count true

@[simp] theorem construct_mId (id : UInt32) (size : UInt64) (b : Bool) :
    (construct id size b).mId = id := rfl

@[simp] theorem construct_nodesWhoHaveFile (id : UInt32) (size : UInt64) (b : Bool) :
    (construct id size b).nodesWhoHaveFile = [] := rfl

@[simp] theorem construct_fileSizeInChunks (id : UInt32) (size : UInt64) (b : Bool) :
    (construct id size b).fileSizeInChunks = chunkCount size := rfl

theorem construct_counterExact (id : UInt32) (size : UInt64) (b : Bool) :
    (construct id size b).CounterExact := by
  cases b <;> simp [CounterExact, construct, List.count_replicate]

@[simp] theorem construct_isFull (id : UInt32) (size : UInt64) :
    (construct id size true).isFull = true := by simp [isFull, construct]

theorem construct_not_has (id : UInt32) (size : UInt64) (c : ℕ) :
    ¬ (construct id size false).Has c := by
  simp [Has, construct, List.getElem?_replicate]

theorem chunkCount_pos {size : UInt64} (h0 : 0 < size.toNat) (h1 : size.toNat < 2 ^ 32) :
    0 < (chunkCount size).toNat := by
  have hmul : (1000 * size).toNat = 1000 * size.toNat := by
    rw [UInt64.toNat_mul]
    exact Nat.mod_eq_of_lt (by simp; omega)
  rw [chunkCount, hmul, UInt32.toNat_ofNat', CHUNK_SIZE, Nat.mod_eq_of_lt (by omega)]
  omega

theorem count_le (f : FileSMSChunks) : f.chunks.count true ≤ f.fileSizeInChunks.toNat := by
  rw [← f.chunks_length]
  exact List.count_le_length

theorem isFull_iff_count {f : FileSMSChunks} (h : f.CounterExact) :
    f.isFull = true ↔ f.chunks.count true = f.chunks.length := by
  rw [isFull, beq_iff_eq, ← UInt32.toNat_inj, h, f.chunks_length]

theorem isFull_iff {f : FileSMSChunks} (h : f.CounterExact) :
    f.isFull = true ↔ ∀ b ∈ f.chunks, b = true := by
  rw [isFull_iff_count h, List.count_eq_length]
  simp only [eq_comm]

theorem isFull_iff_has {f : FileSMSChunks} (h : f.CounterExact) :
    f.isFull = true ↔ ∀ c < f.fileSizeInChunks.toNat, f.Has c := by
  rw [isFull_iff h, List.forall_mem_iff_getElem, f.chunks_length.symm]
  constructor
  · intro hall c hc
    rw [Has, List.getElem?_eq_getElem hc, hall c hc]
  · intro hall c hc
    have hh := hall c hc
    rw [Has, List.getElem?_eq_getElem hc] at hh
    exact Option.some.inj hh

theorem toNat_getNumOfMissingChunks {f : FileSMSChunks} (h : f.CounterExact) :
    f.getNumOfMissingChunks.toNat = f.fileSizeInChunks.toNat - f.chunks.count true := by
  have hle : f.numOfReceivedChunks ≤ f.fileSizeInChunks := by
    rw [UInt32.le_iff_toNat_le, h]
    exact f.count_le
  rw [getNumOfMissingChunks, UInt32.toNat_sub_of_le _ _ hle, h]

theorem toNat_getFirstMissingChunk (f : FileSMSChunks) :
    f.getFirstMissingChunk.toNat = f.chunks.findIdx fun b => !b := by
  have hle : (f.chunks.findIdx fun b => !b) ≤ f.fileSizeInChunks.toNat := by
    rw [← f.chunks_length]
    exact List.findIdx_le_length
  rw [getFirstMissingChunk, UInt32.toNat_ofNat', Nat.mod_eq_of_lt (by have := f.fileSizeInChunks.toNat_lt; omega)]

theorem has_of_lt_getFirstMissingChunk {f : FileSMSChunks} {c : ℕ}
    (hc : c < f.getFirstMissingChunk.toNat) : f.Has c := by
  rw [toNat_getFirstMissingChunk] at hc
  have hlen : c < f.chunks.length := hc.trans_le List.findIdx_le_length
  have hb := List.not_of_lt_findIdx hc
  rw [Has, List.getElem?_eq_getElem hlen]
  simpa using hb

theorem not_has_getFirstMissingChunk (f : FileSMSChunks) :
    ¬ f.Has f.getFirstMissingChunk.toNat := by
  intro h
  rw [toNat_getFirstMissingChunk] at h
  obtain ⟨hlt, hb⟩ := List.getElem?_eq_some_iff.mp h
  have hmiss := List.findIdx_getElem (w := hlt)
  simp [hb] at hmiss

theorem getFirstMissingChunk_le (f : FileSMSChunks) :
    f.getFirstMissingChunk ≤ f.fileSizeInChunks := by
  rw [UInt32.le_iff_toNat_le, toNat_getFirstMissingChunk, ← f.chunks_length]
  exact List.findIdx_le_length

theorem isFull_iff_getFirstMissingChunk {f : FileSMSChunks} (h : f.CounterExact) :
    f.isFull = true ↔ f.getFirstMissingChunk = f.fileSizeInChunks := by
  rw [isFull_iff_has h]
  constructor
  · intro hall
    apply UInt32.le_antisymm f.getFirstMissingChunk_le
    by_contra hlt
    rw [UInt32.not_le, UInt32.lt_iff_toNat_lt] at hlt
    exact f.not_has_getFirstMissingChunk (hall _ hlt)
  · intro heq c hc
    exact has_of_lt_getFirstMissingChunk (heq ▸ hc)

theorem getFirstMissingChunk_lt {f : FileSMSChunks} (h : f.CounterExact) (hf : f.isFull = false) :
    f.getFirstMissingChunk < f.fileSizeInChunks := by
  refine UInt32.lt_of_le_of_ne f.getFirstMissingChunk_le fun heq => ?_
  rw [(isFull_iff_getFirstMissingChunk h).mpr heq] at hf
  exact absurd hf (by decide)

@[simp] theorem addNodeToSeenList_mId (f : FileSMSChunks) (node : Ipv4Address) :
    (f.addNodeToSeenList node).mId = f.mId := by
  unfold addNodeToSeenList
  split <;> rfl

@[simp] theorem addNodeToSeenList_toFileSMS (f : FileSMSChunks) (node : Ipv4Address) :
    (f.addNodeToSeenList node).toFileSMS = f.toFileSMS := by
  unfold addNodeToSeenList
  split <;> rfl

@[simp] theorem addNodeToSeenList_chunks (f : FileSMSChunks) (node : Ipv4Address) :
    (f.addNodeToSeenList node).chunks = f.chunks := by
  unfold addNodeToSeenList
  split <;> rfl

@[simp] theorem addNodeToSeenList_numOfReceivedChunks (f : FileSMSChunks) (node : Ipv4Address) :
    (f.addNodeToSeenList node).numOfReceivedChunks = f.numOfReceivedChunks := by
  unfold addNodeToSeenList
  split <;> rfl

@[simp] theorem addNodeToSeenList_fileSizeInChunks (f : FileSMSChunks) (node : Ipv4Address) :
    (f.addNodeToSeenList node).fileSizeInChunks = f.fileSizeInChunks := by
  unfold addNodeToSeenList
  split <;> rfl

@[simp] theorem addNodeToSeenList_has {f : FileSMSChunks} {node : Ipv4Address} {c : ℕ} :
    (f.addNodeToSeenList node).Has c ↔ f.Has c := by simp [Has]

@[simp] theorem addNodeToSeenList_counterExact {f : FileSMSChunks} {node : Ipv4Address} :
    (f.addNodeToSeenList node).CounterExact ↔ f.CounterExact := by simp [CounterExact]

theorem mem_addNodeToSeenList {f : FileSMSChunks} {node a : Ipv4Address} :
    a ∈ (f.addNodeToSeenList node).nodesWhoHaveFile ↔ a ∈ f.nodesWhoHaveFile ∨ a = node := by
  unfold addNodeToSeenList
  split_ifs with h
  · rw [List.contains_iff_mem] at h
    constructor
    · exact Or.inl
    · rintro (ha | rfl)
      · exact ha
      · exact h
  · simp

theorem addNodeToSeenList_of_mem {f : FileSMSChunks} {node : Ipv4Address}
    (h : node ∈ f.nodesWhoHaveFile) : f.addNodeToSeenList node = f := by
  rw [addNodeToSeenList, if_pos (List.contains_iff_mem.mpr h)]

theorem nodup_addNodeToSeenList {f : FileSMSChunks} (h : f.nodesWhoHaveFile.Nodup)
    (node : Ipv4Address) : (f.addNodeToSeenList node).nodesWhoHaveFile.Nodup := by
  unfold addNodeToSeenList
  split_ifs with hm
  · exact h
  · rw [List.contains_iff_mem] at hm
    refine List.nodup_append.mpr ⟨h, by simp, ?_⟩
    intro a ha b hb
    rw [List.mem_singleton.mp hb]
    rintro rfl
    exact hm ha

theorem seenInNode_iff {f : FileSMSChunks} {node : Ipv4Address} :
    f.seenInNode node = true ↔ node ∈ f.nodesWhoHaveFile := List.contains_iff_mem

@[simp] theorem storeChunk_mId (f : FileSMSChunks) (c : UInt32) : (f.storeChunk c).mId = f.mId := rfl

@[simp] theorem storeChunk_toFileSMS (f : FileSMSChunks) (c : UInt32) :
    (f.storeChunk c).toFileSMS = f.toFileSMS := rfl

@[simp] theorem storeChunk_fileSizeInChunks (f : FileSMSChunks) (c : UInt32) :
    (f.storeChunk c).fileSizeInChunks = f.fileSizeInChunks := rfl

theorem storeChunk_has {f : FileSMSChunks} {c : UInt32} (hc : c < f.fileSizeInChunks) {d : ℕ} :
    (f.storeChunk c).Has d ↔ f.Has d ∨ d = c.toNat := by
  have hlen : c.toNat < f.chunks.length := by rwa [f.chunks_length, ← UInt32.lt_iff_toNat_lt]
  unfold Has storeChunk
  by_cases hd : c.toNat = d
  · subst hd
    simp [hlen]
  · rw [List.getElem?_set_ne hd]
    simp [Ne.symm hd]

theorem count_storeChunk {f : FileSMSChunks} {c : UInt32} (hc : c < f.fileSizeInChunks)
    (hnew : ¬ f.Has c.toNat) :
    (f.storeChunk c).chunks.count true = f.chunks.count true + 1 := by
  have hlen : c.toNat < f.chunks.length := by rwa [f.chunks_length, ← UInt32.lt_iff_toNat_lt]
  have hfalse : f.chunks[c.toNat] = false := by
    rw [Has, List.getElem?_eq_getElem hlen] at hnew
    simpa using hnew
  change (f.chunks.set c.toNat true).count true = _
  rw [List.count_set hlen, hfalse]
  simp

theorem storeChunk_counterExact {f : FileSMSChunks} (h : f.CounterExact) {c : UInt32}
    (hc : c < f.fileSizeInChunks) (hnew : ¬ f.Has c.toNat) : (f.storeChunk c).CounterExact := by
  -- the counter cannot wrap around: it stays within the size of the bitmap
  have hcount := count_storeChunk hc hnew
  have hle := (f.storeChunk c).count_le
  have hmax := f.fileSizeInChunks.toNat_lt
  rw [CounterExact, hcount]
  change (f.numOfReceivedChunks + 1).toNat = _
  rw [UInt32.toNat_add, h]
  rw [hcount, storeChunk_fileSizeInChunks] at hle
  exact Nat.mod_eq_of_lt (by simp; omega)

end FileSMSChunks
end SmsEcho
