import SmsEcho.Client.EventSlots

/-! The state of a node (the class `SmsEchoClient`), its set-up, its counts and its
delays. Attributes that only the simulator's configuration reads are left out. -/

namespace SmsEcho

/-- The members of `SmsEchoClient` that its methods read. The two flags say whether the
socket pointers are non-null; `mData` is the buffer `m_data` of length `m_dataSize`. -/
structure SmsEchoClient where
  address : Ipv4Address
  files : List FileSMSChunks
  maximumFullFilesSeen : ℕ
  seenNodes : List Ipv4Address
  mSocket : Bool
  mSocketSend : Bool
  mData : List UInt8
  timers : Timers

namespace SmsEchoClient

/-- The constructor. It does not initialise `maximum_full_files_seen`, so `memory` is
whatever the object's storage held there; an unset `Ipv4Address` is 0x66666666. -/
def construct (memory : ℕ) : SmsEchoClient where
  address := 0x66666666
  files := []
  maximumFullFilesSeen := memory
  seenNodes := []
  mSocket := false
  mSocketSend := false
  mData := []
  timers := Timers.unset

def setIPAdress (n : SmsEchoClient) (address : Ipv4Address) : SmsEchoClient :=
  { n with address := address }

def setFiles (n : SmsEchoClient) (filesToSet : List FileSMS) : SmsEchoClient :=
  { n with
    files := filesToSet.map fun f => FileSMSChunks.construct f.mId f.mFileSize true
    maximumFullFilesSeen := max n.maximumFullFilesSeen filesToSet.length }

def getNumOfFullFiles (n : SmsEchoClient) : ℕ := n.files.countP FileSMSChunks.isFull

def addNodeToSeenList (n : SmsEchoClient) (sender : Ipv4Address) : SmsEchoClient :=
  if n.seenNodes.contains sender then n
  else { n with seenNodes := n.seenNodes ++ [sender] }

/-- `rand` is the draw `(double) std::rand() / RAND_MAX`, in [0, 1]. Without a full file
the source divides by zero, and its sum is infinite. -/
def getTimeAdvertisement (n : SmsEchoClient) (start : Bool) (rand : ℚ) : Delay :=
  let offset : ℚ := if start then 0 else n.maximumFullFilesSeen + 10
  let multiplier : ℚ := 50
  let toSeconds : ℚ := 1 / 1000
  if n.getNumOfFullFiles = 0 then ⊤
  else (toSeconds * (offset + multiplier * (1 / n.getNumOfFullFiles) + rand * 15) : ℚ)

def getTimeRequest (n : SmsEchoClient) (rand : ℚ) : Delay :=
  let toSeconds : ℚ := 1 / 1000
  let reply : ℚ := n.getNumOfFullFiles + 1 + rand * 10
  (toSeconds * reply : ℚ)

def cancelAllEvents (n : SmsEchoClient) : SmsEchoClient :=
  { n with timers := n.timers.cancelAllEvents }

def schedule (n : SmsEchoClient) (delay : Delay) (a : Action) : SmsEchoClient :=
  { n with timers := n.timers.schedule delay a }

def startApplication (n : SmsEchoClient) (rand : ℚ) : SmsEchoClient :=
  let n := { n with mSocket := true, mSocketSend := true }
  n.schedule (n.getTimeAdvertisement true rand) .send

/-- Only the Send event is cancelled here. -/
def stopApplication (n : SmsEchoClient) : SmsEchoClient :=
  { n with
    mSocket := false
    mSocketSend := false
    timers := n.timers.cancel n.timers.mSendEvent }

/-- How `main` sets a node up before the applications start. -/
def boot (memory : ℕ) (address : Ipv4Address) (filesToSet : List FileSMS) : SmsEchoClient :=
  ((construct memory).setIPAdress address).setFiles filesToSet

@[simp] theorem addNodeToSeenList_files (n : SmsEchoClient) (a : Ipv4Address) :
    (n.addNodeToSeenList a).files = n.files := by
  unfold addNodeToSeenList
  split <;> rfl

theorem mem_addNodeToSeenList (n : SmsEchoClient) (a : Ipv4Address) :
    a ∈ (n.addNodeToSeenList a).seenNodes := by
  unfold addNodeToSeenList
  split_ifs with h
  · exact List.contains_iff_mem.mp h
  · simp

end SmsEchoClient

theorem setFiles_getNumOfFullFiles (n : SmsEchoClient) (l : List FileSMS) :
    (n.setFiles l).getNumOfFullFiles = l.length := by
  simp [SmsEchoClient.getNumOfFullFiles, SmsEchoClient.setFiles, Function.comp_def]

/-- The `while` loop of `getInitialFileList`: Zipf draws are taken until one is not the
id of a file already chosen. No result when the draws run out. -/
def drawFresh (files : List FileSMS) : List UInt32 → Option (FileSMS × List UInt32)
  | [] => none
  | id :: draws =>
    let file : FileSMS := ⟨id, 1000⟩
    if files.any fun f => f.operatorEq file then drawFresh files draws else some (file, draws)

def drawFiles : ℕ → List FileSMS → List UInt32 → Option (List FileSMS)
  | 0, files, _ => some files
  | numOfFiles + 1, files, draws => do
    let (file, draws) ← drawFresh files draws
    drawFiles numOfFiles (files ++ [file]) draws

/-- `getInitialFileList` on its draws: the number of files, and the stream of ids. -/
def getInitialFileList (numOfFiles : ℕ) (draws : List UInt32) : Option (List FileSMS) :=
  drawFiles numOfFiles [] draws

def DistinctIds (l : List FileSMS) : Prop := (l.map FileSMS.mId).Nodup

instance (l : List FileSMS) : Decidable (DistinctIds l) :=
  inferInstanceAs (Decidable (l.map FileSMS.mId).Nodup)

theorem drawFresh_notMem {files : List FileSMS} {draws draws' : List UInt32} {file : FileSMS}
    (h : drawFresh files draws = some (file, draws')) : file.mId ∉ files.map FileSMS.mId := by
  induction draws with
  | nil => simp [drawFresh] at h
  | cons id draws ih =>
    rw [drawFresh] at h
    split_ifs at h with hany
    · exact ih h
    · obtain ⟨rfl, -⟩ := Prod.mk.inj (Option.some.inj h)
      simpa [FileSMS.operatorEq] using hany

theorem drawFiles_distinctIds {numOfFiles : ℕ} {files l : List FileSMS} {draws : List UInt32}
    (hd : DistinctIds files) (h : drawFiles numOfFiles files draws = some l) : DistinctIds l := by
  induction numOfFiles generalizing files draws with
  | zero =>
    obtain rfl : files = l := Option.some.inj h
    exact hd
  | succ numOfFiles ih =>
    obtain ⟨⟨file, draws'⟩, hfresh, hrest⟩ := Option.bind_eq_some_iff.mp h
    refine ih ?_ hrest
    have hnot := drawFresh_notMem hfresh
    rw [DistinctIds, List.map_append, List.nodup_append]
    refine ⟨hd, by simp, ?_⟩
    intro a ha b hb
    rw [List.map_singleton, List.mem_singleton] at hb
    rw [hb]
    rintro rfl
    exact hnot ha

theorem getInitialFileList_distinctIds {numOfFiles : ℕ} {draws : List UInt32} {l : List FileSMS}
    (h : getInitialFileList numOfFiles draws = some l) : DistinctIds l :=
  drawFiles_distinctIds (by simp [DistinctIds]) h

end SmsEcho
