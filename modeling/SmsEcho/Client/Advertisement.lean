import SmsEcho.Client.StoreInvariant

/-! The advertisement a node sends: the two-cursor loop of `EncodeFilesForAdv`, the bytes
`Send` puts on the wire, and what the receiver makes of them. -/

namespace SmsEcho
open ByteBuffer PartialRun KeyedList SmsEchoClient

/-- What lies behind the pairs: the part of the allocation that nothing is copied to. -/
def SmsEchoClient.tail (n : SmsEchoClient) (g : Garbage) : Bytes :=
  (malloc g.bytes (2 + 4 * n.files.length)).drop (2 + 4 * n.getNumOfFullFiles)

def SmsEchoClient.advertisement (n : SmsEchoClient) (g : Garbage) : Bytes :=
  0 :: UInt8.ofNat n.getNumOfFullFiles ::
    ((n.fullFiles.map filePair).flatMap pairBytes ++ n.tail g)

theorem advertisement_length (n : SmsEchoClient) (g : Garbage) :
    (n.advertisement g).length = 2 + 4 * n.files.length := by
  have hle : n.getNumOfFullFiles ≤ n.files.length := List.countP_le_length
  simp only [advertisement, tail, List.length_cons, List.length_append, flatMap_pairBytes_length,
    List.length_map, fullFiles_length, List.length_drop, malloc_length]
  omega

theorem malloc_split (n : SmsEchoClient) (g : Garbage) :
    ∃ a b mid, mid.length = 4 * n.getNumOfFullFiles ∧
      malloc g.bytes (1 * 2 + 2 * n.files.length * 2) = [a] ++ ([b] ++ (mid ++ n.tail g)) := by
  have hle : n.getNumOfFullFiles ≤ n.files.length := List.countP_le_length
  have hlen : 1 * 2 + 2 * n.files.length * 2 = 2 + 4 * n.files.length := by omega
  rw [hlen]
  -- two bytes of header are always there, and room for a pair for each file
  set m := malloc g.bytes (2 + 4 * n.files.length) with hm
  have hml : m.length = 2 + 4 * n.files.length := malloc_length ..
  match hs : m, hml with
  | a :: b :: rest, hml =>
    refine ⟨a, b, rest.take (4 * n.getNumOfFullFiles), ?_, ?_⟩
    · simp only [List.length_cons] at hml
      rw [List.length_take]
      omega
    · have htail : n.tail g = rest.drop (4 * n.getNumOfFullFiles) := by
        rw [tail, ← hm, ← List.drop_drop]
        rfl
      rw [htail, List.take_append_drop]
      rfl
  | [_], hml => exact absurd hml (by simp; omega)
  | [], hml => exact absurd hml (by simp; omega)

/-- `SetFill` gets the length of the packet as a `uint32_t`. -/
def SmsEchoClient.wireLength (n : SmsEchoClient) : ℕ := (2 + 4 * n.files.length) % 2 ^ 32

def SmsEchoClient.onWire (n : SmsEchoClient) (g : Garbage) : Bytes :=
  (n.advertisement g).take n.wireLength

theorem onWire_length (n : SmsEchoClient) (g : Garbage) : (n.onWire g).length = n.wireLength := by
  rw [onWire, List.length_take, advertisement_length]
  exact min_eq_left (Nat.mod_le ..)

theorem wireLength_eq {n : SmsEchoClient} (h : n.files.length < 2 ^ 30) :
    n.wireLength = 2 + 4 * n.files.length := Nat.mod_eq_of_lt (by omega)

theorem onWire_eq {n : SmsEchoClient} (h : n.files.length < 2 ^ 30) (g : Garbage) :
    n.onWire g = n.advertisement g := by
  rw [onWire, wireLength_eq h, ← advertisement_length n g, List.take_length]

def SmsEchoClient.sent (n : SmsEchoClient) (g : Garbage) : SmsEchoClient :=
  { n.noteFullFiles with mData := n.onWire g }

theorem setFillBytes_onWire (n : SmsEchoClient) (g : Garbage) :
    n.noteFullFiles.setFillBytes (n.advertisement g)
      (UInt32.ofNat (1 * 2 + 2 * n.files.length * 2)) (UInt32.ofNat (1 * 2 + 2 * n.files.length * 2))
      g.bytes 0 = .ok (some (n.sent g)) := by
  have hsize : (UInt32.ofNat (1 * 2 + 2 * n.files.length * 2)).toNat = n.wireLength := by
    rw [UInt32.toNat_ofNat', wireLength]
    congr 1
    omega
  have hle : n.wireLength ≤ (n.advertisement g).length := by
    rw [advertisement_length]
    exact Nat.mod_le ..
  have hdata := n.noteFullFiles.resizeData_length
    (UInt32.ofNat (1 * 2 + 2 * n.files.length * 2)) g.bytes
  rw [hsize] at hdata
  rw [setFillBytes, if_pos (UInt32.le_refl _), hsize, copyFrom_whole hdata hle, ok_bind]
  rfl

def SmsEchoClient.CountersFit (n : SmsEchoClient) : Prop :=
  n.files.length < 2 ^ 32 ∧ n.getNumOfFullFiles < 2 ^ 31

theorem countersFit_of_length {n : SmsEchoClient} (h : n.files.length < 2 ^ 31) : n.CountersFit := by
  have hle : n.getNumOfFullFiles ≤ n.files.length := List.countP_le_length
  exact ⟨h.trans (by norm_num), hle.trans_lt h⟩

theorem send_eq {n : SmsEchoClient} (hx : n.timers.simulator.isExpired n.timers.mSendEvent = true)
    (hn : n.CountersFit) (g : Garbage) :
    n.send g = if n.mSocketSend then .ok (n.sent g, n.onWire g) else .error .nullSocket := by
  obtain ⟨a, b, mid, hmid, hsplit⟩ := malloc_split n g
  have henc : (n.fullFiles.flatMap fun f => pairBytes (filePair f)).take
      (2 * n.getNumOfFullFiles * 2) = (n.fullFiles.map filePair).flatMap pairBytes := by
    rw [List.flatMap_map]
    refine List.take_of_length_le (le_of_eq ?_)
    have hl := flatMap_pairBytes_length (n.fullFiles.map filePair)
    rw [List.flatMap_map, List.length_map, fullFiles_length] at hl
    omega
  have hcopy0 : memcpy ([a] ++ ([b] ++ (mid ++ n.tail g))) 0 [0] =
      some ([0] ++ ([b] ++ (mid ++ n.tail g))) := memcpy_append [] _ rfl
  have hcopy1 : memcpy ([0] ++ ([b] ++ (mid ++ n.tail g))) 1 [UInt8.ofNat n.getNumOfFullFiles] =
      some ([0] ++ ([UInt8.ofNat n.getNumOfFullFiles] ++ (mid ++ n.tail g))) :=
    memcpy_append [0] _ rfl
  have hcopy2 : memcpy ([0] ++ ([UInt8.ofNat n.getNumOfFullFiles] ++ (mid ++ n.tail g))) 2
      ((n.fullFiles.map filePair).flatMap pairBytes) = some (n.advertisement g) :=
    memcpy_append [0, UInt8.ofNat n.getNumOfFullFiles] _
      (by rw [hmid, flatMap_pairBytes_length, List.length_map, fullFiles_length])
  have hnote : n.noteFullFiles.getNumOfFullFiles = n.getNumOfFullFiles := rfl
  have hnoteFiles : n.noteFullFiles.files = n.files := rfl
  rw [send, if_pos hx, encodeFilesForAdv_eq hn.1 hn.2, ok_bind]
  simp only [hnote, hnoteFiles, henc, hsplit, hcopy0, hcopy1, hcopy2, orFault_some, ok_bind,
    setFillBytes_onWire]
  rfl

theorem send_cases {n n' : SmsEchoClient} {g : Garbage} {bytes : Bytes}
    (h : n.send g = .ok (n', bytes)) :
    n.CountersFit ∧ n.mSocketSend = true ∧ n' = n.sent g ∧ bytes = n.onWire g := by
  by_cases hx : n.timers.simulator.isExpired n.timers.mSendEvent = true
  · have hn : n.CountersFit := by
      rw [send, if_pos hx] at h
      obtain ⟨r, hr, -⟩ := bind_eq_ok.mp h
      exact bounds_of_encodeFilesForAdv hr
    rw [send_eq hx hn] at h
    split_ifs at h with hopen
    obtain ⟨rfl, rfl⟩ := Prod.mk.inj (Except.ok.inj h)
    exact ⟨hn, hopen, rfl, rfl⟩
  · rw [send, if_neg hx] at h
    exact absurd h (by simp)

/-- The pairs a receiver reads: as many as the count byte says, which is the number of full
files modulo 256. -/
def SmsEchoClient.advertisedPairs (n : SmsEchoClient) : List (UInt16 × UInt16) :=
  (n.fullFiles.map filePair).take (n.getNumOfFullFiles % 256)

theorem parse_advertisement (n : SmsEchoClient) (g : Garbage) :
    Message.parse (n.advertisement g) = .ok (.advertisement n.advertisedPairs) := by
  have hnum : (UInt8.ofNat n.getNumOfFullFiles).toNat = n.getNumOfFullFiles % 256 := by simp
  have hle : (UInt8.ofNat n.getNumOfFullFiles).toNat ≤ (n.fullFiles.map filePair).length := by
    rw [hnum, List.length_map, fullFiles_length]
    exact Nat.mod_le ..
  rw [advertisement, Message.parse_advertisement _ _ _ hle, hnum]
  rfl

theorem parse_onWire {n : SmsEchoClient} (h : n.files.length < 2 ^ 30) (g : Garbage) :
    Message.parse (n.onWire g) = .ok (.advertisement n.advertisedPairs) := by
  rw [onWire_eq h, parse_advertisement]

theorem advertisement_of_onWire {n : SmsEchoClient} {g : Garbage} {m : Message}
    (h : Message.parse (n.onWire g) = .ok m) : ∃ ps, m = .advertisement ps := by
  have hpos : n.wireLength = n.wireLength - 1 + 1 := by
    unfold wireLength
    omega
  rw [onWire, advertisement, hpos, List.take_succ_cons] at h
  exact Message.parse_zero h

def Lists (files : List FileSMSChunks) (id : UInt32) (node : Ipv4Address) : Prop :=
  ∃ f ∈ files, f.mId = id ∧ node ∈ f.nodesWhoHaveFile

theorem lists_cons {f : FileSMSChunks} {fs : List FileSMSChunks} {id : UInt32} {a : Ipv4Address} :
    Lists (f :: fs) id a ↔ f.mId = id ∧ a ∈ f.nodesWhoHaveFile ∨ Lists fs id a := by
  simp [Lists]

theorem lists_upsert {sender a : Ipv4Address} {change : FileSMSChunks → FileSMSChunks}
    {fresh : FileSMSChunks} {key : UInt32} (hid : ∀ f, (change f).mId = f.mId)
    (hchange : ∀ f, a ∈ (change f).nodesWhoHaveFile ↔ a ∈ f.nodesWhoHaveFile ∨ a = sender)
    (hkey : fresh.mId = key) (hfresh : a ∈ fresh.nodesWhoHaveFile ↔ a = sender)
    (files : List FileSMSChunks) (id : UInt32) :
    Lists (upsert fileKey key change fresh files) id a ↔
      Lists files id a ∨ a = sender ∧ key = id := by
  induction files with
  | nil =>
    rw [upsert, lists_cons, hfresh, hkey]
    simp [Lists, and_comm]
  | cons f fs ih =>
    rw [upsert]
    split_ifs with hf
    · have hf' : f.mId = key := hf
      rw [lists_cons, lists_cons, hid, hchange, hf']
      tauto
    · rw [lists_cons, lists_cons, ih]
      tauto

theorem lists_noteAdvertised {sender a : Ipv4Address} {files : List FileSMSChunks}
    {r : FileSMSChunks} (hr : r.nodesWhoHaveFile = []) {id : UInt32} :
    Lists (noteAdvertised sender files r) id a ↔
      Lists files id a ∨ a = sender ∧ r.mId = id := by
  have hfresh : a ∈ (r.addNodeToSeenList sender).nodesWhoHaveFile ↔ a = sender := by
    rw [FileSMSChunks.mem_addNodeToSeenList, hr]
    simp
  rw [noteAdvertised_eq_upsert]
  apply lists_upsert
  · exact fun f => f.addNodeToSeenList_mId sender
  · exact fun _ => FileSMSChunks.mem_addNodeToSeenList
  · exact r.addNodeToSeenList_mId sender
  · exact hfresh

theorem lists_foldl_noteAdvertised {sender a : Ipv4Address} {files : List FileSMSChunks}
    {ps : List (UInt16 × UInt16)} {id : UInt32} :
    Lists ((ps.map receivedFile).foldl (noteAdvertised sender) files) id a ↔
      Lists files id a ∨ a = sender ∧ ∃ p ∈ ps, p.1.toUInt32 = id := by
  induction ps generalizing files with
  | nil => simp
  | cons p ps ih =>
    rw [List.map_cons, List.foldl_cons, ih, lists_noteAdvertised rfl, receivedFile_mId]
    simp only [List.exists_mem_cons_iff]
    tauto

/-- The limit the encoder documents: 16 bits for an id and for a size. -/
def SixteenBit (f : FileSMS) : Prop := f.mId.toNat < 2 ^ 16 ∧ f.mFileSize.toNat < 2 ^ 16

instance (f : FileSMS) : Decidable (SixteenBit f) :=
  inferInstanceAs (Decidable (f.mId.toNat < 2 ^ 16 ∧ f.mFileSize.toNat < 2 ^ 16))

theorem length_le_of_sixteenBit {files : List FileSMSChunks} (hd : (files.map fileKey).Nodup)
    (hs : ∀ f ∈ files, SixteenBit f.toFileSMS) : files.length ≤ 2 ^ 16 := by
  have hids : (files.map fun f => f.mId.toNat).Nodup := by
    have hmap := hd.map (f := UInt32.toNat) fun _ _ => UInt32.toNat_inj.mp
    rwa [List.map_map] at hmap
  have hsub : (files.map fun f => f.mId.toNat) ⊆ List.range (2 ^ 16) := by
    intro id hid
    obtain ⟨f, hf, rfl⟩ := List.mem_map.mp hid
    exact List.mem_range.mpr (hs f hf).1
  have hlen := (hids.subperm hsub).length_le
  rwa [List.length_map, List.length_range] at hlen

theorem toUInt32_toUInt16 {x : UInt32} (h : x.toNat < 2 ^ 16) : x.toUInt16.toUInt32 = x := by
  rw [← UInt32.toNat_inj, UInt16.toNat_toUInt32, UInt32.toNat_toUInt16]
  exact Nat.mod_eq_of_lt h

theorem toUInt64_toUInt16 {x : UInt64} (h : x.toNat < 2 ^ 16) : x.toUInt16.toUInt64 = x := by
  rw [← UInt64.toNat_inj, UInt16.toNat_toUInt64, UInt64.toNat_toUInt16]
  exact Nat.mod_eq_of_lt h

theorem receivedFile_filePair {f : FileSMSChunks} (h : SixteenBit f.toFileSMS) :
    (receivedFile (filePair f)).toFileSMS = f.toFileSMS := by
  change FileSMS.mk f.mId.toUInt16.toUInt32 f.mFileSize.toUInt16.toUInt64 = f.toFileSMS
  rw [toUInt32_toUInt16 h.1, toUInt64_toUInt16 h.2]

theorem handlePacket_advertisement_files {n n' : SmsEchoClient} {d : Datagram} {rand : ℕ → ℚ}
    {fl : Flow} {ps : List (UInt16 × UInt16)} (hm : Message.parse d.bytes = .ok (.advertisement ps))
    (h : n.handlePacket d rand = .ok (fl, n')) :
    n'.files = (ps.map receivedFile).foldl (noteAdvertised d.sender) n.files := by
  rw [handlePacket_of_absorb rand hm rfl] at h
  obtain ⟨-, rfl⟩ := Prod.mk.inj (Except.ok.inj h)
  rfl

/-- A packet handled as an advertisement carries the sender's full files across: the list
decoded from it is theirs, in order, and the receiver comes to list the sender for them and
for no other file. -/
def RoundTrip (s r : SmsEchoClient) (bytes : Bytes) (rand : ℕ → ℚ) : Prop :=
  ∃ count received r₁ fl r',
    read8 bytes 1 = some count ∧
    (r.cancelAllEvents.addNodeToSeenList s.address).decodeFilesForAdv (bytes.drop 2) count s.address =
      .ok (received, r₁) ∧
    received.map FileSMSChunks.toFileSMS = s.fullFiles.map FileSMSChunks.toFileSMS ∧
    r.handlePacket ⟨s.address, bytes⟩ rand = .ok (fl, r') ∧
    ∀ id, Lists r'.files id s.address ↔ Lists r.files id s.address ∨ FullIn s.files id

theorem read8_advertisement (s : SmsEchoClient) (g : Garbage) :
    read8 (s.advertisement g) 1 = some (UInt8.ofNat s.getNumOfFullFiles) :=
  read8_one_cons_cons _ _ _

theorem readPairs_advertisement (s : SmsEchoClient) (g : Garbage) :
    readPairs ((s.advertisement g).drop 2) (UInt8.ofNat s.getNumOfFullFiles).toNat =
      some s.advertisedPairs := by
  have hnum : (UInt8.ofNat s.getNumOfFullFiles).toNat = s.getNumOfFullFiles % 256 := by simp
  have hle : (UInt8.ofNat s.getNumOfFullFiles).toNat ≤ (s.fullFiles.map filePair).length := by
    rw [hnum, List.length_map, fullFiles_length]
    exact Nat.mod_le ..
  rw [advertisedPairs, ← hnum]
  exact readPairs_flatMap _ _ hle

theorem decodeFilesForAdv_advertisement (s r : SmsEchoClient) (g : Garbage) :
    ∃ r₁, r.decodeFilesForAdv ((s.advertisement g).drop 2) (UInt8.ofNat s.getNumOfFullFiles)
      s.address = .ok (s.advertisedPairs.map receivedFile, r₁) :=
  ⟨_, decodeFilesForAdv_eq_ok.mpr ⟨_, readPairs_advertisement s g, rfl, rfl⟩⟩

theorem not_roundTrip_of_le {s r : SmsEchoClient} (g : Garbage) (rand : ℕ → ℚ)
    (h : 256 ≤ s.getNumOfFullFiles) : ¬ RoundTrip s r (s.advertisement g) rand := by
  rintro ⟨count, received, r₁, fl, r', hcount, hdec, hlist, -, -⟩
  rw [read8_advertisement] at hcount
  obtain rfl : UInt8.ofNat s.getNumOfFullFiles = count := Option.some.inj hcount
  obtain ⟨r₂, hdec'⟩ := decodeFilesForAdv_advertisement s
    (r.cancelAllEvents.addNodeToSeenList s.address) g
  rw [hdec'] at hdec
  obtain ⟨rfl, -⟩ := Prod.mk.inj (Except.ok.inj hdec)
  -- the decoded list is shorter than the list of the full files
  have hlen := congrArg List.length hlist
  simp only [advertisedPairs, List.length_map, List.length_take, fullFiles_length] at hlen
  have hmod := Nat.mod_lt s.getNumOfFullFiles (by decide : 0 < 256)
  omega

theorem roundTrip_of_lt {s r : SmsEchoClient} (hs : ∀ f ∈ s.files, SixteenBit f.toFileSMS)
    (g : Garbage) (rand : ℕ → ℚ) (h : s.getNumOfFullFiles < 256) :
    RoundTrip s r (s.advertisement g) rand := by
  have hall : s.advertisedPairs = s.fullFiles.map filePair := by
    rw [advertisedPairs, Nat.mod_eq_of_lt h, ← fullFiles_length]
    exact List.take_of_length_le (by rw [List.length_map])
  have hfull : ∀ f ∈ s.fullFiles, SixteenBit f.toFileSMS :=
    fun f hf => hs f (List.mem_filter.mp hf).1
  obtain ⟨r₁, hdec⟩ := decodeFilesForAdv_advertisement s
    (r.cancelAllEvents.addNodeToSeenList s.address) g
  have hparse := parse_advertisement s g
  have hhandle := handlePacket_of_absorb (n := r) (d := ⟨s.address, s.advertisement g⟩) rand
    hparse rfl
  refine ⟨_, _, r₁, _, _, read8_advertisement s g, hdec, ?_, hhandle, fun id => ?_⟩
  · rw [hall, List.map_map, List.map_map]
    exact List.map_congr_left fun f hf => receivedFile_filePair (hfull f hf)
  · rw [handlePacket_advertisement_files hparse hhandle, lists_foldl_noteAdvertised, hall]
    apply or_congr_right
    simp only [true_and]
    constructor
    · rintro ⟨p, hp, rfl⟩
      obtain ⟨f, hf, rfl⟩ := List.mem_map.mp hp
      refine ⟨f, (List.mem_filter.mp hf).1, ?_, (List.mem_filter.mp hf).2⟩
      exact (toUInt32_toUInt16 (hfull f hf).1).symm
    · rintro ⟨f, hf, rfl, hff⟩
      have hmem : f ∈ s.fullFiles := List.mem_filter.mpr ⟨hf, hff⟩
      exact ⟨_, List.mem_map_of_mem hmem, toUInt32_toUInt16 (hfull f hmem).1⟩

theorem send_roundTrip_iff {s s' r : SmsEchoClient} {g : Garbage} {bytes : Bytes}
    (hd : (s.files.map fileKey).Nodup) (hs : ∀ f ∈ s.files, SixteenBit f.toFileSMS)
    (hsend : s.send g = .ok (s', bytes)) (rand : ℕ → ℚ) :
    RoundTrip s r bytes rand ↔ s.getNumOfFullFiles < 256 := by
  obtain ⟨-, -, -, rfl⟩ := send_cases hsend
  have hlen := length_le_of_sixteenBit hd hs
  rw [onWire_eq (by omega)]
  constructor
  · intro h
    by_contra hge
    exact not_roundTrip_of_le g rand (not_lt.mp hge) h
  · exact roundTrip_of_lt hs g rand

def onAir (address : Ipv4Address) (l : List FileSMS) : SmsEchoClient :=
  let n := (boot 0 address l).startApplication 0
  { n with timers := n.timers.cancel n.timers.mSendEvent }

theorem onAir_getNumOfFullFiles (address : Ipv4Address) (l : List FileSMS) :
    (onAir address l).getNumOfFullFiles = l.length :=
  setFiles_getNumOfFullFiles ((construct 0).setIPAdress address) l

theorem onAir_send (address : Ipv4Address) {l : List FileSMS} (hl : l.length < 2 ^ 30)
    (g : Garbage) :
    (onAir address l).send g = .ok ((onAir address l).sent g, (onAir address l).advertisement g) := by
  have hlen : (onAir address l).files.length < 2 ^ 30 := by
    change (l.map _).length < 2 ^ 30
    rwa [List.length_map]
  have hsend := send_eq (n := onAir address l) rfl (countersFit_of_length (by omega)) g
  rw [onWire_eq hlen] at hsend
  exact hsend

theorem send_roundTrip_iff_witness :
    RoundTrip (onAir 1 [⟨7, 2⟩, ⟨5, 1⟩]) (onAir 2 [⟨9, 1⟩])
        ((onAir 1 [⟨7, 2⟩, ⟨5, 1⟩]).advertisement ⟨fun _ => 0, fun _ => 0⟩) (fun _ => 0) ↔
      (onAir 1 [⟨7, 2⟩, ⟨5, 1⟩]).getNumOfFullFiles < 256 :=
  send_roundTrip_iff (by decide) (by decide)
    (onAir_send 1 (l := [⟨7, 2⟩, ⟨5, 1⟩]) (by decide) ⟨fun _ => 0, fun _ => 0⟩) fun _ => 0

def crowdedFiles : List FileSMS := (List.range 256).map fun i => ⟨UInt32.ofNat i, 1⟩

theorem crowdedFiles_distinctIds : DistinctIds crowdedFiles := by
  rw [DistinctIds, crowdedFiles, List.map_map]
  refine List.Nodup.map_on (fun a ha b hb hab => ?_) List.nodup_range
  have hnat : (UInt32.ofNat a).toNat = (UInt32.ofNat b).toNat := congrArg UInt32.toNat hab
  have ha' : a < 256 := List.mem_range.mp ha
  have hb' : b < 256 := List.mem_range.mp hb
  rw [UInt32.toNat_ofNat', UInt32.toNat_ofNat'] at hnat
  omega

theorem crowdedFiles_sixteenBit : ∀ f ∈ crowdedFiles, SixteenBit f := by
  intro f hf
  obtain ⟨i, hi, rfl⟩ := List.mem_map.mp hf
  have hi' : i < 256 := List.mem_range.mp hi
  refine ⟨?_, (by decide : (1 : UInt64).toNat < 2 ^ 16)⟩
  rw [UInt32.toNat_ofNat']
  omega

theorem crowded_not_roundTrip :
    DistinctIds crowdedFiles ∧ (∀ f ∈ crowdedFiles, SixteenBit f) ∧
      (∃ s', (onAir 1 crowdedFiles).send ⟨fun _ => 0, fun _ => 0⟩ =
        .ok (s', (onAir 1 crowdedFiles).advertisement ⟨fun _ => 0, fun _ => 0⟩)) ∧
      ¬ RoundTrip (onAir 1 crowdedFiles) (onAir 2 [⟨9, 1⟩])
        ((onAir 1 crowdedFiles).advertisement ⟨fun _ => 0, fun _ => 0⟩) (fun _ => 0) := by
  have hlen : crowdedFiles.length = 256 := by simp [crowdedFiles]
  refine ⟨crowdedFiles_distinctIds, crowdedFiles_sixteenBit, ⟨_, onAir_send 1 (by omega) _⟩, ?_⟩
  apply not_roundTrip_of_le
  rw [onAir_getNumOfFullFiles, hlen]

end SmsEcho
