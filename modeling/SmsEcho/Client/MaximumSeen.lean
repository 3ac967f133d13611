import SmsEcho.Client.NodeHistory

/-! `maximum_full_files_seen` against the counts of a whole run: the number of files given to
`SetFiles`, the counts advertised to the node, and the node's own counts. -/

namespace SmsEcho
open ByteBuffer PartialRun KeyedList LabelledTrace SmsEchoClient

def Message.advertisedCount : Message → ℕ
  | .advertisement ps => ps.length
  | _ => 0

def Observation.advertisedCount (o : Observation) : ℕ :=
  match o.heard with
  | some (_, m) => m.advertisedCount
  | none => 0

def largestSeen (l : List FileSMS) :
    List (SmsEchoClient × Observation) → SmsEchoClient → ℕ
  | [], n => max l.length n.getNumOfFullFiles
  | x :: hist, n =>
    max (max (largestSeen l hist x.1) x.2.advertisedCount) n.getNumOfFullFiles

theorem getNumOfFullFiles_congr {n n' : SmsEchoClient} (h : n'.files = n.files) :
    n'.getNumOfFullFiles = n.getNumOfFullFiles := by
  unfold getNumOfFullFiles
  rw [h]

theorem getNumOfFullFiles_le_largestSeen (l : List FileSMS)
    (hist : List (SmsEchoClient × Observation)) (n : SmsEchoClient) :
    n.getNumOfFullFiles ≤ largestSeen l hist n := by
  cases hist with
  | nil => exact le_max_right _ _
  | cons x hist => exact le_max_right _ _

/-- The advertised files that are new to the node and have no chunks: ids that are not known
when their turn comes, with size zero. -/
def fullOnArrival (known : List UInt32) : List (UInt16 × UInt16) → ℕ
  | [] => 0
  | p :: ps =>
    if p.1.toUInt32 ∈ known then fullOnArrival known ps
    else (if p.2 = 0 then 1 else 0) + fullOnArrival (known ++ [p.1.toUInt32]) ps

theorem receivedFile_isFull_iff (p : UInt16 × UInt16) :
    (receivedFile p).isFull = true ↔ p.2 = 0 := by
  have hfull : (receivedFile p).isFull = true ↔ (chunkCount p.2.toUInt64).toNat = 0 := by
    rw [FileSMSChunks.isFull, beq_iff_eq, ← UInt32.toNat_inj]
    exact eq_comm
  have hsize : p.2.toUInt64.toNat = p.2.toNat := UInt16.toNat_toUInt64 _
  rw [hfull, ← UInt16.toNat_inj]
  constructor
  · intro hnone
    by_contra hpos
    have hlt : p.2.toUInt64.toNat < 2 ^ 32 := by
      rw [hsize]
      exact p.2.toNat_lt.trans (by decide)
    have hcount := FileSMSChunks.chunkCount_pos (hsize ▸ Nat.pos_of_ne_zero hpos) hlt
    exact absurd hnone hcount.ne'
  · intro hzero
    have heq : p.2 = 0 := UInt16.toNat_inj.mp hzero
    rw [heq]
    decide

theorem addNodeToSeenList_isFull (f : FileSMSChunks) (node : Ipv4Address) :
    (f.addNodeToSeenList node).isFull = f.isFull := by
  simp [FileSMSChunks.isFull]

theorem countP_foldl_noteAdvertised (sender : Ipv4Address) (ps : List (UInt16 × UInt16))
    (files : List FileSMSChunks) :
    ((ps.map receivedFile).foldl (noteAdvertised sender) files).countP FileSMSChunks.isFull =
      files.countP FileSMSChunks.isFull + fullOnArrival (files.map fileKey) ps := by
  induction ps generalizing files with
  | nil => rfl
  | cons p ps ih =>
    have hkeep : ∀ f : FileSMSChunks, (f.addNodeToSeenList sender).isFull = f.isFull :=
      fun f => addNodeToSeenList_isFull f sender
    have hkeys : (upsert fileKey p.1.toUInt32 (fun f => f.addNodeToSeenList sender)
        ((receivedFile p).addNodeToSeenList sender) files).map fileKey =
        if p.1.toUInt32 ∈ files.map fileKey then files.map fileKey
        else files.map fileKey ++ [p.1.toUInt32] :=
      map_key_upsert (by simp) (by simp) files
    rw [List.map_cons, List.foldl_cons, ih, noteAdvertised_eq_upsert, receivedFile_mId,
      countP_upsert hkeep, hkeep, hkeys, fullOnArrival]
    simp only [receivedFile_isFull_iff]
    split_ifs <;> ac_rfl

def heardIn (hist : List (SmsEchoClient × Observation)) : List (Ipv4Address × Message) :=
  hist.filterMap fun x => x.2.heard

theorem heardIn_cons_of_none {hist : List (SmsEchoClient × Observation)}
    {x : SmsEchoClient × Observation} (h : x.2.heard = none) : heardIn (x :: hist) = heardIn hist :=
  List.filterMap_cons_none h

theorem heardIn_cons_of_some {hist : List (SmsEchoClient × Observation)}
    {x : SmsEchoClient × Observation} {m : Ipv4Address × Message} (h : x.2.heard = some m) :
    heardIn (x :: hist) = m :: heardIn hist :=
  List.filterMap_cons_some h

def holding (files : List FileSMSChunks) : SmsEchoClient := { construct 0 with files := files }

def learnFiles (files : List FileSMSChunks) (x : Ipv4Address × Message) : List FileSMSChunks :=
  match (holding files).absorb x.1 x.2 with
  | .ok n => n.files
  | .error _ => files

def informedBy (l : List FileSMS) : List (Ipv4Address × Message) → SmsEchoClient
  | [] => (construct 0).setFiles l
  | x :: heard =>
    let n := informedBy l heard
    noteFullFiles { n with
      files := learnFiles n.files x
      maximumFullFilesSeen := max n.maximumFullFilesSeen x.2.advertisedCount }

theorem learnFiles_of_learns {n n' : SmsEchoClient} {x : Ipv4Address × Message}
    (h : Learns n n' (some x)) : n'.files = learnFiles n.files x := by
  cases h with
  | advertisement hfiles _ _ => exact hfiles
  | @request sender header hfiles _ _ =>
    rw [hfiles, learnFiles, absorb]
    split_ifs <;> rfl
  | @repeated sender header hindex hhas hfiles _ _ =>
    have hindexed : (holding n.files).Indexed header.fileId := hindex
    have hthere : ((holding n.files).target header.fileId header.fileSize).Has
        header.chunkId.toNat := target_has_iff.mpr hhas
    rw [hfiles, learnFiles, absorb, addNewChunk_eq hindexed, if_pos hthere]
    split_ifs <;> rfl
  | @stored sender header hindex hc hnew hfiles _ _ =>
    have hindexed : (holding n.files).Indexed header.fileId := hindex
    have hnot : ¬ ((holding n.files).target header.fileId header.fileSize).Has
        header.chunkId.toNat := mt target_has_iff.mp hnew
    have hrange : header.chunkId <
        ((holding n.files).target header.fileId header.fileSize).fileSizeInChunks := hc
    rw [hfiles, learnFiles, absorb, addNewChunk_eq hindexed, if_pos hrange, if_neg hnot]
    rfl

theorem advertisedCount_of_heard {o : Observation} {x : Ipv4Address × Message}
    (h : o.heard = some x) : o.advertisedCount = x.2.advertisedCount := by
  rw [Observation.advertisedCount, h]

theorem advertisedCount_of_none {o : Observation} (h : o.heard = none) : o.advertisedCount = 0 := by
  rw [Observation.advertisedCount, h]

theorem setFiles_largest (n : SmsEchoClient) (l : List FileSMS) :
    max l.length (n.setFiles l).getNumOfFullFiles = l.length := by
  rw [setFiles_getNumOfFullFiles, max_self]

theorem informedBy_of_history {memory : ℕ} {address : Ipv4Address} {l : List FileSMS} {rand : ℚ}
    {hist : List (SmsEchoClient × Observation)} {n : SmsEchoClient}
    (h : NodeHistory ((boot memory address l).startApplication rand) hist n) :
    n.files = (informedBy l (heardIn hist)).files ∧
      largestSeen l hist n = (informedBy l (heardIn hist)).maximumFullFilesSeen := by
  induction h with
  | nil =>
    refine ⟨rfl, ?_⟩
    have hlargest := setFiles_largest ((construct memory).setIPAdress address) l
    have hzero : max 0 l.length = l.length := Nat.zero_max _
    exact hlargest.trans hzero.symm
  | @cons hist n n' x _ hx ih =>
    obtain ⟨n, o⟩ := x
    obtain ⟨rfl, hstep⟩ := hx
    obtain ⟨hfiles, hlargest⟩ := ih
    have hlearns := hstep.learns
    cases heard : o.heard with
    | none =>
      rw [heard] at hlearns
      have hsame : heardIn ((n, o) :: hist) = heardIn hist := heardIn_cons_of_none heard
      cases hlearns with
      | spoke hkeep _ _ =>
        have hcount := getNumOfFullFiles_congr hkeep
        refine ⟨by rw [hkeep, hfiles, hsame], ?_⟩
        rw [largestSeen, advertisedCount_of_none heard, hcount, hsame, ← hlargest, Nat.max_zero]
        exact max_eq_left (getNumOfFullFiles_le_largestSeen l hist n)
    | some x =>
      rw [heard] at hlearns
      have hmore : heardIn ((n, o) :: hist) = x :: heardIn hist :=
        heardIn_cons_of_some heard
      have hnew : n'.files = (informedBy l (x :: heardIn hist)).files := by
        rw [learnFiles_of_learns hlearns, hfiles]
        rfl
      have hcount := getNumOfFullFiles_congr hnew
      refine ⟨by rw [hmore, hnew], ?_⟩
      rw [largestSeen, advertisedCount_of_heard heard, hcount, hlargest, hmore]
      rfl

/-- The largest count seen is the largest of the run; so it is not below the node's own count,
and the next delay follows from the node's inputs and the draw. -/
structure MaximumExact (l : List FileSMS) (hist : List (SmsEchoClient × Observation))
    (n : SmsEchoClient) : Prop where
  largest : n.maximumFullFilesSeen = largestSeen l hist n
  own : n.getNumOfFullFiles ≤ n.maximumFullFilesSeen
  delay : ∀ start draw, n.getTimeAdvertisement start draw =
    (informedBy l (heardIn hist)).getTimeAdvertisement start draw

def ArrivalsCounted (n : SmsEchoClient) (o : Observation) : Prop :=
  ∀ sender ps, o.heard = some (sender, .advertisement ps) →
    n.getNumOfFullFiles + fullOnArrival (n.files.map fileKey) ps ≤
      max n.maximumFullFilesSeen ps.length

theorem maximumExact_iff_largest {memory : ℕ} {address : Ipv4Address} {l : List FileSMS} {rand : ℚ}
    {hist : List (SmsEchoClient × Observation)} {n : SmsEchoClient}
    (h : NodeHistory ((boot memory address l).startApplication rand) hist n) :
    MaximumExact l hist n ↔ n.maximumFullFilesSeen = largestSeen l hist n := by
  refine ⟨MaximumExact.largest, fun hlargest => ⟨hlargest, ?_, fun start draw => ?_⟩⟩
  · rw [hlargest]
    exact getNumOfFullFiles_le_largestSeen l hist n
  · obtain ⟨hfiles, hseen⟩ := informedBy_of_history h
    have hmax := hlargest.trans hseen
    unfold getTimeAdvertisement getNumOfFullFiles
    rw [hfiles, hmax]

theorem arrivalsCounted_of_ne {n : SmsEchoClient} {o : Observation}
    (h : ∀ sender ps, o.heard ≠ some (sender, .advertisement ps)) : ArrivalsCounted n o :=
  fun sender ps heard => absurd heard (h sender ps)

theorem arrivalsCounted_iff {n : SmsEchoClient} {o : Observation} {sender : Ipv4Address}
    {ps : List (UInt16 × UInt16)} (heard : o.heard = some (sender, .advertisement ps)) :
    ArrivalsCounted n o ↔ n.getNumOfFullFiles + fullOnArrival (n.files.map fileKey) ps ≤
      max n.maximumFullFilesSeen ps.length := by
  constructor
  · exact fun hall => hall sender ps heard
  · intro hle sender' ps' hadv
    obtain ⟨-, heq⟩ := Prod.mk.inj (Option.some.inj (heard.symm.trans hadv))
    obtain rfl := Message.advertisement.inj heq
    exact hle

theorem largest_step_iff {l : List FileSMS} {hist : List (SmsEchoClient × Observation)}
    {n n' : SmsEchoClient} {o : Observation}
    (h : n.maximumFullFilesSeen = largestSeen l hist n) (hstep : NodeStep n o n') :
    n'.maximumFullFilesSeen = largestSeen l ((n, o) :: hist) n' ↔ ArrivalsCounted n o := by
  have hlearns := hstep.learns
  have hown : n.getNumOfFullFiles ≤ n.maximumFullFilesSeen :=
    h ▸ getNumOfFullFiles_le_largestSeen l hist n
  -- with the files as they were, the largest count stays what it was
  have hstill : n'.files = n.files → n'.maximumFullFilesSeen = n.maximumFullFilesSeen →
      n'.maximumFullFilesSeen = max (max n.maximumFullFilesSeen 0) n'.getNumOfFullFiles := by
    intro hfiles hmax
    rw [hmax, getNumOfFullFiles_congr hfiles, Nat.max_zero, max_eq_left hown]
  rw [largestSeen, ← h]
  generalize heard : o.heard = message at hlearns
  cases hlearns with
  | @advertisement sender ps hfiles _ hmax =>
    have hfull : n'.getNumOfFullFiles =
        n.getNumOfFullFiles + fullOnArrival (n.files.map fileKey) ps := by
      rw [getNumOfFullFiles, hfiles]
      exact countP_foldl_noteAdvertised sender ps n.files
    rw [advertisedCount_of_heard heard, hmax, arrivalsCounted_iff heard, ← hfull]
    exact left_eq_sup
  | request hfiles _ hmax =>
    rw [advertisedCount_of_heard heard,
      iff_true_right (arrivalsCounted_of_ne (by simp [heard]))]
    exact hstill hfiles hmax
  | repeated _ _ hfiles _ hmax =>
    rw [advertisedCount_of_heard heard,
      iff_true_right (arrivalsCounted_of_ne (by simp [heard]))]
    exact hstill hfiles hmax
  | stored _ _ _ _ _ hmax =>
    rw [advertisedCount_of_heard heard,
      iff_true_right (arrivalsCounted_of_ne (by simp [heard]))]
    exact hmax.trans (congrArg (max · n'.getNumOfFullFiles) (Nat.max_zero _).symm)
  | spoke hfiles _ hmax =>
    rw [advertisedCount_of_none heard, iff_true_right (arrivalsCounted_of_ne (by simp [heard]))]
    apply hstill hfiles
    rcases hmax with hmax | hmax
    · exact hmax
    · rw [hmax, max_eq_left hown]

/-- All along a run the largest count seen is the largest of the run, exactly when the
constructor found no larger number in its memory and every advertised file that is full on
arrival is covered by a count seen already. -/
theorem maximumExact_throughout_iff (memory : ℕ) (address : Ipv4Address) (l : List FileSMS)
    (rand : ℚ) {hist : List (SmsEchoClient × Observation)} {n : SmsEchoClient}
    (h : NodeHistory ((boot memory address l).startApplication rand) hist n) :
    Throughout (MaximumExact l) hist n ↔
      memory ≤ l.length ∧ ∀ x ∈ hist, ArrivalsCounted x.1 x.2 := by
  have hstart : MaximumExact l [] ((boot memory address l).startApplication rand) ↔
      memory ≤ l.length := by
    have hlargest := setFiles_largest ((construct memory).setIPAdress address) l
    rw [maximumExact_iff_largest .nil]
    change max memory l.length = max l.length (boot memory address l).getNumOfFullFiles ↔ _
    rw [boot, hlargest]
    exact sup_eq_right
  have hkeep : ∀ hist n o n',
      NodeHistory ((boot memory address l).startApplication rand) hist n →
      MaximumExact l hist n → NodeStep n o n' →
      (MaximumExact l ((n, o) :: hist) n' ↔ ArrivalsCounted n o) := by
    intro hist n o n' hh hexact hstep
    have hnext : NodeHistory ((boot memory address l).startApplication rand) ((n, o) :: hist) n' :=
      hh.cons ⟨rfl, hstep⟩
    rw [maximumExact_iff_largest hnext]
    exact largest_step_iff hexact.largest hstep
  rw [h.throughout_iff hkeep, hstart]

theorem maximumExact_throughout_iff_witness : Throughout (MaximumExact [⟨7, 2⟩])
    [informed.hearing firstServed, listener.hearing firstHeard] served := by
  refine (maximumExact_throughout_iff 0 1 [⟨7, 2⟩] 0 served_history).mpr ⟨by decide, ?_⟩
  refine List.forall_mem_cons.mpr ⟨?_, List.forall_mem_singleton.mpr ?_⟩
  · exact arrivalsCounted_of_ne (by simp [heard_hearing parse_firstServed])
  · rw [arrivalsCounted_iff (heard_hearing parse_firstHeard)]
    decide

/-- Node 2 advertises file 9, of size zero. -/
def emptyAdvertised : Datagram := ⟨2, [0, 1, 9, 0, 0, 0]⟩

/-- A number left in the node's memory stays the largest count seen; and an empty file makes
the node's own count larger than any seen. -/
theorem not_maximumExact :
    ¬ MaximumExact [⟨7, 2⟩] [] ((boot 99 1 [⟨7, 2⟩]).startApplication 0) ∧
      NodeHistory listener [listener.hearing emptyAdvertised] (listener.hears emptyAdvertised) ∧
      ¬ MaximumExact [⟨7, 2⟩] [listener.hearing emptyAdvertised]
        (listener.hears emptyAdvertised) := by
  have hm : Message.parse emptyAdvertised.bytes = .ok (.advertisement [(9, 0)]) := by decide
  refine ⟨fun hexact => ?_, .cons .nil ⟨rfl, step_hears hm rfl (by decide)⟩, fun hexact => ?_⟩
  · exact absurd hexact.largest (by decide)
  · have hfull := hexact.own
    rw [hears_eq hm rfl] at hfull
    exact absurd hfull (by decide)

end SmsEcho
