import SmsEcho.Client.NodeHistory

/-! The holder lists of a node: against what the node has been told, and against the nodes it
has seen. -/

namespace SmsEcho
open ByteBuffer PartialRun KeyedList LabelledTrace SmsEchoClient

def Message.Tells (id : UInt32) : Message → Prop
  | .advertisement ps => ∃ p ∈ ps, p.1.toUInt32 = id
  | .request _ => False
  | .reply h => h.fileId = id

def SmsEchoClient.Repeated (n : SmsEchoClient) : Message → Prop
  | .reply h => n.HasChunk h.fileId h.chunkId.toNat
  | _ => False

theorem lists_storedFiles {n : SmsEchoClient} {id size c : UInt32} {sender : Ipv4Address}
    {j : UInt32} {a : Ipv4Address} :
    Lists (n.storedFiles id size c sender) j a ↔ Lists n.files j a ∨ a = sender ∧ id = j := by
  have hfresh : a ∈ (((FileSMSChunks.construct id size.toUInt64 false).addNodeToSeenList
      sender).storeChunk c).nodesWhoHaveFile ↔ a = sender := by
    change a ∈ ((FileSMSChunks.construct id size.toUInt64 false).addNodeToSeenList
      sender).nodesWhoHaveFile ↔ a = sender
    simp [FileSMSChunks.mem_addNodeToSeenList]
  unfold SmsEchoClient.storedFiles
  apply lists_upsert
  · exact fun f => f.addNodeToSeenList_mId sender
  · exact fun _ => FileSMSChunks.mem_addNodeToSeenList
  · exact FileSMSChunks.addNodeToSeenList_mId _ sender
  · exact hfresh

theorem SmsEchoClient.Learns.lists_iff {n n' : SmsEchoClient} {heard : Option (Ipv4Address × Message)}
    (h : Learns n n' heard) {id : UInt32} {a : Ipv4Address} :
    Lists n'.files id a ↔
      Lists n.files id a ∨ ∃ m, heard = some (a, m) ∧ m.Tells id ∧ ¬ n.Repeated m := by
  cases h with
  | @advertisement sender ps hfiles _ _ =>
    rw [hfiles, lists_foldl_noteAdvertised]
    apply or_congr_right
    constructor
    · rintro ⟨rfl, htells⟩
      exact ⟨_, rfl, htells, not_false⟩
    · rintro ⟨m, heq, htells, -⟩
      obtain ⟨rfl, rfl⟩ := Prod.mk.inj (Option.some.inj heq)
      exact ⟨rfl, htells⟩
  | request hfiles _ _ =>
    rw [hfiles, iff_self_or]
    rintro ⟨m, heq, htells, -⟩
    obtain ⟨-, rfl⟩ := Prod.mk.inj (Option.some.inj heq)
    exact htells.elim
  | repeated _ hhas hfiles _ _ =>
    rw [hfiles, iff_self_or]
    rintro ⟨m, heq, -, hnot⟩
    obtain ⟨-, rfl⟩ := Prod.mk.inj (Option.some.inj heq)
    exact absurd hhas hnot
  | stored _ _ hnew hfiles _ _ =>
    rw [hfiles, lists_storedFiles]
    apply or_congr_right
    constructor
    · rintro ⟨rfl, rfl⟩
      exact ⟨_, rfl, rfl, hnew⟩
    · rintro ⟨m, heq, htells, -⟩
      obtain ⟨rfl, rfl⟩ := Prod.mk.inj (Option.some.inj heq)
      exact ⟨rfl, htells⟩
  | spoke hfiles _ _ =>
    rw [hfiles, iff_self_or]
    rintro ⟨m, heq, -⟩
    exact absurd heq (by simp)

theorem not_lists_boot {memory : ℕ} {address : Ipv4Address} {l : List FileSMS} {rand : ℚ}
    {id : UInt32} {a : Ipv4Address} :
    ¬ Lists ((boot memory address l).startApplication rand).files id a := by
  rintro ⟨f, hf, -, ha⟩
  obtain ⟨g, -, rfl⟩ := List.mem_map.mp hf
  exact absurd ha (by simp)

def ToldOf (hist : List (SmsEchoClient × Observation)) (id : UInt32) (a : Ipv4Address) : Prop :=
  ∃ x ∈ hist, ∃ m, x.2.heard = some (a, m) ∧ m.Tells id

def HoldersExact (hist : List (SmsEchoClient × Observation)) (n : SmsEchoClient) : Prop :=
  ∀ id a, Lists n.files id a ↔ ToldOf hist id a

def RepeatsFromHolders (n : SmsEchoClient) (o : Observation) : Prop :=
  ∀ sender h, o.heard = some (sender, .reply h) → n.HasChunk h.fileId h.chunkId.toNat →
    Lists n.files h.fileId sender

theorem toldOf_cons {hist : List (SmsEchoClient × Observation)} {x : SmsEchoClient × Observation}
    {id : UInt32} {a : Ipv4Address} :
    ToldOf (x :: hist) id a ↔ (∃ m, x.2.heard = some (a, m) ∧ m.Tells id) ∨ ToldOf hist id a :=
  List.exists_mem_cons_iff ..

theorem HoldersExact.step_iff {hist : List (SmsEchoClient × Observation)} {n n' : SmsEchoClient}
    {o : Observation} (h : HoldersExact hist n) (hstep : NodeStep n o n') :
    HoldersExact ((n, o) :: hist) n' ↔ RepeatsFromHolders n o := by
  constructor
  · intro hexact sender header heard hhas
    have htold : ToldOf ((n, o) :: hist) header.fileId sender :=
      toldOf_cons.mpr (Or.inl ⟨_, heard, rfl⟩)
    have hlists := (hexact header.fileId sender).mpr htold
    -- the reply itself did not make the node list its sender
    rcases hstep.learns.lists_iff.mp hlists with hbefore | ⟨m, heq, -, hnot⟩
    · exact hbefore
    · obtain ⟨-, rfl⟩ := Prod.mk.inj (Option.some.inj (heard.symm.trans heq))
      exact absurd hhas hnot
  · intro hguard id a
    rw [hstep.learns.lists_iff, toldOf_cons, h id a]
    constructor
    · rintro (htold | ⟨m, heard, htells, -⟩)
      · exact Or.inr htold
      · exact Or.inl ⟨m, heard, htells⟩
    · rintro (⟨m, heard, htells⟩ | htold)
      · by_cases hrep : n.Repeated m
        · cases m with
          | advertisement ps => exact hrep.elim
          | request header => exact hrep.elim
          | reply header =>
            have hid : header.fileId = id := htells
            have hlists := hguard a header heard hrep
            rw [hid] at hlists
            exact Or.inl ((h id a).mp hlists)
        · exact Or.inr ⟨m, heard, htells, hrep⟩
      · exact Or.inl htold

theorem holdersExact_start (memory : ℕ) (address : Ipv4Address) (l : List FileSMS) (rand : ℚ) :
    HoldersExact [] ((boot memory address l).startApplication rand) := by
  intro id a
  simp [not_lists_boot, ToldOf]

/-- All along a run the holder lists are what the node has been told, exactly when no reply
that repeats a chunk comes from a node not listed for the file. -/
theorem holdersExact_throughout_iff (memory : ℕ) (address : Ipv4Address) (l : List FileSMS)
    (rand : ℚ) {hist : List (SmsEchoClient × Observation)} {n : SmsEchoClient}
    (h : NodeHistory ((boot memory address l).startApplication rand) hist n) :
    Throughout HoldersExact hist n ↔ ∀ x ∈ hist, RepeatsFromHolders x.1 x.2 := by
  rw [h.throughout_iff fun _ _ _ _ _ hexact hstep => hexact.step_iff hstep]
  exact and_iff_right (holdersExact_start memory address l rand)

theorem heard_firstHeard {sender : Ipv4Address} {h : ReplyHeader} :
    (listener.hearing firstHeard).2.heard ≠ some (sender, .reply h) := by
  simp [heard_hearing parse_firstHeard]

theorem reply_of_firstServed {n : SmsEchoClient} {sender : Ipv4Address} {h : ReplyHeader}
    (heard : (n.hearing firstServed).2.heard = some (sender, .reply h)) :
    sender = 2 ∧ h = ⟨2, 1, 9, 2, 0⟩ := by
  rw [heard_hearing parse_firstServed] at heard
  obtain ⟨rfl, heq⟩ := Prod.mk.inj (Option.some.inj heard)
  exact ⟨rfl, (Message.reply.inj heq).symm⟩

theorem informed_lacks : ¬ informed.HasChunk 9 0 := by
  have hlacks : ¬ (informed.target 9 2).Has 0 := by decide
  rwa [target_has_iff] at hlacks

theorem holdersExact_throughout_iff_witness : Throughout HoldersExact
    [served.hearing firstServed, informed.hearing firstServed, listener.hearing firstHeard]
    (served.hears firstServed) := by
  refine (holdersExact_throughout_iff 0 1 [⟨7, 2⟩] 0 served_twice_history).mpr ?_
  refine List.forall_mem_cons.mpr ⟨?_, List.forall_mem_cons.mpr ⟨?_, List.forall_mem_singleton.mpr ?_⟩⟩
  · intro sender h heard _
    obtain ⟨rfl, rfl⟩ := reply_of_firstServed heard
    have hlists : ∃ f ∈ served.files, f.mId = 9 ∧ 2 ∈ f.nodesWhoHaveFile := by decide +kernel
    exact hlists
  · intro sender h heard hhas
    obtain ⟨rfl, rfl⟩ := reply_of_firstServed heard
    exact absurd hhas informed_lacks
  · exact fun sender h heard => absurd heard heard_firstHeard

/-- Node 9 gives node 5 a chunk of file 7, which the listener has. -/
def secondHolder : Datagram :=
  ⟨9, [2, 0, 0, 0, 5, 0, 0, 0, 7, 0, 0, 0, 2, 0, 0, 0, 0, 0, 0, 0]⟩

theorem not_holdersExact_of_repeated :
    NodeHistory listener [listener.hearing secondHolder] (listener.hears secondHolder) ∧
      ¬ HoldersExact [listener.hearing secondHolder] (listener.hears secondHolder) := by
  have hm : Message.parse secondHolder.bytes = .ok (.reply ⟨2, 5, 7, 2, 0⟩) := by decide
  have hstep := step_of_reply (n := listener) hm (by decide) (by decide)
  refine ⟨.cons .nil ⟨rfl, hstep⟩, fun hexact => ?_⟩
  have hguard := ((holdersExact_start 0 1 [⟨7, 2⟩] 0).step_iff hstep).mp hexact
  have hhas : listener.HasChunk 7 0 := by
    refine ⟨FileSMSChunks.construct 7 2 true, rfl, ?_⟩
    decide
  exact not_lists_boot (hguard 9 _ (heard_hearing hm) hhas)

/-- The holders of each file are seen nodes, each listed once, so that popularities are
fractions. -/
structure HoldersSeen (n : SmsEchoClient) : Prop where
  nodup : ∀ f ∈ n.files, f.nodesWhoHaveFile.Nodup
  seen : ∀ f ∈ n.files, ∀ a ∈ f.nodesWhoHaveFile, a ∈ n.seenNodes
  popularity : (∃ f ∈ n.files, f.nodesWhoHaveFile ≠ []) → n.seenNodes.length ≠ 0 ∧
    ∀ f ∈ n.files, 0 ≤ f.getPopularity n.seenNodes.length ∧
      f.getPopularity n.seenNodes.length ≤ 1

def NewChunksFromSeen (n : SmsEchoClient) (o : Observation) : Prop :=
  ∀ sender h, o.heard = some (sender, .reply h) → ¬ n.HasChunk h.fileId h.chunkId.toNat →
    sender ∈ n.seenNodes

structure HoldersIn (seen : List Ipv4Address) (f : FileSMSChunks) : Prop where
  nodup : f.nodesWhoHaveFile.Nodup
  among : ∀ a ∈ f.nodesWhoHaveFile, a ∈ seen

theorem HoldersIn.of_nil {seen : List Ipv4Address} {f : FileSMSChunks}
    (h : f.nodesWhoHaveFile = []) : HoldersIn seen f := by
  constructor
  · rw [h]
    exact List.nodup_nil
  · simp [h]

theorem HoldersIn.mono {seen seen' : List Ipv4Address} {f : FileSMSChunks} (h : HoldersIn seen f)
    (hsub : seen ⊆ seen') : HoldersIn seen' f := ⟨h.nodup, fun a ha => hsub (h.among a ha)⟩

theorem HoldersIn.addNodeToSeenList {seen : List Ipv4Address} {f : FileSMSChunks}
    (h : HoldersIn seen f) {node : Ipv4Address} (hnode : node ∈ seen) :
    HoldersIn seen (f.addNodeToSeenList node) where
  nodup := FileSMSChunks.nodup_addNodeToSeenList h.nodup node
  among a ha := by
    rcases FileSMSChunks.mem_addNodeToSeenList.mp ha with ha | rfl
    · exact h.among a ha
    · exact hnode

theorem HoldersIn.popularity {seen : List Ipv4Address} {f : FileSMSChunks} (h : HoldersIn seen f)
    (hne : seen ≠ []) : 0 ≤ f.getPopularity seen.length ∧ f.getPopularity seen.length ≤ 1 := by
  have hlen : f.nodesWhoHaveFile.length ≤ seen.length := (h.nodup.subperm h.among).length_le
  have hpos : 0 < seen.length := List.length_pos_of_ne_nil hne
  rw [FileSMSChunks.getPopularity, if_neg hpos.ne']
  constructor
  · rw [← WithTop.coe_zero, WithTop.coe_le_coe]
    positivity
  · rw [← WithTop.coe_one, WithTop.coe_le_coe, div_le_one (by exact_mod_cast hpos)]
    exact_mod_cast hlen

theorem holdersSeen_iff {n : SmsEchoClient} :
    HoldersSeen n ↔ ∀ f ∈ n.files, HoldersIn n.seenNodes f := by
  constructor
  · exact fun h f hf => ⟨h.nodup f hf, h.seen f hf⟩
  · intro h
    refine ⟨fun f hf => (h f hf).nodup, fun f hf => (h f hf).among, ?_⟩
    rintro ⟨f, hf, hne⟩
    obtain ⟨a, ha⟩ := List.exists_mem_of_ne_nil _ hne
    have hs : n.seenNodes ≠ [] := List.ne_nil_of_mem ((h f hf).among a ha)
    refine ⟨by simpa using hs, fun g hg => ?_⟩
    exact (h g hg).popularity hs

theorem subset_addNodeToSeenList (n : SmsEchoClient) (node : Ipv4Address) :
    n.seenNodes ⊆ (n.addNodeToSeenList node).seenNodes := by
  unfold SmsEchoClient.addNodeToSeenList
  split
  · exact List.Subset.refl _
  · exact List.subset_append_left _ _

theorem HoldersSeen.step_iff {n n' : SmsEchoClient} {o : Observation} (h : HoldersSeen n)
    (hstep : NodeStep n o n') : HoldersSeen n' ↔ NewChunksFromSeen n o := by
  have hlearns := hstep.learns
  have hall := holdersSeen_iff.mp h
  constructor
  · intro hseen sender header heard hnew
    have hlists : Lists n'.files header.fileId sender :=
      hlearns.lists_iff.mpr (Or.inr ⟨_, heard, rfl, hnew⟩)
    obtain ⟨f, hf, -, hsender⟩ := hlists
    have hmem := hseen.seen f hf sender hsender
    rw [heard] at hlearns
    -- a reply leaves the seen nodes as they were
    cases hlearns with
    | repeated _ hhas _ _ _ => exact absurd hhas hnew
    | stored _ _ _ _ hsame _ => rwa [hsame] at hmem
  · intro hguard
    apply holdersSeen_iff.mpr
    generalize heard : o.heard = message at hlearns
    cases hlearns with
    | @advertisement sender ps hfiles hsame _ =>
      have hsender : sender ∈ (n.addNodeToSeenList sender).seenNodes := mem_addNodeToSeenList n sender
      rw [hfiles, hsame]
      apply forall_mem_foldl_noteAdvertised
      · exact fun f hf => (hall f hf).mono (subset_addNodeToSeenList n sender)
      · exact fun f hf _ => hf.addNodeToSeenList hsender
      · exact fun p _ => (HoldersIn.of_nil rfl).addNodeToSeenList hsender
    | request hfiles hsame _ => rwa [hfiles, hsame]
    | repeated _ _ hfiles hsame _ => rwa [hfiles, hsame]
    | @stored sender header _ _ hnew hfiles hsame _ =>
      have hsender := hguard sender header heard hnew
      rw [hfiles, hsame]
      apply forall_mem_storedFiles hall
      have htarget : HoldersIn n.seenNodes (n.target header.fileId header.fileSize) :=
        target_induction hall (HoldersIn.of_nil rfl)
      have hnoted := htarget.addNodeToSeenList hsender
      -- storing the chunk leaves the holders alone
      exact ⟨hnoted.nodup, hnoted.among⟩
    | spoke hfiles hsame _ => rwa [hfiles, hsame]

theorem holdersSeen_start (memory : ℕ) (address : Ipv4Address) (l : List FileSMS) (rand : ℚ) :
    HoldersSeen ((boot memory address l).startApplication rand) := by
  apply holdersSeen_iff.mpr
  intro f hf
  obtain ⟨g, -, rfl⟩ := List.mem_map.mp hf
  exact HoldersIn.of_nil rfl

theorem holdersSeen_throughout_iff (memory : ℕ) (address : Ipv4Address) (l : List FileSMS)
    (rand : ℚ) {hist : List (SmsEchoClient × Observation)} {n : SmsEchoClient}
    (h : NodeHistory ((boot memory address l).startApplication rand) hist n) :
    Throughout (fun _ n => HoldersSeen n) hist n ↔ ∀ x ∈ hist, NewChunksFromSeen x.1 x.2 := by
  rw [h.throughout_iff fun _ _ _ _ _ hseen hstep => hseen.step_iff hstep]
  exact and_iff_right (holdersSeen_start memory address l rand)

theorem holdersSeen_throughout_iff_witness : Throughout (fun _ n => HoldersSeen n)
    [informed.hearing firstServed, listener.hearing firstHeard] served := by
  refine (holdersSeen_throughout_iff 0 1 [⟨7, 2⟩] 0 served_history).mpr ?_
  refine List.forall_mem_cons.mpr ⟨?_, List.forall_mem_singleton.mpr ?_⟩
  · intro sender h heard _
    obtain ⟨rfl, rfl⟩ := reply_of_firstServed heard
    have hseen : (2 : Ipv4Address) ∈ informed.seenNodes := by decide
    exact hseen
  · exact fun sender h heard => absurd heard heard_firstHeard

/-- Node 9, which has never advertised, gives node 5 a chunk of file 5. -/
def overheard : Datagram :=
  ⟨9, [2, 0, 0, 0, 5, 0, 0, 0, 5, 0, 0, 0, 2, 0, 0, 0, 0, 0, 0, 0]⟩

theorem not_holdersSeen_of_overheard :
    NodeHistory listener [listener.hearing overheard] (listener.hears overheard) ∧
      ¬ HoldersSeen (listener.hears overheard) := by
  have hm : Message.parse overheard.bytes = .ok (.reply ⟨2, 5, 5, 2, 0⟩) := by decide
  have hstep := step_of_reply (n := listener) hm (by decide) (by decide)
  refine ⟨.cons .nil ⟨rfl, hstep⟩, fun hseen => ?_⟩
  have hguard := ((holdersSeen_start 0 1 [⟨7, 2⟩] 0).step_iff hstep).mp hseen
  have hnew : ¬ listener.HasChunk 5 0 := by
    rintro ⟨f, hf, -⟩
    have hnone : listener.entry 5 = none := rfl
    rw [hnone] at hf
    exact absurd hf (by simp)
  have hmem : (9 : Ipv4Address) ∈ listener.seenNodes :=
    hguard 9 _ (heard_hearing hm) hnew
  exact absurd hmem (by decide)

end SmsEcho
