import SmsEcho.Client.NodeRun

/-! What a node may say, and what it may believe, relative to a catalogue of files and to a
relation `H` that tells which address holds which file completely. A node that believes only
sound things, and hears only sound things, says only sound things. -/

namespace SmsEcho
open ByteBuffer PartialRun KeyedList SmsEchoClient

/-- The files of a network: one size for each id, and both within 16 bits. -/
structure Catalogue where
  files : Set FileSMS
  oneSize : ∀ f ∈ files, ∀ g ∈ files, f.mId = g.mId → f = g
  sixteenBit : ∀ f ∈ files, SixteenBit f

section Sound
variable (C : Catalogue) (H : Ipv4Address → UInt32 → Prop)

structure EntrySound (f : FileSMSChunks) : Prop where
  known : f.toFileSMS ∈ C.files
  holders : ∀ a ∈ f.nodesWhoHaveFile, H a f.mId

def PairsSound (origin : Ipv4Address) (ps : List (UInt16 × UInt16)) : Prop :=
  ∀ p ∈ ps, ∃ c ∈ C.files, p = (c.mId.toUInt16, c.mFileSize.toUInt16) ∧ H origin c.mId

def RequestSound (h : RequestHeader) : Prop :=
  ∃ c ∈ C.files, h.fileId = c.mId ∧ h.chunkId < chunkCount c.mFileSize ∧ H h.receiverAddress c.mId

def ReplySound (origin : Ipv4Address) (h : ReplyHeader) : Prop :=
  ∃ c ∈ C.files, h.fileId = c.mId ∧ h.fileSize = c.mFileSize.toUInt32 ∧
    h.chunkId < chunkCount c.mFileSize ∧ H origin c.mId

def MessageSound (origin : Ipv4Address) : Message → Prop
  | .advertisement ps => PairsSound C H origin ps
  | .request h => RequestSound C H h
  | .reply h => ReplySound C H origin h

def ActionSound (address : Ipv4Address) : Action → Prop
  | .send => True
  | .requestPacket peer f =>
    f.toFileSMS ∈ C.files ∧ f.CounterExact ∧ f.isFull = false ∧ H peer f.mId
  | .reply h _ => h.packetType = 2 ∧ ReplySound C H address h

end Sound

section Mono
variable {C : Catalogue} {H H' : Ipv4Address → UInt32 → Prop} (hH : ∀ a id, H a id → H' a id)
include hH

theorem EntrySound.mono {f : FileSMSChunks} (h : EntrySound C H f) : EntrySound C H' f :=
  ⟨h.known, fun a ha => hH a _ (h.holders a ha)⟩

theorem ReplySound.mono {a : Ipv4Address} {h : ReplyHeader} (hs : ReplySound C H a h) :
    ReplySound C H' a h := by
  obtain ⟨c, hc, hid, hsize, hchunk, hhold⟩ := hs
  exact ⟨c, hc, hid, hsize, hchunk, hH _ _ hhold⟩

theorem MessageSound.mono {a : Ipv4Address} {m : Message} (h : MessageSound C H a m) :
    MessageSound C H' a m := by
  cases m with
  | advertisement ps =>
    intro p hp
    obtain ⟨c, hc, heq, hhold⟩ := h p hp
    exact ⟨c, hc, heq, hH _ _ hhold⟩
  | request hd =>
    obtain ⟨c, hc, hid, hchunk, hhold⟩ := h
    exact ⟨c, hc, hid, hchunk, hH _ _ hhold⟩
  | reply hd => exact ReplySound.mono hH h

theorem ActionSound.mono {address : Ipv4Address} {a : Action} (h : ActionSound C H address a) :
    ActionSound C H' address a := by
  cases a with
  | send => trivial
  | requestPacket peer f =>
    obtain ⟨hc, hexact, hfull, hhold⟩ := h
    exact ⟨hc, hexact, hfull, hH _ _ hhold⟩
  | reply hd size => exact ⟨h.1, ReplySound.mono hH h.2⟩

end Mono

variable {C : Catalogue} {H : Ipv4Address → UInt32 → Prop}

namespace Catalogue

theorem receivedFile_eq {c : FileSMS} (hc : c ∈ C.files) :
    (receivedFile (c.mId.toUInt16, c.mFileSize.toUInt16)).toFileSMS = c := by
  obtain ⟨hid, hsize⟩ := C.sixteenBit c hc
  change FileSMS.mk c.mId.toUInt16.toUInt32 c.mFileSize.toUInt16.toUInt64 = c
  rw [toUInt32_toUInt16 hid, toUInt64_toUInt16 hsize]

theorem construct_eq {c : FileSMS} (hc : c ∈ C.files) :
    (FileSMSChunks.construct c.mId c.mFileSize.toUInt32.toUInt64 false).toFileSMS = c := by
  have hsize : c.mFileSize.toUInt32.toUInt64 = c.mFileSize := by
    have hlt := (C.sixteenBit c hc).2
    rw [← UInt64.toNat_inj, UInt32.toNat_toUInt64, UInt64.toNat_toUInt32]
    exact Nat.mod_eq_of_lt (hlt.trans (by decide))
  change FileSMS.mk c.mId c.mFileSize.toUInt32.toUInt64 = c
  rw [hsize]

end Catalogue

section Absorb
variable {n n' : SmsEchoClient} {sender : Ipv4Address}

theorem EntrySound.addNodeToSeenList {f : FileSMSChunks} (h : EntrySound C H f)
    (hs : H sender f.mId) : EntrySound C H (f.addNodeToSeenList sender) := by
  refine ⟨by rw [FileSMSChunks.addNodeToSeenList_toFileSMS]; exact h.known, fun a ha => ?_⟩
  rw [FileSMSChunks.addNodeToSeenList_mId]
  rcases FileSMSChunks.mem_addNodeToSeenList.mp ha with ha | rfl
  · exact h.holders a ha
  · exact hs

theorem target_sound (hn : ∀ f ∈ n.files, EntrySound C H f) {c : FileSMS} (hc : c ∈ C.files) :
    EntrySound C H (n.target c.mId c.mFileSize.toUInt32) ∧
      (n.target c.mId c.mFileSize.toUInt32).toFileSMS = c := by
  have hsound : EntrySound C H (n.target c.mId c.mFileSize.toUInt32) := by
    refine target_induction hn ⟨?_, by simp⟩
    rw [C.construct_eq hc]
    exact hc
  exact ⟨hsound, C.oneSize _ hsound.known _ hc (target_mId ..)⟩

theorem target_fileSizeInChunks (hn : ∀ f ∈ n.files, EntrySound C H f) {c : FileSMS}
    (hc : c ∈ C.files) :
    (n.target c.mId c.mFileSize.toUInt32).fileSizeInChunks = chunkCount c.mFileSize := by
  rw [FileSMSChunks.fileSizeInChunks_eq, (target_sound hn hc).2]

theorem length_le_of_entrySound (hn : ∀ f ∈ n.files, EntrySound C H f)
    (hd : (n.files.map fileKey).Nodup) : n.files.length ≤ 2 ^ 16 :=
  length_le_of_sixteenBit hd fun f hf => C.sixteenBit _ (hn f hf).known

theorem absorb_entrySound (hlen : n.files.length < 2 ^ 32) (hn : ∀ f ∈ n.files, EntrySound C H f)
    {m : Message} (hm : MessageSound C H sender m) (ha : n.absorb sender m = .ok n') :
    ∀ f ∈ n'.files, EntrySound C H f := by
  cases m with
  | advertisement ps =>
    obtain rfl : n.absorbAdvertisement sender ps = n' := Except.ok.inj ha
    refine forall_mem_foldl_noteAdvertised hn (fun f hf hp => ?_) fun p hp => ?_
    · obtain ⟨p, hp, hid⟩ := hp
      obtain ⟨c, hc, rfl, hhold⟩ := hm p hp
      apply hf.addNodeToSeenList
      rw [← hid]
      have hmid : c.mId.toUInt16.toUInt32 = c.mId := toUInt32_toUInt16 (C.sixteenBit c hc).1
      exact hmid.symm ▸ hhold
    · obtain ⟨c, hc, rfl, hhold⟩ := hm p hp
      have hfile := C.receivedFile_eq hc
      refine EntrySound.addNodeToSeenList ⟨hfile.symm ▸ hc, by simp [receivedFile]⟩ ?_
      rw [hfile]
      exact hhold
  | request hd =>
    obtain ⟨rfl, -⟩ := absorb_request ha
    exact hn
  | reply hd =>
    obtain ⟨c, hc, hid, hsize, hchunk, hhold⟩ := hm
    obtain ⟨-, ⟨-, rfl⟩ | ⟨-, rfl⟩⟩ := absorb_reply_cases hlen ha
    · exact hn
    · obtain ⟨hsound, hfile⟩ := target_sound hn hc
      have hsender : H sender (n.target c.mId c.mFileSize.toUInt32).mId := by
        rw [hfile]
        exact hhold
      have hadd := hsound.addNodeToSeenList hsender
      rw [← hid, ← hsize] at hadd
      apply forall_mem_storedFiles hn
      exact ⟨hadd.known, hadd.holders⟩

theorem absorb_ok (hlen : n.files.length ≤ 2 ^ 31) (hn : ∀ f ∈ n.files, EntrySound C H f)
    {m : Message} (hm : MessageSound C H sender m)
    (hasked : ∀ h, m = .request h → h.receiverAddress = n.address → n.entry h.fileId ≠ none) :
    ∃ n', n.absorb sender m = .ok n' := by
  cases m with
  | advertisement ps => exact ⟨_, rfl⟩
  | request hd =>
    refine ⟨n, ?_⟩
    rw [absorb, if_neg]
    rintro ⟨haddr, hnone⟩
    obtain ⟨f, hf⟩ := Option.ne_none_iff_exists'.mp (hasked hd rfl haddr)
    exact fileIndex_ne hf (hlen.trans_lt (by norm_num)) hnone
  | reply hd =>
    obtain ⟨c, hc, hid, hsize, hchunk, -⟩ := hm
    have hrange : n.InRange (.reply hd.fileId hd.fileSize hd.chunkId sender) := by
      refine ⟨indexed_of_length hlen hd.fileId, ?_⟩
      rw [hid, hsize, target_fileSizeInChunks hn hc]
      exact hchunk
    exact hrange.process_ok

theorem followUp_actionSound (hn : ∀ f ∈ n.files, EntrySound C H f) (hstore : StoreInv n.files)
    {m : Message} (hm : MessageSound C H sender m)
    (hasked : ∀ h, m = .request h → h.receiverAddress = n.address → n.entry h.fileId ≠ none)
    {a : Action} (ha : n.followUp sender m = some a) : ActionSound C H n.address a := by
  rcases followUp_eq_some ha with ⟨-, hfull, rfl⟩ | ⟨hd, rfl, haddr, rfl⟩
  · obtain ⟨hmem, hsender, -⟩ := getFileToRequest_of_not_full hfull
    exact ⟨(hn _ hmem).known, hstore.counters _ hmem, hfull, (hn _ hmem).holders sender hsender⟩
  · obtain ⟨c, hc, hid, hchunk, hhold⟩ := hm
    obtain ⟨f, hf⟩ := Option.ne_none_iff_exists'.mp (hasked hd rfl haddr)
    have hkey := key_of_lookup hf
    have hfile : f.toFileSMS = c :=
      C.oneSize _ (hn f (mem_of_lookup hf)).known _ hc (Eq.trans hkey hid)
    rw [(getFileById_of_entry_some hf).1]
    refine ⟨rfl, c, hc, ?_, ?_, hchunk, haddr ▸ hhold⟩
    · exact congrArg FileSMS.mId hfile
    · exact congrArg (fun x : FileSMS => x.mFileSize.toUInt32) hfile

end Absorb

theorem announced_messageSound {n : SmsEchoClient} {address : Ipv4Address}
    (hn : ∀ f ∈ n.files, EntrySound C H f) (hown : ∀ id, FullIn n.files id → H address id)
    {a : Action} (ha : ActionSound C H address a) :
    MessageSound C H address (n.announced a) := by
  cases a with
  | send =>
    intro p hp
    obtain ⟨f, hf, rfl⟩ := List.mem_map.mp (List.mem_of_mem_take hp)
    obtain ⟨hmem, hfull⟩ := List.mem_filter.mp hf
    exact ⟨f.toFileSMS, (hn f hmem).known, rfl, hown _ ⟨f, hmem, rfl, hfull⟩⟩
  | requestPacket peer f =>
    obtain ⟨hc, hexact, hfull, hhold⟩ := ha
    have hlt := FileSMSChunks.getFirstMissingChunk_lt hexact hfull
    rw [f.fileSizeInChunks_eq] at hlt
    exact ⟨f.toFileSMS, hc, rfl, hlt, hhold⟩
  | reply hd size => exact ha.2

theorem ActionSound.wellTyped {address : Ipv4Address} {a : Action}
    (h : ActionSound C H address a) : a.WellTyped := by
  cases a with
  | send => trivial
  | requestPacket peer f => trivial
  | reply hd size => exact h.1

end SmsEcho
