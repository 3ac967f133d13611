import SmsEcho.General.CausalLog
import SmsEcho.Network.Holdings

/-! Why each packet was sent. Nothing is said without a cause among what was said before, and
all that is ever said about a file goes back to a node that had it from the start. -/

namespace SmsEcho
open ByteBuffer PartialRun KeyedList CausalLog SmsEchoClient

variable {k : ℕ}

namespace Deployment

def Offers (D : Deployment k) (p : Packet k) (a : Ipv4Address) (f : FileSMS) : Prop :=
  D.address p.origin = a ∧ ∃ ps, Message.parse p.bytes = .ok (.advertisement ps) ∧
    (f.mId.toUInt16, f.mFileSize.toUInt16) ∈ ps

def Offered (D : Deployment k) (ether : List (Packet k)) (a : Ipv4Address) (id : UInt32) : Prop :=
  ∃ f ∈ D.catalogue.files, f.mId = id ∧ ∃ p ∈ ether, D.Offers p a f

/-- The chunk that the reply carries was asked for, by the node the reply names, and of the node
with the address. -/
def Asked (D : Deployment k) (ether : List (Packet k)) (a : Ipv4Address) (hd : ReplyHeader) :
    Prop :=
  ∃ p ∈ ether, D.address p.origin = hd.originalRequester ∧
    ∃ q, Message.parse p.bytes = .ok (.request q) ∧ q.receiverAddress = a ∧
      q.fileId = hd.fileId ∧ q.chunkId = hd.chunkId

def Carried (ether : List (Packet k)) (i : Fin k) (id : UInt32) (c : ℕ) : Prop :=
  ∃ p ∈ ether, i ≠ p.origin ∧
    ∃ hd, Message.parse p.bytes = .ok (.reply hd) ∧ hd.fileId = id ∧ hd.chunkId.toNat = c

/-- The node had the file from the start, or every chunk of it was said by others. -/
def Acquired (D : Deployment k) (ether : List (Packet k)) (i : Fin k) (f : FileSMS) : Prop :=
  f ∈ D.lists i ∨ ∀ c < (chunkCount f.mFileSize).toNat, Carried ether i f.mId c

/-- What must have been said before a node says something. -/
def Cause (D : Deployment k) (earlier : List (Packet k)) (i : Fin k) : Message → Prop
  | .advertisement ps => ∀ x ∈ ps, ∃ f ∈ D.catalogue.files,
      x = (f.mId.toUInt16, f.mFileSize.toUInt16) ∧ D.Acquired earlier i f
  | .request q => D.Offered earlier q.receiverAddress q.fileId
  | .reply hd => D.Asked earlier (D.address i) hd

def PacketCause (D : Deployment k) (earlier : List (Packet k)) (p : Packet k) : Prop :=
  ∃ m, Message.parse p.bytes = .ok m ∧ D.Cause earlier p.origin m

/-- What must have been said before a node plans to say something. -/
def Planned (D : Deployment k) (ether : List (Packet k)) (i : Fin k) : Action → Prop
  | .send => True
  | .requestPacket peer f => D.Offered ether peer f.mId
  | .reply hd _ => D.Asked ether (D.address i) hd

structure Traced (D : Deployment k) (s : Network k) : Prop where
  holders : ∀ i, ∀ f ∈ (s.nodes i).files, ∀ a ∈ f.nodesWhoHaveFile, D.Offered s.ether a f.mId
  chunks : ∀ i, ∀ f ∈ D.catalogue.files, ∀ c, (s.nodes i).HasChunk f.mId c →
    f ∈ D.lists i ∨ Carried s.ether i f.mId c
  pending : ∀ i, ∀ e ∈ (s.nodes i).timers.pending, D.Planned s.ether i e.action
  caused : Caused D.PacketCause s.ether

variable {D : Deployment k} {s s' : Network k} {ether ether' : List (Packet k)}

section Mono
variable (hsub : ether ⊆ ether')
include hsub

theorem Offered.mono {a : Ipv4Address} {id : UInt32} (h : D.Offered ether a id) :
    D.Offered ether' a id := by
  obtain ⟨f, hf, hid, p, hp, hoffers⟩ := h
  exact ⟨f, hf, hid, p, hsub hp, hoffers⟩

theorem Asked.mono {a : Ipv4Address} {hd : ReplyHeader} (h : D.Asked ether a hd) :
    D.Asked ether' a hd := by
  obtain ⟨p, hp, hrest⟩ := h
  exact ⟨p, hsub hp, hrest⟩

theorem Carried.mono {i : Fin k} {id : UInt32} {c : ℕ} (h : Carried ether i id c) :
    Carried ether' i id c := by
  obtain ⟨p, hp, hrest⟩ := h
  exact ⟨p, hsub hp, hrest⟩

theorem Planned.mono {i : Fin k} {a : Action} (h : D.Planned ether i a) :
    D.Planned ether' i a := by
  cases a with
  | send => trivial
  | requestPacket peer f => exact Offered.mono hsub h
  | reply hd size => exact Asked.mono hsub h

end Mono

theorem Traced.offered_of_request (h : D.Traced s) {p : Packet k} {q : RequestHeader}
    (hp : p ∈ s.ether) (hm : Message.parse p.bytes = .ok (.request q)) :
    D.Offered s.ether q.receiverAddress q.fileId := by
  obtain ⟨earlier, hsub, m, hm', hcause⟩ := h.caused.exists_cause hp
  obtain rfl : Message.request q = m := Except.ok.inj (hm.symm.trans hm')
  exact Offered.mono hsub hcause

theorem Traced.offered_of_reply (h : D.Traced s) {p : Packet k} {hd : ReplyHeader}
    (hp : p ∈ s.ether) (hm : Message.parse p.bytes = .ok (.reply hd)) :
    D.Offered s.ether (D.address p.origin) hd.fileId := by
  obtain ⟨earlier, hsub, m, hm', hcause⟩ := h.caused.exists_cause hp
  obtain rfl : Message.reply hd = m := Except.ok.inj (hm.symm.trans hm')
  obtain ⟨p', hp', -, q, hq, hto, hid, -⟩ := hcause
  have hoffered := h.offered_of_request (hsub hp') hq
  rwa [hto, hid] at hoffered

theorem Traced.messageSound (h : D.Traced s) (hsound : D.Sound s) {p : Packet k}
    (hp : p ∈ s.ether) {m : Message} (hm : Message.parse p.bytes = .ok m) :
    MessageSound D.catalogue (D.Offered s.ether) (D.address p.origin) m := by
  obtain ⟨m', hm', hmessage⟩ := hsound.ether p hp
  obtain rfl : m = m' := Except.ok.inj (hm.symm.trans hm')
  cases m with
  | advertisement ps =>
    intro x hx
    obtain ⟨f, hf, rfl, -⟩ := hmessage x hx
    exact ⟨f, hf, rfl, f, hf, rfl, p, hp, rfl, ps, hm, hx⟩
  | request q =>
    obtain ⟨f, hf, hid, hchunk, -⟩ := hmessage
    exact ⟨f, hf, hid, hchunk, hid ▸ h.offered_of_request hp hm⟩
  | reply hd =>
    obtain ⟨f, hf, hid, hsize, hchunk, -⟩ := hmessage
    exact ⟨f, hf, hid, hsize, hchunk, hid ▸ h.offered_of_reply hp hm⟩

theorem traced_initial (D : Deployment k) : D.Traced D.initial where
  holders i f hf := by
    obtain ⟨g, -, rfl⟩ := List.mem_map.mp hf
    simp
  chunks i f hf c hc := by
    obtain ⟨g, hg, -⟩ := hc
    have hkey := key_of_lookup hg
    obtain ⟨x, hx, rfl⟩ := List.mem_map.mp (mem_of_lookup hg)
    obtain rfl : x = f := D.catalogue.oneSize x ⟨i, hx⟩ f hf hkey
    exact Or.inl hx
  pending i e he := by
    change e ∈ [] at he
    simp at he
  caused := .nil

theorem Traced.update (h : D.Traced s) {i : Fin k} {n' : SmsEchoClient} {ether : List (Packet k)}
    (hsub : s.ether ⊆ ether)
    (hholders : ∀ f ∈ n'.files, ∀ a ∈ f.nodesWhoHaveFile, D.Offered ether a f.mId)
    (hchunks : ∀ f ∈ D.catalogue.files, ∀ c, n'.HasChunk f.mId c →
      f ∈ D.lists i ∨ Carried ether i f.mId c)
    (hpending : ∀ e ∈ n'.timers.pending, D.Planned ether i e.action)
    (hcaused : Caused D.PacketCause ether) : D.Traced ⟨Function.update s.nodes i n', ether⟩ := by
  refine ⟨?_, ?_, ?_, hcaused⟩
  · apply (Function.forall_update_iff s.nodes
      fun _ n => ∀ f ∈ n.files, ∀ a ∈ f.nodesWhoHaveFile, D.Offered ether a f.mId).mpr
    exact ⟨hholders, fun j _ f hf a ha => Offered.mono hsub (h.holders j f hf a ha)⟩
  · apply (Function.forall_update_iff s.nodes fun j n => ∀ f ∈ D.catalogue.files, ∀ c,
      n.HasChunk f.mId c → f ∈ D.lists j ∨ Carried ether j f.mId c).mpr
    exact ⟨hchunks, fun j _ f hf c hc => (h.chunks j f hf c hc).imp_right (Carried.mono hsub)⟩
  · apply (Function.forall_update_iff s.nodes
      fun j n => ∀ e ∈ n.timers.pending, D.Planned ether j e.action).mpr
    exact ⟨hpending, fun j _ e he => Planned.mono hsub (h.pending j e he)⟩

theorem Traced.deliver (h : D.Traced s) (hsound : D.Sound s) {i : Fin k} {p : Packet k}
    {rand : ℕ → ℚ} {fl : Flow} {n' : SmsEchoClient} (hp : p ∈ s.ether) (hne : i ≠ p.origin)
    (hstep : (s.nodes i).handlePacket (D.datagram p) rand = .ok (fl, n')) :
    D.Traced { s with nodes := Function.update s.nodes i n' } := by
  obtain ⟨m, delay, sendDelay, hm, habsorb, htimers⟩ := handlePacket_cases hstep
  have haddr : n'.address = D.address i :=
    Eq.trans (absorb_frame habsorb).1 (hsound.address i)
  have hlen : (s.nodes i).files.length < 2 ^ 32 := (hsound.length_lt i).trans (by norm_num)
  have hentries : ∀ f ∈ (n'.withTimers (s.nodes i).timers).files,
      EntrySound D.catalogue (D.Offered s.ether) f :=
    absorb_entrySound hlen (fun f hf => ⟨(hsound.entries i f hf).known, h.holders i f hf⟩)
      (h.messageSound hsound hp hm) habsorb
  refine h.update (List.Subset.refl _) (fun f hf => (hentries f hf).holders) ?_ ?_ h.caused
  · intro f hf c hc
    have hlearns := (NodeStep.handle hstep (hsound.length_lt_of_deliver hp hstep)).learns
    rw [Observation.heard_handled hm] at hlearns
    rcases hlearns.hasChunk_iff.mp hc with hold | ⟨sender, hd, heard, hid, hchunk⟩
    · exact h.chunks i f hf c hold
    · obtain rfl : m = .reply hd := (Prod.mk.inj (Option.some.inj heard)).2
      exact Or.inr ⟨p, hp, hne, hd, hm, hid, hchunk⟩
  · intro e he
    rw [htimers] at he
    rcases Timers.mem_arm_pending he with he | hsend | hfollow
    · exact h.pending i e (Timers.mem_cancelAllEvents_pending he)
    · rw [hsend]
      trivial
    · rcases followUp_eq_some hfollow with ⟨-, hfull, haction⟩ | ⟨q, rfl, hto, haction⟩
      · -- it asks for a file of which the sender is a listed holder
        obtain ⟨hmem, hsender, -⟩ := getFileToRequest_of_not_full hfull
        rw [haction]
        exact (hentries _ hmem).holders _ hsender
      · obtain ⟨f, hf⟩ := Option.ne_none_iff_exists'.mp (handlePacket_known hm hstep hto)
        have hkey := key_of_lookup hf
        rw [haction, (getFileById_of_entry_some hf).1]
        exact ⟨p, hp, rfl, q, hm, hto.trans haddr, Eq.symm hkey, rfl⟩

theorem Traced.fire (h : D.Traced s) (hsound : D.Sound s) {i : Fin k} {e : Event Delay Action}
    {g : Garbage} {n' : SmsEchoClient} {bytes : Bytes} (he : e ∈ (s.nodes i).timers.pending)
    (hstep : (s.nodes i).fire e g = .ok (n', bytes)) :
    D.Traced ⟨Function.update s.nodes i n', ⟨i, bytes⟩ :: s.ether⟩ := by
  have hsaid : Message.parse bytes = .ok ((s.nodes i).announced e.action) :=
    parse_of_fire (hsound.length_lt i) (hsound.pending i e he).wellTyped hstep
  have hcause : D.Cause s.ether i ((s.nodes i).announced e.action) := by
    have hplanned := h.pending i e he
    cases haction : e.action with
    | send =>
      -- what is advertised is full, so that each chunk of it came from somewhere
      intro x hx
      obtain ⟨f, hf, rfl⟩ := List.mem_map.mp (List.mem_of_mem_take hx)
      obtain ⟨hmem, hfull⟩ := List.mem_filter.mp hf
      have hknown := (hsound.entries i f hmem).known
      refine ⟨f.toFileSMS, hknown, rfl, ?_⟩
      by_cases hlist : f.toFileSMS ∈ D.lists i
      · exact Or.inl hlist
      · refine Or.inr fun c hc => ?_
        have hhas := hsound.hasChunk_of_fullIn hknown ⟨f, hmem, rfl, hfull⟩ hc
        exact (h.chunks i _ hknown c hhas).resolve_left hlist
    | requestPacket peer f =>
      rw [haction] at hplanned
      exact hplanned
    | reply hd size =>
      rw [haction] at hplanned
      exact hplanned
  obtain ⟨-, -, seen, data, rfl⟩ := fire_cases hstep
  have hsub : s.ether ⊆ ⟨i, bytes⟩ :: s.ether := List.subset_cons_self _ _
  refine h.update hsub ?_ ?_ ?_ (.cons ⟨_, hsaid, hcause⟩ h.caused)
  · exact fun f hf a ha => Offered.mono hsub (h.holders i f hf a ha)
  · exact fun f hf c hc => (h.chunks i f hf c hc).imp_right (Carried.mono hsub)
  · exact fun e' he' => Planned.mono hsub (h.pending i e' (Timers.mem_cancel_pending.mp he').1)

theorem Traced.step (h : D.Traced s) (hsound : D.Sound s) (hstep : D.Step s s') : D.Traced s' := by
  cases hstep with
  | start i rand =>
    refine h.update (List.Subset.refl _) (h.holders i) (h.chunks i) ?_ h.caused
    intro e he
    rcases List.mem_append.mp he with he | he
    · exact h.pending i e he
    · rw [List.mem_singleton.mp he]
      trivial
  | stop i =>
    refine h.update (List.Subset.refl _) (h.holders i) (h.chunks i) ?_ h.caused
    exact fun e he => h.pending i e (Timers.mem_cancel_pending.mp he).1
  | fire i he hfire => exact h.fire hsound he hfire
  | deliver i hp hne _ hhandle => exact h.deliver hsound hp hne hhandle

theorem traced_of_reachable (hs : D.Reachable s) : D.Traced s := by
  have hstep : ∀ t t', D.Sound t ∧ D.Traced t → D.Step t t' → D.Sound t' ∧ D.Traced t' :=
    fun t t' h hstep => ⟨h.1.step hstep, h.2.step h.1 hstep⟩
  exact (reaches_invariant hstep hs ⟨sound_initial, traced_initial D⟩).2

def Concerns (D : Deployment k) (f : FileSMS) (p : Packet k) : Prop :=
  D.Offers p (D.address p.origin) f ∨
    (∃ q, Message.parse p.bytes = .ok (.request q) ∧ q.fileId = f.mId) ∨
      ∃ hd, Message.parse p.bytes = .ok (.reply hd) ∧ hd.fileId = f.mId

theorem PacketCause.back {earlier : List (Packet k)} {p : Packet k}
    (h : D.PacketCause earlier p) {f : FileSMS} (hf : f ∈ D.catalogue.files)
    (hsize : f.mFileSize ≠ 0) (hp : D.Concerns f p) :
    (D.Offers p (D.address p.origin) f ∧ f ∈ D.lists p.origin) ∨
      ∃ p' ∈ earlier, D.Concerns f p' := by
  obtain ⟨m, hm, hcause⟩ := h
  rcases hp with hoffers | ⟨q, hq, hid⟩ | ⟨hd, hd', hid⟩
  · obtain ⟨-, ps, hps, hx⟩ := hoffers
    obtain rfl : .advertisement ps = m := Except.ok.inj (hps.symm.trans hm)
    obtain ⟨f', hf', heq, hacquired⟩ := hcause _ hx
    obtain rfl : f = f' := by
      rw [← D.catalogue.receivedFile_eq hf, heq, D.catalogue.receivedFile_eq hf']
    rcases hacquired with hlist | hcarried
    · exact Or.inl ⟨⟨rfl, ps, hps, hx⟩, hlist⟩
    · obtain ⟨p', hp', -, hd, hd', hid, -⟩ := hcarried 0 (chunkCount_pos_of_known hf hsize)
      exact Or.inr ⟨p', hp', Or.inr (Or.inr ⟨hd, hd', hid⟩)⟩
  · obtain rfl : .request q = m := Except.ok.inj (hq.symm.trans hm)
    obtain ⟨f', hf', hid', p', hp', haddr, hlists⟩ := hcause
    obtain rfl : f' = f := D.catalogue.oneSize f' hf' f hf (hid'.trans hid)
    exact Or.inr ⟨p', hp', Or.inl ⟨rfl, hlists⟩⟩
  · obtain rfl : .reply hd = m := Except.ok.inj (hd'.symm.trans hm)
    obtain ⟨p', hp', -, q, hq, -, hfile, -⟩ := hcause
    exact Or.inr ⟨p', hp', Or.inr (Or.inl ⟨q, hq, hfile.trans hid⟩)⟩

/-- Over a radio that loses, repeats and reorders packets, every packet has its cause among the
packets said before it, every holder that a node lists has offered the file, and whatever is
said about a file goes back to an advertisement of a node that had it from the start. -/
theorem packets_traced_back (D : Deployment k) {s : Network k} (hs : D.Reachable s) :
    (∀ later p earlier, s.ether = later ++ p :: earlier → D.PacketCause earlier p) ∧
    (∀ i, ∀ f ∈ (s.nodes i).files, ∀ a ∈ f.nodesWhoHaveFile, D.Offered s.ether a f.mId) ∧
    ∀ f ∈ D.catalogue.files, f.mFileSize ≠ 0 → ∀ p ∈ s.ether, D.Concerns f p →
      ∃ p₀ ∈ s.ether, D.Offers p₀ (D.address p₀.origin) f ∧ f ∈ D.lists p₀.origin := by
  have htraced := traced_of_reachable hs
  refine ⟨fun later p earlier heq => ?_, htraced.holders, fun f hf hsize p hp hconcerns => ?_⟩
  · have hcaused := htraced.caused
    rw [heq] at hcaused
    exact hcaused.split
  · obtain ⟨p₀, hp₀, -, hroot⟩ := htraced.caused.exists_root
      (fun earlier x hx hP => hx.back hf hsize hP) hp hconcerns
    exact ⟨p₀, hp₀, hroot⟩

theorem packets_traced_back_witness :
    (∃ later p earlier, exchanged.ether = later ++ p :: earlier ∧
      Message.parse p.bytes = .ok (.reply ⟨2, 1, 9, 1, 0⟩) ∧ pair.PacketCause earlier p) ∧
    (∃ f ∈ (exchanged.nodes 0).files, 2 ∈ f.nodesWhoHaveFile ∧
      pair.Offered exchanged.ether 2 f.mId) ∧
    ∃ p ∈ exchanged.ether, pair.Offers p (pair.address p.origin) ⟨9, 1⟩ ∧
      ⟨9, 1⟩ ∈ pair.lists p.origin := by
  obtain ⟨hcaused, hholders, hroots⟩ := packets_traced_back pair exchanged_reachable
  obtain ⟨p, hp, hreply⟩ := exchanged_reply
  obtain ⟨f, hf, -, ha⟩ := exchanged_holder
  have hconcerns : pair.Concerns ⟨9, 1⟩ p := Or.inr (Or.inr ⟨_, hreply, rfl⟩)
  refine ⟨?_, ⟨f, hf, ha, hholders 0 f hf 2 ha⟩, ?_⟩
  · obtain ⟨later, earlier, heq⟩ := List.append_of_mem hp
    exact ⟨later, p, earlier, heq, hreply, hcaused later p earlier heq⟩
  · exact hroots ⟨9, 1⟩ ⟨1, by decide⟩ (by decide) p hp hconcerns

end Deployment
end SmsEcho
