import SmsEcho.Client.EventDiscipline

/-! A request event holds a copy of a file entry. The copy never goes stale: whatever
changes the files cancels the event first. -/

namespace SmsEcho
open ByteBuffer PartialRun KeyedList LabelledTrace SmsEchoClient

/-- The copy in every pending request is an entry of the node as it is now, with chunks
missing. -/
structure FreshRequests (n : SmsEchoClient) : Prop where
  store : StoreInv n.files
  orderly : n.Orderly
  fresh : ∀ e ∈ n.timers.pending, ∀ peer f, e.action = .requestPacket peer f →
    f ∈ n.files ∧ f.isFull = false

theorem freshRequests_start (memory : ℕ) (address : Ipv4Address) {l : List FileSMS}
    (hl : DistinctIds l) (rand : ℚ) :
    FreshRequests ((boot memory address l).startApplication rand) := by
  have horderly := orderly_start (n := boot memory address l) rfl rand
  refine ⟨storeInv_map_construct hl, horderly, ?_⟩
  intro e he peer f ha
  rw [send_of_mem_startApplication rfl rand e he] at ha
  exact absurd ha (by simp)

theorem FreshRequests.handle {n n' : SmsEchoClient} (h : FreshRequests n) {d : Datagram}
    {rand : ℕ → ℚ} {fl : Flow} (hstep : n.handlePacket d rand = .ok (fl, n'))
    (hlen : n'.files.length < 2 ^ 32) : FreshRequests n' := by
  obtain ⟨m, hm, hevents⟩ := handlePacket_events h.orderly.disciplined.recorded hstep
  have habsorb := handlePacket_absorb hm hstep
  have hstore : StoreInv (n'.withTimers n.timers).files :=
    absorb_storeInv ((absorb_length_le habsorb).trans_lt hlen) h.store habsorb
  refine ⟨hstore, h.orderly.handle hstep, fun e he peer f ha => ?_⟩
  have hrequest := (hevents e he).resolve_left (by simp [ha])
  rw [ha] at hrequest
  -- the copy has just been made of an entry of the files as they are now
  obtain ⟨-, -, rfl, hfull⟩ := followUp_eq_request hrequest
  exact ⟨(getFileToRequest_of_not_full hfull).1, hfull⟩

theorem FreshRequests.fire {n n' : SmsEchoClient} (h : FreshRequests n)
    {e : Event Delay Action} {g : Garbage} {bytes : Bytes} (hstep : n.fire e g = .ok (n', bytes)) :
    FreshRequests n' := by
  have horderly := h.orderly.fire hstep
  obtain ⟨-, -, seen, data, rfl⟩ := fire_cases hstep
  exact ⟨h.store, horderly, fun e' he' => h.fresh e' (Timers.mem_cancel_pending.mp he').1⟩

theorem freshRequests_trace {memory : ℕ} {address : Ipv4Address} {l : List FileSMS} {rand : ℚ}
    {tr : List Observation} {n : SmsEchoClient} (hl : DistinctIds l)
    (h : NodeTrace ((boot memory address l).startApplication rand) tr n) : FreshRequests n := by
  refine h.invariant (P := fun _ n => FreshRequests n) (freshRequests_start memory address hl rand) ?_
  intro tr n o n' hf hstep
  cases hstep with
  | handle hstep hlen => exact hf.handle hstep hlen
  | fire he hstep => exact hf.fire hstep

structure LowestMissing (f : FileSMSChunks) (c : UInt32) : Prop where
  inRange : c < f.fileSizeInChunks
  lacks : ¬ f.Has c.toNat
  lowest : ∀ c' < c.toNat, f.Has c'

theorem lowestMissing_getFirstMissingChunk {f : FileSMSChunks} (h : f.CounterExact)
    (hf : f.isFull = false) : LowestMissing f f.getFirstMissingChunk where
  inRange := FileSMSChunks.getFirstMissingChunk_lt h hf
  lacks := f.not_has_getFirstMissingChunk
  lowest _ hc := FileSMSChunks.has_of_lt_getFirstMissingChunk hc

theorem emitted_request_lowestMissing (memory : ℕ) (address : Ipv4Address) (rand : ℚ)
    {l : List FileSMS} {tr : List Observation} {n n' : SmsEchoClient} (hl : DistinctIds l)
    (h : NodeTrace ((boot memory address l).startApplication rand) tr n)
    {e : Event Delay Action} {g : Garbage} {bytes : Bytes} {r : RequestHeader}
    (he : e ∈ n.timers.pending) (hfire : n.fire e g = .ok (n', bytes))
    (hr : Message.parse bytes = .ok (.request r)) :
    ∃ f, n.entry r.fileId = some f ∧ LowestMissing f r.chunkId := by
  have hfresh := freshRequests_trace hl h
  have hsaid := announced_of_fire (hfresh.orderly.wellTyped e he) hfire hr (by simp [Message.kind])
  obtain ⟨peer, f, ha, rfl⟩ := announced_eq_request hsaid.symm
  obtain ⟨hmem, hfull⟩ := hfresh.fresh e he peer f ha
  refine ⟨f, lookup_of_mem hfresh.store.distinct hmem, ?_⟩
  exact lowestMissing_getFirstMissingChunk (hfresh.store.counters f hmem) hfull

theorem emitted_request_lowestMissing_witness :
    ∃ e n' bytes r f, informed.fire e zeroed = .ok (n', bytes) ∧
      Message.parse bytes = .ok (.request r) ∧ informed.entry r.fileId = some f ∧
      LowestMissing f r.chunkId := by
  obtain ⟨e, he, n', bytes, hfire, -, hsaid⟩ := informed_request
  obtain ⟨f, hf, hlow⟩ := emitted_request_lowestMissing 0 1 0 (l := [⟨7, 2⟩]) (by decide)
    listener_trace he hfire hsaid
  exact ⟨e, n', bytes, _, f, hfire, hsaid, hf, hlow⟩

end SmsEcho
