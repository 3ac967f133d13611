import SmsEcho.Client.NodeRun

/-! What an advertisement gives away. Its length is taken from the number of all files, its
contents from the full ones; the bytes in between are whatever the allocator returned. -/

namespace SmsEcho
open ByteBuffer PartialRun SmsEchoClient

namespace SmsEchoClient

structure CanSend (n : SmsEchoClient) : Prop where
  expired : n.timers.simulator.isExpired n.timers.mSendEvent = true
  socket : n.mSocketSend = true

def SameFullFiles (n n' : SmsEchoClient) : Prop :=
  n.fullFiles.map FileSMSChunks.toFileSMS = n'.fullFiles.map FileSMSChunks.toFileSMS

/-- What either node sends is the same, whatever its fresh memory holds. -/
def SendsAlike (n n' : SmsEchoClient) : Prop :=
  ∃ bytes, (∀ g, ∃ s, n.send g = .ok (s, bytes)) ∧ ∀ g, ∃ s, n'.send g = .ok (s, bytes)

def AllFull (n : SmsEchoClient) : Prop := ∀ f ∈ n.files, f.isFull = true

instance (n : SmsEchoClient) : Decidable (AllFull n) :=
  inferInstanceAs (Decidable (∀ f ∈ n.files, f.isFull = true))

def written (n : SmsEchoClient) : Bytes :=
  0 :: UInt8.ofNat n.getNumOfFullFiles :: (n.fullFiles.map filePair).flatMap pairBytes

/-- `SetFill` takes no more of the packet than that. -/
def SendsWritten (n : SmsEchoClient) : Prop := n.wireLength ≤ 2 + 4 * n.getNumOfFullFiles

variable {n n' : SmsEchoClient}

theorem written_length (n : SmsEchoClient) : n.written.length = 2 + 4 * n.getNumOfFullFiles := by
  rw [written, List.length_cons, List.length_cons, flatMap_pairBytes_length, List.length_map,
    fullFiles_length]
  omega

theorem onWire_append (n : SmsEchoClient) (g : Garbage) :
    n.onWire g = n.written.take n.wireLength ++
      (n.tail g).take (n.wireLength - (2 + 4 * n.getNumOfFullFiles)) := by
  have hsplit : n.advertisement g = n.written ++ n.tail g := rfl
  rw [onWire, hsplit, List.take_append, written_length]

theorem sendsWritten_iff : SendsWritten n ↔ ∀ g g', n.onWire g = n.onWire g' := by
  constructor
  · intro h g g'
    rw [onWire_append, onWire_append, Nat.sub_eq_zero_of_le h, List.take_zero, List.take_zero]
  · intro h
    have hle : n.wireLength ≤ 2 + 4 * n.files.length := Nat.mod_le ..
    have htail := h ⟨fun _ => 0, fun _ => 0⟩ ⟨fun _ => 0, fun _ => 1⟩
    rw [onWire_append, onWire_append, List.append_cancel_left_eq, tail, tail, malloc_const,
      malloc_const, List.drop_replicate, List.drop_replicate, List.take_replicate,
      List.take_replicate, List.replicate_inj] at htail
    have hempty := htail.2.resolve_right (by decide)
    unfold SendsWritten
    omega

theorem SendsWritten.onWire (h : SendsWritten n) (g : Garbage) :
    n.onWire g = n.written.take n.wireLength := by
  rw [onWire_append, Nat.sub_eq_zero_of_le h, List.take_zero, List.append_nil]

theorem CanSend.send_eq (h : CanSend n) (hn : n.CountersFit) (g : Garbage) :
    n.send g = .ok (n.sent g, n.onWire g) := by
  rw [SmsEcho.send_eq h.expired hn, if_pos h.socket]

theorem SameFullFiles.filePairs (h : SameFullFiles n n') :
    n.fullFiles.map filePair = n'.fullFiles.map filePair := by
  have hmap := congrArg
    (List.map fun f : FileSMS => (f.mId.toUInt16, f.mFileSize.toUInt16)) h
  rwa [List.map_map, List.map_map] at hmap

theorem SameFullFiles.getNumOfFullFiles (h : SameFullFiles n n') :
    n.getNumOfFullFiles = n'.getNumOfFullFiles := by
  have hlen := congrArg List.length h
  rwa [List.length_map, List.length_map, fullFiles_length, fullFiles_length] at hlen

theorem SameFullFiles.written (h : SameFullFiles n n') : n.written = n'.written := by
  rw [SmsEchoClient.written, SmsEchoClient.written, h.filePairs, h.getNumOfFullFiles]

/-- Below `2^30` files, where the length fits `SetFill`'s argument, all files are full. -/
theorem sendsWritten_iff_allFull (h : n.files.length < 2 ^ 30) : SendsWritten n ↔ AllFull n := by
  have hle : n.getNumOfFullFiles ≤ n.files.length := List.countP_le_length
  have hall : n.getNumOfFullFiles = n.files.length ↔ AllFull n := List.countP_eq_length
  rw [← hall, SendsWritten, wireLength_eq h]
  omega

/-- Two nodes with the same full files always send, and send the same bytes, exactly when the
counters allow for their files and both send equally much and only what they have written; and so
does one node with itself. -/
theorem sendsAlike_iff (hn : CanSend n) (hn' : CanSend n') (h : SameFullFiles n n') :
    SendsAlike n n' ↔ n.CountersFit ∧ n'.CountersFit ∧ SendsWritten n ∧
      n'.wireLength = n.wireLength := by
  constructor
  · rintro ⟨bytes, hsend, hsend'⟩
    have hwire : ∀ g, n.CountersFit ∧ n.onWire g = bytes := fun g => by
      obtain ⟨s, hs⟩ := hsend g
      obtain ⟨henc, -, -, rfl⟩ := send_cases hs
      exact ⟨henc, rfl⟩
    have hwire' : ∀ g, n'.CountersFit ∧ n'.onWire g = bytes := fun g => by
      obtain ⟨s, hs⟩ := hsend' g
      obtain ⟨henc, -, -, rfl⟩ := send_cases hs
      exact ⟨henc, rfl⟩
    have g : Garbage := ⟨fun _ => 0, fun _ => 0⟩
    refine ⟨(hwire g).1, (hwire' g).1, ?_, ?_⟩
    · exact sendsWritten_iff.mpr fun g g' => (hwire g).2.trans (hwire g').2.symm
    · rw [← onWire_length n g, ← onWire_length n' g, (hwire g).2, (hwire' g).2]
  · rintro ⟨henc, henc', hwritten, hlength⟩
    have hwritten' : SendsWritten n' := by
      rw [SendsWritten, hlength, ← h.getNumOfFullFiles]
      exact hwritten
    refine ⟨n.written.take n.wireLength, fun g => ⟨n.sent g, ?_⟩, fun g => ⟨n'.sent g, ?_⟩⟩
    · rw [hn.send_eq henc, hwritten.onWire]
    · rw [hn'.send_eq henc', hwritten'.onWire, hlength, h.written]

theorem onAir_canSend (address : Ipv4Address) (l : List FileSMS) : CanSend (onAir address l) :=
  ⟨TimerQueue.isExpired_cancel _ _, rfl⟩

def informedSending : SmsEchoClient :=
  { informed with timers := informed.timers.cancel informed.timers.mSendEvent }

theorem informedSending_canSend : CanSend informedSending :=
  ⟨TimerQueue.isExpired_cancel _ _, informed_orderly.socket⟩

theorem sendsAlike_iff_witness :
    SendsAlike (onAir 1 [⟨7, 2⟩]) (onAir 2 [⟨7, 2⟩]) ∧
      ¬ SendsAlike informedSending (onAir 2 [⟨7, 2⟩]) := by
  constructor
  · refine (sendsAlike_iff (onAir_canSend 1 _) (onAir_canSend 2 _) rfl).mpr ⟨?_, ?_, ?_, rfl⟩
    · exact countersFit_of_length (by decide)
    · exact countersFit_of_length (by decide)
    · exact (sendsWritten_iff_allFull (by decide)).mpr (by decide)
  · intro halike
    obtain ⟨-, -, hwritten, -⟩ :=
      (sendsAlike_iff informedSending_canSend (onAir_canSend 2 [⟨7, 2⟩]) rfl).mp halike
    exact absurd ((sendsWritten_iff_allFull (by decide)).mp hwritten) (by decide)

theorem not_sendsAlike_informedSending :
    CanSend informedSending ∧ ¬ SendsAlike informedSending informedSending := by
  refine ⟨informedSending_canSend, ?_⟩
  rintro ⟨bytes, hsend, -⟩
  have hwire : ∀ g, informedSending.onWire g = bytes := fun g => by
    obtain ⟨s, hs⟩ := hsend g
    exact (send_cases hs).2.2.2.symm
  have hwritten := sendsWritten_iff.mpr fun g g' => (hwire g).trans (hwire g').symm
  exact absurd ((sendsWritten_iff_allFull (by decide)).mp hwritten) (by decide)

end SmsEchoClient
end SmsEcho
