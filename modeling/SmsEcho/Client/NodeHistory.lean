import SmsEcho.Client.NodeRun

/-! What a run makes a node learn. A step changes the files, the seen nodes and the largest
count seen only through the message it handles, or through its own Send; a history is a run
that also keeps the state each step starts from. -/

namespace SmsEcho
open ByteBuffer PartialRun KeyedList LabelledTrace SmsEchoClient

abbrev NodeHistory (n₀ : SmsEchoClient) : List (SmsEchoClient × Observation) → SmsEchoClient → Prop :=
  Trace (recording NodeStep) n₀

namespace Observation

def heard : Observation → Option (Ipv4Address × Message)
  | handled d _ =>
    match Message.parse d.bytes with
    | .ok m => some (d.sender, m)
    | .error _ => none
  | emitted .. => none

theorem heard_handled {d : Datagram} {scheduled : List (Event Delay Action)} {m : Message}
    (hm : Message.parse d.bytes = .ok m) : (handled d scheduled).heard = some (d.sender, m) := by
  rw [heard, hm]

end Observation

namespace SmsEchoClient

def HasChunk (n : SmsEchoClient) (id : UInt32) (c : ℕ) : Prop := ∃ f, n.entry id = some f ∧ f.Has c

theorem target_has_iff {n : SmsEchoClient} {id size : UInt32} {c : ℕ} :
    (n.target id size).Has c ↔ n.HasChunk id c := by
  constructor
  · exact entry_of_target_has
  · rintro ⟨f, hf, hc⟩
    rwa [target_of_some hf]

/-- What a step that handles the given message, or none, changes of what a node knows. -/
inductive Learns (n n' : SmsEchoClient) : Option (Ipv4Address × Message) → Prop
  | advertisement {sender : Ipv4Address} {ps : List (UInt16 × UInt16)} :
      n'.files = (ps.map receivedFile).foldl (noteAdvertised sender) n.files →
      n'.seenNodes = (n.addNodeToSeenList sender).seenNodes →
      n'.maximumFullFilesSeen = max n.maximumFullFilesSeen ps.length →
      Learns n n' (some (sender, .advertisement ps))
  | request {sender : Ipv4Address} {h : RequestHeader} :
      n'.files = n.files → n'.seenNodes = n.seenNodes →
      n'.maximumFullFilesSeen = n.maximumFullFilesSeen →
      Learns n n' (some (sender, .request h))
  | repeated {sender : Ipv4Address} {h : ReplyHeader} :
      n.Indexed h.fileId → n.HasChunk h.fileId h.chunkId.toNat →
      n'.files = n.files → n'.seenNodes = n.seenNodes →
      n'.maximumFullFilesSeen = n.maximumFullFilesSeen →
      Learns n n' (some (sender, .reply h))
  | stored {sender : Ipv4Address} {h : ReplyHeader} :
      n.Indexed h.fileId → h.chunkId < (n.target h.fileId h.fileSize).fileSizeInChunks →
      ¬ n.HasChunk h.fileId h.chunkId.toNat →
      n'.files = n.storedFiles h.fileId h.fileSize h.chunkId sender →
      n'.seenNodes = n.seenNodes →
      n'.maximumFullFilesSeen = max n.maximumFullFilesSeen n'.getNumOfFullFiles →
      Learns n n' (some (sender, .reply h))
  | spoke : n'.files = n.files → n'.seenNodes = n.seenNodes →
      n'.maximumFullFilesSeen = n.maximumFullFilesSeen ∨
        n'.maximumFullFilesSeen = max n.maximumFullFilesSeen n.getNumOfFullFiles →
      Learns n n' none

theorem learns_of_absorb {n n' : SmsEchoClient} {sender : Ipv4Address} {m : Message}
    (hlen : n.files.length < 2 ^ 32) (ha : n.absorb sender m = .ok n') :
    Learns n n' (some (sender, m)) := by
  cases m with
  | advertisement ps =>
    obtain rfl : n.absorbAdvertisement sender ps = n' := Except.ok.inj ha
    exact .advertisement rfl rfl rfl
  | request h =>
    obtain ⟨rfl, -⟩ := absorb_request ha
    exact .request rfl rfl rfl
  | reply h =>
    obtain ⟨b, hb⟩ := absorb_reply ha
    have hindex := indexed_of_addNewChunk hlen hb
    obtain ⟨hc, ⟨hhas, -, rfl⟩ | ⟨hnew, -, rfl⟩⟩ := addNewChunk_cases hindex hb
    · exact .repeated hindex (target_has_iff.mp hhas) rfl rfl rfl
    · exact .stored hindex hc (mt target_has_iff.mpr hnew) rfl rfl rfl

end SmsEchoClient

theorem NodeStep.learns {n n' : SmsEchoClient} {o : Observation} (h : NodeStep n o n') :
    Learns n n' o.heard := by
  cases h with
  | handle hstep hlen =>
    obtain ⟨m, -, -, hm, habsorb, -⟩ := handlePacket_cases hstep
    rw [Observation.heard_handled hm]
    have hlearns := learns_of_absorb ((absorb_length_le habsorb).trans_lt hlen) habsorb
    -- the timers play no part in what is learnt
    cases hlearns with
    | advertisement hfiles hseen hmax => exact .advertisement hfiles hseen hmax
    | request hfiles hseen hmax => exact .request hfiles hseen hmax
    | repeated hindex hhas hfiles hseen hmax => exact .repeated hindex hhas hfiles hseen hmax
    | stored hindex hc hnew hfiles hseen hmax => exact .stored hindex hc hnew hfiles hseen hmax
  | fire he hstep =>
    obtain ⟨-, -, seen, data, hmax, rfl⟩ := fire_inversion hstep
    exact .spoke rfl rfl hmax

theorem nodeTrace_iff_exists_history {n₀ n : SmsEchoClient} {tr : List Observation} :
    NodeTrace n₀ tr n ↔ ∃ hist, hist.map Prod.snd = tr ∧ NodeHistory n₀ hist n := by
  constructor
  · exact Trace.exists_recorded
  · rintro ⟨hist, rfl, h⟩
    exact h.forget

def SmsEchoClient.hears (n : SmsEchoClient) (d : Datagram) : SmsEchoClient :=
  match n.handlePacket d (fun _ => 0) with
  | .ok (_, n') => n'
  | .error _ => n

def SmsEchoClient.hearing (n : SmsEchoClient) (d : Datagram) : SmsEchoClient × Observation :=
  (n, .handled d (newEvents n (n.hears d)))

theorem heard_hearing {n : SmsEchoClient} {d : Datagram} {m : Message}
    (hm : Message.parse d.bytes = .ok m) : (n.hearing d).2.heard = some (d.sender, m) :=
  Observation.heard_handled hm

theorem hears_eq {n n₁ : SmsEchoClient} {d : Datagram} {m : Message}
    (hm : Message.parse d.bytes = .ok m) (ha : n.cancelAllEvents.absorb d.sender m = .ok n₁) :
    n.hears d = (n₁.respond d.sender (fun _ => 0) m).2 := by
  rw [hears, handlePacket_of_absorb _ hm ha]

theorem step_hears {n n₁ : SmsEchoClient} {d : Datagram} {m : Message}
    (hm : Message.parse d.bytes = .ok m) (ha : n.cancelAllEvents.absorb d.sender m = .ok n₁)
    (hlen : n₁.files.length < 2 ^ 32) : NodeStep n (n.hearing d).2 (n.hears d) := by
  have hstep := handlePacket_of_absorb (n := n) (fun _ => 0) hm ha
  have hfiles : (n.hears d).files.length < 2 ^ 32 := by
    rw [hears_eq hm ha]
    exact hlen
  rw [show n₁.respond d.sender (fun _ => 0) m =
    ((n₁.respond d.sender (fun _ => 0) m).1, n.hears d) by rw [hears_eq hm ha]] at hstep
  exact .handle hstep hfiles

theorem step_of_reply {n : SmsEchoClient} {d : Datagram} {h : ReplyHeader}
    (hm : Message.parse d.bytes = .ok (.reply h))
    (hin : n.InRange (.reply h.fileId h.fileSize h.chunkId d.sender))
    (hlen : n.files.length + 1 < 2 ^ 32) : NodeStep n (n.hearing d).2 (n.hears d) := by
  have hrange : n.cancelAllEvents.InRange (.reply h.fileId h.fileSize h.chunkId d.sender) := hin
  obtain ⟨n₁, hn₁⟩ := hrange.process_ok
  obtain ⟨b, hadd⟩ := process_reply hn₁
  obtain ⟨seen, files, rfl, -, hle⟩ := addNewChunk_frame hadd
  exact step_hears hm hn₁ (hle.trans_lt hlen)

theorem informed_eq : listener.hears firstHeard = informed := hears_eq parse_firstHeard rfl

theorem informed_history : NodeHistory listener [listener.hearing firstHeard] informed := by
  have hstep := step_hears (n := listener) parse_firstHeard rfl (by decide)
  rw [informed_eq] at hstep
  exact .cons .nil ⟨rfl, hstep⟩

/-- Node 2 gives the listener chunk 0 of file 9. -/
def firstServed : Datagram :=
  ⟨2, [2, 0, 0, 0, 1, 0, 0, 0, 9, 0, 0, 0, 2, 0, 0, 0, 0, 0, 0, 0]⟩

theorem parse_firstServed : Message.parse firstServed.bytes = .ok (.reply ⟨2, 1, 9, 2, 0⟩) := by
  decide

def served : SmsEchoClient := informed.hears firstServed

theorem served_history :
    NodeHistory listener [informed.hearing firstServed, listener.hearing firstHeard] served := by
  exact informed_history.cons ⟨rfl, step_of_reply parse_firstServed (by decide) (by decide)⟩

theorem served_twice_history : NodeHistory listener
    [served.hearing firstServed, informed.hearing firstServed, listener.hearing firstHeard]
    (served.hears firstServed) := by
  refine served_history.cons ⟨rfl, step_of_reply parse_firstServed ?_ ?_⟩ <;> decide +kernel

end SmsEcho
