import SmsEcho.Network.Provenance
import SmsEcho.Network.Footprint
import SmsEcho.Network.RoundRuns

/-! Popularities in a network that loses nothing. There every holder that a node lists is one
that it has seen, so that the quotients it compares are fractions. -/

namespace SmsEcho
open ByteBuffer PartialRun LabelledTrace SmsEchoClient

variable {k : ℕ}

def Utterance.packet (o : Utterance k) : Packet k := ⟨o.speaker, o.bytes⟩

theorem SmsEchoClient.Learns.seenNodes_subset {n n' : SmsEchoClient}
    {heard : Option (Ipv4Address × Message)} (h : Learns n n' heard) :
    n.seenNodes ⊆ n'.seenNodes := by
  cases h with
  | advertisement _ hseen _ => exact hseen ▸ subset_addNodeToSeenList n _
  | request _ hseen _ => exact hseen ▸ List.Subset.refl _
  | repeated _ _ _ hseen _ => exact hseen ▸ List.Subset.refl _
  | stored _ _ _ _ hseen _ => exact hseen ▸ List.Subset.refl _
  | spoke _ hseen _ => exact hseen ▸ List.Subset.refl _

namespace Deployment

variable {D : Deployment k} {nodes nodes' : Fin k → SmsEchoClient} {o : Utterance k}
  {tr : List (Utterance k)} {ether : List (Packet k)}

def AllHeard (D : Deployment k) (ether : List (Packet k)) (nodes : Fin k → SmsEchoClient) : Prop :=
  ∀ p ∈ ether, ∀ ps, Message.parse p.bytes = .ok (.advertisement ps) →
    ∀ j, j ≠ p.origin → D.address p.origin ∈ (nodes j).seenNodes

theorem InRounds.seenNodes_subset (h : D.InRounds nodes) (hr : SpokenRound nodes o nodes')
    (j : Fin k) : (nodes j).seenNodes ⊆ (nodes' j).seenNodes := by
  by_cases hj : j = o.speaker
  · subst hj
    obtain ⟨g, hfire⟩ := hr.fires
    obtain ⟨-, -, seen, data, heq⟩ := fire_cases hfire
    rw [heq]
    exact List.Subset.refl _
  · exact ((h.spoken hr).2.2 j hj).seenNodes_subset

theorem AllHeard.round (hall : D.AllHeard ether nodes) (h : D.InRounds nodes)
    (hr : SpokenRound nodes o nodes') : D.AllHeard (o.packet :: ether) nodes' := by
  intro p hp ps hps j hj
  rcases List.mem_cons.mp hp with rfl | hp
  · obtain ⟨hsaid, -, hlearns⟩ := h.spoken hr
    have hadv : (nodes o.speaker).announced o.event.action = .advertisement ps :=
      Except.ok.inj (hsaid.symm.trans hps)
    have hlearn := hlearns j hj
    rw [hadv] at hlearn
    cases hlearn with
    | advertisement _ hseen _ =>
      rw [hseen]
      exact mem_addNodeToSeenList (nodes j) _
  · exact h.seenNodes_subset hr j (hall p hp ps hps j hj)

theorem rounds_reachable (rand : Fin k → ℚ)
    (h : Trace SpokenRound (D.started rand).nodes tr nodes) :
    D.Reachable ⟨nodes, tr.map Utterance.packet⟩ ∧ D.AllHeard (tr.map Utterance.packet) nodes := by
  induction h with
  | nil =>
    constructor
    · have hall := reachable_started D rand Finset.univ
      simpa using hall
    · intro p hp
      simp at hp
  | @cons tr nodes nodes' o htr hr ih =>
    obtain ⟨hreach, hheard⟩ := ih
    have hrounds := inRounds_trace htr
    exact ⟨reachable_of_round hreach hrounds.sockets hr, hheard.round hrounds hr⟩

/-- In a network without loss a node has seen all the holders that it lists for its files. Every
popularity it computes is then a fraction between zero and one. -/
theorem rounds_holdersSeen (D : Deployment k) (haddr : Function.Injective D.address)
    (rand : Fin k → ℚ) (h : Trace SpokenRound (D.started rand).nodes tr nodes) (i : Fin k) :
    HoldersSeen (nodes i) := by
  obtain ⟨hreach, hheard⟩ := rounds_reachable rand h
  have hstore := (sound_of_reachable hreach).store i
  apply holdersSeen_iff.mpr
  refine fun f hf => ⟨hstore.holders f hf, fun a ha => ?_⟩
  obtain ⟨g, -, -, p, hp, rfl, ps, hps, -⟩ := (traced_of_reachable hreach).holders i f hf a ha
  -- a node never comes to list itself
  have hother := ((compact_of_reachable hreach).nodes i).listed f.mId _ ⟨f, hf, rfl, ha⟩
  have hne : i ≠ p.origin := fun heq => hother.ne haddr (congrArg D.address heq).symm
  exact hheard p hp ps hps i hne

theorem rounds_holdersSeen_witness : ∃ (tr : List (Utterance 2)) (nodes : Fin 2 → SmsEchoClient),
    Trace SpokenRound (pair.started fun _ => 0).nodes tr nodes ∧
      tr.countP Utterance.isReply = 1 ∧ ∀ i, HoldersSeen (nodes i) := by
  obtain ⟨o₁, o₂, o₃, nodes, htr, hsend, hrequest, hreply⟩ := pair_converses
  have hcount : [o₃, o₂, o₁].countP Utterance.isReply = 1 := by
    simp [Utterance.isReply, hsend, hrequest, hreply]
  exact ⟨_, nodes, htr, hcount, rounds_holdersSeen pair (by decide) _ htr⟩

end Deployment
end SmsEcho
