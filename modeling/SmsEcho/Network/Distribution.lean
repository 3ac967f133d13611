import SmsEcho.Network.Uninterrupted

/-! In the end everyone has every file. Each advertisement that offers something is followed by
a request and an answer, and the chunks that are lacking run out. -/

namespace SmsEcho
open ByteBuffer PartialRun KeyedList LabelledTrace Dissemination SmsEchoClient

variable {k : ℕ}

namespace Deployment

structure Execution (D : Deployment k) (run : ℕ → TimedNetwork k) (said : ℕ → Spoken k) : Prop where
  start : D.TimedStart (run 0)
  rounds : Forever TimedRound run said

/-- No node is kept from advertising for ever. -/
def Fair (said : ℕ → Spoken k) : Prop :=
  ∀ i n, ∃ n' ≥ n, (said n').speaker = i ∧ (said n').kind = .send

def Complete (D : Deployment k) (nodes : Fin k → SmsEchoClient) : Prop :=
  ∀ i, ∀ f ∈ D.catalogue.files, FullIn (nodes i).files f.mId

variable {D : Deployment k} {run : ℕ → TimedNetwork k} {said : ℕ → Spoken k}

theorem exists_execution (hk : 2 ≤ k) (haddr : Function.Injective D.address)
    (hfiles : ∀ i, D.lists i ≠ []) {s : TimedNetwork k} (hs : D.TimedStart s) :
    ∃ run said, D.Execution run said := by
  have hgo : ∀ s : TimedNetwork k, D.InRounds s.nodes ∧ Ticking s →
      ∃ o s', TimedRound s o s' ∧ D.InRounds s'.nodes ∧ Ticking s' := by
    intro s hs
    obtain ⟨o, s', hr⟩ := hs.1.exists_timedRound haddr hs.2
    exact ⟨o, s', hr, hs.1.round hr.spokenRound, hs.1.ticking hk hfiles hr⟩
  obtain ⟨run, said, rfl, hrun, -⟩ := exists_forever hgo
    ⟨TimedReachable.rounds ⟨s, [], hs, .nil⟩, ticking_start hk hfiles hs⟩
  exact ⟨run, said, hs, hrun⟩

theorem Execution.timedReachable (h : D.Execution run said) (n : ℕ) : D.TimedReachable (run n) := by
  obtain ⟨tr, htr⟩ := h.rounds.trace n
  exact ⟨run 0, tr, h.start, htr⟩

theorem Execution.inRounds (h : D.Execution run said) (n : ℕ) : D.InRounds (run n).nodes :=
  (h.timedReachable n).rounds

def shortfall (D : Deployment k) (s : TimedNetwork k) : ℕ := lacking D.chunks (D.holdings s.nodes)

theorem Execution.fullIn_given (h : D.Execution run said) (n : ℕ) {j : Fin k} {f : FileSMS}
    (hf : f ∈ D.lists j) : FullIn ((run n).nodes j).files f.mId :=
  (h.inRounds n).fullIn_given hf

theorem Execution.onTime (h : D.Execution run said) (hsize : ∀ i, ∀ f ∈ D.lists i, f.mFileSize ≠ 0)
    (hfew : D.distinctFiles.card ≤ 14) (n : ℕ) : D.OnTime (run n) :=
  (h.timedReachable n).onTime hsize (hfew.trans (by decide))

theorem InRounds.complete_iff {s : TimedNetwork k} (h : D.InRounds s.nodes)
    (hsize : ∀ i, ∀ f ∈ D.lists i, f.mFileSize ≠ 0) :
    D.Complete s.nodes ↔ D.shortfall s = 0 := by
  unfold shortfall
  rw [lacking_eq_zero_iff]
  constructor
  · rintro hall i ⟨id, c⟩ hx
    obtain ⟨f, hf, rfl, hc⟩ := mem_chunks.mp hx
    exact (h.fullIn_iff hf hsize).mp (hall i f hf) c hc
  · intro hall i f hf
    rw [h.fullIn_iff hf hsize]
    exact fun c hc => hall i (mem_chunks.mpr ⟨f, hf, rfl, hc⟩)

theorem Execution.exists_lacking (h : D.Execution run said)
    (hsize : ∀ i, ∀ f ∈ D.lists i, f.mFileSize ≠ 0) {n : ℕ} (hpos : 0 < D.shortfall (run n)) :
    ∃ i j, ∃ f ∈ D.lists j, ¬ FullIn ((run n).nodes i).files f.mId := by
  have hnot : ¬ D.Complete (run n).nodes := by
    rw [(h.inRounds n).complete_iff hsize]
    exact hpos.ne'
  simp only [Complete, not_forall] at hnot
  obtain ⟨i, f, ⟨j, hf⟩, hlacks⟩ := hnot
  exact ⟨i, j, f, hf, hlacks⟩

section Share
variable (h : D.Execution run said) (haddr : Function.Injective D.address)
include h haddr

theorem Execution.holdings_mono (n : ℕ) (i : Fin k) :
    D.holdings (run n).nodes i ⊆ D.holdings (run (n + 1)).nodes i :=
  (h.inRounds n).holdings_mono haddr (h.rounds n).spokenRound i

theorem Execution.shortfall_antitone : Antitone fun n => D.shortfall (run n) :=
  antitone_nat_of_succ_le fun n => lacking_anti (h.holdings_mono haddr n)

theorem Execution.shortfall_of_reply {n : ℕ} (hk : (said n).kind = .reply) :
    D.shortfall (run (n + 1)) < D.shortfall (run n) := by
  obtain ⟨gained, hsum, hreply, -⟩ :=
    (h.inRounds n).lacking_round haddr (h.rounds n).spokenRound
  obtain ⟨hone, -⟩ := hreply hk
  unfold shortfall
  omega

variable (hsize : ∀ i, ∀ f ∈ D.lists i, f.mFileSize ≠ 0)
include hsize

theorem Execution.shortfall_lt {n n' : ℕ} (hn : n ≤ n') {i : Fin k} {f : FileSMS}
    (hf : f ∈ D.catalogue.files) (hbefore : ¬ FullIn ((run n).nodes i).files f.mId)
    (hafter : FullIn ((run n').nodes i).files f.mId) :
    D.shortfall (run n') < D.shortfall (run n) := by
  rw [(h.inRounds n).fullIn_iff hf hsize] at hbefore
  rw [(h.inRounds n').fullIn_iff hf hsize] at hafter
  simp only [not_forall] at hbefore
  obtain ⟨c, hc, hlacks⟩ := hbefore
  have hsub : ∀ i, D.holdings (run n).nodes i ⊆ D.holdings (run n').nodes i := fun i =>
    monotone_nat_of_le_succ (f := fun n => D.holdings (run n).nodes i)
      (fun n => h.holdings_mono haddr n i) hn
  exact lacking_lt hsub (mem_chunks.mpr ⟨f, hf, rfl, hc⟩) hlacks (hafter c hc)

variable (hfew : D.distinctFiles.card ≤ 14)
include hfew

theorem Execution.shortfall_of_request {n : ℕ} (hk : (said n).kind = .request) :
    D.shortfall (run (n + 2)) < D.shortfall (run n) := by
  have hontime := h.onTime hsize hfew n
  obtain ⟨q, hq⟩ := Utterance.exists_request hk ((run n).nodes (said n).speaker)
  obtain ⟨a, e, -, -, hnext, hd, size, haction, -⟩ :=
    hontime.answered hsize haddr (h.rounds n) hq
  obtain ⟨-, he, -⟩ := hnext.forced (h.rounds (n + 1))
  have hreply : (said (n + 1)).kind = .reply := by
    rw [Utterance.kind, he, haction]
    rfl
  calc D.shortfall (run (n + 2)) < D.shortfall (run (n + 1)) := h.shortfall_of_reply haddr hreply
    _ ≤ D.shortfall (run n) := h.shortfall_antitone haddr (Nat.le_succ n)

theorem Execution.shortfall_of_send {n : ℕ} (hk : (said n).kind = .send) {i : Fin k} {f : FileSMS}
    (hf : f ∈ D.lists (said n).speaker) (hlacks : ¬ FullIn ((run n).nodes i).files f.mId) :
    D.shortfall (run (n + 3)) < D.shortfall (run n) := by
  have hnext := (h.onTime hsize hfew n).send_asked hsize haddr hfew (h.rounds n)
    (kind_eq_send.mp hk) ⟨(said n).speaker, hf⟩ (h.fullIn_given n hf) hlacks
    (h.rounds (n + 1))
  have hrequest : (said (n + 1)).kind = .request := by
    rw [Utterance.kind, (nextRequest_eq_some.mp hnext).2]
    rfl
  calc D.shortfall (run (n + 3)) < D.shortfall (run (n + 1)) :=
        h.shortfall_of_request haddr hsize hfew hrequest
    _ ≤ D.shortfall (run n) := h.shortfall_antitone haddr (Nat.le_succ n)

theorem Execution.kind_of_complete {n : ℕ} (hall : D.Complete (run n).nodes) :
    (said n).kind = .send := by
  have hzero := ((h.inRounds n).complete_iff hsize).mp hall
  cases hk : (said n).kind with
  | send => rfl
  | request =>
    have hless := h.shortfall_of_request haddr hsize hfew hk
    omega
  | reply =>
    have hless := h.shortfall_of_reply haddr hk
    omega

theorem Execution.complete_of_progress
    (hprogress : ∀ n, 0 < D.shortfall (run n) → ∃ n', D.shortfall (run n') < D.shortfall (run n)) :
    ∃ n₀, ∀ n ≥ n₀, D.Complete (run n).nodes ∧ (said n).kind = .send := by
  obtain ⟨n₀, hcomplete⟩ := eventually_complete (U := D.chunks)
    (fun n => D.holdings (run n).nodes) (h.holdings_mono haddr) hprogress
  refine ⟨n₀, fun n hn => ?_⟩
  have hall : D.Complete (run n).nodes := by
    rw [(h.inRounds n).complete_iff hsize]
    exact lacking_eq_zero_iff.mpr (hcomplete n hn)
  exact ⟨hall, h.kind_of_complete haddr hsize hfew hall⟩

end Share

section Two
variable {D : Deployment 2} {run : ℕ → TimedNetwork 2} {said : ℕ → Spoken 2}
  (h : D.Execution run said) (hsize : ∀ i, ∀ f ∈ D.lists i, f.mFileSize ≠ 0)
  (hfew : D.distinctFiles.card ≤ 14) (haddr : Function.Injective D.address)
include h hsize hfew

theorem Execution.other_speaks {n : ℕ} (hk : (said n).kind = .send) :
    (said (n + 1)).speaker = 1 - (said n).speaker := by
  obtain ⟨hne, -⟩ := (h.onTime hsize hfew n).after_send (h.rounds n) (kind_eq_send.mp hk)
    (h.rounds (n + 1))
  have htwo : ∀ i j : Fin 2, i ≠ j → i = 1 - j := by decide
  exact htwo _ _ hne

theorem Execution.each_speaks {n : ℕ} (hk : (said n).kind = .send) (i : Fin 2) :
    (said n).speaker = i ∨ (said (n + 1)).speaker = i := by
  rw [h.other_speaks hsize hfew hk]
  have htwo : ∀ i j : Fin 2, j = i ∨ 1 - j = i := by decide
  exact htwo i _

include haddr

theorem Execution.two_settle :
    ∃ n₀, ∀ n ≥ n₀, D.Complete (run n).nodes ∧ (said n).kind = .send := by
  refine h.complete_of_progress haddr hsize hfew fun n hpos => ?_
  by_contra hnone
  simp only [not_exists, not_lt] at hnone
  -- then nothing is ever asked for again, and the node with the file advertises in vain
  have hsends : ∀ n' ≥ n, (said n').kind = .send := by
    intro n' hn
    have hle : D.shortfall (run n') ≤ D.shortfall (run n) := h.shortfall_antitone haddr hn
    cases hk : (said n').kind with
    | send => rfl
    | request =>
      have hless := h.shortfall_of_request haddr hsize hfew hk
      exact absurd (hnone (n' + 2)) (not_le.mpr (hless.trans_le hle))
    | reply =>
      have hless := h.shortfall_of_reply haddr hk
      exact absurd (hnone (n' + 1)) (not_le.mpr (hless.trans_le hle))
  obtain ⟨i, j, f, hf, hlacks⟩ := h.exists_lacking hsize hpos
  have hsame : ∀ n' ≥ n, ¬ FullIn ((run n').nodes i).files f.mId := by
    intro n' hn hfull
    have hless := h.shortfall_lt haddr hsize hn ⟨j, hf⟩ hlacks hfull
    exact absurd (hnone n') (not_le.mpr hless)
  have hvain : ∀ n' ≥ n, (said n').speaker ≠ j := by
    rintro n' hn rfl
    have hless := h.shortfall_of_send haddr hsize hfew (hsends n' hn) hf (hsame n' hn)
    have hle : D.shortfall (run n') ≤ D.shortfall (run n) := h.shortfall_antitone haddr hn
    exact absurd (hnone (n' + 3)) (not_le.mpr (hless.trans_le hle))
  rcases h.each_speaks hsize hfew (hsends n le_rfl) j with hj | hj
  · exact hvain n le_rfl hj
  · exact hvain (n + 1) (Nat.le_succ n) hj

theorem Execution.two_fair : Fair said := by
  obtain ⟨n₀, hall⟩ := h.two_settle hsize hfew haddr
  intro i n
  have hk := (hall (max n n₀) (le_max_right n n₀)).2
  have hk' := (hall (max n n₀ + 1) ((le_max_right n n₀).trans (Nat.le_succ _))).2
  rcases h.each_speaks hsize hfew hk i with hi | hi
  · exact ⟨max n n₀, le_max_left n n₀, hi, hk⟩
  · exact ⟨max n n₀ + 1, (le_max_left n n₀).trans (Nat.le_succ _), hi, hk'⟩

end Two

theorem pair_execution : ∃ run said, pair.Execution run said :=
  exists_execution le_rfl (by decide) (by decide) pairStart_timedStart

/-- With at most 14 files in all, and with no node kept from advertising for ever, the network
comes to a point from which on everyone has every file, and nothing is asked for any more. -/
theorem fair_execution_completes (D : Deployment k) (haddr : Function.Injective D.address)
    (hsize : ∀ i, ∀ f ∈ D.lists i, f.mFileSize ≠ 0) (hfew : D.distinctFiles.card ≤ 14)
    (h : D.Execution run said) (hfair : Fair said) :
    ∃ n₀, ∀ n ≥ n₀, D.Complete (run n).nodes ∧ (said n).kind = .send := by
  refine h.complete_of_progress haddr hsize hfew fun n hpos => ?_
  obtain ⟨i, j, f, hf, hlacks⟩ := h.exists_lacking hsize hpos
  obtain ⟨n', hn, rfl, hk⟩ := hfair j n
  by_cases hfull : FullIn ((run n').nodes i).files f.mId
  · exact ⟨n', h.shortfall_lt haddr hsize hn ⟨_, hf⟩ hlacks hfull⟩
  · refine ⟨n' + 3, ?_⟩
    calc D.shortfall (run (n' + 3)) < D.shortfall (run n') :=
          h.shortfall_of_send haddr hsize hfew hk hf hfull
      _ ≤ D.shortfall (run n) := h.shortfall_antitone haddr hn

theorem fair_execution_completes_witness : ∃ run said, pair.Execution run said ∧
    ∃ n₀, ∀ n ≥ n₀, pair.Complete (run n).nodes ∧ (said n).kind = .send := by
  obtain ⟨run, said, h⟩ := pair_execution
  have hfair := h.two_fair (by decide) (by decide) (by decide)
  exact ⟨run, said, h, fair_execution_completes pair (by decide) (by decide) (by decide) h hfair⟩

theorem two_nodes_complete (D : Deployment 2) (haddr : Function.Injective D.address)
    (hsize : ∀ i, ∀ f ∈ D.lists i, f.mFileSize ≠ 0) (hfew : D.distinctFiles.card ≤ 14)
    {run : ℕ → TimedNetwork 2} {said : ℕ → Spoken 2} (h : D.Execution run said) :
    ∃ n₀, ∀ n ≥ n₀, D.Complete (run n).nodes ∧ (said n).kind = .send ∧
      (said (n + 1)).speaker = 1 - (said n).speaker := by
  obtain ⟨n₀, hall⟩ := h.two_settle hsize hfew haddr
  refine ⟨n₀, fun n hn => ?_⟩
  obtain ⟨hcomplete, hk⟩ := hall n hn
  exact ⟨hcomplete, hk, h.other_speaks hsize hfew hk⟩

theorem two_nodes_complete_witness : ∃ run said, pair.Execution run said ∧
    ∃ n₀, ∀ n ≥ n₀, pair.Complete (run n).nodes ∧ (said n).kind = .send ∧
      (said (n + 1)).speaker = 1 - (said n).speaker := by
  obtain ⟨run, said, h⟩ := pair_execution
  exact ⟨run, said, h, two_nodes_complete pair (by decide) (by decide) (by decide) h⟩

end Deployment
end SmsEcho
