import SmsEcho.Network.Traffic
import SmsEcho.Client.Holders

/-! How soon two nodes have shared everything. An advertisement makes whoever lacks something of
it whole, so that three advertisements are enough. -/

namespace SmsEcho
open ByteBuffer PartialRun KeyedList LabelledTrace Dissemination SmsEchoClient

namespace Deployment

section Whole
variable {k : ℕ} {D : Deployment k} {s s' : TimedNetwork k} {o : Spoken k} {a b i : Fin k}

def HasAll (D : Deployment k) (i : Fin k) (s : TimedNetwork k) : Prop :=
  ∀ f ∈ D.catalogue.files, FullIn (s.nodes i).files f.mId

def Informed (D : Deployment k) (b a : Fin k) (s : TimedNetwork k) : Prop :=
  ∀ f ∈ D.catalogue.files, FullIn (s.nodes b).files f.mId ∨
    Lists (s.nodes b).files f.mId (D.address a)

theorem HasAll.asks_nothing (hall : D.HasAll i s) (h : D.InRounds s.nodes)
    (haddr : Function.Injective D.address) (j : Fin k) :
    ((s.nodes i).getFileToRequest (D.address j)).isFull = true := by
  by_contra hnot
  obtain ⟨hknown, -, hlacks⟩ := h.asks_for haddr (Bool.eq_false_of_not_eq_true hnot)
  exact hlacks (hall _ hknown)

theorem Informed.hasAll (hinformed : D.Informed b a s)
    (hdone : ∀ f ∈ (s.nodes b).files, D.address a ∈ f.nodesWhoHaveFile → f.isFull = true) :
    D.HasAll b s := by
  intro f hf
  rcases hinformed f hf with hfull | ⟨g, hg, hid, hlists⟩
  · exact hfull
  · exact ⟨g, hg, hid, hdone g hg hlists⟩

section Round
variable (haddr : Function.Injective D.address) (hsize : ∀ i, ∀ f ∈ D.lists i, f.mFileSize ≠ 0)
include haddr hsize

theorem HasAll.round (hall : D.HasAll i s) (h : D.InRounds s.nodes) (hr : TimedRound s o s') :
    D.HasAll i s' :=
  fun f hf => h.fullIn_round haddr hsize hr.spokenRound hf (hall f hf)

theorem Informed.round (hinformed : D.Informed b a s) (h : D.InRounds s.nodes)
    (hr : TimedRound s o s') : D.Informed b a s' := by
  intro f hf
  rcases hinformed f hf with hfull | hlists
  · exact Or.inl (h.fullIn_round haddr hsize hr.spokenRound hf hfull)
  · obtain ⟨-, hkeep, hlearns⟩ := h.spoken hr.spokenRound
    refine Or.inr ?_
    by_cases hb : b = o.speaker
    · subst hb
      rwa [hkeep]
    · exact (hlearns b hb).lists_iff.mpr (Or.inl hlists)

end Round
end Whole

section Two
variable {D : Deployment 2} {s s' : TimedNetwork 2} {o : Spoken 2} {a b : Fin 2} {r : ℕ}

theorem eq_or_eq_of_ne (hab : a ≠ b) (i : Fin 2) : i = a ∨ i = b := by
  revert a b i
  decide

theorem complete_of_both (hab : a ≠ b) (ha : D.HasAll a s) (hb : D.HasAll b s) :
    D.Complete s.nodes := by
  intro i
  rcases eq_or_eq_of_ne hab i with rfl | rfl
  · exact ha
  · exact hb

/-- At most `r` more advertisements, and everyone has everything. -/
inductive Stage (D : Deployment 2) : ℕ → TimedNetwork 2 → Prop
  | fresh {s : TimedNetwork 2} : Quiet s → Stage D 3 s
  | half {s : TimedNetwork 2} (i : Fin 2) : Quiet s → D.HasAll i s → Stage D 2 s
  /-- Only node `i`, which has everything, has anything to say. -/
  | turn {s : TimedNetwork 2} (i : Fin 2) : Quiet s → D.HasAll i s →
      (∀ j, j ≠ i → ∀ e, e ∉ (s.nodes j).timers.pending) → Stage D 1 s
  | offered {s₀ s : TimedNetwork 2} {o : Spoken 2} {b : Fin 2} {f : FileSMS} {r : ℕ} :
      D.OnTime s₀ → TimedRound s₀ o s → o.event.action = .send → b ≠ o.speaker →
      f ∈ D.lists o.speaker → ¬ FullIn (s₀.nodes b).files f.mId → D.Informed b o.speaker s →
      (D.HasAll o.speaker s ∨ r = 2) → Stage D r s
  | asked {s : TimedNetwork 2} {a b : Fin 2} {t : ℚ} {m r : ℕ} : a ≠ b →
      D.JustAsked b a t m s → D.Informed b a s → (D.HasAll a s ∨ r = 2) → Stage D r s
  | answered {s : TimedNetwork 2} {a b : Fin 2} {t : ℚ} {m r : ℕ} : a ≠ b →
      D.JustAnswered b a t m s → 0 < m → D.Informed b a s → (D.HasAll a s ∨ r = 2) → Stage D r s

section Steps
variable (haddr : Function.Injective D.address) (hsize : ∀ i, ∀ f ∈ D.lists i, f.mFileSize ≠ 0)
include haddr hsize

theorem OnTime.turn (h : D.OnTime s) (hr : TimedRound s o s') (hsend : o.event.action = .send)
    (hb : b ≠ o.speaker) (hall : D.HasAll b s) : D.Stage 1 s' := by
  have h' := h.rounds.round hr.spokenRound
  have hall' := hall.round haddr hsize h.rounds hr
  have hsilent := h.silent_after_send hr hsend
  obtain ⟨hsaid, -, -⟩ := h.rounds.spoken hr.spokenRound
  rw [Utterance.announced_of_send hsend] at hsaid
  refine .turn b (fun i e he => ?_) hall' fun j hj e he => ?_
  · rcases eq_or_eq_of_ne hb i with rfl | rfl
    · obtain ⟨rand, -, ⟨hfollow, -⟩ | ⟨haction, -⟩⟩ :=
        hr.due_hearer hsaid hb (h.rounds.recorded i) he
      · obtain ⟨hnot, -⟩ := nextRequest_eq_some.mp hfollow
        have hdone := hall'.asks_nothing h' haddr o.speaker
        rw [h.rounds.address] at hnot
        exact absurd hdone (by simp [hnot])
      · exact haction
    · exact absurd he (hsilent e)
  · obtain rfl : j = o.speaker := (eq_or_eq_of_ne hb j).resolve_left hj
    exact hsilent e he

theorem OnTime.offers (h : D.OnTime s) (hfew : D.distinctFiles.card ≤ 14) (hr : TimedRound s o s')
    (hsend : o.event.action = .send) (hb : b ≠ o.speaker) (hnot : ¬ D.HasAll b s)
    (hr2 : D.HasAll o.speaker s ∨ r = 2) : D.Stage r s' := by
  have hrounds := h.rounds
  -- each file was given to one of the two
  have hgiven : ∀ f ∈ D.catalogue.files, f ∈ D.lists b ∨ f ∈ D.lists o.speaker := by
    rintro f ⟨i, hf⟩
    rcases eq_or_eq_of_ne hb i with rfl | rfl
    · exact Or.inl hf
    · exact Or.inr hf
  simp only [HasAll, not_forall] at hnot
  obtain ⟨f, hf, hlacks⟩ := hnot
  have hlist : f ∈ D.lists o.speaker :=
    (hgiven f hf).resolve_left fun hmine => hlacks (hrounds.fullIn_given hmine)
  refine .offered h hr hsend hb hlist hlacks (fun g hg => ?_) ?_
  · rcases hgiven g hg with hmine | htheirs
    · exact Or.inl ((hrounds.round hr.spokenRound).fullIn_given hmine)
    · exact Or.inr (hrounds.listed (hfew.trans (by decide)) hr hsend hb
        (hrounds.fullIn_given htheirs))
  · exact hr2.imp_left fun hall => hall.round haddr hsize hrounds hr

omit haddr hsize in
theorem stage_of_whole (hab : a ≠ b) (hwhole : D.HasAll b s) (hquiet : Quiet s)
    (hr2 : D.HasAll a s ∨ r = 2) : D.Complete s.nodes ∨ D.Stage r s := by
  rcases hr2 with hall | rfl
  · exact Or.inl (complete_of_both hab hall hwhole)
  · exact Or.inr (.half b hquiet hwhole)

theorem OnTime.quiet_step (h : D.OnTime s) (hfew : D.distinctFiles.card ≤ 14) (hquiet : Quiet s)
    (hr : TimedRound s o s') : o.kind = .send ∧ ∃ b, b ≠ o.speaker ∧
      (D.HasAll b s ∧ D.Stage 1 s' ∨
        ¬ D.HasAll b s ∧ ∀ r, D.HasAll o.speaker s ∨ r = 2 → D.Stage r s') := by
  have hsend := hquiet o.speaker o.event hr.pending
  obtain ⟨b, hb⟩ := exists_ne o.speaker
  refine ⟨kind_eq_send.mpr hsend, b, hb, ?_⟩
  by_cases hall : D.HasAll b s
  · exact Or.inl ⟨hall, h.turn haddr hsize hr hsend hb hall⟩
  · exact Or.inr ⟨hall, fun r => h.offers haddr hsize hfew hr hsend hb hall⟩

theorem Stage.step (hstage : D.Stage r s) (h : D.OnTime s) (hfew : D.distinctFiles.card ≤ 14)
    (hr : TimedRound s o s') : D.Complete s'.nodes ∨
      ∃ r', D.Stage r' s' ∧ r' + (if o.kind = .send then 1 else 0) ≤ r := by
  have hfifty : D.distinctFiles.card ≤ 50 := hfew.trans (by decide)
  cases hstage with
  | fresh hquiet =>
    obtain ⟨hkind, b, -, ⟨-, hturn⟩ | ⟨-, hoffer⟩⟩ := h.quiet_step haddr hsize hfew hquiet hr
    · exact Or.inr ⟨1, hturn, by rw [if_pos hkind]; decide⟩
    · exact Or.inr ⟨2, hoffer 2 (Or.inr rfl), by rw [if_pos hkind]⟩
  | half i hquiet hall =>
    obtain ⟨hkind, b, hb, ⟨-, hturn⟩ | ⟨hlacks, hoffer⟩⟩ := h.quiet_step haddr hsize hfew hquiet hr
    · exact Or.inr ⟨1, hturn, by rw [if_pos hkind]⟩
    · have hi : i = o.speaker := by
        refine (eq_or_eq_of_ne hb i).resolve_left ?_
        rintro rfl
        exact hlacks hall
      rw [hi] at hall
      exact Or.inr ⟨0, hoffer 0 (Or.inl hall), by rw [if_pos hkind]; decide⟩
  | turn i hquiet hall hsilent =>
    obtain ⟨hkind, b, hb, hnext⟩ := h.quiet_step haddr hsize hfew hquiet hr
    have hi : i = o.speaker := by
      by_contra hi
      exact hsilent o.speaker (Ne.symm hi) o.event hr.pending
    rw [hi] at hall
    rcases hnext with ⟨hall', -⟩ | ⟨-, hoffer⟩
    · exact Or.inl (complete_of_both hb (hall'.round haddr hsize h.rounds hr)
        (hall.round haddr hsize h.rounds hr))
    · exact Or.inr ⟨0, hoffer 0 (Or.inl hall), by rw [if_pos hkind]⟩
  | @offered s₀ _ o₀ b f _ h₀ hr₀ hsend₀ hb hf hlacks hinformed hr2 =>
    have hnext := h₀.send_asked hsize haddr hfew hr₀ hsend₀ ⟨o₀.speaker, hf⟩
      (h₀.rounds.fullIn_given hf) hlacks hr
    obtain ⟨hne, -⟩ := h₀.after_send hr₀ hsend₀ hr
    obtain rfl : o.speaker = b := (eq_or_eq_of_ne hb o.speaker).resolve_right hne
    obtain ⟨-, haction⟩ := nextRequest_eq_some.mp hnext
    have hasked : D.JustAsked o.speaker o₀.speaker o.time
        (totalMissing (s.nodes o.speaker) (D.address o₀.speaker)) s' :=
      ⟨s, o, requestFor _ _, h, hr, rfl, rfl, by rw [haction]; rfl, rfl, rfl⟩
    refine Or.inr ⟨r, .asked hb.symm hasked (hinformed.round haddr hsize h.rounds hr)
      (hr2.imp_left fun hall => hall.round haddr hsize h.rounds hr), ?_⟩
    have hkind : o.kind = .request := by rw [Utterance.kind, haction]; rfl
    simp [hkind]
  | @asked _ a b t m _ hab hasked hinformed hr2 =>
    obtain ⟨⟨-, -, hkind⟩, m', -, hanswered⟩ := hasked.step haddr hsize hfifty hr
    have hinformed' := hinformed.round haddr hsize h.rounds hr
    have hr2' : D.HasAll a s' ∨ r = 2 :=
      hr2.imp_left fun hall => hall.round haddr hsize h.rounds hr
    have hspent : r + (if o.kind = .send then 1 else 0) ≤ r := by simp [hkind]
    rcases Nat.eq_zero_or_pos m' with hzero | hpos
    · obtain ⟨hdone, hquiet⟩ := hanswered.done hzero
      exact (stage_of_whole hab (hinformed'.hasAll hdone) hquiet hr2').imp_right
        fun hstage => ⟨r, hstage, hspent⟩
    · exact Or.inr ⟨r, .answered hab hanswered hpos hinformed' hr2', hspent⟩
  | @answered _ a b t m _ hab hanswered hpos hinformed hr2 =>
    obtain ⟨⟨-, -, hkind⟩, hasked⟩ := hanswered.step hpos hr
    refine Or.inr ⟨r, .asked hab hasked (hinformed.round haddr hsize h.rounds hr)
      (hr2.imp_left fun hall => hall.round haddr hsize h.rounds hr), ?_⟩
    simp [hkind]

variable {s₀ : TimedNetwork 2} {tr : List (Spoken 2)}

theorem stage_of_trace (hfew : D.distinctFiles.card ≤ 14) (hstart : D.TimedStart s₀)
    (htr : Trace TimedRound s₀ tr s) :
    D.Complete s.nodes ∨ ∃ r, D.Stage r s ∧ tally .send tr + r ≤ 3 := by
  induction htr with
  | nil =>
    obtain ⟨rand, -, hnodes, -⟩ := hstart
    refine Or.inr ⟨3, .fresh fun i e he => ?_, le_rfl⟩
    rw [hnodes] at he
    exact D.send_of_started rand i e he
  | @cons tr s s' o htr hr ih =>
    have hs : D.TimedReachable s := ⟨s₀, tr, hstart, htr⟩
    rcases ih with hall | ⟨r, hstage, hspent⟩
    · exact Or.inl fun i => HasAll.round haddr hsize (hall i) hs.rounds hr
    · have hontime := hs.onTime hsize (hfew.trans (by decide))
      refine (hstage.step haddr hsize hontime hfew hr).imp_right ?_
      rintro ⟨r', hstage', hr'⟩
      refine ⟨r', hstage', ?_⟩
      rw [tally_cons]
      omega

end Steps

theorem length_eq_tallies (tr : List (Spoken 2)) :
    tr.length = tally .send tr + tally .request tr + tally .reply tr := by
  induction tr with
  | nil => rfl
  | cons o tr ih =>
    rw [List.length_cons, ih, tally_cons, tally_cons, tally_cons]
    cases o.kind <;> simp <;> omega

/-- Two nodes with at most 14 files in all have them all, both of them, after three
advertisements, one request and one answer for each chunk that was lacking, and five pauses,
whatever the two of them draw. -/
theorem two_nodes_deadline (D : Deployment 2) (haddr : Function.Injective D.address)
    (hsize : ∀ i, ∀ f ∈ D.lists i, f.mFileSize ≠ 0) (hfiles : ∀ i, D.lists i ≠ [])
    (hfew : D.distinctFiles.card ≤ 14) {M : ℕ} (hmemory : ∀ i, D.memory i ≤ M)
    (hcard : D.distinctFiles.card ≤ M) {s₀ s : TimedNetwork 2} {o : Spoken 2}
    {tr : List (Spoken 2)} (hstart : D.TimedStart s₀) (htr : Trace TimedRound s₀ (o :: tr) s) :
    D.Complete s.nodes ∨
      tally .send (o :: tr) ≤ 3 ∧ (o :: tr).length < 3 + 2 * D.shortfall s₀ ∧
      o.time ≤ 2 + 65 / 1000 + 5 * pause M := by
  have hfifty : D.distinctFiles.card ≤ 50 := hfew.trans (by decide)
  obtain ⟨hontime, hbooks⟩ := account_of_trace haddr hsize hfifty hstart htr
  by_cases hall : D.Complete s.nodes
  · exact Or.inl hall
  · obtain ⟨r, -, hspent⟩ := (stage_of_trace haddr hsize hfew hstart htr).resolve_left hall
    have hthree : tally .send (o :: tr) ≤ 3 := (Nat.le_add_right ..).trans hspent
    have hlacking : 0 < D.shortfall s := by
      refine Nat.pos_of_ne_zero fun hzero => hall ?_
      exact (hontime.rounds.complete_iff hsize).mpr hzero
    refine Or.inr ⟨hthree, ?_, ?_⟩
    · have hgained := hbooks.gained
      have hpaired := hbooks.paired
      rw [length_eq_tallies]
      split_ifs at hpaired <;> omega
    · have htime := time_le le_rfl haddr hsize hfifty hfiles hmemory hcard hstart htr
      have hpause := pause_nonneg M
      rw [tally_cons] at hthree
      by_cases hsend : o.kind = .send
      · rw [if_pos hsend] at hthree htime
        have htwo : (tally .send tr : ℚ) ≤ 2 := by exact_mod_cast Nat.le_of_succ_le_succ hthree
        have hless := mul_le_mul_of_nonneg_right htwo hpause
        linarith
      · rw [if_neg hsend] at hthree htime
        have hthree' : (tally .send tr : ℚ) ≤ 3 := by exact_mod_cast hthree
        have hless := mul_le_mul_of_nonneg_right hthree' hpause
        linarith

theorem two_nodes_deadline_witness : ∃ (o : Spoken 2) (tr : List (Spoken 2)) (s : TimedNetwork 2),
    Trace TimedRound pairStart (o :: tr) s ∧ o.kind = .reply ∧ (pair.Complete s.nodes ∨
      tally .send (o :: tr) ≤ 3 ∧ (o :: tr).length < 3 + 2 * pair.shortfall pairStart ∧
        o.time ≤ 2 + 65 / 1000 + 5 * pause 5) := by
  obtain ⟨o₁, o₂, o₃, s, htr, -, -, hreply⟩ := pair_answers
  exact ⟨o₃, [o₂, o₁], s, htr, hreply, two_nodes_deadline pair (by decide) (by decide) (by decide)
    (by decide) (by decide) (by decide) pairStart_timedStart htr⟩

end Two
end Deployment
end SmsEcho
