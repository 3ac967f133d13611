import SmsEcho.Client.FreshRequest

/-! The two delays of a node. Full files stay full, so the delay before an advertisement never
divides by zero; and how the delay of a request compares with it. -/

namespace SmsEcho
open ByteBuffer PartialRun KeyedList LabelledTrace SmsEchoClient

namespace SmsEchoClient

def milliseconds (x : ℚ) : Delay := ((x / 1000 : ℚ) : WithTop ℚ)

theorem milliseconds_le {x y : ℚ} : milliseconds x ≤ milliseconds y ↔ x ≤ y := by
  unfold milliseconds
  rw [WithTop.coe_le_coe]
  exact div_le_div_iff_of_pos_right (by norm_num)

variable {n n' : SmsEchoClient}

theorem getTimeAdvertisement_ne_top (hF : 1 ≤ n.getNumOfFullFiles) (start : Bool) (rand : ℚ) :
    n.getTimeAdvertisement start rand ≠ ⊤ := by
  have hne : n.getNumOfFullFiles ≠ 0 := Nat.one_le_iff_ne_zero.mp hF
  simp only [getTimeAdvertisement, if_neg hne]
  exact WithTop.coe_ne_top

theorem getTimeAdvertisement_eq (hF : 1 ≤ n.getNumOfFullFiles) (rand : ℚ) :
    n.getTimeAdvertisement false rand =
      milliseconds (n.maximumFullFilesSeen + 10 + 50 / n.getNumOfFullFiles + 15 * rand) := by
  have hne : n.getNumOfFullFiles ≠ 0 := Nat.one_le_iff_ne_zero.mp hF
  simp only [getTimeAdvertisement, if_neg hne, milliseconds]
  apply congrArg
  simp only [Bool.false_eq_true, ↓reduceIte]
  ring

theorem getTimeRequest_eq (rand : ℚ) :
    n.getTimeRequest rand = milliseconds (n.getNumOfFullFiles + 1 + 10 * rand) := by
  simp only [getTimeRequest, milliseconds]
  apply congrArg
  ring

structure DelayDefined (n : SmsEchoClient) : Prop where
  someFull : 1 ≤ n.getNumOfFullFiles
  atMostAll : n.getNumOfFullFiles ≤ n.files.length
  defined : ∀ start rand, n.getTimeAdvertisement start rand ≠ ⊤
  window : ∀ rand ∈ Set.Icc (0 : ℚ) 1,
    milliseconds (n.maximumFullFilesSeen + 10 + 50 / n.getNumOfFullFiles) ≤
        n.getTimeAdvertisement false rand ∧
      n.getTimeAdvertisement false rand ≤
        milliseconds (n.maximumFullFilesSeen + 25 + 50 / n.getNumOfFullFiles)

theorem delayDefined_of_full (hF : 1 ≤ n.getNumOfFullFiles) : DelayDefined n where
  someFull := hF
  atMostAll := List.countP_le_length
  defined := getTimeAdvertisement_ne_top hF
  window := by
    rintro rand ⟨h0, h1⟩
    rw [getTimeAdvertisement_eq hF, milliseconds_le, milliseconds_le]
    constructor
    · linarith
    · linarith

theorem trace_storeExtends {tr : List Observation} (h : NodeTrace n tr n') :
    StoreExtends n.files n'.files := by
  refine h.invariant (P := fun _ n' => StoreExtends n.files n'.files) (.refl _) ?_
  intro tr u o v hext hstep
  cases hstep with
  | handle hstep hlen =>
    obtain ⟨m, -, -, -, habsorb, -⟩ := handlePacket_cases hstep
    have hgrow : StoreExtends u.files (v.withTimers u.timers).files :=
      absorb_storeExtends ((absorb_length_le habsorb).trans_lt hlen) habsorb
    exact hext.trans hgrow
  | fire he hstep =>
    obtain ⟨-, -, seen, data, rfl⟩ := fire_cases hstep
    exact hext

structure KeepsFullFiles (n n' : SmsEchoClient) : Prop where
  stay : ∀ f ∈ n.files, f.isFull = true →
    ∃ g, n'.entry f.mId = some g ∧ g.toFileSMS = f.toFileSMS ∧ g.isFull = true
  count : n.getNumOfFullFiles ≤ n'.getNumOfFullFiles

theorem keepsFullFiles_of_extends (hn : StoreInv n.files) (hn' : StoreInv n'.files)
    (h : StoreExtends n.files n'.files) : KeepsFullFiles n n' where
  stay f hf hfull := by
    obtain ⟨g, hg, hext⟩ := h f hf
    have hentry : n'.entry g.mId = some g := lookup_of_mem hn'.distinct hg
    have hid : g.mId = f.mId := congrArg FileSMS.mId hext.same
    rw [hid] at hentry
    exact ⟨g, hentry, hext.same, hext.isFull (hn.counters f hf) (hn'.counters g hg) hfull⟩
  count := getNumOfFullFiles_le hn.distinct fun _ => h.fullIn hn.counters hn'.counters

theorem fullFiles_permanent (memory : ℕ) (address : Ipv4Address) (rand : ℚ) {l : List FileSMS}
    (hl : DistinctIds l) (hne : l ≠ []) {tr tr' : List Observation}
    (h : NodeTrace ((boot memory address l).startApplication rand) tr n)
    (h' : NodeTrace n tr' n') : KeepsFullFiles n n' ∧ DelayDefined n := by
  have hn := (freshRequests_trace hl h).store
  have hn' := (freshRequests_trace hl (h.append h')).store
  have hstart : StoreInv ((boot memory address l).startApplication rand).files :=
    storeInv_map_construct hl
  refine ⟨keepsFullFiles_of_extends hn hn' (trace_storeExtends h'), delayDefined_of_full ?_⟩
  -- the files it was given are still there, and there is at least one
  have hgiven : ((boot memory address l).startApplication rand).getNumOfFullFiles = l.length :=
    setFiles_getNumOfFullFiles ((construct memory).setIPAdress address) l
  have hcount := (keepsFullFiles_of_extends hstart hn (trace_storeExtends h)).count
  rw [hgiven] at hcount
  exact (List.length_pos_of_ne_nil hne).trans_le hcount

theorem fullFiles_permanent_witness : KeepsFullFiles listener informed ∧ DelayDefined listener :=
  fullFiles_permanent 0 1 0 (l := [⟨7, 2⟩]) (by decide) (by decide) .nil listener_trace

/-- Whatever the draws, the delay of a request is not above that of the next advertisement. -/
def RequestOutranks (n : SmsEchoClient) : Prop :=
  ∀ rand ∈ Set.Icc (0 : ℚ) 1, ∀ rand' ∈ Set.Icc (0 : ℚ) 1,
    n.getTimeRequest rand ≤ n.getTimeAdvertisement false rand'

def SendFiresLast (n : SmsEchoClient) : Prop :=
  ∀ e ∈ n.timers.pending, ∀ e' ∈ n.timers.pending, e.action ≠ .send → e'.action = .send →
    e.delay ≤ e'.delay

theorem requestOutranks_iff_worst (hF : 1 ≤ n.getNumOfFullFiles) : RequestOutranks n ↔
    (n.getNumOfFullFiles : ℚ) + 1 ≤ n.maximumFullFilesSeen + 50 / n.getNumOfFullFiles := by
  constructor
  · intro h
    have hworst := h 1 ⟨zero_le_one, le_rfl⟩ 0 ⟨le_rfl, zero_le_one⟩
    rw [getTimeRequest_eq, getTimeAdvertisement_eq hF, milliseconds_le] at hworst
    linarith
  · rintro h rand ⟨-, h1⟩ rand' ⟨h0, -⟩
    rw [getTimeRequest_eq, getTimeAdvertisement_eq hF, milliseconds_le]
    linarith

theorem RequestOutranks.sendFiresLast (h : RequestOutranks n') (hrec : n.timers.Recorded)
    {d : Datagram} {rand : ℕ → ℚ} {fl : Flow} (hrand : ∀ i, rand i ∈ Set.Icc (0 : ℚ) 1)
    (hstep : n.handlePacket d rand = .ok (fl, n')) : SendFiresLast n' := by
  intro e he e' he' hne hsend
  have hdelay := (handlePacket_delays hrec hstep e he).resolve_right fun hs => hne hs.1
  obtain ⟨-, i, hi⟩ := (handlePacket_delays hrec hstep e' he').resolve_left fun hs => hs.1 hsend
  rw [hi]
  rcases hdelay.2 with hzero | hrequest
  · have hpos : milliseconds 0 ≤ n'.getTimeRequest 0 := by
      rw [getTimeRequest_eq, milliseconds_le]
      positivity
    have hnull : milliseconds 0 = 0 := by simp [milliseconds]
    rw [hzero, ← hnull]
    exact hpos.trans (h 0 ⟨le_rfl, zero_le_one⟩ _ (hrand i))
  · rw [hrequest]
    exact h _ (hrand 0) _ (hrand i)

/-- With at most 50 full files, or more of them seen elsewhere, a request goes before the
advertisement scheduled with it; otherwise there are draws with which it goes after it. -/
theorem requestOutranks_iff (hF : 1 ≤ n.getNumOfFullFiles)
    (hM : n.getNumOfFullFiles ≤ n.maximumFullFilesSeen) :
    (RequestOutranks n ↔
      n.getNumOfFullFiles ≤ 50 ∨ n.getNumOfFullFiles < n.maximumFullFilesSeen) ∧
    (RequestOutranks n → ∀ (n₀ : SmsEchoClient) (d : Datagram) (rand : ℕ → ℚ) (fl : Flow),
      n₀.timers.Recorded → (∀ i, rand i ∈ Set.Icc (0 : ℚ) 1) →
      n₀.handlePacket d rand = .ok (fl, n) → SendFiresLast n) := by
  refine ⟨?_, fun h n₀ d rand fl hrec hrand hstep => h.sendFiresLast hrec hrand hstep⟩
  rw [requestOutranks_iff_worst hF]
  have hpos : (0 : ℚ) < n.getNumOfFullFiles := by exact_mod_cast hF
  have hM' : (n.getNumOfFullFiles : ℚ) ≤ n.maximumFullFilesSeen := by exact_mod_cast hM
  constructor
  · intro h
    by_contra hnot
    rw [not_or, not_le, not_lt] at hnot
    -- then the two numbers are equal, and the quotient is below 1
    have heq : (n.maximumFullFilesSeen : ℚ) = n.getNumOfFullFiles := by
      exact_mod_cast le_antisymm hnot.2 hM
    have hmany : (50 : ℚ) < n.getNumOfFullFiles := by exact_mod_cast hnot.1
    have hquot : 50 / (n.getNumOfFullFiles : ℚ) < 1 := (div_lt_one hpos).mpr hmany
    linarith
  · rintro (hfew | hmore)
    · have hfew' : (n.getNumOfFullFiles : ℚ) ≤ 50 := by exact_mod_cast hfew
      have hquot : 1 ≤ 50 / (n.getNumOfFullFiles : ℚ) := (one_le_div hpos).mpr hfew'
      linarith
    · have hmore' : (n.getNumOfFullFiles : ℚ) + 1 ≤ n.maximumFullFilesSeen := by
        exact_mod_cast hmore
      have hquot : 0 ≤ 50 / (n.getNumOfFullFiles : ℚ) := by positivity
      linarith

theorem requestOutranks_iff_witness : RequestOutranks listener :=
  (requestOutranks_iff (n := listener) (by decide) (by decide)).1.mpr (Or.inl (by decide))

def fiftyOne : List FileSMS := (List.range 51).map fun i => ⟨UInt32.ofNat i, 1000⟩

theorem not_requestOutranks_fiftyOne :
    1 ≤ (boot 0 1 fiftyOne).getNumOfFullFiles ∧
      (boot 0 1 fiftyOne).getNumOfFullFiles ≤ (boot 0 1 fiftyOne).maximumFullFilesSeen ∧
      ¬ RequestOutranks (boot 0 1 fiftyOne) := by
  have hlen : fiftyOne.length = 51 := by simp [fiftyOne]
  have hF : (boot 0 1 fiftyOne).getNumOfFullFiles = 51 :=
    (setFiles_getNumOfFullFiles ((construct 0).setIPAdress 1) fiftyOne).trans hlen
  have hM : (boot 0 1 fiftyOne).maximumFullFilesSeen = 51 := by
    change max 0 fiftyOne.length = 51
    rw [hlen]
    rfl
  refine ⟨by rw [hF]; decide, by rw [hF, hM], fun h => ?_⟩
  have hworst := (requestOutranks_iff_worst (by rw [hF]; decide)).mp h
  rw [hF, hM] at hworst
  norm_num at hworst

end SmsEchoClient
end SmsEcho
