import SmsEcho.Client.AdvertisementDelay
import SmsEcho.Client.MaximumSeen

/-! When the events that a packet arms are due, counted from the packet, and how the delays of
the three kinds of events compare while files are few. -/

namespace SmsEcho
open ByteBuffer PartialRun KeyedList LabelledTrace SmsEchoClient

/-- The quotients `(double) std::rand() / RAND_MAX`. -/
def Draws (rand : ℕ → ℚ) : Prop := ∀ i, rand i ∈ Set.Icc (0 : ℚ) 1

namespace SmsEchoClient

section Scheduled
variable {n n' : SmsEchoClient} {d : Datagram} {m : Message} {rand : ℕ → ℚ} {fl : Flow}

theorem handlePacket_scheduled (hrec : n.timers.Recorded) (hm : Message.parse d.bytes = .ok m)
    (h : n.handlePacket d rand = .ok (fl, n')) {e : Event Delay Action}
    (he : e ∈ n'.timers.pending) : n.timers.simulator.nextUid ≤ e.uid ∧
      (n'.followUp d.sender m = some e.action ∧ e.delay = n'.followUpDelay rand m ∨
        e.action = .send ∧ ∃ i, e.delay = n'.getTimeAdvertisement false (rand i)) := by
  obtain ⟨m', hm', -, htimers⟩ := handlePacket_armed h
  obtain rfl : m = m' := Except.ok.inj (hm.symm.trans hm')
  rw [htimers, Timers.arm_pending (Timers.cancelAllEvents_pending hrec), List.mem_append,
    List.mem_map, List.mem_singleton, Timers.cancelAllEvents_nextUid] at he
  rcases he with ⟨a, ha, rfl⟩ | rfl
  · exact ⟨le_rfl, Or.inl ⟨Option.mem_toList.mp ha, rfl⟩⟩
  · exact ⟨Nat.le_add_right _ _, Or.inr ⟨rfl, _, rfl⟩⟩

theorem exists_scheduled_followUp (hrec : n.timers.Recorded) (hm : Message.parse d.bytes = .ok m)
    (h : n.handlePacket d rand = .ok (fl, n')) {a : Action} (ha : n'.followUp d.sender m = some a) :
    ∃ e ∈ n'.timers.pending, e.action = a ∧ e.delay = n'.followUpDelay rand m := by
  obtain ⟨m', hm', -, htimers⟩ := handlePacket_armed h
  obtain rfl : m = m' := Except.ok.inj (hm.symm.trans hm')
  rw [htimers, Timers.arm_pending (Timers.cancelAllEvents_pending hrec), ha]
  exact ⟨_, List.mem_append_left _ (List.mem_singleton_self _), rfl, rfl⟩

end Scheduled

section Delays
variable {n : SmsEchoClient} {r r' : ℚ}

theorem milliseconds_lt {x y : ℚ} : milliseconds x < milliseconds y ↔ x < y := by
  rw [← not_le, ← not_le, milliseconds_le]

theorem milliseconds_zero : milliseconds 0 = 0 := by simp [milliseconds]

theorem getTimeAdvertisement_start_eq (hF : 1 ≤ n.getNumOfFullFiles) (rand : ℚ) :
    n.getTimeAdvertisement true rand = milliseconds (50 / n.getNumOfFullFiles + 15 * rand) := by
  have hne : n.getNumOfFullFiles ≠ 0 := Nat.one_le_iff_ne_zero.mp hF
  simp only [getTimeAdvertisement, if_neg hne, milliseconds, if_true]
  apply congrArg
  ring

theorem getTimeAdvertisement_start_le (hF : 1 ≤ n.getNumOfFullFiles)
    (hr : r ∈ Set.Icc (0 : ℚ) 1) : n.getTimeAdvertisement true r ≤ milliseconds 65 := by
  rw [getTimeAdvertisement_start_eq hF, milliseconds_le]
  have hF' : (1 : ℚ) ≤ n.getNumOfFullFiles := by exact_mod_cast hF
  have hquot := div_le_self (show (0 : ℚ) ≤ 50 by norm_num) hF'
  obtain ⟨-, h1⟩ := hr
  linarith

theorem lt_getTimeAdvertisement {x : ℚ} (hM : n.getNumOfFullFiles ≤ n.maximumFullFilesSeen)
    (hr : r ∈ Set.Icc (0 : ℚ) 1)
    (hx : 0 < n.getNumOfFullFiles → x < n.getNumOfFullFiles + 10 + 50 / n.getNumOfFullFiles) :
    milliseconds x < n.getTimeAdvertisement false r := by
  by_cases hF : n.getNumOfFullFiles = 0
  · simp only [getTimeAdvertisement, if_pos hF]
    exact WithTop.coe_lt_top _
  · have hpos := Nat.pos_of_ne_zero hF
    rw [getTimeAdvertisement_eq hpos, milliseconds_lt]
    have hM' : (n.getNumOfFullFiles : ℚ) ≤ n.maximumFullFilesSeen := by exact_mod_cast hM
    have hlow := hx hpos
    obtain ⟨h0, -⟩ := hr
    linarith

theorem getTimeAdvertisement_pos (hM : n.getNumOfFullFiles ≤ n.maximumFullFilesSeen)
    (hr : r ∈ Set.Icc (0 : ℚ) 1) : 0 < n.getTimeAdvertisement false r := by
  rw [← milliseconds_zero]
  refine lt_getTimeAdvertisement hM hr fun hF => ?_
  positivity

theorem getTimeAdvertisement_nonneg (hr : r ∈ Set.Icc (0 : ℚ) 1) :
    0 ≤ n.getTimeAdvertisement false r := by
  by_cases hF : n.getNumOfFullFiles = 0
  · simp only [getTimeAdvertisement, if_pos hF]
    exact le_top
  · rw [getTimeAdvertisement_eq (Nat.pos_of_ne_zero hF), ← milliseconds_zero, milliseconds_le]
    obtain ⟨h0, -⟩ := hr
    positivity

theorem twentyFour_lt_getTimeAdvertisement (hM : n.getNumOfFullFiles ≤ n.maximumFullFilesSeen)
    (hr : r ∈ Set.Icc (0 : ℚ) 1) : milliseconds 24 < n.getTimeAdvertisement false r := by
  refine lt_getTimeAdvertisement hM hr fun hF => ?_
  have hpos : (0 : ℚ) < n.getNumOfFullFiles := by exact_mod_cast hF
  have hsquare : 0 ≤ ((n.getNumOfFullFiles : ℚ) - 7) ^ 2 := sq_nonneg _
  have hquot : 50 / (n.getNumOfFullFiles : ℚ) =
      ((n.getNumOfFullFiles - 7) ^ 2 + 1) / n.getNumOfFullFiles - n.getNumOfFullFiles + 14 := by
    field_simp
    ring
  have hless : 0 < (((n.getNumOfFullFiles : ℚ) - 7) ^ 2 + 1) / n.getNumOfFullFiles := by positivity
  rw [hquot]
  linarith

theorem getTimeRequest_le_twentyFour (hF : n.getNumOfFullFiles ≤ 13) (hr : r ∈ Set.Icc (0 : ℚ) 1) :
    n.getTimeRequest r ≤ milliseconds 24 := by
  rw [getTimeRequest_eq, milliseconds_le]
  have hF' : (n.getNumOfFullFiles : ℚ) ≤ 13 := by exact_mod_cast hF
  obtain ⟨-, h1⟩ := hr
  linarith

theorem getTimeRequest_lt_getTimeAdvertisement (hF : n.getNumOfFullFiles < 50)
    (hM : n.getNumOfFullFiles ≤ n.maximumFullFilesSeen) (hr : r ∈ Set.Icc (0 : ℚ) 1)
    (hr' : r' ∈ Set.Icc (0 : ℚ) 1) : n.getTimeRequest r < n.getTimeAdvertisement false r' := by
  rw [getTimeRequest_eq]
  refine lt_getTimeAdvertisement hM hr' fun hpos => ?_
  have hpos' : (0 : ℚ) < n.getNumOfFullFiles := by exact_mod_cast hpos
  have hF' : (n.getNumOfFullFiles : ℚ) < 50 := by exact_mod_cast hF
  have hquot : 1 < 50 / (n.getNumOfFullFiles : ℚ) := (one_lt_div hpos').mpr hF'
  obtain ⟨-, h1⟩ := hr
  linarith

theorem followUpDelay_nonneg {rand : ℕ → ℚ} (hrand : Draws rand) (m : Message) :
    0 ≤ n.followUpDelay rand m := by
  cases m with
  | advertisement ps =>
    obtain ⟨h0, -⟩ := hrand 0
    rw [followUpDelay, getTimeRequest_eq, ← milliseconds_zero, milliseconds_le]
    positivity
  | request q => exact le_rfl
  | reply hd => exact le_rfl

end Delays

theorem fullOnArrival_eq_zero {ps : List (UInt16 × UInt16)} (h : ∀ p ∈ ps, p.2 ≠ 0)
    (known : List UInt32) : fullOnArrival known ps = 0 := by
  induction ps generalizing known with
  | nil => rfl
  | cons p ps ih =>
    obtain ⟨hp, hps⟩ := List.forall_mem_cons.mp h
    rw [fullOnArrival, if_neg hp, ih hps, ih hps, zero_add, ite_self]

theorem advertisedPairs_length_le (n : SmsEchoClient) :
    n.advertisedPairs.length ≤ n.getNumOfFullFiles := by
  rw [← fullFiles_length, ← List.length_map filePair]
  exact List.length_take_le' ..

theorem Learns.noted {n n' : SmsEchoClient} {heard : Option (Ipv4Address × Message)}
    (h : Learns n n' heard) (hn : n.getNumOfFullFiles ≤ n.maximumFullFilesSeen)
    (hpos : ∀ sender ps, heard = some (sender, .advertisement ps) → ∀ p ∈ ps, p.2 ≠ 0) :
    n'.getNumOfFullFiles ≤ n'.maximumFullFilesSeen := by
  cases h with
  | @advertisement sender ps hfiles hseen hmax =>
    have hcount : n'.getNumOfFullFiles = n.getNumOfFullFiles := by
      unfold getNumOfFullFiles
      rw [hfiles, countP_foldl_noteAdvertised, fullOnArrival_eq_zero (hpos sender ps rfl), add_zero]
    rw [hcount, hmax]
    exact hn.trans (le_max_left _ _)
  | request hfiles hseen hmax =>
    rw [getNumOfFullFiles_congr hfiles, hmax]
    exact hn
  | repeated hindex hhas hfiles hseen hmax =>
    rw [getNumOfFullFiles_congr hfiles, hmax]
    exact hn
  | stored hindex hc hnew hfiles hseen hmax =>
    rw [hmax]
    exact le_max_right _ _
  | spoke hfiles hseen hmax =>
    rw [getNumOfFullFiles_congr hfiles]
    rcases hmax with hmax | hmax
    · rwa [hmax]
    · rw [hmax]
      exact hn.trans (le_max_left _ _)

theorem Learns.maximumFullFilesSeen_le {n n' : SmsEchoClient}
    {heard : Option (Ipv4Address × Message)} {M : ℕ} (h : Learns n n' heard)
    (hn : n.maximumFullFilesSeen ≤ M) (hown : n.getNumOfFullFiles ≤ M)
    (hown' : n'.getNumOfFullFiles ≤ M)
    (hps : ∀ sender ps, heard = some (sender, .advertisement ps) → ps.length ≤ M) :
    n'.maximumFullFilesSeen ≤ M := by
  cases h with
  | advertisement hfiles hseen hmax =>
    rw [hmax]
    exact max_le hn (hps _ _ rfl)
  | request hfiles hseen hmax => rwa [hmax]
  | repeated hindex hhas hfiles hseen hmax => rwa [hmax]
  | stored hindex hc hnew hfiles hseen hmax =>
    rw [hmax]
    exact max_le hn hown'
  | spoke hfiles hseen hmax =>
    rcases hmax with hmax | hmax
    · rwa [hmax]
    · rw [hmax]
      exact max_le hn hown

end SmsEchoClient
end SmsEcho
