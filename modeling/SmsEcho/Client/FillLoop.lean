import SmsEcho.General.WhileLoop
import SmsEcho.Client.NodeState

/-! The three `SetFill`s, with their sizes as they are declared. The loop of the last one is
compared with a closed form. -/

namespace SmsEcho
open ByteBuffer PartialRun WhileLoop

def cycle (fill : Bytes) (size : ℕ) : Bytes :=
  (List.range size).map fun i => fill.getD (i % fill.length) 0

theorem take_eq_map_getD (fill : Bytes) {r : ℕ} (hr : r ≤ fill.length) :
    fill.take r = (List.range r).map fun i => fill.getD i 0 := by
  apply List.ext_getElem
  · simp [hr]
  · intro i hi hi'
    have hlt : i < fill.length := hi.trans_le (List.length_take_le' ..)
    rw [List.getElem_take, List.getElem_map, List.getElem_range, List.getD_eq_getElem _ _ hlt]

theorem cycle_of_le {fill : Bytes} {r : ℕ} (hr : r ≤ fill.length) : cycle fill r = fill.take r := by
  rw [take_eq_map_getD fill hr]
  apply List.map_congr_left
  intro i hi
  rw [Nat.mod_eq_of_lt ((List.mem_range.mp hi).trans_le hr)]

theorem cycle_add {fill : Bytes} {m r : ℕ} (hdvd : fill.length ∣ m) (hr : r ≤ fill.length) :
    cycle fill (m + r) = cycle fill m ++ fill.take r := by
  obtain ⟨q, rfl⟩ := hdvd
  rw [take_eq_map_getD fill hr]
  unfold cycle
  rw [List.range_add, List.map_append, List.map_map]
  apply congrArg
  apply List.map_congr_left
  intro i hi
  have hlt : i < fill.length := (List.mem_range.mp hi).trans_le hr
  rw [Function.comp_apply, Nat.mul_add_mod, Nat.mod_eq_of_lt hlt]

/-- A `memcpy` that reads no more than there is. -/
def copyFrom (dst : Bytes) (offset : ℕ) (src : Bytes) (size : ℕ) : Except Fault Bytes :=
  if size ≤ src.length then orFault .outOfBounds (memcpy dst offset (src.take size))
  else .error .outOfBounds

namespace SmsEchoClient

/-- `delete [] m_data; m_data = new uint8_t [dataSize];`, if the size is another one. -/
def resizeData (n : SmsEchoClient) (dataSize : UInt32) (fresh : ℕ → UInt8) : Bytes :=
  if dataSize.toNat ≠ n.mData.length then malloc fresh dataSize.toNat else n.mData

/-- `SetFill (std::string)`; the `c_str ()` ends with a zero. -/
def setFillString (n : SmsEchoClient) (fill : Bytes) (fresh : ℕ → UInt8) :
    Except Fault SmsEchoClient := do
  let dataSize := UInt32.ofNat (fill.length + 1)
  let mData ← copyFrom (n.resizeData dataSize fresh) 0 (fill ++ [0]) dataSize.toNat
  return { n with mData }

/-- `SetFill (uint8_t, uint32_t)` -/
def setFillByte (n : SmsEchoClient) (fill : UInt8) (dataSize : UInt32) (fresh : ℕ → UInt8) :
    Except Fault SmsEchoClient := do
  let mData ← copyFrom (n.resizeData dataSize fresh) 0 (List.replicate dataSize.toNat fill)
    dataSize.toNat
  return { n with mData }

structure FillState where
  mData : Bytes
  filled : UInt32

/-- The sum is a `uint32_t`. -/
def fillGuard (fillSize dataSize : UInt32) (s : FillState) : Bool := s.filled + fillSize < dataSize

def fillBody (fill : Bytes) (fillSize : UInt32) (s : FillState) : Except Fault FillState := do
  let mData ← copyFrom s.mData s.filled.toNat fill fillSize.toNat
  return { mData, filled := s.filled + fillSize }

/-- `SetFill (uint8_t *, uint32_t, uint32_t)`, where its loop makes fewer than `rounds` rounds. -/
def setFillBytes (n : SmsEchoClient) (fill : Bytes) (fillSize dataSize : UInt32)
    (fresh : ℕ → UInt8) (rounds : ℕ) : Except Fault (Option SmsEchoClient) := do
  let mData := n.resizeData dataSize fresh
  if fillSize ≥ dataSize then
    let mData ← copyFrom mData 0 fill dataSize.toNat
    return some { n with mData }
  else
    match ← whileLoop (fillGuard fillSize dataSize) (fillBody fill fillSize) rounds ⟨mData, 0⟩ with
    | none => return none
    | some s =>
      let mData ← copyFrom s.mData s.filled.toNat fill (dataSize - s.filled).toNat
      return some { n with mData }

/-- What the last `SetFill` comes to, where it ends. -/
def setFill (n : SmsEchoClient) (fill : Bytes) (dataSize : ℕ) : SmsEchoClient :=
  if dataSize ≤ fill.length then { n with mData := fill.take dataSize }
  else { n with mData := (List.range dataSize).map fun i => fill.getD (i % fill.length) 0 }

theorem resizeData_length (n : SmsEchoClient) (dataSize : UInt32) (fresh : ℕ → UInt8) :
    (n.resizeData dataSize fresh).length = dataSize.toNat := by
  unfold resizeData
  split_ifs with h
  · exact malloc_length fresh _
  · exact (not_not.mp h).symm

theorem setFill_eq (n : SmsEchoClient) (fill : Bytes) (dataSize : ℕ) :
    n.setFill fill dataSize = { n with mData := cycle fill dataSize } := by
  unfold setFill
  split_ifs with h
  · rw [cycle_of_le h]
  · rfl

end SmsEchoClient

section Copy
variable {dst dst' src : Bytes} {offset size : ℕ}

theorem bounds_of_copyFrom (h : copyFrom dst offset src size = .ok dst') :
    size ≤ src.length ∧ offset + size ≤ dst.length := by
  unfold copyFrom at h
  split_ifs at h with hsize
  refine ⟨hsize, ?_⟩
  by_contra hlong
  rw [memcpy, List.length_take_of_le hsize, if_neg hlong] at h
  exact absurd h (by simp [orFault])

theorem copyFrom_whole (hdst : dst.length = size) (hsize : size ≤ src.length) :
    copyFrom dst 0 src size = .ok (src.take size) := by
  have hlen : (src.take size).length = size := List.length_take_of_le hsize
  rw [copyFrom, if_pos hsize, memcpy, hlen, if_pos (by omega), Nat.zero_add, ← hdst,
    List.drop_length, List.append_nil]
  rfl

theorem copyFrom_cycle (size : ℕ) (hcycle : dst.take offset = cycle src offset)
    (hdvd : src.length ∣ offset) (hsize : size ≤ src.length) (hfits : offset + size ≤ dst.length) :
    ∃ dst', copyFrom dst offset src size = .ok dst' ∧ dst'.length = dst.length ∧
      dst'.take (offset + size) = cycle src (offset + size) := by
  have hlen : (src.take size).length = size := List.length_take_of_le hsize
  refine ⟨dst.take offset ++ (src.take size ++ dst.drop (offset + size)), ?_, ?_, ?_⟩
  · unfold copyFrom memcpy
    rw [if_pos hsize, hlen, if_pos hfits]
    rfl
  · simp only [List.length_append, List.length_take, List.length_drop]
    omega
  · have hfront : (dst.take offset ++ src.take size).length = offset + size := by
      rw [List.length_append, hlen, List.length_take_of_le (by omega)]
    rw [← List.append_assoc, List.take_left' hfront, cycle_add hdvd hsize, hcycle]

end Copy

/-- Counting on from `dataSize` to the next multiple of `fillSize` stays within 32 bits. -/
def RoundsUp (fillSize dataSize : UInt32) : Prop :=
  0 < fillSize.toNat ∧ ((dataSize.toNat - 1) / fillSize.toNat + 1) * fillSize.toNat < 2 ^ 32

instance (fillSize dataSize : UInt32) : Decidable (RoundsUp fillSize dataSize) :=
  inferInstanceAs (Decidable (_ ∧ _))

namespace SmsEchoClient

structure FillInv (fill : Bytes) (dataSize : UInt32) (s : FillState) : Prop where
  whole : fill.length ∣ s.filled.toNat
  bound : s.filled.toNat < dataSize.toNat
  length : s.mData.length = dataSize.toNat
  content : s.mData.take s.filled.toNat = cycle fill s.filled.toNat

section Loop
variable {fill : Bytes} {fillSize dataSize : UInt32} (hfill : fill.length = fillSize.toNat)
  {s s' : FillState}
include hfill

theorem FillInv.roundsUp_bound (h : FillInv fill dataSize s) (hup : RoundsUp fillSize dataSize) :
    s.filled.toNat + fillSize.toNat < 2 ^ 32 := by
  obtain ⟨hpos, hfits⟩ := hup
  obtain ⟨i, hi⟩ := h.whole
  rw [hfill] at hi
  have hle : i ≤ (dataSize.toNat - 1) / fillSize.toNat := by
    rw [Nat.le_div_iff_mul_le hpos, Nat.mul_comm, ← hi]
    exact Nat.le_sub_one_of_lt h.bound
  calc s.filled.toNat + fillSize.toNat = (i + 1) * fillSize.toNat := by rw [hi]; ring
    _ ≤ ((dataSize.toNat - 1) / fillSize.toNat + 1) * fillSize.toNat :=
      Nat.mul_le_mul_right _ (Nat.succ_le_succ hle)
    _ < 2 ^ 32 := hfits

theorem FillInv.of_guard_false (h : FillInv fill dataSize s)
    (hguard : fillGuard fillSize dataSize s = false) :
    RoundsUp fillSize dataSize ∧ dataSize.toNat ≤ s.filled.toNat + fillSize.toNat := by
  have hsum : dataSize.toNat ≤ (s.filled.toNat + fillSize.toNat) % 2 ^ 32 := by
    have hnot := of_decide_eq_false hguard
    rwa [UInt32.lt_iff_toNat_lt, UInt32.toNat_add, not_lt] at hnot
  have hbound := h.bound
  have hfilled := s.filled.toNat_lt
  have hsize := fillSize.toNat_lt
  have hnowrap : s.filled.toNat + fillSize.toNat < 2 ^ 32 := by omega
  rw [Nat.mod_eq_of_lt hnowrap] at hsum
  have hpos : 0 < fillSize.toNat := by omega
  obtain ⟨i, hi⟩ := h.whole
  rw [hfill] at hi
  have hquot : (dataSize.toNat - 1) / fillSize.toNat = i := by
    apply Nat.div_eq_of_lt_le
    · rw [Nat.mul_comm, ← hi]
      omega
    · rw [Nat.add_mul, Nat.mul_comm i, ← hi]
      omega
  refine ⟨⟨hpos, ?_⟩, hsum⟩
  rw [hquot, Nat.add_mul, Nat.mul_comm i, ← hi, Nat.one_mul]
  exact hnowrap

theorem FillInv.body (h : FillInv fill dataSize s) (hguard : fillGuard fillSize dataSize s = true)
    (hfits : s.filled.toNat + fillSize.toNat < 2 ^ 32) : ∃ s', fillBody fill fillSize s = .ok s' ∧
      FillInv fill dataSize s' ∧ s'.filled.toNat = s.filled.toNat + fillSize.toNat := by
  have hnext : (s.filled + fillSize).toNat = s.filled.toNat + fillSize.toNat := by
    rw [UInt32.toNat_add, Nat.mod_eq_of_lt hfits]
  have hless : s.filled.toNat + fillSize.toNat < dataSize.toNat := by
    have hlt := of_decide_eq_true hguard
    rwa [UInt32.lt_iff_toNat_lt, hnext] at hlt
  obtain ⟨dst, hdst, hlen, hcontent⟩ := copyFrom_cycle fillSize.toNat h.content h.whole hfill.ge
    (by rw [h.length]; exact hless.le)
  have hbody : fillBody fill fillSize s = .ok ⟨dst, s.filled + fillSize⟩ := by
    rw [fillBody, hdst, ok_bind]
    rfl
  refine ⟨_, hbody, ⟨?_, ?_, ?_, ?_⟩, hnext⟩
  · rw [hnext]
    exact h.whole.add hfill.dvd
  · rwa [hnext]
  · exact hlen.trans h.length
  · rwa [hnext]

theorem FillInv.of_body (h : FillInv fill dataSize s)
    (hguard : fillGuard fillSize dataSize s = true) (hbody : fillBody fill fillSize s = .ok s') :
    FillInv fill dataSize s' := by
  obtain ⟨dst, hdst, -⟩ := bind_eq_ok.mp hbody
  obtain ⟨-, hinside⟩ := bounds_of_copyFrom hdst
  rw [h.length] at hinside
  obtain ⟨s'', hs'', hinv, -⟩ := h.body hfill hguard (hinside.trans_lt dataSize.toNat_lt)
  obtain rfl : s'' = s' := Except.ok.inj (hs''.symm.trans hbody)
  exact hinv

theorem FillInv.last (h : FillInv fill dataSize s)
    (hguard : fillGuard fillSize dataSize s = false) :
    copyFrom s.mData s.filled.toNat fill (dataSize - s.filled).toNat =
      .ok (cycle fill dataSize.toNat) := by
  obtain ⟨-, hend⟩ := h.of_guard_false hfill hguard
  have hle : s.filled.toNat ≤ dataSize.toNat := h.bound.le
  have hrest : (dataSize - s.filled).toNat = dataSize.toNat - s.filled.toNat :=
    UInt32.toNat_sub_of_le _ _ (UInt32.le_iff_toNat_le.mpr hle)
  have hall : s.filled.toNat + (dataSize.toNat - s.filled.toNat) = dataSize.toNat := by omega
  obtain ⟨dst, hdst, hlen, hcontent⟩ := copyFrom_cycle (dataSize - s.filled).toNat
    h.content h.whole (by omega) (by rw [h.length]; omega)
  rw [hrest, hall, ← h.length, ← hlen, List.take_length] at hcontent
  rw [hdst, hcontent, hlen, h.length]

end Loop

theorem fillInv_start (n : SmsEchoClient) (fill : Bytes) {dataSize : UInt32}
    (hpos : 0 < dataSize.toNat) (fresh : ℕ → UInt8) :
    FillInv fill dataSize ⟨n.resizeData dataSize fresh, 0⟩ where
  whole := Nat.dvd_zero _
  bound := hpos
  length := n.resizeData_length dataSize fresh
  content := rfl

theorem setFillString_eq (n : SmsEchoClient) {fill : Bytes} (hfits : fill.length + 1 < 2 ^ 32)
    (fresh : ℕ → UInt8) :
    n.setFillString fill fresh = .ok { n with mData := fill ++ [0] } := by
  have hsize : (UInt32.ofNat (fill.length + 1)).toNat = (fill ++ [0]).length := by
    rw [UInt32.toNat_ofNat', Nat.mod_eq_of_lt hfits, List.length_append, List.length_singleton]
  rw [setFillString, copyFrom_whole (n.resizeData_length _ fresh) hsize.le, ok_bind, hsize,
    List.take_length]
  rfl

theorem setFillByte_eq (n : SmsEchoClient) (fill : UInt8) (dataSize : UInt32)
    (fresh : ℕ → UInt8) : n.setFillByte fill dataSize fresh =
      .ok { n with mData := List.replicate dataSize.toNat fill } := by
  have hlen : (List.replicate dataSize.toNat fill).length = dataSize.toNat := List.length_replicate
  rw [setFillByte, copyFrom_whole (n.resizeData_length _ fresh) hlen.ge, ok_bind,
    List.take_of_length_le hlen.le]
  rfl

section Fill
variable (n : SmsEchoClient) {fill : Bytes} {fillSize dataSize : UInt32}
  (hfill : fill.length = fillSize.toNat) (fresh : ℕ → UInt8) {rounds : ℕ} {n' : SmsEchoClient}
include hfill

theorem setFillBytes_of_le (h : dataSize ≤ fillSize) :
    n.setFillBytes fill fillSize dataSize fresh rounds =
      .ok (some (n.setFill fill dataSize.toNat)) := by
  have hle : dataSize.toNat ≤ fill.length := by
    rw [hfill]
    exact UInt32.le_iff_toNat_le.mp h
  rw [setFillBytes, if_pos h, copyFrom_whole (n.resizeData_length dataSize fresh) hle, ok_bind,
    setFill_eq, cycle_of_le hle]
  rfl

theorem setFillBytes_eq_some_iff (h : ¬ dataSize ≤ fillSize) :
    n.setFillBytes fill fillSize dataSize fresh rounds = .ok (some n') ↔
      (∃ t, whileLoop (fillGuard fillSize dataSize) (fillBody fill fillSize) rounds
        ⟨n.resizeData dataSize fresh, 0⟩ = .ok (some t)) ∧ n' = n.setFill fill dataSize.toNat := by
  have hpos : 0 < dataSize.toNat := by
    rw [UInt32.le_iff_toNat_le] at h
    omega
  have hafter : ∀ t, whileLoop (fillGuard fillSize dataSize) (fillBody fill fillSize) rounds
      ⟨n.resizeData dataSize fresh, 0⟩ = .ok (some t) →
      n.setFillBytes fill fillSize dataSize fresh rounds =
        .ok (some (n.setFill fill dataSize.toNat)) := by
    intro t ht
    obtain ⟨hinv, hguard⟩ := whileLoop_invariant (P := FillInv fill dataSize)
      (fun s s' hs hg hb => hs.of_body hfill hg hb) ht
      (fillInv_start n fill hpos fresh)
    rw [setFillBytes, if_neg h, ht, ok_bind]
    dsimp only
    rw [hinv.last hfill hguard, ok_bind, setFill_eq]
    rfl
  constructor
  · intro hrun
    have hsome : ∃ t, whileLoop (fillGuard fillSize dataSize) (fillBody fill fillSize) rounds
        ⟨n.resizeData dataSize fresh, 0⟩ = .ok (some t) := by
      rw [setFillBytes, if_neg h] at hrun
      obtain ⟨r, hr, hrest⟩ := bind_eq_ok.mp hrun
      cases r with
      | none => exact absurd (Except.ok.inj hrest) (by simp)
      | some t => exact ⟨t, hr⟩
    obtain ⟨t, ht⟩ := hsome
    exact ⟨⟨t, ht⟩, (Option.some.inj (Except.ok.inj ((hafter t ht).symm.trans hrun))).symm⟩
  · rintro ⟨⟨t, ht⟩, rfl⟩
    exact hafter t ht

/-- `SetFill` ends, and stays inside its buffers, if the fill is as long as the data, or else if it
is not empty and the loop's sum cannot wrap; and exactly then. Where it ends it has filled the data
with copies of the fill. -/
theorem setFillBytes_ends_iff :
    ((∃ rounds n', n.setFillBytes fill fillSize dataSize fresh rounds = .ok (some n')) ↔
      dataSize ≤ fillSize ∨ RoundsUp fillSize dataSize) ∧
    ∀ rounds n', n.setFillBytes fill fillSize dataSize fresh rounds = .ok (some n') →
      n' = n.setFill fill dataSize.toNat := by
  by_cases h : dataSize ≤ fillSize
  · have hrun : ∀ rounds, n.setFillBytes fill fillSize dataSize fresh rounds =
        .ok (some (n.setFill fill dataSize.toNat)) := fun _ => n.setFillBytes_of_le hfill fresh h
    refine ⟨⟨fun _ => Or.inl h, fun _ => ⟨0, _, hrun 0⟩⟩, fun rounds n' hn' => ?_⟩
    exact (Option.some.inj (Except.ok.inj ((hrun rounds).symm.trans hn'))).symm
  · have hpos : 0 < dataSize.toNat := by
      rw [UInt32.le_iff_toNat_le] at h
      omega
    have hstart := fillInv_start n fill hpos fresh
    refine ⟨⟨?_, fun hup => ?_⟩, fun rounds n' hn' =>
      ((n.setFillBytes_eq_some_iff hfill fresh h).mp hn').2⟩
    · rintro ⟨rounds, n', hn'⟩
      obtain ⟨⟨t, ht⟩, -⟩ := (n.setFillBytes_eq_some_iff hfill fresh h).mp hn'
      obtain ⟨hinv, hguard⟩ := whileLoop_invariant (P := FillInv fill dataSize)
        (fun s s' hs hg hb => hs.of_body hfill hg hb) ht hstart
      exact Or.inr (hinv.of_guard_false hfill hguard).1
    · have hup := hup.resolve_left h
      -- each round fills at least one more byte
      obtain ⟨t, ht, -⟩ := whileLoop_ends (fun s : FillState => dataSize.toNat - s.filled.toNat)
        (fun s hs hg => by
          obtain ⟨s', hs', hinv, hnext⟩ := hs.body hfill hg (hs.roundsUp_bound hfill hup)
          have hbound := hs.bound
          have hmore := hup.1
          exact ⟨s', hs', hinv, by omega⟩) hstart (Nat.lt_succ_self _)
      exact ⟨_, _, (n.setFillBytes_eq_some_iff hfill fresh h).mpr ⟨⟨t, ht⟩, rfl⟩⟩

end Fill

theorem setFillBytes_ends_iff_witness :
    (∃ rounds n', (construct 0).setFillBytes [1, 2] 2 5 (fun _ => 9) rounds = .ok (some n')) ∧
      ¬ ∃ rounds n', (construct 0).setFillBytes [] 0 5 (fun _ => 9) rounds = .ok (some n') := by
  constructor
  · exact ((construct 0).setFillBytes_ends_iff rfl fun _ => 9).1.mpr (Or.inr (by decide))
  · intro hends
    have hempty : ([] : Bytes).length = (0 : UInt32).toNat := rfl
    have hcond := ((construct 0).setFillBytes_ends_iff hempty fun _ => 9).1.mp hends
    exact absurd hcond (by decide)

end SmsEchoClient
end SmsEcho
