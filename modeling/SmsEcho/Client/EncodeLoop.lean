import SmsEcho.General.WhileLoop
import SmsEcho.Client.Store

/-! `GetNumOfFullFiles` and the two-cursor loop of `EncodeFilesForAdv`, with their counters as
they are declared. -/

namespace SmsEcho
open ByteBuffer PartialRun WhileLoop SmsEchoClient

def filePair (f : FileSMSChunks) : UInt16 × UInt16 := (f.mId.toUInt16, f.mFileSize.toUInt16)

def SmsEchoClient.fullFiles (n : SmsEchoClient) : List FileSMSChunks :=
  n.files.filter FileSMSChunks.isFull

theorem fullFiles_length (n : SmsEchoClient) : n.fullFiles.length = n.getNumOfFullFiles := by
  rw [getNumOfFullFiles, List.countP_eq_length_filter]
  rfl

def storesFrom : ℕ → List FileSMSChunks → List (ℕ × UInt16)
  | _, [] => []
  | i, f :: fs => (i * 2, (filePair f).1) :: (i * 2 + 1, (filePair f).2) :: storesFrom (i + 1) fs

theorem set_append_cons {α : Type*} (front back : List α) (a b : α) {i : ℕ}
    (hi : front.length = i) : (front ++ a :: back).set i b = front ++ b :: back := by
  subst hi
  simp

theorem foldl_storesFrom (i : ℕ) (fs : List FileSMSChunks) (front rest : List UInt16)
    (hfront : front.length = i * 2) (hrest : rest.length = fs.length * 2) :
    (storesFrom i fs).foldl (fun array s => array.set s.1 s.2) (front ++ rest) =
      front ++ fs.flatMap fun f => [(filePair f).1, (filePair f).2] := by
  induction fs generalizing i front rest with
  | nil =>
    rw [List.length_nil, Nat.zero_mul, List.length_eq_zero_iff] at hrest
    simp [storesFrom, hrest]
  | cons f fs ih =>
    obtain ⟨a, b, rest, rfl⟩ : ∃ a b r, rest = a :: b :: r := by
      match rest, hrest with
      | a :: b :: r, _ => exact ⟨a, b, r, rfl⟩
      | [_], h => exact absurd h (by simp; omega)
      | [], h => exact absurd h (by simp)
    have hset : ((front ++ a :: b :: rest).set (i * 2) (filePair f).1).set (i * 2 + 1)
        (filePair f).2 = (front ++ [(filePair f).1, (filePair f).2]) ++ rest := by
      have hone : (front ++ [(filePair f).1]).length = i * 2 + 1 := by simp [hfront]
      have htwo := set_append_cons (front ++ [(filePair f).1]) rest b (filePair f).2 hone
      rw [List.append_assoc] at htwo
      rw [set_append_cons front (b :: rest) a (filePair f).1 hfront]
      simpa using htwo
    rw [storesFrom, List.foldl_cons, List.foldl_cons, hset, ih (i + 1) _ rest]
    · simp
    · simp [hfront]
      omega
    · simpa [Nat.succ_mul] using hrest

theorem toNat_add_one {x : UInt32} (h : x.toNat + 1 < 2 ^ 32) : (x + 1).toNat = x.toNat + 1 := by
  rw [UInt32.toNat_add, UInt32.toNat_one, Nat.mod_eq_of_lt h]

theorem toNat_mul_two {x : UInt32} (h : x.toNat * 2 < 2 ^ 32) : (x * 2).toNat = x.toNat * 2 := by
  have htwo : (2 : UInt32).toNat = 2 := rfl
  rw [UInt32.toNat_mul, htwo, Nat.mod_eq_of_lt h]

theorem storesFrom_cells (i : ℕ) (fs : List FileSMSChunks) :
    (storesFrom i fs).map Prod.fst = List.range' (i * 2) (2 * fs.length) := by
  induction fs generalizing i with
  | nil => rfl
  | cons f fs ih =>
    have hlen : 2 * (f :: fs).length = 2 * fs.length + 1 + 1 := Nat.mul_succ 2 fs.length
    have hnext : i * 2 + 1 + 1 = (i + 1) * 2 := (Nat.succ_mul i 2).symm
    rw [storesFrom, List.map_cons, List.map_cons, ih, hlen, List.range'_succ, List.range'_succ,
      hnext]

namespace SmsEchoClient

structure CountState where
  i : UInt32
  fullFiles : UInt32

/-- `i < files.size()`, compared as `size_t`. -/
def countGuard (n : SmsEchoClient) (s : CountState) : Bool := s.i.toNat < n.files.length

def countBody (n : SmsEchoClient) (s : CountState) : Except Fault CountState := do
  let file ← orFault .outOfBounds n.files[s.i.toNat]?
  let fullFiles := if file.isFull then s.fullFiles + 1 else s.fullFiles
  return { i := s.i + 1, fullFiles }

structure EncodeState where
  i : UInt32
  j : UInt32
  stores : List (ℕ × UInt16)

def encodeGuard (fullFiles : UInt32) (s : EncodeState) : Bool := s.i < fullFiles

def storeCell (cells : ℕ) (stores : List (ℕ × UInt16)) (cell : UInt32) (value : UInt16) :
    Except Fault (List (ℕ × UInt16)) :=
  if cell.toNat < cells then .ok (stores ++ [(cell.toNat, value)]) else .error .outOfBounds

def encodeBody (n : SmsEchoClient) (cells : ℕ) (s : EncodeState) : Except Fault EncodeState := do
  let file ← orFault .outOfBounds n.files[s.j.toNat]?
  if !file.isFull then return { s with j := s.j + 1 }
  else
    let stores ← storeCell cells s.stores (s.i * 2) file.mId.toUInt16
    let stores ← storeCell cells stores (s.i * 2 + 1) file.mFileSize.toUInt16
    return { i := s.i + 1, j := s.j + 1, stores }

/-- The stores of `EncodeFilesForAdv` into the array it allocates, where each of its loops
makes fewer than `rounds` rounds. -/
def encodeStores (n : SmsEchoClient) (rounds : ℕ) : Except Fault (Option (List (ℕ × UInt16))) := do
  match ← whileLoop n.countGuard n.countBody rounds ⟨0, 0⟩ with
  | none => return none
  | some count =>
    -- in `full_files*2*sizeof(uint16_t)` the first product is a `uint32_t`
    let cells := (count.fullFiles * 2).toNat
    let encoded ← whileLoop (encodeGuard count.fullFiles) (n.encodeBody cells) rounds ⟨0, 0, []⟩
    return encoded.map EncodeState.stores

/-- `EncodeFilesForAdv`, with what the array holds when it is allocated. Unless one of its loops
never ends, neither makes more rounds than there are files. -/
def encodeFilesForAdv (n : SmsEchoClient) (fresh : ℕ → UInt16) :
    Except Fault (Bytes × SmsEchoClient) := do
  match ← n.encodeStores (n.files.length + 1) with
  | none => .error .endless
  | some stores =>
    let cells := (UInt32.ofNat n.getNumOfFullFiles * 2).toNat
    let array := stores.foldl (fun array s => array.set s.1 s.2) ((List.range cells).map fresh)
    return (array.flatMap le16,
      { n with maximumFullFilesSeen := max n.maximumFullFilesSeen n.getNumOfFullFiles })

/-- Every cell of the array is stored to once, and together they are the pairs of the full
files, whatever the memory held before. -/
structure StoresPairs (n : SmsEchoClient) (stores : List (ℕ × UInt16)) : Prop where
  cells : stores.map Prod.fst = List.range (2 * n.getNumOfFullFiles)
  array : ∀ fresh, stores.foldl (fun array s => array.set s.1 s.2)
    ((List.range (2 * n.getNumOfFullFiles)).map fresh) =
      n.fullFiles.flatMap fun f => [(filePair f).1, (filePair f).2]

def EncodesExactly (n : SmsEchoClient) : Prop :=
  ∃ rounds stores, n.encodeStores rounds = .ok (some stores) ∧ n.StoresPairs stores

variable {n : SmsEchoClient}

def countFrom (n : SmsEchoClient) (j : ℕ) : ℕ := (n.files.drop j).countP FileSMSChunks.isFull

theorem drop_eq_cons {j : ℕ} {f : FileSMSChunks} (h : n.files[j]? = some f) :
    n.files.drop j = f :: n.files.drop (j + 1) := by
  obtain ⟨hlt, rfl⟩ := List.getElem?_eq_some_iff.mp h
  exact List.drop_eq_getElem_cons hlt

structure CountInv (n : SmsEchoClient) (s : CountState) : Prop where
  bound : s.i.toNat ≤ n.files.length
  count : s.fullFiles.toNat + n.countFrom s.i.toNat = n.getNumOfFullFiles

theorem countBody_step (hlen : n.files.length < 2 ^ 32) {s : CountState} (h : n.CountInv s)
    (hguard : n.countGuard s = true) :
    ∃ s', n.countBody s = .ok s' ∧ n.CountInv s' ∧ s'.i.toNat = s.i.toNat + 1 := by
  have hlt : s.i.toNat < n.files.length := of_decide_eq_true hguard
  have hget : n.files[s.i.toNat]? = some n.files[s.i.toNat] := List.getElem?_eq_getElem hlt
  have hi : (s.i + 1).toNat = s.i.toNat + 1 := toNat_add_one (by omega)
  have hcount := h.count
  have hle : n.getNumOfFullFiles ≤ n.files.length := List.countP_le_length
  rw [countFrom, drop_eq_cons hget, List.countP_cons] at hcount
  refine ⟨_, by rw [countBody, hget]; rfl, ⟨?_, ?_⟩, hi⟩
  · rw [hi]
    exact hlt
  · rw [hi, countFrom]
    cases hfull : n.files[s.i.toNat].isFull with
    | false =>
      rw [hfull, if_neg Bool.false_ne_true] at hcount
      exact hcount
    | true =>
      rw [hfull, if_pos rfl] at hcount
      rw [if_pos rfl, toNat_add_one (by omega)]
      omega

theorem countLoop_ends (hlen : n.files.length < 2 ^ 32) {rounds : ℕ}
    (hrounds : n.files.length < rounds) :
    ∃ count, whileLoop n.countGuard n.countBody rounds ⟨0, 0⟩ = .ok (some count) ∧
      count.fullFiles.toNat = n.getNumOfFullFiles := by
  have hstart : n.CountInv ⟨0, 0⟩ := ⟨Nat.zero_le _, Nat.zero_add _⟩
  have hround : ∀ s, n.CountInv s → n.countGuard s = true → ∃ s', n.countBody s = .ok s' ∧
      n.CountInv s' ∧ n.files.length - s'.i.toNat < n.files.length - s.i.toNat := by
    intro s hs hguard
    obtain ⟨s', hs', hinv, hi⟩ := countBody_step hlen hs hguard
    have hlt : s.i.toNat < n.files.length := of_decide_eq_true hguard
    exact ⟨s', hs', hinv, by omega⟩
  obtain ⟨count, hcount, hinv, hguard⟩ :=
    whileLoop_ends (fun s => n.files.length - s.i.toNat) hround hstart hrounds
  refine ⟨count, hcount, ?_⟩
  have hdone : n.files.length ≤ count.i.toNat := not_lt.mp (of_decide_eq_false hguard)
  have hnone : n.countFrom count.i.toNat = 0 := by
    rw [countFrom, List.drop_of_length_le hdone, List.countP_nil]
  rw [← hinv.count, hnone, Nat.add_zero]

theorem countLoop_endless (hlen : 2 ^ 32 ≤ n.files.length) (rounds : ℕ) (count : CountState) :
    whileLoop n.countGuard n.countBody rounds ⟨0, 0⟩ ≠ .ok (some count) := by
  apply whileLoop_endless (P := fun _ => True) _ (fun _ _ _ _ _ => trivial) trivial
  intro s _
  have hi := s.i.toNat_lt
  exact decide_eq_true (hi.trans_le hlen)

/-- The full files at or after `j` are as many as there are pairs to store, and theirs are the
pairs that are missing. -/
structure EncodeInv (n : SmsEchoClient) (s : EncodeState) : Prop where
  count : s.i.toNat + n.countFrom s.j.toNat = n.getNumOfFullFiles
  pairs : s.stores ++ storesFrom s.i.toNat ((n.files.drop s.j.toNat).filter FileSMSChunks.isFull) =
    storesFrom 0 n.fullFiles

theorem encodeBody_step (hlen : n.files.length < 2 ^ 32) (hfull : n.getNumOfFullFiles < 2 ^ 31)
    {s : EncodeState} (h : n.EncodeInv s) (hi : s.i.toNat < n.getNumOfFullFiles) :
    ∃ s', n.encodeBody (2 * n.getNumOfFullFiles) s = .ok s' ∧ n.EncodeInv s' ∧
      s.j.toNat < n.files.length ∧ s'.j.toNat = s.j.toNat + 1 := by
  have hcount := h.count
  have hpairs := h.pairs
  have hlt : s.j.toNat < n.files.length := by
    by_contra hge
    rw [countFrom, List.drop_of_length_le (not_lt.mp hge), List.countP_nil] at hcount
    omega
  have hget : n.files[s.j.toNat]? = some n.files[s.j.toNat] := List.getElem?_eq_getElem hlt
  have hj : (s.j + 1).toNat = s.j.toNat + 1 := toNat_add_one (by omega)
  rw [countFrom, drop_eq_cons hget] at hcount
  rw [drop_eq_cons hget] at hpairs
  rw [encodeBody, hget, orFault_some, ok_bind]
  cases hf : n.files[s.j.toNat].isFull with
  | false =>
    rw [List.countP_cons_of_neg (by simp [hf])] at hcount
    rw [List.filter_cons_of_neg (by simp [hf])] at hpairs
    refine ⟨_, rfl, ⟨?_, ?_⟩, hlt, hj⟩
    · rw [hj]
      exact hcount
    · rw [hj]
      exact hpairs
  | true =>
    rw [List.countP_cons_of_pos hf] at hcount
    rw [List.filter_cons_of_pos hf, storesFrom] at hpairs
    -- the two cells are those of the pair, and in the array
    have hone : (s.i + 1).toNat = s.i.toNat + 1 := toNat_add_one (by omega)
    have hcell : (s.i * 2).toNat = s.i.toNat * 2 := toNat_mul_two (by omega)
    have hcell' : (s.i * 2 + 1).toNat = s.i.toNat * 2 + 1 := by
      rw [toNat_add_one (by omega), hcell]
    have hin : (s.i * 2).toNat < 2 * n.getNumOfFullFiles := by omega
    have hin' : (s.i * 2 + 1).toNat < 2 * n.getNumOfFullFiles := by omega
    refine ⟨_, by simp only [storeCell, if_pos hin, if_pos hin', ok_bind]; rfl, ⟨?_, ?_⟩, hlt, hj⟩
    · rw [hone, hj, countFrom]
      omega
    · rw [hone, hj, hcell, hcell', ← hpairs]
      simp [filePair]

theorem encodeLoop_ends (hlen : n.files.length < 2 ^ 32) (hfull : n.getNumOfFullFiles < 2 ^ 31)
    {fullFiles : UInt32} (hcount : fullFiles.toNat = n.getNumOfFullFiles) {rounds : ℕ}
    (hrounds : n.files.length < rounds) :
    ∃ s, whileLoop (encodeGuard fullFiles) (n.encodeBody (2 * n.getNumOfFullFiles)) rounds
        ⟨0, 0, []⟩ = .ok (some s) ∧ s.stores = storesFrom 0 n.fullFiles := by
  have hstart : n.EncodeInv ⟨0, 0, []⟩ := ⟨Nat.zero_add _, rfl⟩
  have hless : ∀ s, encodeGuard fullFiles s = true ↔ s.i.toNat < n.getNumOfFullFiles := by
    intro s
    rw [← hcount, encodeGuard, decide_eq_true_iff, UInt32.lt_iff_toNat_lt]
  have hround : ∀ s, n.EncodeInv s → encodeGuard fullFiles s = true →
      ∃ s', n.encodeBody (2 * n.getNumOfFullFiles) s = .ok s' ∧ n.EncodeInv s' ∧
        n.files.length - s'.j.toNat < n.files.length - s.j.toNat := by
    intro s hs hguard
    obtain ⟨s', hs', hinv, hlt, hj⟩ := encodeBody_step hlen hfull hs ((hless s).mp hguard)
    exact ⟨s', hs', hinv, by omega⟩
  obtain ⟨s, hs, hinv, hguard⟩ :=
    whileLoop_ends (fun s => n.files.length - s.j.toNat) hround hstart hrounds
  refine ⟨s, hs, ?_⟩
  have hdone : ¬ s.i.toNat < n.getNumOfFullFiles := by
    rw [← hless s, hguard]
    exact Bool.false_ne_true
  have hzero : n.countFrom s.j.toNat = 0 := by
    have hc := hinv.count
    omega
  have hnone : (n.files.drop s.j.toNat).filter FileSMSChunks.isFull = [] := by
    rw [← List.length_eq_zero_iff, ← List.countP_eq_length_filter]
    exact hzero
  have hpairs := hinv.pairs
  rw [hnone, storesFrom, List.append_nil] at hpairs
  exact hpairs

/-- Within these bounds the counters do not wrap, and no loop makes more rounds than there are
files. -/
theorem encodeStores_eq (hlen : n.files.length < 2 ^ 32) (hfull : n.getNumOfFullFiles < 2 ^ 31)
    {rounds : ℕ} (hrounds : n.files.length < rounds) :
    n.encodeStores rounds = .ok (some (storesFrom 0 n.fullFiles)) := by
  obtain ⟨count, hcount, hnum⟩ := countLoop_ends hlen hrounds
  obtain ⟨s, hs, hstores⟩ := encodeLoop_ends hlen hfull hnum hrounds
  have hcells : (count.fullFiles * 2).toNat = 2 * n.getNumOfFullFiles := by
    rw [toNat_mul_two (by omega), hnum, Nat.mul_comm]
  unfold encodeStores
  rw [hcount, ok_bind]
  simp only [hcells, hs, ok_bind]
  rw [Option.map_some, hstores]
  rfl

theorem storesFrom_storesPairs (n : SmsEchoClient) : n.StoresPairs (storesFrom 0 n.fullFiles) where
  cells := by
    rw [storesFrom_cells, fullFiles_length, Nat.zero_mul, List.range_eq_range']
  array := by
    intro fresh
    exact foldl_storesFrom 0 n.fullFiles [] _ rfl
      (by rw [List.length_map, List.length_range, fullFiles_length, Nat.mul_comm])

theorem count_of_countLoop {rounds : ℕ} {count : CountState}
    (h : whileLoop n.countGuard n.countBody rounds ⟨0, 0⟩ = .ok (some count)) :
    n.files.length < 2 ^ 32 ∧ count.fullFiles.toNat = n.getNumOfFullFiles := by
  have hlen : n.files.length < 2 ^ 32 := by
    by_contra hlen
    exact countLoop_endless (not_lt.mp hlen) rounds count h
  have hstart : n.CountInv ⟨0, 0⟩ := ⟨Nat.zero_le _, Nat.zero_add _⟩
  obtain ⟨hinv, hguard⟩ := whileLoop_invariant (P := n.CountInv) (fun s s' hs hg hs' => by
    obtain ⟨t, ht, hinv, -⟩ := countBody_step hlen hs hg
    obtain rfl := Except.ok.inj (ht.symm.trans hs')
    exact hinv) h hstart
  have hdone : n.files.length ≤ count.i.toNat := not_lt.mp (of_decide_eq_false hguard)
  have hcount := hinv.count
  rw [countFrom, List.drop_of_length_le hdone, List.countP_nil, Nat.add_zero] at hcount
  exact ⟨hlen, hcount⟩

theorem encodeLoop_inside {cells : ℕ} {fullFiles : UInt32} {rounds : ℕ} {s : EncodeState}
    (h : whileLoop (encodeGuard fullFiles) (n.encodeBody cells) rounds ⟨0, 0, []⟩ =
      .ok (some s)) :
    (∀ i < s.i.toNat, i * 2 % 2 ^ 32 < cells) ∧ fullFiles.toNat ≤ s.i.toNat := by
  have hround : ∀ s s' : EncodeState, (∀ i < s.i.toNat, i * 2 % 2 ^ 32 < cells) →
      encodeGuard fullFiles s = true → n.encodeBody cells s = .ok s' →
      ∀ i < s'.i.toNat, i * 2 % 2 ^ 32 < cells := by
    intro s s' hs hguard hbody
    have hless : s.i.toNat < fullFiles.toNat :=
      UInt32.lt_iff_toNat_lt.mp (of_decide_eq_true hguard)
    have hmax := fullFiles.toNat_lt
    unfold encodeBody at hbody
    obtain ⟨file, -, hbody⟩ := bind_eq_ok.mp hbody
    split_ifs at hbody
    · obtain rfl := Except.ok.inj hbody
      exact hs
    · obtain ⟨first, hfirst, hbody⟩ := bind_eq_ok.mp hbody
      obtain ⟨second, -, hbody⟩ := bind_eq_ok.mp hbody
      obtain rfl := Except.ok.inj hbody
      have hcell : s.i.toNat * 2 % 2 ^ 32 < cells := by
        unfold storeCell at hfirst
        split_ifs at hfirst with hlt
        have htwo : (2 : UInt32).toNat = 2 := rfl
        rwa [UInt32.toNat_mul, htwo] at hlt
      have hnext : (s.i + 1).toNat = s.i.toNat + 1 := toNat_add_one (by omega)
      intro i hi
      change i < (s.i + 1).toNat at hi
      rw [hnext] at hi
      rcases Nat.lt_succ_iff_lt_or_eq.mp hi with hi | rfl
      · exact hs i hi
      · exact hcell
  obtain ⟨hinside, hguard⟩ := whileLoop_invariant hround h fun i hi => absurd hi (Nat.not_lt_zero i)
  refine ⟨hinside, ?_⟩
  have hnot := of_decide_eq_false hguard
  rwa [UInt32.lt_iff_toNat_lt, not_lt] at hnot

theorem bounds_of_encodeStores {rounds : ℕ} {stores : List (ℕ × UInt16)}
    (h : n.encodeStores rounds = .ok (some stores)) :
    n.files.length < 2 ^ 32 ∧ n.getNumOfFullFiles < 2 ^ 31 := by
  unfold encodeStores at h
  obtain ⟨count?, hcount, h⟩ := bind_eq_ok.mp h
  cases count? with
  | none => exact absurd h (by simp [pure, Except.pure])
  | some count =>
    obtain ⟨encoded, hencoded, h⟩ := bind_eq_ok.mp h
    obtain ⟨s, rfl, -⟩ := Option.map_eq_some_iff.mp (Except.ok.inj h)
    obtain ⟨hlen, hnum⟩ := count_of_countLoop hcount
    obtain ⟨hinside, hall⟩ := encodeLoop_inside hencoded
    refine ⟨hlen, ?_⟩
    by_contra hfull
    -- with the product wrapped, this cell is the first behind the array
    have hbehind := hinside (n.getNumOfFullFiles - 2 ^ 31) (by omega)
    have hmax := count.fullFiles.toNat_lt
    have htwo : (2 : UInt32).toNat = 2 := rfl
    rw [UInt32.toNat_mul, htwo, hnum] at hbehind
    omega

/-- The encoder does what it should exactly when its counters can: when the number of files is
a `uint32_t` and so is the number of cells. -/
theorem encodeStores_encodesExactly_iff (n : SmsEchoClient) :
    n.EncodesExactly ↔ n.files.length < 2 ^ 32 ∧ n.getNumOfFullFiles < 2 ^ 31 := by
  constructor
  · rintro ⟨rounds, stores, hstores, -⟩
    exact bounds_of_encodeStores hstores
  · rintro ⟨hlen, hfull⟩
    exact ⟨_, _, encodeStores_eq hlen hfull (Nat.lt_succ_self _), n.storesFrom_storesPairs⟩

theorem encodeFilesForAdv_eq (hlen : n.files.length < 2 ^ 32) (hfull : n.getNumOfFullFiles < 2 ^ 31)
    (fresh : ℕ → UInt16) :
    n.encodeFilesForAdv fresh = .ok (n.fullFiles.flatMap fun f => pairBytes (filePair f),
      n.noteFullFiles) := by
  have hcells : (UInt32.ofNat n.getNumOfFullFiles * 2).toNat = 2 * n.getNumOfFullFiles := by
    have hnum : (UInt32.ofNat n.getNumOfFullFiles).toNat = n.getNumOfFullFiles := by
      rw [UInt32.toNat_ofNat', Nat.mod_eq_of_lt (by omega)]
    rw [toNat_mul_two (by omega), hnum, Nat.mul_comm]
  rw [encodeFilesForAdv, encodeStores_eq hlen hfull (Nat.lt_succ_self _), ok_bind]
  simp only [hcells, n.storesFrom_storesPairs.array fresh]
  simp [pure, Except.pure, List.flatMap_assoc, pairBytes, noteFullFiles]

theorem bounds_of_encodeFilesForAdv {fresh : ℕ → UInt16} {r : Bytes × SmsEchoClient}
    (h : n.encodeFilesForAdv fresh = .ok r) :
    n.files.length < 2 ^ 32 ∧ n.getNumOfFullFiles < 2 ^ 31 := by
  unfold encodeFilesForAdv at h
  obtain ⟨stores?, hstores, h⟩ := bind_eq_ok.mp h
  cases stores? with
  | none => exact absurd h (by simp)
  | some stores => exact bounds_of_encodeStores hstores

def halfOfAll : List FileSMS := (List.range (2 ^ 31)).map fun i => ⟨UInt32.ofNat i, 2⟩

theorem halfOfAll_distinctIds : DistinctIds halfOfAll := by
  unfold DistinctIds halfOfAll
  rw [List.map_map]
  refine List.Nodup.map_on ?_ List.nodup_range
  intro i hi j hj heq
  have hi' : i < 2 ^ 31 := List.mem_range.mp hi
  have hj' : j < 2 ^ 31 := List.mem_range.mp hj
  have hmod := congrArg UInt32.toNat heq
  simp only [Function.comp_apply, UInt32.toNat_ofNat'] at hmod
  omega

/-- The product `full_files*2` wraps to 0, and so does the allocation. -/
theorem not_encodesExactly_half :
    DistinctIds halfOfAll ∧ ¬ ((construct 0).setFiles halfOfAll).EncodesExactly := by
  refine ⟨halfOfAll_distinctIds, fun ⟨rounds, stores, hstores, _⟩ => ?_⟩
  have hfull := (bounds_of_encodeStores hstores).2
  rw [setFiles_getNumOfFullFiles, halfOfAll, List.length_map, List.length_range] at hfull
  exact lt_irrefl _ hfull

end SmsEchoClient
end SmsEcho
