import Mathlib

/-! Dissemination of items among finitely many nodes. An item spreads from a node that has it
to any set of nodes, and no node forgets what it has. -/

namespace Dissemination
variable {ι α : Type*} [DecidableEq α]

section Receive
variable [DecidableEq ι]

def receive (has : ι → Finset α) (R : Finset ι) (x : α) (i : ι) : Finset α :=
  if i ∈ R then insert x (has i) else has i

def Spread (has has' : ι → Finset α) : Prop :=
  ∃ x R, (∃ p, x ∈ has p) ∧ has' = receive has R x

def gainers (has : ι → Finset α) (R : Finset ι) (x : α) : Finset ι := R.filter fun i => x ∉ has i

variable {has has' : ι → Finset α} {R : Finset ι} {x y : α} {i : ι}

theorem mem_receive : y ∈ receive has R x i ↔ y ∈ has i ∨ i ∈ R ∧ y = x := by
  unfold receive
  split_ifs with hi
  · rw [Finset.mem_insert, or_comm]
    simp [hi]
  · simp [hi]

theorem subset_receive (has : ι → Finset α) (R : Finset ι) (x : α) (i : ι) :
    has i ⊆ receive has R x i := fun _ hy => mem_receive.mpr (Or.inl hy)

end Receive

section Lacking
variable [Fintype ι]

def lacking (U : Finset α) (has : ι → Finset α) : ℕ := ∑ i, (U \ has i).card

variable {U : Finset α} {has has' : ι → Finset α} {x : α} {i : ι}

theorem lacking_eq_zero_iff : lacking U has = 0 ↔ ∀ i, U ⊆ has i := by
  unfold lacking
  simp [Finset.sdiff_eq_empty_iff_subset]

theorem lacking_receive [DecidableEq ι] (R : Finset ι) (hx : x ∈ U) :
    lacking U (receive has R x) + (gainers has R x).card = lacking U has := by
  unfold lacking gainers
  have hnode : ∀ i, (U \ receive has R x i).card + (if i ∈ R ∧ x ∉ has i then 1 else 0) =
      (U \ has i).card := by
    intro i
    by_cases hi : i ∈ R ∧ x ∉ has i
    · have hmem : x ∈ U \ has i := Finset.mem_sdiff.mpr ⟨hx, hi.2⟩
      have hsets : U \ receive has R x i = (U \ has i).erase x := by
        rw [receive, if_pos hi.1, Finset.sdiff_insert]
      rw [if_pos hi, hsets, Finset.card_erase_add_one hmem]
    · have hsame : receive has R x i = has i := by
        unfold receive
        split_ifs with hR
        · exact Finset.insert_eq_of_mem (by simpa [hR] using hi)
        · rfl
      rw [if_neg hi, hsame, add_zero]
  have hcount : (R.filter fun i => x ∉ has i).card = ∑ i, if i ∈ R ∧ x ∉ has i then 1 else 0 := by
    rw [← Finset.card_filter]
    apply congrArg Finset.card
    ext i
    simp
  rw [hcount, ← Finset.sum_add_distrib]
  exact Finset.sum_congr rfl fun i _ => hnode i

theorem lacking_anti (h : ∀ i, has i ⊆ has' i) : lacking U has' ≤ lacking U has :=
  Finset.sum_le_sum fun i _ => Finset.card_le_card (Finset.sdiff_subset_sdiff subset_rfl (h i))

theorem lacking_lt (h : ∀ i, has i ⊆ has' i) (hx : x ∈ U) (hnot : x ∉ has i) (hi : x ∈ has' i) :
    lacking U has' < lacking U has := by
  apply Finset.sum_lt_sum
  · exact fun j _ => Finset.card_le_card (Finset.sdiff_subset_sdiff subset_rfl (h j))
  · refine ⟨i, Finset.mem_univ i, Finset.card_lt_card ?_⟩
    rw [Finset.ssubset_iff_of_subset (Finset.sdiff_subset_sdiff subset_rfl (h i))]
    exact ⟨x, Finset.mem_sdiff.mpr ⟨hx, hnot⟩, by simp [hi]⟩

/-- A run in which something that is lacking is always followed by progress ends with
nothing lacking, for good. -/
theorem eventually_complete (run : ℕ → ι → Finset α) (hmono : ∀ t i, run t i ⊆ run (t + 1) i)
    (hprogress : ∀ t, 0 < lacking U (run t) →
      ∃ t', lacking U (run t') < lacking U (run t)) : ∃ t₀, ∀ t ≥ t₀, ∀ i, U ⊆ run t i := by
  have hlater : ∀ t t', t ≤ t' → ∀ i, run t i ⊆ run t' i :=
    fun t t' ht i => monotone_nat_of_le_succ (f := fun t => run t i) (fun t => hmono t i) ht
  -- the least value that is ever reached must be zero
  obtain ⟨t₀, hleast⟩ : ∃ t₀, ∀ t, lacking U (run t₀) ≤ lacking U (run t) :=
    ⟨_, fun t => Function.argmin_le (fun t => lacking U (run t)) t⟩
  have hzero : lacking U (run t₀) = 0 := by
    by_contra hne
    obtain ⟨t, ht⟩ := hprogress t₀ (Nat.pos_of_ne_zero hne)
    exact absurd (hleast t) (Nat.not_le.mpr ht)
  refine ⟨t₀, fun t ht i => ?_⟩
  exact (lacking_eq_zero_iff.mp hzero i).trans (hlater t₀ t ht i)

end Lacking
end Dissemination
