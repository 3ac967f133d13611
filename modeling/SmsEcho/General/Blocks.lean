import Mathlib

/-! A quantity cut into blocks of one size: how many blocks there are, and what they add up to
when the last of them is given the remainder. -/

namespace Blocks

def count (n c : ℕ) : ℕ := (n + (c - 1)) / c

def size (n c i : ℕ) : ℕ := if i + 1 = count n c then n % c else c

variable {n c : ℕ}

theorem count_of_dvd (hc : 0 < c) (h : c ∣ n) : count n c = n / c := by
  obtain ⟨q, rfl⟩ := h
  have hlt : c - 1 < c := Nat.sub_lt hc Nat.one_pos
  rw [count, Nat.mul_add_div hc, Nat.div_eq_of_lt hlt, Nat.mul_div_cancel_left q hc,
    Nat.add_zero]

theorem count_of_not_dvd (hc : 0 < c) (h : ¬ c ∣ n) : count n c = n / c + 1 := by
  have hpos : 0 < n % c := Nat.emod_pos_of_not_dvd h
  have hlt : n % c < c := Nat.mod_lt n hc
  -- the remainder and `c - 1` make one block more, and not two
  have hone : (n % c + (c - 1)) / c = 1 := by
    apply Nat.div_eq_of_lt_le
    · omega
    · omega
  have hsplit : n + (c - 1) = c * (n / c) + (n % c + (c - 1)) := by
    rw [← Nat.add_assoc, Nat.div_add_mod]
  rw [count, hsplit, Nat.mul_add_div hc, hone]

theorem count_eq_zero_iff (hc : 0 < c) : count n c = 0 ↔ n = 0 := by
  rw [count, Nat.div_eq_zero_iff]
  omega

theorem sum_size {k : ℕ} (hk : count n c = k + 1) :
    ∑ i ∈ Finset.range (count n c), size n c i = c * k + n % c := by
  have hwhole : ∀ i ∈ Finset.range k, size n c i = c := by
    intro i hi
    have hne : i + 1 ≠ count n c := by
      rw [hk]
      exact (Nat.succ_lt_succ (Finset.mem_range.mp hi)).ne
    rw [size, if_neg hne]
  have hlast : size n c k = n % c := by rw [size, if_pos hk.symm]
  rw [hk, Finset.sum_range_succ, Finset.sum_congr rfl hwhole, hlast, Finset.sum_const,
    Finset.card_range, smul_eq_mul, Nat.mul_comm]

theorem sum_size_eq_iff (hc : 0 < c) :
    ∑ i ∈ Finset.range (count n c), size n c i = n ↔ n = 0 ∨ ¬ c ∣ n := by
  by_cases hn : n = 0
  · subst hn
    have hnone : count 0 c = 0 := (count_eq_zero_iff hc).mpr rfl
    simp [hnone]
  have hpos : 0 < count n c := Nat.pos_of_ne_zero (mt (count_eq_zero_iff hc).mp hn)
  obtain ⟨k, hk⟩ := Nat.exists_eq_add_of_lt hpos
  rw [Nat.zero_add] at hk
  have hdm := Nat.div_add_mod n c
  rw [sum_size hk]
  by_cases hd : c ∣ n
  · have hquot : n / c = k + 1 := (count_of_dvd hc hd).symm.trans hk
    have hmod : n % c = 0 := Nat.mod_eq_zero_of_dvd hd
    rw [hquot, hmod, Nat.mul_succ] at hdm
    simp only [hn, hd, hmod, not_true_eq_false, or_self, iff_false]
    omega
  · have hquot : n / c = k := Nat.succ.inj ((count_of_not_dvd hc hd).symm.trans hk)
    rw [hquot] at hdm
    simp only [hd, not_false_eq_true, or_true, iff_true]
    exact hdm

end Blocks
