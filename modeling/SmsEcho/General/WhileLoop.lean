import SmsEcho.General.PartialRun

/-! `while` loops over a state, with a body that may fault. A run is given a number of rounds;
where they do not suffice there is no state to return. -/

namespace WhileLoop
open PartialRun
universe u
variable {ε : Type*} {σ : Type u} {guard : σ → Bool} {body : σ → Except ε σ} {s t : σ}

def whileLoop (guard : σ → Bool) (body : σ → Except ε σ) : ℕ → σ → Except ε (Option σ)
  | 0, _ => .ok none
  | rounds + 1, s => if guard s then body s >>= whileLoop guard body rounds else .ok (some s)

theorem whileLoop_of_true (h : guard s = true) (rounds : ℕ) :
    whileLoop guard body (rounds + 1) s = body s >>= whileLoop guard body rounds := by
  rw [whileLoop, if_pos h]

theorem whileLoop_of_false (h : guard s = false) (rounds : ℕ) :
    whileLoop guard body (rounds + 1) s = .ok (some s) := by
  rw [whileLoop, h, if_neg Bool.false_ne_true]

theorem whileLoop_invariant {P : σ → Prop}
    (hbody : ∀ s s', P s → guard s = true → body s = .ok s' → P s') {rounds : ℕ}
    (h : whileLoop guard body rounds s = .ok (some t)) (hs : P s) : P t ∧ guard t = false := by
  induction rounds generalizing s with
  | zero => exact absurd h (by simp [whileLoop])
  | succ rounds ih =>
    cases hguard : guard s with
    | false =>
      rw [whileLoop_of_false hguard] at h
      obtain rfl : s = t := Option.some.inj (Except.ok.inj h)
      exact ⟨hs, hguard⟩
    | true =>
      rw [whileLoop_of_true hguard] at h
      obtain ⟨s', hs', hrest⟩ := bind_eq_ok.mp h
      exact ih hrest (hbody s s' hs hguard hs')

theorem whileLoop_endless {P : σ → Prop} (hguard : ∀ s, P s → guard s = true)
    (hbody : ∀ s s', P s → guard s = true → body s = .ok s' → P s') (hs : P s) (rounds : ℕ)
    (t : σ) : whileLoop guard body rounds s ≠ .ok (some t) := by
  intro h
  obtain ⟨ht, hfalse⟩ := whileLoop_invariant hbody h hs
  exact absurd (hguard t ht) (by simp [hfalse])

theorem whileLoop_ends {P : σ → Prop} (variant : σ → ℕ)
    (hbody : ∀ s, P s → guard s = true → ∃ s', body s = .ok s' ∧ P s' ∧ variant s' < variant s)
    {rounds : ℕ} (hs : P s) (hrounds : variant s < rounds) :
    ∃ t, whileLoop guard body rounds s = .ok (some t) ∧ P t ∧ guard t = false := by
  induction rounds generalizing s with
  | zero => exact absurd hrounds (Nat.not_lt_zero _)
  | succ rounds ih =>
    cases hguard : guard s with
    | false => exact ⟨s, whileLoop_of_false hguard rounds, hs, hguard⟩
    | true =>
      obtain ⟨s', hs', hP, hlt⟩ := hbody s hs hguard
      obtain ⟨t, ht, hend⟩ := ih hP (hlt.trans_le (Nat.le_of_lt_succ hrounds))
      refine ⟨t, ?_, hend⟩
      rw [whileLoop_of_true hguard, hs', ok_bind]
      exact ht

end WhileLoop
