import SmsEcho.General.PartialRun

/-! Runs whose steps only join something onto what can be observed of the state. The order of
the inputs and their repetition then do not matter: the end depends on the set of inputs. -/

namespace JoinRun
open PartialRun
variable {ι σ ε L : Type*} [SemilatticeSup L] [OrderBot L]

def joinOf (c : ι → L) (xs : List ι) : L := xs.foldr (fun x a => c x ⊔ a) ⊥

@[simp] theorem joinOf_nil (c : ι → L) : joinOf c [] = ⊥ := rfl

theorem joinOf_cons (c : ι → L) (x : ι) (xs : List ι) :
    joinOf c (x :: xs) = c x ⊔ joinOf c xs := rfl

theorem joinOf_le_iff {c : ι → L} {xs : List ι} {b : L} :
    joinOf c xs ≤ b ↔ ∀ x ∈ xs, c x ≤ b := by
  induction xs with
  | nil => simp
  | cons x xs ih => rw [joinOf_cons, sup_le_iff, ih, List.forall_mem_cons]

theorem le_joinOf (c : ι → L) {x : ι} {xs : List ι} (hx : x ∈ xs) : c x ≤ joinOf c xs :=
  joinOf_le_iff.mp le_rfl x hx

theorem joinOf_congr (c : ι → L) {xs ys : List ι} (h : ∀ x, x ∈ xs ↔ x ∈ ys) :
    joinOf c xs = joinOf c ys := by
  apply le_antisymm
  · exact joinOf_le_iff.mpr fun x hx => le_joinOf c ((h x).mp hx)
  · exact joinOf_le_iff.mpr fun x hx => le_joinOf c ((h x).mpr hx)

/-- Every step joins the contribution of its input onto the observation, together with a part
`h` that the state itself determines and that never shrinks. -/
theorem run_eq_join {step : σ → ι → Except ε σ} {P : σ → Prop} {Q : ι → Prop}
    {obs h : σ → L} {c : ι → L}
    (hstep : ∀ s x, P s → Q x → ∃ t, step s x = .ok t ∧ P t ∧ h s ≤ h t ∧
      obs t = obs s ⊔ c x ⊔ h t)
    {xs : List ι} (hxs : ∀ x ∈ xs, Q x) {s : σ} (hs : P s) (hle : h s ≤ obs s) :
    ∃ t, run step s xs = .ok t ∧ P t ∧ h s ≤ h t ∧ obs t = obs s ⊔ joinOf c xs ⊔ h t := by
  induction xs generalizing s with
  | nil =>
    refine ⟨s, rfl, hs, le_rfl, ?_⟩
    rw [joinOf_nil, sup_bot_eq, sup_eq_left.mpr hle]
  | cons x xs ih =>
    rw [List.forall_mem_cons] at hxs
    obtain ⟨u, hu, hPu, hsu, hobs⟩ := hstep s x hs hxs.1
    have hule : h u ≤ obs u := hobs ▸ le_sup_right
    obtain ⟨t, ht, hPt, hut, hend⟩ := ih hxs.2 hPu hule
    refine ⟨t, run_cons_eq_ok.mpr ⟨u, hu, ht⟩, hPt, hsu.trans hut, ?_⟩
    -- what the state determined on the way is part of what it determines in the end
    have habsorb : h u ⊔ h t = h t := sup_eq_right.mpr hut
    calc obs t = obs s ⊔ c x ⊔ h u ⊔ joinOf c xs ⊔ h t := by rw [hend, hobs]
      _ = obs s ⊔ (c x ⊔ joinOf c xs) ⊔ (h u ⊔ h t) := by ac_rfl
      _ = obs s ⊔ joinOf c (x :: xs) ⊔ h t := by rw [habsorb, joinOf_cons]

end JoinRun
