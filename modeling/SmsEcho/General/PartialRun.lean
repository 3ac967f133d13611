import Mathlib

/-! Fallible steps. A computation in `Except` either stops with a fault or
returns a state; a run applies one input after another and stops at the first
fault. -/

namespace PartialRun
universe u
variable {ε ι σ : Type*} {α β : Type u}

@[simp] theorem ok_bind (a : α) (f : α → Except ε β) : (Except.ok a >>= f) = f a := rfl

@[simp] theorem error_bind (e : ε) (f : α → Except ε β) :
    ((.error e : Except ε α) >>= f) = .error e := rfl

theorem bind_eq_ok {x : Except ε α} {f : α → Except ε β} {b : β} :
    x >>= f = .ok b ↔ ∃ a, x = .ok a ∧ f a = .ok b := by
  cases x with
  | error e => simp [bind, Except.bind]
  | ok a => simp [bind, Except.bind]

def orFault (e : ε) : Option α → Except ε α
  | some a => .ok a
  | none => .error e

@[simp] theorem orFault_some (e : ε) (a : α) : orFault e (some a) = .ok a := rfl

@[simp] theorem orFault_none (e : ε) : orFault e (none : Option α) = .error e := rfl

theorem orFault_eq_ok {e : ε} {o : Option α} {a : α} : orFault e o = .ok a ↔ o = some a := by
  cases o with
  | none => simp
  | some b => simp

def run (step : σ → ι → Except ε σ) (s : σ) (xs : List ι) : Except ε σ := xs.foldlM step s

variable {step : σ → ι → Except ε σ}

@[simp] theorem run_nil (s : σ) : run step s [] = .ok s := rfl

theorem run_cons (s : σ) (x : ι) (xs : List ι) :
    run step s (x :: xs) = (step s x >>= fun s' => run step s' xs) := rfl

theorem run_cons_eq_ok {s t : σ} {x : ι} {xs : List ι} :
    run step s (x :: xs) = .ok t ↔ ∃ s', step s x = .ok s' ∧ run step s' xs = .ok t := by
  rw [run_cons, bind_eq_ok]

theorem reaches_invariant {next : σ → σ → Prop} {P : σ → Prop}
    (hstep : ∀ s t, P s → next s t → P t) {s t : σ}
    (h : Relation.ReflTransGen next s t) (hs : P s) : P t := by
  induction h with
  | refl => exact hs
  | tail _ hst ih => exact hstep _ _ ih hst

theorem reaches_simulation {τ : Type*} {next : σ → σ → Prop} {next' : τ → τ → Prop}
    {R : σ → τ → Prop} (hstep : ∀ s s' t, R s t → next s s' → ∃ t', next' t t' ∧ R s' t')
    {s s' : σ} {t : τ} (h : Relation.ReflTransGen next s s') (hR : R s t) :
    ∃ t', Relation.ReflTransGen next' t t' ∧ R s' t' := by
  induction h with
  | refl => exact ⟨t, .refl, hR⟩
  | tail _ hnext ih =>
    obtain ⟨u, hu, hRu⟩ := ih
    obtain ⟨t', ht', hR'⟩ := hstep _ _ _ hRu hnext
    exact ⟨t', hu.tail ht', hR'⟩

theorem reaches_piecewise {κ τ : Type*} [DecidableEq κ] (next : σ → σ → Prop)
    (make : (κ → τ) → σ) (old new : κ → τ) (T : Finset κ)
    (hstep : ∀ S ⊆ T, ∀ i ∈ T, i ∉ S → next (make (S.piecewise new old))
      (make (Function.update (S.piecewise new old) i (new i)))) :
    Relation.ReflTransGen next (make old) (make (T.piecewise new old)) := by
  have hpart : ∀ S ⊆ T, Relation.ReflTransGen next (make old) (make (S.piecewise new old)) := by
    intro S
    induction S using Finset.induction_on with
    | empty =>
      intro _
      rw [Finset.piecewise_empty]
    | insert i S hi ih =>
      intro hS
      have hsub := (Finset.subset_insert i S).trans hS
      have hnext := hstep S hsub i (hS (Finset.mem_insert_self i S)) hi
      rw [← Finset.piecewise_insert] at hnext
      exact (ih hsub).tail hnext
  exact hpart T subset_rfl

end PartialRun
