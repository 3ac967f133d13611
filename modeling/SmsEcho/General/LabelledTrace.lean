import Mathlib

/-! Finite traces of a labelled transition relation, the latest label first: an invariant rule,
the exact length of traces whose steps use up a measure, the part of a trace since the last
label of a given sort, and properties that hold at every point of a trace. -/

namespace LabelledTrace
variable {ι σ : Type*}

inductive Trace (step : σ → ι → σ → Prop) (s : σ) : List ι → σ → Prop
  | nil : Trace step s [] s
  | cons {xs : List ι} {t u : σ} {x : ι} :
      Trace step s xs t → step t x u → Trace step s (x :: xs) u

variable {step : σ → ι → σ → Prop} {s t : σ} {xs : List ι}

theorem Trace.invariant {P : List ι → σ → Prop} (h : Trace step s xs t) (hnil : P [] s)
    (hcons : ∀ xs t x u, P xs t → step t x u → P (x :: xs) u) : P xs t := by
  induction h with
  | nil => exact hnil
  | cons _ hx ih => exact hcons _ _ _ _ ih hx

theorem Trace.append {u : σ} {ys : List ι} (h : Trace step s xs t) (h' : Trace step t ys u) :
    Trace step s (ys ++ xs) u := by
  induction h' with
  | nil => exact h
  | cons _ hy ih => exact ih.cons hy

theorem Trace.last {x : ι} (h : Trace step s (x :: xs) t) :
    ∃ u, Trace step s xs u ∧ step u x t := by
  cases h with
  | cons hxs hx => exact ⟨_, hxs, hx⟩

def Forever (step : σ → ι → σ → Prop) (run : ℕ → σ) (said : ℕ → ι) : Prop :=
  ∀ n, step (run n) (said n) (run (n + 1))

theorem Forever.trace {run : ℕ → σ} {said : ℕ → ι} (h : Forever step run said) (n : ℕ) :
    ∃ xs, Trace step (run 0) xs (run n) := by
  induction n with
  | zero => exact ⟨[], .nil⟩
  | succ n ih =>
    obtain ⟨xs, hxs⟩ := ih
    exact ⟨said n :: xs, hxs.cons (h n)⟩

theorem exists_forever {P : σ → Prop} (hgo : ∀ s, P s → ∃ x t, step s x t ∧ P t) (hs : P s) :
    ∃ run said, run 0 = s ∧ Forever step run said ∧ ∀ n, P (run n) := by
  have hlabel : Nonempty ι := ⟨(hgo s hs).choose⟩
  have hstate : Nonempty σ := ⟨s⟩
  choose! label next hstep hP using hgo
  have hrun : ∀ n, P (next^[n] s) := by
    intro n
    induction n with
    | zero => exact hs
    | succ n ih =>
      rw [Function.iterate_succ_apply']
      exact hP _ ih
  refine ⟨fun n => next^[n] s, fun n => label (next^[n] s), rfl, fun n => ?_, hrun⟩
  have hnext := hstep _ (hrun n)
  rw [← Function.iterate_succ_apply' next n s] at hnext
  exact hnext

section Measure
variable {P : σ → Prop} {μ : σ → ℕ}
  (hdrop : ∀ s x t, P s → step s x t → P t ∧ μ t + 1 = μ s)
include hdrop

theorem Trace.length_add (h : Trace step s xs t) (hs : P s) : P t ∧ xs.length + μ t = μ s := by
  induction h with
  | nil => exact ⟨hs, Nat.zero_add _⟩
  | cons _ hx ih =>
    obtain ⟨hP, hlen⟩ := ih
    obtain ⟨hP', hμ⟩ := hdrop _ _ _ hP hx
    refine ⟨hP', ?_⟩
    rw [List.length_cons, ← hlen, ← hμ]
    ac_rfl

variable (hgo : ∀ s, P s → 0 < μ s → ∃ x t, step s x t)
include hgo

theorem Trace.goes_on_iff (h : Trace step s xs t) (hs : P s) :
    (∃ x u, step t x u) ↔ xs.length < μ s := by
  obtain ⟨hP, hlen⟩ := h.length_add hdrop hs
  rw [← hlen, Nat.lt_add_right_iff_pos]
  constructor
  · rintro ⟨x, u, hx⟩
    have hμ := (hdrop _ _ _ hP hx).2
    exact hμ ▸ Nat.succ_pos _
  · exact hgo t hP

theorem exists_complete_trace (hs : P s) : ∃ xs t, Trace step s xs t ∧ xs.length = μ s := by
  have hlong : ∀ m ≤ μ s, ∃ xs t, Trace step s xs t ∧ xs.length = m := by
    intro m hm
    induction m with
    | zero => exact ⟨[], s, .nil, rfl⟩
    | succ m ih =>
      obtain ⟨xs, t, h, hlen⟩ := ih (Nat.le_of_succ_le hm)
      obtain ⟨x, u, hx⟩ := (h.goes_on_iff hdrop hgo hs).mpr (hlen ▸ hm)
      exact ⟨x :: xs, u, h.cons hx, congrArg Nat.succ hlen⟩
  exact hlong (μ s) le_rfl

end Measure

def since (marked : ι → Bool) (xs : List ι) : List ι := xs.takeWhile fun x => !marked x

def lastMarked (marked : ι → Bool) (xs : List ι) : Option ι := xs.find? marked

variable {marked : ι → Bool} {x : ι}

theorem since_cons_of_not (h : marked x = false) :
    since marked (x :: xs) = x :: since marked xs := by simp [since, h]

theorem marked_of_lastMarked (h : lastMarked marked xs = some x) : marked x = true :=
  List.find?_some h

theorem mem_of_mem_since {y : ι} (h : y ∈ since marked xs) : y ∈ xs :=
  List.takeWhile_subset _ h

def recording (step : σ → ι → σ → Prop) (s : σ) (x : σ × ι) (t : σ) : Prop :=
  x.1 = s ∧ step s x.2 t

def Throughout (P : List (σ × ι) → σ → Prop) : List (σ × ι) → σ → Prop
  | [], s => P [] s
  | x :: xs, s => P (x :: xs) s ∧ Throughout P xs x.1

variable {P : List (σ × ι) → σ → Prop} {ys : List (σ × ι)}

theorem Trace.exists_recorded (h : Trace step s xs t) :
    ∃ ys, ys.map Prod.snd = xs ∧ Trace (recording step) s ys t := by
  induction h with
  | nil => exact ⟨[], rfl, .nil⟩
  | cons _ hx ih =>
    obtain ⟨ys, hys, htr⟩ := ih
    exact ⟨(_, _) :: ys, congrArg _ hys, htr.cons ⟨rfl, hx⟩⟩

theorem Trace.forget (h : Trace (recording step) s ys t) : Trace step s (ys.map Prod.snd) t := by
  induction h with
  | nil => exact .nil
  | cons _ hx ih => exact ih.cons hx.2

theorem Throughout.now (h : Throughout P ys t) : P ys t := by
  cases ys with
  | nil => exact h
  | cons y ys => exact h.1

/-- A property that each step keeps exactly when the step meets a guard holds throughout a
trace exactly when it holds at the start and all steps meet the guard. -/
theorem Trace.throughout_iff {guard : σ → ι → Prop} (h : Trace (recording step) s ys t)
    (hstep : ∀ ys n x n', Trace (recording step) s ys n → P ys n → step n x n' →
      (P ((n, x) :: ys) n' ↔ guard n x)) :
    Throughout P ys t ↔ P [] s ∧ ∀ y ∈ ys, guard y.1 y.2 := by
  induction h with
  | nil => simp [Throughout]
  | @cons ys n n' y htr hy ih =>
    obtain ⟨n, x⟩ := y
    obtain ⟨rfl, hx⟩ := hy
    rw [Throughout, ih, List.forall_mem_cons]
    constructor
    · rintro ⟨hnow, hstart, hall⟩
      have hbefore := (ih.mpr ⟨hstart, hall⟩).now
      exact ⟨hstart, (hstep _ _ _ _ htr hbefore hx).mp hnow, hall⟩
    · rintro ⟨hstart, hguard, hall⟩
      have hbefore := (ih.mpr ⟨hstart, hall⟩).now
      exact ⟨(hstep _ _ _ _ htr hbefore hx).mpr hguard, hstart, hall⟩

end LabelledTrace
