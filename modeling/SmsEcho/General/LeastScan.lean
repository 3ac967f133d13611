import Mathlib

/-! Two scans for the least key of a list: one keeps every element that ties for
it, clearing what it kept whenever a smaller key turns up, the other keeps the first
element that is strictly below everything before it. -/

namespace LeastScan
variable {α β : Type*} [LinearOrder β] (key : α → β)

def keepLeast (s : β × List α) (a : α) : β × List α :=
  if key a < s.1 then (key a, [a])
  else if key a = s.1 then (s.1, s.2 ++ [a])
  else s

def least (bound : β) (l : List α) : β := l.foldl (fun b a => min b (key a)) bound

def firstBelow (s : α × β) (a : α) : α × β := if key a < s.2 then (a, key a) else s

theorem least_append_singleton (bound : β) (l : List α) (a : α) :
    least key bound (l ++ [a]) = min (least key bound l) (key a) := by
  simp [least]

theorem least_le (bound : β) {l : List α} {a : α} (ha : a ∈ l) : least key bound l ≤ key a := by
  induction l using List.reverseRecOn with
  | nil => simp at ha
  | append_singleton l b ih =>
    rw [least_append_singleton]
    rcases List.mem_append.mp ha with ha | ha
    · exact (min_le_left _ _).trans (ih ha)
    · rw [List.mem_singleton.mp ha]
      exact min_le_right _ _

theorem exists_least {bound : β} {l : List α} (hb : ∀ a ∈ l, key a ≤ bound) (hne : l ≠ []) :
    ∃ a ∈ l, key a = least key bound l := by
  induction l using List.reverseRecOn with
  | nil => exact absurd rfl hne
  | append_singleton l b ih =>
    rw [least_append_singleton]
    rcases le_total (least key bound l) (key b) with h | h
    · rw [min_eq_left h]
      by_cases hl : l = []
      · subst hl
        exact ⟨b, by simp, le_antisymm (hb b (by simp)) h⟩
      · obtain ⟨a, ha, hk⟩ := ih (fun a ha => hb a (List.mem_append_left _ ha)) hl
        exact ⟨a, List.mem_append_left _ ha, hk⟩
    · rw [min_eq_right h]
      exact ⟨b, by simp, rfl⟩

theorem foldl_keepLeast (bound : β) (l : List α) :
    l.foldl (keepLeast key) (bound, []) =
      (least key bound l, l.filter fun a => key a = least key bound l) := by
  induction l using List.reverseRecOn with
  | nil => rfl
  | append_singleton l b ih =>
    rw [List.foldl_append, ih, List.foldl_cons, List.foldl_nil, least_append_singleton, keepLeast]
    rcases lt_trichotomy (key b) (least key bound l) with h | h | h
    · -- a new least key: everything kept so far lies strictly above it
      have hnone : (l.filter fun a => key a = key b) = [] := by
        rw [List.filter_eq_nil_iff]
        intro a ha
        have hle : least key bound l ≤ key a := least_le key bound ha
        simpa using (h.trans_le hle).ne'
      rw [if_pos h, min_eq_right h.le, List.filter_append, hnone]
      simp
    · rw [if_neg h.not_lt, if_pos h, min_eq_left h.ge, List.filter_append]
      simp [h]
    · rw [if_neg h.not_gt, if_neg h.ne', min_eq_left h.le, List.filter_append]
      simp [h.ne']

theorem foldl_firstBelow (start : α) (bound : β) (l : List α) :
    (∀ a ∈ l, ¬ key a < bound) ∧ l.foldl (firstBelow key) (start, bound) = (start, bound) ∨
    ∃ front a back, l = front ++ a :: back ∧ key a < bound ∧ (∀ b ∈ front, key a < key b) ∧
      (∀ b ∈ back, key a ≤ key b) ∧ l.foldl (firstBelow key) (start, bound) = (a, key a) := by
  induction l using List.reverseRecOn with
  | nil => exact Or.inl ⟨by simp, rfl⟩
  | append_singleton l b ih =>
    rw [List.foldl_append, List.foldl_cons, List.foldl_nil]
    rcases ih with ⟨hall, heq⟩ | ⟨front, a, back, rfl, ha, hfront, hback, heq⟩
    · rw [heq, firstBelow]
      by_cases hb : key b < bound
      · refine Or.inr ⟨l, b, [], rfl, hb, fun c hc => ?_, by simp, by rw [if_pos hb]⟩
        exact hb.trans_le (not_lt.mp (hall c hc))
      · refine Or.inl ⟨?_, by rw [if_neg hb]⟩
        intro c hc
        rcases List.mem_append.mp hc with hc | hc
        · exact hall c hc
        · rw [List.mem_singleton.mp hc]
          exact hb
    · rw [heq, firstBelow]
      by_cases hb : key b < key a
      · refine Or.inr ⟨front ++ a :: back, b, [], rfl, hb.trans ha, ?_, by simp, by rw [if_pos hb]⟩
        intro c hc
        rcases List.mem_append.mp hc with hc | hc
        · exact hb.trans (hfront c hc)
        · rcases List.mem_cons.mp hc with rfl | hc
          · exact hb
          · exact hb.trans_le (hback c hc)
      · refine Or.inr ⟨front, a, back ++ [b], by simp, ha, hfront, ?_, by rw [if_neg hb]⟩
        intro c hc
        rcases List.mem_append.mp hc with hc | hc
        · exact hback c hc
        · rw [List.mem_singleton.mp hc]
          exact not_lt.mp hb

theorem exists_of_filter_eq_append_cons {p : α → Bool} {l front back : List α} {a : α}
    (h : l.filter p = front ++ a :: back) :
    ∃ before after, l = before ++ a :: after ∧ ∀ b ∈ before, p b = true → b ∈ front := by
  obtain ⟨l₁, l₂, rfl, rfl, h₂⟩ := List.filter_eq_append_iff.mp h
  obtain ⟨skipped, after, rfl, hskip, -, -⟩ := List.filter_eq_cons_iff.mp h₂
  refine ⟨l₁ ++ skipped, after, (List.append_assoc ..).symm, fun b hb hp => ?_⟩
  rcases List.mem_append.mp hb with hb | hb
  · exact List.mem_filter.mpr ⟨hb, hp⟩
  · exact absurd hp (hskip b hb)

end LeastScan
