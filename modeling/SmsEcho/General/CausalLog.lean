import Mathlib.Data.List.Basic

/-! Logs, newest entry first, in which every entry has a cause among the older ones. -/

namespace CausalLog

variable {α : Type*} {cause : List α → α → Prop} {l later earlier : List α} {x : α}

inductive Caused (cause : List α → α → Prop) : List α → Prop
  | nil : Caused cause []
  | cons {x : α} {l : List α} : cause l x → Caused cause l → Caused cause (x :: l)

theorem Caused.of_append (h : Caused cause (later ++ earlier)) : Caused cause earlier := by
  induction later with
  | nil => exact h
  | cons y later ih =>
    cases h with
    | cons _ hrest => exact ih hrest

theorem Caused.split (h : Caused cause (later ++ x :: earlier)) : cause earlier x := by
  cases h.of_append with
  | cons hx _ => exact hx

theorem Caused.exists_cause (h : Caused cause l) (hx : x ∈ l) :
    ∃ earlier, earlier ⊆ l ∧ cause earlier x := by
  obtain ⟨later, earlier, rfl⟩ := List.append_of_mem hx
  refine ⟨earlier, fun y hy => ?_, h.split⟩
  exact List.mem_append_right later (List.mem_cons_of_mem x hy)

theorem Caused.exists_root {P R : α → Prop} (h : Caused cause l)
    (hback : ∀ earlier x, cause earlier x → P x → R x ∨ ∃ y ∈ earlier, P y)
    (hx : x ∈ l) (hP : P x) : ∃ y ∈ l, P y ∧ R y := by
  induction h generalizing x with
  | nil => exact absurd hx List.not_mem_nil
  | @cons z l hz hl ih =>
    have hrest : ∀ y ∈ l, P y → ∃ y ∈ z :: l, P y ∧ R y := by
      intro y hy hPy
      obtain ⟨w, hw, hroot⟩ := ih hy hPy
      exact ⟨w, List.mem_cons_of_mem z hw, hroot⟩
    rcases List.mem_cons.mp hx with rfl | hx
    · rcases hback l x hz hP with hR | ⟨y, hy, hPy⟩
      · exact ⟨x, List.mem_cons_self, hP, hR⟩
      · exact hrest y hy hPy
    · exact hrest x hx hP

end CausalLog
