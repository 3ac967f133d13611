import Mathlib

/-! The blocks a program has on the heap. To free a block that is not live is a fault, so that a
program without faults frees nothing twice and uses nothing after. -/

structure BlockLedger where
  live : Finset ℕ
  next : ℕ
  live_lt : ∀ b ∈ live, b < next

namespace BlockLedger

def empty : BlockLedger := ⟨∅, 0, by simp⟩

def alloc (h : BlockLedger) : ℕ × BlockLedger :=
  (h.next,
    { live := insert h.next h.live
      next := h.next + 1
      live_lt := by
        intro b hb
        rcases Finset.mem_insert.mp hb with rfl | hb
        · exact Nat.lt_succ_self _
        · exact Nat.lt_succ_of_lt (h.live_lt b hb) })

def free (h : BlockLedger) (b : ℕ) : Option BlockLedger :=
  if b ∈ h.live then
    some ⟨h.live.erase b, h.next, fun c hc => h.live_lt c (Finset.mem_of_mem_erase hc)⟩
  else none

variable {h : BlockLedger} {b : ℕ}

theorem alloc_fst_mem (h : BlockLedger) : h.alloc.1 ∈ h.alloc.2.live :=
  Finset.mem_insert_self _ _

theorem card_alloc (h : BlockLedger) : h.alloc.2.live.card = h.live.card + 1 :=
  Finset.card_insert_of_notMem fun hmem => (h.live_lt _ hmem).false

theorem exists_free (hb : b ∈ h.live) : ∃ h', h.free b = some h' ∧
    h'.live.card + 1 = h.live.card := by
  refine ⟨_, if_pos hb, ?_⟩
  exact Finset.card_erase_add_one hb

end BlockLedger
