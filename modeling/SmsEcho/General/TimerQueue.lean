import Mathlib

/-! The event queue of a discrete-event simulator. Scheduling hands out an
identifier that is never used again; an identifier is expired once its event has
run or has been cancelled. Running an event first takes it off the queue, which
for its identifier is the same as cancelling it. -/

/-- The handle a program keeps of an event; `none` is a handle never assigned. -/
abbrev EventId := Option ℕ

structure Event (τ α : Type*) where
  uid : ℕ
  delay : τ
  action : α
deriving DecidableEq

/-- A queue whose identifiers are pairwise distinct and all older than the next one. -/
structure TimerQueue (τ α : Type*) where
  pending : List (Event τ α)
  nextUid : ℕ
  uid_lt : ∀ e ∈ pending, e.uid < nextUid
  uid_nodup : (pending.map Event.uid).Nodup

namespace TimerQueue
variable {τ α κ : Type*}

def empty : TimerQueue τ α := ⟨[], 0, by simp, by simp⟩

def schedule (q : TimerQueue τ α) (delay : τ) (action : α) : EventId × TimerQueue τ α :=
  (some q.nextUid,
    { pending := q.pending ++ [⟨q.nextUid, delay, action⟩]
      nextUid := q.nextUid + 1
      uid_lt := by
        intro e he
        rcases List.mem_append.mp he with he | he
        · exact Nat.lt_succ_of_lt (q.uid_lt e he)
        · rw [List.mem_singleton.mp he]
          exact Nat.lt_succ_self _
      uid_nodup := by
        rw [List.map_append, List.nodup_append]
        refine ⟨q.uid_nodup, by simp, ?_⟩
        intro a ha b hb
        obtain ⟨e, he, rfl⟩ := List.mem_map.mp ha
        rw [List.map_singleton, List.mem_singleton] at hb
        subst hb
        exact (q.uid_lt e he).ne })

def cancel (q : TimerQueue τ α) (id : EventId) : TimerQueue τ α where
  pending := q.pending.filter fun e => some e.uid ≠ id
  nextUid := q.nextUid
  uid_lt e he := q.uid_lt e (List.mem_filter.mp he).1
  uid_nodup := (List.filter_sublist.map Event.uid).nodup q.uid_nodup

def isExpired (q : TimerQueue τ α) (id : EventId) : Bool :=
  q.pending.all fun e => some e.uid ≠ id

@[simp] theorem schedule_fst (q : TimerQueue τ α) (d : τ) (a : α) :
    (q.schedule d a).1 = some q.nextUid := rfl

@[simp] theorem schedule_pending (q : TimerQueue τ α) (d : τ) (a : α) :
    (q.schedule d a).2.pending = q.pending ++ [⟨q.nextUid, d, a⟩] := rfl

@[simp] theorem schedule_nextUid (q : TimerQueue τ α) (d : τ) (a : α) :
    (q.schedule d a).2.nextUid = q.nextUid + 1 := rfl

@[simp] theorem cancel_nextUid (q : TimerQueue τ α) (id : EventId) :
    (q.cancel id).nextUid = q.nextUid := rfl

theorem mem_cancel {q : TimerQueue τ α} {id : EventId} {e : Event τ α} :
    e ∈ (q.cancel id).pending ↔ e ∈ q.pending ∧ some e.uid ≠ id := by
  simp [cancel]

theorem isExpired_iff {q : TimerQueue τ α} {id : EventId} :
    q.isExpired id = true ↔ ∀ e ∈ q.pending, some e.uid ≠ id := by
  simp [isExpired]

theorem isExpired_cancel (q : TimerQueue τ α) (id : EventId) : (q.cancel id).isExpired id = true :=
  isExpired_iff.mpr fun _ he => (mem_cancel.mp he).2

theorem eq_of_uid_eq {q : TimerQueue τ α} {e e' : Event τ α} (he : e ∈ q.pending)
    (he' : e' ∈ q.pending) (h : e.uid = e'.uid) : e = e' :=
  List.inj_on_of_nodup_map q.uid_nodup he he' h

theorem cons_cancel_perm {q : TimerQueue τ α} {e : Event τ α} (he : e ∈ q.pending) :
    (e :: (q.cancel (some e.uid)).pending).Perm q.pending := by
  obtain ⟨front, back, hsplit⟩ := List.append_of_mem he
  have hkeep : ∀ a ∈ front ++ back, some a.uid ≠ some e.uid := by
    have hn := q.uid_nodup
    rw [hsplit, List.map_append, List.map_cons, List.nodup_middle, List.nodup_cons] at hn
    intro a ha heq
    rw [← List.map_append] at hn
    exact hn.1 (Option.some.inj heq ▸ List.mem_map_of_mem ha)
  have hrest : (q.cancel (some e.uid)).pending = front ++ back := by
    have hfront := List.filter_eq_self.mpr fun a ha =>
      decide_eq_true (hkeep a (List.mem_append_left back ha))
    have hback := List.filter_eq_self.mpr fun a ha =>
      decide_eq_true (hkeep a (List.mem_append_right front ha))
    change (q.pending.filter fun a => some a.uid ≠ some e.uid) = front ++ back
    rw [hsplit, List.filter_append, List.filter_cons_of_neg (by simp), hfront, hback]
  rw [hrest, hsplit]
  exact List.perm_middle.symm

/-- Every pending event is the one in the slot of its kind: a program with one slot for each
kind loses the event of a slot that it overwrites. -/
def Recorded (kind : α → κ) (slot : κ → EventId) (q : TimerQueue τ α) : Prop :=
  ∀ e ∈ q.pending, slot (kind e.action) = some e.uid

variable {kind : α → κ} {slot : κ → EventId} {q : TimerQueue τ α}

theorem recorded_of_pending_nil (h : q.pending = []) : Recorded kind slot q := by
  simp [Recorded, h]

theorem Recorded.cancel (h : Recorded kind slot q) (id : EventId) :
    Recorded kind slot (q.cancel id) :=
  fun e he => h e (mem_cancel.mp he).1

theorem Recorded.eq_of_kind_eq (h : Recorded kind slot q) {e e' : Event τ α}
    (he : e ∈ q.pending) (he' : e' ∈ q.pending) (hk : kind e.action = kind e'.action) :
    e = e' := by
  have hs : some e.uid = some e'.uid := by rw [← h e he, ← h e' he', hk]
  exact eq_of_uid_eq he he' (Option.some.inj hs)

theorem Recorded.kind_ne_of_mem_cancel (h : Recorded kind slot q) {k : κ} {e : Event τ α}
    (he : e ∈ (q.cancel (slot k)).pending) : kind e.action ≠ k := by
  obtain ⟨hq, hid⟩ := mem_cancel.mp he
  rintro rfl
  exact hid (h e hq).symm

theorem Recorded.isExpired_of_fire (h : Recorded kind slot q) {e : Event τ α}
    (he : e ∈ q.pending) : (q.cancel (some e.uid)).isExpired (slot (kind e.action)) = true := by
  rw [h e he]
  exact isExpired_cancel q _

theorem Recorded.schedule [DecidableEq κ] (h : Recorded kind slot q) (d : τ) {a : α}
    (hfree : ∀ e ∈ q.pending, kind e.action ≠ kind a) :
    Recorded kind (Function.update slot (kind a) (q.schedule d a).1) (q.schedule d a).2 := by
  intro e he
  rw [schedule_pending, List.mem_append, List.mem_singleton] at he
  rcases he with he | rfl
  · rw [Function.update_of_ne (hfree e he)]
    exact h e he
  · simp

structure OwnSlots (kind : α → κ) (slot : κ → EventId) (q : TimerQueue τ α) : Prop where
  issued : ∀ k id, slot k = some id → id < q.nextUid
  own : ∀ e ∈ q.pending, ∀ k, slot k = some e.uid → kind e.action = k

theorem OwnSlots.cancel (h : OwnSlots kind slot q) (id : EventId) :
    OwnSlots kind slot (q.cancel id) where
  issued := h.issued
  own e he := h.own e (mem_cancel.mp he).1

theorem OwnSlots.schedule [DecidableEq κ] (h : OwnSlots kind slot q) (d : τ) (a : α) :
    OwnSlots kind (Function.update slot (kind a) (q.schedule d a).1) (q.schedule d a).2 where
  issued k id hid := by
    by_cases hk : k = kind a
    · subst hk
      rw [Function.update_self, schedule_fst] at hid
      rw [← Option.some.inj hid]
      exact Nat.lt_succ_self _
    · rw [Function.update_of_ne hk] at hid
      exact Nat.lt_succ_of_lt (h.issued k id hid)
  own e he k hid := by
    rw [schedule_pending, List.mem_append, List.mem_singleton] at he
    by_cases hk : k = kind a
    · subst hk
      rw [Function.update_self, schedule_fst] at hid
      rcases he with he | rfl
      · have hlt := q.uid_lt e he
        rw [← Option.some.inj hid] at hlt
        exact absurd hlt (lt_irrefl _)
      · rfl
    · rw [Function.update_of_ne hk] at hid
      rcases he with he | rfl
      · exact h.own e he k hid
      · exact absurd (h.issued k _ hid) (lt_irrefl _)

theorem mem_cancel_slot (hr : Recorded kind slot q) (ho : OwnSlots kind slot q) {k : κ}
    {e : Event τ α} : e ∈ (q.cancel (slot k)).pending ↔ e ∈ q.pending ∧ kind e.action ≠ k := by
  rw [mem_cancel]
  refine and_congr_right fun he => not_congr ?_
  constructor
  · exact fun heq => ho.own e he k heq.symm
  · rintro rfl
    exact (hr e he).symm

end TimerQueue
