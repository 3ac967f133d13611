import SmsEcho.General.TimerQueue
import SmsEcho.Client.WireFormat

/-! The three event slots of a node, and the events the simulator holds for it. -/

namespace SmsEcho
open TimerQueue

/-- Seconds until an event fires; `⊤` where the source's double is infinite. -/
abbrev Delay := WithTop ℚ

/-- The bound member functions the node schedules, with the arguments they capture. -/
inductive Action where
  | send
  | requestPacket (sender : Ipv4Address) (fileToRequest : FileSMSChunks)
  | reply (header : ReplyHeader) (chunkSize : UInt16)
deriving DecidableEq

inductive EventKind where
  | send
  | request
  | reply
deriving DecidableEq, Repr

def Action.kind : Action → EventKind
  | .send => .send
  | .requestPacket .. => .request
  | .reply .. => .reply

structure Timers where
  mSendEvent : EventId
  mRequestEvent : EventId
  mReplyEvent : EventId
  simulator : TimerQueue Delay Action

namespace Timers

def unset : Timers := ⟨none, none, none, TimerQueue.empty⟩

def slot (t : Timers) : EventKind → EventId
  | .send => t.mSendEvent
  | .request => t.mRequestEvent
  | .reply => t.mReplyEvent

def setSlot (t : Timers) (k : EventKind) (id : EventId) : Timers :=
  match k with
  | .send => { t with mSendEvent := id }
  | .request => { t with mRequestEvent := id }
  | .reply => { t with mReplyEvent := id }

/-- `m_sendEvent = Simulator::Schedule (delay, &SmsEchoClient::Send, this)`, and the
same for the other two slots. -/
def schedule (t : Timers) (delay : Delay) (a : Action) : Timers :=
  { t.setSlot a.kind (t.simulator.schedule delay a).1 with
    simulator := (t.simulator.schedule delay a).2 }

def cancel (t : Timers) (id : EventId) : Timers := { t with simulator := t.simulator.cancel id }

def cancelAllEvents (t : Timers) : Timers :=
  ((t.cancel t.mSendEvent).cancel t.mReplyEvent).cancel t.mRequestEvent

def arm (t : Timers) (delay sendDelay : Delay) : Option Action → Timers
  | none => t.schedule sendDelay .send
  | some a => (t.schedule delay a).schedule sendDelay .send

def pending (t : Timers) : List (Event Delay Action) := t.simulator.pending

def Recorded (t : Timers) : Prop := TimerQueue.Recorded Action.kind t.slot t.simulator

structure Disciplined (t : Timers) : Prop where
  recorded : t.Recorded
  exclusive : ∀ e ∈ t.pending, ∀ e' ∈ t.pending,
    e.action.kind = .request → e'.action.kind ≠ .reply

@[simp] theorem cancel_slot (t : Timers) (id : EventId) : (t.cancel id).slot = t.slot := by
  funext k
  cases k <;> rfl

theorem schedule_slot (t : Timers) (d : Delay) (a : Action) :
    (t.schedule d a).slot = Function.update t.slot a.kind (t.simulator.schedule d a).1 := by
  funext k
  unfold schedule
  cases a.kind <;> cases k <;> simp [slot, setSlot, Function.update]

@[simp] theorem schedule_simulator (t : Timers) (d : Delay) (a : Action) :
    (t.schedule d a).simulator = (t.simulator.schedule d a).2 := rfl

@[simp] theorem schedule_pending (t : Timers) (d : Delay) (a : Action) :
    (t.schedule d a).pending = t.pending ++ [⟨t.simulator.nextUid, d, a⟩] := rfl

theorem mem_cancel_pending {t : Timers} {id : EventId} {e : Event Delay Action} :
    e ∈ (t.cancel id).pending ↔ e ∈ t.pending ∧ some e.uid ≠ id := TimerQueue.mem_cancel

theorem cons_cancel_perm {t : Timers} {e : Event Delay Action} (he : e ∈ t.pending) :
    (e :: (t.cancel (some e.uid)).pending).Perm t.pending := TimerQueue.cons_cancel_perm he

theorem Recorded.cancel {t : Timers} (h : t.Recorded) (id : EventId) : (t.cancel id).Recorded := by
  rw [Recorded, cancel_slot]
  exact TimerQueue.Recorded.cancel h id

theorem cancelAllEvents_pending {t : Timers} (h : t.Recorded) : t.cancelAllEvents.pending = [] := by
  rw [List.eq_nil_iff_forall_not_mem]
  intro e he
  have h1 : e ∈ ((t.cancel t.mSendEvent).cancel t.mReplyEvent).pending :=
    (mem_cancel_pending.mp he).1
  have h2 : e ∈ (t.cancel t.mSendEvent).pending := (mem_cancel_pending.mp h1).1
  have hsend : e.action.kind ≠ .send := TimerQueue.Recorded.kind_ne_of_mem_cancel h h2
  have hreply : e.action.kind ≠ .reply :=
    TimerQueue.Recorded.kind_ne_of_mem_cancel (h.cancel t.mSendEvent) h1
  have hrequest : e.action.kind ≠ .request :=
    TimerQueue.Recorded.kind_ne_of_mem_cancel ((h.cancel t.mSendEvent).cancel t.mReplyEvent) he
  cases hk : e.action.kind with
  | send => exact hsend hk
  | request => exact hrequest hk
  | reply => exact hreply hk

@[simp] theorem cancelAllEvents_nextUid (t : Timers) :
    t.cancelAllEvents.simulator.nextUid = t.simulator.nextUid := rfl

theorem Recorded.schedule {t : Timers} (h : t.Recorded) (d : Delay) {a : Action}
    (hfree : ∀ e ∈ t.pending, e.action.kind ≠ a.kind) : (t.schedule d a).Recorded := by
  rw [Recorded, schedule_slot]
  exact TimerQueue.Recorded.schedule h d hfree

theorem recorded_of_pending_nil {t : Timers} (h : t.pending = []) : t.Recorded :=
  TimerQueue.recorded_of_pending_nil h

theorem Recorded.kinds_nodup {t : Timers} (h : t.Recorded) :
    (t.pending.map fun e => e.action.kind).Nodup := by
  have hnodup : t.pending.Nodup := List.Nodup.of_map _ t.simulator.uid_nodup
  exact hnodup.map_on fun e he e' he' hk => TimerQueue.Recorded.eq_of_kind_eq h he he' hk

theorem Disciplined.cancel {t : Timers} (h : t.Disciplined) (id : EventId) :
    (t.cancel id).Disciplined where
  recorded := h.recorded.cancel id
  exclusive := fun e he e' he' =>
    h.exclusive e (mem_cancel_pending.mp he).1 e' (mem_cancel_pending.mp he').1

theorem mem_cancelAllEvents_pending {t : Timers} {e : Event Delay Action}
    (he : e ∈ t.cancelAllEvents.pending) : e ∈ t.pending :=
  (mem_cancel_pending.mp (mem_cancel_pending.mp (mem_cancel_pending.mp he).1).1).1

theorem mem_arm_pending {t : Timers} {d d' : Delay} {a : Option Action} {e : Event Delay Action}
    (he : e ∈ (t.arm d d' a).pending) : e ∈ t.pending ∨ e.action = .send ∨ a = some e.action := by
  cases a with
  | none =>
    rw [arm, schedule_pending, List.mem_append, List.mem_singleton] at he
    rcases he with he | rfl
    · exact Or.inl he
    · exact Or.inr (Or.inl rfl)
  | some a =>
    rw [arm, schedule_pending, schedule_pending, List.mem_append, List.mem_append,
      List.mem_singleton, List.mem_singleton] at he
    rcases he with (he | rfl) | rfl
    · exact Or.inl he
    · exact Or.inr (Or.inr rfl)
    · exact Or.inr (Or.inl rfl)

theorem arm_pending {t : Timers} (h : t.pending = []) (d d' : Delay) (a : Option Action) :
    (t.arm d d' a).pending =
      a.toList.map (fun a => ⟨t.simulator.nextUid, d, a⟩) ++
        [⟨t.simulator.nextUid + a.toList.length, d', .send⟩] := by
  cases a with
  | none => simp [arm, h]
  | some a => simp [arm, h]

theorem disciplined_arm {t : Timers} (h : t.pending = []) (d d' : Delay) {a : Option Action}
    (ha : ∀ b ∈ a, b.kind ≠ .send) : (t.arm d d' a).Disciplined where
  recorded := by
    have hempty := recorded_of_pending_nil h
    cases a with
    | none => exact hempty.schedule d' (by simp [h])
    | some a =>
      have hone := hempty.schedule d (a := a) (by simp [h])
      apply hone.schedule d'
      simpa [h, Action.kind] using ha a rfl
  exclusive := by
    rw [arm_pending h]
    rcases a with - | (- | - | -) <;> simp [Action.kind]

def OwnSlots (t : Timers) : Prop := TimerQueue.OwnSlots Action.kind t.slot t.simulator

theorem ownSlots_unset : unset.OwnSlots where
  issued k id hid := by
    cases k <;> exact absurd hid (by simp [unset, slot])
  own e he := by
    change e ∈ [] at he
    simp at he

theorem OwnSlots.cancel {t : Timers} (h : t.OwnSlots) (id : EventId) : (t.cancel id).OwnSlots := by
  rw [OwnSlots, cancel_slot]
  exact TimerQueue.OwnSlots.cancel h id

theorem OwnSlots.schedule {t : Timers} (h : t.OwnSlots) (d : Delay) (a : Action) :
    (t.schedule d a).OwnSlots := by
  rw [OwnSlots, schedule_slot]
  exact TimerQueue.OwnSlots.schedule h d a

theorem OwnSlots.cancelAllEvents {t : Timers} (h : t.OwnSlots) : t.cancelAllEvents.OwnSlots :=
  ((h.cancel t.mSendEvent).cancel t.mReplyEvent).cancel t.mRequestEvent

theorem OwnSlots.arm {t : Timers} (h : t.OwnSlots) (d d' : Delay) (a : Option Action) :
    (t.arm d d' a).OwnSlots := by
  cases a with
  | none => exact h.schedule d' .send
  | some a => exact (h.schedule d a).schedule d' .send

def current (t : Timers) (k : EventKind) : Option (Event Delay Action) :=
  t.pending.find? fun e => e.action.kind = k ∧ t.slot k = some e.uid

theorem kind_ne_of_current_none {t : Timers} (h : t.Recorded) {k : EventKind}
    (hk : t.current k = none) : ∀ e ∈ t.pending, e.action.kind ≠ k := by
  intro e he heq
  have hnot := List.find?_eq_none.mp hk e he
  have hslot : t.slot k = some e.uid := by
    have hrec := h e he
    rwa [heq] at hrec
  exact hnot (decide_eq_true ⟨heq, hslot⟩)

theorem cancelAllEvents_slot (t : Timers) : t.cancelAllEvents.slot = t.slot := by
  simp [cancelAllEvents]

theorem slot_ne_of_mem_cancelAllEvents {t : Timers} {e : Event Delay Action}
    (he : e ∈ t.cancelAllEvents.pending) (k : EventKind) : t.slot k ≠ some e.uid := by
  obtain ⟨h12, hrequest⟩ := mem_cancel_pending.mp he
  obtain ⟨h1, hreply⟩ := mem_cancel_pending.mp h12
  obtain ⟨-, hsend⟩ := mem_cancel_pending.mp h1
  cases k with
  | send => exact hsend.symm
  | request => exact hrequest.symm
  | reply => exact hreply.symm

theorem current_arm (t : Timers) (d d' : Delay) (a : Option Action) {k : EventKind}
    (hk : k ≠ .send) : ((t.cancelAllEvents.arm d d' a).current k).map Event.action =
      a.filter fun b => b.kind = k := by
  have hsend : ¬ Action.kind .send = k := fun h => hk h.symm
  cases a with
  | none =>
    have hslot : (t.cancelAllEvents.arm d d' none).slot k = t.slot k := by
      rw [arm, schedule_slot, Function.update_of_ne (fun h => hsend h.symm), cancelAllEvents_slot]
    have hnone : (t.cancelAllEvents.arm d d' none).current k = none := by
      rw [current, List.find?_eq_none, hslot]
      intro e he
      rw [arm, schedule_pending, List.mem_append, List.mem_singleton] at he
      rcases he with he | rfl
      · simp [slot_ne_of_mem_cancelAllEvents he k]
      · simp [hsend]
    rw [hnone]
    rfl
  | some a =>
    have hslot : (t.cancelAllEvents.arm d d' (some a)).slot k =
        if a.kind = k then some t.simulator.nextUid else t.slot k := by
      rw [arm, schedule_slot, Function.update_of_ne (fun h => hsend h.symm), schedule_slot,
        cancelAllEvents_slot, Function.update_apply]
      simp only [eq_comm]
      rfl
    have hold : ∀ e ∈ t.cancelAllEvents.pending, ¬ (e.action.kind = k ∧
        (t.cancelAllEvents.arm d d' (some a)).slot k = some e.uid) := by
      rintro e he ⟨-, hs⟩
      rw [hslot] at hs
      split_ifs at hs with hkind
      · have hlt := t.cancelAllEvents.simulator.uid_lt e he
        rw [← Option.some.inj hs] at hlt
        exact absurd hlt (lt_irrefl _)
      · exact slot_ne_of_mem_cancelAllEvents he k hs
    have hpending : (t.cancelAllEvents.arm d d' (some a)).pending = t.cancelAllEvents.pending ++
        [⟨t.simulator.nextUid, d, a⟩, ⟨t.simulator.nextUid + 1, d', .send⟩] := by
      simp [arm]
    have hskip : t.cancelAllEvents.pending.find? (fun e => e.action.kind = k ∧
        (t.cancelAllEvents.arm d d' (some a)).slot k = some e.uid) = none := by
      rw [List.find?_eq_none]
      exact fun e he => by simpa using hold e he
    rw [current, hpending, List.find?_append, hskip, hslot]
    by_cases hkind : a.kind = k
    · simp [hkind, Option.filter]
    · simp [hkind, hsend, Option.filter]

end Timers
end SmsEcho
