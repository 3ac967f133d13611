import Mathlib

/-! Lists searched by a key. The first entry with a key is the one that counts:
`lookup` reads a list as a partial map, and `upsert` (change the first entry with a
key, or append one when there is none) is a point update of that map. -/

namespace KeyedList
variable {α κ : Type*} [DecidableEq κ] (key : α → κ)

def lookup (l : List α) (k : κ) : Option α := l.find? fun a => key a = k

def upsert (k : κ) (change : α → α) (fresh : α) : List α → List α
  | [] => [fresh]
  | a :: as => if key a = k then change a :: as else a :: upsert k change fresh as

variable {key} {k : κ} {change : α → α} {fresh : α}

@[simp] theorem lookup_nil (k : κ) : lookup key [] k = none := rfl

theorem lookup_cons (a : α) (as : List α) (k : κ) :
    lookup key (a :: as) k = if key a = k then some a else lookup key as k := by
  unfold lookup
  rw [List.find?_cons]
  by_cases h : key a = k <;> simp [h]

theorem lookup_eq_none {l : List α} : lookup key l k = none ↔ k ∉ l.map key := by
  simp [lookup, List.find?_eq_none]

theorem mem_of_lookup {l : List α} {a : α} (h : lookup key l k = some a) : a ∈ l :=
  List.mem_of_find?_eq_some h

theorem key_of_lookup {l : List α} {a : α} (h : lookup key l k = some a) : key a = k := by
  simpa using List.find?_some h

theorem lookup_of_mem {l : List α} (hn : (l.map key).Nodup) {a : α} (ha : a ∈ l) :
    lookup key l (key a) = some a := by
  induction l with
  | nil => simp at ha
  | cons b bs ih =>
    rw [List.map_cons, List.nodup_cons] at hn
    rw [lookup_cons]
    rcases List.mem_cons.mp ha with rfl | ha
    · rw [if_pos rfl]
    · have hne : key b ≠ key a := fun h => hn.1 (h ▸ List.mem_map_of_mem ha)
      rw [if_neg hne]
      exact ih hn.2 ha

theorem lookup_upsert (hc : ∀ a, key a = k → key (change a) = k) (hf : key fresh = k)
    (l : List α) (j : κ) :
    lookup key (upsert key k change fresh l) j =
      if j = k then some ((lookup key l k).elim fresh change) else lookup key l j := by
  induction l with
  | nil =>
    simp only [upsert, lookup_cons, lookup_nil, Option.elim_none, hf, eq_comm]
  | cons a as ih =>
    by_cases ha : key a = k
    · rw [upsert, if_pos ha, lookup_cons, hc a ha, lookup_cons, if_pos ha, lookup_cons, ha]
      by_cases hj : j = k
      · simp [hj]
      · rw [if_neg (Ne.symm hj), if_neg hj, if_neg (Ne.symm hj)]
    · rw [upsert, if_neg ha, lookup_cons, ih, lookup_cons a as k, if_neg ha, lookup_cons a as j]
      by_cases hj : j = k
      · subst hj
        simp [ha]
      · simp [hj]

theorem map_key_upsert (hc : ∀ a, key a = k → key (change a) = k) (hf : key fresh = k)
    (l : List α) :
    (upsert key k change fresh l).map key =
      if k ∈ l.map key then l.map key else l.map key ++ [k] := by
  induction l with
  | nil => simp [upsert, hf]
  | cons a as ih =>
    by_cases ha : key a = k
    · simp [upsert, ha, hc a ha]
    · rw [upsert, if_neg ha, List.map_cons, ih]
      have hk : k ≠ key a := Ne.symm ha
      by_cases hm : k ∈ as.map key
      · rw [if_pos hm, if_pos (by rw [List.map_cons]; exact List.mem_cons_of_mem _ hm),
          List.map_cons]
      · rw [if_neg hm, if_neg (by rw [List.map_cons, List.mem_cons]; tauto), List.map_cons,
          List.cons_append]

theorem mem_map_key_upsert (hc : ∀ a, key a = k → key (change a) = k) (hf : key fresh = k)
    {l : List α} {j : κ} :
    j ∈ (upsert key k change fresh l).map key ↔ j ∈ l.map key ∨ j = k := by
  rw [map_key_upsert hc hf]
  split_ifs with hk
  · constructor
    · exact Or.inl
    · rintro (h | rfl)
      · exact h
      · exact hk
  · simp

theorem nodup_upsert (hc : ∀ a, key a = k → key (change a) = k) (hf : key fresh = k)
    {l : List α} (hn : (l.map key).Nodup) : ((upsert key k change fresh l).map key).Nodup := by
  rw [map_key_upsert hc hf]
  split_ifs with hk
  · exact hn
  · refine List.nodup_append.mpr ⟨hn, by simp, ?_⟩
    intro a ha b hb
    rw [List.mem_singleton.mp hb]
    rintro rfl
    exact hk ha

theorem forall_mem_upsert {P : α → Prop} {l : List α} (hl : ∀ a ∈ l, P a)
    (hc : ∀ a, lookup key l k = some a → P (change a)) (hf : lookup key l k = none → P fresh) :
    ∀ a ∈ upsert key k change fresh l, P a := by
  induction l with
  | nil => simpa [upsert] using hf
  | cons b bs ih =>
    rw [List.forall_mem_cons] at hl
    rw [lookup_cons] at hc hf
    by_cases hb : key b = k
    · rw [if_pos hb] at hc
      rw [upsert, if_pos hb]
      exact List.forall_mem_cons.mpr ⟨hc b rfl, hl.2⟩
    · rw [if_neg hb] at hc hf
      rw [upsert, if_neg hb]
      exact List.forall_mem_cons.mpr ⟨hl.1, ih hl.2 hc hf⟩

theorem exists_mem_upsert {l : List α} {a : α} (ha : a ∈ l) :
    a ∈ upsert key k change fresh l ∨
      lookup key l k = some a ∧ change a ∈ upsert key k change fresh l := by
  induction l with
  | nil => simp at ha
  | cons b bs ih =>
    rw [lookup_cons]
    by_cases hb : key b = k
    · rw [upsert, if_pos hb, if_pos hb]
      rcases List.mem_cons.mp ha with rfl | ha
      · exact Or.inr ⟨rfl, List.mem_cons_self ..⟩
      · exact Or.inl (List.mem_cons_of_mem _ ha)
    · rw [upsert, if_neg hb, if_neg hb]
      rcases List.mem_cons.mp ha with rfl | ha
      · exact Or.inl (List.mem_cons_self ..)
      · rcases ih ha with h | ⟨h, h'⟩
        · exact Or.inl (List.mem_cons_of_mem _ h)
        · exact Or.inr ⟨h, List.mem_cons_of_mem _ h'⟩

theorem exists_split_upsert (change : α → α) (fresh : α) {l : List α} {a : α}
    (h : lookup key l k = some a) :
    ∃ front back, l = front ++ a :: back ∧
      upsert key k change fresh l = front ++ change a :: back := by
  induction l with
  | nil => simp at h
  | cons b bs ih =>
    rw [lookup_cons] at h
    by_cases hb : key b = k
    · rw [if_pos hb] at h
      obtain rfl := Option.some.inj h
      exact ⟨[], bs, rfl, by rw [upsert, if_pos hb]; rfl⟩
    · rw [if_neg hb] at h
      obtain ⟨front, back, rfl, hup⟩ := ih h
      exact ⟨b :: front, back, rfl, by rw [upsert, if_neg hb, hup]; rfl⟩

theorem upsert_of_notMem {l : List α} (hk : k ∉ l.map key) :
    upsert key k change fresh l = l ++ [fresh] := by
  induction l with
  | nil => rfl
  | cons a as ih =>
    rw [List.map_cons, List.mem_cons, not_or] at hk
    rw [upsert, if_neg (Ne.symm hk.1), ih hk.2, List.cons_append]

theorem length_upsert (l : List α) :
    (upsert key k change fresh l).length = l.length + if lookup key l k = none then 1 else 0 := by
  induction l with
  | nil => rfl
  | cons a as ih =>
    rw [upsert, lookup_cons]
    by_cases ha : key a = k
    · simp [ha]
    · rw [if_neg ha, if_neg ha, List.length_cons, ih, List.length_cons, Nat.add_right_comm]

theorem countP_upsert {p : α → Bool} (hp : ∀ a, p (change a) = p a) (l : List α) :
    (upsert key k change fresh l).countP p =
      l.countP p + if k ∈ l.map key then 0 else if p fresh = true then 1 else 0 := by
  induction l with
  | nil => simp [upsert]
  | cons a as ih =>
    rw [upsert]
    by_cases ha : key a = k
    · have hmem : k ∈ (a :: as).map key := by
        rw [List.map_cons, ha]
        exact List.mem_cons_self ..
      rw [if_pos ha, if_pos hmem, List.countP_cons, List.countP_cons, hp, Nat.add_zero]
    · have hmem : k ∈ (a :: as).map key ↔ k ∈ as.map key := by
        rw [List.map_cons, List.mem_cons]
        exact or_iff_right (Ne.symm ha)
      rw [if_neg ha, List.countP_cons, ih, List.countP_cons, if_congr hmem rfl rfl]
      ac_rfl

variable {ι : Type*}

def upsertAll (key : α → κ) (k : ι → κ) (change : α → α) (fresh : ι → α) (l : List α)
    (xs : List ι) : List α :=
  xs.foldl (fun l x => upsert key (k x) change (fresh x) l) l

def newcomers (k : ι → κ) (known : List κ) (xs : List ι) : List ι :=
  (xs.filter fun x => k x ∉ known).eraseDupsBy fun y x => k y == k x

structure Absorbing (key : α → κ) (k : ι → κ) (change : α → α) (fresh : ι → α) : Prop where
  key_change : ∀ a, key (change a) = key a
  key_fresh : ∀ x, key (fresh x) = k x
  change_change : ∀ a, change (change a) = change a
  change_fresh : ∀ x, change (fresh x) = fresh x

theorem upsert_of_mem {l : List α} (hn : (l.map key).Nodup) (hk : k ∈ l.map key) :
    upsert key k change fresh l = l.map fun a => if key a = k then change a else a := by
  induction l with
  | nil => simp at hk
  | cons a as ih =>
    rw [List.map_cons, List.nodup_cons] at hn
    rw [List.map_cons, List.mem_cons] at hk
    rw [upsert, List.map_cons]
    by_cases ha : key a = k
    · -- no later entry has the key
      have hrest : ∀ b ∈ as, key b ≠ k := by
        intro b hb hbk
        exact hn.1 (ha ▸ hbk ▸ List.mem_map_of_mem hb)
      rw [if_pos ha, if_pos ha, List.map_congr_left fun b hb => if_neg (hrest b hb), List.map_id']
    · rw [if_neg ha, if_neg ha, ih hn.2 (hk.resolve_left (Ne.symm ha))]

theorem newcomers_cons_of_mem {k : ι → κ} {known : List κ} {x : ι} (h : k x ∈ known)
    (xs : List ι) : newcomers k known (x :: xs) = newcomers k known xs := by
  unfold newcomers
  rw [List.filter_cons_of_neg (by simpa using h)]

theorem newcomers_cons_of_notMem {k : ι → κ} {known : List κ} {x : ι} (h : k x ∉ known)
    (xs : List ι) :
    newcomers k known (x :: xs) = x :: newcomers k (known ++ [k x]) xs := by
  unfold newcomers
  rw [List.filter_cons_of_pos (by simpa using h), List.eraseDupsBy_cons, List.filter_filter]
  congr 3
  funext y
  simp [and_comm]

theorem newcomers_eq_nil {k : ι → κ} {known : List κ} {xs : List ι} (h : ∀ x ∈ xs, k x ∈ known) :
    newcomers k known xs = [] := by
  induction xs with
  | nil => rfl
  | cons x xs ih =>
    rw [List.forall_mem_cons] at h
    rw [newcomers_cons_of_mem h.1, ih h.2]

section
variable {k : ι → κ} {fresh : ι → α} (h : Absorbing key k change fresh)
include h

theorem nodup_upsertAll {l : List α} (hn : (l.map key).Nodup) (xs : List ι) :
    ((upsertAll key k change fresh l xs).map key).Nodup := by
  induction xs generalizing l with
  | nil => exact hn
  | cons x xs ih =>
    apply ih
    exact nodup_upsert (fun a ha => (h.key_change a).trans ha) (h.key_fresh x) hn

theorem mem_map_key_upsertAll {l : List α} {xs : List ι} {j : κ} :
    j ∈ (upsertAll key k change fresh l xs).map key ↔ j ∈ l.map key ∨ j ∈ xs.map k := by
  induction xs generalizing l with
  | nil => simp [upsertAll]
  | cons x xs ih =>
    change j ∈ (upsertAll key k change fresh (upsert key (k x) change (fresh x) l) xs).map key ↔ _
    rw [ih, mem_map_key_upsert (fun a ha => (h.key_change a).trans ha) (h.key_fresh x),
      List.map_cons, List.mem_cons, or_assoc]

/-- The entries stay where they are and those with a key among the updates are changed; behind
them come the newcomers. -/
theorem upsertAll_eq {l : List α} (hn : (l.map key).Nodup) (xs : List ι) :
    upsertAll key k change fresh l xs =
      (l.map fun a => if key a ∈ xs.map k then change a else a) ++
        (newcomers k (l.map key) xs).map fresh := by
  induction xs generalizing l with
  | nil => simp [upsertAll, newcomers]
  | cons x xs ih =>
    change upsertAll key k change fresh (upsert key (k x) change (fresh x) l) xs = _
    by_cases hx : k x ∈ l.map key
    · have hkeys : (l.map fun a => if key a = k x then change a else a).map key = l.map key := by
        rw [List.map_map]
        apply List.map_congr_left
        intro a _
        change key (if key a = k x then change a else a) = key a
        split_ifs
        · exact h.key_change a
        · rfl
      rw [upsert_of_mem hn hx, ih (hkeys ▸ hn), hkeys, newcomers_cons_of_mem hx, List.map_map]
      congr 1
      apply List.map_congr_left
      intro a _
      change (if key (if key a = k x then change a else a) ∈ xs.map k then _ else _) = _
      by_cases ha : key a = k x
      · simp [ha, h.key_change, h.change_change]
      · simp [ha]
    · have hn' : ((l ++ [fresh x]).map key).Nodup := by
        have hone := nodup_upsert (fun a ha => (h.key_change a).trans ha) (h.key_fresh x) hn
        rwa [upsert_of_notMem hx] at hone
      have hkeys : (l ++ [fresh x]).map key = l.map key ++ [k x] := by
        rw [List.map_append, List.map_singleton, h.key_fresh]
      have hlast : (if key (fresh x) ∈ xs.map k then change (fresh x) else fresh x) = fresh x := by
        split_ifs
        · exact h.change_fresh x
        · rfl
      rw [upsert_of_notMem hx, ih hn', hkeys, newcomers_cons_of_notMem hx, List.map_append,
        List.map_singleton, hlast, List.append_assoc, List.map_cons]
      congr 1
      apply List.map_congr_left
      intro a ha
      have hne : key a ≠ k x := fun heq => hx (heq ▸ List.mem_map_of_mem ha)
      simp [hne]

theorem upsertAll_upsertAll {l : List α} (hn : (l.map key).Nodup) (xs : List ι) :
    upsertAll key k change fresh (upsertAll key k change fresh l xs) xs =
      upsertAll key k change fresh l xs := by
  have hknown : ∀ x ∈ xs, k x ∈ (upsertAll key k change fresh l xs).map key :=
    fun x hx => (mem_map_key_upsertAll h).mpr (Or.inr (List.mem_map_of_mem hx))
  rw [upsertAll_eq h (nodup_upsertAll h hn xs), newcomers_eq_nil hknown, List.map_nil,
    List.append_nil]
  -- each entry has been changed already, or has just come in
  have hdone : ∀ a ∈ upsertAll key k change fresh l xs, key a ∈ xs.map k → change a = a := by
    rw [upsertAll_eq h hn]
    intro a ha hkey
    rcases List.mem_append.mp ha with ha | ha
    · obtain ⟨b, -, rfl⟩ := List.mem_map.mp ha
      split_ifs at hkey ⊢ with hb
      · exact h.change_change b
      · exact absurd hkey hb
    · obtain ⟨x, -, rfl⟩ := List.mem_map.mp ha
      exact h.change_fresh x
  refine (List.map_congr_left fun a ha => ?_).trans (List.map_id _)
  split_ifs with hkey
  · exact hdone a ha hkey
  · rfl

end

end KeyedList
