import SmsEcho.Network.Conservation
import SmsEcho.Network.Distribution

/-! The totals that `main` prints, and what can be read off them. -/

namespace SmsEcho
open PartialRun SmsEchoClient

variable {k : ℕ}

/-- `total_num_of_files_in_the_beginning`, a `uint32_t`. -/
def totalNumOfFilesInTheBeginning (D : Deployment k) : UInt32 :=
  (List.finRange k).foldl (fun total i => total + UInt32.ofNat (D.lists i).length) 0

/-- `total_number_of_full_files`, counted up one by one. -/
def totalNumberOfFullFiles (s : Network k) : UInt32 :=
  (List.finRange k).foldl (fun total i =>
    (s.nodes i).files.foldl (fun total f => if f.isFull then total + 1 else total) total) 0

theorem toNat_foldl_add {α : Type*} (w : α → ℕ) (l : List α) (total : UInt32) :
    (l.foldl (fun total x => total + UInt32.ofNat (w x)) total).toNat =
      (total.toNat + (l.map w).sum) % 2 ^ 32 := by
  induction l generalizing total with
  | nil => exact (Nat.mod_eq_of_lt total.toNat_lt).symm
  | cons x l ih =>
    rw [List.foldl_cons, ih, UInt32.toNat_add, UInt32.toNat_ofNat', List.map_cons, List.sum_cons]
    omega

theorem foldl_count (p : FileSMSChunks → Bool) (l : List FileSMSChunks) (total : UInt32) :
    l.foldl (fun total f => if p f then total + 1 else total) total =
      total + UInt32.ofNat (l.countP p) := by
  induction l generalizing total with
  | nil => exact (UInt32.add_zero total).symm
  | cons f l ih =>
    rw [List.foldl_cons, ih]
    cases hp : p f with
    | false => rw [if_neg Bool.false_ne_true, List.countP_cons_of_neg (by simp [hp])]
    | true =>
      rw [if_pos rfl, List.countP_cons_of_pos hp, UInt32.ofNat_add, UInt32.add_comm _ (.ofNat 1)]
      exact UInt32.add_assoc ..

theorem toNat_totalNumOfFilesInTheBeginning (D : Deployment k) :
    (totalNumOfFilesInTheBeginning D).toNat = (∑ i, (D.lists i).length) % 2 ^ 32 := by
  unfold totalNumOfFilesInTheBeginning
  rw [toNat_foldl_add, UInt32.toNat_zero, Nat.zero_add, ← Fin.sum_univ_def]

theorem toNat_totalNumberOfFullFiles (s : Network k) :
    (totalNumberOfFullFiles s).toNat = (∑ i, (s.nodes i).getNumOfFullFiles) % 2 ^ 32 := by
  unfold totalNumberOfFullFiles getNumOfFullFiles
  simp only [foldl_count]
  rw [toNat_foldl_add, UInt32.toNat_zero, Nat.zero_add, ← Fin.sum_univ_def]

namespace Deployment

variable {D : Deployment k} {s s' : Network k}

theorem Sound.mem_fullSet_iff (h : D.Sound s) {i : Fin k} {f : FileSMS} :
    f ∈ fullSet (s.nodes i) ↔ f ∈ D.catalogue.files ∧ FullIn (s.nodes i).files f.mId := by
  rw [mem_fullSet]
  constructor
  · rintro ⟨g, hg, hfull, rfl⟩
    exact ⟨(h.entries i g hg).known, g, hg, rfl, hfull⟩
  · rintro ⟨hf, g, hg, hid, hfull⟩
    exact ⟨g, hg, hfull, D.catalogue.oneSize _ (h.entries i g hg).known f hf hid⟩

theorem Sound.fullIn_step (h : D.Sound s) (hstep : D.Step s s') {i : Fin k} {id : UInt32}
    (hfull : FullIn (s.nodes i).files id) : FullIn (s'.nodes i).files id := by
  -- only the files of the node that takes the step can change
  have hnode : ∀ j n', (FullIn (s.nodes j).files id → FullIn n'.files id) →
      FullIn (Function.update s.nodes j n' i).files id := by
    intro j n' hj
    by_cases hij : i = j
    · subst hij
      rw [Function.update_self]
      exact hj hfull
    · rwa [Function.update_of_ne hij]
  cases hstep with
  | start j rand => exact hnode j _ fun hj => hj
  | stop j => exact hnode j _ fun hj => hj
  | fire j he hfire =>
    obtain ⟨-, -, seen, data, rfl⟩ := fire_cases hfire
    exact hnode j _ fun hj => hj
  | deliver j hp hne hopen hhandle =>
    apply hnode j
    intro hj
    obtain ⟨m, -, -, -, habsorb, -⟩ := handlePacket_cases hhandle
    have hlen : (s.nodes j).files.length < 2 ^ 32 := (h.length_lt j).trans (by norm_num)
    have hstore := absorb_storeInv hlen (h.store j) habsorb
    exact (absorb_storeExtends hlen habsorb).fullIn (h.store j).counters hstore.counters hj

theorem Sound.fullSet_step (h : D.Sound s) (hstep : D.Step s s') (i : Fin k) :
    fullSet (s.nodes i) ⊆ fullSet (s'.nodes i) := by
  intro f hf
  obtain ⟨hknown, hfull⟩ := h.mem_fullSet_iff.mp hf
  exact (h.step hstep).mem_fullSet_iff.mpr ⟨hknown, h.fullIn_step hstep hfull⟩

theorem Sound.list_subset_fullSet (h : D.Sound s) (i : Fin k) :
    (D.lists i).toFinset ⊆ fullSet (s.nodes i) := by
  intro f hf
  have hlist := List.mem_toFinset.mp hf
  exact h.mem_fullSet_iff.mpr ⟨⟨i, hlist⟩, h.initial i f hlist⟩

theorem Sound.complete_iff_fullSet (h : D.Sound s) :
    D.Complete s.nodes ↔ ∀ i, fullSet (s.nodes i) = D.distinctFiles := by
  constructor
  · intro hall i
    apply (h.fullSet_subset i).antisymm
    intro f hf
    have hknown := mem_distinctFiles.mp hf
    exact h.mem_fullSet_iff.mpr ⟨hknown, hall i f hknown⟩
  · intro hall i f hf
    have hmem : f ∈ fullSet (s.nodes i) := by
      rw [hall i]
      exact mem_distinctFiles.mpr hf
    exact (h.mem_fullSet_iff.mp hmem).2

theorem Sound.uniqueFilesInTheEnd_eq (h : D.Sound s) :
    uniqueFilesInTheEnd s = D.distinctFiles.card := by
  have hset : fileSet (fun i => fullIds (s.nodes i)) =
      D.distinctFiles.image fun f => f.mId.toInt32 := by
    ext x
    rw [mem_fileSet, Finset.mem_image]
    constructor
    · rintro ⟨i, id, hid, rfl⟩
      obtain ⟨j, f, hf, rfl⟩ := h.fullIn_iff.mp ⟨i, mem_fullIds.mp hid⟩
      exact ⟨f, mem_distinctFiles.mpr ⟨j, hf⟩, rfl⟩
    · rintro ⟨f, hf, rfl⟩
      obtain ⟨i, hi⟩ := mem_distinctFiles.mp hf
      exact ⟨i, f.mId, mem_fullIds.mpr (h.initial i f hi), rfl⟩
  unfold uniqueFilesInTheEnd
  rw [hset]
  apply Finset.card_image_of_injOn
  intro f hf g hg hsame
  exact D.catalogue.oneSize f (mem_distinctFiles.mp hf) g (mem_distinctFiles.mp hg)
    (congrArg Int32.toUInt32 hsame)

section Totals
variable (hfit : k * D.distinctFiles.card < 2 ^ 32)
include hfit

theorem Sound.totalNumberOfFullFiles_eq (h : D.Sound s) :
    (totalNumberOfFullFiles s).toNat = ∑ i, (fullSet (s.nodes i)).card := by
  rw [toNat_totalNumberOfFullFiles, Nat.mod_eq_of_lt]
  · exact Finset.sum_congr rfl fun i _ => (card_fullSet (h.store i)).symm
  · calc ∑ i, (s.nodes i).getNumOfFullFiles ≤ ∑ _i : Fin k, D.distinctFiles.card :=
        Finset.sum_le_sum fun i _ => h.getNumOfFullFiles_le i
      _ = k * D.distinctFiles.card := by simp
      _ < 2 ^ 32 := hfit

theorem Sound.totals_le (h : D.Sound s) :
    (totalNumOfFilesInTheBeginning D).toNat ≤ (totalNumberOfFullFiles s).toNat := by
  rw [h.totalNumberOfFullFiles_eq hfit, toNat_totalNumOfFilesInTheBeginning]
  calc (∑ i, (D.lists i).length) % 2 ^ 32 ≤ ∑ i, (D.lists i).length := Nat.mod_le ..
    _ = ∑ i, (D.lists i).toFinset.card := Finset.sum_congr rfl fun i _ => (D.card_list i).symm
    _ ≤ ∑ i, (fullSet (s.nodes i)).card :=
        Finset.sum_le_sum fun i _ => Finset.card_le_card (h.list_subset_fullSet i)

theorem Sound.totalNumberOfFullFiles_step (h : D.Sound s) (hstep : D.Step s s') :
    (totalNumberOfFullFiles s).toNat ≤ (totalNumberOfFullFiles s').toNat := by
  rw [h.totalNumberOfFullFiles_eq hfit, (h.step hstep).totalNumberOfFullFiles_eq hfit]
  exact Finset.sum_le_sum fun i _ => Finset.card_le_card (h.fullSet_step hstep i)

theorem Sound.totalNumberOfFullFiles_le (h : D.Sound s) :
    (totalNumberOfFullFiles s).toNat ≤ k * uniqueFilesInTheEnd s ∧
      ((totalNumberOfFullFiles s).toNat = k * uniqueFilesInTheEnd s ↔ D.Complete s.nodes) := by
  have hle : ∀ i ∈ Finset.univ, (fullSet (s.nodes i)).card ≤ D.distinctFiles.card :=
    fun i _ => Finset.card_le_card (h.fullSet_subset i)
  have hall : k * uniqueFilesInTheEnd s = ∑ _i : Fin k, D.distinctFiles.card := by
    rw [h.uniqueFilesInTheEnd_eq]
    simp
  rw [h.totalNumberOfFullFiles_eq hfit, hall]
  refine ⟨Finset.sum_le_sum hle, ?_⟩
  rw [Finset.sum_eq_sum_iff_of_le hle, h.complete_iff_fullSet]
  constructor
  · exact fun heq i => Finset.eq_of_subset_of_card_le (h.fullSet_subset i)
      (heq i (Finset.mem_univ i)).ge
  · intro heq i _
    rw [heq i]

end Totals

theorem printed_totals (D : Deployment k) (hfit : k * D.distinctFiles.card < 2 ^ 32)
    {s s' : Network k} (hs : D.Reachable s) (hs' : Relation.ReflTransGen D.Step s s') :
    totalNumOfFilesInTheBeginning D ≤ totalNumberOfFullFiles s ∧
    totalNumberOfFullFiles s ≤ totalNumberOfFullFiles s' ∧
    (totalNumberOfFullFiles s').toNat ≤ k * uniqueFilesInTheEnd s' ∧
    ((totalNumberOfFullFiles s').toNat = k * uniqueFilesInTheEnd s' ↔ D.Complete s'.nodes) := by
  have hgrow : (totalNumberOfFullFiles s).toNat ≤ (totalNumberOfFullFiles s').toNat := by
    induction hs' with
    | refl => exact le_rfl
    | tail hrun hstep ih =>
      exact ih.trans ((sound_of_reachable (hs.trans hrun)).totalNumberOfFullFiles_step hfit hstep)
  exact ⟨(sound_of_reachable hs).totals_le hfit, hgrow,
    (sound_of_reachable (hs.trans hs')).totalNumberOfFullFiles_le hfit⟩

theorem printed_totals_witness :
    totalNumOfFilesInTheBeginning pair ≤ totalNumberOfFullFiles pair.initial ∧
    totalNumberOfFullFiles pair.initial ≤ totalNumberOfFullFiles exchanged ∧
    FullIn (exchanged.nodes 0).files 9 ∧
    (totalNumberOfFullFiles exchanged).toNat ≤ 2 * uniqueFilesInTheEnd exchanged ∧
    ¬ pair.Complete exchanged.nodes := by
  obtain ⟨hbegin, hgrow, hmost, hall⟩ :=
    printed_totals pair (by decide) .refl exchanged_reachable
  exact ⟨hbegin, hgrow, exchanged_fullIn, hmost, mt hall.mpr (by decide +kernel)⟩

end Deployment
end SmsEcho
