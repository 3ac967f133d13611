import SmsEcho.Network.LossyNetwork

/-! The files of a network are conserved, and with them the two numbers of unique files that
`main` prints. -/

namespace SmsEcho
open SmsEchoClient

variable {k : ℕ}

/-- The loops of `main` that insert the ids of each node into a `std::set<int>`. -/
def fileSet (ids : Fin k → List UInt32) : Finset Int32 :=
  (List.finRange k).foldl
    (fun fileSet i => (ids i).foldl (fun fileSet id => insert id.toInt32 fileSet) fileSet) ∅

def uniqueFilesInTheBeginning (D : Deployment k) : ℕ :=
  (fileSet fun i => (D.lists i).map FileSMS.mId).card

/-- "unique files in the end", where only full files are inserted. -/
def uniqueFilesInTheEnd (s : Network k) : ℕ := (fileSet fun i => fullIds (s.nodes i)).card

theorem mem_foldl_insert {ids : List UInt32} {S : Finset Int32} {x : Int32} :
    x ∈ ids.foldl (fun S id => insert id.toInt32 S) S ↔ x ∈ S ∨ ∃ id ∈ ids, id.toInt32 = x := by
  induction ids generalizing S with
  | nil => simp
  | cons id ids ih =>
    rw [List.foldl_cons, ih, Finset.mem_insert, List.exists_mem_cons_iff]
    tauto

theorem mem_fileSet {ids : Fin k → List UInt32} {x : Int32} :
    x ∈ fileSet ids ↔ ∃ i, ∃ id ∈ ids i, id.toInt32 = x := by
  have hloop : ∀ (l : List (Fin k)) (S : Finset Int32), x ∈ l.foldl
      (fun S i => (ids i).foldl (fun S id => insert id.toInt32 S) S) S ↔
      x ∈ S ∨ ∃ i ∈ l, ∃ id ∈ ids i, id.toInt32 = x := by
    intro l
    induction l with
    | nil => simp
    | cons i l ih =>
      intro S
      rw [List.foldl_cons, ih, mem_foldl_insert, List.exists_mem_cons_iff, or_assoc]
  rw [fileSet, hloop]
  simp

theorem fileSet_congr {ids ids' : Fin k → List UInt32}
    (h : ∀ id, (∃ i, id ∈ ids i) ↔ ∃ i, id ∈ ids' i) : fileSet ids = fileSet ids' := by
  ext x
  rw [mem_fileSet, mem_fileSet]
  constructor
  · rintro ⟨i, id, hid, rfl⟩
    obtain ⟨j, hj⟩ := (h id).mp ⟨i, hid⟩
    exact ⟨j, id, hj, rfl⟩
  · rintro ⟨i, id, hid, rfl⟩
    obtain ⟨j, hj⟩ := (h id).mpr ⟨i, hid⟩
    exact ⟨j, id, hj, rfl⟩

theorem Deployment.Sound.fullIn_iff {D : Deployment k} {s : Network k} (h : D.Sound s)
    {id : UInt32} :
    (∃ i, FullIn (s.nodes i).files id) ↔ ∃ i, ∃ f ∈ D.lists i, f.mId = id := by
  constructor
  · rintro ⟨i, f, hf, rfl, -⟩
    obtain ⟨j, hj⟩ := (h.entries i f hf).known
    exact ⟨j, f.toFileSMS, hj, rfl⟩
  · rintro ⟨i, f, hf, rfl⟩
    exact ⟨i, h.initial i f hf⟩

theorem reachable_files_conserved (D : Deployment k) {s : Network k} (hs : D.Reachable s) :
    {id | ∃ i, FullIn (s.nodes i).files id} = {id | ∃ i, ∃ f ∈ D.lists i, f.mId = id} ∧
      uniqueFilesInTheEnd s = uniqueFilesInTheBeginning D := by
  have h := Deployment.sound_of_reachable hs
  constructor
  · ext id
    exact h.fullIn_iff
  · refine congrArg Finset.card (fileSet_congr fun id => ?_)
    simp only [mem_fullIds, List.mem_map]
    exact h.fullIn_iff

theorem reachable_files_conserved_witness : FullIn (exchanged.nodes 0).files 9 ∧
    {id | ∃ i, FullIn (exchanged.nodes i).files id} =
      {id | ∃ i, ∃ f ∈ pair.lists i, f.mId = id} ∧
    uniqueFilesInTheEnd exchanged = uniqueFilesInTheBeginning pair := by
  exact ⟨exchanged_fullIn, reachable_files_conserved pair exchanged_reachable⟩

end SmsEcho
