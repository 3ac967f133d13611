import SmsEcho.Client.NodeState
import SmsEcho.General.KeyedList

/-! The files that `getInitialFileList` draws for a node. -/

namespace SmsEcho
open KeyedList

theorem any_operatorEq {files : List FileSMS} {x : UInt32} :
    (files.any fun f => f.operatorEq ⟨x, 1000⟩) = true ↔ id x ∈ files.map FileSMS.mId := by
  rw [List.any_eq_true, List.mem_map]
  simp only [FileSMS.operatorEq, beq_iff_eq, id_eq]

theorem drawFresh_eq_some {files : List FileSMS} {draws rest : List UInt32} {file : FileSMS}
    (h : drawFresh files draws = some (file, rest)) : file.mFileSize = 1000 ∧
      newcomers id (files.map FileSMS.mId) draws =
        file.mId :: newcomers id (files.map FileSMS.mId ++ [file.mId]) rest := by
  induction draws with
  | nil => simp [drawFresh] at h
  | cons x draws ih =>
    rw [drawFresh] at h
    split_ifs at h with hany
    · rw [newcomers_cons_of_mem (any_operatorEq.mp hany)]
      exact ih h
    · obtain ⟨rfl, rfl⟩ := Prod.mk.inj (Option.some.inj h)
      exact ⟨rfl, newcomers_cons_of_notMem (mt any_operatorEq.mpr hany) draws⟩

theorem drawFresh_eq_none {files : List FileSMS} {draws : List UInt32}
    (h : drawFresh files draws = none) : newcomers id (files.map FileSMS.mId) draws = [] := by
  induction draws with
  | nil => rfl
  | cons x draws ih =>
    rw [drawFresh] at h
    split_ifs at h with hany
    rw [newcomers_cons_of_mem (any_operatorEq.mp hany)]
    exact ih h

theorem drawFiles_eq_some_iff {numOfFiles : ℕ} {files l : List FileSMS} {draws : List UInt32} :
    drawFiles numOfFiles files draws = some l ↔
      numOfFiles ≤ (newcomers id (files.map FileSMS.mId) draws).length ∧
      l = files ++ ((newcomers id (files.map FileSMS.mId) draws).take numOfFiles).map
        fun id => ⟨id, 1000⟩ := by
  induction numOfFiles generalizing files draws with
  | zero => simp [drawFiles, eq_comm]
  | succ numOfFiles ih =>
    unfold drawFiles
    cases hfresh : drawFresh files draws with
    | none =>
      rw [drawFresh_eq_none hfresh]
      simp
    | some x =>
      obtain ⟨file, rest⟩ := x
      obtain ⟨hsize, hnew⟩ := drawFresh_eq_some hfresh
      have hfile : file = ⟨file.mId, 1000⟩ := by rw [← hsize]
      rw [hnew, List.length_cons, List.take_succ_cons, List.map_cons, ← hfile]
      refine Iff.trans ih ?_
      rw [List.map_append, List.map_singleton, Nat.add_le_add_iff_right, List.append_assoc,
        List.singleton_append]

theorem newcomers_nil (draws : List UInt32) : newcomers id [] draws = draws.eraseDups := by
  unfold newcomers
  simp only [List.not_mem_nil, not_false_eq_true, decide_true, List.filter_true]
  rfl

/-- The list is complete as soon as there are enough different ids among the draws, and then has
the first of them, in the order in which they came, all of one size. -/
theorem getInitialFileList_eq_some_iff {numOfFiles : ℕ} {draws : List UInt32} {l : List FileSMS} :
    getInitialFileList numOfFiles draws = some l ↔ numOfFiles ≤ draws.eraseDups.length ∧
      l = (draws.eraseDups.take numOfFiles).map fun id => ⟨id, 1000⟩ := by
  unfold getInitialFileList
  rw [drawFiles_eq_some_iff, List.map_nil, newcomers_nil, List.nil_append]

end SmsEcho
