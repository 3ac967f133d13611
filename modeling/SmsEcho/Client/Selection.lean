import SmsEcho.General.LeastScan
import SmsEcho.Client.Store

/-! `getFileToRequest`: among the incomplete files a given node holds, those with the
fewest missing chunks, and among these the first of least popularity. -/

namespace SmsEcho
open LeastScan

def UINT_MAX : ℕ := 4294967295

namespace SmsEchoClient

/-- The file the selection starts from, and returns when there is nothing to request. -/
def nothingToRequest : FileSMSChunks := FileSMSChunks.construct 0 0 true

/-- The body of the first loop: `s` is `minimumChunksMissing` and `filesWithMinimumChunks`. -/
def collectMinimum (nodeWhichWeAsk : Ipv4Address) (s : ℕ × List FileSMSChunks)
    (f : FileSMSChunks) : ℕ × List FileSMSChunks :=
  if !f.isFull && f.seenInNode nodeWhichWeAsk then
    if f.getNumOfMissingChunks.toNat < s.1 then (f.getNumOfMissingChunks.toNat, [f])
    else if f.getNumOfMissingChunks.toNat = s.1 then (s.1, s.2 ++ [f])
    else s
  else s

/-- The body of the second loop: `s` is `fileWithLowestPopularity` and `lowest_popularity`. -/
def collectLowest (seenNodes : ℕ) (s : FileSMSChunks × WithTop ℚ) (file : FileSMSChunks) :
    FileSMSChunks × WithTop ℚ :=
  if file.getPopularity seenNodes < s.2 then (file, file.getPopularity seenNodes) else s

def getFileToRequest (n : SmsEchoClient) (nodeWhichWeAsk : Ipv4Address) : FileSMSChunks :=
  let filesWithMinimumChunks := (n.files.foldl (collectMinimum nodeWhichWeAsk) (UINT_MAX, [])).2
  (filesWithMinimumChunks.foldl (collectLowest n.seenNodes.length) (nothingToRequest, ⊤)).1

def Wanted (node : Ipv4Address) (f : FileSMSChunks) : Prop :=
  f.isFull = false ∧ node ∈ f.nodesWhoHaveFile

def missing (f : FileSMSChunks) : ℕ := f.getNumOfMissingChunks.toNat

def candidates (n : SmsEchoClient) (node : Ipv4Address) : List FileSMSChunks :=
  let wanted := n.files.filter fun f => !f.isFull && f.seenInNode node
  wanted.filter fun f => missing f = least missing UINT_MAX wanted

theorem wanted_iff {node : Ipv4Address} {f : FileSMSChunks} :
    (!f.isFull && f.seenInNode node) = true ↔ Wanted node f := by
  rw [Bool.and_eq_true, Bool.not_eq_true', FileSMSChunks.seenInNode_iff, Wanted]

theorem missing_le (f : FileSMSChunks) : missing f ≤ UINT_MAX :=
  Nat.le_of_lt_succ f.getNumOfMissingChunks.toNat_lt

theorem collectMinimum_eq_candidates (n : SmsEchoClient) (node : Ipv4Address) :
    (n.files.foldl (collectMinimum node) (UINT_MAX, [])).2 = n.candidates node := by
  have hfold := foldl_keepLeast missing UINT_MAX
    (n.files.filter fun f => !f.isFull && f.seenInNode node)
  rw [List.foldl_filter] at hfold
  exact congrArg Prod.snd hfold

theorem getFileToRequest_eq (n : SmsEchoClient) (node : Ipv4Address) :
    n.getFileToRequest node = ((n.candidates node).foldl
      (firstBelow fun f => f.getPopularity n.seenNodes.length) (nothingToRequest, ⊤)).1 := by
  rw [getFileToRequest, collectMinimum_eq_candidates]
  rfl

theorem mem_candidates {n : SmsEchoClient} {node : Ipv4Address} {f : FileSMSChunks} :
    f ∈ n.candidates node ↔
      f ∈ n.files ∧ Wanted node f ∧ ∀ g ∈ n.files, Wanted node g → missing f ≤ missing g := by
  have hmem : ∀ g, g ∈ (n.files.filter fun f => !f.isFull && f.seenInNode node) ↔
      g ∈ n.files ∧ Wanted node g := by
    intro g
    rw [List.mem_filter, wanted_iff]
  rw [candidates, List.mem_filter, hmem, decide_eq_true_eq, and_assoc]
  -- to have the least number of missing chunks is to have no more than any other
  refine and_congr_right fun hf => and_congr_right fun hw => ?_
  constructor
  · intro heq g hg hwg
    rw [heq]
    exact least_le missing UINT_MAX ((hmem g).mpr ⟨hg, hwg⟩)
  · intro hall
    obtain ⟨a, ha, hka⟩ := exists_least missing (fun a _ => missing_le a)
      (List.ne_nil_of_mem ((hmem f).mpr ⟨hf, hw⟩))
    have ha' := (hmem a).mp ha
    refine le_antisymm ?_ (least_le missing UINT_MAX ((hmem f).mpr ⟨hf, hw⟩))
    rw [← hka]
    exact hall a ha'.1 ha'.2

theorem candidates_eq_nil_iff {n : SmsEchoClient} {node : Ipv4Address} :
    n.candidates node = [] ↔ ∀ f ∈ n.files, ¬ Wanted node f := by
  constructor
  · intro hnil f hf hw
    have hne : (n.files.filter fun f => !f.isFull && f.seenInNode node) ≠ [] :=
      List.ne_nil_of_mem (List.mem_filter.mpr ⟨hf, wanted_iff.mpr hw⟩)
    obtain ⟨a, ha, hka⟩ := exists_least missing (fun a _ => missing_le a) hne
    have hc : a ∈ n.candidates node := List.mem_filter.mpr ⟨ha, by simpa using hka⟩
    rw [hnil] at hc
    exact absurd hc (by simp)
  · intro hall
    rw [List.eq_nil_iff_forall_not_mem]
    intro f hf
    exact hall f (mem_candidates.mp hf).1 (mem_candidates.mp hf).2.1

theorem getPopularity_lt_top {f : FileSMSChunks} {total : ℕ} :
    f.getPopularity total < ⊤ ↔ total ≠ 0 := by
  unfold FileSMSChunks.getPopularity
  split_ifs with h
  · simp [h]
  · simp [h, WithTop.coe_lt_top]

theorem getFileToRequest_spec (n : SmsEchoClient) (node : Ipv4Address) :
    n.getFileToRequest node = nothingToRequest ∧
        (n.seenNodes = [] ∨ ∀ f ∈ n.files, ¬ Wanted node f) ∨
    ∃ front back, n.candidates node = front ++ n.getFileToRequest node :: back ∧
      n.seenNodes ≠ [] ∧
      (∀ g ∈ front, (n.getFileToRequest node).getPopularity n.seenNodes.length <
        g.getPopularity n.seenNodes.length) ∧
      ∀ g ∈ back, (n.getFileToRequest node).getPopularity n.seenNodes.length ≤
        g.getPopularity n.seenNodes.length := by
  rw [getFileToRequest_eq]
  rcases foldl_firstBelow (fun f => f.getPopularity n.seenNodes.length) nothingToRequest ⊤
    (n.candidates node) with ⟨hall, heq⟩ | ⟨front, f, back, hl, hf, hfront, hback, heq⟩
  · refine Or.inl ⟨by rw [heq], ?_⟩
    by_cases hs : n.seenNodes = []
    · exact Or.inl hs
    · refine Or.inr (candidates_eq_nil_iff.mp ?_)
      rw [List.eq_nil_iff_forall_not_mem]
      intro f hf
      exact hall f hf (getPopularity_lt_top.mpr (by simpa using hs))
  · rw [heq]
    refine Or.inr ⟨front, back, hl, ?_, hfront, hback⟩
    have hne := getPopularity_lt_top.mp hf
    simpa using hne

theorem getFileToRequest_of_not_full {n : SmsEchoClient} {node : Ipv4Address}
    (h : (n.getFileToRequest node).isFull = false) :
    n.getFileToRequest node ∈ n.files ∧ node ∈ (n.getFileToRequest node).nodesWhoHaveFile ∧
      ∀ g ∈ n.files, Wanted node g → missing (n.getFileToRequest node) ≤ missing g := by
  rcases n.getFileToRequest_spec node with ⟨heq, -⟩ | ⟨front, back, hl, -, -, -⟩
  · rw [heq, nothingToRequest, FileSMSChunks.construct_isFull] at h
    exact absurd h (by decide)
  · have hmem : n.getFileToRequest node ∈ n.candidates node := by
      rw [hl]
      simp
    have hc := mem_candidates.mp hmem
    exact ⟨hc.1, hc.2.1.2, hc.2.2⟩

theorem getFileToRequest_full_iff {n : SmsEchoClient} {node : Ipv4Address}
    (hs : n.seenNodes ≠ []) :
    (n.getFileToRequest node).isFull = true ↔ ∀ f ∈ n.files, ¬ Wanted node f := by
  rcases n.getFileToRequest_spec node with ⟨heq, hnone⟩ | ⟨front, back, hl, -, -, -⟩
  · rw [heq, nothingToRequest, FileSMSChunks.construct_isFull]
    simpa using hnone.resolve_left hs
  · have hmem : n.getFileToRequest node ∈ n.candidates node := by
      rw [hl]
      simp
    have hc := mem_candidates.mp hmem
    constructor
    · intro hfull
      rw [hc.2.1.1] at hfull
      exact absurd hfull (by decide)
    · exact fun hall => absurd hc.2.1 (hall _ hc.1)

def popularity (n : SmsEchoClient) (f : FileSMSChunks) : ℚ :=
  f.nodesWhoHaveFile.length / n.seenNodes.length

/-- The entry to ask the node for: of those it holds and that are incomplete here, one with the
fewest missing chunks, of these one of least popularity, and of these the earliest. -/
structure BestRequest (n : SmsEchoClient) (node : Ipv4Address) (f : FileSMSChunks) : Prop where
  wanted : Wanted node f
  fewest : ∀ g ∈ n.files, Wanted node g → missing f ≤ missing g
  rarest : ∀ g ∈ n.files, Wanted node g → missing g = missing f →
    n.popularity f ≤ n.popularity g
  earliest : ∃ before after, n.files = before ++ f :: after ∧
    ∀ g ∈ before, Wanted node g → missing g = missing f → n.popularity f < n.popularity g

theorem getPopularity_eq {n : SmsEchoClient} (hs : n.seenNodes ≠ []) (f : FileSMSChunks) :
    f.getPopularity n.seenNodes.length = (n.popularity f : WithTop ℚ) := by
  rw [FileSMSChunks.getPopularity, if_neg (by simpa using hs)]
  rfl

theorem getFileToRequest_bestRequest {n : SmsEchoClient} {node : Ipv4Address}
    (hs : n.seenNodes ≠ []) (h : (n.getFileToRequest node).isFull = false) :
    n.BestRequest node (n.getFileToRequest node) := by
  rcases n.getFileToRequest_spec node with ⟨heq, -⟩ | ⟨front, back, hl, -, hfront, hback⟩
  · rw [heq, nothingToRequest, FileSMSChunks.construct_isFull] at h
    exact absurd h (by decide)
  have hc : n.getFileToRequest node ∈ n.candidates node := by
    rw [hl]
    simp
  obtain ⟨-, hwanted, hfewest⟩ := mem_candidates.mp hc
  -- an entry that ties for the fewest missing chunks is a candidate
  have htie : ∀ g ∈ n.files, Wanted node g → missing g = missing (n.getFileToRequest node) →
      g ∈ n.candidates node := by
    intro g hg hw heq
    exact mem_candidates.mpr ⟨hg, hw, fun g' hg' hw' => heq ▸ hfewest g' hg' hw'⟩
  have hlt : ∀ g ∈ front, n.popularity (n.getFileToRequest node) < n.popularity g := by
    intro g hg
    have hg' := hfront g hg
    rwa [getPopularity_eq hs, getPopularity_eq hs, WithTop.coe_lt_coe] at hg'
  have hle : ∀ g ∈ back, n.popularity (n.getFileToRequest node) ≤ n.popularity g := by
    intro g hg
    have hg' := hback g hg
    rwa [getPopularity_eq hs, getPopularity_eq hs, WithTop.coe_le_coe] at hg'
  refine ⟨hwanted, hfewest, ?_, ?_⟩
  · intro g hg hw heq
    have hmem := htie g hg hw heq
    rw [hl, List.mem_append, List.mem_cons] at hmem
    rcases hmem with hmem | rfl | hmem
    · exact (hlt g hmem).le
    · exact le_rfl
    · exact hle g hmem
  · have hfilter := hl
    rw [candidates, List.filter_filter] at hfilter
    obtain ⟨before, after, hfiles, hbefore⟩ := exists_of_filter_eq_append_cons hfilter
    refine ⟨before, after, hfiles, fun g hg hw heq => hlt g (hbefore g hg ?_)⟩
    have hmem := htie g (by rw [hfiles]; exact List.mem_append_left _ hg) hw heq
    rw [candidates, List.filter_filter] at hmem
    exact (List.mem_filter.mp hmem).2

theorem getFileToRequest_correct {n : SmsEchoClient} (hs : n.seenNodes ≠ [])
    (node : Ipv4Address) :
    ((n.getFileToRequest node).isFull = true ↔ ∀ f ∈ n.files, ¬ Wanted node f) ∧
      ((n.getFileToRequest node).isFull = false →
        n.BestRequest node (n.getFileToRequest node)) :=
  ⟨getFileToRequest_full_iff hs, getFileToRequest_bestRequest hs⟩

theorem getFileToRequest_correct_witness :
    let n : SmsEchoClient := { construct 0 with
      files := [(FileSMSChunks.construct 9 2 false).addNodeToSeenList 2,
        (FileSMSChunks.construct 5 1 false).addNodeToSeenList 2]
      seenNodes := [2] }
    (n.getFileToRequest 2).mId = 5 ∧ n.BestRequest 2 (n.getFileToRequest 2) := by
  intro n
  have hs : n.seenNodes ≠ [] := by decide
  exact ⟨by decide +kernel, (getFileToRequest_correct hs 2).2 (by decide +kernel)⟩

end SmsEchoClient
end SmsEcho
