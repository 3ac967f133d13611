import SmsEcho.Client.InitialFiles
import SmsEcho.Network.Footprint
import SmsEcho.Network.Report

/-! What `main` sets up is a deployment, whatever it draws, and one in which the counters of the
program do not overflow and the packets are not fragmented. -/

namespace SmsEcho
open SmsEchoClient

variable {k : ℕ}

def getNumberOfMobileNodes : ℕ := 25

def totalFileCount : UInt32 := 100

def maxFileCountPerNode : ℕ := 10

/-- The draws behind the file lists of the nodes: how many files each, and the streams of ids
from the Zipf distribution. -/
structure FileDraws (k : ℕ) where
  numOfFiles : Fin k → ℕ
  ids : Fin k → List UInt32
  numOfFiles_range : ∀ i, 1 ≤ numOfFiles i ∧ numOfFiles i ≤ maxFileCountPerNode
  ids_range : ∀ i, ∀ id ∈ ids i, 1 ≤ id ∧ id ≤ totalFileCount

/-- The loop of `main` over the nodes has come to an end, with these lists. -/
def FileDraws.NodeFileList (d : FileDraws k) (lists : Fin k → List FileSMS) : Prop :=
  ∀ i, getInitialFileList (d.numOfFiles i) (d.ids i) = some (lists i)

namespace FileDraws.NodeFileList

variable {d : FileDraws k} {lists : Fin k → List FileSMS} (h : d.NodeFileList lists)
include h

theorem mem {i : Fin k} {f : FileSMS} (hf : f ∈ lists i) :
    f.mFileSize = 1000 ∧ 1 ≤ f.mId ∧ f.mId ≤ totalFileCount := by
  obtain ⟨-, heq⟩ := getInitialFileList_eq_some_iff.mp (h i)
  rw [heq] at hf
  obtain ⟨id, hid, rfl⟩ := List.mem_map.mp hf
  exact ⟨rfl, d.ids_range i id (List.mem_eraseDups.mp (List.mem_of_mem_take hid))⟩

theorem length_eq (i : Fin k) : (lists i).length = d.numOfFiles i := by
  obtain ⟨hlen, heq⟩ := getInitialFileList_eq_some_iff.mp (h i)
  rw [heq, List.length_map, List.length_take, Nat.min_eq_left hlen]

theorem sixteenBit {i : Fin k} {f : FileSMS} (hf : f ∈ lists i) : SixteenBit f := by
  obtain ⟨hsize, -, hid⟩ := h.mem hf
  constructor
  · exact lt_of_le_of_lt (UInt32.le_iff_toNat_le.mp hid) (by decide)
  · rw [hsize]
    decide

end FileDraws.NodeFileList

/-- The network as `main` sets it up. -/
def FileDraws.deployment (d : FileDraws k) (address : Fin k → Ipv4Address) (memory : Fin k → ℕ)
    (lists : Fin k → List FileSMS) (h : d.NodeFileList lists) : Deployment k where
  address := address
  memory := memory
  lists := lists
  distinct i := getInitialFileList_distinctIds (h i)
  oneSize _ _ hf _ _ hg _ := (h.mem hf).1.trans (h.mem hg).1.symm
  sixteenBit _ _ hf := h.sixteenBit hf

section Main
variable {d : FileDraws k} {address : Fin k → Ipv4Address} {memory : Fin k → ℕ}
  {lists : Fin k → List FileSMS} (h : d.NodeFileList lists)

theorem card_distinctFiles_deployment :
    (d.deployment address memory lists h).distinctFiles.card ≤ 100 := by
  have hsub : (d.deployment address memory lists h).distinctFiles ⊆
      (Finset.range 101 \ {0}).image fun n => ⟨UInt32.ofNat n, 1000⟩ := by
    intro f hf
    obtain ⟨i, hi⟩ := Deployment.mem_distinctFiles.mp hf
    obtain ⟨hsize, hpos, hle⟩ := h.mem hi
    have hpos' : 1 ≤ f.mId.toNat := UInt32.le_iff_toNat_le.mp hpos
    have hle' : f.mId.toNat ≤ 100 := UInt32.le_iff_toNat_le.mp hle
    refine Finset.mem_image.mpr ⟨f.mId.toNat, ?_, ?_⟩
    · simp only [Finset.mem_sdiff, Finset.mem_range, Finset.mem_singleton]
      omega
    · rw [UInt32.ofNat_toNat, ← hsize]
  calc (d.deployment address memory lists h).distinctFiles.card
      ≤ ((Finset.range 101 \ {0}).image fun n => (⟨UInt32.ofNat n, 1000⟩ : FileSMS)).card :=
        Finset.card_le_card hsub
    _ ≤ (Finset.range 101 \ {0}).card := Finset.card_image_le
    _ = 100 := by decide

theorem sum_numOfFiles_le (d : FileDraws k) :
    ∑ i, d.numOfFiles i ≤ k * maxFileCountPerNode := by
  calc ∑ i, d.numOfFiles i ≤ ∑ _i : Fin k, maxFileCountPerNode :=
        Finset.sum_le_sum fun i _ => (d.numOfFiles_range i).2
    _ = k * maxFileCountPerNode := by simp

end Main

/-- Whatever `main` draws for its nodes, the totals it prints are those of the files, at most 250
in the beginning and at most 2500 in the end, and no packet that is ever sent has more than 1470
bytes, so that with the headers of UDP and IP it fits a frame of 1500. -/
theorem main_within_bounds (d : FileDraws getNumberOfMobileNodes)
    (address : Fin getNumberOfMobileNodes → Ipv4Address) (memory : Fin getNumberOfMobileNodes → ℕ)
    {lists : Fin getNumberOfMobileNodes → List FileSMS} (h : d.NodeFileList lists)
    {s : Network getNumberOfMobileNodes}
    (hs : (d.deployment address memory lists h).Reachable s) :
    (totalNumOfFilesInTheBeginning (d.deployment address memory lists h)).toNat =
        ∑ i, d.numOfFiles i ∧
      ∑ i, d.numOfFiles i ≤ 250 ∧
      (totalNumberOfFullFiles s).toNat = ∑ i, (s.nodes i).getNumOfFullFiles ∧
      ∑ i, (s.nodes i).getNumOfFullFiles ≤ 2500 ∧
      ∀ p ∈ s.ether, p.bytes.length + 28 ≤ 1500 := by
  have hsound := Deployment.sound_of_reachable hs
  have hcard : (d.deployment address memory lists h).distinctFiles.card ≤ 100 :=
    card_distinctFiles_deployment h
  have hbegin : ∑ i, d.numOfFiles i ≤ 250 := sum_numOfFiles_le d
  have hend : ∑ i, (s.nodes i).getNumOfFullFiles ≤ 2500 := by
    calc ∑ i, (s.nodes i).getNumOfFullFiles ≤ ∑ _i : Fin getNumberOfMobileNodes, 100 :=
          Finset.sum_le_sum fun i _ => (hsound.getNumOfFullFiles_le i).trans hcard
      _ = 2500 := by decide
  have hlengths : ∑ i, ((d.deployment address memory lists h).lists i).length =
      ∑ i, d.numOfFiles i := Finset.sum_congr rfl fun i _ => h.length_eq i
  refine ⟨?_, hbegin, ?_, hend, fun p hp => ?_⟩
  · rw [toNat_totalNumOfFilesInTheBeginning, hlengths]
    exact Nat.mod_eq_of_lt (hbegin.trans_lt (by decide))
  · rw [toNat_totalNumberOfFullFiles, Nat.mod_eq_of_lt (hend.trans_lt (by decide))]
  · have hpacket := (Deployment.compact_of_reachable hs).packets p hp
    unfold Deployment.maxPacket CHUNK_SIZE at hpacket
    omega

def ownDraws : FileDraws getNumberOfMobileNodes where
  numOfFiles _ := 1
  ids i := [UInt32.ofNat (i + 1), UInt32.ofNat (i + 1)]
  numOfFiles_range _ := by decide
  ids_range i id hid := by
    obtain rfl : id = UInt32.ofNat (i + 1) := by simpa using hid
    have hlt : i.val < 25 := i.isLt
    have hnat : (UInt32.ofNat (i + 1)).toNat = i + 1 :=
      UInt32.toNat_ofNat_of_lt' (lt_of_le_of_lt hlt (by decide))
    rw [UInt32.le_iff_toNat_le, UInt32.le_iff_toNat_le, hnat]
    exact ⟨Nat.le_add_left 1 i, hlt.trans (by decide)⟩

theorem ownDraws_nodeFileList :
    ownDraws.NodeFileList fun i => [⟨UInt32.ofNat (i + 1), 1000⟩] := fun _ => rfl

def ownDeployment : Deployment getNumberOfMobileNodes :=
  ownDraws.deployment (fun i => UInt32.ofNat (i + 1)) (fun _ => 0) _ ownDraws_nodeFileList

@[irreducible] def ownExchange : Network getNumberOfMobileNodes :=
  ownDeployment.exchange ⟨0, by decide⟩ ⟨1, by decide⟩

theorem main_within_bounds_witness :
    (totalNumOfFilesInTheBeginning ownDeployment).toNat = 25 ∧
    (totalNumberOfFullFiles ownExchange).toNat = ∑ i, (ownExchange.nodes i).getNumOfFullFiles ∧
    ∑ i, (ownExchange.nodes i).getNumOfFullFiles ≤ 2500 ∧
    ∃ p ∈ ownExchange.ether, Message.parse p.bytes = .ok (.reply ⟨2, 1, 2, 1000, 0⟩) ∧
      p.bytes.length + 28 ≤ 1500 := by
  have hreach : ownDeployment.Reachable ownExchange := by
    unfold ownExchange
    exact ownDeployment.reachable_exchange _ _
  obtain ⟨hbegin, -, htotal, hmost, hpackets⟩ :=
    main_within_bounds ownDraws _ _ ownDraws_nodeFileList hreach
  have hreply : ∃ p ∈ ownExchange.ether,
      Message.parse p.bytes = .ok (.reply ⟨2, 1, 2, 1000, 0⟩) := by decide +kernel
  obtain ⟨p, hp, hm⟩ := hreply
  exact ⟨hbegin.trans (by decide), htotal, hmost, p, hp, hm, hpackets p hp⟩

end SmsEcho
