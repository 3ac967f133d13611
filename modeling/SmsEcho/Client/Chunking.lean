import SmsEcho.General.Blocks
import SmsEcho.Client.FileChunks

/-! The chunks of a file as `get_size_of_chunk` measures them, against the bytes of the file. -/

namespace SmsEcho
namespace FileSMSChunks

structure CoversFile (f : FileSMSChunks) : Prop where
  total : ∑ i ∈ Finset.range f.fileSizeInChunks.toNat, (f.getSizeOfChunk (UInt32.ofNat i)).toNat =
    1000 * f.mFileSize.toNat
  bounds : ∀ c < f.fileSizeInChunks,
    1 ≤ (f.getSizeOfChunk c).toNat ∧ (f.getSizeOfChunk c).toNat ≤ CHUNK_SIZE
  whole : ∀ c < f.fileSizeInChunks, c.toNat + 1 ≠ f.fileSizeInChunks.toNat →
    (f.getSizeOfChunk c).toNat = CHUNK_SIZE

/-- The size in bytes fits a `size_t`, and the number of chunks fits 32 bits. -/
structure Representable (size : UInt64) : Prop where
  bytes : 1000 * size.toNat < 2 ^ 64
  chunks : Blocks.count (1000 * size.toNat) CHUNK_SIZE < 2 ^ 32

variable {f : FileSMSChunks}

theorem toNat_mul_of_lt {size : UInt64} (h : 1000 * size.toNat < 2 ^ 64) :
    (1000 * size).toNat = 1000 * size.toNat := by
  rw [UInt64.toNat_mul]
  exact Nat.mod_eq_of_lt h

theorem toNat_fileSizeInChunks (h : Representable f.mFileSize) :
    f.fileSizeInChunks.toNat = Blocks.count (1000 * f.mFileSize.toNat) CHUNK_SIZE := by
  rw [f.fileSizeInChunks_eq, chunkCount, toNat_mul_of_lt h.bytes, UInt32.toNat_ofNat']
  exact Nat.mod_eq_of_lt h.chunks

theorem toNat_getSizeOfChunk (h : Representable f.mFileSize) {c : UInt32}
    (hc : c < f.fileSizeInChunks) : (f.getSizeOfChunk c).toNat =
      Blocks.size (1000 * f.mFileSize.toNat) CHUNK_SIZE c.toNat := by
  have hlt : c.toNat < f.fileSizeInChunks.toNat := UInt32.lt_iff_toNat_lt.mp hc
  have hlast : c = f.fileSizeInChunks - 1 ↔ c.toNat + 1 = f.fileSizeInChunks.toNat := by
    have hle : (1 : UInt32) ≤ f.fileSizeInChunks := by
      rw [UInt32.le_iff_toNat_le]
      exact Nat.one_le_of_lt hlt
    have hone : (1 : UInt32).toNat = 1 := rfl
    rw [← UInt32.toNat_inj, UInt32.toNat_sub_of_le _ _ hle, hone]
    omega
  rw [getSizeOfChunk, Blocks.size, ← toNat_fileSizeInChunks h]
  by_cases heq : c.toNat + 1 = f.fileSizeInChunks.toNat
  · have hsmall : 1000 * f.mFileSize.toNat % CHUNK_SIZE < 2 ^ 16 :=
      (Nat.mod_lt _ (by decide)).trans (by decide)
    rw [if_pos (beq_iff_eq.mpr (hlast.mpr heq)), if_pos heq, f.sizeOfLastChunk_eq, lastChunkSize,
      toNat_mul_of_lt h.bytes, UInt16.toNat_ofNat']
    exact Nat.mod_eq_of_lt hsmall
  · rw [if_neg (mt beq_iff_eq.mp (mt hlast.mp heq)), if_neg heq]
    rfl

theorem sum_getSizeOfChunk (h : Representable f.mFileSize) :
    ∑ i ∈ Finset.range f.fileSizeInChunks.toNat, (f.getSizeOfChunk (UInt32.ofNat i)).toNat =
      ∑ i ∈ Finset.range (Blocks.count (1000 * f.mFileSize.toNat) CHUNK_SIZE),
        Blocks.size (1000 * f.mFileSize.toNat) CHUNK_SIZE i := by
  rw [← toNat_fileSizeInChunks h]
  refine Finset.sum_congr rfl fun i hi => ?_
  have hi' : i < f.fileSizeInChunks.toNat := Finset.mem_range.mp hi
  have hnat : (UInt32.ofNat i).toNat = i := by
    rw [UInt32.toNat_ofNat']
    exact Nat.mod_eq_of_lt (hi'.trans f.fileSizeInChunks.toNat_lt)
  have hlt : UInt32.ofNat i < f.fileSizeInChunks := by
    rwa [UInt32.lt_iff_toNat_lt, hnat]
  rw [toNat_getSizeOfChunk h hlt, hnat]

theorem chunkSize_dvd_iff (s : ℕ) : CHUNK_SIZE ∣ 1000 * s ↔ 29 ∣ s := by
  unfold CHUNK_SIZE
  omega

/-- The chunks cover the file unless its size is a positive multiple of 29 KB: then the last
chunk is whole, and counted as empty. -/
theorem coversFile_iff (h : Representable f.mFileSize) :
    f.CoversFile ↔ f.mFileSize = 0 ∨ ¬ 29 ∣ f.mFileSize.toNat := by
  have hzero : f.mFileSize = 0 ↔ 1000 * f.mFileSize.toNat = 0 := by
    rw [← UInt64.toNat_inj]
    simp
  have htotal := Blocks.sum_size_eq_iff (n := 1000 * f.mFileSize.toNat) (c := CHUNK_SIZE)
    (by decide)
  rw [← sum_getSizeOfChunk h, chunkSize_dvd_iff, ← hzero] at htotal
  rw [← htotal]
  refine ⟨CoversFile.total, fun hsum => ⟨hsum, fun c hc => ?_, fun c hc hne => ?_⟩⟩
  · rw [toNat_getSizeOfChunk h hc, Blocks.size]
    split_ifs with hlast
    · -- there is a chunk, so the file is not empty, and the remainder is not zero
      have hne : f.mFileSize ≠ 0 := by
        rw [ne_eq, hzero, ← Blocks.count_eq_zero_iff (c := CHUNK_SIZE) (by decide), ← hlast]
        exact Nat.succ_ne_zero _
      have hdvd : ¬ CHUNK_SIZE ∣ 1000 * f.mFileSize.toNat := by
        rw [chunkSize_dvd_iff]
        exact (htotal.mp hsum).resolve_left hne
      exact ⟨Nat.emod_pos_of_not_dvd hdvd, (Nat.mod_lt _ (by decide)).le⟩
    · exact ⟨by decide, le_rfl⟩
  · rw [toNat_getSizeOfChunk h hc, Blocks.size, if_neg]
    rwa [← toNat_fileSizeInChunks h]

theorem coversFile_iff_witness : (construct 7 30 true).CoversFile :=
  (coversFile_iff (f := construct 7 30 true) ⟨by decide, by decide⟩).mpr (Or.inr (by decide))

theorem not_coversFile_29 : Representable 29 ∧ ¬ (construct 7 29 true).CoversFile := by
  refine ⟨⟨by decide, by decide⟩, fun h => ?_⟩
  have hempty : 1 ≤ ((construct 7 29 true).getSizeOfChunk 19).toNat := (h.bounds 19 (by decide)).1
  exact absurd hempty (by decide)

end FileSMSChunks
end SmsEcho
