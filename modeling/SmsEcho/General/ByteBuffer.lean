import Mathlib

/-! Byte buffers: little-endian integers, reads at an offset that fail past the
end, freshly allocated memory and copies into it. -/

namespace ByteBuffer

abbrev Bytes := List UInt8

def leBytes : ℕ → ℕ → Bytes
  | 0, _ => []
  | width + 1, v => UInt8.ofNat v :: leBytes width (v / 256)

def leValue : Bytes → ℕ
  | [] => 0
  | b :: bs => b.toNat + 256 * leValue bs

@[simp] theorem leBytes_length (width v : ℕ) : (leBytes width v).length = width := by
  induction width generalizing v with
  | zero => rfl
  | succ width ih => simp [leBytes, ih]

theorem leValue_leBytes (width v : ℕ) : leValue (leBytes width v) = v % 256 ^ width := by
  induction width generalizing v with
  | zero => simp [leBytes, leValue, Nat.mod_one]
  | succ width ih =>
    have hb : (UInt8.ofNat v).toNat = v % 256 := by simp
    rw [leBytes, leValue, ih, hb, Nat.pow_succ', Nat.mod_mul]

def readLe (width : ℕ) (bytes : Bytes) (offset : ℕ) : Option ℕ :=
  if offset + width ≤ bytes.length then some (leValue ((bytes.drop offset).take width)) else none

theorem readLe_isSome {width offset : ℕ} {bytes : Bytes} :
    (readLe width bytes offset).isSome ↔ offset + width ≤ bytes.length := by
  unfold readLe
  split_ifs with h <;> simp [h]

theorem readLe_take {width offset k : ℕ} {bytes : Bytes} (h : offset + width ≤ k)
    (hk : k ≤ bytes.length) : readLe width (bytes.take k) offset = readLe width bytes offset := by
  have hlen : (bytes.take k).length = k := List.length_take_of_le hk
  rw [readLe, readLe, if_pos (h.trans hlen.ge), if_pos (h.trans hk), List.drop_take,
    List.take_take, min_eq_left (Nat.le_sub_of_add_le' h)]

theorem readLe_append (width v : ℕ) (front back : Bytes) :
    readLe width (front ++ (leBytes width v ++ back)) front.length = some (v % 256 ^ width) := by
  have hlen : front.length + width ≤ (front ++ (leBytes width v ++ back)).length := by
    simp only [List.length_append, leBytes_length]
    omega
  rw [readLe, if_pos hlen, List.drop_left, List.take_left' (leBytes_length width v),
    leValue_leBytes]

theorem readLe_of_append {width v offset : ℕ} {front back bytes : Bytes}
    (hb : bytes = front ++ (leBytes width v ++ back)) (ho : front.length = offset)
    (hv : v < 256 ^ width) : readLe width bytes offset = some v := by
  rw [hb, ← ho, readLe_append, Nat.mod_eq_of_lt hv]

def read8 (bytes : Bytes) (offset : ℕ) : Option UInt8 := (readLe 1 bytes offset).map UInt8.ofNat

def read16 (bytes : Bytes) (offset : ℕ) : Option UInt16 := (readLe 2 bytes offset).map UInt16.ofNat

def read32 (bytes : Bytes) (offset : ℕ) : Option UInt32 := (readLe 4 bytes offset).map UInt32.ofNat

def le16 (x : UInt16) : Bytes := leBytes 2 x.toNat

def le32 (x : UInt32) : Bytes := leBytes 4 x.toNat

@[simp] theorem le16_length (x : UInt16) : (le16 x).length = 2 := leBytes_length 2 _

@[simp] theorem le32_length (x : UInt32) : (le32 x).length = 4 := leBytes_length 4 _

@[simp] theorem read8_zero_cons (b : UInt8) (bs : Bytes) : read8 (b :: bs) 0 = some b := by
  simp [read8, readLe, leValue]

@[simp] theorem read8_one_cons_cons (a b : UInt8) (bs : Bytes) :
    read8 (a :: b :: bs) 1 = some b := by
  simp [read8, readLe, leValue]

theorem read16_isSome (bytes : Bytes) (offset : ℕ) :
    (read16 bytes offset).isSome ↔ offset + 2 ≤ bytes.length := by
  rw [read16, Option.isSome_map, readLe_isSome]

theorem read32_isSome (bytes : Bytes) (offset : ℕ) :
    (read32 bytes offset).isSome ↔ offset + 4 ≤ bytes.length := by
  rw [read32, Option.isSome_map, readLe_isSome]

theorem read8_take {offset k : ℕ} {bytes : Bytes} (h : offset + 1 ≤ k) (hk : k ≤ bytes.length) :
    read8 (bytes.take k) offset = read8 bytes offset := by
  rw [read8, read8, readLe_take h hk]

theorem read16_take {offset k : ℕ} {bytes : Bytes} (h : offset + 2 ≤ k) (hk : k ≤ bytes.length) :
    read16 (bytes.take k) offset = read16 bytes offset := by
  rw [read16, read16, readLe_take h hk]

theorem read32_take {offset k : ℕ} {bytes : Bytes} (h : offset + 4 ≤ k) (hk : k ≤ bytes.length) :
    read32 (bytes.take k) offset = read32 bytes offset := by
  rw [read32, read32, readLe_take h hk]

theorem read8_of_lt {bytes : Bytes} {offset : ℕ} (h : offset < bytes.length) (b : UInt8) :
    read8 bytes offset = some (bytes.getD offset b) := by
  have hone : offset + 1 ≤ bytes.length := h
  have hfirst : (bytes.drop offset).take 1 = [bytes[offset]] := by
    rw [List.drop_eq_getElem_cons h, List.take_succ_cons, List.take_zero]
  rw [read8, readLe, if_pos hone, List.getD_eq_getElem _ _ h, hfirst]
  simp [leValue]

theorem exists_read32 {bytes : Bytes} {offset : ℕ} (h : offset + 4 ≤ bytes.length) :
    ∃ x, read32 bytes offset = some x :=
  Option.isSome_iff_exists.mp ((read32_isSome bytes offset).mpr h)

theorem read16_of_append {x : UInt16} {offset : ℕ} {bytes : Bytes} (front back : Bytes)
    (hb : bytes = front ++ (le16 x ++ back)) (ho : front.length = offset) :
    read16 bytes offset = some x := by
  rw [read16, readLe_of_append hb ho x.toNat_lt]
  simp

theorem read32_of_append {x : UInt32} {offset : ℕ} {bytes : Bytes} (front back : Bytes)
    (hb : bytes = front ++ (le32 x ++ back)) (ho : front.length = offset) :
    read32 bytes offset = some x := by
  rw [read32, readLe_of_append hb ho x.toNat_lt]
  simp

def malloc (fresh : ℕ → UInt8) (size : ℕ) : Bytes := (List.range size).map fresh

@[simp] theorem malloc_length (fresh : ℕ → UInt8) (size : ℕ) :
    (malloc fresh size).length = size := by simp [malloc]

theorem malloc_const (b : UInt8) (size : ℕ) :
    malloc (fun _ => b) size = List.replicate size b := by simp [malloc]

/-- Overwrites `dst` from `offset` on; no result where the copy would leave the buffer. -/
def memcpy (dst : Bytes) (offset : ℕ) (src : Bytes) : Option Bytes :=
  if offset + src.length ≤ dst.length then
    some (dst.take offset ++ (src ++ dst.drop (offset + src.length)))
  else none

theorem memcpy_append (front back : Bytes) {mid src : Bytes} (hl : mid.length = src.length) :
    memcpy (front ++ (mid ++ back)) front.length src = some (front ++ (src ++ back)) := by
  have hle : front.length + src.length ≤ (front ++ (mid ++ back)).length := by
    simp only [List.length_append]
    omega
  rw [memcpy, if_pos hle, List.take_left, ← List.drop_drop, List.drop_left,
    List.drop_left' hl]

end ByteBuffer
