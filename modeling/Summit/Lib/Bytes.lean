/-
**Byte strings.**

`FixedBytes n` is a byte array of length `n` with the lexicographic order of its bytes, and
`leBytes` / `beBytes` are the fixed-width images of a natural number, least or most significant
byte first. A number that fits the width is read back by `leNat` / `beNat`
(`leNat_leBytes`, `beNat_beBytes`).
-/

import Mathlib.Data.List.Lex
import Mathlib.Order.Lattice
import Mathlib.Tactic.Ring

namespace Bytes

/-! ### Fixed-length byte arrays -/

/-- A byte array of length `n`. -/
def FixedBytes (n : Nat) : Type := { bytes : List UInt8 // bytes.length = n }

namespace FixedBytes

variable {n : Nat}

instance : DecidableEq (FixedBytes n) := inferInstanceAs (DecidableEq { _bytes // _ })

theorem toNats_injective :
    Function.Injective fun bytes : FixedBytes n => bytes.val.map UInt8.toNat := by
  intro a b same
  exact Subtype.ext (List.map_injective_iff.mpr (fun _ _ h => UInt8.toNat_inj.mp h) same)

/-- Byte arrays compare as their bytes do, first byte first. -/
instance : LinearOrder (FixedBytes n) :=
  LinearOrder.lift' (fun bytes : FixedBytes n => bytes.val.map UInt8.toNat) toNats_injective

/-- The array of `n` zero bytes. -/
def zero (n : Nat) : FixedBytes n := ⟨List.replicate n 0, List.length_replicate⟩

/-- A zeroed array of length `n` whose front is overwritten by `bytes`. -/
def padded (n : Nat) (bytes : List UInt8) : FixedBytes n :=
  ⟨(bytes ++ List.replicate n 0).take n, by simp⟩

/-- The array of `n` bytes that all equal `byte`. -/
def fill (n : Nat) (byte : UInt8) : FixedBytes n := ⟨List.replicate n byte, by simp⟩

/-- The sub-array of length `width` from `start` on, zero-filled past the end. -/
def slice (bytes : FixedBytes n) (start width : Nat) : FixedBytes width :=
  padded width ((bytes.val.drop start).take width)

@[simp] theorem length_val (bytes : FixedBytes n) : bytes.val.length = n := bytes.property

theorem take_padded_val {bytes : List UInt8} (fits : bytes.length ≤ n) :
    (padded n bytes).val.take bytes.length = bytes := by
  rw [padded, List.take_take, Nat.min_eq_left fits, List.take_left]

/-- Padding loses nothing but the length. -/
theorem padded_injective {a b : List UInt8} (same : padded n a = padded n b)
    (sameLength : a.length = b.length) (fits : a.length ≤ n) : a = b := by
  rw [← take_padded_val fits, same, sameLength, take_padded_val (sameLength ▸ fits)]

theorem slice_val {bytes : FixedBytes n} {start width : Nat} (fits : start + width ≤ n) :
    (bytes.slice start width).val = (bytes.val.drop start).take width := by
  have length : ((bytes.val.drop start).take width).length = width := by
    rw [List.length_take, List.length_drop, length_val]
    omega
  show (_ ++ List.replicate width 0).take width = _
  rw [List.take_append_of_le_length length.ge, List.take_of_length_le length.le]

/-- Two arrays that agree before and after a cut are equal. -/
theorem ext_cut {a b : FixedBytes n} (cut : Nat) (low : a.val.take cut = b.val.take cut)
    (high : a.val.drop cut = b.val.drop cut) : a = b := by
  refine Subtype.ext ?_
  rw [← List.take_append_drop cut a.val, low, high, List.take_append_drop]

end FixedBytes

/-! ### Chunks -/

/-- Consecutive chunks of `size` bytes; the last one holds what is left. -/
def chunks (size : Nat) (bytes : List UInt8) : List (List UInt8) :=
  (List.range ((bytes.length + size - 1) / size)).map fun i => (bytes.drop (i * size)).take size

variable {size width n : Nat} {chunk : List UInt8} {α : Type} {write : α → List UInt8}

theorem flatten_chunks (positive : 0 < size) (bytes : List UInt8) :
    (chunks size bytes).flatten = bytes := by
  have first : ∀ count, ((List.range count).map fun i =>
      (bytes.drop (i * size)).take size).flatten = bytes.take (count * size) := by
    intro count
    induction count with
    | zero => rw [Nat.zero_mul]; rfl
    | succ count ih =>
      rw [List.range_succ, List.map_append, List.flatten_append, ih, Nat.succ_mul, List.take_add]
      simp
  rw [chunks, first]
  refine List.take_of_length_le ?_
  have enough := Nat.div_add_mod (bytes.length + size - 1) size
  have small := Nat.mod_lt (bytes.length + size - 1) positive
  rw [Nat.mul_comm] at enough
  omega

/-- Consecutive chunks of exactly `size` bytes; what is left over is dropped. -/
def chunksExact (size : Nat) (bytes : List UInt8) : List (List UInt8) :=
  (List.range (bytes.length / size)).map fun i => (bytes.drop (i * size)).take size

/-- A cut between two chunks separates them. -/
theorem chunksExact_append (positive : 0 < size) {front : List UInt8} (whole : size ∣ front.length)
    (back : List UInt8) :
    chunksExact size (front ++ back) = chunksExact size front ++ chunksExact size back := by
  obtain ⟨count, len⟩ := whole
  have counted : front.length / size = count := by rw [len, Nat.mul_div_cancel_left _ positive]
  have total : (front ++ back).length / size = count + back.length / size := by
    rw [List.length_append, len, Nat.mul_add_div positive]
  rw [chunksExact, chunksExact, chunksExact, counted, total, List.range_add, List.map_append,
    List.map_map]
  congr 1
  · refine List.map_congr_left fun i member => ?_
    have below : (i + 1) * size ≤ front.length := by
      rw [len, Nat.mul_comm size]
      exact Nat.mul_le_mul_right _ (List.mem_range.mp member)
    rw [Nat.succ_mul] at below
    rw [List.drop_append_of_le_length (by omega), List.take_append_of_le_length]
    rw [List.length_drop]
    omega
  · refine List.map_congr_left fun i _ => ?_
    show ((front ++ back).drop ((count + i) * size)).take size = _
    rw [Nat.add_mul, Nat.mul_comm count, ← len, List.drop_length_add_append]

theorem chunksExact_single (positive : 0 < size) (len : chunk.length = size) :
    chunksExact size chunk = [chunk] := by
  rw [chunksExact, len, Nat.div_self positive]
  simp [← len]

theorem dvd_length_flatMap (sized : ∀ a, (write a).length = size) (items : List α) :
    size ∣ (items.flatMap write).length := by
  induction items with
  | nil => exact Nat.dvd_zero _
  | cons item rest ih =>
    rw [List.flatMap_cons, List.length_append, sized item]
    exact Nat.dvd_add (Nat.dvd_refl _) ih

/-- Encodings of the same size are the chunks of their concatenation. -/
theorem chunksExact_flatMap (positive : 0 < size) (sized : ∀ a, (write a).length = size)
    (items : List α) : chunksExact size (items.flatMap write) = items.map write := by
  induction items with
  | nil => simp [chunksExact]
  | cons item rest ih =>
    rw [List.flatMap_cons, chunksExact_append positive (sized item ▸ dvd_rfl),
      chunksExact_single positive (sized item), ih]
    rfl

theorem length_of_mem_chunksExact {bytes : List UInt8} (member : chunk ∈ chunksExact size bytes) :
    chunk.length = size := by
  obtain ⟨i, inside, rfl⟩ := List.mem_map.mp member
  have below : (i + 1) * size ≤ bytes.length :=
    le_trans (Nat.mul_le_mul_right _ (List.mem_range.mp inside)) (Nat.div_mul_le_self _ _)
  rw [Nat.succ_mul] at below
  rw [List.length_take_of_le]
  rw [List.length_drop]
  omega

/-! ### Fixed-width integers -/

/-- The `width` bytes of `n`, least significant first. -/
def leBytes : Nat → Nat → List UInt8
  | 0, _ => []
  | width + 1, n => UInt8.ofNat (n % 256) :: leBytes width (n / 256)

/-- The number whose bytes, least significant first, are the given ones. -/
def leNat : List UInt8 → Nat
  | [] => 0
  | byte :: rest => byte.toNat + 256 * leNat rest

/-- The `width` bytes of `n`, most significant first. -/
def beBytes (width n : Nat) : List UInt8 := (leBytes width n).reverse

/-- The number whose bytes, most significant first, are the given ones. -/
def beNat (bytes : List UInt8) : Nat := leNat bytes.reverse

@[simp] theorem length_leBytes (width n : Nat) : (leBytes width n).length = width := by
  induction width generalizing n with
  | zero => rfl
  | succ width ih => simp [leBytes, ih]

@[simp] theorem length_beBytes (width n : Nat) : (beBytes width n).length = width := by
  simp [beBytes]

theorem leNat_leBytes (fits : n < 256 ^ width) : leNat (leBytes width n) = n := by
  induction width generalizing n with
  | zero =>
    have none : n = 0 := by simpa using fits
    rw [none]
    rfl
  | succ width ih =>
    have high : n / 256 < 256 ^ width := by
      rw [Nat.div_lt_iff_lt_mul (by norm_num), ← pow_succ]
      exact fits
    have low : (UInt8.ofNat (n % 256)).toNat = n % 256 := by
      simp
    rw [leBytes, leNat, ih high, low]
    omega

theorem leBytes_leNat (bytes : List UInt8) : leBytes bytes.length (leNat bytes) = bytes := by
  induction bytes with
  | nil => rfl
  | cons byte rest ih =>
    have small : byte.toNat < 256 := byte.toNat_lt
    have low : (byte.toNat + 256 * leNat rest) % 256 = byte.toNat := by omega
    have high : (byte.toNat + 256 * leNat rest) / 256 = leNat rest := by omega
    rw [List.length_cons, leNat, leBytes, low, high, ih, UInt8.ofNat_toNat]

theorem leBytes_injective {m : Nat} (fits : n < 256 ^ width) (fits' : m < 256 ^ width)
    (same : leBytes width n = leBytes width m) : n = m := by
  rw [← leNat_leBytes fits, same, leNat_leBytes fits']

theorem beNat_beBytes (fits : n < 256 ^ width) : beNat (beBytes width n) = n := by
  simp [beNat, beBytes, leNat_leBytes fits]

/-- A number that does not fit loses its high part. -/
theorem leNat_leBytes_mod (width n : Nat) : leNat (leBytes width n) = n % 256 ^ width := by
  induction width generalizing n with
  | zero => exact (Nat.mod_one n).symm
  | succ width ih =>
    have low : (UInt8.ofNat (n % 256)).toNat = n % 256 := by
      simp
    rw [leBytes, leNat, ih, low, pow_succ, Nat.mul_comm (256 ^ width) 256, Nat.mod_mul]

theorem beNat_beBytes_mod (width n : Nat) : beNat (beBytes width n) = n % 256 ^ width := by
  simp [beNat, beBytes, leNat_leBytes_mod]

theorem leNat_lt (bytes : List UInt8) : leNat bytes < 256 ^ bytes.length := by
  induction bytes with
  | nil => simp [leNat]
  | cons byte rest ih =>
    have small : byte.toNat < 256 := byte.toNat_lt
    rw [leNat, List.length_cons, pow_succ]
    omega

theorem beNat_lt (bytes : List UInt8) : beNat bytes < 256 ^ bytes.length := by
  simpa [beNat] using leNat_lt bytes.reverse

end Bytes
