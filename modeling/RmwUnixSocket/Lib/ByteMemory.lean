import Mathlib.Algebra.Group.Nat.Defs
import Mathlib.Data.List.GetD

/-!
# Byte memory with 32-bit words

A memory is a function from addresses to bytes.  `storeBytes` writes a list of
bytes, and `load32` reads a little-endian word.  A store changes only the
bytes of its range (`storeBytes_of_lt`, `storeBytes_of_ge`), so a word and a
slice outside the range keep their values.

`Hits a n b m` says that the ranges `[a, a + n)` and `[b, b + m)` have an
address in common.
-/

/-- A byte memory. -/
abbrev ByteMemory := Nat → UInt8

namespace ByteMemory

/-- The two ranges overlap. -/
def Hits (a n b m : Nat) : Prop :=
  max a b < min (a + n) (b + m)

instance (a n b m : Nat) : Decidable (Hits a n b m) :=
  inferInstanceAs (Decidable (_ < _))

/-- Writes a list of bytes at an address. -/
def storeBytes (mem : ByteMemory) (a : Nat) (bytes : List UInt8) : ByteMemory :=
  fun y => if a ≤ y then bytes.getD (y - a) (mem y) else mem y

/-- The four bytes of a word, the lowest first. -/
def le32 (w : Nat) : List UInt8 :=
  [UInt8.ofNat w, UInt8.ofNat (w / 2 ^ 8), UInt8.ofNat (w / 2 ^ 16),
    UInt8.ofNat (w / 2 ^ 24)]

/-- Reads a word. -/
def load32 (mem : ByteMemory) (a : Nat) : Nat :=
  (mem a).toNat + 2 ^ 8 * (mem (a + 1)).toNat +
    2 ^ 16 * (mem (a + 2)).toNat + 2 ^ 24 * (mem (a + 3)).toNat

/-- Reads `n` bytes as one number, the lowest byte first. -/
def loadLE (mem : ByteMemory) (a : Nat) : Nat → Nat
  | 0 => 0
  | n + 1 => (mem a).toNat + 2 ^ 8 * loadLE mem (a + 1) n

/-- The `n` bytes of a number, the lowest first. -/
def leBytes : Nat → Nat → List UInt8
  | 0, _ => []
  | n + 1, v => UInt8.ofNat v :: leBytes n (v / 2 ^ 8)

/-- The memory that holds a list of bytes at the address 0. -/
def ofBytes (bytes : List UInt8) : ByteMemory :=
  fun y => bytes.getD y 0

/-- The bytes of a range. -/
def slice (mem : ByteMemory) (a n : Nat) : List UInt8 :=
  (List.range n).map fun j => mem (a + j)

variable {mem mem' : ByteMemory} {a b n y : Nat} {bytes : List UInt8}

@[simp] theorem le32_length (w : Nat) : (le32 w).length = 4 := rfl

/-! ## What a store leaves alone -/

theorem storeBytes_of_lt (h : y < a) : mem.storeBytes a bytes y = mem y :=
  if_neg (Nat.not_le.mpr h)

theorem storeBytes_of_ge (h : a + bytes.length ≤ y) :
    mem.storeBytes a bytes y = mem y := by
  unfold storeBytes
  split
  · exact List.getD_eq_default _ _ (by omega)
  · rfl

/-- A store changes no byte outside its range. -/
theorem storeBytes_of_not_hits (h : ¬Hits a bytes.length y 1) :
    mem.storeBytes a bytes y = mem y := by
  by_cases hy : y < a
  · exact storeBytes_of_lt hy
  · simp only [Hits] at h
    exact storeBytes_of_ge (by omega)

/-- The words of two memories that agree on the four bytes are equal. -/
theorem load32_congr (h : ∀ j < 4, mem (a + j) = mem' (a + j)) :
    mem.load32 a = mem'.load32 a := by
  have h0 : mem a = mem' a := h 0 (by decide)
  simp only [load32, h0, h 1 (by decide), h 2 (by decide), h 3 (by decide)]

/-- A word outside the range of a store keeps its value. -/
theorem load32_storeBytes (h : ¬Hits a bytes.length b 4) :
    (mem.storeBytes a bytes).load32 b = mem.load32 b := by
  refine load32_congr fun j hj => storeBytes_of_not_hits ?_
  simp only [Hits] at h ⊢
  omega

/-- A slice outside the range of a store keeps its bytes. -/
theorem slice_storeBytes (h : ¬Hits a bytes.length b n) :
    (mem.storeBytes a bytes).slice b n = mem.slice b n := by
  refine List.map_congr_left fun j hj => storeBytes_of_not_hits ?_
  have := List.mem_range.mp hj
  simp only [Hits] at h ⊢
  omega

/-! ## Words -/

/-- A word that was stored is read back. -/
theorem load32_store_le32 (w : Nat) :
    (mem.storeBytes a (le32 w)).load32 a = w % 2 ^ 32 := by
  have h0 : mem.storeBytes a (le32 w) a = UInt8.ofNat w := by
    simp [storeBytes, le32]
  have h1 : mem.storeBytes a (le32 w) (a + 1) = UInt8.ofNat (w / 2 ^ 8) := by
    simp [storeBytes, le32]
  have h2 : mem.storeBytes a (le32 w) (a + 2) = UInt8.ofNat (w / 2 ^ 16) := by
    simp [storeBytes, le32]
  have h3 : mem.storeBytes a (le32 w) (a + 3) = UInt8.ofNat (w / 2 ^ 24) := by
    simp [storeBytes, le32]
  simp only [load32, h0, h1, h2, h3, UInt8.toNat_ofNat']
  omega

/-! ## Numbers of any width -/

@[simp] theorem length_leBytes (n v : Nat) : (leBytes n v).length = n := by
  induction n generalizing v with
  | zero => rfl
  | succ n ih => simp [leBytes, ih]

/-- The bytes of a number are read back. -/
theorem loadLE_eq {n v : Nat}
    (h : ∀ j < n, mem (a + j) = (leBytes n v).getD j 0) :
    mem.loadLE a n = v % 2 ^ (8 * n) := by
  induction n generalizing a v with
  | zero => simp [loadLE, Nat.mod_one]
  | succ n ih =>
    have hfirst : mem a = UInt8.ofNat v := h 0 (Nat.succ_pos n)
    have hrest : mem.loadLE (a + 1) n = v / 2 ^ 8 % 2 ^ (8 * n) := by
      refine ih fun j hj => ?_
      have hnext := h (j + 1) (by omega)
      rw [Nat.add_assoc, Nat.add_comm 1 j, hnext]
      rfl
    have hsplit : v % 2 ^ (8 * (n + 1)) =
        v % 2 ^ 8 + 2 ^ 8 * (v / 2 ^ 8 % 2 ^ (8 * n)) := by
      rw [Nat.mul_succ, Nat.add_comm, Nat.pow_add, Nat.mod_mul]
    rw [loadLE, hfirst, hrest, hsplit, UInt8.toNat_ofNat']

theorem loadLE_congr {n : Nat} (h : ∀ j < n, mem (a + j) = mem' (a + j)) :
    mem.loadLE a n = mem'.loadLE a n := by
  induction n generalizing a with
  | zero => rfl
  | succ n ih =>
    have hrest : mem.loadLE (a + 1) n = mem'.loadLE (a + 1) n := by
      refine ih fun j hj => ?_
      have hnext := h (j + 1) (by omega)
      rwa [Nat.add_assoc, Nat.add_comm 1 j]
    have hfirst : mem a = mem' a := h 0 (Nat.succ_pos n)
    rw [loadLE, loadLE, hfirst, hrest]

/-- A number outside the range of a store keeps its value. -/
theorem loadLE_storeBytes {n : Nat} (h : ¬Hits a bytes.length b n) :
    (mem.storeBytes a bytes).loadLE b n = mem.loadLE b n := by
  refine loadLE_congr fun j hj => storeBytes_of_not_hits ?_
  simp only [Hits] at h ⊢
  omega

/-- A number that was stored is read back. -/
theorem loadLE_store_leBytes (n v : Nat) :
    (mem.storeBytes a (leBytes n v)).loadLE a n = v % 2 ^ (8 * n) := by
  refine loadLE_eq fun j hj => ?_
  simp only [storeBytes, if_pos (Nat.le_add_right a j), Nat.add_sub_cancel_left]
  rw [List.getD_eq_getElem _ _ (by simpa using hj),
    List.getD_eq_getElem _ _ (by simpa using hj)]

/-- A list in memory holds the bytes of a number at an offset. -/
theorem loadLE_ofBytes {pre post : List UInt8} {n v : Nat}
    (h : pre.length = a) :
    (ofBytes (pre ++ (leBytes n v ++ post))).loadLE a n = v % 2 ^ (8 * n) := by
  refine loadLE_eq fun j hj => ?_
  have hlen : (leBytes n v).length = n := length_leBytes n v
  simp only [ofBytes]
  rw [List.getD_append_right _ _ _ _ (by omega),
    List.getD_append _ _ _ _ (by omega)]
  congr 1
  omega

/-- A list in memory begins with the bytes of a number. -/
theorem loadLE_ofBytes_zero {post : List UInt8} {n v : Nat} :
    (ofBytes (leBytes n v ++ post)).loadLE 0 n = v % 2 ^ (8 * n) := by
  have hnil : ([] : List UInt8).length = 0 := rfl
  rw [← List.nil_append (leBytes n v ++ post)]
  exact loadLE_ofBytes hnil

/-! ## Slices -/

@[simp] theorem slice_length : (mem.slice a n).length = n := by
  simp [slice]

theorem slice_eq_map {f : Nat → UInt8} (h : ∀ j < n, f j = mem (a + j)) :
    (List.range n).map f = mem.slice a n :=
  List.map_congr_left fun j hj => h j (List.mem_range.mp hj)

theorem slice_congr (h : ∀ j < n, mem (a + j) = mem' (a + j)) :
    mem.slice a n = mem'.slice a n :=
  slice_eq_map h

/-- A list in memory is read back. -/
theorem slice_eq (h : ∀ j < bytes.length, mem (a + j) = bytes.getD j 0) :
    mem.slice a bytes.length = bytes := by
  refine List.ext_getElem (by simp) fun j hj hj' => ?_
  simp only [slice, List.getElem_map, List.getElem_range]
  rw [h j hj', List.getD_eq_getElem _ _ hj']

/-- A list that was stored is read back. -/
theorem slice_storeBytes_self :
    (mem.storeBytes a bytes).slice a bytes.length = bytes := by
  refine slice_eq fun j hj => ?_
  simp only [storeBytes, if_pos (Nat.le_add_right a j), Nat.add_sub_cancel_left]
  rw [List.getD_eq_getElem _ _ hj, List.getD_eq_getElem _ _ hj]

/-- A part of a list that was stored is read back. -/
theorem slice_storeBytes_inside {i : Nat} (h : i + n ≤ bytes.length) :
    (mem.storeBytes a bytes).slice (a + i) n = (bytes.drop i).take n := by
  have hlen : ((bytes.drop i).take n).length = n := by
    simp only [List.length_take, List.length_drop]
    omega
  have hslice : (mem.storeBytes a bytes).slice (a + i) ((bytes.drop i).take n).length =
      (bytes.drop i).take n := by
    refine slice_eq fun j hj => ?_
    rw [hlen] at hj
    have hsub : a + i + j - a = i + j := by omega
    simp only [storeBytes, if_pos (show a ≤ a + i + j by omega), hsub]
    rw [List.getD_eq_getElem _ _ (by omega), List.getD_eq_getElem _ _ (by omega)]
    simp
  rwa [hlen] at hslice

/-- A list in memory begins with another list. -/
theorem slice_ofBytes {post : List UInt8} :
    (ofBytes (bytes ++ post)).slice 0 bytes.length = bytes := by
  refine slice_eq fun j hj => ?_
  rw [Nat.zero_add]
  exact List.getD_append _ _ _ _ hj

end ByteMemory
