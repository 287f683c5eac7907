import Mathlib

/-!
# Byte strings

Reading and writing 32-bit words, reading a slice at an offset, and files that are a
sequence of records of one size.  The words of a record are read back by
`be32_putBe32_append` after `drop`, and the `i`-th record of a file by `readAt_flatMap`.
-/

/-- A byte string, such as the content of a file. -/
abbrev Bytes := List UInt8

namespace Bytes

/-- The bytes of a text in ASCII. -/
def ascii (text : String) : Bytes := text.toList.map Char.toUInt8

/-! ## Words -/

/-- The number that bytes stand for, most significant first. -/
def toNatBe : Bytes → Nat
  | [] => 0
  | b :: bs => b.toNat * 256 ^ bs.length + toNatBe bs

/-- The big-endian word at the start of a byte string. -/
def be32 (b : Bytes) : UInt32 := UInt32.ofNat (toNatBe (b.take 4))

/-- The little-endian word at the start of a byte string. -/
def le32 (b : Bytes) : UInt32 := UInt32.ofNat (toNatBe (b.take 4).reverse)

/-- The bytes of a word, most significant first. -/
def putBe32 (x : UInt32) : Bytes :=
  [.ofNat (x.toNat / 256 ^ 3), .ofNat (x.toNat / 256 ^ 2), .ofNat (x.toNat / 256), .ofNat x.toNat]

@[simp] theorem length_putBe32 (x : UInt32) : (putBe32 x).length = 4 := rfl

theorem toNatBe_putBe32 (x : UInt32) : toNatBe (putBe32 x) = x.toNat := by
  have := x.toNat_lt
  simp only [toNatBe, putBe32, UInt8.toNat_ofNat', List.length_cons, List.length_nil]
  omega

/-- A word that was written is read back. -/
@[simp] theorem be32_putBe32_append (x : UInt32) (b : Bytes) : be32 (putBe32 x ++ b) = x := by
  rw [be32, List.take_left' (length_putBe32 x), toNatBe_putBe32, UInt32.ofNat_toNat]

@[simp] theorem drop_putBe32_append (x : UInt32) (b : Bytes) (n : Nat) :
    (putBe32 x ++ b).drop (n + 4) = b.drop n := by
  rw [show n + 4 = (putBe32 x).length + n by rw [length_putBe32, Nat.add_comm],
    List.drop_append]
  simp

instance : LinearOrder UInt32 where
  le_refl := UInt32.le_refl
  le_trans _ _ _ := UInt32.le_trans
  lt_iff_le_not_ge a b := by
    rw [UInt32.not_le]
    exact ⟨fun h => ⟨UInt32.le_of_lt h, h⟩, fun h => h.2⟩
  le_antisymm _ _ := UInt32.le_antisymm
  le_total := UInt32.le_total
  toDecidableLE := inferInstance
  toDecidableEq := inferInstance
  toDecidableLT := inferInstance
  min_def _ _ := rfl
  max_def _ _ := rfl

instance : LawfulBEq UInt32 := inferInstance

instance : LawfulBEq (UInt32 × UInt32) := inferInstance

/-! ## Slices -/

/-- Up to `n` bytes from an offset on. -/
def readAt (b : Bytes) (off n : Nat) : Bytes := (b.drop off).take n

theorem length_readAt (b : Bytes) (off n : Nat) :
    (b.readAt off n).length = min n (b.length - off) := by
  simp [readAt]

theorem length_readAt_eq {b : Bytes} {off n : Nat} :
    (b.readAt off n).length = n ↔ n = 0 ∨ off + n ≤ b.length := by
  rw [length_readAt]
  omega

theorem readAt_append_right {a b : Bytes} {off n : Nat} :
    (a ++ b).readAt (a.length + off) n = b.readAt off n := by
  rw [readAt, readAt, List.drop_append, List.drop_of_length_le (Nat.le_add_right ..)]
  simp

theorem readAt_append_left {a b : Bytes} {off n : Nat} (h : off + n ≤ a.length) :
    (a ++ b).readAt off n = a.readAt off n := by
  rw [readAt, readAt, List.drop_append_of_le_length (by omega), List.take_append_of_le_length]
  rw [List.length_drop]
  omega

/-- A slice within the first bytes. -/
theorem readAt_take {b : Bytes} {off n m : Nat} (h : off + n ≤ m) :
    readAt (b.take m) off n = b.readAt off n := by
  rw [readAt, readAt, List.drop_take, List.take_take, Nat.min_eq_left (by omega)]

theorem readAt_all {a : Bytes} {n : Nat} (h : a.length = n) : a.readAt 0 n = a := by
  simp [readAt, ← h]

theorem take_append_readAt (b : Bytes) (off n : Nat) :
    b.take off ++ b.readAt off n = b.take (off + (b.readAt off n).length) := by
  have hread : b.readAt off n = (b.drop off).take (min n (b.length - off)) := by
    rw [readAt, List.take_eq_take_min, List.length_drop]
  rw [List.take_add, length_readAt, hread]

/-- A slice of a slice. -/
theorem readAt_readAt {b : Bytes} {off n i k : Nat} (h : i + k ≤ n) :
    (b.readAt off n).readAt i k = b.readAt (off + i) k := by
  rw [readAt, readAt, readAt, List.drop_take, List.take_take, List.drop_drop,
    Nat.min_eq_left (by omega)]

/-! ## Files of records -/

section Records

variable {ρ : Type*} {enc : ρ → Bytes} {size : Nat}

theorem length_flatMap (hsize : ∀ x, (enc x).length = size) (l : List ρ) :
    (l.flatMap enc).length = l.length * size := by
  induction l with
  | nil => simp
  | cons x l ih =>
      rw [List.flatMap_cons, List.length_append, ih, hsize, List.length_cons, Nat.add_mul]
      omega

/-- The record at an index is read at its offset. -/
theorem readAt_flatMap (hsize : ∀ x, (enc x).length = size) {l : List ρ} {i : Nat} {x : ρ}
    (h : l[i]? = some x) : readAt (l.flatMap enc) (i * size) size = enc x := by
  induction l generalizing i with
  | nil => simp at h
  | cons y l ih =>
      rw [List.flatMap_cons]
      cases i with
      | zero =>
          obtain rfl : y = x := by simpa using h
          rw [Nat.zero_mul, readAt_append_left (by simp [hsize]), readAt_all (hsize y)]
      | succ i =>
          rw [Nat.succ_mul, Nat.add_comm, ← hsize y, readAt_append_right, hsize]
          exact ih (by simpa using h)

/-- Past the last record nothing is read. -/
theorem readAt_flatMap_eq_nil (hsize : ∀ x, (enc x).length = size) {l : List ρ} {i k n : Nat}
    (h : l.length ≤ i) : readAt (l.flatMap enc) (i * size + k) n = [] := by
  rw [readAt, List.drop_of_length_le, List.take_nil]
  have := Nat.mul_le_mul_right size h
  rw [length_flatMap hsize]
  omega

end Records

end Bytes
