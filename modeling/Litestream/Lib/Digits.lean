import Mathlib

/-!
# Fixed-width numerals

`fixed b w n` writes the last `w` digits of `n` in base `b`, most significant first, as
`%0wx` does in base 16 for numbers that fit.  Numerals of one width are ordered as their
numbers are (`fixed_lt_iff`), and a numeral determines its number (`value_fixed`).

Lists of characters are compared lexicographically, which is how object stores order
keys.  The first section has what comparing concatenations needs.
-/

namespace Digits

/-! ## Lexicographic order of concatenations -/

theorem append_lt_append_iff (p : List Char) {a b : List Char} : p ++ a < p ++ b ↔ a < b := by
  induction p with
  | nil => rfl
  | cons c p ih => simp [ih]

/-- Concatenations with first parts of one length compare first by those. -/
theorem append_lt_append_of_length : ∀ {a b : List Char} {c d : List Char},
    a.length = b.length → (a ++ c < b ++ d ↔ a < b ∨ a = b ∧ c < d)
  | [], [], c, d, _ => by simp
  | x :: a, y :: b, c, d, hlen => by
      have ih := append_lt_append_of_length (c := c) (d := d) (Nat.succ.inj hlen)
      simp only [List.cons_append, List.cons_lt_cons_iff, ih, List.cons.injEq]
      constructor
      · rintro (h | ⟨rfl, h | ⟨rfl, h⟩⟩)
        · exact Or.inl (Or.inl h)
        · exact Or.inl (Or.inr ⟨rfl, h⟩)
        · exact Or.inr ⟨⟨rfl, rfl⟩, h⟩
      · rintro ((h | ⟨rfl, h⟩) | ⟨⟨rfl, rfl⟩, h⟩)
        · exact Or.inl h
        · exact Or.inr ⟨rfl, Or.inl h⟩
        · exact Or.inr ⟨rfl, Or.inr ⟨rfl, h⟩⟩

/-! ## Digits -/

theorem digitChar_lt_iff {i j : Nat} (hi : i < 16) (hj : j < 16) :
    i.digitChar < j.digitChar ↔ i < j := by
  have h : ∀ i < 16, ∀ j < 16, i.digitChar < j.digitChar ↔ i < j := by decide
  exact h i hi j hj

theorem digitChar_inj {i j : Nat} (hi : i < 16) (hj : j < 16) :
    i.digitChar = j.digitChar ↔ i = j := by
  have h : ∀ i < 16, ∀ j < 16, i.digitChar = j.digitChar ↔ i = j := by decide
  exact h i hi j hj

/-- The value of a digit. -/
def digitVal (c : Char) : Nat := if c.isDigit then c.toNat - 48 else c.toNat - 87

theorem digitVal_digitChar {i : Nat} (hi : i < 16) : digitVal i.digitChar = i := by
  have h : ∀ i < 16, digitVal i.digitChar = i := by decide
  exact h i hi

/-! ## Numerals -/

/-- The last `w` digits of `n` in base `b`. -/
def fixed (b : Nat) : Nat → Nat → List Char
  | 0, _ => []
  | w + 1, n => (n / b ^ w % b).digitChar :: fixed b w n

/-- The number a numeral stands for. -/
def value (b : Nat) (cs : List Char) : Nat := cs.foldl (fun n c => n * b + digitVal c) 0

section
variable {b : Nat}

@[simp] theorem length_fixed (w n : Nat) : (fixed b w n).length = w := by
  induction w with
  | zero => rfl
  | succ w ih => simp [fixed, ih]

theorem mem_fixed (hb : 0 < b) {c : Char} {n : Nat} :
    ∀ {w : Nat}, c ∈ fixed b w n → ∃ i < b, c = i.digitChar
  | w + 1, h => by
      rcases List.mem_cons.mp h with rfl | h
      · exact ⟨_, Nat.mod_lt _ hb, rfl⟩
      · exact mem_fixed hb h

/-- Numbers are compared by their high digits unless these are equal. -/
theorem lt_iff_of_parts {k low low' high high' : Nat} (hlow : low < k) (hlow' : low' < k) :
    low + k * high < low' + k * high' ↔ high < high' ∨ high = high' ∧ low < low' := by
  rcases Nat.lt_trichotomy high high' with h | rfl | h
  · have := Nat.mul_le_mul_left k (Nat.succ_le_of_lt h)
    rw [Nat.mul_succ] at this
    exact ⟨fun _ => Or.inl h, fun _ => by omega⟩
  · constructor
    · intro hlt
      exact Or.inr ⟨rfl, by omega⟩
    · rintro (h | ⟨-, h⟩)
      · exact absurd h (Nat.lt_irrefl _)
      · omega
  · have := Nat.mul_le_mul_left k (Nat.succ_le_of_lt h)
    rw [Nat.mul_succ] at this
    constructor
    · intro hlt
      omega
    · rintro (h' | ⟨h', -⟩) <;> omega

/-- Numerals of one width are ordered as their numbers are. -/
theorem fixed_lt_iff (hb : 0 < b) (hb' : b ≤ 16) {m n : Nat} :
    ∀ w, fixed b w m < fixed b w n ↔ m % b ^ w < n % b ^ w
  | 0 => by simp [fixed, Nat.mod_one]
  | w + 1 => by
      have hm := Nat.mod_lt (m / b ^ w) hb
      have hn := Nat.mod_lt (n / b ^ w) hb
      rw [fixed, fixed, List.cons_lt_cons_iff, digitChar_lt_iff (by omega) (by omega),
        digitChar_inj (by omega) (by omega), fixed_lt_iff hb hb' w, Nat.mod_pow_succ,
        Nat.mod_pow_succ]
      exact (lt_iff_of_parts (Nat.mod_lt m (Nat.pow_pos hb)) (Nat.mod_lt n (Nat.pow_pos hb))).symm

/-- A numeral determines the number, up to the digits it leaves out. -/
theorem value_fixed (hb : 0 < b) (hb' : b ≤ 16) (w n : Nat) :
    value b (fixed b w n) = n % b ^ w := by
  have h : ∀ w a, (fixed b w n).foldl (fun n c => n * b + digitVal c) a =
      a * b ^ w + n % b ^ w := by
    intro w
    induction w with
    | zero => intro a; simp [fixed, Nat.mod_one]
    | succ w ih =>
        intro a
        have hd := Nat.mod_lt (n / b ^ w) hb
        rw [fixed, List.foldl_cons, ih, digitVal_digitChar (by omega), Nat.mod_pow_succ]
        rw [Nat.add_mul, Nat.mul_assoc, ← Nat.pow_succ', Nat.mul_comm (n / b ^ w % b),
          Nat.add_assoc, Nat.add_comm (b ^ w * _)]
  simpa [value] using h w 0

theorem fixed_inj (hb : 0 < b) (hb' : b ≤ 16) {w m n : Nat} (hm : m < b ^ w) (hn : n < b ^ w) :
    fixed b w m = fixed b w n ↔ m = n := by
  constructor
  · intro h
    have := congrArg (value b) h
    rwa [value_fixed hb hb', value_fixed hb hb', Nat.mod_eq_of_lt hm, Nat.mod_eq_of_lt hn] at this
  · rintro rfl
    rfl

end

end Digits
