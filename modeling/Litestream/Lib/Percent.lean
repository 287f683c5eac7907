import Mathlib
import Litestream.Lib.Bytes

/-!
# Percent encoding

A byte string is escaped by writing some of its bytes as a percent sign and two hexadecimal
digits.  Unescaping reverses this, whichever bytes are escaped, as long as percent signs are
(`unescape_escape`).
-/

namespace Percent

open Bytes

def percent : UInt8 := 0x25

/-- The hexadecimal digit of a number below 16. -/
def upperHex (n : Nat) : UInt8 := UInt8.ofNat (if n < 10 then 0x30 + n else 0x41 + (n - 10))

/-- The number that a hexadecimal digit stands for. -/
def unhex (b : UInt8) : Option Nat :=
  if 0x30 ≤ b.toNat ∧ b.toNat ≤ 0x39 then some (b.toNat - 0x30)
  else if 0x61 ≤ b.toNat ∧ b.toNat ≤ 0x66 then some (b.toNat - 0x61 + 10)
  else if 0x41 ≤ b.toNat ∧ b.toNat ≤ 0x46 then some (b.toNat - 0x41 + 10)
  else none

/-- A byte as a percent sign and two digits. -/
def escapeByte (b : UInt8) : Bytes := [percent, upperHex (b.toNat / 16), upperHex (b.toNat % 16)]

/-- Escapes the bytes that have to be escaped. -/
def escape (shouldEscape : UInt8 → Bool) (p : Bytes) : Bytes :=
  p.flatMap fun b => if shouldEscape b then escapeByte b else [b]

/-- Reverses the escapes, `none` if a percent sign comes without two digits. -/
def unescape : Bytes → Option Bytes
  | [] => some []
  | [b] => if b = percent then none else some [b]
  | [b, c] => if b = percent ∨ c = percent then none else some [b, c]
  | b :: c :: d :: p =>
      if b = percent then
        match unhex c, unhex d with
        | some high, some low => (unescape p).map (UInt8.ofNat (16 * high + low) :: ·)
        | _, _ => none
      else (unescape (c :: d :: p)).map (b :: ·)

variable {p q : Bytes} {b : UInt8}

theorem unescape_cons (h : b ≠ percent) (p : Bytes) :
    unescape (b :: p) = (unescape p).map (b :: ·) := by
  cases p with
  | nil => simp [unescape, h]
  | cons c p =>
      cases p with
      | nil =>
          by_cases hc : c = percent
          · simp [unescape, hc]
          · simp [unescape, h, hc]
      | cons d p => rw [unescape, if_neg h]

theorem unhex_upperHex : ∀ n < 16, unhex (upperHex n) = some n := by decide

theorem unescape_escapeByte (b : UInt8) (p : Bytes) :
    unescape (escapeByte b ++ p) = (unescape p).map (b :: ·) := by
  have hb := b.toNat_lt
  have hlow : b.toNat % 16 < 16 := Nat.mod_lt _ (by decide)
  have hhigh : b.toNat / 16 < 16 := by omega
  rw [escapeByte, List.cons_append, List.cons_append, List.cons_append, List.nil_append, unescape,
    if_pos rfl, unhex_upperHex _ hhigh, unhex_upperHex _ hlow]
  dsimp only
  rw [Nat.div_add_mod, UInt8.ofNat_toNat]

/-- What is escaped is read back. -/
theorem unescape_escape {shouldEscape : UInt8 → Bool} (h : shouldEscape percent = true)
    (p : Bytes) : unescape (escape shouldEscape p) = some p := by
  induction p with
  | nil => rfl
  | cons b p ih =>
      rw [escape, List.flatMap_cons, ← escape]
      split
      · rw [unescape_escapeByte, ih, Option.map_some]
      next hb =>
        have hne : b ≠ percent := fun heq => hb (by rw [heq, h])
        rw [List.singleton_append, unescape_cons hne, ih, Option.map_some]

/-- Bytes in front that are no percent sign stay. -/
theorem unescape_append (h : percent ∉ q) (p : Bytes) :
    unescape (q ++ p) = (unescape p).map (q ++ ·) := by
  induction q with
  | nil => simp
  | cons b q ih =>
      rw [List.mem_cons, not_or] at h
      rw [List.cons_append, unescape_cons (Ne.symm h.1), ih h.2, Option.map_map]
      rfl

end Percent
