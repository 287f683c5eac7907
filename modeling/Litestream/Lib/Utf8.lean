import Litestream.Lib.Bytes

/-!
# UTF-8

Text is a byte string that need not be valid UTF-8.  `runeSize` is the size of the encoding
at the start of a byte string, if there is a valid one.  `coerce` replaces each byte that
belongs to no valid encoding with the encoding of U+FFFD.

Text is rewritten piece by piece (`rewriteAll`).  `coerce_eq_self_of_prefix` says when a text
that begins like its coercion was valid.
-/

namespace Utf8

open Bytes

/-! ## Encodings -/

/-- The size of the encodings that begin with a byte, and the range of their second byte. -/
def first (a : UInt8) : Option (Nat × UInt8 × UInt8) :=
  if a < 0x80 then some (1, 0, 0)
  else if a < 0xC2 then none
  else if a < 0xE0 then some (2, 0x80, 0xBF)
  else if a = 0xE0 then some (3, 0xA0, 0xBF)
  else if a = 0xED then some (3, 0x80, 0x9F)
  else if a < 0xF0 then some (3, 0x80, 0xBF)
  else if a = 0xF0 then some (4, 0x90, 0xBF)
  else if a < 0xF4 then some (4, 0x80, 0xBF)
  else if a = 0xF4 then some (4, 0x80, 0x8F)
  else none

def isTail (b : UInt8) : Bool := 0x80 ≤ b && b ≤ 0xBF

/-- The bytes after the first one complete an encoding of the given size. -/
def completes (n : Nat) (lo hi : UInt8) (rest : Bytes) : Bool :=
  match rest with
  | [] => n == 1
  | b :: more =>
      n == 1 || (lo ≤ b && b ≤ hi && (more.take (n - 2)).length == n - 2 &&
        (more.take (n - 2)).all isTail)

/-- The size of the valid encoding that a byte string begins with. -/
def runeSize : Bytes → Option Nat
  | [] => none
  | a :: rest =>
      match first a with
      | none => none
      | some (n, lo, hi) => if completes n lo hi rest then some n else none

/-- The encoding of U+FFFD. -/
def replacement : Bytes := [0xEF, 0xBF, 0xBD]

/-- `utf8.EncodeRune` for a rune that is not a surrogate. -/
def encodeRune (r : Nat) : Bytes :=
  if r < 0x80 then [.ofNat r]
  else if r < 0x800 then [.ofNat (0xC0 + r / 64), .ofNat (0x80 + r % 64)]
  else if r < 0x10000 then
    [.ofNat (0xE0 + r / 4096), .ofNat (0x80 + r / 64 % 64), .ofNat (0x80 + r % 64)]
  else [.ofNat (0xF0 + r / 262144), .ofNat (0x80 + r / 4096 % 64), .ofNat (0x80 + r / 64 % 64),
    .ofNat (0x80 + r % 64)]

variable {a : UInt8} {b b' : Bytes} {n : Nat}

theorem runeSize_ascii (h : a < 0x80) (b : Bytes) : runeSize (a :: b) = some 1 := by
  have hone : completes 1 0 0 b = true := by
    cases b <;> rfl
  simp only [runeSize, first, if_pos h, hone, if_true]

theorem completes_length {lo hi : UInt8} (hn : 1 ≤ n) (h : completes n lo hi b = true) :
    n ≤ b.length + 1 := by
  cases b with
  | nil =>
      have : n = 1 := by simpa [completes] using h
      omega
  | cons c more =>
      rw [completes, Bool.or_eq_true] at h
      rcases h with h | h
      · have : n = 1 := by simpa using h
        simp [this]
      · simp only [Bool.and_eq_true, beq_iff_eq, List.length_take] at h
        simp only [List.length_cons]
        omega

theorem first_bounds {lo hi : UInt8} (h : first a = some (n, lo, hi)) : 1 ≤ n ∧ n ≤ 4 := by
  unfold first at h
  split_ifs at h <;> cases h <;> decide

/-- An encoding has one to four bytes, and all of them are there. -/
theorem runeSize_bounds (h : runeSize b = some n) : 1 ≤ n ∧ n ≤ b.length := by
  cases b with
  | nil => cases h
  | cons a rest =>
      rw [runeSize] at h
      cases hfirst : first a with
      | none =>
          rw [hfirst] at h
          cases h
      | some x =>
          obtain ⟨m, lo, hi⟩ := x
          rw [hfirst] at h
          simp only at h
          split at h
          · next hc =>
              obtain rfl := Option.some.inj h
              exact ⟨(first_bounds hfirst).1, completes_length (first_bounds hfirst).1 hc⟩
          · cases h

theorem completes_congr {lo hi : UInt8} (hn : 1 ≤ n) (h : b.take (n - 1) = b'.take (n - 1))
    (hc : completes n lo hi b = true) : completes n lo hi b' = true := by
  rcases Nat.lt_or_ge 1 n with hlt | hle
  · cases b with
    | nil =>
        have : n = 1 := by simpa [completes] using hc
        omega
    | cons c more =>
        obtain ⟨m, rfl⟩ : ∃ m, n = m + 2 := ⟨n - 2, by omega⟩
        cases b' with
        | nil => simp at h
        | cons c' more' =>
            simp only [Nat.add_succ_sub_one, List.take_succ_cons, List.cons.injEq] at h
            obtain ⟨rfl, htake⟩ := h
            simpa only [completes, Nat.add_sub_cancel, htake] using hc
  · obtain rfl : n = 1 := by omega
    cases b' <;> rfl

/-- Only the bytes of the encoding matter. -/
theorem runeSize_congr (h : runeSize b = some n) (htake : b.take n = b'.take n) :
    runeSize b' = some n := by
  cases b with
  | nil => cases h
  | cons a rest =>
      rw [runeSize] at h
      cases hfirst : first a with
      | none =>
          rw [hfirst] at h
          cases h
      | some x =>
          obtain ⟨m, lo, hi⟩ := x
          rw [hfirst] at h
          simp only at h
          split at h
          · next hc =>
              obtain rfl := Option.some.inj h
              obtain ⟨k, rfl⟩ : ∃ k, m = k + 1 := ⟨m - 1, by have := first_bounds hfirst; omega⟩
              cases b' with
              | nil => simp at htake
              | cons a' rest' =>
                  simp only [List.take_succ_cons, List.cons.injEq] at htake
                  obtain ⟨rfl, htake⟩ := htake
                  have htake' : rest.take (k + 1 - 1) = rest'.take (k + 1 - 1) := htake
                  have hc' := completes_congr (by omega) htake' hc
                  simp only [runeSize, hfirst, hc', if_true]
          · cases h

theorem first_lo {lo hi : UInt8} (h : first a = some (n, lo, hi)) : n = 1 ∨ 0x80 ≤ lo := by
  unfold first at h
  split_ifs at h <;> cases h <;> decide

/-- The bytes of an encoding after the first one are not ASCII. -/
theorem not_ascii_of_rune {i : Nat} {c : UInt8} (h : runeSize (a :: b) = some n)
    (hi : i + 1 < n) (hc : b[i]? = some c) : 0x80 ≤ c := by
  rw [runeSize] at h
  cases hfirst : first a with
  | none =>
      rw [hfirst] at h
      cases h
  | some x =>
      obtain ⟨m, lo, hi'⟩ := x
      rw [hfirst] at h
      simp only at h
      split at h
      · next hcompletes =>
          obtain rfl := Option.some.inj h
          have hne : m ≠ 1 := by omega
          cases b with
          | nil => cases hc
          | cons d more =>
              simp only [completes, beq_iff_eq, hne, Bool.or_eq_true, false_or, Bool.and_eq_true,
                decide_eq_true_eq, List.all_eq_true] at hcompletes
              obtain ⟨⟨⟨hlo, -⟩, -⟩, htail⟩ := hcompletes
              cases i with
              | zero =>
                  obtain rfl : d = c := Option.some.inj hc
                  exact UInt8.le_trans ((first_lo hfirst).resolve_left hne) hlo
              | succ i =>
                  have hmem : c ∈ more.take (m - 2) := by
                    refine List.mem_of_getElem? (i := i) ?_
                    rw [List.getElem?_take_of_lt (by omega)]
                    exact hc
                  have := htail c hmem
                  simp only [isTail, Bool.and_eq_true, decide_eq_true_eq] at this
                  exact this.1
      · cases h

/-! ## Rewriting piece by piece -/

/-- Rewrites at most the given number of pieces.  `next` gives what to write for the next piece,
and what comes after that. -/
def rewritePieces (next : Bytes → Bytes × Bytes) : Nat → Bytes → Bytes
  | 0, _ => []
  | n + 1, b => if b = [] then [] else (next b).1 ++ rewritePieces next n (next b).2

def rewriteAll (next : Bytes → Bytes × Bytes) (b : Bytes) : Bytes := rewritePieces next b.length b

/-- Every piece has a byte. -/
def Consumes (next : Bytes → Bytes × Bytes) : Prop := ∀ b ≠ [], (next b).2.length < b.length

section
variable {next : Bytes → Bytes × Bytes}

theorem rewritePieces_eq (h : Consumes next) :
    ∀ n (b : Bytes), b.length ≤ n → rewritePieces next n b = rewriteAll next b := by
  have hboth : ∀ n m (b : Bytes), b.length ≤ n → b.length ≤ m →
      rewritePieces next n b = rewritePieces next m b := by
    intro n
    induction n with
    | zero =>
        intro m b hn _
        obtain rfl := List.length_eq_zero_iff.mp (Nat.le_zero.mp hn)
        cases m <;> rfl
    | succ n ih =>
        intro m b hn hm
        by_cases hb : b = []
        · subst hb
          cases m <;> rfl
        · have hlt := h b hb
          obtain ⟨m, rfl⟩ : ∃ k, m = k + 1 :=
            ⟨m - 1, by have := List.length_pos_of_ne_nil hb; omega⟩
          simp only [rewritePieces, if_neg hb]
          rw [ih m _ (by omega) (by omega)]
  exact fun n b hn => hboth n b.length b hn le_rfl

@[simp] theorem rewriteAll_nil (next : Bytes → Bytes × Bytes) : rewriteAll next [] = [] := rfl

theorem rewriteAll_of_ne (h : Consumes next) {b : Bytes} (hb : b ≠ []) :
    rewriteAll next b = (next b).1 ++ rewriteAll next (next b).2 := by
  have hlt := h b hb
  obtain ⟨n, hn⟩ : ∃ n, b.length = n + 1 :=
    ⟨b.length - 1, by have := List.length_pos_of_ne_nil hb; omega⟩
  rw [rewriteAll, hn, rewritePieces, if_neg hb, rewritePieces_eq h n _ (by omega)]

/-- What holds of the empty text, and of a text if it holds after its first piece, holds of
every text. -/
theorem Consumes.induction (h : Consumes next) {P : Bytes → Prop} (hnil : P [])
    (hstep : ∀ b ≠ [], P (next b).2 → P b) : ∀ b, P b := by
  intro b
  induction hn : b.length using Nat.strong_induction_on generalizing b with
  | _ n ih =>
      by_cases hb : b = []
      · exact hb ▸ hnil
      · exact hstep b hb (ih _ (hn ▸ h b hb) _ rfl)

end

/-- Rewrites at most the given number of pieces, some of which cannot be rewritten. -/
def readPieces (next : Bytes → Option (Bytes × Bytes)) : Nat → Bytes → Option Bytes
  | 0, _ => some []
  | n + 1, b =>
      if b = [] then some []
      else (next b).bind fun p => (readPieces next n p.2).map fun out => p.1 ++ out

def readAll (next : Bytes → Option (Bytes × Bytes)) (b : Bytes) : Option Bytes :=
  readPieces next b.length b

section
variable {next : Bytes → Option (Bytes × Bytes)}
  (h : ∀ b p, next b = some p → p.2.length < b.length)
include h

theorem readPieces_eq : ∀ n (b : Bytes), b.length ≤ n → readPieces next n b = readAll next b := by
  have hboth : ∀ n m (b : Bytes), b.length ≤ n → b.length ≤ m →
      readPieces next n b = readPieces next m b := by
    intro n
    induction n with
    | zero =>
        intro m b hn _
        obtain rfl := List.length_eq_zero_iff.mp (Nat.le_zero.mp hn)
        cases m <;> rfl
    | succ n ih =>
        intro m b hn hm
        by_cases hb : b = []
        · subst hb
          cases m <;> rfl
        · obtain ⟨m, rfl⟩ : ∃ k, m = k + 1 :=
            ⟨m - 1, by have := List.length_pos_of_ne_nil hb; omega⟩
          simp only [readPieces, if_neg hb]
          cases hnext : next b with
          | none => rfl
          | some p =>
              have hlt := h b p hnext
              rw [Option.bind_some, Option.bind_some, ih m p.2 (by omega) (by omega)]
  exact fun n b hn => hboth n b.length b hn le_rfl

theorem readAll_of_ne {b : Bytes} (hb : b ≠ []) :
    readAll next b = (next b).bind fun p => (readAll next p.2).map fun out => p.1 ++ out := by
  obtain ⟨n, hn⟩ : ∃ n, b.length = n + 1 :=
    ⟨b.length - 1, by have := List.length_pos_of_ne_nil hb; omega⟩
  rw [readAll, hn, readPieces, if_neg hb]
  cases hnext : next b with
  | none => rfl
  | some p =>
      have hlt := h b p hnext
      rw [Option.bind_some, Option.bind_some, readPieces_eq h n p.2 (by omega)]

end

/-! ## Coercion -/

/-- The valid encoding that the text begins with, or its first byte if there is none. -/
def coerceNext (b : Bytes) : Bytes × Bytes :=
  match runeSize b with
  | some n => (b.take n, b.drop n)
  | none => (replacement, b.drop 1)

/-- Replaces what is not valid UTF-8 by U+FFFD. -/
def coerce (b : Bytes) : Bytes := rewriteAll coerceNext b

theorem coerceNext_consumes : Consumes coerceNext := by
  intro b hb
  have hpos := List.length_pos_of_ne_nil hb
  unfold coerceNext
  cases h : runeSize b with
  | none =>
      simp only [List.length_drop]
      omega
  | some n =>
      have := runeSize_bounds h
      simp only [List.length_drop]
      omega

theorem coerce_of_rune (h : runeSize b = some n) : coerce b = b.take n ++ coerce (b.drop n) := by
  have hb : b ≠ [] := fun hnil => by
    rw [hnil] at h
    cases h
  rw [coerce, rewriteAll_of_ne coerceNext_consumes hb, coerceNext, h]
  rfl

theorem coerce_of_invalid (hb : b ≠ []) (h : runeSize b = none) :
    coerce b = replacement ++ coerce (b.drop 1) := by
  rw [coerce, rewriteAll_of_ne coerceNext_consumes hb, coerceNext, h]
  rfl

/-- ASCII is kept. -/
theorem coerce_ascii (h : ∀ c ∈ b, c < 0x80) : coerce b = b := by
  induction b with
  | nil => rfl
  | cons c b ih =>
      rw [coerce_of_rune (runeSize_ascii (h c List.mem_cons_self) b)]
      exact congrArg (c :: ·) (ih fun d hd => h d (List.mem_cons_of_mem c hd))

/-- A text that ends in ASCII was valid if its coercion begins as it does, up to two bytes of the
end. -/
theorem coerce_eq_self_of_prefix {x y : UInt8} {d : Bytes} (hx : x < 0x80) (hy : y < 0x80)
    (hd : ∀ c ∈ d, c < 0x80) (p : Bytes) (h : p ++ [x, y] <+: coerce (p ++ x :: y :: d)) :
    coerce (p ++ x :: y :: d) = p ++ x :: y :: d := by
  induction hn : p.length using Nat.strong_induction_on generalizing p with
  | _ n ih =>
      cases p with
      | nil =>
          refine coerce_ascii fun c hc => ?_
          rcases List.mem_cons.mp hc with rfl | hc
          · exact hx
          · rcases List.mem_cons.mp hc with rfl | hc
            · exact hy
            · exact hd c hc
      | cons a p =>
          cases hsize : runeSize (a :: p ++ x :: y :: d) with
          | some k =>
              have hpos := runeSize_bounds hsize
              -- the encoding does not reach the end, which is ASCII
              have hk : k ≤ (a :: p).length := by
                by_contra hlt
                rw [List.length_cons] at hlt
                have hc : (p ++ x :: y :: d)[p.length]? = some x := by
                  rw [List.getElem?_append_right le_rfl, Nat.sub_self]
                  rfl
                have := not_ascii_of_rune hsize (by omega) hc
                exact absurd hx (UInt8.not_lt.mpr this)
              have hsplit : coerce (a :: p ++ x :: y :: d) =
                  (a :: p).take k ++ coerce ((a :: p).drop k ++ x :: y :: d) := by
                rw [coerce_of_rune hsize, List.take_append_of_le_length hk,
                  List.drop_append_of_le_length hk]
              have hbegin : a :: p ++ [x, y] =
                  (a :: p).take k ++ ((a :: p).drop k ++ [x, y]) := by
                rw [← List.append_assoc, List.take_append_drop]
              rw [hsplit, hbegin, List.prefix_append_right_inj] at h
              rw [hsplit]
              have hlen : ((a :: p).drop k).length < n := by
                rw [List.length_drop]
                omega
              rw [ih _ hlen _ h rfl, ← List.append_assoc, List.take_append_drop]
          | none =>
              -- the first byte would be the first one of an encoding of U+FFFD
              rw [coerce_of_invalid (by simp) hsize] at h
              obtain ⟨rfl, h⟩ := List.cons_prefix_cons.mp h
              have hrune : ∀ b, runeSize (0xEF :: 0xBF :: 0xBD :: b) = some 3 := fun _ => rfl
              exfalso
              rcases p with _ | ⟨b, _ | ⟨c, p⟩⟩
              · obtain rfl := (List.cons_prefix_cons.mp h).1
                exact absurd hx (by decide)
              · obtain rfl := (List.cons_prefix_cons.mp (List.cons_prefix_cons.mp h).2).1
                exact absurd hx (by decide)
              · obtain ⟨rfl, h⟩ := List.cons_prefix_cons.mp h
                obtain ⟨rfl, -⟩ := List.cons_prefix_cons.mp h
                exact absurd (hsize.symm.trans (hrune _)) (Option.some_ne_none 3).symm

end Utf8
