import Litestream.Lib.Utf8
import Litestream.Lib.Digits

/-!
# JSON

The JSON of `encoding/json`: `parse` is what it reads a byte string as, and `quote` and
`formatInt` are how it writes strings and numbers.  A number is kept as it was written.
A string is text after its escapes were read, with what is not UTF-8 coerced.  The members
of an object are kept in order, repeated names included.

`parse` descends with a bound on the number of steps that the length of the text gives, and
with a bound on the depth, which the package has too.  What was written is read back: a
string as its coercion (`parseString_quote`) and an integer as itself (`parseInt_formatInt`).
-/

inductive Json where
  | null
  | bool (b : Bool)
  | number (lexeme : Bytes)
  | string (text : Bytes)
  | array (items : List Json)
  | object (members : List (Bytes × Json))

namespace Json

open Bytes Utf8

/-! ## Bytes -/

def quotation : UInt8 := 0x22
def backslash : UInt8 := 0x5C
def letterU : UInt8 := 0x75

def isSpace (c : UInt8) : Bool := c == 0x20 || c == 0x09 || c == 0x0A || c == 0x0D

def skipSpace (b : Bytes) : Bytes := b.dropWhile isSpace

def isDigit (c : UInt8) : Bool := 0x30 ≤ c && c ≤ 0x39

/-- The value of a hexadecimal digit. -/
def hexValue (c : UInt8) : Option Nat :=
  if isDigit c then some (c.toNat - 0x30)
  else if 0x61 ≤ c ∧ c ≤ 0x66 then some (c.toNat - 0x57)
  else if 0x41 ≤ c ∧ c ≤ 0x46 then some (c.toNat - 0x37)
  else none

/-- The number that four hexadecimal digits at the start stand for. -/
def hex4 : Bytes → Option Nat
  | a :: b :: c :: d :: _ => do
      return ((((← hexValue a) * 16 + (← hexValue b)) * 16 + (← hexValue c)) * 16 + (← hexValue d))
  | _ => none

/-! ## Strings -/

/-- The byte that an escape of two bytes stands for, by its second one. -/
def escapes : List (UInt8 × UInt8) :=
  [(0x22, 0x22), (0x5C, 0x5C), (0x2F, 0x2F), (0x62, 0x08), (0x66, 0x0C), (0x6E, 0x0A),
    (0x72, 0x0D), (0x74, 0x09)]

/-- The text of a string up to its closing quotation mark, escapes included, and the rest. -/
def scanString : Bytes → Option (Bytes × Bytes)
  | [] => none
  | [c] => if c = quotation then some ([], []) else none
  | c :: e :: rest =>
      if c = quotation then some ([], e :: rest)
      else if c = backslash then
        if (escapes.lookup e).isSome ∨ e = letterU ∧ (hex4 rest).isSome then
          (scanString rest).map fun p => (c :: e :: p.1, p.2)
        else none
      else if c < 0x20 then none
      else (scanString (e :: rest)).map fun p => (c :: p.1, p.2)

/-- The rune of `\uXXXX` after these two bytes, or of a surrogate pair.  A surrogate that is not
in a pair is replaced. -/
def unquoteRune (b : Bytes) : Option (Bytes × Bytes) :=
  (hex4 b).map fun r =>
    if 0xD800 ≤ r ∧ r < 0xE000 then
      match (b.drop 4).take 2 == [backslash, letterU], hex4 (b.drop 6) with
      | true, some r' =>
          if r < 0xDC00 ∧ 0xDC00 ≤ r' ∧ r' < 0xE000 then
            (encodeRune ((r - 0xD800) * 1024 + (r' - 0xDC00) + 0x10000), b.drop 10)
          else (replacement, b.drop 4)
      | _, _ => (replacement, b.drop 4)
    else (encodeRune r, b.drop 4)

/-- What an escape stands for, after its backslash. -/
def unquoteEscape : Bytes → Option (Bytes × Bytes)
  | [] => none
  | e :: rest =>
      if e = letterU then unquoteRune rest
      else (escapes.lookup e).map fun x => ([x], rest)

/-- What the next piece of the text of a string stands for. -/
def unquoteNext : Bytes → Option (Bytes × Bytes)
  | [] => none
  | c :: rest =>
      if c = backslash then unquoteEscape rest
      else if c = quotation ∨ c < 0x20 then none
      else some (coerceNext (c :: rest))

def unquote (b : Bytes) : Option Bytes := readAll unquoteNext b

/-- A string after its opening quotation mark, and the rest. -/
def parseString (b : Bytes) : Option (Bytes × Bytes) :=
  (scanString b).bind fun p => (unquote p.1).map fun s => (s, p.2)

/-- The bytes that are written as escapes of two bytes, with the second one. -/
def shortEscapes : List (UInt8 × UInt8) :=
  [(0x22, 0x22), (0x5C, 0x5C), (0x08, 0x62), (0x0C, 0x66), (0x0A, 0x6E), (0x0D, 0x72),
    (0x09, 0x74)]

/-- How a byte of ASCII is written in a string. -/
def escape (c : UInt8) : Bytes :=
  match shortEscapes.lookup c with
  | some e => [backslash, e]
  | none =>
      if c < 0x20 then
        [backslash, letterU, 0x30, 0x30, (Nat.digitChar (c.toNat / 16)).toUInt8,
          (Nat.digitChar (c.toNat % 16)).toUInt8]
      else [c]

/-- How the next piece of a text is written in a string.  U+2028 and U+2029 are escaped. -/
def quoteNext : Bytes → Bytes × Bytes
  | [] => ([], [])
  | c :: rest =>
      if c < 0x80 then (escape c, rest)
      else
        match runeSize (c :: rest) with
        | none => ([backslash, letterU, 0x66, 0x66, 0x66, 0x64], rest)
        | some n =>
            if (c :: rest).take n = [0xE2, 0x80, 0xA8] then
              ([backslash, letterU, 0x32, 0x30, 0x32, 0x38], (c :: rest).drop n)
            else if (c :: rest).take n = [0xE2, 0x80, 0xA9] then
              ([backslash, letterU, 0x32, 0x30, 0x32, 0x39], (c :: rest).drop n)
            else ((c :: rest).take n, (c :: rest).drop n)

/-- The text of a string between its quotation marks. -/
def quote (s : Bytes) : Bytes := rewriteAll quoteNext s

/-- How a string is written. -/
def formatString (s : Bytes) : Bytes := quotation :: quote s ++ [quotation]

/-! ## Numbers -/

/-- A digit and all digits after it. -/
def scanDigits (b : Bytes) : Option (Bytes × Bytes) :=
  if b.takeWhile isDigit = [] then none else some (b.takeWhile isDigit, b.dropWhile isDigit)

/-- The integral part of a number has no leading zero. -/
def scanInt : Bytes → Option (Bytes × Bytes)
  | [] => none
  | c :: rest => if c = 0x30 then some ([c], rest) else scanDigits (c :: rest)

/-- A part of a number that may be missing. -/
def scanPart (marks : List UInt8) (signs : List UInt8) : Bytes → Option (Bytes × Bytes)
  | [] => some ([], [])
  | c :: rest =>
      if c ∈ marks then
        let sign := (rest.take 1).filter (· ∈ signs)
        (scanDigits (rest.drop sign.length)).map fun p => (c :: sign ++ p.1, p.2)
      else some ([], c :: rest)

/-- A number as it is written, and the rest. -/
def scanNumber (b : Bytes) : Option (Bytes × Bytes) := do
  let sign := (b.take 1).filter (· = 0x2D)
  let (int, b) ← scanInt (b.drop sign.length)
  let (frac, b) ← scanPart [0x2E] [] b
  let (exp, b) ← scanPart [0x65, 0x45] [0x2B, 0x2D] b
  return (sign ++ int ++ frac ++ exp, b)

/-- `strconv.ParseInt` of a number in base 10, as an `int64`. -/
def parseInt (lexeme : Bytes) : Option Int :=
  let sign := (lexeme.take 1).filter (· = 0x2D)
  let digits := lexeme.drop sign.length
  let n := Nat.ofDigitChars 10 (digits.map fun c => Char.ofNat c.toNat) 0
  let v : Int := if sign = [] then n else -n
  if digits ≠ [] ∧ digits.all isDigit ∧ -2 ^ 63 ≤ v ∧ v < 2 ^ 63 then some v else none

/-- How an integer is written. -/
def formatInt (n : Int) : Bytes :=
  (if n < 0 then [0x2D] else []) ++ (Nat.toDigits 10 n.natAbs).map Char.toUInt8

/-- How an object is written, from the names and the values as these are written. -/
def formatMembers : List (Bytes × Bytes) → Bytes
  | [] => []
  | [m] => formatString m.1 ++ 0x3A :: m.2
  | m :: ms => formatString m.1 ++ 0x3A :: (m.2 ++ 0x2C :: formatMembers ms)

def formatObject (members : List (Bytes × Bytes)) : Bytes := 0x7B :: (formatMembers members ++ [0x7D])

/-! ## Values -/

/-- The literals and what they stand for. -/
def literals : List (Bytes × Json) :=
  [(ascii "null", null), (ascii "true", bool true), (ascii "false", bool false)]

/-- A value that is neither a string nor has parts. -/
def parseScalar (b : Bytes) : Option (Json × Bytes) :=
  match literals.find? fun l => l.1.isPrefixOf b with
  | some l => some (l.2, b.drop l.1.length)
  | none => (scanNumber b).map fun p => (number p.1, p.2)

/-- What follows a byte that the text must begin with. -/
def expect (c : UInt8) : Bytes → Option Bytes
  | [] => none
  | d :: rest => if d = c then some rest else none

mutual

/-- The value that a text begins with, at most the given number of levels deep. -/
def parseValue : Nat → Nat → Bytes → Option (Json × Bytes)
  | 0, _, _ => none
  | _ + 1, _, [] => none
  | n + 1, depth, c :: rest =>
      if c = 0x7B then
        if depth = 0 then none
        else
          match expect 0x7D (skipSpace rest) with
          | some rest => some (object [], rest)
          | none => (parseMembers n (depth - 1) (skipSpace rest)).map fun p => (object p.1, p.2)
      else if c = 0x5B then
        if depth = 0 then none
        else
          match expect 0x5D (skipSpace rest) with
          | some rest => some (array [], rest)
          | none => (parseItems n (depth - 1) (skipSpace rest)).map fun p => (array p.1, p.2)
      else if c = quotation then (parseString rest).map fun p => (string p.1, p.2)
      else parseScalar (c :: rest)

/-- The members of an object, from the first name on. -/
def parseMembers : Nat → Nat → Bytes → Option (List (Bytes × Json) × Bytes)
  | 0, _, _ => none
  | n + 1, depth, b => do
      let rest ← expect quotation b
      let (name, rest) ← parseString rest
      let rest ← expect 0x3A (skipSpace rest)
      let (value, rest) ← parseValue n depth (skipSpace rest)
      match expect 0x2C (skipSpace rest) with
      | some rest =>
          let (members, rest) ← parseMembers n depth (skipSpace rest)
          return ((name, value) :: members, rest)
      | none =>
          let rest ← expect 0x7D (skipSpace rest)
          return ([(name, value)], rest)

/-- The items of an array, from the first one on. -/
def parseItems : Nat → Nat → Bytes → Option (List Json × Bytes)
  | 0, _, _ => none
  | n + 1, depth, b => do
      let (value, rest) ← parseValue n depth b
      match expect 0x2C (skipSpace rest) with
      | some rest =>
          let (items, rest) ← parseItems n depth (skipSpace rest)
          return (value :: items, rest)
      | none =>
          let rest ← expect 0x5D (skipSpace rest)
          return ([value], rest)

end

/-- Values are at most this deep. -/
def maxNestingDepth : Nat := 10000

/-- The one value of a text, with white space around it. -/
def parse (b : Bytes) : Option Json :=
  match parseValue (2 * b.length + 2) maxNestingDepth (skipSpace b) with
  | some (v, rest) => if skipSpace rest = [] then some v else none
  | none => none

/-! ## Strings are read back -/

variable {c e x : UInt8} {b out piece q rest : Bytes} {n : Nat}

/-- The byte stands for itself in a string. -/
def Plain (c : UInt8) : Prop := 0x20 ≤ c ∧ c ≠ quotation ∧ c ≠ backslash

instance : DecidablePred Plain := fun _ => inferInstanceAs (Decidable (_ ∧ _ ∧ _))

theorem scanString_plain (h : Plain c) (q : Bytes) :
    scanString (c :: q) = (scanString q).map fun p => (c :: p.1, p.2) := by
  obtain ⟨hle, hquote, hback⟩ := h
  cases q with
  | nil =>
      simp only [scanString, if_neg hquote, Option.map_none]
  | cons e q => rw [scanString, if_neg hquote, if_neg hback, if_neg (UInt8.not_lt.mpr hle)]

theorem scanString_plains (h : ∀ c ∈ out, Plain c) (q : Bytes) :
    scanString (out ++ q) = (scanString q).map fun p => (out ++ p.1, p.2) := by
  induction out with
  | nil =>
      rw [List.nil_append]
      cases scanString q <;> rfl
  | cons c out ih =>
      rw [List.cons_append, scanString_plain (h c List.mem_cons_self),
        ih fun d hd => h d (List.mem_cons_of_mem c hd), Option.map_map]
      rfl

/-- What was written is scanned as it is, and read as the piece. -/
structure Reads (out piece : Bytes) : Prop where
  unquoteNext : ∀ q, unquoteNext (out ++ q) = some (piece, q)
  scanString : ∀ q, scanString (out ++ q) = (scanString q).map fun p => (out ++ p.1, p.2)

theorem reads_ascii (hplain : Plain c) (hascii : c < 0x80) : Reads [c] [c] where
  unquoteNext q := by
    have hnot : ¬ (c = quotation ∨ c < 0x20) :=
      not_or.mpr ⟨hplain.2.1, UInt8.not_lt.mpr hplain.1⟩
    rw [List.singleton_append, Json.unquoteNext, if_neg hplain.2.2, if_neg hnot, coerceNext,
      runeSize_ascii hascii]
    rfl
  scanString q := scanString_plain hplain q

theorem reads_escape (h : escapes.lookup e = some x) : Reads [backslash, e] [x] where
  unquoteNext q := by
    have hne : e ≠ letterU := by
      rintro rfl
      cases h
    simp only [List.cons_append, List.nil_append, Json.unquoteNext, unquoteEscape, if_true,
      if_neg hne, h, Option.map_some]
  scanString q := by
    have hne : backslash ≠ quotation := by decide
    simp only [List.cons_append, List.nil_append, Json.scanString, if_neg hne, if_true, h,
      Option.isSome_some, true_or]

theorem reads_unicode {a b c d : UInt8} {r : Nat} (h : hex4 [a, b, c, d] = some r)
    (hplain : ∀ x ∈ [a, b, c, d], Plain x) (hr : ¬ (0xD800 ≤ r ∧ r < 0xE000)) :
    Reads [backslash, letterU, a, b, c, d] (encodeRune r) where
  unquoteNext q := by
    have hhex : hex4 (a :: b :: c :: d :: q) = some r := h
    simp only [List.cons_append, List.nil_append, Json.unquoteNext, unquoteEscape, if_true,
      unquoteRune, hhex, Option.map_some, if_neg hr]
    rfl
  scanString q := by
    have hhex : hex4 (a :: b :: c :: d :: q) = some r := h
    have hne : backslash ≠ quotation := by decide
    have hplains := scanString_plains hplain q
    simp only [List.cons_append, List.nil_append] at hplains ⊢
    rw [Json.scanString, if_neg hne, if_pos rfl, hhex, if_pos (Or.inr ⟨rfl, rfl⟩), hplains,
      Option.map_map]
    rfl

theorem plain_of_le (h : 0x80 ≤ c) : Plain c := by
  have hall : ∀ c : UInt8, 0x80 ≤ c → Plain c := by decide +kernel
  exact hall c h

/-- A valid encoding that is not ASCII stands for itself. -/
theorem reads_rune (h : runeSize (c :: b) = some n) (hc : 0x80 ≤ c) :
    Reads ((c :: b).take n) ((c :: b).take n) where
  unquoteNext q := by
    obtain ⟨hpos, hlen⟩ := runeSize_bounds h
    obtain ⟨m, rfl⟩ : ∃ m, n = m + 1 := ⟨n - 1, by omega⟩
    have hsize : runeSize ((c :: b).take (m + 1) ++ q) = some (m + 1) := by
      refine runeSize_congr h ?_
      rw [List.take_append_of_le_length (by simpa using hlen), List.take_take, Nat.min_self]
    have htake : ((c :: b).take (m + 1)).length = m + 1 := by
      rw [List.length_take]
      omega
    obtain ⟨hle, hquote, hback⟩ := plain_of_le hc
    rw [List.take_succ_cons, List.cons_append] at hsize ⊢
    rw [List.take_succ_cons] at htake
    rw [Json.unquoteNext, if_neg hback, if_neg (not_or.mpr ⟨hquote, UInt8.not_lt.mpr hle⟩),
      coerceNext, hsize, ← List.cons_append]
    simp only
    rw [List.take_left' htake, List.drop_left' htake]
  scanString q := by
    refine scanString_plains (fun x hx => plain_of_le ?_) q
    obtain ⟨i, hi⟩ := List.mem_iff_getElem?.mp hx
    cases i with
    | zero =>
        obtain ⟨hpos, -⟩ := runeSize_bounds h
        obtain ⟨m, rfl⟩ : ∃ m, n = m + 1 := ⟨n - 1, by omega⟩
        exact Option.some.inj hi ▸ hc
    | succ i =>
        have hlt : i + 1 < n := by
          by_contra hge
          rw [List.getElem?_eq_none (by rw [List.length_take]; omega)] at hi
          cases hi
        rw [List.getElem?_take_of_lt hlt] at hi
        exact not_ascii_of_rune h hlt hi

theorem reads_escapeByte (h : c < 0x80) : Reads (escape c) [c] := by
  have hshort : ∀ c : UInt8, ∀ e ∈ shortEscapes.lookup c, escapes.lookup e = some c := by
    decide +kernel
  have hcontrol : ∀ c : UInt8, c < 0x20 →
      hex4 [0x30, 0x30, (Nat.digitChar (c.toNat / 16)).toUInt8,
        (Nat.digitChar (c.toNat % 16)).toUInt8] = some c.toNat ∧
      (∀ x ∈ [0x30, 0x30, (Nat.digitChar (c.toNat / 16)).toUInt8,
        (Nat.digitChar (c.toNat % 16)).toUInt8], Plain x) ∧
      ¬ (0xD800 ≤ c.toNat ∧ c.toNat < 0xE000) ∧ encodeRune c.toNat = [c] := by
    decide +kernel
  have hplain : ∀ c : UInt8, shortEscapes.lookup c = none → ¬ c < 0x20 → Plain c := by
    decide +kernel
  unfold escape
  cases hlookup : shortEscapes.lookup c with
  | some e => exact reads_escape (hshort c e hlookup)
  | none =>
      simp only
      split
      · next hlt =>
          obtain ⟨hhex, hplains, hr, hrune⟩ := hcontrol c hlt
          exact hrune ▸ reads_unicode hhex hplains hr
      · next hge => exact reads_ascii (hplain c hlookup hge) h

/-- A piece is read back as its coercion. -/
theorem reads_quoteNext (hb : b ≠ []) :
    Reads (quoteNext b).1 (coerceNext b).1 ∧ (quoteNext b).2 = (coerceNext b).2 := by
  obtain ⟨c, rest, rfl⟩ := List.exists_cons_of_ne_nil hb
  unfold quoteNext coerceNext
  by_cases hc : c < 0x80
  · simp only [if_pos hc, runeSize_ascii hc]
    exact ⟨reads_escapeByte hc, rfl⟩
  · simp only [if_neg hc]
    cases hsize : runeSize (c :: rest) with
    | none =>
        have hreplace : replacement = encodeRune 0xFFFD := by decide
        refine ⟨?_, rfl⟩
        simp only [hreplace]
        exact reads_unicode rfl (by decide +kernel) (by omega)
    | some n =>
        simp only
        split_ifs with h8 h9
        · have hline : [0xE2, 0x80, 0xA8] = encodeRune 0x2028 := by decide
          refine ⟨?_, rfl⟩
          simp only [h8, hline]
          exact reads_unicode rfl (by decide +kernel) (by omega)
        · have hline : [0xE2, 0x80, 0xA9] = encodeRune 0x2029 := by decide
          refine ⟨?_, rfl⟩
          simp only [h9, hline]
          exact reads_unicode rfl (by decide +kernel) (by omega)
        · exact ⟨reads_rune hsize (UInt8.not_lt.mp hc), rfl⟩

theorem quoteNext_consumes : Consumes quoteNext := fun b hb => by
  rw [(reads_quoteNext hb).2]
  exact coerceNext_consumes b hb

theorem unquoteRune_length {p : Bytes × Bytes} (h : unquoteRune b = some p) :
    p.2.length ≤ b.length := by
  obtain ⟨r, -, rfl⟩ := Option.map_eq_some_iff.mp h
  split
  · split
    · split <;> simp
    · simp
  · simp

theorem unquoteNext_length (b : Bytes) (p : Bytes × Bytes) (h : unquoteNext b = some p) :
    p.2.length < b.length := by
  cases b with
  | nil => cases h
  | cons c rest =>
      rw [unquoteNext] at h
      split_ifs at h
      · cases rest with
        | nil => cases h
        | cons e rest =>
            rw [unquoteEscape] at h
            split_ifs at h
            · have := unquoteRune_length h
              simp only [List.length_cons]
              omega
            · obtain ⟨x, -, rfl⟩ := Option.map_eq_some_iff.mp h
              simp
      · obtain rfl := Option.some.inj h
        exact coerceNext_consumes _ (List.cons_ne_nil c rest)

/-- A text that was quoted is read back as its coercion. -/
theorem unquote_quote : ∀ s : Bytes, unquote (quote s) = some (coerce s) := by
  refine quoteNext_consumes.induction rfl fun b hb ih => ?_
  obtain ⟨hreads, hrest⟩ := reads_quoteNext hb
  have hquote : quote b = (quoteNext b).1 ++ quote (quoteNext b).2 :=
    rewriteAll_of_ne quoteNext_consumes hb
  have hcoerce : coerce b = (coerceNext b).1 ++ coerce (coerceNext b).2 :=
    rewriteAll_of_ne coerceNext_consumes hb
  have hnext := hreads.unquoteNext (quote (quoteNext b).2)
  have hne : (quoteNext b).1 ++ quote (quoteNext b).2 ≠ [] := fun hnil => by
    rw [hnil] at hnext
    cases hnext
  rw [hquote, unquote, readAll_of_ne unquoteNext_length hne, hnext, Option.bind_some]
  change (unquote (quote (quoteNext b).2)).map _ = _
  rw [ih, Option.map_some, hcoerce, hrest]

theorem scanString_quote (rest : Bytes) :
    ∀ s : Bytes, scanString (quote s ++ quotation :: rest) = some (quote s, rest) := by
  refine quoteNext_consumes.induction ?_ fun b hb ih => ?_
  · cases rest <;> rfl
  · have hquote : quote b = (quoteNext b).1 ++ quote (quoteNext b).2 :=
      rewriteAll_of_ne quoteNext_consumes hb
    rw [hquote, List.append_assoc, (reads_quoteNext hb).1.scanString, ih]
    rfl

/-- A string that was written is read back as its coercion. -/
theorem parseString_quote (s rest : Bytes) :
    parseString (quote s ++ quotation :: rest) = some (coerce s, rest) := by
  rw [parseString, scanString_quote, Option.bind_some, unquote_quote]
  rfl

/-! ## Integers are read back -/

/-- The digits of a number. -/
def decimal (k : Nat) : Bytes := (Nat.toDigits 10 k).map Char.toUInt8

theorem mem_toDigits {k : Nat} {ch : Char} (h : ch ∈ Nat.toDigits 10 k) :
    ∃ i < 10, ch = Nat.digitChar i := by
  induction k using Nat.strong_induction_on with
  | _ k ih =>
      rcases Nat.lt_or_ge k 10 with hlt | hge
      · rw [Nat.toDigits_of_lt_base hlt, List.mem_singleton] at h
        exact ⟨k, hlt, h⟩
      · rw [Nat.toDigits_of_base_le (by decide) hge, List.mem_append, List.mem_singleton] at h
        rcases h with h | h
        · exact ih _ (Nat.div_lt_self (by omega) (by decide)) h
        · exact ⟨_, Nat.mod_lt _ (by decide), h⟩

theorem isDigit_of_mem_decimal {k : Nat} (h : c ∈ decimal k) : isDigit c = true := by
  have hall : ∀ i < 10, isDigit (Nat.digitChar i).toUInt8 = true := by decide
  obtain ⟨ch, hch, rfl⟩ := List.mem_map.mp h
  obtain ⟨i, hi, rfl⟩ := mem_toDigits hch
  exact hall i hi

theorem decimal_ne_nil (k : Nat) : decimal k ≠ [] := fun h =>
  Nat.toDigits_ne_nil (List.map_eq_nil_iff.mp h)

theorem ofDigitChars_decimal (k : Nat) :
    Nat.ofDigitChars 10 ((decimal k).map fun c => Char.ofNat c.toNat) 0 = k := by
  have hchars : (decimal k).map (fun c => Char.ofNat c.toNat) = Nat.toDigits 10 k := by
    have hall : ∀ i < 10, Char.ofNat (Nat.digitChar i).toUInt8.toNat = Nat.digitChar i := by decide
    rw [decimal, List.map_map]
    refine (List.map_congr_left fun ch hch => ?_).trans (List.map_id _)
    obtain ⟨i, hi, rfl⟩ := mem_toDigits hch
    exact hall i hi
  rw [hchars, Nat.ofDigitChars_ten_toDigits]

/-- Only zero is written with a leading zero. -/
theorem decimal_head {k : Nat} (hk : k ≠ 0) : ∃ c cs, decimal k = c :: cs ∧ c ≠ 0x30 := by
  induction k using Nat.strong_induction_on with
  | _ k ih =>
      rcases Nat.lt_or_ge k 10 with hlt | hge
      · have hall : ∀ k < 10, k = 0 ∨ (Nat.digitChar k).toUInt8 ≠ 0x30 := by decide +kernel
        rw [decimal, Nat.toDigits_of_lt_base hlt]
        exact ⟨_, _, rfl, (hall k hlt).resolve_left hk⟩
      · have hlt : k / 10 < k := Nat.div_lt_self (by omega) (by decide)
        obtain ⟨c, cs, hcons, hne⟩ := ih (k / 10) hlt (by omega)
        refine ⟨c, cs ++ [(Nat.digitChar (k % 10)).toUInt8], ?_, hne⟩
        rw [decimal, Nat.toDigits_of_base_le (by decide) hge, List.map_append]
        change decimal (k / 10) ++ _ = _
        rw [hcons]
        rfl

/-- An integer that was written is read back if it fits, and not otherwise. -/
theorem parseInt_formatInt (n : Int) :
    parseInt (formatInt n) = if -2 ^ 63 ≤ n ∧ n < 2 ^ 63 then some n else none := by
  have hall : (decimal n.natAbs).all isDigit = true :=
    List.all_eq_true.mpr fun c hc => isDigit_of_mem_decimal hc
  have hne := decimal_ne_nil n.natAbs
  have hformat : formatInt n = (if n < 0 then [0x2D] else []) ++ decimal n.natAbs := rfl
  rw [hformat]
  by_cases hneg : n < 0
  · have hsign : (([0x2D] ++ decimal n.natAbs).take 1).filter (· = 0x2D) = [(0x2D : UInt8)] := rfl
    rw [if_pos hneg, parseInt, hsign]
    simp only [List.length_singleton, List.singleton_append, List.drop_succ_cons, List.drop_zero,
      ofDigitChars_decimal, hall, ne_eq, hne, not_false_eq_true, true_and, reduceCtorEq, if_false]
    have habs : -(n.natAbs : Int) = n := by omega
    rw [habs]
  · obtain ⟨c, cs, hcons⟩ := List.exists_cons_of_ne_nil hne
    have hc : c ≠ 0x2D := by
      rintro rfl
      exact absurd (isDigit_of_mem_decimal (hcons ▸ List.mem_cons_self)) (by decide)
    have hsign : (([] ++ decimal n.natAbs).take 1).filter (· = 0x2D) = ([] : Bytes) := by
      rw [List.nil_append, hcons]
      simp [hc]
    rw [if_neg hneg, parseInt, hsign]
    simp only [List.length_nil, List.nil_append, List.drop_zero, ofDigitChars_decimal, hall, ne_eq,
      hne, not_false_eq_true, true_and, if_true]
    have habs : (n.natAbs : Int) = n := by omega
    rw [habs]

/-- A byte that ends a number. -/
def Ends (c : UInt8) : Prop := isDigit c = false ∧ c ∉ [(0x2E : UInt8), 0x65, 0x45]

theorem scanInt_decimal (k : Nat) (hc : Ends c) (rest : Bytes) :
    scanInt (decimal k ++ c :: rest) = some (decimal k, c :: rest) := by
  by_cases hk : k = 0
  · subst hk
    have hzero : decimal 0 = [0x30] := rfl
    rw [hzero, List.singleton_append, scanInt, if_pos rfl]
  · obtain ⟨d, ds, hcons, hne⟩ := decimal_head hk
    have hall : ∀ x ∈ d :: ds, isDigit x = true := fun x hx =>
      isDigit_of_mem_decimal (hcons ▸ hx)
    have hcfalse : ¬ isDigit c = true := by
      rw [hc.1]
      exact Bool.false_ne_true
    have htake : ((d :: ds) ++ c :: rest).takeWhile isDigit = d :: ds := by
      rw [List.takeWhile_append_of_pos hall, List.takeWhile_cons_of_neg hcfalse, List.append_nil]
    have hdrop : ((d :: ds) ++ c :: rest).dropWhile isDigit = c :: rest := by
      rw [List.dropWhile_append_of_pos hall, List.dropWhile_cons_of_neg hcfalse]
    rw [hcons, List.cons_append, scanInt, if_neg hne, ← List.cons_append, scanDigits, htake, hdrop,
      if_neg (List.cons_ne_nil d ds)]

theorem scanNumber_formatInt (n : Int) (hc : Ends c) (rest : Bytes) :
    scanNumber (formatInt n ++ c :: rest) = some (formatInt n, c :: rest) := by
  obtain ⟨hdot, hexp⟩ := not_or.mp fun h => hc.2 (List.mem_cons.mpr h)
  have hfrac : scanPart [0x2E] [] (c :: rest) = some ([], c :: rest) := by
    rw [scanPart, if_neg fun hmem => hdot (List.mem_singleton.mp hmem)]
  have hpow : scanPart [0x65, 0x45] [0x2B, 0x2D] (c :: rest) = some ([], c :: rest) := by
    rw [scanPart, if_neg hexp]
  have hformat : formatInt n = (if n < 0 then [0x2D] else []) ++ decimal n.natAbs := rfl
  have hsign : ((formatInt n ++ c :: rest).take 1).filter (· = 0x2D) =
      if n < 0 then [(0x2D : UInt8)] else [] := by
    rw [hformat]
    split
    · rfl
    · obtain ⟨d, ds, hcons⟩ := List.exists_cons_of_ne_nil (decimal_ne_nil n.natAbs)
      have hd : d ≠ 0x2D := by
        rintro rfl
        exact absurd (isDigit_of_mem_decimal (hcons ▸ List.mem_cons_self)) (by decide)
      rw [List.nil_append, hcons]
      simp [hd]
  have hdrop : (formatInt n ++ c :: rest).drop (if n < 0 then [(0x2D : UInt8)] else []).length =
      decimal n.natAbs ++ c :: rest := by
    rw [hformat, List.append_assoc, List.drop_left]
  unfold scanNumber
  simp only [hsign, hdrop, scanInt_decimal n.natAbs hc, Option.bind_eq_bind, Option.bind_some,
    hfrac, hpow, List.append_nil, ← hformat]
  rfl

/-! ## Objects are read back -/

/-- The text begins with what is not white space, and it is read as the value when the next
member or the end of the object follows. -/
structure Encodes (text : Bytes) (v : Json) : Prop where
  skipSpace : ∀ rest, skipSpace (text ++ rest) = text ++ rest
  parse : ∀ n depth rest, ∀ c ∈ [(0x2C : UInt8), 0x7D],
    parseValue (n + 1) depth (text ++ c :: rest) = some (v, c :: rest)

theorem skipSpace_cons (h : isSpace c = false) (rest : Bytes) :
    skipSpace (c :: rest) = c :: rest := by
  rw [skipSpace, List.dropWhile_cons_of_neg (by rw [h]; exact Bool.false_ne_true)]

theorem expect_same (c : UInt8) (rest : Bytes) : expect c (c :: rest) = some rest := if_pos rfl

theorem expect_skipSpace (h : isSpace c = false) (rest : Bytes) :
    expect c (skipSpace (c :: rest)) = some rest := by
  rw [skipSpace_cons h, expect_same]

theorem encodes_string (s : Bytes) : Encodes (formatString s) (string (coerce s)) where
  skipSpace rest := skipSpace_cons rfl _
  parse n depth rest c _ := by
    have hbrace : quotation ≠ 0x7B := by decide
    have hbracket : quotation ≠ 0x5B := by decide
    have hquote := parseString_quote s (c :: rest)
    have htext : formatString s ++ c :: rest = quotation :: (quote s ++ quotation :: c :: rest) := by
      simp [formatString]
    rw [htext, parseValue, if_neg hbrace, if_neg hbracket, if_pos rfl, hquote]
    rfl

theorem encodes_int (n : Int) : Encodes (formatInt n) (number (formatInt n)) := by
  obtain ⟨d, ds, hcons, hd⟩ : ∃ d ds, formatInt n = d :: ds ∧ (isDigit d = true ∨ d = 0x2D) := by
    rw [formatInt]
    split
    · exact ⟨_, _, rfl, Or.inr rfl⟩
    · obtain ⟨d, ds, hcons⟩ := List.exists_cons_of_ne_nil (decimal_ne_nil n.natAbs)
      exact ⟨d, ds, hcons, Or.inl (isDigit_of_mem_decimal (hcons ▸ List.mem_cons_self))⟩
  have htable : ∀ d : UInt8, isDigit d = true ∨ d = 0x2D → isSpace d = false ∧ d ≠ 0x7B ∧
      d ≠ 0x5B ∧ d ≠ quotation ∧ ∀ l ∈ literals, l.1.head? ≠ some d ∧ l.1 ≠ [] := by
    decide +kernel
  obtain ⟨hspace, hbrace, hbracket, hquote, hliterals⟩ := htable d hd
  constructor
  · intro rest
    rw [hcons]
    exact skipSpace_cons hspace _
  · intro m depth rest c hc
    have hends : Ends c := by
      rcases List.mem_pair.mp hc with rfl | rfl <;> exact ⟨rfl, by decide⟩
    have hscan := scanNumber_formatInt n hends rest
    have hnone : (literals.find? fun l => l.1.isPrefixOf (formatInt n ++ c :: rest)) = none := by
      refine List.find?_eq_none.mpr fun l hl hpre => ?_
      obtain ⟨hhead, hnil⟩ := hliterals l hl
      obtain ⟨x, xs, hx⟩ := List.exists_cons_of_ne_nil hnil
      rw [List.isPrefixOf_iff_prefix, hx, hcons] at hpre
      rw [hx] at hhead
      exact hhead (congrArg some (List.cons_prefix_cons.mp hpre).1)
    have hscalar : parseScalar (formatInt n ++ c :: rest) =
        some (number (formatInt n), c :: rest) := by
      rw [parseScalar, hnone, hscan]
      rfl
    rw [hcons, List.cons_append] at hscalar ⊢
    rw [parseValue, if_neg hbrace, if_neg hbracket, if_neg hquote, hscalar]

/-- Members that were written are read back in order. -/
theorem parseMembers_formatMembers {n depth : Nat} (ms : List (Bytes × Bytes × Json))
    (hms : ∀ m ∈ ms, Encodes m.2.1 m.2.2) (hne : ms ≠ []) (hn : ms.length < n) (rest : Bytes) :
    parseMembers n depth (formatMembers (ms.map fun m => (m.1, m.2.1)) ++ 0x7D :: rest) =
      some (ms.map fun m => (coerce m.1, m.2.2), rest) := by
  have hcolon : ∀ r, expect 0x3A (skipSpace (0x3A :: r)) = some r := expect_skipSpace rfl
  have hcomma : ∀ r, expect 0x2C (skipSpace (0x2C :: r)) = some r := expect_skipSpace rfl
  have hclose : ∀ r, expect 0x7D (skipSpace (0x7D :: r)) = some r := expect_skipSpace rfl
  have hlast : ∀ r, expect 0x2C (skipSpace (0x7D :: r)) = none := fun r => by
    rw [skipSpace_cons rfl]
    rfl
  induction ms generalizing n with
  | nil => exact absurd rfl hne
  | cons m ms ih =>
      obtain ⟨k, rfl⟩ : ∃ k, n = k + 2 :=
        ⟨n - 2, by simp only [List.length_cons] at hn; omega⟩
      have hm := hms m List.mem_cons_self
      cases ms with
      | nil =>
          have htext : formatMembers ([m].map fun m => (m.1, m.2.1)) ++ 0x7D :: rest =
              quotation :: (quote m.1 ++ quotation :: 0x3A :: (m.2.1 ++ 0x7D :: rest)) := by
            simp [formatMembers, formatString]
          have hvalue := hm.parse k depth rest 0x7D (by decide)
          rw [htext, parseMembers]
          simp only [expect_same, Option.bind_eq_bind, Option.bind_some, parseString_quote, hcolon,
            hm.skipSpace, hvalue, hlast, hclose]
          rfl
      | cons m' ms =>
          have htext : formatMembers ((m :: m' :: ms).map fun m => (m.1, m.2.1)) ++ 0x7D :: rest =
              quotation :: (quote m.1 ++ quotation :: 0x3A :: (m.2.1 ++ 0x2C ::
                (formatMembers ((m' :: ms).map fun m => (m.1, m.2.1)) ++ 0x7D :: rest))) := by
            simp [formatMembers, formatString]
          have hvalue := fun r => hm.parse k depth r 0x2C (by decide)
          have hlen : (m' :: ms).length < k + 1 := by
            simp only [List.length_cons] at hn ⊢
            omega
          have hrest := ih (fun x hx => hms x (List.mem_cons_of_mem m hx))
            (List.cons_ne_nil m' ms) hlen
          have hskip : skipSpace (formatMembers ((m' :: ms).map fun m => (m.1, m.2.1)) ++
              0x7D :: rest) =
                formatMembers ((m' :: ms).map fun m => (m.1, m.2.1)) ++ 0x7D :: rest := by
            cases ms <;> exact skipSpace_cons rfl _
          rw [htext, parseMembers]
          simp only [expect_same, Option.bind_eq_bind, Option.bind_some, parseString_quote, hcolon,
            hm.skipSpace, hvalue, hcomma, hskip, hrest]
          rfl

theorem length_formatMembers (ms : List (Bytes × Bytes)) :
    ms.length ≤ (formatMembers ms).length := by
  induction ms with
  | nil => exact Nat.zero_le _
  | cons m ms ih =>
      cases ms with
      | nil => simp [formatMembers, formatString]
      | cons m' ms =>
          rw [formatMembers]
          · simp only [List.length_append, List.length_cons] at ih ⊢
            omega
          · simp

/-- An object that was written, with a newline after it, is read back. -/
theorem parse_formatObject (ms : List (Bytes × Bytes × Json))
    (hms : ∀ m ∈ ms, Encodes m.2.1 m.2.2) (hne : ms ≠ []) :
    parse (formatObject (ms.map fun m => (m.1, m.2.1)) ++ [0x0A]) =
      some (object (ms.map fun m => (coerce m.1, m.2.2))) := by
  have htext : formatObject (ms.map fun m => (m.1, m.2.1)) ++ [0x0A] =
      0x7B :: (formatMembers (ms.map fun m => (m.1, m.2.1)) ++ 0x7D :: [0x0A]) := by
    simp [formatObject]
  have hlen := length_formatMembers (ms.map fun m => (m.1, m.2.1))
  rw [List.length_map] at hlen
  obtain ⟨rest, hhead⟩ : ∃ rest, formatMembers (ms.map fun m => (m.1, m.2.1)) ++ 0x7D :: [0x0A] =
      quotation :: rest := by
    obtain ⟨m, ms, rfl⟩ := List.exists_cons_of_ne_nil hne
    cases ms <;> exact ⟨_, rfl⟩
  obtain ⟨k, hk⟩ : ∃ k, 2 * (formatObject (ms.map fun m : Bytes × Bytes × Json =>
      (m.1, m.2.1)) ++ [0x0A]).length + 2 = k + 1 := ⟨_, rfl⟩
  have hfuel : ms.length < k := by
    rw [htext] at hk
    simp only [List.length_cons, List.length_append] at hk
    omega
  have hmembers : parseMembers k (maxNestingDepth - 1) (quotation :: rest) = some _ :=
    hhead ▸ parseMembers_formatMembers ms hms hne hfuel [0x0A]
  have hdepth : maxNestingDepth ≠ 0 := by decide
  have hmember : expect 0x7D (quotation :: rest) = none := rfl
  rw [parse, hk, htext, skipSpace_cons rfl, hhead, parseValue, if_pos rfl, if_neg hdepth,
    skipSpace_cons rfl, hmember]
  simp only [hmembers, Option.map_some]
  rfl

end Json
