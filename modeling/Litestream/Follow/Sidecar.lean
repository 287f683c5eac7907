import Litestream.Lib.Directory
import Litestream.Lib.Digits
import Litestream.Ltx.FileInfo

/-!
# The TXID file of a follower

A follower records its TXID in a file beside the database.  `writeTXIDFile` are the
operations that put a new one in place, and `readTXIDFile` reads it, as zero if there is
none.  Numerals are printed and parsed by the LTX package, which is not part of the
repository.  `TXIDFormat` is what is used of it.
-/

namespace Litestream

open Bytes DirOp

/-! ## Numerals -/

/-- `%016x`. -/
def hex16 (txID : Nat) : Bytes := (Digits.fixed 16 16 txID).map Char.toUInt8

def hexDigits : Bytes := ascii "0123456789abcdef"

theorem mem_hexDigits {txID : Nat} {c : UInt8} (h : c ∈ hex16 txID) : c ∈ hexDigits := by
  have hdigit : ∀ i < 16, (Nat.digitChar i).toUInt8 ∈ hexDigits := by decide
  obtain ⟨ch, hch, rfl⟩ := List.mem_map.mp h
  obtain ⟨i, hi, rfl⟩ := Digits.mem_fixed (by decide) hch
  exact hdigit i hi

@[simp] theorem length_hex16 (txID : Nat) : (hex16 txID).length = 16 := by
  rw [hex16, List.length_map, Digits.length_fixed]

theorem hex16_ne_nil (txID : Nat) : hex16 txID ≠ [] :=
  List.ne_nil_of_length_pos (by rw [length_hex16]; decide)

/-- What reading and writing TXIDs uses of the LTX package. -/
structure TXIDFormat where
  /-- `TXID.String`. -/
  string : Nat → Bytes
  /-- `ParseTXID`. -/
  parseTXID : Bytes → Option Nat
  string_eq : ∀ txID, string txID = hex16 txID
  parseTXID_string : ∀ {txID}, txID < txidLimit → parseTXID (string txID) = some txID
  parseTXID_lt : ∀ {s txID}, parseTXID s = some txID → txID < txidLimit

/-- A numeral is parsed by reading its digits and printing them again. -/
def parseHex16 (s : Bytes) : Option Nat :=
  let txID := Digits.value 16 (s.map fun c => Char.ofNat c.toNat)
  if s = hex16 txID ∧ txID < txidLimit then some txID else none

theorem parseHex16_hex16 {txID : Nat} (h : txID < txidLimit) :
    parseHex16 (hex16 txID) = some txID := by
  have hchar : ∀ i < 16, Char.ofNat (Nat.digitChar i).toUInt8.toNat = Nat.digitChar i := by decide
  have hmap : (hex16 txID).map (fun c => Char.ofNat c.toNat) = Digits.fixed 16 16 txID := by
    rw [hex16, List.map_map]
    refine (List.map_congr_left fun c hc => ?_).trans (List.map_id _)
    obtain ⟨i, hi, rfl⟩ := Digits.mem_fixed (by decide) hc
    exact hchar i hi
  have hvalue : Digits.value 16 (Digits.fixed 16 16 txID) = txID := by
    rw [Digits.value_fixed (by decide) (by decide)]
    exact Nat.mod_eq_of_lt h
  rw [parseHex16, hmap, hvalue]
  exact if_pos ⟨rfl, h⟩

theorem parseHex16_lt {s : Bytes} {txID : Nat} (h : parseHex16 s = some txID) :
    txID < txidLimit := by
  rw [parseHex16] at h
  split at h
  · next hs => exact Option.some.inj h ▸ hs.2
  · cases h

/-- The package as it is documented. -/
def txidFormat : TXIDFormat where
  string := hex16
  parseTXID := parseHex16
  string_eq _ := rfl
  parseTXID_string := parseHex16_hex16
  parseTXID_lt := parseHex16_lt

/-! ## White space -/

/-- The encodings of the runes that `unicode.IsSpace` holds of. -/
def spaces : List Bytes :=
  [[9], [10], [11], [12], [13], [32], [0xc2, 0x85], [0xc2, 0xa0], [0xe1, 0x9a, 0x80],
    [0xe2, 0x80, 0x80], [0xe2, 0x80, 0x81], [0xe2, 0x80, 0x82], [0xe2, 0x80, 0x83],
    [0xe2, 0x80, 0x84], [0xe2, 0x80, 0x85], [0xe2, 0x80, 0x86], [0xe2, 0x80, 0x87],
    [0xe2, 0x80, 0x88], [0xe2, 0x80, 0x89], [0xe2, 0x80, 0x8a], [0xe2, 0x80, 0xa8],
    [0xe2, 0x80, 0xa9], [0xe2, 0x80, 0xaf], [0xe2, 0x81, 0x9f], [0xe3, 0x80, 0x80]]

/-- Drops encodings from the start, at most the given number. -/
def trimPrefix (encodings : List Bytes) : Nat → Bytes → Bytes
  | 0, b => b
  | n + 1, b =>
      match encodings.find? fun e => e.isPrefixOf b with
      | some e => trimPrefix encodings n (b.drop e.length)
      | none => b

/-- `strings.TrimSpace`. -/
def trimSpace (b : Bytes) : Bytes :=
  let b := trimPrefix spaces b.length b
  (trimPrefix (spaces.map List.reverse) b.length b.reverse).reverse

/-- A digit is neither the first nor the last byte of white space. -/
theorem spaces_head : ∀ e ∈ spaces ++ spaces.map List.reverse, ∀ c ∈ hexDigits,
    e ≠ [] ∧ e.head? ≠ some c := by
  decide +kernel

theorem trimPrefix_of_digit {encodings : List Bytes}
    (he : ∀ e ∈ encodings, e ∈ spaces ++ spaces.map List.reverse) {c : UInt8}
    (hc : c ∈ hexDigits) (b : Bytes) (n : Nat) :
    trimPrefix encodings n (c :: b) = c :: b := by
  cases n with
  | zero => rfl
  | succ n =>
      have hnone : (encodings.find? fun e => e.isPrefixOf (c :: b)) = none := by
        refine List.find?_eq_none.mpr fun e hmem hpre => ?_
        obtain ⟨hnil, hhead⟩ := spaces_head e (he e hmem) c hc
        obtain ⟨x, xs, rfl⟩ := List.exists_cons_of_ne_nil hnil
        rw [List.isPrefixOf_iff_prefix] at hpre
        exact hhead (congrArg some (List.cons_prefix_cons.mp hpre).1)
      rw [trimPrefix, hnone]

/-- The newline after a numeral is trimmed. -/
theorem trimSpace_hex16 (txID : Nat) : trimSpace (hex16 txID ++ [10]) = hex16 txID := by
  obtain ⟨c, cs, hcons⟩ := List.exists_cons_of_ne_nil (hex16_ne_nil txID)
  have hleft : trimPrefix spaces (hex16 txID ++ [10]).length (hex16 txID ++ [10]) =
      hex16 txID ++ [10] := by
    have hc : c ∈ hexDigits := mem_hexDigits (hcons ▸ List.mem_cons_self)
    rw [hcons, List.cons_append]
    exact trimPrefix_of_digit (fun e he => List.mem_append_left _ he) hc _ _
  rw [trimSpace, hleft]
  have hrev : (hex16 txID ++ [10]).reverse = 10 :: (hex16 txID).reverse := by simp
  have hnewline : (spaces.map List.reverse).find?
      (fun e => e.isPrefixOf (10 :: (hex16 txID).reverse)) = some [10] := rfl
  obtain ⟨c, cs, hcons⟩ := List.exists_cons_of_ne_nil
    (fun h => hex16_ne_nil txID (List.reverse_eq_nil_iff.mp h))
  have hc : c ∈ hexDigits := mem_hexDigits
    (List.mem_reverse.mp (hcons ▸ List.mem_cons_self))
  rw [hrev, List.length_append, List.length_singleton, trimPrefix, hnewline]
  change (trimPrefix _ _ (hex16 txID).reverse).reverse = _
  rw [hcons, trimPrefix_of_digit (fun e he => List.mem_append_right _ he) hc, ← hcons,
    List.reverse_reverse]

/-! ## The file -/

inductive TXIDFileError where
  | parse (content : Bytes)
deriving DecidableEq, Repr

section
variable (format : TXIDFormat) (outputPath : Bytes)

/-- The path of the TXID file of a database. -/
def txidPath : Bytes := outputPath ++ ascii "-txid"

/-- `os.Create` writes it before it is renamed. -/
def txidTmpPath : Bytes := txidPath outputPath ++ ascii ".tmp"

/-- What `WriteTXIDFile` puts in the file. -/
def txidFile (txID : Nat) : Bytes := format.string txID ++ [10]

/-- The operations of `WriteTXIDFile`. -/
def writeTXIDFile (txID : Nat) : List DirOp :=
  publish (txidTmpPath outputPath) (txidPath outputPath) (txidFile format txID)

/-- `ReadTXIDFile`: zero if there is no file. -/
def readTXIDFile (d : Directory) : Except TXIDFileError Nat :=
  match d (txidPath outputPath) with
  | none => .ok 0
  | some data =>
      match format.parseTXID (trimSpace data) with
      | none => .error (.parse data)
      | some txID => .ok txID

end

variable {format : TXIDFormat} {outputPath : Bytes} {d : Directory} {txID : Nat}

theorem txidTmpPath_ne : txidTmpPath outputPath ≠ txidPath outputPath := by
  intro h
  have := List.append_right_eq_self.mp h
  exact absurd this (by decide)

theorem txidPath_ne : txidPath outputPath ≠ outputPath := fun h =>
  absurd (List.append_right_eq_self.mp h) (by decide)

theorem txidTmpPath_ne_self : txidTmpPath outputPath ≠ outputPath := by
  rw [txidTmpPath, txidPath, List.append_assoc]
  exact fun h => absurd (List.append_right_eq_self.mp h) (by decide)

/-- A TXID that was written is read back. -/
theorem readTXIDFile_of_written (h : d (txidPath outputPath) = some (txidFile format txID))
    (htxID : txID < txidLimit) : readTXIDFile format outputPath d = .ok txID := by
  have hparse : format.parseTXID (trimSpace (txidFile format txID)) = some txID := by
    rw [txidFile, format.string_eq, trimSpace_hex16, ← format.string_eq]
    exact format.parseTXID_string htxID
  rw [readTXIDFile, h]
  simp only [hparse]

theorem readTXIDFile_of_none (h : d (txidPath outputPath) = none) :
    readTXIDFile format outputPath d = .ok 0 := by
  rw [readTXIDFile, h]

theorem readTXIDFile_congr {d' : Directory} (h : d (txidPath outputPath) = d' (txidPath outputPath)) :
    readTXIDFile format outputPath d = readTXIDFile format outputPath d' := by
  rw [readTXIDFile, readTXIDFile, h]

end Litestream
