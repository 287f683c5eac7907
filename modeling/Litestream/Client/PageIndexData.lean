import Mathlib
import Litestream.Lib.Bytes

/-!
# Fetching the page index of an object

An LTX object ends with its page index, the size of the index in eight bytes, and the trailer.
`fetchPageIndexData` reads a window at the end of the object and takes the index from it.  If the
window is too small, a second read starts at the index.

The sizes are 64-bit integers, and the size of the index is whatever the object says.
`fetchPageIndexData_iff` says for which objects the result is the page index: the code does not
look at anything else before it slices and reads.
-/

namespace Litestream

open Bytes

namespace PageIndexData

/-- The size of the LTX trailer. -/
def trailerSize : Int64 := 16

def defaultEstimatedPageIndexSize : Int64 := 32 * 1024

/-- The big-endian word of 64 bits at the start of a byte string. -/
def be64 (b : Bytes) : UInt64 := UInt64.ofNat (toNatBe (b.take 8))

/-- The length of a byte string as a machine integer. -/
def len (b : Bytes) : Int64 := Int64.ofNat b.length

/-- The bytes from an offset on, `none` if the offset is out of range. -/
def sliceFrom (b : Bytes) (off : Int64) : Option Bytes :=
  if 0 ≤ off ∧ off.toInt ≤ b.length then some (b.drop off.toInt.toNat) else none

/-! ## The client -/

variable {ε : Type*}

/-- The bytes that a reader yields, and the error that it ends with. -/
structure LTXStream (ε : Type*) where
  data : Bytes
  err : Option ε
deriving DecidableEq, Repr

/-- `OpenLTXFile` for one object, by offset and size.  The size zero stands for the rest. -/
abbrev OpenLTXFile (ε : Type*) := Int64 → Int64 → Except ε (LTXStream ε)

/-- The client returns the bytes of the object. -/
def OpenLTXFile.Serves (openLTXFile : OpenLTXFile ε) (object : Bytes) : Prop :=
  ∀ offset : Int64, 0 ≤ offset → offset.toInt ≤ object.length →
    openLTXFile offset 0 = .ok ⟨object.drop offset.toInt.toNat, none⟩

/-! ## The fetch -/

inductive FetchError (ε : Type*) where
  | openLTXFile (err : ε)
  | readPageIndex (err : ε)
  /-- A slice is out of range. -/
  | sliceOutOfRange
deriving DecidableEq, Repr

/-- The ranges that a fetch requests, and its result. -/
structure Fetch (ε : Type*) where
  requests : List (Int64 × Int64)
  result : Except (FetchError ε) (LTXStream ε)

/-- The offset of the first read of an object. -/
def windowStart (size : Int64) : Int64 :=
  if size - defaultEstimatedPageIndexSize < 0 then 0 else size - defaultEstimatedPageIndexSize

/-- The offset of the page index in the bytes of the first read. -/
def windowOffset (b : Bytes) (size : UInt64) : Int64 := len b - size.toInt64 - trailerSize - 8

/-- The offset of the page index in an object. -/
def pageIndexOffset (objectSize : Int64) (size : UInt64) : Int64 :=
  objectSize - trailerSize - 8 - size.toInt64

/-- Fetches the page index of an object. -/
def fetchPageIndexData (openLTXFile : OpenLTXFile ε) (objectSize : Int64) : Fetch ε :=
  let offset := windowStart objectSize
  match openLTXFile offset 0 with
  | .error err => ⟨[(offset, 0)], .error (.openLTXFile err)⟩
  | .ok ⟨_, some err⟩ => ⟨[(offset, 0)], .error (.readPageIndex err)⟩
  | .ok ⟨b, none⟩ =>
      match sliceFrom b (len b - trailerSize - 8) with
      | none => ⟨[(offset, 0)], .error .sliceOutOfRange⟩
      | some tail =>
          let off := windowOffset b (be64 tail)
          if 0 < off then
            match sliceFrom b off with
            | none => ⟨[(offset, 0)], .error .sliceOutOfRange⟩
            | some data => ⟨[(offset, 0)], .ok ⟨data, none⟩⟩
          else
            let start := pageIndexOffset objectSize (be64 tail)
            match openLTXFile start 0 with
            | .error err => ⟨[(offset, 0), (start, 0)], .error (.openLTXFile err)⟩
            | .ok f => ⟨[(offset, 0), (start, 0)], .ok f⟩

/-! ## Page indexes -/

/-- The object ends with the page index, its size and the trailer. -/
structure EndsWith (object index tail : Bytes) : Prop where
  suffix : index ++ tail <:+ object
  length_tail : tail.length = 24
  size : (be64 tail).toNat = index.length

/-- What is asked of a fetch. -/
structure Exact (openLTXFile : OpenLTXFile ε) (object : Bytes) : Prop where
  /-- No slice is out of range. -/
  slices : (fetchPageIndexData openLTXFile (len object)).result ≠ .error .sliceOutOfRange
  /-- No request has a negative offset or size. -/
  requests : ∀ request ∈ (fetchPageIndexData openLTXFile (len object)).requests,
    0 ≤ request.1 ∧ 0 ≤ request.2
  /-- A stream is the page index up to the trailer, and what follows. -/
  stream : ∀ f, (fetchPageIndexData openLTXFile (len object)).result = .ok f →
    ∃ index tail, EndsWith object index tail ∧ f.data = index ++ tail
  /-- What the first read has of the page index is what the second one returns. -/
  paths : ∀ b tail data, openLTXFile (windowStart (len object)) 0 = .ok ⟨b, none⟩ →
    sliceFrom b (len b - trailerSize - 8) = some tail → 0 < windowOffset b (be64 tail) →
      sliceFrom b (windowOffset b (be64 tail)) = some data →
        0 ≤ pageIndexOffset (len object) (be64 tail) →
          openLTXFile (pageIndexOffset (len object) (be64 tail)) 0 = .ok ⟨data, none⟩

/-- The object has a trailer, and the size before it is within the object. -/
def WellSized (object : Bytes) : Prop :=
  24 ≤ object.length ∧ (be64 (object.drop (object.length - 24))).toNat + 24 ≤ object.length

instance (object : Bytes) : Decidable (WellSized object) := inferInstanceAs (Decidable (_ ∧ _))

variable {openLTXFile : OpenLTXFile ε} {object b tail : Bytes} {size : UInt64}

/-! ## Machine integers -/

theorem toInt_len (h : b.length < 2 ^ 63) : (len b).toInt = b.length := by
  rw [len, Int64.toInt_ofNat_of_lt h]

theorem toInt_toInt64 (size : UInt64) : size.toInt64.toInt = (size.toNat : Int).bmod (2 ^ 64) :=
  BitVec.toInt_eq_toNat_bmod _

theorem toInt_windowStart (h : b.length < 2 ^ 63) :
    (windowStart (len b)).toInt = b.length - min b.length 32768 := by
  have hsub : (len b - defaultEstimatedPageIndexSize).toInt = (b.length : Int) - 32768 := by
    rw [Int64.toInt_sub, toInt_len h, show defaultEstimatedPageIndexSize.toInt = 32768 from rfl,
      Int.bmod_eq_of_le] <;> omega
  rw [windowStart]
  split
  next hneg =>
    rw [Int64.lt_iff_toInt_lt, hsub, Int64.toInt_zero] at hneg
    rw [Int64.toInt_zero]
    omega
  next hpos =>
    rw [Int64.lt_iff_toInt_lt, hsub, Int64.toInt_zero] at hpos
    rw [hsub]
    omega

/-- The wrap-around of a difference. -/
theorem bmod_of_le {x : Int} (hlow : -2 ^ 64 ≤ x) (hhigh : x < 2 ^ 63) :
    x.bmod (2 ^ 64) = if x < -2 ^ 63 then x + 2 ^ 64 else x := by
  rw [Int.bmod_def]
  omega

theorem toInt_windowOffset (h : b.length < 2 ^ 63) (hlen : 24 ≤ b.length) (size : UInt64) :
    (windowOffset b size).toInt = if (b.length : Int) - size.toNat - 24 < -2 ^ 63 then
      (b.length : Int) - size.toNat - 24 + 2 ^ 64 else (b.length : Int) - size.toNat - 24 := by
  have hsize := size.toNat_lt
  rw [← bmod_of_le (by omega) (by omega)]
  simp only [windowOffset, Int64.toInt_sub, toInt_len h, toInt_toInt64,
    show trailerSize.toInt = 16 from rfl, show (8 : Int64).toInt = 8 from rfl]
  simp only [Int.bmod_sub_bmod, Int.sub_bmod_bmod, Int.bmod_sub_bmod]
  congr 1
  omega

theorem toInt_pageIndexOffset (h : b.length < 2 ^ 63) (hlen : 24 ≤ b.length) (size : UInt64) :
    (pageIndexOffset (len b) size).toInt = if (b.length : Int) - size.toNat - 24 < -2 ^ 63 then
      (b.length : Int) - size.toNat - 24 + 2 ^ 64 else (b.length : Int) - size.toNat - 24 := by
  have hsize := size.toNat_lt
  rw [← bmod_of_le (by omega) (by omega)]
  simp only [pageIndexOffset, Int64.toInt_sub, toInt_len h, toInt_toInt64,
    show trailerSize.toInt = 16 from rfl, show (8 : Int64).toInt = 8 from rfl]
  simp only [Int.bmod_sub_bmod, Int.sub_bmod_bmod]
  congr 1
  omega

theorem sliceFrom_of_le {off : Int64} (h : 0 ≤ off.toInt) (hle : off.toInt ≤ b.length) :
    sliceFrom b off = some (b.drop off.toInt.toNat) :=
  if_pos ⟨Int64.le_iff_toInt_le.mpr h, hle⟩

theorem sliceFrom_eq_none {off : Int64} (h : off.toInt < 0 ∨ b.length < off.toInt) :
    sliceFrom b off = none := by
  refine if_neg fun hin => ?_
  have hpos := Int64.le_iff_toInt_le.mp hin.1
  rw [Int64.toInt_zero] at hpos
  omega

/-! ## The two reads -/

/-- The end of an object that the first read returns. -/
def window (object : Bytes) : Bytes := object.drop (object.length - min object.length 32768)

@[simp] theorem length_window : (window object).length = min object.length 32768 := by
  rw [window, List.length_drop]
  omega

theorem drop_window (k : Nat) :
    (window object).drop k = object.drop (object.length - min object.length 32768 + k) := by
  rw [window, List.drop_drop]

/-- The size field and the trailer, if the object is long enough for them. -/
def objectTail (object : Bytes) : Bytes := object.drop (object.length - 24)

theorem toInt_len_sub (h : b.length < 2 ^ 63) :
    (len b - trailerSize - 8).toInt = (b.length : Int) - 24 := by
  rw [Int64.toInt_sub, Int64.toInt_sub, toInt_len h, show trailerSize.toInt = 16 from rfl,
    show (8 : Int64).toInt = 8 from rfl, Int.bmod_sub_bmod, Int.bmod_eq_of_le] <;> omega

theorem open_window (hserves : openLTXFile.Serves object) (h : object.length < 2 ^ 63) :
    openLTXFile (windowStart (len object)) 0 = .ok ⟨window object, none⟩ := by
  have hstart := toInt_windowStart h
  rw [hserves _ (Int64.le_iff_toInt_le.mpr (by rw [hstart, Int64.toInt_zero]; omega))
    (by rw [hstart]; omega), hstart, window]
  congr 3
  omega

theorem slice_tail (h : object.length < 2 ^ 63) (hlen : 24 ≤ object.length) :
    sliceFrom (window object) (len (window object) - trailerSize - 8) =
      some (objectTail object) := by
  have hoff := toInt_len_sub (b := window object) (by rw [length_window]; omega)
  rw [length_window] at hoff
  rw [sliceFrom_of_le (by rw [hoff]; omega) (by rw [hoff, length_window]; omega), hoff, window,
    objectTail, List.drop_drop]
  congr 2
  omega

/-- A short object has no place for the size. -/
theorem fetch_short (hserves : openLTXFile.Serves object) (h : object.length < 24) :
    (fetchPageIndexData openLTXFile (len object)).result = .error .sliceOutOfRange := by
  have hoff := toInt_len_sub (b := window object) (by rw [length_window]; omega)
  rw [length_window] at hoff
  rw [fetchPageIndexData, open_window hserves (by omega)]
  dsimp only
  rw [sliceFrom_eq_none (by rw [hoff]; omega)]

/-- What a fetch does behind the size field. -/
theorem fetch_long (hserves : openLTXFile.Serves object) (h : object.length < 2 ^ 63)
    (hlen : 24 ≤ object.length) :
    fetchPageIndexData openLTXFile (len object) =
      if 0 < windowOffset (window object) (be64 (objectTail object)) then
        match sliceFrom (window object) (windowOffset (window object) (be64 (objectTail object))) with
        | none => ⟨[(windowStart (len object), 0)], .error .sliceOutOfRange⟩
        | some data => ⟨[(windowStart (len object), 0)], .ok ⟨data, none⟩⟩
      else
        match openLTXFile (pageIndexOffset (len object) (be64 (objectTail object))) 0 with
        | .error err => ⟨[(windowStart (len object), 0),
            (pageIndexOffset (len object) (be64 (objectTail object)), 0)], .error (.openLTXFile err)⟩
        | .ok f => ⟨[(windowStart (len object), 0),
            (pageIndexOffset (len object) (be64 (objectTail object)), 0)], .ok f⟩ := by
  rw [fetchPageIndexData, open_window hserves h]
  dsimp only
  rw [slice_tail h hlen]

theorem EndsWith.wellSized {index : Bytes} (h : EndsWith object index tail) :
    WellSized object := by
  obtain ⟨front, hobject⟩ := h.suffix
  have hlen := congrArg List.length hobject
  simp only [List.length_append, h.length_tail] at hlen
  have htail : object.drop (object.length - 24) = tail := by
    rw [← hobject, ← List.append_assoc]
    refine List.drop_left' ?_
    simp only [List.length_append, h.length_tail]
    omega
  refine ⟨by omega, ?_⟩
  rw [htail, h.size]
  omega

theorem WellSized.endsWith (h : WellSized object) :
    ∃ index, EndsWith object index (objectTail object) ∧
      object.drop (object.length - 24 - (be64 (objectTail object)).toNat) =
        index ++ objectTail object := by
  obtain ⟨hlen, hsize⟩ := h
  have hdrop : object.drop (object.length - 24 - (be64 (objectTail object)).toNat) =
      object.readAt (object.length - 24 - (be64 (objectTail object)).toNat)
        (be64 (objectTail object)).toNat ++ objectTail object := by
    conv_lhs => rw [← List.take_append_drop (be64 (objectTail object)).toNat
      (object.drop (object.length - 24 - (be64 (objectTail object)).toNat))]
    rw [readAt, List.drop_drop]
    congr 1
    rw [objectTail]
    congr 1
    omega
  refine ⟨_, ⟨?_, ?_, ?_⟩, hdrop⟩
  · rw [← hdrop]
    exact List.drop_suffix _ _
  · rw [objectTail, List.length_drop]
    omega
  · have hsize' : (be64 (objectTail object)).toNat + 24 ≤ object.length := hsize
    rw [length_readAt]
    omega

/-- The two reads return the same bytes. -/
theorem paths_agree (hserves : openLTXFile.Serves object) (h : object.length < 2 ^ 63)
    {data : Bytes} (hopen : openLTXFile (windowStart (len object)) 0 = .ok ⟨b, none⟩)
    (htail : sliceFrom b (len b - trailerSize - 8) = some tail)
    (hpos : 0 < windowOffset b (be64 tail))
    (hdata : sliceFrom b (windowOffset b (be64 tail)) = some data)
    (hstart : 0 ≤ pageIndexOffset (len object) (be64 tail)) :
    openLTXFile (pageIndexOffset (len object) (be64 tail)) 0 = .ok ⟨data, none⟩ := by
  rw [open_window hserves h] at hopen
  obtain rfl : window object = b := by injection hopen with hopen; injection hopen
  have hlen : 24 ≤ object.length := by
    by_contra hshort
    rw [sliceFrom_eq_none] at htail
    · cases htail
    · rw [toInt_len_sub (by rw [length_window]; omega), length_window]
      omega
  have hsize := (be64 tail).toNat_lt
  have hwindow := toInt_windowOffset (b := window object) (by rw [length_window]; omega)
    (by rw [length_window]; omega) (be64 tail)
  have hindex := toInt_pageIndexOffset h hlen (be64 tail)
  rw [length_window] at hwindow
  have hpos' := Int64.lt_iff_toInt_lt.mp hpos
  have hstart' := Int64.le_iff_toInt_le.mp hstart
  rw [Int64.toInt_zero] at hpos' hstart'
  have hle : (windowOffset (window object) (be64 tail)).toInt ≤ (window object).length := by
    by_contra hgt
    rw [sliceFrom_eq_none (by omega)] at hdata
    cases hdata
  rw [length_window] at hle
  -- a wrap-around in one offset is one in the other
  have hsum : (pageIndexOffset (len object) (be64 tail)).toInt =
      (object.length - min object.length 32768 : Nat) +
        (windowOffset (window object) (be64 tail)).toInt := by
    rw [hindex, hwindow] at *
    split at hstart' <;> split at hpos' <;> omega
  rw [sliceFrom_of_le (by omega) (by rw [length_window]; omega), Option.some.injEq] at hdata
  rw [hserves _ hstart (by omega), ← hdata, drop_window]
  congr 3
  omega

/-! ## Which objects are read -/

/-- A fetch returns the page index, slices and requests within bounds, and has two paths that
agree, exactly when the object has a trailer and the size before it is within the object. -/
theorem fetchPageIndexData_iff (openLTXFile : OpenLTXFile ε) (object : Bytes)
    (hlength : object.length < 2 ^ 63) (hserves : openLTXFile.Serves object) :
    Exact openLTXFile object ↔ WellSized object := by
  constructor
  · intro hexact
    have hlen : 24 ≤ object.length := by
      by_contra hshort
      exact hexact.slices (fetch_short hserves (by omega))
    by_contra hbad
    have hlarge : object.length < (be64 (objectTail object)).toNat + 24 := by
      by_contra hle
      exact hbad ⟨hlen, by rw [← objectTail]; omega⟩
    have hfetch := fetch_long hserves hlength hlen
    by_cases hpos : 0 < windowOffset (window object) (be64 (objectTail object))
    · rw [if_pos hpos] at hfetch
      cases hslice : sliceFrom (window object)
        (windowOffset (window object) (be64 (objectTail object))) with
      | none =>
          rw [hslice] at hfetch
          exact hexact.slices (by rw [hfetch])
      | some data =>
          rw [hslice] at hfetch
          obtain ⟨index, tail, hends, -⟩ := hexact.stream ⟨data, none⟩ (by rw [hfetch])
          exact hbad hends.wellSized
    · rw [if_neg hpos] at hfetch
      have hstart : 0 ≤ pageIndexOffset (len object) (be64 (objectTail object)) := by
        refine (hexact.requests (pageIndexOffset (len object) (be64 (objectTail object)), 0) ?_).1
        rw [hfetch]
        split <;> simp
      have hsize := (be64 (objectTail object)).toNat_lt
      have hwindow := toInt_windowOffset (b := window object) (by rw [length_window]; omega)
        (by rw [length_window]; omega) (be64 (objectTail object))
      have hindex := toInt_pageIndexOffset hlength hlen (be64 (objectTail object))
      rw [length_window] at hwindow
      rw [Int64.lt_iff_toInt_lt, Int64.toInt_zero, hwindow] at hpos
      rw [Int64.le_iff_toInt_le, Int64.toInt_zero, hindex] at hstart
      split at hpos <;> split at hstart <;> omega
  · intro hsized
    have hlen := hsized.1
    have hsize : (be64 (objectTail object)).toNat + 24 ≤ object.length := hsized.2
    have hfetch := fetch_long hserves hlength hlen
    obtain ⟨index, hends, hdrop⟩ := hsized.endsWith
    have hwindow := toInt_windowOffset (b := window object) (by rw [length_window]; omega)
      (by rw [length_window]; omega) (be64 (objectTail object))
    have hindex := toInt_pageIndexOffset hlength hlen (be64 (objectTail object))
    rw [length_window, if_neg (by omega)] at hwindow
    rw [if_neg (by omega)] at hindex
    have hzero : (0 : Int64) ≤ windowStart (len object) := by
      rw [Int64.le_iff_toInt_le, toInt_windowStart hlength, Int64.toInt_zero]
      omega
    by_cases hpos : 0 < windowOffset (window object) (be64 (objectTail object))
    · rw [if_pos hpos] at hfetch
      rw [Int64.lt_iff_toInt_lt, Int64.toInt_zero] at hpos
      rw [sliceFrom_of_le (by omega) (by rw [length_window]; omega), hwindow, drop_window, show object.length - min object.length 32768 +
          (((min object.length 32768 : Nat) : Int) - (be64 (objectTail object)).toNat - 24).toNat =
            object.length - 24 - (be64 (objectTail object)).toNat by omega, hdrop] at hfetch
      refine ⟨?_, ?_, ?_, fun b tail data => paths_agree hserves hlength⟩
      · rw [hfetch]
        simp
      · rw [hfetch]
        simpa using hzero
      · rw [hfetch]
        intro f hf
        cases hf
        exact ⟨index, _, hends, rfl⟩
    · have hstart : 0 ≤ pageIndexOffset (len object) (be64 (objectTail object)) := by
        rw [Int64.le_iff_toInt_le, hindex, Int64.toInt_zero]
        omega
      rw [if_neg hpos, hserves _ hstart (by omega), hindex,
        show ((object.length : Int) - (be64 (objectTail object)).toNat - 24).toNat =
          object.length - 24 - (be64 (objectTail object)).toNat by omega, hdrop] at hfetch
      refine ⟨?_, ?_, ?_, fun b tail data => paths_agree hserves hlength⟩
      · rw [hfetch]
        simp
      · rw [hfetch]
        simp [hzero, hstart]
      · rw [hfetch]
        intro f hf
        cases hf
        exact ⟨index, _, hends, rfl⟩

/-- A client that returns the bytes of an object. -/
def serve (object : Bytes) : OpenLTXFile Unit := fun offset _ =>
  .ok ⟨object.drop offset.toInt.toNat, none⟩

theorem serve_serves (object : Bytes) : (serve object).Serves object := fun _ _ _ => rfl

/-- An object of a page block of three bytes, an index of two, its size and a trailer. -/
theorem fetchPageIndexData_iff_sample :
    Exact (serve ([1, 2, 3] ++ [8, 9] ++ [0, 0, 0, 0, 0, 0, 0, 2] ++ List.replicate 16 0))
      ([1, 2, 3] ++ [8, 9] ++ [0, 0, 0, 0, 0, 0, 0, 2] ++ List.replicate 16 0) :=
  (fetchPageIndexData_iff _ _ (by decide) (serve_serves _)).mpr (by decide)

/-- The bytes before the size field are fewer than the size says. -/
def overlong : Bytes := [0, 0, 0, 0, 0, 0, 0, 1] ++ List.replicate 16 0

/-- The second read of the object starts before its first byte. -/
theorem not_exact : ¬ ∀ (object : Bytes) (openLTXFile : OpenLTXFile Unit),
    object.length < 2 ^ 63 → openLTXFile.Serves object → Exact openLTXFile object := by
  intro h
  have hexact := h overlong (serve overlong) (by decide) (serve_serves _)
  exact absurd (hexact.requests (-1, 0) (by decide)).1 (by decide)

end PageIndexData

end Litestream
