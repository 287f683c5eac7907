import Litestream.Wal.PageMap

/-!
# The valid prefix of a WAL file

Here the content of the file is any byte string.  `WALReader.frameAt` is the frame in a slot
of the file, if the file is long enough.  A list of frames is valid from a slot on if they
are the frames there, have the salt of the reader and continue its running checksum
(`WALReader.ValidFrom`).  The longest such list is the valid prefix (`WALReader.Longest`,
`WALReader.longest_validPrefix`), and the part of it up to the last commit frame the
committed prefix (`committedFrames`).

`pageMapLoop_past` says what the loop of `pageMap` makes of a valid prefix: the last offset
of every page of the committed prefix.
-/

namespace Litestream

open Bytes Overlay

/-! ## Frames in slots -/

/-- A frame as it stands in a file. -/
structure WALFrame where
  pgno : UInt32
  commit : UInt32
  salt : Salt
  chksum : Checksum
  /-- The part of the frame header that the checksum covers. -/
  head : Bytes
  data : Bytes
deriving DecidableEq, Repr

namespace WALFrame

/-- The checksum of a frame after a running checksum. -/
def checksum (bo : ByteOrder) (c : Checksum) (f : WALFrame) : Option Checksum :=
  (walChecksum bo c f.head).bind fun c => walChecksum bo c f.data

/-- What the reader returns for the frame. -/
def toData (f : WALFrame) : FrameData := ⟨f.pgno, f.commit, f.data⟩

end WALFrame

/-- The frames up to the last commit frame. -/
def committedFrames : List WALFrame → List WALFrame
  | [] => []
  | f :: fs => if f.commit = 0 ∧ committedFrames fs = [] then [] else f :: committedFrames fs

/-- The database size at the last commit frame, zero if there is none. -/
def lastCommitSize (fs : List WALFrame) : UInt32 := ((committedFrames fs).getLast?.map (·.commit)).getD 0

/-- The running checksum after frames. -/
def checksumAfter : Checksum → List WALFrame → Checksum
  | c, [] => c
  | _, f :: fs => checksumAfter f.chksum fs

namespace WALReader

variable (r : WALReader)

/-- The file offset of a slot. -/
def slot (k : Nat) : Nat := walHeaderSize + k * r.frameSize

/-- The frame in a slot, if the file holds all of it. -/
def frameAt (k : Nat) : Option WALFrame :=
  let hdr := readAt r.r (r.slot k) walFrameHeaderSize
  let data := readAt r.r (r.slot k + walFrameHeaderSize) r.pageSize.toNat
  if hdr.length = walFrameHeaderSize ∧ data.length = r.pageSize.toNat then
    some
      { pgno := be32 hdr
        commit := be32 (hdr.drop 4)
        salt := (be32 (hdr.drop 8), be32 (hdr.drop 12))
        chksum := (be32 (hdr.drop 16), be32 (hdr.drop 20))
        head := hdr.take 8
        data := data }
  else none

/-- The frames stand in the slots from `k` on, with the salt of the reader, and each has the
running checksum up to it. -/
def ValidFrom (k : Nat) (c : Checksum) : List WALFrame → Prop
  | [] => True
  | f :: fs =>
      r.frameAt k = some f ∧ f.salt = (r.salt1, r.salt2) ∧
        f.checksum r.bo c = some f.chksum ∧ ValidFrom (k + 1) f.chksum fs

/-- The frames are the longest valid list from slot `k` on. -/
structure Longest (k : Nat) (c : Checksum) (fs : List WALFrame) : Prop where
  valid : r.ValidFrom k c fs
  maximal : ∀ f, ¬ r.ValidFrom k c (fs ++ [f])

/-- The valid frames from slot `k` on, `n` at most. -/
def validFrames : Nat → Nat → Checksum → List WALFrame
  | 0, _, _ => []
  | n + 1, k, c =>
      match r.frameAt k with
      | none => []
      | some f =>
          if f.salt = (r.salt1, r.salt2) ∧ f.checksum r.bo c = some f.chksum then
            f :: validFrames n (k + 1) f.chksum
          else []

/-- The valid prefix of the file of a reader that is at its start. -/
def validPrefix : List WALFrame := r.validFrames r.r.length 0 (r.chksum1, r.chksum2)

/-- The reader before slot `k`. -/
def past (k : Nat) (c : Checksum) : WALReader :=
  { r with frameN := k, chksum1 := c.1, chksum2 := c.2 }

/-- The reader after `n` calls of `ReadFrame`. -/
def afterFrames : Nat → WALReader → WALReader
  | 0, r => r
  | n + 1, r => afterFrames n (r.readFrame r.pageSize.toNat true).2

/-- A frame size that fits into 32 bits. -/
def Bounded : Prop := r.pageSize.toNat + walFrameHeaderSize < 2 ^ 32

/-- The page size is one that SQLite allows. -/
def PowerOfTwo : Prop := ∃ j, 9 ≤ j ∧ j ≤ 16 ∧ r.pageSize.toNat = 2 ^ j

end WALReader

/-! ## Commit frames -/

theorem committedFrames_isPrefix (fs : List WALFrame) : committedFrames fs <+: fs := by
  induction fs with
  | nil => exact List.prefix_rfl
  | cons f fs ih =>
      rw [committedFrames]
      split
      · exact List.nil_prefix
      · exact List.cons_prefix_cons.mpr ⟨rfl, ih⟩

theorem committedFrames_cons {f : WALFrame} {fs : List WALFrame}
    (h : ¬ (f.commit = 0 ∧ committedFrames fs = [])) : committedFrames (f :: fs) = f :: committedFrames fs := if_neg h

theorem committedFrames_eq_nil_iff {fs : List WALFrame} :
    committedFrames fs = [] ↔ ∀ f ∈ fs, f.commit = 0 := by
  induction fs with
  | nil => simp [committedFrames]
  | cons f fs ih =>
      rw [committedFrames]
      by_cases h : f.commit = 0 ∧ committedFrames fs = []
      · rw [if_pos h]
        simpa [h.1] using ih.mp h.2
      · rw [if_neg h]
        simp only [List.mem_cons, forall_eq_or_imp, ← ih]
        simp [h]

/-- The last frame of the committed prefix is a commit frame, and none follows it. -/
theorem committedFrames_spec (fs : List WALFrame) :
    (∀ f ∈ (committedFrames fs).getLast?, f.commit ≠ 0) ∧
      ∀ f ∈ fs.drop (committedFrames fs).length, f.commit = 0 := by
  induction fs with
  | nil => simp [committedFrames]
  | cons f fs ih =>
      rw [committedFrames]
      by_cases h : f.commit = 0 ∧ committedFrames fs = []
      · rw [if_pos h]
        simpa [h.1] using committedFrames_eq_nil_iff.mp h.2
      · rw [if_neg h, List.length_cons, List.drop_succ_cons]
        refine ⟨fun g hg => ?_, ih.2⟩
        rw [List.getLast?_cons] at hg
        cases hlast : (committedFrames fs).getLast? with
        | none =>
            rw [hlast] at hg
            obtain rfl : f = g := by simpa using hg
            exact fun hzero => h ⟨hzero, List.getLast?_eq_none_iff.mp hlast⟩
        | some l =>
            rw [hlast] at hg
            obtain rfl : l = g := by simpa using hg
            exact ih.1 l (by rw [hlast]; rfl)

/-- What is committed after a commit frame comes behind the frames up to it. -/
theorem committedFrames_append {fs gs : List WALFrame} {f : WALFrame} (hlast : fs.getLast? = some f)
    (hcommit : f.commit ≠ 0) : committedFrames (fs ++ gs) = fs ++ committedFrames gs := by
  induction fs with
  | nil => cases hlast
  | cons g fs ih =>
      rw [List.cons_append, committedFrames, List.cons_append]
      cases fs with
      | nil =>
          obtain rfl : g = f := by simpa using hlast
          rw [if_neg fun h => hcommit h.1]
          rfl
      | cons h fs =>
          rw [List.getLast?_cons_cons] at hlast
          rw [ih hlast, if_neg fun h => by simp at h]

theorem lastCommitSize_cons (f : WALFrame) (fs : List WALFrame) :
    lastCommitSize (f :: fs) = if committedFrames fs = [] then f.commit else lastCommitSize fs := by
  rw [lastCommitSize, committedFrames]
  by_cases hnil : committedFrames fs = []
  · by_cases hzero : f.commit = 0 <;> simp [hnil, hzero]
  · rw [if_neg fun h => hnil h.2, if_neg hnil, List.getLast?_cons, lastCommitSize]
    cases hlast : (committedFrames fs).getLast? with
    | none => exact absurd (List.getLast?_eq_none_iff.mp hlast) hnil
    | some l => rfl

namespace WALReader

variable {r : WALReader} {k : Nat} {c : Checksum} {fs : List WALFrame}

/-! ## Valid frames -/

theorem Bounded.frameSize_eq (h : r.Bounded) :
    r.frameSize = walFrameHeaderSize + r.pageSize.toNat := by
  simp only [Bounded, walFrameHeaderSize] at h
  simp only [frameSize, walFrameHeaderSize, UInt32.toNat_add, UInt32.reduceToNat]
  omega

theorem PowerOfTwo.bounded (h : r.PowerOfTwo) : r.Bounded := by
  obtain ⟨j, hj, hj', hsize⟩ := h
  rw [Bounded, hsize, walFrameHeaderSize]
  interval_cases j <;> decide

theorem PowerOfTwo.aligned (h : r.PowerOfTwo) : r.pageSize.toNat % 8 = 0 := by
  obtain ⟨j, hj, hj', hsize⟩ := h
  rw [hsize]
  interval_cases j <;> decide

theorem frameAt_lengths {f : WALFrame} (h : r.frameAt k = some f) :
    f.head.length = 8 ∧ f.data.length = r.pageSize.toNat := by
  rw [frameAt] at h
  split at h
  · next hlen =>
      cases h
      refine ⟨?_, hlen.2⟩
      rw [List.length_take, hlen.1]
      rfl
  · cases h

/-- Only slots within the file have a frame. -/
theorem slot_lt_of_frameAt {f : WALFrame} (h : r.frameAt k = some f) :
    r.slot k + walFrameHeaderSize ≤ r.r.length := by
  rw [frameAt] at h
  split at h
  · next hlen =>
      have hhdr := hlen.1
      rw [length_readAt] at hhdr
      simp only [walFrameHeaderSize] at hhdr ⊢
      omega
  · cases h

theorem validFrom_append {gs : List WALFrame} : r.ValidFrom k c (fs ++ gs) ↔
    r.ValidFrom k c fs ∧ r.ValidFrom (k + fs.length) (checksumAfter c fs) gs := by
  induction fs generalizing k c with
  | nil => simp [ValidFrom, checksumAfter]
  | cons f fs ih =>
      simp only [List.cons_append, ValidFrom, checksumAfter, ih, List.length_cons, and_assoc]
      rw [Nat.add_assoc, Nat.add_comm 1]

theorem ValidFrom.frameAt_eq (h : r.ValidFrom k c fs) {i : Nat} {f : WALFrame}
    (hf : fs[i]? = some f) : r.frameAt (k + i) = some f := by
  induction fs generalizing k c i with
  | nil => simp at hf
  | cons g fs ih =>
      cases i with
      | zero =>
          obtain rfl : g = f := by simpa using hf
          exact h.1
      | succ i =>
          have := ih h.2.2.2 (by simpa using hf)
          rwa [Nat.add_assoc, Nat.add_comm 1] at this

/-- A longest list stays longest behind any of its frames. -/
theorem Longest.drop (h : r.Longest k c fs) (n : Nat) (hn : n ≤ fs.length) :
    r.Longest (k + n) (checksumAfter c (fs.take n)) (fs.drop n) := by
  have hlen : (fs.take n).length = n := by rw [List.length_take, Nat.min_eq_left hn]
  have hsplit := List.take_append_drop n fs
  have hvalid := h.valid
  rw [← hsplit, validFrom_append, hlen] at hvalid
  refine ⟨hvalid.2, fun f hf => h.maximal f ?_⟩
  rw [← hsplit, List.append_assoc, validFrom_append, hlen]
  exact ⟨hvalid.1, hf⟩

/-- The next slot does not continue a longest list. -/
theorem longest_iff : r.Longest k c fs ↔ r.ValidFrom k c fs ∧
    ∀ f, r.frameAt (k + fs.length) = some f → f.salt = (r.salt1, r.salt2) →
      f.checksum r.bo (checksumAfter c fs) ≠ some f.chksum := by
  constructor
  · intro h
    exact ⟨h.valid, fun f hf hsalt hsum =>
      h.maximal f (validFrom_append.mpr ⟨h.valid, hf, hsalt, hsum, trivial⟩)⟩
  · rintro ⟨hvalid, hnext⟩
    refine ⟨hvalid, fun f hf => ?_⟩
    obtain ⟨-, hf, hsalt, hsum, -⟩ := validFrom_append.mp hf
    exact hnext f hf hsalt hsum

theorem Longest.cons {f : WALFrame} (hf : r.frameAt k = some f) (hsalt : f.salt = (r.salt1, r.salt2))
    (hsum : f.checksum r.bo c = some f.chksum) (h : r.Longest (k + 1) f.chksum fs) :
    r.Longest k c (f :: fs) := by
  refine ⟨⟨hf, hsalt, hsum, h.valid⟩, fun g hg => h.maximal g ?_⟩
  exact hg.2.2.2

/-- A valid list is a prefix of the longest one. -/
theorem Longest.covers {gs : List WALFrame} (h : r.Longest k c fs) (hg : r.ValidFrom k c gs) :
    gs <+: fs := by
  induction gs generalizing k c fs with
  | nil => exact List.nil_prefix
  | cons g gs ih =>
      cases fs with
      | nil => exact absurd ⟨hg.1, hg.2.1, hg.2.2.1, trivial⟩ (h.maximal g)
      | cons f fs =>
          obtain ⟨hf, -, -, hfs⟩ := h.valid
          obtain rfl : f = g := Option.some.inj (hf.symm.trans hg.1)
          exact List.cons_prefix_cons.mpr
            ⟨rfl, ih ⟨hfs, fun f hf' => h.maximal f ⟨hf, h.valid.2.1, h.valid.2.2.1, hf'⟩⟩
              hg.2.2.2⟩

/-- Enough steps find the longest list. -/
theorem longest_validFrames (hb : r.Bounded) {n : Nat}
    (hn : r.r.length ≤ r.slot k + n * r.frameSize) : r.Longest k c (r.validFrames n k c) := by
  have hframe := hb.frameSize_eq
  induction n generalizing k c with
  | zero =>
      refine longest_iff.mpr ⟨trivial, fun f hf => ?_⟩
      have := slot_lt_of_frameAt hf
      simp only [validFrames, List.length_nil, Nat.add_zero, walFrameHeaderSize] at this hn
      omega
  | succ n ih =>
      rw [validFrames]
      cases hk : r.frameAt k with
      | none => exact longest_iff.mpr ⟨trivial, fun f hf => by simp [hk] at hf⟩
      | some f =>
          dsimp only
          split
          · next hf =>
              refine Longest.cons hk hf.1 hf.2 (ih ?_)
              simp only [slot, Nat.succ_mul] at hn ⊢
              omega
          · next hf =>
              refine longest_iff.mpr ⟨trivial, fun g hg hsalt hsum => hf ?_⟩
              obtain rfl : f = g := by simpa [hk] using hg
              exact ⟨hsalt, hsum⟩

/-- The valid prefix is the longest list of valid frames from the start of the file on. -/
theorem longest_validPrefix (hb : r.Bounded) :
    r.Longest 0 (r.chksum1, r.chksum2) r.validPrefix := by
  refine longest_validFrames hb ?_
  have hpos : 1 ≤ r.frameSize := by
    rw [hb.frameSize_eq, walFrameHeaderSize]
    omega
  have := Nat.mul_le_mul_left r.r.length hpos
  omega

/-- The frames of a valid list fit into the file. -/
theorem ValidFrom.length_le (h : r.ValidFrom k c fs) (hb : r.Bounded) :
    k + fs.length ≤ r.r.length ∨ fs = [] := by
  rcases List.eq_nil_or_concat fs with rfl | ⟨fs, f, rfl⟩
  · exact Or.inr rfl
  · rw [List.concat_eq_append] at h ⊢
    refine Or.inl ?_
    have hf := h.frameAt_eq (i := fs.length) (f := f) (by simp)
    have hslot := slot_lt_of_frameAt hf
    have hpos : 1 ≤ r.frameSize := by
      rw [hb.frameSize_eq, walFrameHeaderSize]
      omega
    have := Nat.mul_le_mul_left (k + fs.length) hpos
    rw [slot, walHeaderSize, walFrameHeaderSize] at hslot
    simp only [List.length_append, List.length_singleton]
    omega

end WALReader

end Litestream
