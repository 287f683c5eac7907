import Litestream.Wal.Committed

/-!
# Arbitrary bytes as a WAL file

`NewWALReader` takes the page size of the header as it is.  A page size that is not a multiple of
eight runs into the assertion of `WALChecksum`, once a frame with the salts of the header stands
behind it.  A page size of `2 ^ 32 - 24` makes frames of size zero, and a frame that repeats its
own checksum is read again and again.

`total_iff` says that there is nothing else: on all other files `PageMap` ends with a map.
-/

namespace Litestream

open Bytes

namespace WALReader

/-- The readers that `PageMap` goes through, from `r` on. -/
inductive Reads (r : WALReader) : WALReader → Prop
  | start : Reads r r
  | frame {m m' : WALReader} {data : FrameData} (h : Reads r m)
      (hread : m.readFrame m.pageSize.toNat true = (.ok data, m')) : Reads r m'

/-- What is asked of `NewWALReader` and `PageMap` on a file. -/
structure Total (rd : Bytes) : Prop where
  /-- The checksum of a header covers a multiple of eight bytes. -/
  header : ∀ bo, walHeaderSize ≤ rd.length →
    walChecksum bo (0, 0) ((readAt rd 0 walHeaderSize).take 24) ≠ none
  /-- Enough fuel gives a result, which is not that of the assertion. -/
  ends : ∀ r, newWALReader rd = .ok r → ∃ result r', result ≠ .error .misalignedChecksum ∧
    ∃ n, ∀ fuel, n ≤ fuel → pageMap fuel r = some (result, r')
  /-- Each frame has the page size of the header. -/
  sizes : ∀ r m m' data, newWALReader rd = .ok r → Reads r m →
    m.readFrame m.pageSize.toNat true = (.ok data, m') → data.data.length = r.pageSize.toNat

/-- The frame comes after itself. -/
def Repeats (r : WALReader) (f : WALFrame) : Prop :=
  r.frameSize = 0 ∧ f.checksum r.bo (r.chksum1, r.chksum2) = some f.chksum ∧
    f.checksum r.bo f.chksum = some f.chksum

/-- If the first frame has the salts of the header, the page size is a multiple of eight, and the
frame does not come after itself. -/
def Guarded (rd : Bytes) : Prop :=
  ∀ r f, newWALReader rd = .ok r → r.frameAt 0 = some f → f.salt = (r.salt1, r.salt2) →
    r.pageSize.toNat % 8 = 0 ∧ ¬ r.Repeats f

variable {r r' : WALReader} {k fuel n : Nat} {c : Checksum} {m txMap : PageOffsets}
  {commit : UInt32} {f : WALFrame}

/-! ## Checksums -/

theorem walChecksum_aligned {bo : ByteOrder} {c c' : Checksum} {b : Bytes}
    (h : walChecksum bo c b = some c') : b.length % 8 = 0 := by
  fun_induction walChecksum bo c b with
  | case1 => rfl
  | case2 s0 s1 b0 b1 b2 b3 b4 b5 b6 b7 b _ _ ih =>
      have hrest := ih h
      simp only [List.length_cons]
      omega
  | case3 => cases h

/-- The assertion fails for a frame whose page is no multiple of eight. -/
theorem checksum_eq_none (hf : r.frameAt k = some f) (haligned : r.pageSize.toNat % 8 ≠ 0)
    (c : Checksum) : f.checksum r.bo c = none := by
  cases hsum : f.checksum r.bo c with
  | none => rfl
  | some c' =>
      obtain ⟨c₁, -, hdata⟩ := Option.bind_eq_some_iff.mp hsum
      have := walChecksum_aligned hdata
      rw [(frameAt_lengths hf).2] at this
      exact absurd this haligned

/-! ## The end of the loop -/

/-- The loop ends without an error, whatever it has collected so far. -/
def LoopEnds (r : WALReader) : Prop :=
  ∀ m txMap commit, ∃ result r' n, ∀ fuel, n ≤ fuel →
    pageMapLoop fuel r m txMap commit = some (.ok result, r')

theorem loopEnds_of_eof (h : r.readFrame r.pageSize.toNat true = (.error .eof, r')) :
    r.LoopEnds := by
  intro m txMap commit
  refine ⟨(m, commit), r', 1, fun fuel hfuel => ?_⟩
  obtain ⟨fuel, rfl⟩ := Nat.exists_eq_succ_of_ne_zero (Nat.one_le_iff_ne_zero.mp hfuel)
  rw [pageMapLoop, h]

theorem loopEnds_of_frame {data : FrameData}
    (h : r.readFrame r.pageSize.toNat true = (.ok data, r')) (hends : r'.LoopEnds) :
    r.LoopEnds := by
  intro m txMap commit
  by_cases hcommit : data.commit ≠ 0
  · obtain ⟨result, r₁, n, hn⟩ := hends (txMap.insert data.pgno r'.offset ∪ m)
      (txMap.insert data.pgno r'.offset) data.commit
    refine ⟨result, r₁, n + 1, fun fuel hfuel => ?_⟩
    obtain ⟨fuel, rfl⟩ : ∃ k, fuel = k + 1 := ⟨fuel - 1, by omega⟩
    rw [pageMapLoop, h]
    exact (if_pos hcommit).trans (hn fuel (by omega))
  · obtain ⟨result, r₁, n, hn⟩ := hends m (txMap.insert data.pgno r'.offset) commit
    refine ⟨result, r₁, n + 1, fun fuel hfuel => ?_⟩
    obtain ⟨fuel, rfl⟩ : ∃ k, fuel = k + 1 := ⟨fuel - 1, by omega⟩
    rw [pageMapLoop, h]
    exact (if_neg hcommit).trans (hn fuel (by omega))

/-- What the next read does to a reader of pages of a multiple of eight bytes. -/
theorem loopEnds_past (haligned : r.pageSize.toNat % 8 = 0) (k : Nat) (c : Checksum)
    (hnext : ∀ f, r.frameAt k = some f → f.salt = (r.salt1, r.salt2) →
      f.checksum r.bo c = some f.chksum → (r.past (k + 1) f.chksum).LoopEnds) :
    (r.past k c).LoopEnds := by
  have hread := readFrame_past (r := r) k c true
  cases hf : r.frameAt k with
  | none =>
      rw [hf] at hread
      exact loopEnds_of_eof hread
  | some f =>
      rw [hf] at hread
      by_cases hsalt : f.salt = (r.salt1, r.salt2)
      · obtain ⟨c', hsum⟩ := exists_checksum haligned hf c
        by_cases heq : c' = f.chksum
        · subst heq
          simp only [hsalt, hsum, ne_eq, not_true_eq_false, if_false, if_true] at hread
          exact loopEnds_of_frame hread (hnext f hf hsalt hsum)
        · simp only [hsalt, hsum, heq, ne_eq, not_true_eq_false, not_false_eq_true, if_false,
            if_true] at hread
          exact loopEnds_of_eof hread
      · simp only [hsalt, ne_eq, not_false_eq_true, if_true] at hread
        exact loopEnds_of_eof hread

/-- Frames of a positive size run out: each read moves the slot on. -/
theorem loopEnds_of_frameSize (hpos : 0 < r.frameSize) (haligned : r.pageSize.toNat % 8 = 0)
    (hn : r.r.length < r.slot k + n) : (r.past k c).LoopEnds := by
  induction n generalizing k c with
  | zero =>
      refine loopEnds_past haligned k c fun f hf _ _ => ?_
      have := slot_lt_of_frameAt hf
      omega
  | succ n ih =>
      refine loopEnds_past haligned k c fun f _ _ _ => ih ?_
      simp only [slot, Nat.succ_mul] at hn ⊢
      omega

/-- Frames of size zero are all the first one. -/
theorem frameAt_of_frameSize (hzero : r.frameSize = 0) (k : Nat) : r.frameAt k = r.frameAt 0 := by
  rw [frameAt, frameAt, slot, slot, hzero, Nat.mul_zero, Nat.mul_zero]

/-- A frame of size zero that does not come after itself is read once at most. -/
theorem loopEnds_of_guarded {rd : Bytes} (hr : newWALReader rd = .ok r) (h : Guarded rd) :
    (r.past 0 (r.chksum1, r.chksum2)).LoopEnds := by
  by_cases haligned : r.pageSize.toNat % 8 = 0
  · rcases Nat.eq_zero_or_pos r.frameSize with hzero | hpos
    · refine loopEnds_past haligned 0 _ fun f hf hsalt hsum => ?_
      refine loopEnds_past haligned 1 _ fun g hg _ hsum' => ?_
      rw [frameAt_of_frameSize hzero, hf, Option.some.injEq] at hg
      subst hg
      exact absurd ⟨hzero, hsum, hsum'⟩ (h r f hr hf hsalt).2
    · exact loopEnds_of_frameSize hpos haligned
        (show r.r.length < r.slot 0 + (r.r.length + 1) by omega)
  · -- no frame has the salts of the header, so the first read is the last one
    have hread := readFrame_past (r := r) 0 (r.chksum1, r.chksum2) true
    cases hf : r.frameAt 0 with
    | none =>
        rw [hf] at hread
        exact loopEnds_of_eof hread
    | some f =>
        rw [hf] at hread
        have hsalt : f.salt ≠ (r.salt1, r.salt2) := fun hsalt =>
          haligned (h r f hr hf hsalt).1
        simp only [hsalt, ne_eq, not_false_eq_true, if_true] at hread
        exact loopEnds_of_eof hread

theorem exists_pageMap (h : r.LoopEnds) :
    ∃ result r' n, ∀ fuel, n ≤ fuel → pageMap fuel r = some (.ok result, r') := by
  obtain ⟨⟨m, commit⟩, r', n, hn⟩ := h ∅ ∅ 0
  by_cases hnil : (dropPastCommit m commit).keys = []
  · refine ⟨(dropPastCommit m commit, 0, 0), r', n, fun fuel hfuel => ?_⟩
    rw [pageMap, hn fuel hfuel]
    exact if_pos hnil
  · refine ⟨(dropPastCommit m commit, maxPageOffset (dropPastCommit m commit) +
      (walFrameHeaderSize + r'.pageSize.toNat), commit), r', n, fun fuel hfuel => ?_⟩
    rw [pageMap, hn fuel hfuel]
    exact if_neg hnil

/-! ## Files without an end -/

/-- The first frame runs into the assertion. -/
theorem pageMap_misaligned {rd : Bytes} (hr : newWALReader rd = .ok r) (hf : r.frameAt 0 = some f)
    (hsalt : f.salt = (r.salt1, r.salt2)) (haligned : r.pageSize.toNat % 8 ≠ 0) (fuel : Nat) :
    pageMap (fuel + 1) r = some (.error .misalignedChecksum, r) := by
  have hread := readFrame_past (r := r) 0 (r.chksum1, r.chksum2) true
  rw [← (newWALReader_past hr).2, hf] at hread
  simp only [hsalt, ne_eq, not_true_eq_false, if_false, if_true,
    checksum_eq_none hf haligned] at hread
  rw [pageMap, pageMapLoop, hread]

/-- A frame that comes after itself is read until the fuel is gone. -/
theorem pageMapLoop_repeats (hf : r.frameAt 0 = some f) (hsalt : f.salt = (r.salt1, r.salt2))
    (hrep : r.Repeats f) (hc : f.checksum r.bo c = some f.chksum) (fuel : Nat) :
    pageMapLoop fuel (r.past k c) m txMap commit = none := by
  induction fuel generalizing k c m txMap commit with
  | zero => rfl
  | succ fuel ih =>
      have hread := readFrame_past (r := r) k c true
      rw [frameAt_of_frameSize hrep.1, hf] at hread
      simp only [hsalt, ne_eq, not_true_eq_false, if_false, if_true, hc] at hread
      rw [pageMapLoop, show (r.past k c).pageSize = r.pageSize from rfl, hread]
      dsimp only
      split
      · exact ih hrep.2.2
      · exact ih hrep.2.2

/-! ## The frames that are read -/

theorem Reads.exists_past {rd : Bytes} (hr : newWALReader rd = .ok r) (h : r.Reads r') :
    ∃ k c, r' = r.past k c := by
  induction h with
  | start => exact ⟨0, _, (newWALReader_past hr).2⟩
  | frame _ hread ih =>
      obtain ⟨k, c, rfl⟩ := ih
      rw [show (r.past k c).pageSize = r.pageSize from rfl, readFrame_past] at hread
      split at hread
      · cases hread
      split at hread
      · cases hread
      rw [if_pos rfl] at hread
      split at hread
      · cases hread
      split at hread
      · cases hread
      · exact ⟨_, _, (Prod.mk.inj hread).2.symm⟩

theorem length_of_readFrame {data : FrameData}
    (h : (r.past k c).readFrame r.pageSize.toNat true = (.ok data, r')) :
    data.data.length = r.pageSize.toNat := by
  rw [readFrame_past] at h
  split at h
  · cases h
  next f hf =>
    split at h
    · cases h
    rw [if_pos rfl] at h
    split at h
    · cases h
    split at h
    · cases h
    · cases (Prod.mk.inj h).1
      exact (frameAt_lengths hf).2

/-- `NewWALReader` and `PageMap` are total exactly on the files whose first frame with the salts
of the header has pages of a multiple of eight bytes and does not come after itself. -/
theorem total_iff (rd : Bytes) : Total rd ↔ Guarded rd := by
  constructor
  · intro h r f hr hf hsalt
    obtain ⟨result, r', hresult, n, hn⟩ := h.ends r hr
    refine ⟨?_, fun hrep => ?_⟩
    · by_contra haligned
      have hmap := (hn (n + 1) (by omega)).symm.trans (pageMap_misaligned hr hf hsalt haligned n)
      exact hresult (Prod.mk.inj (Option.some.inj hmap)).1
    · have hmap := hn n le_rfl
      rw [(newWALReader_past hr).2, pageMap, pageMapLoop_repeats hf hsalt hrep hrep.2.1] at hmap
      cases hmap
  · intro h
    refine ⟨fun bo hlen hsum => ?_, fun r hr => ?_, fun r m m' data hr hreads hread => ?_⟩
    · obtain ⟨c, hc⟩ := exists_walChecksum bo (0, 0) ((readAt rd 0 walHeaderSize).take 24)
        (by simp only [List.length_take, length_readAt, walHeaderSize] at hlen ⊢; omega)
      rw [hsum] at hc
      cases hc
    · obtain ⟨result, r', n, hn⟩ := exists_pageMap (loopEnds_of_guarded hr h)
      rw [← (newWALReader_past hr).2] at hn
      exact ⟨.ok result, r', by simp, n, hn⟩
    · obtain ⟨k, c, rfl⟩ := hreads.exists_past hr
      exact length_of_readFrame hread

/-- A header with a page size of one, and a frame with its salts. -/
def tinyWAL : Bytes :=
  let header := putBe32 0x377f0683 ++ putBe32 3007000 ++ putBe32 1 ++ putBe32 0 ++ putBe32 7 ++
    putBe32 9
  let c := (walChecksum .bigEndian (0, 0) header).getD (0, 0)
  header ++ putBe32 c.1 ++ putBe32 c.2 ++
    (putBe32 1 ++ putBe32 1 ++ putBe32 7 ++ putBe32 9 ++ putBe32 0 ++ putBe32 0 ++ [0])

/-- The frame of the file runs into the assertion of the checksum. -/
theorem not_total : ¬ ∀ rd, Total rd := by
  intro h
  obtain ⟨r, hr, hcheck⟩ := exists_reader tinyWAL
    (fun r => (r.frameAt 0).any fun f =>
      f.salt = (r.salt1, r.salt2) ∧ r.pageSize.toNat % 8 ≠ 0) (by decide +kernel)
  cases hf : r.frameAt 0 with
  | none =>
      rw [hf] at hcheck
      cases hcheck
  | some f =>
      rw [hf] at hcheck
      obtain ⟨hsalt, haligned⟩ := of_decide_eq_true hcheck
      obtain ⟨result, r', hresult, n, hn⟩ := (h tinyWAL).ends r hr
      have hmap := (hn (n + 1) (by omega)).symm.trans (pageMap_misaligned hr hf hsalt haligned n)
      exact hresult (Prod.mk.inj (Option.some.inj hmap)).1

end WALReader

end Litestream
