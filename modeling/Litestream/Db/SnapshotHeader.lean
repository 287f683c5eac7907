import Litestream.Db.Snapshot
import Litestream.Wal.Committed

/-!
# The header of a snapshot

The goroutine of `SnapshotReader` records a slice of the WAL in the header of the snapshot.
The slice starts at the last frame that the reader has read, and its size is what is left
up to the end of the page map.  The reader stops behind the last valid frame, and the page
map ends at a commit frame, so frames of a transaction that has not committed shift the
start (`walSlice_iff`).

`readPageMap_eq` connects the header with the runs of `Snapshotting`.
-/

namespace Litestream

open Bytes Overlay

namespace DB

/-- What `SnapshotReader` reads from the WAL, and the header that it encodes for a position
and a database size. -/
def snapshotHeader (walFile : Bytes) (pageSize : UInt32) (txID : Nat) (commit : UInt32) :
    Option (LTXFile × WALReader.PageOffsets) :=
  match WALReader.newWALReader walFile with
  | .error _ => none
  | .ok rd =>
      match rd.pageMap (walFile.length + 1) with
      | none => none
      | some (.error _, _) => none
      | some (.ok (pageMap, maxOffset, walCommit), rd) =>
          let commit := if 0 < walCommit then walCommit else commit
          let sz : Int := if 0 < maxOffset then maxOffset - rd.offset else 0
          some ({
            pageSize := pageSize
            commit := commit
            minTXID := 1
            maxTXID := txID
            walOffset := rd.offset
            walSize := sz
            walSalt1 := rd.salt1
            walSalt2 := rd.salt2
            pages := []
            badHeader := false
            badPages := false }, pageMap)

end DB

/-- The goroutine of a snapshot encodes this header for the WAL at that time. -/
theorem Snapshotting.readPageMap_eq {ps : PageSize} (lockPgno : UInt32 → UInt32)
    (s : Snapshotting ps) (txID : Nat) (commit : UInt32) :
    s.readPageMap lockPgno txID commit =
      match DB.snapshotHeader s.db.walFile (UInt32.ofNat s.db.db.pageSize) txID commit with
      | none => .failed
      | some (f, pageMap) => .encoding f pageMap
          (DB.pageNumbers (lockPgno (UInt32.ofNat s.db.db.pageSize)) f.commit) := by
  rw [Snapshotting.readPageMap, DB.snapshotHeader]
  cases WALReader.newWALReader s.db.walFile with
  | error err => rfl
  | ok rd =>
      dsimp only
      rcases rd.pageMap (s.db.walFile.length + 1) with _ | ⟨_ | ⟨pageMap, maxOffset, walCommit⟩, rd'⟩
      · rfl
      · rfl
      · rfl

/-! ## The slice of the WAL -/

/-- The frames of a WAL from which the slice is right: nothing is committed, or the last
commit frame holds a page of the database and at most one valid frame follows it.  The last
case is that of no committed page within the database, and one frame behind. -/
def SliceExact (fs : List WALFrame) : Prop :=
  committedFrames fs = [] ∨
  (∃ pre f, committedFrames fs = pre ++ [f] ∧ f.pgno ≤ lastCommitSize fs) ∧
    fs.length ≤ (committedFrames fs).length + 1 ∨
  (∀ f ∈ committedFrames fs, lastCommitSize fs < f.pgno) ∧
    fs.length = (committedFrames fs).length + 1

/-- Either no element meets a predicate, or there is a last one. -/
theorem exists_last {α : Type*} (P : α → Prop) (l : List α) :
    (∀ x ∈ l, ¬ P x) ∨ ∃ pre x post, l = pre ++ x :: post ∧ P x ∧ ∀ y ∈ post, ¬ P y := by
  induction l with
  | nil => exact Or.inl (by simp)
  | cons x l ih =>
      rcases ih with hnone | ⟨pre, y, post, rfl, hy, hpost⟩
      · by_cases hx : P x
        · exact Or.inr ⟨[], x, l, rfl, hx, hnone⟩
        · refine Or.inl fun y hy => ?_
          rcases List.mem_cons.mp hy with rfl | hy
          · exact hx
          · exact hnone y hy
      · exact Or.inr ⟨x :: pre, y, post, rfl, hy, hpost⟩

theorem WALReader.offset_past (r : WALReader) (k : Nat) (c : Checksum) : (r.past k c).offset =
    if k = 0 then 0 else walHeaderSize + (k - 1) * (walFrameHeaderSize + r.pageSize.toNat) := rfl

/-- The size of the slice is not negative up to one frame behind the end of the page map. -/
theorem walSize_nonneg_iff {frameSize n j : Nat} (hF : 0 < frameSize) (hn : 0 < n) :
    (0 : Int) ≤ ((walHeaderSize + j * frameSize : Nat) : Int) -
        (walHeaderSize + (n - 1) * frameSize : Nat) ↔ n ≤ j + 1 := by
  have hmul : (n - 1) * frameSize ≤ j * frameSize ↔ n - 1 ≤ j := Nat.mul_le_mul_right_iff hF
  omega

theorem slot_eq_iff {frameSize i j : Nat} (hF : 0 < frameSize) :
    walHeaderSize + i * frameSize = walHeaderSize + j * frameSize ↔ i = j := by
  rw [Nat.add_left_cancel_iff, Nat.mul_left_inj hF.ne']

/-- The size of the slice is not negative and the slice ends with the last commit frame
exactly when at most one valid frame follows that frame, and its page is one of the
database. -/
theorem walSlice_iff (walFile : Bytes) (pageSize : UInt32) (txID : Nat) (commit : UInt32)
    (rd : WALReader) (f : LTXFile) (pageMap : WALReader.PageOffsets)
    (hr : WALReader.newWALReader walFile = .ok rd) (hb : rd.Bounded)
    (h : DB.snapshotHeader walFile pageSize txID commit = some (f, pageMap)) :
    (0 ≤ f.walSize ∧ (committedFrames rd.validPrefix ≠ [] →
      (f.walOffset : Int) + f.walSize = rd.slot (committedFrames rd.validPrefix).length)) ↔
    SliceExact rd.validPrefix := by
  obtain ⟨hrd, hpast⟩ := WALReader.newWALReader_past hr
  have hlongest := WALReader.longest_validPrefix hb
  have hfuel : rd.validPrefix.length < walFile.length + 1 := by
    rcases hlongest.valid.length_le hb with hle | hnil
    · rw [← hrd]
      omega
    · rw [hnil]
      exact Nat.succ_pos _
  rw [DB.snapshotHeader, hr] at h
  dsimp only at h
  obtain ⟨c', ⟨m, hmap, hm⟩ | ⟨hmap, -⟩⟩ := WALReader.pageMap_past hlongest hfuel
  · rw [← hpast] at hmap
    rw [hmap] at h
    obtain ⟨rfl, rfl⟩ := Prod.mk.inj (Option.some.inj h)
    dsimp only
    rw [Nat.zero_add, WALReader.offset_past, WALReader.slot, hb.frameSize_eq]
    have hF : 0 < walFrameHeaderSize + rd.pageSize.toNat := by
      rw [walFrameHeaderSize]
      omega
    have hle := (committedFrames_isPrefix rd.validPrefix).length_le
    generalize rd.validPrefix = fs at *
    have hpos : committedFrames fs ≠ [] → fs.length ≠ 0 := fun hne => by
      have := List.length_pos_iff.mpr hne
      omega
    rcases exists_last (fun g : WALFrame => g.pgno ≤ lastCommitSize fs) (committedFrames fs) with
      hnone | ⟨pre, g, post, hg, hgle, hpost⟩
    · -- no committed page is within the database
      have hkeys : m.keys = [] := WALReader.keys_eq_nil_iff.mpr fun p => by
        rw [hm]
        split
        · rfl
        next hp =>
        rw [lastWrite_eq_none_iff, WALReader.map_fst_frameOffsets]
        intro hmem
        obtain ⟨g, hg, rfl⟩ := List.mem_map.mp hmem
        exact hnone g hg (not_lt.mp hp)
      rw [if_pos hkeys, if_neg (Nat.lt_irrefl 0)]
      by_cases hnil : committedFrames fs = []
      · simp [SliceExact, hnil]
      have hlast : ¬ ∃ pre f, committedFrames fs = pre ++ [f] ∧ f.pgno ≤ lastCommitSize fs := by
        rintro ⟨pre, f, hf, hle⟩
        exact hnone f (by simp [hf]) hle
      have hall : ∀ f ∈ committedFrames fs, lastCommitSize fs < f.pgno := fun f hf =>
        not_le.mp (hnone f hf)
      rw [if_neg (hpos hnil), SliceExact, or_iff_right hnil, or_iff_right fun h => hlast h.1,
        and_iff_right hall, and_iff_right le_rfl, Int.add_zero, Int.natCast_inj, slot_eq_iff hF]
      have := hpos hnil
      exact ⟨fun h => by have := h hnil; omega, fun h _ => by omega⟩
    · have hnil : committedFrames fs ≠ [] := by simp [hg]
      obtain ⟨hkeys, hmax⟩ := WALReader.maxPageOffset_committed hm hg hgle
        fun g hg => not_le.mp (hpost g hg)
      have hlen : (committedFrames fs).length = pre.length + (post.length + 1) := by
        rw [hg, List.length_append, List.length_cons]
      rw [if_neg hkeys, hmax, Nat.zero_add, if_pos (by rw [walHeaderSize]; omega),
        if_neg (hpos hnil), walSize_nonneg_iff hF (Nat.pos_of_ne_zero (hpos hnil)),
        add_sub_cancel, Int.natCast_inj, slot_eq_iff hF, hlen]
      constructor
      · rintro ⟨hn, hend⟩
        have hend := hend hnil
        obtain rfl : post = [] := List.eq_nil_of_length_eq_zero (by omega)
        exact Or.inr (Or.inl ⟨⟨pre, g, hg, hgle⟩, by omega⟩)
      · rintro (h | ⟨⟨pre', f, hf, hfle⟩, hn⟩ | ⟨hall, -⟩)
        · exact absurd h hnil
        · have hpostNil : post = [] := by
            rcases List.eq_nil_or_concat post with rfl | ⟨post, l, rfl⟩
            · rfl
            · rw [hg, List.concat_eq_append, ← List.cons_append, ← List.append_assoc] at hf
              obtain ⟨-, hl⟩ := List.append_inj' hf rfl
              obtain rfl : l = f := by simpa using hl
              exact absurd hfle (hpost l (by simp))
          rw [hpostNil, List.length_nil] at hlen ⊢
          exact ⟨by omega, fun _ => by omega⟩
        · exact absurd hgle (not_le.mpr (hall g (by simp [hg])))
  · rw [← hpast] at hmap
    rw [hmap] at h
    cases h

/-- One frame follows the last commit frame. -/
theorem walSlice_iff_sample : ∃ rd f pageMap,
    WALReader.newWALReader (WALReader.sampleWAL [(1, 0), (2, 2), (1, 0)]) = .ok rd ∧
    DB.snapshotHeader (WALReader.sampleWAL [(1, 0), (2, 2), (1, 0)]) 512 7 2 = some (f, pageMap) ∧
    ((0 ≤ f.walSize ∧ (committedFrames rd.validPrefix ≠ [] →
      (f.walOffset : Int) + f.walSize = rd.slot (committedFrames rd.validPrefix).length)) ↔
    SliceExact rd.validPrefix) := by
  obtain ⟨rd, hr, hsize⟩ := WALReader.exists_reader (WALReader.sampleWAL [(1, 0), (2, 2), (1, 0)])
    (fun rd => decide (rd.pageSize.toNat = 512)) (by decide +kernel)
  have hb : rd.Bounded := by
    rw [WALReader.Bounded, of_decide_eq_true hsize]
    decide
  have hheader : (DB.snapshotHeader (WALReader.sampleWAL [(1, 0), (2, 2), (1, 0)]) 512 7 2).isSome := by
    decide +kernel
  obtain ⟨⟨f, pageMap⟩, h⟩ := Option.isSome_iff_exists.mp hheader
  exact ⟨rd, f, pageMap, hr, h, walSlice_iff _ 512 7 2 rd f pageMap hr hb h⟩

/-- Two valid frames follow the last commit frame: the size is negative. -/
theorem walSize_negative : ∃ f pageMap,
    DB.snapshotHeader (WALReader.sampleWAL [(1, 1), (2, 0), (3, 0)]) 512 7 1 = some (f, pageMap) ∧
    f.walOffset = 1104 ∧ f.walSize = -536 := by
  have hheader : ((DB.snapshotHeader (WALReader.sampleWAL [(1, 1), (2, 0), (3, 0)]) 512 7 1).any
      fun result => decide (result.1.walOffset = 1104 ∧ result.1.walSize = -536)) = true := by
    decide +kernel
  obtain ⟨⟨f, pageMap⟩, h, hf⟩ := (Option.any_eq_true _ _).mp hheader
  exact ⟨f, pageMap, h, of_decide_eq_true hf⟩

end Litestream
