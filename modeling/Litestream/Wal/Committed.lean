import Litestream.Wal.Prefix

/-!
# The committed view of a WAL file

`pageMap` reads the valid frames from the slot of the reader on and returns the committed
view: the last offset of every page of the committed prefix that is within the last commit
size.  `pageMap_committed` says this of every byte string that `newWALReader` accepts.

A reader at an offset takes its checksum over from the frame before.  Behind valid frames it
is the reader that has read them (`newWALReaderWithOffset_eq`), so both read the same.  The
map of such a reader, over that of the file cut there, is the map of the whole file, except
for pages that the database dropped before the cut and has again at the end
(`pageMap_resumed`).
-/

namespace Litestream

open Bytes Overlay

namespace WALReader

variable {r : WALReader} {k : Nat} {c : Checksum} {fs : List WALFrame}

/-! ## Reading a frame -/

theorem past_frameAt (k : Nat) (c : Checksum) (i : Nat) : (r.past k c).frameAt i = r.frameAt i := rfl

/-- `readFrame` reads the slot of the reader. -/
theorem readFrame_past (k : Nat) (c : Checksum) (verify : Bool) :
    (r.past k c).readFrame r.pageSize.toNat verify =
      match r.frameAt k with
      | none => (.error .eof, r.past k c)
      | some f =>
          if f.salt ≠ (r.salt1, r.salt2) then (.error .eof, r.past k c)
          else if verify then
            match f.checksum r.bo c with
            | none => (.error .misalignedChecksum, r.past k c)
            | some c' =>
                if c' ≠ f.chksum then (.error .eof, r.past k c')
                else (.ok f.toData, r.past (k + 1) c')
          else (.ok f.toData, r.past (k + 1) f.chksum) := by
  have hslot : walHeaderSize + (r.past k c).frameN * (r.past k c).frameSize = r.slot k := rfl
  rw [readFrame, if_neg (show ¬ r.pageSize.toNat ≠ (r.past k c).pageSize.toNat from
    fun h => h rfl), hslot, frameAt]
  generalize hhdr : readAt r.r (r.slot k) walFrameHeaderSize = hdr
  generalize hdata : readAt r.r (r.slot k + walFrameHeaderSize) r.pageSize.toNat = data
  simp only [show (r.past k c).r = r.r from rfl, hhdr, hdata]
  by_cases hlen : hdr.length = walFrameHeaderSize
  · by_cases hlen' : data.length = r.pageSize.toNat
    · simp only [hlen, hlen', ne_eq, not_true_eq_false, if_false, and_self, if_true]
      by_cases hsalt : (be32 (hdr.drop 8), be32 (hdr.drop 12)) = (r.salt1, r.salt2)
      · obtain ⟨h1, h2⟩ := Prod.mk.inj hsalt
        rw [if_neg (by simp [past, h1, h2]), if_neg (not_not.mpr hsalt)]
        cases verify with
        | false => rfl
        | true =>
            simp only [if_true, WALFrame.checksum, show (r.past k c).bo = r.bo from rfl,
              show ((r.past k c).chksum1, (r.past k c).chksum2) = c from rfl]
            cases (walChecksum r.bo c (hdr.take 8)).bind fun c => walChecksum r.bo c data with
            | none => rfl
            | some c' => rfl
      · have hne : (r.past k c).salt1 ≠ be32 (hdr.drop 8) ∨
            (r.past k c).salt2 ≠ be32 (hdr.drop 12) := by
          by_contra h
          rw [not_or, not_not, not_not] at h
          exact hsalt (Prod.ext h.1.symm h.2.symm)
        rw [if_pos hne, if_pos hsalt]
    · simp [hlen, hlen']
  · simp [hlen]

theorem exists_checksum (haligned : r.pageSize.toNat % 8 = 0) {f : WALFrame}
    (hf : r.frameAt k = some f) (c : Checksum) : ∃ c', f.checksum r.bo c = some c' := by
  obtain ⟨hhead, hdata⟩ := frameAt_lengths hf
  obtain ⟨c₁, h₁⟩ := exists_walChecksum r.bo c f.head (by rw [hhead])
  obtain ⟨c₂, h₂⟩ := exists_walChecksum r.bo c₁ f.data (by rw [hdata, haligned])
  exact ⟨c₂, by rw [WALFrame.checksum, h₁, Option.bind_some, h₂]⟩

theorem readFrame_cons {f : WALFrame} (h : r.ValidFrom k c (f :: fs)) :
    (r.past k c).readFrame r.pageSize.toNat true = (.ok f.toData, r.past (k + 1) f.chksum) := by
  obtain ⟨hf, hsalt, hsum, -⟩ := h
  rw [readFrame_past, hf]
  simp [hsalt, hsum]

/-- Behind the longest valid list a read ends, with an error only if the page size is not a
multiple of eight. -/
theorem readFrame_end (h : r.Longest k c []) :
    ∃ c', (r.past k c).readFrame r.pageSize.toNat true = (.error .eof, r.past k c') ∨
      (r.past k c).readFrame r.pageSize.toNat true = (.error .misalignedChecksum, r.past k c') ∧
        r.pageSize.toNat % 8 ≠ 0 := by
  rw [readFrame_past]
  cases hk : r.frameAt k with
  | none => exact ⟨c, Or.inl rfl⟩
  | some f =>
      dsimp only
      by_cases hsalt : f.salt = (r.salt1, r.salt2)
      · rw [if_neg (not_not.mpr hsalt), if_pos rfl]
        cases hsum : f.checksum r.bo c with
        | none =>
            refine ⟨c, Or.inr ⟨rfl, fun haligned => ?_⟩⟩
            obtain ⟨c', hc'⟩ := exists_checksum haligned hk c
            rw [hsum] at hc'
            cases hc'
        | some c' =>
            have hne : c' ≠ f.chksum := fun heq =>
              (longest_iff.mp h).2 f hk hsalt (hsum.trans (congrArg some heq))
            exact ⟨c', Or.inl (by simp only [if_pos hne])⟩
      · exact ⟨c, Or.inl (if_pos hsalt)⟩

/-! ## The page map -/

/-- The offsets of frames by page number, the first of them in slot `k`. -/
def frameOffsets (r : WALReader) : Nat → List WALFrame → List (UInt32 × Nat)
  | _, [] => []
  | k, f :: fs =>
      (f.pgno, walHeaderSize + k * (walFrameHeaderSize + r.pageSize.toNat)) ::
        frameOffsets r (k + 1) fs

theorem frameOffsets_append (k : Nat) (fs gs : List WALFrame) :
    r.frameOffsets k (fs ++ gs) = r.frameOffsets k fs ++ r.frameOffsets (k + fs.length) gs := by
  induction fs generalizing k with
  | nil => rfl
  | cons f fs ih =>
      rw [List.cons_append, frameOffsets, ih, frameOffsets, List.cons_append, List.length_cons,
        Nat.add_assoc, Nat.add_comm 1]

/-- The reader of the first `n` bytes of the file. -/
def cut (r : WALReader) (n : Nat) : WALReader := { r with r := r.r.take n }

theorem frameOffsets_cut (n k : Nat) (fs : List WALFrame) :
    (r.cut n).frameOffsets k fs = r.frameOffsets k fs := by
  induction fs generalizing k with
  | nil => rfl
  | cons f fs ih => exact congrArg (List.cons _) (ih (k + 1))

theorem map_fst_frameOffsets (k : Nat) (fs : List WALFrame) :
    (r.frameOffsets k fs).map Prod.fst = fs.map (·.pgno) := by
  induction fs generalizing k with
  | nil => rfl
  | cons f fs ih => rw [frameOffsets, List.map_cons, List.map_cons, ih]

/-- What the loop adds to its map, and where it stops. -/
theorem pageMapLoop_past (h : r.Longest k c fs) {fuel : Nat} (hfuel : fs.length < fuel)
    (m txMap : PageOffsets) (commit : UInt32) :
    ∃ c', (∃ m', pageMapLoop fuel (r.past k c) m txMap commit =
          some (.ok (m', if committedFrames fs = [] then commit else lastCommitSize fs),
            r.past (k + fs.length) c') ∧
        ∀ p, m'.lookup p = if committedFrames fs = [] then m.lookup p
          else (lastWrite (r.frameOffsets k (committedFrames fs)) p).or
            ((txMap.lookup p).or (m.lookup p))) ∨
      pageMapLoop fuel (r.past k c) m txMap commit =
          some (.error .misalignedChecksum, r.past (k + fs.length) c') ∧
        r.pageSize.toNat % 8 ≠ 0 := by
  induction fs generalizing k c fuel m txMap commit with
  | nil =>
      obtain ⟨fuel, rfl⟩ : ∃ n, fuel = n + 1 := ⟨fuel - 1, by simp at hfuel; omega⟩
      obtain ⟨c', hend | ⟨hend, halign⟩⟩ := readFrame_end h
      · refine ⟨c', Or.inl ⟨m, ?_, fun p => by simp [committedFrames]⟩⟩
        rw [pageMapLoop, show (r.past k c).pageSize = r.pageSize from rfl, hend]
        rfl
      · refine ⟨c', Or.inr ⟨?_, halign⟩⟩
        rw [pageMapLoop, show (r.past k c).pageSize = r.pageSize from rfl, hend]
        rfl
  | cons f fs ih =>
      obtain ⟨fuel, rfl⟩ : ∃ n, fuel = n + 1 := ⟨fuel - 1, by omega⟩
      have hfs : r.Longest (k + 1) f.chksum fs := h.drop 1 (by simp)
      have hfuel' : fs.length < fuel := by
        rw [List.length_cons] at hfuel
        omega
      have hoffset : (r.past (k + 1) f.chksum).offset =
          walHeaderSize + k * (walFrameHeaderSize + r.pageSize.toNat) := by
        simp [offset, past]
      have hlookup : ∀ p, (txMap.insert f.pgno
          (walHeaderSize + k * (walFrameHeaderSize + r.pageSize.toNat))).lookup p =
            (if f.pgno = p then some (walHeaderSize + k * (walFrameHeaderSize + r.pageSize.toNat))
              else none).or (txMap.lookup p) := lookup_insert txMap f.pgno _
      have hend : k + (f :: fs).length = k + 1 + fs.length := by
        rw [List.length_cons]
        omega
      rw [pageMapLoop, show (r.past k c).pageSize = r.pageSize from rfl, readFrame_cons h.valid,
        hend]
      dsimp only
      rw [hoffset, show f.toData.pgno = f.pgno from rfl, show f.toData.commit = f.commit from rfl]
      by_cases hcommit : f.commit = 0
      · rw [if_neg (not_not.mpr hcommit)]
        obtain ⟨c', ⟨m', hloop, hm'⟩ | herr⟩ := ih hfs hfuel' m (txMap.insert f.pgno
          (walHeaderSize + k * (walFrameHeaderSize + r.pageSize.toNat))) commit
        · refine ⟨c', Or.inl ⟨m', ?_, fun p => ?_⟩⟩
          · rw [hloop, committedFrames, lastCommitSize_cons]
            by_cases hnil : committedFrames fs = [] <;> simp [hcommit, hnil]
          · rw [hm']
            by_cases hnil : committedFrames fs = []
            · simp [committedFrames, hcommit, hnil]
            · rw [if_neg hnil, committedFrames_cons fun h => hnil h.2, if_neg (List.cons_ne_nil _ _),
                frameOffsets, lastWrite_cons, hlookup]
              simp only [Option.or_assoc]
        · exact ⟨c', Or.inr herr⟩
      · rw [if_pos hcommit]
        obtain ⟨c', ⟨m', hloop, hm'⟩ | herr⟩ := ih hfs hfuel' (txMap.insert f.pgno
          (walHeaderSize + k * (walFrameHeaderSize + r.pageSize.toNat)) ∪ m) (txMap.insert f.pgno
            (walHeaderSize + k * (walFrameHeaderSize + r.pageSize.toNat))) f.commit
        · refine ⟨c', Or.inl ⟨m', ?_, fun p => ?_⟩⟩
          · rw [hloop, committedFrames, lastCommitSize_cons]
            simp [hcommit]
          · -- what the transaction map adds a second time is there already
            have hself : ∀ x y : Option Nat, x.or (x.or y) = x.or y := by
              intro x y
              cases x with
              | none => rfl
              | some a => rfl
            rw [hm', committedFrames_cons fun h => hcommit h.1, if_neg (List.cons_ne_nil _ _),
              frameOffsets, lastWrite_cons, alist_lookup_union, hself, hlookup, Option.or_assoc,
              Option.or_assoc]
            by_cases hnil : committedFrames fs = []
            · rw [if_pos hnil, hnil]
              rfl
            · rw [if_neg hnil]
        · exact ⟨c', Or.inr herr⟩

/-- The frames of a list that are within a database size. -/
theorem lookup_pageMap {m : PageOffsets} {size : UInt32}
    (hm : ∀ p, m.lookup p = lastWrite (r.frameOffsets k (committedFrames fs)) p) (p : UInt32) :
    (dropPastCommit m size).lookup p =
      if size < p then none else lastWrite (r.frameOffsets k (committedFrames fs)) p := by
  rw [lookup_dropPastCommit, hm]

/-- The page map from a slot on, unless the page size is not a multiple of eight. -/
theorem pageMap_past (h : r.Longest k c fs) {fuel : Nat} (hfuel : fs.length < fuel) :
    ∃ c', (∃ m, pageMap fuel (r.past k c) =
          some (.ok (m, if m.keys = [] then 0
              else maxPageOffset m + (walFrameHeaderSize + r.pageSize.toNat),
            if m.keys = [] then 0 else lastCommitSize fs), r.past (k + fs.length) c') ∧
        ∀ p, m.lookup p = if lastCommitSize fs < p then none
          else lastWrite (r.frameOffsets k (committedFrames fs)) p) ∨
      pageMap fuel (r.past k c) =
          some (.error .misalignedChecksum, r.past (k + fs.length) c') ∧
        r.pageSize.toNat % 8 ≠ 0 := by
  obtain ⟨c', ⟨m, hloop, hm⟩ | ⟨hloop, halign⟩⟩ := pageMapLoop_past h hfuel ∅ ∅ 0
  · have hsize : (if committedFrames fs = [] then 0 else lastCommitSize fs) = lastCommitSize fs := by
      split
      · next hnil => rw [lastCommitSize, hnil]; rfl
      · rfl
    have hlookup : ∀ p, m.lookup p = lastWrite (r.frameOffsets k (committedFrames fs)) p := by
      intro p
      rw [hm]
      split
      · next hnil => rw [hnil]; rfl
      · simp [AList.lookup_empty]
    refine ⟨c', Or.inl ⟨dropPastCommit m (lastCommitSize fs), ?_, lookup_pageMap hlookup⟩⟩
    rw [pageMap, hloop, hsize]
    dsimp only
    split
    · rfl
    · rfl
  · exact ⟨c', Or.inr ⟨by rw [pageMap, hloop], halign⟩⟩

/-! ## The last commit frame -/

/-- The offset of a frame that is the last of its page. -/
theorem lastWrite_frameOffsets {pre post : List WALFrame} {f : WALFrame}
    (hpost : ∀ g ∈ post, g.pgno ≠ f.pgno) :
    lastWrite (r.frameOffsets k (pre ++ f :: post)) f.pgno =
      some (walHeaderSize + (k + pre.length) * (walFrameHeaderSize + r.pageSize.toNat)) := by
  have hnone : lastWrite (r.frameOffsets (k + pre.length + 1) post) f.pgno = none := by
    rw [lastWrite_eq_none_iff, map_fst_frameOffsets]
    simpa using hpost
  rw [frameOffsets_append, lastWrite_append, frameOffsets, lastWrite_cons, hnone, if_pos rfl,
    Option.none_or, Option.some_or]

/-- A recorded offset is that of a frame of the page. -/
theorem exists_of_lastWrite {p : UInt32} {o : Nat} (h : lastWrite (r.frameOffsets k fs) p = some o) :
    ∃ i f, fs[i]? = some f ∧ f.pgno = p ∧
      o = walHeaderSize + (k + i) * (walFrameHeaderSize + r.pageSize.toNat) := by
  induction fs generalizing k with
  | nil => cases h
  | cons f fs ih =>
      rw [frameOffsets, lastWrite_cons, Option.or_eq_some_iff] at h
      rcases h with h | ⟨-, h⟩
      · obtain ⟨i, g, hg, hp, ho⟩ := ih h
        exact ⟨i + 1, g, hg, hp, by rw [ho, Nat.add_assoc, Nat.add_comm 1 i]⟩
      · split at h
        · next hp =>
            cases h
            exact ⟨0, f, rfl, hp, rfl⟩
        · cases h

theorem committedFrames_getLast (fs : List WALFrame) (h : committedFrames fs ≠ []) :
    ∃ pre f, committedFrames fs = pre ++ [f] ∧ f.commit ≠ 0 ∧ lastCommitSize fs = f.commit := by
  rcases List.eq_nil_or_concat (committedFrames fs) with hnil | ⟨pre, f, hf⟩
  · exact absurd hnil h
  · rw [List.concat_eq_append] at hf
    refine ⟨pre, f, hf, (committedFrames_spec fs).1 f (by simp [hf]), ?_⟩
    rw [lastCommitSize, hf]
    simp

/-- The largest offset is that of the last committed frame within the database size. -/
theorem maxPageOffset_committed {m : PageOffsets}
    (hm : ∀ p, m.lookup p = if lastCommitSize fs < p then none
      else lastWrite (r.frameOffsets k (committedFrames fs)) p)
    {pre post : List WALFrame} {f : WALFrame} (hf : committedFrames fs = pre ++ f :: post)
    (hle : f.pgno ≤ lastCommitSize fs) (hpost : ∀ g ∈ post, lastCommitSize fs < g.pgno) :
    m.keys ≠ [] ∧ maxPageOffset m + (walFrameHeaderSize + r.pageSize.toNat) =
      walHeaderSize + (k + (pre.length + 1)) * (walFrameHeaderSize + r.pageSize.toNat) := by
  have hne : ∀ g ∈ post, g.pgno ≠ f.pgno := fun g hg heq =>
    absurd (hpost g hg) (not_lt.mpr (heq ▸ hle))
  have hlast : m.lookup f.pgno =
      some (walHeaderSize + (k + pre.length) * (walFrameHeaderSize + r.pageSize.toNat)) := by
    rw [hm, if_neg (not_lt.mpr hle), hf, lastWrite_frameOffsets hne]
  have hmax : ∀ p o, m.lookup p = some o →
      o ≤ walHeaderSize + (k + pre.length) * (walFrameHeaderSize + r.pageSize.toNat) := by
    intro p o ho
    rw [hm] at ho
    split at ho
    · cases ho
    next hp =>
    obtain ⟨i, g, hg, rfl, rfl⟩ := exists_of_lastWrite ho
    have hi : i ≤ pre.length := by
      by_contra hlt
      rw [hf, List.getElem?_append_right (by omega),
        show i - pre.length = i - pre.length - 1 + 1 by omega, List.getElem?_cons_succ] at hg
      exact hp (hpost g (List.mem_of_getElem? hg))
    have := Nat.mul_le_mul_right (walFrameHeaderSize + r.pageSize.toNat)
      (show k + i ≤ k + pre.length by omega)
    omega
  refine ⟨fun hnil => ?_, ?_⟩
  · rw [keys_eq_nil_iff.mp hnil] at hlast
    cases hlast
  · rw [maxPageOffset_eq hlast hmax, ← Nat.add_assoc k, Nat.succ_mul, Nat.add_assoc walHeaderSize]

/-- The page map from a slot on, where commit frames are within their commit size. -/
theorem pageMap_slot (hps : r.PowerOfTwo) (h : r.Longest k c fs)
    (hcommit : ∀ f ∈ fs, f.commit ≠ 0 → f.pgno ≤ f.commit) {fuel : Nat}
    (hfuel : fs.length < fuel) :
    ∃ m c', pageMap fuel (r.past k c) =
        some (.ok (m, if committedFrames fs = [] then 0
            else r.slot (k + (committedFrames fs).length), lastCommitSize fs),
          r.past (k + fs.length) c') ∧
      ∀ p, m.lookup p = if lastCommitSize fs < p then none
        else lastWrite (r.frameOffsets k (committedFrames fs)) p := by
  obtain ⟨c', ⟨m, hmap, hm⟩ | ⟨-, halign⟩⟩ := pageMap_past h hfuel
  · refine ⟨m, c', ?_, hm⟩
    rw [hmap]
    by_cases hnil : committedFrames fs = []
    · have hkeys : m.keys = [] := keys_eq_nil_iff.mpr fun p => by
        rw [hm, hnil]
        exact ite_self _
      rw [if_pos hkeys, if_pos hkeys, if_pos hnil, lastCommitSize, hnil]
      rfl
    · obtain ⟨pre, f, hf, hne, hsize⟩ := committedFrames_getLast _ hnil
      have hmem : f ∈ fs := (committedFrames_isPrefix _).subset (by rw [hf]; simp)
      obtain ⟨hkeys, hmax⟩ := maxPageOffset_committed hm hf (hsize ▸ hcommit f hmem hne) (by simp)
      rw [if_neg hkeys, if_neg hkeys, if_neg hnil, hmax, slot, hps.bounded.frameSize_eq, hf,
        List.length_append, List.length_singleton]
  · exact absurd hps.aligned halign

/-- The reader of a file stands before its first frame. -/
theorem newWALReader_past {rd : Bytes} (h : newWALReader rd = .ok r) :
    r.r = rd ∧ r = r.past 0 (r.chksum1, r.chksum2) := by
  rw [newWALReader, readHeader] at h
  dsimp only at h
  split at h
  · cases h
  split at h
  · cases h
  split at h
  · cases h
  split at h
  · cases h
  cases h
  exact ⟨rfl, rfl⟩

/-! ### Files of a few frames -/

/-- The bytes of frames of 512 bytes with given page numbers and commit sizes. -/
def sampleFrames : Checksum → List (UInt32 × UInt32) → Bytes
  | _, [] => []
  | c, w :: ws =>
      let head := putBe32 w.1 ++ putBe32 w.2
      let page := List.replicate 512 w.1.toUInt8
      let c := ((walChecksum .bigEndian c head).bind fun c =>
        walChecksum .bigEndian c page).getD (0, 0)
      head ++ (putBe32 7 ++ putBe32 9 ++ putBe32 c.1 ++ putBe32 c.2) ++ page ++ sampleFrames c ws

/-- A WAL file with the frames. -/
def sampleWAL (ws : List (UInt32 × UInt32)) : Bytes :=
  let header : WalHeader := ⟨.bigEndian, 1, (7, 9)⟩
  header.encode PageSize.min ++ sampleFrames (header.checksum PageSize.min) ws

theorem exists_reader (rd : Bytes) (P : WALReader → Bool)
    (h : (newWALReader rd).toOption.any P = true) : ∃ r, newWALReader rd = .ok r ∧ P r = true := by
  cases hr : newWALReader rd with
  | error err =>
      rw [hr] at h
      cases h
  | ok r =>
      rw [hr] at h
      exact ⟨r, rfl, h⟩

/-- `PageMap` returns the committed view of every file that `NewWALReader` accepts: the last
offset of each page of the committed prefix within the last commit size, the end of the last
commit frame, and its size. -/
theorem pageMap_committed (rd : Bytes) (r : WALReader) (fuel : Nat) (hr : newWALReader rd = .ok r)
    (hps : r.PowerOfTwo)
    (hcommit : ∀ f ∈ r.validPrefix, f.commit ≠ 0 → f.pgno ≤ f.commit)
    (hfuel : r.validPrefix.length < fuel) :
    ∃ m r', pageMap fuel r =
        some (.ok (m, if committedFrames r.validPrefix = [] then 0
            else r.slot (committedFrames r.validPrefix).length,
          lastCommitSize r.validPrefix), r') ∧
      ∀ p, m.lookup p = if lastCommitSize r.validPrefix < p then none
        else lastWrite (r.frameOffsets 0 (committedFrames r.validPrefix)) p := by
  obtain ⟨m, c', hmap, hm⟩ := pageMap_slot hps (longest_validPrefix hps.bounded) hcommit hfuel
  rw [← (newWALReader_past hr).2, Nat.zero_add] at hmap
  exact ⟨m, _, hmap, hm⟩

/-- Page 1 is written again by a transaction that does not commit. -/
theorem pageMap_committed_sample : ∃ r m r',
    newWALReader (sampleWAL [(1, 0), (2, 2), (1, 0)]) = .ok r ∧
    pageMap 5 r = some (.ok (m, if committedFrames r.validPrefix = [] then 0
        else r.slot (committedFrames r.validPrefix).length, lastCommitSize r.validPrefix), r') := by
  obtain ⟨r, hr, hcheck⟩ := exists_reader (sampleWAL [(1, 0), (2, 2), (1, 0)])
    (fun r => decide (r.pageSize.toNat = 512 ∧
      (∀ f ∈ r.validPrefix, f.commit ≠ 0 → f.pgno ≤ f.commit) ∧ r.validPrefix.length < 5))
    (by decide +kernel)
  obtain ⟨hsize, hcommit, hfuel⟩ := of_decide_eq_true hcheck
  obtain ⟨m, r', hmap, -⟩ := pageMap_committed _ r 5 hr ⟨9, by decide, by decide, hsize⟩ hcommit hfuel
  exact ⟨r, m, r', hr, hmap⟩

/-! ## Readers at an offset -/

/-- The map that `PageMap` returns. -/
def mapOf (fuel : Nat) (r : WALReader) : Option PageOffsets :=
  match pageMap fuel r with
  | some (.ok (m, _, _), _) => some m
  | _ => none

theorem afterFrames_past (h : r.ValidFrom k c fs) :
    afterFrames fs.length (r.past k c) = r.past (k + fs.length) (checksumAfter c fs) := by
  induction fs generalizing k c with
  | nil => rfl
  | cons f fs ih =>
      rw [List.length_cons, afterFrames, show (r.past k c).pageSize = r.pageSize from rfl,
        readFrame_cons h, ih h.2.2.2, checksumAfter, Nat.add_assoc, Nat.add_comm 1]

/-- The running checksum after a frame is the one it records. -/
theorem checksumAfter_take {f : WALFrame} {i : Nat} (hf : fs[i]? = some f) :
    checksumAfter c (fs.take (i + 1)) = f.chksum := by
  induction fs generalizing c i with
  | nil => simp at hf
  | cons g fs ih =>
      cases i with
      | zero =>
          obtain rfl : g = f := by simpa using hf
          rfl
      | succ i => exact ih (by simpa using hf)

theorem slot_succ (hb : r.Bounded) (k : Nat) :
    r.slot (k + 1) = r.slot k + walFrameHeaderSize + r.pageSize.toNat := by
  rw [slot, Nat.succ_mul, hb.frameSize_eq, slot, hb.frameSize_eq]
  omega

theorem slot_mono {i j : Nat} (h : i ≤ j) : r.slot i ≤ r.slot j :=
  Nat.add_le_add_left (Nat.mul_le_mul_right _ h) _

/-- A reader at the end of a frame with the salt of the file takes over its checksum. -/
theorem newWALReaderWithOffset_slot {rd : Bytes} (hr : newWALReader rd = .ok r) (hb : r.Bounded)
    {f : WALFrame} (hf : r.frameAt k = some f) (hsalt : f.salt = (r.salt1, r.salt2)) :
    newWALReaderWithOffset rd (r.slot (k + 1)) r.salt1 r.salt2 = .ok (r.past (k + 1) f.chksum) := by
  have hpos : 0 < r.frameSize := by
    rw [hb.frameSize_eq, walFrameHeaderSize]
    omega
  have hoff : (r.slot (k + 1) : Int) - walHeaderSize = (k + 1 : Nat) * r.frameSize := by
    rw [slot]
    push_cast
    omega
  have hlarge : ¬ (r.slot (k + 1) : Int) ≤ walHeaderSize := by
    rw [slot, Nat.succ_mul]
    omega
  have hread : ({ r with salt1 := r.salt1, salt2 := r.salt2, frameN := k } : WALReader).readFrame
      r.pageSize.toNat false = (.ok f.toData, r.past (k + 1) f.chksum) := by
    have h := readFrame_past (r := r) k (r.chksum1, r.chksum2) false
    rw [hf] at h
    simpa [hsalt, past] using h
  rw [newWALReaderWithOffset, if_neg hlarge, show readHeader rd = .ok r from hr]
  dsimp only
  rw [show ({ r with salt1 := r.salt1, salt2 := r.salt2 } : WALReader).frameSize = r.frameSize
    from rfl, if_neg hpos.ne', hoff, Int.mul_emod_left, if_neg (not_not.mpr rfl),
    Int.mul_ediv_cancel _ (by omega), Int.toNat_natCast, Nat.add_sub_cancel, hread]

/-- The reader of another file. -/
def onFile (r : WALReader) (rd : Bytes) : WALReader := { r with r := rd }

/-- A file with the same header has the same reader. -/
theorem newWALReader_onFile {rd rd' : Bytes} (hr : newWALReader rd = .ok r)
    (hsame : readAt rd' 0 walHeaderSize = readAt rd 0 walHeaderSize) :
    newWALReader rd' = .ok (r.onFile rd') := by
  rw [newWALReader, readHeader] at hr ⊢
  rw [hsame]
  dsimp only at hr ⊢
  split at hr
  · cases hr
  next hlen =>
  rw [if_neg hlen]
  cases hbo : byteOrderOfMagic (be32 (readAt rd 0 walHeaderSize)) with
  | none =>
      rw [hbo] at hr
      cases hr
  | some bo =>
      rw [hbo] at hr
      dsimp only at hr ⊢
      split at hr
      · cases hr
      next hsum =>
      split at hr
      · cases hr
      next hversion =>
      rw [if_neg hsum, if_neg hversion]
      cases hr
      rfl

theorem newWALReader_take {rd : Bytes} {n : Nat} (hr : newWALReader rd = .ok r)
    (hn : walHeaderSize ≤ n) : newWALReader (rd.take n) = .ok (r.cut n) := by
  rw [cut, (newWALReader_past hr).1]
  exact newWALReader_onFile hr (readAt_take (by omega))

/-- The file cut behind a slot has the frames up to there. -/
theorem frameAt_cut (hb : r.Bounded) {n i : Nat} :
    (r.cut (r.slot n)).frameAt i = if i < n then r.frameAt i else none := by
  have hslot : (r.cut (r.slot n)).slot i = r.slot i := rfl
  split
  · next hi =>
      have hend : r.slot i + walFrameHeaderSize + r.pageSize.toNat ≤ r.slot n := by
        rw [← slot_succ hb]
        exact slot_mono hi
      have hhdr : readAt (r.cut (r.slot n)).r (r.slot i) walFrameHeaderSize =
          readAt r.r (r.slot i) walFrameHeaderSize := readAt_take (by omega)
      have hdata : readAt (r.cut (r.slot n)).r (r.slot i + walFrameHeaderSize) r.pageSize.toNat =
          readAt r.r (r.slot i + walFrameHeaderSize) r.pageSize.toNat := readAt_take (by omega)
      rw [frameAt, frameAt]
      simp only [hslot, show (r.cut (r.slot n)).pageSize = r.pageSize from rfl, hhdr, hdata]
  · next hi =>
      rw [Option.eq_none_iff_forall_ne_some]
      intro f hf
      have hlt := slot_lt_of_frameAt hf
      have hle : r.slot n ≤ r.slot i := slot_mono (Nat.not_lt.mp hi)
      have hlen : (r.cut (r.slot n)).r.length ≤ r.slot n := List.length_take_le _ _
      rw [hslot, walFrameHeaderSize] at hlt
      omega

theorem ValidFrom.cut (hb : r.Bounded) {n : Nat} (h : r.ValidFrom k c fs)
    (hn : k + fs.length ≤ n) : (r.cut (r.slot n)).ValidFrom k c fs := by
  induction fs generalizing k c with
  | nil => trivial
  | cons f fs ih =>
      obtain ⟨hf, hsalt, hsum, hfs⟩ := h
      rw [List.length_cons] at hn
      exact ⟨by rw [frameAt_cut hb, if_pos (by omega), hf], hsalt, hsum, ih hfs (by omega)⟩

/-- The valid prefix of the cut file. -/
theorem Longest.cut (hb : r.Bounded) (h : r.Longest 0 c fs) {n : Nat} (hn : n ≤ fs.length) :
    (r.cut (r.slot n)).Longest 0 c (fs.take n) := by
  have hlen : (fs.take n).length = n := by rw [List.length_take, Nat.min_eq_left hn]
  have hvalid := h.valid
  rw [← List.take_append_drop n fs, validFrom_append] at hvalid
  refine longest_iff.mpr ⟨hvalid.1.cut hb (by omega), fun f hf => ?_⟩
  rw [frameAt_cut hb, if_neg (by omega)] at hf
  cases hf

theorem mapOf_past (h : r.Longest k c fs) (haligned : r.pageSize.toNat % 8 = 0) {fuel : Nat}
    (hfuel : fs.length < fuel) : ∃ m, mapOf fuel (r.past k c) = some m ∧
      ∀ p, m.lookup p = if lastCommitSize fs < p then none
        else lastWrite (r.frameOffsets k (committedFrames fs)) p := by
  obtain ⟨c', ⟨m, hmap, hm⟩ | ⟨-, halign⟩⟩ := pageMap_past h hfuel
  · exact ⟨m, by rw [mapOf, hmap], hm⟩
  · exact absurd haligned halign

/-- The database drops the page at the cut and has it again at the end, without a frame of
the page in between. -/
def Regrown (size final : UInt32) (pre post : List WALFrame) (p : UInt32) : Prop :=
  size < p ∧ p ≤ final ∧ p ∈ pre.map (·.pgno) ∧ p ∉ post.map (·.pgno)

/-- Below the last commit size the map of a resumed reader has every page written behind it. -/
theorem lookup_of_committed {m : PageOffsets} {final p : UInt32}
    (hm : ∀ p, m.lookup p = if lastCommitSize fs < p then none
      else lastWrite (r.frameOffsets k (committedFrames fs)) p)
    (hfinal : committedFrames fs ≠ [] → lastCommitSize fs = final) (hp : ¬ final < p) :
    m.lookup p = lastWrite (r.frameOffsets k (committedFrames fs)) p := by
  rw [hm]
  by_cases hnil : committedFrames fs = []
  · rw [hnil]
    exact ite_self _
  · rw [hfinal hnil, if_neg hp]

/-- A reader at the end of a valid frame is the reader that has read the frames up to there.
Behind a commit frame, its map over that of the file cut there, without the pages past the
last commit size, is the map of the whole file at every page that does not grow back. -/
theorem pageMap_resumed (rd : Bytes) (r : WALReader) (k fuel : Nat) (f : WALFrame)
    (hr : newWALReader rd = .ok r) (hps : r.PowerOfTwo) (hf : r.validPrefix[k]? = some f)
    (hfuel : r.validPrefix.length < fuel) :
    newWALReaderWithOffset rd (r.slot (k + 1)) r.salt1 r.salt2 = .ok (afterFrames (k + 1) r) ∧
    (f.commit ≠ 0 → ∃ cut cutMap resumedMap wholeMap,
      newWALReader (rd.take (r.slot (k + 1))) = .ok cut ∧
      mapOf fuel cut = some cutMap ∧
      mapOf fuel (afterFrames (k + 1) r) = some resumedMap ∧
      mapOf fuel r = some wholeMap ∧
      ∀ p, (if lastCommitSize r.validPrefix < p then none
          else (resumedMap.lookup p).or (cutMap.lookup p)) = wholeMap.lookup p ↔
        ¬ Regrown f.commit (lastCommitSize r.validPrefix) (r.validPrefix.take (k + 1))
          (committedFrames (r.validPrefix.drop (k + 1))) p) := by
  obtain ⟨hrd, hpast⟩ := newWALReader_past hr
  have hb := hps.bounded
  have hlongest := longest_validPrefix hb
  generalize hfs : r.validPrefix = fs at *
  generalize (r.chksum1, r.chksum2) = c at *
  have hk : k < fs.length := (List.getElem?_eq_some_iff.mp hf).1
  have hlen : (fs.take (k + 1)).length = k + 1 := by rw [List.length_take, Nat.min_eq_left hk]
  have hvalid := hlongest.valid
  rw [← List.take_append_drop (k + 1) fs, validFrom_append] at hvalid
  have hafter : afterFrames (k + 1) r = r.past (k + 1) f.chksum := by
    have h := afterFrames_past hvalid.1
    rwa [hlen, Nat.zero_add, checksumAfter_take hf, ← hpast] at h
  have hframe : r.frameAt k = some f := by
    have h := hlongest.valid.frameAt_eq hf
    rwa [Nat.zero_add] at h
  have hdrop := hlongest.drop (k + 1) hk
  rw [Nat.zero_add, checksumAfter_take hf] at hdrop
  have hsalt : f.salt = (r.salt1, r.salt2) := by
    have h := (hlongest.drop k (Nat.le_of_lt hk)).valid
    rw [List.drop_eq_getElem_cons hk, (List.getElem?_eq_some_iff.mp hf).2] at h
    exact h.2.1
  refine ⟨hafter ▸ newWALReaderWithOffset_slot hr hb hframe hsalt, fun hcommit => ?_⟩
  have hn : walHeaderSize ≤ r.slot (k + 1) := Nat.le_add_right _ _
  have hcut := newWALReader_take hr hn
  have hcutLongest := hlongest.cut hb hk
  have hlast : (fs.take (k + 1)).getLast? = some f := by
    rw [List.getLast?_eq_getElem?, hlen, Nat.add_sub_cancel, List.getElem?_take_of_lt (by omega), hf]
  have hsplit : committedFrames fs = fs.take (k + 1) ++ committedFrames (fs.drop (k + 1)) := by
    conv_lhs => rw [← List.take_append_drop (k + 1) fs]
    exact committedFrames_append hlast hcommit
  have hpre : committedFrames (fs.take (k + 1)) = fs.take (k + 1) := by
    have h : committedFrames (fs.take (k + 1) ++ []) = fs.take (k + 1) ++ committedFrames [] :=
      committedFrames_append hlast hcommit
    simpa [committedFrames] using h
  have hsize : lastCommitSize (fs.take (k + 1)) = f.commit := by
    rw [lastCommitSize, hpre, hlast]
    rfl
  have hfinal : committedFrames (fs.drop (k + 1)) ≠ [] →
      lastCommitSize (fs.drop (k + 1)) = lastCommitSize fs := by
    intro hne
    rw [lastCommitSize, lastCommitSize, hsplit, List.getLast?_append,
      List.getLast?_eq_some_getLast hne, Option.some_or]
  have halign : r.pageSize.toNat % 8 = 0 := hps.aligned
  obtain ⟨cutMap, hcutMap, hcutLookup⟩ := mapOf_past hcutLongest halign
    (show (fs.take (k + 1)).length < fuel by omega)
  obtain ⟨resumedMap, hresumedMap, hresumedLookup⟩ := mapOf_past hdrop halign
    (show (fs.drop (k + 1)).length < fuel by rw [List.length_drop]; omega)
  obtain ⟨wholeMap, hwholeMap, hwholeLookup⟩ := mapOf_past hlongest halign hfuel
  refine ⟨r.cut (r.slot (k + 1)), cutMap, resumedMap, wholeMap, hcut, ?_, ?_, ?_, fun p => ?_⟩
  · rw [← hcutMap]
    exact congrArg (mapOf fuel) (congrArg (fun r' => r'.cut (r.slot (k + 1))) hpast)
  · rw [hafter, hresumedMap]
  · rw [← hwholeMap]
    exact congrArg (mapOf fuel) hpast
  by_cases hp : lastCommitSize fs < p
  · rw [if_pos hp, hwholeLookup, if_pos hp]
    exact ⟨fun _ h => absurd hp (not_lt.mpr h.2.1), fun _ => rfl⟩
  · rw [if_neg hp, hwholeLookup, if_neg hp, lookup_of_committed hresumedLookup hfinal hp, hcutLookup,
      hsize, hpre, hsplit, frameOffsets_append, lastWrite_append, hlen, Nat.zero_add]
    have hcutOffsets : (r.cut (r.slot (k + 1))).frameOffsets 0 (fs.take (k + 1)) =
        r.frameOffsets 0 (fs.take (k + 1)) := frameOffsets_cut _ _ _
    have hpreMem : p ∈ (fs.take (k + 1)).map (·.pgno) ↔
        lastWrite (r.frameOffsets 0 (fs.take (k + 1))) p ≠ none := by
      rw [← map_fst_frameOffsets (r := r) 0, ne_eq, lastWrite_eq_none_iff, not_not]
    have hpostMem : p ∉ (committedFrames (fs.drop (k + 1))).map (·.pgno) ↔
        lastWrite (r.frameOffsets (k + 1) (committedFrames (fs.drop (k + 1)))) p = none := by
      rw [← map_fst_frameOffsets (r := r) (k + 1), lastWrite_eq_none_iff]
    rw [Regrown, hpreMem, hpostMem, hcutOffsets]
    cases lastWrite (r.frameOffsets (k + 1) (committedFrames (fs.drop (k + 1)))) p with
    | some o => simp
    | none =>
        by_cases hdropped : f.commit < p
        · simp [hdropped, not_lt.mp hp, eq_comm]
        · simp [hdropped]

/-- The database shrinks to two pages and grows again. -/
theorem pageMap_resumed_sample : ∃ r,
    newWALReader (sampleWAL [(3, 3), (2, 2), (1, 4)]) = .ok r ∧
    newWALReaderWithOffset (sampleWAL [(3, 3), (2, 2), (1, 4)]) (r.slot 2) r.salt1 r.salt2 =
      .ok (afterFrames 2 r) := by
  obtain ⟨r, hr, hcheck⟩ := exists_reader (sampleWAL [(3, 3), (2, 2), (1, 4)])
    (fun r => decide (r.pageSize.toNat = 512 ∧ r.validPrefix[1]?.isSome ∧
      r.validPrefix.length < 5)) (by decide +kernel)
  obtain ⟨hsize, hframe, hfuel⟩ := of_decide_eq_true hcheck
  obtain ⟨f, hf⟩ := Option.isSome_iff_exists.mp hframe
  exact ⟨r, hr, (pageMap_resumed _ r 1 5 f hr ⟨9, by decide, by decide, hsize⟩ hf hfuel).1⟩

/-- Frame `k` is a commit frame, and the maps of the file cut behind it and of the rest do not
give the entry of the whole map for a page. -/
def overlayDiffers (r : WALReader) (k fuel : Nat) (p : UInt32) : Bool :=
  r.validPrefix[k]?.any fun f => decide (f.commit ≠ 0) &&
    (newWALReader (r.r.take (r.slot (k + 1)))).toOption.any fun cut =>
      (mapOf fuel cut).any fun cutMap =>
        (mapOf fuel (afterFrames (k + 1) r)).any fun resumedMap =>
          (mapOf fuel r).any fun wholeMap =>
            decide ((if lastCommitSize r.validPrefix < p then none
              else (resumedMap.lookup p).or (cutMap.lookup p)) ≠ wholeMap.lookup p)

/-- The map of the whole file has page 3 of a database that shrinks to two pages and grows
again.  The map of the file cut where it has shrunk does not. -/
theorem overlay_regrown : ¬ ∀ (rd : Bytes) (r : WALReader) (k fuel : Nat) (f : WALFrame),
    newWALReader rd = .ok r → r.PowerOfTwo → r.validPrefix[k]? = some f →
    r.validPrefix.length < fuel → f.commit ≠ 0 → ∀ cut cutMap resumedMap wholeMap,
      newWALReader (rd.take (r.slot (k + 1))) = .ok cut → mapOf fuel cut = some cutMap →
      mapOf fuel (afterFrames (k + 1) r) = some resumedMap → mapOf fuel r = some wholeMap →
      ∀ p, (if lastCommitSize r.validPrefix < p then none
        else (resumedMap.lookup p).or (cutMap.lookup p)) = wholeMap.lookup p := by
  intro h
  obtain ⟨r, hr, hcheck⟩ := exists_reader (sampleWAL [(3, 3), (2, 2), (1, 4)])
    (fun r => decide (r.pageSize.toNat = 512 ∧ r.validPrefix.length < 5) && overlayDiffers r 1 5 3)
    (by decide +kernel)
  obtain ⟨hsize, hcheck⟩ := Bool.and_eq_true_iff.mp hcheck
  obtain ⟨hsize, hfuel⟩ := of_decide_eq_true hsize
  obtain ⟨f, hf, hcheck⟩ := (Option.any_eq_true _ _).mp hcheck
  obtain ⟨hcommit, hcheck⟩ := Bool.and_eq_true_iff.mp hcheck
  obtain ⟨cut, hcut, hcheck⟩ := exists_reader _ _ hcheck
  obtain ⟨cutMap, hcutMap, hcheck⟩ := (Option.any_eq_true _ _).mp hcheck
  obtain ⟨resumedMap, hresumedMap, hcheck⟩ := (Option.any_eq_true _ _).mp hcheck
  obtain ⟨wholeMap, hwholeMap, hne⟩ := (Option.any_eq_true _ _).mp hcheck
  exact of_decide_eq_true hne (h _ r 1 5 f hr ⟨9, by decide, by decide, hsize⟩ hf hfuel
    (of_decide_eq_true hcommit) cut cutMap resumedMap wholeMap
    ((newWALReader_past hr).1 ▸ hcut) hcutMap hresumedMap hwholeMap 3)

end WALReader

end Litestream
