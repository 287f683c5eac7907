import Litestream.Lib.Overlay
import Litestream.Wal.Image

/-!
# The page map of a WAL file

`pageMap_readerAt` says what `pageMap` returns from a frame of the current generation on:
the offset of the last frame of each page within the database, and the end of the
generation.  `readAt_lastOffset` says that the page of that frame is read there.
-/

namespace Litestream

open Bytes Overlay WALReader

/-! ## Lookups -/

section Lookup

variable {κ : Type*} {β : κ → Type*} [DecidableEq κ]

theorem alist_lookup_union (s t : AList β) (k : κ) :
    (s ∪ t).lookup k = (s.lookup k).or (t.lookup k) := by
  by_cases h : k ∈ s
  · rw [AList.lookup_union_left h]
    cases hs : s.lookup k with
    | none => exact absurd h (AList.lookup_eq_none.mp hs)
    | some b => rfl
  · rw [AList.lookup_union_right h, AList.lookup_eq_none.mpr h, Option.none_or]

end Lookup

namespace WALReader

theorem lookup_insert (m : PageOffsets) (pgno : UInt32) (offset : Nat) (p : UInt32) :
    (m.insert pgno offset).lookup p =
      (if pgno = p then some offset else none).or (m.lookup p) := by
  by_cases h : pgno = p
  · subst h
    rw [AList.lookup_insert, if_pos rfl, Option.some_or]
  · rw [AList.lookup_insert_ne (Ne.symm h), if_neg h, Option.none_or]

/-- Removing pages past the commit size removes exactly those. -/
theorem lookup_dropPastCommit (m : PageOffsets) (commit pgno : UInt32) :
    (dropPastCommit m commit).lookup pgno = if commit < pgno then none else m.lookup pgno := by
  have hfold : ∀ (l : List UInt32) (m : PageOffsets),
      (l.foldl (fun m p => if commit < p then m.erase p else m) m).lookup pgno =
        if commit < pgno ∧ pgno ∈ l then none else m.lookup pgno := by
    intro l
    induction l with
    | nil => simp
    | cons p l ih =>
        intro m
        rw [List.foldl_cons, ih]
        by_cases hp : pgno = p
        · subst hp
          by_cases hc : commit < pgno
          · simp [hc, AList.lookup_erase]
          · simp [hc]
        · by_cases hc : commit < p
          · simp [hp, hc, AList.lookup_erase_ne hp]
          · simp [hp, hc]
  rw [dropPastCommit, hfold]
  by_cases hc : commit < pgno
  · by_cases hm : pgno ∈ m.keys
    · simp [hc, hm]
    · simp [hc, hm, AList.lookup_eq_none.mpr (fun h => hm (AList.mem_keys.mp h))]
  · simp [hc]

theorem keys_eq_nil_iff {m : PageOffsets} : m.keys = [] ↔ ∀ pgno, m.lookup pgno = none := by
  rw [List.eq_nil_iff_forall_not_mem]
  simp only [AList.lookup_eq_none, AList.mem_keys]

/-- The largest offset is at least every offset, and one of them. -/
theorem maxPageOffset_eq {m : PageOffsets} {pgno : UInt32} {offset : Nat}
    (h : m.lookup pgno = some offset) (hmax : ∀ p o, m.lookup p = some o → o ≤ offset) :
    maxPageOffset m = offset := by
  have hfold : ∀ (l : List (Sigma fun _ : UInt32 => Nat)) (a : Nat),
      a ≤ offset → (∀ e ∈ l, e.2 ≤ offset) →
        l.foldl (fun acc e => max acc e.2) a ≤ offset ∧
          (a = offset ∨ (∃ e ∈ l, e.2 = offset) →
            l.foldl (fun acc e => max acc e.2) a = offset) := by
    intro l
    induction l with
    | nil =>
        intro a ha _
        exact ⟨ha, fun h => by simpa using h⟩
    | cons e l ih =>
        intro a ha hl
        have he := hl e List.mem_cons_self
        obtain ⟨hle, heq⟩ := ih (max a e.2) (by omega) (fun e he => hl e (List.mem_cons_of_mem _ he))
        refine ⟨hle, fun hex => heq ?_⟩
        rcases hex with rfl | ⟨e', he', rfl⟩
        · exact Or.inl (by omega)
        · rcases List.mem_cons.mp he' with rfl | he'
          · exact Or.inl (by omega)
          · exact Or.inr ⟨e', he', rfl⟩
  have hmem : ∀ p o, m.lookup p = some o ↔ ⟨p, o⟩ ∈ m.entries := fun p o => AList.mem_lookup_iff
  exact (hfold m.entries 0 (Nat.zero_le _) fun e he => hmax e.1 e.2 ((hmem _ _).mpr he)).2
    (Or.inr ⟨⟨pgno, offset⟩, (hmem _ _).mp h, rfl⟩)

end WALReader

/-! ## The current generation -/

namespace Wal

variable {ps : PageSize} (w : Wal ps)

/-- The database size at the last commit frame. -/
def commit : UInt32 := (w.cur.getLast w.cur_ne).commit

/-- The offsets of frames by page number, the first of them the `k`-th frame of the file. -/
def offsets : Nat → List (Frame ps) → List (UInt32 × Nat)
  | _, [] => []
  | k, f :: fs => (f.pgno, offsetOf ps k) :: offsets (k + 1) fs

theorem lastWrite_offsets_cons (f : Frame ps) (fs : List (Frame ps)) (k : Nat) (p : UInt32) :
    lastWrite (offsets k (f :: fs)) p = (lastWrite (offsets (k + 1) fs) p).or
      (if f.pgno = p then some (offsetOf ps k) else none) := rfl

variable {w} in
/-- What the loop adds to its map from a frame of the current generation on. -/
theorem pageMapLoop_readerAt {fs : List (Frame ps)} {k fuel : Nat} (m txMap : PageOffsets)
    (c : UInt32) (hfs : w.cur.drop k = fs) (hne : fs ≠ []) (hfuel : fs.length < fuel) :
    ∃ m', WALReader.pageMapLoop fuel (w.readerAt k) m txMap c =
        some (.ok (m', w.commit), w.readerAt w.cur.length) ∧
      ∀ p, m'.lookup p = (lastWrite (offsets k fs) p).or ((txMap.lookup p).or (m.lookup p)) := by
  induction fs generalizing k fuel m txMap c with
  | nil => exact absurd rfl hne
  | cons f fs ih =>
      have hf : w.cur[k]? = some f := by
        rw [← List.head?_drop, hfs, List.head?_cons]
      have hfs' : w.cur.drop (k + 1) = fs := by
        rw [← List.tail_drop, hfs, List.tail_cons]
      obtain ⟨fuel, rfl⟩ : ∃ n, fuel = n + 1 := ⟨fuel - 1, by omega⟩
      have hlookup : ∀ p, (txMap.insert f.pgno (offsetOf ps k)).lookup p =
          (if f.pgno = p then some (offsetOf ps k) else none).or (txMap.lookup p) :=
        WALReader.lookup_insert txMap f.pgno (offsetOf ps k)
      rw [WALReader.pageMapLoop, show (w.readerAt k).pageSize.toNat = ps.size from
        ps.toNat_toUInt32, w.readFrame_readerAt hf]
      simp only [offset_readerAt_succ, Frame.toData]
      cases fs with
      | nil =>
          have hlen := congrArg List.length hfs
          rw [List.length_drop, List.length_singleton] at hlen
          have hk : k + 1 = w.cur.length := by omega
          have hlast : w.commit = f.commit := by
            have h : w.cur.getLast? = some f := by
              rw [List.getLast?_eq_getElem?, ← hf]
              congr 1
              omega
            rw [List.getLast?_eq_some_getLast w.cur_ne, Option.some.injEq] at h
            rw [commit, h]
          obtain ⟨fuel, rfl⟩ : ∃ n, fuel = n + 1 := ⟨fuel - 1, by simp at hfuel; omega⟩
          have hcommit := w.committed
          rw [← commit, hlast] at hcommit
          rw [if_pos hcommit, WALReader.pageMapLoop, show (w.readerAt (k + 1)).pageSize.toNat =
            ps.size from ps.toNat_toUInt32, hk, w.readFrame_readerAt_end, ← hlast]
          refine ⟨_, rfl, fun p => ?_⟩
          rw [alist_lookup_union, hlookup]
          rw [lastWrite_offsets_cons]
          simp only [offsets, lastWrite_nil, Option.none_or, Option.or_assoc]
      | cons g fs =>
          simp only [List.length_cons] at hfuel
          split
          · obtain ⟨m', hm', hl⟩ := ih (txMap.insert f.pgno (offsetOf ps k) ∪ m)
              (txMap.insert f.pgno (offsetOf ps k)) f.commit hfs' (by simp)
              (show (g :: fs).length < fuel by simp; omega)
            refine ⟨m', hm', fun p => ?_⟩
            -- what the transaction map adds a second time is there already
            have hself : ∀ x y : Option Nat, x.or (x.or y) = x.or y := by
              intro x y
              cases x with
              | none => rfl
              | some a => rfl
            rw [hl, alist_lookup_union, hself, hlookup, lastWrite_offsets_cons f]
            simp only [Option.or_assoc]
          · obtain ⟨m', hm', hl⟩ := ih m (txMap.insert f.pgno (offsetOf ps k)) c hfs' (by simp)
              (show (g :: fs).length < fuel by simp; omega)
            refine ⟨m', hm', fun p => ?_⟩
            rw [hl, hlookup, lastWrite_offsets_cons f]
            simp only [Option.or_assoc]

theorem offsets_append (fs gs : List (Frame ps)) (k : Nat) :
    offsets k (fs ++ gs) = offsets k fs ++ offsets (k + fs.length) gs := by
  induction fs generalizing k with
  | nil => rfl
  | cons f fs ih =>
      rw [List.cons_append, offsets, ih, offsets, List.cons_append, List.length_cons,
        Nat.add_assoc, Nat.add_comm 1]

/-- The pages that frames write. -/
def writes (fs : List (Frame ps)) : List (UInt32 × Bytes) := fs.map fun f => (f.pgno, f.page.data)

theorem writes_cons (f : Frame ps) (fs : List (Frame ps)) :
    writes (f :: fs) = (f.pgno, f.page.data) :: writes fs := rfl

theorem writes_append (fs gs : List (Frame ps)) : writes (fs ++ gs) = writes fs ++ writes gs :=
  List.map_append

/-- The last offset of a page is that of the frame with its last version. -/
theorem lastWrite_offsets (fs : List (Frame ps)) (k : Nat) (p : UInt32) :
    lastWrite (offsets k fs) p = none ∧ lastWrite (writes fs) p = none ∨
      ∃ i f, fs[i]? = some f ∧ f.pgno = p ∧ lastWrite (offsets k fs) p = some (offsetOf ps (k + i)) ∧
        lastWrite (writes fs) p = some f.page.data := by
  induction fs generalizing k with
  | nil => exact Or.inl ⟨rfl, rfl⟩
  | cons f fs ih =>
      rw [lastWrite_offsets_cons, writes_cons, lastWrite_cons]
      rcases ih (k + 1) with ⟨ho, hw⟩ | ⟨i, g, hg, hp, ho, hw⟩
      · rw [ho, hw]
        by_cases h : f.pgno = p
        · exact Or.inr ⟨0, f, rfl, h, by simp [h], by simp [h]⟩
        · exact Or.inl ⟨by simp [h], by simp [h]⟩
      · refine Or.inr ⟨i + 1, g, hg, hp, ?_, by rw [hw, Option.some_or]⟩
        rw [ho, Option.some_or, Nat.add_assoc, Nat.add_comm 1 i]

/-- The page of a frame is read behind the frame header. -/
theorem readAt_lastOffset {k : Nat} {p : UInt32} {o : Nat}
    (h : lastWrite (offsets k (w.cur.drop k)) p = some o) :
    lastWrite (writes (w.cur.drop k)) p =
      some (readAt w.encode (o + walFrameHeaderSize) ps.size) := by
  rcases lastWrite_offsets (w.cur.drop k) k p with ⟨ho, -⟩ | ⟨i, f, hf, -, ho, hw⟩
  · rw [h] at ho
    cases ho
  · rw [h, Option.some.injEq] at ho
    rw [List.getElem?_drop] at hf
    have hlt : k + i < w.cur.length := (List.getElem?_eq_some_iff.mp hf).1
    have hframe : w.frames[k + i]? = some f := by rw [frames, List.getElem?_append_left hlt, hf]
    rw [hw, ho, w.readAt_frame hframe le_rfl, f.readAt_page]

/-- The last frame of the generation has the largest offset of the page map. -/
theorem lastWrite_offsets_getLast {k : Nat} (hk : k < w.cur.length) :
    lastWrite (offsets k (w.cur.drop k)) (w.cur.getLast w.cur_ne).pgno =
      some (offsetOf ps (w.cur.length - 1)) := by
  have hne : w.cur.drop k ≠ [] := by
    rw [ne_eq, List.drop_eq_nil_iff]
    omega
  have hsplit := List.dropLast_append_getLast hne
  rw [List.getLast_drop] at hsplit
  rw [← hsplit, offsets_append, lastWrite_append, List.length_dropLast, List.length_drop,
    show k + (w.cur.length - k - 1) = w.cur.length - 1 by omega]
  simp [offsets, lastWrite_cons]

theorem lastWrite_offsets_le {fs : List (Frame ps)} {k : Nat} {p : UInt32} {o : Nat}
    (h : lastWrite (offsets k fs) p = some o) : o ≤ offsetOf ps (k + fs.length - 1) := by
  rcases lastWrite_offsets fs k p with ⟨ho, -⟩ | ⟨i, f, hf, -, ho, -⟩
  · rw [h] at ho
    cases ho
  · have := (List.getElem?_eq_some_iff.mp hf).1
    rw [h, Option.some.injEq] at ho
    rw [ho, offsetOf_le]
    omega

/-- The page map from a frame of the current generation on. -/
theorem pageMap_readerAt {k fuel : Nat} (hk : k < w.cur.length) (hfuel : w.cur.length - k < fuel) :
    ∃ m, WALReader.pageMap fuel (w.readerAt k) =
        some (.ok (m, offsetOf ps w.cur.length, w.commit), w.readerAt w.cur.length) ∧
      ∀ p, m.lookup p =
        if w.commit < p then none else lastWrite (offsets k (w.cur.drop k)) p := by
  have hne : w.cur.drop k ≠ [] := by
    rw [ne_eq, List.drop_eq_nil_iff]
    omega
  obtain ⟨m, hm, hl⟩ := pageMapLoop_readerAt ∅ ∅ 0 rfl hne
    (by rw [List.length_drop]; exact hfuel)
  have hlookup : ∀ p, (dropPastCommit m w.commit).lookup p =
      if w.commit < p then none else lastWrite (offsets k (w.cur.drop k)) p := by
    intro p
    rw [lookup_dropPastCommit, hl]
    simp [AList.lookup_empty]
  -- the last frame stays in the map
  have hlast : (dropPastCommit m w.commit).lookup (w.cur.getLast w.cur_ne).pgno =
      some (offsetOf ps (w.cur.length - 1)) := by
    rw [hlookup, w.lastWrite_offsets_getLast hk, if_neg]
    rw [UInt32.not_lt]
    exact w.pgno_le _ (List.getLast_mem w.cur_ne) w.committed
  refine ⟨_, ?_, hlookup⟩
  rw [WALReader.pageMap, hm]
  simp only
  rw [if_neg, maxPageOffset_eq hlast]
  · rw [show (w.readerAt w.cur.length).pageSize.toNat = ps.size from ps.toNat_toUInt32,
      ← PageSize.frameSize, ← offsetOf_succ, Nat.sub_add_cancel (by omega)]
  · intro p o hpo
    rw [hlookup] at hpo
    split at hpo
    · cases hpo
    · have := lastWrite_offsets_le hpo
      rwa [List.length_drop, show k + (w.cur.length - k) - 1 = w.cur.length - 1 by omega] at this
  · intro hkeys
    rw [keys_eq_nil_iff.mp hkeys] at hlast
    cases hlast

/-- A reader at the end of the valid part has an empty page map. -/
theorem pageMap_of_eof {r r' : WALReader} {fuel : Nat}
    (h : r.readFrame r.pageSize.toNat true = (.error .eof, r')) (hfuel : 0 < fuel) :
    WALReader.pageMap fuel r = some (.ok (∅, 0, 0), r') := by
  obtain ⟨fuel, rfl⟩ : ∃ n, fuel = n + 1 := ⟨fuel - 1, by omega⟩
  rw [WALReader.pageMap, WALReader.pageMapLoop, h]
  rfl

end Wal

end Litestream
