import Litestream.Lib.Overlay
import Litestream.Ltx.FileInfo
import Litestream.Wal.Image

/-!
# Page indexes

An LTX file holds page frames and an index of them.  `FetchPageIndex` reads the index of a
file, and `FetchPage` reads the frame that an element of an index names.  The offset and the
size of a frame are those of the encoded file, which the LTX package lays out.

A map from page numbers to elements is a list of entries, oldest first, in which the last
entry of a page counts (`Overlay.lastWrite`).

`fetch_lastWrite` says that reading through the merged indexes of files is reading the
merged pages of the files.
-/

namespace Litestream

namespace Vfs

open Overlay

/-- Where a page is: the file, and the frame in it. -/
structure PageIndexElem where
  level : Nat
  minTXID : Nat
  maxTXID : Nat
  offset : Nat
  size : Nat
deriving DecidableEq, Repr

/-- One encoded page of a file. -/
structure PageFrame (ps : PageSize) where
  pgno : Nat
  offset : Nat
  size : Nat
  page : Page ps
deriving DecidableEq

/-- A stored file with its content.  The encoder writes each page once, and only pages up to
the commit size. -/
structure LTXFile (ps : PageSize) where
  info : FileInfo
  commit : Nat
  frames : List (PageFrame ps)
  valid : info.Valid
  pgnos_nodup : (frames.map PageFrame.pgno).Nodup
  offsets_nodup : (frames.map PageFrame.offset).Nodup
  bounds : ∀ frame ∈ frames, 1 ≤ frame.pgno ∧ frame.pgno ≤ commit

abbrev Index := List (Nat × PageIndexElem)

variable {ps : PageSize}

namespace LTXFile

def minTXID (file : LTXFile ps) : Nat := file.info.minTXID

def maxTXID (file : LTXFile ps) : Nat := file.info.maxTXID

theorem minTXID_le (file : LTXFile ps) : file.minTXID ≤ file.maxTXID := file.valid.min_le_max

/-- The pages of a file. -/
def pages (file : LTXFile ps) : List (Nat × Bytes) :=
  file.frames.map fun frame => (frame.pgno, frame.page.data)

/-- The element of a frame of the file. -/
def elem (file : LTXFile ps) (frame : PageFrame ps) : PageIndexElem :=
  ⟨file.info.level, file.info.minTXID, file.info.maxTXID, frame.offset, frame.size⟩

/-- The file is the one that the element names. -/
def Named (file : LTXFile ps) (level minTXID maxTXID : Nat) : Prop :=
  file.info.level = level ∧ file.info.minTXID = minTXID ∧ file.info.maxTXID = maxTXID

instance (file : LTXFile ps) (level minTXID maxTXID : Nat) :
    Decidable (file.Named level minTXID maxTXID) :=
  inferInstanceAs (Decidable (_ ∧ _))

end LTXFile

/-- The stored files of every level, in the order of their listings. -/
structure Replica (ps : PageSize) where
  level : Nat → List (LTXFile ps)
  level_eq : ∀ n, ∀ file ∈ level n, file.info.level = n
  names_nodup : ∀ n, ((level n).map fun file => (file.minTXID, file.maxTXID)).Nodup

def FetchPageIndex (file : LTXFile ps) : Index :=
  file.frames.map fun frame => (frame.pgno, file.elem frame)

/-- The index of a chain of files: each replaces the pages of those before it. -/
def mergeIndex (files : List (LTXFile ps)) : Index := files.flatMap FetchPageIndex

/-- The pages of a chain of files. -/
def mergePages (files : List (LTXFile ps)) : List (Nat × Bytes) := files.flatMap LTXFile.pages

namespace Replica

/-- The file is stored at its level. -/
def Stored (replica : Replica ps) (file : LTXFile ps) : Prop := file ∈ replica.level file.info.level

/-- Reads the frame at an offset of a file. -/
def fetchPage (replica : Replica ps) (level minTXID maxTXID offset size : Nat) : Option Bytes :=
  ((replica.level level).find? fun file => file.Named level minTXID maxTXID).bind fun file =>
    (file.frames.find? fun frame => frame.offset = offset ∧ frame.size = size).map fun frame =>
      frame.page.data

def fetch (replica : Replica ps) (e : PageIndexElem) : Option Bytes :=
  replica.fetchPage e.level e.minTXID e.maxTXID e.offset e.size

variable {replica : Replica ps} {file : LTXFile ps} {frame : PageFrame ps} {files : List (LTXFile ps)}

/-- A name finds its file. -/
theorem Stored.find (h : replica.Stored file) :
    (replica.level file.info.level).find?
      (fun g => g.Named file.info.level file.info.minTXID file.info.maxTXID) = some file := by
  have hnodup := replica.names_nodup file.info.level
  have hlevel := replica.level_eq file.info.level
  rw [Stored] at h
  generalize replica.level file.info.level = l at *
  induction l with
  | nil => cases h
  | cons g l ih =>
      rw [List.map_cons, List.nodup_cons] at hnodup
      rw [List.find?_cons]
      rcases List.mem_cons.mp h with rfl | hmem
      · simp [LTXFile.Named]
      · have hne : ¬ g.Named file.info.level file.info.minTXID file.info.maxTXID := by
          rintro ⟨-, hmin, hmax⟩
          refine hnodup.1 (List.mem_map.mpr ⟨file, hmem, ?_⟩)
          rw [LTXFile.minTXID, LTXFile.maxTXID, LTXFile.minTXID, LTXFile.maxTXID, hmin, hmax]
        simp only [hne, decide_false]
        exact ih hmem hnodup.2 fun f hf => hlevel f (List.mem_cons_of_mem _ hf)

/-- An element of a stored file reads the frame it was made of. -/
theorem Stored.fetch_elem (h : replica.Stored file) (hframe : frame ∈ file.frames) :
    replica.fetch (file.elem frame) = some frame.page.data := by
  have hfind : (file.frames.find? fun fr => fr.offset = frame.offset ∧ fr.size = frame.size) =
      some frame := by
    have hnodup := file.offsets_nodup
    generalize file.frames = frames at *
    induction frames with
    | nil => cases hframe
    | cons g frames ih =>
        rw [List.map_cons, List.nodup_cons] at hnodup
        rw [List.find?_cons]
        rcases List.mem_cons.mp hframe with rfl | hmem
        · simp
        · have hne : g.offset ≠ frame.offset := fun heq =>
            hnodup.1 (List.mem_map.mpr ⟨frame, hmem, heq.symm⟩)
          simp only [hne, false_and, decide_false]
          exact ih hmem hnodup.2
  rw [fetch, fetchPage, LTXFile.elem]
  dsimp only
  rw [h.find, Option.bind_some, hfind, Option.map_some]

/-- Reading through the merged indexes of stored files is reading their merged pages. -/
theorem fetch_lastWrite (h : ∀ file ∈ files, replica.Stored file) (k : Nat) :
    (lastWrite (mergeIndex files) k).map replica.fetch =
      (lastWrite (mergePages files) k).map some := by
  rw [← lastWrite_map, ← lastWrite_map]
  congr 1
  rw [mergeIndex, mergePages, List.map_flatMap, List.map_flatMap]
  refine List.flatMap_congr fun file hfile => ?_
  rw [FetchPageIndex, LTXFile.pages, List.map_map, List.map_map]
  refine List.map_congr_left fun frame hframe => ?_
  simp [(h file hfile).fetch_elem hframe]

theorem bind_fetch_lastWrite (h : ∀ file ∈ files, replica.Stored file) (k : Nat) :
    (lastWrite (mergeIndex files) k).bind replica.fetch = lastWrite (mergePages files) k := by
  have hfetch := fetch_lastWrite h k
  cases hindex : lastWrite (mergeIndex files) k with
  | none =>
      rw [hindex] at hfetch
      cases hpages : lastWrite (mergePages files) k with
      | none => rfl
      | some d => rw [hpages] at hfetch; cases hfetch
  | some e =>
      rw [hindex] at hfetch
      cases hpages : lastWrite (mergePages files) k with
      | none => rw [hpages] at hfetch; cases hfetch
      | some d =>
          rw [hpages] at hfetch
          exact Option.some.inj hfetch

end Replica

/-! ## Merged files -/

theorem keys_mergeIndex (files : List (LTXFile ps)) :
    (mergeIndex files).map Prod.fst = (mergePages files).map Prod.fst := by
  rw [mergeIndex, mergePages, List.map_flatMap, List.map_flatMap]
  refine List.flatMap_congr fun file _ => ?_
  rw [FetchPageIndex, LTXFile.pages, List.map_map, List.map_map]
  rfl

theorem mergeIndex_append (files files' : List (LTXFile ps)) :
    mergeIndex (files ++ files') = mergeIndex files ++ mergeIndex files' := List.flatMap_append

theorem mergePages_append (files files' : List (LTXFile ps)) :
    mergePages (files ++ files') = mergePages files ++ mergePages files' := List.flatMap_append

theorem LTXFile.mem_pages_bounds {file : LTXFile ps} {k : Nat}
    (h : k ∈ file.pages.map Prod.fst) : 1 ≤ k ∧ k ≤ file.commit := by
  obtain ⟨w, hw, rfl⟩ := List.mem_map.mp h
  obtain ⟨frame, hframe, rfl⟩ := List.mem_map.mp hw
  exact file.bounds frame hframe

/-- What the LTX package makes of a contiguous chain: the newest version of each page up to
the commit size of the last file.  It drops the pages above, as every file does. -/
structure Compacts (chain : List (LTXFile ps)) (file : LTXFile ps) : Prop where
  commit : chain.getLast?.map LTXFile.commit = some file.commit
  pages : ∀ k ≤ file.commit, lastWrite file.pages k = lastWrite (mergePages chain) k

instance (chain : List (LTXFile ps)) (file : LTXFile ps) : Decidable (Compacts chain file) :=
  decidable_of_iff
    (chain.getLast?.map LTXFile.commit = some file.commit ∧
      ∀ k < file.commit + 1, lastWrite file.pages k = lastWrite (mergePages chain) k)
    ⟨fun h => ⟨h.1, fun k hk => h.2 k (Nat.lt_succ_of_le hk)⟩,
      fun h => ⟨h.commit, fun k hk => h.pages k (Nat.le_of_lt_succ hk)⟩⟩

end Vfs

end Litestream
