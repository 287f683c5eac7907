import Mathlib
import Litestream.Lib.File
import Litestream.Restore.Artifacts

/-!
# Restoring from a v0.3 backup

`RestoreV3` takes the best snapshot of all generations, downloads it, and applies the WAL
segments of its generation that the filter keeps.  A segment with offset zero begins a WAL
file, and the other segments are appended to the file that is open.  Each WAL file is
checkpointed into the database before the next one begins.

The segments cut into WAL files (`walFiles`), and a restore that succeeds has replayed these
files one after another (`restoreV3_ok_iff`).  No helper compares a segment with the one
before it.  A restore fails on a gap only if another step fails, or if the listing begins
inside a WAL file (`restoreV3_gapFree_iff`).
-/

namespace Litestream

namespace RestoreV3

open Bytes

variable {ε : Type}

/-! ## Backups -/

structure SnapshotInfoV3 where
  generation : String
  index : Nat
  size : Nat
  createdAt : Nat
deriving DecidableEq, Repr

structure WALSegmentInfoV3 where
  generation : String
  index : Nat
  offset : Nat
  /-- The size of the compressed file. -/
  size : Nat
  createdAt : Nat
deriving DecidableEq, Repr

/-- Reads a backup.  An open yields the decompressed data. -/
structure ReplicaClientV3 (ε : Type) where
  generationsV3 : Except ε (List String)
  snapshotsV3 : String → Except ε (List SnapshotInfoV3)
  walSegmentsV3 : String → Except ε (List WALSegmentInfoV3)
  openSnapshotV3 : String → Nat → Except ε Bytes
  openWALSegmentV3 : String → Nat → Nat → Except ε Bytes

/-- What one call of `RestoreV3` meets in the file system and in SQLite. -/
structure Host (ε : Type) where
  /-- Whether the output path exists. -/
  stat : Except ε Bool
  mkdirAll : Except ε Unit
  /-- Creating, writing and syncing the temporary file. -/
  createTmp : Bytes → Except ε Unit
  /-- What an earlier restore has left beside the temporary file. -/
  wal : Bytes
  openFile : WALSegmentInfoV3 → Except ε Unit
  /-- Closing the WAL file and `PRAGMA wal_checkpoint(TRUNCATE)`, which take a database and
  its WAL file to both of them afterwards. -/
  checkpointV3 : Bytes → Bytes → Except ε (Bytes × Bytes)
  rename : Except ε Unit
  checkIntegrity : Int → Bytes → Except ε Unit

inductive ApplyError (ε : Type) where
  | openFile (err : ε)
  | checkpoint (err : ε)
  /-- Without an `err` from the client the file was not open. -/
  | writeSegment (index offset : Nat) (err : Option ε)
deriving DecidableEq

inductive RestoreV3Error (ε : Type) where
  | clientNotSupported
  | outputPathRequired
  | integrityCheckMode (mode : Int)
  | outputPathExists
  | stat (err : ε)
  | listGenerations (err : ε)
  | noSnapshots
  | listSnapshots (generation : String) (err : ε)
  | listWALSegments (err : ε)
  | createParent (err : ε)
  | downloadSnapshot (err : ε)
  | applyWALSegments (err : ApplyError ε)
  | rename (err : ε)
  | integrityCheck (err : ε)
deriving DecidableEq

/-! ## Selecting a snapshot -/

/-- One pass of the exchange sort: the element in hand is exchanged with every older one. -/
def exchange (snapshot : SnapshotInfoV3) :
    List SnapshotInfoV3 → SnapshotInfoV3 × List SnapshotInfoV3
  | [] => (snapshot, [])
  | other :: snapshots =>
    if snapshot.createdAt > other.createdAt then
      ((exchange other snapshots).1, snapshot :: (exchange other snapshots).2)
    else ((exchange snapshot snapshots).1, other :: (exchange snapshot snapshots).2)

/-- The passes that are left. -/
def exchanges : Nat → List SnapshotInfoV3 → List SnapshotInfoV3
  | 0, snapshots => snapshots
  | _ + 1, [] => []
  | n + 1, snapshot :: snapshots =>
    (exchange snapshot snapshots).1 :: exchanges n (exchange snapshot snapshots).2

def sortSnapshotsV3ByCreatedAt (snapshots : List SnapshotInfoV3) : List SnapshotInfoV3 :=
  exchanges (snapshots.length - 1) snapshots

/-- The snapshot was not created after the timestamp, where zero stands for none. -/
def InTime (timestamp : Nat) (createdAt : Nat) : Prop := timestamp = 0 ∨ createdAt ≤ timestamp

instance (timestamp createdAt : Nat) : Decidable (InTime timestamp createdAt) :=
  inferInstanceAs (Decidable (_ ∨ _))

def findBestSnapshotV3 (snapshots : List SnapshotInfoV3) (timestamp : Nat) :
    Option SnapshotInfoV3 :=
  if timestamp = 0 then snapshots.getLast?
  else snapshots.reverse.find? fun snapshot => snapshot.createdAt ≤ timestamp

def filterWALSegmentsV3 (segments : List WALSegmentInfoV3) (snapshotIndex timestamp : Nat) :
    List WALSegmentInfoV3 :=
  segments.filter fun seg => !(seg.index < snapshotIndex) &&
    !(timestamp != 0 && seg.createdAt > timestamp)

/-! ## Applying WAL segments -/

/-- The temporary database, the file beside it, and the offset of the open WAL file. -/
structure Applying where
  db : Bytes
  wal : Bytes
  f : Option Nat
deriving DecidableEq, Repr

variable (client : ReplicaClientV3 ε) (host : Host ε) (generation : String)

def applyLastWalFile (s : Applying) : Except (ApplyError ε) Applying :=
  match s.f with
  | none => .ok s
  | some _ =>
    match host.checkpointV3 s.db s.wal with
    | .error err => .error (.checkpoint err)
    | .ok (db, wal) => .ok { db := db, wal := wal, f := none }

/-- A segment with offset zero begins a WAL file.  The file is not truncated. -/
def beginWalFile (s : Applying) (seg : WALSegmentInfoV3) : Except (ApplyError ε) Applying :=
  if seg.offset = 0 then do
    let s ← applyLastWalFile host s
    (host.openFile seg).mapError .openFile
    return { s with f := some 0 }
  else .ok s

/-- Nothing can be written to a file that is not open. -/
def appendWALSegmentV3 (s : Applying) (seg : WALSegmentInfoV3) :
    Except (ApplyError ε) Applying :=
  match client.openWALSegmentV3 generation seg.index seg.offset, s.f with
  | .error err, _ => .error (.writeSegment seg.index seg.offset (some err))
  | .ok data, some off =>
    .ok { s with wal := s.wal.writeAt off data, f := some (off + data.length) }
  | .ok data, none =>
    if data = [] then .ok s else .error (.writeSegment seg.index seg.offset none)

/-- The loop over the segments, and the last WAL file. -/
def applyFrom : Applying → List WALSegmentInfoV3 → Except (ApplyError ε) Bytes
  | s, [] => (applyLastWalFile host s).map Applying.db
  | s, seg :: segments => do
    let s ← beginWalFile host s seg
    let s ← appendWALSegmentV3 client generation s seg
    applyFrom s segments

def applyWALSegmentsV3 (segments : List WALSegmentInfoV3) (db : Bytes) :
    Except (ApplyError ε) Bytes :=
  if segments = [] then .ok db
  else applyFrom client host generation { db := db, wal := host.wal, f := none } segments

def downloadSnapshotV3 (index : Nat) : Except ε Bytes := do
  let data ← client.openSnapshotV3 generation index
  host.createTmp data
  return data

/-! ## Restoring -/

variable (opt : RestoreOptions)

/-- The snapshots of some generations, in the order of the listings. -/
def collectSnapshots : List String → Except (RestoreV3Error ε) (List SnapshotInfoV3)
  | [] => .ok []
  | gen :: generations => do
    let snapshots ← (client.snapshotsV3 gen).mapError (.listSnapshots gen)
    let rest ← collectSnapshots generations
    return snapshots ++ rest

def validateV3 : Except (RestoreV3Error ε) Unit :=
  if opt.outputPath = [] then .error .outputPathRequired
  else if opt.integrityCheck ≠ integrityCheckNone ∧ opt.integrityCheck ≠ integrityCheckQuick ∧
      opt.integrityCheck ≠ integrityCheckFull then
    .error (.integrityCheckMode opt.integrityCheck)
  else
    match host.stat with
    | .error err => .error (.stat err)
    | .ok true => .error .outputPathExists
    | .ok false => .ok ()

/-- The snapshot that is restored, and the segments that are applied to it. -/
def selectV3 : Except (RestoreV3Error ε) (SnapshotInfoV3 × List WALSegmentInfoV3) := do
  validateV3 host opt
  let generations ← client.generationsV3.mapError .listGenerations
  let allSnapshots ← collectSnapshots client generations
  match findBestSnapshotV3 (sortSnapshotsV3ByCreatedAt allSnapshots) opt.timestamp with
  | none => .error .noSnapshots
  | some snapshot =>
    let segments ← (client.walSegmentsV3 snapshot.generation).mapError .listWALSegments
    return (snapshot, filterWALSegmentsV3 segments snapshot.index opt.timestamp)

/-- Builds the database of a selection, and publishes it. -/
def publishV3 (snapshot : SnapshotInfoV3) (segments : List WALSegmentInfoV3) :
    Except (RestoreV3Error ε) Bytes := do
  host.mkdirAll.mapError .createParent
  let image ← (downloadSnapshotV3 client host snapshot.generation snapshot.index).mapError
    .downloadSnapshot
  let db ← (applyWALSegmentsV3 client host snapshot.generation segments image).mapError
    .applyWALSegments
  host.rename.mapError .rename
  if opt.integrityCheck ≠ integrityCheckNone then
    (host.checkIntegrity opt.integrityCheck db).mapError .integrityCheck
  return db

/-- `Replica.RestoreV3`, with the database that it publishes. -/
def restoreV3 (client : Option (ReplicaClientV3 ε)) (host : Host ε) (opt : RestoreOptions) :
    Except (RestoreV3Error ε) Bytes :=
  match client with
  | none => .error .clientNotSupported
  | some client => do
    let (snapshot, segments) ← selectV3 client host opt
    publishV3 client host opt snapshot segments

/-! ## The newest snapshot is selected -/

section Sorting

variable {snapshot best : SnapshotInfoV3} {snapshots : List SnapshotInfoV3} {timestamp : Nat}

theorem exchange_perm (snapshot : SnapshotInfoV3) (snapshots : List SnapshotInfoV3) :
    ((exchange snapshot snapshots).1 :: (exchange snapshot snapshots).2).Perm
      (snapshot :: snapshots) := by
  induction snapshots generalizing snapshot with
  | nil => exact .refl _
  | cons other snapshots ih =>
      rw [exchange]
      split_ifs with hgt
      · exact (List.Perm.swap _ _ _).trans ((ih other).cons snapshot)
      · exact (List.Perm.swap _ _ _).trans (((ih snapshot).cons other).trans (.swap _ _ _))

theorem exchange_oldest (snapshot : SnapshotInfoV3) (snapshots : List SnapshotInfoV3) :
    (exchange snapshot snapshots).1.createdAt ≤ snapshot.createdAt ∧
      ∀ s ∈ (exchange snapshot snapshots).2,
        (exchange snapshot snapshots).1.createdAt ≤ s.createdAt := by
  induction snapshots generalizing snapshot with
  | nil => exact ⟨le_refl _, by simp [exchange]⟩
  | cons other snapshots ih =>
      rw [exchange]
      split_ifs with hgt
      · obtain ⟨hle, hrest⟩ := ih other
        have hold : (exchange other snapshots).1.createdAt ≤ snapshot.createdAt := by omega
        exact ⟨hold, List.forall_mem_cons.mpr ⟨hold, hrest⟩⟩
      · obtain ⟨hle, hrest⟩ := ih snapshot
        exact ⟨hle, List.forall_mem_cons.mpr ⟨hle.trans (Nat.le_of_not_lt hgt), hrest⟩⟩

theorem exchanges_perm (n : Nat) (snapshots : List SnapshotInfoV3) :
    (exchanges n snapshots).Perm snapshots := by
  induction n generalizing snapshots with
  | zero => exact .refl _
  | succ n ih =>
      cases snapshots with
      | nil => exact .refl _
      | cons snapshot snapshots =>
          exact ((ih _).cons _).trans (exchange_perm snapshot snapshots)

theorem exchanges_sorted {n : Nat} (h : snapshots.length ≤ n + 1) :
    (exchanges n snapshots).Pairwise fun s t => s.createdAt ≤ t.createdAt := by
  induction n generalizing snapshots with
  | zero =>
      cases snapshots with
      | nil => exact .nil
      | cons snapshot snapshots =>
          obtain rfl : snapshots = [] := List.eq_nil_of_length_eq_zero (by simpa using h)
          exact List.pairwise_singleton _ _
  | succ n ih =>
      cases snapshots with
      | nil => exact .nil
      | cons snapshot snapshots =>
          have hlen : (exchange snapshot snapshots).2.length = snapshots.length := by
            simpa using (exchange_perm snapshot snapshots).length_eq
          rw [List.length_cons] at h
          refine List.pairwise_cons.mpr ⟨fun s hs => ?_, ih (by omega)⟩
          exact (exchange_oldest snapshot snapshots).2 s ((exchanges_perm n _).mem_iff.mp hs)

theorem sortSnapshotsV3ByCreatedAt_perm (snapshots : List SnapshotInfoV3) :
    (sortSnapshotsV3ByCreatedAt snapshots).Perm snapshots := exchanges_perm _ _

theorem sortSnapshotsV3ByCreatedAt_sorted (snapshots : List SnapshotInfoV3) :
    (sortSnapshotsV3ByCreatedAt snapshots).Pairwise fun s t => s.createdAt ≤ t.createdAt :=
  exchanges_sorted (by omega)

theorem findBestSnapshotV3_concat (snapshots : List SnapshotInfoV3) (last : SnapshotInfoV3) :
    findBestSnapshotV3 (snapshots ++ [last]) timestamp =
      if InTime timestamp last.createdAt then some last
      else findBestSnapshotV3 snapshots timestamp := by
  by_cases hzero : timestamp = 0
  · simp [findBestSnapshotV3, InTime, hzero]
  · by_cases hle : last.createdAt ≤ timestamp <;>
      simp [findBestSnapshotV3, InTime, hzero, hle]

/-- On a sorted list the search finds the newest snapshot that is in time. -/
theorem findBestSnapshotV3_newest
    (hsorted : snapshots.Pairwise fun s t => s.createdAt ≤ t.createdAt)
    (h : findBestSnapshotV3 snapshots timestamp = some best) :
    best ∈ snapshots ∧ InTime timestamp best.createdAt ∧
      ∀ s ∈ snapshots, InTime timestamp s.createdAt → s.createdAt ≤ best.createdAt := by
  induction snapshots using List.reverseRecOn with
  | nil => simp [findBestSnapshotV3] at h
  | append_singleton snapshots last ih =>
      obtain ⟨hsnapshots, -, hlast⟩ := List.pairwise_append.mp hsorted
      rw [findBestSnapshotV3_concat] at h
      split_ifs at h with hin
      · obtain rfl : last = best := Option.some.inj h
        refine ⟨by simp, hin, fun s hs _ => ?_⟩
        rcases List.mem_append.mp hs with hs | hs
        · exact hlast s hs last (by simp)
        · rw [List.mem_singleton.mp hs]
      · obtain ⟨hmem, hbest, hmax⟩ := ih hsnapshots h
        refine ⟨List.mem_append_left _ hmem, hbest, fun s hs hs' => ?_⟩
        rcases List.mem_append.mp hs with hs | hs
        · exact hmax s hs hs'
        · exact absurd (List.mem_singleton.mp hs ▸ hs') hin

end Sorting

/-! ## WAL files -/

/-- The segments that continue the WAL file before them, and the WAL files that begin among
the segments. -/
def walFiles : List WALSegmentInfoV3 → List WALSegmentInfoV3 × List (List WALSegmentInfoV3)
  | [] => ([], [])
  | seg :: segments =>
    if seg.offset = 0 then ([], (seg :: (walFiles segments).1) :: (walFiles segments).2)
    else (seg :: (walFiles segments).1, (walFiles segments).2)

/-- The data of a segment. -/
def segmentData (seg : WALSegmentInfoV3) : Bytes :=
  (client.openWALSegmentV3 generation seg.index seg.offset).toOption.getD []

def walData (segments : List WALSegmentInfoV3) : Bytes :=
  segments.flatMap (segmentData client generation)

/-- The database after the checkpoint of one WAL file after another. -/
def replay : Bytes → Bytes → List Bytes → Option Bytes
  | db, _, [] => some db
  | db, wal, file :: files =>
    match host.checkpointV3 db (wal.writeAt 0 file) with
    | .error _ => none
    | .ok (db, wal) => replay db wal files

/-- Every segment can be read, and every WAL file can be opened. -/
def Opens (segments : List WALSegmentInfoV3) : Prop :=
  ∀ seg ∈ segments, (∃ data, client.openWALSegmentV3 generation seg.index seg.offset = .ok data) ∧
    (seg.offset = 0 → host.openFile seg = .ok ())

section Replaying

variable {client host generation} {db db' wal d data : Bytes} {seg : WALSegmentInfoV3}
  {segments : List WALSegmentInfoV3}

theorem bind_eq_ok {ε α β : Type} {x : Except ε α} {f : α → Except ε β} {b : β} :
    x >>= f = .ok b ↔ ∃ a, x = .ok a ∧ f a = .ok b := by
  cases x with
  | error err => simp [bind, Except.bind]
  | ok a => simp [bind, Except.bind]

theorem mapError_eq_ok {ε ε' α : Type} {x : Except ε α} {f : ε → ε'} {a : α} :
    x.mapError f = .ok a ↔ x = .ok a := by
  cases x <;> simp [Except.mapError]

theorem segmentData_eq (h : client.openWALSegmentV3 generation seg.index seg.offset = .ok data) :
    segmentData client generation seg = data := by
  rw [segmentData, h]
  rfl

theorem opens_cons : Opens client host generation (seg :: segments) ↔
    ((∃ data, client.openWALSegmentV3 generation seg.index seg.offset = .ok data) ∧
      (seg.offset = 0 → host.openFile seg = .ok ())) ∧ Opens client host generation segments :=
  List.forall_mem_cons

theorem replay_cons {file : Bytes} {files : List Bytes} :
    replay host db wal (file :: files) = some db' ↔
      ∃ s, host.checkpointV3 db (wal.writeAt 0 file) = .ok s ∧
        replay host s.1 s.2 files = some db' := by
  rw [replay]
  cases host.checkpointV3 db (wal.writeAt 0 file) with
  | error err => simp
  | ok s => simp

theorem applyLastWalFile_some {off : Nat} {s' : Applying} :
    applyLastWalFile host { db := db, wal := wal, f := some off } = .ok s' ↔
      ∃ s, host.checkpointV3 db wal = .ok s ∧ s' = { db := s.1, wal := s.2, f := none } := by
  rw [applyLastWalFile]
  cases host.checkpointV3 db wal with
  | error err => simp
  | ok s => simp [eq_comm]

theorem appendWALSegmentV3_some {off : Nat} {s' : Applying} :
    appendWALSegmentV3 client generation { db := db, wal := wal, f := some off } seg = .ok s' ↔
      ∃ data, client.openWALSegmentV3 generation seg.index seg.offset = .ok data ∧
        s' = { db := db, wal := wal.writeAt off data, f := some (off + data.length) } := by
  rw [appendWALSegmentV3]
  cases client.openWALSegmentV3 generation seg.index seg.offset with
  | error err => simp
  | ok data => simp [eq_comm]

/-- From an open WAL file on, the loop replays that file and the files that begin later. -/
theorem applyFrom_some :
    applyFrom client host generation { db := db, wal := wal.writeAt 0 d, f := some d.length }
        segments = .ok db' ↔
      Opens client host generation segments ∧
        replay host db wal ((d ++ walData client generation (walFiles segments).1) ::
          (walFiles segments).2.map (walData client generation)) = some db' := by
  induction segments generalizing db wal d with
  | nil =>
      rw [applyFrom, applyLastWalFile, walFiles, List.map_nil, walData, List.flatMap_nil,
        List.append_nil, replay_cons]
      cases host.checkpointV3 db (wal.writeAt 0 d) with
      | error err => simp [Except.map]
      | ok s => simp [Except.map, Opens, replay]
  | cons seg segments ih =>
      rw [applyFrom, bind_eq_ok, opens_cons, walFiles]
      by_cases hzero : seg.offset = 0
      · -- the file that is open ends here, and the segment begins the next one
        simp only [beginWalFile, if_pos hzero, bind_eq_ok, applyLastWalFile_some,
          mapError_eq_ok, pure, Except.pure, Except.ok.injEq, List.map_cons, replay_cons]
        constructor
        · rintro ⟨s, ⟨_, ⟨s₁, hs₁, rfl⟩, _, hopen, rfl⟩, s', happend, hrest⟩
          obtain ⟨data, hdata, rfl⟩ := appendWALSegmentV3_some.mp happend
          rw [Nat.zero_add] at hrest
          obtain ⟨hopens, hreplay⟩ := ih.mp hrest
          obtain ⟨s₂, hs₂, hfiles⟩ := replay_cons.mp hreplay
          refine ⟨⟨⟨⟨data, hdata⟩, fun _ => hopen⟩, hopens⟩, s₁, ?_, s₂, ?_, hfiles⟩
          · simpa [walData] using hs₁
          · simpa [walData, segmentData_eq hdata] using hs₂
        · rintro ⟨⟨⟨⟨data, hdata⟩, hopen⟩, hopens⟩, s₁, hs₁, s₂, hs₂, hfiles⟩
          refine ⟨_, ⟨_, ⟨s₁, by simpa [walData] using hs₁, rfl⟩, (), hopen hzero, rfl⟩, _,
            appendWALSegmentV3_some.mpr ⟨data, hdata, rfl⟩, ?_⟩
          rw [Nat.zero_add]
          refine ih.mpr ⟨hopens, replay_cons.mpr ⟨s₂, ?_, hfiles⟩⟩
          simpa [walData, segmentData_eq hdata] using hs₂
      · simp only [beginWalFile, hzero, if_false, Except.ok.injEq, exists_eq_left', bind_eq_ok,
          appendWALSegmentV3_some, IsEmpty.forall_iff, and_true]
        constructor
        · rintro ⟨_, ⟨data, hdata, rfl⟩, hrest⟩
          rw [writeAt_writeAt_length, ← List.length_append] at hrest
          obtain ⟨hopens, hreplay⟩ := ih.mp hrest
          refine ⟨⟨⟨data, hdata⟩, hopens⟩, ?_⟩
          simpa [walData, segmentData_eq hdata] using hreplay
        · rintro ⟨⟨⟨data, hdata⟩, hopens⟩, hreplay⟩
          refine ⟨_, ⟨data, hdata, rfl⟩, ?_⟩
          rw [writeAt_writeAt_length, ← List.length_append]
          refine ih.mpr ⟨hopens, ?_⟩
          simpa [walData, segmentData_eq hdata] using hreplay

/-- Without an open file the segments before the first WAL file hold no data. -/
theorem applyFrom_none :
    applyFrom client host generation { db := db, wal := wal, f := none } segments = .ok db' ↔
      Opens client host generation segments ∧
        (∀ seg ∈ (walFiles segments).1, segmentData client generation seg = []) ∧
        replay host db wal ((walFiles segments).2.map (walData client generation)) =
          some db' := by
  induction segments with
  | nil => simp [applyFrom, applyLastWalFile, Except.map, Opens, walFiles, replay]
  | cons seg segments ih =>
      rw [applyFrom, bind_eq_ok, opens_cons, walFiles]
      by_cases hzero : seg.offset = 0
      · simp only [beginWalFile, if_pos hzero, applyLastWalFile, bind_eq_ok, mapError_eq_ok, pure,
          Except.pure, Except.ok.injEq, exists_eq_left', List.map_cons, List.not_mem_nil,
          IsEmpty.forall_iff, implies_true, true_and]
        constructor
        · rintro ⟨_, ⟨_, hopen, rfl⟩, s', happend, hrest⟩
          obtain ⟨data, hdata, rfl⟩ := appendWALSegmentV3_some.mp happend
          rw [Nat.zero_add] at hrest
          obtain ⟨hopens, hreplay⟩ := applyFrom_some.mp hrest
          refine ⟨⟨⟨⟨data, hdata⟩, fun _ => hopen⟩, hopens⟩, ?_⟩
          simpa [walData, segmentData_eq hdata] using hreplay
        · rintro ⟨⟨⟨⟨data, hdata⟩, hopen⟩, hopens⟩, hreplay⟩
          refine ⟨_, ⟨(), hopen hzero, rfl⟩, _, appendWALSegmentV3_some.mpr ⟨data, hdata, rfl⟩, ?_⟩
          rw [Nat.zero_add]
          refine applyFrom_some.mpr ⟨hopens, ?_⟩
          simpa [walData, segmentData_eq hdata] using hreplay
      · simp only [beginWalFile, bind_eq_ok, hzero, IsEmpty.forall_iff, and_true]
        cases hdata : client.openWALSegmentV3 generation seg.index seg.offset with
        | error err => simp [appendWALSegmentV3, hdata]
        | ok data =>
            by_cases hempty : data = []
            · simp [appendWALSegmentV3, hdata, hempty, segmentData_eq hdata, ih]
            · simp [appendWALSegmentV3, hdata, hempty, segmentData_eq hdata]

/-- The WAL segments are applied if and only if they can be read, none of them continues a
WAL file that has not begun, and the WAL files replay. -/
theorem applyWALSegmentsV3_eq_ok :
    applyWALSegmentsV3 client host generation segments db = .ok db' ↔
      Opens client host generation segments ∧
        (∀ seg ∈ (walFiles segments).1, segmentData client generation seg = []) ∧
        replay host db host.wal ((walFiles segments).2.map (walData client generation)) =
          some db' := by
  rw [applyWALSegmentsV3]
  split_ifs with hnil
  · simp [hnil, Opens, walFiles, replay]
  · exact applyFrom_none

end Replaying

/-- The selected snapshot is the newest one in time, and its segments are those of its
generation that begin with its index or later and are in time. -/
theorem selectV3_newest {client : ReplicaClientV3 ε} {host : Host ε} {opt : RestoreOptions}
    {snapshot : SnapshotInfoV3} {segments : List WALSegmentInfoV3}
    (h : selectV3 client host opt = .ok (snapshot, segments)) :
    ∃ generations snapshots listed,
      client.generationsV3 = .ok generations ∧
      collectSnapshots client generations = .ok snapshots ∧
      client.walSegmentsV3 snapshot.generation = .ok listed ∧
      (snapshot ∈ snapshots ∧ InTime opt.timestamp snapshot.createdAt ∧
        ∀ s ∈ snapshots, InTime opt.timestamp s.createdAt → s.createdAt ≤ snapshot.createdAt) ∧
      segments = filterWALSegmentsV3 listed snapshot.index opt.timestamp := by
  simp only [selectV3, bind_eq_ok, mapError_eq_ok] at h
  obtain ⟨_, -, generations, hgen, snapshots, hsnapshots, hbest⟩ := h
  cases hfind : findBestSnapshotV3 (sortSnapshotsV3ByCreatedAt snapshots) opt.timestamp with
  | none => simp [hfind] at hbest
  | some best =>
      simp only [hfind, bind_eq_ok, mapError_eq_ok, pure, Except.pure, Except.ok.injEq,
        Prod.mk.injEq] at hbest
      obtain ⟨listed, hlisted, rfl, rfl⟩ := hbest
      obtain ⟨hmem, hin, hnewest⟩ :=
        findBestSnapshotV3_newest (sortSnapshotsV3ByCreatedAt_sorted snapshots) hfind
      have hperm := sortSnapshotsV3ByCreatedAt_perm snapshots
      exact ⟨generations, snapshots, listed, hgen, hsnapshots, hlisted,
        ⟨hperm.mem_iff.mp hmem, hin, fun s hs => hnewest s (hperm.mem_iff.mpr hs)⟩, rfl⟩

/-! ## Gaps -/

/-- The segment begins where the one before it ends, or begins the WAL file after it. -/
def Next (prev seg : WALSegmentInfoV3) : Prop :=
  (seg.index = prev.index ∧
      seg.offset = prev.offset + (segmentData client generation prev).length) ∨
    (seg.index = prev.index + 1 ∧ seg.offset = 0)

instance (prev seg : WALSegmentInfoV3) : Decidable (Next client generation prev seg) :=
  inferInstanceAs (Decidable (_ ∨ _))

/-- The segments begin with the WAL file of the snapshot and leave nothing out. -/
structure GapFree (snapshot : SnapshotInfoV3) (segments : List WALSegmentInfoV3) : Prop where
  start : ∀ seg ∈ segments.head?, seg.index = snapshot.index ∧ seg.offset = 0
  next : segments.IsChain (Next client snapshot.generation)

/-- Every other step of the restore goes well, and `db` is what comes out. -/
structure Served (snapshot : SnapshotInfoV3) (segments : List WALSegmentInfoV3) (db : Bytes) :
    Prop where
  mkdirAll : host.mkdirAll = .ok ()
  opens : Opens client host snapshot.generation segments
  replays : ∃ image, client.openSnapshotV3 snapshot.generation snapshot.index = .ok image ∧
    host.createTmp image = .ok () ∧
    replay host image host.wal
      ((walFiles segments).2.map (walData client snapshot.generation)) = some db
  rename : host.rename = .ok ()
  checkIntegrity : opt.integrityCheck ≠ integrityCheckNone →
    host.checkIntegrity opt.integrityCheck db = .ok ()

/-- A segment with data continues a WAL file that has not begun. -/
def StartsInside (snapshot : SnapshotInfoV3) (segments : List WALSegmentInfoV3) : Prop :=
  ∃ seg ∈ (walFiles segments).1, segmentData client snapshot.generation seg ≠ []

section Gaps

variable {client host opt} {snapshot : SnapshotInfoV3} {segments : List WALSegmentInfoV3}
  {db image : Bytes}

theorem not_startsInside_iff : ¬ StartsInside client snapshot segments ↔
    ∀ seg ∈ (walFiles segments).1, segmentData client snapshot.generation seg = [] := by
  simp [StartsInside]

theorem downloadSnapshotV3_eq_ok {generation : String} {index : Nat} :
    downloadSnapshotV3 client host generation index = .ok image ↔
      client.openSnapshotV3 generation index = .ok image ∧ host.createTmp image = .ok () := by
  simp only [downloadSnapshotV3, bind_eq_ok, pure, Except.pure, Except.ok.injEq]
  constructor
  · rintro ⟨data, hdata, _, htmp, rfl⟩
    exact ⟨hdata, htmp⟩
  · rintro ⟨hdata, htmp⟩
    exact ⟨image, hdata, (), htmp, rfl⟩

theorem publishV3_eq_ok :
    publishV3 client host opt snapshot segments = .ok db ↔
      Served client host opt snapshot segments db ∧ ¬ StartsInside client snapshot segments := by
  simp only [publishV3, bind_eq_ok, mapError_eq_ok, not_startsInside_iff,
    downloadSnapshotV3_eq_ok, applyWALSegmentsV3_eq_ok, pure, Except.pure]
  constructor
  · rintro ⟨_, hmkdir, image, ⟨himage, htmp⟩, db', ⟨hopens, hlead, hreplay⟩, _, hrename, hcheck⟩
    split_ifs at hcheck with hmode
    · obtain ⟨_, hpassed, hdb⟩ := bind_eq_ok.mp hcheck
      obtain rfl : db' = db := by simpa using hdb
      exact ⟨⟨hmkdir, hopens, ⟨image, himage, htmp, hreplay⟩, hrename,
        fun _ => mapError_eq_ok.mp hpassed⟩, hlead⟩
    · obtain rfl : db' = db := by simpa using hcheck
      exact ⟨⟨hmkdir, hopens, ⟨image, himage, htmp, hreplay⟩, hrename,
        fun h => absurd h hmode⟩, hlead⟩
  · rintro ⟨⟨hmkdir, hopens, ⟨image, himage, htmp, hreplay⟩, hrename, hcheck⟩, hlead⟩
    refine ⟨(), hmkdir, image, ⟨himage, htmp⟩, db, ⟨hopens, hlead, hreplay⟩, (), hrename, ?_⟩
    split_ifs with hmode
    · exact bind_eq_ok.mpr ⟨(), mapError_eq_ok.mpr (hcheck hmode), rfl⟩
    · rfl

/-- A restore publishes the snapshot with its WAL files replayed, or fails. -/
theorem restoreV3_ok_iff :
    restoreV3 (some client) host opt = .ok db ↔
      ∃ snapshot segments, selectV3 client host opt = .ok (snapshot, segments) ∧
        Served client host opt snapshot segments db ∧
        ¬ StartsInside client snapshot segments := by
  simp only [restoreV3, bind_eq_ok, Prod.exists, publishV3_eq_ok]

end Gaps

/-- A restore succeeds only on segments without a gap, if and only if the selected segments
have none, or begin inside a WAL file, or another step fails. -/
theorem restoreV3_gapFree_iff (client : ReplicaClientV3 ε) (host : Host ε)
    (opt : RestoreOptions) :
    (∀ snapshot segments, selectV3 client host opt = .ok (snapshot, segments) →
      ∀ db, restoreV3 (some client) host opt = .ok db → GapFree client snapshot segments) ↔
      ∀ snapshot segments, selectV3 client host opt = .ok (snapshot, segments) →
        GapFree client snapshot segments ∨ StartsInside client snapshot segments ∨
          ∀ db, ¬ Served client host opt snapshot segments db := by
  refine forall_congr' fun snapshot => forall_congr' fun segments => forall_congr' fun hsel => ?_
  have hok : ∀ db, restoreV3 (some client) host opt = .ok db ↔
      Served client host opt snapshot segments db ∧ ¬ StartsInside client snapshot segments := by
    intro db
    rw [restoreV3_ok_iff]
    constructor
    · rintro ⟨snapshot', segments', hsel', hserved⟩
      obtain ⟨rfl, rfl⟩ : snapshot = snapshot' ∧ segments = segments' := by
        simpa [hsel] using hsel'
      exact hserved
    · exact fun hserved => ⟨snapshot, segments, hsel, hserved⟩
  constructor
  · intro h
    by_cases hinside : StartsInside client snapshot segments
    · exact .inr (.inl hinside)
    · by_cases hserved : ∃ db, Served client host opt snapshot segments db
      · obtain ⟨db, hserved⟩ := hserved
        exact .inl (h db ((hok db).mpr ⟨hserved, hinside⟩))
      · exact .inr (.inr fun db hdb => hserved ⟨db, hdb⟩)
  · rintro (hgap | hinside | hserved) db hdb
    · exact hgap
    · exact absurd hinside ((hok db).mp hdb).2
    · exact absurd ((hok db).mp hdb).1 (hserved db)

/-! ## A missing WAL file -/

/-- A snapshot at index 0, and the WAL files 0 and 2. -/
def missingIndex : ReplicaClientV3 String where
  generationsV3 := .ok ["0123456789abcdef"]
  snapshotsV3 gen := .ok [{ generation := gen, index := 0, size := 1, createdAt := 1 }]
  walSegmentsV3 gen := .ok
    [{ generation := gen, index := 0, offset := 0, size := 1, createdAt := 1 },
      { generation := gen, index := 2, offset := 0, size := 1, createdAt := 3 }]
  openSnapshotV3 _ _ := .ok [1]
  openWALSegmentV3 _ index _ := .ok [UInt8.ofNat (10 + index)]

/-- Every step goes well, and a checkpoint appends the WAL file. -/
def appendingHost : Host String where
  stat := .ok false
  mkdirAll := .ok ()
  createTmp _ := .ok ()
  wal := []
  openFile _ := .ok ()
  checkpointV3 db wal := .ok (db ++ wal, [])
  rename := .ok ()
  checkIntegrity _ _ := .ok ()

def legacyOptions : RestoreOptions where
  outputPath := [47, 100, 98]

/-- The restore publishes the snapshot with WAL file 2 after WAL file 0. -/
theorem restoreV3_missingIndex :
    ¬ ∀ (client : ReplicaClientV3 String) (host : Host String) (opt : RestoreOptions)
        (snapshot : SnapshotInfoV3) (segments : List WALSegmentInfoV3),
      selectV3 client host opt = .ok (snapshot, segments) →
        ∀ db, restoreV3 (some client) host opt = .ok db → GapFree client snapshot segments := by
  intro hclaim
  have hgap := hclaim missingIndex appendingHost legacyOptions
    { generation := "0123456789abcdef", index := 0, size := 1, createdAt := 1 }
    [{ generation := "0123456789abcdef", index := 0, offset := 0, size := 1, createdAt := 1 },
      { generation := "0123456789abcdef", index := 2, offset := 0, size := 1, createdAt := 3 }]
    rfl [1, 10, 12] rfl
  exact absurd (List.isChain_pair.mp hgap.next) (by decide)

end RestoreV3

end Litestream
