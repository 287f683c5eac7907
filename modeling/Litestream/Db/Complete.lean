import Litestream.Db.Outcomes
import Litestream.Db.SyncSize

/-!
# Snapshots that a sync takes

A sync that takes a snapshot copies each page from the WAL frames that it has read, and from the
database file otherwise.  `verify` may ask for a snapshot and leave the offset in the middle of the
WAL.  The frames before it are then not read.

`sync_complete_iff` says that the snapshot has the latest committed version of every page exactly
when the frames from the offset on are enough (`Suffices`).
-/

namespace Litestream

open Bytes Overlay WALReader

/-- The pages of frames. -/
def framePages (fs : List WALFrame) : List (UInt32 × Bytes) := fs.map fun f => (f.pgno, f.data)

/-- The valid frames of a WAL file. -/
def walFrames (wal : Bytes) : List WALFrame :=
  match newWALReader wal with
  | .error _ => []
  | .ok rd => rd.validPrefix

namespace DB

/-! ## What is to be shown -/

/-- The latest committed version of a page in frames, or else the one of the database file. -/
def latest (db : DB) (fs : List WALFrame) (p : UInt32) : Option Bytes :=
  (lastWrite (framePages (committedFrames fs)) p).or (db.readDBPage p)

/-- The snapshot has the latest committed version of each page except the lock page. -/
def Complete (lockPgno : UInt32 → UInt32) (db : DB) (wal : Bytes) (ltx : LTXFile) : Prop :=
  ∀ p ∈ pageNumbers (lockPgno (UInt32.ofNat db.pageSize)) ltx.commit,
    lastWrite ltx.pages p = db.latest (walFrames wal) p

/-- The valid frames from where a sync starts to read. -/
def framesRead (wal : Bytes) (info : SyncInfo) : List WALFrame :=
  match openWALReader wal info with
  | .error _ => []
  | .ok (rd, _) => rd.validFrames wal.length rd.frameN (rd.chksum1, rd.chksum2)

/-- The page of the database in frames that a sync has read. -/
def pageRead (fs : List WALFrame) (p : UInt32) : Option Bytes :=
  if lastCommitSize fs < p then none else lastWrite (framePages (committedFrames fs)) p

/-- The size of a snapshot: that of the last commit frame, or else of the database file. -/
def snapshotCommit (db : DB) (fs : List WALFrame) : UInt32 :=
  if ∀ f ∈ committedFrames fs, lastCommitSize fs < f.pgno then
    UInt32.ofNat (db.file.length / db.pageSize)
  else lastCommitSize fs

/-- The frames that a sync reads are enough for a snapshot. -/
structure Suffices (lockPgno : UInt32 → UInt32) (db : DB) (wal : Bytes) (info : SyncInfo) :
    Prop where
  /-- A page that was read is the latest one of the WAL. -/
  read : ∀ p ∈ pageNumbers (lockPgno (UInt32.ofNat db.pageSize))
      (db.snapshotCommit (framesRead wal info)), ∀ data,
    pageRead (framesRead wal info) p = some data → db.latest (walFrames wal) p = some data
  /-- A page that was not read is in the database file if the WAL has it. -/
  checkpointed : ∀ p ∈ pageNumbers (lockPgno (UInt32.ofNat db.pageSize))
      (db.snapshotCommit (framesRead wal info)), ∀ data,
    pageRead (framesRead wal info) p = none →
      lastWrite (framePages (committedFrames (walFrames wal))) p = some data →
        db.readDBPage p = some data

variable {db db' : DB} {wal : Bytes} {info : SyncInfo} {r : WALReader} {k : Nat} {c : Checksum}
  {fs : List WALFrame}

/-! ## The pages of frames -/

/-- Behind the header of a frame is its page. -/
theorem readWALPage_slot (hsize : r.pageSize.toNat = db.pageSize) {f : WALFrame}
    (hf : r.frameAt k = some f) : db.readWALPage r.r (r.slot k) = some f.data := by
  have hlen := (frameAt_lengths hf).2
  rw [frameAt] at hf
  split at hf
  · cases hf
    have hoff : ((r.slot k : Int) + walFrameHeaderSize).toNat = r.slot k + walFrameHeaderSize := by
      omega
    rw [readWALPage, readWALFileAt, ← hsize]
    simp only [hoff]
    exact if_pos ⟨by omega, hlen⟩
  · cases hf

/-- The offsets of frames lead to their pages. -/
theorem readWALPage_frameOffsets (hb : r.Bounded) (hsize : r.pageSize.toNat = db.pageSize)
    (h : r.ValidFrom k c fs) (p : UInt32) :
    lastWrite (r.frameOffsets k fs) p = none ∧ lastWrite (framePages fs) p = none ∨
      ∃ o data, lastWrite (r.frameOffsets k fs) p = some o ∧ db.readWALPage r.r o = some data ∧
        lastWrite (framePages fs) p = some data := by
  induction fs generalizing k c with
  | nil => exact Or.inl ⟨rfl, rfl⟩
  | cons f fs ih =>
      obtain ⟨hf, -, -, hfs⟩ := h
      rw [frameOffsets, lastWrite_cons, framePages, List.map_cons, lastWrite_cons]
      rcases ih hfs with ⟨ho, hdata⟩ | ⟨o, data, ho, hread, hdata⟩
      · rw [framePages] at hdata
        rw [ho, hdata, Option.none_or, Option.none_or]
        by_cases hp : f.pgno = p
        · have hread := readWALPage_slot hsize hf
          rw [slot, hb.frameSize_eq] at hread
          rw [if_pos hp, if_pos hp]
          exact Or.inr ⟨_, _, rfl, hread, rfl⟩
        · rw [if_neg hp, if_neg hp]
          exact Or.inl ⟨rfl, rfl⟩
      · rw [framePages] at hdata
        rw [ho, hdata, Option.some_or, Option.some_or]
        exact Or.inr ⟨o, data, rfl, hread, rfl⟩

/-! ## The pages of a snapshot -/

theorem ValidFrom.committed (h : r.ValidFrom k c fs) : r.ValidFrom k c (committedFrames fs) := by
  obtain ⟨post, hpost⟩ := committedFrames_isPrefix fs
  rw [← hpost, validFrom_append] at h
  exact h.1

/-- The pages that a snapshot copies. -/
theorem lastWrite_snapshot (hb : r.Bounded) (hsize : r.pageSize.toNat = db.pageSize)
    (h : r.ValidFrom k c fs) {lockPgno : UInt32 → UInt32} {commit : UInt32} {m : PageOffsets}
    (hm : ∀ p, m.lookup p = if lastCommitSize fs < p then none
      else lastWrite (r.frameOffsets k (committedFrames fs)) p)
    {pages : List (UInt32 × Bytes)} (hpages : db.writeLTXFromDB lockPgno r.r commit m = some pages)
    {p : UInt32} (hp : p ∈ pageNumbers (lockPgno (UInt32.ofNat db.pageSize)) commit) :
    lastWrite pages p = (pageRead fs p).or (db.readDBPage p) := by
  rw [writeLTXFromDB] at hpages
  rw [lastWrite_copyPages hpages, if_pos hp, hm, pageRead]
  by_cases hdropped : lastCommitSize fs < p
  · rw [if_pos hdropped, if_pos hdropped, Option.none_or]
  · rw [if_neg hdropped, if_neg hdropped]
    rcases readWALPage_frameOffsets hb hsize (ValidFrom.committed h) p with
      ⟨ho, hdata⟩ | ⟨o, data, ho, hread, hdata⟩
    · rw [ho, hdata, Option.none_or]
    · rw [ho, hdata, Option.some_or]
      exact hread

/-- The page map has pages if a committed frame is within the last commit size. -/
theorem keys_eq_nil_iff_committed {m : PageOffsets}
    (hm : ∀ p, m.lookup p = if lastCommitSize fs < p then none
      else lastWrite (r.frameOffsets k (committedFrames fs)) p) :
    m.keys = [] ↔ ∀ f ∈ committedFrames fs, lastCommitSize fs < f.pgno := by
  rw [keys_eq_nil_iff]
  constructor
  · intro h f hf
    by_contra hle
    have hnone := (hm f.pgno).symm.trans (h f.pgno)
    rw [if_neg hle, lastWrite_eq_none_iff, map_fst_frameOffsets] at hnone
    exact hnone (List.mem_map_of_mem hf)
  · intro h p
    rw [hm]
    split
    · rfl
    next hp =>
    rw [lastWrite_eq_none_iff, map_fst_frameOffsets]
    intro hmem
    obtain ⟨f, hf, rfl⟩ := List.mem_map.mp hmem
    exact hp (h f hf)

theorem lastCommitSize_ne_zero (h : committedFrames fs ≠ []) : lastCommitSize fs ≠ 0 := by
  obtain ⟨pre, f, -, hne, hsize⟩ := committedFrames_getLast fs h
  rw [hsize]
  exact hne

theorem validFrames_past (j : Nat) (d : Checksum) (n k : Nat) (c : Checksum) :
    (r.past j d).validFrames n k c = r.validFrames n k c := by
  induction n generalizing k c with
  | zero => rfl
  | succ n ih =>
      rw [validFrames, validFrames, past_frameAt]
      cases r.frameAt k with
      | none => rfl
      | some f =>
          dsimp only
          rw [ih]
          rfl

/-- The frames that a sync reads are the longest valid ones from where its reader starts. -/
theorem longest_framesRead {rd' : WALReader} {info' : SyncInfo}
    (hps : ∀ rd, newWALReader wal = .ok rd → rd.PowerOfTwo)
    (hopen : openWALReader wal info = .ok (rd', info')) :
    ∃ rd k c, newWALReader wal = .ok rd ∧ rd' = (rd.withSalt rd'.salt1 rd'.salt2).past k c ∧
      (rd.withSalt rd'.salt1 rd'.salt2).Longest k c (framesRead wal info) := by
  obtain ⟨rd, k, c, hrd, -, -, hpast⟩ := openWALReader_ok hopen
  refine ⟨rd, k, c, hrd, hpast, ?_⟩
  have hb : (rd.withSalt rd'.salt1 rd'.salt2).Bounded := (hps rd hrd).bounded
  have hframes : framesRead wal info =
      (rd.withSalt rd'.salt1 rd'.salt2).validFrames wal.length k c := by
    rw [framesRead, hopen]
    generalize rd.withSalt rd'.salt1 rd'.salt2 = r at hpast
    rw [hpast]
    exact validFrames_past k c wal.length k c
  rw [hframes]
  refine longest_validFrames hb ?_
  have hmul := Nat.mul_le_mul_left wal.length (show 1 ≤ (rd.withSalt rd'.salt1 rd'.salt2).frameSize by
    rw [hb.frameSize_eq, walFrameHeaderSize]
    omega)
  rw [show (rd.withSalt rd'.salt1 rd'.salt2).r = wal from (newWALReader_past hrd).1]
  omega

theorem openWALReader_snapshotting {rd' : WALReader} {info' : SyncInfo}
    (h : openWALReader wal info = .ok (rd', info')) : info'.snapshotting = info.snapshotting := by
  rw [openWALReader] at h
  split at h
  · split at h
    · cases h
    · cases h
      rfl
  · split at h
    · cases h
      rfl
    · split at h
      · cases h
      · cases h
        rfl
    · cases h

/-- A snapshot that `writeLTX` appends. -/
theorem writeLTX_snapshot {lockPgno : UInt32 → UInt32} {rd : WALReader} {m : PageOffsets}
    {maxOffset : Nat} {walCommit : UInt32} {ltx : LTXFile} (hsnap : info.snapshotting = true)
    (h : db.writeLTX lockPgno wal info rd m maxOffset walCommit = (.ok true, db'))
    (hltx : db'.l0 = db.l0 ++ [ltx]) :
    ltx.commit = (if 0 < walCommit then walCommit
        else UInt32.ofNat (db.file.length / db.pageSize)) ∧
      db.writeLTXFromDB lockPgno wal ltx.commit m = some ltx.pages := by
  rw [writeLTX, hsnap] at h
  dsimp only at h
  generalize (if 0 < maxOffset then (maxOffset : Int) - info.offset else 0) = size at h
  split at h
  · cases h
  rw [if_neg (by simp), if_pos rfl] at h
  split at h
  · cases h
  next pages hpages =>
    cases h
    obtain rfl := List.singleton_inj.mp (List.append_cancel_left hltx)
    exact ⟨rfl, hpages⟩

/-- What a sync that takes a snapshot writes. -/
theorem sync_snapshot {lockPgno : UInt32 → UInt32} {ltx : LTXFile}
    (hwal : db.wal = some wal) (hps : ∀ rd, newWALReader wal = .ok rd →
      rd.PowerOfTwo ∧ rd.pageSize.toNat = db.pageSize)
    (hsnap : info.snapshotting = true) (hsync : db.sync lockPgno info = (.ok true, db'))
    (hltx : db'.l0 = db.l0 ++ [ltx]) :
    ltx.commit = db.snapshotCommit (framesRead wal info) ∧
      ∀ p ∈ pageNumbers (lockPgno (UInt32.ofNat db.pageSize)) ltx.commit,
        lastWrite ltx.pages p = (pageRead (framesRead wal info) p).or (db.readDBPage p) := by
  rw [sync, hwal] at hsync
  dsimp only at hsync
  cases hopen : openWALReader wal info with
  | error err =>
      rw [hopen] at hsync
      cases hsync
  | ok opened =>
      obtain ⟨rd', info'⟩ := opened
      obtain ⟨rd, k, c, hrd, hpast, hfs⟩ := longest_framesRead (fun rd h => (hps rd h).1) hopen
      have hsnap' := (openWALReader_snapshotting hopen).trans hsnap
      rw [hopen] at hsync
      dsimp only at hsync
      generalize hr : rd.withSalt rd'.salt1 rd'.salt2 = r at hpast hfs
      generalize framesRead wal info = fs at *
      have hsize : r.pageSize.toNat = db.pageSize := by
        rw [← hr]
        exact (hps rd hrd).2
      have hb : r.Bounded := by
        rw [← hr]
        exact (hps rd hrd).1.bounded
      have hfile : r.r = wal := by
        rw [← hr]
        exact (newWALReader_past hrd).1
      obtain ⟨c', ⟨m, hmap, hm⟩ | ⟨hmap, -⟩⟩ := pageMap_past hfs (hfs.length_lt hb)
      · rw [hpast, ← hfile, hmap] at hsync
        obtain ⟨hcommit, hpages⟩ := writeLTX_snapshot hsnap' hsync hltx
        refine ⟨?_, fun p hp => lastWrite_snapshot hb hsize hfs.valid hm hpages hp⟩
        rw [hcommit, snapshotCommit]
        by_cases hkeys : m.keys = []
        · rw [if_pos hkeys, if_neg (lt_irrefl 0), if_pos ((keys_eq_nil_iff_committed hm).mp hkeys)]
        · have hne : committedFrames fs ≠ [] := fun hnil =>
            hkeys ((keys_eq_nil_iff_committed hm).mpr (by simp [hnil]))
          rw [if_neg hkeys, if_pos (UInt32.pos_iff_ne_zero.mpr (lastCommitSize_ne_zero hne)),
            if_neg fun h => hkeys ((keys_eq_nil_iff_committed hm).mpr h)]
      · rw [hpast, ← hfile, hmap] at hsync
        cases hsync

/-- The frames of the whole WAL are enough, where commit frames are within their commit size. -/
theorem suffices_of_start {lockPgno : UInt32 → UInt32} (hstart : framesRead wal info = walFrames wal)
    (hcommit : ∀ f ∈ walFrames wal, f.commit ≠ 0 → f.pgno ≤ f.commit) :
    Suffices lockPgno db wal info := by
  refine ⟨fun p _ data hread => ?_, fun p hp data hread hdata => ?_⟩
  · rw [hstart, pageRead] at hread
    split at hread
    · cases hread
    · rw [latest, hread, Option.some_or]
  · rw [hstart] at hp hread
    generalize walFrames wal = fs at *
    have hne : committedFrames fs ≠ [] := by
      intro hnil
      rw [hnil] at hdata
      cases hdata
    obtain ⟨pre, f, hf, hzero, hsize⟩ := committedFrames_getLast fs hne
    have hlast : f ∈ committedFrames fs := by simp [hf]
    have hle : p ≤ lastCommitSize fs := by
      have hp := (mem_pageNumbers.mp hp).2.1
      rwa [snapshotCommit, if_neg] at hp
      intro hall
      refine absurd (hall f hlast) (not_lt.mpr ?_)
      rw [hsize]
      exact hcommit f ((committedFrames_isPrefix fs).subset hlast) hzero
    rw [pageRead, if_neg (not_lt.mpr hle), hdata] at hread
    cases hread

/-- A snapshot that a sync takes is complete exactly when the frames that it reads are enough. -/
theorem sync_complete_iff (lockPgno : UInt32 → UInt32) (db db' : DB) (wal : Bytes)
    (info : SyncInfo) (ltx : LTXFile) (hwal : db.wal = some wal)
    (hps : ∀ rd, newWALReader wal = .ok rd → rd.PowerOfTwo ∧ rd.pageSize.toNat = db.pageSize)
    (hsnap : info.snapshotting = true) (hsync : db.sync lockPgno info = (.ok true, db'))
    (hltx : db'.l0 = db.l0 ++ [ltx]) :
    Complete lockPgno db wal ltx ↔ Suffices lockPgno db wal info := by
  obtain ⟨hcommit, hpages⟩ := sync_snapshot hwal hps hsnap hsync hltx
  rw [Complete]
  constructor
  · intro h
    rw [hcommit] at h hpages
    refine ⟨fun p hp data hread => ?_, fun p hp data hread hdata => ?_⟩
    · rw [← h p hp, hpages p hp, hread, Option.some_or]
    · have hlatest := (hpages p hp).symm.trans (h p hp)
      rw [hread, Option.none_or, latest, hdata, Option.some_or] at hlatest
      exact hlatest
  · intro h p hp
    rw [hpages p hp]
    rw [hcommit] at hp
    cases hread : pageRead (framesRead wal info) p with
    | some data => rw [Option.some_or, h.read p hp data hread]
    | none =>
        rw [Option.none_or, latest]
        cases hdata : lastWrite (framePages (committedFrames (walFrames wal))) p with
        | none => rw [Option.none_or]
        | some data => rw [Option.some_or, h.checkpointed p hp data hread hdata]

/-- A WAL whose header has the page size 512. -/
theorem pageSize_of_check (wal : Bytes) (h : (newWALReader wal).toOption.any
    (fun r => decide (r.pageSize.toNat = 512)) = true) (rd : WALReader)
    (hrd : newWALReader wal = .ok rd) : rd.PowerOfTwo ∧ rd.pageSize.toNat = 512 := by
  obtain ⟨r, hr, hsize⟩ := exists_reader wal _ h
  obtain rfl : r = rd := Except.ok.inj (hr.symm.trans hrd)
  exact ⟨⟨9, by decide, by decide, of_decide_eq_true hsize⟩, of_decide_eq_true hsize⟩

/-- The first sync reads the whole WAL. -/
theorem sync_complete_iff_unsynced : ∃ info db' ltx,
    unsynced.verify = (.ok info, unsynced) ∧
    unsynced.sync (fun _ => 2097153) info = (.ok true, db') ∧ db'.l0 = unsynced.l0 ++ [ltx] ∧
    Complete (fun _ => 2097153) unsynced (sampleWAL twoPages) ltx := by
  have hsync : (unsynced.sync (fun _ => 2097153) ⟨walHeaderSize, 0, 0, true, ""⟩).1 = .ok true ∧
      (unsynced.sync (fun _ => 2097153) ⟨walHeaderSize, 0, 0, true, ""⟩).2.l0.length = 1 ∧
      framesRead (sampleWAL twoPages) ⟨walHeaderSize, 0, 0, true, ""⟩ =
        walFrames (sampleWAL twoPages) ∧
      ∀ f ∈ walFrames (sampleWAL twoPages), f.commit ≠ 0 → f.pgno ≤ f.commit := by decide +kernel
  have hps := pageSize_of_check (sampleWAL twoPages) (by decide +kernel)
  generalize hres : unsynced.sync (fun _ => 2097153) ⟨walHeaderSize, 0, 0, true, ""⟩ = res at hsync
  obtain ⟨result, db'⟩ := res
  obtain ⟨hresult, hlen, hstart, hcommit⟩ := hsync
  obtain rfl : result = .ok true := hresult
  obtain ⟨ltx, hltx⟩ := List.length_eq_one_iff.mp hlen
  exact ⟨_, db', ltx, rfl, hres, hltx,
    (sync_complete_iff _ unsynced db' _ _ ltx rfl hps rfl hres hltx).mpr
      (suffices_of_start hstart hcommit)⟩

/-- A WAL of two transactions, the first of which was synced. -/
def grownWAL : Bytes := sampleWAL [(1, 0), (2, 2), (1, 2)]

/-- The last file does not have the page of the frame before its end. -/
def otherPages : LTXFile := ⟨512, 2, 1, 1, 32, 2 * 536, 7, 9, [], false, false⟩

/-- The database file is older than the WAL. -/
def unmatched : DB where
  pageSize := 512
  file := List.replicate 1024 0
  wal := some grownWAL
  l0 := [otherPages]
  syncedToWALEnd := false
  lastSyncedWALOffset := 32 + 2 * 536

/-- A snapshot that is read from the third frame on. -/
def midWAL : SyncInfo := ⟨32 + 2 * 536, 7, 9, true,
  "last page does not exist in last ltx file, wal overwritten by another process"⟩

theorem verify_unmatched : unmatched.verify = (.ok midWAL, unmatched) := by
  have hheader : unmatched.verifyHeader grownWAL otherPages
      ⟨otherPages.walEnd, otherPages.walSalt1, otherPages.walSalt2, true, ""⟩ = .ok midWAL := by
    decide +kernel
  have hlen : grownWAL.length = 32 + 3 * 536 := by decide +kernel
  have hwalEnd : otherPages.walEnd = 32 + 2 * 536 := by decide
  have hend : otherPages.walEnd < grownWAL.length := by omega
  rw [verify_past_end (show unmatched.l0.getLast? = some otherPages from rfl) rfl rfl hend, hheader]

/-- `verify` asks for a snapshot from the third frame on.  The second page is in the frame before,
but the snapshot has it from the database file. -/
theorem not_complete : ¬ ∀ (lockPgno : UInt32 → UInt32) (db db₁ db₂ : DB) (wal : Bytes)
    (info : SyncInfo) (ltx : LTXFile), db.wal = some wal →
    (∀ rd, newWALReader wal = .ok rd → rd.PowerOfTwo ∧ rd.pageSize.toNat = db.pageSize) →
    db.verify = (.ok info, db₁) → info.snapshotting = true →
    db₁.sync lockPgno info = (.ok true, db₂) → db₂.l0 = db₁.l0 ++ [ltx] →
      Complete lockPgno db wal ltx := by
  intro h
  have hsync : (unmatched.sync (fun _ => 2097153) midWAL).1 = .ok true ∧
      (unmatched.sync (fun _ => 2097153) midWAL).2.l0.map
        (fun ltx => (ltx.commit, lastWrite ltx.pages 2)) =
          [(2, none), (2, some (List.replicate 512 0))] ∧
      unmatched.latest (walFrames grownWAL) 2 = some (List.replicate 512 2) := by decide +kernel
  have hps := pageSize_of_check grownWAL (by decide +kernel)
  generalize hres : unmatched.sync (fun _ => 2097153) midWAL = res at hsync
  obtain ⟨result, db'⟩ := res
  obtain ⟨hresult, hpages, hlatest⟩ := hsync
  obtain rfl : result = .ok true := hresult
  rcases sync_l0 hres with hl0 | ⟨ltx, hl0, -⟩
  · rw [hl0] at hpages
    cases hpages
  · rw [hl0, List.map_append] at hpages
    obtain ⟨hcommit, hpage⟩ := Prod.mk.inj (List.singleton_inj.mp
      (List.append_cancel_left (show [_] ++ _ = [_] ++ _ from hpages)))
    have hcomplete := h (fun _ => 2097153) unmatched unmatched db' grownWAL midWAL ltx rfl hps
      verify_unmatched rfl hres hl0
    have hp : (2 : UInt32) ∈ pageNumbers 2097153 ltx.commit := by
      rw [mem_pageNumbers, hcommit]
      decide
    have hlast := (hcomplete 2 hp).symm.trans hpage
    rw [hlatest] at hlast
    revert hlast
    decide

end DB

end Litestream
