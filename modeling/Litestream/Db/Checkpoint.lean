import Litestream.Db.Outcomes
import Litestream.Db.Sqlite
import Litestream.Lib.Run

/-!
# Checkpoints while applications write

A run of a database interleaves the commits of applications with syncs and with the steps of
checkpoints.  `step` has one action for each point of `Sync` and `checkpoint` at which
applications can commit before or behind it.

Of SQLite the step function assumes:

* A commit appends to the WAL.  It may restart the WAL, with salts that are new, when every
  frame has been copied to the database file and no read transaction needs the WAL.
* Litestream's read transaction keeps the WAL from being restarted (`readLock`).  One that
  begins when every frame has been copied may read the database file only.
* `PRAGMA wal_checkpoint` copies frames in order.  The TRUNCATE mode copies every frame and
  empties the WAL file.
* Nobody commits while litestream holds the write lock.

`salts` and `missed` are bookkeeping.  No part of litestream reads them.
-/

namespace Litestream

open Bytes Paged

variable {ps : PageSize}

/-! ## States -/

/-- How far a sync or a checkpoint has come.  A checkpoint keeps the WAL header that it read
first. -/
inductive Phase where
  | idle
  /-- A sync has made sure that the WAL has a header. -/
  | ensured
  | started (hdr : Bytes)
  | synced (hdr : Bytes)
  | released (hdr : Bytes)
  /-- The `PRAGMA` has failed. -/
  | failed
  | checkpointed (hdr : Bytes)
  | reacquired (hdr : Bytes)
  | written (hdr : Bytes)
  /-- The WAL header is another one. -/
  | restarted
  /-- Litestream holds the write lock. -/
  | locked
  | copied
deriving DecidableEq

structure State (ps : PageSize) where
  file : List (Page ps)
  /-- The WAL file, if it is not empty. -/
  wal : Option (Wal ps)
  /-- The number of frames that are in the database file. -/
  nBackfill : Nat
  /-- Whether a read transaction of litestream keeps the WAL from being restarted. -/
  readLock : Bool
  l0 : List LTXFile
  syncedToWALEnd : Bool
  lastSyncedWALOffset : Int
  phase : Phase
  /-- The salts that were used. -/
  salts : List Salt
  /-- Whether frames that no level 0 file has were in the WAL when it was last restarted or
  truncated, unless a level 0 file was written since. -/
  missed : Bool

inductive CheckpointMode where
  | passive
  | truncate
deriving DecidableEq

namespace State

variable (s : State ps)

/-- The content of the WAL file. -/
def walFile : Bytes :=
  match s.wal with
  | none => []
  | some w => w.encode

/-- The frames in the WAL file. -/
def frames : List (Frame ps) :=
  match s.wal with
  | none => []
  | some w => w.frames

/-- What litestream sees. -/
def db : DB where
  pageSize := ps.size
  file := s.file.flatMap Page.data
  wal := some s.walFile
  l0 := s.l0
  syncedToWALEnd := s.syncedToWALEnd
  lastSyncedWALOffset := s.lastSyncedWALOffset

/-- The database as SQLite reads it. -/
def committed : Store UInt32 Bytes := Litestream.committed s.file s.wal

/-- Whether the next writer may restart the WAL. -/
def restartable : Bool :=
  match s.wal with
  | none => true
  | some w => decide (s.nBackfill = w.cur.length) && !s.readLock

/-- Whether the last level 0 file was read up to the end of the WAL. -/
def upToDate : Bool :=
  match s.wal, s.l0.getLast? with
  | none, _ => true
  | some _, none => false
  | some w, some ltx =>
      decide (ltx.salt = w.header.salt ∧ ltx.walEnd = Wal.offsetOf ps w.cur.length)

end State

/-! ## The parts of a step -/

variable (lockPgno : UInt32 → UInt32)

/-- The transaction does not write the lock page, and it writes every page that it adds to
`n` pages. -/
def Commit.Extends (c : Commit ps) (n : UInt32) : Prop :=
  (∀ w ∈ c.pages, w.1 ≠ lockPgno ps.toUInt32) ∧
    ∀ p ∈ DB.pageNumbers (lockPgno ps.toUInt32) c.size, n < p → p ∈ c.pages.map Prod.fst

-- Otherwise the search may find the enumeration of all words.
instance (c : Commit ps) (n : UInt32) : Decidable (c.Extends lockPgno n) :=
  have := List.decidableBAll (fun w => w.1 ≠ lockPgno ps.toUInt32) c.pages
  have := List.decidableBAll (fun p => n < p → p ∈ c.pages.map Prod.fst)
    (DB.pageNumbers (lockPgno ps.toUInt32) c.size)
  instDecidableAnd

/-- The size of a file of so many frames is an `int64`. -/
def Fits (ps : PageSize) (n : Nat) : Prop := Wal.offsetOf ps n < 2 ^ 63

instance (n : Nat) : Decidable (Fits ps n) := inferInstanceAs (Decidable (_ < _))

namespace State

/-- Commits a transaction, in the current generation of the WAL or with the header of the
next one. -/
def write (s : State ps) (c : Commit ps) (restart : Option WalHeader) : Option (State ps) :=
  if c.Extends lockPgno s.committed.size then
    match restart with
    | none =>
        match s.wal with
        | none => none
        | some w =>
            if Fits ps (w.append c).frames.length then
              some { s with wal := some (w.append c) }
            else none
    | some header =>
        if h : header.salt ∉ s.salts ∧ ∀ f ∈ s.frames, f.salt ≠ header.salt then
          let w := Wal.start header c s.frames h.2
          if s.restartable = true ∧ Fits ps w.frames.length then
            some { s with
              wal := some w
              nBackfill := 0
              salts := header.salt :: s.salts
              missed := s.missed || !s.upToDate }
          else none
        else none
  else none

/-- Copies the first `k` frames of the current generation to the database file. -/
def walCheckpoint (s : State ps) (mode : CheckpointMode) (k : Nat) : Option (State ps) :=
  match s.wal with
  | none => some s
  | some w =>
      if s.nBackfill ≤ k ∧ k < w.cur.length ∧ mode = .passive then
        some { s with file := backfill s.file (w.cur.take k), nBackfill := k }
      else if k = w.cur.length then
        let file := resize (backfill s.file w.cur) w.commit.toNat
        match mode with
        | .passive => some { s with file := file, nBackfill := k }
        | .truncate =>
            some { s with
              file := file
              wal := none
              nBackfill := 0
              missed := s.missed || !s.upToDate }
      else none

/-- Verifies and syncs.  After an error the sync or the checkpoint ends. -/
def verifyAndSync (s : State ps) (next : Phase) : State ps :=
  match s.db.verifyAndSync lockPgno with
  | (res, db) =>
      { s with
        l0 := db.l0
        syncedToWALEnd := db.syncedToWALEnd
        lastSyncedWALOffset := db.lastSyncedWALOffset
        phase := match res with
          | .ok _ => next
          | .error _ => .idle
        missed := s.missed && decide (db.l0.length = s.l0.length) }

end State

/-! ## Steps -/

inductive Action (ps : PageSize) where
  /-- An application commits. -/
  | commit (c : Commit ps) (restart : Option WalHeader)
  /-- `Sync` writes to the database if the WAL has no header. -/
  | ensureWALExists (c : Commit ps) (header : WalHeader)
  | sync
  | readWALHeader
  /-- The sync before the checkpoint. -/
  | syncBefore
  | releaseReadLock
  | walCheckpoint (mode : CheckpointMode) (k : Nat)
  | acquireReadLock (readLock : Bool)
  /-- The write to `_litestream_seq`. -/
  | writeSeq (c : Commit ps) (restart : Option WalHeader)
  | compareHeader
  /-- The write to `_litestream_lock`. -/
  | lock
  /-- The sync after the checkpoint. -/
  | syncAfter
  | rollback
  /-- The checkpoint stops with an error. -/
  | fail

/-- The actions that verify and sync. -/
def Action.Syncs : Action ps → Prop
  | .sync | .syncBefore | .syncAfter => True
  | _ => False

def step (s : State ps) : Action ps → Option (State ps)
  | .commit c restart =>
      match s.phase with
      | .locked | .copied => none
      | _ => s.write lockPgno c restart
  | .ensureWALExists c header =>
      match s.phase, s.wal with
      | .idle, some _ => some { s with phase := .ensured }
      | .idle, none =>
          (s.write lockPgno c (some header)).map fun s => { s with phase := .ensured }
      | _, _ => none
  | .sync =>
      match s.phase with
      | .ensured => some (s.verifyAndSync lockPgno .idle)
      | _ => none
  | .readWALHeader =>
      match s.phase, readWALHeader s.walFile with
      | .idle, some hdr => some { s with phase := .started hdr }
      | _, _ => none
  | .syncBefore =>
      match s.phase with
      | .started hdr => some (s.verifyAndSync lockPgno (.synced hdr))
      | _ => none
  | .releaseReadLock =>
      match s.phase with
      | .synced hdr => some { s with phase := .released hdr, readLock := false }
      | _ => none
  | .walCheckpoint mode k =>
      match s.phase with
      | .released hdr =>
          (s.walCheckpoint mode k).map fun s => { s with phase := .checkpointed hdr }
      | _ => none
  | .acquireReadLock readLock =>
      if readLock = false ∧ s.restartable = false then none
      else
        match s.phase with
        | .checkpointed hdr => some { s with phase := .reacquired hdr, readLock := readLock }
        | .failed => some { s with phase := .idle, readLock := readLock }
        | _ => none
  | .writeSeq c restart =>
      match s.phase with
      | .reacquired hdr =>
          (s.write lockPgno c restart).map fun s => { s with phase := .written hdr }
      | _ => none
  | .compareHeader =>
      match s.phase, readWALHeader s.walFile with
      | .written hdr, some other =>
          some { s with phase := if hdr = other then .idle else .restarted }
      | _, _ => none
  | .lock =>
      match s.phase with
      | .restarted => some { s with phase := .locked }
      | _ => none
  | .syncAfter =>
      match s.phase with
      | .locked => some (s.verifyAndSync lockPgno .copied)
      | _ => none
  | .rollback =>
      match s.phase with
      | .copied => some { s with phase := .idle }
      | _ => none
  | .fail =>
      match s.phase with
      | .idle => none
      | .released _ => some { s with phase := .failed }
      | _ => some { s with phase := .idle }

/-! ## What a step can do -/

variable {lockPgno}

/-- What committing does to the WAL. -/
inductive State.Writes (lockPgno : UInt32 → UInt32) (s : State ps) (c : Commit ps) :
    Option WalHeader → State ps → Prop
  | append (w : Wal ps) (wal : s.wal = some w) (grows : c.Extends lockPgno s.committed.size)
      (fits : Fits ps (w.append c).frames.length) :
      s.Writes lockPgno c none { s with wal := some (w.append c) }
  | start (header : WalHeader) (grows : c.Extends lockPgno s.committed.size)
      (fresh : header.salt ∉ s.salts) (hold : ∀ f ∈ s.frames, f.salt ≠ header.salt)
      (restartable : s.restartable = true)
      (fits : Fits ps (Wal.start header c s.frames hold).frames.length) :
      s.Writes lockPgno c (some header)
        { s with
          wal := some (Wal.start header c s.frames hold)
          nBackfill := 0
          salts := header.salt :: s.salts
          missed := s.missed || !s.upToDate }

theorem State.writes_of_write {s m : State ps} {c : Commit ps} {restart : Option WalHeader}
    (h : s.write lockPgno c restart = some m) : s.Writes lockPgno c restart m := by
  unfold write at h
  split at h
  · next hc =>
      split at h
      · split at h
        · cases h
        · next w hw =>
            split at h
            · next hfits =>
                cases h
                exact .append w hw hc hfits
            · cases h
      · next header =>
          split at h
          · next hfresh =>
              simp only at h
              split at h
              · next hstart =>
                  cases h
                  exact .start header hc hfresh.1 hfresh.2 hstart.1 hstart.2
              · cases h
          · cases h
  · cases h

/-- What a `PRAGMA` that copies `k` frames does to the database file and the WAL. -/
inductive State.Copies (s : State ps) (k : Nat) : State ps → Prop
  | nothing (wal : s.wal = none) : s.Copies k s
  | part (w : Wal ps) (wal : s.wal = some w) (lt : k < w.cur.length) :
      s.Copies k { s with file := backfill s.file (w.cur.take k), nBackfill := k }
  | full (w : Wal ps) (wal : s.wal = some w) (eq : k = w.cur.length) :
      s.Copies k
        { s with file := resize (backfill s.file w.cur) w.commit.toNat, nBackfill := k }
  | truncate (w : Wal ps) (wal : s.wal = some w) (eq : k = w.cur.length) :
      s.Copies k
        { s with
          file := resize (backfill s.file w.cur) w.commit.toNat
          wal := none
          nBackfill := 0
          missed := s.missed || !s.upToDate }

theorem State.copies_of_walCheckpoint {s m : State ps} {mode : CheckpointMode} {k : Nat}
    (h : s.walCheckpoint mode k = some m) : s.Copies k m := by
  unfold walCheckpoint at h
  split at h
  · next hw =>
      cases h
      exact .nothing hw
  · next w hw =>
      split at h
      · next hk =>
          cases h
          exact .part w hw hk.2.1
      · split at h
        · next hk =>
            cases mode with
            | passive =>
                cases h
                exact .full w hw hk
            | truncate =>
                cases h
                exact .truncate w hw hk
        · cases h

/-- What an action commits. -/
def Action.commits (s : State ps) : Action ps → Option (Commit ps × Option WalHeader)
  | .commit c restart | .writeSeq c restart => some (c, restart)
  | .ensureWALExists c header => if s.wal.isNone then some (c, some header) else none
  | _ => none

/-- The changes that a step can make. -/
inductive State.Moves (lockPgno : UInt32 → UInt32) (s : State ps) (a : Action ps)
    (s' : State ps) : Prop
  | quiet (p : Phase) (r : Bool) (eq : s' = { s with phase := p, readLock := r })
  | write (c : Commit ps) (restart : Option WalHeader) (m : State ps) (p : Phase)
      (commits : a.commits s = some (c, restart)) (writes : s.Writes lockPgno c restart m)
      (eq : s' = { m with phase := p })
  | copy (mode : CheckpointMode) (k : Nat) (m : State ps) (p : Phase)
      (action : a = .walCheckpoint mode k) (copies : s.Copies k m)
      (eq : s' = { m with phase := p })
  | sync (p : Phase) (syncs : a.Syncs) (eq : s' = s.verifyAndSync lockPgno p)

theorem step_moves {s s' : State ps} {a : Action ps} (h : step lockPgno s a = some s') :
    s.Moves lockPgno a s' := by
  cases a with
  | commit c restart =>
      simp only [step] at h
      split at h
      · cases h
      · cases h
      · exact .write c restart s' s'.phase rfl (State.writes_of_write h) rfl
  | ensureWALExists c header =>
      simp only [step] at h
      split at h
      · cases h
        exact .quiet .ensured s.readLock rfl
      · next hw =>
          obtain ⟨m, hm, rfl⟩ := Option.map_eq_some_iff.mp h
          exact .write c (some header) m .ensured (by rw [Action.commits, hw]; rfl)
            (State.writes_of_write hm) rfl
      · cases h
  | sync =>
      simp only [step] at h
      split at h
      · cases h
        exact .sync .idle trivial rfl
      · cases h
  | readWALHeader =>
      simp only [step] at h
      split at h
      · next hdr _ _ =>
          cases h
          exact .quiet (.started hdr) s.readLock rfl
      · cases h
  | syncBefore =>
      simp only [step] at h
      split at h
      · next hdr _ =>
          cases h
          exact .sync (.synced hdr) trivial rfl
      · cases h
  | releaseReadLock =>
      simp only [step] at h
      split at h
      · next hdr _ =>
          cases h
          exact .quiet (.released hdr) false rfl
      · cases h
  | walCheckpoint mode k =>
      simp only [step] at h
      split at h
      · next hdr _ =>
          obtain ⟨m, hm, rfl⟩ := Option.map_eq_some_iff.mp h
          exact .copy mode k m (.checkpointed hdr) rfl (State.copies_of_walCheckpoint hm) rfl
      · cases h
  | acquireReadLock readLock =>
      simp only [step] at h
      split at h
      · cases h
      · split at h
        · next hdr _ =>
            cases h
            exact .quiet (.reacquired hdr) readLock rfl
        · cases h
          exact .quiet .idle readLock rfl
        · cases h
  | writeSeq c restart =>
      simp only [step] at h
      split at h
      · next hdr _ =>
          obtain ⟨m, hm, rfl⟩ := Option.map_eq_some_iff.mp h
          exact .write c restart m (.written hdr) rfl (State.writes_of_write hm) rfl
      · cases h
  | compareHeader =>
      simp only [step] at h
      split at h
      · next hdr other _ _ =>
          cases h
          exact .quiet (if hdr = other then .idle else .restarted) s.readLock rfl
      · cases h
  | lock =>
      simp only [step] at h
      split at h
      · cases h
        exact .quiet .locked s.readLock rfl
      · cases h
  | syncAfter =>
      simp only [step] at h
      split at h
      · cases h
        exact .sync .copied trivial rfl
      · cases h
  | rollback =>
      simp only [step] at h
      split at h
      · cases h
        exact .quiet .idle s.readLock rfl
      · cases h
  | fail =>
      simp only [step] at h
      split at h
      · cases h
      · cases h
        exact .quiet .failed s.readLock rfl
      · cases h
        exact .quiet .idle s.readLock rfl

end Litestream
