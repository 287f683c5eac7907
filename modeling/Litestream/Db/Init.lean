import Mathlib
import Litestream.Lib.Run

/-!
# Initialising a database

`DB.init` opens a SQL handle and a file, takes the read lock and starts replication.  A sync runs
it as long as there is no SQL handle.  An initialisation that fails has to leave no handle behind
(`Retries`), and for the steps behind the opening of the file a deferred function sees to that.

The SQL handle is set two steps earlier.  `retries_iff` says that in a run of syncs and closes
every failed initialisation is retried exactly when none of them fails in those two steps.

What the operating system and SQLite answer is part of the actions.
-/

namespace Litestream

namespace Init

/-! ## The database -/

/-- What an operation of the operating system, of SQLite or of the replica fails with. -/
inductive SysError where
  | notExist
  | other (message : String)
deriving DecidableEq, Repr

/-- The handles that `init` opens, each with a number of its own. -/
inductive Handle where
  | sql (n : Nat)
  | file (n : Nat)
deriving DecidableEq, Repr

/-- `rtx` says that the long-running read transaction is open, `handles` are the open handles. -/
structure DB where
  replica : Bool
  db : Option Handle
  f : Option Handle
  rtx : Bool
  pageSize : Int
  fileInfo : Option Nat
  dirInfo : Option Nat
  started : Bool
  next : Nat
  handles : List Handle
deriving DecidableEq, Repr

/-- A database before its first sync. -/
def DB.new (replica : Bool) : DB := ⟨replica, none, none, false, 0, none, none, false, 0, []⟩

/-- What the calls of `init` answer. -/
structure Env where
  /-- The mode of the database file. -/
  stat : Except SysError Nat
  /-- The mode of its directory. -/
  statDir : Except SysError Nat
  sqlOpen : Except SysError Unit
  setPersistWAL : Except SysError Unit
  openFile : Except SysError Unit
  journalMode : Except SysError String
  createSeqTable : Except SysError Unit
  createLockTable : Except SysError Unit
  beginTx : Except SysError Unit
  selectSeq : Except SysError Unit
  pageSize : Except SysError Int
  mkdirAll : Except SysError Unit
  ensureWALExists : Except SysError Unit
  checkDatabaseBehindReplica : Except SysError Unit
deriving Repr

inductive InitCall where
  | stat
  | statDir
  | sqlOpen
  | setPersistWAL
  | openFile
  | journalMode
  | createSeqTable
  | createLockTable
  | beginTx
  | selectSeq
  | pageSize
  | mkdirAll
  | ensureWALExists
  | checkDatabaseBehindReplica
  | startReplica
deriving DecidableEq, Repr

inductive InitError where
  | sys (err : SysError)
  | setPersistWAL (err : SysError)
  | openFile (err : SysError)
  | enableWAL (mode : String)
  | createSeqTable (err : SysError)
  | createLockTable (err : SysError)
  | acquireReadLock (err : SysError)
  | readPageSize (err : SysError)
  | invalidPageSize (pageSize : Int)
  | ensureWALExists (err : SysError)
  | checkDatabaseBehindReplica (err : SysError)
deriving DecidableEq, Repr

/-- The calls that an initialisation makes, its error, and the database that it leaves. -/
structure Result where
  calls : List InitCall
  err : Option InitError
  db : DB
deriving DecidableEq, Repr

/-- Makes a call, and goes on if it succeeds. -/
def attempt {α : Type} (call : InitCall) (outcome : Except SysError α)
    (wrap : SysError → InitError) (db : DB) (next : α → Result) : Result :=
  match outcome with
  | .error err => ⟨[call], some (wrap err), db⟩
  | .ok a => { next a with calls := call :: (next a).calls }

/-! ## The initialisation -/

/-- Begins the read transaction, unless there is one. -/
def acquireReadLock (env : Env) (db : DB) (next : DB → Result) : Result :=
  if db.rtx then next db
  else
    attempt .beginTx env.beginTx .acquireReadLock db fun _ =>
    attempt .selectSeq env.selectSeq .acquireReadLock db fun _ =>
    next { db with rtx := true }

def releaseReadLock (db : DB) : DB := { db with rtx := false }

/-- Closes a handle. -/
def DB.close (db : DB) : Option Handle → DB
  | none => db
  | some handle => { db with handles := db.handles.erase handle }

/-- Closes the handles that are set. -/
def DB.closeHandles (db : DB) : DB :=
  let db := db.close db.db
  let db := db.close db.f
  { db with db := none, f := none }

/-- The deferred function of an initialisation that fails. -/
def DB.cleanup (db : DB) : DB := (releaseReadLock db).closeHandles

/-- The steps from reading the page size on. -/
def initLocked (env : Env) (db : DB) : Result :=
  attempt .pageSize env.pageSize .readPageSize db fun pageSize =>
  let db := { db with pageSize := pageSize }
  if pageSize ≤ 0 then ⟨[], some (.invalidPageSize pageSize), db⟩ else
  attempt .mkdirAll env.mkdirAll .sys db fun _ =>
  attempt .ensureWALExists env.ensureWALExists .ensureWALExists db fun _ =>
  if db.replica then
    attempt .checkDatabaseBehindReplica env.checkDatabaseBehindReplica .checkDatabaseBehindReplica
      db fun _ =>
    ⟨[.startReplica], none, { db with started := true }⟩
  else ⟨[], none, db⟩

/-- The steps behind the deferred function. -/
def initOpened (env : Env) (db : DB) : Result :=
  attempt .journalMode env.journalMode .sys db fun mode =>
  if mode ≠ "wal" then ⟨[], some (.enableWAL mode), db⟩ else
  attempt .createSeqTable env.createSeqTable .createSeqTable db fun _ =>
  attempt .createLockTable env.createLockTable .createLockTable db fun _ =>
  acquireReadLock env db (initLocked env)

/-- Runs the steps behind the deferred function, and the function if they fail. -/
def initDeferred (env : Env) (db : DB) : Result :=
  let result := initOpened env db
  if result.err.isSome then { result with db := result.db.cleanup } else result

/-- Sets the SQL handle. -/
def DB.openSQL (db : DB) : DB :=
  { db with db := some (.sql db.next), next := db.next + 1, handles := .sql db.next :: db.handles }

/-- Sets the file. -/
def DB.openFile (db : DB) : DB :=
  { db with f := some (.file db.next), next := db.next + 1, handles := .file db.next :: db.handles }

/-- Initialises a database that exists, unless it is initialised. -/
def init (env : Env) (db : DB) : Result :=
  if db.db.isSome then ⟨[], none, db⟩
  else
    match env.stat with
    | .error .notExist => ⟨[.stat], none, db⟩
    | .error err => ⟨[.stat], some (.sys err), db⟩
    | .ok fileInfo =>
        let result :=
          attempt .statDir env.statDir .sys { db with fileInfo := some fileInfo } fun dirInfo =>
          let db := { db with fileInfo := some fileInfo, dirInfo := some dirInfo }
          attempt .sqlOpen env.sqlOpen .sys db fun _ =>
          attempt .setPersistWAL env.setPersistWAL .setPersistWAL db.openSQL fun _ =>
          attempt .openFile env.openFile .openFile db.openSQL fun _ =>
          initDeferred env db.openSQL.openFile
        { result with calls := .stat :: result.calls }

/-! ## Runs -/

/-- A sync and `CRC64` initialise the database, and what follows may leave another read lock.
A close closes the handles that are set. -/
inductive Action where
  | sync (env : Env) (rtx : Bool)
  | close
deriving Repr

/-- What a sync does behind the initialisation.  It is given up without a database. -/
def afterInit (rtx : Bool) (result : Result) : DB :=
  if result.err.isSome ∨ result.db.db = none then result.db else { result.db with rtx := rtx }

/-- The final sync of `Close` does not initialise the database. -/
def close (db : DB) : DB := (releaseReadLock db).closeHandles

def step (db : DB) : Action → Option DB
  | .sync env rtx => some (afterInit rtx (init env db))
  | .close => some (close db)

/-- No handle is set, and none is open. -/
structure Uninitialised (s : DB) : Prop where
  db : s.db = none
  f : s.f = none
  rtx : s.rtx = false
  handles : s.handles = []

/-- If an initialisation fails, the database is not initialised, and the next one makes the
calls that it makes for a new database. -/
def Retries (db : DB) : Action → Prop
  | .sync env _ => (init env db).err ≠ none →
      Uninitialised (init env db).db ∧ ∀ env',
        (init env' (init env db).db).calls = (init env' (DB.new db.replica)).calls
  | .close => True

/-- The answers of setting persistent WAL and of opening the file are no errors, if the
initialisation gets that far. -/
def Env.Guarded (env : Env) : Prop :=
  env.stat.isOk → env.statDir.isOk → env.sqlOpen.isOk →
    env.setPersistWAL.isOk ∧ env.openFile.isOk

/-- The database is initialised already, or it gets good answers. -/
def Guarded (db : DB) : Action → Prop
  | .sync env _ => db.db = none → env.Guarded
  | .close => True

/-! ## What one call keeps -/

variable {α : Type} {call : InitCall} {outcome : Except SysError α} {wrap : SysError → InitError}
  {db db' : DB} {env : Env}

/-- The handles of the second database are those of the first. -/
structure SameHandles (s s' : DB) : Prop where
  replica : s'.replica = s.replica
  db : s'.db = s.db
  f : s'.f = s.f
  handles : s'.handles = s.handles

theorem SameHandles.refl (db : DB) : SameHandles db db := ⟨rfl, rfl, rfl, rfl⟩

theorem attempt_sameHandles {next : α → Result} (hdb : SameHandles db db')
    (hnext : ∀ a, SameHandles db (next a).db) :
    SameHandles db (attempt call outcome wrap db' next).db := by
  cases outcome with
  | error err => exact hdb
  | ok a => exact hnext a

theorem attempt_calls {next next' : α → Result} (h : ∀ a, (next a).calls = (next' a).calls) :
    (attempt call outcome wrap db next).calls = (attempt call outcome wrap db' next').calls := by
  cases outcome with
  | error err => rfl
  | ok a => exact congrArg (call :: ·) (h a)

theorem initLocked_sameHandles (h : SameHandles db db') :
    SameHandles db (initLocked env db').db := by
  obtain ⟨hreplica, hdb, hf, hhandles⟩ := h
  refine attempt_sameHandles ⟨hreplica, hdb, hf, hhandles⟩ fun pageSize => ?_
  dsimp only
  split
  · exact ⟨hreplica, hdb, hf, hhandles⟩
  refine attempt_sameHandles ⟨hreplica, hdb, hf, hhandles⟩ fun _ =>
    attempt_sameHandles ⟨hreplica, hdb, hf, hhandles⟩ fun _ => ?_
  split
  · exact attempt_sameHandles ⟨hreplica, hdb, hf, hhandles⟩
      fun _ => ⟨hreplica, hdb, hf, hhandles⟩
  · exact ⟨hreplica, hdb, hf, hhandles⟩

theorem initOpened_sameHandles (env : Env) (db : DB) :
    SameHandles db (initOpened env db).db := by
  refine attempt_sameHandles (.refl db) fun mode => ?_
  split
  · exact .refl db
  refine attempt_sameHandles (.refl db) fun _ => attempt_sameHandles (.refl db) fun _ => ?_
  rw [acquireReadLock]
  split
  · exact initLocked_sameHandles (.refl db)
  · exact attempt_sameHandles (.refl db) fun _ => attempt_sameHandles (.refl db) fun _ =>
      initLocked_sameHandles ⟨rfl, rfl, rfl, rfl⟩

theorem initLocked_calls (h : db.replica = db'.replica) :
    (initLocked env db).calls = (initLocked env db').calls := by
  refine attempt_calls fun pageSize => ?_
  dsimp only
  split
  · rfl
  refine attempt_calls fun _ => attempt_calls fun _ => ?_
  rw [h]
  split
  · exact attempt_calls fun _ => rfl
  · rfl

theorem initOpened_calls (hreplica : db.replica = db'.replica) (hrtx : db.rtx = db'.rtx) :
    (initOpened env db).calls = (initOpened env db').calls := by
  refine attempt_calls fun mode => ?_
  split
  · rfl
  refine attempt_calls fun _ => attempt_calls fun _ => ?_
  rw [acquireReadLock, acquireReadLock, hrtx]
  split
  · exact initLocked_calls hreplica
  · exact attempt_calls fun _ => attempt_calls fun _ => initLocked_calls hreplica

theorem initDeferred_calls (env : Env) (db : DB) :
    (initDeferred env db).calls = (initOpened env db).calls := by
  rw [initDeferred]
  split <;> rfl

/-- Databases without a SQL handle are initialised by the same calls. -/
theorem init_calls (hdb : db.db = none) (hdb' : db'.db = none)
    (hreplica : db.replica = db'.replica) (hrtx : db.rtx = db'.rtx) :
    (init env db).calls = (init env db').calls := by
  rw [init, init, if_neg (by simp [hdb]), if_neg (by simp [hdb'])]
  cases env.stat with
  | error err =>
      cases err with
      | notExist => rfl
      | other message => rfl
  | ok fileInfo =>
      refine congrArg (InitCall.stat :: ·) ?_
      refine attempt_calls fun _ => attempt_calls fun _ => attempt_calls fun _ =>
        attempt_calls fun _ => ?_
      rw [initDeferred_calls, initDeferred_calls]
      exact initOpened_calls hreplica hrtx

/-! ## Handles -/

/-- Both handles are set, and no other is open. -/
structure Initialised (s : DB) : Prop where
  handles : ∃ n m, s.db = some (.sql n) ∧ s.f = some (.file m) ∧
    s.handles = [.file m, .sql n]

theorem close_replica (db : DB) (handle : Option Handle) :
    (db.close handle).replica = db.replica := by
  cases handle <;> rfl

theorem closeHandles_replica (db : DB) : db.closeHandles.replica = db.replica :=
  (close_replica _ _).trans (close_replica _ _)

theorem Initialised.cleanup (h : Initialised db) : Uninitialised db.cleanup := by
  obtain ⟨n, m, hdb, hf, hhandles⟩ := h.handles
  refine ⟨rfl, rfl, ?_, ?_⟩ <;>
    simp [DB.cleanup, releaseReadLock, DB.closeHandles, DB.close, hdb, hf, hhandles]

theorem Uninitialised.cleanup (h : Uninitialised db) : Uninitialised db.cleanup := by
  refine ⟨rfl, rfl, ?_, ?_⟩ <;>
    simp [DB.cleanup, releaseReadLock, DB.closeHandles, DB.close, h.db, h.f, h.handles]

theorem SameHandles.initialised (hsame : SameHandles db db') (h : Initialised db) :
    Initialised db' := by
  obtain ⟨n, m, hdb, hf, hhandles⟩ := h.handles
  exact ⟨n, m, hsame.db.trans hdb, hsame.f.trans hf, hsame.handles.trans hhandles⟩

/-- The steps behind the deferred function keep both handles or close both. -/
theorem initDeferred_handles (h : Initialised db) :
    (initDeferred env db).db.replica = db.replica ∧
      if (initDeferred env db).err.isSome then Uninitialised (initDeferred env db).db
      else Initialised (initDeferred env db).db := by
  have hsame := initOpened_sameHandles env db
  rw [initDeferred]
  by_cases herr : (initOpened env db).err.isSome
  · rw [if_pos herr, if_pos herr]
    exact ⟨(closeHandles_replica _).trans hsame.replica, (hsame.initialised h).cleanup⟩
  · rw [if_neg herr, if_neg herr]
    exact ⟨hsame.replica, hsame.initialised h⟩

theorem Uninitialised.open (h : Uninitialised db) : Initialised db.openSQL.openFile :=
  ⟨_, _, rfl, rfl, by simp [DB.openFile, DB.openSQL, h.handles]⟩

/-- What an initialisation with good answers leaves. -/
theorem init_guarded (h : Uninitialised db) (hguard : env.Guarded) :
    (init env db).db.replica = db.replica ∧
      (Uninitialised (init env db).db ∨
        (init env db).err = none ∧ Initialised (init env db).db) := by
  obtain ⟨hdb, hf, hrtx, hhandles⟩ := h
  rw [init, if_neg (by simp [hdb])]
  rw [Env.Guarded] at hguard
  cases hstat : env.stat with
  | error err =>
      cases err with
      | notExist => exact ⟨rfl, .inl ⟨hdb, hf, hrtx, hhandles⟩⟩
      | other message => exact ⟨rfl, .inl ⟨hdb, hf, hrtx, hhandles⟩⟩
  | ok fileInfo =>
      cases hdir : env.statDir with
      | error err => exact ⟨rfl, .inl ⟨hdb, hf, hrtx, hhandles⟩⟩
      | ok dirInfo =>
          cases hopen : env.sqlOpen with
          | error err => exact ⟨rfl, .inl ⟨hdb, hf, hrtx, hhandles⟩⟩
          | ok =>
              rw [hstat, hdir, hopen] at hguard
              obtain ⟨hpersist, hfile⟩ := hguard rfl rfl rfl
              cases hset : env.setPersistWAL with
              | error err =>
                  rw [hset] at hpersist
                  cases hpersist
              | ok =>
                  cases hfd : env.openFile with
                  | error err =>
                      rw [hfd] at hfile
                      cases hfile
                  | ok =>
                      have huninit : Uninitialised { db with
                          fileInfo := some fileInfo, dirInfo := some dirInfo } :=
                        ⟨hdb, hf, hrtx, hhandles⟩
                      obtain ⟨hreplica, hhandles⟩ :=
                        @initDeferred_handles _ env huninit.open
                      refine ⟨hreplica, ?_⟩
                      split at hhandles
                      · exact .inl hhandles
                      · next hnone => exact .inr ⟨Option.not_isSome_iff_eq_none.mp hnone, hhandles⟩

/-- A failure between the opening of the SQL handle and that of the file leaves the handle. -/
theorem init_unguarded (h : Uninitialised db) (hguard : ¬ env.Guarded) :
    (init env db).err ≠ none ∧ (init env db).db.db ≠ none := by
  rw [Env.Guarded] at hguard
  push Not at hguard
  obtain ⟨hstat, hdir, hopen, hfail⟩ := hguard
  rw [init, if_neg (by simp [h.db])]
  cases hstat' : env.stat with
  | error err =>
      rw [hstat'] at hstat
      cases hstat
  | ok fileInfo =>
      cases hdir' : env.statDir with
      | error err =>
          rw [hdir'] at hdir
          cases hdir
      | ok dirInfo =>
          cases hopen' : env.sqlOpen with
          | error err =>
              rw [hopen'] at hopen
              cases hopen
          | ok =>
              cases hset : env.setPersistWAL with
              | error err => exact ⟨by simp [attempt], by simp [attempt, DB.openSQL]⟩
              | ok =>
                  cases hfd : env.openFile with
                  | error err => exact ⟨by simp [attempt], by simp [attempt, DB.openSQL]⟩
                  | ok => exact absurd (by rw [hfd]; rfl) (hfail (by rw [hset]; rfl))

/-- An initialised database is not initialised again. -/
theorem init_of_some (h : db.db ≠ none) : init env db = ⟨[], none, db⟩ :=
  if_pos (Option.isSome_iff_ne_none.mpr h)

/-! ## Runs -/

/-- No handle or both. -/
def Inv (db : DB) : Prop := Uninitialised db ∨ Initialised db

theorem Initialised.db_ne (h : Initialised db) : db.db ≠ none := by
  obtain ⟨n, m, hdb, -⟩ := h.handles
  simp [hdb]

theorem retries_iff_guarded (h : Inv db) {a : Action} : Retries db a ↔ Guarded db a := by
  cases a with
  | close => exact Iff.rfl
  | sync env rtx =>
      rcases h with h | h
      · constructor
        · intro hretries _
          by_contra hguard
          obtain ⟨herr, hdb⟩ := init_unguarded h hguard
          exact hdb (hretries herr).1.db
        · intro hguard herr
          obtain ⟨hreplica, huninit | ⟨hnone, -⟩⟩ := init_guarded h (hguard h.db)
          · exact ⟨huninit, fun env' => init_calls huninit.db rfl hreplica huninit.rtx⟩
          · exact absurd hnone herr
      · constructor
        · exact fun _ hnone => absurd hnone h.db_ne
        · intro _ herr
          rw [init_of_some h.db_ne] at herr
          exact absurd rfl herr

theorem step_inv {a : Action} (h : Inv db) (hguard : Guarded db a)
    (hstep : step db a = some db') : Inv db' := by
  cases a with
  | close =>
      obtain rfl := Option.some.inj hstep
      rcases h with h | h
      · exact .inl h.cleanup
      · exact .inl h.cleanup
  | sync env rtx =>
      obtain rfl := Option.some.inj hstep
      have hrtx : ∀ s : DB, Initialised s → Inv { s with rtx := rtx } :=
        fun s hs => .inr ⟨hs.handles⟩
      rw [afterInit]
      rcases h with h | h
      · obtain ⟨-, huninit | ⟨-, hinit⟩⟩ := init_guarded h (hguard h.db)
        · rw [if_pos (.inr huninit.db)]
          exact .inl huninit
        · split
          · exact .inr hinit
          · exact hrtx _ hinit
      · rw [init_of_some h.db_ne, if_neg (by simp [h.db_ne])]
        exact hrtx _ h

theorem new_inv (replica : Bool) : Inv (DB.new replica) := .inl ⟨rfl, rfl, rfl, rfl⟩

/-- In a run of syncs and closes every failed initialisation is retried from the start exactly
when none fails in setting persistent WAL or in opening the file. -/
theorem retries_iff (replica : Bool) (as : List Action) :
    Run.Along step Retries (DB.new replica) as ↔ Run.Along step Guarded (DB.new replica) as :=
  Run.along_congr (fun h hretries => step_inv h ((retries_iff_guarded h).mp hretries))
    (fun h => retries_iff_guarded h) (new_inv replica)

/-- Answers that are no errors. -/
def Env.good : Env :=
  { stat := .ok 0o644, statDir := .ok 0o755, sqlOpen := .ok (), setPersistWAL := .ok ()
    openFile := .ok (), journalMode := .ok "wal", createSeqTable := .ok ()
    createLockTable := .ok (), beginTx := .ok (), selectSeq := .ok (), pageSize := .ok 4096
    mkdirAll := .ok (), ensureWALExists := .ok (), checkDatabaseBehindReplica := .ok () }

/-- Setting persistent WAL fails because the database is locked. -/
theorem not_retries :
    ¬ ∀ (replica : Bool) (as : List Action), Run.Along step Retries (DB.new replica) as := by
  intro h
  have hretries := (h true [.sync { Env.good with setPersistWAL := .error (.other "locked") }
    true]).1
  exact absurd (hretries (by decide)).1.db (by decide)

end Init

end Litestream
