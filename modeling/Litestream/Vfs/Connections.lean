import Litestream.Vfs.FlatFile

/-!
# The connections of a virtual file system

The connections of one `VFS` are `VFSFile`s that share its writer slot `writeFile` and the
newest TXID that one of them has synced.  A connection takes the slot with a RESERVED lock
and gives it back when it unlocks.

Writes of a connection are enabled and disabled at run time.  Disabling waits for the
transaction of the connection to end, and while it waits a new RESERVED lock waits too.  The
wait ends early when the context is cancelled or the time is up.  Then the dirty pages are
synced, and if that fails the writes stay enabled.

A call runs with the mutex of its connection, which it gives up only to wait, so a call up
to a wait and from a wait on is one step.
-/

namespace Litestream

namespace Vfs

open Overlay

variable {ps : PageSize}

/-! ## Uploads -/

/-- Stores a file.  A file of the same name is replaced. -/
def Replica.write (replica : Replica ps) (file : LTXFile ps) : Replica ps where
  level n :=
    if n = file.info.level then
      if replica.Fresh file then replica.level n ++ [file]
      else (replica.level n).map fun g =>
        if (g.minTXID, g.maxTXID) = (file.minTXID, file.maxTXID) then file else g
    else replica.level n
  level_eq n g hg := by
    split at hg
    · next heq =>
        split at hg
        · rcases List.mem_append.mp hg with hg | hg
          · exact replica.level_eq n g hg
          · rw [List.mem_singleton.mp hg, heq]
        · obtain ⟨old, hold, rfl⟩ := List.mem_map.mp hg
          split
          · exact heq.symm
          · exact replica.level_eq n old hold
    · exact replica.level_eq n g hg
  names_nodup n := by
    split
    · next heq =>
        split
        · next hfresh =>
            rw [List.map_append, List.nodup_append]
            refine ⟨replica.names_nodup n, by simp, fun a ha b hb hab => ?_⟩
            obtain rfl : b = (file.minTXID, file.maxTXID) := by simpa using hb
            rw [heq, hab] at ha
            exact hfresh ha
        · have hnames : ((replica.level n).map fun g =>
              if (g.minTXID, g.maxTXID) = (file.minTXID, file.maxTXID) then file else g).map
                (fun g => (g.minTXID, g.maxTXID)) =
              (replica.level n).map fun g => (g.minTXID, g.maxTXID) := by
            rw [List.map_map]
            refine List.map_congr_left fun g _ => ?_
            dsimp only [Function.comp_apply]
            split
            · next hname => exact hname.symm
            · rfl
          rw [hnames]
          exact replica.names_nodup n
    · exact replica.names_nodup n

/-- What comes of an upload: it fails, or the file is stored.  After that the buffer may not
be readable for the cache, or not be cleared. -/
inductive Outcome (ps : PageSize) where
  | failed
  | stored (file : LTXFile ps)
  | unread (file : LTXFile ps)
  | uncleared (file : LTXFile ps)

/-- The file that was stored. -/
def Outcome.file : Outcome ps → Option (LTXFile ps)
  | .failed => none
  | .stored file => some file
  | .unread file => some file
  | .uncleared file => some file

inductive CallError where
  | vfs (err : VFSError)
  | busy
  | cancelled
  | timeout
  | upload
  | openBuffer
  | readBuffer
  | clearBuffer
deriving DecidableEq, Repr

/-- What a call returns, unless it waits. -/
inductive Reply where
  | ok
  | waits
  | error (err : CallError)
deriving DecidableEq, Repr

namespace VFSFile

/-- The counters after an upload. -/
def counted (f : VFSFile) : VFSFile :=
  { f with
    expectedTXID := f.pendingTXID
    pendingTXID := f.pendingTXID + 1
    pos := f.pendingTXID }

/-- The file after an upload.  Until the cache has all dirty pages they stay dirty. -/
def afterUpload (f : VFSFile) : Outcome ps → VFSFile × Reply
  | .failed => (f, .error .upload)
  | .stored _ => (f.uploaded, .ok)
  | .unread _ => (f.counted, .error .readBuffer)
  | .uncleared _ =>
    ({ f.uploaded with bufferFile := f.bufferFile, bufferNextOff := f.bufferNextOff },
      .error .clearBuffer)

/-- Enables writes.  The counters of a file that was opened for reading start here. -/
def enabled (f : VFSFile) : VFSFile :=
  { f with
    writeEnabled := true
    expectedTXID := if f.pendingTXID = 0 then f.pos else f.expectedTXID
    pendingTXID := if f.pendingTXID = 0 then f.pos + 1 else f.pendingTXID }

end VFSFile

/-! ## Connections -/

structure Connection where
  file : VFSFile
  disabling : Bool
  /-- The locks that calls of `Lock` wait for. -/
  locking : List LockType
  /-- The number of calls that wait for the transaction to end. -/
  disables : Nat

structure VFS (ι : Type) (ps : PageSize) where
  conn : ι → Connection
  writeFile : Option ι
  lastSyncedTXID : Nat
  replica : Replica ps
  /-- The files that the connections have uploaded, in order. -/
  uploads : List (ι × LTXFile ps)

/-- Why a wait ends before the transaction does. -/
inductive Exit where
  | cancelled
  | timeout
deriving DecidableEq, Repr

def Exit.error : Exit → CallError
  | cancelled => .cancelled
  | timeout => .timeout

namespace VFS

variable {ι : Type} [DecidableEq ι]

def file (s : VFS ι ps) (c : ι) : VFSFile := (s.conn c).file

/-- The state with another connection. -/
def setConn (s : VFS ι ps) (c : ι) (conn : Connection) : VFS ι ps :=
  { s with conn := Function.update s.conn c conn }

def setFile (s : VFS ι ps) (c : ι) (f : VFSFile) : VFS ι ps :=
  s.setConn c { s.conn c with file := f }

/-- An upload is of the dirty pages. -/
def Fits (s : VFS ι ps) (c : ι) (outcome : Outcome ps) : Prop :=
  ∀ file ∈ outcome.file, (s.file c).Creates file

instance (s : VFS ι ps) (c : ι) (outcome : Outcome ps) : Decidable (s.Fits c outcome) :=
  inferInstanceAs (Decidable (∀ file ∈ outcome.file, _))

/-- The pages of the files that a connection has uploaded. -/
def stored (s : VFS ι ps) (c : ι) : List (Nat × Bytes) :=
  mergePages ((s.uploads.filter fun upload => upload.1 = c).map Prod.snd)

/-- Takes what another connection has synced for the own position. -/
def adopt (lastSyncedTXID : Nat) (f : VFSFile) : VFSFile :=
  if lastSyncedTXID > f.expectedTXID ∧ f.dirty = [] then
    { f with
      expectedTXID := lastSyncedTXID
      pendingTXID := lastSyncedTXID + 1
      pos := lastSyncedTXID }
  else f

/-- A lock once no disable is in its way. -/
def acquire (c : ι) (elock : LockType) (s : VFS ι ps) : VFS ι ps × Reply :=
  let f := s.file c
  if elock.toNat ≥ LockType.reserved.toNat then
    if !f.writeEnabled then (s, .error (.vfs .readOnly))
    else if f.inTransaction then (s.setFile c { f with lockType := elock }, .ok)
    else if s.writeFile ≠ none ∧ s.writeFile ≠ some c then (s, .error .busy)
    else
      ({ s.setFile c
          { adopt s.lastSyncedTXID f with inTransaction := true, lockType := elock } with
        writeFile := some c }, .ok)
  else (s.setFile c { f with lockType := elock }, .ok)

def Lock (c : ι) (elock : LockType) (s : VFS ι ps) : VFS ι ps × Reply :=
  if elock.toNat < (s.file c).lockType.toNat then (s, .error (.vfs .invalidLockDowngrade))
  else if elock.toNat ≥ LockType.reserved.toNat ∧ (s.conn c).disabling = true then
    (s.setConn c { s.conn c with locking := elock :: (s.conn c).locking }, .waits)
  else s.acquire c elock

/-- A call of `Lock` that waited goes on. -/
def wakeLock (c : ι) (elock : LockType) (s : VFS ι ps) : VFS ι ps × Reply :=
  (s.setConn c { s.conn c with locking := (s.conn c).locking.erase elock }).acquire c elock

def Unlock (c : ι) (elock : LockType) (s : VFS ι ps) : VFS ι ps × Reply :=
  match (s.file c).Unlock elock with
  | .error err => (s, .error (.vfs err))
  | .ok f =>
    ({ s.setFile c f with
      writeFile :=
        if (s.file c).writeEnabled ∧ (s.file c).inTransaction ∧ s.writeFile = some c then none
        else s.writeFile }, .ok)

def WriteAt (c : ι) (b : Bytes) (off : Nat) (s : VFS ι ps) : VFS ι ps × Except VFSError Nat :=
  let write := (s.file c).WriteAt s.replica b off
  (s.setFile c write.1, write.2)

def syncToRemoteWithLock (c : ι) (outcome : Outcome ps) (s : VFS ι ps) : VFS ι ps × Reply :=
  let f := s.file c
  if f.dirty = [] then (s, .ok)
  else
    match f.checkForConflict s.replica with
    | .error err => (s, .error (.vfs err))
    | .ok () =>
      match outcome.file with
      | none => (s, .error .upload)
      | some file =>
        ({ s.setFile c (f.afterUpload outcome).1 with
          lastSyncedTXID := max s.lastSyncedTXID f.pendingTXID
          replica := s.replica.write file
          uploads := s.uploads ++ [(c, file)] }, (f.afterUpload outcome).2)

def Sync (c : ι) (outcome : Outcome ps) (s : VFS ι ps) : VFS ι ps × Reply :=
  if !(s.file c).writeEnabled then (s, .ok)
  else if (s.file c).dirty = [] then (s, .ok)
  else if (s.file c).inTransaction then (s, .ok)
  else s.syncToRemoteWithLock c outcome

/-- Ends a disable: new locks no longer wait. -/
def allowLocks (c : ι) (s : VFS ι ps) : VFS ι ps :=
  s.setConn c { s.conn c with disabling := false }

/-- The loop of a disable.  During a transaction it waits, or gives up. -/
def disable (c : ι) (exit : Option Exit) (outcome : Outcome ps) (s : VFS ι ps) :
    VFS ι ps × Reply :=
  if (s.file c).inTransaction then
    match exit with
    | none => (s.setConn c { s.conn c with disables := (s.conn c).disables + 1 }, .waits)
    | some exit => (s.allowLocks c, .error exit.error)
  else
    match s.syncToRemoteWithLock c outcome with
    | (s, .ok) => ((s.allowLocks c).setFile c { s.file c with writeEnabled := false }, .ok)
    | (s, reply) => (s.allowLocks c, reply)

/-- `ready` says whether the buffer file can be opened. -/
def SetWriteEnabled (c : ι) (enabled ready : Bool) (exit : Option Exit) (outcome : Outcome ps)
    (s : VFS ι ps) : VFS ι ps × Reply :=
  if (s.file c).writeEnabled = enabled then (s, .ok)
  else if enabled then
    if ready then (s.setFile c (s.file c).enabled, .ok) else (s, .error .openBuffer)
  else (s.setConn c { s.conn c with disabling := true }).disable c exit outcome

/-- A call that waited for the transaction to end goes on. -/
def wakeDisable (c : ι) (exit : Option Exit) (outcome : Outcome ps) (s : VFS ι ps) :
    VFS ι ps × Reply :=
  (s.setConn c { s.conn c with disables := (s.conn c).disables - 1 }).disable c exit outcome

/-! ## What the calls change -/

variable {s : VFS ι ps} {c : ι}

@[simp] theorem file_setConn (s : VFS ι ps) (c c' : ι) (conn : Connection) :
    (s.setConn c conn).file c' = if c' = c then conn.file else s.file c' := by
  rw [VFS.file, VFS.setConn]
  dsimp only
  rw [Function.update_apply]
  split <;> rfl

theorem file_setConn_self (s : VFS ι ps) (c : ι) (conn : Connection) :
    (s.setConn c conn).file c = conn.file := by rw [file_setConn, if_pos rfl]

theorem adopt_cases (lastSyncedTXID : Nat) (f : VFSFile) : ∃ expectedTXID pendingTXID pos,
    adopt lastSyncedTXID f =
      { f with expectedTXID := expectedTXID, pendingTXID := pendingTXID, pos := pos } := by
  rw [adopt]
  split
  · exact ⟨_, _, _, rfl⟩
  · exact ⟨f.expectedTXID, f.pendingTXID, f.pos, rfl⟩

theorem inTransaction_afterUpload (f : VFSFile) (outcome : Outcome ps) :
    (f.afterUpload outcome).1.inTransaction = f.inTransaction := by
  cases outcome with
  | failed => rfl
  | stored file => rfl
  | unread file => rfl
  | uncleared file => rfl

/-- What a sync does: nothing, or it uploads the dirty pages. -/
theorem sync_cases (s : VFS ι ps) (c : ι) (outcome : Outcome ps) :
    (s.syncToRemoteWithLock c outcome).1 = s ∧
        ((s.syncToRemoteWithLock c outcome).2 = .ok → (s.file c).dirty = []) ∨
      (s.file c).dirty ≠ [] ∧ ∃ file ∈ outcome.file, s.syncToRemoteWithLock c outcome =
        ({ s.setFile c ((s.file c).afterUpload outcome).1 with
          lastSyncedTXID := max s.lastSyncedTXID (s.file c).pendingTXID
          replica := s.replica.write file
          uploads := s.uploads ++ [(c, file)] }, ((s.file c).afterUpload outcome).2) := by
  rw [VFS.syncToRemoteWithLock]
  dsimp only
  split
  · next hdirty => exact Or.inl ⟨rfl, fun _ => hdirty⟩
  next hdirty =>
  split
  · exact Or.inl ⟨rfl, fun hok => by cases hok⟩
  split
  · exact Or.inl ⟨rfl, fun hok => by cases hok⟩
  · next file hfile => exact Or.inr ⟨hdirty, file, hfile, rfl⟩

/-- A sync that succeeds leaves no dirty page. -/
theorem dirty_of_sync {s : VFS ι ps} {outcome : Outcome ps}
    (hok : (s.syncToRemoteWithLock c outcome).2 = .ok) :
    ((s.syncToRemoteWithLock c outcome).1.file c).dirty = [] := by
  rcases sync_cases s c outcome with ⟨heq, hdirty⟩ | ⟨-, file, hfile, heq⟩
  · rw [heq]
    exact hdirty hok
  · rw [heq] at hok ⊢
    have hself : (s.setFile c ((s.file c).afterUpload outcome).1).file c =
        ((s.file c).afterUpload outcome).1 := file_setConn_self _ _ _
    change ((s.setFile c ((s.file c).afterUpload outcome).1).file c).dirty = []
    rw [hself]
    cases outcome with
    | failed => cases hfile
    | stored file => rfl
    | unread file => cases hok
    | uncleared file => cases hok

theorem inTransaction_sync (s : VFS ι ps) (c : ι) (outcome : Outcome ps) :
    ((s.syncToRemoteWithLock c outcome).1.file c).inTransaction = (s.file c).inTransaction := by
  rcases sync_cases s c outcome with ⟨heq, -⟩ | ⟨-, file, -, heq⟩
  · rw [heq]
  · rw [heq]
    have hself : (s.setFile c ((s.file c).afterUpload outcome).1).file c =
        ((s.file c).afterUpload outcome).1 := file_setConn_self _ _ _
    change ((s.setFile c ((s.file c).afterUpload outcome).1).file c).inTransaction = _
    rw [hself, inTransaction_afterUpload]

end VFS

/-! ## Two connections -/

namespace TwoConnections

/-- A replica of a snapshot of one page. -/
def replica : Replica PageSize.min where
  level k := if k = 9 then [OnePage.snapshot 1] else []
  level_eq k file hfile := by
    split at hfile
    · next h => rw [List.mem_singleton.mp hfile, h]; rfl
    · cases hfile
  names_nodup k := by
    split <;> simp

/-- A writer that is at the snapshot. -/
def writer : VFSFile :=
  { OnePage.file.rebuildIndex [OnePage.snapshot 1] none with
    writeEnabled := true
    expectedTXID := 1
    pendingTXID := 2 }

def vfs : VFS Bool PageSize.min := ⟨fun _ => ⟨writer, false, [], 0⟩, none, 0, replica, []⟩

end TwoConnections

end Vfs

end Litestream
