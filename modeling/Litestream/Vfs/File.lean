import Litestream.Lib.File
import Litestream.Vfs.PageIndex

/-!
# The files of the virtual file system

A `VFSFile` reads the pages of a database from the LTX files of its replica.  `index` says
where each page is.  A poll merges the indexes of new files into it.  While SQLite holds a
read lock the result of a poll waits in `pending`, and `Unlock` applies it.

The file reads a page from the write buffer, the page cache or the replica, in this order.
Hydration and time travel by `SetTargetTime` are left out, and an operation of the replica
does not fail.
-/

namespace Litestream

namespace Vfs

open Overlay

inductive LockType where
  | none
  | shared
  | reserved
  | pending
  | exclusive
deriving DecidableEq, Repr

def LockType.toNat : LockType → Nat
  | none => 0
  | shared => 1
  | reserved => 2
  | pending => 3
  | exclusive => 4

inductive VFSError where
  | dbNotReady
  | pageNotFound (pgno : Nat)
  | fetchPage (pgno : Nat)
  | readBuffer (pgno : Nat)
  | lockPage
  | readOnly
  | invalidLockDowngrade
  | invalidUnlockTarget
  | conflict (expected remote : Nat)
  /-- The buffer of the caller is too short for the header. -/
  | outOfRange
deriving DecidableEq, Repr

structure VFSFile where
  pageSize : Nat
  index : Index
  pending : Index
  pendingReplace : Bool
  cache : Nat → Option Bytes
  pos : Nat
  maxTXID1 : Nat
  latestLTXTime : Nat
  targetTime : Option Nat
  lockType : LockType
  commit : Nat
  writeEnabled : Bool
  inTransaction : Bool
  /-- The offset of each dirty page in the buffer file. -/
  dirty : List (Nat × Nat)
  bufferFile : Bytes
  bufferNextOff : Nat
  expectedTXID : Nat
  pendingTXID : Nat

namespace VFSFile

variable {ps : PageSize}

/-! ## Opening -/

def maxLevelTXID (infos : List (LTXFile ps)) (level : Nat) : Nat :=
  infos.foldl
    (fun maxTXID file =>
      if file.info.level = level ∧ file.maxTXID > maxTXID then file.maxTXID
      else maxTXID) 0

/-- The commit size of the last file. -/
def lastCommit (infos : List (LTXFile ps)) : Nat := (infos.getLast?.map LTXFile.commit).getD 0

/-- Builds the index of a plan afresh. -/
def rebuildIndex (infos : List (LTXFile ps)) (target : Option Nat) (f : VFSFile) : VFSFile :=
  let pos := (infos.getLast?.map fun file => file.maxTXID).getD 0
  let maxTXID1 := maxLevelTXID infos 1
  { f with
    index := mergeIndex infos
    commit := lastCommit infos
    pending := []
    pendingReplace := false
    pos := pos
    maxTXID1 := if maxTXID1 = 0 then pos else maxTXID1
    latestLTXTime := (infos.getLast?.map fun file => file.info.createdAt).getD f.latestLTXTime
    cache := fun _ => none
    targetTime := target }

/-! ## Reading -/

/-- The size that the entries of a map reach. -/
def mapSize {α : Type} (pageSize : Nat) (entries : List (Nat × α)) : Nat :=
  entries.foldl (fun size entry => max size (entry.1 * pageSize)) 0

def FileSize (f : VFSFile) : Except VFSError Nat :=
  if f.pageSize = 0 then .error .dbNotReady
  else .ok (max (mapSize f.pageSize f.index)
    (max (mapSize f.pageSize f.pending) (mapSize f.pageSize f.dirty)))

/-- The bytes of the header that a read rewrites: the format versions and the change counter. -/
def headerBytes : List Nat := [18, 19, 24, 25, 26, 27]

/-- Pretends that the database is in journal mode. -/
def hideWAL (random p : Bytes) : Bytes := (p.writeAt 18 [1, 1]).writeAt 24 (random.take 4)

/-- What a read returns of a page. -/
def present (random : Bytes) (off len pageOffset : Nat) (data : Bytes) : Except VFSError Bytes :=
  if off ≠ 0 then .ok (data.readAt pageOffset len)
  else if len < 28 then .error .outOfRange
  else .ok (hideWAL random (data.readAt pageOffset len))

def ReadAt (replica : Replica ps) (random : Bytes) (off len : Nat) (f : VFSFile) :
    VFSFile × Except VFSError Bytes :=
  if f.pageSize = 0 then (f, .error .dbNotReady)
  else
    let pgno := off / f.pageSize + 1
    let pageOffset := off % f.pageSize
    match if f.writeEnabled then lastWrite f.dirty pgno else none with
    | some bufferOff =>
      let data := f.bufferFile.readAt bufferOff f.pageSize
      if data.length < f.pageSize then (f, .error (.readBuffer pgno))
      else if len < 28 then (f, .ok (data.readAt pageOffset len))
      else (f, present random off len pageOffset data)
    | none =>
      match f.cache pgno with
      | some data => (f, present random off len pageOffset data)
      | none =>
        match lastWrite f.index pgno with
        | none =>
          (f, if f.writeEnabled then .ok (List.replicate len 0) else .error (.pageNotFound pgno))
        | some e =>
          match replica.fetch e with
          | none => (f, .error (.fetchPage pgno))
          | some data =>
            ({ f with cache := Function.update f.cache pgno (some data) },
              present random off len pageOffset data)

/-! ## Locks -/

def Lock (elock : LockType) (f : VFSFile) : Except VFSError VFSFile :=
  if elock.toNat < f.lockType.toNat then .error .invalidLockDowngrade
  else if elock.toNat ≥ LockType.reserved.toNat then
    if f.writeEnabled then .ok { f with inTransaction := true, lockType := elock }
    else .error .readOnly
  else .ok { f with lockType := elock }

/-- The index once the pending entries are applied. -/
def applied (f : VFSFile) : Index := if f.pendingReplace then f.pending else f.index ++ f.pending

def Unlock (elock : LockType) (f : VFSFile) : Except VFSError VFSFile :=
  if elock ≠ .shared ∧ elock ≠ .none then .error .invalidUnlockTarget
  else .ok
    { f with
      inTransaction := f.inTransaction && !f.writeEnabled
      lockType := elock
      index := f.applied
      cache := fun pgno =>
        if f.pendingReplace ∨ pgno ∈ f.pending.map Prod.fst then none else f.cache pgno
      pending := []
      pendingReplace := false }

/-! ## Polling -/

/-- The files that one level adds: the last TXID, their index, the last commit size, and
whether a commit size fell. -/
structure LevelPoll where
  maxTXID : Nat
  index : Index
  commit : Nat
  replaceIndex : Bool

inductive PollError where
  | nonContiguous (level current minTXID maxTXID : Nat)
deriving DecidableEq, Repr

/-- The next file of a level.  A smaller commit size drops the index so far. -/
def LevelPoll.add (p : LevelPoll) (file : LTXFile ps) : LevelPoll where
  maxTXID := file.maxTXID
  index := (if file.commit < p.commit then [] else p.index) ++ FetchPageIndex file
  commit := file.commit
  replaceIndex := p.replaceIndex || file.commit < p.commit

def pollFiles (level : Nat) : LevelPoll → List (LTXFile ps) → Except PollError LevelPoll
  | p, [] => .ok p
  | p, file :: files =>
    if file.minTXID ≠ p.maxTXID + 1 then
      if level = 0 ∧ file.minTXID > p.maxTXID + 1 then .ok p
      else .error (.nonContiguous level p.maxTXID file.minTXID file.maxTXID)
    else pollFiles level (p.add file) files

/-- The listing of a level from a TXID on. -/
def newFiles (replica : Replica ps) (level prevMaxTXID : Nat) : List (LTXFile ps) :=
  (replica.level level).filter fun file => prevMaxTXID + 1 ≤ file.minTXID

def pollLevel (replica : Replica ps) (level prevMaxTXID baseCommit : Nat) :
    Except PollError LevelPoll :=
  pollFiles level ⟨prevMaxTXID, [], baseCommit, false⟩ (newFiles replica level prevMaxTXID)

/-- The index of both levels.  Level 1 goes over level 0. -/
def combined (p0 p1 : LevelPoll) : Index :=
  if p1.replaceIndex then p1.index else p0.index ++ p1.index

def newCommit (commit : Nat) (p0 p1 : LevelPoll) : Nat :=
  if p1.replaceIndex then p1.commit
  else max (if p0.replaceIndex then p0.commit else max commit p0.commit) p1.commit

/-- Applies what a poll has read, to the index or to the pending entries. -/
def applyPoll (p0 p1 : LevelPoll) (f : VFSFile) : VFSFile :=
  if f.targetTime ≠ none then f
  else
    let replaceIndex := p0.replaceIndex || p1.replaceIndex
    let entries := combined p0 p1
    let commit := newCommit f.commit p0 p1
    let f :=
      if f.lockType.toNat ≥ LockType.shared.toNat then
        { f with
          pending := (if replaceIndex then [] else f.pending) ++ entries
          pendingReplace := f.pendingReplace || replaceIndex }
      else
        { f with
          index := (if replaceIndex then [] else f.index) ++ entries
          pendingReplace := false
          cache := fun pgno => if pgno ∈ entries.map Prod.fst then none else f.cache pgno }
    { f with
      commit :=
        if replaceIndex ∨ entries ≠ [] ∧ commit > f.commit then commit else f.commit
      pos := if p0.maxTXID > p1.maxTXID then p0.maxTXID else p1.maxTXID
      maxTXID1 := p1.maxTXID }

/-- The commit size that level 1 is compared with. -/
def baseCommit (commit : Nat) (p0 : LevelPoll) : Nat :=
  if p0.replaceIndex ∨ p0.index ≠ [] then p0.commit else commit

def pollReplicaClient (replica : Replica ps) (f : VFSFile) : Except PollError VFSFile := do
  let p0 ← pollLevel replica 0 f.pos f.commit
  let p1 ← pollLevel replica 1 f.maxTXID1 (baseCommit f.commit p0)
  return applyPoll p0 p1 f

end VFSFile

end Vfs

end Litestream
