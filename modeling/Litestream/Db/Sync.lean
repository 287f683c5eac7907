import Mathlib
import Litestream.Db.Verify

/-!
# Copying the WAL into level 0 files

`sync` reads the frames that the WAL has behind the offset that `verify` returned and
writes their pages into the next level 0 LTX file.  A snapshot has every page of the
database, from the WAL where the page map has it and from the database file otherwise.

`lockPgno` is the page that SQLite never uses for a page size, which the LTX package
provides.
-/

namespace Litestream

open Bytes

inductive SyncError where
  | openWALFile
  | newWALReader (err : WALError)
  | newWALReaderAfterReset
  | newWALReaderWithOffset (err : WALError)
  | pageMap (err : WALError)
  | outOfFuel
  /-- The assertion that the WAL size is not negative fails. -/
  | negativeSize
  | readPage
deriving DecidableEq

/-! ## Pages -/

/-- Reads pages in the order of a list. -/
def copyPages (read : UInt32 → Option Bytes) : List UInt32 → Option (List (UInt32 × Bytes))
  | [] => some []
  | pgno :: pgnos =>
      match read pgno, copyPages read pgnos with
      | some data, some pages => some ((pgno, data) :: pages)
      | _, _ => none

namespace DB

/-- Reads a page behind the header of its frame. -/
def readWALPage (db : DB) (wal : Bytes) (offset : Nat) : Option Bytes :=
  readWALFileAt wal (offset + walFrameHeaderSize) db.pageSize

/-- Reads a page of the database file. -/
def readDBPage (db : DB) (pgno : UInt32) : Option Bytes :=
  readWALFileAt db.file ((pgno.toNat - 1) * db.pageSize) db.pageSize

/-- The page numbers of a database, without the lock page. -/
def pageNumbers (lockPgno : UInt32) (commit : UInt32) : List UInt32 :=
  ((List.range commit.toNat).map fun i => UInt32.ofNat (i + 1)).filter (· ≠ lockPgno)

/-- Copies every page, from the WAL if the page map has it. -/
def writeLTXFromDB (lockPgno : UInt32 → UInt32) (db : DB) (wal : Bytes) (commit : UInt32)
    (pageMap : WALReader.PageOffsets) : Option (List (UInt32 × Bytes)) :=
  copyPages (fun pgno =>
    match pageMap.lookup pgno with
    | some offset => db.readWALPage wal offset
    | none => db.readDBPage pgno) (pageNumbers (lockPgno (UInt32.ofNat db.pageSize)) commit)

/-- Copies the pages of the page map in order. -/
def writeLTXFromWAL (db : DB) (wal : Bytes) (pageMap : WALReader.PageOffsets) :
    Option (List (UInt32 × Bytes)) :=
  copyPages (fun pgno => (pageMap.lookup pgno).bind (db.readWALPage wal))
    (pageMap.keys.insertionSort (· ≤ ·))

/-! ## Syncing -/

/-- The position of the database. -/
def txID (db : DB) : Nat :=
  match db.l0.getLast? with
  | none => 0
  | some ltx => ltx.maxTXID

/-- A reader at the offset to sync from.  If the frame before does not match, it starts over
at the WAL header. -/
def openWALReader (wal : Bytes) (info : SyncInfo) : Except SyncError (WALReader × SyncInfo) :=
  if info.offset = walHeaderSize then
    match WALReader.newWALReader wal with
    | .error err => .error (.newWALReader err)
    | .ok rd => .ok (rd, info)
  else
    match WALReader.newWALReaderWithOffset wal info.offset info.salt1 info.salt2 with
    | .ok rd => .ok (rd, info)
    | .error (.prevFrameMismatch _) =>
        match WALReader.newWALReader wal with
        | .error _ => .error .newWALReaderAfterReset
        | .ok rd => .ok (rd, { info with offset := walHeaderSize })
    | .error err => .error (.newWALReaderWithOffset err)

/-- Writes the next level 0 file from a page map, if there is something to write. -/
def writeLTX (lockPgno : UInt32 → UInt32) (db : DB) (wal : Bytes) (info : SyncInfo)
    (rd : WALReader) (pageMap : WALReader.PageOffsets) (maxOffset : Nat) (walCommit : UInt32) :
    Except SyncError Bool × DB :=
  let commit :=
    if 0 < walCommit then walCommit else UInt32.ofNat (db.file.length / db.pageSize)
  let sz : Int := if 0 < maxOffset then maxOffset - info.offset else 0
  if sz < 0 then (.error .negativeSize, db)
  else if info.snapshotting = false ∧ sz = 0 then (.ok false, db)
  else
    match (if info.snapshotting then writeLTXFromDB lockPgno db wal commit pageMap
        else writeLTXFromWAL db wal pageMap) with
    | none => (.error .readPage, db)
    | some pages =>
        let ltx : LTXFile := {
          pageSize := UInt32.ofNat db.pageSize
          commit := commit
          minTXID := db.txID + 1
          maxTXID := db.txID + 1
          walOffset := info.offset
          walSize := sz
          walSalt1 := rd.salt1
          walSalt2 := rd.salt2
          pages := pages
          badHeader := false
          badPages := false }
        (.ok true, { db with
          l0 := db.l0 ++ [ltx]
          lastSyncedWALOffset := info.offset + sz
          syncedToWALEnd := decide (info.offset + sz = wal.length) })

/-- Copies pending frames of the WAL to the next level 0 file.  Returns whether it wrote
one. -/
def sync (lockPgno : UInt32 → UInt32) (db : DB) (info : SyncInfo) :
    Except SyncError Bool × DB :=
  match db.wal with
  | none => (.error .openWALFile, db)
  | some wal =>
      match openWALReader wal info with
      | .error err => (.error err, db)
      | .ok (rd, info) =>
          match rd.pageMap (wal.length + 1) with
          | none => (.error .outOfFuel, db)
          | some (.error err, _) => (.error (.pageMap err), db)
          | some (.ok (pageMap, maxOffset, walCommit), rd) =>
              writeLTX lockPgno db wal info rd pageMap maxOffset walCommit

inductive VerifyAndSyncError where
  | verify (err : VerifyError)
  | sync (err : SyncError)
deriving DecidableEq

/-- Syncs from where `verify` says. -/
def verifyAndSync (lockPgno : UInt32 → UInt32) (db : DB) :
    Except VerifyAndSyncError Bool × DB :=
  match db.verify with
  | (.error err, db) => (.error (.verify err), db)
  | (.ok info, db) =>
      match db.sync lockPgno info with
      | (.error err, db) => (.error (.sync err), db)
      | (.ok synced, db) => (.ok synced, db)

end DB

end Litestream
