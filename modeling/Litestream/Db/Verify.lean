import Litestream.Wal.Reader

/-!
# Where the next sync starts

`verify` compares the WAL file with the header of the last level 0 LTX file and decides
whether the next sync goes on from the recorded end, starts over at the WAL header, or
takes a snapshot.

The LTX format is not part of the repository.  An `LTXFile` is what its decoder returns.
-/

namespace Litestream

open Bytes

/-! ## Databases -/

/-- Arithmetic on signed 64-bit integers. -/
def int64 (x : Int) : Int := x.bmod (2 ^ 64)

/-- A level 0 LTX file as its decoder returns it. -/
structure LTXFile where
  pageSize : UInt32
  /-- The database size in pages. -/
  commit : UInt32
  minTXID : Nat
  maxTXID : Nat
  walOffset : Int
  walSize : Int
  walSalt1 : UInt32
  walSalt2 : UInt32
  /-- The pages in order of page number. -/
  pages : List (UInt32 × Bytes)
  /-- Whether the header cannot be decoded. -/
  badHeader : Bool
  /-- Whether decoding fails behind the pages. -/
  badPages : Bool
deriving DecidableEq

namespace LTXFile

/-- The salts of the WAL generation the file was read from. -/
def salt (f : LTXFile) : Salt := (f.walSalt1, f.walSalt2)

/-- The WAL offset that the file was read up to. -/
def walEnd (f : LTXFile) : Int := int64 (f.walOffset + f.walSize)

end LTXFile

structure DB where
  pageSize : Nat
  /-- The content of the database file. -/
  file : Bytes
  /-- The content of the WAL file, if it exists. -/
  wal : Option Bytes
  /-- The level 0 LTX files in the order they were written. -/
  l0 : List LTXFile
  /-- Whether the last sync reached the end of the WAL file. -/
  syncedToWALEnd : Bool
  lastSyncedWALOffset : Int

/-- Where and how the next sync reads. -/
structure SyncInfo where
  /-- The end of the previous read. -/
  offset : Int
  salt1 : UInt32
  salt2 : UInt32
  /-- Whether a full snapshot is required. -/
  snapshotting : Bool
  /-- The reason for the snapshot. -/
  reason : String
deriving DecidableEq

inductive VerifyError where
  | ltxCorrupted
  | openWALFile
  | readWALHeaderAfterTruncation
  | readWALHeader
  | prevWALOffset (offset : Int)
  | readLastPage
  | decodeLTXPage
  | newWALReader (err : WALError)
  | outOfFuel
deriving DecidableEq

/-! ## Reading the WAL file -/

/-- The header of a WAL file. -/
def readWALHeader (wal : Bytes) : Option Bytes :=
  let hdr := readAt wal 0 walHeaderSize
  if hdr.length = walHeaderSize then some hdr else none

/-- Reads a slice of a file in full. -/
def readWALFileAt (wal : Bytes) (offset : Int) (n : Nat) : Option Bytes :=
  let buf := readAt wal offset.toNat n
  if 0 ≤ offset ∧ buf.length = n then some buf else none

/-- The salts in a WAL header. -/
def headerSalt (hdr : Bytes) : Salt := (be32 (hdr.drop 16), be32 (hdr.drop 20))

/-- The salts in a WAL frame. -/
def frameSalt (frame : Bytes) : Salt := (be32 (frame.drop 8), be32 (frame.drop 12))

namespace DB

/-- The size of a WAL frame. -/
def frameSize (db : DB) : Nat := db.pageSize + walFrameHeaderSize

/-- Whether the frame before an offset is of the generation that the file was read from
and its page is in the file. -/
def lastPageMatch (db : DB) (wal : Bytes) (ltx : LTXFile) (prevWALOffset : Int) :
    Except VerifyError Bool :=
  if prevWALOffset ≤ walHeaderSize then .ok false
  else
    match readWALFileAt wal prevWALOffset db.frameSize with
    | none => .error .readLastPage
    | some frame =>
        if frameSalt frame ≠ ltx.salt then .ok false
        else if (be32 frame, frame.drop walFrameHeaderSize) ∈ ltx.pages then .ok true
        else if ltx.badPages then .error .decodeLTXPage
        else .ok false

/-- Whether the frames before those of the last known salt have one that is not known. -/
def detectFullCheckpoint (wal : Bytes) (knownSalts : List Salt) : Except VerifyError Bool :=
  match WALReader.newWALReader wal with
  | .error err => .error (.newWALReader err)
  | .ok rd =>
      match rd.frameSaltsUntil (wal.length + 1) (knownSalts.getLast?.getD (0, 0)) with
      | none => .error .outOfFuel
      | some m => .ok (1 ≤ (m.filter (· ∉ knownSalts)).length)

/-- The part of `verify` for a WAL file that goes past the recorded end. -/
def verifyHeader (db : DB) (wal : Bytes) (ltx : LTXFile) (info : SyncInfo) :
    Except VerifyError SyncInfo :=
  match readWALHeader wal with
  | none => .error .readWALHeader
  | some hdr0 =>
      let salt := headerSalt hdr0
      let prevWALOffset := int64 (info.offset - db.frameSize)
      if info.offset = walHeaderSize ∨ prevWALOffset = walHeaderSize then
        -- there is no frame before the last one to check
        if salt = ltx.salt then .ok { info with snapshotting := false }
        else .ok { info with reason := "wal header salt reset, snapshotting" }
      else if prevWALOffset < walHeaderSize then .error (.prevWALOffset prevWALOffset)
      else
        match db.lastPageMatch wal ltx prevWALOffset with
        | .error err => .error err
        | .ok false =>
            .ok { info with
              reason :=
                "last page does not exist in last ltx file, wal overwritten by another process" }
        | .ok true =>
            if salt ≠ ltx.salt then
              let info := { info with
                offset := walHeaderSize, salt1 := salt.1, salt2 := salt.2 }
              match detectFullCheckpoint wal [salt, ltx.salt] with
              | .error err => .error err
              | .ok true =>
                  .ok { info with reason := "full or restart checkpoint detected, snapshotting" }
              | .ok false => .ok { info with snapshotting := false }
            else .ok { info with snapshotting := false }

/-- Where the next sync starts and whether it takes a snapshot. -/
def verify (db : DB) : Except VerifyError SyncInfo × DB :=
  match db.l0.getLast? with
  | none => (.ok ⟨walHeaderSize, 0, 0, true, ""⟩, db)
  | some ltx =>
      if ltx.badHeader then (.error .ltxCorrupted, db)
      else
        let info : SyncInfo := ⟨ltx.walEnd, ltx.walSalt1, ltx.walSalt2, true, ""⟩
        match db.wal with
        | none => (.error .openWALFile, db)
        | some wal =>
            if wal.length < info.offset then
              if db.syncedToWALEnd then
                -- the truncation of a checkpoint is expected
                let db := { db with syncedToWALEnd := false }
                match readWALHeader wal with
                | none => (.error .readWALHeaderAfterTruncation, db)
                | some hdr =>
                    (.ok ⟨walHeaderSize, (headerSalt hdr).1, (headerSalt hdr).2, false, ""⟩, db)
              else (.ok { info with reason := "wal truncated by another process" }, db)
            else if info.offset = wal.length then (.ok { info with snapshotting := false }, db)
            else (db.verifyHeader wal ltx info, db)

end DB

end Litestream
