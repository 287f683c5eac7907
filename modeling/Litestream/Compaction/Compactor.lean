import Litestream.Compaction.Store

/-!
# Compaction and retention

The operations of `Compactor` on the files of a replica, and the two retention
operations that `DB` has of its own.  Each reads listings, picks files and writes or
deletes them.

What a model of listings cannot see is a parameter.  `merge` stands for opening the
source files, merging them with the LTX compactor and uploading the result: it fails, or
gives the size and the header timestamp of the merged file.  A listing without metadata
shows the modification times of the backend, so the operations that read `CreatedAt`
from such a listing take the listing itself.
-/

namespace Litestream

/-- The cached last file of each level. -/
abbrev FileInfoCache := Nat → Option FileInfo

/-- Why a compaction writes nothing. -/
inductive CompactError where
  /-- `ErrNoCompaction`: there are no files to compact. -/
  | noCompaction
  /-- A source file cannot be opened, merged or uploaded. -/
  | writeLTXFile
deriving DecidableEq, Repr

/-- Why a level is inconsistent. -/
inductive LevelError where
  /-- "TXID gap detected": the last TXID of a file, and the start of the next. -/
  | gap (prevMaxTXID nextMinTXID : Nat)
  /-- "TXID overlap detected": the last TXID of a file, and the start of the next. -/
  | overlap (prevMaxTXID nextMinTXID : Nat)
deriving DecidableEq, Repr

/-- The largest `MaxTXID` of a listing, zero if it is empty. -/
def maxTXIDOf (infos : List FileInfo) : Nat :=
  infos.foldl (fun maxTXID info => if maxTXID < info.maxTXID then info.maxTXID else maxTXID) 0

/-- The metadata of no file. -/
def FileInfo.zero : FileInfo := ⟨0, 0, 0, 0, 0⟩

/-- The file of a listing with the largest `MaxTXID`. -/
def maxFileInfo (infos : List FileInfo) : FileInfo :=
  infos.foldl (fun info item => if info.maxTXID < item.maxTXID then item else info) .zero

/-- `Compactor.MaxLTXFileInfo`: the last file of a level, from the cache if it is there. -/
def maxLTXFileInfo (files : Files) (cache : FileInfoCache) (level : Nat) :
    FileInfo × FileInfoCache :=
  match cache level with
  | some info => (info, cache)
  | none =>
      let info := maxFileInfo (files level)
      (info, if 0 < info.maxTXID then Function.update cache level (some info) else cache)

/-- The range of TXIDs a list of source files covers. -/
def sourceRange (infos : List FileInfo) : Nat × Nat :=
  infos.foldl (fun range info =>
    (if range.1 = 0 ∨ info.minTXID < range.1 then info.minTXID else range.1,
      if range.2 = 0 ∨ range.2 < info.maxTXID then info.maxTXID else range.2)) (0, 0)

/-- `Compactor.Compact`: merges the files of the level below that start past the end of
the destination level. -/
def compact (merge : List FileInfo → Option (Nat × Nat)) (dstLevel : Nat) (files : Files)
    (cache : FileInfoCache) : Except CompactError FileInfo × Files × FileInfoCache :=
  let srcLevel := dstLevel - 1
  let (prevMaxInfo, cache) := maxLTXFileInfo files cache dstLevel
  let seekTXID := nextTXID prevMaxInfo.maxTXID
  let infos := (files srcLevel).filter fun info => seekTXID ≤ info.minTXID
  if infos = [] then (.error .noCompaction, files, cache)
  else
    let (minTXID, maxTXID) := sourceRange infos
    match merge infos with
    | none => (.error .writeLTXFile, files, cache)
    | some (size, timestamp) =>
        let info : FileInfo := ⟨dstLevel, minTXID, maxTXID, size, timestamp⟩
        (.ok info, files.writeLTXFile info, Function.update cache dstLevel (some info))

/-- The loop of `Compactor.VerifyLevelConsistency`, after a first file. -/
def verifyFrom (prevInfo : FileInfo) : List FileInfo → Except LevelError Unit
  | [] => .ok ()
  | info :: infos =>
      let expectedMinTXID := nextTXID prevInfo.maxTXID
      if info.minTXID ≠ expectedMinTXID then
        if expectedMinTXID < info.minTXID then .error (.gap prevInfo.maxTXID info.minTXID)
        else .error (.overlap prevInfo.maxTXID info.minTXID)
      else verifyFrom info infos

/-- `Compactor.VerifyLevelConsistency` over the listing of a level. -/
def verifyLevelConsistency : List FileInfo → Except LevelError Unit
  | [] => .ok ()
  | info :: infos => verifyFrom info infos

/-! ## Retention -/

/-- The files marked for deletion, except the last one listed. -/
def keepNewest (marked : FileInfo → Bool) (infos : List FileInfo) : List FileInfo :=
  let deleted := infos.filter marked
  if infos.getLast?.any marked then deleted.dropLast else deleted

/-- `DB.EnforceSnapshotRetention`: the snapshots to delete, and the least `MaxTXID` of
those not marked for deletion, zero if all are marked. -/
def enforceSnapshotRetention (timestamp : Nat) (infos : List FileInfo) : List FileInfo × Nat :=
  let marked := fun info : FileInfo => decide (info.createdAt < timestamp)
  (keepNewest marked infos,
    (infos.filter fun info => !marked info).foldl (fun minSnapshotTXID info =>
      if minSnapshotTXID = 0 ∨ info.maxTXID < minSnapshotTXID then info.maxTXID
      else minSnapshotTXID) 0)

/-- `Compactor.EnforceRetentionByTXID`: the files of a level to delete. -/
def enforceRetentionByTXID (txID : Nat) (infos : List FileInfo) : List FileInfo :=
  keepNewest (fun info => info.maxTXID < txID) infos

/-- `DB.EnforceL0RetentionByTime`: the level 0 files to delete, given the listings of
levels 1 and 0.  A file without a creation time gets the modification time of its local
copy, or the threshold if there is none. -/
def enforceL0RetentionByTime (threshold : Nat) (localModTime : FileInfo → Option Nat)
    (l1 l0 : List FileInfo) : List FileInfo :=
  let maxL1TXID := maxTXIDOf l1
  if maxL1TXID = 0 then []
  else
    let createdAt := fun info : FileInfo =>
      if info.createdAt = 0 then (localModTime info).getD threshold else info.createdAt
    let scanned := l0.takeWhile fun info => createdAt info ≤ threshold
    let deleted := scanned.filter fun info => info.maxTXID ≤ maxL1TXID
    if scanned.length = l0.length ∧ l0.getLast?.any (fun info => info.maxTXID ≤ maxL1TXID) then
      deleted.dropLast
    else deleted

end Litestream
