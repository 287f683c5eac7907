import Mathlib
import Litestream.Lib.Digits
import Litestream.Compaction.Store

/-!
# The listings of the storage clients

The file, S3, GCS and Azure clients list the files of a level from what their backends
hold.  A bucket holds objects under distinct keys and lists them by a prefix, in key
order.  A directory lists its entries in any order.

File names come from the LTX package, which is not part of the repository.
`LtxPackage` is what the clients use of it, with the laws that its documentation gives.
-/

namespace Litestream

/-- What the clients use of the LTX package. -/
structure LtxPackage where
  /-- `TXID.String`. -/
  txidString : Nat → List Char
  formatFilename : Nat → Nat → List Char
  parseFilename : List Char → Option (Nat × Nat)
  /-- `NewFileInfoSliceIterator`: the order the slice is iterated in. -/
  newFileInfoSliceIterator : List FileInfo → List FileInfo
  /-- `%016x`. -/
  txidString_eq : ∀ t, txidString t = Digits.fixed 16 16 t
  /-- `%016x-%016x.ltx`. -/
  formatFilename_eq : ∀ minTXID maxTXID, formatFilename minTXID maxTXID =
    txidString minTXID ++ '-' :: (txidString maxTXID ++ ".ltx".toList)
  parseFilename_formatFilename : ∀ {minTXID maxTXID}, minTXID < txidLimit →
    maxTXID < txidLimit → parseFilename (formatFilename minTXID maxTXID) = some (minTXID, maxTXID)
  iterator_perm : ∀ infos, (newFileInfoSliceIterator infos).Perm infos
  /-- Files are iterated by level, then by `MinTXID`, then by `MaxTXID`. -/
  iterator_sorted : ∀ infos, (newFileInfoSliceIterator infos).Pairwise fun f g =>
    f.level < g.level ∨ f.level = g.level ∧ f.KeyLE g

/-! ## Paths -/

/-- `path.Join` of two clean elements. -/
def pathJoin (a b : List Char) : List Char := if a = [] then b else a ++ '/' :: b

/-- `path.Base`. -/
def pathBase (p : List Char) : List Char :=
  if p = [] then ['.']
  else
    let p := p.rdropWhile fun c => c = '/'
    if p = [] then ['/'] else p.rtakeWhile fun c => c ≠ '/'

def ltxDir (root : List Char) : List Char := pathJoin root "ltx".toList

def ltxLevelDir (root : List Char) (level : Nat) : List Char :=
  pathJoin (ltxDir root) (Nat.toDigits 10 level)

def ltxFilePath (ltx : LtxPackage) (root : List Char) (level minTXID maxTXID : Nat) : List Char :=
  pathJoin (ltxLevelDir root level) (ltx.formatFilename minTXID maxTXID)

/-! ## Object stores -/

/-- An object of a bucket, with the time of the backend and the time in its metadata. -/
structure Object where
  key : List Char
  size : Nat
  modified : Nat
  timestamp : Option Nat

/-- A bucket lists its objects in key order. -/
structure Bucket where
  objects : List Object
  sorted : objects.Pairwise fun o p => o.key < p.key

/-- The objects whose key starts with a prefix, in key order, over all pages. -/
def Bucket.list (bucket : Bucket) (keyPrefix : List Char) : List Object :=
  bucket.objects.filter fun o => keyPrefix.isPrefixOf o.key

/-- The loop of an iterator over listed objects: other names are skipped, and so are
files whose `MinTXID` the iterator skips. -/
def ltxFileItems (ltx : LtxPackage) (level : Nat) (skip : Nat → Bool) (createdAt : Object → Nat)
    (objects : List Object) : List FileInfo :=
  objects.filterMap fun o =>
    match ltx.parseFilename (pathBase o.key) with
    | none => none
    | some (minTXID, maxTXID) =>
        if skip minTXID then none else some ⟨level, minTXID, maxTXID, o.size, createdAt o⟩

/-- The key prefix of a level, with the seek TXID appended to it. -/
def seekPrefix (ltx : LtxPackage) (root : List Char) (level seek : Nat) : List Char :=
  let keyPrefix := ltxLevelDir root level ++ ['/']
  if seek ≠ 0 then keyPrefix ++ ltx.txidString seek else keyPrefix

/-- `gs.ReplicaClient.LTXFiles`. -/
def gsLTXFiles (ltx : LtxPackage) (root : List Char) (bucket : Bucket) (level seek : Nat) :
    List FileInfo :=
  ltxFileItems ltx level (fun _ => false) (fun o => o.timestamp.getD o.modified)
    (bucket.list (seekPrefix ltx root level seek))

/-- `abs.ReplicaClient.LTXFiles`. -/
def absLTXFiles (ltx : LtxPackage) (root : List Char) (bucket : Bucket) (level seek : Nat) :
    List FileInfo :=
  ltxFileItems ltx level (fun minTXID => minTXID < seek) (fun o => o.timestamp.getD o.modified)
    (bucket.list (seekPrefix ltx root level seek))

/-- The key prefix of a level in S3. -/
def s3LevelPrefix (root : List Char) (level : Nat) : List Char :=
  root ++ '/' :: (Digits.fixed 16 4 level ++ ['/'])

def s3Key (ltx : LtxPackage) (root : List Char) (level minTXID maxTXID : Nat) : List Char :=
  root ++ '/' :: (Digits.fixed 16 4 level ++ '/' :: ltx.formatFilename minTXID maxTXID)

/-- `s3.ReplicaClient.LTXFiles`. -/
def s3LTXFiles (ltx : LtxPackage) (root : List Char) (bucket : Bucket) (level seek : Nat)
    (useMetadata : Bool) : List FileInfo :=
  ltxFileItems ltx level (fun minTXID => minTXID < seek)
    (fun o => if useMetadata then o.timestamp.getD o.modified else o.modified)
    (bucket.list (s3LevelPrefix root level))

/-! ## The file system -/

/-- An entry of a directory. -/
structure DirEntry where
  name : List Char
  size : Nat
  modTime : Nat

/-- The level directories of a file replica.  A directory that does not exist is `none`,
and the entries of a directory come in any order. -/
abbrev Dirs := Nat → Option (List DirEntry)

/-- `file.ReplicaClient.LTXFiles`. -/
def fileLTXFiles (ltx : LtxPackage) (dirs : Dirs) (level seek : Nat) : List FileInfo :=
  match dirs level with
  | none => ltx.newFileInfoSliceIterator []
  | some entries =>
      ltx.newFileInfoSliceIterator <| entries.filterMap fun e =>
        match ltx.parseFilename e.name with
        | none => none
        | some (minTXID, maxTXID) =>
            if minTXID < seek then none else some ⟨level, minTXID, maxTXID, e.size, e.modTime⟩

end Litestream
