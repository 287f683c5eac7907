import Litestream.Lib.Cover

/-!
# LTX files and their listings

A replica stores LTX files at levels `0` to `9`.  A file is named by the range of
transaction IDs it covers, and every operation on a replica reads only the names, sizes
and creation times that a listing of a level returns (`FileInfo`).

A TXID is a `uint64`.  It is modelled as a natural number, and the one operation on it
that can overflow, the successor, wraps (`nextTXID`).  A time is a natural number of
milliseconds, and zero is the zero time, which stands for an absent one.

`Listing` is what a client that keeps the listing contract returns for one level: files
in ascending order of `(MinTXID, MaxTXID)`, each covering a nonempty range of nonzero
TXIDs.  `Listings` is one such listing for every level, with snapshots that start at
TXID 1.
-/

namespace Litestream

/-- One past the largest TXID. -/
def txidLimit : Nat := 2 ^ 64

/-- The successor of a TXID, which wraps as a `uint64` does. -/
def nextTXID (txID : Nat) : Nat := (txID + 1) % txidLimit

theorem nextTXID_le (t : Nat) : nextTXID t ≤ t + 1 := Nat.mod_le _ _

theorem nextTXID_eq {t : Nat} (h : t + 1 < txidLimit) : nextTXID t = t + 1 :=
  Nat.mod_eq_of_lt h

/-- The level full snapshots are held at. -/
def snapshotLevel : Nat := 9

/-- The metadata of one stored LTX file. -/
structure FileInfo where
  level : Nat
  minTXID : Nat
  maxTXID : Nat
  size : Nat
  createdAt : Nat
deriving DecidableEq, Repr

namespace FileInfo

/-- The file covers a nonempty range of nonzero TXIDs. -/
structure Valid (f : FileInfo) : Prop where
  one_le : 1 ≤ f.minTXID
  min_le_max : f.minTXID ≤ f.maxTXID
  max_lt : f.maxTXID < txidLimit

instance (f : FileInfo) : Decidable f.Valid :=
  decidable_of_iff (1 ≤ f.minTXID ∧ f.minTXID ≤ f.maxTXID ∧ f.maxTXID < txidLimit)
    ⟨fun h => ⟨h.1, h.2.1, h.2.2⟩, fun h => ⟨h.one_le, h.min_le_max, h.max_lt⟩⟩

/-- The order of listings: by `MinTXID`, then by `MaxTXID`. -/
def KeyLE (f g : FileInfo) : Prop :=
  f.minTXID < g.minTXID ∨ (f.minTXID = g.minTXID ∧ f.maxTXID ≤ g.maxTXID)

instance : DecidableRel KeyLE := fun f g =>
  inferInstanceAs (Decidable (f.minTXID < g.minTXID ∨ _))

theorem KeyLE.min_le {f g : FileInfo} (h : KeyLE f g) : f.minTXID ≤ g.minTXID := by
  rcases h with h | h <;> omega

/-- Each file starts at most one past the end of the one before it. -/
abbrev Linked := Cover.Linked minTXID maxTXID

/-- Linked files that each add a transaction. -/
abbrev Chain := Cover.Chain minTXID maxTXID

/-- Each file starts exactly one past the end of the one before it. -/
abbrev Tiled := Cover.Tiled minTXID maxTXID

/-- The files come one after the other, and their ranges do not overlap. -/
abbrev Ascending := Cover.Ascending minTXID maxTXID

/-- The files past a given TXID continue right after it. -/
abbrev Resumes := Cover.Resumes minTXID maxTXID

/-- The largest `MaxTXID` of a list of files, zero if there is none. -/
abbrev top := Cover.top maxTXID

/-- The last TXID of a list of files that starts after a given TXID. -/
abbrev reach := Cover.reach maxTXID

/-- No file of the set extends the range that ends at a given TXID. -/
abbrev Closed := Cover.Closed minTXID maxTXID

theorem le_top {f : FileInfo} {fs : List FileInfo} (h : f ∈ fs) : f.maxTXID ≤ top fs :=
  Cover.le_top h

/-- `FileInfoSlice.MaxTXID`: the last TXID of the last file, zero if there is none. -/
def sliceMaxTXID (infos : List FileInfo) : Nat :=
  match infos.getLast? with
  | none => 0
  | some f => f.maxTXID

theorem sliceMaxTXID_eq_reach (infos : List FileInfo) : sliceMaxTXID infos = reach 0 infos := by
  by_cases h : infos = []
  · subst h
    rfl
  · rw [sliceMaxTXID, List.getLast?_eq_some_getLast h, reach, Cover.reach_eq_getLast 0 h]

end FileInfo

/-- The files of one level, as a client that keeps the listing contract returns them. -/
structure Listing where
  files : List FileInfo
  sorted : files.Pairwise FileInfo.KeyLE
  valid : ∀ f ∈ files, f.Valid

/-- A listing for every level.  Snapshots cover the database from its first transaction. -/
structure Listings where
  level : Nat → Listing
  snapshot_min : ∀ f ∈ (level snapshotLevel).files, f.minTXID = 1

/-- A file listed at some level `0` to `9`. -/
def Listings.Listed (ls : Listings) (f : FileInfo) : Prop :=
  ∃ n ≤ snapshotLevel, f ∈ (ls.level n).files

theorem Listings.Listed.valid {ls : Listings} {f : FileInfo} (h : ls.Listed f) : f.Valid := by
  obtain ⟨n, -, hf⟩ := h
  exact (ls.level n).valid f hf

/-! ## Clients -/

/-- An error of a storage backend. -/
abbrev ClientError := String

/-- An iterator over files.  `err` is what `Err` and `Close` report once `Next` is false. -/
structure FileIterator where
  items : List FileInfo
  err : Option ClientError
deriving DecidableEq

/-- The listing operation of a replica client.  `seek` is the least `MinTXID` wanted. -/
structure ReplicaClient where
  ltxFiles : (level : Nat) → (seek : Nat) → (useMetadata : Bool) →
    Except ClientError FileIterator

/-- The client whose listings are `ls`. -/
def Listings.client (ls : Listings) : ReplicaClient where
  ltxFiles level seek _ :=
    .ok ⟨(ls.level level).files.filter fun f => seek ≤ f.minTXID, none⟩

theorem Listings.client_ltxFiles (ls : Listings) (n : Nat) (b : Bool) :
    ls.client.ltxFiles n 0 b = .ok ⟨(ls.level n).files, none⟩ := by
  simp [client]

end Litestream
