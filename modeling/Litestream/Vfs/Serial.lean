import Litestream.Vfs.Expected
import Litestream.Vfs.Freshness

/-!
# Transactions of several connections

The write-enabled connections of one `VFS` read, write, sync and poll in any order.  A
transaction begins with a RESERVED lock and ends when that is given back, and a sync uploads
what the connection has written since its last one.  Between the conflict check of a sync and
its upload other connections take their steps.

A connection without dirty pages that takes the RESERVED lock adopts the newest TXID that has
been synced.  Its page index and its cache stay as they are, and may be of an older one.

`serialised_of_run` says that each upload has read the database that the uploads before it
leave, if the cache and the index have the newest pages when a transaction begins, no page
leaves the cache under a lock unless the index has it, and no upload of another connection
comes between a check and its upload.  A connection that has not polled writes over a page
that it has read in an older version (`adopted_stale`).
-/

namespace Litestream

namespace Vfs

open Overlay Run VFS

variable {ps : PageSize} {ι : Type}

/-- The page as the cache has it, or as the replica has it where the index says. -/
def VFSFile.view (replica : Replica ps) (f : VFSFile) (pgno : Nat) : Option Bytes :=
  (f.cache pgno).or ((lastWrite f.index pgno).bind replica.fetch)

/-- The second half of a sync, after the conflict check. -/
def VFS.finishSync [DecidableEq ι] (c : ι) (outcome : Outcome ps) (s : VFS ι ps) :
    VFS ι ps × Reply :=
  match outcome.file with
  | none => (s, .error .upload)
  | some file =>
    ({ s.setFile c ((s.file c).afterUpload outcome).1 with
      lastSyncedTXID := max s.lastSyncedTXID (s.file c).pendingTXID
      replica := s.replica.write file
      uploads := s.uploads ++ [(c, file)] }, ((s.file c).afterUpload outcome).2)

/-- A file that was uploaded, and what the transactions that it is of have read. -/
structure Commit (ι : Type) (ps : PageSize) where
  conn : ι
  file : LTXFile ps
  reads : List (Nat × Option Bytes)

/-- The connections of a `VFS`.  Of a page that was not dirty it is kept what a call has found. -/
structure Group (ι : Type) (ps : PageSize) where
  vfs : VFS ι ps
  /-- The conflict check has passed, and the upload is to come. -/
  syncing : ι → Bool
  polling : ι → Polling
  /-- The database that the replica had at the start. -/
  base : List (Nat × Bytes)
  baseTXID : Nat
  /-- The uploads since, in order. -/
  commits : List (Commit ι ps)
  /-- What each connection has found under its lock. -/
  snapshot : ι → List (Nat × Option Bytes)
  /-- What each connection has found in transactions that it is to sync. -/
  reads : ι → List (Nat × Option Bytes)

/-- What a connection does. -/
inductive GroupAction (ps : PageSize) where
  | lock (elock : LockType)
  | unlock (elock : LockType)
  | readAt (random : Bytes) (off len : Nat)
  | writeAt (b : Bytes) (off : Nat)
  | check
  | upload (outcome : Outcome ps)
  | pollLevel0
  | pollLevel1
  | pollApply
  | evict (pgno : Nat)

namespace Group

def file (s : Group ι ps) (c : ι) : VFSFile := s.vfs.file c

/-- The newest TXID. -/
def newest (s : Group ι ps) : Nat := s.baseTXID + s.commits.length

/-- The newest content of a page. -/
def content (s : Group ι ps) (k : Nat) : Option Bytes :=
  lastWrite (s.base ++ mergePages (s.commits.map Commit.file)) k

/-! ## Steps -/

section

variable [DecidableEq ι]

/-- Keeps what a call has found of a page, unless the page is dirty. -/
def note (s : Group ι ps) (c : ι) (pgno : Nat) : ι → List (Nat × Option Bytes) :=
  if lastWrite (s.file c).dirty pgno = none then
    Function.update s.snapshot c
      (s.snapshot c ++ [(pgno, (s.file c).view s.vfs.replica pgno)])
  else s.snapshot

/-- A lock that is not under another one begins afresh. -/
def lock (s : Group ι ps) (c : ι) (elock : LockType) : Group ι ps :=
  { s with
    vfs := (s.vfs.Lock c elock).1
    snapshot :=
      if (s.file c).lockType = .none then Function.update s.snapshot c [] else s.snapshot }

/-- What a transaction has found is kept if it leaves dirty pages. -/
def unlock (s : Group ι ps) (c : ι) (elock : LockType) : Group ι ps :=
  if elock ≠ .shared ∧ elock ≠ .none then s
  else
    { s with
      vfs := (s.vfs.Unlock c elock).1
      snapshot := Function.update s.snapshot c []
      reads :=
        if (s.file c).inTransaction then
          Function.update s.reads c
            (if (s.file c).dirty = [] then [] else s.reads c ++ s.snapshot c)
        else s.reads }

def readAt (s : Group ι ps) (c : ι) (random : Bytes) (off len : Nat) : Group ι ps :=
  let read := (s.file c).ReadAt s.vfs.replica random off len
  { s with
    vfs := s.vfs.setFile c read.1
    snapshot := if read.2.isOk then s.note c (off / ps.size + 1) else s.snapshot }

/-- A write of a part of a page reads the page. -/
def writeAt (s : Group ι ps) (c : ι) (b : Bytes) (off : Nat) : Group ι ps :=
  let write := s.vfs.WriteAt c b off
  { s with
    vfs := write.1
    snapshot :=
      if write.2.isOk ∧ (off % ps.size ≠ 0 ∨ b.length < ps.size) then s.note c (off / ps.size + 1)
      else s.snapshot }

def upload (s : Group ι ps) (c : ι) (outcome : Outcome ps) : Group ι ps :=
  { s with
    vfs := (s.vfs.finishSync c outcome).1
    syncing := Function.update s.syncing c false
    commits :=
      s.commits ++ (outcome.file.map fun file => ⟨c, file, s.reads c⟩).toList
    reads := if outcome.file.isSome then Function.update s.reads c [] else s.reads }

/-- A poll lists level 0, then level 1, and then applies what it has read. -/
def poll (s : Group ι ps) (c : ι) : GroupAction ps → Option (Group ι ps)
  | .pollLevel0 =>
    match s.polling c with
    | .idle =>
      match VFSFile.pollLevel s.vfs.replica 0 (s.file c).pos (s.file c).commit with
      | .ok p0 =>
        some { s with
          polling := Function.update s.polling c
            (.listed0 (s.file c).commit (s.file c).maxTXID1 p0) }
      | .error _ => some s
    | _ => none
  | .pollLevel1 =>
    match s.polling c with
    | .listed0 commit maxTXID1 p0 =>
      match VFSFile.pollLevel s.vfs.replica 1 maxTXID1 (VFSFile.baseCommit commit p0) with
      | .ok p1 => some { s with polling := Function.update s.polling c (.listed1 commit p0 p1) }
      | .error _ => some { s with polling := Function.update s.polling c .idle }
    | _ => none
  | .pollApply =>
    match s.polling c with
    | .listed1 commit p0 p1 =>
      some { s with
        vfs := s.vfs.setFile c ((s.file c).applyPolled commit p0 p1)
        polling := Function.update s.polling c .idle }
    | _ => none
  | _ => none

/-- A sync has the mutex of its connection from its check to its upload, and a listing of level 1
needs none.  SQLite writes in transactions only. -/
def step (s : Group ι ps) : ι × GroupAction ps → Option (Group ι ps)
  | (c, .lock elock) => if s.syncing c then none else some (s.lock c elock)
  | (c, .unlock elock) => if s.syncing c then none else some (s.unlock c elock)
  | (c, .readAt random off len) => if s.syncing c then none else some (s.readAt c random off len)
  | (c, .writeAt b off) =>
    if s.syncing c ∨ (s.file c).inTransaction = false then none else some (s.writeAt c b off)
  | (c, .check) =>
    if s.syncing c then none
    else if (s.file c).Syncs s.vfs.replica then
      some { s with syncing := Function.update s.syncing c true }
    else some s
  | (c, .upload outcome) =>
    if s.syncing c ∧ s.vfs.Fits c outcome then some (s.upload c outcome) else none
  | (c, .pollLevel0) => if s.syncing c then none else s.poll c .pollLevel0
  | (c, .pollLevel1) => s.poll c .pollLevel1
  | (c, .pollApply) => if s.syncing c then none else s.poll c .pollApply
  | (c, .evict pgno) =>
    some { s with
      vfs := s.vfs.setFile c
        { s.file c with cache := Function.update (s.file c).cache pgno none } }

end

/-! ## Serial transactions -/

/-- The uploads are of successive TXIDs, and each has read the database before it. -/
def SerialFrom : List (Nat × Bytes) → Nat → List (Commit ι ps) → Prop
  | _, _, [] => True
  | pages, txID, x :: commits =>
    x.file.minTXID = txID + 1 ∧ x.file.maxTXID = txID + 1 ∧
      (∀ r ∈ x.reads, r.2 = lastWrite pages r.1) ∧
      SerialFrom (pages ++ x.file.pages) (txID + 1) commits

instance decidableSerialFrom : ∀ (pages : List (Nat × Bytes)) (txID : Nat)
    (commits : List (Commit ι ps)), Decidable (SerialFrom pages txID commits)
  | _, _, [] => .isTrue trivial
  | pages, txID, x :: commits =>
    have := decidableSerialFrom (pages ++ x.file.pages) (txID + 1) commits
    inferInstanceAs (Decidable (_ ∧ _ ∧ (∀ r ∈ x.reads, _) ∧ _))

/-- The transactions are serial from the start, and no file of one was replaced. -/
structure Serialised (s : Group ι ps) : Prop where
  serial : SerialFrom s.base s.baseTXID s.commits
  stored : ∀ x ∈ s.commits, x.file ∈ s.vfs.replica.level 0

/-! ## Connections that are up to date -/

/-- What a read of a page finds. -/
inductive Sees (replica : Replica ps) (f : VFSFile) (k : Nat) : Option Bytes → Prop
  | cached {data : Bytes} (h : f.cache k = some data) : Sees replica f k (some data)
  | fetched {e : PageIndexElem} {data : Bytes} (hcache : f.cache k = none)
      (hindex : lastWrite f.index k = some e) (hfetch : replica.fetch e = some data) :
      Sees replica f k (some data)
  | absent (hcache : f.cache k = none) (hindex : lastWrite f.index k = none) :
      Sees replica f k none

/-- The lock begins a transaction. -/
def Begins (s : Group ι ps) (c : ι) (elock : LockType) : Prop :=
  (s.file c).lockType.toNat ≤ elock.toNat ∧ LockType.reserved.toNat ≤ elock.toNat ∧
    (s.file c).inTransaction = false ∧ (s.vfs.writeFile = none ∨ s.vfs.writeFile = some c)

/-- A transaction that begins at the newest TXID finds every page in its newest version.  A page
that leaves the cache under a lock is in the index.  At an upload the conflict check would pass
again. -/
def Informed (s : Group ι ps) : ι × GroupAction ps → Prop
  | (c, .lock elock) =>
    s.Begins c elock → (adopt s.vfs.lastSyncedTXID (s.file c)).expectedTXID = s.newest →
      ∀ k, 1 ≤ k → lastWrite (s.file c).dirty k = none →
        Sees s.vfs.replica (s.file c) k (s.content k)
  | (c, .evict pgno) =>
    LockType.shared.toNat ≤ (s.file c).lockType.toNat → lastWrite (s.file c).dirty pgno = none →
      ∀ data, (s.file c).cache pgno = some data →
        (lastWrite (s.file c).index pgno).bind s.vfs.replica.fetch = some data
  | (c, .upload _) => (s.file c).checkForConflict s.vfs.replica = .ok ()
  | _ => True

/-- The connections are open for writing, and none of them has done anything. -/
structure Opened (s : Group ι ps) : Prop where
  pageSize : ∀ c, (s.file c).pageSize = ps.size
  writeEnabled : ∀ c, (s.file c).writeEnabled = true
  inTransaction : ∀ c, (s.file c).inTransaction = false
  dirty : ∀ c, (s.file c).dirty = []
  disabling : ∀ c, (s.vfs.conn c).disabling = false
  pendingTXID : ∀ c, (s.file c).pendingTXID = (s.file c).expectedTXID + 1
  expectedTXID : ∀ c, (s.file c).expectedTXID ≤ s.baseTXID
  /-- A connection that was opened earlier finds the newest transaction in level 0. -/
  detects : ∀ c, (s.file c).expectedTXID = s.baseTXID ∨
    ∃ g ∈ s.vfs.replica.level 0, g.minTXID = s.baseTXID
  listed : ∀ g ∈ s.vfs.replica.level 0, g.maxTXID ≤ s.baseTXID
  lastSyncedTXID : s.vfs.lastSyncedTXID ≤ s.baseTXID
  syncing : ∀ c, s.syncing c = false
  commits : s.commits = []
  snapshot : ∀ c, s.snapshot c = []
  reads : ∀ c, s.reads c = []

/-! ## Serial runs -/

variable {commits : List (Commit ι ps)} {x : Commit ι ps} {pages : List (Nat × Bytes)} {txID : Nat}

theorem serialFrom_append :
    SerialFrom pages txID (commits ++ [x]) ↔ SerialFrom pages txID commits ∧
      x.file.minTXID = txID + commits.length + 1 ∧ x.file.maxTXID = txID + commits.length + 1 ∧
      ∀ r ∈ x.reads, r.2 = lastWrite (pages ++ mergePages (commits.map Commit.file)) r.1 := by
  induction commits generalizing pages txID with
  | nil => simp [SerialFrom, mergePages]
  | cons y commits ih =>
      have hpages : pages ++ mergePages ((y :: commits).map Commit.file) =
          pages ++ y.file.pages ++ mergePages (commits.map Commit.file) := by
        rw [List.map_cons, mergePages, mergePages, List.flatMap_cons, List.append_assoc]
      have hlength : txID + (y :: commits).length + 1 = txID + 1 + commits.length + 1 := by
        rw [List.length_cons]
        omega
      rw [List.cons_append, SerialFrom, SerialFrom, ih, hpages, hlength]
      tauto

/-! ## What a read finds -/

section Seeing

variable {replica : Replica ps} {f f' : VFSFile} {k j : Nat} {p : Option Bytes}
  {file : LTXFile ps} {e : PageIndexElem}

theorem Sees.view (h : Sees replica f k p) : f.view replica k = p := by
  rw [VFSFile.view]
  cases h with
  | cached h => rw [h, Option.some_or]
  | fetched hcache hindex hfetch => rw [hcache, hindex, Option.none_or, Option.bind_some, hfetch]
  | absent hcache hindex => rw [hcache, hindex, Option.none_or, Option.bind_none]

theorem Sees.of_same (h : Sees replica f k p) (hcache : f'.cache k = f.cache k)
    (hindex : f'.index = f.index) : Sees replica f' k p := by
  cases h with
  | cached h => exact .cached (hcache.trans h)
  | fetched h hentry hfetch => exact .fetched (hcache.trans h) (hindex ▸ hentry) hfetch
  | absent h hentry => exact .absent (hcache.trans h) (hindex ▸ hentry)

theorem fetch_write (hfresh : replica.Fresh file) (h : replica.fetch e ≠ none) :
    (replica.write file).fetch e = replica.fetch e := by
  have hlevel : (replica.write file).level = (replica.put file hfresh).level := by
    funext n
    rw [Replica.write, Replica.put]
    dsimp only
    rw [if_pos hfresh]
  rw [← fetch_put hfresh h, Replica.fetch, Replica.fetch, Replica.fetchPage, Replica.fetchPage,
    hlevel]

/-- An upload under a new name leaves what is found. -/
theorem Sees.write (h : Sees replica f k p) (hfresh : replica.Fresh file) :
    Sees (replica.write file) f k p := by
  cases h with
  | cached h => exact .cached h
  | fetched hcache hindex hfetch =>
      refine .fetched hcache hindex ((fetch_write hfresh ?_).trans hfetch)
      rw [hfetch]
      exact Option.some_ne_none _
  | absent hcache hindex => exact .absent hcache hindex

/-- The file is the same, or has fetched a page into the cache. -/
def Filled (replica : Replica ps) (f f' : VFSFile) : Prop :=
  f' = f ∨ ∃ k e data, f.cache k = none ∧ lastWrite f.index k = some e ∧
    replica.fetch e = some data ∧ f' = { f with cache := Function.update f.cache k (some data) }

theorem Filled.eq (h : Filled replica f f') : ∃ cache, f' = { f with cache := cache } := by
  rcases h with rfl | ⟨_, _, _, -, -, -, rfl⟩
  · exact ⟨_, rfl⟩
  · exact ⟨_, rfl⟩

theorem Sees.filled (h : Sees replica f k p) (hfilled : Filled replica f f') :
    Sees replica f' k p := by
  rcases hfilled with rfl | ⟨j, e, data, hnone, hentry, hdata, rfl⟩
  · exact h
  by_cases hj : k = j
  · subst hj
    cases h with
    | cached h =>
        rw [hnone] at h
        cases h
    | fetched hcache hindex hfetch =>
        obtain rfl := Option.some.inj (hindex.symm.trans hentry)
        obtain rfl := Option.some.inj (hfetch.symm.trans hdata)
        exact .cached (Function.update_self _ _ _)
    | absent hcache hindex =>
        rw [hentry] at hindex
        cases hindex
  · exact h.of_same (Function.update_of_ne hj _ _) rfl

theorem readAt_filled (replica : Replica ps) (random : Bytes) (off len : Nat) (f : VFSFile) :
    Filled replica f (f.ReadAt replica random off len).1 := by
  rw [VFSFile.ReadAt]
  split
  · exact .inl rfl
  dsimp only
  split
  · split
    · exact .inl rfl
    · split <;> exact .inl rfl
  · split
    · exact .inl rfl
    · next hcache =>
      split
      · exact .inl rfl
      · next hindex =>
        split
        · exact .inl rfl
        · next hfetch => exact .inr ⟨_, _, _, hcache, hindex, hfetch, rfl⟩

/-- A read of a clean page that succeeds finds the page. -/
theorem sees_of_readAt {random : Bytes} {off len : Nat} (hsize : f.pageSize = ps.size)
    (hwrite : f.writeEnabled = true) (hclean : lastWrite f.dirty (off / ps.size + 1) = none)
    (hok : (f.ReadAt replica random off len).2.isOk = true) :
    Sees replica f (off / ps.size + 1) (f.view replica (off / ps.size + 1)) := by
  rw [readAt_clean hsize hwrite (dirtyPage_eq_none_iff.mpr hclean)] at hok
  rw [VFSFile.view]
  cases hcache : f.cache (off / ps.size + 1) with
  | some data => exact .cached hcache
  | none =>
      rw [hcache] at hok
      rw [Option.none_or]
      cases hindex : lastWrite f.index (off / ps.size + 1) with
      | none => exact .absent hcache hindex
      | some e =>
          rw [hindex] at hok
          dsimp only at hok
          rw [Option.bind_some]
          cases hfetch : replica.fetch e with
          | none =>
              rw [hfetch] at hok
              cases hok
          | some data => exact .fetched hcache hindex hfetch

theorem readPageForWrite_filled (replica : Replica ps) (k : Nat) (f : VFSFile) :
    Filled replica f (f.readPageForWrite replica k).1 := by
  rw [VFSFile.readPageForWrite]
  cases hcache : f.cache k with
  | some data => exact .inl rfl
  | none =>
      dsimp only
      cases hdata : (lastWrite f.index k).bind replica.fetch with
      | none => exact .inl rfl
      | some data =>
          dsimp only
          obtain ⟨e, hindex, hfetch⟩ := Option.bind_eq_some_iff.mp hdata
          split
          · exact .inl rfl
          · exact .inr ⟨k, e, data, hcache, hindex, hfetch, rfl⟩

/-- A page that is clean after a write was so before. -/
theorem clean_writeToBuffer {data : Bytes}
    (h : lastWrite (f.writeToBuffer k data).dirty j = none) : lastWrite f.dirty j = none := by
  rw [VFSFile.writeToBuffer] at h
  split at h
  · exact h
  · rw [lastWrite_append, Option.or_eq_none_iff] at h
    exact h.2

/-- What a write does to the pages that stay clean. -/
theorem writeAt_filled (replica : Replica ps) (b : Bytes) (off : Nat) (f : VFSFile) :
    ∃ g, Filled replica f g ∧ (f.WriteAt replica b off).1.cache = g.cache ∧
      (f.WriteAt replica b off).1.index = f.index ∧
      ∀ j, lastWrite (f.WriteAt replica b off).1.dirty j = none → lastWrite f.dirty j = none := by
  have hbuffer : ∀ (k : Nat) (data : Bytes) (g : VFSFile),
      (g.writeToBuffer k data).cache = g.cache ∧ (g.writeToBuffer k data).index = g.index :=
    fun k data g => by
      obtain ⟨_, _, _, heq⟩ := writeToBuffer_eq k data g
      rw [heq]
      exact ⟨rfl, rfl⟩
  rw [VFSFile.WriteAt]
  split
  · exact ⟨f, .inl rfl, rfl, rfl, fun _ h => h⟩
  dsimp only
  split
  · exact ⟨f, .inl rfl, rfl, rfl, fun _ h => h⟩
  split
  · exact ⟨f, .inl rfl, rfl, rfl, fun _ h => h⟩
  split
  · split
    · exact ⟨f, .inl rfl, rfl, rfl, fun _ h => h⟩
    · refine ⟨f, .inl rfl, (hbuffer _ _ _).1, (hbuffer _ _ _).2, fun j h => ?_⟩
      have hclean := clean_writeToBuffer h
      exact hclean
  · have hfilled := readPageForWrite_filled replica (off / f.pageSize + 1) f
    obtain ⟨cache, heq⟩ := hfilled.eq
    refine ⟨_, hfilled, (hbuffer _ _ _).1, ?_, fun j h => ?_⟩
    · rw [(hbuffer _ _ _).2, heq]
    · have hclean := clean_writeToBuffer h
      rw [heq] at hclean
      exact hclean

end Seeing

/-! ## A connection -/

/-- A transaction at the newest TXID has found the newest pages, and finds them.  What was found
under a lock only is found again. -/
structure Member (replica : Replica ps) (newest : Nat) (content : Nat → Option Bytes) (f : VFSFile)
    (snapshot reads : List (Nat × Option Bytes)) : Prop where
  pageSize : f.pageSize = ps.size
  writeEnabled : f.writeEnabled = true
  locked : f.inTransaction = true → LockType.shared.toNat ≤ f.lockType.toNat
  pendingTXID : f.pendingTXID = f.expectedTXID + 1
  expectedTXID : f.expectedTXID ≤ newest
  detects : f.expectedTXID = newest ∨ ∃ g ∈ replica.level 0, g.minTXID = newest
  settled : f.inTransaction = false → f.dirty = [] → reads = []
  reads : f.expectedTXID = newest → ∀ r ∈ reads, r.2 = content r.1
  found : f.inTransaction = true → f.expectedTXID = newest → ∀ r ∈ snapshot, r.2 = content r.1
  current : f.inTransaction = true → f.expectedTXID = newest →
    ∀ k, 1 ≤ k → lastWrite f.dirty k = none → Sees replica f k (content k)
  reading : f.inTransaction = false → LockType.shared.toNat ≤ f.lockType.toNat →
    ∀ r ∈ snapshot, 1 ≤ r.1 ∧ lastWrite f.dirty r.1 = none ∧ Sees replica f r.1 r.2

section Members

variable {replica : Replica ps} {newest : Nat} {content : Nat → Option Bytes} {f : VFSFile}
  {snapshot reads : List (Nat × Option Bytes)}

theorem shared_le_of_ne {elock : LockType} (h : elock ≠ .none) :
    LockType.shared.toNat ≤ elock.toNat := by
  cases elock with
  | none => exact absurd rfl h
  | shared | reserved | pending | exclusive => decide

/-- A lock that begins no transaction. -/
theorem Member.relock (h : Member replica newest content f snapshot reads) {elock : LockType}
    (hle : f.lockType.toNat ≤ elock.toNat) :
    Member replica newest content { f with lockType := elock }
      (if f.lockType = .none then [] else snapshot) reads :=
  { h with
    locked := fun hin => (h.locked hin).trans hle
    found := fun hin hnewest r hr => by
      split at hr
      · cases hr
      · exact h.found hin hnewest r hr
    current := fun hin hnewest k hk hclean => (h.current hin hnewest k hk hclean).of_same rfl rfl
    reading := fun hin _ r hr => by
      split at hr
      · cases hr
      · next hne =>
        obtain ⟨hone, hclean, hsees⟩ := h.reading hin (shared_le_of_ne hne) r hr
        exact ⟨hone, hclean, hsees.of_same rfl rfl⟩ }

/-- A lock that begins a transaction. -/
theorem Member.begin (h : Member replica newest content f snapshot reads) {elock : LockType}
    {lastSyncedTXID : Nat} (hlast : lastSyncedTXID ≤ newest) (hin : f.inTransaction = false)
    (hle : LockType.reserved.toNat ≤ elock.toNat)
    (hcurrent : (adopt lastSyncedTXID f).expectedTXID = newest →
      ∀ k, 1 ≤ k → lastWrite f.dirty k = none → Sees replica f k (content k)) :
    Member replica newest content
      { adopt lastSyncedTXID f with inTransaction := true, lockType := elock }
      (if f.lockType = .none then [] else snapshot) reads := by
  have hlocked : LockType.shared.toNat ≤ elock.toNat := le_trans (by decide) hle
  have hfound : (adopt lastSyncedTXID f).expectedTXID = newest →
      ∀ r ∈ (if f.lockType = .none then [] else snapshot), r.2 = content r.1 := by
    intro hnewest r hr
    split at hr
    · cases hr
    · next hne =>
      obtain ⟨hone, hclean, hsees⟩ := h.reading hin (shared_le_of_ne hne) r hr
      rw [← hsees.view, (hcurrent hnewest r.1 hone hclean).view]
  rw [adopt] at hcurrent hfound ⊢
  split at hcurrent
  · next hadopt =>
    -- the newest TXID is not the one that the connection has expected
    have hreads := h.settled hin hadopt.2
    rw [if_pos hadopt] at hfound ⊢
    exact {
      pageSize := h.pageSize
      writeEnabled := h.writeEnabled
      locked := fun _ => hlocked
      pendingTXID := rfl
      expectedTXID := hlast
      detects := .inr (h.detects.resolve_left fun heq => by
        have := hadopt.1
        omega)
      settled := fun hfalse => by cases hfalse
      reads := fun _ r hr => by
        rw [hreads] at hr
        cases hr
      found := fun _ => hfound
      current := fun _ hnewest k hk hclean => (hcurrent hnewest k hk hclean).of_same rfl rfl
      reading := fun hfalse => by cases hfalse }
  · next hadopt =>
    rw [if_neg hadopt] at hfound ⊢
    exact {
      pageSize := h.pageSize
      writeEnabled := h.writeEnabled
      locked := fun _ => hlocked
      pendingTXID := h.pendingTXID
      expectedTXID := h.expectedTXID
      detects := h.detects
      settled := fun hfalse => by cases hfalse
      reads := h.reads
      found := fun _ => hfound
      current := fun _ hnewest k hk hclean => (hcurrent hnewest k hk hclean).of_same rfl rfl
      reading := fun hfalse => by cases hfalse }

theorem Member.unlock (h : Member replica newest content f snapshot reads) {elock : LockType}
    {f' : VFSFile} (hunlock : f.Unlock elock = .ok f') :
    Member replica newest content f' []
      (if f.inTransaction then if f.dirty = [] then [] else reads ++ snapshot else reads) := by
  rw [VFSFile.Unlock] at hunlock
  split at hunlock
  · cases hunlock
  obtain rfl := Except.ok.inj hunlock
  have hout : (f.inTransaction && !f.writeEnabled) = false := by
    rw [h.writeEnabled, Bool.not_true, Bool.and_false]
  exact {
    pageSize := h.pageSize
    writeEnabled := h.writeEnabled
    locked := fun hin => absurd (hout.symm.trans hin) Bool.false_ne_true
    pendingTXID := h.pendingTXID
    expectedTXID := h.expectedTXID
    detects := h.detects
    settled := fun _ hdirty => by
      dsimp only at hdirty
      split
      · rfl
      · next hin => exact h.settled (eq_false_of_ne_true hin) hdirty
    reads := fun hnewest r hr => by
      split at hr
      · next hin =>
        split at hr
        · cases hr
        · rcases List.mem_append.mp hr with hr | hr
          · exact h.reads hnewest r hr
          · exact h.found hin hnewest r hr
      · exact h.reads hnewest r hr
    found := fun _ _ r hr => by cases hr
    current := fun hin => absurd (hout.symm.trans hin) Bool.false_ne_true
    reading := fun _ _ r hr => by cases hr }

theorem Member.readAt {ps : PageSize} {replica : Replica ps}
    (h : Member replica newest content f snapshot reads)
    (random : Bytes) (off len : Nat) {snapshot' : List (Nat × Option Bytes)}
    (hsnapshot : snapshot' = snapshot ∨
      (f.ReadAt replica random off len).2.isOk = true ∧
        lastWrite f.dirty (off / ps.size + 1) = none ∧
        snapshot' = snapshot ++ [(off / ps.size + 1, f.view replica (off / ps.size + 1))]) :
    Member replica newest content (f.ReadAt replica random off len).1 snapshot' reads := by
  have hfilled := readAt_filled replica random off len f
  have hnoted : ∀ r ∈ snapshot', r ∈ snapshot ∨ 1 ≤ r.1 ∧ lastWrite f.dirty r.1 = none ∧
      Sees replica f r.1 r.2 := by
    intro r hr
    rcases hsnapshot with rfl | ⟨hok, hclean, rfl⟩
    · exact .inl hr
    · rcases List.mem_append.mp hr with hr | hr
      · exact .inl hr
      · rw [List.mem_singleton.mp hr]
        exact .inr ⟨Nat.le_add_left _ _, hclean,
          sees_of_readAt h.pageSize h.writeEnabled hclean hok⟩
  obtain ⟨cache, heq⟩ := hfilled.eq
  have hsees : ∀ {k p}, Sees replica f k p → Sees replica { f with cache := cache } k p := fun h =>
    h.filled (heq ▸ hfilled)
  rw [heq]
  exact { h with
    found := fun hin hnewest r hr => by
      rcases hnoted r hr with hr | ⟨hone, hclean, hr⟩
      · exact h.found hin hnewest r hr
      · rw [← hr.view, (h.current hin hnewest r.1 hone hclean).view]
    current := fun hin hnewest k hk hclean => hsees (h.current hin hnewest k hk hclean)
    reading := fun hin hlock r hr => by
      rcases hnoted r hr with hr | ⟨hone, hclean, hr⟩
      · obtain ⟨hone, hclean, hr⟩ := h.reading hin hlock r hr
        exact ⟨hone, hclean, hsees hr⟩
      · exact ⟨hone, hclean, hsees hr⟩ }

/-- A write in a transaction. -/
theorem Member.writeAt {ps : PageSize} {replica : Replica ps}
    (h : Member replica newest content f snapshot reads)
    (hin : f.inTransaction = true) (b : Bytes) (off : Nat) {snapshot' : List (Nat × Option Bytes)}
    (hsnapshot : snapshot' = snapshot ∨ lastWrite f.dirty (off / ps.size + 1) = none ∧
      snapshot' = snapshot ++ [(off / ps.size + 1, f.view replica (off / ps.size + 1))]) :
    Member replica newest content (f.WriteAt replica b off).1 snapshot' reads := by
  obtain ⟨g, hfilled, hcache, hindex, hdirty⟩ := writeAt_filled replica b off f
  obtain ⟨cache, commit, dirty, bufferFile, bufferNextOff, heq⟩ := writeAt_eq replica b off f
  have hgindex : g.index = f.index := by
    obtain ⟨_, hg⟩ := hfilled.eq
    rw [hg]
  rw [heq] at hcache hdirty ⊢
  exact { h with
    settled := fun hout => absurd (hin.symm.trans hout) Bool.true_eq_false.mp
    found := fun _ hnewest r hr => by
      rcases hsnapshot with rfl | ⟨hclean, rfl⟩
      · exact h.found hin hnewest r hr
      · rcases List.mem_append.mp hr with hr | hr
        · exact h.found hin hnewest r hr
        · rw [List.mem_singleton.mp hr]
          exact (h.current hin hnewest _ (Nat.le_add_left _ _) hclean).view
    current := fun _ hnewest k hk hclean =>
      ((h.current hin hnewest k hk (hdirty k hclean)).filled hfilled).of_same
        (congrFun hcache k) hgindex.symm
    reading := fun hout => absurd (hin.symm.trans hout) Bool.true_eq_false.mp }

/-- A poll under a lock leaves the index and the cache. -/
theorem Member.poll (h : Member replica newest content f snapshot reads) (commit : Nat)
    (p0 p1 : VFSFile.LevelPoll) :
    Member replica newest content (f.applyPolled commit p0 p1) snapshot reads := by
  have hsame : LockType.shared.toNat ≤ f.lockType.toNat →
      (f.applyPolled commit p0 p1).cache = f.cache ∧
        (f.applyPolled commit p0 p1).index = f.index := by
    intro hlock
    rw [VFSFile.applyPolled, VFSFile.applyPoll]
    split
    · exact ⟨rfl, rfl⟩
    · dsimp only
      exact ⟨rfl, rfl⟩
  have heq : ∃ index pending pendingReplace cache commit' pos maxTXID1,
      f.applyPolled commit p0 p1 =
        { f with
          index := index
          pending := pending
          pendingReplace := pendingReplace
          cache := cache
          commit := commit'
          pos := pos
          maxTXID1 := maxTXID1 } := by
    rw [VFSFile.applyPolled]
    split
    · exact ⟨_, _, _, _, _, _, _, rfl⟩
    · obtain ⟨_, _, _, _, _, _, _, heq⟩ := applyPoll_eq p0 p1 f
      rw [heq]
      exact ⟨_, _, _, _, _, _, _, rfl⟩
  obtain ⟨index, pending, pendingReplace, cache, commit', pos, maxTXID1, heq⟩ := heq
  rw [heq] at hsame ⊢
  exact { h with
    current := fun hin hnewest k hk hclean =>
      (h.current hin hnewest k hk hclean).of_same (congrFun (hsame (h.locked hin)).1 k)
        (hsame (h.locked hin)).2
    reading := fun hin hlock r hr => by
      obtain ⟨hone, hclean, hsees⟩ := h.reading hin hlock r hr
      exact ⟨hone, hclean, hsees.of_same (congrFun (hsame hlock).1 r.1) (hsame hlock).2⟩ }

/-- A page that leaves the cache is found in the index. -/
theorem Sees.evict {k pgno : Nat} {p : Option Bytes} (h : Sees replica f k p)
    (hindex : k = pgno → ∀ data, f.cache pgno = some data →
      (lastWrite f.index pgno).bind replica.fetch = some data) :
    Sees replica { f with cache := Function.update f.cache pgno none } k p := by
  by_cases hk : k = pgno
  · subst hk
    have hnone : Function.update f.cache k none k = none := Function.update_self _ _ _
    cases h with
    | cached h =>
        obtain ⟨e, hentry, hfetch⟩ := Option.bind_eq_some_iff.mp (hindex rfl _ h)
        exact .fetched hnone hentry hfetch
    | fetched _ hentry hfetch => exact .fetched hnone hentry hfetch
    | absent _ hentry => exact .absent hnone hentry
  · exact h.of_same (Function.update_of_ne hk _ _) rfl

theorem Member.evict (h : Member replica newest content f snapshot reads) {pgno : Nat}
    (hindex : LockType.shared.toNat ≤ f.lockType.toNat → lastWrite f.dirty pgno = none →
      ∀ data, f.cache pgno = some data →
        (lastWrite f.index pgno).bind replica.fetch = some data) :
    Member replica newest content { f with cache := Function.update f.cache pgno none } snapshot
      reads :=
  { h with
    current := fun hin hnewest k hk hclean =>
      (h.current hin hnewest k hk hclean).evict fun heq =>
        hindex (h.locked hin) (heq ▸ hclean)
    reading := fun hin hlock r hr => by
      obtain ⟨hone, hclean, hsees⟩ := h.reading hin hlock r hr
      exact ⟨hone, hclean, hsees.evict fun heq => hindex hlock (heq ▸ hclean)⟩ }

/-- An upload moves the counters, and leaves clean pages clean and in the cache. -/
theorem afterUpload_eq {outcome : Outcome ps} {file : LTXFile ps} (hfile : file ∈ outcome.file)
    (f : VFSFile) : ∃ cache dirty bufferFile bufferNextOff, (f.afterUpload outcome).1 =
      { f with
        expectedTXID := f.pendingTXID
        pendingTXID := f.pendingTXID + 1
        pos := f.pendingTXID
        cache := cache
        dirty := dirty
        bufferFile := bufferFile
        bufferNextOff := bufferNextOff } ∧
      ∀ k, lastWrite f.dirty k = none → lastWrite dirty k = none ∧ cache k = f.cache k := by
  have huploaded : ∀ k, lastWrite f.dirty k = none → f.uploaded.cache k = f.cache k :=
    fun k hclean => by
      rw [cache_uploaded, dirtyPage_eq_none_iff.mpr hclean, Option.none_or]
  cases outcome with
  | failed => cases hfile
  | stored file => exact ⟨_, _, _, _, rfl, fun k hclean => ⟨rfl, huploaded k hclean⟩⟩
  | unread file => exact ⟨_, _, _, _, rfl, fun k hclean => ⟨hclean, rfl⟩⟩
  | uncleared file => exact ⟨_, _, _, _, rfl, fun k hclean => ⟨rfl, huploaded k hclean⟩⟩

/-- The connection of an upload of the next TXID. -/
theorem Member.upload (h : Member replica newest content f snapshot reads)
    (hin : f.inTransaction = false) (hexpected : f.expectedTXID = newest) {outcome : Outcome ps}
    {file : LTXFile ps} (hfile : file ∈ outcome.file) (hfresh : replica.Fresh file)
    (content' : Nat → Option Bytes) :
    Member (replica.write file) (newest + 1) content' (f.afterUpload outcome).1 snapshot [] := by
  obtain ⟨cache, dirty, bufferFile, bufferNextOff, heq, hclean⟩ := afterUpload_eq hfile f
  have hnext : f.pendingTXID = newest + 1 := by rw [h.pendingTXID, hexpected]
  rw [heq]
  exact {
    pageSize := h.pageSize
    writeEnabled := h.writeEnabled
    locked := h.locked
    pendingTXID := rfl
    expectedTXID := hnext.le
    detects := .inl hnext
    settled := fun _ _ => rfl
    reads := fun _ r hr => by cases hr
    found := fun htrue => absurd (hin.symm.trans htrue) Bool.false_ne_true
    current := fun htrue => absurd (hin.symm.trans htrue) Bool.false_ne_true
    reading := fun _ hlock r hr => by
      obtain ⟨hone, hr, hsees⟩ := h.reading hin hlock r hr
      obtain ⟨hdirty, hcache⟩ := hclean r.1 hr
      exact ⟨hone, hdirty, (hsees.write hfresh).of_same hcache rfl⟩ }

/-- Another connection of an upload no longer expects the newest TXID. -/
theorem Member.advance (h : Member replica newest content f snapshot reads) {file : LTXFile ps}
    (hlevel : file.info.level = 0) (htxid : file.minTXID = newest + 1) (hfresh : replica.Fresh file)
    (content' : Nat → Option Bytes) :
    Member (replica.write file) (newest + 1) content' f snapshot reads := by
  have hold : f.expectedTXID ≠ newest + 1 := Nat.ne_of_lt (Nat.lt_succ_of_le h.expectedTXID)
  exact { h with
    expectedTXID := h.expectedTXID.trans (Nat.le_succ _)
    detects := .inr ⟨file, hlevel ▸ mem_write_self replica file, htxid⟩
    reads := fun hnew => absurd hnew hold
    found := fun _ hnew => absurd hnew hold
    current := fun _ hnew => absurd hnew hold
    reading := fun hin hlock r hr => by
      obtain ⟨hone, hclean, hsees⟩ := h.reading hin hlock r hr
      exact ⟨hone, hclean, hsees.write hfresh⟩ }

/-- The conflict check passes for the newest TXID only. -/
theorem Member.expected_eq (h : Member replica newest content f snapshot reads)
    (hcheck : f.checkForConflict replica = .ok ()) : f.expectedTXID = newest := by
  rcases h.detects with heq | ⟨g, hg, hmin⟩
  · exact heq
  refine Nat.le_antisymm h.expectedTXID (Nat.not_lt.mp fun hlt => ?_)
  obtain ⟨remote, hconflict⟩ := Writers.conflict_of_mem hg (hmin.symm ▸ hlt)
  rw [hcheck] at hconflict
  cases hconflict

end Members

/-! ## The group -/

structure Inv (s : Group ι ps) : Prop where
  member : ∀ c, Member s.vfs.replica s.newest s.content (s.file c) (s.snapshot c) (s.reads c)
  disabling : ∀ c, (s.vfs.conn c).disabling = false
  syncing : ∀ c, s.syncing c = true → (s.file c).inTransaction = false
  lastSyncedTXID : s.vfs.lastSyncedTXID ≤ s.newest
  listed : ∀ g ∈ s.vfs.replica.level 0, g.maxTXID ≤ s.newest
  serialised : s.Serialised

variable {s s' : Group ι ps} {c : ι}

theorem Opened.inv (h : s.Opened) : s.Inv := by
  have hnewest : s.newest = s.baseTXID := by rw [newest, h.commits, List.length_nil, Nat.add_zero]
  refine ⟨fun c => ?_, h.disabling, fun c hc => ?_, hnewest ▸ h.lastSyncedTXID,
    hnewest ▸ h.listed, ?_⟩
  · rw [h.snapshot, h.reads]
    exact {
      pageSize := h.pageSize c
      writeEnabled := h.writeEnabled c
      locked := fun hin => absurd ((h.inTransaction c).symm.trans hin) Bool.false_ne_true
      pendingTXID := h.pendingTXID c
      expectedTXID := hnewest ▸ h.expectedTXID c
      detects := hnewest ▸ h.detects c
      settled := fun _ _ => rfl
      reads := fun _ r hr => by cases hr
      found := fun _ _ r hr => by cases hr
      current := fun hin => absurd ((h.inTransaction c).symm.trans hin) Bool.false_ne_true
      reading := fun _ _ r hr => by cases hr }
  · rw [h.syncing] at hc
    cases hc
  · refine ⟨?_, ?_⟩
    · rw [h.commits]
      trivial
    · rw [h.commits]
      rintro x ⟨⟩

section

variable [DecidableEq ι]

/-- A call of one connection: what it makes of its file, and what it leaves. -/
structure Own (c : ι) (f : VFSFile) (vfs vfs' : VFS ι ps) : Prop where
  file : ∀ c', vfs'.file c' = if c' = c then f else vfs.file c'
  disabling : ∀ c', (vfs'.conn c').disabling = (vfs.conn c').disabling
  replica : vfs'.replica = vfs.replica
  lastSyncedTXID : vfs'.lastSyncedTXID = vfs.lastSyncedTXID

theorem own_self (vfs : VFS ι ps) (c : ι) : Own c (vfs.file c) vfs vfs where
  file c' := by
    split
    · next heq => rw [heq]
    · rfl
  disabling _ := rfl
  replica := rfl
  lastSyncedTXID := rfl

theorem own_setFile (vfs : VFS ι ps) (c : ι) (f : VFSFile) (writeFile : Option ι) :
    Own c f vfs { vfs.setFile c f with writeFile := writeFile } where
  file c' := file_setConn vfs c c' { vfs.conn c with file := f }
  disabling c' := by
    rw [VFS.setFile, VFS.setConn]
    dsimp only
    rw [Function.update_apply]
    split
    · next heq => rw [heq]
    · rfl
  replica := rfl
  lastSyncedTXID := rfl

theorem Inv.of_own (h : s.Inv) {f : VFSFile} (hown : Own c f s.vfs s'.vfs)
    (hsame : s'.base = s.base ∧ s'.baseTXID = s.baseTXID ∧ s'.commits = s.commits)
    (hothers : ∀ c', c' ≠ c → s'.syncing c' = s.syncing c' ∧ s'.snapshot c' = s.snapshot c' ∧
      s'.reads c' = s.reads c')
    (hmember : Member s.vfs.replica s.newest s.content f (s'.snapshot c) (s'.reads c))
    (hsyncing : s'.syncing c = true → f.inTransaction = false) : s'.Inv := by
  obtain ⟨hbase, hbaseTXID, hcommits⟩ := hsame
  have hnewest : s'.newest = s.newest := by rw [newest, newest, hbaseTXID, hcommits]
  have hcontent : s'.content = s.content := by
    funext k
    rw [content, content, hbase, hcommits]
  have hfile : s'.file c = f := (hown.file c).trans (if_pos rfl)
  have hfiles : ∀ c', c' ≠ c → s'.file c' = s.file c' := fun c' hne =>
    (hown.file c').trans (if_neg hne)
  refine ⟨fun c' => ?_, fun c' => (hown.disabling c').trans (h.disabling c'), fun c' hc' => ?_, ?_,
    ?_, ?_, ?_⟩
  · rw [hown.replica, hnewest, hcontent]
    by_cases heq : c' = c
    · rw [heq, hfile]
      exact hmember
    · obtain ⟨-, hsnapshot, hreads⟩ := hothers c' heq
      rw [hfiles c' heq, hsnapshot, hreads]
      exact h.member c'
  · by_cases heq : c' = c
    · rw [heq, hfile]
      exact hsyncing (heq ▸ hc')
    · rw [(hothers c' heq).1] at hc'
      rw [hfiles c' heq]
      exact h.syncing c' hc'
  · rw [hown.lastSyncedTXID, hnewest]
    exact h.lastSyncedTXID
  · rw [hown.replica, hnewest]
    exact h.listed
  · rw [hbase, hbaseTXID, hcommits]
    exact h.serialised.serial
  · rw [hcommits, hown.replica]
    exact h.serialised.stored

/-! ### Locks -/

/-- What a lock does: it changes the mode at most, or it begins a transaction. -/
theorem lock_cases (vfs : VFS ι ps) (c : ι) (elock : LockType)
    (hdisabling : (vfs.conn c).disabling = false) :
    (∃ mode, (vfs.file c).lockType.toNat ≤ mode.toNat ∧
        Own c { vfs.file c with lockType := mode } vfs (vfs.Lock c elock).1) ∨
      ((vfs.file c).lockType.toNat ≤ elock.toNat ∧ LockType.reserved.toNat ≤ elock.toNat ∧
        (vfs.file c).inTransaction = false ∧
        (vfs.writeFile = none ∨ vfs.writeFile = some c)) ∧
        Own c { adopt vfs.lastSyncedTXID (vfs.file c) with
          inTransaction := true, lockType := elock } vfs (vfs.Lock c elock).1 := by
  rw [VFS.Lock]
  split
  · exact .inl ⟨_, le_rfl, own_self vfs c⟩
  next hle =>
  have hle : (vfs.file c).lockType.toNat ≤ elock.toNat := Nat.not_lt.mp hle
  have hmode := own_setFile vfs c { vfs.file c with lockType := elock } vfs.writeFile
  rw [if_neg fun h => absurd (hdisabling.symm.trans h.2) Bool.false_ne_true, VFS.acquire]
  dsimp only
  split
  · next hreserved =>
    split
    · exact .inl ⟨_, le_rfl, own_self vfs c⟩
    split
    · exact .inl ⟨elock, hle, hmode⟩
    next hin =>
    split
    · exact .inl ⟨_, le_rfl, own_self vfs c⟩
    next hslot =>
    refine .inr ⟨⟨hle, hreserved, eq_false_of_ne_true hin, ?_⟩, own_setFile vfs c _ (some c)⟩
    by_cases hnone : vfs.writeFile = none
    · exact .inl hnone
    · exact .inr (not_not.mp fun hne => hslot ⟨hnone, hne⟩)
  · exact .inl ⟨elock, hle, hmode⟩

theorem snapshot_lock (s : Group ι ps) (c c' : ι) (elock : LockType) :
    (s.lock c elock).snapshot c' =
      if c' = c then if (s.file c).lockType = .none then [] else s.snapshot c
      else s.snapshot c' := by
  rw [lock]
  dsimp only
  split
  · rw [Function.update_apply]
  · split
    · next heq => rw [heq]
    · rfl

theorem Inv.lock (h : s.Inv) (hsyncing : s.syncing c = false) {elock : LockType}
    (hinformed : s.Informed (c, .lock elock)) : (s.lock c elock).Inv := by
  have hnot : ∀ {P : Prop}, (s.lock c elock).syncing c = true → P := fun hc =>
    absurd (hsyncing.symm.trans hc) Bool.false_ne_true
  have hothers : ∀ c', c' ≠ c → (s.lock c elock).syncing c' = s.syncing c' ∧
      (s.lock c elock).snapshot c' = s.snapshot c' ∧ (s.lock c elock).reads c' = s.reads c' :=
    fun c' hne => ⟨rfl, (snapshot_lock s c c' elock).trans (if_neg hne), rfl⟩
  have hself : (s.lock c elock).snapshot c =
      if (s.file c).lockType = .none then [] else s.snapshot c := by
    rw [snapshot_lock, if_pos rfl]
  rcases lock_cases s.vfs c elock (h.disabling c) with ⟨mode, hle, hown⟩ | ⟨hbegins, hown⟩
  · refine h.of_own hown ⟨rfl, rfl, rfl⟩ hothers ?_ hnot
    rw [hself]
    exact (h.member c).relock hle
  · refine h.of_own hown ⟨rfl, rfl, rfl⟩ hothers ?_ hnot
    rw [hself]
    exact (h.member c).begin h.lastSyncedTXID hbegins.2.2.1 hbegins.2.1 (hinformed hbegins)

theorem Inv.unlock (h : s.Inv) (hsyncing : s.syncing c = false) (elock : LockType) :
    (s.unlock c elock).Inv := by
  rw [Group.unlock]
  split
  · exact h
  next hvalid =>
  cases hunlock : (s.vfs.file c).Unlock elock with
  | error err =>
      rw [VFSFile.Unlock, if_neg hvalid] at hunlock
      cases hunlock
  | ok f =>
      have hown : Own c f s.vfs (s.vfs.Unlock c elock).1 := by
        rw [VFS.Unlock, hunlock]
        exact own_setFile s.vfs c f _
      refine h.of_own hown ⟨rfl, rfl, rfl⟩ (fun c' hne => ⟨rfl, ?_, ?_⟩) ?_
        fun hc => absurd (hsyncing.symm.trans hc) Bool.false_ne_true
      · exact Function.update_of_ne hne _ _
      · dsimp only
        split
        · exact Function.update_of_ne hne _ _
        · rfl
      · have hmember := (h.member c).unlock hunlock
        dsimp only
        rw [Function.update_self]
        split
        · next hin =>
          rw [Function.update_self]
          rwa [if_pos hin] at hmember
        · next hin => rwa [if_neg hin] at hmember

/-! ### Reads, writes and polls -/

theorem note_cases (s : Group ι ps) (c : ι) (pgno : Nat) :
    (∀ c', c' ≠ c → s.note c pgno c' = s.snapshot c') ∧
      (s.note c pgno c = s.snapshot c ∨ lastWrite (s.file c).dirty pgno = none ∧
        s.note c pgno c = s.snapshot c ++ [(pgno, (s.file c).view s.vfs.replica pgno)]) := by
  rw [note]
  split
  · next hclean =>
    exact ⟨fun c' hne => Function.update_of_ne hne _ _,
      .inr ⟨hclean, Function.update_self _ _ _⟩⟩
  · exact ⟨fun _ _ => rfl, .inl rfl⟩

theorem Inv.readAt (h : s.Inv) (hsyncing : s.syncing c = false) (random : Bytes) (off len : Nat) :
    (s.readAt c random off len).Inv := by
  obtain ⟨hothers, hself⟩ := note_cases s c (off / ps.size + 1)
  refine h.of_own (own_setFile s.vfs c _ s.vfs.writeFile) ⟨rfl, rfl, rfl⟩
    (fun c' hne => ⟨rfl, ?_, rfl⟩) ((h.member c).readAt random off len ?_)
    fun hc => absurd (hsyncing.symm.trans hc) Bool.false_ne_true
  · rw [Group.readAt]
    dsimp only
    split
    · exact hothers c' hne
    · rfl
  · rw [Group.readAt]
    dsimp only
    split
    · next hok => exact hself.imp_right fun h => ⟨hok, h⟩
    · exact .inl rfl

theorem Inv.writeAt (h : s.Inv) (hsyncing : s.syncing c = false)
    (hin : (s.file c).inTransaction = true) (b : Bytes) (off : Nat) : (s.writeAt c b off).Inv := by
  obtain ⟨hothers, hself⟩ := note_cases s c (off / ps.size + 1)
  refine h.of_own (own_setFile s.vfs c _ s.vfs.writeFile) ⟨rfl, rfl, rfl⟩
    (fun c' hne => ⟨rfl, ?_, rfl⟩) ((h.member c).writeAt hin b off ?_)
    fun hc => absurd (hsyncing.symm.trans hc) Bool.false_ne_true
  · rw [Group.writeAt]
    dsimp only
    split
    · exact hothers c' hne
    · rfl
  · rw [Group.writeAt]
    dsimp only
    split
    · exact hself
    · exact .inl rfl

omit [DecidableEq ι] in
/-- Polls are kept apart from what is found. -/
theorem Inv.setPolling (h : s.Inv) (polling : ι → Polling) : Inv { s with polling := polling } :=
  ⟨h.member, h.disabling, h.syncing, h.lastSyncedTXID, h.listed, h.serialised.serial,
    h.serialised.stored⟩

theorem Inv.poll (h : s.Inv) {a : GroupAction ps}
    (hsyncing : a = .pollApply → s.syncing c = false) (hpoll : s.poll c a = some s') : s'.Inv := by
  cases a with
  | pollLevel0 =>
      rw [Group.poll] at hpoll
      split at hpoll
      · split at hpoll
        · obtain rfl := Option.some.inj hpoll
          exact h.setPolling _
        · obtain rfl := Option.some.inj hpoll
          exact h
      · cases hpoll
  | pollLevel1 =>
      rw [Group.poll] at hpoll
      split at hpoll
      · split at hpoll
        · obtain rfl := Option.some.inj hpoll
          exact h.setPolling _
        · obtain rfl := Option.some.inj hpoll
          exact h.setPolling _
      · cases hpoll
  | pollApply =>
      rw [Group.poll] at hpoll
      split at hpoll
      · next commit p0 p1 _ =>
        obtain rfl := Option.some.inj hpoll
        refine h.of_own (own_setFile s.vfs c _ s.vfs.writeFile) ⟨rfl, rfl, rfl⟩
          (fun _ _ => ⟨rfl, rfl, rfl⟩) ((h.member c).poll commit p0 p1)
          fun hc => absurd ((hsyncing rfl).symm.trans hc) Bool.false_ne_true
      · cases hpoll
  | lock | unlock | readAt | writeAt | check | upload | evict => cases hpoll

/-! ### Syncs -/

theorem Inv.check (h : s.Inv) (hsyncs : (s.file c).Syncs s.vfs.replica) :
    Inv { s with syncing := Function.update s.syncing c true } := by
  refine h.of_own (own_self s.vfs c) ⟨rfl, rfl, rfl⟩ (fun c' hne => ⟨?_, rfl, rfl⟩) (h.member c)
    fun _ => hsyncs.2.2.1
  exact Function.update_of_ne hne _ _

/-- A sync is the check and the upload. -/
theorem syncToRemoteWithLock_eq (vfs : VFS ι ps) (c : ι) (outcome : Outcome ps) :
    vfs.syncToRemoteWithLock c outcome =
      if (vfs.file c).dirty = [] then (vfs, .ok)
      else
        match (vfs.file c).checkForConflict vfs.replica with
        | .error err => (vfs, .error (.vfs err))
        | .ok () => vfs.finishSync c outcome := rfl

theorem Inv.upload (h : s.Inv) (hsyncing : s.syncing c = true) {outcome : Outcome ps}
    (hfits : s.vfs.Fits c outcome)
    (hcheck : (s.file c).checkForConflict s.vfs.replica = .ok ()) : (s.upload c outcome).Inv := by
  have hin := h.syncing c hsyncing
  cases hfile : outcome.file with
  | none =>
      have heq : s.upload c outcome = { s with syncing := Function.update s.syncing c false } := by
        rw [Group.upload, VFS.finishSync, hfile]
        simp
      rw [heq]
      refine h.of_own (own_self s.vfs c) ⟨rfl, rfl, rfl⟩ (fun c' hne => ⟨?_, rfl, rfl⟩) (h.member c)
        fun _ => hin
      exact Function.update_of_ne hne _ _
  | some file =>
      have hexpected := (h.member c).expected_eq hcheck
      obtain ⟨hlevel, hmin, hmax, -, -⟩ := hfits file hfile
      have hpending : (s.file c).pendingTXID = s.newest + 1 := by
        rw [(h.member c).pendingTXID, hexpected]
      have hfresh : s.vfs.replica.Fresh file := by
        rw [Replica.Fresh, hlevel]
        intro hmem
        obtain ⟨g, hg, hname⟩ := List.mem_map.mp hmem
        have hle := h.listed g hg
        have hsame : g.maxTXID = file.maxTXID := (Prod.mk.inj hname).2
        rw [hsame, hmax] at hle
        have hlt : s.newest < (s.vfs.file c).pendingTXID := hpending ▸ Nat.lt_succ_self _
        omega
      have hgroup : s.upload c outcome = { s with
          vfs := { s.vfs.setFile c ((s.file c).afterUpload outcome).1 with
            lastSyncedTXID := max s.vfs.lastSyncedTXID (s.file c).pendingTXID
            replica := s.vfs.replica.write file
            uploads := s.vfs.uploads ++ [(c, file)] }
          syncing := Function.update s.syncing c false
          commits := s.commits ++ [⟨c, file, s.reads c⟩]
          reads := Function.update s.reads c [] } := by
        rw [Group.upload, VFS.finishSync, hfile]
        rfl
      have hfiles : ∀ c', (s.upload c outcome).file c' =
          if c' = c then ((s.file c).afterUpload outcome).1 else s.file c' := by
        intro c'
        rw [hgroup]
        exact file_setConn s.vfs c c' _
      have hnewest : (s.upload c outcome).newest = s.newest + 1 := by
        rw [hgroup, newest, newest, List.length_append, List.length_singleton]
        rfl
      have hmem : ∀ g ∈ (s.vfs.replica.write file).level 0, g = file ∨ g ∈ s.vfs.replica.level 0 :=
        fun g hg => eq_or_mem_of_mem_write hg
      refine ⟨fun c' => ?_, fun c' => ?_, fun c' hc' => ?_, ?_, fun g hg => ?_, ?_, fun x hx => ?_⟩
      · rw [hnewest, hfiles]
        by_cases heq : c' = c
        · rw [if_pos heq, heq, hgroup]
          dsimp only
          rw [Function.update_self]
          exact (h.member c).upload hin hexpected hfile hfresh _
        · rw [if_neg heq, hgroup]
          dsimp only
          rw [Function.update_of_ne heq]
          exact (h.member c').advance hlevel (hmin.trans hpending) hfresh _
      · rw [hgroup]
        exact ((own_setFile s.vfs c _ none).disabling c').trans (h.disabling c')
      · rw [hgroup] at hc'
        dsimp only at hc'
        rw [Function.update_apply] at hc'
        split at hc'
        · cases hc'
        · next hne =>
          rw [hfiles, if_neg hne]
          exact h.syncing c' hc'
      · rw [hnewest, hgroup]
        exact Nat.max_le.mpr ⟨h.lastSyncedTXID.trans (Nat.le_succ _), hpending.le⟩
      · rw [hgroup] at hg
        rw [hnewest]
        rcases hmem g hg with rfl | hg
        · exact (hmax.trans hpending).le
        · exact (h.listed g hg).trans (Nat.le_succ _)
      · rw [hgroup]
        exact serialFrom_append.mpr ⟨h.serialised.serial, hmin.trans hpending,
          hmax.trans hpending, (h.member c).reads hexpected⟩
      · rw [hgroup] at hx ⊢
        rcases List.mem_append.mp hx with hx | hx
        · refine (Writers.mem_write hlevel).mpr (.inr ⟨h.serialised.stored x hx, fun hname => ?_⟩)
          refine hfresh (List.mem_map.mpr ⟨x.file, ?_, hname⟩)
          rw [hlevel]
          exact h.serialised.stored x hx
        · rw [List.mem_singleton.mp hx]
          exact (Writers.mem_write hlevel).mpr (.inl rfl)

/-! ## Runs -/

theorem Inv.evict (h : s.Inv) {pgno : Nat} (hinformed : s.Informed (c, .evict pgno)) :
    Inv { s with
      vfs := s.vfs.setFile c
        { s.file c with cache := Function.update (s.file c).cache pgno none } } :=
  h.of_own (own_setFile s.vfs c _ s.vfs.writeFile) ⟨rfl, rfl, rfl⟩ (fun _ _ => ⟨rfl, rfl, rfl⟩)
    ((h.member c).evict hinformed) (h.syncing c)

theorem Inv.step {a : ι × GroupAction ps} (h : s.Inv) (hinformed : s.Informed a)
    (hstep : Group.step s a = some s') : s'.Inv := by
  obtain ⟨c, a⟩ := a
  cases a with
  | lock elock =>
      rw [Group.step] at hstep
      split at hstep
      · cases hstep
      · next hsyncing =>
        obtain rfl := Option.some.inj hstep
        exact h.lock (eq_false_of_ne_true hsyncing) hinformed
  | unlock elock =>
      rw [Group.step] at hstep
      split at hstep
      · cases hstep
      · next hsyncing =>
        obtain rfl := Option.some.inj hstep
        exact h.unlock (eq_false_of_ne_true hsyncing) elock
  | readAt random off len =>
      rw [Group.step] at hstep
      split at hstep
      · cases hstep
      · next hsyncing =>
        obtain rfl := Option.some.inj hstep
        exact h.readAt (eq_false_of_ne_true hsyncing) random off len
  | writeAt b off =>
      rw [Group.step] at hstep
      split at hstep
      · cases hstep
      · next hwrites =>
        obtain rfl := Option.some.inj hstep
        obtain ⟨hsyncing, hin⟩ := not_or.mp hwrites
        exact h.writeAt (eq_false_of_ne_true hsyncing) (eq_true_of_ne_false hin) b off
  | check =>
      rw [Group.step] at hstep
      split at hstep
      · cases hstep
      · split at hstep
        · next hsyncs =>
          obtain rfl := Option.some.inj hstep
          exact h.check hsyncs
        · obtain rfl := Option.some.inj hstep
          exact h
  | upload outcome =>
      rw [Group.step] at hstep
      split at hstep
      · next hready =>
        obtain rfl := Option.some.inj hstep
        exact h.upload hready.1 hready.2 hinformed
      · cases hstep
  | pollLevel0 =>
      rw [Group.step] at hstep
      split at hstep
      · cases hstep
      · exact h.poll (fun heq => by cases heq) hstep
  | pollLevel1 =>
      have hpoll : s.poll c .pollLevel1 = some s' := hstep
      exact h.poll (fun heq => by cases heq) hpoll
  | pollApply =>
      rw [Group.step] at hstep
      split at hstep
      · cases hstep
      · next hsyncing => exact h.poll (fun _ => eq_false_of_ne_true hsyncing) hstep
  | evict pgno =>
      obtain rfl := Option.some.inj hstep
      exact h.evict hinformed

/-- In a run whose transactions begin informed the transactions are serial. -/
theorem serialised_of_run {actions : List (ι × GroupAction ps)} (h : s.Opened)
    (hinformed : Along Group.step Informed s actions) (hrun : run Group.step s actions = some s') :
    s'.Serialised :=
  (run_induction (I := Inv) (fun hs hG hstep => hs.step hG hstep) h.inv hinformed hrun).serialised

end

/-- The action begins no transaction, evicts no page and uploads without a conflict. -/
def Quiet (s : Group ι ps) : ι × GroupAction ps → Prop
  | (_, .lock elock) => elock.toNat < LockType.reserved.toNat
  | (_, .evict _) => False
  | (c, .upload _) => (s.file c).checkForConflict s.vfs.replica = .ok ()
  | _ => True

instance decidableQuiet (s : Group ι ps) : ∀ a : ι × GroupAction ps, Decidable (s.Quiet a)
  | (_, .lock elock) => inferInstanceAs (Decidable (elock.toNat < LockType.reserved.toNat))
  | (_, .evict _) => .isFalse id
  | (c, .upload _) =>
    inferInstanceAs (Decidable ((s.file c).checkForConflict s.vfs.replica = .ok ()))
  | (_, .unlock _) => .isTrue trivial
  | (_, .readAt _ _ _) => .isTrue trivial
  | (_, .writeAt _ _) => .isTrue trivial
  | (_, .check) => .isTrue trivial
  | (_, .pollLevel0) => .isTrue trivial
  | (_, .pollLevel1) => .isTrue trivial
  | (_, .pollApply) => .isTrue trivial

theorem Quiet.informed {a : ι × GroupAction ps} (h : s.Quiet a) : s.Informed a := by
  obtain ⟨c, a⟩ := a
  cases a with
  | lock elock => exact fun hbegins => absurd hbegins.2.1 (Nat.not_le.mpr h)
  | evict pgno => exact h.elim
  | upload outcome => exact h
  | unlock | readAt | writeAt | check | pollLevel0 | pollLevel1 | pollApply => trivial

/-- A file with an empty cache and the index of stored files finds the newest pages of these. -/
theorem sees_mergeIndex {replica : Replica ps} {f : VFSFile} {files : List (LTXFile ps)}
    (hstored : ∀ file ∈ files, replica.Stored file) (hindex : f.index = mergeIndex files) {k : Nat}
    (hcache : f.cache k = none) : Sees replica f k (lastWrite (mergePages files) k) := by
  have hfetch := Replica.fetch_lastWrite hstored k
  cases hentry : lastWrite (mergeIndex files) k with
  | none =>
      rw [hentry, Option.map_none, eq_comm, Option.map_eq_none_iff] at hfetch
      rw [hfetch]
      exact .absent hcache (hindex ▸ hentry)
  | some e =>
      rw [hentry, Option.map_some, eq_comm] at hfetch
      obtain ⟨data, hdata, hsome⟩ := Option.map_eq_some_iff.mp hfetch
      rw [hdata]
      exact .fetched hcache (hindex ▸ hentry) hsome.symm

end Group

/-! ## Two connections and a page -/

namespace StaleIndex

theorem valid_fourth : FileInfo.Valid ⟨0, 4, 4, 100, 4⟩ := by decide

theorem bounds_frame (b : UInt8) :
    ∀ frame ∈ [(⟨1, 0, 1, OnePage.page b⟩ : PageFrame PageSize.min)],
      1 ≤ frame.pgno ∧ frame.pgno ≤ 1 := by
  intro frame hframe
  rw [List.mem_singleton.mp hframe]
  exact ⟨le_rfl, le_rfl⟩

theorem bounds_third : ∀ frame ∈ [(⟨1, 0, 1, OnePage.page 3⟩ : PageFrame PageSize.min)],
    1 ≤ frame.pgno ∧ frame.pgno ≤ 1 := bounds_frame 3

theorem bounds_fourth : ∀ frame ∈ [(⟨1, 0, 1, OnePage.page 4⟩ : PageFrame PageSize.min)],
    1 ≤ frame.pgno ∧ frame.pgno ≤ 1 := bounds_frame 4

/-- The third transaction. -/
def third : LTXFile PageSize.min where
  info := ⟨0, 3, 3, 100, 3⟩
  commit := 1
  frames := [⟨1, 0, 1, OnePage.page 3⟩]
  valid := Past.valid_third
  pgnos_nodup := OnePage.update.pgnos_nodup
  offsets_nodup := OnePage.update.offsets_nodup
  bounds := bounds_third

/-- The fourth transaction. -/
def fourth : LTXFile PageSize.min where
  info := ⟨0, 4, 4, 100, 4⟩
  commit := 1
  frames := [⟨1, 0, 1, OnePage.page 4⟩]
  valid := valid_fourth
  pgnos_nodup := OnePage.update.pgnos_nodup
  offsets_nodup := OnePage.update.offsets_nodup
  bounds := bounds_fourth

/-- Two connections that are at the second transaction.  They expect the given TXID. -/
def group (expectedTXID : Bool → Nat) (lastSyncedTXID : Nat) : Group Bool PageSize.min where
  vfs :=
    { conn := fun c =>
        ⟨{ OnePage.file.rebuildIndex (OnePage.plan 1) none with
            writeEnabled := true
            expectedTXID := expectedTXID c
            pendingTXID := expectedTXID c + 1 }, false, [], 0⟩
      writeFile := none
      lastSyncedTXID := lastSyncedTXID
      replica := OnePage.replica 1
      uploads := [] }
  syncing _ := false
  polling _ := .idle
  base := mergePages (OnePage.plan 1)
  baseTXID := 2
  commits := []
  snapshot _ := []
  reads _ := []

theorem opened {expectedTXID : Bool → Nat} {lastSyncedTXID : Nat} (h : ∀ c, expectedTXID c ≤ 2)
    (hlast : lastSyncedTXID ≤ 2) : (group expectedTXID lastSyncedTXID).Opened where
  pageSize _ := rfl
  writeEnabled _ := rfl
  inTransaction _ := rfl
  dirty _ := rfl
  disabling _ := rfl
  pendingTXID _ := rfl
  expectedTXID := h
  detects _ := .inr ⟨OnePage.update, List.mem_singleton.mpr rfl, rfl⟩
  listed g hg := by
    rw [List.mem_singleton.mp hg]
    exact le_rfl
  lastSyncedTXID := hlast
  syncing _ := rfl
  commits := rfl
  snapshot _ := rfl
  reads _ := rfl

/-- A connection reads the page, writes another one in its place and syncs that. -/
def transaction (c : Bool) (page : Page PageSize.min) (file : LTXFile PageSize.min) :
    List (Bool × GroupAction PageSize.min) :=
  [(c, .readAt [] 0 512), (c, .writeAt page.data 0), (c, .unlock .none), (c, .check),
    (c, .upload (.stored file))]

/-- The second connection commits. -/
def polled : List (Bool × GroupAction PageSize.min) :=
  (true, .lock .reserved) :: transaction true (OnePage.page 3) third

/-- The two connections commit one after the other, and neither polls. -/
def unpolled : List (Bool × GroupAction PageSize.min) :=
  (false, .lock .reserved) :: transaction false (OnePage.page 3) third ++
    (true, .lock .reserved) :: transaction true (OnePage.page 4) fourth

end StaleIndex

open StaleIndex in
/-- One connection has synced the second transaction, and the other one has polled. -/
theorem serialised_of_run_polled : ∃ s,
    run Group.step (group (fun c => if c then 1 else 2) 2) polled = some s ∧
    s.Serialised ∧ s.commits.map Commit.reads = [[(1, some (OnePage.page 2).data)]] := by
  have hrun : (run Group.step (group (fun c => if c then 1 else 2) 2) polled).map
      (fun s => s.commits.map Commit.reads) = some [[(1, some (OnePage.page 2).data)]] := by
    decide +kernel
  obtain ⟨s, hs, hreads⟩ := Option.map_eq_some_iff.mp hrun
  have hrest : ∀ m ∈ Group.step (group (fun c => if c then 1 else 2) 2) (true, .lock .reserved),
      Along Group.step Group.Quiet m (transaction true (OnePage.page 3) third) := by
    decide +kernel
  have hinformed : Along Group.step Group.Informed (group (fun c => if c then 1 else 2) 2)
      polled := by
    refine ⟨fun _ _ k _ _ => Group.sees_mergeIndex (OnePage.stored 1) rfl rfl, fun m hm => ?_⟩
    exact along_of_invariant (I := fun _ => True) (fun _ _ _ => trivial)
      (fun _ hquiet => hquiet.informed) trivial (hrest m hm)
  exact ⟨s, hs, Group.serialised_of_run (opened (by decide) le_rfl) hinformed hs, hreads⟩

open StaleIndex in
/-- The second connection adopts the third transaction, but reads the page of the second one. -/
theorem adopted_stale : (group (fun _ => 2) 0).Opened ∧ ∃ s,
    run Group.step (group (fun _ => 2) 0) unpolled = some s ∧ ¬ s.Serialised := by
  have hrun : (run Group.step (group (fun _ => 2) 0) unpolled).map
      (fun s => decide (Group.SerialFrom s.base s.baseTXID s.commits)) = some false := by
    decide +kernel
  obtain ⟨s, hs, hserial⟩ := Option.map_eq_some_iff.mp hrun
  exact ⟨opened (fun _ => le_rfl) (by decide), s, hs, fun h => of_decide_eq_false hserial h.serial⟩

end Vfs

end Litestream
