import Litestream.Lib.PageArray
import Litestream.Vfs.Replication
import Litestream.Vfs.Write

/-!
# A writer as a flat file

SQLite takes a file for an array of pages.  A write past the end extends it with zeros in
between, and a truncation cuts it.  The lock page is no page of a database, and a write of
it is refused.

A `VFSFile` has no such array.  A truncation drops dirty pages and lowers `commit`, but the
index keeps its entries of the pages that were cut, and `FileSize` is the highest page of
the index and of the dirty pages.

`agrees_iff` says when every call returns what the flat file returns: no page of the index
is ever cut off, and the last page that a truncation leaves is mapped.
-/

namespace Litestream

namespace Vfs

open Overlay PageArray Run

variable {ps : PageSize}

/-- Cuts the file to a size. -/
def VFSFile.Truncate (size : Nat) (f : VFSFile) : Except VFSError VFSFile :=
  if f.pageSize = 0 then .error .dbNotReady
  else if !f.writeEnabled then .error .readOnly
  else .ok
    { f with
      dirty := f.dirty.filter fun w => w.1 ≤ size / f.pageSize
      commit := size / f.pageSize }

/-- The page that a page has before it is written. -/
def blank (ps : PageSize) : Bytes := List.replicate ps.size 0

/-- The calls of SQLite.  Pages count from zero. -/
inductive Call (ps : PageSize) where
  | lock (elock : LockType)
  | unlock (elock : LockType)
  | writeAt (i : Nat) (page : Page ps)
  | truncate (n : Nat)
  | readAt (random : Bytes) (i : Nat)
  | fileSize

/-- A file and the flat file that it stands for. -/
structure Flat where
  file : VFSFile
  pages : List Bytes

namespace Flat

/-- Both after a call. -/
def next (replica : Replica ps) (s : Flat) : Call ps → Flat
  | .lock elock => { s with file := State.orSame s.file (s.file.Lock elock) }
  | .unlock elock => { s with file := State.orSame s.file (s.file.Unlock elock) }
  | .writeAt i page =>
    ⟨(s.file.WriteAt replica page.data (i * ps.size)).1,
      if i + 1 = lockPgno ps then s.pages else put (blank ps) s.pages i page.data⟩
  | .truncate n =>
    ⟨State.orSame s.file (s.file.Truncate (n * ps.size)), s.pages.take n⟩
  | .readAt random i => { s with file := (s.file.ReadAt replica random (i * ps.size) ps.size).1 }
  | .fileSize => s

def step (replica : Replica ps) (s : Flat) (call : Call ps) : Option Flat := some (s.next replica call)

/-- The size of the file is that of the flat file. -/
def SizeAgrees (ps : PageSize) (s : Flat) : Prop :=
  s.file.FileSize = .ok (s.pages.length * ps.size)

/-- The call returns what the flat file returns.  A read is of a page within the size, and
the bytes of the header that a read rewrites do not count. -/
def Returns (replica : Replica ps) (s : Flat) : Call ps → Prop
  | .lock _ => True
  | .unlock _ => True
  | .writeAt i page => (s.file.WriteAt replica page.data (i * ps.size)).2 =
    if i + 1 = lockPgno ps then .error .lockPage else .ok ps.size
  | .truncate n => (s.file.Truncate (n * ps.size)).isOk = true
  | .readAt random i => i < s.pages.length →
    ∃ p, (s.file.ReadAt replica random (i * ps.size) ps.size).2 = .ok p ∧
      ∀ j, ¬ (i = 0 ∧ j ∈ VFSFile.headerBytes) → p[j]? = (entry (blank ps) s.pages i)[j]?
  | .fileSize => SizeAgrees ps s

/-- The call, and a call of `FileSize` after it, return what the flat file returns. -/
def Agrees (replica : Replica ps) (s : Flat) (call : Call ps) : Prop :=
  s.Returns replica call ∧ SizeAgrees ps (s.next replica call)

/-- The truncation cuts off no page of the index, and if it cuts off a dirty page then it
leaves a last page that is mapped. -/
def Cuts (f : VFSFile) (n : Nat) : Prop :=
  (∀ k ∈ f.index.map Prod.fst, k ≤ n) ∧
    (n = 0 ∨ n ∈ (f.index.map Prod.fst ++ f.dirty.map Prod.fst) ∨
      ∀ k ∈ f.dirty.map Prod.fst, k ≤ n)

/-- Every truncation cuts as it should. -/
def CutsAt (s : Flat) : Call ps → Prop
  | .truncate n => Cuts s.file n
  | _ => True

instance (s : Flat) : Decidable (SizeAgrees ps s) := inferInstanceAs (Decidable (_ = _))

instance (f : VFSFile) (n : Nat) : Decidable (Cuts f n) := inferInstanceAs (Decidable (_ ∧ _))

instance decidableCutsAt (s : Flat) : ∀ call : Call ps, Decidable (s.CutsAt call)
  | .lock _ => .isTrue trivial
  | .unlock _ => .isTrue trivial
  | .writeAt _ _ => .isTrue trivial
  | .truncate n => inferInstanceAs (Decidable (Cuts s.file n))
  | .readAt _ _ => .isTrue trivial
  | .fileSize => .isTrue trivial

/-- The pages of a plan: the newest version of each up to the commit size. -/
def database (plan : List (LTXFile ps)) : List Bytes :=
  (List.range (VFSFile.lastCommit plan)).map fun i =>
    (lastWrite (mergePages plan) (i + 1)).getD (blank ps)

/-- A file that opened the plan for writing, and the database of the plan. -/
def opened (plan : List (LTXFile ps)) (f : VFSFile) : Flat := ⟨f.rebuildIndex plan none, database plan⟩

/-- A file that is open for writing and has written nothing. -/
structure WriteMode (ps : PageSize) (f : VFSFile) : Prop where
  pageSize : f.pageSize = ps.size
  writeEnabled : f.writeEnabled = true
  dirty : f.dirty = []
  bufferFile : f.bufferFile = []
  bufferNextOff : f.bufferNextOff = 0

/-- The content of a page: that of the buffer, or else of the plan, or else zeros. -/
def content (plan : List (LTXFile ps)) (f : VFSFile) (k : Nat) : Bytes :=
  (f.dirtyPage k).getD ((lastWrite (mergePages plan) k).getD (blank ps))

/-- The file has the index of the plan and a cache of it, and the size and the pages are
those of the flat file. -/
structure Inv (plan : List (LTXFile ps)) (s : Flat) : Prop where
  pageSize : s.file.pageSize = ps.size
  writeEnabled : s.file.writeEnabled = true
  buffered : Buffered ps s.file
  index : s.file.index = mergeIndex plan
  pending : s.file.pending = []
  pendingReplace : s.file.pendingReplace = false
  cache : ∀ k data, s.file.cache k = some data → lastWrite (mergePages plan) k = some data
  page : ∀ i, entry (blank ps) s.pages i = content plan s.file (i + 1)
  size : SizeAgrees ps s

variable {replica : Replica ps} {plan : List (LTXFile ps)} {s : Flat} {f : VFSFile}
  {call : Call ps} {calls : List (Call ps)}

/-! ## The size -/

theorem pageSize_pos (ps : PageSize) : 0 < ps.size := by
  have := ps.bounds
  omega

theorem mapSize_append {α β : Type} (pageSize : Nat) (xs : List (Nat × α)) (ys : List (Nat × β)) :
    max (VFSFile.mapSize pageSize xs) (VFSFile.mapSize pageSize ys) =
      VFSFile.mapSize pageSize ((xs.map Prod.fst ++ ys.map Prod.fst).map fun k => (k, ())) := by
  refine eq_of_forall_ge_iff fun m => ?_
  rw [max_le_iff, mapSize_le, mapSize_le, mapSize_le]
  simp only [List.map_map, Function.comp_def, List.map_id', List.forall_mem_append]

/-- The size of a file without pending entries is that of the highest page. -/
theorem fileSize_iff (hsize : f.pageSize = ps.size) (hpending : f.pending = []) (n : Nat) :
    f.FileSize = .ok (n * ps.size) ↔
      (∀ k ∈ f.index.map Prod.fst ++ f.dirty.map Prod.fst, k ≤ n) ∧
        (n ≠ 0 → n ∈ f.index.map Prod.fst ++ f.dirty.map Prod.fst) := by
  rw [VFSFile.FileSize, hsize, if_neg (pageSize_pos ps).ne', hpending, Except.ok.injEq]
  have hnil : VFSFile.mapSize ps.size ([] : Index) = 0 := rfl
  rw [hnil, Nat.zero_max, mapSize_append, mapSize_eq (pageSize_pos ps), List.map_map]
  simp only [Function.comp_def, List.map_id']

theorem mem_dirty_iff {k : Nat} : k ∈ f.dirty.map Prod.fst ↔ f.dirtyPage k ≠ none := by
  rw [Ne, dirtyPage_eq_none_iff, lastWrite_eq_none_iff, not_not]

/-! ## Opening -/

theorem length_database (plan : List (LTXFile ps)) :
    (database plan).length = VFSFile.lastCommit plan := by
  rw [database, List.length_map, List.length_range]

/-- The size is right from the start if and only if the last file of the plan cuts off no
page that the plan holds. -/
theorem opened_size_iff (h : WriteMode ps f) : SizeAgrees ps (opened plan f) ↔ Uncut plan := by
  rw [SizeAgrees, opened, fileSize_iff (f := f.rebuildIndex plan none) h.pageSize rfl,
    length_database, uncut_iff_keys]
  have hdirty : (f.rebuildIndex plan none).dirty = [] := h.dirty
  have hindex : (f.rebuildIndex plan none).index = mergeIndex plan := rfl
  rw [hdirty, hindex, List.map_nil, List.append_nil, keys_mergeIndex]

theorem opened_inv (h : WriteMode ps f) (huncut : Uncut plan) : Inv plan (opened plan f) := by
  have hdirty : ∀ k, (f.rebuildIndex plan none).dirtyPage k = none := fun k => by
    rw [dirtyPage_eq_none_iff, lastWrite_eq_none_iff]
    change k ∉ f.dirty.map Prod.fst
    rw [h.dirty]
    simp
  refine ⟨h.pageSize, h.writeEnabled, ?_, rfl, rfl, rfl, ?_, fun i => ?_,
    (opened_size_iff h).mpr huncut⟩
  · have hd : (f.rebuildIndex plan none).dirty = [] := h.dirty
    have hb : (f.rebuildIndex plan none).bufferFile = [] := h.bufferFile
    have hn : (f.rebuildIndex plan none).bufferNextOff = 0 := h.bufferNextOff
    refine ⟨?_, ?_, ?_, ?_⟩ <;> simp [opened, hd, hb, hn]
  · rintro k data ⟨⟩
  · rw [content, opened, hdirty, Option.getD_none]
    rcases Nat.lt_or_ge i (VFSFile.lastCommit plan) with hi | hi
    · rw [entry, List.getD_eq_getElem _ _ (by rw [length_database]; exact hi)]
      simp [database]
    · rw [entry_of_le (by rw [length_database]; exact hi), lastWrite_eq_none_iff.mpr, Option.getD_none]
      intro hmem
      have hle := (uncut_iff_keys.mp huncut).1 _ hmem
      omega

/-! ## Reading -/

theorem Inv.length_content (h : Inv plan s) (k : Nat) : (content plan s.file k).length = ps.size := by
  rw [content]
  cases hdirty : s.file.dirtyPage k with
  | some data => exact length_dirtyPage h.pageSize h.buffered hdirty
  | none =>
      cases hdata : lastWrite (mergePages plan) k with
      | some data => exact length_page hdata
      | none => exact List.length_replicate

theorem div_page (ps : PageSize) (i : Nat) : i * ps.size / ps.size + 1 = i + 1 := by
  rw [Nat.mul_div_cancel _ (pageSize_pos ps)]

/-- A read leaves the file but for the cache, which gets the page of the plan. -/
theorem Inv.readAt_cases (h : Inv plan s) (hstored : ∀ file ∈ plan, replica.Stored file)
    (random : Bytes) (i : Nat) :
    ∃ cache, (s.file.ReadAt replica random (i * ps.size) ps.size).1 =
        { s.file with cache := cache } ∧
      (∀ k data, cache k = some data → lastWrite (mergePages plan) k = some data) ∧
      ∃ p, (s.file.ReadAt replica random (i * ps.size) ps.size).2 = .ok p ∧
        ∀ j, ¬ (i = 0 ∧ j ∈ VFSFile.headerBytes) →
          p[j]? = (content plan s.file (i + 1))[j]? := by
  have hpgno := div_page ps i
  have hlength := h.length_content (i + 1)
  have hpresent : ∃ p, VFSFile.present random (i * ps.size) ps.size (i * ps.size % ps.size)
        (content plan s.file (i + 1)) = .ok p ∧
      ∀ j, ¬ (i = 0 ∧ j ∈ VFSFile.headerBytes) → p[j]? = (content plan s.file (i + 1))[j]? := by
    have hone : 1 ≤ i + 1 := Nat.succ_pos i
    obtain ⟨p, hp, hsame⟩ := present_page random hone hlength
    rw [Nat.add_sub_cancel] at hp
    refine ⟨p, hp, fun j hj => hsame j fun hone => hj ⟨by omega, hone.2⟩⟩
  cases hdirty : s.file.dirtyPage (i + 1) with
  | some data =>
      have hcontent : content plan s.file (i + 1) = data := by rw [content, hdirty, Option.getD_some]
      rw [readAt_dirty h.pageSize h.writeEnabled h.buffered (hpgno.symm ▸ hdirty),
        if_neg (by have := ps.bounds; omega), ← hcontent]
      exact ⟨s.file.cache, rfl, h.cache, hpresent⟩
  | none =>
      rw [readAt_clean h.pageSize h.writeEnabled (hpgno.symm ▸ hdirty), hpgno]
      have hcontent : content plan s.file (i + 1) =
          (lastWrite (mergePages plan) (i + 1)).getD (blank ps) := by
        rw [content, hdirty, Option.getD_none]
      cases hcache : s.file.cache (i + 1) with
      | some data =>
          have hdata := h.cache _ _ hcache
          rw [hdata, Option.getD_some] at hcontent
          rw [← hcontent]
          exact ⟨s.file.cache, rfl, h.cache, hpresent⟩
      | none =>
          have hfetch := Replica.bind_fetch_lastWrite hstored (i + 1)
          rw [← h.index] at hfetch
          dsimp only
          cases hindex : lastWrite s.file.index (i + 1) with
          | none =>
              rw [hindex, Option.bind_none] at hfetch
              rw [← hfetch, Option.getD_none] at hcontent
              refine ⟨s.file.cache, rfl, h.cache, _, rfl, fun j _ => ?_⟩
              rw [hcontent, blank]
          | some e =>
              rw [hindex, Option.bind_some] at hfetch
              dsimp only
              cases hdata : replica.fetch e with
              | none =>
                  -- every entry of the index is of a stored file
                  have hnone := Replica.fetch_lastWrite hstored (i + 1)
                  rw [← h.index, hindex, Option.map_some, hdata] at hnone
                  cases hpages : lastWrite (mergePages plan) (i + 1) with
                  | none => rw [hpages] at hnone; cases hnone
                  | some data => rw [hpages] at hnone; cases hnone
              | some data =>
                  rw [hdata] at hfetch
                  rw [← hfetch, Option.getD_some] at hcontent
                  dsimp only
                  rw [← hcontent]
                  refine ⟨_, rfl, fun k data' hk => ?_, hpresent⟩
                  rw [Function.update_apply] at hk
                  split at hk
                  · next heq => rw [heq, ← hfetch, ← hk, hcontent]
                  · exact h.cache k data' hk

/-! ## Writing -/

/-- What the read before a write adds to the cache is of the index. -/
theorem cache_readPageForWrite {j k : Nat} {data : Bytes}
    (h : (f.readPageForWrite replica k).1.cache j = some data) :
    f.cache j = some data ∨ (lastWrite f.index j).bind replica.fetch = some data := by
  rw [VFSFile.readPageForWrite] at h
  cases hcache : f.cache k with
  | some old =>
      rw [hcache] at h
      exact Or.inl h
  | none =>
      rw [hcache] at h
      dsimp only at h
      cases hfetch : (lastWrite f.index k).bind replica.fetch with
      | none =>
          rw [hfetch] at h
          exact Or.inl h
      | some new =>
          rw [hfetch] at h
          dsimp only at h
          split at h
          · exact Or.inl h
          · dsimp only at h
            rw [Function.update_apply] at h
            split at h
            · next heq => exact Or.inr (by rw [heq, hfetch, h])
            · exact Or.inl h

theorem cache_writeToBuffer (k : Nat) (data : Bytes) (f : VFSFile) :
    (f.writeToBuffer k data).cache = f.cache := by
  obtain ⟨dirty, bufferFile, bufferNextOff, heq⟩ := writeToBuffer_eq k data f
  rw [heq]

theorem cache_writeAt {b data : Bytes} {off j : Nat}
    (h : (f.WriteAt replica b off).1.cache j = some data) :
    f.cache j = some data ∨ (lastWrite f.index j).bind replica.fetch = some data := by
  rw [VFSFile.WriteAt] at h
  split at h
  · exact Or.inl h
  dsimp only at h
  split at h
  · exact Or.inl h
  split at h
  · exact Or.inl h
  split at h
  · split at h
    · exact Or.inl h
    · dsimp only at h
      rw [cache_writeToBuffer] at h
      exact Or.inl h
  · dsimp only at h
    rw [cache_writeToBuffer] at h
    exact cache_readPageForWrite h

/-- A write of a page succeeds, unless it is the lock page. -/
theorem writeAt_result (hsize : f.pageSize = ps.size) (hwrite : f.writeEnabled = true)
    (h : Buffered ps f) (i : Nat) (page : Page ps) :
    (f.WriteAt replica page.data (i * ps.size)).2 =
      if i + 1 = lockPgno ps then .error .lockPage else .ok ps.size := by
  have hpos := pageSize_pos ps
  have hlength := page.length_data
  rw [VFSFile.WriteAt, hsize, if_neg hpos.ne', Nat.mul_div_cancel _ hpos, Nat.mul_mod_left]
  dsimp only
  rw [Nat.sub_zero, hlength, min_self]
  rw [show 0x40000000 / ps.size + 1 = lockPgno ps from rfl]
  split
  · rfl
  · rw [hwrite]
    rw [Bool.not_true, if_neg Bool.false_ne_true]
    cases hoff : lastWrite f.dirty (i + 1) with
    | none => rfl
    | some off =>
        have hfull : (f.bufferFile.readAt off ps.size).length = ps.size :=
          length_dirtyPage (k := i + 1) hsize h
            (by rw [VFSFile.dirtyPage, hoff, Option.map_some, hsize])
        dsimp only
        rw [if_neg hfull.not_lt]

theorem writeAt_lockPage (hsize : f.pageSize = ps.size) {i : Nat} (page : Page ps)
    (h : i + 1 = lockPgno ps) : (f.WriteAt replica page.data (i * ps.size)).1 = f := by
  have hpos := pageSize_pos ps
  rw [VFSFile.WriteAt, hsize, if_neg hpos.ne', Nat.mul_div_cancel _ hpos]
  dsimp only
  rw [if_pos (show i + 1 = 0x40000000 / ps.size + 1 from h)]

theorem Inv.writeAt (h : Inv plan s) (hstored : ∀ file ∈ plan, replica.Stored file) (i : Nat)
    (page : Page ps) : Inv plan (s.next replica (.writeAt i page)) := by
  rw [next]
  by_cases hlock : i + 1 = lockPgno ps
  · rw [if_pos hlock, writeAt_lockPage h.pageSize page hlock]
    exact h
  · rw [if_neg hlock]
    have hresult : (s.file.WriteAt replica page.data (i * ps.size)).2 = _ :=
      writeAt_result h.pageSize h.writeEnabled h.buffered i page
    rw [if_neg hlock] at hresult
    have hcached : ∀ j data,
        (s.file.WriteAt replica page.data (i * ps.size)).1.cache j = some data → _ :=
      fun j data => cache_writeAt
    cases hwrite : s.file.WriteAt replica page.data (i * ps.size) with
    | mk f' result =>
        rw [hwrite] at hresult hcached
        obtain rfl : result = .ok ps.size := hresult
        have hone : 1 ≤ i + 1 := Nat.succ_pos i
        have hpending : f'.pending = s.file.pending ∧ f'.pendingReplace = s.file.pendingReplace := by
          obtain ⟨cache, commit, dirty, bufferFile, bufferNextOff, heq⟩ :=
            writeAt_eq replica page.data (i * ps.size) s.file
          rw [hwrite] at heq
          rw [show f' = _ from heq]
          exact ⟨rfl, rfl⟩
        obtain ⟨-, hbuffered, hkept, hindex, hdirty, -⟩ := writeAt_spec h.pageSize h.buffered hone hwrite
        refine ⟨hkept.pageSize.trans h.pageSize, hkept.writeEnabled.trans h.writeEnabled, hbuffered,
          hindex.trans h.index, hpending.1.trans h.pending, hpending.2.trans h.pendingReplace, ?_, ?_,
          ?_⟩
        · intro k data hdata
          rcases hcached k data hdata with hdata | hdata
          · exact h.cache k data hdata
          · rw [h.index, Replica.bind_fetch_lastWrite hstored] at hdata
            exact hdata
        · intro j
          rw [entry_put, content, hdirty, h.page j, content]
          split
          · next heq => rw [if_pos (congrArg (· + 1) heq), Option.getD_some]
          · next hne => rw [if_neg fun heq => hne (Nat.succ_injective heq)]
        · have hmem : ∀ k, k ∈ f'.dirty.map Prod.fst ↔ k = i + 1 ∨ k ∈ s.file.dirty.map Prod.fst := by
            intro k
            rw [mem_dirty_iff, mem_dirty_iff, hdirty]
            split
            · next heq => simp [heq]
            · next hne => simp [hne]
          obtain ⟨hle, hlast⟩ := (fileSize_iff h.pageSize h.pending _).mp h.size
          rw [SizeAgrees]
          dsimp only
          rw [fileSize_iff (hkept.pageSize.trans h.pageSize) (hpending.1.trans h.pending), length_put,
            hindex]
          simp only [List.mem_append, hmem] at hle hlast ⊢
          refine ⟨fun k hk => ?_, fun _ => ?_⟩
          · rcases hk with hk | rfl | hk
            · exact (hle k (Or.inl hk)).trans (Nat.le_max_left _ _)
            · exact Nat.le_max_right _ _
            · exact (hle k (Or.inr hk)).trans (Nat.le_max_left _ _)
          · rcases Nat.le_total s.pages.length (i + 1) with hmax | hmax
            · exact Or.inr (Or.inl (Nat.max_eq_right hmax))
            · rw [Nat.max_eq_left hmax]
              exact (hlast (by omega)).imp_right Or.inr

/-! ## Truncating -/

theorem truncate_eq (hsize : f.pageSize = ps.size) (hwrite : f.writeEnabled = true) (n : Nat) :
    f.Truncate (n * ps.size) =
      .ok { f with dirty := f.dirty.filter fun w => w.1 ≤ n, commit := n } := by
  have hpos := pageSize_pos ps
  rw [VFSFile.Truncate, hsize, if_neg hpos.ne', hwrite, Nat.mul_div_cancel _ hpos]
  rfl

theorem buffered_truncate (h : Buffered ps f) (n : Nat) :
    Buffered ps { f with dirty := f.dirty.filter fun w => w.1 ≤ n, commit := n } where
  keys_nodup := h.keys_nodup.sublist (List.filter_sublist.map _)
  length := h.length
  within w hw := h.within w (List.mem_filter.mp hw).1
  disjoint w hw v hv := h.disjoint w (List.mem_filter.mp hw).1 v (List.mem_filter.mp hv).1

theorem mem_dirty_truncate (f : VFSFile) (n k : Nat) :
    k ∈ (f.dirty.filter fun w => w.1 ≤ n).map Prod.fst ↔ k ≤ n ∧ k ∈ f.dirty.map Prod.fst := by
  rw [← not_iff_not, ← lastWrite_eq_none_iff, lastWrite_filter (· ≤ n)]
  split
  · next hk => simp [hk, lastWrite_eq_none_iff]
  · next hk => simp [hk]

theorem dirtyPage_truncate (f : VFSFile) (n k : Nat) :
    VFSFile.dirtyPage { f with dirty := f.dirty.filter fun w => w.1 ≤ n, commit := n } k =
      if k ≤ n then f.dirtyPage k else none := by
  rw [VFSFile.dirtyPage, VFSFile.dirtyPage]
  dsimp only
  rw [lastWrite_filter (· ≤ n)]
  split <;> rfl

/-- The size is right after a truncation if and only if it cuts as it should. -/
theorem Inv.truncate_size_iff (h : Inv plan s) (n : Nat) :
    SizeAgrees ps (s.next replica (.truncate n)) ↔ Cuts s.file n := by
  obtain ⟨hle, hlast⟩ := (fileSize_iff h.pageSize h.pending _).mp h.size
  have hsize : ({ s.file with dirty := s.file.dirty.filter fun w => w.1 ≤ n, commit := n } :
      VFSFile).pageSize = ps.size := h.pageSize
  rw [SizeAgrees, next, truncate_eq h.pageSize h.writeEnabled, State.orSame]
  dsimp only
  rw [fileSize_iff hsize h.pending, List.length_take, Cuts]
  simp only [List.mem_append, mem_dirty_truncate] at hle hlast ⊢
  constructor
  · rintro ⟨hle', hlast'⟩
    refine ⟨fun k hk => (hle' k (Or.inl hk)).trans (Nat.min_le_left _ _), ?_⟩
    rcases Nat.lt_or_ge n s.pages.length with hn | hn
    · rcases Nat.eq_zero_or_pos n with rfl | hpos
      · exact Or.inl rfl
      · rw [Nat.min_eq_left hn.le] at hlast'
        exact Or.inr (Or.inl ((hlast' hpos.ne').imp_right And.right))
    · exact Or.inr (Or.inr fun k hk => (hle k (Or.inr hk)).trans hn)
  · rintro ⟨hindex, hcut⟩
    refine ⟨fun k hk => ?_, fun hne => ?_⟩
    · rcases hk with hk | hk
      · exact le_min (hindex k hk) (hle k (Or.inl hk))
      · exact le_min hk.1 (hle k (Or.inr hk.2))
    · rcases Nat.lt_or_ge n s.pages.length with hn | hn
      · rw [Nat.min_eq_left hn.le] at hne ⊢
        rcases hcut with rfl | hmem | hdirty
        · exact absurd rfl hne
        · exact hmem.imp_right fun hmem => ⟨le_rfl, hmem⟩
        · -- then no page is above, but the last page of the file is
          have habove := hlast (by omega)
          rcases habove with habove | habove
          · exact absurd (hindex _ habove) (by omega)
          · exact absurd (hdirty _ habove) (by omega)
      · rw [Nat.min_eq_right hn] at hne ⊢
        exact (hlast hne).imp_right fun hmem => ⟨hn, hmem⟩

theorem Inv.truncate {n : Nat} (h : Inv plan s) (hcuts : Cuts s.file n) :
    Inv plan (s.next replica (.truncate n)) := by
  have hsize : SizeAgrees ps (s.next replica (.truncate n)) := (h.truncate_size_iff n).mpr hcuts
  rw [next, truncate_eq h.pageSize h.writeEnabled, State.orSame] at hsize ⊢
  refine ⟨h.pageSize, h.writeEnabled, buffered_truncate h.buffered n, h.index, h.pending, h.pendingReplace,
    h.cache, fun i => ?_, hsize⟩
  dsimp only
  rw [entry_take, content, dirtyPage_truncate]
  split
  · next hi => rw [if_pos (Nat.succ_le_of_lt hi), h.page i, content]
  · next hi =>
      rw [if_neg (by omega), Option.getD_none, lastWrite_eq_none_iff.mpr, Option.getD_none]
      rw [← keys_mergeIndex, ← h.index]
      intro hmem
      exact hi (hcuts.1 _ hmem)

/-! ## Runs of calls -/

theorem Inv.lock (h : Inv plan s) (elock : LockType) : Inv plan (s.next replica (.lock elock)) := by
  rw [next, VFSFile.Lock]
  split_ifs
  · exact h
  · exact ⟨h.pageSize, h.writeEnabled, ⟨h.buffered.1, h.buffered.2, h.buffered.3, h.buffered.4⟩,
      h.index, h.pending, h.pendingReplace, h.cache, h.page, h.size⟩
  · exact h
  · exact ⟨h.pageSize, h.writeEnabled, ⟨h.buffered.1, h.buffered.2, h.buffered.3, h.buffered.4⟩,
      h.index, h.pending, h.pendingReplace, h.cache, h.page, h.size⟩

/-- Without pending entries an unlock leaves the index and the cache. -/
theorem Inv.unlock (h : Inv plan s) (elock : LockType) : Inv plan (s.next replica (.unlock elock)) := by
  rw [next, VFSFile.Unlock]
  split_ifs
  · exact h
  · have happlied : s.file.applied = s.file.index := by
      rw [VFSFile.applied, h.pendingReplace, h.pending, List.append_nil]
      rfl
    have hsize := (fileSize_iff h.pageSize h.pending _).mp h.size
    refine ⟨h.pageSize, h.writeEnabled, ⟨h.buffered.1, h.buffered.2, h.buffered.3, h.buffered.4⟩,
      happlied.trans h.index, rfl, rfl, fun k data hk => ?_, h.page, ?_⟩
    · dsimp only [State.orSame] at hk
      split at hk
      · cases hk
      · exact h.cache k data hk
    · rw [← happlied] at hsize
      exact (fileSize_iff (f := { s.file with
        inTransaction := s.file.inTransaction && !s.file.writeEnabled, lockType := elock,
        index := s.file.applied, pending := [], pendingReplace := false }) h.pageSize rfl _).mpr hsize

theorem Inv.readAt (h : Inv plan s) (hstored : ∀ file ∈ plan, replica.Stored file) (random : Bytes)
    (i : Nat) : Inv plan (s.next replica (.readAt random i)) := by
  obtain ⟨cache, heq, hcache, -⟩ := h.readAt_cases hstored random i
  rw [next, heq]
  exact ⟨h.pageSize, h.writeEnabled, ⟨h.buffered.1, h.buffered.2, h.buffered.3, h.buffered.4⟩,
    h.index, h.pending, h.pendingReplace, hcache, h.page, h.size⟩

/-- A call that cuts as it should keeps the invariant. -/
theorem Inv.next (h : Inv plan s) (hstored : ∀ file ∈ plan, replica.Stored file)
    (hcuts : s.CutsAt call) : Inv plan (s.next replica call) := by
  cases call with
  | lock elock => exact h.lock elock
  | unlock elock => exact h.unlock elock
  | writeAt i page => exact h.writeAt hstored i page
  | truncate n => exact h.truncate hcuts
  | readAt random i => exact h.readAt hstored random i
  | fileSize => exact h

theorem Inv.returns (h : Inv plan s) (hstored : ∀ file ∈ plan, replica.Stored file)
    (call : Call ps) : s.Returns replica call := by
  cases call with
  | lock elock => trivial
  | unlock elock => trivial
  | writeAt i page => exact writeAt_result h.pageSize h.writeEnabled h.buffered i page
  | truncate n =>
      rw [Returns, truncate_eq h.pageSize h.writeEnabled]
      rfl
  | readAt random i =>
      obtain ⟨-, -, -, p, hp, hsame⟩ := h.readAt_cases hstored random i
      intro _
      refine ⟨p, hp, fun j hj => ?_⟩
      rw [hsame j hj, h.page]
  | fileSize => exact h.size

/-- Under the invariant a call agrees if and only if it cuts as it should. -/
theorem Inv.cutsAt_iff (h : Inv plan s) (hstored : ∀ file ∈ plan, replica.Stored file)
    (call : Call ps) : s.Agrees replica call ↔ s.CutsAt call := by
  refine ⟨fun hagrees => ?_, fun hcuts => ⟨h.returns hstored call, (h.next hstored hcuts).size⟩⟩
  cases call with
  | truncate n => exact (h.truncate_size_iff n).mp hagrees.2
  | lock elock => trivial
  | unlock elock => trivial
  | writeAt i page => trivial
  | readAt random i => trivial
  | fileSize => trivial

/-- The size and the result of every call are those of a flat file if and only if the last
file of the plan cuts off no page of the plan, and every truncation cuts as it should. -/
theorem agrees_iff (hstored : ∀ file ∈ plan, replica.Stored file) (h : WriteMode ps f) :
    (SizeAgrees ps (opened plan f) ∧
        Along (step replica) (Agrees replica) (opened plan f) calls) ↔
      Uncut plan ∧ Along (step replica) CutsAt (opened plan f) calls := by
  rw [opened_size_iff h]
  refine and_congr_right fun huncut => ?_
  refine along_congr (I := Inv plan) ?_ (fun hs => Inv.cutsAt_iff hs hstored _) (opened_inv h huncut)
  intro s call s' hs hagrees hstep
  obtain rfl := Option.some.inj hstep
  exact hs.next hstored ((hs.cutsAt_iff hstored call).mp hagrees)

/-! ## A database of two pages that is cut to one -/

/-- The file of a writer. -/
def writer : VFSFile := { OnePage.file with writeEnabled := true }

theorem writeMode_writer : WriteMode PageSize.min writer := ⟨rfl, rfl, rfl, rfl, rfl⟩

def snapshots (n : Nat) : List (LTXFile PageSize.min) := [OnePage.snapshot n]

theorem stored_snapshots (n : Nat) : ∀ file ∈ snapshots n, (OnePage.replica n).Stored file := by
  intro file hfile
  rw [List.mem_singleton.mp hfile]
  exact List.mem_singleton.mpr rfl

end Flat

open Flat in
/-- A database of one page is extended by two pages and cut again, twice. -/
theorem agrees_iff_sample :
    SizeAgrees PageSize.min (opened (snapshots 1) writer) ∧
      Along (step (OnePage.replica 1)) (Agrees (OnePage.replica 1)) (opened (snapshots 1) writer)
        [.lock .reserved, .writeAt 1 (OnePage.page 2), .writeAt 2 (OnePage.page 3), .truncate 2,
          .readAt [] 1, .truncate 1, .writeAt 2 (OnePage.page 4), .readAt [] 1, .unlock .none] :=
  (Flat.agrees_iff (stored_snapshots 1) writeMode_writer).mpr
    ⟨⟨by decide +kernel, fun _ => by decide +kernel⟩, by decide +kernel⟩

open Flat in
/-- The second page of a database of two is cut off.  The size stays, and once a third page is
written the second page has its old content again. -/
theorem cut_page_returns :
    SizeAgrees PageSize.min (opened (snapshots 2) writer) ∧
      ¬ Along (step (OnePage.replica 2)) (Agrees (OnePage.replica 2)) (opened (snapshots 2) writer)
        [.lock .reserved, .truncate 1] ∧
      (((opened (snapshots 2) writer).next (OnePage.replica 2) (.lock .reserved)).next
        (OnePage.replica 2) (.truncate 1)).file.FileSize = .ok 1024 ∧
      ¬ Along (step (OnePage.replica 2)) (Returns (OnePage.replica 2))
        (opened (snapshots 2) writer)
        [.lock .reserved, .truncate 1, .writeAt 2 (OnePage.page 4), .readAt [] 1] := by
  have huncut : Uncut (snapshots 2) := ⟨by decide +kernel, fun _ => by decide +kernel⟩
  refine ⟨(opened_size_iff writeMode_writer).mpr huncut, fun h => ?_, by decide +kernel, fun h => ?_⟩
  · obtain ⟨-, h⟩ := h
    obtain ⟨⟨-, hsize⟩, -⟩ := h _ rfl
    exact absurd hsize (by decide +kernel)
  · obtain ⟨-, h⟩ := h
    obtain ⟨-, h⟩ := h _ rfl
    obtain ⟨-, h⟩ := h _ rfl
    obtain ⟨hread, -⟩ := h _ rfl
    obtain ⟨p, hp, hsame⟩ := hread (by decide +kernel)
    have hbyte := hsame 0 (by decide)
    have hold : p = (OnePage.page 1).data := by
      refine Except.ok.inj (hp.symm.trans ?_)
      decide +kernel
    rw [hold] at hbyte
    exact absurd hbyte (by decide +kernel)

end Vfs

end Litestream
