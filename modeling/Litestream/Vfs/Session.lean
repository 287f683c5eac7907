import Litestream.Vfs.Freshness
import Litestream.Vfs.Write

/-!
# Sessions of one writer

A session is a run of one file that writes, syncs and polls, with evictions from the page
cache and compactions of level 0 at any point.  No one else uploads level 0 files.

A sync leaves the index as it is, so the index has an old entry for a page that was synced,
or none.  Reads go to the cache instead, which has the page until it is evicted.

`reads_of_run` says that every read returns what was written last, if in the run no page
leaves the cache while its index entry is out of date.
-/

namespace Litestream

namespace Vfs

open Overlay Cover Resize Run State

variable {ps : PageSize}

structure Session (ps : PageSize) where
  state : State ps
  /-- The pages that the replica had at the start. -/
  base : List (Nat × Bytes)
  /-- The pages that were written since. -/
  written : List (Nat × Bytes)

inductive SessionAction (ps : PageSize) where
  | write (pgno : Nat) (page : Page ps)
  | read (random : Bytes) (off len : Nat)
  | sync (file : LTXFile ps)
  | evict (pgno : Nat)
  | poll
  | compact (file : LTXFile ps)
  | lock (elock : LockType)
  | unlock (elock : LockType)

namespace Session

def file (s : Session ps) : VFSFile := s.state.file

/-- The session with another file. -/
def withFile (s : Session ps) (f : VFSFile) : Session ps := { s with state := { s.state with file := f } }

/-- A write that succeeded, in a transaction. -/
def Writes (s : Session ps) (pgno : Nat) (page : Page ps) : Prop :=
  1 ≤ pgno ∧ s.file.inTransaction = true ∧
    (s.file.WriteAt s.state.replica page.data ((pgno - 1) * ps.size)).2.isOk = true

/-- A sync that succeeds with the upload of this file. -/
def Syncs (s : Session ps) (file : LTXFile ps) : Prop :=
  s.file.Syncs s.state.replica ∧ s.file.Creates file ∧ s.state.replica.Fresh file

instance (s : Session ps) (pgno : Nat) (page : Page ps) : Decidable (s.Writes pgno page) :=
  inferInstanceAs (Decidable (_ ∧ _ ∧ _))

instance (s : Session ps) (file : LTXFile ps) : Decidable (s.Syncs file) :=
  inferInstanceAs (Decidable (_ ∧ _ ∧ _))

def step (s : Session ps) : SessionAction ps → Option (Session ps)
  | .write pgno page =>
    if s.Writes pgno page then
      some { s.withFile (s.file.WriteAt s.state.replica page.data ((pgno - 1) * ps.size)).1 with
        written := s.written ++ [(pgno, page.data)] }
    else none
  | .read random off len => some (s.withFile (s.file.ReadAt s.state.replica random off len).1)
  | .sync file =>
    if h : s.Syncs file then
      some { s with state := ⟨s.state.history ++ [file], s.state.replica.put file h.2.2,
        s.file.uploaded⟩ }
    else none
  | .evict pgno =>
    some (s.withFile { s.file with cache := Function.update s.file.cache pgno none })
  | .poll => some (s.withFile s.state.polled)
  | .compact file =>
    if h : s.state.Compactable file then
      some { s with state := ⟨s.state.history, s.state.replica.put file h.2.2.2, s.file⟩ }
    else none
  | .lock elock => some (s.withFile (orSame s.file (s.file.Lock elock)))
  | .unlock elock => some (s.withFile (orSame s.file (s.file.Unlock elock)))

/-- The page as it was written last, or as the replica had it at the start. -/
def content (s : Session ps) (k : Nat) : Option Bytes := lastWrite (s.base ++ s.written) k

/-- Every read of a page returns its content, but for bytes of the header.  A page without
content is read as zeros. -/
def Reads (s : Session ps) : Prop :=
  ∀ random k, 1 ≤ k →
    ∃ p, (s.file.ReadAt s.state.replica random ((k - 1) * ps.size) ps.size).2 = .ok p ∧
      ∀ i, ¬ (k = 1 ∧ i ∈ VFSFile.headerBytes) →
        p[i]? = ((s.content k).getD (List.replicate ps.size 0))[i]?

/-! ## Current entries -/

/-- The index reads the newest version of the page that the replica has, and does not map a
page that the replica does not have. -/
def Current (s : Session ps) (index : Index) (k : Nat) : Prop :=
  (lastWrite index k).map s.state.replica.fetch =
    (lastWrite (mergePages s.state.history) k).map some

/-- The entries that a poll adds to the index. -/
def polledEntries (s : Session ps) : Index :=
  if Replaces s.file.commit (VFSFile.levelFiles s.state.replica 0 s.file.pos)
      (VFSFile.levelFiles s.state.replica 1 s.file.maxTXID1)
  then mergeIndex (sinceShrink LTXFile.commit (s.file.polledFiles s.state.replica))
  else mergeIndex (s.file.polledFiles s.state.replica)

/-- The index after a poll without a read lock. -/
def polledIndex (s : Session ps) : Index :=
  if Replaces s.file.commit (VFSFile.levelFiles s.state.replica 0 s.file.pos)
      (VFSFile.levelFiles s.state.replica 1 s.file.maxTXID1)
  then s.polledEntries
  else s.file.index ++ s.polledEntries

/-- Every page that is not dirty, and that the cache does not have or loses, is current in
the index. -/
def CurrentWithout (s : Session ps) (index : Index) (loses : Nat → Prop) : Prop :=
  ∀ k, s.file.dirtyPage k = none → s.file.cache k = none ∨ loses k → s.Current index k

instance (s : Session ps) (index : Index) (k : Nat) : Decidable (s.Current index k) :=
  inferInstanceAs (Decidable (_ = _))

/-- Only pages of the index and of the replica matter. -/
instance (s : Session ps) (index : Index) (loses : Nat → Prop) [DecidablePred loses] :
    Decidable (s.CurrentWithout index loses) :=
  decidable_of_iff (∀ k ∈ index.map Prod.fst ++ (mergePages s.state.history).map Prod.fst,
      s.file.dirtyPage k = none → s.file.cache k = none ∨ loses k → s.Current index k) <| by
    refine ⟨fun h k hk hcache => ?_, fun h k _ => h k⟩
    by_cases hmem : k ∈ index.map Prod.fst ++ (mergePages s.state.history).map Prod.fst
    · exact h k hmem hk hcache
    · rw [List.mem_append, not_or, ← lastWrite_eq_none_iff, ← lastWrite_eq_none_iff] at hmem
      rw [Current, hmem.1, hmem.2]
      rfl

/-- No page leaves the cache, and no page outside the cache gets a new entry, unless it is
dirty or current in the index. -/
def CurrentAt (s : Session ps) : SessionAction ps → Prop
  | .evict pgno => s.CurrentWithout s.file.index fun k => k = pgno
  | .poll => s.file.lockType.toNat < LockType.shared.toNat → s.state.Aligned →
      s.CurrentWithout s.polledIndex fun k => k ∈ s.polledEntries.map Prod.fst
  | .unlock elock => elock = .shared ∨ elock = .none →
      s.CurrentWithout s.file.applied fun k =>
        s.file.pendingReplace = true ∨ k ∈ s.file.pending.map Prod.fst
  | _ => True

instance (s : Session ps) (a : SessionAction ps) : Decidable (s.CurrentAt a) := by
  cases a with
  | evict pgno => exact inferInstanceAs (Decidable (s.CurrentWithout _ fun k => k = pgno))
  | poll => exact inferInstanceAs (Decidable (_ → s.state.Aligned → s.CurrentWithout _ fun k =>
      k ∈ s.polledEntries.map Prod.fst))
  | unlock elock => exact inferInstanceAs (Decidable (_ ∨ _ → s.CurrentWithout _ fun k =>
      s.file.pendingReplace = true ∨ k ∈ s.file.pending.map Prod.fst))
  | write pgno page => exact Decidable.isTrue trivial
  | read random off len => exact Decidable.isTrue trivial
  | sync file => exact Decidable.isTrue trivial
  | compact file => exact Decidable.isTrue trivial
  | lock elock => exact Decidable.isTrue trivial

/-- A file that was opened for writing on the newest files of the replica. -/
structure Opened (s : Session ps) : Prop where
  valid : s.state.Valid
  pos : s.file.pos = s.state.newest
  pendingTXID : s.file.pendingTXID = s.file.pos + 1
  pageSize : s.file.pageSize = ps.size
  writeEnabled : s.file.writeEnabled = true
  dirty : s.file.dirty = []
  bufferFile : s.file.bufferFile = []
  bufferNextOff : s.file.bufferNextOff = 0
  cache : ∀ k, s.file.cache k = none
  base : s.base = mergePages s.state.history
  written : s.written = []

/-- Every page has its content in the buffer if it is dirty, and otherwise in the replica.  If
it is not dirty, the cache has its content, or the index is current. -/
structure Inv (s : Session ps) : Prop where
  valid : s.state.Valid
  pos : s.file.pos = s.state.newest
  pendingTXID : s.file.pendingTXID = s.file.pos + 1
  pageSize : s.file.pageSize = ps.size
  writeEnabled : s.file.writeEnabled = true
  buffered : Buffered ps s.file
  lockPage : s.file.dirtyPage (lockPgno ps) = none
  dirty : ∀ k data, s.file.dirtyPage k = some data → s.content k = some data
  clean : ∀ k, s.file.dirtyPage k = none → s.content k = lastWrite (mergePages s.state.history) k
  cached : ∀ k data, s.file.dirtyPage k = none → s.file.cache k = some data →
    s.content k = some data
  current : s.CurrentWithout s.file.index fun _ => False

variable {s s' : Session ps} {a : SessionAction ps} {k : Nat} {index : Index}

theorem Opened.inv (h : s.Opened) (hcurrent : ∀ k, s.Current s.file.index k) : s.Inv := by
  have hdirty : ∀ k, s.file.dirtyPage k = none := fun k => by
    rw [dirtyPage_eq_none_iff, h.dirty]
    rfl
  refine ⟨h.valid, h.pos, h.pendingTXID, h.pageSize, h.writeEnabled, ?_, hdirty _, ?_, ?_, ?_,
    fun k _ _ => hcurrent k⟩
  · refine ⟨?_, ?_, ?_, ?_⟩ <;> simp [h.dirty, h.bufferFile, h.bufferNextOff]
  · intro k data hdata
    rw [hdirty] at hdata
    cases hdata
  · intro k _
    rw [content, h.written, h.base, List.append_nil]
  · intro k data _ hdata
    rw [h.cache] at hdata
    cases hdata

/-! ## Reading -/

theorem Inv.length_content {data : Bytes} (h : s.Inv) (hdirty : s.file.dirtyPage k = none)
    (hdata : s.content k = some data) : data.length = ps.size :=
  length_page ((h.clean k hdirty).symm.trans hdata)

/-- A current index reads the content. -/
theorem Inv.current_cases (h : s.Inv) (hdirty : s.file.dirtyPage k = none)
    (hcurrent : s.Current index k) :
    lastWrite index k = none ∧ s.content k = none ∨
      ∃ e data, lastWrite index k = some e ∧ s.state.replica.fetch e = some data ∧
        s.content k = some data := by
  rw [Current, ← h.clean k hdirty] at hcurrent
  cases hindex : lastWrite index k with
  | none =>
      rw [hindex] at hcurrent
      exact Or.inl ⟨rfl, Option.map_eq_none_iff.mp hcurrent.symm⟩
  | some e =>
      rw [hindex, Option.map_some] at hcurrent
      obtain ⟨data, hdata, hfetch⟩ := Option.map_eq_some_iff.mp hcurrent.symm
      exact Or.inr ⟨e, data, rfl, hfetch.symm, hdata⟩

/-- Under the invariant every read returns the content. -/
theorem Inv.reads (h : s.Inv) : s.Reads := by
  intro random k hone
  have hbounds := ps.bounds
  have hpos : 0 < ps.size := by omega
  have hpgno : (k - 1) * ps.size / ps.size + 1 = k := by
    rw [Nat.mul_div_cancel _ hpos]
    omega
  have hread : ∀ data : Bytes, s.content k = some data → data.length = ps.size →
      ∃ p, VFSFile.present random ((k - 1) * ps.size) ps.size ((k - 1) * ps.size % ps.size) data =
          .ok p ∧
        ∀ i, ¬ (k = 1 ∧ i ∈ VFSFile.headerBytes) →
          p[i]? = ((s.content k).getD (List.replicate ps.size 0))[i]? := by
    intro data hdata hlength
    obtain ⟨p, hp, hsame⟩ := present_page random hone hlength
    refine ⟨p, hp, fun i hi => ?_⟩
    rw [hdata, Option.getD_some]
    exact hsame i hi
  cases hdirty : s.file.dirtyPage k with
  | some data =>
      rw [readAt_dirty h.pageSize h.writeEnabled h.buffered (hpgno.symm ▸ hdirty), if_neg (by omega)]
      exact hread data (h.dirty k data hdirty) (length_dirtyPage h.pageSize h.buffered hdirty)
  | none =>
      rw [readAt_clean h.pageSize h.writeEnabled (hpgno.symm ▸ hdirty), hpgno]
      cases hcache : s.file.cache k with
      | some data =>
          have hdata := h.cached k data hdirty hcache
          exact hread data hdata (h.length_content hdirty hdata)
      | none =>
          rcases h.current_cases hdirty (h.current k hdirty (Or.inl hcache)) with
            ⟨hindex, hnone⟩ | ⟨e, data, hindex, hfetch, hdata⟩
          · rw [hindex, hnone]
            exact ⟨_, rfl, fun i _ => rfl⟩
          · rw [hindex]
            dsimp only
            rw [hfetch]
            exact hread data hdata (h.length_content hdirty hdata)

theorem Inv.read (h : s.Inv) (random : Bytes) (off len : Nat) :
    (s.withFile (s.file.ReadAt s.state.replica random off len).1).Inv := by
  cases hdirty : s.file.dirtyPage (off / ps.size + 1) with
  | some data =>
      rw [readAt_dirty h.pageSize h.writeEnabled h.buffered hdirty]
      exact h
  | none =>
      rw [readAt_clean h.pageSize h.writeEnabled hdirty]
      cases hcache : s.file.cache (off / ps.size + 1) with
      | some data => exact h
      | none =>
          rcases h.current_cases hdirty (h.current _ hdirty (Or.inl hcache)) with
            ⟨hindex, -⟩ | ⟨e, data, hindex, hfetch, hdata⟩
          · rw [hindex]
            exact h
          · -- the page that was fetched goes to the cache
            rw [hindex]
            dsimp only
            rw [hfetch]
            refine { h with
              valid := h.valid.of_file rfl rfl rfl
              buffered := ⟨h.buffered.1, h.buffered.2, h.buffered.3, h.buffered.4⟩
              cached := fun k data' hk hdata' => ?_
              current := fun k hk hcached => h.current k hk (Or.inl ?_) }
            · change Function.update s.file.cache _ (some data) k = some data' at hdata'
              rw [Function.update_apply] at hdata'
              split at hdata'
              · next heq => rw [heq, ← hdata', ← hdata]; rfl
              · exact h.cached k data' hk hdata'
            · have hcached : Function.update s.file.cache _ (some data) k = none :=
                hcached.resolve_right id
              rw [Function.update_apply] at hcached
              split at hcached
              · cases hcached
              · exact hcached

/-! ## Writing and syncing -/

theorem content_write (s : Session ps) (f : VFSFile) (pgno : Nat) (data : Bytes) (k : Nat) :
    content { s.withFile f with written := s.written ++ [(pgno, data)] } k =
      if k = pgno then some data else s.content k := by
  rw [content, content]
  dsimp only [withFile]
  rw [← List.append_assoc, lastWrite_append _ [(pgno, data)], lastWrite_cons, lastWrite_nil,
    Option.none_or]
  split
  · next h => rw [if_pos h.symm, Option.some_or]
  · next h => rw [if_neg (Ne.symm h), Option.none_or]

theorem Inv.write {pgno : Nat} {page : Page ps} (h : s.Inv) (hwrites : s.Writes pgno page) :
    Inv { s.withFile (s.file.WriteAt s.state.replica page.data ((pgno - 1) * ps.size)).1 with
      written := s.written ++ [(pgno, page.data)] } := by
  obtain ⟨hone, -, hok⟩ := hwrites
  cases hwrite : s.file.WriteAt s.state.replica page.data ((pgno - 1) * ps.size) with
  | mk f' result =>
      rw [hwrite] at hok
      cases result with
      | error err => cases hok
      | ok n =>
          obtain ⟨hlock, hbuffered, hkept, hindex, hdirty, hcache⟩ :=
            writeAt_spec h.pageSize h.buffered hone hwrite
          have hclean : ∀ k, f'.dirtyPage k = none → k ≠ pgno ∧ s.file.dirtyPage k = none := by
            intro k hk
            rw [hdirty] at hk
            split at hk
            · cases hk
            · next hne => exact ⟨hne, hk⟩
          refine ⟨h.valid.of_file hkept.pos hkept.maxTXID1 hkept.targetTime,
            hkept.pos.trans h.pos, ?_, hkept.pageSize.trans h.pageSize,
            hkept.writeEnabled.trans h.writeEnabled, hbuffered, ?_, ?_, ?_, ?_, ?_⟩
          · exact hkept.pendingTXID.trans (h.pendingTXID.trans (congrArg (· + 1) hkept.pos.symm))
          · refine (hdirty _).trans ?_
            rw [if_neg hlock.symm]
            exact h.lockPage
          · intro k data hdata
            have hdata := (hdirty k).symm.trans hdata
            rw [content_write]
            split at hdata
            · next hk => rw [if_pos hk, hdata]
            · next hk =>
                rw [if_neg hk]
                exact h.dirty k data hdata
          · intro k hk
            obtain ⟨hne, hk⟩ := hclean k hk
            rw [content_write, if_neg hne]
            exact h.clean k hk
          · intro k data hk hdata
            obtain ⟨hne, hk⟩ := hclean k hk
            rw [content_write, if_neg hne]
            exact h.cached k data hk ((hcache k hne).symm.trans hdata)
          · intro k hk hcached
            obtain ⟨hne, hk⟩ := hclean k hk
            have hcurrent := h.current k hk
              (hcached.imp_left fun hnone => (hcache k hne).symm.trans hnone)
            rw [Current] at hcurrent ⊢
            exact (congrArg (fun index => (lastWrite index k).map _) hindex).trans hcurrent

/-- A file that is added to the replica leaves what the index reads. -/
theorem Current.put {file : LTXFile ps} (h : s.Current index k)
    (hfresh : s.state.replica.Fresh file) :
    (lastWrite index k).map (s.state.replica.put file hfresh).fetch =
      (lastWrite (mergePages s.state.history) k).map some := by
  rw [Current] at h
  rw [← h]
  cases hindex : lastWrite index k with
  | none => rfl
  | some e =>
      rw [hindex, Option.map_some] at h
      obtain ⟨data, -, hfetch⟩ := Option.map_eq_some_iff.mp h.symm
      have hne : s.state.replica.fetch e ≠ none := by
        rw [← hfetch]
        exact Option.some_ne_none data
      rw [Option.map_some, Option.map_some, fetch_put hfresh hne]

/-- A sync moves the dirty pages to the replica and to the cache. -/
theorem Inv.sync {file : LTXFile ps} (h : s.Inv) (hsync : s.Syncs file) :
    Inv { s with state := ⟨s.state.history ++ [file], s.state.replica.put file hsync.2.2,
      s.file.uploaded⟩ } := by
  obtain ⟨-, ⟨hlevel, hmin, hmax, -, hpages⟩, hfresh⟩ := hsync
  have hfile : ∀ k, lastWrite file.pages k = s.file.dirtyPage k := by
    rw [hpages]
    exact lastWrite_createLTXFromDirty h.pageSize h.buffered h.lockPage
  have hnext : file.minTXID = reach LTXFile.maxTXID 0 s.state.history + 1 := by
    rw [hmin, h.pendingTXID, h.pos]
    rfl
  have hnewest : ∀ k, lastWrite (mergePages (s.state.history ++ [file])) k =
      (s.file.dirtyPage k).or (lastWrite (mergePages s.state.history) k) := by
    intro k
    rw [mergePages_append, lastWrite_append, ← hfile]
    simp [mergePages]
  have hcontent : ∀ k, s.content k =
      (s.file.dirtyPage k).or (lastWrite (mergePages s.state.history) k) := by
    intro k
    cases hdirty : s.file.dirtyPage k with
    | some data => exact h.dirty k data hdirty
    | none => exact h.clean k hdirty
  have hvalid := h.valid.upload ⟨hlevel, hnext, hfresh⟩
  have hpos : s.file.uploaded.pos = reach LTXFile.maxTXID 0 (s.state.history ++ [file]) := by
    rw [reach_concat, hmax]
    rfl
  refine ⟨?_, hpos, rfl, h.pageSize, h.writeEnabled, ?_, rfl, ?_, ?_, ?_, ?_⟩
  · exact { hvalid with
      position := ⟨_, [], (List.append_nil _).symm, hpos, List.nil_suffix⟩
      maxTXID1_le := hvalid.maxTXID1_le
      targetTime := hvalid.targetTime }
  · refine ⟨List.nodup_nil, rfl, ?_, ?_⟩
    · rintro w ⟨⟩
    · rintro w ⟨⟩
  · rintro k data ⟨⟩
  · intro k _
    exact (hcontent k).trans (hnewest k).symm
  · intro k data _ hdata
    have hdata := (cache_uploaded s.file k).symm.trans hdata
    rw [Option.or_eq_some_iff] at hdata
    rcases hdata with hdata | ⟨hnone, hdata⟩
    · exact h.dirty k data hdata
    · exact h.cached k data hnone hdata
  · intro k _ hcached
    have hnone := (cache_uploaded s.file k).symm.trans (hcached.resolve_right id)
    obtain ⟨hdirty, hcache⟩ := Option.or_eq_none_iff.mp hnone
    have hcurrent := (h.current k hdirty (Or.inl hcache)).put hfresh
    rw [Current]
    dsimp only
    rw [hnewest, hdirty, Option.none_or]
    exact hcurrent

theorem Inv.compact {file : LTXFile ps} (h : s.Inv) (hfile : s.state.Compactable file) :
    Inv { s with state := ⟨s.state.history, s.state.replica.put file hfile.2.2.2, s.file⟩ } :=
  { h with
    valid := h.valid.compact hfile
    buffered := ⟨h.buffered.1, h.buffered.2, h.buffered.3, h.buffered.4⟩
    current := fun k hk hcached => (h.current k hk hcached).put hfile.2.2.2 }

/-! ## Locking, evicting and polling -/

/-- A file that keeps the buffer, and of the cache and the index what is current. -/
theorem Inv.of_file {f' : VFSFile} (h : s.Inv) (hvalid : State.Valid ⟨s.state.history, s.state.replica, f'⟩)
    (hpos : f'.pos = s.file.pos) (hpending : f'.pendingTXID = s.file.pendingTXID)
    (hsize : f'.pageSize = s.file.pageSize) (hwrite : f'.writeEnabled = s.file.writeEnabled)
    (hdirty : f'.dirty = s.file.dirty) (hbuffer : f'.bufferFile = s.file.bufferFile)
    (hnext : f'.bufferNextOff = s.file.bufferNextOff)
    (hcached : ∀ k data, f'.cache k = some data → s.file.cache k = some data)
    (hcurrent : ∀ k, s.file.dirtyPage k = none → f'.cache k = none → s.Current f'.index k) :
    (s.withFile f').Inv := by
  have hpage : ∀ k, f'.dirtyPage k = s.file.dirtyPage k := fun k => by
    rw [VFSFile.dirtyPage, VFSFile.dirtyPage, hdirty, hbuffer, hsize]
  refine ⟨hvalid, hpos.trans h.pos, ?_, hsize.trans h.pageSize, hwrite.trans h.writeEnabled, ?_,
    (hpage _).trans h.lockPage, ?_, ?_, ?_, ?_⟩
  · exact hpending.trans (h.pendingTXID.trans (congrArg (· + 1) hpos.symm))
  · refine ⟨?_, ?_, ?_, ?_⟩
    · exact hdirty ▸ h.buffered.keys_nodup
    · exact (congrArg List.length hbuffer).trans (h.buffered.length.trans hnext.symm)
    · intro w hw
      exact (h.buffered.within w (hdirty ▸ hw)).trans hnext.ge
    · intro w hw v hv
      exact h.buffered.disjoint w (hdirty ▸ hw) v (hdirty ▸ hv)
  · exact fun k data hdata => h.dirty k data ((hpage k).symm.trans hdata)
  · exact fun k hk => h.clean k ((hpage k).symm.trans hk)
  · exact fun k data hk hdata => h.cached k data ((hpage k).symm.trans hk) (hcached k data hdata)
  · exact fun k hk hcache => hcurrent k ((hpage k).symm.trans hk) (hcache.resolve_right id)

theorem Inv.evict {pgno : Nat} (h : s.Inv) (hcurrent : s.CurrentAt (.evict pgno)) :
    (s.withFile { s.file with cache := Function.update s.file.cache pgno none }).Inv := by
  refine h.of_file (h.valid.of_file rfl rfl rfl) rfl rfl rfl rfl rfl rfl rfl ?_ ?_
  · intro k data hdata
    change Function.update s.file.cache pgno none k = some data at hdata
    rw [Function.update_apply] at hdata
    split at hdata
    · cases hdata
    · exact hdata
  · intro k hk hcache
    change Function.update s.file.cache pgno none k = none at hcache
    rw [Function.update_apply] at hcache
    split at hcache
    · next heq => exact hcurrent k hk (Or.inr heq)
    · exact hcurrent k hk (Or.inl hcache)

theorem Inv.lock {elock : LockType} (h : s.Inv) :
    (s.withFile (orSame s.file (s.file.Lock elock))).Inv := by
  rw [VFSFile.Lock]
  have hcurrent := fun k hk hcache => h.current k hk (Or.inl hcache)
  have hkeep := fun (k : Nat) (data : Bytes) (hdata : s.file.cache k = some data) => hdata
  split_ifs
  · exact h
  · exact h.of_file (h.valid.of_file rfl rfl rfl) rfl rfl rfl rfl rfl rfl rfl hkeep hcurrent
  · exact h
  · exact h.of_file (h.valid.of_file rfl rfl rfl) rfl rfl rfl rfl rfl rfl rfl hkeep hcurrent

theorem Inv.unlock {elock : LockType} (h : s.Inv) (hcurrent : s.CurrentAt (.unlock elock)) :
    (s.withFile (orSame s.file (s.file.Unlock elock))).Inv := by
  rw [VFSFile.Unlock]
  split
  · exact h
  · next htarget =>
      refine h.of_file (h.valid.of_file rfl rfl rfl) rfl rfl rfl rfl rfl rfl rfl ?_ ?_
      · intro k data hdata
        simp only [orSame] at hdata
        split at hdata
        · cases hdata
        · exact hdata
      · intro k hk hcache
        simp only [orSame] at hcache
        refine hcurrent (by tauto) k hk ?_
        split at hcache
        · next hloses => exact Or.inr hloses
        · exact Or.inl hcache

/-- What a poll without a read lock does. -/
theorem polled_unlocked {f' : VFSFile} (htarget : s.file.targetTime = none)
    (hlock : s.file.lockType.toNat < LockType.shared.toNat)
    (hpoll : s.file.pollReplicaClient s.state.replica = .ok f') :
    f'.index = s.polledIndex ∧
      ∀ k, f'.cache k = if k ∈ s.polledEntries.map Prod.fst then none else s.file.cache k := by
  obtain ⟨p0, p1, h0, h1, rfl⟩ := pollReplicaClient_eq_ok hpoll
  obtain ⟨hindex0, -, hreplace0⟩ := pollLevel_eq_ok h0
  obtain ⟨hindex1, -, -⟩ := pollLevel_eq_ok h1
  have hreplace1 := replaceIndex_iff h0 h1
  have hentries : VFSFile.combined p0 p1 = s.polledEntries := by
    have heq := combined_eq [] hreplace0 hreplace1
    rw [ite_self, List.nil_append, List.nil_append] at heq
    rw [VFSFile.combined, hindex0, hindex1]
    exact heq
  have hindex : (if p0.replaceIndex || p1.replaceIndex then [] else s.file.index) ++
      VFSFile.combined p0 p1 = s.polledIndex := by
    have heq := combined_eq s.file.index hreplace0 hreplace1
    rw [VFSFile.combined, hindex0, hindex1, polledIndex, polledEntries, VFSFile.polledFiles]
    rw [heq]
    split <;> rfl
  rw [VFSFile.applyPoll, if_neg (not_not.mpr htarget)]
  dsimp only
  rw [if_neg (Nat.not_le.mpr hlock)]
  exact ⟨hindex, fun k => by rw [← hentries]⟩

/-- A poll under a read lock leaves the index and the cache. -/
theorem polled_locked {f f' : VFSFile} {replica : Replica ps}
    (hlock : ¬ f.lockType.toNat < LockType.shared.toNat)
    (hpoll : f.pollReplicaClient replica = .ok f') : f'.index = f.index ∧ f'.cache = f.cache := by
  obtain ⟨p0, p1, -, -, rfl⟩ := pollReplicaClient_eq_ok hpoll
  rw [VFSFile.applyPoll]
  split
  · exact ⟨rfl, rfl⟩
  · dsimp only
    rw [if_pos (Nat.not_lt.mp hlock)]
    exact ⟨rfl, rfl⟩

/-- A poll leaves the buffer and the counters of the writer. -/
theorem polled_kept {f f' : VFSFile} {replica : Replica ps}
    (hpoll : f.pollReplicaClient replica = .ok f') :
    f'.pendingTXID = f.pendingTXID ∧ f'.pageSize = f.pageSize ∧
      f'.writeEnabled = f.writeEnabled ∧ f'.dirty = f.dirty ∧ f'.bufferFile = f.bufferFile ∧
      f'.bufferNextOff = f.bufferNextOff := by
  obtain ⟨p0, p1, -, -, rfl⟩ := pollReplicaClient_eq_ok hpoll
  rw [VFSFile.applyPoll]
  split
  · exact ⟨rfl, rfl, rfl, rfl, rfl, rfl⟩
  · dsimp only
    split <;> exact ⟨rfl, rfl, rfl, rfl, rfl, rfl⟩

theorem Inv.poll (h : s.Inv) (hcurrent : s.CurrentAt .poll) : (s.withFile s.state.polled).Inv := by
  have hvalid := h.valid.polled
  by_cases haligned : s.state.Aligned
  · obtain ⟨-, -, p0, p1, -, -, -, -, -, hmax0, hmax1, hpoll⟩ := h.valid.poll haligned
    have hpos : (s.state.file.applyPoll p0 p1).pos = s.file.pos := by
      rw [(applyPoll_counters h.valid.targetTime p0 p1).1, hmax0, Nat.max_eq_left hmax1, h.pos]
    rw [State.polled, hpoll] at hvalid ⊢
    obtain ⟨hpending, hsize, hwrite, hdirty, hbuffer, hnext⟩ := polled_kept hpoll
    refine h.of_file hvalid hpos hpending hsize hwrite hdirty hbuffer hnext ?_ ?_
    · intro k data hdata
      by_cases hlock : s.file.lockType.toNat < LockType.shared.toNat
      · have hcache := (polled_unlocked h.valid.targetTime hlock hpoll).2 k
        rw [hcache] at hdata
        split at hdata
        · cases hdata
        · exact hdata
      · exact (congrFun (polled_locked hlock hpoll).2 k).symm.trans hdata
    · intro k hk hcache
      by_cases hlock : s.file.lockType.toNat < LockType.shared.toNat
      · obtain ⟨hindex, hcache'⟩ := polled_unlocked h.valid.targetTime hlock hpoll
        rw [hindex]
        refine hcurrent hlock haligned k hk ?_
        rw [hcache'] at hcache
        split at hcache
        · next hentry => exact Or.inr hentry
        · exact Or.inl hcache
      · obtain ⟨hindex, hcache'⟩ := polled_locked hlock hpoll
        rw [hindex]
        exact h.current k hk (Or.inl ((congrFun hcache' k).symm.trans hcache))
  · obtain ⟨err, herr⟩ := h.valid.poll_error haligned
    rw [State.polled, herr]
    exact h

/-! ## Runs -/

theorem Inv.step (h : s.Inv) (hcurrent : s.CurrentAt a) (hstep : Session.step s a = some s') :
    s'.Inv := by
  cases a with
  | write pgno page =>
      rw [Session.step] at hstep
      split at hstep
      · next hwrites =>
          obtain rfl := Option.some.inj hstep
          exact h.write hwrites
      · cases hstep
  | read random off len =>
      obtain rfl := Option.some.inj hstep
      exact h.read random off len
  | sync file =>
      rw [Session.step] at hstep
      split at hstep
      · next hsync =>
          obtain rfl := Option.some.inj hstep
          exact h.sync hsync
      · cases hstep
  | evict pgno =>
      obtain rfl := Option.some.inj hstep
      exact h.evict hcurrent
  | poll =>
      obtain rfl := Option.some.inj hstep
      exact h.poll hcurrent
  | compact file =>
      rw [Session.step] at hstep
      split at hstep
      · next hfile =>
          obtain rfl := Option.some.inj hstep
          exact h.compact hfile
      · cases hstep
  | lock elock =>
      obtain rfl := Option.some.inj hstep
      exact h.lock
  | unlock elock =>
      obtain rfl := Option.some.inj hstep
      exact h.unlock hcurrent

variable {as : List (SessionAction ps)}

/-- In every state of a run from the opening on, every read returns what was written last, if
no page of the run leaves the cache while its index entry is out of date. -/
theorem reads_of_run (h : s.Opened) (hopened : ∀ k, s.Current s.file.index k)
    (hcurrent : Along Session.step CurrentAt s as) (hrun : run Session.step s as = some s') :
    s'.Reads :=
  (run_induction (fun hm hcurrent hstep => Inv.step hm hcurrent hstep) (h.inv hopened) hcurrent
    hrun).reads

/-! ## A page that is evicted after its sync -/

end Session

namespace Straddling

/-- A writer that has opened the first transaction. -/
def session : Session PageSize.min where
  state := ⟨[first], replica,
    { OnePage.file.rebuildIndex [first] none with
      writeEnabled := true
      expectedTXID := 1
      pendingTXID := 2 }⟩
  base := mergePages [first]
  written := []

/-- A transaction that writes the first page, and its sync. -/
def transaction : List (SessionAction PageSize.min) :=
  [.lock .reserved, .write 1 (OnePage.page 2), .unlock .none, .sync second]

theorem session_opened : session.Opened :=
  ⟨valid_opened.of_file rfl rfl rfl, rfl, rfl, rfl, rfl, rfl, rfl, rfl, fun _ => rfl, rfl, rfl⟩

theorem session_current : ∀ k, session.Current session.file.index k := by
  intro k
  have hstored : ∀ file ∈ [first], replica.Stored file := by
    intro file hfile
    rw [List.mem_singleton.mp hfile]
    exact List.mem_singleton_self _
  exact Replica.fetch_lastWrite hstored k

end Straddling

namespace Session

/-- The page that was synced is evicted once the index has its level 1 entry. -/
theorem reads_of_run_sample : ∃ s', run Session.step Straddling.session
    (Straddling.transaction ++ [.compact (Straddling.file 1 2 2 (by decide)), .poll, .evict 1]) =
      some s' ∧ s'.Reads := by
  have hsome : (run Session.step Straddling.session (Straddling.transaction ++
      [.compact (Straddling.file 1 2 2 (by decide)), .poll, .evict 1])).isSome = true := by
    decide +kernel
  obtain ⟨s', hs'⟩ := Option.isSome_iff_exists.mp hsome
  exact ⟨s', hs', reads_of_run Straddling.session_opened Straddling.session_current
    (by decide +kernel) hs'⟩

/-- Evicted after the sync, the page is read as it was before the transaction. -/
theorem write_lost : Straddling.session.Opened ∧
    (∀ k, Straddling.session.Current Straddling.session.file.index k) ∧
    ∃ s', run Session.step Straddling.session (Straddling.transaction ++ [.evict 1]) = some s' ∧
      s'.content 1 = some (OnePage.page 2).data ∧ ¬ s'.Reads := by
  refine ⟨Straddling.session_opened, Straddling.session_current, ?_⟩
  have hany : (run Session.step Straddling.session (Straddling.transaction ++ [.evict 1])).any
      (fun s => s.content 1 = some (OnePage.page 2).data ∧
        (s.file.ReadAt s.state.replica [] 0 512).2.toOption.bind (fun p : Bytes => p[100]?) =
          some (1 : UInt8)) = true := by
    decide +kernel
  rw [Option.any_eq_true] at hany
  obtain ⟨s', hs', hany⟩ := hany
  obtain ⟨hcontent, hbyte⟩ := of_decide_eq_true hany
  refine ⟨s', hs', hcontent, fun hreads => ?_⟩
  obtain ⟨p, hp, hsame⟩ := hreads [] 1 le_rfl
  have hp' : (s'.file.ReadAt s'.state.replica [] 0 512).2 = .ok p := hp
  have hbyte' : p[100]? = some (1 : UInt8) := by
    rw [hp'] at hbyte
    exact hbyte
  have hsame' := hsame 100 (by decide)
  rw [hbyte', hcontent] at hsame'
  exact absurd hsame' (by decide)

end Session

end Vfs

end Litestream
