import Litestream.Vfs.Open

/-!
# Writes to a file

A page that is written goes to the write buffer, a file with the dirty pages in the order in
which they became dirty.  A sync makes a level 0 file of the dirty pages, uploads it, keeps
the pages in the cache and clears the buffer.  It leaves the index as it is.

Hydration, truncation and other connections are left out.
-/

namespace Litestream

namespace Vfs

open Overlay

variable {ps : PageSize}

namespace VFSFile

/-! ## Writing -/

/-- Reads a page to be modified.  The caller takes zeros if this fails. -/
def readPageForWrite (replica : Replica ps) (pgno : Nat) (f : VFSFile) : VFSFile × Option Bytes :=
  match f.cache pgno with
  | some data => (f, some (data.truncate f.pageSize))
  | none =>
    match (lastWrite f.index pgno).bind replica.fetch with
    | none => (f, none)
    | some data =>
      if data.length ≠ f.pageSize then (f, none)
      else ({ f with cache := Function.update f.cache pgno (some data) }, some data)

/-- Puts a page in the buffer, in its place if it is dirty and at the end if not. -/
def writeToBuffer (pgno : Nat) (data : Bytes) (f : VFSFile) : VFSFile :=
  match lastWrite f.dirty pgno with
  | some off => { f with bufferFile := f.bufferFile.writeAt off data }
  | none =>
    { f with
      dirty := f.dirty ++ [(pgno, f.bufferNextOff)]
      bufferFile := f.bufferFile.writeAt f.bufferNextOff data
      bufferNextOff := f.bufferNextOff + data.length }

/-- The file after a write, and the number of bytes written. -/
def WriteAt (replica : Replica ps) (b : Bytes) (off : Nat) (f : VFSFile) :
    VFSFile × Except VFSError Nat :=
  if f.pageSize = 0 then (f, .error .dbNotReady)
  else
    let pgno := off / f.pageSize + 1
    let pageOffset := off % f.pageSize
    if pgno = 0x40000000 / f.pageSize + 1 then (f, .error .lockPage)
    else if !f.writeEnabled then (f, .error .readOnly)
    else
      let n := min b.length (f.pageSize - pageOffset)
      let store (page : Bytes) (f : VFSFile) : VFSFile × Except VFSError Nat :=
        (writeToBuffer pgno (page.writeAt pageOffset (b.take n))
          { f with commit := max f.commit pgno }, .ok n)
      match lastWrite f.dirty pgno with
      | some bufferOff =>
        let page := f.bufferFile.readAt bufferOff f.pageSize
        if page.length < f.pageSize then (f, .error (.readBuffer pgno)) else store page f
      | none =>
        let read := f.readPageForWrite replica pgno
        store (read.2.getD (List.replicate f.pageSize 0)) read.1

/-! ## Syncing -/

/-- The remote has gone past the transaction that this file expects. -/
def checkForConflict (replica : Replica ps) (f : VFSFile) : Except VFSError Unit :=
  let remoteTXID := ((replica.level 0).filter fun file => f.expectedTXID ≤ file.minTXID).foldl
    (fun remoteTXID file => max remoteTXID file.maxTXID) 0
  if remoteTXID > f.expectedTXID then .error (.conflict f.expectedTXID remoteTXID) else .ok ()

/-- The pages of the file that a sync uploads, in order. -/
def createLTXFromDirty (f : VFSFile) : List (Nat × Bytes) :=
  (((f.dirty.map Prod.fst).insertionSort (· ≤ ·)).filter
    (· ≠ 0x40000000 / f.pageSize + 1)).map fun pgno =>
      (pgno, f.bufferFile.readAt ((lastWrite f.dirty pgno).getD 0) f.pageSize)

/-- The file is the one that a sync uploads.  Where its frames are is left to the encoder. -/
def Creates (f : VFSFile) (file : LTXFile ps) : Prop :=
  file.info.level = 0 ∧ file.minTXID = f.pendingTXID ∧ file.maxTXID = f.pendingTXID ∧
    file.commit = f.commit ∧ file.pages = f.createLTXFromDirty

instance (f : VFSFile) (file : LTXFile ps) : Decidable (f.Creates file) :=
  inferInstanceAs (Decidable (_ ∧ _ ∧ _ ∧ _ ∧ _))

/-- The file after its upload. -/
def uploaded (f : VFSFile) : VFSFile :=
  { f with
    expectedTXID := f.pendingTXID
    pendingTXID := f.pendingTXID + 1
    pos := f.pendingTXID
    cache := fun pgno =>
      match lastWrite f.dirty pgno with
      | some off => some (f.bufferFile.readAt off f.pageSize)
      | none => f.cache pgno
    dirty := []
    bufferFile := []
    bufferNextOff := 0 }

/-- A sync with something to do: there are dirty pages, and no transaction is open. -/
def Syncs (replica : Replica ps) (f : VFSFile) : Prop :=
  f.writeEnabled = true ∧ f.dirty ≠ [] ∧ f.inTransaction = false ∧
    (f.checkForConflict replica).isOk = true

instance (replica : Replica ps) (f : VFSFile) : Decidable (f.Syncs replica) :=
  inferInstanceAs (Decidable (_ ∧ _ ∧ _ ∧ _))

/-- The content of a dirty page. -/
def dirtyPage (f : VFSFile) (pgno : Nat) : Option Bytes :=
  (lastWrite f.dirty pgno).map fun off => f.bufferFile.readAt off f.pageSize

end VFSFile

/-! ## The write buffer -/

/-- The buffer has a place of its own for each dirty page. -/
structure Buffered (ps : PageSize) (f : VFSFile) : Prop where
  keys_nodup : (f.dirty.map Prod.fst).Nodup
  length : f.bufferFile.length = f.bufferNextOff
  within : ∀ w ∈ f.dirty, w.2 + ps.size ≤ f.bufferNextOff
  disjoint : ∀ w ∈ f.dirty, ∀ v ∈ f.dirty, w.1 ≠ v.1 →
    w.2 + ps.size ≤ v.2 ∨ v.2 + ps.size ≤ w.2

section

variable {f f' : VFSFile} {replica : Replica ps} {page : Page ps} {k j : Nat}

theorem dirtyPage_eq_none_iff : f.dirtyPage k = none ↔ lastWrite f.dirty k = none :=
  Option.map_eq_none_iff

theorem length_dirtyPage {data : Bytes} (hsize : f.pageSize = ps.size) (h : Buffered ps f)
    (hdata : f.dirtyPage k = some data) : data.length = ps.size := by
  obtain ⟨off, hoff, rfl⟩ := Option.map_eq_some_iff.mp hdata
  have hwithin := h.within _ (mem_of_lastWrite hoff)
  rw [Bytes.length_readAt, hsize, h.length]
  dsimp only at hwithin
  omega

/-- Writing a page to the buffer. -/
theorem Buffered.writeToBuffer (hsize : f.pageSize = ps.size) (h : Buffered ps f) (k : Nat)
    (page : Page ps) : Buffered ps (f.writeToBuffer k page.data) ∧
      ∀ j, (f.writeToBuffer k page.data).dirtyPage j =
        if j = k then some page.data else f.dirtyPage j := by
  have hlength := page.length_data
  rw [VFSFile.writeToBuffer]
  cases hoff : lastWrite f.dirty k with
  | some off =>
      have hmem := mem_of_lastWrite hoff
      have hwithin : off + page.data.length ≤ f.bufferFile.length := by
        rw [hlength, h.length]
        exact h.within _ hmem
      refine ⟨⟨h.keys_nodup, ?_, h.within, h.disjoint⟩, fun j => ?_⟩
      · exact (Bytes.length_writeAt_of_le hwithin).trans h.length
      · rw [VFSFile.dirtyPage, VFSFile.dirtyPage]
        dsimp only
        split
        · next hj =>
            rw [hj, hoff, Option.map_some, hsize, ← hlength, Bytes.readAt_writeAt_same]
        · next hj =>
            cases hoff' : lastWrite f.dirty j with
            | none => rfl
            | some off' =>
                have hmem' := mem_of_lastWrite hoff'
                have hdisjoint := h.disjoint _ hmem' _ hmem hj
                have hwithin' := h.within _ hmem'
                rw [Option.map_some, Option.map_some, hsize,
                  Bytes.readAt_writeAt_of_disjoint (hlength.symm ▸ hdisjoint) (h.length.symm ▸ hwithin')]
  | none =>
      have hkey : k ∉ f.dirty.map Prod.fst := lastWrite_eq_none_iff.mp hoff
      have hfile : f.bufferFile.writeAt f.bufferNextOff page.data = f.bufferFile ++ page.data := by
        rw [← h.length, Bytes.writeAt_length]
      refine ⟨⟨?_, ?_, ?_, ?_⟩, fun j => ?_⟩
      · dsimp only
        rw [List.map_append, List.nodup_append]
        refine ⟨h.keys_nodup, by simp, fun a ha b hb hab => hkey ?_⟩
        obtain rfl : b = k := by simpa using hb
        exact hab ▸ ha
      · dsimp only
        rw [hfile, List.length_append, h.length]
      · intro w hw
        dsimp only at hw ⊢
        rcases List.mem_append.mp hw with hw | hw
        · exact (h.within w hw).trans (Nat.le_add_right _ _)
        · rw [List.mem_singleton.mp hw, hlength]
      · intro w hw v hv hne
        dsimp only at hw hv
        rcases List.mem_append.mp hw with hw | hw
        · rcases List.mem_append.mp hv with hv | hv
          · exact h.disjoint w hw v hv hne
          · rw [List.mem_singleton.mp hv]
            exact Or.inl (h.within w hw)
        · rcases List.mem_append.mp hv with hv | hv
          · rw [List.mem_singleton.mp hw]
            exact Or.inr (h.within v hv)
          · rw [List.mem_singleton.mp hw, List.mem_singleton.mp hv] at hne
            exact absurd rfl hne
      · rw [VFSFile.dirtyPage, VFSFile.dirtyPage]
        dsimp only
        rw [lastWrite_append, lastWrite_cons, lastWrite_nil, Option.none_or, hfile]
        split
        · next hj =>
            rw [if_pos hj.symm, Option.some_or, Option.map_some, hsize, ← h.length, ← hlength,
              Bytes.readAt_append_length]
        · next hj =>
            rw [if_neg (Ne.symm hj), Option.none_or]
            cases hoff' : lastWrite f.dirty j with
            | none => rfl
            | some off' =>
                have hwithin := h.within _ (mem_of_lastWrite hoff')
                rw [Option.map_some, Option.map_some, hsize,
                  Bytes.readAt_append_left (h.length.symm ▸ hwithin)]

/-! ## A write of a page -/

/-- What the read before a write changes. -/
theorem readPageForWrite_cases (replica : Replica ps) (k : Nat) (f : VFSFile) :
    (f.readPageForWrite replica k).1 = f ∨
      ∃ data, (f.readPageForWrite replica k).1 =
        { f with cache := Function.update f.cache k (some data) } := by
  rw [VFSFile.readPageForWrite]
  cases f.cache k with
  | some data => exact Or.inl rfl
  | none =>
      dsimp only
      cases (lastWrite f.index k).bind replica.fetch with
      | none => exact Or.inl rfl
      | some data =>
          dsimp only
          split
          · exact Or.inl rfl
          · exact Or.inr ⟨data, rfl⟩

theorem length_readPageForWrite (replica : Replica ps) (k : Nat) (f : VFSFile) :
    ((f.readPageForWrite replica k).2.getD (List.replicate f.pageSize 0)).length = f.pageSize := by
  rw [VFSFile.readPageForWrite]
  cases f.cache k with
  | some data => exact Bytes.length_truncate data f.pageSize
  | none =>
      dsimp only
      cases (lastWrite f.index k).bind replica.fetch with
      | none => exact List.length_replicate
      | some data =>
          dsimp only
          split
          · exact List.length_replicate
          · next hlength => exact not_not.mp hlength

/-- A file that differs in the cache of one page and in its commit size. -/
def Touched (k : Nat) (f f' : VFSFile) : Prop :=
  ∃ cache commit, f' = { f with cache := cache, commit := commit } ∧ ∀ j, j ≠ k → cache j = f.cache j

/-- A write of a whole page puts it in the buffer. -/
theorem writeAt_page (hsize : f.pageSize = ps.size) (hone : 1 ≤ k) {n : Nat}
    (hwrite : f.WriteAt replica page.data ((k - 1) * ps.size) = (f', .ok n)) :
    k ≠ lockPgno ps ∧ f.writeEnabled = true ∧
      ∃ g, Touched k f g ∧ f' = g.writeToBuffer k page.data := by
  have hpos : 0 < ps.size := by
    have := ps.bounds
    omega
  have hlength := page.length_data
  rw [VFSFile.WriteAt, hsize, if_neg hpos.ne', Nat.mul_div_cancel _ hpos, Nat.mul_mod_left,
    Nat.sub_add_cancel hone] at hwrite
  dsimp only at hwrite
  rw [Nat.sub_zero, hlength, min_self, ← hlength, List.take_length, hlength] at hwrite
  split at hwrite
  · exact absurd (Prod.mk.inj hwrite).2 (by simp)
  next hlock =>
  split at hwrite
  · exact absurd (Prod.mk.inj hwrite).2 (by simp)
  next henabled =>
  refine ⟨hlock, by simpa using henabled, ?_⟩
  cases hoff : lastWrite f.dirty k with
  | some off =>
      rw [hoff] at hwrite
      dsimp only at hwrite
      split at hwrite
      · exact absurd (Prod.mk.inj hwrite).2 (by simp)
      · refine ⟨{ f with commit := max f.commit k }, ⟨f.cache, _, rfl, fun _ _ => rfl⟩, ?_⟩
        have hle : (f.bufferFile.readAt off ps.size).length ≤ page.data.length := by
          rw [Bytes.length_readAt, hlength]
          exact Nat.min_le_left _ _
        rw [Bytes.writeAt_zero_of_le hle] at hwrite
        exact (Prod.mk.inj hwrite).1.symm
  | none =>
      rw [hoff] at hwrite
      dsimp only at hwrite
      have hle : ((f.readPageForWrite replica k).2.getD (List.replicate ps.size 0)).length ≤
          page.data.length := by
        rw [← hsize, length_readPageForWrite, hsize, hlength]
      rw [Bytes.writeAt_zero_of_le hle] at hwrite
      obtain rfl := (Prod.mk.inj hwrite).1
      rcases readPageForWrite_cases replica k f with heq | ⟨data, heq⟩
      · refine ⟨{ f with commit := max f.commit k }, ⟨f.cache, _, rfl, fun _ _ => rfl⟩, ?_⟩
        rw [heq]
      · refine ⟨_, ⟨Function.update f.cache k (some data), max f.commit k, rfl, fun j hj => ?_⟩, ?_⟩
        · exact Function.update_of_ne hj _ _
        · rw [heq]

theorem writeToBuffer_eq (k : Nat) (data : Bytes) (f : VFSFile) :
    ∃ dirty bufferFile bufferNextOff, f.writeToBuffer k data =
      { f with dirty := dirty, bufferFile := bufferFile, bufferNextOff := bufferNextOff } := by
  rw [VFSFile.writeToBuffer]
  cases lastWrite f.dirty k with
  | none => exact ⟨_, _, _, rfl⟩
  | some off => exact ⟨_, _, _, rfl⟩

/-- What the writer keeps: its position, its counters and its mode. -/
structure Kept (f f' : VFSFile) : Prop where
  pos : f'.pos = f.pos
  maxTXID1 : f'.maxTXID1 = f.maxTXID1
  targetTime : f'.targetTime = f.targetTime
  pendingTXID : f'.pendingTXID = f.pendingTXID
  pageSize : f'.pageSize = f.pageSize
  writeEnabled : f'.writeEnabled = f.writeEnabled

/-- What a write of a whole page does. -/
theorem writeAt_spec (hsize : f.pageSize = ps.size) (h : Buffered ps f) (hone : 1 ≤ k) {n : Nat}
    (hwrite : f.WriteAt replica page.data ((k - 1) * ps.size) = (f', .ok n)) :
    k ≠ lockPgno ps ∧ Buffered ps f' ∧ Kept f f' ∧ f'.index = f.index ∧
      (∀ j, f'.dirtyPage j = if j = k then some page.data else f.dirtyPage j) ∧
        ∀ j, j ≠ k → f'.cache j = f.cache j := by
  obtain ⟨hlock, -, g, ⟨cache, commit, rfl, hcache⟩, rfl⟩ := writeAt_page hsize hone hwrite
  have hg : Buffered ps { f with cache := cache, commit := commit } := ⟨h.1, h.2, h.3, h.4⟩
  obtain ⟨hbuffered, hdirty⟩ := Buffered.writeToBuffer
    (f := { f with cache := cache, commit := commit }) hsize hg k page
  obtain ⟨dirty, bufferFile, bufferNextOff, heq⟩ := writeToBuffer_eq k page.data
    { f with cache := cache, commit := commit }
  rw [heq] at hbuffered hdirty ⊢
  exact ⟨hlock, hbuffered, ⟨rfl, rfl, rfl, rfl, rfl, rfl⟩, rfl, hdirty, hcache⟩

/-- A write puts one page in the buffer, or changes nothing. -/
theorem writeAt_stores (hsize : f.pageSize = ps.size) {b : Bytes} {off : Nat}
    {result : Except VFSError Nat} (hwrite : f.WriteAt replica b off = (f', result)) :
    f' = f ∧ (∃ err, result = .error err) ∨
      (∃ n, result = .ok n) ∧ off / ps.size + 1 ≠ lockPgno ps ∧ f.writeEnabled = true ∧
        ∃ (page : Page ps) (g : VFSFile), Touched (off / ps.size + 1) f g ∧
          f' = g.writeToBuffer (off / ps.size + 1) page.data := by
  have hpos : 0 < ps.size := by
    have := ps.bounds
    omega
  rw [VFSFile.WriteAt, hsize, if_neg hpos.ne'] at hwrite
  dsimp only at hwrite
  split at hwrite
  · exact Or.inl ⟨(Prod.mk.inj hwrite).1.symm, _, (Prod.mk.inj hwrite).2.symm⟩
  next hlock =>
  split at hwrite
  · exact Or.inl ⟨(Prod.mk.inj hwrite).1.symm, _, (Prod.mk.inj hwrite).2.symm⟩
  next henabled =>
  -- the page with the new bytes is as long as it was
  have hpage : ∀ old : Bytes, old.length = ps.size → (old.writeAt (off % ps.size)
      (b.take (min b.length (ps.size - off % ps.size)))).length = ps.size := by
    intro old hold
    rw [Bytes.length_writeAt_of_le, hold]
    have hmod := Nat.mod_lt off hpos
    rw [List.length_take, hold]
    omega
  cases hoff : lastWrite f.dirty (off / ps.size + 1) with
  | some bufferOff =>
      rw [hoff] at hwrite
      dsimp only at hwrite
      split at hwrite
      · exact Or.inl ⟨(Prod.mk.inj hwrite).1.symm, _, (Prod.mk.inj hwrite).2.symm⟩
      next hlength =>
      obtain ⟨rfl, rfl⟩ := Prod.mk.inj hwrite
      refine Or.inr ⟨⟨_, rfl⟩, hlock, by simpa using henabled, ⟨_, hpage _ ?_⟩,
        { f with commit := max f.commit (off / ps.size + 1) },
        ⟨f.cache, _, rfl, fun _ _ => rfl⟩, rfl⟩
      have hle := Bytes.length_readAt f.bufferFile bufferOff ps.size
      omega
  | none =>
      rw [hoff] at hwrite
      dsimp only at hwrite
      obtain ⟨rfl, rfl⟩ := Prod.mk.inj hwrite
      have hold := length_readPageForWrite replica (off / ps.size + 1) f
      rw [hsize] at hold
      refine Or.inr ⟨⟨_, rfl⟩, hlock, by simpa using henabled, ⟨_, hpage _ hold⟩,
        { (f.readPageForWrite replica (off / ps.size + 1)).1 with
          commit := max (f.readPageForWrite replica (off / ps.size + 1)).1.commit
            (off / ps.size + 1) }, ?_, rfl⟩
      rcases readPageForWrite_cases replica (off / ps.size + 1) f with heq | ⟨data, heq⟩
      · rw [heq]
        exact ⟨f.cache, _, rfl, fun _ _ => rfl⟩
      · rw [heq]
        exact ⟨_, _, rfl, fun j hj => Function.update_of_ne hj _ _⟩

/-! ## What a call leaves -/

/-- A write changes the buffer, the cache and the commit size. -/
theorem writeAt_eq (replica : Replica ps) (b : Bytes) (off : Nat) (f : VFSFile) :
    ∃ cache commit dirty bufferFile bufferNextOff, (f.WriteAt replica b off).1 =
      { f with
        cache := cache
        commit := commit
        dirty := dirty
        bufferFile := bufferFile
        bufferNextOff := bufferNextOff } := by
  have hstore : ∀ (k : Nat) (data : Bytes) (cache : Nat → Option Bytes) (commit : Nat),
      ∃ cache' commit' dirty bufferFile bufferNextOff,
        VFSFile.writeToBuffer k data { f with cache := cache, commit := commit } =
          { f with
            cache := cache'
            commit := commit'
            dirty := dirty
            bufferFile := bufferFile
            bufferNextOff := bufferNextOff } := by
    intro k data cache commit
    obtain ⟨dirty, bufferFile, bufferNextOff, heq⟩ :=
      writeToBuffer_eq k data { f with cache := cache, commit := commit }
    exact ⟨cache, commit, dirty, bufferFile, bufferNextOff, heq⟩
  rw [VFSFile.WriteAt]
  split
  · exact ⟨_, _, _, _, _, rfl⟩
  dsimp only
  split
  · exact ⟨_, _, _, _, _, rfl⟩
  split
  · exact ⟨_, _, _, _, _, rfl⟩
  split
  · split
    · exact ⟨_, _, _, _, _, rfl⟩
    · exact hstore _ _ f.cache _
  · rcases readPageForWrite_cases replica (off / f.pageSize + 1) f with heq | ⟨data, heq⟩
    · rw [heq]
      exact hstore _ _ f.cache _
    · rw [heq]
      exact hstore _ _ _ _

/-- A read changes the cache. -/
theorem readAt_eq (replica : Replica ps) (random : Bytes) (off len : Nat) (f : VFSFile) :
    ∃ cache, (f.ReadAt replica random off len).1 = { f with cache := cache } := by
  rw [VFSFile.ReadAt]
  split
  · exact ⟨_, rfl⟩
  dsimp only
  split
  · split
    · exact ⟨_, rfl⟩
    · split <;> exact ⟨_, rfl⟩
  · split
    · exact ⟨_, rfl⟩
    · split
      · exact ⟨_, rfl⟩
      · split <;> exact ⟨_, rfl⟩

/-! ## Reads of a writer -/

section

variable {data : Bytes} {random : Bytes} {off len : Nat}

theorem readAt_dirty (hsize : f.pageSize = ps.size) (hwrite : f.writeEnabled = true)
    (h : Buffered ps f) (hdata : f.dirtyPage (off / ps.size + 1) = some data) :
    f.ReadAt replica random off len =
      (f, if len < 28 then .ok (data.readAt (off % ps.size) len)
        else VFSFile.present random off len (off % ps.size) data) := by
  have hlength := length_dirtyPage hsize h hdata
  have hne : f.pageSize ≠ 0 := by
    have := ps.bounds
    omega
  rw [← hsize] at hdata hlength ⊢
  obtain ⟨bufferOff, hoff, rfl⟩ := Option.map_eq_some_iff.mp hdata
  rw [VFSFile.ReadAt, if_neg hne]
  dsimp only
  rw [if_pos hwrite, hoff]
  dsimp only
  rw [if_neg hlength.not_lt]
  split <;> rfl

theorem readAt_clean (hsize : f.pageSize = ps.size) (hwrite : f.writeEnabled = true)
    (hdirty : f.dirtyPage (off / ps.size + 1) = none) :
    f.ReadAt replica random off len =
      match f.cache (off / ps.size + 1) with
      | some data => (f, VFSFile.present random off len (off % ps.size) data)
      | none =>
        match lastWrite f.index (off / ps.size + 1) with
        | none => (f, .ok (List.replicate len 0))
        | some e =>
          match replica.fetch e with
          | none => (f, .error (.fetchPage (off / ps.size + 1)))
          | some data =>
            ({ f with cache := Function.update f.cache (off / ps.size + 1) (some data) },
              VFSFile.present random off len (off % ps.size) data) := by
  have hne : f.pageSize ≠ 0 := by
    have := ps.bounds
    omega
  rw [← hsize] at hdirty ⊢
  rw [VFSFile.ReadAt, if_neg hne]
  dsimp only
  rw [if_pos hwrite, dirtyPage_eq_none_iff.mp hdirty]
  dsimp only
  cases f.cache (off / f.pageSize + 1) with
  | some data => rfl
  | none =>
      cases lastWrite f.index (off / f.pageSize + 1) with
      | none => exact congrArg (Prod.mk f) (if_pos hwrite)
      | some e => rfl

end

/-! ## An upload -/

/-- The file that a sync uploads has the dirty pages. -/
theorem lastWrite_createLTXFromDirty (hsize : f.pageSize = ps.size) (h : Buffered ps f)
    (hlock : f.dirtyPage (lockPgno ps) = none) (k : Nat) :
    lastWrite f.createLTXFromDirty k = f.dirtyPage k := by
  have hkeys : f.createLTXFromDirty.map Prod.fst =
      ((f.dirty.map Prod.fst).insertionSort (· ≤ ·)).filter
        (· ≠ 0x40000000 / f.pageSize + 1) := by
    rw [VFSFile.createLTXFromDirty, List.map_map]
    exact List.map_id _
  have hmem : k ∈ f.createLTXFromDirty.map Prod.fst ↔ k ∈ f.dirty.map Prod.fst := by
    rw [hkeys, List.mem_filter, List.mem_insertionSort, decide_eq_true_eq, hsize]
    refine and_iff_left_of_imp fun hk heq => ?_
    rw [dirtyPage_eq_none_iff, lastWrite_eq_none_iff] at hlock
    rw [lockPgno, ← heq] at hlock
    exact hlock hk
  cases hdirty : f.dirtyPage k with
  | none =>
      rw [lastWrite_eq_none_iff, hmem, ← lastWrite_eq_none_iff, ← dirtyPage_eq_none_iff]
      exact hdirty
  | some data =>
      obtain ⟨off, hoff, rfl⟩ := Option.map_eq_some_iff.mp hdirty
      have hkey : k ∈ f.createLTXFromDirty.map Prod.fst := by
        rw [hmem]
        exact List.mem_map_of_mem (mem_of_lastWrite hoff)
      refine lastWrite_of_mem ?_ ?_
      · rw [hkeys]
        exact ((List.perm_insertionSort _ _).nodup_iff.mpr h.keys_nodup).filter _
      · rw [hkeys] at hkey
        refine List.mem_map.mpr ⟨k, hkey, ?_⟩
        rw [hoff, Option.getD_some]

theorem cache_uploaded (f : VFSFile) (k : Nat) :
    f.uploaded.cache k = (f.dirtyPage k).or (f.cache k) := by
  rw [VFSFile.uploaded, VFSFile.dirtyPage]
  dsimp only
  cases lastWrite f.dirty k with
  | none => rfl
  | some off => rfl

end

end Vfs

end Litestream
