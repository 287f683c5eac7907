import Litestream.Plan.CalcRestorePlan
import Litestream.Vfs.File

/-!
# Opening a restore plan

A `VFSFile` opens the files of a restore plan with `rebuildIndex`, which lays their page
indexes over each other.  `Replica.Restore` compacts the same files into one and decodes it.

`presents_iff` says when the two show the same database.  The pages agree for every plan.
The size is the highest page that the index maps, so it is that of the restored database
only if no file of the plan holds a page that a later file has cut off.
-/

namespace Litestream

namespace Vfs

open Overlay

variable {ps : PageSize}

/-! ## Restoring a plan -/

/-- The listings of the replica, from which `calcRestorePlan` takes a plan. -/
def Replica.client (replica : Replica ps) : ReplicaClient where
  ltxFiles level seek _ :=
    .ok ⟨((replica.level level).map LTXFile.info).filter fun info => seek ≤ info.minTXID, none⟩

/-- The page of a database that holds its lock byte. -/
def lockPgno (ps : PageSize) : Nat := 0x40000000 / ps.size + 1

/-- Decodes pages in order. -/
def decodePages (read : Nat → Option Bytes) : List Nat → Option (List Bytes)
  | [] => some []
  | pgno :: pgnos =>
    match read pgno, decodePages read pgnos with
    | some data, some pages => some (data :: pages)
    | _, _ => none

/-- Decodes every page of a file, and zeros for the lock page. -/
def decodeDatabase (file : LTXFile ps) : Option (List Bytes) :=
  decodePages
    (fun pgno =>
      if pgno = lockPgno ps then some (List.replicate ps.size 0) else lastWrite file.pages pgno)
    (List.range' 1 file.commit)

/-- `Replica.Restore` makes the database of the plan. -/
def Restores (plan : List (LTXFile ps)) (database : List Bytes) : Prop :=
  ∃ file, Compacts plan file ∧ decodeDatabase file = some database

/-! ## Reading a file -/

/-- Reads of a file, one after the other. -/
def readAll (replica : Replica ps) (f : VFSFile) (reads : List (Bytes × Nat × Nat)) : VFSFile :=
  reads.foldl (fun f read => (f.ReadAt replica read.1 read.2.1 read.2.2).1) f

/-- The file shows the database: its size, and its pages but for the header bytes that a read
rewrites. -/
structure Presents (replica : Replica ps) (f : VFSFile) (database : List Bytes) : Prop where
  size : f.FileSize = .ok (database.length * ps.size)
  read : ∀ random pgno, 1 ≤ pgno → pgno ≤ database.length → pgno ≠ lockPgno ps →
    ∃ p, (f.ReadAt replica random ((pgno - 1) * ps.size) ps.size).2 = .ok p ∧
      ∀ i, ¬ (pgno = 1 ∧ i ∈ VFSFile.headerBytes) →
        p[i]? = (database[pgno - 1]?).bind fun page => page[i]?

/-- A file that is open for reading at the page size of the replica. -/
structure ReadOnly (ps : PageSize) (f : VFSFile) : Prop where
  pageSize : f.pageSize = ps.size
  writeEnabled : f.writeEnabled = false
  dirty : f.dirty = []

/-- No file of the plan holds a page that the last file has cut off, and some file holds the
last page (the lock page is in no file). -/
structure Uncut (plan : List (LTXFile ps)) : Prop where
  le : ∀ file ∈ plan, ∀ frame ∈ file.frames, frame.pgno ≤ VFSFile.lastCommit plan
  last : VFSFile.lastCommit plan ≠ 0 →
    ∃ file ∈ plan, ∃ frame ∈ file.frames, frame.pgno = VFSFile.lastCommit plan

section

variable {replica : Replica ps} {f : VFSFile} {plan : List (LTXFile ps)} {database : List Bytes}
  {file : LTXFile ps}

/-! ## The restored database -/

theorem decodePages_eq_some {read : Nat → Option Bytes} {pgnos : List Nat} {pages : List Bytes}
    (h : decodePages read pgnos = some pages) : pages.map some = pgnos.map read := by
  induction pgnos generalizing pages with
  | nil =>
      obtain rfl := Option.some.inj h
      rfl
  | cons pgno pgnos ih =>
      rw [decodePages] at h
      cases hread : read pgno with
      | none => rw [hread] at h; cases h
      | some data =>
          rw [hread] at h
          cases hrest : decodePages read pgnos with
          | none => rw [hrest] at h; cases h
          | some rest =>
              rw [hrest] at h
              obtain rfl := Option.some.inj h
              rw [List.map_cons, List.map_cons, ih hrest, hread]

/-- The restored database has the newest version of each page in the plan. -/
theorem Restores.page (h : Restores plan database) :
    database.length = VFSFile.lastCommit plan ∧
      ∀ pgno, 1 ≤ pgno → pgno ≤ database.length → pgno ≠ lockPgno ps →
        database[pgno - 1]? = lastWrite (mergePages plan) pgno ∧
          lastWrite (mergePages plan) pgno ≠ none := by
  obtain ⟨file, hcompacts, hdecode⟩ := h
  have hmap := decodePages_eq_some hdecode
  have hlength : database.length = file.commit := by
    simpa using congrArg List.length hmap
  have hcommit : VFSFile.lastCommit plan = file.commit := by
    rw [VFSFile.lastCommit, hcompacts.commit, Option.getD_some]
  refine ⟨hlength.trans hcommit.symm, fun pgno hone hle hlock => ?_⟩
  have hget := congrArg (·[pgno - 1]?) hmap
  simp only [List.getElem?_map] at hget
  rw [List.getElem?_eq_getElem (by omega), List.getElem?_range' (by omega)] at hget
  simp only [Option.map_some, Nat.one_mul, Nat.add_sub_cancel' hone, if_neg hlock] at hget
  rw [List.getElem?_eq_getElem (by omega), ← hcompacts.pages pgno (by omega)]
  have hread := Option.some.inj hget
  exact ⟨hread, by rw [← hread]; simp⟩

/-- All pages but the lock page are in the plan, so the last page is unless it is that. -/
theorem Restores.uncut_iff (h : Restores plan database)
    (hlock : VFSFile.lastCommit plan ≠ lockPgno ps) :
    Uncut plan ↔ ∀ file ∈ plan, ∀ frame ∈ file.frames, frame.pgno ≤ VFSFile.lastCommit plan := by
  refine ⟨Uncut.le, fun hle => ⟨hle, fun hne => ?_⟩⟩
  obtain ⟨hlength, hpage⟩ := h.page
  have hheld := (hpage _ (Nat.one_le_iff_ne_zero.mpr hne) hlength.ge hlock).2
  rw [Ne, lastWrite_eq_none_iff, not_not, mergePages, List.map_flatMap, List.mem_flatMap] at hheld
  obtain ⟨file, hfile, hmem⟩ := hheld
  rw [LTXFile.pages, List.map_map, List.mem_map] at hmem
  obtain ⟨frame, hframe, heq⟩ := hmem
  exact ⟨file, hfile, frame, hframe, heq⟩

/-! ## The size -/

theorem foldl_size_le {α : Type} {pageSize init m : Nat} {entries : List (Nat × α)} :
    entries.foldl (fun size entry => max size (entry.1 * pageSize)) init ≤ m ↔
      init ≤ m ∧ ∀ k ∈ entries.map Prod.fst, k * pageSize ≤ m := by
  induction entries generalizing init with
  | nil => simp
  | cons entry entries ih =>
      rw [List.foldl_cons, ih, List.map_cons, List.forall_mem_cons, max_le_iff, and_assoc]

theorem mapSize_le {α : Type} {pageSize m : Nat} {entries : List (Nat × α)} :
    VFSFile.mapSize pageSize entries ≤ m ↔ ∀ k ∈ entries.map Prod.fst, k * pageSize ≤ m := by
  rw [VFSFile.mapSize, foldl_size_le]
  exact and_iff_right (Nat.zero_le _)

/-- The size of a map is that of its highest page. -/
theorem mapSize_eq {α : Type} {pageSize n : Nat} {entries : List (Nat × α)} (hpos : 0 < pageSize) :
    VFSFile.mapSize pageSize entries = n * pageSize ↔
      (∀ k ∈ entries.map Prod.fst, k ≤ n) ∧ (n ≠ 0 → n ∈ entries.map Prod.fst) := by
  have hle : ∀ m, VFSFile.mapSize pageSize entries ≤ m * pageSize ↔
      ∀ k ∈ entries.map Prod.fst, k ≤ m := fun m => by
    rw [mapSize_le]
    exact forall₂_congr fun k _ => Nat.mul_le_mul_right_iff hpos
  constructor
  · intro heq
    have hkeys := (hle n).mp heq.le
    refine ⟨hkeys, fun hne => by_contra fun hmem => ?_⟩
    -- otherwise every page is below the last one
    have hlt : ∀ k ∈ entries.map Prod.fst, k ≤ n - 1 := fun k hk => by
      have hkn := hkeys k hk
      have hkne : k ≠ n := fun h => hmem (h ▸ hk)
      omega
    have hsize := (hle (n - 1)).mpr hlt
    rw [heq, Nat.mul_le_mul_right_iff hpos] at hsize
    omega
  · rintro ⟨hkeys, hlast⟩
    refine Nat.le_antisymm ((hle n).mpr hkeys) ?_
    rcases Nat.eq_zero_or_pos n with rfl | hn
    · simp
    · exact mapSize_le.mp le_rfl n (hlast hn.ne')

/-! ## The pages -/

/-- The file has the index of the plan, and its cache holds pages of the plan. -/
structure Shows (plan : List (LTXFile ps)) (f : VFSFile) : Prop extends ReadOnly ps f where
  index : f.index = mergeIndex plan
  pending : f.pending = []
  cache : ∀ k data, f.cache k = some data → lastWrite (mergePages plan) k = some data

theorem length_page {k : Nat} {data : Bytes} (h : lastWrite (mergePages plan) k = some data) :
    data.length = ps.size := by
  have hmem := mem_of_lastWrite h
  rw [mergePages, List.mem_flatMap] at hmem
  obtain ⟨file, -, hfile⟩ := hmem
  rw [LTXFile.pages, List.mem_map] at hfile
  obtain ⟨frame, -, heq⟩ := hfile
  rw [← (Prod.mk.inj heq).2]
  exact frame.page.length_data

/-- A read without a write buffer. -/
theorem readAt_readOnly (replica : Replica ps) (h : ReadOnly ps f) (random : Bytes)
    (off len : Nat) :
    (∃ data, f.cache (off / ps.size + 1) = some data ∧
      f.ReadAt replica random off len =
        (f, VFSFile.present random off len (off % ps.size) data)) ∨
    f.cache (off / ps.size + 1) = none ∧
      ((∃ e data, lastWrite f.index (off / ps.size + 1) = some e ∧ replica.fetch e = some data ∧
        f.ReadAt replica random off len =
          ({ f with cache := Function.update f.cache (off / ps.size + 1) (some data) },
            VFSFile.present random off len (off % ps.size) data)) ∨
      (lastWrite f.index (off / ps.size + 1)).bind replica.fetch = none ∧
        ∃ err, f.ReadAt replica random off len = (f, .error err)) := by
  have hsize : ps.size ≠ 0 := by
    have := ps.bounds
    omega
  rw [VFSFile.ReadAt, h.pageSize, if_neg hsize, h.writeEnabled]
  dsimp only
  cases hcache : f.cache (off / ps.size + 1) with
  | some data => exact Or.inl ⟨data, rfl, rfl⟩
  | none =>
      refine Or.inr ⟨rfl, ?_⟩
      cases hindex : lastWrite f.index (off / ps.size + 1) with
      | none => exact Or.inr ⟨rfl, _, rfl⟩
      | some e =>
          cases hfetch : replica.fetch e with
          | none => exact Or.inr ⟨hfetch, .fetchPage (off / ps.size + 1), by simp [hfetch]⟩
          | some data => exact Or.inl ⟨e, data, rfl, hfetch, by simp [hfetch]⟩

theorem Shows.readAt (hstored : ∀ file ∈ plan, replica.Stored file) (h : Shows plan f)
    (random : Bytes) (off len : Nat) : Shows plan (f.ReadAt replica random off len).1 := by
  rcases readAt_readOnly replica h.toReadOnly random off len with
    ⟨data, -, heq⟩ | ⟨-, ⟨e, data, hindex, hfetch, heq⟩ | ⟨-, err, heq⟩⟩
  · rw [heq]
    exact h
  · rw [heq]
    refine ⟨⟨h.pageSize, h.writeEnabled, h.dirty⟩, h.index, h.pending, fun k d hk => ?_⟩
    dsimp only at hk
    rw [Function.update_apply] at hk
    split at hk
    · next heq' =>
        rw [heq', ← Replica.bind_fetch_lastWrite hstored, ← h.index, hindex, Option.bind_some,
          hfetch, hk]
    · exact h.cache k d hk
  · rw [heq]
    exact h

/-- A read of a page of the plan returns its newest version. -/
theorem Shows.reads (hstored : ∀ file ∈ plan, replica.Stored file) (h : Shows plan f)
    {random : Bytes} {off len : Nat} {data : Bytes}
    (hdata : lastWrite (mergePages plan) (off / ps.size + 1) = some data) :
    (f.ReadAt replica random off len).2 =
      VFSFile.present random off len (off % ps.size) data := by
  have hpage : (lastWrite f.index (off / ps.size + 1)).bind replica.fetch = some data := by
    rw [h.index, Replica.bind_fetch_lastWrite hstored, hdata]
  rcases readAt_readOnly replica h.toReadOnly random off len with
    ⟨d, hd, heq⟩ | ⟨-, ⟨e, d, hindex, hfetch, heq⟩ | ⟨hnone, err, heq⟩⟩
  · obtain rfl := Option.some.inj ((h.cache _ _ hd).symm.trans hdata)
    rw [heq]
  · rw [hindex, Option.bind_some, hfetch] at hpage
    obtain rfl := Option.some.inj hpage
    rw [heq]
  · rw [hnone] at hpage
    cases hpage

/-- A read of the first page changes only bytes of the header. -/
theorem getElem?_hideWAL {random p : Bytes} {i : Nat} (hp : 28 ≤ p.length)
    (hi : i ∉ VFSFile.headerBytes) : (VFSFile.hideWAL random p)[i]? = p[i]? := by
  have hmem : i ≠ 18 ∧ i ≠ 19 ∧ i ≠ 24 ∧ i ≠ 25 ∧ i ≠ 26 ∧ i ≠ 27 := by
    simpa [VFSFile.headerBytes] using hi
  have hversion : (p.writeAt 18 [1, 1]).length = p.length :=
    Bytes.length_writeAt_of_le (by simp; omega)
  have hrandom : (random.take 4).length ≤ 4 := by simp
  by_cases hlt : i < p.length
  · rw [VFSFile.hideWAL, Bytes.getElem?_writeAt_of_notMem (by omega) (by omega),
      Bytes.getElem?_writeAt_of_notMem (by simp; omega) hlt]
  · have hlength : (VFSFile.hideWAL random p).length = p.length := by
      rw [VFSFile.hideWAL, Bytes.length_writeAt_of_le (by omega), hversion]
    rw [List.getElem?_eq_none (by omega), List.getElem?_eq_none (by omega)]

/-- What a read of a whole page returns is the page but for bytes of the header. -/
theorem present_page (random : Bytes) {data : Bytes} {pgno : Nat} (hone : 1 ≤ pgno)
    (hdata : data.length = ps.size) :
    ∃ p, VFSFile.present random ((pgno - 1) * ps.size) ps.size
        ((pgno - 1) * ps.size % ps.size) data = .ok p ∧
      ∀ i, ¬ (pgno = 1 ∧ i ∈ VFSFile.headerBytes) → p[i]? = data[i]? := by
  have hsize := ps.bounds
  rw [Nat.mul_mod_left, VFSFile.present, Bytes.readAt_all hdata]
  by_cases hfirst : pgno = 1
  · subst hfirst
    rw [if_neg (by simp), if_neg (by omega)]
    refine ⟨_, rfl, fun i hi => getElem?_hideWAL (by omega) fun hmem => hi ⟨rfl, hmem⟩⟩
  · have hoff : (pgno - 1) * ps.size ≠ 0 := Nat.mul_ne_zero (by omega) (by omega)
    rw [if_pos hoff]
    exact ⟨data, rfl, fun i _ => rfl⟩

/-! ## The opened plan -/

theorem shows_rebuildIndex (h : ReadOnly ps f) (target : Option Nat) :
    Shows plan (f.rebuildIndex plan target) where
  pageSize := h.pageSize
  writeEnabled := h.writeEnabled
  dirty := h.dirty
  index := rfl
  pending := rfl
  cache := by
    rintro k data ⟨⟩

theorem Shows.readAll (hstored : ∀ file ∈ plan, replica.Stored file) (h : Shows plan f)
    (reads : List (Bytes × Nat × Nat)) : Shows plan (readAll replica f reads) := by
  induction reads generalizing f with
  | nil => exact h
  | cons read reads ih => exact ih (h.readAt hstored read.1 read.2.1 read.2.2)

/-- The size of the file is that of the highest page of the plan. -/
theorem Shows.fileSize (h : Shows plan f) (n : Nat) :
    f.FileSize = .ok (n * ps.size) ↔
      (∀ k ∈ (mergePages plan).map Prod.fst, k ≤ n) ∧
        (n ≠ 0 → n ∈ (mergePages plan).map Prod.fst) := by
  have hsize : 0 < ps.size := by
    have := ps.bounds
    omega
  rw [VFSFile.FileSize, h.pageSize, if_neg hsize.ne', h.pending, h.dirty, h.index]
  simp only [VFSFile.mapSize, List.foldl_nil, Nat.max_zero, Except.ok.injEq]
  rw [← keys_mergeIndex]
  exact mapSize_eq hsize

theorem uncut_iff_keys :
    Uncut plan ↔ (∀ k ∈ (mergePages plan).map Prod.fst, k ≤ VFSFile.lastCommit plan) ∧
      (VFSFile.lastCommit plan ≠ 0 →
        VFSFile.lastCommit plan ∈ (mergePages plan).map Prod.fst) := by
  have hkeys : ∀ k, k ∈ (mergePages plan).map Prod.fst ↔
      ∃ file ∈ plan, ∃ frame ∈ file.frames, frame.pgno = k := fun k => by
    rw [mergePages, List.map_flatMap, List.mem_flatMap]
    simp only [LTXFile.pages, List.map_map, List.mem_map, Function.comp_apply]
  simp only [hkeys]
  refine ⟨fun h => ⟨?_, h.last⟩, fun h => ⟨fun file hfile frame hframe => ?_, h.2⟩⟩
  · rintro k ⟨file, hfile, frame, hframe, rfl⟩
    exact h.le file hfile frame hframe
  · exact h.1 _ ⟨file, hfile, frame, hframe, rfl⟩

/-- A plan opened for reading shows the database that it restores, through every sequence of
reads, if and only if the last file cuts off no page that the plan holds. -/
theorem presents_iff (hstored : ∀ file ∈ plan, replica.Stored file) (hopen : ReadOnly ps f)
    (hrestores : Restores plan database) (target : Option Nat) :
    (∀ reads, Presents replica (readAll replica (f.rebuildIndex plan target) reads) database) ↔
      Uncut plan := by
  obtain ⟨hlength, hpage⟩ := hrestores.page
  have hshows : Shows plan (f.rebuildIndex plan target) := shows_rebuildIndex hopen target
  rw [uncut_iff_keys, ← hlength]
  constructor
  · intro hpresents
    exact (hshows.fileSize _).mp (hpresents []).size
  · intro huncut reads
    have hread := hshows.readAll hstored reads
    refine ⟨(hread.fileSize _).mpr huncut, fun random pgno hone hle hlock => ?_⟩
    obtain ⟨hget, hne⟩ := hpage pgno hone hle hlock
    obtain ⟨data, hdata⟩ := Option.ne_none_iff_exists'.mp hne
    have hsize : 0 < ps.size := by
      have := ps.bounds
      omega
    have hpgno : (pgno - 1) * ps.size / ps.size + 1 = pgno := by
      rw [Nat.mul_div_cancel _ hsize]
      omega
    rw [hread.reads hstored (hpgno.symm ▸ hdata)]
    obtain ⟨p, hp, hsame⟩ := present_page random hone (length_page hdata)
    refine ⟨p, hp, fun i hi => ?_⟩
    rw [hsame i hi, hget, hdata, Option.bind_some]

end

/-! ## A snapshot, and a transaction that leaves one page -/

namespace OnePage

/-- A page of one byte value. -/
def page (b : UInt8) : Page PageSize.min := ⟨List.replicate 512 b, length_fill b⟩

/-- A snapshot of `n` pages. -/
def snapshot (n : Nat) : LTXFile PageSize.min where
  info := ⟨9, 1, 1, 100, 1⟩
  commit := n
  frames := (List.range n).map fun i => ⟨i + 1, i, 1, page 1⟩
  valid := by decide
  pgnos_nodup := by
    rw [List.map_map]
    exact List.nodup_range.map fun i j h => Nat.succ_injective h
  offsets_nodup := by
    rw [List.map_map]
    exact List.nodup_range.map fun i j h => h
  bounds := by
    intro frame hframe
    obtain ⟨i, hi, rfl⟩ := List.mem_map.mp hframe
    exact ⟨Nat.succ_pos i, List.mem_range.mp hi⟩

/-- The second transaction writes the first page of a database of one page. -/
def update : LTXFile PageSize.min where
  info := ⟨0, 2, 2, 100, 2⟩
  commit := 1
  frames := [⟨1, 0, 1, page 2⟩]
  valid := by decide
  pgnos_nodup := by decide
  offsets_nodup := by decide
  bounds := by simp

/-- A replica of the snapshot and the second transaction. -/
def replica (n : Nat) : Replica PageSize.min where
  level k := if k = 9 then [snapshot n] else if k = 0 then [update] else []
  level_eq k file hfile := by
    split at hfile
    · next h => rw [List.mem_singleton.mp hfile, h]; rfl
    · split at hfile
      · next h => rw [List.mem_singleton.mp hfile, h]; rfl
      · cases hfile
  names_nodup k := by
    split
    · simp
    · split <;> simp

/-- A file that is open for reading. -/
def file : VFSFile where
  pageSize := 512
  index := []
  pending := []
  pendingReplace := false
  cache := fun _ => none
  pos := 0
  maxTXID1 := 0
  latestLTXTime := 0
  targetTime := none
  lockType := .none
  commit := 0
  writeEnabled := false
  inTransaction := false
  dirty := []
  bufferFile := []
  bufferNextOff := 0
  expectedTXID := 0
  pendingTXID := 0

def plan (n : Nat) : List (LTXFile PageSize.min) := [snapshot n, update]

theorem stored (n : Nat) : ∀ file ∈ plan n, (replica n).Stored file := by
  intro file hfile
  rcases List.mem_cons.mp hfile with rfl | hfile
  · exact List.mem_singleton.mpr rfl
  · rw [List.mem_singleton.mp hfile]
    exact List.mem_singleton.mpr rfl

theorem opened : ReadOnly PageSize.min file := ⟨rfl, rfl, rfl⟩

/-- The database of the second transaction. -/
def database : List Bytes := [(page 2).data]

theorem restores (n : Nat) : Restores (plan n) database := by
  refine ⟨update, ⟨rfl, fun k hk => ?_⟩, by decide +kernel⟩
  have hkeys : k ∉ (snapshot n).pages.map Prod.fst ∨ k = 1 := by
    rcases Nat.le_one_iff_eq_zero_or_eq_one.mp hk with rfl | rfl
    · exact Or.inl fun h => absurd (LTXFile.mem_pages_bounds h).1 (by decide)
    · exact Or.inr rfl
  rw [plan, mergePages, List.flatMap_cons, List.flatMap_cons, List.flatMap_nil, List.append_nil,
    lastWrite_append]
  rcases hkeys with hkeys | rfl
  · rw [lastWrite_eq_none_iff.mpr hkeys, Option.or_none]
  · rfl

end OnePage

/-- A plan whose files hold one page shows the database that it restores, also after a read. -/
theorem presents_iff_sample : Presents (OnePage.replica 1)
    (readAll (OnePage.replica 1) (OnePage.file.rebuildIndex (OnePage.plan 1) none) [([], 0, 512)])
    OnePage.database :=
  (presents_iff (OnePage.stored 1) OnePage.opened (OnePage.restores 1) none).mpr
    ⟨by decide +kernel, fun _ => by decide +kernel⟩ [([], 0, 512)]

/-- The second page, which the last file has cut off, still counts for the size. -/
theorem fileSize_cut :
    calcRestorePlan (OnePage.replica 2).client 0 0 = .ok ((OnePage.plan 2).map LTXFile.info) ∧
      Restores (OnePage.plan 2) OnePage.database ∧
      (OnePage.file.rebuildIndex (OnePage.plan 2) none).FileSize = .ok 1024 ∧
      ¬ Presents (OnePage.replica 2) (OnePage.file.rebuildIndex (OnePage.plan 2) none)
        OnePage.database := by
  have hsize : (OnePage.file.rebuildIndex (OnePage.plan 2) none).FileSize = .ok 1024 := by
    decide +kernel
  refine ⟨by decide +kernel, OnePage.restores 2, hsize, fun h => ?_⟩
  exact absurd (hsize.symm.trans h.size) (by decide +kernel)

end Vfs

end Litestream
