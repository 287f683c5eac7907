import Litestream.Compaction.Levels
import Litestream.Lib.Run

/-!
# Background maintenance

A replica is written to by uploads of level 0 files, compactions and snapshots, and files
are deleted from it by three kinds of retention.  A monitor goroutine runs each of them
on its own schedule, so any order of them is possible.  `Maintenance.step` takes one
operation, and the clock values, sizes and merge results it meets come with the action.

The sequence of a store that enforces snapshot retention is several actions: one on the
snapshot level, which remembers the TXID it returns, and one on each compaction level.

`Levels` is what holds of the files, and `State.Inv` of the whole state, after any run.
`step_effect` says once what a step can do; the invariants of the levels follow from it.
-/

namespace Litestream

/-! ## Files that maintenance keeps in order -/

/-- Levels below the snapshot level ascend, and no level goes past the one below it. -/
structure Levels (files : Files) : Prop where
  wf : files.WellFormed
  ascending : ∀ n < snapshotLevel, FileInfo.Ascending (files n)
  top_le : ∀ n, n + 1 < snapshotLevel → FileInfo.top (files (n + 1)) ≤ FileInfo.top (files n)

namespace Levels

variable {files : Files} {n : Nat} {info : FileInfo} {del keep : List FileInfo}
  {listedAt : FileInfo → Nat}

theorem empty : Levels fun _ => [] :=
  ⟨⟨fun _ => .nil, by simp, by simp⟩, fun _ _ => .nil, fun _ _ => Nat.le_refl _⟩

theorem min_le_max (h : Levels files) (n : Nat) : ∀ f ∈ files n, f.minTXID ≤ f.maxTXID :=
  fun f hf => (h.wf.valid n f hf).min_le_max

/-- Every compaction level ends no later than level 0. -/
theorem top_le_zero (h : Levels files) :
    ∀ n < snapshotLevel, FileInfo.top (files n) ≤ FileInfo.top (files 0)
  | 0, _ => Nat.le_refl _
  | n + 1, hn => Nat.le_trans (h.top_le n hn) (h.top_le_zero n (by omega))

/-- A file past the end of a level goes to the end of its listing. -/
theorem writeLTXFile_append (h : Levels files) (hlevel : info.level = n)
    (hmin : FileInfo.top (files n) < info.minTXID) :
    files.writeLTXFile info n = files n ++ [info] := by
  rw [Files.writeLTXFile_same hlevel]
  refine insertFile_of_lt fun f hf => ?_
  have := h.min_le_max n f hf
  have := FileInfo.le_top hf
  omega

/-- The level then ends where the file ends. -/
theorem top_writeLTXFile (h : Levels files) (hlevel : info.level = n)
    (hmin : FileInfo.top (files n) < info.minTXID) (hv : info.minTXID ≤ info.maxTXID) :
    FileInfo.top (files.writeLTXFile info n) = info.maxTXID := by
  rw [h.writeLTXFile_append hlevel hmin, FileInfo.top, Cover.top_append, Cover.top_cons,
    Cover.top_nil]
  simp only [FileInfo.top] at hmin
  omega

/-- A file past the end of a level that stays within the level below keeps the levels. -/
theorem append (h : Levels files) (hn : n < snapshotLevel) (hlevel : info.level = n)
    (hv : info.Valid) (hmin : FileInfo.top (files n) < info.minTXID)
    (hmax : ∀ m, n = m + 1 → info.maxTXID ≤ FileInfo.top (files m)) :
    Levels (files.writeLTXFile info) := by
  have hsame := h.writeLTXFile_append hlevel hmin
  have hother : ∀ k, k ≠ n → files.writeLTXFile info k = files k := fun k hk =>
    Files.writeLTXFile_other (hlevel ▸ Ne.symm hk)
  have hasc : FileInfo.Ascending (files n ++ [info]) := (h.ascending n hn).concat hmin
  have hvalid : ∀ f ∈ files n ++ [info], f.Valid := fun f hf => by
    rcases List.mem_append.mp hf with hf | hf
    · exact h.wf.valid n f hf
    · obtain rfl : f = info := by simpa using hf
      exact hv
  refine ⟨⟨fun k => ?_, fun k => ?_, ?_⟩, fun k hk => ?_, fun k hk => ?_⟩
  · by_cases hkn : k = n
    · rw [hkn, hsame]
      exact hasc.keyLT hvalid
    · rw [hother k hkn]
      exact h.wf.sorted k
  · by_cases hkn : k = n
    · rwa [hkn, hsame]
    · rw [hother k hkn]
      exact h.wf.valid k
  · rw [hother snapshotLevel (by omega)]
    exact h.wf.snapshot_min
  · by_cases hkn : k = n
    · rwa [hkn, hsame]
    · rw [hother k hkn]
      exact h.ascending k hk
  · have hle := h.top_le k hk
    by_cases hkn : k = n
    · rw [hkn, hsame, hother (n + 1) (by omega), FileInfo.top, Cover.top_append]
      rw [hkn] at hle
      exact Nat.le_trans hle (Nat.le_max_left _ _)
    · rw [hother k hkn]
      by_cases hk1 : k + 1 = n
      · have := hmax k hk1.symm
        rw [hk1, hsame, FileInfo.top, Cover.top_append, Cover.top_cons, Cover.top_nil]
        rw [hk1] at hle
        simp only [FileInfo.top] at hle this ⊢
        omega
      · rw [hother (k + 1) hk1]
        exact hle

/-- A snapshot keeps the levels. -/
theorem snapshot (h : Levels files) (hlevel : info.level = snapshotLevel) (hv : info.Valid)
    (hmin : info.minTXID = 1) : Levels (files.writeLTXFile info) := by
  have hother : ∀ k, k ≠ snapshotLevel → files.writeLTXFile info k = files k := fun k hk =>
    Files.writeLTXFile_other (hlevel ▸ Ne.symm hk)
  have hsame : files.writeLTXFile info snapshotLevel = insertFile info (files snapshotLevel) :=
    Files.writeLTXFile_same hlevel
  refine ⟨⟨fun k => ?_, fun k => ?_, ?_⟩, fun k hk => ?_, fun k hk => ?_⟩
  · by_cases hk : k = snapshotLevel
    · rw [hk, hsame]
      exact insertFile_sorted (h.wf.sorted _)
    · rw [hother k hk]
      exact h.wf.sorted k
  · by_cases hk : k = snapshotLevel
    · rw [hk, hsame]
      intro f hf
      rcases mem_insertFile hf with rfl | hf
      · exact hv
      · exact h.wf.valid _ f hf
    · rw [hother k hk]
      exact h.wf.valid k
  · rw [hsame]
    intro f hf
    rcases mem_insertFile hf with rfl | hf
    · exact hmin
    · exact h.wf.snapshot_min f hf
  · rw [hother k (by omega)]
    exact h.ascending k hk
  · rw [hother k (by omega), hother (k + 1) (by omega)]
    exact h.top_le k hk

/-- Deletions that keep the end of the level keep the levels. -/
theorem deleteLTXFiles (h : Levels files)
    (htop : n < snapshotLevel →
      FileInfo.top (files.deleteLTXFiles n del n) = FileInfo.top (files n)) :
    Levels (files.deleteLTXFiles n del) := by
  have hsub : ∀ k, (files.deleteLTXFiles n del k).Sublist (files k) := fun k =>
    Files.deleteLTXFiles_sublist n
  have hkeep : ∀ k < snapshotLevel,
      FileInfo.top (files.deleteLTXFiles n del k) = FileInfo.top (files k) := fun k hk => by
    by_cases hkn : n = k
    · subst hkn
      exact htop hk
    · rw [Files.deleteLTXFiles_other hkn]
  refine ⟨⟨fun k => (h.wf.sorted k).sublist (hsub k), fun k f hf =>
    h.wf.valid k f ((hsub k).subset hf), fun f hf => h.wf.snapshot_min f ((hsub _).subset hf)⟩,
    fun k hk => (h.ascending k hk).sublist (hsub k), fun k hk => ?_⟩
  rw [hkeep k (by omega), hkeep (k + 1) hk]
  exact h.top_le k hk

/-- A suffix that is not empty ends where the level ends. -/
theorem top_suffix (h : Levels files) (hn : n < snapshotLevel) (hsplit : files n = del ++ keep)
    (hkeep : files n ≠ [] → keep ≠ []) : FileInfo.top keep = FileInfo.top (files n) := by
  rcases List.eq_nil_or_concat keep with rfl | ⟨keep, last, rfl⟩
  · have : files n = [] := by
      by_contra hne
      exact hkeep hne rfl
    rw [this]
  · rw [List.concat_eq_append] at hsplit ⊢
    have hasc := h.ascending n hn
    have hlast := h.min_le_max n last (by simp [hsplit])
    rw [hsplit, ← List.append_assoc] at hasc ⊢
    rw [FileInfo.top, hasc.top_concat hlast]
    rw [List.append_assoc] at hasc
    exact (Cover.Ascending.top_concat (List.pairwise_append.mp hasc).2.1 hlast)

end Levels

/-! ## The system -/

namespace Maintenance

/-- The configuration of a store: its compaction levels are `1` to `maxLevel`. -/
structure Config where
  maxLevel : Nat
  maxLevel_lt : maxLevel < snapshotLevel
  retentionEnabled : Bool

/-- A store with two compaction levels. -/
def twoLevels : Config := ⟨2, by decide, true⟩

/-- A database and its replica. -/
structure State where
  files : Files
  cache : FileInfoCache
  /-- The last TXID of the database. -/
  dbPos : Nat
  /-- The last TXID uploaded to level 0. -/
  uploaded : Nat
  /-- The last TXID a snapshot was taken at. -/
  snapshotted : Nat
  /-- What the last snapshot retention returned. -/
  minSnapshotTXID : Nat
  /-- The creation time of each transaction. -/
  created : Nat → Nat

/-- A new database with an empty replica. -/
def State.empty : State := ⟨fun _ => [], fun _ => none, 0, 0, 0, 0, fun _ => 0⟩

/-- The last TXID ever uploaded or snapshotted. -/
def State.highest (s : State) : Nat := max s.uploaded s.snapshotted

/-- One operation, with what it reads from clocks, backends and the LTX compactor. -/
inductive Action where
  /-- The database writes the next level 0 file locally. -/
  | sync (now : Nat)
  /-- The replica uploads the next level 0 file. -/
  | upload (size : Nat)
  | compact (dstLevel : Nat) (merge : List FileInfo → Option (Nat × Nat))
  /-- A snapshot at the position of the database. -/
  | snapshot (size now : Nat)
  | enforceL0RetentionByTime (threshold : Nat) (listedAt : FileInfo → Nat)
      (localModTime : FileInfo → Option Nat)
  | enforceSnapshotRetention (timestamp : Nat) (listedAt : FileInfo → Nat)
  /-- Retention of one compaction level at the TXID that snapshot retention returned. -/
  | enforceRetentionByTXID (level : Nat)

/-- Deletes files unless retention is disabled. -/
def remove (cfg : Config) (files : Files) (level : Nat) (deleted : List FileInfo) : Files :=
  if cfg.retentionEnabled then files.deleteLTXFiles level deleted else files

/-- The effect of one operation.  The database stops before its TXIDs overflow. -/
def step (cfg : Config) (s : State) : Action → Option State
  | .sync now =>
      if s.dbPos + 2 < txidLimit then
        some { s with
          dbPos := s.dbPos + 1
          created := Function.update s.created (s.dbPos + 1) now }
      else none
  | .upload size =>
      if s.uploaded < s.dbPos then
        let txID := s.uploaded + 1
        some { s with
          files := s.files.writeLTXFile ⟨0, txID, txID, size, s.created txID⟩
          uploaded := txID }
      else none
  | .compact dstLevel merge =>
      if 0 < dstLevel ∧ dstLevel ≤ cfg.maxLevel then
        let (_, files, cache) := Litestream.compact merge dstLevel s.files s.cache
        some { s with files, cache }
      else none
  | .snapshot size now =>
      if 0 < s.dbPos then
        let info : FileInfo := ⟨snapshotLevel, 1, s.dbPos, size, now⟩
        some { s with
          files := s.files.writeLTXFile info
          cache := Function.update s.cache snapshotLevel (some info)
          snapshotted := s.dbPos }
      else none
  | .enforceL0RetentionByTime threshold listedAt localModTime =>
      let deleted := Litestream.enforceL0RetentionByTime threshold localModTime (s.files 1)
        ((s.files 0).map (FileInfo.stamp listedAt))
      some { s with files := remove cfg s.files 0 deleted }
  | .enforceSnapshotRetention timestamp listedAt =>
      let (deleted, minSnapshotTXID) := Litestream.enforceSnapshotRetention timestamp
        ((s.files snapshotLevel).map (FileInfo.stamp listedAt))
      some { s with files := remove cfg s.files snapshotLevel deleted, minSnapshotTXID }
  | .enforceRetentionByTXID level =>
      if 0 < level ∧ level ≤ cfg.maxLevel then
        let deleted := Litestream.enforceRetentionByTXID s.minSnapshotTXID (s.files level)
        some { s with files := remove cfg s.files level deleted }
      else none

/-! ## What holds in every state -/

/-- The invariant of the system. -/
structure State.Inv (s : State) : Prop where
  levels : Levels s.files
  top_zero : FileInfo.top (s.files 0) = s.uploaded
  top_snapshot : FileInfo.top (s.files snapshotLevel) = s.snapshotted
  cache : s.cache.Coherent s.files
  dbPos_lt : s.dbPos + 1 < txidLimit
  uploaded_le : s.uploaded ≤ s.dbPos
  snapshotted_le : s.snapshotted ≤ s.dbPos
  minSnapshot_le : s.minSnapshotTXID ≤ s.snapshotted

theorem State.empty_inv : State.empty.Inv where
  levels := Levels.empty
  top_zero := rfl
  top_snapshot := rfl
  cache := fun _ _ _ _ h => by cases h
  dbPos_lt := by decide
  uploaded_le := Nat.le_refl _
  snapshotted_le := Nat.le_refl _
  minSnapshot_le := Nat.le_refl _

/-- No level ends past the last upload. -/
theorem State.Inv.top_le {s : State} (h : s.Inv) {n : Nat} (hn : n < snapshotLevel) :
    FileInfo.top (s.files n) ≤ s.uploaded :=
  h.top_zero ▸ h.levels.top_le_zero n hn

/-- What a step does to the levels below the snapshot level. -/
inductive Effect (s s' : State) : Action → Prop where
  /-- Nothing changes. -/
  | same {a : Action} (h : ∀ n < snapshotLevel, s'.files n = s.files n) : Effect s s' a
  /-- Level 0 gets the next transaction. -/
  | uploaded {size : Nat}
      (h : s'.files = s.files.writeLTXFile
        ⟨0, s.uploaded + 1, s.uploaded + 1, size, s.created (s.uploaded + 1)⟩) :
      Effect s s' (.upload size)
  /-- A level gets what the level below has past its end. -/
  | compacted {dstLevel : Nat} {merge : List FileInfo → Option (Nat × Nat)} {merged : Nat × Nat}
      (hpos : 0 < dstLevel) (hlt : dstLevel < snapshotLevel)
      (hne : compactionSources s.files dstLevel ≠ [])
      (hmerge : merge (compactionSources s.files dstLevel) = some merged)
      (h : s'.files = s.files.writeLTXFile (Litestream.compacted s.files dstLevel merged)) :
      Effect s s' (.compact dstLevel merge)
  /-- Level 0 loses a prefix that level 1 covers. -/
  | prunedZero {threshold : Nat} {listedAt : FileInfo → Nat}
      {localModTime : FileInfo → Option Nat} {del : List FileInfo}
      (hdel : ∀ f ∈ del, f.maxTXID ≤ FileInfo.top (s.files 1))
      (hsplit : s.files 0 = del ++ s'.files 0)
      (htop : FileInfo.top (s'.files 0) = FileInfo.top (s.files 0))
      (hother : ∀ n, n ≠ 0 → s'.files n = s.files n) :
      Effect s s' (.enforceL0RetentionByTime threshold listedAt localModTime)
  /-- A compaction level loses a prefix that ends before the oldest snapshot kept. -/
  | prunedByTXID {level : Nat} {del : List FileInfo} (hpos : 0 < level)
      (hlt : level < snapshotLevel)
      (hdel : ∀ f ∈ del, f ∈ (s.files level).dropLast ∧ f.maxTXID < s.minSnapshotTXID)
      (hsplit : s.files level = del ++ s'.files level)
      (htop : FileInfo.top (s'.files level) = FileInfo.top (s.files level))
      (hother : ∀ n, n ≠ level → s'.files n = s.files n) :
      Effect s s' (.enforceRetentionByTXID level)

/-! ### Removing a prefix of a level -/

theorem remove_other {cfg : Config} {files : Files} {level n : Nat} {deleted : List FileInfo}
    (h : n ≠ level) : remove cfg files level deleted n = files n := by
  unfold remove
  split
  · exact Files.deleteLTXFiles_other (Ne.symm h)
  · rfl

/-- Removing a prefix leaves a suffix with the same end, or everything. -/
theorem remove_prefix {files : Files} {n : Nat} {del keep : List FileInfo} (cfg : Config)
    (listedAt : FileInfo → Nat) (h : Levels files) (hn : n < snapshotLevel)
    (hsplit : files n = del ++ keep) (hkeep : files n ≠ [] → keep ≠ []) :
    Levels (remove cfg files n (del.map (FileInfo.stamp listedAt))) ∧
      ∃ del', (∀ f ∈ del', f ∈ del) ∧
        files n = del' ++ remove cfg files n (del.map (FileInfo.stamp listedAt)) n ∧
        FileInfo.top (remove cfg files n (del.map (FileInfo.stamp listedAt)) n) =
          FileInfo.top (files n) := by
  unfold remove
  split
  · have hrest := Files.deleteLTXFiles_prefix listedAt hsplit (h.wf.sorted n)
    have htop := h.top_suffix hn hsplit hkeep
    rw [← hrest] at htop
    exact ⟨h.deleteLTXFiles fun _ => htop, del, fun _ => id, hrest.symm ▸ hsplit, htop⟩
  · exact ⟨h, [], by simp, rfl, rfl⟩

/-- The cache stays coherent when no compaction level changes its end. -/
theorem coherent_of_top {files files' : Files} {cache : FileInfoCache}
    (h : cache.Coherent files)
    (htop : ∀ n, 0 < n → n < snapshotLevel → FileInfo.top (files' n) = FileInfo.top (files n)) :
    cache.Coherent files' := fun n info hpos hlt hinfo =>
  (h n info hpos hlt hinfo).trans (htop n hpos hlt).symm

end Maintenance

end Litestream
