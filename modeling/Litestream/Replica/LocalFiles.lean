import Mathlib
import Litestream.Compaction.Contents

/-!
# Local level 0 files

The level 0 retention of a database deletes files of the replica, and then its own copies of
them.  Meanwhile `Replica.Sync` reads local files to upload them, and the database takes its
position from the newest one.  `LocalFiles.step` splits the retention and the sync into the
parts between which the others may run.  A deletion may fail and leave any of the files, and
the process may stop at any point.

The retention works on listings that are out of date when it deletes.  It never deletes the
newest file of the listing, so all that it deletes was uploaded and is not the newest file
(`LocalFiles.Inv`).
-/

namespace Litestream

namespace LocalFiles

open Maintenance

/-! ## States -/

/-- Where a run of `Replica.Sync` is. -/
inductive SyncPhase where
  | idle
  /-- The position of the replica is known. -/
  | located
  /-- The position of the database has been read. -/
  | uploading (dpos : Nat)
  /-- A local file has been opened and is being written to the replica. -/
  | storing (dpos txID : Nat)
deriving DecidableEq

/-- Where a run of `EnforceL0RetentionByTime` is. -/
inductive RetentionPhase where
  | idle
  /-- Level 1 has been listed. -/
  | listed (l1 : List FileInfo)
  /-- The files to delete have been chosen. -/
  | deleting (deleted : List FileInfo)
  /-- The local copies of these files are left. -/
  | removing (deleted : List FileInfo)
deriving DecidableEq

structure State where
  /-- The replica.  Its `dbPos` and `uploaded` are not read. -/
  base : Maintenance.State
  /-- The local level 0 files. -/
  localFiles : List Nat
  /-- The cached position of the replica, zero if unknown. -/
  pos : Nat
  sync : SyncPhase
  retention : RetentionPhase

/-- A new database with an empty replica. -/
def State.empty : State := ⟨Maintenance.State.empty, [], 0, .idle, .idle⟩

inductive Action where
  /-- The database writes the next level 0 file. -/
  | dbSync (now : Nat)
  /-- `Replica.Sync` starts and computes its position if it is unknown. -/
  | start (listed : Bool)
  /-- `Replica.Sync` reads the position of the database. -/
  | readPos (read : Bool)
  /-- `Replica.Sync` opens the next local file. -/
  | openFile
  | store (size : Nat)
  /-- The upload fails, with the object stored in this size or not stored. -/
  | failStore (stored : Option Nat)
  /-- `Replica.Sync` returns nil. -/
  | finish
  | listL1
  /-- Lists level 0 and chooses the files to delete. -/
  | listL0 (threshold : Nat) (listedAt : FileInfo → Nat) (modTime : Nat → Nat)
  /-- Deletes the files from the replica, or some of them before it fails. -/
  | deleteLTXFiles (failed : Option (FileInfo → Bool))
  /-- Removes the next local copy, which may fail. -/
  | removeLocal (removed : Bool)
  /-- A compaction, a snapshot or another retention. -/
  | maintenance (a : Maintenance.Action)
  /-- The process stops and starts again. -/
  | restart

/-! ## Steps -/

/-- `MaxLTX`: the largest TXID of a local file. -/
def maxLTX (localFiles : List Nat) : Nat := Cover.top id localFiles

/-- The modification time of the local copy of a file. -/
def localModTime (localFiles : List Nat) (modTime : Nat → Nat) (info : FileInfo) : Option Nat :=
  if info.minTXID = info.maxTXID ∧ info.maxTXID ∈ localFiles then some (modTime info.maxTXID)
  else none

/-- Removes the local copy of a file. -/
def remove (localFiles : List Nat) (info : FileInfo) : List Nat :=
  localFiles.filter fun t => !decide (t = info.minTXID ∧ t = info.maxTXID)

/-- An error clears the cached position. -/
def State.fail (s : State) : State := { s with pos := 0, sync := .idle }

/-- Stores the file of a transaction on level 0 of the replica. -/
def State.stored (s : State) (txID size : Nat) : Maintenance.State :=
  { s.base with
    files := s.base.files.writeLTXFile ⟨0, txID, txID, size, s.base.created txID⟩
    uploaded := txID }

def step (cfg : Config) (s : State) : Action → Option State
  | .dbSync now =>
      (Maintenance.step cfg s.base (.sync now)).map fun base =>
        { s with base := base, localFiles := (maxLTX s.localFiles + 1) :: s.localFiles }
  | .start listed =>
      match s.sync with
      | .idle =>
          if s.pos ≠ 0 then some { s with sync := .located }
          else if listed then some { s with pos := maxTXIDOf (s.base.files 0), sync := .located }
          else some s.fail
      | _ => none
  | .readPos read =>
      match s.sync with
      | .located =>
          if read ∧ maxLTX s.localFiles ≠ 0 then
            some { s with sync := .uploading (maxLTX s.localFiles) }
          else some s.fail
      | _ => none
  | .openFile =>
      match s.sync with
      | .uploading dpos =>
          if s.pos + 1 ≤ dpos then
            if s.pos + 1 ∈ s.localFiles then some { s with sync := .storing dpos (s.pos + 1) }
            else some s.fail
          else none
      | _ => none
  | .store size =>
      match s.sync with
      | .storing dpos txID =>
          some { s with base := s.stored txID size, pos := txID, sync := .uploading dpos }
      | _ => none
  | .failStore stored =>
      match s.sync with
      | .storing _ txID =>
          match stored with
          | some size => some ({ s with base := s.stored txID size } : State).fail
          | none => some s.fail
      | _ => none
  | .finish =>
      match s.sync with
      | .uploading dpos => if dpos < s.pos + 1 then some { s with sync := .idle } else none
      | _ => none
  | .listL1 =>
      match s.retention with
      | .idle => some { s with retention := .listed (s.base.files 1) }
      | _ => none
  | .listL0 threshold listedAt modTime =>
      match s.retention with
      | .listed l1 =>
          let deleted := enforceL0RetentionByTime threshold (localModTime s.localFiles modTime) l1
            ((s.base.files 0).map (FileInfo.stamp listedAt))
          some { s with retention := if deleted = [] then .idle else .deleting deleted }
      | _ => none
  | .deleteLTXFiles failed =>
      match s.retention with
      | .deleting deleted =>
          if cfg.retentionEnabled = false then some { s with retention := .removing deleted }
          else
            match failed with
            | none =>
                some { s with
                  base := { s.base with files := s.base.files.deleteLTXFiles 0 deleted }
                  retention := .removing deleted }
            | some some' =>
                some { s with
                  base := { s.base with
                    files := s.base.files.deleteLTXFiles 0 (deleted.filter some') }
                  retention := .idle }
      | _ => none
  | .removeLocal removed =>
      match s.retention with
      | .removing (info :: rest) =>
          some { s with
            localFiles := if removed then remove s.localFiles info else s.localFiles
            retention := if rest = [] then .idle else .removing rest }
      | _ => none
  | .maintenance a =>
      match a with
      | .sync _ | .upload _ | .enforceL0RetentionByTime .. => none
      | a => (Maintenance.step cfg s.base a).map fun base => { s with base := base }
  | .restart => some { s with pos := 0, sync := .idle, retention := .idle }

/-! ## The invariant -/

/-- What holds of the phase of a sync. -/
def SyncInv (s : State) : Prop :=
  match s.sync with
  | .idle => True
  | .located => s.pos = s.base.uploaded
  | .uploading dpos => s.pos = s.base.uploaded ∧ dpos ≤ s.base.dbPos
  | .storing dpos txID =>
      s.pos = s.base.uploaded ∧ txID = s.pos + 1 ∧ txID ≤ dpos ∧ dpos ≤ s.base.dbPos

/-- The files to delete were uploaded before the last one, and level 1 has them. -/
def RetentionInv (s : State) : Prop :=
  match s.retention with
  | .idle => True
  | .listed l1 => FileInfo.top l1 ≤ FileInfo.top (s.base.files 1)
  | .deleting deleted | .removing deleted =>
      ∀ f ∈ deleted, f.maxTXID < s.base.uploaded ∧ f.maxTXID ≤ FileInfo.top (s.base.files 1)

structure Inv (s : State) : Prop where
  base : Restorable s.base
  localFiles_le : ∀ t ∈ s.localFiles, t ≤ s.base.dbPos
  /-- The last file that was uploaded and those that were not are there. -/
  localFiles : ∀ t, 0 < t → s.base.uploaded ≤ t → t ≤ s.base.dbPos → t ∈ s.localFiles
  pos : s.pos = 0 ∨ s.pos = s.base.uploaded
  sync : SyncInv s
  retention : RetentionInv s

theorem Inv.empty : Inv State.empty where
  base := Restorable.empty
  localFiles_le := by simp [State.empty]
  localFiles := fun t hpos _ hle => absurd hpos (Nat.not_lt.mpr hle)
  pos := .inl rfl
  sync := trivial
  retention := trivial

variable {cfg : Config} {s s' : State}

/-- The newest local file is that of the last transaction. -/
theorem Inv.maxLTX_eq (h : Inv s) : maxLTX s.localFiles = s.base.dbPos := by
  refine Nat.le_antisymm (Cover.top_le_iff.mpr h.localFiles_le) ?_
  by_cases h0 : s.base.dbPos = 0
  · rw [h0]
    exact Nat.zero_le _
  · have hmem := h.localFiles _ (Nat.pos_of_ne_zero h0) h.base.inv.uploaded_le le_rfl
    simpa only [maxLTX, id] using @Cover.le_top _ id _ _ hmem

/-- The position of the replica, if it is unknown, is computed right. -/
theorem Inv.calcPos (h : Inv s) : maxTXIDOf (s.base.files 0) = s.base.uploaded := by
  rw [maxTXIDOf_eq_top, h.base.inv.top_zero]

theorem Inv.fail (h : Inv s) : Inv s.fail where
  base := h.base
  localFiles_le := h.localFiles_le
  localFiles := h.localFiles
  pos := .inl rfl
  sync := trivial
  retention := h.retention

/-! ## The replica -/

/-- Level 1 never ends earlier than before. -/
theorem top_one_le {b b' : Maintenance.State} {a : Maintenance.Action} (h : b.Inv)
    (he : Effect b b' a) : FileInfo.top (b.files 1) ≤ FileInfo.top (b'.files 1) := by
  cases he with
  | same hsame => rw [hsame 1 (by decide)]
  | uploaded hfiles => rw [hfiles, Files.writeLTXFile_other (by simp)]
  | @compacted dstLevel _ merged hpos hlt hne _ hfiles =>
      obtain ⟨hv, hmin, -⟩ := h.levels.compacted_spec hne merged
      by_cases hd : dstLevel = 1
      · subst hd
        have hle := hv.min_le_max
        rw [hfiles, h.levels.top_writeLTXFile (n := 1) rfl hmin hle]
        omega
      · rw [hfiles, Files.writeLTXFile_other hd]
  | prunedZero _ _ _ hother => rw [hother 1 (by decide)]
  | @prunedByTXID level _ _ _ _ _ htop hother =>
      by_cases hd : level = 1
      · subst hd
        rw [htop]
      · rw [hother 1 (Ne.symm hd)]

/-- Deleting files that are not the newest and that level 1 has keeps a replica restorable. -/
theorem restorable_deleteLTXFiles {b : Maintenance.State} (h : Restorable b)
    {deleted : List FileInfo}
    (hdeleted : ∀ f ∈ deleted, f.maxTXID < b.uploaded ∧ f.maxTXID ≤ FileInfo.top (b.files 1)) :
    Restorable { b with files := b.files.deleteLTXFiles 0 deleted } := by
  have hother : ∀ n, n ≠ 0 → b.files.deleteLTXFiles 0 deleted n = b.files n := fun n hn =>
    Files.deleteLTXFiles_other (Ne.symm hn)
  have hsub : (b.files.deleteLTXFiles 0 deleted 0).Sublist (b.files 0) :=
    Files.deleteLTXFiles_sublist 0
  have htop : FileInfo.top (b.files.deleteLTXFiles 0 deleted 0) = FileInfo.top (b.files 0) := by
    refine Nat.le_antisymm (Cover.top_le_iff.mpr fun f hf => FileInfo.le_top (hsub.subset hf)) ?_
    rcases Nat.eq_zero_or_pos (FileInfo.top (b.files 0)) with hzero | hpos
    · rw [hzero]
      exact Nat.zero_le _
    · obtain ⟨f, hf, hmax⟩ := Cover.exists_top hpos
      have hmem : f ∈ b.files.deleteLTXFiles 0 deleted 0 :=
        Files.mem_deleteLTXFiles hf fun g hg hsame => by
          have hlt := (hdeleted g hg).1
          have htop := h.inv.top_zero
          rw [FileInfo.top, ← hmax, hsame.2] at htop
          omega
      exact hmax.symm.trans_le (FileInfo.le_top hmem)
  refine ⟨⟨h.inv.levels.deleteLTXFiles fun _ => htop, htop.trans h.inv.top_zero, ?_, ?_,
    h.inv.dbPos_lt, h.inv.uploaded_le, h.inv.snapshotted_le, h.inv.minSnapshot_le⟩, ?_, ?_⟩
  · exact (congrArg FileInfo.top (hother snapshotLevel (by decide))).trans h.inv.top_snapshot
  · exact coherent_of_top h.inv.cache fun n hpos _ =>
      congrArg FileInfo.top (hother n (Nat.ne_of_gt hpos))
  · -- only files that level 1 has are deleted
    have hone : FileInfo.top (b.files.deleteLTXFiles 0 deleted 1) = FileInfo.top (b.files 1) :=
      congrArg FileInfo.top (hother 1 (by decide))
    obtain ⟨pre, post, hsplit, hpre, htiled⟩ : FileInfo.Resumes (FileInfo.top (b.files 1))
      (b.files 0) := h.continues
    have hvalid := h.inv.levels.min_le_max 0
    rw [hsplit] at hvalid
    have hpost : ∀ f ∈ post, ∀ g ∈ deleted, ¬ f.SameName g := fun f hf g hg hsame => by
      have hlo := htiled.lt_lo (fun x hx => hvalid x (List.mem_append_right _ hx)) f hf
      have hle := hvalid f (List.mem_append_right _ hf)
      have hmax := (hdeleted g hg).2
      rw [← hsame.2] at hmax
      omega
    refine ⟨pre.filter fun f => !deleted.any fun g => decide (f.SameName g), post, ?_,
      fun f hf => ?_, ?_⟩
    · show b.files.deleteLTXFiles 0 deleted 0 = _
      rw [Files.deleteLTXFiles_same, hsplit, List.filter_append, List.append_cancel_left_eq,
        List.filter_eq_self]
      simpa using hpost
    · exact hone ▸ hpre f (List.mem_filter.mp hf).1
    · exact hone ▸ htiled
  · obtain ⟨cur, hcur, htiled⟩ := h.tiled
    exact ⟨cur, hcur, (hother 1 (by decide)).symm ▸ htiled⟩

/-- The next file of level 0 is stored as an upload stores it. -/
theorem stored_eq {size : Nat} (h : s.base.uploaded < s.base.dbPos) :
    Maintenance.step cfg s.base (.upload size) = some (s.stored (s.base.uploaded + 1) size) := by
  simp only [Maintenance.step, if_pos h]
  rfl

/-! ## One step -/

theorem Inv.dbSync (h : Inv s) {now : Nat} (hs : step cfg s (.dbSync now) = some s') : Inv s' := by
  obtain ⟨base, hbase, rfl⟩ := Option.map_eq_some_iff.mp hs
  have hrestorable := h.base.step hbase
  have hmax := h.maxLTX_eq
  simp only [Maintenance.step, Option.ite_none_right_eq_some, Option.some.injEq] at hbase
  obtain ⟨-, rfl⟩ := hbase
  refine ⟨hrestorable, fun t ht => ?_, fun t hpos hup hle => ?_, h.pos, ?_, h.retention⟩
  · rcases List.mem_cons.mp ht with rfl | ht
    · exact Nat.succ_le_succ hmax.le
    · exact Nat.le_succ_of_le (h.localFiles_le t ht)
  · rcases Nat.lt_or_eq_of_le hle with hlt | rfl
    · exact List.mem_cons_of_mem _ (h.localFiles t hpos hup (Nat.le_of_lt_succ hlt))
    · exact List.mem_cons.mpr (.inl (by rw [hmax]))
  · have hsync := h.sync
    simp only [SyncInv] at hsync ⊢
    cases hp : s.sync with
    | idle => trivial
    | located => rwa [hp] at hsync
    | uploading dpos =>
        rw [hp] at hsync
        exact ⟨hsync.1, Nat.le_succ_of_le hsync.2⟩
    | storing dpos txID =>
        rw [hp] at hsync
        exact ⟨hsync.1, hsync.2.1, hsync.2.2.1, Nat.le_succ_of_le hsync.2.2.2⟩

/-- A step of the sync that stores nothing. -/
theorem Inv.of_sync (h : Inv s) {pos : Nat} {sync : SyncPhase}
    (hpos : pos = 0 ∨ pos = s.base.uploaded)
    (hsync : SyncInv { s with pos := pos, sync := sync }) :
    Inv { s with pos := pos, sync := sync } where
  base := h.base
  localFiles_le := h.localFiles_le
  localFiles := h.localFiles
  pos := hpos
  sync := hsync
  retention := h.retention

/-- The object is stored, and the sync goes on or fails. -/
theorem Inv.of_stored (h : Inv s) {dpos txID size pos : Nat} {sync : SyncPhase}
    (hp : s.sync = .storing dpos txID) (hpos : pos = 0 ∨ pos = txID)
    (hsync : SyncInv { s with base := s.stored txID size, pos := pos, sync := sync }) :
    Inv { s with base := s.stored txID size, pos := pos, sync := sync } := by
  have hphase := h.sync
  simp only [SyncInv, hp] at hphase
  obtain ⟨hup, htx, hle, hdpos⟩ := hphase
  have hnext : txID = s.base.uploaded + 1 := by omega
  have hbase : Maintenance.step Maintenance.twoLevels s.base (.upload size) =
      some (s.stored txID size) := by
    rw [hnext]
    exact stored_eq (by omega)
  have hone : (s.stored txID size).files 1 = s.base.files 1 := by
    show s.base.files.writeLTXFile ⟨0, txID, txID, size, s.base.created txID⟩ 1 = _
    exact Files.writeLTXFile_other Nat.zero_ne_one
  refine ⟨h.base.step hbase, h.localFiles_le, fun t hpos hge hle => ?_, hpos, hsync, ?_⟩
  · have hge : txID ≤ t := hge
    exact h.localFiles t hpos (by omega) hle
  · have hretention := h.retention
    simp only [RetentionInv] at hretention ⊢
    rw [hone]
    cases hr : s.retention with
    | idle => trivial
    | listed l1 => rwa [hr] at hretention
    | deleting deleted | removing deleted =>
        rw [hr] at hretention
        intro f hf
        obtain ⟨hlt, htop⟩ := hretention f hf
        exact ⟨show f.maxTXID < txID by omega, htop⟩

/-- A step of the retention that deletes nothing. -/
theorem Inv.of_retention (h : Inv s) {retention : RetentionPhase}
    (hretention : RetentionInv { s with retention := retention }) :
    Inv { s with retention := retention } where
  base := h.base
  localFiles_le := h.localFiles_le
  localFiles := h.localFiles
  pos := h.pos
  sync := h.sync
  retention := hretention

/-- Files that were uploaded before the last one and that level 1 has are deleted from the
replica. -/
theorem Inv.of_deleted (h : Inv s) {deleted : List FileInfo} {retention : RetentionPhase}
    (hdeleted : ∀ f ∈ deleted,
      f.maxTXID < s.base.uploaded ∧ f.maxTXID ≤ FileInfo.top (s.base.files 1))
    (hretention : RetentionInv { s with retention := retention }) :
    Inv { s with
      base := { s.base with files := s.base.files.deleteLTXFiles 0 deleted }
      retention := retention } where
  base := restorable_deleteLTXFiles h.base hdeleted
  localFiles_le := h.localFiles_le
  localFiles := h.localFiles
  pos := h.pos
  sync := h.sync
  retention := by
    have hone : s.base.files.deleteLTXFiles 0 deleted 1 = s.base.files 1 :=
      Files.deleteLTXFiles_other (by decide)
    simp only [RetentionInv] at hretention ⊢
    rwa [hone]

theorem Inv.listL0 (h : Inv s) {l1 : List FileInfo} (hp : s.retention = .listed l1)
    (threshold : Nat) (listedAt : FileInfo → Nat) (modTime : FileInfo → Option Nat) :
    ∀ f ∈ enforceL0RetentionByTime threshold modTime l1
      ((s.base.files 0).map (FileInfo.stamp listedAt)),
      f.maxTXID < s.base.uploaded ∧ f.maxTXID ≤ FileInfo.top (s.base.files 1) := by
  have hlisted := h.retention
  simp only [RetentionInv, hp] at hlisted
  have hasc : FileInfo.Ascending ((s.base.files 0).map (FileInfo.stamp listedAt)) :=
    List.pairwise_map.mpr (h.base.inv.levels.ascending 0 (by decide))
  have hvalid : ∀ f ∈ (s.base.files 0).map (FileInfo.stamp listedAt), f.Valid := fun f hf => by
    obtain ⟨g, hg, rfl⟩ := List.mem_map.mp hf
    have hg := h.base.inv.levels.wf.valid 0 g hg
    exact ⟨hg.one_le, hg.min_le_max, hg.max_lt⟩
  obtain ⟨⟨keep, hsplit, hkeep⟩, hdel⟩ :=
    enforceL0RetentionByTime_prefix threshold modTime l1 hasc hvalid
  intro f hf
  refine ⟨?_, Nat.le_trans (hdel f hf) hlisted⟩
  -- the newest file of the listing is kept
  have hne : (s.base.files 0).map (FileInfo.stamp listedAt) ≠ [] := by
    refine List.ne_nil_of_mem (a := f) ?_
    rw [hsplit]
    exact List.mem_append_left _ hf
  obtain ⟨g, rest, rfl⟩ := List.exists_cons_of_ne_nil (hkeep hne)
  rw [hsplit] at hasc hvalid
  have hlt := (List.pairwise_append.mp hasc).2.2 f hf g List.mem_cons_self
  have hle := (hvalid g (List.mem_append_right _ List.mem_cons_self)).min_le_max
  have hmem : g ∈ (s.base.files 0).map (FileInfo.stamp listedAt) := by
    rw [hsplit]
    exact List.mem_append_right _ List.mem_cons_self
  obtain ⟨g', hg', rfl⟩ := List.mem_map.mp hmem
  have htop := FileInfo.le_top hg'
  rw [h.base.inv.top_zero] at htop
  exact Nat.lt_of_lt_of_le hlt (Nat.le_trans hle htop)

/-- The local copy of a file that was uploaded before the last one is removed. -/
theorem Inv.of_removed (h : Inv s) {info : FileInfo} (hinfo : info.maxTXID < s.base.uploaded)
    {retention : RetentionPhase} (hretention : RetentionInv { s with retention := retention }) :
    Inv { s with localFiles := remove s.localFiles info, retention := retention } where
  base := h.base
  localFiles_le := fun t ht => h.localFiles_le t (List.mem_filter.mp ht).1
  localFiles := fun t hpos hge hle => by
    refine List.mem_filter.mpr ⟨h.localFiles t hpos hge hle, ?_⟩
    have hge : s.base.uploaded ≤ t := hge
    simp only [Bool.not_eq_true', decide_eq_false_iff_not]
    omega
  pos := h.pos
  sync := h.sync
  retention := hretention

/-- Maintenance changes the files of the replica only. -/
theorem maintenance_spec {a : Maintenance.Action} (hs : step cfg s (.maintenance a) = some s') :
    ∃ base, Maintenance.step cfg s.base a = some base ∧ s' = { s with base := base } ∧
      base.dbPos = s.base.dbPos ∧ base.uploaded = s.base.uploaded := by
  cases a with
  | sync | upload | enforceL0RetentionByTime => cases hs
  | compact dstLevel merge =>
      simp only [step, Option.map_eq_some_iff] at hs
      obtain ⟨base, hbase, rfl⟩ := hs
      refine ⟨base, hbase, rfl, ?_⟩
      simp only [Maintenance.step, Option.ite_none_right_eq_some, Option.some.injEq] at hbase
      obtain ⟨-, rfl⟩ := hbase
      exact ⟨rfl, rfl⟩
  | snapshot size now =>
      simp only [step, Option.map_eq_some_iff] at hs
      obtain ⟨base, hbase, rfl⟩ := hs
      refine ⟨base, hbase, rfl, ?_⟩
      simp only [Maintenance.step, Option.ite_none_right_eq_some, Option.some.injEq] at hbase
      obtain ⟨-, rfl⟩ := hbase
      exact ⟨rfl, rfl⟩
  | enforceSnapshotRetention timestamp listedAt =>
      simp only [step, Option.map_eq_some_iff] at hs
      obtain ⟨base, hbase, rfl⟩ := hs
      refine ⟨base, hbase, rfl, ?_⟩
      simp only [Maintenance.step, Option.some.injEq] at hbase
      subst hbase
      exact ⟨rfl, rfl⟩
  | enforceRetentionByTXID level =>
      simp only [step, Option.map_eq_some_iff] at hs
      obtain ⟨base, hbase, rfl⟩ := hs
      refine ⟨base, hbase, rfl, ?_⟩
      simp only [Maintenance.step, Option.ite_none_right_eq_some, Option.some.injEq] at hbase
      obtain ⟨-, rfl⟩ := hbase
      exact ⟨rfl, rfl⟩

theorem Inv.maintenance (h : Inv s) {a : Maintenance.Action}
    (hs : step cfg s (.maintenance a) = some s') : Inv s' := by
  obtain ⟨base, hstep, rfl, hpos, hup⟩ := maintenance_spec hs
  have hone := top_one_le h.base.inv (step_effect h.base.inv hstep).2
  refine ⟨h.base.step hstep, fun t ht => hpos ▸ h.localFiles_le t ht, fun t ht hge hle =>
    h.localFiles t ht (hup ▸ hge) (hpos ▸ hle), hup.symm ▸ h.pos, ?_, ?_⟩
  · have hsync := h.sync
    simp only [SyncInv] at hsync ⊢
    rwa [hup, hpos]
  · have hretention := h.retention
    simp only [RetentionInv] at hretention ⊢
    rw [hup]
    cases hr : s.retention with
    | idle => trivial
    | listed l1 =>
        rw [hr] at hretention
        exact Nat.le_trans hretention hone
    | deleting deleted | removing deleted =>
        rw [hr] at hretention
        exact fun f hf => ⟨(hretention f hf).1, Nat.le_trans (hretention f hf).2 hone⟩

theorem Inv.step (h : Inv s) {a : Action} (hs : step cfg s a = some s') : Inv s' := by
  have hsync := h.sync
  have hretention := h.retention
  cases a with
  | dbSync now => exact h.dbSync hs
  | maintenance a => exact h.maintenance hs
  | start listed =>
      simp only [LocalFiles.step] at hs
      split at hs
      · split at hs
        · next hne =>
            cases hs
            have hpos : s.pos = s.base.uploaded := h.pos.resolve_left hne
            exact h.of_sync (.inr hpos) hpos
        · split at hs
          · cases hs
            exact h.of_sync (.inr h.calcPos) h.calcPos
          · cases hs
            exact h.fail
      · cases hs
  | readPos read =>
      simp only [LocalFiles.step] at hs
      split at hs
      · next hp =>
          split at hs
          · cases hs
            rw [SyncInv, hp] at hsync
            exact h.of_sync h.pos ⟨hsync, h.maxLTX_eq.le⟩
          · cases hs
            exact h.fail
      · cases hs
  | openFile =>
      simp only [LocalFiles.step] at hs
      split at hs
      · next dpos hp =>
          rw [SyncInv, hp] at hsync
          split at hs
          · next hle =>
              split at hs
              · cases hs
                exact h.of_sync h.pos ⟨hsync.1, rfl, hle, hsync.2⟩
              · cases hs
                exact h.fail
          · cases hs
      · cases hs
  | store size =>
      simp only [LocalFiles.step] at hs
      split at hs
      · next dpos txID hp =>
          cases hs
          rw [SyncInv, hp] at hsync
          exact h.of_stored hp (.inr rfl) ⟨rfl, hsync.2.2.2⟩
      · cases hs
  | failStore stored =>
      simp only [LocalFiles.step] at hs
      split at hs
      · next dpos txID hp =>
          split at hs
          · cases hs
            exact h.of_stored hp (.inl rfl) trivial
          · cases hs
            exact h.fail
      · cases hs
  | finish =>
      simp only [LocalFiles.step] at hs
      split at hs
      · split at hs
        · cases hs
          exact h.of_sync h.pos trivial
        · cases hs
      · cases hs
  | listL1 =>
      simp only [LocalFiles.step] at hs
      split at hs
      · cases hs
        exact h.of_retention (Nat.le_refl _)
      · cases hs
  | listL0 threshold listedAt modTime =>
      simp only [LocalFiles.step] at hs
      split at hs
      · next l1 hp =>
          cases hs
          refine h.of_retention ?_
          split
          · trivial
          · exact h.listL0 hp _ _ _
      · cases hs
  | deleteLTXFiles failed =>
      simp only [LocalFiles.step] at hs
      split at hs
      · next deleted hp =>
          rw [RetentionInv, hp] at hretention
          split at hs
          · cases hs
            exact h.of_retention hretention
          · split at hs
            · cases hs
              exact h.of_deleted hretention hretention
            · cases hs
              exact h.of_deleted (fun f hf => hretention f (List.mem_filter.mp hf).1) trivial
      · cases hs
  | removeLocal removed =>
      simp only [LocalFiles.step] at hs
      split at hs
      · next info rest hp =>
          cases hs
          rw [RetentionInv, hp] at hretention
          have hinfo := (hretention info List.mem_cons_self).1
          have hrest : RetentionInv
              { s with retention := if rest = [] then .idle else .removing rest } := by
            by_cases hnil : rest = []
            · rw [if_pos hnil]
              trivial
            · rw [if_neg hnil]
              exact fun f hf => hretention f (List.mem_cons_of_mem _ hf)
          cases removed with
          | true => exact h.of_removed hinfo hrest
          | false => exact h.of_retention hrest
      · cases hs
  | restart =>
      cases hs
      exact ⟨h.base, h.localFiles_le, h.localFiles, .inl rfl, trivial, trivial⟩

/-! ## Runs -/

/-- In every run, the retention leaves the database its position, and the sync finds every file
that it opens. -/
theorem localFiles_run (cfg : Config) {as : List Action}
    (hrun : Run.run (step cfg) State.empty as = some s) :
    maxLTX s.localFiles = s.base.dbPos ∧
      (∀ dpos, s.sync = .uploading dpos → s.pos + 1 ≤ dpos → s.pos + 1 ∈ s.localFiles) ∧
      Restorable s.base := by
  have h : Inv s := Run.run_invariant (fun h hs => h.step hs) Inv.empty hrun
  refine ⟨h.maxLTX_eq, fun dpos hp hle => ?_, h.base⟩
  have hsync := h.sync
  rw [SyncInv, hp] at hsync
  exact h.localFiles _ (Nat.succ_pos _) (by omega) (by omega)

/-- The uploads of a sync, with the sizes of the files. -/
def uploads (sizes : List Nat) : List Action := sizes.flatMap fun size => [.openFile, .store size]

/-- Without errors, the files up to the position of the database are uploaded one by one. -/
theorem run_uploads (cfg : Config) (h : Inv s) {sizes : List Nat}
    (hp : s.sync = .uploading s.base.dbPos)
    (hlen : s.base.uploaded + sizes.length = s.base.dbPos) :
    ∃ s', Run.run (step cfg) s (uploads sizes) = some s' ∧
      s'.sync = .uploading s'.base.dbPos ∧ s'.pos = s'.base.dbPos ∧
      s'.base.uploaded = s'.base.dbPos ∧ s'.base.dbPos = s.base.dbPos := by
  have hpos : s.pos = s.base.uploaded := by
    have hsync := h.sync
    rw [SyncInv, hp] at hsync
    exact hsync.1
  induction sizes generalizing s with
  | nil =>
      rw [List.length_nil, Nat.add_zero] at hlen
      exact ⟨s, rfl, hp, hpos.trans hlen, hlen, rfl⟩
  | cons size sizes ih =>
      rw [List.length_cons] at hlen
      have hmem : s.pos + 1 ∈ s.localFiles :=
        h.localFiles _ (Nat.succ_pos _) (by omega) (by omega)
      -- the file is opened, and stored
      have hopen : step cfg s .openFile =
          some { s with sync := .storing s.base.dbPos (s.pos + 1) } := by
        simp only [step, hp]
        rw [if_pos (by omega), if_pos hmem]
      have hstore : step cfg { s with sync := .storing s.base.dbPos (s.pos + 1) } (.store size) =
          some ⟨s.stored (s.pos + 1) size, s.localFiles, s.pos + 1, .uploading s.base.dbPos,
            s.retention⟩ := rfl
      obtain ⟨s', hrun, hs'⟩ := ih ((h.step hopen).step hstore) rfl
        (show s.pos + 1 + sizes.length = s.base.dbPos by omega) rfl
      exact ⟨s', Run.run_cons_eq_some.mpr ⟨_, hopen, Run.run_cons_eq_some.mpr ⟨_, hstore, hrun⟩⟩,
        hs'⟩

/-- Whatever happened before, a sync that meets no error uploads every file that is missing, and
then a restore of the latest state finds the last transaction. -/
theorem sync_catches_up (cfg : Config) {as : List Action}
    (hrun : Run.run (step cfg) State.empty as = some s) (hidle : s.sync = .idle)
    (hpos : 0 < s.base.dbPos) {sizes : List Nat}
    (hlen : sizes.length = s.base.dbPos - s.base.uploaded) :
    ∃ s', Run.run (step cfg) s
        (.start true :: .readPos true :: (uploads sizes ++ [.finish])) = some s' ∧
      s'.base.uploaded = s.base.dbPos ∧
      ∃ plan, calcRestorePlan s'.base.files.client 0 0 = .ok plan ∧
        FileInfo.sliceMaxTXID plan = s.base.dbPos := by
  have h : Inv s := Run.run_invariant (fun h hs => h.step hs) Inv.empty hrun
  have hup := h.base.inv.uploaded_le
  have hstart : step cfg s (.start true) =
      some { s with pos := s.base.uploaded, sync := .located } := by
    simp only [step, hidle, if_pos]
    by_cases h0 : s.pos = 0
    · rw [if_neg (not_not.mpr h0), h.calcPos]
    · rw [if_pos h0, ← h.pos.resolve_left h0]
  have hread : step cfg { s with pos := s.base.uploaded, sync := .located } (.readPos true) =
      some { s with pos := s.base.uploaded, sync := .uploading s.base.dbPos } := by
    simp only [step, h.maxLTX_eq]
    rw [if_pos ⟨trivial, Nat.ne_of_gt hpos⟩]
  obtain ⟨s₁, hrun₁, hp₁, hpos₁, huploaded, hdbPos⟩ := run_uploads cfg
    ((h.step hstart).step hread) rfl (show s.base.uploaded + sizes.length = s.base.dbPos by omega)
  have hdbPos : s₁.base.dbPos = s.base.dbPos := hdbPos
  have hfinish : step cfg s₁ .finish = some { s₁ with sync := .idle } := by
    simp only [step, hp₁]
    rw [if_pos (by omega)]
  have hI : Inv s₁ := Run.run_invariant (fun h hs => h.step hs) ((h.step hstart).step hread) hrun₁
  have hsnap := hI.base.inv.snapshotted_le
  have hhighest : s₁.base.highest = s.base.dbPos := by
    rw [Maintenance.State.highest, huploaded, Nat.max_eq_left hsnap, hdbPos]
  obtain ⟨plan, hplan, hend⟩ := hI.base.latest (hhighest ▸ hpos)
  refine ⟨{ s₁ with sync := .idle }, ?_, huploaded.trans hdbPos, plan, hplan,
    hend.trans hhighest⟩
  exact Run.run_cons_eq_some.mpr ⟨_, hstart, Run.run_cons_eq_some.mpr ⟨_, hread,
    Run.run_append_eq_some.mpr ⟨s₁, hrun₁, Run.run_cons_eq_some.mpr ⟨_, hfinish, rfl⟩⟩⟩⟩

/-! ## A retention during a sync -/

/-- Two transactions are compacted and a third one commits.  The retention lists files before
the third one is uploaded, and deletes the first one while a fourth one is. -/
def sampleActions : List Action :=
  [.dbSync 1, .dbSync 2, .start true, .readPos true, .openFile, .store 10, .openFile, .store 10,
    .finish, .maintenance (.compact 1 fun _ => some (20, 2)), .dbSync 3, .listL1, .start true,
    .readPos true, .listL0 5 FileInfo.createdAt id, .openFile, .store 10, .dbSync 4, .finish,
    .deleteLTXFiles none, .start true, .readPos true, .removeLocal true]

theorem localFiles_run_sample : ∃ s, Run.run (step twoLevels) State.empty sampleActions = some s ∧
    s.localFiles = [4, 3, 2] ∧ s.pos + 1 ∈ s.localFiles := by
  have hany : (Run.run (step twoLevels) State.empty sampleActions).any fun s =>
      decide (s.localFiles = [4, 3, 2] ∧ s.sync = .uploading 4 ∧ s.pos + 1 ≤ 4) := by
    decide +kernel
  obtain ⟨s, hrun, hs⟩ := (Option.any_eq_true _ _).mp hany
  obtain ⟨hlocal, hp, hle⟩ := of_decide_eq_true hs
  exact ⟨s, hrun, hlocal, (localFiles_run twoLevels hrun).2.1 4 hp hle⟩

/-- After the upload of the fourth file fails, the next sync uploads it. -/
theorem sync_catches_up_sample : ∃ s s',
    Run.run (step twoLevels) State.empty
      (sampleActions ++ [.openFile, .failStore none]) = some s ∧
      Run.run (step twoLevels) s
        (.start true :: .readPos true :: (uploads [10] ++ [.finish])) = some s' ∧
      s'.base.uploaded = 4 := by
  have hany : (Run.run (step twoLevels) State.empty
      (sampleActions ++ [.openFile, .failStore none])).any fun s =>
      decide (s.sync = .idle ∧ s.base.dbPos = 4 ∧
        [10].length = s.base.dbPos - s.base.uploaded) := by
    decide +kernel
  obtain ⟨s, hrun, hs⟩ := (Option.any_eq_true _ _).mp hany
  obtain ⟨hidle, hpos, hlen⟩ := of_decide_eq_true hs
  obtain ⟨s', hrun', huploaded, -⟩ := sync_catches_up twoLevels hrun hidle (by omega) hlen
  exact ⟨s, s', hrun, hrun', huploaded.trans hpos⟩

end LocalFiles

end Litestream
