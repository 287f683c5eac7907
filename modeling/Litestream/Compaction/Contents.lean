import Mathlib
import Litestream.Lib.Versions
import Litestream.Compaction.Restorability

/-!
# What maintenance stores

`Maintenance.step` moves the names of files.  Here each file has its pages too: a level 0
file has what a transaction changed, a compaction merges what its sources have, and a
snapshot has the database.

Whatever the order of the steps is, every file that is stored stays faithful to the history
of the database (`Holds`).  So any plan of the planner restores the database as of the last
transaction of the plan (`restore_of_run`).
-/

namespace Litestream

open Paged

variable {κ α : Type} [LinearOrder κ] {live : κ → Prop}

/-- Any plan is a chain of listed files. -/
theorem calcRestorePlan_chain (ls : Listings) {txID timestamp : Nat} {plan : List FileInfo}
    (h : calcRestorePlan ls.client txID timestamp = .ok plan) :
    plan ≠ [] ∧ FileInfo.Chain 0 plan ∧ ∀ f ∈ plan, ls.Listed f := by
  have hboth : ¬ (txID ≠ 0 ∧ timestamp ≠ 0) := by
    intro hboth
    rw [calcRestorePlan, if_pos hboth] at h
    cases h
  rcases calcRestorePlan_eq ls txID timestamp hboth with
    ⟨info, hmem, -, -, -, heq⟩ | ⟨s, hs, heq⟩
  · obtain rfl := Except.ok.inj (heq.symm.trans h)
    have hmin := ls.snapshot_min info hmem
    have hmax := ((ls.level snapshotLevel).valid info hmem).min_le_max
    refine ⟨List.cons_ne_nil _ _, ⟨by omega, by omega, trivial⟩, fun f hf => ?_⟩
    rw [List.mem_singleton.mp hf]
    exact ⟨snapshotLevel, le_rfl, hmem⟩
  · rw [heq] at h
    obtain ⟨rfl, hne, -, -⟩ := finishPlan_eq_ok.mp h
    exact ⟨hne, hs.chain, fun f hf => (hs.inv.mem f hf).1⟩

/-- The pages of files, as the LTX package reads and writes them.  `compact` merges files that
follow each other, and fails on any others. -/
structure Codec (live : κ → Prop) (α : Type) where
  compact : List (FileInfo × Patch κ α) → Option (Patch κ α)
  contiguous : ∀ file files, (compact (file :: files)).isSome ↔
    FileInfo.Chain file.1.maxTXID (files.map Prod.fst)
  merges : ∀ files p, compact files = some p → Merges live (files.map Prod.snd) p

namespace Codec

instance decidableChain :
    ∀ (cur : Nat) (files : List FileInfo), Decidable (FileInfo.Chain cur files)
  | _, [] => .isTrue trivial
  | _, file :: files =>
      have := decidableChain file.maxTXID files
      inferInstanceAs (Decidable (_ ∧ _ ∧ _))

/-- Merges files that follow each other by listing their pages, oldest first. -/
def concat (files : List (FileInfo × Patch κ α)) : Option (Patch κ α) :=
  match files with
  | [] => none
  | file :: rest =>
      if FileInfo.Chain file.1.maxTXID (rest.map Prod.fst) then
        some ⟨((rest.map Prod.snd).getLast?.getD file.2).size,
          ((file :: rest).map Prod.snd).flatMap Patch.pages⟩
      else none

theorem concat_merges {files : List (FileInfo × Patch κ α)} {p : Patch κ α}
    (h : concat files = some p) : Merges live (files.map Prod.snd) p := by
  cases files with
  | nil => cases h
  | cons file rest =>
      simp only [concat, Option.ite_none_right_eq_some, Option.some.injEq] at h
      obtain ⟨-, rfl⟩ := h
      refine ⟨?_, fun k _ _ => rfl⟩
      rw [List.map_cons, List.getLast?_cons, Option.map_some]

/-- A merged file may have old versions of a page in front of the newest one. -/
def listing (live : κ → Prop) (α : Type) : Codec live α where
  compact := concat
  contiguous file files := by simp [concat]
  merges _ _ h := concat_merges h

end Codec

namespace Maintenance

/-- The latest state can be restored once there is a file. -/
theorem Restorable.latest {s : State} (h : Restorable s) (hpos : 0 < s.highest) :
    ∃ plan, calcRestorePlan s.files.client 0 0 = .ok plan ∧
      FileInfo.sliceMaxTXID plan = s.highest := by
  obtain ⟨q, hmem, hlinked, hreach⟩ := h.linked
  have hlt : s.highest + 1 < txidLimit := by
    have := h.inv.dbPos_lt
    have := h.inv.uploaded_le
    have := h.inv.snapshotted_le
    rw [State.highest]
    omega
  obtain ⟨plan, hplan, hend⟩ := calcRestorePlan_latest_of_linked hlinked hmem hreach
    (fun f hf => h.inv.listed_le hf) hpos hlt
  exact ⟨plan, hplan, (FileInfo.sliceMaxTXID_eq_reach plan).trans hend⟩

/-- A replica whose files have pages. -/
structure Contents (κ α : Type) where
  base : State
  /-- The database after each transaction. -/
  version : Nat → Store κ α
  /-- The local level 0 file of each transaction. -/
  localFile : Nat → Patch κ α
  /-- The file of a level with a range. -/
  content : Nat → Nat → Nat → Patch κ α

/-- An operation on the replica, with the pages that it reads from the database. -/
inductive ContentsAction (κ α : Type) where
  /-- The database gets to a new version, and the level 0 file is written locally. -/
  | sync (now : Nat) (db : Store κ α) (patch : Patch κ α)
  | upload (size : Nat)
  /-- A compaction.  The upload fails, or gives the size and the timestamp of the file. -/
  | compact (dstLevel : Nat) (uploaded : Option (Nat × Nat))
  | snapshot (size now : Nat) (patch : Patch κ α)
  | enforceL0RetentionByTime (threshold : Nat) (listedAt : FileInfo → Nat)
      (localModTime : FileInfo → Option Nat)
  | enforceSnapshotRetention (timestamp : Nat) (listedAt : FileInfo → Nat)
  | enforceRetentionByTXID (level : Nat)

namespace Contents

/-- A file with its pages. -/
def opened (s : Contents κ α) (info : FileInfo) : FileInfo × Patch κ α :=
  (info, s.content info.level info.minTXID info.maxTXID)

/-- Stores the pages of a file. -/
def put (s : Contents κ α) (info : FileInfo) (p : Patch κ α) : Nat → Nat → Nat → Patch κ α :=
  fun level minTXID maxTXID =>
    if level = info.level ∧ minTXID = info.minTXID ∧ maxTXID = info.maxTXID then p
    else s.content level minTXID maxTXID

/-- Opens the source files, merges them and uploads the result. -/
def merge (codec : Codec live α) (s : Contents κ α) (uploaded : Option (Nat × Nat))
    (infos : List FileInfo) : Option (Nat × Nat) :=
  (codec.compact (infos.map s.opened)).bind fun _ => uploaded

/-- The source files of a compaction. -/
def sources (s : Contents κ α) (dstLevel : Nat) : List FileInfo :=
  let seekTXID := nextTXID (maxLTXFileInfo s.base.files s.base.cache dstLevel).1.maxTXID
  (s.base.files (dstLevel - 1)).filter fun info => seekTXID ≤ info.minTXID

def step (cfg : Config) (codec : Codec live α) (s : Contents κ α) :
    ContentsAction κ α → Option (Contents κ α)
  | .sync now db patch =>
      (Maintenance.step cfg s.base (.sync now)).map fun base =>
        { s with
          base := base
          version := Function.update s.version base.dbPos db
          localFile := Function.update s.localFile base.dbPos patch }
  | .upload size =>
      (Maintenance.step cfg s.base (.upload size)).map fun base =>
        { s with
          base := base
          content := s.put ⟨0, base.uploaded, base.uploaded, size, base.created base.uploaded⟩
            (s.localFile base.uploaded) }
  | .compact dstLevel uploaded =>
      let result := Litestream.compact (s.merge codec uploaded) dstLevel s.base.files s.base.cache
      (Maintenance.step cfg s.base (.compact dstLevel (s.merge codec uploaded))).map fun base =>
        match result.1, codec.compact ((s.sources dstLevel).map s.opened) with
        | .ok info, some p => { s with base := base, content := s.put info p }
        | _, _ => { s with base := base }
  | .snapshot size now patch =>
      (Maintenance.step cfg s.base (.snapshot size now)).map fun base =>
        { s with
          base := base
          content := s.put ⟨snapshotLevel, 1, s.base.dbPos, size, now⟩ patch }
  | .enforceL0RetentionByTime threshold listedAt localModTime =>
      (Maintenance.step cfg s.base
        (.enforceL0RetentionByTime threshold listedAt localModTime)).map fun base => { s with base }
  | .enforceSnapshotRetention timestamp listedAt =>
      (Maintenance.step cfg s.base (.enforceSnapshotRetention timestamp listedAt)).map fun base =>
        { s with base }
  | .enforceRetentionByTXID level =>
      (Maintenance.step cfg s.base (.enforceRetentionByTXID level)).map fun base => { s with base }

/-- The level 0 file that is written leads from one version of the database to the next, and a
snapshot has the version of its TXID. -/
def Written (live : κ → Prop) (s : Contents κ α) : ContentsAction κ α → Prop
  | .sync _ db patch => Updates live patch (s.version s.base.dbPos) db
  | .snapshot _ _ patch => Decodes live patch (s.version s.base.dbPos)
  | .upload _ | .compact .. | .enforceL0RetentionByTime .. | .enforceSnapshotRetention ..
  | .enforceRetentionByTXID _ => True

/-- A new database with an empty replica.  No file is there, so what `content` has is not
read. -/
structure Initial (live : κ → Prop) (s : Contents κ α) : Prop where
  base : s.base = State.empty
  version : ∀ k, live k → ¬ k ≤ (s.version 0).size

/-- Every file that is stored, and every one to be uploaded, is faithful to the history. -/
structure Holds (live : κ → Prop) (s : Contents κ α) : Prop where
  restorable : Restorable s.base
  version : ∀ k, live k → ¬ k ≤ (s.version 0).size
  localFile : ∀ t, 0 < t → t ≤ s.base.dbPos → Faithful live s.version t t (s.localFile t)
  content : ∀ n ≤ snapshotLevel, ∀ f ∈ s.base.files n,
    Faithful live s.version f.minTXID f.maxTXID (s.opened f).2

variable {cfg : Config} {codec : Codec live α} {s s' : Contents κ α} {base : State}

/-! ## Storing a file -/

/-- A file is faithful after another one is stored, in its place if the names are the same. -/
theorem faithful_put {H : Nat → Store κ α} {info f : FileInfo} {p : Patch κ α}
    (hp : Faithful live H info.minTXID info.maxTXID p)
    (hf : f = info ∨ Faithful live H f.minTXID f.maxTXID (s.opened f).2) :
    Faithful live H f.minTXID f.maxTXID (s.put info p f.level f.minTXID f.maxTXID) := by
  rw [put]
  split
  · next hname =>
      rw [hname.2.1, hname.2.2]
      exact hp
  · next hname =>
      rcases hf with rfl | hf
      · exact absurd ⟨rfl, rfl, rfl⟩ hname
      · exact hf

theorem mem_writeLTXFile {files : Files} {info f : FileInfo} {n : Nat}
    (h : f ∈ files.writeLTXFile info n) : f = info ∨ f ∈ files n := by
  by_cases hn : info.level = n
  · rw [Files.writeLTXFile_same hn] at h
    exact mem_insertFile h
  · rw [Files.writeLTXFile_other hn] at h
    exact .inr h

theorem mem_remove {files : Files} {level n : Nat} {deleted : List FileInfo} {f : FileInfo}
    (h : f ∈ remove cfg files level deleted n) : f ∈ files n := by
  rw [remove] at h
  split at h
  · exact (Files.deleteLTXFiles_sublist level).subset h
  · exact h

/-! ## One step -/

theorem Holds.initial (h : s.Initial live) : s.Holds live where
  restorable := by
    rw [h.base]
    exact Restorable.empty
  version := h.version
  localFile t hpos hle := by
    rw [h.base] at hle
    exact absurd hpos (Nat.not_lt.mpr hle)
  content n hn f hf := by
    rw [h.base] at hf
    cases hf

/-- A step that stores no file keeps what holds. -/
theorem Holds.of_base (h : s.Holds live) (hbase : Restorable base)
    (hpos : base.dbPos = s.base.dbPos) (hfiles : ∀ n, ∀ f ∈ base.files n, f ∈ s.base.files n) :
    Holds live { s with base := base } where
  restorable := hbase
  version := h.version
  localFile t hlt hle := h.localFile t hlt (hpos ▸ hle)
  content n hn f hf := h.content n hn f (hfiles n f hf)

/-- A step that stores a faithful file keeps what holds. -/
theorem Holds.of_put (h : s.Holds live) (hbase : Restorable base)
    (hpos : base.dbPos = s.base.dbPos) {info : FileInfo} {p : Patch κ α}
    (hp : Faithful live s.version info.minTXID info.maxTXID p)
    (hfiles : ∀ n, ∀ f ∈ base.files n, f = info ∨ f ∈ s.base.files n) :
    Holds live { s with base := base, content := s.put info p } where
  restorable := hbase
  version := h.version
  localFile t hlt hle := h.localFile t hlt (hpos ▸ hle)
  content n hn f hf := faithful_put hp ((hfiles n f hf).imp_right (h.content n hn f))

theorem Holds.sync (h : s.Holds live) {now : Nat} {db : Store κ α} {patch : Patch κ α}
    (hpatch : Updates live patch (s.version s.base.dbPos) db)
    (hs : s.step cfg codec (.sync now db patch) = some s') : s'.Holds live := by
  obtain ⟨base, hbase, rfl⟩ := Option.map_eq_some_iff.mp hs
  have hrestorable := h.restorable.step hbase
  simp only [Maintenance.step, Option.ite_none_right_eq_some, Option.some.injEq] at hbase
  obtain ⟨-, rfl⟩ := hbase
  have hold : ∀ t ≤ s.base.dbPos,
      Function.update s.version (s.base.dbPos + 1) db t = s.version t := fun t ht =>
    Function.update_of_ne (by omega) _ _
  refine ⟨hrestorable, ?_, fun t hpos hle => ?_, fun n hn f hf => ?_⟩
  · dsimp only
    rw [hold 0 (Nat.zero_le _)]
    exact h.version
  · dsimp only at hle ⊢
    by_cases ht : t = s.base.dbPos + 1
    · rw [ht, Function.update_self]
      refine Updates.faithful ?_
      rw [hold _ le_rfl, Function.update_self]
      exact hpatch
    · rw [Function.update_of_ne ht]
      exact (h.localFile t hpos (by omega)).congr fun u hu => hold u (by omega)
  · have hle := h.restorable.inv.listed_le (f := f) ⟨n, hn, hf⟩
    have hup := h.restorable.inv.uploaded_le
    have hsnap := h.restorable.inv.snapshotted_le
    refine (h.content n hn f hf).congr fun u hu => hold u ?_
    rw [State.highest] at hle
    omega

theorem Holds.upload (h : s.Holds live) {size : Nat}
    (hs : s.step cfg codec (.upload size) = some s') : s'.Holds live := by
  obtain ⟨base, hbase, rfl⟩ := Option.map_eq_some_iff.mp hs
  have hrestorable := h.restorable.step hbase
  simp only [Maintenance.step, Option.ite_none_right_eq_some, Option.some.injEq] at hbase
  obtain ⟨hlt, rfl⟩ := hbase
  exact h.of_put hrestorable rfl (h.localFile _ (Nat.succ_pos _) hlt) fun n f hf =>
    mem_writeLTXFile hf

theorem Holds.snapshot (h : s.Holds live) {size now : Nat} {patch : Patch κ α}
    (hpatch : Decodes live patch (s.version s.base.dbPos))
    (hs : s.step cfg codec (.snapshot size now patch) = some s') : s'.Holds live := by
  obtain ⟨base, hbase, rfl⟩ := Option.map_eq_some_iff.mp hs
  have hrestorable := h.restorable.step hbase
  simp only [Maintenance.step, Option.ite_none_right_eq_some, Option.some.injEq] at hbase
  obtain ⟨-, rfl⟩ := hbase
  exact h.of_put hrestorable rfl hpatch.faithful fun n f hf => mem_writeLTXFile hf

omit [LinearOrder κ] in
theorem sources_eq (h : s.base.Inv) {dstLevel : Nat} (hpos : 0 < dstLevel)
    (hlt : dstLevel < snapshotLevel) :
    s.sources dstLevel = compactionSources s.base.files dstLevel := by
  have hnext : FileInfo.top (s.base.files dstLevel) + 1 < txidLimit := by
    have := h.top_le hlt
    have := h.uploaded_le
    have := h.dbPos_lt
    omega
  rw [sources, (maxLTXFileInfo_spec h.cache hpos hlt).1, nextTXID_eq hnext, compactionSources]

/-- What a compaction merges is faithful to the range of the file that it writes. -/
theorem Holds.merged (h : s.Holds live) {dstLevel : Nat} (hlt : dstLevel < snapshotLevel)
    (hne : compactionSources s.base.files dstLevel ≠ []) {p : Patch κ α}
    (hp : codec.compact ((compactionSources s.base.files dstLevel).map s.opened) = some p)
    (merged : Nat × Nat) :
    Faithful live s.version (compacted s.base.files dstLevel merged).minTXID
      (compacted s.base.files dstLevel merged).maxTXID p := by
  have hmem : ∀ f ∈ compactionSources s.base.files dstLevel, f ∈ s.base.files (dstLevel - 1) :=
    fun f hf => (List.mem_filter.mp hf).1
  have hlevels := h.restorable.inv.levels
  have hv : ∀ f ∈ compactionSources s.base.files dstLevel, f.Valid := fun f hf =>
    hlevels.wf.valid _ f (hmem f hf)
  have hasc : FileInfo.Ascending (compactionSources s.base.files dstLevel) :=
    (hlevels.ascending _ (by omega)).sublist List.filter_sublist
  have hfaithful : ∀ f ∈ compactionSources s.base.files dstLevel,
      Faithful live s.version f.minTXID f.maxTXID (s.opened f).2 := fun f hf =>
    h.content _ (by omega) f (hmem f hf)
  have hmerges := codec.merges _ p hp
  rw [List.map_map] at hmerges
  rw [compacted]
  dsimp only
  generalize compactionSources s.base.files dstLevel = infos at *
  obtain ⟨first, rest, rfl⟩ := List.exists_cons_of_ne_nil hne
  have hfirst := hv first List.mem_cons_self
  have hone := hfirst.one_le
  have hle := hfirst.min_le_max
  -- the sources follow each other, or they would not be merged
  have hrest : FileInfo.Chain first.maxTXID rest := by
    have hsome := (codec.contiguous (s.opened first) (rest.map s.opened)).mp (by
      rw [← List.map_cons, hp, Option.isSome_some])
    rw [List.map_map] at hsome
    simpa [Function.comp_def, opened] using hsome
  have hchain : FileInfo.Chain (first.minTXID - 1) (first :: rest) :=
    ⟨by omega, by omega, hrest⟩
  have htiled : FileInfo.Tiled (first.minTXID - 1) (first :: rest) := by
    refine hchain.tiled hasc fun f hf => ?_
    rcases List.mem_cons.mp hf with rfl | hf
    · omega
    · have := (List.pairwise_cons.mp hasc).1 f hf
      omega
  have hmin := sourceRange_tiled hne hv htiled
  have hmax : (sourceRange (first :: rest)).2 =
      FileInfo.reach (first.minTXID - 1) (first :: rest) := by
    rw [(sourceRange_spec hne hv).2.2, FileInfo.reach,
      htiled.reach_eq fun f hf => (hv f hf).min_le_max]
    have := FileInfo.le_top (List.mem_cons_self (a := first) (l := rest))
    rw [FileInfo.top] at this ⊢
    omega
  rw [hmin, hmax]
  exact Faithful.merge hchain hne hfaithful hmerges

theorem Holds.compact (h : s.Holds live) {dstLevel : Nat} {uploaded : Option (Nat × Nat)}
    (hs : s.step cfg codec (.compact dstLevel uploaded) = some s') : s'.Holds live := by
  obtain ⟨base, hbase, rfl⟩ := Option.map_eq_some_iff.mp hs
  have hrestorable := h.restorable.step hbase
  have hinv := h.restorable.inv
  simp only [Maintenance.step, Option.ite_none_right_eq_some, Option.some.injEq] at hbase
  obtain ⟨⟨hpos, hle⟩, rfl⟩ := hbase
  have hlt : dstLevel < snapshotLevel := Nat.lt_of_le_of_lt hle cfg.maxLevel_lt
  have hnext : FileInfo.top (s.base.files dstLevel) + 1 < txidLimit := by
    have := hinv.top_le hlt
    have := hinv.uploaded_le
    have := hinv.dbPos_lt
    omega
  rcases compact_spec (s.merge codec uploaded) hinv.cache hpos hlt hnext with
    ⟨err, cache', heq, -⟩ | ⟨merged, cache', heq, hne, hmerge, -⟩
  · rw [heq] at hrestorable ⊢
    exact h.of_base hrestorable rfl fun n f hf => hf
  · obtain ⟨p, hp, -⟩ := Option.bind_eq_some_iff.mp hmerge
    rw [sources_eq hinv hpos hlt, hp]
    rw [heq] at hrestorable ⊢
    exact h.of_put hrestorable rfl (h.merged hlt hne hp merged) fun n f hf => mem_writeLTXFile hf

theorem Holds.step (h : s.Holds live) {a : ContentsAction κ α} (hwritten : s.Written live a)
    (hs : s.step cfg codec a = some s') : s'.Holds live := by
  cases a with
  | sync now db patch => exact h.sync hwritten hs
  | upload size => exact h.upload hs
  | compact dstLevel uploaded => exact h.compact hs
  | snapshot size now patch => exact h.snapshot hwritten hs
  | enforceL0RetentionByTime threshold listedAt localModTime =>
      rw [Contents.step] at hs
      obtain ⟨base, hbase, rfl⟩ := Option.map_eq_some_iff.mp hs
      have hrestorable := h.restorable.step hbase
      simp only [Maintenance.step, Option.some.injEq] at hbase
      subst hbase
      exact h.of_base hrestorable rfl fun n f hf => mem_remove hf
  | enforceSnapshotRetention timestamp listedAt =>
      rw [Contents.step] at hs
      obtain ⟨base, hbase, rfl⟩ := Option.map_eq_some_iff.mp hs
      have hrestorable := h.restorable.step hbase
      simp only [Maintenance.step, Option.some.injEq] at hbase
      subst hbase
      exact h.of_base hrestorable rfl fun n f hf => mem_remove hf
  | enforceRetentionByTXID level =>
      obtain ⟨base, hbase, rfl⟩ := Option.map_eq_some_iff.mp hs
      have hrestorable := h.restorable.step hbase
      simp only [Maintenance.step, Option.ite_none_right_eq_some, Option.some.injEq] at hbase
      obtain ⟨-, rfl⟩ := hbase
      exact h.of_base hrestorable rfl fun n f hf => mem_remove hf

/-- A sync adds the database to the history. -/
theorem version_of_sync {now : Nat} {db : Store κ α} {patch : Patch κ α}
    (hs : s.step cfg codec (.sync now db patch) = some s') :
    s'.version = Function.update s.version (s.base.dbPos + 1) db ∧
      s'.base.dbPos = s.base.dbPos + 1 := by
  obtain ⟨base, hbase, rfl⟩ := Option.map_eq_some_iff.mp hs
  simp only [Maintenance.step, Option.ite_none_right_eq_some, Option.some.injEq] at hbase
  obtain ⟨-, rfl⟩ := hbase
  exact ⟨rfl, rfl⟩

/-- Only a sync changes the history. -/
theorem version_of_step {a : ContentsAction κ α} (ha : ∀ now db patch, a ≠ .sync now db patch)
    (hs : s.step cfg codec a = some s') :
    s'.version = s.version ∧ s'.base.dbPos = s.base.dbPos := by
  cases a with
  | sync now db patch => exact absurd rfl (ha now db patch)
  | upload size =>
      obtain ⟨base, hbase, rfl⟩ := Option.map_eq_some_iff.mp hs
      simp only [Maintenance.step, Option.ite_none_right_eq_some, Option.some.injEq] at hbase
      exact ⟨rfl, by rw [← hbase.2]⟩
  | compact dstLevel uploaded =>
      obtain ⟨base, hbase, rfl⟩ := Option.map_eq_some_iff.mp hs
      simp only [Maintenance.step, Option.ite_none_right_eq_some, Option.some.injEq] at hbase
      obtain ⟨-, rfl⟩ := hbase
      split
      · exact ⟨rfl, rfl⟩
      · exact ⟨rfl, rfl⟩
  | snapshot size now patch =>
      obtain ⟨base, hbase, rfl⟩ := Option.map_eq_some_iff.mp hs
      simp only [Maintenance.step, Option.ite_none_right_eq_some, Option.some.injEq] at hbase
      exact ⟨rfl, by rw [← hbase.2]⟩
  | enforceL0RetentionByTime threshold listedAt localModTime =>
      rw [Contents.step] at hs
      obtain ⟨base, hbase, rfl⟩ := Option.map_eq_some_iff.mp hs
      simp only [Maintenance.step, Option.some.injEq] at hbase
      exact ⟨rfl, by rw [← hbase]⟩
  | enforceSnapshotRetention timestamp listedAt =>
      rw [Contents.step] at hs
      obtain ⟨base, hbase, rfl⟩ := Option.map_eq_some_iff.mp hs
      simp only [Maintenance.step, Option.some.injEq] at hbase
      exact ⟨rfl, by rw [← hbase]⟩
  | enforceRetentionByTXID level =>
      obtain ⟨base, hbase, rfl⟩ := Option.map_eq_some_iff.mp hs
      simp only [Maintenance.step, Option.ite_none_right_eq_some, Option.some.injEq] at hbase
      exact ⟨rfl, by rw [← hbase.2]⟩

/-! ## Restoring -/

/-- A plan restores the database as of its last transaction. -/
theorem Holds.restore (codec : Codec live α) (h : s.Holds live) {txID timestamp : Nat}
    {plan : List FileInfo}
    (hplan : calcRestorePlan s.base.files.client txID timestamp = .ok plan) :
    ∃ p, codec.compact (plan.map s.opened) = some p ∧
      Decodes live p (s.version (FileInfo.sliceMaxTXID plan)) := by
  obtain ⟨hne, hchain, hlisted⟩ :=
    calcRestorePlan_chain (s.base.files.listings h.restorable.inv.levels.wf) hplan
  obtain ⟨first, rest, rfl⟩ := List.exists_cons_of_ne_nil hne
  have hsome : (codec.compact ((first :: rest).map s.opened)).isSome := by
    rw [List.map_cons, codec.contiguous, List.map_map]
    simpa [Function.comp_def, opened] using hchain.2.2
  obtain ⟨p, hp⟩ := Option.isSome_iff_exists.mp hsome
  have hmerges := codec.merges _ p hp
  rw [List.map_map] at hmerges
  rw [FileInfo.sliceMaxTXID_eq_reach]
  refine ⟨p, hp, hmerges.decodes hchain hne (fun f hf => ?_) h.version⟩
  obtain ⟨n, hn, hmem⟩ := hlisted f hf
  exact h.content n hn f hmem

end Contents

/-- After any run of maintenance, any plan that the planner makes restores the database exactly
as of the last transaction of the plan, which is the target if there is one. -/
theorem restore_of_run (cfg : Config) (codec : Codec live α) {s₀ s : Contents κ α}
    {as : List (ContentsAction κ α)} (hinitial : s₀.Initial live)
    (hrun : Run.run (Contents.step cfg codec) s₀ as = some s)
    (hwritten : Run.Along (Contents.step cfg codec) (Contents.Written live) s₀ as)
    {txID timestamp : Nat} {plan : List FileInfo}
    (hplan : calcRestorePlan s.base.files.client txID timestamp = .ok plan) :
    (txID ≠ 0 → FileInfo.sliceMaxTXID plan = txID) ∧
      ∃ p, codec.compact (plan.map s.opened) = some p ∧
        Decodes live p (s.version (FileInfo.sliceMaxTXID plan)) ∧
        ∀ db, Decodes live p db →
          Store.Agree live db (s.version (FileInfo.sliceMaxTXID plan)) := by
  have h : s.Holds live := Run.run_induction (fun h hwritten hs => h.step hwritten hs)
    (Contents.Holds.initial hinitial) hwritten hrun
  refine ⟨fun htxID => ?_, ?_⟩
  · have htimestamp : timestamp = 0 := by
      by_contra hne
      rw [calcRestorePlan, if_pos ⟨htxID, hne⟩] at hplan
      cases hplan
    rw [htimestamp] at hplan
    rw [FileInfo.sliceMaxTXID_eq_reach]
    exact ((calcRestorePlan_txID (s.base.files.listings h.restorable.inv.levels.wf)
      (Nat.pos_of_ne_zero htxID)).2.1 plan hplan).1.reach
  · obtain ⟨p, hp, hdecodes⟩ := h.restore codec hplan
    exact ⟨p, hp, hdecodes, fun db hdb => hdb.agree hdecodes⟩

/-! ## A replica of three versions -/

namespace ThreeVersions

abbrev codec : Codec (fun k : Nat => k ≠ 0) Nat := .listing _ _

/-- No database, and an empty replica. -/
def start : Contents Nat Nat :=
  ⟨State.empty, fun _ => ⟨0, fun _ => 0⟩, fun _ => ⟨0, []⟩, fun _ _ _ => ⟨0, []⟩⟩

/-- A database of two pages.  The second transaction changes the first page, and the third one
drops the second page. -/
def syncs : List (ContentsAction Nat Nat) :=
  [.sync 1 ⟨2, fun _ => 5⟩ ⟨2, [(1, 5), (2, 5)]⟩,
    .sync 2 ⟨2, fun k => if k = 1 then 6 else 5⟩ ⟨2, [(1, 6)]⟩, .sync 4 ⟨1, fun _ => 6⟩ ⟨1, []⟩]

/-- The first two files are compacted, and then deleted. -/
def maintenance : List (ContentsAction Nat Nat) :=
  [.upload 10, .upload 10, .compact 1 (some (20, 1)), .upload 10,
    .enforceL0RetentionByTime 5 FileInfo.createdAt fun _ => none]

theorem initial : start.Initial (· ≠ 0) := ⟨rfl, fun _ hk hle => hk (Nat.le_zero.mp hle)⟩

theorem written_syncs : Run.Along (Contents.step twoLevels codec) (Contents.Written (· ≠ 0)) start
    (syncs ++ maintenance) := by
  refine (Run.along_cons_of_some rfl).mpr ⟨⟨rfl, fun k hk hle => .inl ?_⟩,
    (Run.along_cons_of_some rfl).mpr ⟨⟨rfl, fun k hk hle => ?_⟩,
      (Run.along_cons_of_some rfl).mpr ⟨⟨rfl, fun k hk hle => .inr ?_⟩, ?_⟩⟩⟩
  · obtain rfl | rfl : k = 1 ∨ k = 2 := by dsimp only at hle; omega
    · rfl
    · rfl
  · obtain rfl | rfl : k = 1 ∨ k = 2 := by dsimp only at hle; omega
    · exact .inl rfl
    · exact .inr ⟨rfl, le_rfl, rfl⟩
  · obtain rfl : k = 1 := by dsimp only at hle; omega
    exact ⟨rfl, by decide, rfl⟩
  · -- what follows writes no level 0 file
    have htrivial : ∀ a ∈ maintenance, ∀ s : Contents Nat Nat, s.Written (· ≠ 0) a := by
      simp [maintenance, Contents.Written]
    exact Run.along_of_invariant (I := fun _ => True) (fun _ _ _ => trivial)
      (fun _ hG => hG.1 _) trivial ((Run.along_and_iff htrivial).mpr (Run.along_true _ _))

end ThreeVersions

open ThreeVersions in
/-- The third transaction is restored from a compacted file and a level 0 file behind it. -/
theorem restore_of_run_sample : ∃ s,
    Run.run (Contents.step twoLevels codec) start (syncs ++ maintenance) = some s ∧
      ∃ plan p, calcRestorePlan s.base.files.client 3 0 = .ok plan ∧
        codec.compact (plan.map s.opened) = some p ∧ Decodes (· ≠ 0) p (s.version 3) := by
  obtain ⟨s, hrun, plan, hplan⟩ : ∃ s,
      Run.run (Contents.step twoLevels codec) start (syncs ++ maintenance) = some s ∧
        ∃ plan, calcRestorePlan s.base.files.client 3 0 = .ok plan :=
    ⟨_, rfl, [⟨1, 1, 2, 20, 1⟩, ⟨0, 3, 3, 10, 4⟩], by decide +kernel⟩
  obtain ⟨hend, p, hp, hdecodes, -⟩ :=
    restore_of_run twoLevels codec initial hrun written_syncs hplan
  exact ⟨s, hrun, plan, p, hplan, hp, hend (by decide) ▸ hdecodes⟩

end Maintenance

end Litestream
