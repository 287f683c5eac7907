import Litestream.Compaction.Maintenance

/-!
# The steps of maintenance

Each operation keeps the invariant and has the effect that `Effect` describes
(`step_effect`).  Two properties of levels follow from the effect alone.

* A level *continues* when the level above it can take up what it has past its own end.
  Every step keeps this at a level whose retention deletes only what the level above
  covers (`Effect.continues`).
* A level that tiles goes on tiling (`Effect.tiled`).
-/

namespace Litestream

/-- The file a compaction writes lies past the end of its level and within the level
below. -/
theorem Levels.compacted_spec {files : Files} {dstLevel : Nat} (h : Levels files)
    (hne : compactionSources files dstLevel ≠ []) (merged : Nat × Nat) :
    (compacted files dstLevel merged).Valid ∧
      FileInfo.top (files dstLevel) < (compacted files dstLevel merged).minTXID ∧
      (compacted files dstLevel merged).maxTXID ≤ FileInfo.top (files (dstLevel - 1)) := by
  have hmem : ∀ f ∈ compactionSources files dstLevel,
      f ∈ files (dstLevel - 1) ∧ FileInfo.top (files dstLevel) + 1 ≤ f.minTXID := fun f hf => by
    simpa [compactionSources] using hf
  have hv : ∀ f ∈ compactionSources files dstLevel, f.Valid := fun f hf =>
    h.wf.valid _ f (hmem f hf).1
  obtain ⟨⟨f, hf, hmin⟩, -, hmax⟩ := sourceRange_spec hne hv
  have hle : f.maxTXID ≤ FileInfo.top (compactionSources files dstLevel) := FileInfo.le_top hf
  have hfv := hv f hf
  have hlt : FileInfo.top (compactionSources files dstLevel) ≤ txidLimit - 1 :=
    Cover.top_le_iff.mpr fun g hg => Nat.le_sub_one_of_lt (hv g hg).max_lt
  refine ⟨⟨?_, ?_, ?_⟩, ?_, ?_⟩
  · simp only [compacted, hmin]
    exact hfv.one_le
  · simp only [compacted, hmin, hmax]
    exact Nat.le_trans hfv.min_le_max hle
  · simp only [compacted, hmax]
    exact Nat.lt_of_le_of_lt hlt (by decide)
  · simp only [compacted, hmin]
    exact (hmem f hf).2
  · simp only [compacted, hmax]
    exact Cover.top_le_iff.mpr fun g hg => FileInfo.le_top (hmem g hg).1

namespace Maintenance

variable {cfg : Config} {s s' : State} {a : Action}

/-! ## One lemma for each operation -/

theorem sync_effect {now : Nat} (h : s.Inv) (hs : step cfg s (.sync now) = some s') :
    s'.Inv ∧ Effect s s' (.sync now) := by
  simp only [step, Option.ite_none_right_eq_some, Option.some.injEq] at hs
  obtain ⟨hlt, rfl⟩ := hs
  have := h.uploaded_le
  have := h.snapshotted_le
  refine ⟨{ h with dbPos_lt := hlt, uploaded_le := ?_, snapshotted_le := ?_ },
    .same fun _ _ => rfl⟩
  · simp only
    omega
  · simp only
    omega

theorem upload_effect {size : Nat} (h : s.Inv) (hs : step cfg s (.upload size) = some s') :
    s'.Inv ∧ Effect s s' (.upload size) := by
  simp only [step, Option.ite_none_right_eq_some, Option.some.injEq] at hs
  obtain ⟨hlt, rfl⟩ := hs
  have hdb := h.dbPos_lt
  set info : FileInfo := ⟨0, s.uploaded + 1, s.uploaded + 1, size, s.created (s.uploaded + 1)⟩
    with hinfo
  have hmin : FileInfo.top (s.files 0) < info.minTXID := by
    rw [h.top_zero]
    exact Nat.lt_succ_self _
  have hv : info.Valid := ⟨Nat.succ_pos _, Nat.le_refl _, by simp only [hinfo]; omega⟩
  have hother : ∀ n, n ≠ 0 → s.files.writeLTXFile info n = s.files n := fun n hn =>
    Files.writeLTXFile_other (Ne.symm hn)
  refine ⟨⟨h.levels.append (n := 0) (by decide) rfl hv hmin (by simp), ?_, ?_, ?_, h.dbPos_lt,
    hlt, h.snapshotted_le, h.minSnapshot_le⟩, .uploaded rfl⟩
  · exact h.levels.top_writeLTXFile (show info.level = 0 from rfl) hmin (Nat.le_refl _)
  · exact (congrArg FileInfo.top (hother snapshotLevel (by decide))).trans h.top_snapshot
  · exact coherent_of_top h.cache fun n hpos _ => congrArg FileInfo.top (hother n (by omega))

theorem compact_effect {dstLevel : Nat} {merge : List FileInfo → Option (Nat × Nat)}
    (h : s.Inv) (hs : step cfg s (.compact dstLevel merge) = some s') :
    s'.Inv ∧ Effect s s' (.compact dstLevel merge) := by
  simp only [step, Option.ite_none_right_eq_some, Option.some.injEq] at hs
  obtain ⟨⟨hpos, hle⟩, hs⟩ := hs
  have hlt : dstLevel < snapshotLevel := Nat.lt_of_le_of_lt hle cfg.maxLevel_lt
  have hnext : FileInfo.top (s.files dstLevel) + 1 < txidLimit := by
    have := h.top_le hlt
    have := h.uploaded_le
    have := h.dbPos_lt
    omega
  rcases compact_spec merge h.cache hpos hlt hnext with
    ⟨err, cache', heq, hcoh⟩ | ⟨merged, cache', heq, hne, hmerge, hcache⟩
  · rw [heq] at hs
    subst hs
    exact ⟨{ h with cache := hcoh }, .same fun _ _ => rfl⟩
  · rw [heq] at hs
    subst hs
    obtain ⟨hv, hmin, hmax⟩ := h.levels.compacted_spec hne merged
    set info := compacted s.files dstLevel merged with hinfo
    have hother : ∀ n, n ≠ dstLevel → s.files.writeLTXFile info n = s.files n := fun n hn =>
      Files.writeLTXFile_other (Ne.symm hn)
    refine ⟨⟨h.levels.append hlt rfl hv hmin fun m hm => ?_, ?_, ?_, ?_, h.dbPos_lt,
      h.uploaded_le, h.snapshotted_le, h.minSnapshot_le⟩, .compacted hpos hlt hne hmerge rfl⟩
    · rw [hm, Nat.add_sub_cancel] at hmax
      exact hmax
    · exact (congrArg FileInfo.top (hother 0 (by omega))).trans h.top_zero
    · exact (congrArg FileInfo.top (hother snapshotLevel (by omega))).trans h.top_snapshot
    · intro n cached hn hn' hcached
      have hcn := hcache n cached hn hn' hcached
      by_cases hnd : n = dstLevel
      · subst hnd
        rw [if_pos rfl] at hcn
        rw [hcn]
        exact (h.levels.top_writeLTXFile rfl hmin hv.min_le_max).symm
      · rw [if_neg hnd] at hcn
        exact hcn.trans (congrArg FileInfo.top (hother n hnd)).symm

theorem snapshot_effect {size now : Nat} (h : s.Inv)
    (hs : step cfg s (.snapshot size now) = some s') :
    s'.Inv ∧ Effect s s' (.snapshot size now) := by
  simp only [step, Option.ite_none_right_eq_some, Option.some.injEq] at hs
  obtain ⟨hpos, rfl⟩ := hs
  set info : FileInfo := ⟨snapshotLevel, 1, s.dbPos, size, now⟩ with hinfo
  have hdb := h.dbPos_lt
  have hsn := h.snapshotted_le
  have hv : info.Valid := ⟨Nat.le_refl _, hpos, by simp only [hinfo]; omega⟩
  have hother : ∀ n, n ≠ snapshotLevel → s.files.writeLTXFile info n = s.files n := fun n hn =>
    Files.writeLTXFile_other (Ne.symm hn)
  have htop : FileInfo.top (s.files.writeLTXFile info snapshotLevel) = s.dbPos := by
    rw [Files.writeLTXFile_same rfl]
    refine Nat.le_antisymm (Cover.top_le_iff.mpr fun f hf => ?_) ?_
    · rcases mem_insertFile hf with rfl | hf
      · exact Nat.le_refl _
      · have := FileInfo.le_top hf
        rw [h.top_snapshot] at this
        omega
    · exact FileInfo.le_top (self_mem_insertFile info _)
  refine ⟨⟨h.levels.snapshot rfl hv rfl, ?_, htop, ?_, h.dbPos_lt, h.uploaded_le,
    Nat.le_refl _, Nat.le_trans h.minSnapshot_le hsn⟩, .same fun n hn => hother n (by omega)⟩
  · exact (congrArg FileInfo.top (hother 0 (by decide))).trans h.top_zero
  · intro n cached hn hn' hcached
    have hne : n ≠ snapshotLevel := Nat.ne_of_lt hn'
    have hcached : s.cache n = some cached := by
      simpa only [Function.update_of_ne hne] using hcached
    exact (h.cache n cached hn hn' hcached).trans (congrArg FileInfo.top (hother n hne)).symm

theorem enforceL0RetentionByTime_effect {threshold : Nat} {listedAt : FileInfo → Nat}
    {localModTime : FileInfo → Option Nat} (h : s.Inv)
    (hs : step cfg s (.enforceL0RetentionByTime threshold listedAt localModTime) = some s') :
    s'.Inv ∧ Effect s s' (.enforceL0RetentionByTime threshold listedAt localModTime) := by
  simp only [step, Option.some.injEq] at hs
  subst hs
  have hasc : FileInfo.Ascending ((s.files 0).map (FileInfo.stamp listedAt)) :=
    List.pairwise_map.mpr (h.levels.ascending 0 (by decide))
  have hvalid : ∀ f ∈ (s.files 0).map (FileInfo.stamp listedAt), f.Valid := fun f hf => by
    obtain ⟨g, hg, rfl⟩ := List.mem_map.mp hf
    exact ⟨(h.levels.wf.valid 0 g hg).one_le, (h.levels.wf.valid 0 g hg).min_le_max,
      (h.levels.wf.valid 0 g hg).max_lt⟩
  obtain ⟨⟨keep, hsplit, hkeep⟩, hdel⟩ :=
    enforceL0RetentionByTime_prefix threshold localModTime (s.files 1) hasc hvalid
  obtain ⟨del, keep, hsplit', hdel', rfl⟩ := List.map_eq_append_iff.mp hsplit
  have hkeep' : s.files 0 ≠ [] → keep ≠ [] := by simpa using hkeep
  obtain ⟨hlevels, del', hsub, hwhole, htop⟩ :=
    remove_prefix cfg listedAt h.levels (by decide) hsplit' hkeep'
  rw [← hdel'] at hdel ⊢
  have hother : ∀ n, n ≠ 0 →
      remove cfg s.files 0 (del.map (FileInfo.stamp listedAt)) n = s.files n :=
    fun n hn => remove_other hn
  refine ⟨⟨hlevels, htop.trans h.top_zero, ?_, coherent_of_top h.cache fun n hpos _ => ?_,
    h.dbPos_lt, h.uploaded_le, h.snapshotted_le, h.minSnapshot_le⟩,
    .prunedZero (fun f hf => ?_) hwhole htop hother⟩
  · exact (congrArg FileInfo.top (hother snapshotLevel (by decide))).trans h.top_snapshot
  · exact congrArg FileInfo.top (hother n (by omega))
  · exact hdel (FileInfo.stamp listedAt f) (List.mem_map_of_mem (hsub f hf))

/-- Snapshot retention keeps the newest snapshot. -/
theorem remove_keepNewest_top {files : Files} {marked : FileInfo → Bool}
    {listedAt : FileInfo → Nat} (h : Levels files) :
    FileInfo.top (remove cfg files snapshotLevel
      (keepNewest marked ((files snapshotLevel).map (FileInfo.stamp listedAt))) snapshotLevel) =
        FileInfo.top (files snapshotLevel) := by
  unfold remove
  split
  · rcases List.eq_nil_or_concat (files snapshotLevel) with hnil | ⟨fs, last, hfiles⟩
    · rw [Files.deleteLTXFiles_same, hnil]
      rfl
    · rw [List.concat_eq_append] at hfiles
      have hsorted := h.wf.sorted snapshotLevel
      have hmin := h.wf.snapshot_min
      rw [hfiles] at hsorted hmin
      have hlt : ∀ f ∈ fs, f.maxTXID < last.maxTXID := fun f hf => by
        have hlast := (List.pairwise_append.mp hsorted).2.2 f hf last (by simp)
        have := hmin f (by simp [hf])
        have := hmin last (by simp)
        simp only [FileInfo.KeyLT] at hlast
        omega
      refine Nat.le_antisymm (Cover.top_le_iff.mpr fun f hf =>
        FileInfo.le_top ((Files.deleteLTXFiles_sublist _).subset hf)) ?_
      have hlast : last ∈ files.deleteLTXFiles snapshotLevel
          (keepNewest marked ((files snapshotLevel).map (FileInfo.stamp listedAt)))
          snapshotLevel := by
        refine Files.mem_deleteLTXFiles (by simp [hfiles]) fun g hg hsame => ?_
        rw [hfiles, List.map_append, List.map_singleton, keepNewest_concat] at hg
        obtain ⟨f, hf, rfl⟩ := List.mem_map.mp (List.mem_filter.mp hg).1
        have := hlt f hf
        have : last.maxTXID = f.maxTXID := hsame.2
        omega
      refine Nat.le_trans ?_ (FileInfo.le_top hlast)
      rw [hfiles]
      refine Cover.top_le_iff.mpr fun f hf => ?_
      rcases List.mem_append.mp hf with hf | hf
      · exact Nat.le_of_lt (hlt f hf)
      · obtain rfl : f = last := by simpa using hf
        exact Nat.le_refl _
  · rfl

theorem enforceSnapshotRetention_effect {timestamp : Nat} {listedAt : FileInfo → Nat}
    (h : s.Inv) (hs : step cfg s (.enforceSnapshotRetention timestamp listedAt) = some s') :
    s'.Inv ∧ Effect s s' (.enforceSnapshotRetention timestamp listedAt) := by
  simp only [step, Option.some.injEq] at hs
  subst hs
  have hother : ∀ n deleted, n ≠ snapshotLevel →
      remove cfg s.files snapshotLevel deleted n = s.files n := fun n deleted hn =>
    remove_other hn
  refine ⟨⟨?_, ?_, ?_, ?_, h.dbPos_lt, h.uploaded_le, h.snapshotted_le, ?_⟩,
    .same fun n hn => hother n _ (by omega)⟩
  · simp only [remove]
    split
    · exact h.levels.deleteLTXFiles fun hlt => absurd hlt (by decide)
    · exact h.levels
  · exact (congrArg FileInfo.top (hother 0 _ (by decide))).trans h.top_zero
  · exact (remove_keepNewest_top h.levels).trans h.top_snapshot
  · exact coherent_of_top h.cache fun n _ hlt =>
      congrArg FileInfo.top (hother n _ (Nat.ne_of_lt hlt))
  · rcases enforceSnapshotRetention_floor timestamp
      ((s.files snapshotLevel).map (FileInfo.stamp listedAt)) with hzero | ⟨f, hf, hmax⟩
    · simp only [hzero]
      exact Nat.zero_le _
    · obtain ⟨g, hg, rfl⟩ := List.mem_map.mp hf
      simp only [hmax]
      exact h.top_snapshot ▸ FileInfo.le_top (f := g) hg

theorem enforceRetentionByTXID_effect {level : Nat} (h : s.Inv)
    (hs : step cfg s (.enforceRetentionByTXID level) = some s') :
    s'.Inv ∧ Effect s s' (.enforceRetentionByTXID level) := by
  simp only [step, Option.ite_none_right_eq_some, Option.some.injEq] at hs
  obtain ⟨⟨hpos, hle⟩, rfl⟩ := hs
  have hlt : level < snapshotLevel := Nat.lt_of_le_of_lt hle cfg.maxLevel_lt
  obtain ⟨⟨keep, hsplit, hkeep⟩, hdel⟩ := enforceRetentionByTXID_prefix s.minSnapshotTXID
    (h.levels.ascending level hlt) (h.levels.wf.valid level)
  obtain ⟨hlevels, del', hsub, hwhole, htop⟩ := remove_prefix cfg
    FileInfo.createdAt h.levels hlt hsplit hkeep
  have hstamp : (enforceRetentionByTXID s.minSnapshotTXID (s.files level)).map
      (FileInfo.stamp FileInfo.createdAt) =
        enforceRetentionByTXID s.minSnapshotTXID (s.files level) := List.map_id _
  rw [hstamp] at hlevels hwhole htop
  have hother : ∀ n, n ≠ level → remove cfg s.files level
      (enforceRetentionByTXID s.minSnapshotTXID (s.files level)) n = s.files n :=
    fun n hn => remove_other hn
  refine ⟨⟨hlevels, ?_, ?_, coherent_of_top h.cache fun n _ _ => ?_, h.dbPos_lt,
    h.uploaded_le, h.snapshotted_le, h.minSnapshot_le⟩,
    .prunedByTXID hpos hlt (fun f hf => hdel f (hsub f hf)) hwhole htop hother⟩
  · exact (congrArg FileInfo.top (hother 0 (by omega))).trans h.top_zero
  · exact (congrArg FileInfo.top (hother snapshotLevel (by omega))).trans h.top_snapshot
  · by_cases hn : n = level
    · subst hn
      exact htop
    · exact congrArg FileInfo.top (hother n hn)

/-- Every step keeps the invariant and has its effect. -/
theorem step_effect (h : s.Inv) (hs : step cfg s a = some s') : s'.Inv ∧ Effect s s' a := by
  cases a with
  | sync now => exact sync_effect h hs
  | upload size => exact upload_effect h hs
  | compact dstLevel merge => exact compact_effect h hs
  | snapshot size now => exact snapshot_effect h hs
  | enforceL0RetentionByTime threshold listedAt localModTime =>
      exact enforceL0RetentionByTime_effect h hs
  | enforceSnapshotRetention timestamp listedAt => exact enforceSnapshotRetention_effect h hs
  | enforceRetentionByTXID level => exact enforceRetentionByTXID_effect h hs

/-! ## Levels that continue and levels that tile -/

/-- What a level has past the end of the level above starts right after that end. -/
def Continues (files : Files) (n : Nat) : Prop :=
  FileInfo.Resumes (FileInfo.top (files (n + 1))) (files n)

/-- From a level that continues, a compaction makes the file that follows the end of the
level above and goes up to the end of the level. -/
theorem Continues.compacted_eq {files : Files} {n : Nat} (h : Levels files)
    (hc : Continues files n) (hn : n + 1 < snapshotLevel)
    (hne : compactionSources files (n + 1) ≠ []) (merged : Nat × Nat) :
    (compacted files (n + 1) merged).minTXID = FileInfo.top (files (n + 1)) + 1 ∧
      (compacted files (n + 1) merged).maxTXID = FileInfo.top (files n) := by
  have hsub : ∀ f ∈ compactionSources files (n + 1), f ∈ files n := fun f hf =>
    (List.mem_filter.mp hf).1
  have hv : ∀ f ∈ compactionSources files (n + 1), f.Valid := fun f hf =>
    h.wf.valid n f (hsub f hf)
  have htiled : FileInfo.Tiled (FileInfo.top (files (n + 1)))
      (compactionSources files (n + 1)) := hc.tiled_filter (h.min_le_max n)
  have hreach : FileInfo.reach (FileInfo.top (files (n + 1)))
      (compactionSources files (n + 1)) = FileInfo.top (files n) :=
    hc.reach_filter (h.min_le_max n) (h.top_le n hn)
  refine ⟨sourceRange_tiled hne hv htiled, ?_⟩
  have hend : FileInfo.reach (FileInfo.top (files (n + 1))) (compactionSources files (n + 1)) =
      max (FileInfo.top (files (n + 1))) (FileInfo.top (compactionSources files (n + 1))) :=
    htiled.reach_eq fun f hf => (hv f hf).min_le_max
  have hlt := (h.compacted_spec hne merged).2.1
  have hle := (h.compacted_spec hne merged).1.min_le_max
  simp only [compacted, (sourceRange_spec hne hv).2.2] at hlt hle ⊢
  omega

/-- A step keeps a level continuing, if its retention deletes only what the level above
covers and, for a level that compactions write to, the level below continues too. -/
theorem Effect.continues (h : s.Inv) (he : Effect s s' a) {n : Nat}
    (hn : n + 1 < snapshotLevel) (hc : Continues s.files n)
    (hbelow : ∀ m, n = m + 1 → Continues s.files m)
    (hcovered : a = .enforceRetentionByTXID n → ∀ f ∈ (s.files n).dropLast,
      f.maxTXID < s.minSnapshotTXID → f.maxTXID ≤ FileInfo.top (s.files (n + 1))) :
    Continues s'.files n := by
  have hmm := h.levels.min_le_max
  have htop := h.levels.top_le n hn
  unfold Continues at hc ⊢
  cases he with
  | same hsame => rwa [hsame n (by omega), hsame (n + 1) hn]
  | uploaded hfiles =>
      have hone : s'.files (n + 1) = s.files (n + 1) := by
        rw [hfiles]
        exact Files.writeLTXFile_other (by simp)
      rw [hone]
      by_cases h0 : n = 0
      · subst h0
        have hlt : FileInfo.top (s.files 0) < s.uploaded + 1 := by
          rw [h.top_zero]
          exact Nat.lt_succ_self _
        rw [hfiles, h.levels.writeLTXFile_append rfl hlt]
        exact hc.concat (hmm 0) htop (by rw [← h.top_zero])
      · have hnn : s'.files n = s.files n := by
          rw [hfiles]
          exact Files.writeLTXFile_other (by simp only; omega)
        rwa [hnn]
  | @compacted dstLevel _ merged hpos hlt hne _ hfiles =>
      obtain ⟨hv, hmin, -⟩ := h.levels.compacted_spec hne merged
      by_cases hup : dstLevel = n + 1
      · -- the level above has taken up everything
        subst hup
        have hmax := (Continues.compacted_eq h.levels hc hn hne merged).2
        have hnn : s'.files n = s.files n := by
          rw [hfiles]
          exact Files.writeLTXFile_other (by simp)
        rw [hfiles, h.levels.top_writeLTXFile (n := n + 1) rfl hmin hv.min_le_max, hmax,
          ← hfiles, hnn]
        exact Cover.resumes_of_top_le (Nat.le_refl _)
      · have hone : s'.files (n + 1) = s.files (n + 1) := by
          rw [hfiles]
          exact Files.writeLTXFile_other hup
        rw [hone]
        by_cases hd : dstLevel = n
        · subst hd
          obtain ⟨m, rfl⟩ : ∃ m, dstLevel = m + 1 := ⟨dstLevel - 1, by omega⟩
          have hmin' := ((hbelow m rfl).compacted_eq h.levels hlt hne merged).1
          rw [hfiles, h.levels.writeLTXFile_append (n := m + 1) rfl hmin]
          exact hc.concat (hmm _) htop hmin'
        · have hnn : s'.files n = s.files n := by
            rw [hfiles]
            exact Files.writeLTXFile_other hd
          rwa [hnn]
  | @prunedZero _ _ _ del hdel hsplit _ hother =>
      rw [hother (n + 1) (by omega)]
      by_cases h0 : n = 0
      · subst h0
        rw [hsplit] at hc
        refine hc.of_append (fun f hf => hmm 0 f ?_) fun f hf => ⟨hmm 0 f ?_, hdel f hf⟩
        · rw [hsplit]
          exact List.mem_append_right _ hf
        · rw [hsplit]
          exact List.mem_append_left _ hf
      · rwa [hother n h0]
  | @prunedByTXID level del hpos hlt hdel hsplit hend hother =>
      by_cases hd : level = n
      · subst hd
        rw [hother (level + 1) (by omega)]
        rw [hsplit] at hc
        refine hc.of_append (fun f hf => hmm level f ?_) fun f hf =>
          ⟨hmm level f ?_, hcovered rfl f (hdel f hf).1 (hdel f hf).2⟩
        · rw [hsplit]
          exact List.mem_append_right _ hf
        · rw [hsplit]
          exact List.mem_append_left _ hf
      · rw [hother n (Ne.symm hd)]
        by_cases hup : level = n + 1
        · subst hup
          rwa [hend]
        · rwa [hother (n + 1) (Ne.symm hup)]

/-- A step keeps a compaction level tiling.  The tiling starts where it did, at the first
transaction, or before the oldest snapshot kept. -/
theorem Effect.tiled (h : s.Inv) (he : Effect s s' a) {n cur : Nat}
    (hn : n + 1 < snapshotLevel) (hbelow : Continues s.files n)
    (ht : FileInfo.Tiled cur (s.files (n + 1))) :
    ∃ cur', FileInfo.Tiled cur' (s'.files (n + 1)) ∧
      (cur' = cur ∨ cur' = 0 ∨ cur' < s.minSnapshotTXID) := by
  have hmm := h.levels.min_le_max
  cases he with
  | same hsame => exact ⟨cur, by rwa [hsame (n + 1) hn], Or.inl rfl⟩
  | uploaded hfiles =>
      refine ⟨cur, ?_, Or.inl rfl⟩
      rw [hfiles, Files.writeLTXFile_other (by simp)]
      exact ht
  | @compacted dstLevel _ merged hpos hlt hne _ hfiles =>
      by_cases hd : dstLevel = n + 1
      · subst hd
        obtain ⟨-, hlt', -⟩ := h.levels.compacted_spec hne merged
        have hmin := (hbelow.compacted_eq h.levels hn hne merged).1
        rw [hfiles, h.levels.writeLTXFile_append (n := n + 1) rfl hlt']
        by_cases hnil : s.files (n + 1) = []
        · rw [hnil] at hmin ⊢
          exact ⟨0, ⟨hmin, trivial⟩, Or.inr (Or.inl rfl)⟩
        · refine ⟨cur, ht.concat ?_, Or.inl rfl⟩
          have hend := ht.reach_eq (hmm (n + 1))
          have hcur : cur ≤ Cover.top FileInfo.maxTXID (s.files (n + 1)) := by
            obtain ⟨f, hf⟩ := List.exists_mem_of_ne_nil _ hnil
            have := ht.lt_lo (hmm (n + 1)) f hf
            have := hmm (n + 1) f hf
            have : f.maxTXID ≤ Cover.top FileInfo.maxTXID (s.files (n + 1)) := FileInfo.le_top hf
            omega
          rw [hmin, hend, Nat.max_eq_right hcur]
      · refine ⟨cur, ?_, Or.inl rfl⟩
        rw [hfiles, Files.writeLTXFile_other hd]
        exact ht
  | prunedZero _ _ _ hother => exact ⟨cur, by rwa [hother (n + 1) (by omega)], Or.inl rfl⟩
  | @prunedByTXID level del hpos hlt hdel hsplit _ hother =>
      by_cases hd : level = n + 1
      · subst hd
        rw [hsplit] at ht
        obtain ⟨-, hrest⟩ := Cover.tiled_append.mp ht
        refine ⟨_, hrest, ?_⟩
        by_cases hnil : del = []
        · rw [hnil]
          exact Or.inl rfl
        · rw [Cover.reach_eq_getLast cur hnil]
          exact Or.inr (Or.inr (hdel _ (List.getLast_mem hnil)).2)
      · exact ⟨cur, by rwa [hother (n + 1) (Ne.symm hd)], Or.inl rfl⟩

end Maintenance

end Litestream
