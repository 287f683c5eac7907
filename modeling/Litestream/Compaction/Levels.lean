import Litestream.Compaction.Compactor

/-!
# What the operations do to a level

One lemma for each operation of `Compactor` and each retention of `DB`.

* A compaction adds one file to the destination, which covers what the source level has
  past the end of the destination (`compact_spec`).
* Retention by TXID and level 0 retention delete a prefix of an ascending level and keep
  its last file (`enforceRetentionByTXID_prefix`, `enforceL0RetentionByTime_prefix`).
* Snapshot retention keeps the newest snapshot, and what it returns is the end of a
  snapshot that it keeps (`enforceSnapshotRetention_floor`).
-/

namespace Litestream

open FileInfo (stamp)

/-! ## Scans of a listing -/

theorem maxTXIDOf_eq_top (infos : List FileInfo) : maxTXIDOf infos = FileInfo.top infos := by
  have h : ∀ m, infos.foldl
      (fun maxTXID info => if maxTXID < info.maxTXID then info.maxTXID else maxTXID) m =
        max m (FileInfo.top infos) := by
    induction infos with
    | nil => simp
    | cons f fs ih =>
        intro m
        rw [List.foldl_cons, ih, FileInfo.top, Cover.top_cons]
        split <;> omega
  rw [maxTXIDOf, h, Nat.zero_max]

theorem maxFileInfo_maxTXID (infos : List FileInfo) :
    (maxFileInfo infos).maxTXID = FileInfo.top infos := by
  have h : ∀ acc : FileInfo, (infos.foldl
      (fun info item => if info.maxTXID < item.maxTXID then item else info) acc).maxTXID =
        max acc.maxTXID (FileInfo.top infos) := by
    induction infos with
    | nil => simp
    | cons f fs ih =>
        intro acc
        rw [List.foldl_cons, ih, FileInfo.top, Cover.top_cons]
        split <;> omega
  rw [maxFileInfo, h]
  exact Nat.zero_max _

/-- The range of source files starts where one of them starts, no later than any, and ends
at the largest end. -/
theorem sourceRange_spec {infos : List FileInfo} (hne : infos ≠ [])
    (hv : ∀ f ∈ infos, f.Valid) :
    (∃ f ∈ infos, (sourceRange infos).1 = f.minTXID) ∧
      (∀ f ∈ infos, (sourceRange infos).1 ≤ f.minTXID) ∧
      (sourceRange infos).2 = FileInfo.top infos := by
  have hfold : ∀ (infos : List FileInfo) (a b : Nat), (∀ f ∈ infos, f.Valid) → 1 ≤ a →
      let range := infos.foldl (fun range info =>
        (if range.1 = 0 ∨ info.minTXID < range.1 then info.minTXID else range.1,
          if range.2 = 0 ∨ range.2 < info.maxTXID then info.maxTXID else range.2)) (a, b)
      (range.1 = a ∨ ∃ f ∈ infos, range.1 = f.minTXID) ∧ range.1 ≤ a ∧
        (∀ f ∈ infos, range.1 ≤ f.minTXID) ∧ range.2 = max b (FileInfo.top infos) := by
    intro infos
    induction infos with
    | nil => intro a b _ _; simp
    | cons f fs ih =>
        intro a b hv ha
        have hf := (hv f (by simp)).one_le
        simp only [List.foldl_cons]
        have hfs : ∀ g ∈ fs, g.Valid := fun g hg => hv g (by simp [hg])
        obtain ⟨hmem, hle, hall, htop⟩ := ih
          (if a = 0 ∨ f.minTXID < a then f.minTXID else a)
          (if b = 0 ∨ b < f.maxTXID then f.maxTXID else b) hfs (by split <;> omega)
        refine ⟨?_, ?_, ?_, ?_⟩
        · rcases hmem with hmem | ⟨g, hg, hmem⟩
          · rw [hmem]
            split
            · exact Or.inr ⟨f, by simp, rfl⟩
            · exact Or.inl rfl
          · exact Or.inr ⟨g, by simp [hg], hmem⟩
        · refine Nat.le_trans hle ?_
          split <;> omega
        · intro g hg
          rcases List.mem_cons.mp hg with rfl | hg
          · refine Nat.le_trans hle ?_
            split <;> omega
          · exact hall g hg
        · rw [htop, FileInfo.top, Cover.top_cons]
          split <;> omega
  obtain ⟨f, fs, rfl⟩ := List.exists_cons_of_ne_nil hne
  have hf := (hv f (by simp)).one_le
  obtain ⟨hmem, hle, hall, htop⟩ :=
    hfold fs f.minTXID f.maxTXID (fun g hg => hv g (by simp [hg])) hf
  have hstart : sourceRange (f :: fs) = fs.foldl (fun range info =>
      (if range.1 = 0 ∨ info.minTXID < range.1 then info.minTXID else range.1,
        if range.2 = 0 ∨ range.2 < info.maxTXID then info.maxTXID else range.2))
      (f.minTXID, f.maxTXID) := by
    simp [sourceRange]
  rw [hstart]
  refine ⟨?_, ?_, by rw [htop]; rfl⟩
  · rcases hmem with hmem | ⟨g, hg, hmem⟩
    · exact ⟨f, by simp, hmem⟩
    · exact ⟨g, by simp [hg], hmem⟩
  · intro g hg
    rcases List.mem_cons.mp hg with rfl | hg
    · exact hle
    · exact hall g hg

/-- The range of a tiling starts right after where the tiling starts. -/
theorem sourceRange_tiled {cur : Nat} {infos : List FileInfo} (hne : infos ≠ [])
    (hv : ∀ f ∈ infos, f.Valid) (h : FileInfo.Tiled cur infos) :
    (sourceRange infos).1 = cur + 1 := by
  obtain ⟨⟨f, hf, heq⟩, hle, -⟩ := sourceRange_spec hne hv
  have hlt := h.lt_lo (fun g hg => (hv g hg).min_le_max) f hf
  obtain ⟨g, gs, rfl⟩ := List.exists_cons_of_ne_nil hne
  have := hle g (by simp)
  have := h.1
  omega

/-- The loop of `verifyLevelConsistency` passes exactly when the files tile what follows
the first one. -/
theorem verifyFrom_eq_ok : ∀ {infos : List FileInfo} {prevInfo : FileInfo},
    (∀ f ∈ prevInfo :: infos, f.maxTXID + 1 < txidLimit) →
      (verifyFrom prevInfo infos = .ok () ↔ FileInfo.Tiled prevInfo.maxTXID infos)
  | [], _, _ => by simp [verifyFrom, FileInfo.Tiled, Cover.Tiled]
  | info :: infos, prevInfo, hlt => by
      have hnext := nextTXID_eq (hlt prevInfo (by simp))
      have ih := verifyFrom_eq_ok fun f hf => hlt f (List.mem_cons_of_mem _ hf)
      simp only [verifyFrom, hnext, FileInfo.Tiled, Cover.Tiled]
      by_cases hmin : info.minTXID = prevInfo.maxTXID + 1
      · simpa [hmin] using ih
      · rw [if_pos hmin]
        split <;> simp [hmin]

/-- A level is consistent exactly when its files tile from some TXID on. -/
theorem verifyLevelConsistency_eq_ok {infos : List FileInfo} (hv : ∀ f ∈ infos, f.Valid)
    (hlt : ∀ f ∈ infos, f.maxTXID + 1 < txidLimit) :
    verifyLevelConsistency infos = .ok () ↔ ∃ cur, FileInfo.Tiled cur infos := by
  cases infos with
  | nil => simp [verifyLevelConsistency, FileInfo.Tiled, Cover.Tiled]
  | cons info infos =>
      rw [verifyLevelConsistency, verifyFrom_eq_ok hlt]
      constructor
      · intro h
        have hone := (hv info (by simp)).one_le
        exact ⟨info.minTXID - 1, by omega, h⟩
      · rintro ⟨cur, -, h⟩
        exact h

/-! ## Compaction -/

/-- The cached last files of the compaction levels end where the levels end. -/
def FileInfoCache.Coherent (cache : FileInfoCache) (files : Files) : Prop :=
  ∀ n info, 0 < n → n < snapshotLevel → cache n = some info →
    info.maxTXID = FileInfo.top (files n)

theorem maxLTXFileInfo_spec {files : Files} {cache : FileInfoCache} {level : Nat}
    (h : cache.Coherent files) (hpos : 0 < level) (hlt : level < snapshotLevel) :
    (maxLTXFileInfo files cache level).1.maxTXID = FileInfo.top (files level) ∧
      (maxLTXFileInfo files cache level).2.Coherent files := by
  unfold maxLTXFileInfo
  cases hc : cache level with
  | some info => exact ⟨h level info hpos hlt hc, h⟩
  | none =>
      refine ⟨maxFileInfo_maxTXID _, fun n info hn hn' hinfo => ?_⟩
      simp only at hinfo
      split at hinfo
      · by_cases hnl : n = level
        · subst hnl
          obtain rfl : maxFileInfo (files n) = info := by simpa using hinfo
          exact maxFileInfo_maxTXID _
        · rw [Function.update_of_ne hnl] at hinfo
          exact h n info hn hn' hinfo
      · exact h n info hn hn' hinfo

/-- The files a compaction into a level reads. -/
def compactionSources (files : Files) (dstLevel : Nat) : List FileInfo :=
  (files (dstLevel - 1)).filter fun info => FileInfo.top (files dstLevel) + 1 ≤ info.minTXID

section
variable {merge : List FileInfo → Option (Nat × Nat)} {dstLevel : Nat} {files : Files}
  {cache : FileInfoCache}

/-- The file a compaction writes. -/
def compacted (files : Files) (dstLevel : Nat) (merged : Nat × Nat) : FileInfo :=
  ⟨dstLevel, (sourceRange (compactionSources files dstLevel)).1,
    (sourceRange (compactionSources files dstLevel)).2, merged.1, merged.2⟩

@[simp] theorem compacted_level (files : Files) (dstLevel : Nat) (merged : Nat × Nat) :
    (compacted files dstLevel merged).level = dstLevel := rfl

theorem compact_eq (hcache : cache.Coherent files) (hpos : 0 < dstLevel)
    (hlt : dstLevel < snapshotLevel) (hnext : FileInfo.top (files dstLevel) + 1 < txidLimit) :
    compact merge dstLevel files cache =
      if compactionSources files dstLevel = [] then
        (.error .noCompaction, files, (maxLTXFileInfo files cache dstLevel).2)
      else
        match merge (compactionSources files dstLevel) with
        | none => (.error .writeLTXFile, files, (maxLTXFileInfo files cache dstLevel).2)
        | some merged =>
            (.ok (compacted files dstLevel merged),
              files.writeLTXFile (compacted files dstLevel merged),
              Function.update (maxLTXFileInfo files cache dstLevel).2 dstLevel
                (some (compacted files dstLevel merged))) := by
  simp only [compact, compacted, compactionSources, (maxLTXFileInfo_spec hcache hpos hlt).1,
    nextTXID_eq hnext]
  congr 1
  cases merge _ <;> rfl

/-- A compaction writes one file that covers its sources, or it changes nothing but the
cache. -/
theorem compact_spec (merge : List FileInfo → Option (Nat × Nat)) (hcache : cache.Coherent files) (hpos : 0 < dstLevel)
    (hlt : dstLevel < snapshotLevel) (hnext : FileInfo.top (files dstLevel) + 1 < txidLimit) :
    (∃ err cache', compact merge dstLevel files cache = (.error err, files, cache') ∧
      cache'.Coherent files) ∨
    ∃ merged cache',
      compact merge dstLevel files cache = (.ok (compacted files dstLevel merged),
        files.writeLTXFile (compacted files dstLevel merged), cache') ∧
      compactionSources files dstLevel ≠ [] ∧
      merge (compactionSources files dstLevel) = some merged ∧
      ∀ n cached, 0 < n → n < snapshotLevel → cache' n = some cached →
        if n = dstLevel then cached = compacted files dstLevel merged
        else cached.maxTXID = FileInfo.top (files n) := by
  have hcoh := (maxLTXFileInfo_spec hcache hpos hlt).2
  rw [compact_eq hcache hpos hlt hnext]
  by_cases hne : compactionSources files dstLevel = []
  · rw [if_pos hne]
    exact Or.inl ⟨_, _, rfl, hcoh⟩
  rw [if_neg hne]
  cases hmerge : merge (compactionSources files dstLevel) with
  | none => exact Or.inl ⟨_, _, rfl, hcoh⟩
  | some merged =>
      refine Or.inr ⟨merged, _, rfl, hne, rfl, fun n cached hn hn' hcached => ?_⟩
      by_cases hnd : n = dstLevel
      · subst hnd
        rw [Function.update_self] at hcached
        rw [if_pos rfl]
        exact (Option.some.inj hcached).symm
      · rw [Function.update_of_ne hnd] at hcached
        rw [if_neg hnd]
        exact hcoh n cached hn hn' hcached

end

/-! ## Retention -/

theorem keepNewest_nil (marked : FileInfo → Bool) : keepNewest marked [] = [] := rfl

/-- The last file listed is never deleted. -/
theorem keepNewest_concat (marked : FileInfo → Bool) (infos : List FileInfo) (last : FileInfo) :
    keepNewest marked (infos ++ [last]) = infos.filter marked := by
  by_cases h : marked last = true <;> simp [keepNewest, h]

theorem keepNewest_map (listedAt : FileInfo → Nat) (marked : FileInfo → Bool)
    (infos : List FileInfo) :
    keepNewest marked (infos.map (stamp listedAt)) =
      (keepNewest (fun info => marked (stamp listedAt info)) infos).map (stamp listedAt) := by
  rcases List.eq_nil_or_concat infos with rfl | ⟨infos, last, rfl⟩
  · rfl
  · rw [List.concat_eq_append, List.map_append, List.map_singleton, keepNewest_concat,
      keepNewest_concat, List.filter_map]
    rfl

/-- A filter that takes every file before one it takes takes a prefix. -/
theorem filter_prefix {p : FileInfo → Bool} : ∀ {infos : List FileInfo},
    (infos.Pairwise fun f g => p g = true → p f = true) → ∃ rest, infos = infos.filter p ++ rest
  | [], _ => ⟨[], rfl⟩
  | f :: fs, h => by
      obtain ⟨hf, hfs⟩ := List.pairwise_cons.mp h
      by_cases hp : p f = true
      · obtain ⟨rest, hrest⟩ := filter_prefix hfs
        refine ⟨rest, ?_⟩
        rw [List.filter_cons_of_pos hp, List.cons_append, ← hrest]
      · refine ⟨f :: fs, ?_⟩
        rw [List.filter_cons_of_neg hp, List.filter_eq_nil_iff.mpr fun g hg hpg => hp (hf g hg hpg),
          List.nil_append]

/-- In an ascending list, the files that end by a TXID come first. -/
theorem ascending_maxTXID_le {infos : List FileInfo} (h : FileInfo.Ascending infos)
    (hv : ∀ f ∈ infos, f.Valid) : infos.Pairwise fun f g => f.maxTXID ≤ g.maxTXID :=
  h.imp_of_mem fun {f g} _ hg hlt => by
    have := (hv g hg).min_le_max
    omega

/-- Retention by TXID deletes a prefix of an ascending level, and keeps its last file. -/
theorem enforceRetentionByTXID_prefix {infos : List FileInfo} (txID : Nat)
    (h : FileInfo.Ascending infos) (hv : ∀ f ∈ infos, f.Valid) :
    (∃ keep, infos = enforceRetentionByTXID txID infos ++ keep ∧ (infos ≠ [] → keep ≠ [])) ∧
      ∀ f ∈ enforceRetentionByTXID txID infos, f ∈ infos.dropLast ∧ f.maxTXID < txID := by
  rcases List.eq_nil_or_concat infos with rfl | ⟨infos, last, rfl⟩
  · exact ⟨⟨[], by simp [enforceRetentionByTXID, keepNewest_nil]⟩,
      by simp [enforceRetentionByTXID, keepNewest_nil]⟩
  · rw [List.concat_eq_append] at h hv ⊢
    have hle := (List.pairwise_append.mp (ascending_maxTXID_le h hv)).1
    obtain ⟨rest, hrest⟩ := filter_prefix (p := fun info => decide (info.maxTXID < txID))
      (hle.imp fun {f g} hfg hg => by
        simp only [decide_eq_true_eq] at hg ⊢
        omega)
    rw [enforceRetentionByTXID, keepNewest_concat]
    refine ⟨⟨rest ++ [last], ?_, by simp⟩, by simp⟩
    conv_lhs => rw [hrest]
    rw [List.append_assoc]

/-- Level 0 retention deletes a prefix of an ascending level that level 1 covers, and keeps
its last file. -/
theorem enforceL0RetentionByTime_prefix {l0 : List FileInfo} (threshold : Nat)
    (localModTime : FileInfo → Option Nat) (l1 : List FileInfo)
    (h : FileInfo.Ascending l0) (hv : ∀ f ∈ l0, f.Valid) :
    (∃ keep, l0 = enforceL0RetentionByTime threshold localModTime l1 l0 ++ keep ∧
      (l0 ≠ [] → keep ≠ [])) ∧
      ∀ f ∈ enforceL0RetentionByTime threshold localModTime l1 l0,
        f.maxTXID ≤ FileInfo.top l1 := by
  unfold enforceL0RetentionByTime
  rw [maxTXIDOf_eq_top]
  by_cases hzero : FileInfo.top l1 = 0
  · rw [if_pos hzero]
    exact ⟨⟨l0, rfl, id⟩, by simp⟩
  rw [if_neg hzero]
  simp only
  set old := fun info : FileInfo =>
    decide ((if info.createdAt = 0 then (localModTime info).getD threshold
      else info.createdAt) ≤ threshold)
  set scanned := l0.takeWhile old with hscanned
  set covered := fun info : FileInfo => decide (info.maxTXID ≤ FileInfo.top l1)
  have hsplit : l0 = scanned ++ l0.dropWhile old := List.takeWhile_append_dropWhile.symm
  have hle : scanned.Pairwise fun f g => f.maxTXID ≤ g.maxTXID := by
    have := ascending_maxTXID_le h hv
    rw [hsplit] at this
    exact (List.pairwise_append.mp this).1
  obtain ⟨rest, hrest⟩ := filter_prefix (p := covered) (hle.imp fun {f g} hfg hg => by
    simp only [covered, decide_eq_true_eq] at hg ⊢
    omega)
  have hwhole : l0 = scanned.filter covered ++ (rest ++ l0.dropWhile old) := by
    rw [← List.append_assoc, ← hrest]
    exact hsplit
  have hcovered : ∀ f ∈ scanned.filter covered, f.maxTXID ≤ FileInfo.top l1 := fun f hf => by
    simpa [covered] using (List.mem_filter.mp hf).2
  split
  · next hall =>
      refine ⟨?_, fun f hf => hcovered f (List.dropLast_subset _ hf)⟩
      rcases List.eq_nil_or_concat (scanned.filter covered) with hnil | ⟨del, last, hdel⟩
      · rw [hnil]
        exact ⟨l0, rfl, id⟩
      · rw [List.concat_eq_append] at hdel
        refine ⟨last :: (rest ++ l0.dropWhile old), ?_, by simp⟩
        conv_lhs => rw [hwhole]
        rw [hdel, List.dropLast_concat, List.append_assoc, List.singleton_append]
  · next hall =>
      refine ⟨⟨_, hwhole, fun hne hkeep => hall ?_⟩, hcovered⟩
      -- nothing kept: everything was scanned and everything is covered
      rw [hkeep, List.append_nil] at hwhole
      have hlen : scanned.length = l0.length := by
        have h1 := congrArg List.length hwhole
        have h2 := List.length_filter_le covered scanned
        have h3 := congrArg List.length hsplit
        rw [List.length_append] at h3
        omega
      refine ⟨hlen, ?_⟩
      rw [List.getLast?_eq_some_getLast hne, Option.any_some, decide_eq_true_eq]
      exact hcovered _ (hwhole ▸ List.getLast_mem hne)

/-- What snapshot retention returns is zero or the end of a listed snapshot. -/
theorem enforceSnapshotRetention_floor (timestamp : Nat) (infos : List FileInfo) :
    (enforceSnapshotRetention timestamp infos).2 = 0 ∨
      ∃ f ∈ infos, (enforceSnapshotRetention timestamp infos).2 = f.maxTXID := by
  have hfold : ∀ (fs : List FileInfo) (m : Nat),
      fs.foldl (fun minSnapshotTXID info =>
        if minSnapshotTXID = 0 ∨ info.maxTXID < minSnapshotTXID then info.maxTXID
        else minSnapshotTXID) m = m ∨
      ∃ f ∈ fs, fs.foldl (fun minSnapshotTXID info =>
        if minSnapshotTXID = 0 ∨ info.maxTXID < minSnapshotTXID then info.maxTXID
        else minSnapshotTXID) m = f.maxTXID := by
    intro fs
    induction fs with
    | nil => intro m; exact Or.inl rfl
    | cons f fs ih =>
        intro m
        simp only [List.foldl_cons]
        rcases ih (if m = 0 ∨ f.maxTXID < m then f.maxTXID else m) with heq | ⟨g, hg, heq⟩
        · rw [heq]
          split
          · exact Or.inr ⟨f, by simp, rfl⟩
          · exact Or.inl rfl
        · exact Or.inr ⟨g, by simp [hg], heq⟩
  rcases hfold (infos.filter fun info => !decide (info.createdAt < timestamp)) 0 with h | ⟨f, hf, h⟩
  · exact Or.inl h
  · exact Or.inr ⟨f, (List.mem_filter.mp hf).1, h⟩

end Litestream
