import Litestream.Compaction.Levels

/-!
# The retention operations of `DB` and of `Compactor`

`DB` and `Compactor` each have a snapshot retention and a level 0 retention.  The loops of
`Compactor` are scans of a listing here, as the source has them.  What they delete is what
those of `DB` delete (`Compactor.enforceSnapshotRetention_eq`,
`Compactor.enforceL0Retention_eq`).

Level 0 retention deletes a prefix and keeps the level contiguous
(`enforceL0Retention_agree`).  Snapshot retention keeps the newest snapshot even if it is
expired, but does not count it when it looks for the least TXID kept: what it returns is
right exactly when some snapshot is not expired (`enforceSnapshotRetention_floor_iff`).
-/

namespace Litestream

/-! ## Snapshot retention of the compactor -/

/-- The variables of the loop. -/
structure SnapshotScan where
  deleted : List FileInfo
  lastInfo : Option FileInfo
  minSnapshotTXID : Nat

def SnapshotScan.next (timestamp : Nat) (s : SnapshotScan) (info : FileInfo) : SnapshotScan :=
  if info.createdAt < timestamp then
    { s with deleted := s.deleted ++ [info], lastInfo := some info }
  else
    { s with
      lastInfo := some info
      minSnapshotTXID :=
        if s.minSnapshotTXID = 0 ∨ info.maxTXID < s.minSnapshotTXID then info.maxTXID
        else s.minSnapshotTXID }

/-- Takes the newest file back if it is marked. -/
def keepLast (deleted : List FileInfo) (lastInfo : Option FileInfo) : List FileInfo :=
  if 0 < deleted.length ∧ deleted.getLast? = lastInfo then deleted.dropLast else deleted

namespace Compactor

/-- `Compactor.EnforceSnapshotRetention`: the snapshots to delete, and the TXID returned. -/
def enforceSnapshotRetention (now retention : Nat) (infos : List FileInfo) :
    List FileInfo × Nat :=
  let timestamp := now - retention
  let s := infos.foldl (SnapshotScan.next timestamp) ⟨[], none, 0⟩
  (keepLast s.deleted s.lastInfo, s.minSnapshotTXID)

end Compactor

/-- The least `MaxTXID` of the files, zero if there is none. -/
def minTXIDOf (m : Nat) (infos : List FileInfo) : Nat :=
  infos.foldl (fun minSnapshotTXID info =>
    if minSnapshotTXID = 0 ∨ info.maxTXID < minSnapshotTXID then info.maxTXID
    else minSnapshotTXID) m

section Snapshots

variable {timestamp : Nat} {infos : List FileInfo} {last : FileInfo}

theorem SnapshotScan.foldl_next (s : SnapshotScan) :
    infos.foldl (SnapshotScan.next timestamp) s =
      ⟨s.deleted ++ infos.filter (fun info => decide (info.createdAt < timestamp)),
        infos.getLast?.or s.lastInfo,
        minTXIDOf s.minSnapshotTXID
          (infos.filter fun info => !decide (info.createdAt < timestamp))⟩ := by
  induction infos generalizing s with
  | nil => simp [minTXIDOf]
  | cons info infos ih =>
      rw [List.foldl_cons, ih, SnapshotScan.next, List.getLast?_cons]
      have hlast : infos.getLast?.or (some info) = some (infos.getLast?.getD info) := by
        cases infos.getLast? <;> rfl
      by_cases hold : info.createdAt < timestamp
      · simp [hold, hlast]
      · simp [hold, hlast, minTXIDOf]

/-- Taking the newest file back if it is marked leaves the marked files before it. -/
theorem keepLast_filter (marked : FileInfo → Bool) :
    keepLast (infos.filter marked) infos.getLast? = keepNewest marked infos := by
  rcases List.eq_nil_or_concat infos with rfl | ⟨infos, last, rfl⟩
  · rfl
  · rw [List.concat_eq_append, keepNewest_concat, keepLast, List.filter_append,
      List.getLast?_concat]
    by_cases hlast : marked last = true
    · simp [hlast]
    · have hne : (infos.filter marked).getLast? ≠ some last := fun h =>
        hlast (List.of_mem_filter (List.mem_of_getLast? h))
      rw [List.filter_cons_of_neg hlast, List.filter_nil, List.append_nil, if_neg fun h => hne h.2]

theorem Compactor.enforceSnapshotRetention_eq (now retention : Nat) (infos : List FileInfo) :
    Compactor.enforceSnapshotRetention now retention infos =
      Litestream.enforceSnapshotRetention (now - retention) infos := by
  rw [Compactor.enforceSnapshotRetention, SnapshotScan.foldl_next]
  simp only [List.nil_append, Option.or_none]
  rw [keepLast_filter]
  rfl

/-! ### The least TXID -/

theorem minTXIDOf_cons (info : FileInfo) (infos : List FileInfo) (m : Nat) :
    minTXIDOf m (info :: infos) =
      minTXIDOf (if m = 0 ∨ info.maxTXID < m then info.maxTXID else m) infos := rfl

/-- From a TXID on, the scan finds the least of it and those of the files. -/
theorem isLeast_minTXIDOf {m : Nat} (hm : 0 < m) (hpos : ∀ f ∈ infos, 0 < f.maxTXID) :
    IsLeast (insert m (FileInfo.maxTXID '' { f | f ∈ infos })) (minTXIDOf m infos) := by
  induction infos generalizing m with
  | nil => simp [minTXIDOf]
  | cons info infos ih =>
      have hinfo := hpos info List.mem_cons_self
      rw [minTXIDOf_cons, show (if m = 0 ∨ info.maxTXID < m then info.maxTXID else m) =
        min m info.maxTXID by split <;> omega]
      obtain ⟨hmem, hle⟩ := ih (show 0 < min m info.maxTXID by omega)
        fun f hf => hpos f (List.mem_cons_of_mem _ hf)
      have hfirst := hle (Set.mem_insert _ _)
      refine ⟨?_, ?_⟩
      · rcases hmem with hmem | ⟨f, hf, hmem⟩
        · rcases Nat.le_total m info.maxTXID with h | h
          · exact Or.inl (by omega)
          · exact Or.inr ⟨info, List.mem_cons_self, by omega⟩
        · exact Or.inr ⟨f, List.mem_cons_of_mem _ hf, hmem⟩
      · rintro t (rfl | ⟨f, hf, rfl⟩)
        · omega
        · rcases List.mem_cons.mp hf with rfl | hf
          · omega
          · exact hle (Set.mem_insert_of_mem _ ⟨f, hf, rfl⟩)

/-- From zero on, the scan finds the least TXID of the files. -/
theorem isLeast_minTXIDOf_zero (hne : infos ≠ []) (hpos : ∀ f ∈ infos, 0 < f.maxTXID) :
    IsLeast (FileInfo.maxTXID '' { f | f ∈ infos }) (minTXIDOf 0 infos) := by
  obtain ⟨info, infos, rfl⟩ := List.exists_cons_of_ne_nil hne
  have h := isLeast_minTXIDOf (hpos info List.mem_cons_self)
    fun f hf => hpos f (List.mem_cons_of_mem _ hf)
  have hset : insert info.maxTXID (FileInfo.maxTXID '' { f | f ∈ infos }) =
      FileInfo.maxTXID '' { f | f ∈ info :: infos } := by
    ext t
    simp [eq_comm]
  rwa [hset] at h

/-! ### What is left -/

/-- The snapshots of a replica in the order listed: each covers the database from its first
transaction, and no two have one name. -/
structure Snapshots (infos : List FileInfo) : Prop where
  sorted : infos.Pairwise FileInfo.KeyLT
  valid : ∀ f ∈ infos, f.Valid
  snapshot_min : ∀ f ∈ infos, f.minTXID = 1

theorem Snapshots.maxTXID_lt (h : Snapshots (infos ++ [last])) {f : FileInfo} (hf : f ∈ infos) :
    f.maxTXID < last.maxTXID := by
  have hlt := (List.pairwise_append.mp h.sorted).2.2 f hf last List.mem_cons_self
  have hmin := h.snapshot_min f (List.mem_append_left _ hf)
  have hmin' := h.snapshot_min last (by simp)
  unfold FileInfo.KeyLT at hlt
  omega

/-- A name names one file of a listing. -/
theorem eq_of_sameName (h : infos.Pairwise FileInfo.KeyLT) {f g : FileInfo} (hf : f ∈ infos)
    (hg : g ∈ infos) (hname : f.SameName g) : f = g := by
  have hpair : infos.Pairwise fun f g => f.SameName g → f = g :=
    h.imp fun hlt hname => absurd hname hlt.not_sameName
  have hflip : infos.Pairwise fun f g => g.SameName f → g = f :=
    h.imp fun hlt hname => absurd ⟨hname.1.symm, hname.2.symm⟩ hlt.not_sameName
  exact List.Pairwise.forall_of_forall_of_flip (fun _ _ _ => rfl) hpair hflip hf hg hname

/-- The newest snapshot and those that are not marked are left. -/
theorem deleteLTXFiles_keepNewest {files : Files} {level : Nat} (marked : FileInfo → Bool)
    (hfiles : files level = infos ++ [last]) (h : (files level).Pairwise FileInfo.KeyLT) :
    files.deleteLTXFiles level (keepNewest marked (files level)) level =
      infos.filter (fun f => !marked f) ++ [last] := by
  rw [hfiles] at h
  have hdeleted : ∀ f ∈ infos ++ [last], ((infos.filter marked).any fun g =>
      decide (f.SameName g)) = (decide (f ∈ infos) && marked f) := by
    intro f hf
    rw [Bool.eq_iff_iff, List.any_eq_true]
    simp only [decide_eq_true_eq, Bool.and_eq_true, List.mem_filter]
    constructor
    · rintro ⟨g, ⟨hg, hmarked⟩, hname⟩
      rw [eq_of_sameName h hf (List.mem_append_left _ hg) hname]
      exact ⟨hg, hmarked⟩
    · rintro ⟨hmem, hmarked⟩
      exact ⟨f, ⟨hmem, hmarked⟩, rfl, rfl⟩
  have hlast : last ∉ infos := fun hmem =>
    ((List.pairwise_append.mp h).2.2 last hmem last List.mem_cons_self).not_sameName ⟨rfl, rfl⟩
  rw [Files.deleteLTXFiles_same, hfiles, keepNewest_concat, List.filter_append]
  congr 1
  · refine List.filter_congr fun f hf => ?_
    rw [hdeleted f (List.mem_append_left _ hf)]
    simp [hf]
  · rw [List.filter_singleton, hdeleted last (by simp)]
    simp [hlast]

/-- Retention keeps the newest snapshot and returns the least TXID of the snapshots left. -/
structure SafeFloor (files : Files) (result : List FileInfo × Nat) : Prop where
  newest : ∀ last ∈ (files snapshotLevel).getLast?,
    last ∈ files.deleteLTXFiles snapshotLevel result.1 snapshotLevel
  floor : files snapshotLevel ≠ [] →
    IsLeast (FileInfo.maxTXID '' { f | f ∈ files.deleteLTXFiles snapshotLevel result.1
      snapshotLevel }) result.2

/-- Snapshot retention never deletes the newest snapshot. -/
theorem enforceSnapshotRetention_newest {files : Files} (h : Snapshots (files snapshotLevel))
    (timestamp : Nat) : ∀ last ∈ (files snapshotLevel).getLast?,
      last ∈ files.deleteLTXFiles snapshotLevel
        (enforceSnapshotRetention timestamp (files snapshotLevel)).1 snapshotLevel := by
  intro last hlast
  obtain ⟨infos, hinfos⟩ := List.getLast?_eq_some_iff.mp hlast
  rw [enforceSnapshotRetention, deleteLTXFiles_keepNewest _ hinfos h.sorted]
  simp

/-- The TXID returned is right as long as some snapshot is not expired. -/
theorem safeFloor_iff {files : Files} (h : Snapshots (files snapshotLevel)) (timestamp : Nat) :
    SafeFloor files (enforceSnapshotRetention timestamp (files snapshotLevel)) ↔
      files snapshotLevel = [] ∨ ∃ f ∈ files snapshotLevel, timestamp ≤ f.createdAt := by
  have hnewest := enforceSnapshotRetention_newest h timestamp
  rcases List.eq_nil_or_concat (files snapshotLevel) with hnil | ⟨infos, last, hfiles⟩
  · exact ⟨fun _ => Or.inl hnil, fun _ => ⟨hnewest, fun hne => absurd hnil hne⟩⟩
  rw [List.concat_eq_append] at hfiles
  have hpos : ∀ f ∈ files snapshotLevel, 0 < f.maxTXID := fun f hf => by
    have := (h.valid f hf).one_le
    have := (h.valid f hf).min_le_max
    omega
  have hleft := deleteLTXFiles_keepNewest (fun info => decide (info.createdAt < timestamp)) hfiles
    h.sorted
  have hfloor : (enforceSnapshotRetention timestamp (files snapshotLevel)).2 =
    minTXIDOf 0 ((files snapshotLevel).filter fun f => !decide (f.createdAt < timestamp)) := rfl
  constructor
  · intro hsafe
    -- if all are expired the result is zero, and no snapshot ends there
    by_contra hnone
    rw [not_or] at hnone
    have hall : (files snapshotLevel).filter (fun f => !decide (f.createdAt < timestamp)) = [] :=
      List.filter_eq_nil_iff.mpr fun f hf => by
        have := fun hle => hnone.2 ⟨f, hf, hle⟩
        simpa using this
    obtain ⟨f, hf, hzero⟩ := (hsafe.floor hnone.1).1
    rw [hfloor, hall] at hzero
    have hmem := (Files.deleteLTXFiles_sublist snapshotLevel).subset hf
    have := hpos f hmem
    rw [hzero] at this
    exact absurd this (Nat.lt_irrefl 0)
  · rintro (hnil | ⟨f, hf, hfresh⟩)
    · rw [hnil] at hfiles
      simp at hfiles
    · refine ⟨hnewest, fun _ => ?_⟩
      have hmem : f ∈ (files snapshotLevel).filter fun f => !decide (f.createdAt < timestamp) :=
        List.mem_filter.mpr ⟨hf, by simpa using hfresh⟩
      obtain ⟨⟨g, hg, heq⟩, hle⟩ := isLeast_minTXIDOf_zero (List.ne_nil_of_mem hmem)
        fun f hf => hpos f (List.mem_filter.mp hf).1
      have hsubset : ∀ g, g ∈ infos.filter (fun f => !decide (f.createdAt < timestamp)) ++ [last] →
          g = last ∨ g ∈ (files snapshotLevel).filter fun f => !decide (f.createdAt < timestamp) := by
        intro g hg
        rw [hfiles]
        rcases List.mem_append.mp hg with hg | hg
        · exact Or.inr (by simp only [List.filter_append, List.mem_append]; exact Or.inl hg)
        · exact Or.inl (List.mem_singleton.mp hg)
      rw [hfloor, enforceSnapshotRetention, hleft]
      refine ⟨⟨g, ?_, heq⟩, ?_⟩
      · rw [Set.mem_ofPred_eq, hfiles, List.filter_append] at hg
        rcases List.mem_append.mp hg with hg | hg
        · exact List.mem_append_left _ hg
        · exact List.mem_append_right _ (List.mem_filter.mp hg).1
      · rintro t ⟨k, hk, rfl⟩
        rcases hsubset k hk with rfl | hk
        · -- the newest snapshot ends last
          have hfle := hle ⟨f, hmem, rfl⟩
          rw [hfiles] at hf h
          rcases List.mem_append.mp hf with hf | hf
          · exact Nat.le_trans hfle (Nat.le_of_lt (h.maxTXID_lt hf))
          · rwa [List.mem_singleton.mp hf] at hfle
        · exact hle ⟨k, hk, rfl⟩

end Snapshots

/-- Both snapshot retentions keep the newest snapshot and return the least TXID of the
snapshots left exactly when there is no snapshot or one that is not expired. -/
theorem enforceSnapshotRetention_floor_iff (files : Files) (now retention : Nat)
    (h : Snapshots (files snapshotLevel)) :
    (SafeFloor files (enforceSnapshotRetention (now - retention) (files snapshotLevel)) ∧
      SafeFloor files (Compactor.enforceSnapshotRetention now retention (files snapshotLevel))) ↔
    files snapshotLevel = [] ∨ ∃ f ∈ files snapshotLevel, now - retention ≤ f.createdAt := by
  rw [Compactor.enforceSnapshotRetention_eq, and_self, safeFloor_iff h]

/-- One of two snapshots is expired. -/
def oneExpired : Files := Function.update (fun _ => []) snapshotLevel
  [⟨9, 1, 3, 10, 1⟩, ⟨9, 1, 5, 10, 4⟩]

theorem enforceSnapshotRetention_floor_oneExpired :
    SafeFloor oneExpired (enforceSnapshotRetention (5 - 2) (oneExpired snapshotLevel)) ∧
      SafeFloor oneExpired
        (Compactor.enforceSnapshotRetention 5 2 (oneExpired snapshotLevel)) :=
  (enforceSnapshotRetention_floor_iff oneExpired 5 2
    ⟨by simp [oneExpired, FileInfo.KeyLT], by decide, by decide⟩).mpr
    (Or.inr ⟨⟨9, 1, 5, 10, 4⟩, by decide, by decide⟩)

/-- Both snapshots are expired: the newer one stays, but the result is zero. -/
theorem allExpired_floor : ¬ ∀ (files : Files) (timestamp : Nat),
    Snapshots (files snapshotLevel) →
      SafeFloor files (enforceSnapshotRetention timestamp (files snapshotLevel)) := by
  intro h
  have hsafe := h oneExpired 9
    ⟨by simp [oneExpired, FileInfo.KeyLT], by decide, by decide⟩
  obtain ⟨f, hf, hzero⟩ := (hsafe.floor (by decide)).1
  have hleft : oneExpired.deleteLTXFiles snapshotLevel
      (enforceSnapshotRetention 9 (oneExpired snapshotLevel)).1 snapshotLevel =
        [⟨9, 1, 5, 10, 4⟩] := by decide
  rw [hleft] at hf
  obtain rfl : f = ⟨9, 1, 5, 10, 4⟩ := by simpa using hf
  exact absurd hzero (by decide)

/-! ## Level 0 retention -/

/-- `DB.EnforceL0RetentionByTime` with the retention that the database is configured with. -/
def DB.enforceL0RetentionByTime (l0Retention : Int) (now : Nat)
    (localModTime : FileInfo → Option Nat) (l1 l0 : List FileInfo) : List FileInfo :=
  if l0Retention ≤ 0 then []
  else Litestream.enforceL0RetentionByTime (now - l0Retention.toNat) localModTime l1 l0

/-- The variables of the loop. -/
structure L0Scan where
  deleted : List FileInfo
  lastInfo : Option FileInfo
  processedAll : Bool

/-- The loop stops at the first file created after the threshold. -/
def L0Scan.run (threshold maxL1TXID : Nat) (s : L0Scan) : List FileInfo → L0Scan
  | [] => s
  | info :: infos =>
      let createdAt := if info.createdAt = 0 then threshold else info.createdAt
      if createdAt > threshold then { s with lastInfo := some info, processedAll := false }
      else
        L0Scan.run threshold maxL1TXID
          { s with
            deleted := if info.maxTXID ≤ maxL1TXID then s.deleted ++ [info] else s.deleted
            lastInfo := some info } infos

/-- `Compactor.EnforceL0Retention`: the level 0 files to delete. -/
def Compactor.enforceL0Retention (retention : Int) (now : Nat) (l1 l0 : List FileInfo) :
    List FileInfo :=
  if retention ≤ 0 then []
  else
    let maxL1TXID := maxTXIDOf l1
    if maxL1TXID = 0 then []
    else
      let s := L0Scan.run (now - retention.toNat) maxL1TXID ⟨[], none, true⟩ l0
      if s.processedAll = true then keepLast s.deleted s.lastInfo else s.deleted

section LevelZero

variable {threshold maxL1TXID : Nat} {l0 l1 : List FileInfo}

/-- What the loop finds: the files that level 1 covers among those before the first that is
too recent. -/
theorem L0Scan.run_eq (s : L0Scan) (h : ∀ f ∈ l0, f.createdAt ≠ 0) :
    (L0Scan.run threshold maxL1TXID s l0).deleted = s.deleted ++
        (l0.takeWhile fun f => f.createdAt ≤ threshold).filter (·.maxTXID ≤ maxL1TXID) ∧
      ((∀ f ∈ l0, f.createdAt ≤ threshold) →
        (L0Scan.run threshold maxL1TXID s l0).processedAll = s.processedAll ∧
        (L0Scan.run threshold maxL1TXID s l0).lastInfo = l0.getLast?.or s.lastInfo) ∧
      (¬ (∀ f ∈ l0, f.createdAt ≤ threshold) →
        (L0Scan.run threshold maxL1TXID s l0).processedAll = false) := by
  induction l0 generalizing s with
  | nil => simp [L0Scan.run]
  | cons info infos ih =>
      have hinfo := h info List.mem_cons_self
      rw [L0Scan.run]
      simp only [hinfo, if_false]
      by_cases hrecent : info.createdAt ≤ threshold
      · rw [if_neg (Nat.not_lt.mpr hrecent)]
        obtain ⟨hdeleted, hall, hsome⟩ := ih
          { s with
            deleted := if info.maxTXID ≤ maxL1TXID then s.deleted ++ [info] else s.deleted
            lastInfo := some info } fun f hf => h f (List.mem_cons_of_mem _ hf)
        have hlast : infos.getLast?.or (some info) = (info :: infos).getLast?.or s.lastInfo := by
          rw [List.getLast?_cons, Option.some_or]
          cases infos.getLast? <;> rfl
        refine ⟨?_, fun hle => ?_, fun hle => hsome fun hle' => hle ?_⟩
        · rw [hdeleted, List.takeWhile_cons_of_pos (by simpa using hrecent)]
          by_cases hcovered : info.maxTXID ≤ maxL1TXID <;> simp [hcovered]
        · rw [← hlast]
          exact hall fun f hf => hle f (List.mem_cons_of_mem _ hf)
        · intro f hf
          rcases List.mem_cons.mp hf with rfl | hf
          · exact hrecent
          · exact hle' f hf
      · rw [if_pos (Nat.not_le.mp hrecent), List.takeWhile_cons_of_neg (by simpa using hrecent)]
        exact ⟨by simp, fun hle => absurd (hle info List.mem_cons_self) hrecent, fun _ => rfl⟩

/-- A file with a creation time needs no modification time. -/
theorem takeWhile_createdAt (localModTime : FileInfo → Option Nat) (h : ∀ f ∈ l0, f.createdAt ≠ 0) :
    (l0.takeWhile fun info => decide ((if info.createdAt = 0 then
      (localModTime info).getD threshold else info.createdAt) ≤ threshold)) =
        l0.takeWhile fun f => f.createdAt ≤ threshold := by
  induction l0 with
  | nil => rfl
  | cons info infos ih =>
      have hinfo := h info List.mem_cons_self
      rw [List.takeWhile_cons, List.takeWhile_cons, ih fun f hf => h f (List.mem_cons_of_mem _ hf)]
      simp only [hinfo, if_false]

/-- The two level 0 retentions delete the same files, as long as every file has a creation
time. -/
theorem Compactor.enforceL0Retention_eq (retention : Int) (now : Nat)
    (localModTime : FileInfo → Option Nat) (h : ∀ f ∈ l0, f.createdAt ≠ 0) :
    Compactor.enforceL0Retention retention now l1 l0 =
      DB.enforceL0RetentionByTime retention now localModTime l1 l0 := by
  rw [Compactor.enforceL0Retention, DB.enforceL0RetentionByTime]
  split
  · rfl
  rw [Litestream.enforceL0RetentionByTime]
  dsimp only
  split
  · rfl
  generalize now - retention.toNat = threshold
  obtain ⟨hdeleted, hall, hsome⟩ :=
    @L0Scan.run_eq threshold (maxTXIDOf l1) l0 ⟨[], none, true⟩ h
  rw [takeWhile_createdAt localModTime h, hdeleted, List.nil_append]
  by_cases hle : ∀ f ∈ l0, f.createdAt ≤ threshold
  · obtain ⟨hprocessed, hlast⟩ := hall hle
    have htake : (l0.takeWhile fun f => decide (f.createdAt ≤ threshold)) = l0 :=
      List.takeWhile_eq_self_iff.mpr fun f hf => by simpa using hle f hf
    rw [if_pos hprocessed, hlast, Option.or_none, htake, keepLast_filter, keepNewest]
    simp
  · have hshort : ¬ (l0.takeWhile fun f => decide (f.createdAt ≤ threshold)).length = l0.length := by
      intro hlen
      have htake := ( List.takeWhile_prefix fun f : FileInfo =>
        decide (f.createdAt ≤ threshold)).eq_of_length hlen
      exact hle fun f hf => by simpa using List.takeWhile_eq_self_iff.mp htake f hf
    rw [if_neg (by simp [hsome hle]), if_neg fun h => hshort h.1]

/-- A file that level 0 retention deletes was not created after the threshold. -/
theorem createdAt_le_of_deleted {localModTime : FileInfo → Option Nat}
    (h : ∀ f ∈ l0, f.createdAt ≠ 0) {f : FileInfo}
    (hf : f ∈ Litestream.enforceL0RetentionByTime threshold localModTime l1 l0) :
    f.createdAt ≤ threshold := by
  rw [Litestream.enforceL0RetentionByTime] at hf
  dsimp only at hf
  split at hf
  · cases hf
  rw [takeWhile_createdAt localModTime h] at hf
  have hscanned : f ∈ (l0.takeWhile fun f => decide (f.createdAt ≤ threshold)).filter
      (fun info => decide (info.maxTXID ≤ maxTXIDOf l1)) := by
    split at hf
    · exact List.dropLast_subset _ hf
    · exact hf
  simpa using List.mem_takeWhile_imp (List.mem_filter.mp hscanned).1

end LevelZero

/-- On a contiguous level 0 whose files have creation times, the two level 0 retentions
delete the same files: a prefix without the newest file, of files that level 1 covers and
that were not created after the threshold.  What is left is contiguous. -/
theorem enforceL0Retention_agree (files : Files) (retention : Int) (now cur : Nat)
    (localModTime : FileInfo → Option Nat) (htiled : FileInfo.Tiled cur (files 0))
    (hv : ∀ f ∈ files 0, f.Valid) (hcreated : ∀ f ∈ files 0, f.createdAt ≠ 0) :
    Compactor.enforceL0Retention retention now (files 1) (files 0) =
      DB.enforceL0RetentionByTime retention now localModTime (files 1) (files 0) ∧
    ∃ keep,
      files 0 = DB.enforceL0RetentionByTime retention now localModTime (files 1) (files 0) ++
        keep ∧
      (∀ f ∈ DB.enforceL0RetentionByTime retention now localModTime (files 1) (files 0),
        f.maxTXID ≤ FileInfo.top (files 1) ∧ f.createdAt ≤ now - retention.toNat) ∧
      (∀ last ∈ (files 0).getLast?, last ∈ keep) ∧
      files.deleteLTXFiles 0
        (DB.enforceL0RetentionByTime retention now localModTime (files 1) (files 0)) 0 = keep ∧
      ∃ cur', FileInfo.Tiled cur' keep := by
  refine ⟨Compactor.enforceL0Retention_eq retention now localModTime hcreated, ?_⟩
  have hasc : FileInfo.Ascending (files 0) := htiled.ascending fun f hf => (hv f hf).min_le_max
  have hspec : (∃ keep, files 0 =
      DB.enforceL0RetentionByTime retention now localModTime (files 1) (files 0) ++ keep ∧
        (files 0 ≠ [] → keep ≠ [])) ∧
      ∀ f ∈ DB.enforceL0RetentionByTime retention now localModTime (files 1) (files 0),
        f.maxTXID ≤ FileInfo.top (files 1) ∧ f.createdAt ≤ now - retention.toNat := by
    rw [DB.enforceL0RetentionByTime]
    split
    · exact ⟨⟨files 0, rfl, id⟩, by simp⟩
    · obtain ⟨hsplit, hcovered⟩ := enforceL0RetentionByTime_prefix (now - retention.toNat)
        localModTime (files 1) hasc hv
      exact ⟨hsplit, fun f hf => ⟨hcovered f hf, createdAt_le_of_deleted hcreated hf⟩⟩
  obtain ⟨⟨keep, hkeep, hne⟩, hdeleted⟩ := hspec
  refine ⟨keep, hkeep, hdeleted, fun last hlast => ?_, ?_, ?_⟩
  · have hkeep_ne : keep ≠ [] := hne fun hnil => by
      rw [hnil] at hlast
      cases hlast
    rw [hkeep, List.getLast?_append, List.getLast?_eq_some_getLast hkeep_ne, Option.some_or] at hlast
    obtain rfl := Option.some.inj hlast
    exact List.getLast_mem hkeep_ne
  · have hrest := Files.deleteLTXFiles_prefix FileInfo.createdAt hkeep (hasc.keyLT hv)
    rwa [show FileInfo.stamp FileInfo.createdAt = id from rfl, List.map_id] at hrest
  · rw [hkeep] at htiled
    exact ⟨_, (Cover.tiled_append.mp htiled).2⟩

/-- Level 1 has the first two of three files. -/
def threeAtZero : Files := fun n =>
  if n = 0 then [⟨0, 1, 1, 10, 3⟩, ⟨0, 2, 2, 10, 2⟩, ⟨0, 3, 3, 10, 9⟩]
  else if n = 1 then [⟨1, 1, 2, 20, 4⟩] else []

theorem enforceL0Retention_agree_threeAtZero :
    Compactor.enforceL0Retention 2 5 (threeAtZero 1) (threeAtZero 0) =
      DB.enforceL0RetentionByTime 2 5 (fun _ => none) (threeAtZero 1) (threeAtZero 0) :=
  (enforceL0Retention_agree threeAtZero 2 5 0 (fun _ => none)
    ⟨rfl, rfl, rfl, trivial⟩ (by decide) (by decide)).1

/-- A file created at the threshold is deleted too, so it need not be older. -/
theorem deleted_at_threshold : ¬ ∀ (files : Files) (retention : Int) (now cur : Nat),
    FileInfo.Tiled cur (files 0) → (∀ f ∈ files 0, f.Valid) → (∀ f ∈ files 0, f.createdAt ≠ 0) →
      ∀ f ∈ Compactor.enforceL0Retention retention now (files 1) (files 0),
        f.createdAt < now - retention.toNat := by
  intro h
  have hdeleted := h threeAtZero 2 5 0 ⟨rfl, rfl, rfl, trivial⟩ (by decide) (by decide)
    ⟨0, 1, 1, 10, 3⟩ (by decide)
  exact absurd hdeleted (by decide)

end Litestream
