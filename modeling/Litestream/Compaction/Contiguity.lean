import Litestream.Compaction.Steps

/-!
# Contiguous levels

A compaction level is contiguous when its files tile, and the next compaction goes on
where a level ends as long as the level below continues.  Both hold after any run whose
retention by TXID deletes only files that the next level has taken up
(`contiguous_run`).

The source does not check that condition.  Level 0 retention compares each file with the
end of level 1, but retention by TXID compares it with a snapshot only, so a level that
is compacted more slowly than snapshots are taken can lose files, and its next file then
leaves a gap (`contiguity_lost`).
-/

namespace Litestream

namespace Maintenance

variable {cfg : Config} {s s₀ s' : State} {a : Action}

/-- Retention by TXID deletes only files that the next compaction level has taken up. -/
def Promoted (cfg : Config) (s : State) : Action → Prop
  | .enforceRetentionByTXID level =>
      cfg.retentionEnabled = true → level < cfg.maxLevel →
        ∀ f ∈ (s.files level).dropLast, f.maxTXID < s.minSnapshotTXID →
          f.maxTXID ≤ FileInfo.top (s.files (level + 1))
  | _ => True

instance (cfg : Config) (s : State) : ∀ a, Decidable (Promoted cfg s a)
  | .enforceRetentionByTXID level =>
      inferInstanceAs (Decidable (cfg.retentionEnabled = true → level < cfg.maxLevel →
        ∀ f ∈ (s.files level).dropLast, f.maxTXID < s.minSnapshotTXID →
          f.maxTXID ≤ FileInfo.top (s.files (level + 1))))
  | .sync _ | .upload _ | .compact _ _ | .snapshot _ _ | .enforceL0RetentionByTime _ _ _
  | .enforceSnapshotRetention _ _ => .isTrue trivial

/-- Every compaction level tiles, and every level below the last one continues. -/
structure Contiguous (cfg : Config) (s : State) : Prop where
  inv : s.Inv
  tiled : ∀ n < cfg.maxLevel, ∃ cur, FileInfo.Tiled cur (s.files (n + 1))
  continues : ∀ n < cfg.maxLevel, Continues s.files n

theorem Contiguous.empty (cfg : Config) : Contiguous cfg State.empty :=
  ⟨State.empty_inv, fun _ _ => ⟨0, trivial⟩, fun _ _ => Cover.Resumes.nil⟩

/-- With retention disabled, retention by TXID changes no file. -/
theorem files_of_disabled {level : Nat} (h : cfg.retentionEnabled = false)
    (hs : step cfg s (.enforceRetentionByTXID level) = some s') : s'.files = s.files := by
  simp only [step, Option.ite_none_right_eq_some, Option.some.injEq] at hs
  obtain ⟨-, rfl⟩ := hs
  simp [remove, h]

theorem Contiguous.step (h : Contiguous cfg s) (hG : Promoted cfg s a)
    (hs : step cfg s a = some s') : Contiguous cfg s' := by
  obtain ⟨hinv, heffect⟩ := step_effect h.inv hs
  have hlt := cfg.maxLevel_lt
  refine ⟨hinv, fun n hn => ?_, fun n hn => ?_⟩
  · obtain ⟨cur, ht⟩ := h.tiled n hn
    obtain ⟨cur', ht', -⟩ := heffect.tiled h.inv (by omega) (h.continues n hn) ht
    exact ⟨cur', ht'⟩
  · by_cases hdis : a = .enforceRetentionByTXID n ∧ cfg.retentionEnabled = false
    · obtain ⟨rfl, hdis⟩ := hdis
      rw [Continues, files_of_disabled hdis hs]
      exact h.continues n hn
    · refine heffect.continues h.inv (by omega) (h.continues n hn)
        (fun m hm => h.continues m (by omega)) fun ha => ?_
      subst ha
      exact hG (by simpa using hdis) hn

/-- A step that meets `Promoted` deletes a prefix of each level, made of files that the
next level has taken up, and adds files at the end. -/
theorem Effect.prefix_absorbed (h : s.Inv) (he : Effect s s' a)
    (hG : ∀ level, a = .enforceRetentionByTXID level → level < cfg.maxLevel →
      ∀ f ∈ (s.files level).dropLast, f.maxTXID < s.minSnapshotTXID →
        f.maxTXID ≤ FileInfo.top (s.files (level + 1)))
    {n : Nat} (hn : n < snapshotLevel) :
    ∃ del keep added, s.files n = del ++ keep ∧ s'.files n = keep ++ added ∧
      (n < cfg.maxLevel → ∀ f ∈ del, f.maxTXID ≤ FileInfo.top (s.files (n + 1))) := by
  cases he with
  | same hsame => exact ⟨[], s.files n, [], rfl, by rw [hsame n hn, List.append_nil], by simp⟩
  | @uploaded size hfiles =>
      by_cases h0 : n = 0
      · subst h0
        have hlt : FileInfo.top (s.files 0) < s.uploaded + 1 := by
          rw [h.top_zero]
          exact Nat.lt_succ_self _
        exact ⟨[], s.files 0, _, rfl,
          by rw [hfiles, h.levels.writeLTXFile_append (n := 0) rfl hlt], by simp⟩
      · refine ⟨[], s.files n, [], rfl, ?_, by simp⟩
        rw [hfiles, Files.writeLTXFile_other (Ne.symm h0), List.append_nil]
  | @compacted dstLevel _ merged hpos hlt hne _ hfiles =>
      by_cases hd : dstLevel = n
      · subst hd
        obtain ⟨-, hmin, -⟩ := h.levels.compacted_spec hne merged
        exact ⟨[], s.files dstLevel, _, rfl,
          by rw [hfiles, h.levels.writeLTXFile_append (n := dstLevel) rfl hmin], by simp⟩
      · refine ⟨[], s.files n, [], rfl, ?_, by simp⟩
        rw [hfiles, Files.writeLTXFile_other hd, List.append_nil]
  | @prunedZero _ _ _ del hdel hsplit _ hother =>
      by_cases h0 : n = 0
      · subst h0
        exact ⟨del, s'.files 0, [], hsplit, by simp, fun _ => hdel⟩
      · exact ⟨[], s.files n, [], rfl, by rw [hother n h0, List.append_nil], by simp⟩
  | @prunedByTXID level del hpos hlt hdel hsplit _ hother =>
      by_cases hd : n = level
      · subst hd
        exact ⟨del, s'.files n, [], hsplit, by simp, fun hlevel f hf =>
          hG n rfl hlevel f (hdel f hf).1 (hdel f hf).2⟩
      · exact ⟨[], s.files n, [], rfl, by rw [hother n hd, List.append_nil], by simp⟩

/-- Along a run whose retention by TXID deletes only files that the next level has taken
up, every compaction level stays consistent, the next compaction of every level goes on
where the level ends, and every step deletes only a prefix that the next level has taken
up. -/
theorem contiguous_run {as : List Action} (hinv : s₀.Inv)
    (hverify : ∀ n < cfg.maxLevel, verifyLevelConsistency (s₀.files (n + 1)) = .ok ())
    (hcontinues : ∀ n < cfg.maxLevel, Continues s₀.files n)
    (hG : Run.Along (step cfg) (Promoted cfg) s₀ as)
    (hrun : Run.run (step cfg) s₀ as = some s) :
    (∀ n < cfg.maxLevel, verifyLevelConsistency (s.files (n + 1)) = .ok ()) ∧
    (∀ n < cfg.maxLevel, FileInfo.Tiled (FileInfo.top (s.files (n + 1)))
      (compactionSources s.files (n + 1))) ∧
    ∀ a s', Promoted cfg s a → step cfg s a = some s' → ∀ n ≤ cfg.maxLevel,
      ∃ del keep added, s.files n = del ++ keep ∧ s'.files n = keep ++ added ∧
        (n < cfg.maxLevel → ∀ f ∈ del, f.maxTXID ≤ FileInfo.top (s.files (n + 1))) := by
  have hlevel := cfg.maxLevel_lt
  have hbound : ∀ {s : State}, s.Inv → ∀ n < cfg.maxLevel, ∀ f ∈ s.files (n + 1),
      f.maxTXID + 1 < txidLimit := by
    intro s h n hn f hf
    have hle : f.maxTXID ≤ FileInfo.top (s.files (n + 1)) := FileInfo.le_top hf
    have := h.top_le (n := n + 1) (by omega)
    have := h.uploaded_le
    have := h.dbPos_lt
    omega
  have hstart : Contiguous cfg s₀ := ⟨hinv, fun n hn =>
    (verifyLevelConsistency_eq_ok (hinv.levels.wf.valid _) (hbound hinv n hn)).mp (hverify n hn),
    hcontinues⟩
  have h : Contiguous cfg s := Run.run_induction (fun h hG hs => h.step hG hs) hstart hG hrun
  refine ⟨fun n hn => ?_, fun n hn => ?_, fun a s' hGa hs n hn => ?_⟩
  · exact (verifyLevelConsistency_eq_ok (h.inv.levels.wf.valid _) (hbound h.inv n hn)).mpr
      (h.tiled n hn)
  · exact (h.continues n hn).tiled_filter (h.inv.levels.min_le_max n)
  · by_cases hdis : ∃ level, a = .enforceRetentionByTXID level ∧ cfg.retentionEnabled = false
    · obtain ⟨level, rfl, hdis⟩ := hdis
      refine ⟨[], s.files n, [], rfl, ?_, by simp⟩
      rw [files_of_disabled hdis hs, List.append_nil]
    · refine (step_effect h.inv hs).2.prefix_absorbed h.inv (fun level ha => ?_) (by omega)
      subst ha
      exact hGa (by simpa using fun h => hdis ⟨level, rfl, h⟩)

/-- Both compaction levels take up two transactions before a snapshot and retention. -/
def promotedActions : List Action :=
  [.sync 1, .upload 10, .compact 1 fun _ => some (10, 1), .sync 2, .upload 10,
    .compact 1 fun _ => some (10, 2), .compact 2 fun _ => some (20, 1), .snapshot 40 3,
    .enforceSnapshotRetention 1 FileInfo.createdAt, .enforceRetentionByTXID 1]

theorem contiguous_run_sample :
    ∃ s, Run.run (step twoLevels) State.empty promotedActions = some s ∧
      ∀ n < 2, verifyLevelConsistency (s.files (n + 1)) = .ok () := by
  obtain ⟨s, hrun⟩ : ∃ s, Run.run (step twoLevels) State.empty promotedActions = some s :=
    ⟨_, rfl⟩
  exact ⟨s, hrun, (contiguous_run State.empty_inv (fun _ _ => rfl)
    (fun _ _ => Cover.Resumes.nil) (by decide) hrun).1⟩

/-- Level 2 is compacted once, and a snapshot is taken at the third transaction. -/
def lostActions : List Action :=
  [.sync 1, .upload 10, .compact 1 fun _ => some (10, 1), .compact 2 fun _ => some (10, 1),
    .sync 2, .upload 10, .compact 1 fun _ => some (10, 2),
    .sync 3, .upload 10, .compact 1 fun _ => some (10, 3), .snapshot 40 3,
    .enforceSnapshotRetention 1 FileInfo.createdAt, .enforceRetentionByTXID 1,
    .compact 2 fun _ => some (10, 3)]

/-- From an empty replica, retention by TXID can delete a file of level 1 that level 2 has
not taken up.  The next compaction of level 2 then leaves a gap. -/
theorem contiguity_lost : ¬ ∀ (cfg : Config) (as : List Action) (s : State),
    Run.run (step cfg) State.empty as = some s →
      ∀ level, 0 < level → level ≤ cfg.maxLevel →
        verifyLevelConsistency (s.files level) = .ok () := by
  intro h
  obtain ⟨s, hrun, hgap⟩ : ∃ s, Run.run (step twoLevels) State.empty lostActions = some s ∧
      verifyLevelConsistency (s.files 2) = .error (.gap 1 3) := ⟨_, rfl, by decide⟩
  rw [h twoLevels lostActions s hrun 2 (by decide) (by decide)] at hgap
  cases hgap

end Maintenance

end Litestream
