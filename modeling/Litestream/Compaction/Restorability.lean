import Litestream.Compaction.Steps
import Litestream.Plan.RestorePlan

/-!
# Maintenance keeps a replica restorable

After any run from an empty replica, the newest snapshot, the files of level 1 and the
files of level 0 that level 1 has not taken up form one linked list
(`Restorable.linked`).  So a restore of the latest state finds the last transaction
uploaded or snapshotted (`restorable_run`).
-/

namespace Litestream

namespace Maintenance

variable {cfg : Config} {s s' : State} {a : Action}

/-- Level 0 continues into level 1, and level 1 tiles from a snapshotted transaction. -/
structure Restorable (s : State) : Prop where
  inv : s.Inv
  continues : Continues s.files 0
  tiled : ∃ cur ≤ s.snapshotted, FileInfo.Tiled cur (s.files 1)

theorem Restorable.empty : Restorable State.empty :=
  ⟨State.empty_inv, Cover.Resumes.nil, 0, Nat.le_refl _, trivial⟩

/-- Snapshots are taken at growing positions. -/
theorem step_snapshotted_le (h : s.Inv) (hs : step cfg s a = some s') :
    s.snapshotted ≤ s'.snapshotted := by
  cases a with
  | snapshot size now =>
      simp only [step, Option.ite_none_right_eq_some, Option.some.injEq] at hs
      obtain ⟨-, rfl⟩ := hs
      exact h.snapshotted_le
  | sync now =>
      simp only [step, Option.ite_none_right_eq_some, Option.some.injEq] at hs
      obtain ⟨-, rfl⟩ := hs
      exact Nat.le_refl _
  | upload size =>
      simp only [step, Option.ite_none_right_eq_some, Option.some.injEq] at hs
      obtain ⟨-, rfl⟩ := hs
      exact Nat.le_refl _
  | compact dstLevel merge =>
      simp only [step, Option.ite_none_right_eq_some, Option.some.injEq] at hs
      obtain ⟨-, rfl⟩ := hs
      exact Nat.le_refl _
  | enforceL0RetentionByTime threshold listedAt localModTime =>
      simp only [step, Option.some.injEq] at hs
      subst hs
      exact Nat.le_refl _
  | enforceSnapshotRetention timestamp listedAt =>
      simp only [step, Option.some.injEq] at hs
      subst hs
      exact Nat.le_refl _
  | enforceRetentionByTXID level =>
      simp only [step, Option.ite_none_right_eq_some, Option.some.injEq] at hs
      obtain ⟨-, rfl⟩ := hs
      exact Nat.le_refl _

theorem Restorable.step (h : Restorable s) (hs : step cfg s a = some s') : Restorable s' := by
  obtain ⟨hinv, heffect⟩ := step_effect h.inv hs
  obtain ⟨cur, hcur, ht⟩ := h.tiled
  refine ⟨hinv, ?_, ?_⟩
  · refine heffect.continues h.inv (by decide) h.continues (by simp) fun ha => ?_
    -- retention by TXID never reaches level 0
    rw [ha] at hs
    simp [Maintenance.step] at hs
  · obtain ⟨cur', ht', hcur'⟩ := heffect.tiled h.inv (by decide) h.continues ht
    have hmono := step_snapshotted_le h.inv hs
    have hmin := h.inv.minSnapshot_le
    exact ⟨cur', by omega, ht'⟩

/-- Every file listed ends at or before the highest TXID. -/
theorem State.Inv.listed_le (h : s.Inv) {f : FileInfo}
    (hf : (s.files.listings h.levels.wf).Listed f) : f.maxTXID ≤ s.highest := by
  obtain ⟨n, hn, hf⟩ := hf
  have hle : f.maxTXID ≤ FileInfo.top (s.files n) := FileInfo.le_top hf
  by_cases hsnap : n = snapshotLevel
  · subst hsnap
    rw [h.top_snapshot] at hle
    exact Nat.le_trans hle (Nat.le_max_right _ _)
  · have := h.top_le (n := n) (by omega)
    exact Nat.le_trans (Nat.le_trans hle this) (Nat.le_max_left _ _)

/-- The newest snapshot, if there is one. -/
theorem State.Inv.exists_snapshot (h : s.Inv) :
    ∃ q, (∀ f ∈ q, f ∈ s.files snapshotLevel) ∧ FileInfo.Linked 0 q ∧
      FileInfo.reach 0 q = s.snapshotted := by
  by_cases h0 : s.snapshotted = 0
  · exact ⟨[], by simp, trivial, h0.symm⟩
  · have htop := h.top_snapshot
    obtain ⟨f, hf, hmax⟩ := Cover.exists_top
      (show 0 < Cover.top FileInfo.maxTXID (s.files snapshotLevel) by
        simp only [FileInfo.top] at htop
        omega)
    exact ⟨[f], by simpa using hf, ⟨Nat.le_of_eq (h.levels.wf.snapshot_min f hf), trivial⟩,
      hmax.trans htop⟩

/-- Level 1 and the rest of level 0 lead from the newest snapshot to the last upload. -/
theorem Restorable.tail (h : Restorable s) :
    ∃ q, (∀ f ∈ q, ∃ n < snapshotLevel, f ∈ s.files n) ∧ FileInfo.Linked s.snapshotted q ∧
      s.uploaded ≤ FileInfo.reach s.snapshotted q := by
  obtain ⟨cur, hcur, ht⟩ := h.tiled
  have hmm := h.inv.levels.min_le_max
  set rest := (s.files 0).filter fun f => FileInfo.top (s.files 1) + 1 ≤ f.minTXID with hrest
  have hone : FileInfo.Linked s.snapshotted (s.files 1) := ht.linked.mono hcur
  have hend : FileInfo.top (s.files 1) ≤ FileInfo.reach s.snapshotted (s.files 1) := by
    refine Nat.le_trans ?_ (Cover.reach_mono hcur (s.files 1))
    rw [ht.reach_eq (hmm 1)]
    exact Nat.le_max_right _ _
  have hzero : FileInfo.Linked (FileInfo.reach s.snapshotted (s.files 1)) rest :=
    (h.continues.tiled_filter (hmm 0)).linked.mono hend
  have hup : s.uploaded ≤ FileInfo.reach (FileInfo.reach s.snapshotted (s.files 1)) rest := by
    refine Nat.le_trans (Nat.le_of_eq ?_) (Cover.reach_mono hend rest)
    rw [← h.inv.top_zero]
    exact (h.continues.reach_filter (hmm 0) (h.inv.levels.top_le 0 (by decide))).symm
  refine ⟨s.files 1 ++ rest, fun f hf => ?_, Cover.linked_append.mpr ⟨hone, hzero⟩, ?_⟩
  · rcases List.mem_append.mp hf with hf | hf
    · exact ⟨1, by decide, hf⟩
    · exact ⟨0, by decide, (List.mem_filter.mp hf).1⟩
  · rw [FileInfo.reach, Cover.reach_append]
    exact hup

/-- The newest snapshot, level 1 and the rest of level 0 are linked and reach the highest
TXID. -/
theorem Restorable.linked (h : Restorable s) :
    ∃ q, (∀ f ∈ q, (s.files.listings h.inv.levels.wf).Listed f) ∧ FileInfo.Linked 0 q ∧
      s.highest ≤ FileInfo.reach 0 q := by
  obtain ⟨snapshot, hmem, hlinked, hreach⟩ := h.inv.exists_snapshot
  have hsnap : ∀ f ∈ snapshot, (s.files.listings h.inv.levels.wf).Listed f := fun f hf =>
    ⟨snapshotLevel, Nat.le_refl _, hmem f hf⟩
  by_cases hle : s.uploaded ≤ s.snapshotted
  · exact ⟨snapshot, hsnap, hlinked, Nat.le_of_eq ((Nat.max_eq_right hle).trans hreach.symm)⟩
  · obtain ⟨tail, hlisted, htail, hup⟩ := h.tail
    refine ⟨snapshot ++ tail, fun f hf => ?_, ?_, ?_⟩
    · rcases List.mem_append.mp hf with hf | hf
      · exact hsnap f hf
      · obtain ⟨n, hn, hf⟩ := hlisted f hf
        exact ⟨n, Nat.le_of_lt hn, hf⟩
    · refine Cover.linked_append.mpr ⟨hlinked, ?_⟩
      rwa [show Cover.reach FileInfo.maxTXID 0 snapshot = s.snapshotted from hreach]
    · rw [FileInfo.reach, Cover.reach_append,
        show Cover.reach FileInfo.maxTXID 0 snapshot = s.snapshotted from hreach, State.highest]
      exact Nat.max_le.mpr ⟨hup, by simp only [FileInfo.reach] at hup; omega⟩

/-- After any run from an empty replica, once a level 0 file or a snapshot is uploaded, a
restore of the latest state succeeds and ends at the last transaction ever uploaded or
snapshotted. -/
theorem restorable_run (cfg : Config) {as : List Action}
    (hrun : Run.run (step cfg) State.empty as = some s) (hpos : 0 < s.highest) :
    ∃ p, calcRestorePlan s.files.client 0 0 = .ok p ∧ FileInfo.sliceMaxTXID p = s.highest := by
  have h : Restorable s := Run.run_invariant (fun h hs => h.step hs) Restorable.empty hrun
  obtain ⟨q, hmem, hlinked, hreach⟩ := h.linked
  have hlt : s.highest + 1 < txidLimit := by
    have := h.inv.dbPos_lt
    have := h.inv.uploaded_le
    have := h.inv.snapshotted_le
    simp only [State.highest]
    omega
  obtain ⟨p, hp, hend⟩ := calcRestorePlan_latest_of_linked hlinked hmem hreach
    (fun f hf => h.inv.listed_le hf) hpos hlt
  exact ⟨p, hp, (FileInfo.sliceMaxTXID_eq_reach p).trans hend⟩

/-- Two transactions, of which the first is compacted and snapshotted before retention
deletes its level 0 file. -/
def sampleActions : List Action :=
  [.sync 1, .upload 10, .compact 1 fun _ => some (10, 1), .snapshot 40 2, .sync 3, .upload 10,
    .compact 1 fun _ => some (10, 3), .enforceL0RetentionByTime 5 FileInfo.createdAt fun _ => none,
    .enforceSnapshotRetention 2 FileInfo.createdAt, .enforceRetentionByTXID 1]

theorem restorable_run_sample :
    ∃ s, Run.run (step twoLevels) State.empty sampleActions = some s ∧
      ∃ p, calcRestorePlan s.files.client 0 0 = .ok p ∧
        FileInfo.sliceMaxTXID p = s.highest := by
  obtain ⟨s, hrun, hpos⟩ : ∃ s, Run.run (step twoLevels) State.empty sampleActions = some s ∧
      0 < s.highest := ⟨_, rfl, by decide⟩
  exact ⟨s, hrun, restorable_run twoLevels hrun hpos⟩

end Maintenance

end Litestream
